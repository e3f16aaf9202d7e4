import Mathlib.Data.Set.Card
import Mathlib.Data.Nat.Cast.Basic
import Mathlib.Data.ENat.Basic
import Mathlib.Algebra.BigOperators.Ring.Finset

/-!
# Positions in a value with children

A value that is made of others is a tree: `children` lists what it is made of, and a
position is the list of the numbers of the children on the way down. A function that
puts what it finds at a value before what it finds below it finds each thing once for
every position where it is.
-/

namespace Sequence

variable {α β : Type*} (children : α → List α)

/-- The value at a position, if there is one. -/
def descend : α → List ℕ → Option α
  | a, [] => some a
  | a, n :: p => (children a)[n]?.bind fun b => descend b p

/-- The positions below a value at which `P` holds. -/
def positions (P : α → Prop) (a : α) : Set (List ℕ) :=
  {p | ∃ b, descend children a p = some b ∧ P b}

/-- The positions below the values of a list, the number of the value first. -/
def positionsIn (P : α → Prop) (as : List α) : Set (List ℕ) :=
  {p | ∃ n q a, p = n :: q ∧ as[n]? = some a ∧ q ∈ positions children P a}

variable {children} {P : α → Prop}

theorem mem_positions_nil {a : α} : [] ∈ positions children P a ↔ P a := by
  simp [positions, descend]

theorem mem_positions_cons {a : α} {n : ℕ} {p : List ℕ} :
    n :: p ∈ positions children P a ↔ n :: p ∈ positionsIn children P (children a) := by
  simp only [positions, positionsIn, descend, Set.mem_ofPred_eq, Option.bind_eq_some_iff]
  constructor
  · rintro ⟨b, ⟨a', ha', hb⟩, hP⟩
    exact ⟨n, p, a', rfl, ha', b, hb, hP⟩
  · rintro ⟨n', q, a', heq, ha', b, hb, hP⟩
    cases heq
    exact ⟨b, ⟨a', ha', hb⟩, hP⟩

/-- A position is the value itself or below one of the children. -/
theorem positions_eq (a : α) :
    positions children P a = {p | p = [] ∧ P a} ∪ positionsIn children P (children a) := by
  ext p
  cases p with
  | nil => simp [mem_positions_nil, positionsIn]
  | cons n p => simp [mem_positions_cons]

theorem positionsIn_nil : positionsIn children P [] = ∅ := by
  simp [positionsIn]

theorem positionsIn_cons (a : α) (as : List α) :
    positionsIn children P (a :: as) = (List.cons 0 '' positions children P a) ∪
      (List.modifyHead Nat.succ '' positionsIn children P as) := by
  ext p
  constructor
  · rintro ⟨n, q, b, rfl, hb, hq⟩
    cases n with
    | zero =>
        cases hb
        exact .inl ⟨q, hq, rfl⟩
    | succ n => exact .inr ⟨n :: q, ⟨n, q, b, rfl, hb, hq⟩, rfl⟩
  · rintro (⟨q, hq, rfl⟩ | ⟨p, ⟨n, q, b, rfl, hb, hq⟩, rfl⟩)
    · exact ⟨0, q, a, rfl, rfl, hq⟩
    · exact ⟨n + 1, q, b, rfl, hb, hq⟩

theorem modifyHead_succ_injective : Function.Injective (List.modifyHead Nat.succ) := by
  intro p q h
  cases p <;> cases q <;> simp_all

/-- Below a list there are as many positions as below its values. -/
theorem encard_positionsIn (as : List α) : (positionsIn children P as).encard =
    (as.map fun a => (positions children P a).encard).sum := by
  induction as with
  | nil => simp [positionsIn_nil]
  | cons a as ih =>
      have hdisjoint : Disjoint (List.cons 0 '' positions children P a)
          (List.modifyHead Nat.succ '' positionsIn children P as) := by
        rw [Set.disjoint_left]
        rintro p ⟨q, -, rfl⟩ ⟨p', ⟨n, q', b, rfl, -, -⟩, heq⟩
        simp at heq
      rw [positionsIn_cons, Set.encard_union_eq hdisjoint, List.cons_injective.encard_image,
        modifyHead_succ_injective.encard_image, ih, List.map_cons, List.sum_cons]

open Classical in
/-- There are as many positions below a value as below its children, and one more if it is
at one itself. -/
theorem encard_positions (a : α) : (positions children P a).encard =
    (if P a then 1 else 0) + ((children a).map fun b => (positions children P b).encard).sum := by
  have hdisjoint : Disjoint {p : List ℕ | p = [] ∧ P a} (positionsIn children P (children a)) := by
    rw [Set.disjoint_left]
    rintro p ⟨rfl, -⟩ ⟨n, q, b, heq, -⟩
    cases heq
  rw [positions_eq, Set.encard_union_eq hdisjoint, encard_positionsIn]
  by_cases hP : P a
  · simp [hP]
  · simp [hP]

/-- What is gathered from a value and from all below it is found once for each position. -/
theorem count_gathered [DecidableEq β] (hwf : WellFounded fun b a => b ∈ children a)
    {own : α → Option β} {gather : α → List β}
    (hgather : ∀ a, gather a = (own a).toList ++ (children a).flatMap gather) (x : β) (a : α) :
    ((gather a).count x : ℕ∞) = (positions children (fun b => own b = some x) a).encard := by
  induction a using hwf.induction with
  | _ a ih =>
      have hown : ((own a).toList.count x : ℕ∞) = if own a = some x then 1 else 0 := by
        cases hx : own a with
        | none => simp
        | some y => by_cases heq : y = x <;> simp [heq]
      have hbelow : (((children a).flatMap gather).count x : ℕ∞) =
          ((children a).map fun b =>
            (positions children (fun b => own b = some x) b).encard).sum := by
        rw [List.count_flatMap, Nat.cast_list_sum, List.map_map]
        congr 1
        apply List.map_congr_left
        exact fun b hb => ih b hb
      rw [hgather, List.count_append, Nat.cast_add, hown, hbelow, encard_positions]
      congr

end Sequence
