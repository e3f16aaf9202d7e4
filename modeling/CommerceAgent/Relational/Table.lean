import Mathlib.Data.List.Nodup
import Mathlib.Data.List.Basic

/-!
# Tables with unique columns

A `Table` is a list of rows in insertion order together with the proof that no
two rows agree on a unique column, so that a table in violation of its `PRIMARY
KEY` or `UNIQUE` constraints cannot be built. Insertion is partial: it fails
exactly when a unique column of the new row is taken. An update may rewrite
rows, but not their unique columns.
-/

namespace Relational

/-- A list of rows on which every column of `unique` is injective. -/
structure Table (α : Type) {κ : Type} (unique : List (α → κ)) where
  rows : List α
  nodup : ∀ f ∈ unique, (rows.map f).Nodup

namespace Table

variable {α κ : Type} {unique : List (α → κ)}

instance : Membership α (Table α unique) := ⟨fun t a => a ∈ t.rows⟩

theorem mem_rows {t : Table α unique} {a : α} : a ∈ t.rows ↔ a ∈ t := Iff.rfl

/-- The table without rows. -/
def empty : Table α unique := ⟨[], by simp⟩

@[simp] theorem not_mem_empty {a : α} : a ∉ (empty : Table α unique) := List.not_mem_nil

@[simp] theorem rows_empty : (empty : Table α unique).rows = [] := rfl

/-- Two rows that agree on a unique column are the same row. -/
theorem eq_of_unique {t : Table α unique} {f : α → κ} (hf : f ∈ unique) {a b : α}
    (ha : a ∈ t) (hb : b ∈ t) (h : f a = f b) : a = b :=
  List.inj_on_of_nodup_map (t.nodup f hf) ha hb h

/-- The first row that satisfies a condition, in insertion order. -/
def select (t : Table α unique) (p : α → Bool) : Option α := t.rows.find? p

theorem mem_of_select {t : Table α unique} {p : α → Bool} {a : α} (h : t.select p = some a) :
    a ∈ t ∧ p a = true :=
  ⟨List.mem_of_find?_eq_some h, List.find?_some h⟩

theorem select_eq_none_iff {t : Table α unique} {p : α → Bool} :
    t.select p = none ↔ ∀ a ∈ t, p a = false := by
  simp [select, mem_rows]

/-- Selecting by a condition that at most the row `a` satisfies finds `a`. -/
theorem select_eq_some {t : Table α unique} {p : α → Bool} {a : α} (ha : a ∈ t)
    (hp : p a = true) (honly : ∀ b ∈ t, p b = true → b = a) : t.select p = some a := by
  cases h : t.select p with
  | none =>
      have hfalse := select_eq_none_iff.1 h a ha
      rw [hp] at hfalse
      cases hfalse
  | some b =>
      obtain ⟨hb, hpb⟩ := mem_of_select h
      rw [honly b hb hpb]

section Insert

variable [DecidableEq κ]

/-- Append a row; `none` if one of its unique columns is taken. -/
def insert? (t : Table α unique) (a : α) : Option (Table α unique) :=
  if h : ∀ f ∈ unique, f a ∉ t.rows.map f then
    some ⟨t.rows ++ [a], fun f hf => by
      rw [List.map_append, List.nodup_append]
      refine ⟨t.nodup f hf, by simp, ?_⟩
      intro x hx y hy hxy
      rw [List.map_cons, List.map_nil, List.mem_singleton] at hy
      exact h f hf (hy ▸ hxy ▸ hx)⟩
  else none

/-- Append a row unless one of its unique columns is taken. -/
def insertOrIgnore (t : Table α unique) (a : α) : Table α unique := (t.insert? a).getD t

theorem rows_of_insert? {t t' : Table α unique} {a : α} (h : t.insert? a = some t') :
    t'.rows = t.rows ++ [a] := by
  simp only [insert?] at h
  split at h
  · rw [← Option.some.inj h]
  · cases h

theorem mem_of_insert? {t t' : Table α unique} {a b : α} (h : t.insert? a = some t') :
    b ∈ t' ↔ b ∈ t ∨ b = a := by
  rw [← mem_rows, rows_of_insert? h, List.mem_append, List.mem_singleton, mem_rows]

/-- The unique columns of a row that was inserted were free. -/
theorem free_of_insert? {t t' : Table α unique} {a : α} (h : t.insert? a = some t')
    {f : α → κ} (hf : f ∈ unique) {b : α} (hb : b ∈ t) : f b ≠ f a := by
  simp only [insert?] at h
  split at h
  · next hfree =>
      intro heq
      exact hfree f hf (List.mem_map.2 ⟨b, hb, heq⟩)
  · cases h

theorem insert?_eq_none_iff {t : Table α unique} {a : α} :
    t.insert? a = none ↔ ∃ f ∈ unique, ∃ b ∈ t, f b = f a := by
  simp only [insert?]
  split
  · next hfree =>
      simp only [reduceCtorEq, false_iff]
      rintro ⟨f, hf, b, hb, heq⟩
      exact hfree f hf (List.mem_map.2 ⟨b, hb, heq⟩)
  · next hfree =>
      push Not at hfree
      obtain ⟨f, hf, hmem⟩ := hfree
      obtain ⟨b, hb, heq⟩ := List.mem_map.1 hmem
      exact iff_of_true rfl ⟨f, hf, b, hb, heq⟩

theorem mem_insertOrIgnore_of_mem {t : Table α unique} {a b : α} (hb : b ∈ t) :
    b ∈ t.insertOrIgnore a := by
  simp only [insertOrIgnore]
  cases h : t.insert? a with
  | none => exact hb
  | some t' => exact (mem_of_insert? h).2 (.inl hb)

end Insert

/-- Rewrite the rows that satisfy a condition, leaving the unique columns. -/
def update (t : Table α unique) (p : α → Bool) (g : α → α)
    (hg : ∀ f ∈ unique, ∀ a, f (g a) = f a) : Table α unique :=
  ⟨t.rows.map fun a => if p a then g a else a, fun f hf => by
    have hmap : (t.rows.map fun a => if p a then g a else a).map f = t.rows.map f := by
      rw [List.map_map]
      apply List.map_congr_left
      intro a _
      by_cases h : p a = true <;> simp [h, hg f hf a]
    rw [hmap]
    exact t.nodup f hf⟩

theorem mem_update {t : Table α unique} {p : α → Bool} {g : α → α}
    {hg : ∀ f ∈ unique, ∀ a, f (g a) = f a} {b : α} :
    b ∈ t.update p g hg ↔ ∃ a ∈ t, (if p a then g a else a) = b := List.mem_map

section Upsert

variable [DecidableEq κ] {key : α → κ}

/-- Append a row, or put it in the place of the row with its key. -/
def upsert (t : Table α [key]) (a : α) : Table α [key] :=
  if h : key a ∈ t.rows.map key then
    ⟨t.rows.map fun b => if key b = key a then a else b, by
      simp only [List.mem_singleton, forall_eq]
      have hmap : (t.rows.map fun b => if key b = key a then a else b).map key =
          t.rows.map key := by
        rw [List.map_map]
        apply List.map_congr_left
        intro b _
        by_cases hb : key b = key a <;> simp [hb]
      rw [hmap]
      exact t.nodup key List.mem_cons_self⟩
  else
    ⟨t.rows ++ [a], by
      simp only [List.mem_singleton, forall_eq, List.map_append, List.map_cons, List.map_nil]
      rw [List.nodup_append]
      refine ⟨t.nodup key List.mem_cons_self, List.nodup_singleton _, ?_⟩
      rintro x hx y hy rfl
      exact h (List.mem_singleton.1 hy ▸ hx)⟩

/-- The row is there, and so are all rows with another key. -/
theorem mem_upsert {t : Table α [key]} {a b : α} :
    b ∈ t.upsert a ↔ b = a ∨ b ∈ t ∧ key b ≠ key a := by
  simp only [upsert]
  split
  · next h =>
      rw [← mem_rows, List.mem_map]
      constructor
      · rintro ⟨b', hb', rfl⟩
        by_cases heq : key b' = key a
        · exact .inl (if_pos heq)
        · rw [if_neg heq]
          exact .inr ⟨hb', heq⟩
      · rintro (rfl | ⟨hb, hne⟩)
        · obtain ⟨b', hb', heq⟩ := List.mem_map.1 h
          exact ⟨b', hb', if_pos heq⟩
        · exact ⟨b, hb, if_neg hne⟩
  · next h =>
      rw [← mem_rows, List.mem_append, List.mem_singleton, or_comm]
      refine or_congr_right ⟨fun hb => ⟨hb, fun heq => ?_⟩, fun hb => hb.1⟩
      exact h (List.mem_map.2 ⟨b, hb, heq⟩)

end Upsert

end Table

end Relational
