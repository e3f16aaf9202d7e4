import CommerceAgent.Effects.Transcript
import Mathlib.Data.List.Count

/-!
# Counting calls

`Program.AtMost` bounds the number of calls of one kind that a program makes on any of
its paths, and `Machine.Run.count_le` carries the bound to the transcripts of a
machine.
-/

namespace Effects

variable {ε C : Type} {R : C → Type} {σ χ ρ α β η : Type}

namespace Program

/-- On every path the program makes at most `n` calls that satisfy `P`. -/
def AtMost (P : C → Bool) (n : ℕ) : Program ε C R α → Prop
  | .pure _ | .throw _ => True
  | .call c k => if P c then ∃ m, n = m + 1 ∧ ∀ r, AtMost P m (k r) else ∀ r, AtMost P n (k r)

variable {P : C → Bool}

theorem atMost_call {c : C} {k : Except ε (R c) → Program ε C R α} {n : ℕ} (hc : P c = true)
    (hk : ∀ r, (k r).AtMost P n) : (Program.call c k).AtMost P (n + 1) := by
  rw [AtMost, if_pos hc]
  exact ⟨n, rfl, hk⟩

/-- A larger bound. -/
theorem AtMost.mono {p : Program ε C R α} {n m : ℕ} (hp : p.AtMost P n) (hnm : n ≤ m) :
    p.AtMost P m := by
  induction p generalizing n m with
  | pure a => trivial
  | throw e => trivial
  | call c k ih =>
      rw [AtMost] at hp ⊢
      split at hp
      · next hc =>
          obtain ⟨n, rfl, hk⟩ := hp
          obtain ⟨m, rfl⟩ := Nat.exists_eq_add_of_le hnm
          rw [if_pos hc]
          exact ⟨n + m, by omega, fun r => ih r (hk r) (by omega)⟩
      · next hc =>
          rw [if_neg hc]
          exact fun r => ih r (hp r) hnm

/-- The rule of sequencing, for a first part that makes no call of the kind. -/
theorem AtMost.handle {V : α → Prop} {f : α → Program ε C R β} {h : ε → Program ε C R β} {n : ℕ}
    (hf : ∀ a, V a → (f a).AtMost P n) (hh : ∀ e, (h e).AtMost P n) {p : Program ε C R α} :
    p.Only (fun c => P c = false) V → (p.handle f h).AtMost P n := by
  induction p with
  | pure a => exact hf a
  | throw e => exact fun _ => hh e
  | call c k ih =>
      rintro ⟨hc, hk⟩
      rw [handle_call, AtMost, if_neg (by simp [hc])]
      exact fun r => ih r (hk r)

/-- The rule of sequencing, for a last part that makes no call of the kind. -/
theorem AtMost.andThen {f : α → Program ε C R β} {h : ε → Program ε C R β}
    (hf : ∀ a, (f a).AtMost P 0) (hh : ∀ e, (h e).AtMost P 0) {p : Program ε C R α} :
    ∀ {n : ℕ}, p.AtMost P n → (p.handle f h).AtMost P n := by
  induction p with
  | pure a => exact fun {n} _ => (hf a).mono n.zero_le
  | throw e => exact fun {n} _ => (hh e).mono n.zero_le
  | call c k ih =>
      intro n hp
      rw [AtMost] at hp
      rw [handle_call, AtMost]
      split at hp
      · next hc =>
          obtain ⟨m, rfl, hk⟩ := hp
          rw [if_pos hc]
          exact ⟨m, rfl, fun r => ih r (hk r)⟩
      · next hc =>
          rw [if_neg hc]
          exact fun r => ih r (hp r)

theorem Only.atMost {V : α → Prop} {p : Program ε C R α} (hp : p.Only (fun c => P c = false) V)
    (n : ℕ) : p.AtMost P n := by
  rw [← handle_pure_throw p]
  exact AtMost.handle (fun _ _ => by trivial) (fun _ => by trivial) hp

/-- A program that makes no call of the kind. -/
theorem AtMost.only {p : Program ε C R α} (hp : p.AtMost P 0) :
    p.Only (fun c => P c = false) fun _ => True := by
  induction p with
  | pure a => trivial
  | throw e => trivial
  | call c k ih =>
      rw [AtMost] at hp
      split at hp
      · obtain ⟨m, hm, -⟩ := hp
        cases hm
      · next hc => exact ⟨by simpa using hc, fun r => ih r (hp r)⟩

/-- Two continuations that agree where a program can end make the same program. -/
theorem Only.handle_congr {G : C → Prop} {V : α → Prop} {f f' : α → Program ε C R β}
    {h : ε → Program ε C R β} (hf : ∀ a, V a → f a = f' a) {p : Program ε C R α} :
    p.Only G V → p.handle f h = p.handle f' h := by
  induction p with
  | pure a => exact hf a
  | throw e => exact fun _ => rfl
  | call c k ih =>
      rintro ⟨-, hk⟩
      simp only [handle_call]
      congr 1
      funext r
      exact ih r (hk r)

end Program

namespace Machine

variable {M : Machine ε C R σ χ ρ α η} {P : C → Bool} {n : ℕ}

/-- How many calls satisfy `P`. -/
def calls (P : C → Bool) (past : List (Exchange ε C R)) : ℕ := past.countP fun e => P e.call

theorem calls_snoc (past : List (Exchange ε C R)) (e : Exchange ε C R) :
    calls P (past ++ [e]) = calls P past + if P e.call then 1 else 0 := by
  rw [calls, calls, List.countP_append, List.countP_singleton]

/-- What a slot shows of the bound: the calls made and the calls left are at most `n`. -/
def SlotBounded (P : C → Bool) (n : ℕ) (past : List (Exchange ε C R)) : Slot ε C R ρ α → Prop
  | .unused => past = []
  | .running _ p => ∃ m, calls P past + m ≤ n ∧ p.AtMost P m
  | .crashed _ => calls P past ≤ n

/-- No thread of a run makes more calls than the programs allow. -/
theorem Run.count_le {π : Policy C σ χ ρ η} {s₀ : σ} {c : Config ε C R σ ρ α}
    {h : List (Config ε C R σ ρ α × Action χ ρ η)}
    (hprogram : ∀ i q, (M.program i q).AtMost P n) (run : M.Run π (.initial s₀) h c) :
    ∀ i, SlotBounded P n (M.transcript i h) (c.pool i) := by
  induction run with
  | nil => exact fun _ => rfl
  | @snoc h c c' a run permitted step ih =>
      intro j
      rw [transcript_snoc]
      cases a with
      | call i ch =>
          obtain ⟨q, cl, k, r, s, hslot, hr, rfl⟩ := M.step_call step
          by_cases hj : j = i
          · subst hj
            have hbound : SlotBounded P n (M.transcript j h) (.running q (.call cl k)) :=
              hslot ▸ ih j
            obtain ⟨m, hm, hk⟩ := hbound
            rw [exchange_call hslot hr]
            simp only [Function.update_self, Option.toList_some]
            rw [Program.AtMost] at hk
            split at hk
            · next hcl =>
                obtain ⟨m, rfl, hk⟩ := hk
                exact ⟨m, by rw [calls_snoc, if_pos hcl]; omega, hk r⟩
            · next hcl => exact ⟨m, by rw [calls_snoc, if_neg hcl]; omega, hk r⟩
          · rw [exchange_of_ne (by simp [Ne.symm hj])]
            simpa [Function.update_of_ne hj] using ih j
      | start i q =>
          obtain ⟨s, hslot, hs, rfl⟩ := M.step_start step
          rw [exchange_of_ne (by simp)]
          by_cases hj : j = i
          · subst hj
            have hnil : M.transcript j h = [] := by simpa [hslot, SlotBounded] using ih j
            simpa [hnil, SlotBounded, calls] using ⟨n, Nat.le_refl n, hprogram j q⟩
          · simpa [Function.update_of_ne hj] using ih j
      | crash i =>
          obtain ⟨q, p, hslot, rfl⟩ := M.step_crash step
          rw [exchange_of_ne (by simp)]
          by_cases hj : j = i
          · subst hj
            obtain ⟨m, hm, -⟩ : SlotBounded P n (M.transcript j h) (.running q p) := hslot ▸ ih j
            simpa [SlotBounded] using Nat.le_trans (Nat.le_add_right _ m) hm
          · simpa [Function.update_of_ne hj] using ih j
      | environment e =>
          obtain ⟨s, hs, rfl⟩ := M.step_environment step
          rw [exchange_of_ne (by simp)]
          simpa using ih j

/-- The bound of a slot is a bound of its transcript. -/
theorem SlotBounded.calls_le {past : List (Exchange ε C R)} {slot : Slot ε C R ρ α}
    (h : SlotBounded P n past slot) : calls P past ≤ n := by
  cases slot with
  | unused =>
      have hnil : past = [] := h
      simp [hnil, calls]
  | running q p =>
      obtain ⟨m, hm, -⟩ := h
      omega
  | crashed q => exact h

end Machine

end Effects
