import CommerceAgent.Effects.Observation
import CommerceAgent.Effects.Transcript
import Mathlib.Data.List.Induction

/-!
# Recorded machines

The machine that keeps the transcripts of its threads as an auxiliary variable, so
that an invariant of the state may speak of every call that was ever made. In a run
the variable is `Machine.transcript`.
-/

namespace Effects

variable {ε C : Type} {R : C → Type} {σ χ ρ α η : Type}

/-- The transcripts of the threads. -/
abbrev Record (ε C : Type) (R : C → Type) := ℕ → List (Exchange ε C R)

namespace Record

/-- The exchanges of all threads. -/
def happened (g : Record ε C R) : Set (Exchange ε C R) := {e | ∃ i, e ∈ g i}

/-- The record with one more exchange of the thread `i`. -/
def push (g : Record ε C R) (i : ℕ) (e : Exchange ε C R) : Record ε C R :=
  Function.update g i (g i ++ [e])

theorem push_self (g : Record ε C R) (i : ℕ) (e : Exchange ε C R) : g.push i e i = g i ++ [e] :=
  Function.update_self ..

theorem push_of_ne (g : Record ε C R) {i j : ℕ} (h : j ≠ i) (e : Exchange ε C R) :
    g.push i e j = g j := Function.update_of_ne h ..

theorem happened_push (g : Record ε C R) (i : ℕ) (e : Exchange ε C R) :
    (g.push i e).happened = insert e g.happened := by
  ext e'
  constructor
  · rintro ⟨j, hj⟩
    by_cases heq : j = i
    · subst heq
      rw [push_self, List.mem_append, List.mem_singleton] at hj
      exact hj.elim (fun h => .inr ⟨j, h⟩) .inl
    · rw [push_of_ne g heq] at hj
      exact .inr ⟨j, hj⟩
  · rintro (rfl | ⟨j, hj⟩)
    · exact ⟨i, by simp [push_self]⟩
    · by_cases heq : j = i
      · exact ⟨j, by simp [heq ▸ hj, heq, push_self]⟩
      · exact ⟨j, by rwa [push_of_ne g heq]⟩

end Record

namespace Machine

variable (M : Machine ε C R σ χ ρ α η)

/-- Note the exchange of a call. -/
def noteExchange (i : ℕ) (c : C) (ch : χ) (s : σ) (g : Record ε C R) : Record ε C R :=
  match M.answer i c ch s with
  | some (r, _) => g.push i ⟨c, r⟩
  | none => g

/-- The machine that keeps its transcripts. -/
abbrev recorded : Machine ε C R (σ × Record ε C R) χ ρ α η := M.observe M.noteExchange

variable {M}

/-- A call of the recorded machine is one of the machine, recorded. -/
theorem recorded_answer {i : ℕ} {c : C} {ch : χ} {s s' : σ × Record ε C R} {r : Except ε (R c)}
    (h : M.recorded.answer i c ch s = some (r, s')) :
    M.answer i c ch s.1 = some (r, s'.1) ∧ s'.2 = s.2.push i ⟨c, r⟩ := by
  obtain ⟨hanswer, hnote⟩ := observe_answer h
  exact ⟨hanswer, by simp [hnote, noteExchange, hanswer]⟩

theorem noteExchange_apply (j : ℕ) (c : C) (ch : χ) (s : σ) (g : Record ε C R) (i : ℕ) :
    M.noteExchange j c ch s g i = g i ++
      (if j = i then (M.answer j c ch s).map fun r => (⟨c, r.1⟩ : Exchange ε C R)
        else none).toList := by
  unfold noteExchange
  by_cases heq : j = i
  · subst heq
    cases M.answer j c ch s with
    | none => simp
    | some r => simp [Record.push]
  · have hne : i ≠ j := fun h => heq h.symm
    cases M.answer j c ch s with
    | none => simp [heq]
    | some r => simp [Record.push, hne, heq]

/-- A step adds to each transcript what it shows of the thread. -/
theorem noteStep_noteExchange (v : Config ε C R σ ρ α × Action χ ρ η) (g : Record ε C R) (i : ℕ) :
    noteStep M.noteExchange v g i = g i ++ (M.exchange i v).toList := by
  obtain ⟨c, a⟩ := v
  cases a with
  | call j ch =>
      have hexchange : j ≠ i → M.exchange i (c, .call j ch) = none := fun hne =>
        exchange_of_ne fun ch' heq => hne (by cases heq; rfl)
      cases hslot : c.pool j with
      | unused => by_cases heq : j = i <;> simp_all [noteStep, exchange]
      | crashed q => by_cases heq : j = i <;> simp_all [noteStep, exchange]
      | running q p =>
          cases p with
          | call cl k =>
              by_cases heq : j = i
              · subst heq
                simp [noteStep, exchange, hslot, noteExchange_apply]
              · simp [noteStep, hexchange heq, hslot, noteExchange_apply, heq]
          | pure a => by_cases heq : j = i <;> simp_all [noteStep, exchange]
          | throw e => by_cases heq : j = i <;> simp_all [noteStep, exchange]
  | start j q => simp [noteStep, exchange]
  | crash j => simp [noteStep, exchange]
  | environment e => simp [noteStep, exchange]

/-- What the recorded machine has kept is the transcripts. -/
theorem tally_noteExchange (h : List (Config ε C R σ ρ α × Action χ ρ η)) :
    tally M.noteExchange (fun _ => []) h = fun i => M.transcript i h := by
  induction h using List.reverseRecOn with
  | nil => rfl
  | append_singleton h v ih =>
      rw [tally_snoc, ih]
      funext i
      rw [noteStep_noteExchange, transcript_snoc]

/-- A run of the machine, recorded: it ends with the transcripts. -/
theorem Run.recorded {π : Policy C σ χ ρ η} {c₀ c : Config ε C R σ ρ α}
    {h : List (Config ε C R σ ρ α × Action χ ρ η)} (run : M.Run π c₀ h c) :
    ∃ h', M.recorded.Run .any (c₀.observed fun _ => []) h'
      (c.observed fun i => M.transcript i h) := by
  have hrun : ∃ h', M.recorded.Run .any (c₀.observed fun _ => []) h'
      (c.observed (tally M.noteExchange (fun _ => []) h)) ∧
        ∀ v ∈ h, ∃ g, (v.1.observed g, v.2) ∈ h' :=
    run.observe _ fun _ v _ _ => Policy.permits_any _ v.2
  obtain ⟨h', run', -⟩ := hrun
  rw [tally_noteExchange] at run'
  exact ⟨h', run'⟩

end Machine

end Effects
