import CommerceAgent.Effects.Discipline

/-!
# Programs that return what they raise

`Program.attempt` ends with the exception that the program raises, as a value. A machine
whose threads attempt their programs makes the same runs, so that a discipline for it
also says where the threads of the machine raise, and that they do not.
-/

namespace Effects

variable {ε C : Type} {R : C → Type} {σ χ ρ α β η : Type}

/-- The program, with its exception as a result. -/
def Program.attempt (p : Program ε C R α) : Program ε C R (Except ε α) :=
  p.handle (fun a => .pure (.ok a)) fun e => .pure (.error e)

@[simp] theorem Program.attempt_pure (a : α) :
    (Program.pure a : Program ε C R α).attempt = .pure (.ok a) := rfl

@[simp] theorem Program.attempt_throw (e : ε) :
    (Program.throw e : Program ε C R α).attempt = .pure (.error e) := rfl

@[simp] theorem Program.attempt_call (c : C) (k : Except ε (R c) → Program ε C R α) :
    (Program.call c k).attempt = .call c fun r => (k r).attempt := rfl

def Slot.attempt : Slot ε C R ρ α → Slot ε C R ρ (Except ε α)
  | .unused => .unused
  | .running q p => .running q p.attempt
  | .crashed q => .crashed q

def Config.attempt (c : Config ε C R σ ρ α) : Config ε C R σ ρ (Except ε α) :=
  ⟨fun i => (c.pool i).attempt, c.state⟩

theorem Config.attempt_update (c : Config ε C R σ ρ α) (i : ℕ) (t : Slot ε C R ρ α) (s : σ) :
    (⟨Function.update c.pool i t, s⟩ : Config ε C R σ ρ α).attempt =
      ⟨Function.update c.attempt.pool i t.attempt, s⟩ := by
  have hpool : (fun j => (Function.update c.pool i t j).attempt) =
      Function.update c.attempt.pool i t.attempt := by
    funext j
    by_cases hj : j = i
    · subst hj
      simp
    · simp [Function.update_of_ne hj, attempt]
  exact congrArg (fun pool => (⟨pool, s⟩ : Config ε C R σ ρ (Except ε α))) hpool

namespace Machine

variable {M : Machine ε C R σ χ ρ α η}

/-- The machine whose threads attempt their programs. -/
def attempt (M : Machine ε C R σ χ ρ α η) : Machine ε C R σ χ ρ (Except ε α) η :=
  { M with program := fun i q => (M.program i q).attempt }

theorem step_attempt {a : Action χ ρ η} {c c' : Config ε C R σ ρ α} (h : M.step a c = some c') :
    M.attempt.step a c.attempt = some c'.attempt := by
  cases a with
  | call i ch =>
      obtain ⟨q, cl, k, r, s, hslot, hanswer, rfl⟩ := M.step_call h
      have hattempt : c.attempt.pool i = .running q (.call cl fun r => (k r).attempt) := by
        simp [Config.attempt, hslot, Slot.attempt]
      have hstep : M.attempt.answer i cl ch c.attempt.state = some (r, s) := hanswer
      simp only [step, hattempt, hstep, Config.attempt_update]
      rfl
  | start i q =>
      obtain ⟨s, hslot, haccept, rfl⟩ := M.step_start h
      have hattempt : c.attempt.pool i = .unused := by simp [Config.attempt, hslot, Slot.attempt]
      have hstep : M.attempt.accept i q c.attempt.state = some s := haccept
      simp only [step, hattempt, hstep, Config.attempt_update]
      rfl
  | crash i =>
      obtain ⟨q, p, hslot, rfl⟩ := M.step_crash h
      have hattempt : c.attempt.pool i = .running q p.attempt := by
        simp [Config.attempt, hslot, Slot.attempt]
      simp only [step, hattempt, Config.attempt_update]
      rfl
  | environment e =>
      obtain ⟨s, henv, rfl⟩ := M.step_environment h
      have hstep : M.attempt.environment e c.attempt.state = some s := henv
      simp only [step, hstep]
      rfl

theorem permits_attempt {π : Policy C σ χ ρ η} {c : Config ε C R σ ρ α} {a : Action χ ρ η}
    (h : π.permits c a) : π.permits c.attempt a := by
  cases a with
  | call i ch =>
      cases hslot : c.pool i with
      | running q p =>
          cases p with
          | call cl k => simpa [Policy.permits, Config.attempt, Slot.attempt, hslot] using h
          | _ => simp [Policy.permits, Config.attempt, Slot.attempt, hslot]
      | _ => simp [Policy.permits, Config.attempt, Slot.attempt, hslot]
  | _ => exact h

/-- A run is a run of the machine whose threads attempt their programs. -/
theorem Run.attempt {π : Policy C σ χ ρ η} {c₀ c : Config ε C R σ ρ α}
    {h : List (Config ε C R σ ρ α × Action χ ρ η)} (run : M.Run π c₀ h c) :
    M.attempt.Run π c₀.attempt (h.map fun v => (v.1.attempt, v.2)) c.attempt := by
  induction run with
  | nil => exact .nil
  | snoc run permitted step ih =>
      rw [List.map_append]
      exact ih.snoc (permits_attempt permitted) (step_attempt step)

end Machine

namespace Discipline

variable {D : Discipline σ ρ (Except ε α)} {M : Machine ε C R σ χ ρ α η} {π : Policy C σ χ ρ η}

/-- In every run a thread that has ended, by a return or a raise, has established the
postcondition. -/
theorem Sound.ended (hD : D.Sound M.attempt π) {s₀ : σ} (h₀ : D.inv s₀) {c : Config ε C R σ ρ α}
    {h : List (Config ε C R σ ρ α × Action χ ρ η)} (run : M.Run π (.initial s₀) h c) {i : ℕ}
    {q : ρ} {p : Program ε C R α} (hslot : c.pool i = .running q p) {r : Except ε α}
    (hr : p.attempt = .pure r) : D.post q r c.state := by
  have hsafe := (hD.run h₀ run.attempt).1.safe i
  have hattempt : c.attempt.pool i = .running q (.pure r) := by
    simp [Config.attempt, hslot, Slot.attempt, hr]
  rw [hattempt] at hsafe
  exact hsafe

end Discipline

end Effects
