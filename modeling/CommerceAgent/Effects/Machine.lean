import CommerceAgent.Effects.Program
import Mathlib.Data.List.Basic

/-!
# Machines: threads of calls over a shared state

A `Machine` runs any number of threads, each a program started by a request,
over one shared state. A thread moves by having its next call answered; between
two calls of one thread any other thread may move. What the environment is free
to choose about an answer (that the call raises, whether it took effect, what a
black box returns) is the `choice` of the step. Threads may also crash, and the
environment may change the state on its own.

`Run` records every configuration left and the action taken there, so that a
statement about a whole run can speak of all the states it visits. A `Policy`
restricts the steps of a run by what the state looks like before the step.
-/

namespace Effects

/-- Threads over a shared state `σ`: exceptions `ε`, calls `C` answered in `R`,
choices `χ`, requests `ρ` that start threads returning `α`, and actions `η` of
the environment itself. -/
structure Machine (ε C : Type) (R : C → Type) (σ χ ρ α η : Type) where
  /-- The program a thread runs for a request. -/
  program : ℕ → ρ → Program ε C R α
  /-- The answer to a call of a thread, with the state it leaves. -/
  answer : ℕ → (c : C) → χ → σ → Option (Except ε (R c) × σ)
  /-- What the start of a thread does to the state; `none` if it cannot start. -/
  accept : ℕ → ρ → σ → Option σ
  /-- What the crash of a thread does to the state. -/
  halt : ℕ → σ → σ
  /-- The steps of the environment. -/
  environment : η → σ → Option σ

variable {ε C : Type} {R : C → Type} {σ χ ρ α η : Type}

/-- What a thread identifier stands for. Identifiers are never used twice. -/
inductive Slot (ε C : Type) (R : C → Type) (ρ α : Type) : Type where
  | unused
  | running (q : ρ) (p : Program ε C R α)
  | crashed (q : ρ)

/-- The slot holds a thread that still has a call to make. -/
def Slot.calling : Slot ε C R ρ α → Bool
  | .running _ (.call _ _) => true
  | _ => false

/-- The threads and the shared state. -/
structure Config (ε C : Type) (R : C → Type) (σ ρ α : Type) where
  pool : ℕ → Slot ε C R ρ α
  state : σ

/-- One step of a machine. -/
inductive Action (χ ρ η : Type) where
  | call (i : ℕ) (ch : χ)
  | start (i : ℕ) (q : ρ)
  | crash (i : ℕ)
  | environment (e : η)

/-- The thread that an action moves. -/
def Action.thread : Action χ ρ η → Option ℕ
  | .call i _ | .start i _ | .crash i => some i
  | .environment _ => none

/-- Which steps a run may take, by the state before the step. -/
structure Policy (C σ χ ρ η : Type) where
  call : ℕ → C → χ → σ → Prop := fun _ _ _ _ => True
  start : ℕ → ρ → σ → Prop := fun _ _ _ => True
  crash : ℕ → σ → Prop := fun _ _ => True
  environment : η → σ → Prop := fun _ _ => True

/-- How the environment ends a call: as the operation would end, raising before
the operation took effect, or raising after it did. -/
inductive Ending (ε : Type) where
  | done
  | lost (e : ε)
  | late (e : ε)
  deriving DecidableEq

/-- The operation of the call is carried out. -/
def Ending.effective : Ending ε → Bool
  | .lost _ => false
  | .done | .late _ => true

/-- The answer to a call whose operation, run in the state `s`, gives `result`. -/
def Ending.answer {β : Type} (ending : Ending ε) (result : Except ε (β × σ)) (s : σ) :
    Except ε β × σ :=
  match ending, result with
  | .lost e, _ => (.error e, s)
  | .done, .ok (b, s') => (.ok b, s')
  | .late e, .ok (_, s') => (.error e, s')
  | _, .error e => (.error e, s)

/-- A call leaves the state alone or leaves it as its operation does. -/
theorem Ending.answer_cases {β : Type} {ending : Ending ε} {result : Except ε (β × σ)} {s s' : σ}
    {r : Except ε β} (h : ending.answer result s = (r, s')) :
    s' = s ∨ ∃ b, result = .ok (b, s') := by
  cases result with
  | error e => cases ending <;> cases h <;> exact .inl rfl
  | ok bs =>
      cases ending with
      | lost e =>
          cases h
          exact .inl rfl
      | done =>
          cases h
          exact .inr ⟨bs.1, rfl⟩
      | late e =>
          cases h
          exact .inr ⟨bs.1, rfl⟩

/-- An operation that succeeds has its effect exactly if it is carried out. -/
theorem Ending.answer_of_ok {β : Type} (ending : Ending ε) (b : β) (s s' : σ) :
    (ending.answer (.ok (b, s')) s).2 = if ending.effective then s' else s := by
  cases ending <;> rfl

/-- A call that is answered with a value ran its operation. -/
theorem Ending.answer_ok {β : Type} {ending : Ending ε} {result : Except ε (β × σ)} {s s' : σ}
    {b : β} (h : ending.answer result s = (.ok b, s')) : result = .ok (b, s') := by
  cases ending <;> cases result <;> simp_all [Ending.answer, Prod.ext_iff]

/-- The policy that permits every step. -/
def Policy.any : Policy C σ χ ρ η := {}

/-- The step `a` is permitted in `c`. -/
def Policy.permits (π : Policy C σ χ ρ η) (c : Config ε C R σ ρ α) : Action χ ρ η → Prop
  | .call i ch =>
      match c.pool i with
      | .running _ (.call cl _) => π.call i cl ch c.state
      | _ => True
  | .start i q => π.start i q c.state
  | .crash i => π.crash i c.state
  | .environment e => π.environment e c.state

theorem Policy.permits_any (c : Config ε C R σ ρ α) (a : Action χ ρ η) :
    (Policy.any : Policy C σ χ ρ η).permits c a := by
  cases a with
  | call i ch =>
      simp only [Policy.permits]
      split <;> trivial
  | start i q => trivial
  | crash i => trivial
  | environment e => trivial

instance (c : Config ε C R σ ρ α) (a : Action χ ρ η) :
    Decidable ((Policy.any : Policy C σ χ ρ η).permits c a) :=
  .isTrue (Policy.permits_any c a)

/-- A policy that is decided on each kind of step is decided. -/
instance (π : Policy C σ χ ρ η) [∀ i c ch s, Decidable (π.call i c ch s)]
    [∀ i q s, Decidable (π.start i q s)] [∀ i s, Decidable (π.crash i s)]
    [∀ e s, Decidable (π.environment e s)] (c : Config ε C R σ ρ α) (a : Action χ ρ η) :
    Decidable (π.permits c a) :=
  match a with
  | .call i ch =>
      match hslot : c.pool i with
      | .running _ (.call cl _) =>
          decidable_of_iff (π.call i cl ch c.state) (by simp [Policy.permits, hslot])
      | .running _ (.pure _) | .running _ (.throw _) | .unused | .crashed _ =>
          .isTrue (by simp [Policy.permits, hslot])
  | .start i q => inferInstanceAs (Decidable (π.start i q c.state))
  | .crash i => inferInstanceAs (Decidable (π.crash i c.state))
  | .environment e => inferInstanceAs (Decidable (π.environment e c.state))

namespace Config

/-- The configuration without any thread. -/
def initial (s : σ) : Config ε C R σ ρ α := ⟨fun _ => .unused, s⟩

/-- A thread that still has a call to make. -/
def InProgress (c : Config ε C R σ ρ α) (i : ℕ) : Prop :=
  ∃ q cl k, c.pool i = .running q (.call cl k)

theorem inProgress_iff {c : Config ε C R σ ρ α} {i : ℕ} :
    c.InProgress i ↔ (c.pool i).calling = true := by
  constructor
  · rintro ⟨q, cl, k, hslot⟩
    rw [hslot]
    rfl
  · intro hcalling
    unfold Slot.calling at hcalling
    split at hcalling
    · next q cl k hslot => exact ⟨q, cl, k, hslot⟩
    · cases hcalling

end Config

namespace Machine

variable (M : Machine ε C R σ χ ρ α η)

/-- Take one step; `none` if it is not possible. -/
def step (a : Action χ ρ η) (c : Config ε C R σ ρ α) : Option (Config ε C R σ ρ α) :=
  match a with
  | .call i ch =>
      match c.pool i with
      | .running q (.call cl k) =>
          (M.answer i cl ch c.state).map fun r =>
            ⟨Function.update c.pool i (.running q (k r.1)), r.2⟩
      | _ => none
  | .start i q =>
      match c.pool i with
      | .unused =>
          (M.accept i q c.state).map fun s =>
            ⟨Function.update c.pool i (.running q (M.program i q)), s⟩
      | _ => none
  | .crash i =>
      match c.pool i with
      | .running q _ => some ⟨Function.update c.pool i (.crashed q), M.halt i c.state⟩
      | _ => none
  | .environment e => (M.environment e c.state).map fun s => ⟨c.pool, s⟩

/-- A run from `c₀` under a policy, with the configurations it left and the
actions it took there, oldest first. -/
inductive Run (π : Policy C σ χ ρ η) (c₀ : Config ε C R σ ρ α) :
    List (Config ε C R σ ρ α × Action χ ρ η) → Config ε C R σ ρ α → Prop
  | nil : Run π c₀ [] c₀
  | snoc {h : List (Config ε C R σ ρ α × Action χ ρ η)} {c c' : Config ε C R σ ρ α}
      {a : Action χ ρ η} (run : Run π c₀ h c) (permitted : π.permits c a)
      (step : M.step a c = some c') : Run π c₀ (h ++ [(c, a)]) c'

/-- What a call of a thread does, with every part of the configuration named. -/
theorem step_call {i : ℕ} {ch : χ} {c c' : Config ε C R σ ρ α}
    (h : M.step (.call i ch) c = some c') :
    ∃ q cl k r s, c.pool i = .running q (.call cl k) ∧ M.answer i cl ch c.state = some (r, s) ∧
      c' = ⟨Function.update c.pool i (.running q (k r)), s⟩ := by
  simp only [step] at h
  split at h
  · next q cl k hslot =>
      obtain ⟨⟨r, s⟩, hr, rfl⟩ := Option.map_eq_some_iff.1 h
      exact ⟨q, cl, k, r, s, hslot, hr, rfl⟩
  · cases h

theorem step_start {i : ℕ} {q : ρ} {c c' : Config ε C R σ ρ α}
    (h : M.step (.start i q) c = some c') :
    ∃ s, c.pool i = .unused ∧ M.accept i q c.state = some s ∧
      c' = ⟨Function.update c.pool i (.running q (M.program i q)), s⟩ := by
  simp only [step] at h
  split at h
  · next hslot =>
      obtain ⟨s, hs, rfl⟩ := Option.map_eq_some_iff.1 h
      exact ⟨s, hslot, hs, rfl⟩
  · cases h

theorem step_crash {i : ℕ} {c c' : Config ε C R σ ρ α} (h : M.step (.crash i) c = some c') :
    ∃ q p, c.pool i = .running q p ∧
      c' = ⟨Function.update c.pool i (.crashed q), M.halt i c.state⟩ := by
  simp only [step] at h
  split at h
  · next q p hslot => exact ⟨q, p, hslot, (Option.some.inj h).symm⟩
  · cases h

theorem step_environment {e : η} {c c' : Config ε C R σ ρ α}
    (h : M.step (.environment e) c = some c') :
    ∃ s, M.environment e c.state = some s ∧ c' = ⟨c.pool, s⟩ := by
  obtain ⟨s, hs, rfl⟩ := Option.map_eq_some_iff.1 h
  exact ⟨s, hs, rfl⟩

variable {M}

/-- A step leaves the other threads where they are. -/
theorem step_pool {a : Action χ ρ η} {c c' : Config ε C R σ ρ α} (h : M.step a c = some c')
    {i : ℕ} (hi : a.thread ≠ some i) : c'.pool i = c.pool i := by
  cases a with
  | call j ch =>
      obtain ⟨q, cl, k, r, s, -, -, rfl⟩ := M.step_call h
      exact Function.update_of_ne (fun heq => hi (congrArg some heq.symm)) ..
  | start j q =>
      obtain ⟨s, -, -, rfl⟩ := M.step_start h
      exact Function.update_of_ne (fun heq => hi (congrArg some heq.symm)) ..
  | crash j =>
      obtain ⟨q, p, -, rfl⟩ := M.step_crash h
      exact Function.update_of_ne (fun heq => hi (congrArg some heq.symm)) ..
  | environment e =>
      obtain ⟨s, -, rfl⟩ := M.step_environment h
      rfl

/-- A thread that is not in use was not in use before. -/
theorem step_unused {a : Action χ ρ η} {c c' : Config ε C R σ ρ α} (h : M.step a c = some c')
    {i : ℕ} (hi : c'.pool i = .unused) : c.pool i = .unused := by
  cases a with
  | call j ch =>
      obtain ⟨q, cl, k, r, s, -, -, rfl⟩ := M.step_call h
      by_cases heq : i = j
      · subst heq
        simp at hi
      · simpa [Function.update_of_ne heq] using hi
  | start j q =>
      obtain ⟨s, hslot, -, rfl⟩ := M.step_start h
      by_cases heq : i = j
      · subst heq
        exact hslot
      · simpa [Function.update_of_ne heq] using hi
  | crash j =>
      obtain ⟨q, p, -, rfl⟩ := M.step_crash h
      by_cases heq : i = j
      · subst heq
        simp at hi
      · simpa [Function.update_of_ne heq] using hi
  | environment e =>
      obtain ⟨s, -, rfl⟩ := M.step_environment h
      exact hi

/-- A run uses finitely many threads. -/
theorem Run.bounded {π : Policy C σ χ ρ η} {s : σ} {c : Config ε C R σ ρ α}
    {h : List (Config ε C R σ ρ α × Action χ ρ η)} (run : M.Run π (.initial s) h c) :
    ∃ n, ∀ i, n ≤ i → c.pool i = .unused := by
  induction run with
  | nil => exact ⟨0, fun _ _ => rfl⟩
  | @snoc h c c' a _ _ step ih =>
      obtain ⟨n, hn⟩ := ih
      refine ⟨max n (a.thread.elim 0 (· + 1)), fun i hi => ?_⟩
      have hthread : a.thread ≠ some i := by
        intro hthread
        rw [hthread] at hi
        exact absurd (Nat.le_trans (Nat.le_max_right _ _) hi) (Nat.not_succ_le_self i)
      rw [step_pool step hthread]
      exact hn i (Nat.le_trans (Nat.le_max_left _ _) hi)

/-- A property of configurations that every permitted step preserves holds at
the end of a run, and held at every configuration the run left. -/
theorem Run.invariant {π : Policy C σ χ ρ η} {c₀ c : Config ε C R σ ρ α}
    {h : List (Config ε C R σ ρ α × Action χ ρ η)} (I : Config ε C R σ ρ α → Prop) (h₀ : I c₀)
    (hstep : ∀ c a c', I c → π.permits c a → M.step a c = some c' → I c')
    (run : M.Run π c₀ h c) : I c ∧ ∀ v ∈ h, I v.1 := by
  induction run with
  | nil => exact ⟨h₀, by simp⟩
  | snoc run permitted step ih =>
      refine ⟨hstep _ _ _ ih.1 permitted step, ?_⟩
      intro v hv
      rcases List.mem_append.1 hv with hv | hv
      · exact ih.2 v hv
      · rw [List.mem_singleton.1 hv]
        exact ih.1

/-- A preorder that every step respects relates each state of a run to its last one. -/
theorem Run.related {r : σ → σ → Prop} [IsPreorder σ r] {π : Policy C σ χ ρ η}
    {c₀ c : Config ε C R σ ρ α} {h : List (Config ε C R σ ρ α × Action χ ρ η)}
    (hstep : ∀ a c c', M.step a c = some c' → r c.state c'.state) (run : M.Run π c₀ h c) :
    ∀ v ∈ h, r v.1.state c.state := by
  induction run with
  | nil => simp
  | @snoc h c c' a run _ step ih =>
      intro v hv
      rcases List.mem_append.1 hv with hv | hv
      · exact trans_of r (ih v hv) (hstep a c c' step)
      · rw [List.mem_singleton.1 hv]
        exact hstep a c c' step

/-- The same holds from the state that a step of the run has left behind. -/
theorem Run.since {r : σ → σ → Prop} [IsPreorder σ r] {π : Policy C σ χ ρ η}
    {c₀ c : Config ε C R σ ρ α} {h : List (Config ε C R σ ρ α × Action χ ρ η)}
    (hstep : ∀ a c c', M.step a c = some c' → r c.state c'.state) (run : M.Run π c₀ h c) :
    ∀ v ∈ h, ∃ c', M.step v.2 v.1 = some c' ∧ r c'.state c.state := by
  induction run with
  | nil => simp
  | @snoc h c c' a run _ step ih =>
      intro v hv
      rcases List.mem_append.1 hv with hv | hv
      · obtain ⟨c₁, hstep₁, hrelated⟩ := ih v hv
        exact ⟨c₁, hstep₁, trans_of r hrelated (hstep a c c' step)⟩
      · rw [List.mem_singleton.1 hv]
        exact ⟨c', step, refl_of r _⟩

/-- A run passes through each configuration it has left, and takes the action
recorded there. -/
theorem Run.before {π : Policy C σ χ ρ η} {c₀ c : Config ε C R σ ρ α}
    {h : List (Config ε C R σ ρ α × Action χ ρ η)} (run : M.Run π c₀ h c) :
    ∀ {h₁ v h₂}, h = h₁ ++ v :: h₂ → M.Run π c₀ h₁ v.1 ∧ π.permits v.1 v.2 ∧
      ∃ c', M.step v.2 v.1 = some c' ∧ M.Run π c₀ (h₁ ++ [v]) c' := by
  induction run with
  | nil => simp
  | @snoc h c c' a run permitted step ih =>
      intro h₁ v h₂ heq
      rcases List.eq_nil_or_concat h₂ with rfl | ⟨h₂, w, rfl⟩
      · obtain ⟨rfl, hv⟩ := List.append_inj' heq rfl
        rw [← (List.cons.inj hv).1]
        exact ⟨run, permitted, c', step, .snoc run permitted step⟩
      · have hsplit : h ++ [(c, a)] = (h₁ ++ v :: h₂) ++ [w] := by simpa using heq
        exact ih (List.append_inj' hsplit rfl).1

/-- What holds of the last state of a run and not of the first one comes to hold by some
step. -/
theorem Run.becomes {P : σ → Prop} {π : Policy C σ χ ρ η} {c₀ c : Config ε C R σ ρ α}
    {h : List (Config ε C R σ ρ α × Action χ ρ η)} (run : M.Run π c₀ h c) (h₀ : ¬ P c₀.state)
    (hP : P c.state) : ∃ h₁ v h₂ c', h = h₁ ++ v :: h₂ ∧ M.step v.2 v.1 = some c' ∧
      ¬ P v.1.state ∧ P c'.state := by
  induction run with
  | nil => exact absurd hP h₀
  | @snoc h c c' a run _ step ih =>
      by_cases hbefore : P c.state
      · obtain ⟨h₁, v, h₂, c₁, rfl, hstep, hv, hafter⟩ := ih hbefore
        exact ⟨h₁, v, h₂ ++ [(c, a)], c₁, by simp, hstep, hv, hafter⟩
      · exact ⟨h, (c, a), [], c', rfl, step, hbefore, hP⟩

section Exec

variable (π : Policy C σ χ ρ η) [∀ (c : Config ε C R σ ρ α) a, Decidable (π.permits c a)]

/-- Take a list of steps; `none` if one is not possible or not permitted. -/
def exec : List (Action χ ρ η) → Config ε C R σ ρ α → Option (Config ε C R σ ρ α)
  | [], c => some c
  | a :: as, c => if π.permits c a then (M.step a c).bind (exec as) else none

theorem exec_append (as bs : List (Action χ ρ η)) (c : Config ε C R σ ρ α) :
    M.exec π (as ++ bs) c = (M.exec π as c).bind (M.exec π bs) := by
  induction as generalizing c with
  | nil => rfl
  | cons a as ih =>
      simp only [List.cons_append, exec]
      split
      · cases M.step a c with
        | none => rfl
        | some c' => exact ih c'
      · rfl

/-- The steps of a list, with the configurations that they leave. -/
def trail : List (Action χ ρ η) → Config ε C R σ ρ α →
    List (Config ε C R σ ρ α × Action χ ρ η)
  | [], _ => []
  | a :: as, c => (c, a) :: ((M.step a c).map (trail as)).getD []

/-- What `exec` computes is the end of a run along the trail. -/
theorem Run.follow {π : Policy C σ χ ρ η} [∀ (c : Config ε C R σ ρ α) a, Decidable (π.permits c a)]
    {c₀ : Config ε C R σ ρ α} :
    ∀ {as : List (Action χ ρ η)} {h : List (Config ε C R σ ρ α × Action χ ρ η)}
      {c c' : Config ε C R σ ρ α}, M.Run π c₀ h c → M.exec π as c = some c' →
        M.Run π c₀ (h ++ M.trail as c) c'
  | [], h, c, c', run, hexec => by
      rw [Machine.exec, Option.some.injEq] at hexec
      simpa [trail, ← hexec] using run
  | a :: as, h, c, c', run, hexec => by
      rw [Machine.exec] at hexec
      split at hexec
      · next hpermit =>
          obtain ⟨c₁, hstep, hrest⟩ := Option.bind_eq_some_iff.1 hexec
          have run' := Run.follow (.snoc run hpermit hstep) hrest
          rw [List.append_assoc] at run'
          simpa [trail, hstep] using run'
      · cases hexec

/-- The steps of the trail are those of the list. -/
theorem trail_actions {π : Policy C σ χ ρ η}
    [∀ (c : Config ε C R σ ρ α) a, Decidable (π.permits c a)] {as : List (Action χ ρ η)}
    {c c' : Config ε C R σ ρ α} (hexec : M.exec π as c = some c') :
    (M.trail as c).map Prod.snd = as := by
  induction as generalizing c with
  | nil => rfl
  | cons a as ih =>
      rw [Machine.exec] at hexec
      split at hexec
      · obtain ⟨c₁, hstep, hrest⟩ := Option.bind_eq_some_iff.1 hexec
        simp [trail, hstep, ih hrest]
      · cases hexec

/-- A list of steps, at one of them. -/
theorem exec_split {π : Policy C σ χ ρ η} [∀ (c : Config ε C R σ ρ α) a, Decidable (π.permits c a)]
    {as bs : List (Action χ ρ η)} {a : Action χ ρ η} {c c' : Config ε C R σ ρ α}
    (hexec : M.exec π (as ++ a :: bs) c = some c') :
    ∃ c₁ c₂, M.exec π as c = some c₁ ∧ M.step a c₁ = some c₂ ∧ M.exec π bs c₂ = some c' ∧
      M.trail (as ++ a :: bs) c = M.trail as c ++ (c₁, a) :: M.trail bs c₂ := by
  induction as generalizing c with
  | nil =>
      rw [List.nil_append, Machine.exec] at hexec
      split at hexec
      · obtain ⟨c₂, hstep, hrest⟩ := Option.bind_eq_some_iff.1 hexec
        exact ⟨c, c₂, rfl, hstep, hrest, by simp [trail, hstep]⟩
      · cases hexec
  | cons b as ih =>
      rw [List.cons_append, Machine.exec] at hexec
      split at hexec
      · next hpermit =>
          obtain ⟨c₀, hfirst, hrest⟩ := Option.bind_eq_some_iff.1 hexec
          obtain ⟨c₁, c₂, hbefore, hstep, hafter, htrail⟩ := ih hrest
          refine ⟨c₁, c₂, ?_, hstep, hafter, ?_⟩
          · rw [Machine.exec, if_pos hpermit, hfirst, Option.bind_some, hbefore]
          · simp [trail, hfirst, htrail]
      · cases hexec

/-- What `exec` computes is the end of a run. -/
theorem Run.exec {π : Policy C σ χ ρ η} [∀ (c : Config ε C R σ ρ α) a, Decidable (π.permits c a)]
    {c₀ : Config ε C R σ ρ α} {as : List (Action χ ρ η)}
    {h : List (Config ε C R σ ρ α × Action χ ρ η)} {c c' : Config ε C R σ ρ α}
    (run : M.Run π c₀ h c) (hexec : M.exec π as c = some c') :
    ∃ h', M.Run π c₀ (h ++ h') c' := ⟨M.trail as c, run.follow hexec⟩

/-- A list of steps leaves the threads it does not name where they are. -/
theorem exec_pool {i : ℕ} :
    ∀ {as : List (Action χ ρ η)} {c c' : Config ε C R σ ρ α}, M.exec π as c = some c' →
      (∀ a ∈ as, a.thread ≠ some i) → c'.pool i = c.pool i
  | [], c, c', hexec, _ => by
      rw [Machine.exec, Option.some.injEq] at hexec
      rw [hexec]
  | a :: as, c, c', hexec, has => by
      rw [Machine.exec] at hexec
      split at hexec
      · obtain ⟨c₁, hstep, hrest⟩ := Option.bind_eq_some_iff.1 hexec
        rw [exec_pool hrest fun b hb => has b (List.mem_cons_of_mem _ hb),
          step_pool hstep (has a List.mem_cons_self)]
      · cases hexec

end Exec

/-- A run whose steps another policy permits is a run under that policy. -/
theorem Run.restrict {π π' : Policy C σ χ ρ η} {c₀ c : Config ε C R σ ρ α}
    {h : List (Config ε C R σ ρ α × Action χ ρ η)} (run : M.Run π c₀ h c)
    (hπ : ∀ v ∈ h, π.permits v.1 v.2 → π'.permits v.1 v.2) : M.Run π' c₀ h c := by
  induction run with
  | nil => exact .nil
  | snoc _ permitted step ih =>
      apply Run.snoc (ih fun v hv => hπ v (List.mem_append_left _ hv)) _ step
      exact hπ _ (List.mem_append_right _ (List.mem_singleton_self _)) permitted

end Machine

end Effects
