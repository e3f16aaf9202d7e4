import CommerceAgent.Effects.Machine

/-!
# One machine simulating another

Two machines run the same programs over different states. If each answer of the first is one
that the second can give in a related state, and leaves related states behind, then every run
of the first is matched by a run of the second with the same threads at the same calls. What
the environment does on its own may be nothing to the second machine.

A start and an answer have to be matched only where the second machine can get to, so that its
invariants may be used.
-/

namespace Effects

variable {ε C : Type} {R : C → Type} {σ σ' χ χ' ρ α η η' : Type}

/-- A policy that permits more. -/
theorem Policy.permits_mono {π π' : Policy C σ χ ρ η}
    (hcall : ∀ i c ch s, π.call i c ch s → π'.call i c ch s)
    (hstart : ∀ i q s, π.start i q s → π'.start i q s)
    (hcrash : ∀ i s, π.crash i s → π'.crash i s)
    (henvironment : ∀ e s, π.environment e s → π'.environment e s) {c : Config ε C R σ ρ α}
    {a : Action χ ρ η} (h : π.permits c a) : π'.permits c a := by
  cases a with
  | call i ch =>
      cases hslot : c.pool i with
      | running q p =>
          cases p with
          | call cl k =>
              have hpermit : π.call i cl ch c.state := by simpa [Policy.permits, hslot] using h
              simpa [Policy.permits, hslot] using hcall i cl ch c.state hpermit
          | _ => simp [Policy.permits, hslot]
      | _ => simp [Policy.permits, hslot]
  | start i q => exact hstart i q c.state h
  | crash i => exact hcrash i c.state h
  | environment e => exact henvironment e c.state h

/-- Every step of `M` is matched by one of `M'`, whose runs start in `t₀`. -/
structure Simulation (M : Machine ε C R σ χ ρ α η) (M' : Machine ε C R σ' χ' ρ α η')
    (π : Policy C σ χ ρ η) (π' : Policy C σ' χ' ρ η') (t₀ : σ') (rel : σ → σ' → Prop) : Prop where
  program : ∀ i q, M.program i q = M'.program i q
  start : ∀ {h c}, M'.Run π' (.initial t₀) h c → ∀ i q s s', c.pool i = .unused → rel s c.state →
    π.start i q s → M.accept i q s = some s' →
      π'.start i q c.state ∧ ∃ t', M'.accept i q c.state = some t' ∧ rel s' t'
  answer : ∀ {h c}, M'.Run π' (.initial t₀) h c → ∀ i q cl k ch s r s',
    c.pool i = .running q (.call cl k) → rel s c.state → π.call i cl ch s →
      M.answer i cl ch s = some (r, s') →
        ∃ ch' t', π'.call i cl ch' c.state ∧ M'.answer i cl ch' c.state = some (r, t') ∧ rel s' t'
  crash : ∀ i s t, rel s t → π.crash i s → π'.crash i t ∧ rel (M.halt i s) (M'.halt i t)
  environment : ∀ e s t s', rel s t → π.environment e s → M.environment e s = some s' →
    rel s' t ∨ ∃ e' t', π'.environment e' t ∧ M'.environment e' t = some t' ∧ rel s' t'

namespace Simulation

variable {M : Machine ε C R σ χ ρ α η} {M' : Machine ε C R σ' χ' ρ α η'} {π : Policy C σ χ ρ η}
  {π' : Policy C σ' χ' ρ η'} {s₀ : σ} {t₀ : σ'} {rel : σ → σ' → Prop}

/-- The configurations have the same threads and related states. -/
def Tracks (rel : σ → σ' → Prop) (c : Config ε C R σ ρ α) (c' : Config ε C R σ' ρ α) : Prop :=
  c.pool = c'.pool ∧ rel c.state c'.state

/-- One step is matched by one step or by none. -/
theorem step (sim : Simulation M M' π π' t₀ rel) {c c₁ : Config ε C R σ ρ α}
    {c' : Config ε C R σ' ρ α} {h' : List (Config ε C R σ' ρ α × Action χ' ρ η')}
    (run : M'.Run π' (.initial t₀) h' c') (htracks : Tracks rel c c') {a : Action χ ρ η}
    (permitted : π.permits c a) (hstep : M.step a c = some c₁) :
    ∃ h₁ c₁', M'.Run π' (.initial t₀) h₁ c₁' ∧ Tracks rel c₁ c₁' := by
  obtain ⟨pool, s⟩ := c
  obtain ⟨pool', t⟩ := c'
  obtain ⟨rfl, hrel⟩ : pool = pool' ∧ rel s t := htracks
  cases a with
  | call i ch =>
      obtain ⟨q, cl, k, r, s', hslot, hanswer, rfl⟩ := M.step_call hstep
      have hslot : pool i = .running q (.call cl k) := hslot
      have hpermit : π.call i cl ch s := by simpa [Policy.permits, hslot] using permitted
      obtain ⟨ch', t', hpermit', hanswer', hrel'⟩ :=
        sim.answer run i q cl k ch s r s' hslot hrel hpermit hanswer
      refine ⟨_, ⟨Function.update pool i (.running q (k r)), t'⟩,
        run.snoc (a := .call i ch') ?_ ?_, rfl, hrel'⟩
      · simpa [Policy.permits, hslot] using hpermit'
      · simp [Machine.step, hslot, hanswer']
  | start i q =>
      obtain ⟨s', hslot, haccept, rfl⟩ := M.step_start hstep
      have hslot : pool i = .unused := hslot
      obtain ⟨hpermit', t', haccept', hrel'⟩ :=
        sim.start run i q s s' hslot hrel permitted haccept
      refine ⟨_, ⟨Function.update pool i (.running q (M'.program i q)), t'⟩,
        run.snoc (a := .start i q) hpermit' ?_, ?_, hrel'⟩
      · simp [Machine.step, hslot, haccept']
      · simp [sim.program]
  | crash i =>
      obtain ⟨q, p, hslot, rfl⟩ := M.step_crash hstep
      have hslot : pool i = .running q p := hslot
      obtain ⟨hpermit', hrel'⟩ := sim.crash i s t hrel permitted
      refine ⟨_, ⟨Function.update pool i (.crashed q), M'.halt i t⟩,
        run.snoc (a := .crash i) hpermit' ?_, rfl, hrel'⟩
      simp [Machine.step, hslot]
  | environment e =>
      obtain ⟨s', henv, rfl⟩ := M.step_environment hstep
      rcases sim.environment e s t s' hrel permitted henv with
        hsame | ⟨e', t', hpermit', henv', hrel'⟩
      · exact ⟨_, _, run, rfl, hsame⟩
      · refine ⟨_, ⟨pool, t'⟩, run.snoc (a := .environment e') hpermit' ?_, rfl, hrel'⟩
        simp [Machine.step, henv']

/-- Every run is matched by a run. -/
theorem run (sim : Simulation M M' π π' t₀ rel) (h₀ : rel s₀ t₀) {c : Config ε C R σ ρ α}
    {h : List (Config ε C R σ ρ α × Action χ ρ η)} (hrun : M.Run π (.initial s₀) h c) :
    ∃ h' c', M'.Run π' (.initial t₀) h' c' ∧ Tracks rel c c' := by
  induction hrun with
  | nil => exact ⟨[], .initial t₀, .nil, rfl, h₀⟩
  | snoc _ permitted hstep ih =>
      obtain ⟨h', c', hrun', htracks⟩ := ih
      exact sim.step hrun' htracks permitted hstep

end Simulation

end Effects
