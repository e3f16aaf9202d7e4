import CommerceAgent.Effects.Machine

/-!
# Auxiliary variables

An auxiliary variable is computed along a run from the calls that were made and
decides nothing. `Machine.tally` is its value after a history, and
`Machine.observe` is the machine that carries it in its state, so that the rules
about shared states apply to statements about histories. `Run.observe` relates
the two: a run of a machine is a run of the observed one, step by step.
-/

namespace Effects

variable {ε C : Type} {R : C → Type} {σ χ ρ α η γ : Type}

/-- The configuration with the value of an auxiliary variable. -/
def Config.observed (c : Config ε C R σ ρ α) (g : γ) : Config ε C R (σ × γ) ρ α :=
  ⟨c.pool, c.state, g⟩

namespace Machine

variable (M : Machine ε C R σ χ ρ α η) (note : ℕ → C → χ → σ → γ → γ)

/-- What a step does to the auxiliary variable. -/
def noteStep (v : Config ε C R σ ρ α × Action χ ρ η) (g : γ) : γ :=
  match v.2 with
  | .call i ch =>
      match v.1.pool i with
      | .running _ (.call cl _) => note i cl ch v.1.state g
      | _ => g
  | _ => g

/-- The thread whose call a step answers, with the call and the choice. -/
def answered (v : Config ε C R σ ρ α × Action χ ρ η) : Option (ℕ × C × χ) :=
  match v.2 with
  | .call i ch =>
      match v.1.pool i with
      | .running _ (.call cl _) => some (i, cl, ch)
      | _ => none
  | _ => none

/-- Only a step that answers a call is noted. -/
theorem noteStep_eq (v : Config ε C R σ ρ α × Action χ ρ η) (g : γ) :
    noteStep note v g =
      (answered v).elim g fun m => note m.1 m.2.1 m.2.2 v.1.state g := by
  unfold noteStep answered
  split
  · split <;> rfl
  · rfl

/-- The auxiliary variable after a history. -/
def tally (g₀ : γ) (h : List (Config ε C R σ ρ α × Action χ ρ η)) : γ :=
  h.foldl (fun g v => noteStep note v g) g₀

/-- The machine with an auxiliary variable in its state. -/
def observe : Machine ε C R (σ × γ) χ ρ α η where
  program := M.program
  answer i c ch s := (M.answer i c ch s.1).map fun r => (r.1, r.2, note i c ch s.1 s.2)
  accept i q s := (M.accept i q s.1).map fun s' => (s', s.2)
  halt i s := (M.halt i s.1, s.2)
  environment e s := (M.environment e s.1).map fun s' => (s', s.2)

variable {M note}

theorem tally_snoc {g₀ : γ} {h : List (Config ε C R σ ρ α × Action χ ρ η)}
    {v : Config ε C R σ ρ α × Action χ ρ η} :
    tally note g₀ (h ++ [v]) = noteStep note v (tally note g₀ h) := by
  rw [tally, tally, List.foldl_append]
  rfl

theorem tally_append {g₀ : γ} {h₁ h₂ : List (Config ε C R σ ρ α × Action χ ρ η)} :
    tally note g₀ (h₁ ++ h₂) = tally note (tally note g₀ h₁) h₂ :=
  List.foldl_append ..

/-- What the calls of the other threads leave alone is as it was for a thread that has
not started. -/
theorem Run.tally_of_unused {π : Policy C σ χ ρ η} {c₀ c : Config ε C R σ ρ α}
    {h : List (Config ε C R σ ρ α × Action χ ρ η)} {i : ℕ} {g₀ : γ} {I : γ → Prop}
    (hI : ∀ j cl ch s g, j ≠ i → I g → I (note j cl ch s g)) (h₀ : I g₀) (run : M.Run π c₀ h c)
    (hunused : c.pool i = .unused) : I (tally note g₀ h) := by
  induction run with
  | nil => exact h₀
  | @snoc h c c' a run permitted step ih =>
      have hother : a.thread ≠ some i := by
        intro heq
        cases a with
        | call j ch =>
            cases heq
            obtain ⟨q, cl, k, r, s, -, -, rfl⟩ := M.step_call step
            simp at hunused
        | start j q =>
            cases heq
            obtain ⟨s, -, -, rfl⟩ := M.step_start step
            simp at hunused
        | crash j =>
            cases heq
            obtain ⟨q, p, -, rfl⟩ := M.step_crash step
            simp at hunused
        | environment e => cases heq
      have hbefore := ih (step_pool step hother ▸ hunused)
      rw [tally_snoc]
      cases a with
      | call j ch =>
          simp only [noteStep]
          split
          · exact hI j _ ch c.state _ (fun heq => hother (congrArg some heq)) hbefore
          · exact hbefore
      | _ => exact hbefore

/-- A call of the observed machine is one of the machine, noted. -/
theorem observe_answer {i : ℕ} {c : C} {ch : χ} {s s' : σ × γ} {r : Except ε (R c)}
    (h : (M.observe note).answer i c ch s = some (r, s')) :
    M.answer i c ch s.1 = some (r, s'.1) ∧ s'.2 = note i c ch s.1 s.2 := by
  obtain ⟨⟨r', s₁⟩, hr, heq⟩ := Option.map_eq_some_iff.1 h
  cases heq
  exact ⟨hr, rfl⟩

/-- A step of the machine is a step of the observed one. -/
theorem step_observe {a : Action χ ρ η} {c c' : Config ε C R σ ρ α} (h : M.step a c = some c')
    (g : γ) :
    (M.observe note).step a (c.observed g) = some (c'.observed (noteStep note (c, a) g)) := by
  cases a with
  | call i ch =>
      obtain ⟨q, cl, k, r, s, hslot, hr, rfl⟩ := M.step_call h
      simp [step, Config.observed, observe, noteStep, hslot, hr]
  | start i q =>
      obtain ⟨s, hslot, hs, rfl⟩ := M.step_start h
      simp [step, Config.observed, observe, noteStep, hslot, hs]
  | crash i =>
      obtain ⟨q, p, hslot, rfl⟩ := M.step_crash h
      simp [step, Config.observed, observe, noteStep, hslot]
  | environment e =>
      obtain ⟨s, hs, rfl⟩ := M.step_environment h
      simp [step, Config.observed, observe, noteStep, hs]

/-- A run whose steps a policy of the observed machine permits, each with the value
of the auxiliary variable so far, is a run of the observed machine. -/
theorem Run.observe {π : Policy C σ χ ρ η} {π' : Policy C (σ × γ) χ ρ η}
    {c₀ c : Config ε C R σ ρ α} {h : List (Config ε C R σ ρ α × Action χ ρ η)} (g₀ : γ)
    (run : M.Run π c₀ h c)
    (hπ : ∀ h₁ v h₂, h = h₁ ++ v :: h₂ → π'.permits (v.1.observed (tally note g₀ h₁)) v.2) :
    ∃ h', (M.observe note).Run π' (c₀.observed g₀) h' (c.observed (tally note g₀ h)) ∧
      ∀ v ∈ h, ∃ g, (v.1.observed g, v.2) ∈ h' := by
  induction run with
  | nil => exact ⟨[], .nil, by simp⟩
  | @snoc h c c' a run permitted step ih =>
      obtain ⟨h', run', hpast⟩ := ih fun h₁ v h₂ heq => hπ h₁ v (h₂ ++ [(c, a)]) (by simp [heq])
      refine ⟨h' ++ [(c.observed (tally note g₀ h), a)], ?_, ?_⟩
      · rw [tally_snoc]
        exact .snoc run' (hπ h (c, a) [] rfl) (step_observe step _)
      · intro v hv
        rcases List.mem_append.1 hv with hv | hv
        · obtain ⟨g, hg⟩ := hpast v hv
          exact ⟨g, List.mem_append_left _ hg⟩
        · rw [List.mem_singleton.1 hv]
          exact ⟨_, List.mem_append_right _ (List.mem_singleton_self _)⟩

/-- A step of the observed machine is a step of the machine, noted. -/
theorem step_of_observe {a : Action χ ρ η} {c : Config ε C R σ ρ α} {g : γ}
    {c' : Config ε C R (σ × γ) ρ α} (h : (M.observe note).step a (c.observed g) = some c') :
    ∃ c₁, M.step a c = some c₁ ∧ c' = c₁.observed (noteStep note (c, a) g) := by
  cases a with
  | call i ch =>
      obtain ⟨q, cl, k, r, ⟨s, g'⟩, hslot, hr, rfl⟩ := (M.observe note).step_call h
      obtain ⟨hanswer, hnote⟩ := observe_answer hr
      replace hslot : c.pool i = .running q (.call cl k) := hslot
      replace hanswer : M.answer i cl ch c.state = some (r, s) := hanswer
      refine ⟨⟨Function.update c.pool i (.running q (k r)), s⟩, ?_, ?_⟩
      · simp [step, hslot, hanswer]
      · simp only [Config.observed, noteStep, hslot] at hnote ⊢
        rw [hnote]
  | start i q =>
      obtain ⟨⟨s, g'⟩, hslot, hs, rfl⟩ := (M.observe note).step_start h
      replace hslot : c.pool i = .unused := hslot
      obtain ⟨s₁, hs₁, heq⟩ := Option.map_eq_some_iff.1 hs
      replace hs₁ : M.accept i q c.state = some s₁ := hs₁
      cases heq
      refine ⟨⟨Function.update c.pool i (.running q (M.program i q)), s⟩, ?_, rfl⟩
      simp [step, hslot, hs₁]
  | crash i =>
      obtain ⟨q, p, hslot, rfl⟩ := (M.observe note).step_crash h
      replace hslot : c.pool i = .running q p := hslot
      refine ⟨⟨Function.update c.pool i (.crashed q), M.halt i c.state⟩, ?_, rfl⟩
      simp [step, hslot]
  | environment e =>
      obtain ⟨⟨s, g'⟩, hs, rfl⟩ := (M.observe note).step_environment h
      obtain ⟨s₁, hs₁, heq⟩ := Option.map_eq_some_iff.1 hs
      replace hs₁ : M.environment e c.state = some s₁ := hs₁
      cases heq
      exact ⟨⟨c.pool, s⟩, by simp [step, hs₁], rfl⟩

/-- A run of the observed machine is a run of the machine whose auxiliary variable
is the tally of its history. -/
theorem Run.of_observe {π' : Policy C (σ × γ) χ ρ η} {c₀ : Config ε C R σ ρ α} {g₀ : γ}
    {h' : List (Config ε C R (σ × γ) ρ α × Action χ ρ η)} {c' : Config ε C R (σ × γ) ρ α}
    (run : (M.observe note).Run π' (c₀.observed g₀) h' c') :
    ∃ h c, M.Run .any c₀ h c ∧ c' = c.observed (tally note g₀ h) ∧
      ∀ h₁ v h₂, h = h₁ ++ v :: h₂ → π'.permits (v.1.observed (tally note g₀ h₁)) v.2 := by
  induction run with
  | nil => exact ⟨[], c₀, .nil, rfl, by simp⟩
  | @snoc h' _ c'' a _ permitted step ih =>
      obtain ⟨h, c, run, rfl, hπ⟩ := ih
      obtain ⟨c₁, hstep, rfl⟩ := step_of_observe step
      refine ⟨h ++ [(c, a)], c₁, .snoc run (Policy.permits_any c a) hstep, ?_, ?_⟩
      · rw [tally_snoc]
      · intro h₁ v h₂ heq
        rcases List.eq_nil_or_concat h₂ with rfl | ⟨h₂, u, rfl⟩
        · obtain ⟨rfl, hv⟩ := List.append_inj' heq rfl
          rw [← (List.cons.inj hv).1]
          exact permitted
        · have hsplit : h ++ [(c, a)] = (h₁ ++ v :: h₂) ++ [u] := by simpa using heq
          exact hπ h₁ v h₂ (List.append_inj' hsplit rfl).1

/-- What the observed machine computes from a list of steps, the machine computes along its
trail, whose steps the policy permits. -/
theorem exec_of_observe {π' : Policy C (σ × γ) χ ρ η}
    [∀ (c : Config ε C R (σ × γ) ρ α) a, Decidable (π'.permits c a)] {as : List (Action χ ρ η)}
    {c : Config ε C R σ ρ α} {g : γ} {c' : Config ε C R (σ × γ) ρ α}
    (hexec : (M.observe note).exec π' as (c.observed g) = some c') :
    ∃ c₁, M.exec .any as c = some c₁ ∧ c' = c₁.observed (tally note g (M.trail as c)) ∧
      ∀ h₁ v h₂, M.trail as c = h₁ ++ v :: h₂ →
        π'.permits (v.1.observed (tally note g h₁)) v.2 := by
  induction as generalizing c g with
  | nil =>
      rw [exec, Option.some.injEq] at hexec
      exact ⟨c, rfl, hexec.symm, by simp [trail]⟩
  | cons a as ih =>
      rw [exec] at hexec
      split at hexec
      · next hpermit =>
          obtain ⟨c₂, hstep, hrest⟩ := Option.bind_eq_some_iff.1 hexec
          obtain ⟨c₀, hfirst, rfl⟩ := step_of_observe hstep
          obtain ⟨c₁, hc₁, hend, hπ⟩ := ih hrest
          have htrail : M.trail (a :: as) c = (c, a) :: M.trail as c₀ := by simp [trail, hfirst]
          refine ⟨c₁, ?_, ?_, ?_⟩
          · rw [exec, if_pos (Policy.permits_any c a), hfirst, Option.bind_some, hc₁]
          · rw [hend, htrail]
            rfl
          · intro h₁ v h₂ heq
            rw [htrail] at heq
            cases h₁ with
            | nil =>
                cases heq
                exact hpermit
            | cons u h₁ =>
                obtain ⟨rfl, hrest⟩ := List.cons.inj heq
                exact hπ h₁ v h₂ hrest
      · cases hexec

end Machine

end Effects
