import CommerceAgent.Effects.Machine

/-!
# Duties

A state may have something `due`, which is `met` when the state itself will see
to it. In between a thread bears the duty: by something it holds in the state
(`Pledge.held`), or by nothing but the rest of its program (`Pledge.promised`).

`Bears` says of a program that it will not let go of a duty before the duty is
met or no longer due. `Diligent` says that whatever the program makes due is
met at once or borne by the rest of it. `Duty.Sound.run` concludes for a machine
of diligent threads: whatever is due is met, or a running thread bears it.
-/

namespace Effects

variable {ε C : Type} {R : C → Type} {σ χ ρ α β η δ : Type}

/-- What is due in a state, when it is met, and what a thread holds for it. -/
structure Duty (σ δ : Type) where
  inv : σ → Prop
  due : σ → Option δ
  met : δ → σ → Prop
  holds : δ → ℕ → σ → Prop
  /-- Threads run to their end, so that their word is enough. -/
  promises : Prop

/-- How a thread bears a duty. -/
inductive Pledge where
  | held
  | promised

namespace Duty

variable (U : Duty σ δ) (M : Machine ε C R σ χ ρ α η) (π : Policy C σ χ ρ η)

/-- What stands behind the pledge of the thread `i`. -/
def Backed : Pledge → δ → ℕ → σ → Prop
  | .held, d, i, s => U.holds d i s
  | .promised, _, _, _ => U.promises

/-- While `d` is due and its pledge is backed, each call of the program leaves
nothing due, or something met, or something the rest of the program bears. -/
def Bears (i : ℕ) (Q : δ → Pledge → β → Prop) (E : δ → Pledge → ε → Prop) :
    Program ε C R β → δ → Pledge → Prop
  | .pure a, d, b => Q d b a
  | .throw e, d, b => E d b e
  | .call c k, d, b => ∀ ch s r s', U.inv s → U.due s = some d → U.Backed b d i s →
      π.call i c ch s → M.answer i c ch s = some (r, s') →
        ∀ d', U.due s' = some d' →
          U.met d' s' ∨ ∃ b', U.Backed b' d' i s' ∧ Bears i Q E (k r) d' b'

/-- What is due in `s` is met, or the program bears it. -/
def Owes (i : ℕ) (Q : δ → Pledge → β → Prop) (E : δ → Pledge → ε → Prop)
    (p : Program ε C R β) (s : σ) : Prop :=
  ∀ d, U.due s = some d → U.met d s ∨ ∃ b, U.Backed b d i s ∧ U.Bears M π i Q E p d b

/-- The program is one of those that concern the duty, by `A`, or changes nothing
that is due; what it makes due it meets or bears. It ends in `V` or raises. -/
def Diligent (i : ℕ) (A : Prop) (Q : δ → Pledge → β → Prop) (E : δ → Pledge → ε → Prop)
    (V : β → Prop) : Program ε C R β → Prop
  | .pure a => V a
  | .throw _ => True
  | .call c k => ∀ ch s r s', U.inv s → π.call i c ch s → M.answer i c ch s = some (r, s') →
      (U.due s' ≠ U.due s → A ∧ U.Owes M π i Q E (k r) s') ∧ Diligent i A Q E V (k r)

variable {U M π} {i : ℕ} {A : Prop} {Q : δ → Pledge → β → Prop} {E : δ → Pledge → ε → Prop}
  {V : β → Prop} {d : δ} {b : Pledge}

@[simp] theorem bears_pure {a : β} : U.Bears M π i Q E (.pure a) d b ↔ Q d b a := Iff.rfl

@[simp] theorem bears_throw {e : ε} : U.Bears M π i Q E (.throw e) d b ↔ E d b e := Iff.rfl

theorem Owes.of_due_eq_none {p : Program ε C R β} {s : σ} (h : U.due s = none) :
    U.Owes M π i Q E p s := by
  intro d hd
  rw [h] at hd
  cases hd

theorem Owes.of_met {p : Program ε C R β} {s : σ} (hdue : U.due s = some d) (h : U.met d s) :
    U.Owes M π i Q E p s := by
  intro d' hd'
  rw [hdue] at hd'
  cases hd'
  exact .inl h

theorem Owes.of_bears {p : Program ε C R β} {s : σ} (hdue : U.due s = some d)
    (hback : U.Backed b d i s) (h : U.Bears M π i Q E p d b) : U.Owes M π i Q E p s := by
  intro d' hd'
  rw [hdue] at hd'
  cases hd'
  exact .inr ⟨b, hback, h⟩

/-- The rule of consequence for bearing. -/
theorem Bears.mono {Q' : δ → Pledge → β → Prop} {E' : δ → Pledge → ε → Prop}
    (hQ : ∀ d b a, Q d b a → Q' d b a) (hE : ∀ d b e, E d b e → E' d b e) :
    ∀ {p : Program ε C R β} {d : δ} {b : Pledge},
      U.Bears M π i Q E p d b → U.Bears M π i Q' E' p d b
  | .pure _, _, _, hp => hQ _ _ _ hp
  | .throw _, _, _, hp => hE _ _ _ hp
  | .call _ _, _, _, hp => fun ch s r s' hinv hdue hback hπ hr d' hd' =>
      (hp ch s r s' hinv hdue hback hπ hr d' hd').imp_right
        fun ⟨b', hback', hrest⟩ => ⟨b', hback', Bears.mono hQ hE hrest⟩

/-- The rule of sequencing for bearing. -/
theorem Bears.handle {α' : Type} {f : α' → Program ε C R β} {h : ε → Program ε C R β} :
    ∀ {p : Program ε C R α'} {d : δ} {b : Pledge},
      U.Bears M π i (fun d b a => U.Bears M π i Q E (f a) d b)
        (fun d b e => U.Bears M π i Q E (h e) d b) p d b →
          U.Bears M π i Q E (p.handle f h) d b
  | .pure _, _, _, hp => hp
  | .throw _, _, _, hp => hp
  | .call _ _, _, _, hp => fun ch s r s' hinv hdue hback hπ hr d' hd' =>
      (hp ch s r s' hinv hdue hback hπ hr d' hd').imp_right
        fun ⟨b', hback', hrest⟩ => ⟨b', hback', Bears.handle hrest⟩

theorem Owes.handle {α' : Type} {f : α' → Program ε C R β} {h : ε → Program ε C R β}
    {p : Program ε C R α'} {s : σ}
    (hp : U.Owes M π i (fun d b a => U.Bears M π i Q E (f a) d b)
      (fun d b e => U.Bears M π i Q E (h e) d b) p s) : U.Owes M π i Q E (p.handle f h) s :=
  fun d hd => (hp d hd).imp_right fun ⟨b, hback, hrest⟩ => ⟨b, hback, Bears.handle hrest⟩

/-- The rule of sequencing for diligence. -/
theorem Diligent.handle {α' : Type} {f : α' → Program ε C R β} {h : ε → Program ε C R β}
    {W : α' → Prop} (hf : ∀ a, W a → U.Diligent M π i A Q E V (f a))
    (hh : ∀ e, U.Diligent M π i A Q E V (h e)) :
    ∀ {p : Program ε C R α'},
      U.Diligent M π i A (fun d b a => U.Bears M π i Q E (f a) d b)
        (fun d b e => U.Bears M π i Q E (h e) d b) W p →
          U.Diligent M π i A Q E V (p.handle f h)
  | .pure _, hp => hf _ hp
  | .throw _, _ => hh _
  | .call _ _, hp => fun ch s r s' hinv hπ hr =>
      have hcall := hp ch s r s' hinv hπ hr
      ⟨fun hne => (hcall.1 hne).imp_right Owes.handle, Diligent.handle hf hh hcall.2⟩

theorem Diligent.bind {α' : Type} {p : Program ε C R α'} {f : α' → Program ε C R β}
    {W : α' → Prop}
    (hp : U.Diligent M π i A (fun d b a => U.Bears M π i Q E (f a) d b) E W p)
    (hf : ∀ a, W a → U.Diligent M π i A Q E V (f a)) : U.Diligent M π i A Q E V (p >>= f) :=
  .handle hf (fun _ => by trivial) hp

/-- A program whose calls change nothing that is due. -/
theorem Diligent.of_only {P : C → Prop}
    (hP : ∀ c, P c → ∀ ch s r s', U.inv s → π.call i c ch s →
      M.answer i c ch s = some (r, s') → U.due s' = U.due s) :
    ∀ {p : Program ε C R β}, p.Only P V → U.Diligent M π i A Q E V p
  | .pure _, hp => hp
  | .throw _, _ => trivial
  | .call _ _, hp => fun ch s r s' hinv hπ hr =>
      ⟨fun hne => absurd (hP _ hp.1 ch s r s' hinv hπ hr) hne, Diligent.of_only hP (hp.2 r)⟩

/-- A program that ends with a duty has ended with what it holds, and only where
threads are not taken at their word. -/
def AtEnd (U : Duty σ δ) : δ → Pledge → β → Prop := fun _ _ _ => ¬ U.promises

/-- The obligations of a machine: no call lets go of what is met or of what
another thread holds, what a thread takes over at its start it bears, and a
crash gives back what was held. -/
structure Sound (U : Duty σ δ) (M : Machine ε C R σ χ ρ α η) (π : Policy C σ χ ρ η)
    (concerns : ρ → Prop) : Prop where
  call : ∀ i c ch s r s', U.inv s → π.call i c ch s → M.answer i c ch s = some (r, s') →
    U.inv s' ∧ ∀ d, (U.met d s → U.met d s') ∧ ∀ j, j ≠ i → U.holds d j s → U.holds d j s'
  start : ∀ i q s s', U.inv s → π.start i q s → M.accept i q s = some s' →
    U.inv s' ∧ U.due s' = U.due s ∧
      U.Diligent M π i (concerns q) U.AtEnd U.AtEnd (fun _ => True) (M.program i q) ∧
        ∀ d, (U.met d s → U.met d s' ∨ (concerns q ∧ U.holds d i s' ∧
            U.Bears M π i U.AtEnd U.AtEnd (M.program i q) d .held)) ∧
          ∀ j, j ≠ i → U.holds d j s → U.holds d j s'
  crash : ∀ i s, U.inv s → π.crash i s → ¬ U.promises ∧ U.inv (M.halt i s) ∧
    U.due (M.halt i s) = U.due s ∧ ∀ d, (U.met d s → U.met d (M.halt i s)) ∧
      (U.holds d i s → U.met d (M.halt i s)) ∧
        ∀ j, j ≠ i → U.holds d j s → U.holds d j (M.halt i s)
  environment : ∀ e s s', U.inv s → π.environment e s → M.environment e s = some s' →
    U.inv s' ∧ U.due s' = U.due s ∧ ∀ d, (U.met d s → U.met d s') ∧
      ∀ j, U.holds d j s → U.met d s' ∨ U.holds d j s'

/-- The thread `i` runs a program that bears `d`. -/
def Bearer (U : Duty σ δ) (M : Machine ε C R σ χ ρ α η) (π : Policy C σ χ ρ η)
    (concerns : ρ → Prop) (d : δ) (i : ℕ) (c : Config ε C R σ ρ α) : Prop :=
  ∃ q p b, c.pool i = .running q p ∧ concerns q ∧ U.Backed b d i c.state ∧
    U.Bears M π i U.AtEnd U.AtEnd p d b

/-- What a sound duty guarantees of every configuration. -/
structure Holds (U : Duty σ δ) (M : Machine ε C R σ χ ρ α η) (π : Policy C σ χ ρ η)
    (concerns : ρ → Prop) (c : Config ε C R σ ρ α) : Prop where
  inv : U.inv c.state
  diligent : ∀ i q p, c.pool i = .running q p →
    U.Diligent M π i (concerns q) U.AtEnd U.AtEnd (fun _ => True) p
  covered : ∀ d, U.due c.state = some d → U.met d c.state ∨ ∃ i, U.Bearer M π concerns d i c

variable {concerns : ρ → Prop}

theorem Backed.mono {s s' : σ} (h : U.Backed b d i s) (hs : U.holds d i s → U.holds d i s') :
    U.Backed b d i s' := by
  cases b with
  | held => exact hs h
  | promised => exact h

/-- A bearer goes on bearing across a step of another thread. -/
theorem Bearer.later {c : Config ε C R σ ρ α} {j : ℕ} {s : σ} {t : Slot ε C R ρ α}
    (h : U.Bearer M π concerns d j c) (hj : j ≠ i) (hs : U.holds d j c.state → U.holds d j s) :
    U.Bearer M π concerns d j ⟨Function.update c.pool i t, s⟩ := by
  obtain ⟨q, p, b, hslot, hconcerns, hback, hbears⟩ := h
  exact ⟨q, p, b, by simpa [Function.update_of_ne hj] using hslot, hconcerns, hback.mono hs, hbears⟩

/-- Every running thread stays diligent when the one that moves does. -/
theorem diligent_update {pool : ℕ → Slot ε C R ρ α} {t : Slot ε C R ρ α}
    (h : ∀ i q p, pool i = .running q p →
      U.Diligent M π i (concerns q) U.AtEnd U.AtEnd (fun _ => True) p)
    (ht : ∀ q p, t = .running q p →
      U.Diligent M π i (concerns q) U.AtEnd U.AtEnd (fun _ => True) p)
    (j : ℕ) (q : ρ) (p : Program ε C R α) (hj : Function.update pool i t j = .running q p) :
    U.Diligent M π j (concerns q) U.AtEnd U.AtEnd (fun _ => True) p := by
  by_cases heq : j = i
  · subst heq
    exact ht q p (by simpa using hj)
  · exact h j q p (by simpa [Function.update_of_ne heq] using hj)

/-- One step of a machine of diligent threads. -/
theorem Sound.step (hU : U.Sound M π concerns) {c c' : Config ε C R σ ρ α} {a : Action χ ρ η}
    (hc : U.Holds M π concerns c) (hπ : π.permits c a) (ha : M.step a c = some c') :
    U.Holds M π concerns c' := by
  cases a with
  | call i ch =>
      obtain ⟨q, cl, k, r, s, hslot, hr, rfl⟩ := M.step_call ha
      have hpermit : π.call i cl ch c.state := by simpa [Policy.permits, hslot] using hπ
      obtain ⟨hinv, hframe⟩ := hU.call i cl ch c.state r s hc.inv hpermit hr
      obtain ⟨howes, hrest⟩ := hc.diligent i q _ hslot ch c.state r s hc.inv hpermit hr
      refine ⟨hinv, diligent_update hc.diligent ?_, ?_⟩
      · intro q' p' heq
        cases heq
        exact hrest
      intro d hd
      have hmine : concerns q → U.Owes M π i U.AtEnd U.AtEnd (k r) s →
          U.met d s ∨ ∃ j, U.Bearer M π concerns d j
            ⟨Function.update c.pool i (.running q (k r)), s⟩ := by
        intro hconcerns hmine
        refine (hmine d hd).imp_right fun ⟨b, hback, hbears⟩ => ⟨i, q, k r, b, ?_⟩
        exact ⟨Function.update_self .., hconcerns, hback, hbears⟩
      by_cases hne : U.due s = U.due c.state
      · rcases hc.covered d (hne ▸ hd) with hmet | ⟨j, hj⟩
        · exact .inl ((hframe d).1 hmet)
        · by_cases heq : j = i
          · -- The thread that bears the duty is the one that moves.
            subst heq
            obtain ⟨q', p', b, hslot', hconcerns, hback, hbears⟩ := hj
            rw [hslot] at hslot'
            cases hslot'
            exact hmine hconcerns
              (hbears ch c.state r s hc.inv (hne ▸ hd) hback hpermit hr)
          · exact .inr ⟨j, hj.later heq ((hframe d).2 j heq)⟩
      · exact hmine (howes hne).1 (howes hne).2
  | start i q =>
      obtain ⟨s, hslot, hs, rfl⟩ := M.step_start ha
      obtain ⟨hinv, hdue, hprogram, hframe⟩ := hU.start i q c.state s hc.inv hπ hs
      refine ⟨hinv, diligent_update hc.diligent ?_, ?_⟩
      · intro q' p' heq
        cases heq
        exact hprogram
      intro d hd
      rcases hc.covered d (hdue ▸ hd) with hmet | ⟨j, hj⟩
      · refine ((hframe d).1 hmet).imp_right fun ⟨hconcerns, hholds, hbears⟩ =>
          ⟨i, q, M.program i q, .held, ?_⟩
        exact ⟨Function.update_self .., hconcerns, hholds, hbears⟩
      · have hj' : j ≠ i := by
          intro heq
          subst heq
          obtain ⟨q', p', b, hslot', -⟩ := hj
          rw [hslot] at hslot'
          cases hslot'
        exact .inr ⟨j, hj.later hj' ((hframe d).2 j hj')⟩
  | crash i =>
      obtain ⟨q, p, hslot, rfl⟩ := M.step_crash ha
      obtain ⟨hpromises, hinv, hdue, hframe⟩ := hU.crash i c.state hc.inv hπ
      refine ⟨hinv, diligent_update hc.diligent (by simp), ?_⟩
      intro d hd
      rcases hc.covered d (hdue ▸ hd) with hmet | ⟨j, hj⟩
      · exact .inl ((hframe d).1 hmet)
      · by_cases heq : j = i
        · subst heq
          obtain ⟨_, _, b, -, -, hback, -⟩ := hj
          cases b with
          | held => exact .inl ((hframe d).2.1 hback)
          | promised => exact absurd hback hpromises
        · exact .inr ⟨j, hj.later heq ((hframe d).2.2 j heq)⟩
  | environment e =>
      obtain ⟨s, hs, rfl⟩ := M.step_environment ha
      obtain ⟨hinv, hdue, hframe⟩ := hU.environment e c.state s hc.inv hπ hs
      refine ⟨hinv, hc.diligent, ?_⟩
      intro d hd
      rcases hc.covered d (hdue ▸ hd) with hmet | ⟨j, q, p, b, hslot, hconcerns, hback, hbears⟩
      · exact .inl ((hframe d).1 hmet)
      · cases b with
        | held =>
            refine ((hframe d).2 j hback).imp_right fun hholds => ⟨j, q, p, .held, ?_⟩
            exact ⟨hslot, hconcerns, hholds, hbears⟩
        | promised => exact .inr ⟨j, q, p, .promised, hslot, hconcerns, hback, hbears⟩

/-- In every run of diligent threads whatever is due is met, or a thread bears it. -/
theorem Sound.run (hU : U.Sound M π concerns) {s₀ : σ} (h₀ : U.inv s₀)
    (hmet : ∀ d, U.due s₀ = some d → U.met d s₀) {c : Config ε C R σ ρ α}
    {h : List (Config ε C R σ ρ α × Action χ ρ η)} (run : M.Run π (.initial s₀) h c) :
    U.Holds M π concerns c := by
  induction run with
  | nil => exact ⟨h₀, by simp [Config.initial], fun d hd => .inl (hmet d hd)⟩
  | snoc _ permitted step ih => exact hU.step ih permitted step

/-- Where threads are taken at their word, what is due is met as soon as no
thread that concerns it has a call to make. -/
theorem Holds.met_of_idle (hpromises : U.promises) {c : Config ε C R σ ρ α}
    (hc : U.Holds M π concerns c)
    (hidle : ∀ i q p, c.pool i = .running q p → concerns q → ¬ c.InProgress i)
    (hd : U.due c.state = some d) : U.met d c.state := by
  rcases hc.covered d hd with hmet | ⟨i, q, p, b, hslot, hconcerns, -, hbears⟩
  · exact hmet
  · cases p with
    | pure a => exact absurd hpromises hbears
    | throw e => exact absurd hpromises hbears
    | call cl k => exact absurd ⟨q, cl, k, hslot⟩ (hidle i q _ hslot hconcerns)

/-- Where threads may crash, what is due is met or held by a thread. -/
theorem Holds.met_or_held (hpromises : ¬ U.promises) {c : Config ε C R σ ρ α}
    (hc : U.Holds M π concerns c) (hd : U.due c.state = some d) :
    U.met d c.state ∨ ∃ i, U.holds d i c.state := by
  rcases hc.covered d hd with hmet | ⟨i, q, p, b, -, -, hback, -⟩
  · exact .inl hmet
  · cases b with
    | held => exact .inr ⟨i, hback⟩
    | promised => exact absurd hback hpromises

end Duty

end Effects
