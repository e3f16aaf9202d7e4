import CommerceAgent.Effects.Machine

/-!
# Rely and guarantee

A `Discipline` of a machine states an invariant of the shared state and, for
every thread, the change of the state that the thread may assume the others make
between two of its calls. A thread is `Safe` when each of its calls, made in any
state the others can have brought about, keeps the invariant and stays inside
what every other thread assumes. The index `none` stands for an observer who
makes no calls: what the observer may assume holds across every step of a run.

`Discipline.Sound.run` is the composition rule: if each request starts a safe
program and the environment respects the assumptions, then in every run the
invariant holds, every thread stays safe, and every finished thread has
established its postcondition.
-/

namespace Effects

variable {ε C : Type} {R : C → Type} {σ χ ρ α β η : Type}

/-- An invariant, the assumptions of the threads and of the observer `none`, and
the postcondition of each request. -/
structure Discipline (σ ρ α : Type) where
  inv : σ → Prop
  rely : Option ℕ → σ → σ → Prop
  post : ρ → α → σ → Prop
  refl : ∀ j s, rely j s s
  trans : ∀ {j s s' s''}, rely j s s' → rely j s' s'' → rely j s s''
  post_stable : ∀ {q a s s'}, rely none s s' → post q a s → post q a s'

namespace Discipline

variable (D : Discipline σ ρ α) (M : Machine ε C R σ χ ρ α η) (π : Policy C σ χ ρ η)

/-- What one step of the thread `i` owes to the others. -/
def Keeps (i : ℕ) (s s' : σ) : Prop := D.inv s' ∧ ∀ j, j ≠ some i → D.rely j s s'

/-- The thread `i` may run the program from the state `s` among the others: each
of its calls keeps the discipline, and it ends in `Q` or raises in `E`. -/
def Safe (i : ℕ) (Q : β → σ → Prop) (E : ε → σ → Prop) : Program ε C R β → σ → Prop
  | .pure a, s => Q a s
  | .throw e, s => E e s
  | .call c k, s => ∀ s', D.rely (some i) s s' → D.inv s' → ∀ ch r s'',
      π.call i c ch s' → M.answer i c ch s' = some (r, s'') →
        D.Keeps i s' s'' ∧ Safe i Q E (k r) s''

variable {D M π} {i : ℕ} {Q : β → σ → Prop} {E : ε → σ → Prop}

@[simp] theorem safe_pure {a : β} {s : σ} : D.Safe M π i Q E (.pure a) s ↔ Q a s := Iff.rfl

@[simp] theorem safe_throw {e : ε} {s : σ} : D.Safe M π i Q E (.throw e) s ↔ E e s := Iff.rfl

/-- A program that still has a call to make stays safe while the others move. -/
theorem Safe.later {c : C} {k : Except ε (R c) → Program ε C R β} {s s' : σ}
    (h : D.Safe M π i Q E (.call c k) s) (hs : D.rely (some i) s s') :
    D.Safe M π i Q E (.call c k) s' :=
  fun s'' hs' hinv => h s'' (D.trans hs hs') hinv

/-- The rule of consequence. -/
theorem Safe.mono {Q' : β → σ → Prop} {E' : ε → σ → Prop}
    (hQ : ∀ a s, D.inv s → Q a s → Q' a s) (hE : ∀ e s, D.inv s → E e s → E' e s) :
    ∀ {p : Program ε C R β} {s : σ}, D.inv s → D.Safe M π i Q E p s → D.Safe M π i Q' E' p s
  | .pure _, _, hinv, h => hQ _ _ hinv h
  | .throw _, _, hinv, h => hE _ _ hinv h
  | .call _ _, _, _, h => fun s' hs hinv' ch r s'' hπ hr =>
      have hcall := h s' hs hinv' ch r s'' hπ hr
      ⟨hcall.1, Safe.mono hQ hE hcall.1.1 hcall.2⟩

/-- The rule of consequence, without the invariant. -/
theorem Safe.imp {Q' : β → σ → Prop} {E' : ε → σ → Prop} (hQ : ∀ a s, Q a s → Q' a s)
    (hE : ∀ e s, E e s → E' e s) :
    ∀ {p : Program ε C R β} {s : σ}, D.Safe M π i Q E p s → D.Safe M π i Q' E' p s
  | .pure _, _, h => hQ _ _ h
  | .throw _, _, h => hE _ _ h
  | .call _ _, _, h => fun s' hs hinv ch r s'' hπ hr =>
      have hcall := h s' hs hinv ch r s'' hπ hr
      ⟨hcall.1, Safe.imp hQ hE hcall.2⟩

/-- The rule of sequencing: a program is safe when its first part ends where the
continuation it then takes is safe. -/
theorem Safe.handle {γ : Type} {Q : γ → σ → Prop} {f : β → Program ε C R γ}
    {h : ε → Program ε C R γ} :
    ∀ {p : Program ε C R β} {s : σ},
      D.Safe M π i (fun a => D.Safe M π i Q E (f a)) (fun e => D.Safe M π i Q E (h e)) p s →
        D.Safe M π i Q E (p.handle f h) s
  | .pure _, _, hp => hp
  | .throw _, _, hp => hp
  | .call _ _, _, hp => fun s' hs hinv ch r s'' hπ hr =>
      have hcall := hp s' hs hinv ch r s'' hπ hr
      ⟨hcall.1, Safe.handle hcall.2⟩

/-- A program whose calls all keep the discipline is safe, and what is stable
under the steps of all threads still holds where it ends. -/
theorem Safe.of_only {P : C → Prop} {V : β → Prop} {I : σ → Prop}
    (hkeeps : ∀ c, P c → ∀ s ch r s', D.inv s → π.call i c ch s →
      M.answer i c ch s = some (r, s') → D.Keeps i s s')
    (hrely : ∀ s s', D.rely (some i) s s' → I s → I s')
    (hobserve : ∀ s s', D.rely none s s' → I s → I s') :
    ∀ {p : Program ε C R β} {s : σ}, p.Only P V → I s →
      D.Safe M π i (fun b s => V b ∧ I s) (fun _ s => I s) p s
  | .pure _, _, hp, hs => ⟨hp, hs⟩
  | .throw _, _, _, hs => hs
  | .call c _, _, hp, hs => fun s' hs' hinv ch r s'' hπ hr =>
      have hcall := hkeeps c hp.1 s' ch r s'' hinv hπ hr
      ⟨hcall, Safe.of_only hkeeps hrely hobserve (hp.2 r)
        (hobserve _ _ (hcall.2 none (by simp)) (hrely _ _ hs' hs))⟩

/-- A machine that answers renamed calls as another machine does, on a part of
its state, can run the programs of the other machine. -/
theorem Safe.lift {C' : Type} {R' : C' → Type} {σ' χ' ρ' α' η' : Type} {f : C → C'} {proj : σ' → σ}
    {M : Machine ε C (fun c => R' (f c)) σ χ ρ α η} {D' : Discipline σ' ρ' α'}
    {M' : Machine ε C' R' σ' χ' ρ' α' η'} {π' : Policy C' σ' χ' ρ' η'}
    (hrely : ∀ s s', D'.rely (some i) s s' → D.rely (some i) (proj s) (proj s'))
    (hinv : ∀ s, D'.inv s → D.inv (proj s))
    (hanswer : ∀ c ch' s r s', M'.answer i (f c) ch' s = some (r, s') →
      ∃ ch, π.call i c ch (proj s) ∧ M.answer i c ch (proj s) = some (r, proj s'))
    (hkeeps : ∀ c ch' s r s', D'.inv s → M'.answer i (f c) ch' s = some (r, s') →
      D.Keeps i (proj s) (proj s') → D'.Keeps i s s') :
    ∀ {p : Program ε C (fun c => R' (f c)) β} {s : σ'}, D.Safe M π i Q E p (proj s) →
      D'.Safe M' π' i (fun b s => Q b (proj s)) (fun e s => E e (proj s)) (p.lift f) s
  | .pure _, _, hp => hp
  | .throw _, _, hp => hp
  | .call c _, _, hp => fun s' hs' hinv' ch' r s'' _ hr =>
      have ⟨_, hch, hr'⟩ := hanswer c ch' s' r s'' hr
      have hcall := hp (proj s') (hrely _ _ hs') (hinv _ hinv') _ r (proj s'') hch hr'
      ⟨hkeeps c ch' s' r s'' hinv' hr hcall.1,
        Safe.lift hrely hinv hanswer hkeeps hcall.2⟩

/-- The obligations of a discipline: requests start safe programs, and crashes
and the environment stay inside what the threads assume. -/
structure Sound (D : Discipline σ ρ α) (M : Machine ε C R σ χ ρ α η)
    (π : Policy C σ χ ρ η) : Prop where
  start : ∀ i q s s', D.inv s → π.start i q s → M.accept i q s = some s' →
    D.Keeps i s s' ∧ D.Safe M π i (D.post q) (fun _ _ => True) (M.program i q) s'
  crash : ∀ i s, D.inv s → π.crash i s → D.Keeps i s (M.halt i s)
  environment : ∀ e s s', D.inv s → π.environment e s → M.environment e s = some s' →
    D.inv s' ∧ ∀ j, D.rely j s s'

/-- The thread in a slot is safe, or has ended in its postcondition. -/
def SlotSafe (D : Discipline σ ρ α) (M : Machine ε C R σ χ ρ α η) (π : Policy C σ χ ρ η)
    (i : ℕ) (s : σ) : Slot ε C R ρ α → Prop
  | .running q p => D.Safe M π i (D.post q) (fun _ _ => True) p s
  | _ => True

/-- What a sound discipline guarantees of every configuration. -/
structure Holds (D : Discipline σ ρ α) (M : Machine ε C R σ χ ρ α η) (π : Policy C σ χ ρ η)
    (c : Config ε C R σ ρ α) : Prop where
  inv : D.inv c.state
  safe : ∀ i, D.SlotSafe M π i c.state (c.pool i)

/-- A slot stays safe across a step of another thread or of the environment. -/
theorem SlotSafe.later {s s' : σ} {t : Slot ε C R ρ α} (h : D.SlotSafe M π i s t)
    (hi : D.rely (some i) s s') (hobs : D.rely none s s') : D.SlotSafe M π i s' t := by
  match t, h with
  | .unused, _ => trivial
  | .crashed _, _ => trivial
  | .running _ (.pure _), h => exact D.post_stable hobs h
  | .running _ (.throw _), _ => trivial
  | .running _ (.call _ _), h => exact Safe.later h hi

/-- A step of one thread that leaves the slot of that thread safe leaves every
slot safe. -/
theorem slotSafe_update {s s' : σ} {pool : ℕ → Slot ε C R ρ α} {t : Slot ε C R ρ α}
    (h : ∀ j, D.SlotSafe M π j s (pool j)) (hkeeps : D.Keeps i s s')
    (ht : D.SlotSafe M π i s' t) (j : ℕ) :
    D.SlotSafe M π j s' (Function.update pool i t j) := by
  by_cases hj : j = i
  · subst hj
    simpa using ht
  · rw [Function.update_of_ne hj]
    exact (h j).later (hkeeps.2 _ (by simpa using hj)) (hkeeps.2 _ (by simp))

/-- The composition rule for one step. -/
theorem Sound.step (hD : D.Sound M π) {c c' : Config ε C R σ ρ α} {a : Action χ ρ η}
    (hc : D.Holds M π c) (hπ : π.permits c a) (ha : M.step a c = some c') :
    D.Holds M π c' ∧ D.rely none c.state c'.state := by
  cases a with
  | call i ch =>
      obtain ⟨q, cl, k, r, s, hslot, hr, rfl⟩ := M.step_call ha
      have hsafe : D.SlotSafe M π i c.state (.running q (.call cl k)) := hslot ▸ hc.safe i
      have hpermit : π.call i cl ch c.state := by simpa [Policy.permits, hslot] using hπ
      obtain ⟨hkeeps, hnext⟩ := hsafe c.state (D.refl _ _) hc.inv ch r s hpermit hr
      exact ⟨⟨hkeeps.1, slotSafe_update hc.safe hkeeps hnext⟩, hkeeps.2 none (by simp)⟩
  | start i q =>
      obtain ⟨s, -, hs, rfl⟩ := M.step_start ha
      obtain ⟨hkeeps, hnext⟩ := hD.start i q c.state s hc.inv hπ hs
      exact ⟨⟨hkeeps.1, slotSafe_update hc.safe hkeeps hnext⟩, hkeeps.2 none (by simp)⟩
  | crash i =>
      obtain ⟨q, p, -, rfl⟩ := M.step_crash ha
      have hkeeps := hD.crash i c.state hc.inv hπ
      exact ⟨⟨hkeeps.1, slotSafe_update hc.safe hkeeps trivial⟩, hkeeps.2 none (by simp)⟩
  | environment e =>
      obtain ⟨s, hs, rfl⟩ := M.step_environment ha
      obtain ⟨hinv, hrely⟩ := hD.environment e c.state s hc.inv hπ hs
      exact ⟨⟨hinv, fun j => (hc.safe j).later (hrely _) (hrely _)⟩, hrely none⟩

/-- The composition rule for a run: the discipline holds at every configuration,
and what the observer assumes holds from every configuration left to the end. -/
theorem Sound.run (hD : D.Sound M π) {s₀ : σ} (h₀ : D.inv s₀) {c : Config ε C R σ ρ α}
    {h : List (Config ε C R σ ρ α × Action χ ρ η)} (run : M.Run π (.initial s₀) h c) :
    D.Holds M π c ∧ ∀ v ∈ h, D.Holds M π v.1 ∧ D.rely none v.1.state c.state := by
  induction run with
  | nil => exact ⟨⟨h₀, fun _ => trivial⟩, by simp⟩
  | snoc run permitted step ih =>
      obtain ⟨hc, hpast⟩ := ih
      obtain ⟨hc', hrely⟩ := hD.step hc permitted step
      refine ⟨hc', ?_⟩
      intro v hv
      rcases List.mem_append.1 hv with hv | hv
      · exact ⟨(hpast v hv).1, D.trans (hpast v hv).2 hrely⟩
      · rw [List.mem_singleton.1 hv]
        exact ⟨hc, hrely⟩

/-- The observer may assume its relation also from the configuration that a step of
the run has left behind to the end. -/
theorem Sound.since (hD : D.Sound M π) {s₀ : σ} (h₀ : D.inv s₀) {c : Config ε C R σ ρ α}
    {h : List (Config ε C R σ ρ α × Action χ ρ η)} (run : M.Run π (.initial s₀) h c) :
    ∀ v ∈ h, ∃ c', M.step v.2 v.1 = some c' ∧ D.rely none c'.state c.state := by
  induction run with
  | nil => simp
  | @snoc h c c' a run permitted step ih =>
      intro v hv
      rcases List.mem_append.1 hv with hv | hv
      · obtain ⟨c₁, hstep, hrely⟩ := ih v hv
        exact ⟨c₁, hstep, D.trans hrely (hD.step (hD.run h₀ run).1 permitted step).2⟩
      · rw [List.mem_singleton.1 hv]
        exact ⟨c', step, D.refl _ _⟩

end Discipline

end Effects
