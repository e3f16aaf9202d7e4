import CommerceAgent.Effects.Machine

/-!
# Transcripts

The transcript of a thread is the list of its calls with their answers. A
`Contract` states what a thread may assume of an answer and what it guarantees
of each call it makes, given its transcript so far. `Program.Meets` says that a
program keeps its guarantee as long as its assumptions hold.

`Contract.Sound.run` closes the circle for a machine: if guaranteed calls keep an
invariant of the state and the invariant gives the assumptions, then in every
run every call of every thread is guaranteed.
-/

namespace Effects

variable {ε C : Type} {R : C → Type} {σ χ ρ α β η : Type}

/-- A call with its answer. -/
structure Exchange (ε C : Type) (R : C → Type) where
  call : C
  answer : Except ε (R call)

/-- What threads assume of answers and guarantee of calls. -/
structure Contract (ε C : Type) (R : C → Type) (σ ρ : Type) where
  inv : σ → Prop
  assume : (c : C) → Except ε (R c) → Prop
  guarantee : ρ → List (Exchange ε C R) → C → Prop

namespace Program

/-- After the exchanges `past`, every call of the program satisfies `G` for as
long as the answers satisfy `A`, and it ends in `Q` or raises in `E`. -/
def Meets (A : (c : C) → Except ε (R c) → Prop) (G : List (Exchange ε C R) → C → Prop)
    (Q : List (Exchange ε C R) → α → Prop) (E : List (Exchange ε C R) → ε → Prop) :
    Program ε C R α → List (Exchange ε C R) → Prop
  | .pure a, past => Q past a
  | .throw e, past => E past e
  | .call c k, past => G past c ∧ ∀ r, A c r → Meets A G Q E (k r) (past ++ [⟨c, r⟩])

variable {A : (c : C) → Except ε (R c) → Prop} {G : List (Exchange ε C R) → C → Prop}
  {Q : List (Exchange ε C R) → α → Prop} {E : List (Exchange ε C R) → ε → Prop}
  {past : List (Exchange ε C R)}

@[simp] theorem meets_pure {a : α} : (Program.pure a).Meets A G Q E past ↔ Q past a := Iff.rfl

@[simp] theorem meets_throw {e : ε} :
    (Program.throw e : Program ε C R α).Meets A G Q E past ↔ E past e := Iff.rfl

theorem meets_call {c : C} {k : Except ε (R c) → Program ε C R α} :
    (Program.call c k).Meets A G Q E past ↔
      G past c ∧ ∀ r, A c r → (k r).Meets A G Q E (past ++ [⟨c, r⟩]) := Iff.rfl

/-- A call and what follows its return or its raise. -/
theorem meets_handle {c : C} {f : R c → Program ε C R α} {h : ε → Program ε C R α} :
    ((perform c).handle f h).Meets A G Q E past ↔ G past c ∧
      (∀ b, A c (.ok b) → (f b).Meets A G Q E (past ++ [⟨c, .ok b⟩])) ∧
        ∀ e, A c (.error e) → (h e).Meets A G Q E (past ++ [⟨c, .error e⟩]) := by
  rw [perform, handle_call, meets_call]
  refine and_congr_right fun _ => ⟨fun h => ⟨fun b => h (.ok b), fun e => h (.error e)⟩, ?_⟩
  rintro ⟨hok, herror⟩ (e | b)
  · exact herror e
  · exact hok b

/-- A single call. -/
theorem meets_perform {c : C} {Q : List (Exchange ε C R) → R c → Prop} :
    (perform c).Meets A G Q E past ↔ G past c ∧
      (∀ b, A c (.ok b) → Q (past ++ [⟨c, .ok b⟩]) b) ∧
        ∀ e, A c (.error e) → E (past ++ [⟨c, .error e⟩]) e := by
  rw [← handle_pure_throw (perform c), meets_handle]
  rfl

/-- The rule of sequencing. -/
theorem Meets.handle {Q : List (Exchange ε C R) → β → Prop} {f : α → Program ε C R β}
    {h : ε → Program ε C R β} :
    ∀ {p : Program ε C R α} {past : List (Exchange ε C R)},
      p.Meets A G (fun past a => (f a).Meets A G Q E past)
          (fun past e => (h e).Meets A G Q E past) past →
        (p.handle f h).Meets A G Q E past
  | .pure _, _, hp => hp
  | .throw _, _, hp => hp
  | .call _ _, _, hp => ⟨hp.1, fun r hr => Meets.handle (hp.2 r hr)⟩

/-- A call followed by the rest of a program, which a raise ends. -/
theorem meets_bind {c : C} {f : R c → Program ε C R α} :
    (perform c >>= f).Meets A G Q E past ↔ G past c ∧
      (∀ b, A c (.ok b) → (f b).Meets A G Q E (past ++ [⟨c, .ok b⟩])) ∧
        ∀ e, A c (.error e) → E (past ++ [⟨c, .error e⟩]) e :=
  meets_handle

/-- The rule of consequence. -/
theorem Meets.mono {Q' : List (Exchange ε C R) → α → Prop} {E' : List (Exchange ε C R) → ε → Prop}
    (hQ : ∀ past a, Q past a → Q' past a) (hE : ∀ past e, E past e → E' past e) :
    ∀ {p : Program ε C R α} {past : List (Exchange ε C R)},
      p.Meets A G Q E past → p.Meets A G Q' E' past
  | .pure _, _, hp => hQ _ _ hp
  | .throw _, _, hp => hE _ _ hp
  | .call _ _, _, hp => ⟨hp.1, fun r hr => Meets.mono hQ hE (hp.2 r hr)⟩

/-- A program that guarantees less. -/
theorem Meets.weaken {G' : List (Exchange ε C R) → C → Prop} (hG : ∀ past c, G past c → G' past c) :
    ∀ {p : Program ε C R α} {past : List (Exchange ε C R)},
      p.Meets A G Q E past → p.Meets A G' Q E past
  | .pure _, _, hp => hp
  | .throw _, _, hp => hp
  | .call _ _, _, hp => ⟨hG _ _ hp.1, fun r hr => Meets.weaken hG (hp.2 r hr)⟩

/-- What a program has been answered stays in its transcript. -/
theorem Meets.remember {e : Exchange ε C R} :
    ∀ {p : Program ε C R α} {past : List (Exchange ε C R)}, p.Meets A G Q E past → e ∈ past →
      p.Meets A G (fun past a => Q past a ∧ e ∈ past) E past
  | .pure _, _, hp, he => ⟨hp, he⟩
  | .throw _, _, hp, _ => hp
  | .call _ _, _, hp, he =>
      ⟨hp.1, fun r hr => Meets.remember (hp.2 r hr) (List.mem_append_left _ he)⟩

section Lift

variable {C' : Type} {R' : C' → Type} {f : C → C'}

/-- The exchange with its call renamed. -/
def exchangeLift (f : C → C') (e : Exchange ε C fun c => R' (f c)) :
    Exchange ε C' R' :=
  ⟨f e.call, e.answer⟩

/-- A program with its calls renamed meets what it meets itself. -/
theorem Meets.lift {A : (c : C') → Except ε (R' c) → Prop} {G : List (Exchange ε C' R') → C' → Prop}
    {Q : List (Exchange ε C' R') → α → Prop} {E : List (Exchange ε C' R') → ε → Prop} :
    ∀ {p : Program ε C (fun c => R' (f c)) α} {past : List (Exchange ε C fun c => R' (f c))},
      p.Meets (fun c r => A (f c) r) (fun past c => G (past.map (exchangeLift f)) (f c))
          (fun past a => Q (past.map (exchangeLift f)) a)
          (fun past e => E (past.map (exchangeLift f)) e) past →
        (p.lift f).Meets A G Q E (past.map (exchangeLift f))
  | .pure _, _, hp => hp
  | .throw _, _, hp => hp
  | .call c k, past, hp => by
      refine ⟨hp.1, fun r hr => ?_⟩
      have hk := Meets.lift (hp.2 r hr)
      rw [List.map_append] at hk
      exact hk

end Lift

/-- A program all of whose calls are guaranteed in any case. -/
theorem Meets.of_only {P : C → Prop} {V : α → Prop} (hP : ∀ past c, P c → G past c)
    (hV : ∀ past a, V a → Q past a) (hE : ∀ past e, E past e) :
    ∀ {p : Program ε C R α} (past : List (Exchange ε C R)), p.Only P V → p.Meets A G Q E past
  | .pure _, _, hp => hV _ _ hp
  | .throw _, _, _ => hE _ _
  | .call _ _, _, hp => ⟨hP _ _ hp.1, fun r _ => Meets.of_only hP hV hE _ (hp.2 r)⟩

end Program

namespace Machine

variable (M : Machine ε C R σ χ ρ α η)

/-- What a step shows of the thread `i`. -/
def exchange (i : ℕ) (v : Config ε C R σ ρ α × Action χ ρ η) : Option (Exchange ε C R) :=
  match v.2 with
  | .call j ch =>
      if j = i then
        match v.1.pool i with
        | .running _ (.call cl _) => (M.answer i cl ch v.1.state).map fun r => ⟨cl, r.1⟩
        | _ => none
      else none
  | _ => none

/-- The calls of the thread `i` in a run, with their answers. -/
def transcript (i : ℕ) (h : List (Config ε C R σ ρ α × Action χ ρ η)) :
    List (Exchange ε C R) :=
  h.filterMap (M.exchange i)

variable {M}

@[simp] theorem transcript_nil {i : ℕ} :
    M.transcript i ([] : List (Config ε C R σ ρ α × Action χ ρ η)) = [] := rfl

theorem transcript_snoc {i : ℕ} {h : List (Config ε C R σ ρ α × Action χ ρ η)}
    {v : Config ε C R σ ρ α × Action χ ρ η} :
    M.transcript i (h ++ [v]) = M.transcript i h ++ (M.exchange i v).toList := by
  simp only [transcript, List.filterMap_append]
  cases hv : M.exchange i v with
  | none => simp [hv]
  | some e => simp [hv]

theorem transcript_append {i : ℕ} {h₁ h₂ : List (Config ε C R σ ρ α × Action χ ρ η)} :
    M.transcript i (h₁ ++ h₂) = M.transcript i h₁ ++ M.transcript i h₂ := by
  rw [transcript, List.filterMap_append]
  rfl

/-- An exchange of a transcript happened at some step of the run. -/
theorem exists_of_mem_transcript {i : ℕ} {h : List (Config ε C R σ ρ α × Action χ ρ η)}
    {e : Exchange ε C R} (he : e ∈ M.transcript i h) :
    ∃ h₁ v h₂, h = h₁ ++ v :: h₂ ∧ M.exchange i v = some e := by
  obtain ⟨v, hv, hexchange⟩ := List.mem_filterMap.1 he
  obtain ⟨h₁, h₂, rfl⟩ := List.append_of_mem hv
  exact ⟨h₁, v, h₂, rfl, hexchange⟩

/-- An exchange is a call that the thread was about to make, with its answer. -/
theorem exchange_eq_some {i : ℕ} {v : Config ε C R σ ρ α × Action χ ρ η} {e : Exchange ε C R}
    (h : M.exchange i v = some e) :
    ∃ ch q k, v.2 = .call i ch ∧ v.1.pool i = .running q (.call e.call k) := by
  obtain ⟨c, a⟩ := v
  cases a with
  | call j ch =>
      simp only [exchange] at h
      split at h
      · next heq =>
          subst heq
          split at h
          · next q cl k hslot =>
              obtain ⟨r, -, rfl⟩ := Option.map_eq_some_iff.1 h
              exact ⟨ch, q, k, rfl, hslot⟩
          · cases h
      · cases h
  | start j q => cases h
  | crash j => cases h
  | environment e => cases h

/-- The answer of an exchange is the machine's. -/
theorem answer_of_exchange {i : ℕ} {v : Config ε C R σ ρ α × Action χ ρ η} {e : Exchange ε C R}
    (h : M.exchange i v = some e) :
    ∃ ch s, v.2 = .call i ch ∧ M.answer i e.call ch v.1.state = some (e.answer, s) := by
  obtain ⟨ch, q, k, hv, hslot⟩ := exchange_eq_some h
  obtain ⟨c, a⟩ := v
  obtain ⟨call, answer⟩ := e
  dsimp only at hv hslot
  subst hv
  simp only [exchange, if_true, hslot] at h
  obtain ⟨⟨r, s⟩, hr, heq⟩ := Option.map_eq_some_iff.1 h
  cases heq
  exact ⟨ch, s, rfl, hr⟩

/-- A preorder that every step respects relates the state that an exchange of the run has
left to the last one. -/
theorem Run.exchanged {r : σ → σ → Prop} [IsPreorder σ r] {π : Policy C σ χ ρ η}
    {c₀ c : Config ε C R σ ρ α} {h : List (Config ε C R σ ρ α × Action χ ρ η)}
    (hstep : ∀ a c c', M.step a c = some c' → r c.state c'.state) (run : M.Run π c₀ h c) {i : ℕ}
    {e : Exchange ε C R} (he : e ∈ M.transcript i h) :
    ∃ ch s s', M.answer i e.call ch s = some (e.answer, s') ∧ r s' c.state := by
  obtain ⟨h₁, v, h₂, rfl, hexchange⟩ := exists_of_mem_transcript he
  obtain ⟨ch, s, hv, hanswer⟩ := answer_of_exchange hexchange
  obtain ⟨c', hv', hlast⟩ := run.since hstep v (by simp)
  rw [hv] at hv'
  obtain ⟨q, cl, k, reply, s', hslot, hreply, rfl⟩ := M.step_call hv'
  obtain ⟨ch', q', k', -, hslot'⟩ := exchange_eq_some hexchange
  rw [hslot, Slot.running.injEq, Program.call.injEq] at hslot'
  obtain ⟨-, rfl, -⟩ := hslot'
  rw [hanswer, Option.some.injEq, Prod.mk.injEq] at hreply
  exact ⟨ch, v.1.state, s, hanswer, hreply.2 ▸ hlast⟩

theorem exchange_call {i : ℕ} {c : Config ε C R σ ρ α} {ch : χ} {q : ρ} {cl : C}
    {k : Except ε (R cl) → Program ε C R α} (hslot : c.pool i = .running q (.call cl k))
    {r : Except ε (R cl)} {s : σ} (hr : M.answer i cl ch c.state = some (r, s)) :
    M.exchange i (c, .call i ch) = some ⟨cl, r⟩ := by
  simp [exchange, hslot, hr]

theorem exchange_of_ne {i : ℕ} {c : Config ε C R σ ρ α} {a : Action χ ρ η}
    (ha : ∀ ch, a ≠ .call i ch) : M.exchange i (c, a) = none := by
  cases a with
  | call j ch =>
      have hj : j ≠ i := by
        rintro rfl
        exact ha ch rfl
      simp [exchange, hj]
  | start j q => rfl
  | crash j => rfl
  | environment e => rfl

/-- A thread that has not started has called nothing. -/
theorem Run.transcript_of_unused {π : Policy C σ χ ρ η} {s₀ : σ} {c : Config ε C R σ ρ α}
    {h : List (Config ε C R σ ρ α × Action χ ρ η)} (run : M.Run π (.initial s₀) h c) {i : ℕ}
    (hunused : c.pool i = .unused) : M.transcript i h = [] := by
  induction run with
  | nil => rfl
  | @snoc h c c' a run _ step ih =>
      have hother : a.thread ≠ some i := by
        intro ha
        cases a with
        | call j ch =>
            cases ha
            obtain ⟨q, cl, k, r, s, -, -, rfl⟩ := M.step_call step
            simp at hunused
        | start j q =>
            cases ha
            obtain ⟨s, -, -, rfl⟩ := M.step_start step
            simp at hunused
        | crash j =>
            cases ha
            obtain ⟨q, p, -, rfl⟩ := M.step_crash step
            simp at hunused
        | environment e => cases ha
      rw [transcript_snoc, ih (step_pool step hother ▸ hunused), exchange_of_ne]
      · rfl
      · rintro ch rfl
        exact hother rfl

/-- A property of the transcript of a thread and the state that holds when the thread
starts, and is preserved by its own calls and by the steps of the others, holds of every
thread in progress. -/
theorem Run.along {π : Policy C σ χ ρ η} {s₀ : σ} {c : Config ε C R σ ρ α}
    {h : List (Config ε C R σ ρ α × Action χ ρ η)} (run : M.Run π (.initial s₀) h c)
    {P : Config ε C R σ ρ α × Action χ ρ η → Prop} (hP : ∀ v ∈ h, P v)
    {I : ℕ → List (Exchange ε C R) → σ → Prop} (hstart : ∀ i s, I i [] s)
    (hcall : ∀ {h c i ch q cl k r s}, M.Run π (.initial s₀) h c → (∀ v ∈ h, P v) →
      c.pool i = .running q (.call cl k) → M.answer i cl ch c.state = some (r, s) →
        I i (M.transcript i h) c.state → I i (M.transcript i h ++ [⟨cl, r⟩]) s)
    (hother : ∀ {h c a c' i}, M.Run π (.initial s₀) h c → (∀ v ∈ h, P v) → P (c, a) →
      M.step a c = some c' → a.thread ≠ some i → c.InProgress i →
        I i (M.transcript i h) c.state → I i (M.transcript i h) c'.state) :
    ∀ i, c.InProgress i → I i (M.transcript i h) c.state := by
  induction run with
  | nil => exact fun i hi => by simp [Config.InProgress, Config.initial] at hi
  | @snoc h c c' a run permitted step ih =>
      have hpast : ∀ v ∈ h, P v := fun v hv => hP v (List.mem_append_left _ hv)
      intro i hi
      rw [transcript_snoc]
      by_cases ha : a.thread = some i
      · cases a with
        | call j ch =>
            cases ha
            obtain ⟨q, cl, k, r, s, hslot, hr, rfl⟩ := M.step_call step
            rw [exchange_call hslot hr]
            exact hcall run hpast hslot hr (ih hpast i ⟨q, cl, k, hslot⟩)
        | start j q =>
            cases ha
            obtain ⟨s, hunused, -, rfl⟩ := M.step_start step
            rw [run.transcript_of_unused hunused, exchange_of_ne (by simp)]
            exact hstart i s
        | crash j =>
            cases ha
            obtain ⟨q, p, -, rfl⟩ := M.step_crash step
            simp [Config.InProgress] at hi
        | environment e => cases ha
      · have hslot : c.InProgress i := by
          obtain ⟨q, cl, k, hslot⟩ := hi
          exact ⟨q, cl, k, step_pool step ha ▸ hslot⟩
        rw [exchange_of_ne]
        · rw [Option.toList_none, List.append_nil]
          exact hother run hpast (hP _ (by simp)) step ha hslot (ih hpast i hslot)
        · rintro ch rfl
          exact ha rfl

end Machine

namespace Contract

variable (K : Contract ε C R σ ρ) (M : Machine ε C R σ χ ρ α η) (π : Policy C σ χ ρ η)

/-- The program keeps the contract of the request it was started for. -/
def Honours (q : ρ) (p : Program ε C R α) (past : List (Exchange ε C R)) : Prop :=
  p.Meets K.assume (K.guarantee q) (fun _ _ => True) (fun _ _ => True) past

variable {K} in
theorem Honours.bind {q : ρ} {p : Program ε C R α} {f : α → Program ε C R β}
    {past : List (Exchange ε C R)} (hp : K.Honours q p past)
    (hf : ∀ past a, K.Honours q (f a) past) : K.Honours q (p >>= f) past :=
  .handle (hp.mono (fun past a _ => hf past a) fun _ _ _ => trivial)

/-- Guaranteed calls keep the invariant, and the invariant gives the assumptions. -/
structure Sound : Prop where
  start : ∀ i q s s', K.inv s → π.start i q s → M.accept i q s = some s' →
    K.inv s' ∧ K.Honours q (M.program i q) []
  call : ∀ i q past c ch s r s', K.inv s → π.call i c ch s → K.guarantee q past c →
    M.answer i c ch s = some (r, s') → K.assume c r ∧ K.inv s'
  crash : ∀ i s, K.inv s → π.crash i s → K.inv (M.halt i s)
  environment : ∀ e s s', K.inv s → π.environment e s → M.environment e s = some s' → K.inv s'

/-- What a slot shows of the contract: nothing was called before a start, and a
running program honours the contract after what it has called. -/
def SlotHonours (past : List (Exchange ε C R)) : Slot ε C R ρ α → Prop
  | .unused => past = []
  | .running q p => K.Honours q p past
  | .crashed _ => True

/-- What a sound contract guarantees of a configuration and the way to it. -/
structure Holds (h : List (Config ε C R σ ρ α × Action χ ρ η)) (c : Config ε C R σ ρ α) : Prop where
  inv : K.inv c.state
  slots : ∀ i, K.SlotHonours (M.transcript i h) (c.pool i)
  answers : ∀ i, ∀ e ∈ M.transcript i h, K.assume e.call e.answer

variable {K M π}

/-- What a thread calls next is guaranteed. -/
theorem Holds.guarantee {h : List (Config ε C R σ ρ α × Action χ ρ η)} {c : Config ε C R σ ρ α}
    (hc : K.Holds M h c) {i : ℕ} {q : ρ} {cl : C} {k : Except ε (R cl) → Program ε C R α}
    (hslot : c.pool i = .running q (.call cl k)) : K.guarantee q (M.transcript i h) cl := by
  have hhonours : K.SlotHonours (M.transcript i h) (.running q (.call cl k)) :=
    hslot ▸ hc.slots i
  exact hhonours.1

/-- In a run of a sound contract the invariant holds, and every thread honours
the contract after what it has called. -/
theorem Sound.run (hK : K.Sound M π) {s₀ : σ} (h₀ : K.inv s₀) {c : Config ε C R σ ρ α}
    {h : List (Config ε C R σ ρ α × Action χ ρ η)} (run : M.Run π (.initial s₀) h c) :
    K.Holds M h c := by
  induction run with
  | nil => exact ⟨h₀, fun _ => rfl, by simp⟩
  | @snoc h c c' a run permitted step ih =>
      cases a with
      | call i ch =>
          obtain ⟨q, cl, k, r, s, hslot, hr, rfl⟩ := M.step_call step
          have hhonours : K.SlotHonours (M.transcript i h) (.running q (.call cl k)) :=
            hslot ▸ ih.slots i
          have hpermit : π.call i cl ch c.state := by
            simpa [Policy.permits, hslot] using permitted
          obtain ⟨hassume, hinv⟩ :=
            hK.call i q _ cl ch c.state r s ih.inv hpermit hhonours.1 hr
          refine ⟨hinv, fun j => ?_, fun j e he => ?_⟩
          · by_cases hj : j = i
            · subst hj
              rw [Machine.transcript_snoc, Machine.exchange_call hslot hr]
              simpa [SlotHonours, Honours] using hhonours.2 r hassume
            · rw [Machine.transcript_snoc, Machine.exchange_of_ne (by simp [Ne.symm hj])]
              simpa [Function.update_of_ne hj] using ih.slots j
          · by_cases hj : j = i
            · subst hj
              rw [Machine.transcript_snoc, Machine.exchange_call hslot hr] at he
              rcases List.mem_append.1 he with he | he
              · exact ih.answers j e he
              · have heq : e = ⟨cl, r⟩ := by simpa using he
                rw [heq]
                exact hassume
            · rw [Machine.transcript_snoc, Machine.exchange_of_ne (by simp [Ne.symm hj])] at he
              exact ih.answers j e (by simpa using he)
      | start i q =>
          obtain ⟨s, hslot, hs, rfl⟩ := M.step_start step
          obtain ⟨hinv, hprogram⟩ := hK.start i q c.state s ih.inv permitted hs
          have htranscript : ∀ j, M.transcript j (h ++ [(c, .start i q)]) = M.transcript j h :=
            fun j => by simp [Machine.transcript_snoc, Machine.exchange_of_ne]
          refine ⟨hinv, fun j => ?_, fun j => by simpa [htranscript] using ih.answers j⟩
          rw [htranscript]
          by_cases hj : j = i
          · subst hj
            have hnil : M.transcript j h = [] := by simpa [hslot, SlotHonours] using ih.slots j
            simpa [hnil, SlotHonours] using hprogram
          · simpa [Function.update_of_ne hj] using ih.slots j
      | crash i =>
          obtain ⟨q, p, -, rfl⟩ := M.step_crash step
          have htranscript : ∀ j, M.transcript j (h ++ [(c, .crash i)]) = M.transcript j h :=
            fun j => by simp [Machine.transcript_snoc, Machine.exchange_of_ne]
          refine ⟨hK.crash i c.state ih.inv permitted, fun j => ?_,
            fun j => by simpa [htranscript] using ih.answers j⟩
          rw [htranscript]
          by_cases hj : j = i
          · subst hj
            simp [SlotHonours]
          · simpa [Function.update_of_ne hj] using ih.slots j
      | environment e =>
          obtain ⟨s, hs, rfl⟩ := M.step_environment step
          have htranscript : ∀ j, M.transcript j (h ++ [(c, .environment e)]) = M.transcript j h :=
            fun j => by simp [Machine.transcript_snoc, Machine.exchange_of_ne]
          refine ⟨hK.environment e c.state s ih.inv permitted hs, fun j => ?_,
            fun j => by simpa [htranscript] using ih.answers j⟩
          rw [htranscript]
          exact ih.slots j

/-- In a run of a sound contract every thread is on its way to the postcondition of its
request. -/
theorem Sound.post (hK : K.Sound M π) {post : ρ → List (Exchange ε C R) → α → Prop}
    (hpost : ∀ i q s, π.start i q s →
      (M.program i q).Meets K.assume (K.guarantee q) (post q) (fun _ _ => True) [])
    {s₀ : σ} (h₀ : K.inv s₀) {c : Config ε C R σ ρ α}
    {h : List (Config ε C R σ ρ α × Action χ ρ η)} (run : M.Run π (.initial s₀) h c) :
    ∀ i q p, c.pool i = .running q p →
      p.Meets K.assume (K.guarantee q) (post q) (fun _ _ => True) (M.transcript i h) := by
  induction run with
  | nil => exact fun _ _ _ hslot => by cases hslot
  | @snoc h c c' a run permitted step ih =>
      intro i q p hslot
      by_cases ha : a.thread = some i
      · cases a with
        | call j ch =>
            cases ha
            obtain ⟨q', cl, k, r, s, hcalling, hr, rfl⟩ := M.step_call step
            simp only [Function.update_self, Slot.running.injEq] at hslot
            obtain ⟨rfl, rfl⟩ := hslot
            rw [Machine.transcript_snoc, Machine.exchange_call hcalling hr]
            have hanswers := (hK.run h₀ (.snoc run permitted step)).answers i ⟨cl, r⟩ (by
              simp [Machine.transcript_snoc, Machine.exchange_call hcalling hr])
            exact (ih i _ _ hcalling).2 r hanswers
        | start j q' =>
            cases ha
            obtain ⟨s, hunused, -, rfl⟩ := M.step_start step
            simp only [Function.update_self, Slot.running.injEq] at hslot
            obtain ⟨rfl, rfl⟩ := hslot
            have hnil : M.transcript i h = [] := by
              simpa [hunused, SlotHonours] using (hK.run h₀ run).slots i
            rw [Machine.transcript_snoc, Machine.exchange_of_ne (by simp), hnil]
            exact hpost i q' c.state permitted
        | crash j =>
            cases ha
            obtain ⟨q', p', -, rfl⟩ := M.step_crash step
            simp only [Function.update_self, reduceCtorEq] at hslot
        | environment e => cases ha
      · rw [Machine.step_pool step ha] at hslot
        have hother : M.transcript i (h ++ [(c, a)]) = M.transcript i h := by
          rw [Machine.transcript_snoc, Machine.exchange_of_ne]
          · simp
          · rintro ch rfl
            exact ha rfl
        rw [hother]
        exact ih i q p hslot

end Contract

end Effects
