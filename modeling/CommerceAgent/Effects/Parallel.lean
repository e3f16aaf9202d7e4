import CommerceAgent.Effects.Protocol
import Mathlib.Data.List.Forall2
import Mathlib.Order.Defs.Unbundled

/-!
# Coroutines side by side

`Program.shuffle` runs two programs at once: before each call the environment says,
through the program `choose`, which of them goes first. When one of them raises,
the other is abandoned: the caller goes on with the exception, after any number of
further calls of the other. `Program.gather` runs a list of programs in this way
and collects their values in the order of the list.

`Program.Beside` is what a coroutine has to show to be run among others: every call
is allowed, whatever the others have done in the meantime. The rule of parallel
composition is `Beside.gather`.
-/

namespace Effects

namespace Program

variable {ε C : Type} {R : C → Type} {α β γ S : Type}

section Gather

variable (choose : Program ε C R Bool)

/-- What is seen of a coroutine after another one has raised `e`. -/
def abandoned (e : ε) : Program ε C R β → Program ε C R γ
  | .call c k => choose.handle
      (fun goesOn => if goesOn then .call c fun r => abandoned e (k r) else .throw e) .throw
  | _ => .throw e

/-- A program beside the call `c` of another: `left` is how both go on after `c`, and
`raised` what happens if the program raises before. -/
def beside (c : C) (left : Except ε (R c) → Program ε C R β → Program ε C R γ)
    (raised : ε → Program ε C R γ) : Program ε C R β → Program ε C R γ
  | .pure b => .call c fun r => left r (.pure b)
  | .throw e => raised e
  | .call c' k => choose.handle
      (fun first =>
        if first then .call c fun r => left r (.call c' k)
        else .call c' fun r => beside c left raised (k r)) .throw

/-- Two programs at once. -/
def shuffle : Program ε C R α → Program ε C R β → Program ε C R (α × β)
  | .pure a => fun q => q.handle (fun b => .pure (a, b)) .throw
  | .throw e => fun q => abandoned choose e q
  | .call c k => fun q =>
      beside choose c (fun r => shuffle (k r)) (fun e => abandoned choose e (.call c k)) q

/-- A list of programs at once. -/
def gather : List (Program ε C R α) → Program ε C R (List α)
  | [] => .pure []
  | p :: ps => (shuffle choose p (gather ps)).handle (fun r => .pure (r.1 :: r.2)) .throw

end Gather

/-- A program that may run among others: each call is allowed in every state that is
`later` than the one in which the program was left, and it ends in `Q`. -/
def Beside (P : Protocol ε C R S) (later : S → S → Prop) (Q : α → S → Prop) :
    Program ε C R α → S → Prop
  | .pure a, s => Q a s
  | .throw _, _ => True
  | .call c k, s => ∀ s', later s s' → P.may c s' ∧
      ∀ r s'', P.next c s' r s'' → later s' s'' ∧ Beside P later Q (k r) s''

section Beside

variable {P : Protocol ε C R S} {later : S → S → Prop} {Q : α → S → Prop} {Q' : β → S → Prop}
  {choose : Program ε C R Bool}

/-- What holds stays true while time passes. -/
def Stable (later : S → S → Prop) (Q : α → S → Prop) : Prop :=
  ∀ a s s', later s s' → Q a s → Q a s'

/-- The rule of consequence. -/
theorem Beside.mono {Q' : α → S → Prop} (hQ : ∀ a s, Q a s → Q' a s) {p : Program ε C R α} :
    ∀ {s : S}, p.Beside P later Q s → p.Beside P later Q' s := by
  induction p with
  | pure a => exact hQ a _
  | throw e => exact id
  | call c k ih =>
      intro s hp s' hs
      exact ⟨(hp s' hs).1, fun r s'' hr => ⟨((hp s' hs).2 r s'' hr).1,
        ih r ((hp s' hs).2 r s'' hr).2⟩⟩

/-- The rule of sequencing. -/
theorem Beside.handle {f : α → Program ε C R β} {h : ε → Program ε C R β}
    (hh : ∀ e s, (h e).Beside P later Q' s) {p : Program ε C R α} :
    ∀ {s : S}, p.Beside P later (fun a => (f a).Beside P later Q') s →
      (p.handle f h).Beside P later Q' s := by
  induction p with
  | pure a => exact id
  | throw e => exact fun _ => hh e _
  | call c k ih =>
      intro s hp s' hs
      exact ⟨(hp s' hs).1, fun r s'' hr => ⟨((hp s' hs).2 r s'' hr).1,
        ih r ((hp s' hs).2 r s'' hr).2⟩⟩

/-- What is done after a choice is done later. -/
theorem beside_choose (hchoose : ∀ s, choose.Beside P later (fun _ s' => later s s') s)
    {f : Bool → Program ε C R γ} {Q : γ → S → Prop} {s : S}
    (hf : ∀ b s', later s s' → (f b).Beside P later Q s') :
    (choose.handle f .throw).Beside P later Q s :=
  .handle (fun _ _ => by trivial) ((hchoose s).mono hf)

variable [IsPreorder S later]

/-- A coroutine waits while the others move. -/
theorem Beside.wait (hQ : Stable later Q) {p : Program ε C R α} {s s' : S}
    (hp : p.Beside P later Q s) (hs : later s s') : p.Beside P later Q s' := by
  cases p with
  | pure a => exact hQ a s s' hs hp
  | throw e => trivial
  | call c k => exact fun s'' hs' => hp s'' (trans_of later hs hs')

/-- A program ends later than it began. -/
theorem Beside.since {s₀ : S} {p : Program ε C R α} :
    ∀ {s : S}, later s₀ s → p.Beside P later Q s →
      p.Beside P later (fun a s' => Q a s' ∧ later s₀ s') s := by
  induction p with
  | pure a => exact fun hs hp => ⟨hp, hs⟩
  | throw e => exact fun _ _ => trivial
  | call c k ih =>
      intro s hs hp s' hs'
      refine ⟨(hp s' hs').1, fun r s'' hr => ?_⟩
      obtain ⟨hlater, hk⟩ := (hp s' hs').2 r s'' hr
      exact ⟨hlater, ih r (trans_of later (trans_of later hs hs') hlater) hk⟩

/-- A program that may run among others follows the protocol. -/
theorem Beside.follows {p : Program ε C R α} :
    ∀ {s : S}, p.Beside P later Q s → p.Follows P Q (fun _ _ => True) s := by
  induction p with
  | pure a => exact id
  | throw e => exact fun _ => trivial
  | call c k ih =>
      intro s hp
      have hcall := hp s (refl_of later s)
      exact ⟨hcall.1, fun r s' hr => ih r (hcall.2 r s' hr).2⟩

section Composition

variable (hchoose : ∀ s, choose.Beside P later (fun _ s' => later s s') s)

include hchoose

theorem Beside.abandoned {Q'' : γ → S → Prop} (e : ε) {p : Program ε C R α} :
    ∀ {s : S}, p.Beside P later Q s →
      (Program.abandoned (γ := γ) choose e p).Beside P later Q'' s := by
  induction p with
  | pure a => exact fun _ => trivial
  | throw e' => exact fun _ => trivial
  | call c k ih =>
      intro s hp
      apply beside_choose hchoose
      intro goesOn s' hs
      cases goesOn with
      | false => trivial
      | true =>
          intro s'' hs'
          have hcall := hp s'' (trans_of later hs hs')
          exact ⟨hcall.1, fun r s₃ hr => ⟨(hcall.2 r s₃ hr).1, ih r (hcall.2 r s₃ hr).2⟩⟩

/-- The rule for one call beside a program. -/
theorem Beside.beside (hQ' : Stable later Q') {c : C}
    {left : Except ε (R c) → Program ε C R β → Program ε C R γ}
    {raised : ε → Program ε C R γ} {Q'' : γ → S → Prop} {q : Program ε C R β} :
    ∀ {s : S}, q.Beside P later Q' s →
      (∀ e s', later s s' → (raised e).Beside P later Q'' s') →
      (∀ s', later s s' → P.may c s' ∧ ∀ r s'', P.next c s' r s'' → later s' s'' ∧
        ∀ q : Program ε C R β, q.Beside P later Q' s'' → (left r q).Beside P later Q'' s'') →
      (Program.beside choose c left raised q).Beside P later Q'' s := by
  induction q with
  | pure b =>
      intro s hq _ hc s' hs
      refine ⟨(hc s' hs).1, fun r s'' hr => ?_⟩
      obtain ⟨hlater, hleft⟩ := (hc s' hs).2 r s'' hr
      exact ⟨hlater, hleft _ (hQ' b s s'' (trans_of later hs hlater) hq)⟩
  | throw e => exact fun {s} _ hraised _ => hraised e s (refl_of later s)
  | call c' k ih =>
      intro s hq hraised hc
      apply beside_choose hchoose
      intro first s' hs
      cases first with
      | true =>
          intro s'' hs'
          obtain ⟨hmay, hnext⟩ := hc s'' (trans_of later hs hs')
          refine ⟨hmay, fun r s₃ hr => ?_⟩
          obtain ⟨hlater, hleft⟩ := hnext r s₃ hr
          exact ⟨hlater, hleft _ (hq.wait hQ' (trans_of later (trans_of later hs hs') hlater))⟩
      | false =>
          intro s'' hs'
          obtain ⟨hmay, hnext⟩ := hq s'' (trans_of later hs hs')
          refine ⟨hmay, fun r s₃ hr => ?_⟩
          obtain ⟨hlater, hk⟩ := hnext r s₃ hr
          have hs₃ : later s s₃ := trans_of later (trans_of later hs hs') hlater
          exact ⟨hlater, ih r hk (fun e s₄ hs₄ => hraised e s₄ (trans_of later hs₃ hs₄))
            fun s₄ hs₄ => hc s₄ (trans_of later hs₃ hs₄)⟩

/-- The rule of parallel composition for two programs. -/
theorem Beside.shuffle (hQ : Stable later Q) (hQ' : Stable later Q') {p : Program ε C R α} :
    ∀ {q : Program ε C R β} {s : S}, p.Beside P later Q s → q.Beside P later Q' s →
      (Program.shuffle choose p q).Beside P later (fun r s => Q r.1 s ∧ Q' r.2 s) s := by
  induction p with
  | pure a =>
      intro q
      induction q with
      | pure b => exact fun hp hq => ⟨hp, hq⟩
      | throw e => exact fun _ _ => trivial
      | call c k ih =>
          intro s hp hq s' hs
          refine ⟨(hq s' hs).1, fun r s'' hr => ?_⟩
          obtain ⟨hlater, hk⟩ := (hq s' hs).2 r s'' hr
          exact ⟨hlater, ih r (hQ a s s'' (trans_of later hs hlater) hp) hk⟩
  | throw e => exact fun _ hq => .abandoned hchoose e hq
  | call c k ih =>
      intro q s hp hq
      apply Beside.beside hchoose hQ' hq
      · exact fun e s' hs => .abandoned hchoose e fun s'' hs' => hp s'' (trans_of later hs hs')
      · intro s' hs
        refine ⟨(hp s' hs).1, fun r s'' hr => ?_⟩
        obtain ⟨hlater, hk⟩ := (hp s' hs).2 r s'' hr
        exact ⟨hlater, fun q hq => ih r hk hq⟩

/-- The rule of parallel composition: the programs run at once end each in its own
postcondition. -/
theorem Beside.gather {Q : α → β → S → Prop} (hQ : ∀ a, Stable later (Q a))
    {f : α → Program ε C R β} {s : S} :
    ∀ {as : List α}, (∀ a ∈ as, (f a).Beside P later (Q a) s) →
      (Program.gather choose (as.map f)).Beside P later
        (fun bs s => List.Forall₂ (fun a b => Q a b s) as bs) s := by
  intro as
  induction as with
  | nil => exact fun _ => .nil
  | cons a as ih =>
      intro has
      have htail := ih fun a' ha' => has a' (List.mem_cons_of_mem _ ha')
      have hstable : Stable later fun bs s => List.Forall₂ (fun a b => Q a b s) as bs :=
        fun bs s s' hs hbs => hbs.imp fun a b => hQ a b s s' hs
      apply Beside.handle (fun _ _ => by trivial)
      apply (Beside.shuffle hchoose (hQ a) hstable (has a List.mem_cons_self) htail).mono
      exact fun r s hr => .cons hr.1 hr.2

end Composition

end Beside

/-- Where only the answers are known, a program that follows its protocol may run among
others. -/
theorem beside_answers {A : (c : C) → Except ε (R c) → Prop} {G : C → Prop} {V : α → Prop}
    {p : Program ε C R α} :
    p.Follows (answers A G) (fun a _ => V a) (fun _ _ => True) () →
      p.Beside (answers A G) (fun _ _ => True) (fun a _ => V a) () := by
  induction p with
  | pure a => exact id
  | throw e => exact fun _ => trivial
  | call c k ih => exact fun hp _ _ => ⟨hp.1, fun r _ hr => ⟨trivial, ih r (hp.2 r () hr)⟩⟩

end Program

end Effects
