import CommerceAgent.Effects.Discipline
import CommerceAgent.Effects.Transcript

/-!
# Protocols

A `Protocol` says in which states a call may be made, and which answers it may get
and which states it may leave. `Program.Follows` is the weakest precondition of a
program under a protocol: each call is one it may make, and the program ends in
its postcondition.

What a program needs of its calls can be proved once, for every protocol, and
then be used for the rules of a `Discipline` and of a `Contract`, which are two
protocols: in the one a state is what the thread may find when it makes its
call, in the other nothing is known but the answers.
-/

namespace Effects

variable {ε C : Type} {R : C → Type} {σ χ ρ α β η S : Type}

/-- Which calls are allowed, and what they may be answered. -/
structure Protocol (ε C : Type) (R : C → Type) (S : Type) where
  may : C → S → Prop
  next : (c : C) → S → Except ε (R c) → S → Prop

namespace Program

variable {P : Protocol ε C R S} {Q : α → S → Prop} {E : ε → S → Prop}

/-- Every call of the program is allowed, and it ends in `Q` or raises in `E`. -/
def Follows (P : Protocol ε C R S) (Q : α → S → Prop) (E : ε → S → Prop) :
    Program ε C R α → S → Prop
  | .pure a, s => Q a s
  | .throw e, s => E e s
  | .call c k, s => P.may c s ∧ ∀ r s', P.next c s r s' → Follows P Q E (k r) s'

/-- The rule of consequence. -/
theorem Follows.mono {Q' : α → S → Prop} {E' : ε → S → Prop} (hQ : ∀ a s, Q a s → Q' a s)
    (hE : ∀ e s, E e s → E' e s) :
    ∀ {p : Program ε C R α} {s : S}, p.Follows P Q E s → p.Follows P Q' E' s
  | .pure _, _, hp => hQ _ _ hp
  | .throw _, _, hp => hE _ _ hp
  | .call _ _, _, hp => ⟨hp.1, fun r s' hr => Follows.mono hQ hE (hp.2 r s' hr)⟩

/-- The rule of sequencing. -/
theorem Follows.handle {Q : β → S → Prop} {f : α → Program ε C R β} {h : ε → Program ε C R β} :
    ∀ {p : Program ε C R α} {s : S},
      p.Follows P (fun a => (f a).Follows P Q E) (fun e => (h e).Follows P Q E) s →
        (p.handle f h).Follows P Q E s
  | .pure _, _, hp => hp
  | .throw _, _, hp => hp
  | .call _ _, _, hp => ⟨hp.1, fun r s' hr => Follows.handle (hp.2 r s' hr)⟩

theorem Follows.bind {Q : β → S → Prop} {f : α → Program ε C R β} {p : Program ε C R α} {s : S}
    (hp : p.Follows P (fun a => (f a).Follows P Q E) E s) : (p >>= f).Follows P Q E s :=
  .handle hp

/-- A call and what follows its return or its raise. -/
theorem follows_call {c : C} {f : R c → Program ε C R α} {h : ε → Program ε C R α} {s : S}
    (hmay : P.may c s) (hf : ∀ b s', P.next c s (.ok b) s' → (f b).Follows P Q E s')
    (hh : ∀ e s', P.next c s (.error e) s' → (h e).Follows P Q E s') :
    ((perform c).handle f h).Follows P Q E s := by
  refine ⟨hmay, fun r s' hr => ?_⟩
  cases r with
  | ok b => exact hf b s' hr
  | error e => exact hh e s' hr

/-- A program that only makes calls which are allowed where the invariant holds, and
keep it. -/
theorem Follows.of_invariant {G : C → Prop} {V : α → Prop} {I : S → Prop}
    (hG : ∀ c s, G c → I s → P.may c s ∧ ∀ r s', P.next c s r s' → I s') :
    ∀ {p : Program ε C R α} {s : S}, p.Only G V → I s →
      p.Follows P (fun a s => V a ∧ I s) (fun _ => I) s
  | .pure _, _, hp, hs => ⟨hp, hs⟩
  | .throw _, _, _, hs => hs
  | .call c _, s, hp, hs =>
      ⟨(hG c s hp.1 hs).1, fun r s' hr =>
        Follows.of_invariant hG (hp.2 r) ((hG c s hp.1 hs).2 r s' hr)⟩

/-- A program that only makes calls which are allowed in any state. -/
theorem Follows.of_only {G : C → Prop} {V : α → Prop} (hG : ∀ c s, G c → P.may c s)
    (hQ : ∀ a s, V a → Q a s) (hE : ∀ e s, E e s) {p : Program ε C R α} (s : S)
    (hp : p.Only G V) : p.Follows P Q E s :=
  (Follows.of_invariant (I := fun _ => True) (fun c s hc _ => ⟨hG c s hc, fun _ _ _ => trivial⟩)
    hp trivial).mono (fun a s h => hQ a s h.1) fun e s _ => hE e s

end Program

namespace Discipline

variable (D : Discipline σ ρ α) (M : Machine ε C R σ χ ρ α η) (π : Policy C σ χ ρ η)

/-- The protocol of the thread `i`: it may make a call that keeps the discipline in
every state the others can have brought about. -/
def protocol (i : ℕ) : Protocol ε C R σ where
  may c s := ∀ s', D.rely (some i) s s' → D.inv s' → ∀ ch r s'', π.call i c ch s' →
    M.answer i c ch s' = some (r, s'') → D.Keeps i s' s''
  next c s r s'' := ∃ s' ch, D.rely (some i) s s' ∧ D.inv s' ∧ π.call i c ch s' ∧
    M.answer i c ch s' = some (r, s'')

variable {D M π}

/-- A program that follows the protocol of a thread is safe for it. -/
theorem Safe.of_follows {i : ℕ} {Q : β → σ → Prop} {E : ε → σ → Prop} :
    ∀ {p : Program ε C R β} {s : σ}, p.Follows (D.protocol M π i) Q E s → D.Safe M π i Q E p s
  | .pure _, _, hp => hp
  | .throw _, _, hp => hp
  | .call _ _, _, hp => fun s' hs hinv ch r s'' hπ hr =>
      ⟨hp.1 s' hs hinv ch r s'' hπ hr,
        Safe.of_follows (hp.2 r s'' ⟨s', ch, hs, hinv, hπ, hr⟩)⟩

end Discipline

namespace Program

/-- The protocol in which only the answers are known. -/
def answers (A : (c : C) → Except ε (R c) → Prop) (G : C → Prop) : Protocol ε C R Unit where
  may c _ := G c
  next c _ r _ := A c r

theorem Meets.of_follows {A : (c : C) → Except ε (R c) → Prop} {G : C → Prop} :
    ∀ {p : Program ε C R α} {past : List (Exchange ε C R)},
      p.Follows (answers A G) (fun _ _ => True) (fun _ _ => True) () →
        p.Meets A (fun _ c => G c) (fun _ _ => True) (fun _ _ => True) past
  | .pure _, _, _ => trivial
  | .throw _, _, _ => trivial
  | .call _ _, _, hp => ⟨hp.1, fun r hr => Meets.of_follows (hp.2 r () hr)⟩

/-- The protocol in which the answers and the transcript so far are known. -/
def transcribed (A : (c : C) → Except ε (R c) → Prop) (G : List (Exchange ε C R) → C → Prop) :
    Protocol ε C R (List (Exchange ε C R)) where
  may c past := G past c
  next c past r past' := A c r ∧ past' = past ++ [⟨c, r⟩]

theorem Meets.of_transcribed {A : (c : C) → Except ε (R c) → Prop}
    {G : List (Exchange ε C R) → C → Prop} {Q : List (Exchange ε C R) → α → Prop}
    {E : List (Exchange ε C R) → ε → Prop} :
    ∀ {p : Program ε C R α} {past : List (Exchange ε C R)},
      p.Follows (transcribed A G) (fun a past => Q past a) (fun e past => E past e) past →
        p.Meets A G Q E past
  | .pure _, _, hp => hp
  | .throw _, _, hp => hp
  | .call _ _, _, hp => ⟨hp.1, fun r hr => Meets.of_transcribed (hp.2 r _ ⟨hr, rfl⟩)⟩

end Program

end Effects
