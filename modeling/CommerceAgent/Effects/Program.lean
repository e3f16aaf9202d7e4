import Mathlib.Logic.Function.Basic

/-!
# Programs that call an environment

`Program ε C R α` is a computation that performs calls `c : C`, each answered
by the environment with a value in `R c` or with an exception in `ε`, and that
ends by returning a value or by raising. It is the syntax of a coroutine: the
constructor `call` is one `await`, and what stands between two of them is
ordinary evaluation.

There is one sequencing operation, `Program.handle`, which continues both a
return and a raise. Binding, catching and running a final clause are its
instances, so that a rule about programs is stated once, for `handle`.
-/

namespace Effects

/-- A computation with calls in `C`, answers in `R` and exceptions in `ε`. -/
inductive Program (ε C : Type) (R : C → Type) (α : Type) : Type where
  | pure (a : α)
  | throw (e : ε)
  | call (c : C) (k : Except ε (R c) → Program ε C R α)

namespace Program

variable {ε C : Type} {R : C → Type} {α β γ : Type}

/-- Continue a program: `f` after a return, `h` after a raise. -/
def handle : Program ε C R α → (α → Program ε C R β) → (ε → Program ε C R β) →
    Program ε C R β
  | .pure a, f, _ => f a
  | .throw e, _, h => h e
  | .call c k, f, h => .call c fun r => (k r).handle f h

instance : Monad (Program ε C R) where
  pure := .pure
  bind p f := p.handle f .throw

instance : MonadExceptOf ε (Program ε C R) where
  throw := .throw
  tryCatch p h := p.handle .pure h

/-- The program that raises or returns what an answer says. -/
def ofExcept : Except ε α → Program ε C R α
  | .ok a => .pure a
  | .error e => .throw e

/-- One call, its answer returned or raised. -/
def perform (c : C) : Program ε C R (R c) := .call c ofExcept

/-- Run `last` whether `p` returns or raises, as a `finally` clause does. An
exception of `last` itself replaces the outcome of `p`. -/
def ensuring (p : Program ε C R α) (last : Program ε C R Unit) : Program ε C R α :=
  p.handle (fun a => last.handle (fun _ => .pure a) .throw)
    (fun e => last.handle (fun _ => .throw e) .throw)

/-- The program with its calls renamed. -/
def lift {C' : Type} {R' : C' → Type} (f : C → C') :
    Program ε C (fun c => R' (f c)) α → Program ε C' R' α
  | .pure a => .pure a
  | .throw e => .throw e
  | .call c k => .call (f c) fun r => lift f (k r)

/-- Every call the program can make satisfies `P`, and every value it can return
satisfies `V`. -/
def Only (P : C → Prop) (V : α → Prop) : Program ε C R α → Prop
  | .pure a => V a
  | .throw _ => True
  | .call c k => P c ∧ ∀ r, Only P V (k r)

@[simp] theorem handle_pure (a : α) (f : α → Program ε C R β) (h : ε → Program ε C R β) :
    (Program.pure a).handle f h = f a := rfl

@[simp] theorem handle_throw (e : ε) (f : α → Program ε C R β) (h : ε → Program ε C R β) :
    (Program.throw e).handle f h = h e := rfl

@[simp] theorem handle_call (c : C) (k : Except ε (R c) → Program ε C R α)
    (f : α → Program ε C R β) (h : ε → Program ε C R β) :
    (Program.call c k).handle f h = .call c fun r => (k r).handle f h := rfl

@[simp] theorem ofExcept_ok (a : α) : (ofExcept (.ok a) : Program ε C R α) = .pure a := rfl

@[simp] theorem ofExcept_error (e : ε) :
    (ofExcept (.error e) : Program ε C R α) = .throw e := rfl

@[simp] theorem pure_eq (a : α) : (pure a : Program ε C R α) = .pure a := rfl

@[simp] theorem throw_eq (e : ε) : (throw e : Program ε C R α) = .throw e := rfl

@[simp] theorem bind_eq (p : Program ε C R α) (f : α → Program ε C R β) :
    (p >>= f) = p.handle f .throw := rfl

@[simp] theorem tryCatch_eq (p : Program ε C R α) (h : ε → Program ε C R α) :
    (tryCatch p h) = p.handle .pure h := rfl

/-- Handling twice in a row is handling once. -/
@[simp] theorem handle_handle (p : Program ε C R α)
    (f : α → Program ε C R β) (h : ε → Program ε C R β)
    (f' : β → Program ε C R γ) (h' : ε → Program ε C R γ) :
    (p.handle f h).handle f' h' =
      p.handle (fun a => (f a).handle f' h') (fun e => (h e).handle f' h') := by
  induction p with
  | pure a => rfl
  | throw e => rfl
  | call c k ih =>
      simp only [handle_call]
      congr 1
      funext r
      exact ih r

theorem handle_pure_throw (p : Program ε C R α) : p.handle .pure .throw = p := by
  induction p with
  | pure a => rfl
  | throw e => rfl
  | call c k ih =>
      simp only [handle_call]
      congr 1
      funext r
      exact ih r

section Lift

variable {C' : Type} {R' : C' → Type} {g : C → C'}

theorem lift_handle (p : Program ε C (fun c => R' (g c)) α)
    (f : α → Program ε C (fun c => R' (g c)) β) (h : ε → Program ε C (fun c => R' (g c)) β) :
    (lift g (p.handle f h) : Program ε C' R' β) =
      (lift g p).handle (fun a => lift g (f a)) fun e => lift g (h e) := by
  induction p with
  | pure a => rfl
  | throw e => rfl
  | call c k ih =>
      simp only [handle_call, lift]
      congr 1
      funext r
      exact ih r

theorem lift_perform (c : C) :
    (lift g (perform c : Program ε C (fun c => R' (g c)) _) : Program ε C' R' _) =
      perform (g c) := by
  simp only [perform, lift]
  congr 1
  funext r
  cases r <;> rfl

end Lift

section Only

variable {P : C → Prop} {V : β → Prop}

theorem Only.mono {P' : C → Prop} {V' : β → Prop} (hP : ∀ c, P c → P' c) (hV : ∀ b, V b → V' b) :
    ∀ {p : Program ε C R β}, p.Only P V → p.Only P' V'
  | .pure _, hp => hV _ hp
  | .throw _, _ => trivial
  | .call _ _, hp => ⟨hP _ hp.1, fun r => Only.mono hP hV (hp.2 r)⟩

theorem Only.handle {f : α → Program ε C R β} {h : ε → Program ε C R β} {W : α → Prop}
    (hf : ∀ a, W a → (f a).Only P V) (hh : ∀ e, (h e).Only P V) :
    ∀ {p : Program ε C R α}, p.Only P W → (p.handle f h).Only P V
  | .pure _, hp => hf _ hp
  | .throw _, _ => hh _
  | .call _ _, hp => ⟨hp.1, fun r => Only.handle hf hh (hp.2 r)⟩

theorem Only.bind {p : Program ε C R α} {f : α → Program ε C R β} {W : α → Prop}
    (hp : p.Only P W) (hf : ∀ a, W a → (f a).Only P V) : (p >>= f).Only P V :=
  hp.handle hf fun _ => by trivial

theorem Only.perform {c : C} (hc : P c) : (perform c : Program ε C R (R c)).Only P fun _ => True :=
  ⟨hc, fun r => by cases r <;> trivial⟩

theorem only_lift {C' : Type} {R' : C' → Type} {f : C → C'} {P : C' → Prop} (hP : ∀ c, P (f c)) :
    ∀ p : Program ε C (fun c => R' (f c)) α,
      (lift f p : Program ε C' R' α).Only P fun _ => True
  | .pure _ => trivial
  | .throw _ => trivial
  | .call c k => ⟨hP c, fun r => only_lift hP (k r)⟩

end Only

end Program

end Effects
