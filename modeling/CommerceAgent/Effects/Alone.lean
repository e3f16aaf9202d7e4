import CommerceAgent.Effects.Protocol

/-!
# A program that runs alone

`Program.alone` answers the calls of a program one after another, each with what
the environment has chosen for it, and keeps a log of them. What holds at the end
of every course with a log of some kind, say with at most one call that raises, is
found by the weakest precondition of the program under `aloneProtocol`.
-/

namespace Effects

variable {ε C : Type} {R : C → Type} {σ χ α : Type}

/-- A call that was made, the state it was made in, and what was chosen for it. -/
structure Made (C σ χ : Type) where
  state : σ
  call : C
  choice : χ

/-- How a program ended, where, and the calls it made. -/
structure Course (ε C σ χ α : Type) where
  result : Except ε α
  state : σ
  log : List (Made C σ χ)

/-- Answer the calls of a program, the first with the first choice and so on. -/
def Program.alone (answer : (c : C) → χ → σ → Except ε (R c) × σ) :
    Program ε C R α → (ℕ → χ) → σ → Course ε C σ χ α
  | .pure a, _, s => ⟨.ok a, s, []⟩
  | .throw e, _, s => ⟨.error e, s, []⟩
  | .call c k, choose, s =>
      let (r, s') := answer c (choose 0) s
      let rest := (k r).alone answer (fun n => choose (n + 1)) s'
      { rest with log := ⟨s, c, choose 0⟩ :: rest.log }

/-- What was chosen for a call is one of the choices. -/
theorem Program.choice_of_mem_log {answer : (c : C) → χ → σ → Except ε (R c) × σ} :
    ∀ {p : Program ε C R α} {choose : ℕ → χ} {s : σ} {m : Made C σ χ},
      m ∈ (p.alone answer choose s).log → ∃ n, m.choice = choose n
  | .pure _, _, _, _, hm | .throw _, _, _, _, hm => by cases hm
  | .call c k, choose, s, m, hm => by
      rcases List.mem_cons.1 hm with rfl | hm
      · exact ⟨0, rfl⟩
      · obtain ⟨n, hn⟩ := choice_of_mem_log hm
        exact ⟨n + 1, hn⟩

/-- The protocol of a program alone: every call is allowed, and the log stays of the
kind `A`. -/
def aloneProtocol (answer : (c : C) → χ → σ → Except ε (R c) × σ)
    (A : List (Made C σ χ) → Prop) : Protocol ε C R (σ × List (Made C σ χ)) where
  may _ _ := True
  next c s r s' := ∃ ch, A s'.2 ∧ answer c ch s.1 = (r, s'.1) ∧ s'.2 = s.2 ++ [⟨s.1, c, ch⟩]

/-- The course ended in `Q` or raised in `E`, with the calls it made after `past`. -/
def Course.Ends (course : Course ε C σ χ α) (Q : α → σ × List (Made C σ χ) → Prop)
    (E : ε → σ × List (Made C σ χ) → Prop) (past : List (Made C σ χ)) : Prop :=
  match course.result with
  | .ok a => Q a (course.state, past ++ course.log)
  | .error e => E e (course.state, past ++ course.log)

theorem Course.Ends.ok {course : Course ε C σ χ α} {Q : α → σ × List (Made C σ χ) → Prop}
    {E : ε → σ × List (Made C σ χ) → Prop} {past : List (Made C σ χ)} (h : course.Ends Q E past)
    {a : α} (ha : course.result = .ok a) : Q a (course.state, past ++ course.log) := by
  unfold Ends at h
  rwa [ha] at h

theorem Course.Ends.error {course : Course ε C σ χ α} {Q : α → σ × List (Made C σ χ) → Prop}
    {E : ε → σ × List (Made C σ χ) → Prop} {past : List (Made C σ χ)} (h : course.Ends Q E past)
    {e : ε} (he : course.result = .error e) : E e (course.state, past ++ course.log) := by
  unfold Ends at h
  rwa [he] at h

theorem Course.ends_cons {result : Except ε α} {s : σ} {m : Made C σ χ} {log : List (Made C σ χ)}
    {Q : α → σ × List (Made C σ χ) → Prop} {E : ε → σ × List (Made C σ χ) → Prop}
    {past : List (Made C σ χ)} :
    (Course.mk result s (m :: log)).Ends Q E past ↔
      (Course.mk result s log).Ends Q E (past ++ [m]) := by
  simp [Ends]

/-- What a program establishes under the protocol, it establishes alone. -/
theorem Program.alone_of_follows {answer : (c : C) → χ → σ → Except ε (R c) × σ}
    {A : List (Made C σ χ) → Prop} (hA : ∀ l l', A (l ++ l') → A l)
    {Q : α → σ × List (Made C σ χ) → Prop} {E : ε → σ × List (Made C σ χ) → Prop} :
    ∀ {p : Program ε C R α} {choose : ℕ → χ} {s : σ} {past : List (Made C σ χ)},
      p.Follows (aloneProtocol answer A) Q E (s, past) →
        A (past ++ (p.alone answer choose s).log) →
          (p.alone answer choose s).Ends Q E past
  | .pure a, choose, s, past, hp, _ | .throw a, choose, s, past, hp, _ => by
      simp only [Course.Ends, alone, List.append_nil]
      exact hp
  | .call c k, choose, s, past, hp, hlog => by
      rw [alone, List.append_cons] at hlog
      rw [alone, Course.ends_cons]
      apply alone_of_follows hA _ hlog
      apply hp.2
      exact ⟨choose 0, hA _ _ hlog, rfl, rfl⟩

end Effects
