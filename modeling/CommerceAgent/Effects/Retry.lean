import CommerceAgent.Effects.Transcript
import Mathlib.Data.List.Forall2

/-!
# Retrying an operation

`Program.retry` runs an operation again as long as it raises something retryable, up to a
number of attempts. `Program.Ends` lists the courses of a program: the calls it makes, their
answers, and how it ends. The courses of a retried operation are given by those of the
operation itself.
-/

namespace Effects

variable {ε C : Type} {R : C → Type} {α β : Type}

namespace Program

/-- A course of the program: its exchanges, and how it ends after them. -/
inductive Ends : Program ε C R α → List (Exchange ε C R) → Except ε α → Prop
  | pure (a : α) : Ends (.pure a) [] (.ok a)
  | throw (e : ε) : Ends (.throw e) [] (.error e)
  | call {c : C} {k : Except ε (R c) → Program ε C R α} {past : List (Exchange ε C R)}
      {result : Except ε α} (r : Except ε (R c)) (h : Ends (k r) past result) :
      Ends (.call c k) (⟨c, r⟩ :: past) result

/-- What follows a return or a raise. -/
def continued (f : α → Program ε C R β) (h : ε → Program ε C R β) : Except ε α → Program ε C R β
  | .ok a => f a
  | .error e => h e

section Courses

variable {f : α → Program ε C R β} {h : ε → Program ε C R β} {past : List (Exchange ε C R)}

theorem ends_pure {a : α} {result : Except ε α} :
    (Program.pure a : Program ε C R α).Ends past result ↔ past = [] ∧ result = .ok a := by
  constructor
  · intro hends
    cases hends
    exact ⟨rfl, rfl⟩
  · rintro ⟨rfl, rfl⟩
    exact .pure a

theorem ends_throw {e : ε} {result : Except ε α} :
    (Program.throw e : Program ε C R α).Ends past result ↔ past = [] ∧ result = .error e := by
  constructor
  · intro hends
    cases hends
    exact ⟨rfl, rfl⟩
  · rintro ⟨rfl, rfl⟩
    exact .throw e

theorem ends_ofExcept {x result : Except ε α} :
    (ofExcept x : Program ε C R α).Ends past result ↔ past = [] ∧ result = x := by
  cases x with
  | error e => exact ends_throw
  | ok a => exact ends_pure

/-- A course of two programs in a row is one of the first and one of the second. -/
theorem ends_handle {p : Program ε C R α} {result : Except ε β} :
    (p.handle f h).Ends past result ↔ ∃ first x rest, p.Ends first x ∧
      (continued f h x).Ends rest result ∧ past = first ++ rest := by
  induction p generalizing past with
  | pure a =>
      constructor
      · exact fun hends => ⟨[], .ok a, past, .pure a, hends, rfl⟩
      · rintro ⟨first, x, rest, hfirst, hrest, rfl⟩
        cases hfirst
        exact hrest
  | throw e =>
      constructor
      · exact fun hends => ⟨[], .error e, past, .throw e, hends, rfl⟩
      · rintro ⟨first, x, rest, hfirst, hrest, rfl⟩
        cases hfirst
        exact hrest
  | call c k ih =>
      constructor
      · intro hends
        cases hends with
        | call r hends =>
            obtain ⟨first, x, rest, hfirst, hrest, rfl⟩ := (ih r).1 hends
            exact ⟨⟨c, r⟩ :: first, x, rest, .call r hfirst, hrest, rfl⟩
      · rintro ⟨first, x, rest, hfirst, hrest, rfl⟩
        cases hfirst with
        | call r hfirst => exact .call r ((ih r).2 ⟨_, x, rest, hfirst, hrest, rfl⟩)

end Courses

/-- Up to `n` more attempts, after one that raised `last`. -/
def retryFrom (retryable : ε → Bool) (operation : Program ε C R α) (last : ε) :
    ℕ → Program ε C R α
  | 0 => .throw last
  | n + 1 => operation.handle .pure fun e =>
      if retryable e then retryFrom retryable operation e n else .throw e

/-- Up to `attempts` attempts; `unattempted` is raised if there is none. -/
def retry (attempts : ℕ) (retryable : ε → Bool) (unattempted : ε) (operation : Program ε C R α) :
    Program ε C R α :=
  retryFrom retryable operation unattempted attempts

/-- The courses of the attempts that failed and were repeated. -/
def Failed (retryable : ε → Bool) (operation : Program ε C R α)
    (failures : List (List (Exchange ε C R) × ε)) : Prop :=
  ∀ failure ∈ failures, operation.Ends failure.1 (.error failure.2) ∧ retryable failure.2 = true

/-- What an operation that is retried ends in is no failure to be repeated. -/
def Final (retryable : ε → Bool) (result : Except ε α) : Prop :=
  ∀ e, result = .error e → retryable e = false

/-- A retried operation fails so often that no attempt is left, or it fails for a while and
ends as one attempt does that is not repeated. -/
theorem ends_retry {retryable : ε → Bool} {operation : Program ε C R α} {attempts : ℕ}
    {unattempted : ε} {past : List (Exchange ε C R)} {result : Except ε α} :
    (operation.retry attempts retryable unattempted).Ends past result ↔
      ∃ failures, Failed retryable operation failures ∧
        ((failures.length = attempts ∧ past = failures.flatMap Prod.fst ∧
            result = .error ((failures.map Prod.snd).getLastD unattempted)) ∨
          failures.length < attempts ∧ ∃ last, operation.Ends last result ∧
            Final retryable result ∧ past = failures.flatMap Prod.fst ++ last) := by
  unfold retry
  induction attempts generalizing unattempted past with
  | zero =>
      constructor
      · intro hends
        obtain ⟨rfl, rfl⟩ := ends_throw.1 hends
        exact ⟨[], fun _ hmem => absurd hmem List.not_mem_nil, .inl ⟨rfl, rfl, rfl⟩⟩
      · rintro ⟨failures, -, ⟨hlength, rfl, rfl⟩ | ⟨hlength, -⟩⟩
        · obtain rfl := List.length_eq_zero_iff.1 hlength
          exact .throw unattempted
        · exact absurd hlength (Nat.not_lt_zero _)
  | succ n ih =>
      rw [retryFrom, ends_handle]
      constructor
      · rintro ⟨first, x, rest, hfirst, hrest, rfl⟩
        cases x with
        | ok a =>
            obtain ⟨rfl, rfl⟩ := ends_pure.1 hrest
            exact ⟨[], fun _ hmem => absurd hmem List.not_mem_nil,
              .inr ⟨Nat.succ_pos n, first, hfirst, by rintro e ⟨⟩, List.append_nil _⟩⟩
        | error e =>
            by_cases hretry : retryable e = true
            · rw [continued, if_pos hretry] at hrest
              obtain ⟨failures, hfailed, hcases⟩ := ih.1 hrest
              refine ⟨(first, e) :: failures, ?_, ?_⟩
              · intro failure hmem
                rcases List.mem_cons.1 hmem with rfl | hmem
                · exact ⟨hfirst, hretry⟩
                · exact hfailed failure hmem
              · rcases hcases with ⟨hlength, rfl, rfl⟩ | ⟨hlength, last, hlast, hfinal, rfl⟩
                · refine .inl ⟨by rw [List.length_cons, hlength], rfl, ?_⟩
                  rw [List.map_cons, List.getLastD_cons]
                · exact .inr ⟨Nat.succ_lt_succ hlength, last, hlast, hfinal,
                    (List.append_assoc ..).symm⟩
            · rw [continued, if_neg hretry] at hrest
              obtain ⟨rfl, rfl⟩ := ends_throw.1 hrest
              refine ⟨[], fun _ hmem => absurd hmem List.not_mem_nil,
                .inr ⟨Nat.succ_pos n, first, hfirst, ?_, List.append_nil _⟩⟩
              rintro e' ⟨⟩
              exact Bool.eq_false_iff.2 hretry
      · rintro ⟨failures, hfailed, hcases⟩
        cases failures with
        | nil =>
            obtain ⟨-, last, hlast, hfinal, hpast⟩ :=
              hcases.resolve_left fun h => Nat.noConfusion h.1
            refine ⟨last, result, [], hlast, ?_, hpast.trans (List.append_nil _).symm⟩
            cases result with
            | ok a => exact .pure a
            | error e =>
                rw [continued, if_neg (Bool.eq_false_iff.1 (hfinal e rfl))]
                exact .throw e
        | cons failure failures =>
            obtain ⟨hfirst, hretry⟩ := hfailed failure List.mem_cons_self
            have hrest : Failed retryable operation failures := fun other hmem =>
              hfailed other (List.mem_cons_of_mem _ hmem)
            rcases hcases with ⟨hlength, rfl, rfl⟩ | ⟨hlength, last, hlast, hfinal, rfl⟩
            · refine ⟨failure.1, .error failure.2, failures.flatMap Prod.fst, hfirst, ?_, rfl⟩
              rw [continued, if_pos hretry]
              refine ih.2 ⟨failures, hrest, .inl ⟨Nat.succ.inj hlength, rfl, ?_⟩⟩
              rw [List.map_cons, List.getLastD_cons]
            · refine ⟨failure.1, .error failure.2, failures.flatMap Prod.fst ++ last, hfirst, ?_,
                List.append_assoc ..⟩
              rw [continued, if_pos hretry]
              exact ih.2 ⟨failures, hrest,
                .inr ⟨Nat.lt_of_succ_lt_succ hlength, last, hlast, hfinal, rfl⟩⟩

section Calls

variable {c : C} {read : R c → Except ε α} {retryable : ε → Bool} {attempts : ℕ} {unattempted : ε}
  {past : List (Exchange ε C R)} {result : Except ε α}

/-- One call, and what is read from its answer. -/
def asking (c : C) (read : R c → Except ε α) : Program ε C R α :=
  (perform c).handle (fun b => ofExcept (read b)) .throw

/-- The answer is read as an exception that is retried. -/
def Repeats (read : R c → Except ε α) (retryable : ε → Bool) (r : Except ε (R c)) : Prop :=
  ∃ e, r.bind read = .error e ∧ retryable e = true

theorem ends_asking :
    (asking c read).Ends past result ↔ ∃ r, past = [⟨c, r⟩] ∧ result = r.bind read := by
  rw [asking, ends_handle]
  constructor
  · rintro ⟨first, x, rest, hfirst, hrest, rfl⟩
    cases hfirst with
    | call r hfirst =>
        obtain ⟨rfl, rfl⟩ := ends_ofExcept.1 hfirst
        refine ⟨x, ?_⟩
        cases x with
        | error e =>
            obtain ⟨rfl, rfl⟩ := ends_throw.1 hrest
            exact ⟨rfl, rfl⟩
        | ok b =>
            obtain ⟨rfl, rfl⟩ := ends_ofExcept.1 hrest
            exact ⟨rfl, rfl⟩
  · rintro ⟨r, rfl, rfl⟩
    refine ⟨[⟨c, r⟩], r, [], .call r (ends_ofExcept.2 ⟨rfl, rfl⟩), ?_, rfl⟩
    cases r with
    | error e => exact ends_throw.2 ⟨rfl, rfl⟩
    | ok b => exact ends_ofExcept.2 ⟨rfl, rfl⟩

/-- An attempt that failed was a call with that answer. -/
def FailedBy (read : R c → Except ε α) (failure : List (Exchange ε C R) × ε) (r : Except ε (R c)) :
    Prop :=
  failure.1 = [⟨c, r⟩] ∧ r.bind read = .error failure.2

variable {failures : List (List (Exchange ε C R) × ε)} {answers : List (Except ε (R c))}

/-- The attempts that are repeated are calls whose answers are. -/
theorem failed_asking : Failed retryable (asking c read) failures ↔
    ∃ answers : List (Except ε (R c)), (∀ r ∈ answers, Repeats read retryable r) ∧
      List.Forall₂ (FailedBy read) failures answers := by
  induction failures with
  | nil => exact ⟨fun _ => ⟨[], by simp, .nil⟩, fun _ _ hmem => absurd hmem List.not_mem_nil⟩
  | cons failure failures ih =>
      constructor
      · intro hfailed
        obtain ⟨hends, hretry⟩ := hfailed failure List.mem_cons_self
        obtain ⟨answers, hrepeats, hanswers⟩ :=
          ih.1 fun other hmem => hfailed other (List.mem_cons_of_mem _ hmem)
        obtain ⟨r, hpast, hresult⟩ := ends_asking.1 hends
        refine ⟨r :: answers, ?_, .cons ⟨hpast, hresult.symm⟩ hanswers⟩
        intro other hmem
        rcases List.mem_cons.1 hmem with rfl | hmem
        · exact ⟨_, hresult.symm, hretry⟩
        · exact hrepeats other hmem
      · rintro ⟨answers, hrepeats, hanswers⟩
        cases hanswers with
        | @cons _ r _ answers hfirst hrest =>
            intro other hmem
            rcases List.mem_cons.1 hmem with rfl | hmem
            · obtain ⟨e, herror, hretry⟩ := hrepeats r List.mem_cons_self
              rw [hfirst.2] at herror
              cases herror
              exact ⟨ends_asking.2 ⟨r, hfirst.1, hfirst.2.symm⟩, hretry⟩
            · exact ih.2 ⟨answers, fun r hr => hrepeats r (List.mem_cons_of_mem _ hr), hrest⟩
                other hmem

/-- Answers that are repeated are those of attempts that failed. -/
theorem exists_failures (h : ∀ r ∈ answers, Repeats read retryable r) :
    ∃ failures, List.Forall₂ (FailedBy read) failures answers := by
  induction answers with
  | nil => exact ⟨[], .nil⟩
  | cons r answers ih =>
      obtain ⟨e, herror, -⟩ := h r List.mem_cons_self
      obtain ⟨failures, hrest⟩ := ih fun r' hr' => h r' (List.mem_cons_of_mem _ hr')
      exact ⟨([⟨c, r⟩], e) :: failures, .cons ⟨rfl, herror⟩ hrest⟩

/-- The last attempt raises what its answer is read as. -/
theorem last_failure {r : Except ε (R c)}
    (h : List.Forall₂ (FailedBy read) failures (answers ++ [r])) (e : ε) :
    r.bind read = .error ((failures.map Prod.snd).getLastD e) := by
  induction answers generalizing failures e with
  | nil =>
      cases h with
      | cons hfirst hnil =>
          cases hnil
          exact hfirst.2
  | cons r' answers ih =>
      cases h with
      | cons hfirst hrest =>
          rw [List.map_cons, List.getLastD_cons]
          exact ih hrest _

theorem flatMap_failures (h : List.Forall₂ (FailedBy read) failures answers) :
    failures.flatMap Prod.fst = answers.map (Exchange.mk c) := by
  induction h with
  | nil => rfl
  | cons hfirst _ ih =>
      rw [List.flatMap_cons, hfirst.1, ih, List.singleton_append]
      rfl

/-- A call that is repeated: at most so many times, again only after an answer that is retried,
and with what the last answer is read as. -/
theorem ends_retry_asking :
    ((asking c read).retry attempts retryable unattempted).Ends past result ↔
      (attempts = 0 ∧ past = [] ∧ result = .error unattempted) ∨
        ∃ earlier r, past = (earlier ++ [r]).map (Exchange.mk c) ∧
          (∀ r ∈ earlier, Repeats read retryable r) ∧ earlier.length < attempts ∧
            (Repeats read retryable r → earlier.length + 1 = attempts) ∧ result = r.bind read := by
  rw [ends_retry]
  constructor
  · rintro ⟨failures, hfailed, hcases⟩
    obtain ⟨answers, hrepeats, hanswers⟩ := failed_asking.1 hfailed
    have hlength := hanswers.length_eq
    rcases hcases with ⟨hattempts, rfl, rfl⟩ | ⟨hattempts, last, hlast, hfinal, rfl⟩
    · rw [flatMap_failures hanswers]
      rcases List.eq_nil_or_concat answers with rfl | ⟨earlier, r, rfl⟩
      · obtain rfl := List.length_eq_zero_iff.1 hlength
        exact .inl ⟨hattempts.symm, rfl, rfl⟩
      · rw [List.concat_eq_append] at *
        rw [hlength, List.length_append, List.length_singleton] at hattempts
        exact .inr ⟨earlier, r, rfl, fun r' hr' => hrepeats r' (List.mem_append_left _ hr'),
          by omega, fun _ => hattempts, (last_failure hanswers unattempted).symm⟩
    · obtain ⟨r, rfl, rfl⟩ := ends_asking.1 hlast
      refine .inr ⟨answers, r, ?_, hrepeats, by omega, ?_, rfl⟩
      · rw [flatMap_failures hanswers, List.map_append]
        rfl
      · rintro ⟨e, herror, hretry⟩
        rw [hfinal e herror] at hretry
        cases hretry
  · rintro (⟨rfl, rfl, rfl⟩ | ⟨earlier, r, rfl, hrepeats, hlength, hlast, rfl⟩)
    · exact ⟨[], fun _ hmem => absurd hmem List.not_mem_nil, .inl ⟨rfl, rfl, rfl⟩⟩
    · by_cases hr : Repeats read retryable r
      · have hall : ∀ r' ∈ earlier ++ [r], Repeats read retryable r' := by
          intro r' hr'
          rcases List.mem_append.1 hr' with hr' | hr'
          · exact hrepeats r' hr'
          · rw [List.mem_singleton.1 hr']
            exact hr
        obtain ⟨failures, hanswers⟩ := exists_failures hall
        refine ⟨failures, failed_asking.2 ⟨_, hall, hanswers⟩,
          .inl ⟨?_, (flatMap_failures hanswers).symm, last_failure hanswers unattempted⟩⟩
        rw [hanswers.length_eq, List.length_append, List.length_singleton]
        exact hlast hr
      · obtain ⟨failures, hanswers⟩ := exists_failures hrepeats
        refine ⟨failures, failed_asking.2 ⟨_, hrepeats, hanswers⟩,
          .inr ⟨?_, [⟨c, r⟩], ends_asking.2 ⟨r, rfl, rfl⟩, ?_, ?_⟩⟩
        · rw [hanswers.length_eq]
          exact hlength
        · intro e herror
          rw [← Bool.not_eq_true]
          exact fun hretry => hr ⟨e, herror, hretry⟩
        · rw [flatMap_failures hanswers, List.map_append]
          rfl

end Calls

end Program

end Effects
