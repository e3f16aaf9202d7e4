import CommerceAgent.Effects.Alone
import CommerceAgent.Tasks.Steps

/-!
# Settling a delivery

A delivery is settled by one `ack` or `reject`. `handle_message` is run on every
pattern of answers: each of its calls returns anything, or raises anything. A
handling is `Clean` until it settles its delivery; it is `Concluded` once it has
settled it, or once a call has raised that stands in no `try` block: the
acquisition of the lease, and the store calls of `_handle_failure`. A handler that is cancelled
from outside is torn down with its process and settles nothing.
-/

namespace CommerceAgent

open Effects

/-- How a call ends, whichever call it is. It is not cancelled: only the timeout of a run
cancels what a handler does, and raises a `TimeoutError` itself. -/
structure Pattern where
  answer : (c : TaskCall) → Except Exn c.Reply
  uncancelled : ∀ c, answer c ≠ .error .cancelled

/-- A call of a handler with how it ended. -/
abbrev Handled := Made TaskCall Unit Pattern

/-- The handling of a delivery whose calls end as they are told. -/
def handling (settings : Settings) (body : Body) (choose : ℕ → Pattern) :
    Course Exn TaskCall Unit Pattern Unit :=
  (handleMessage settings arbitraryRun body).alone (fun c pattern _ => (pattern.answer c, ()))
    choose ()

def Handled.raised (m : Handled) : Bool :=
  match m.choice.answer m.call with
  | .ok _ => false
  | .error _ => true

/-- The calls of `handle_message` that no `except` clause stands behind. -/
def TaskCall.unguarded : TaskCall → Bool
  | .acquireTaskLease .. | .getTask (.handleFailure _) _ | .saveTask (.handleFailure _) _ => true
  | .appendEvent _ (.retrying ..) | .appendEvent _ (.failed ..) => true
  | _ => false

/-- The calls that settled the delivery. -/
def settlements (log : List Handled) : ℕ := log.countP fun m => m.call.settles

/-- A call raised that no `except` clause stands behind. -/
def Escaped (log : List Handled) : Prop := ∃ m ∈ log, m.call.unguarded = true ∧ m.raised = true

/-- Every call that settles the delivery returns. -/
def SettlingReturns (log : List Handled) : Prop :=
  ∀ m ∈ log, m.call.settles = true → m.raised = false

section Rules

variable {settings : Settings} {payload : QueueMessage} {log : List Handled} {c : TaskCall}

/-- The delivery is not settled, and no exception has escaped. -/
def Clean (log : List Handled) : Prop := settlements log = 0 ∧ ¬ Escaped log

/-- The delivery is settled, or an exception has escaped before it was. -/
def Concluded (log : List Handled) : Prop :=
  (settlements log = 1 ∧ ¬ Escaped log) ∨ (settlements log = 0 ∧ Escaped log)

theorem settlements_snoc (m : Handled) :
    settlements (log ++ [m]) = settlements log + if m.call.settles then 1 else 0 := by
  simp [settlements, List.countP_append, List.countP_singleton]

theorem escaped_snoc (m : Handled) :
    Escaped (log ++ [m]) ↔ Escaped log ∨ (m.call.unguarded = true ∧ m.raised = true) := by
  simp [Escaped, or_and_right, exists_or]

/-- The calls that neither settle the delivery nor escape. -/
def TaskCall.indifferent (c : TaskCall) : Bool := !c.settles && !c.unguarded

theorem Clean.snoc (h : Clean log) {m : Handled} (hm : m.call.indifferent = true) :
    Clean (log ++ [m]) := by
  simp only [TaskCall.indifferent, Bool.and_eq_true, Bool.not_eq_true'] at hm
  refine ⟨by simp [settlements_snoc, h.1, hm.1], ?_⟩
  rw [escaped_snoc, hm.2]
  simpa using h.2

theorem Concluded.snoc (h : Concluded log) {m : Handled} (hm : m.call.indifferent = true) :
    Concluded (log ++ [m]) := by
  simp only [TaskCall.indifferent, Bool.and_eq_true, Bool.not_eq_true'] at hm
  simpa [Concluded, settlements_snoc, escaped_snoc, hm.1, hm.2] using h

/-- A guarded or returning call that does not settle. -/
theorem Clean.unguarded (h : Clean log) {m : Handled} (hm : m.call.settles = false)
    (hreturned : m.raised = false) : Clean (log ++ [m]) := by
  refine ⟨by simp [settlements_snoc, h.1, hm], ?_⟩
  rw [escaped_snoc, hreturned]
  simpa using h.2

theorem Clean.settled (h : Clean log) {m : Handled} (hm : m.call.settles = true)
    (hreturned : m.raised = false) : Concluded (log ++ [m]) := by
  refine .inl ⟨by simp [settlements_snoc, h.1, hm], ?_⟩
  rw [escaped_snoc, hreturned]
  simpa using h.2

theorem Clean.escaped (h : Clean log) {m : Handled} (hm : m.call.settles = false)
    (hunguarded : m.call.unguarded = true) (hraised : m.raised = true) :
    Concluded (log ++ [m]) := by
  refine .inr ⟨by simp [settlements_snoc, h.1, hm], ?_⟩
  rw [escaped_snoc]
  exact .inr ⟨hunguarded, hraised⟩

/-- The protocol of a handler all of whose settling calls return. -/
abbrev handlingProtocol : Protocol Exn TaskCall TaskCall.Reply (Unit × List Handled) :=
  aloneProtocol (fun c (pattern : Pattern) _ => (pattern.answer c, ())) SettlingReturns

/-- From here the program settles the delivery, or an exception escapes. -/
def Concludes {α : Type} (p : TaskProgram α) (log : List Handled) : Prop :=
  p.Follows handlingProtocol (fun _ s => Concluded s.2) (fun _ s => Concluded s.2) ((), log)

variable {α : Type} {Q : α → Unit × List Handled → Prop} {E : Exn → Unit × List Handled → Prop}

/-- A call that leaves the handling clean, however it ends. -/
theorem follows_indifferent {f : c.Reply → TaskProgram α} {g : Exn → TaskProgram α}
    (hc : c.indifferent = true) (h : Clean log)
    (hf : ∀ reply log, Clean log → (f reply).Follows handlingProtocol Q E ((), log))
    (hg : ∀ e log, Clean log → (g e).Follows handlingProtocol Q E ((), log)) :
    (c.perform.handle f g).Follows handlingProtocol Q E ((), log) := by
  apply Program.follows_call trivial
  · rintro reply ⟨⟨⟩, log'⟩ ⟨pattern, -, -, rfl⟩
    exact hf reply _ (h.snoc hc)
  · rintro e ⟨⟨⟩, log'⟩ ⟨pattern, -, -, rfl⟩
    exact hg e _ (h.snoc hc)

/-- An unguarded call. -/
theorem concludes_unguarded {f : c.Reply → TaskProgram α} (hc : c.unguarded = true)
    (hsettles : c.settles = false) (h : Clean log)
    (hf : ∀ reply log, Clean log → Concludes (f reply) log) :
    Concludes (c.perform >>= f) log := by
  apply Program.follows_call trivial
  · rintro reply ⟨⟨⟩, log'⟩ ⟨pattern, -, hanswer, rfl⟩
    apply hf reply
    apply h.unguarded hsettles
    simp [Handled.raised, (Prod.mk.inj hanswer).1]
  · rintro e ⟨⟨⟩, log'⟩ ⟨pattern, -, hanswer, rfl⟩
    apply h.escaped hsettles hc
    simp [Handled.raised, (Prod.mk.inj hanswer).1]

/-- A call that settles the delivery returns, and concludes the handling. -/
theorem follows_settling {f : c.Reply → TaskProgram α} {g : Exn → TaskProgram α}
    (hc : c.settles = true) (h : Clean log)
    (hf : ∀ reply log, Concluded log → (f reply).Follows handlingProtocol Q E ((), log)) :
    (c.perform.handle f g).Follows handlingProtocol Q E ((), log) := by
  apply Program.follows_call trivial
  · rintro reply ⟨⟨⟩, log'⟩ ⟨pattern, hreturns, -, rfl⟩
    exact hf reply _ (h.settled hc (hreturns _ (by simp) hc))
  · rintro e ⟨⟨⟩, log'⟩ ⟨pattern, hreturns, hanswer, rfl⟩
    have hraised := hreturns ⟨(), c, pattern⟩ (by simp) hc
    simp [Handled.raised, (Prod.mk.inj hanswer).1] at hraised

theorem concludes_settling (hc : c.settles = true) (h : Clean log) : Concludes c.perform log := by
  rw [Concludes, ← Program.handle_pure_throw c.perform]
  exact follows_settling hc h fun _ _ hconcluded => hconcluded

/-- The last event of a branch of `_handle_failure`, and its settling call. -/
theorem concludes_report {taskId : String} {event : TaskEvent} (settling : TaskCall)
    (hevent : (TaskCall.appendEvent taskId event).unguarded = true)
    (hsettling : settling.settles = true) (h : Clean log) :
    Concludes ((TaskCall.appendEvent taskId event).perform >>= fun _ => settling.perform) log :=
  concludes_unguarded hevent rfl h fun _ _ hclean => concludes_settling hsettling hclean

theorem concludes_handleFailure (settings : Settings) (payload : QueueMessage) (exc : Exn)
    (graphStarted : Bool) (h : Clean log) :
    Concludes (handleFailure settings payload exc graphStarted) log := by
  apply concludes_unguarded rfl rfl h
  intro found log h
  cases found with
  | none => exact concludes_settling rfl h
  | some task =>
      change Concludes (if _ then _ else _) _
      split
      · apply concludes_unguarded rfl rfl h
        intro _ log h
        apply follows_indifferent rfl h
        · exact fun _ log h => concludes_report .ack rfl rfl h
        · intro _ log h
          apply concludes_unguarded rfl rfl h
          exact fun _ log h => concludes_report (.reject false) rfl rfl h
      · apply concludes_unguarded rfl rfl h
        exact fun _ log h => concludes_report (.reject false) rfl rfl h

theorem concludes_delayDuplicate (h : Clean log) : Concludes (delayDuplicate payload) log := by
  apply follows_indifferent rfl h
  · exact fun _ log h => concludes_settling rfl h
  · exact fun _ log h => concludes_settling rfl h

/-- What stands in the `try` block: it concludes when it returns, and is clean when it raises. -/
def Tries {α : Type} (done : α → Bool) (p : TaskProgram α) (log : List Handled) : Prop :=
  p.Follows handlingProtocol (fun a s => if done a then Concluded s.2 else Clean s.2)
    (fun _ s => Clean s.2) ((), log)

theorem tries_indifferent {done : c.Reply → Bool} (hc : c.indifferent = true) (h : Clean log)
    (hdone : ∀ reply, done reply = false) : Tries done c.perform log := by
  rw [Tries, ← Program.handle_pure_throw c.perform]
  apply follows_indifferent hc h
  · intro reply log h
    simpa [Program.Follows, hdone] using h
  · exact fun _ log h => h

theorem tries_prepareRun (h : Clean log) :
    Tries (fun task => task.isNone) (prepareRun payload) log := by
  have hsettle : ∀ (c : TaskCall) log, c.settles = true → Clean log →
      Tries (fun task => task.isNone)
        (c.perform >>= fun _ => (pure none : TaskProgram (Option TaskRecord))) log :=
    fun c log hc h => follows_settling hc h fun _ _ hconcluded => hconcluded
  apply follows_indifferent rfl h
  · intro found log h
    cases found with
    | none => exact hsettle _ _ rfl h
    | some task =>
        change Tries _ (if _ then _ else _) _
        split
        · exact hsettle _ _ rfl h
        split
        · exact hsettle _ _ rfl h
        split
        · exact hsettle _ _ rfl h
        apply Program.Follows.bind
        apply follows_indifferent rfl h
        · intro _ log h
          apply follows_indifferent rfl h
          · exact fun _ log h => h
          · exact fun _ log h => h
        · exact fun _ log h => h
  · exact fun _ log h => h

theorem tries_executeRun (task : TaskRecord) (h : Clean log) :
    Tries (fun _ => true) (executeRun arbitraryRun payload task) log := by
  have hack : ∀ log, Clean log → Tries (fun _ => true) TaskCall.ack.perform log := by
    intro log h
    rw [← Program.handle_pure_throw TaskCall.ack.perform]
    exact follows_settling rfl h fun _ _ hconcluded => hconcluded
  apply follows_indifferent (c := .run task payload.resumeKind payload.resumeId) rfl h
  · intro outcome log h
    apply follows_indifferent rfl h
    · intro _ log h
      apply Program.Follows.bind
      have hreport : Tries (fun _ : Unit => false)
          (reportApprovalRequired (task.finished outcome) outcome) log := by
        unfold reportApprovalRequired
        split
        · next interaction _ _ =>
            exact tries_indifferent (c := .appendEvent _ (.approvalRequired interaction)) rfl h
              fun _ => rfl
        · exact h
      refine hreport.mono (fun _ s h => ?_) fun _ _ h => h
      apply follows_indifferent rfl h
      · exact fun _ log h => hack log h
      · exact fun _ log h => h
    · exact fun _ log h => h
  · exact fun _ log h => h

theorem concludes_runUnderLease (settings : Settings) (h : Clean log) :
    Concludes (runUnderLease settings arbitraryRun payload) log := by
  apply Program.Follows.handle
  refine (tries_prepareRun h).mono ?_ ?_
  · rintro (_ | task) ⟨⟨⟩, log⟩ htask
    · exact htask
    · apply Program.Follows.handle
      refine (tries_executeRun task htask).mono (fun _ _ h => h) ?_
      exact fun e s h => concludes_handleFailure settings payload e true h
  · exact fun e s h => concludes_handleFailure settings payload e false h

theorem concludes_handleMessage (settings : Settings) (body : Body) (h : Clean log) :
    Concludes (handleMessage settings arbitraryRun body) log := by
  cases body with
  | error e => exact concludes_settling rfl h
  | ok payload =>
      apply concludes_unguarded rfl rfl h
      intro acquired log h
      cases acquired with
      | false => exact concludes_delayDuplicate h
      | true =>
          have hrelease : ∀ (next : TaskProgram Unit) s, (∀ s, Concluded s.2 →
                next.Follows handlingProtocol (fun _ s => Concluded s.2)
                  (fun _ s => Concluded s.2) s) →
              Concluded s.2 → ((releaseLease payload.taskId).handle (fun _ => next) .throw).Follows
                handlingProtocol (fun _ s => Concluded s.2) (fun _ s => Concluded s.2) s := by
            intro next s hnext hs
            rw [releaseLease, Program.tryCatch_eq, Program.handle_handle]
            apply Program.follows_call trivial
            · rintro _ s' ⟨pattern, -, -, hlog⟩
              exact hnext s' (hlog ▸ hs.snoc rfl)
            · rintro _ s' ⟨pattern, -, -, hlog⟩
              exact hnext s' (hlog ▸ hs.snoc rfl)
          apply Program.Follows.handle
          refine (concludes_runUnderLease settings h).mono ?_ ?_
          · exact fun a s hs => hrelease (.pure a) s (fun _ h => h) hs
          · exact fun e s hs => hrelease (.throw e) s (fun _ h => h) hs

end Rules

/-- Whatever the body of a delivery and however the calls of its handler end, as long
as `ack` and `reject` return: the delivery is never settled twice, and it is settled
exactly once if and only if no call raises that no `except` clause stands behind. -/
theorem settled_iff (settings : Settings) (body : Body) (choose : ℕ → Pattern)
    (hreturns : SettlingReturns (handling settings body choose).log) :
    settlements (handling settings body choose).log ≤ 1 ∧
      (settlements (handling settings body choose).log = 1 ↔
        ¬ Escaped (handling settings body choose).log) := by
  have hclean : Clean [] := ⟨rfl, by simp [Escaped]⟩
  have hends : (handling settings body choose).Ends _ _ [] :=
    Program.alone_of_follows (fun l l' hl m hm => hl m (List.mem_append_left _ hm))
      (concludes_handleMessage settings body hclean) hreturns
  have hconcluded : Concluded (handling settings body choose).log := by
    unfold Course.Ends at hends
    split at hends <;> exact hends
  rcases hconcluded with ⟨hone, hescaped⟩ | ⟨hzero, hescaped⟩
  · simp [hone, hescaped]
  · simp [hzero, hescaped]

/-- A handler gets the lease and the record of a task just created, and its run ends. -/
def demoPattern : Pattern where
  answer
    | .acquireTaskLease .. => .ok true
    | .getTask .. => .ok (some demoRequest.record)
    | .saveTask .. | .appendEvent .. | .publishRetry _ | .ack | .reject _ | .releaseTaskLease _ =>
        .ok ()
    | .run .. => .ok { status := .completed }
    | _ => .error (.other "unexpected")
  uncancelled c := by cases c <;> simp [Exn.cancelled]

/-- Whatever is called, the connection is lost. -/
def demoLost : Pattern where
  answer _ := .error (.other "ConnectionError")
  uncancelled _ := by simp [Exn.cancelled]

/-- The handling of a delivery whose call number `n` raises. -/
def demoHandling (n : ℕ) : Course Exn TaskCall Unit Pattern Unit :=
  handling demoSettings (.ok demoMessage) fun k =>
    if k = n then demoLost else demoPattern

instance (log : List Handled) : Decidable (SettlingReturns log) :=
  inferInstanceAs (Decidable (∀ m ∈ log, m.call.settles = true → m.raised = false))

/-- The lease cannot be acquired, and the delivery is not settled. -/
theorem unsettled_delivery :
    SettlingReturns (demoHandling 0).log ∧ settlements (demoHandling 0).log ≠ 1 := by
  decide

/-- The run raises, and the delivery is acknowledged after a retry is published. -/
theorem settled_iff_demo :
    (demoHandling 4).log.any Handled.raised = true ∧ settlements (demoHandling 4).log = 1 ∧
      (settlements (demoHandling 4).log = 1 ↔ ¬ Escaped (demoHandling 4).log) := by
  have hreturns : SettlingReturns (demoHandling 4).log := by decide
  exact ⟨by decide, by decide, (settled_iff demoSettings (.ok demoMessage) _ hreturns).2⟩

end CommerceAgent
