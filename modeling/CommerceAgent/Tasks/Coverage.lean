import CommerceAgent.Effects.Duty
import CommerceAgent.Tasks.Calls
import CommerceAgent.Tasks.Steps

/-!
# Coverage of waiting records

A record that waits for a worker makes its pending triple due, and a message
with that triple meets it. A process that stores such a record owes the message
until it has published it, and a handler that took the message off the queue
holds it until the record has moved on. The duty of a task is treated here for
two kinds of deployment at once: one in which processes run to their end, and
one in which they crash at any call but never schedule a retry.
-/

namespace CommerceAgent

open Effects

/-- What a record and a message are compared by. -/
abbrev Triple := Option ℤ × Option ResumeKind × Option String

def TaskRecord.triple (task : TaskRecord) : Triple :=
  (task.pendingAttempt, task.pendingResumeKind, task.pendingResumeId)

def QueueMessage.triple (payload : QueueMessage) : Triple :=
  (some payload.attempt, payload.resumeKind, payload.resumeId)

/-- The statuses in which a task waits for a worker. -/
def TaskStatus.Waiting (status : TaskStatus) : Prop := status ∈ [.queued, .retrying]

instance (status : TaskStatus) : Decidable status.Waiting := inferInstanceAs (Decidable (_ ∈ _))

/-- The triple that the record of the task waits for. -/
def World.awaits (w : World) (taskId : String) : Option Triple :=
  (w.records taskId).bind fun task => if task.status.Waiting then some task.triple else none

/-- The message is one of the task, with this triple. -/
def QueueMessage.Carries (payload : QueueMessage) (taskId : String) (d : Triple) : Prop :=
  payload.taskId = taskId ∧ payload.triple = d

instance (payload : QueueMessage) (taskId : String) (d : Triple) :
    Decidable (payload.Carries taskId d) := inferInstanceAs (Decidable (_ ∧ _))

/-- The duty to have a message on its way for the record of the task. -/
def coverage (taskId : String) (promises : Prop) : Duty World Triple where
  inv := World.Keyed
  due w := w.awaits taskId
  met d w := ∃ payload ∈ w.inFlight, payload.Carries taskId d
  holds d i w := ∃ payload, w.unacked i = some payload ∧ payload.Carries taskId d
  promises := promises

/-- A Redis call, or the return of a message to its queue. -/
def TaskCall.reliable : TaskCall → Bool
  | .publish _ | .publishRetry _ | .ack | .reject false => false
  | .resolveProduct .. | .ledger _ | .run .. | .graph .. | .getCheckpoint _ | .putCheckpoint ..
  | .complete .. | .getMetrics .. | .executeTool ..
  | .enterNode .. | .schedule => false
  | _ => true

/-- Only a worker, or the repository, runs a program for the request. -/
def TaskRequest.byWorker : TaskRequest → Bool
  | .handleMessage _ | .ledger _ => true
  | _ => false

/-- What the steps of a deployment are restricted to. Records do not expire. Where
processes are taken at their word they do not crash and Redis calls succeed;
elsewhere only workers run, and no record is stored as retrying. -/
structure Covers (π : TaskPolicy) (promises : Prop) : Prop where
  reliable : promises → ∀ i c ch w, π.call i c ch w → c.reliable = true → ch.ending = .done
  crash : ∀ i w, π.crash i w → ¬ promises
  kept : ∀ id w, ¬ π.environment (.expireRecord id) w
  workers : ¬ promises → ∀ i q w, π.start i q w → q.byWorker = true
  unretried : ¬ promises → ∀ i site task ch w, π.call i (.saveTask site task) ch w →
    task.status = .retrying → ∃ e, ch.ending = .lost e

section World

variable {w w' : World} {taskId : String} {d : Triple}

theorem awaits_of_records (h : w'.records = w.records) : w'.awaits taskId = w.awaits taskId := by
  rw [World.awaits, World.awaits, h]

theorem awaits_eq_some (h : w.awaits taskId = some d) :
    ∃ task, w.records taskId = some task ∧ task.status.Waiting ∧ task.triple = d := by
  obtain ⟨task, htask, hd⟩ := Option.bind_eq_some_iff.1 h
  split at hd
  · next hwaiting => exact ⟨task, htask, hwaiting, Option.some.inj hd⟩
  · cases hd

theorem awaits_store (taskId : String) {task : TaskRecord}
    (h : w'.records = (w.store task).records) :
    w'.awaits taskId = if taskId = task.taskId then
      if task.status.Waiting then some task.triple else none else w.awaits taskId := by
  rw [World.awaits, World.awaits, h, World.store_records]
  by_cases heq : taskId = task.taskId
  · rw [if_pos heq, if_pos heq]
    rfl
  · rw [if_neg heq, if_neg heq]

end World

theorem TaskStatus.Waiting.runnable {task : TaskRecord} (h : task.status.Waiting) :
    task.Runnable := by
  have hcases : task.status = .queued ∨ task.status = .retrying := by
    simpa [TaskStatus.Waiting] using h
  rcases hcases with hstatus | hstatus <;> exact .inl (by simp [hstatus])

theorem TaskStatus.Waiting.not_final {status : TaskStatus} (h : status.Waiting) :
    status ∉ [.completed, .rejected] := by
  have hcases : status = .queued ∨ status = .retrying := by simpa [TaskStatus.Waiting] using h
  rcases hcases with hstatus | hstatus <;> simp [hstatus]

/-- A message with the triple of the record passes the filter. -/
theorem matchesPendingMessage_of_triple {task : TaskRecord} {payload : QueueMessage}
    (h : payload.triple = task.triple) : matchesPendingMessage task payload = true := by
  obtain ⟨hattempt, hkind, hid⟩ : some payload.attempt = task.pendingAttempt ∧
      payload.resumeKind = task.pendingResumeKind ∧ payload.resumeId = task.pendingResumeId := by
    simpa [QueueMessage.triple, TaskRecord.triple] using h
  simp [matchesPendingMessage, ← hattempt, hkind, hid]

theorem execute_of_reliable (settings : Settings) {c : TaskCall} (hc : c.reliable = true) (i : ℕ)
    (ch : TaskChoice) (w : World) : ∃ reply w', c.execute settings i ch w = .ok (reply, w') := by
  cases c with
  | setNew task | createScript task key | transitionTask task status | acquireTaskLease taskId ttl
  | releaseTaskLease taskId =>
      simp only [TaskCall.execute]
      repeat' split
      all_goals exact ⟨_, _, rfl⟩
  | resolveProduct merchantId query | ledger lc | run task kind id | graph threadId lc
  | getMetrics merchantId productId => cases hc
  | _ => exact ⟨_, _, rfl⟩

section Bearing

variable {settings : Settings} {orchestrator : Orchestrator} {π : TaskPolicy} {promises : Prop}
  {taskId : String} {i : ℕ} {d : Triple} {b : Pledge} {α β : Type}
  {Q : Triple → Pledge → β → Prop} {E : Triple → Pledge → Exn → Prop}

/-- The program bears the duty of the task. -/
abbrev Bears (settings : Settings) (orchestrator : Orchestrator) (π : TaskPolicy)
    (taskId : String) (promises : Prop) (i : ℕ) (Q : Triple → Pledge → β → Prop)
    (E : Triple → Pledge → Exn → Prop) (p : TaskProgram β) (d : Triple) (b : Pledge) : Prop :=
  (coverage taskId promises).Bears (taskMachine settings orchestrator) π i Q E p d b

/-- Where processes are taken at their word a reliable call does not raise. -/
theorem Covers.not_error (hπ : Covers π promises) (hpromises : promises) {c : TaskCall}
    (hc : c.reliable = true) {ch : TaskChoice} {w w' : World} {e : Exn}
    (hpermit : π.call i c ch w)
    (h : (taskMachine settings orchestrator).answer i c ch w = some (.error e, w')) : False := by
  have hdone := hπ.reliable hpromises i c ch w hpermit hc
  obtain ⟨reply, w₁, hrun⟩ := execute_of_reliable settings hc i ch w
  have h := Option.some.inj h
  rw [hdone, hrun] at h
  cases h

/-- A call that writes no record and settles no message leaves the duty to what follows. -/
theorem bears_quiet (hπ : Covers π promises) {c : TaskCall} (hwritten : c.written = none)
    (hsettles : c.settles = false) {f : c.Reply → TaskProgram β} {h : Exn → TaskProgram β}
    (hf : ∀ ch w reply w', w.Keyed → w.awaits taskId = some d →
      c.execute settings i ch w = .ok (reply, w') →
        Bears settings orchestrator π taskId promises i Q E (f reply) d b)
    (hh : (promises → c.reliable = false) → ∀ e,
      Bears settings orchestrator π taskId promises i Q E (h e) d b) :
    Bears settings orchestrator π taskId promises i Q E (c.perform.handle f h) d b := by
  intro ch w r w' hinv hdue hback hpermit hr
  have hrecords : w'.records = w.records := by
    rcases records_of_answer hr with hsame | ⟨task, htask, -⟩
    · exact hsame
    · rw [hwritten] at htask
      cases htask
  have hown := (queueStep_of_answer hr).own hsettles
  refine Duty.Owes.of_bears (b := b) ((awaits_of_records hrecords).trans hdue) (hback.mono ?_) ?_
  · intro hholds
    simpa [coverage, hown] using hholds
  · cases r with
    | ok reply => exact hf ch w reply w' hinv hdue (execute_of_answer hr)
    | error e =>
        apply hh
        intro hpromises
        by_contra hreliable
        exact hπ.not_error hpromises (by simpa using hreliable) hpermit hr

/-- To store a record of the task that waits for no worker ends the duty. -/
theorem bears_save (hπ : Covers π promises) {site : Site} {task : TaskRecord}
    (htask : task.taskId = taskId) (hstatus : ¬ task.status.Waiting)
    {f : Unit → TaskProgram β} {h : Exn → TaskProgram β}
    (hh : ¬ promises → ∀ e, Bears settings orchestrator π taskId promises i Q E (h e) d b) :
    Bears settings orchestrator π taskId promises i Q E
      ((TaskCall.saveTask site task).perform.handle f h) d b := by
  intro ch w r w' hinv hdue hback hpermit hr
  have hstored : w'.records = (w.store task).records → w'.awaits taskId = none := by
    intro hrecords
    rw [awaits_store taskId hrecords, if_pos htask.symm, if_neg hstatus]
  cases r with
  | ok reply =>
      have hrun := execute_of_answer hr
      cases hrun
      exact Duty.Owes.of_due_eq_none (hstored rfl)
  | error e =>
      rcases answer_cases hr with rfl | ⟨reply, hrun⟩
      · refine Duty.Owes.of_bears hdue hback (hh ?_ e)
        exact fun hpromises => hπ.not_error hpromises rfl hpermit hr
      · cases hrun
        exact Duty.Owes.of_due_eq_none (hstored rfl)

/-- To publish a message with the triple that is due meets the duty, if the message
gets through. -/
theorem bears_publish {c : TaskCall} {payload : QueueMessage}
    (hc : c = .publish payload ∨ c = .publishRetry payload) (hpayload : payload.Carries taskId d)
    {f : c.Reply → TaskProgram β} {h : Exn → TaskProgram β}
    (hh : ∀ e, Bears settings orchestrator π taskId promises i Q E (h e) d b) :
    Bears settings orchestrator π taskId promises i Q E (c.perform.handle f h) d b := by
  intro ch w r w' hinv hdue hback hpermit hr
  have hmet : ∀ reply, c.execute settings i ch w = .ok (reply, w') →
      w'.awaits taskId = some d ∧ (coverage taskId promises).met d w' := by
    intro reply hrun
    rcases hc with rfl | rfl <;> cases hrun <;>
      exact ⟨hdue, payload, List.mem_append_right _ (List.mem_singleton_self _), hpayload⟩
  cases r with
  | ok reply =>
      obtain ⟨hdue', hmet'⟩ := hmet reply (execute_of_answer hr)
      exact Duty.Owes.of_met hdue' hmet'
  | error e =>
      rcases answer_cases hr with rfl | ⟨reply, hrun⟩
      · exact Duty.Owes.of_bears hdue hback (hh e)
      · obtain ⟨hdue', hmet'⟩ := hmet reply hrun
        exact Duty.Owes.of_met hdue' hmet'

/-- To return the message to its queue meets the duty that it was held for. -/
theorem bears_requeue (hπ : Covers π promises)
    {f : Unit → TaskProgram β} {h : Exn → TaskProgram β}
    (hh : ¬ promises → ∀ e, Bears settings orchestrator π taskId promises i Q E (h e) d .held) :
    Bears settings orchestrator π taskId promises i Q E
      ((TaskCall.reject true).perform.handle f h) d .held := by
  intro ch w r w' hinv hdue hback hpermit hr
  have hmet : w' = w.requeue i →
      w'.awaits taskId = some d ∧ (coverage taskId promises).met d w' := by
    rintro rfl
    obtain ⟨payload, hunacked, hcarries⟩ := hback
    refine ⟨(awaits_of_records (w.requeue_records i)).trans hdue, payload, ?_, hcarries⟩
    simp [World.requeue_inFlight, hunacked]
  cases r with
  | ok reply =>
      have hrun := execute_of_answer hr
      cases hrun
      exact Duty.Owes.of_met (hmet rfl).1 (hmet rfl).2
  | error e =>
      rcases answer_cases hr with rfl | ⟨reply, hrun⟩
      · refine Duty.Owes.of_bears hdue hback (hh ?_ e)
        exact fun hpromises => hπ.not_error hpromises rfl hpermit hr
      · cases hrun
        exact Duty.Owes.of_met (hmet rfl).1 (hmet rfl).2

/-- A record that is stored as retrying only where processes are taken at their word
leaves the duty where it was. -/
theorem bears_unretried (hπ : Covers π promises) (hpromises : ¬ promises) {site : Site}
    {task : TaskRecord} (hstatus : task.status = .retrying)
    {f : Unit → TaskProgram β} {h : Exn → TaskProgram β}
    (hh : ∀ e, Bears settings orchestrator π taskId promises i Q E (h e) d b) :
    Bears settings orchestrator π taskId promises i Q E
      ((TaskCall.saveTask site task).perform.handle f h) d b := by
  intro ch w r w' hinv hdue hback hpermit hr
  obtain ⟨e, hlost⟩ := hπ.unretried hpromises i site task ch w hpermit hstatus
  have hr := Option.some.inj hr
  rw [hlost] at hr
  cases hr
  exact Duty.Owes.of_bears hdue hback (hh e)

/-- A program that ends with the duty ends with its message, where processes crash. -/
abbrev BearsToEnd (settings : Settings) (orchestrator : Orchestrator) (π : TaskPolicy)
    (taskId : String) (promises : Prop) (i : ℕ) (p : TaskProgram β) (d : Triple) (b : Pledge) :
    Prop :=
  Bears settings orchestrator π taskId promises i (coverage taskId promises).AtEnd
    (coverage taskId promises).AtEnd p d b

theorem bears_ensuring (hπ : Covers π promises) {p : TaskProgram β} (id : String)
    (hp : BearsToEnd settings orchestrator π taskId promises i p d b) :
    BearsToEnd settings orchestrator π taskId promises i (p.ensuring (releaseLease id)) d b := by
  have hrelease : ¬ promises → ∀ (next : TaskProgram β) d b,
      BearsToEnd settings orchestrator π taskId promises i next d b →
        BearsToEnd settings orchestrator π taskId promises i
          ((releaseLease id).handle (fun _ => next) .throw) d b := by
    intro hpromises next d b hnext
    rw [releaseLease, Program.tryCatch_eq, Program.handle_handle]
    exact bears_quiet hπ rfl rfl (fun _ _ _ _ _ _ _ => hnext) fun _ _ => hnext
  apply Duty.Bears.handle
  refine hp.mono (fun d b a hpromises => ?_) fun d b e hpromises => ?_
  · exact hrelease hpromises (.pure a) d b hpromises
  · exact hrelease hpromises (.throw e) d b hpromises

/-- Where processes crash, a handler that fails on the record that waits for its
message either ends with the message or stores a record that waits no more. -/
theorem bears_handleFailure (hπ : Covers π promises) (hpromises : ¬ promises)
    (payload : QueueMessage) (exc : Exn) (graphStarted : Bool) :
    BearsToEnd settings orchestrator π payload.taskId promises i
      (handleFailure settings payload exc graphStarted) d b := by
  refine bears_quiet hπ rfl rfl (fun ch w reply w' hkeyed hdue hrun => ?_) fun _ _ => hpromises
  obtain ⟨task, htask, -, -⟩ := awaits_eq_some hdue
  cases hrun
  rw [htask]
  have hid := hkeyed _ _ htask
  change BearsToEnd _ _ _ _ _ _ (if _ then _ else _) _ _
  split
  · exact bears_unretried hπ hpromises rfl fun _ => hpromises
  · have hid' : (task.failedRun payload exc graphStarted .failed).taskId = payload.taskId := hid
    apply bears_save hπ hid'
    · simp [TaskRecord.failedRun, TaskStatus.Waiting]
    · exact fun _ _ => hpromises

/-- A handler that got no lease puts its message back. -/
theorem bears_delayDuplicate (hπ : Covers π promises) {payload : QueueMessage}
    (hpayload : payload.Carries taskId d) :
    BearsToEnd settings orchestrator π taskId promises i (delayDuplicate payload) d .held := by
  refine bears_publish (.inr rfl) hpayload fun _ => ?_
  rw [← Program.handle_pure_throw (TaskCall.reject true).perform]
  exact bears_requeue hπ fun hpromises _ => hpromises

/-- A handler of the message that the record waits for stores the record as running
or raises, and raises only where processes crash. -/
theorem bears_prepareRun (hπ : Covers π promises) {payload : QueueMessage}
    (hpayload : payload.triple = d) :
    Bears settings orchestrator π payload.taskId promises i (fun _ _ _ => False)
      (coverage payload.taskId promises).AtEnd (prepareRun payload) d b := by
  refine bears_quiet hπ rfl rfl (fun ch w reply w' hkeyed hdue hrun => ?_) fun h e => ?_
  · obtain ⟨task, htask, hwaiting, htriple⟩ := awaits_eq_some hdue
    cases hrun
    have hmatches : matchesPendingMessage task payload = true :=
      matchesPendingMessage_of_triple (hpayload.trans htriple.symm)
    rw [htask]
    change Bears _ _ _ _ _ _ _ _ (if _ then _ else _) _ _
    rw [if_neg hwaiting.not_final, if_neg (not_not.2 hwaiting.runnable),
      if_neg (by simp [hmatches])]
    have hid : task.taskId = payload.taskId := hkeyed _ _ htask
    have hid' : (task.started payload).taskId = payload.taskId := hid
    apply Duty.Bears.handle
    apply bears_save hπ hid'
    · simp [TaskRecord.started, TaskStatus.Waiting]
    · exact fun hpromises _ => hpromises
  · exact fun hpromises => by cases h hpromises

/-- A handler bears the duty of the record that waits for its message: it stores
the record as running, or fails and keeps the message. -/
theorem bears_handleMessage (hπ : Covers π promises) {payload : QueueMessage}
    (hpayload : payload.Carries taskId d) :
    BearsToEnd settings orchestrator π taskId promises i
      (handleMessage settings orchestrator (.ok payload)) d .held := by
  obtain ⟨rfl, htriple⟩ := hpayload
  refine bears_quiet hπ rfl rfl (fun ch w acquired w' _ _ _ => ?_) fun h e => ?_
  · cases acquired with
    | false => exact bears_delayDuplicate hπ ⟨rfl, htriple⟩
    | true =>
        apply bears_ensuring hπ
        apply Duty.Bears.handle
        refine (bears_prepareRun hπ htriple).mono (fun d b task h => h.elim) ?_
        exact fun d b exc hpromises => bears_handleFailure hπ hpromises payload exc false
  · exact fun hpromises => by cases h hpromises

/-- To publish or else to store the record as failed ends the duty in either case. -/
theorem bears_publishOrFail (hπ : Covers π promises) (hpromises : promises) {site : Site}
    {task : TaskRecord} {payload : QueueMessage} (hpayload : payload.Carries taskId d)
    (htask : task.taskId = taskId) {errorMessage : String} {interaction : Option Interaction}
    {report : TaskProgram Unit} {f : Unit → TaskProgram β} :
    Bears settings orchestrator π taskId promises i Q E
      (publishOrFail site task payload errorMessage interaction report >>= f) d b := by
  rw [publishOrFail, Program.bind_eq, Program.handle_handle]
  apply bears_publish (.inl rfl) hpayload
  intro e
  rw [Program.bind_eq, Program.handle_handle]
  have htask' : (task.publishFailed errorMessage interaction).taskId = taskId := htask
  apply bears_save hπ htask'
  · simp [TaskRecord.publishFailed, TaskStatus.Waiting]
  · exact fun h => absurd hpromises h

/-- The event that is reported between the record and the message. -/
theorem bears_appendEvent (hπ : Covers π promises) (hpromises : promises) {id : String}
    {event : TaskEvent} {f : Unit → TaskProgram β}
    (hf : Bears settings orchestrator π taskId promises i Q E (f ()) d b) :
    Bears settings orchestrator π taskId promises i Q E
      ((TaskCall.appendEvent id event).perform >>= f) d b := by
  refine bears_quiet hπ rfl rfl (fun _ _ _ _ _ _ _ => hf) fun h => ?_
  cases h hpromises

/-- A retry that was stored as such is published, or stored as failed. -/
theorem bears_publishRetry (hπ : Covers π promises) (hpromises : promises) {task : TaskRecord}
    {payload retryPayload : QueueMessage} (hpayload : retryPayload.Carries taskId d)
    (htask : task.taskId = taskId) {next : Unit → TaskProgram Unit}
    {Q : Triple → Pledge → Unit → Prop} :
    Bears settings orchestrator π taskId promises i Q E
      ((TaskCall.publishRetry retryPayload).perform.handle next
        fun _ => retryPublishFailed payload retryPayload task) d b := by
  apply bears_publish (.inr rfl) hpayload
  intro e
  apply bears_save hπ (by exact htask)
  · simp [TaskRecord.publishFailed, TaskStatus.Waiting]
  · exact fun h => absurd hpromises h

end Bearing

end CommerceAgent
