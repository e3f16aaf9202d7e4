import CommerceAgent.Effects.Counting
import CommerceAgent.Tasks.System

/-!
# Which calls the programs make

Stated once for each program: the calls it can make, whatever the answers are.
An operation of the task service stores only records that expect a message, as
`queued` or as `failed`, and compares only with a status that is not final; a
handler makes no repository call of its own. A property that looks at single calls
follows from these by `Program.Only.mono`.
-/

namespace CommerceAgent

open Effects

/-- The calls of the operation of the task service at `site`. -/
def TaskCall.ByService (site : Site) : TaskCall → Prop
  | .setNew task | .createScript task _ => task.status = .queued ∧ task.pendingAttempt ≠ none
  | .getTask site' _ => site' = site
  | .saveTask site' task =>
      site' = site ∧ task.status ∈ [.queued, .failed] ∧ task.pendingAttempt ≠ none
  | .transitionTask task expectedStatus => task.status = .queued ∧ task.pendingAttempt ≠ none ∧
      expectedStatus ∈ [.awaitingInput, .awaitingApproval, .failed]
  | .deleteKey _ | .hasTaskLease _ | .appendEvent .. | .publish _ | .resolveProduct .. => True
  | .ledger (.recordApproval ..) | .ledger (.getApprovalForTask _) => site = .submitApproval
  | _ => False

/-- The calls of a handler of the message, around the orchestrator's. -/
def TaskCall.ByHandler (payload : QueueMessage) : TaskCall → Prop
  | .getTask site _ => site = .handleMessage payload ∨ site = .handleFailure payload
  | .saveTask site _ =>
      site = .markRunning payload ∨ site = .outcome payload ∨ site = .handleFailure payload
  | .acquireTaskLease taskId _ | .releaseTaskLease taskId => taskId = payload.taskId
  | .appendEvent .. | .publishRetry _ | .ack | .reject _ => True
  | .run _ resumeKind resumeId => resumeKind = payload.resumeKind ∧ resumeId = payload.resumeId
  | _ => False

section Service

variable {site : Site} {α : Type} {V : α → Prop}

/-- The program makes the calls of a service operation, and returns such values. -/
abbrev Serves (site : Site) (p : TaskProgram α) (V : α → Prop) : Prop :=
  p.Only (TaskCall.ByService site) V

theorem serves_perform {c : TaskCall} (hc : c.ByService site) :
    Serves site c.perform fun _ => True := .perform hc

theorem serves_bind {c : TaskCall} {f : c.Reply → TaskProgram α} (hc : c.ByService site)
    (hf : ∀ b, Serves site (f b) V) : Serves site (c.perform >>= f) V :=
  (serves_perform hc).bind fun b _ => hf b

theorem serves_getTaskForMerchant (site : Site) (taskId merchantId : String) :
    Serves site (getTaskForMerchant site taskId merchantId) fun task =>
      task.merchantId = merchantId := by
  refine (serves_bind (V := fun _ => True) (by rfl) ?_).bind ?_
  · rintro (_ | task) <;> trivial
  · intro task _
    split
    · trivial
    · next h => exact not_not.1 h

theorem serves_publishOrFail {task : TaskRecord} (htask : task.pendingAttempt ≠ none)
    (payload : QueueMessage) (errorMessage : String) (interaction : Option Interaction)
    {report : TaskProgram Unit} (hreport : Serves site report fun _ => True) :
    Serves site (publishOrFail site task payload errorMessage interaction report)
      fun _ => True := by
  refine (serves_perform (by trivial)).handle (fun _ _ => by trivial)
    fun _ => serves_bind ?_ fun _ => ?_
  · exact ⟨rfl, by simp [TaskRecord.publishFailed], htask⟩
  · exact hreport.bind fun _ _ => by trivial

theorem serves_createTaskRecord {task : TaskRecord} (hstatus : task.status = .queued)
    (hpending : task.pendingAttempt ≠ none) (key : Option String) :
    ∀ depth, Serves .createTask (createTaskRecord task key depth) fun _ => True
  | 0 => trivial
  | depth + 1 => by
      unfold createTaskRecord
      split
      · exact serves_bind ⟨hstatus, hpending⟩ fun _ => by trivial
      · exact serves_bind ⟨hstatus, hpending⟩ fun _ => by trivial
      · refine serves_bind ⟨hstatus, hpending⟩ ?_
        rintro ⟨resolved, _ | _⟩
        · refine serves_bind rfl ?_
          rintro (_ | existing)
          · exact serves_bind trivial
              fun _ => serves_createTaskRecord hstatus hpending _ depth
          · trivial
        · trivial

theorem serves_createTask (request : CreateTask) :
    Serves .createTask (createTask request) fun _ => True := by
  refine (serves_createTaskRecord rfl (by simp [CreateTask.record]) _ _).bind ?_
  rintro ⟨resolved, _ | _⟩ -
  · trivial
  · exact serves_bind trivial fun _ =>
      (serves_publishOrFail (by simp [CreateTask.record]) _ _ _ (serves_perform (by trivial))).bind
        fun _ _ => by trivial

theorem serves_submitInput (taskId merchantId productId : String) :
    Serves .submitInput (submitInput taskId merchantId productId) fun _ => True := by
  refine (serves_getTaskForMerchant _ _ _).bind fun task _ => ?_
  split
  · trivial
  refine serves_bind trivial fun items => ?_
  split
  · trivial
  refine serves_bind ⟨rfl, by simp [TaskRecord.withInput], by simp⟩ fun transitioned => ?_
  split
  · refine (serves_getTaskForMerchant _ _ _).bind fun current _ => ?_
    split <;> trivial
  · exact serves_bind trivial fun _ =>
      (serves_publishOrFail (by simp [TaskRecord.withInput]) _ _ _ (by trivial)).bind
        fun _ _ => by trivial

/-- When the transition is lost, the approval returned is the one recorded. -/
theorem serves_racedApproval (request : SubmitApproval) (approvalId : String) :
    Serves .submitApproval (racedApproval request approvalId) fun result =>
      result.2 = approvalId := by
  refine (serves_getTaskForMerchant _ _ _).bind fun current _ => ?_
  split
  · rfl
  · trivial

/-- When the record is stored, the approval returned is the one recorded. -/
theorem serves_enqueueApproval (request : SubmitApproval) {task : TaskRecord}
    (htask : task.pendingAttempt ≠ none) (approvalId : String) (requeued : Bool) :
    Serves .submitApproval (enqueueApproval request task approvalId requeued)
      fun result => result.2 = approvalId := by
  refine serves_bind trivial fun _ =>
    (serves_publishOrFail htask _ _ _ (by trivial)).bind fun _ _ => ?_
  have hreport : Serves .submitApproval (reportRequeued task approvalId requeued)
      fun _ => True := by
    unfold reportRequeued
    split
    · exact serves_perform (by trivial)
    · trivial
  exact hreport.bind fun _ _ => rfl

theorem serves_repeatedApproval (request : SubmitApproval) (task : TaskRecord) :
    Serves .submitApproval (repeatedApproval request task) fun _ => True := by
  refine serves_bind rfl fun existing => ?_
  cases existing with
  | none => trivial
  | some row =>
      change Serves _ (if _ then _ else _) _
      split <;> trivial

theorem serves_submitApproval (request : SubmitApproval) :
    Serves .submitApproval (submitApproval request) fun _ => True := by
  refine (serves_getTaskForMerchant _ _ _).bind fun task _ => ?_
  change Serves _ (if task.status ∈ _ then _ else _) _
  split
  · exact serves_repeatedApproval request task
  split
  · trivial
  split
  · trivial
  refine serves_bind rfl fun approvalId => serves_bind ?_ fun transitioned => ?_
  · refine ⟨rfl, by simp [TaskRecord.withApproval], ?_⟩
    split <;> simp
  · split
    · exact (serves_racedApproval request approvalId).mono (fun _ h => h) fun _ _ => trivial
    · exact (serves_enqueueApproval request (by simp [TaskRecord.withApproval]) approvalId _).mono
        (fun _ h => h) fun _ _ => trivial

theorem serves_staleRunning (task : TaskRecord) :
    Serves .resumeTask (staleRunning task) fun _ => True := by
  unfold staleRunning
  split
  · exact serves_bind trivial fun _ => by trivial
  · trivial

theorem serves_resumeTask (taskId merchantId : String) :
    Serves .resumeTask (resumeTask taskId merchantId) fun _ => True := by
  refine (serves_getTaskForMerchant _ _ _).bind fun task _ => ?_
  split
  · trivial
  refine (serves_staleRunning task).bind fun stale _ => ?_
  split
  · trivial
  refine serves_bind ⟨rfl, by simp [TaskRecord.resumed], by simp [TaskRecord.resumed]⟩
    fun _ => serves_bind trivial fun _ => ?_
  exact (serves_publishOrFail (by simp [TaskRecord.resumed]) _ _ _ (by trivial)).bind
    fun _ _ => by trivial

end Service

section Handler

variable {payload : QueueMessage} {α : Type} {V : α → Prop}

/-- The program makes the calls of a handler. -/
abbrev Handles (payload : QueueMessage) (p : TaskProgram α) : Prop :=
  p.Only (TaskCall.ByHandler payload) fun _ => True

theorem handles_perform {c : TaskCall} (hc : c.ByHandler payload) :
    Handles payload c.perform := .perform hc

theorem handles_bind {c : TaskCall} {f : c.Reply → TaskProgram α} (hc : c.ByHandler payload)
    (hf : ∀ b, Handles payload (f b)) : Handles payload (c.perform >>= f) :=
  (handles_perform hc).bind fun b _ => hf b

theorem handles_prepareRun (payload : QueueMessage) : Handles payload (prepareRun payload) := by
  have hack : Handles payload (TaskCall.ack.perform >>= fun _ =>
      (pure none : TaskProgram (Option TaskRecord))) := handles_bind trivial fun _ => trivial
  refine handles_bind (.inl rfl) ?_
  rintro (_ | task)
  · exact handles_bind trivial fun _ => trivial
  change Handles payload (if _ then _ else _)
  split
  · exact hack
  split
  · exact hack
  split
  · exact hack
  · exact Program.Only.bind (W := fun _ => True) (handles_bind (.inl rfl)
      fun _ => handles_bind trivial fun _ => by trivial) fun _ _ => trivial

theorem handles_executeRun {orchestrator : Orchestrator}
    (horchestrator : ∀ task,
      Handles payload (orchestrator task payload.resumeKind payload.resumeId))
    (task : TaskRecord) : Handles payload (executeRun orchestrator payload task) := by
  refine (horchestrator task).bind fun outcome _ => handles_bind (.inr (.inl rfl)) fun _ => ?_
  have hreport : Handles payload (reportApprovalRequired (task.finished outcome) outcome) := by
    unfold reportApprovalRequired
    split
    · exact handles_perform (by trivial)
    · trivial
  exact hreport.bind fun _ _ => handles_bind trivial fun _ => handles_perform (by trivial)

theorem handles_handleFailure (settings : Settings) (payload : QueueMessage) (exc : Exn)
    (graphStarted : Bool) :
    Handles payload (handleFailure settings payload exc graphStarted) := by
  refine handles_bind (.inr rfl) ?_
  rintro (_ | task)
  · exact handles_perform (by trivial)
  change Handles payload (if _ then _ else _)
  split
  · refine handles_bind (.inr (.inr rfl)) fun _ =>
      (handles_perform (by trivial)).handle (fun _ _ => ?_) fun _ => ?_
    · exact handles_bind trivial fun _ => handles_perform (by trivial)
    · exact handles_bind (.inr (.inr rfl)) fun _ =>
        handles_bind trivial fun _ => handles_perform (by trivial)
  · exact handles_bind (.inr (.inr rfl)) fun _ =>
      handles_bind trivial fun _ => handles_perform (by trivial)

theorem handles_releaseLease (payload : QueueMessage) :
    Handles payload (releaseLease payload.taskId) :=
  (handles_perform (by rfl)).handle (fun _ _ => by trivial) fun _ => by trivial

theorem handles_delayDuplicate (payload : QueueMessage) :
    Handles payload (delayDuplicate payload) := by
  have hack : Handles payload TaskCall.ack.perform := handles_perform trivial
  have hreject : Handles payload (TaskCall.reject true).perform := handles_perform trivial
  have hretry : Handles payload (TaskCall.publishRetry payload).perform := handles_perform trivial
  exact hretry.handle (fun _ _ => hack) fun _ => hreject

theorem handles_handleMessage (settings : Settings) {orchestrator : Orchestrator}
    (horchestrator : ∀ task,
      Handles payload (orchestrator task payload.resumeKind payload.resumeId)) :
    Handles payload (handleMessage settings orchestrator (.ok payload)) := by
  refine handles_bind rfl fun acquired => ?_
  split
  · exact handles_delayDuplicate payload
  have hrun : Handles payload (runUnderLease settings orchestrator payload) := by
    refine (handles_prepareRun payload).handle ?_ fun exc =>
      handles_handleFailure settings payload exc false
    rintro (_ | task) -
    · trivial
    · exact (handles_executeRun horchestrator task).handle (fun _ _ => by trivial)
        fun exc => handles_handleFailure settings payload exc true
  exact hrun.handle
    (fun _ _ => (handles_releaseLease payload).handle (fun _ _ => by trivial) fun _ => by trivial)
    fun _ => (handles_releaseLease payload).handle (fun _ _ => by trivial) fun _ => by trivial

theorem handles_arbitraryRun (task : TaskRecord) :
    Handles payload (arbitraryRun task payload.resumeKind payload.resumeId) :=
  handles_perform ⟨rfl, rfl⟩

end Handler

section Counting

variable {P : TaskCall → Bool} {n : ℕ}

/-- A handler makes the calls of a kind that its orchestrator makes, if it makes none
itself. -/
theorem atMost_handleMessage (settings : Settings) {orchestrator : Orchestrator}
    (hhandler : ∀ payload c, TaskCall.ByHandler payload c → P c = false)
    (horchestrator : ∀ task kind id, (orchestrator task kind id).AtMost P n) (body : Body) :
    (handleMessage settings orchestrator body).AtMost P n := by
  cases body with
  | error e =>
      exact Program.Only.atMost (V := fun _ => True)
        (.perform (hhandler ⟨"", "", "", 0, none, none⟩ (.reject false) trivial)) n
  | ok payload =>
      have houtside : ∀ {α : Type} {p : TaskProgram α}, Handles payload p →
          p.Only (fun c => P c = false) fun _ => True :=
        fun hp => hp.mono (hhandler payload) fun _ _ => trivial
      have hlast : ∀ {p : TaskProgram Unit} m, Handles payload p → p.AtMost P m :=
        fun m hp => (houtside hp).atMost m
      have hfailure : ∀ exc started m,
          (handleFailure settings payload exc started).AtMost P m :=
        fun exc started m => hlast m (handles_handleFailure settings payload exc started)
      have hexecute : ∀ task, (executeRun orchestrator payload task).AtMost P n := by
        intro task
        apply Program.AtMost.andThen ?_ (fun _ => by trivial) (horchestrator task _ _)
        intro outcome
        have hrest : Handles payload (executeRun (fun _ _ _ => pure outcome) payload task) :=
          handles_executeRun (fun _ => by trivial) task
        exact hlast 0 hrest
      have hunder : (runUnderLease settings orchestrator payload).AtMost P n := by
        refine Program.AtMost.handle ?_ (fun exc => hfailure exc false n)
          (houtside (handles_prepareRun payload))
        rintro (_ | task) -
        · trivial
        · exact (hexecute task).andThen (fun _ => by trivial) fun exc => hfailure exc true 0
      apply Program.AtMost.handle ?_ (fun _ => by trivial)
        (Program.Only.perform (hhandler payload (.acquireTaskLease _ _) rfl))
      intro acquired _
      split
      · exact hlast n (handles_delayDuplicate payload)
      · have hrelease : ∀ last : TaskProgram Unit, Handles payload last →
            ((releaseLease payload.taskId).handle (fun _ => last) .throw).AtMost P 0 :=
          fun last hp => hlast 0 ((handles_releaseLease payload).handle (fun _ _ => hp)
            fun _ => by trivial)
        exact hunder.andThen (fun a => hrelease (.pure a) (by trivial))
          fun e => hrelease (.throw e) (by trivial)

/-- Every process makes the calls of a kind that the orchestrator makes. -/
theorem atMost_program (settings : Settings) {orchestrator : Orchestrator}
    (hservice : ∀ site c, TaskCall.ByService site c → P c = false)
    (hhandler : ∀ payload c, TaskCall.ByHandler payload c → P c = false)
    (hledger : ∀ lc, P (.ledger lc) = false)
    (horchestrator : ∀ task kind id, (orchestrator task kind id).AtMost P n) (q : TaskRequest) :
    (q.program settings orchestrator).AtMost P n := by
  have hserves : ∀ {α : Type} {site : Site} {p : TaskProgram α} (f : α → TaskResult),
      Serves site p (fun _ => True) → (p >>= fun a => pure (f a)).AtMost P n := by
    intro α site p f hp
    exact Program.AtMost.handle (fun _ _ => by trivial) (fun _ => by trivial)
      (hp.mono (hservice site) fun _ h => h)
  cases q with
  | createTask request => exact hserves _ (serves_createTask request)
  | submitInput taskId merchantId productId => exact hserves _ (serves_submitInput _ _ _)
  | submitApproval request => exact hserves _ (serves_submitApproval request)
  | resumeTask taskId merchantId => exact hserves _ (serves_resumeTask _ _)
  | handleMessage body =>
      exact (atMost_handleMessage settings hhandler horchestrator body).andThen
        (fun _ => by trivial) fun _ => by trivial
  | ledger request =>
      exact Program.AtMost.handle (fun _ _ => by trivial) (fun _ => by trivial)
        (Program.only_lift (P := fun c : TaskCall => P c = false) hledger _)

end Counting

end CommerceAgent
