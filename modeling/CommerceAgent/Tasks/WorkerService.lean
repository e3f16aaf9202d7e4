import CommerceAgent.Tasks.TaskService

/-!
# The worker service

`handle_message` as a program. The flag `graph_started` of the source is set
between two calls, so the `try` block is cut there: `prepareRun` is what stands
before it, `executeRun` what stands after it, and `_handle_failure` is told in
which of them the exception was raised. The orchestrator is a parameter.
-/

namespace CommerceAgent

open Effects

/-- What `decode` makes of the body of a delivered message. -/
abbrev Body := Except Exn QueueMessage

/-- `AgentOrchestrator.run`. -/
abbrev Orchestrator :=
  TaskRecord → Option ResumeKind → Option String → TaskProgram RunOutcome

/-- An orchestrator of which nothing is known: its run is one call. -/
def arbitraryRun : Orchestrator := fun task resumeKind resumeId =>
  (TaskCall.run task resumeKind resumeId).perform

def Settings.leaseTtl (settings : Settings) : ℕ := max (settings.taskTimeoutSeconds + 30) 60

def matchesPendingMessage (task : TaskRecord) (payload : QueueMessage) : Bool :=
  match task.pendingAttempt with
  | none => true
  | some pendingAttempt =>
      payload.attempt == pendingAttempt && payload.resumeKind == task.pendingResumeKind &&
        payload.resumeId == task.pendingResumeId

def safeError : Exn → String × String
  | .appError code message _ => (code, message)
  | .agentLoopDetected message => ("AGENT_LOOP_DETECTED", message)
  | .dependencyError code message => (code, message)
  | .timeoutError => ("TASK_TIMEOUT", "任务执行超过总超时时间")
  | _ => ("TASK_EXECUTION_FAILED", "任务执行失败，请根据 trace_id 查看日志")

def isRetryable : Exn → Bool
  | .agentLoopDetected _ | .valueError _ => false
  | .dependencyError code _ =>
      !(code ∈ ["MODEL_REQUEST_REJECTED", "MODEL_EMPTY_RESPONSE", "MODEL_INVALID_TOOL_ARGUMENTS"])
  | .appError .. => false
  | _ => true

/-- The status a record takes from the outcome of a run. -/
def RunStatus.taskStatus : RunStatus → TaskStatus
  | .awaitingInput => .awaitingInput
  | .awaitingApproval => .awaitingApproval
  | .rejected => .rejected
  | .completed => .completed

/-- The record `_mark_running` stores. -/
def TaskRecord.started (task : TaskRecord) (payload : QueueMessage) : TaskRecord :=
  { task with status := .running, attempt := payload.attempt }

/-- The record with the outcome of a run. -/
def TaskRecord.finished (task : TaskRecord) (outcome : RunOutcome) : TaskRecord :=
  { task with
    status := outcome.status.taskStatus
    result := outcome.result
    interaction := outcome.interaction
    errorCode := none
    errorMessage := none
    pendingAttempt := none
    pendingResumeKind := none
    pendingResumeId := none }

/-- What a failed message resumes when it is retried. -/
def retryResumption (payload : QueueMessage) (graphStarted : Bool) :
    Option ResumeKind × Option String :=
  if graphStarted ∧ payload.resumeKind ∉ [some .input, some .approval] then
    (some .retry, some payload.taskId)
  else (payload.resumeKind, payload.resumeId)

/-- The record `_handle_failure` stores. -/
def TaskRecord.failedRun (task : TaskRecord) (payload : QueueMessage) (exc : Exn)
    (graphStarted : Bool) (status : TaskStatus) : TaskRecord :=
  { task with
    status
    errorCode := some (safeError exc).1
    errorMessage := some (safeError exc).2
    attempt := payload.attempt
    pendingAttempt := some (payload.attempt + 1)
    pendingResumeKind := (retryResumption payload graphStarted).1
    pendingResumeId := (retryResumption payload graphStarted).2 }

/-- The message that retries a failed one. -/
def QueueMessage.retried (payload : QueueMessage) (graphStarted : Bool) : QueueMessage :=
  { payload with
    attempt := payload.attempt + 1
    resumeKind := (retryResumption payload graphStarted).1
    resumeId := (retryResumption payload graphStarted).2 }

def markRunning (task : TaskRecord) (payload : QueueMessage) : TaskProgram TaskRecord := do
  let task := task.started payload
  (TaskCall.saveTask (.markRunning payload) task).perform
  (TaskCall.appendEvent task.taskId (.started payload.attempt)).perform
  pure task

/-- The statuses in which a message is executed. -/
def TaskRecord.Runnable (task : TaskRecord) : Prop :=
  task.status ∈ [.queued, .running, .retrying] ∨
    (task.status = .failed ∧ task.errorCode = some "QUEUE_PUBLISH_FAILED")

instance (task : TaskRecord) : Decidable task.Runnable := inferInstanceAs (Decidable (_ ∨ _))

/-- The record to run, or nothing when the message has been settled. -/
def prepareRun (payload : QueueMessage) : TaskProgram (Option TaskRecord) := do
  let task ← (TaskCall.getTask (.handleMessage payload) payload.taskId).perform
  match task with
  | none => do
    (TaskCall.reject false).perform
    pure none
  | some task =>
    if task.status ∈ [.completed, .rejected] then do
      TaskCall.ack.perform
      pure none
    else if ¬ task.Runnable then do
      TaskCall.ack.perform
      pure none
    else if !matchesPendingMessage task payload then do
      TaskCall.ack.perform
      pure none
    else do
      let task ← markRunning task payload
      pure (some task)

/-- The event that shows a plan to the merchant. -/
def reportApprovalRequired (task : TaskRecord) (outcome : RunOutcome) : TaskProgram Unit :=
  match outcome.status, outcome.interaction with
  | .awaitingApproval, some interaction =>
      (TaskCall.appendEvent task.taskId (.approvalRequired interaction)).perform
  | _, _ => pure ()

def executeRun (orchestrator : Orchestrator) (payload : QueueMessage) (task : TaskRecord) :
    TaskProgram Unit := do
  let outcome ← orchestrator task payload.resumeKind payload.resumeId
  let task := task.finished outcome
  (TaskCall.saveTask (.outcome payload) task).perform
  reportApprovalRequired task outcome
  (TaskCall.appendEvent task.taskId (.finished outcome payload.attempt)).perform
  TaskCall.ack.perform

/-- The `except` clause of the retry: the record is stored as failed. -/
def retryPublishFailed (payload retryPayload : QueueMessage) (task : TaskRecord) :
    TaskProgram Unit := do
  let errorMessage := "重试任务入队失败，可通过 resume 接口继续"
  (TaskCall.saveTask (.handleFailure payload) (task.publishFailed errorMessage
    (resumeInteraction retryPayload.resumeKind retryPayload.resumeId))).perform
  (TaskCall.appendEvent task.taskId
    (.failed (some payload.attempt) "QUEUE_PUBLISH_FAILED" errorMessage)).perform
  (TaskCall.reject false).perform

/-- The branch of `_handle_failure` that schedules a retry. -/
def scheduleRetry (payload : QueueMessage) (exc : Exn) (graphStarted : Bool) (task : TaskRecord) :
    TaskProgram Unit := do
  let task := task.failedRun payload exc graphStarted .retrying
  (TaskCall.saveTask (.handleFailure payload) task).perform
  (TaskCall.publishRetry (payload.retried graphStarted)).perform.handle
    (fun _ => do
      (TaskCall.appendEvent task.taskId (.retrying payload.attempt (payload.attempt + 1)
        (safeError exc).1 (safeError exc).2)).perform
      TaskCall.ack.perform)
    (fun _ => retryPublishFailed payload (payload.retried graphStarted) task)

/-- The branch of `_handle_failure` that gives up. -/
def giveUp (payload : QueueMessage) (exc : Exn) (graphStarted : Bool) (task : TaskRecord) :
    TaskProgram Unit := do
  let task := task.failedRun payload exc graphStarted .failed
  (TaskCall.saveTask (.handleFailure payload) task).perform
  (TaskCall.appendEvent task.taskId
    (.failed (some payload.attempt) (safeError exc).1 (safeError exc).2)).perform
  (TaskCall.reject false).perform

def handleFailure (settings : Settings) (payload : QueueMessage) (exc : Exn)
    (graphStarted : Bool) : TaskProgram Unit := do
  let task ← (TaskCall.getTask (.handleFailure payload) payload.taskId).perform
  match task with
  | none => (TaskCall.reject false).perform
  | some task =>
    if isRetryable exc ∧ payload.attempt + 1 < settings.maxTaskAttempts then
      scheduleRetry payload exc graphStarted task
    else giveUp payload exc graphStarted task

/-- What a handler does that did not get the lease. -/
def delayDuplicate (payload : QueueMessage) : TaskProgram Unit :=
  (TaskCall.publishRetry payload).perform.handle
    (fun _ => TaskCall.ack.perform) (fun _ => (TaskCall.reject true).perform)

/-- Release the lease, whatever the store says. -/
def releaseLease (taskId : String) : TaskProgram Unit :=
  tryCatch (TaskCall.releaseTaskLease taskId).perform fun _ => pure ()

/-- The `try` block of `handle_message` with its `except` clause. -/
def runUnderLease (settings : Settings) (orchestrator : Orchestrator) (payload : QueueMessage) :
    TaskProgram Unit :=
  (prepareRun payload).handle
    (fun task =>
      match task with
      | none => pure ()
      | some task =>
          (executeRun orchestrator payload task).handle pure
            fun exc => handleFailure settings payload exc true)
    (fun exc => handleFailure settings payload exc false)

def handleMessage (settings : Settings) (orchestrator : Orchestrator) (body : Body) :
    TaskProgram Unit :=
  match body with
  | .error _ => (TaskCall.reject false).perform
  | .ok payload => do
    let acquired ← (TaskCall.acquireTaskLease payload.taskId settings.leaseTtl).perform
    if !acquired then delayDuplicate payload
    else (runUnderLease settings orchestrator payload).ensuring (releaseLease payload.taskId)

end CommerceAgent
