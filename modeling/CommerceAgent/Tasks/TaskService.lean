import CommerceAgent.Tasks.Store

/-!
# The task service

The four operations of `TaskService` that write a task record, as programs of
store and queue calls. A record that the source mutates in place is rebound here
under the same name.
-/

namespace CommerceAgent

open Effects

/-- `RedisStore.create_task`. It calls itself again after it has deleted a key
whose task is gone; `depth` is what is left of the interpreter's stack. -/
def createTaskRecord (task : TaskRecord) (idempotencyKey : Option String) :
    ℕ → TaskProgram (TaskRecord × Bool)
  | 0 => throw (.other "RecursionError")
  | depth + 1 =>
    match idempotencyKey with
    | none | some "" => do
      let created ← (TaskCall.setNew task).perform
      pure (task, created)
    | some key => do
      let (resolvedTaskId, created) ← (TaskCall.createScript task key).perform
      if created then pure (task, true)
      else
        let existing ← (TaskCall.getTask .createTask resolvedTaskId).perform
        match existing with
        | some existing => pure (existing, false)
        | none => do
          (TaskCall.deleteKey key).perform
          createTaskRecord task idempotencyKey depth

/-- What a request to create a task carries, and the tokens it draws. -/
structure CreateTask where
  prompt : String
  sessionId : Option String := none
  idempotencyKey : Option String := none
  traceId : String := ""
  merchantId : String
  productId : Option String := none
  taskToken : String
  sessionToken : String
  traceToken : String
  stackDepth : ℕ := 1000

/-- The record that `create_task` builds. -/
def CreateTask.record (request : CreateTask) : TaskRecord where
  taskId := request.taskToken
  sessionId := if truthy request.sessionId then request.sessionId.getD "" else request.sessionToken
  traceId := if request.traceId ≠ "" then request.traceId else request.traceToken
  prompt := request.prompt
  merchantId := request.merchantId
  productId := request.productId
  pendingAttempt := some 0

/-- The message that asks a worker for a task. -/
def TaskRecord.message (task : TaskRecord) (attempt : ℤ) (resumeKind : Option ResumeKind)
    (resumeId : Option String) : QueueMessage :=
  { taskId := task.taskId, sessionId := task.sessionId, traceId := task.traceId, attempt,
    resumeKind, resumeId }

/-- The record after a `publish` that raised. -/
def TaskRecord.publishFailed (task : TaskRecord) (errorMessage : String)
    (interaction : Option Interaction) : TaskRecord :=
  { task with
    status := .failed
    errorCode := some "QUEUE_PUBLISH_FAILED"
    errorMessage := some errorMessage
    interaction }

/-- `publish` with its `except` clause: the record is stored as failed. -/
def publishOrFail (site : Site) (task : TaskRecord) (payload : QueueMessage)
    (errorMessage : String) (interaction : Option Interaction) (report : TaskProgram Unit) :
    TaskProgram Unit :=
  (TaskCall.publish payload).perform.handle pure fun _ => do
    (TaskCall.saveTask site (task.publishFailed errorMessage interaction)).perform
    report
    throw (.dependencyError "QUEUE_PUBLISH_FAILED" errorMessage)

/-- What follows in `create_task` when the record is new. -/
def enqueueCreated (task : TaskRecord) : TaskProgram (TaskRecord × Bool) := do
  let errorMessage := "任务入队失败，可通过 resume 接口重试"
  (TaskCall.appendEvent task.taskId (.queued task.sessionId 0)).perform
  publishOrFail .createTask task (task.message 0 none none) errorMessage task.interaction
    (TaskCall.appendEvent task.taskId (.failed none "QUEUE_PUBLISH_FAILED" errorMessage)).perform
  pure (task, true)

def createTask (request : CreateTask) : TaskProgram (TaskRecord × Bool) := do
  let (resolvedTask, created) ←
    createTaskRecord request.record request.idempotencyKey request.stackDepth
  if !created then pure (resolvedTask, false)
  else enqueueCreated request.record

def getTask (site : Site) (taskId : String) : TaskProgram TaskRecord := do
  let task ← (TaskCall.getTask site taskId).perform
  match task with
  | none => throw (.taskNotFound taskId)
  | some task => pure task

def getTaskForMerchant (site : Site) (taskId merchantId : String) : TaskProgram TaskRecord := do
  let task ← getTask site taskId
  if task.merchantId ≠ merchantId then throw .merchantForbidden
  else pure task

/-- The record that `submit_input` asks to be stored. -/
def TaskRecord.withInput (task : TaskRecord) (productId : String) : TaskRecord :=
  { task with
    productId := some productId
    status := .queued
    interaction := none
    pendingAttempt := some 0
    pendingResumeKind := some .input
    pendingResumeId := some productId }

/-- What follows in `submit_input` when the transition was lost to another request. -/
def repeatedInput (taskId merchantId productId : String) : TaskProgram TaskRecord := do
  let current ← getTaskForMerchant .submitInput taskId merchantId
  if current.productId = some productId ∧
      current.status ∈ [.queued, .running, .awaitingApproval, .completed, .rejected] then
    pure current
  else throw (.taskStateConflict "任务输入已被其他请求提交")

/-- What follows in `submit_input` when the record was stored. -/
def enqueueInput (task : TaskRecord) (productId : String) : TaskProgram TaskRecord := do
  (TaskCall.appendEvent task.taskId (.inputSubmitted productId)).perform
  publishOrFail .submitInput task (task.message 0 (some .input) (some productId))
    "商品输入已保存，但恢复任务入队失败" (some (.inputResume productId)) (pure ())
  pure task

def submitInput (taskId merchantId productId : String) : TaskProgram TaskRecord := do
  let task ← getTaskForMerchant .submitInput taskId merchantId
  if task.status ≠ .awaitingInput then
    throw (.taskStateConflict "任务当前不等待商品输入")
  else
    let items ← (TaskCall.resolveProduct task.merchantId productId).perform
    if !(items.any fun item => item.productId == productId) then
      throw (.taskStateConflict "所选商品不属于当前商家")
    else
      let transitioned ←
        (TaskCall.transitionTask (task.withInput productId) .awaitingInput).perform
      if !transitioned then repeatedInput taskId merchantId productId
      else enqueueInput (task.withInput productId) productId

/-- What a request to approve or reject carries. -/
structure SubmitApproval where
  taskId : String
  merchantId : String
  planId : String
  planVersion : ℤ
  actionId : String
  decision : ApprovalDecision
  deriving DecidableEq, Repr

/-- The row an approval request repeats. -/
def SubmitApproval.Repeats (request : SubmitApproval) (merchantId : String) (row : ApprovalRow) :
    Prop :=
  row.merchantId = merchantId ∧ row.planId = request.planId ∧
    row.planVersion = request.planVersion ∧ row.actionId = request.actionId ∧
    row.decision = request.decision

instance (request : SubmitApproval) (merchantId : String) (row : ApprovalRow) :
    Decidable (request.Repeats merchantId row) :=
  inferInstanceAs (Decidable (_ ∧ _))

/-- The record that `submit_approval` asks to be stored. -/
def TaskRecord.withApproval (task : TaskRecord) (approvalId : String) : TaskRecord :=
  { task with
    status := .queued
    interaction := none
    errorCode := none
    errorMessage := none
    pendingAttempt := some 0
    pendingResumeKind := some .approval
    pendingResumeId := some approvalId }

/-- What follows in `submit_approval` for a task that is not waiting: the request
may repeat the approval on record. -/
def repeatedApproval (request : SubmitApproval) (task : TaskRecord) :
    TaskProgram (TaskRecord × String) := do
  let existing ← (TaskCall.ledger (.getApprovalForTask task.taskId)).perform
  match existing with
  | some row =>
    if request.Repeats task.merchantId row then pure (task, row.approvalId)
    else throw (.taskStateConflict "任务尚未等待审批或审批请求与已有记录不一致")
  | none => throw (.taskStateConflict "任务尚未等待审批或审批请求与已有记录不一致")

/-- What follows in `submit_approval` when the transition was lost to another request. -/
def racedApproval (request : SubmitApproval) (approvalId : String) :
    TaskProgram (TaskRecord × String) := do
  let current ← getTaskForMerchant .submitApproval request.taskId request.merchantId
  if current.status ∈ [.queued, .running, .completed, .rejected] then pure (current, approvalId)
  else throw (.taskStateConflict "审批恢复已被其他请求提交")

/-- The last event of `submit_approval`, when it repaired a failed publish. -/
def reportRequeued (task : TaskRecord) (approvalId : String) (requeued : Bool) :
    TaskProgram Unit :=
  if requeued then (TaskCall.appendEvent task.taskId (.approvalRequeued approvalId)).perform
  else pure ()

/-- What follows in `submit_approval` when the record was stored. -/
def enqueueApproval (request : SubmitApproval) (task : TaskRecord) (approvalId : String)
    (requeued : Bool) : TaskProgram (TaskRecord × String) := do
  (TaskCall.appendEvent task.taskId
    (.approvalSubmitted request.planId request.actionId request.decision)).perform
  publishOrFail .submitApproval task (task.message 0 (some .approval) (some approvalId))
    "审批已保存，但恢复任务入队失败" (some (.approvalResume approvalId)) (pure ())
  reportRequeued task approvalId requeued
  pure (task, approvalId)

def submitApproval (request : SubmitApproval) : TaskProgram (TaskRecord × String) := do
  let task ← getTaskForMerchant .submitApproval request.taskId request.merchantId
  let requeued := task.errorCode == some "QUEUE_PUBLISH_FAILED"
  if task.status ∈ [.queued, .running, .completed, .rejected] then repeatedApproval request task
  else if task.status = .failed ∧ task.errorCode ≠ some "QUEUE_PUBLISH_FAILED" then
    throw (.taskStateConflict "任务执行失败，不能通过重复审批重新执行")
  else if task.status ∉ [.awaitingApproval, .failed] then
    throw (.taskStateConflict "任务当前不等待审批")
  else
    let approvalId ← (TaskCall.ledger (.recordApproval task.taskId task.merchantId request.planId
      request.planVersion request.actionId request.decision)).perform
    let transitioned ← (TaskCall.transitionTask (task.withApproval approvalId)
      (if requeued then .failed else .awaitingApproval)).perform
    if !transitioned then racedApproval request approvalId
    else enqueueApproval request (task.withApproval approvalId) approvalId requeued

/-- What `resume_task` resumes: the pending resumption of the record, or what the
`interaction` of a failed publish remembers, or a plain retry. -/
def TaskRecord.resumption (task : TaskRecord) : Option ResumeKind × Option String :=
  if task.errorCode = some "QUEUE_PUBLISH_FAILED" ∧ task.pendingResumeKind = none then
    match task.interaction with
    | some (.inputResume productId) => (some .input, some productId)
    | some (.approvalResume approvalId) => (some .approval, some approvalId)
    | some (.retryResume resumeId) => (some .retry, some resumeId)
    | _ => (none, none)
  else if task.pendingResumeKind = none then (some .retry, some task.taskId)
  else (task.pendingResumeKind, task.pendingResumeId)

def TaskRecord.resumeAttempt (task : TaskRecord) : ℤ :=
  if task.errorCode = some "QUEUE_PUBLISH_FAILED" then task.pendingAttempt.getD 0 else 0

/-- The record that `resume_task` stores. -/
def TaskRecord.resumed (task : TaskRecord) : TaskRecord :=
  { task with
    status := .queued
    result := none
    errorCode := none
    errorMessage := none
    interaction := none
    pendingAttempt := some task.resumeAttempt
    pendingResumeKind := task.resumption.1
    pendingResumeId := task.resumption.2 }

/-- The `interaction` that remembers what to resume. -/
def resumeInteraction (resumeKind : Option ResumeKind) (resumeId : Option String) :
    Option Interaction :=
  match resumeKind, resumeId with
  | some .input, some productId => if productId ≠ "" then some (.inputResume productId) else none
  | some .approval, some approvalId =>
      if approvalId ≠ "" then some (.approvalResume approvalId) else none
  | some .retry, some resumeId => if resumeId ≠ "" then some (.retryResume resumeId) else none
  | _, _ => none

/-- The error codes of failures that are not to be repeated. -/
def unresumableCodes : List (Option String) :=
  [some "AGENT_LOOP_DETECTED", some "MODEL_REQUEST_REJECTED", some "MODEL_EMPTY_RESPONSE",
    some "MODEL_INVALID_TOOL_ARGUMENTS"]

/-- A task that claims to run without a worker that holds its lease. -/
def staleRunning (task : TaskRecord) : TaskProgram Bool :=
  if task.status = .running then do
    let leased ← (TaskCall.hasTaskLease task.taskId).perform
    pure (!leased)
  else pure false

/-- What follows in `resume_task` when the record read may be resumed. -/
def enqueueResumed (original : TaskRecord) : TaskProgram TaskRecord := do
  let task := original.resumed
  (TaskCall.saveTask .resumeTask task).perform
  (TaskCall.appendEvent task.taskId (.resumed task.sessionId)).perform
  publishOrFail .resumeTask task
    (task.message original.resumeAttempt original.resumption.1 original.resumption.2)
    "续跑任务入队失败"
    ((resumeInteraction original.resumption.1 original.resumption.2).or original.interaction)
    (pure ())
  pure task

def resumeTask (taskId merchantId : String) : TaskProgram TaskRecord := do
  let original ← getTaskForMerchant .resumeTask taskId merchantId
  if original.errorCode ∈ unresumableCodes then throw (.taskNotResumable taskId)
  else
    let stale ← staleRunning original
    if original.status ≠ .failed ∧ !stale then throw (.taskNotResumable taskId)
    else enqueueResumed original

end CommerceAgent
