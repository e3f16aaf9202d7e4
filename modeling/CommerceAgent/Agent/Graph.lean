import CommerceAgent.Agent.Diagnosis
import CommerceAgent.Effects.Parallel
import CommerceAgent.Tasks.WorkerService

/-!
# The agent graph

The nodes of the graph as programs, its edges, and `AgentOrchestrator.run` over a
checkpointer. A node returns an updated state or an interrupt. What LangGraph does
is `runFrom`: it starts the next node, commits what the node returned before the
next one starts, and stops at the end of the graph, at an interrupt, or at the
recursion limit. A resumed node runs from its beginning, with the resume value as the
answer of its `interrupt`; a node that raises commits nothing.
-/

namespace CommerceAgent

open Effects

namespace Exn

def productNotFound (message : String) : Exn := .appError "PRODUCT_NOT_FOUND" message 404

def productScopeMissing : Exn := .appError "PRODUCT_SCOPE_MISSING" "商品范围尚未确定" 422

def resumeValueRequired : Exn := .appError "RESUME_VALUE_REQUIRED" "恢复任务缺少恢复值" 422

/-- What LangGraph raises at the recursion limit. -/
def graphRecursionError : Exn := .other "GraphRecursionError"

end Exn

/-- What a node hands to LangGraph. -/
inductive NodeResult where
  | update (state : AgentState)
  | interrupt (interaction : Interaction)

abbrev NodeProgram := TaskProgram NodeResult

def requireProductId (state : AgentState) : Except Exn String :=
  match state.productId with
  | some productId =>
      if productId = "" then .error .productScopeMissing else .ok productId
  | none => .error .productScopeMissing

/-- The state after the scope node. -/
def AgentState.scoped (state : AgentState) (productId : String) : AgentState :=
  { state with productId := some productId }

def reportScope (state : AgentState) (productId : String) : NodeProgram := do
  (TaskCall.appendEvent state.taskId (.scopeResolved state.merchantId productId)).perform
  pure (.update (state.scoped productId))

/-- The scope node after its `interrupt` has returned. -/
def confirmScope (state : AgentState) (decision : ResumeValue) : NodeProgram := do
  if decision.resumeKind ≠ .input then
    throw (.appError "INVALID_INPUT_RESUME" "商品选择恢复参数无效" 422)
  else do
    let items ← (TaskCall.resolveProduct state.merchantId decision.resumeId).perform
    if items.all fun item => item.productId != decision.resumeId then
      throw (.productNotFound "所选商品不存在")
    else reportScope state decision.resumeId

def scopeNode (state : AgentState) (resume : Option ResumeValue) : NodeProgram :=
  if truthy state.productId then reportScope state (state.productId.getD "")
  else do
    let candidates ← (TaskCall.resolveProduct state.merchantId state.prompt).perform
    match candidates with
    | [candidate] => reportScope state candidate.productId
    | _ =>
      match resume with
      | none => pure (.interrupt (.inputRequired candidates))
      | some decision => confirmScope state decision

/-- The state after the metrics node. -/
def AgentState.measured (state : AgentState) (productId : String) (metrics : Metrics) :
    AgentState :=
  { state with
    metrics := some metrics
    messages := state.messages ++ [.context state.merchantId productId metrics] }

def metricsNode (state : AgentState) : NodeProgram := do
  let productId ← .ofExcept (requireProductId state)
  let metrics ← (TaskCall.getMetrics state.merchantId productId).perform
  (TaskCall.appendEvent state.taskId
    (.metricsComputed metrics.snapshotId metrics.metricVersion)).perform
  pure (.update (state.measured productId metrics))

def submitName : String := "submit_diagnosis"

namespace AgentSettings

variable (agent : AgentSettings)

def systemPrompt (state : AgentState) : Except Exn String := do
  let productId ← requireProductId state
  pure ("你是电商经营诊断 Agent。服务端已经固定商家、商品和指标口径。" ++
    "只使用读工具查证库存、价格、评论、竞品和知识规则；不得请求或执行写操作。" ++
    "区分事实、假设和缺口，不把算术贡献说成因果。" ++
    "信息足够时必须单独调用 submit_diagnosis，不能输出自由文本作为最终答案。" ++
    "当前 Prompt 版本 " ++ agent.promptVersion ++ "，Skill 版本 " ++ agent.skillVersion ++ "。" ++
    "当前商家 " ++ state.merchantId ++ "，商品 " ++ productId ++ "。")

/-- The new `repeated_steps` and `last_signature`. -/
def detectRepetition (state : AgentState) (turn : AssistantTurn) : ℕ × String :=
  let calls := turn.toolCalls.filter fun call => call.name != submitName
  if calls.isEmpty then (0, "")
  else
    let signature := agent.signature (calls.map fun call => (call.name, call.arguments))
    (if signature = state.lastSignature then state.repeatedSteps + 1 else 1, signature)

/-- The checks of the model node on a turn, and the diagnosis the turn submits. -/
def readTurn (state : AgentState) (turn : AssistantTurn) : Except Exn (Option Submission) :=
  if agent.maxToolCallsPerTurn < turn.toolCalls.length then
    .error (.agentLoopDetected ("单轮工具调用数超过上限 " ++ toString agent.maxToolCallsPerTurn))
  else if agent.maxRepeatedSteps ≤ (agent.detectRepetition state turn).1 then
    .error (.agentLoopDetected
      ("连续 " ++ toString agent.maxRepeatedSteps ++ " 次产生相同工具调用，已终止"))
  else
    match turn.toolCalls.filter fun call => call.name == submitName with
    | call :: rest =>
      if rest.length + 1 ≠ 1 ∨ turn.toolCalls.length ≠ 1 then
        .error (.appError "INVALID_DIAGNOSIS_SUBMISSION" "submit_diagnosis 必须单独调用一次" 422)
      else .ok (some (agent.submission call.arguments))
    | [] =>
      if turn.toolCalls.isEmpty then .ok (some (.error "模型未调用 submit_diagnosis"))
      else .ok none

/-- The state after the model node. -/
def turned (state : AgentState) (turn : AssistantTurn) (diagnosis : Option Submission) :
    AgentState :=
  { state with
    messages := state.messages ++ [.assistant turn.content turn.toolCalls]
    diagnosis
    iteration := state.iteration + 1
    repeatedSteps := (agent.detectRepetition state turn).1
    lastSignature := (agent.detectRepetition state turn).2 }

def modelNode (state : AgentState) : NodeProgram :=
  if agent.maxIterations ≤ state.iteration then
    throw (.agentLoopDetected ("Agent 超过最大迭代次数 " ++ toString agent.maxIterations))
  else do
    let systemPrompt ← .ofExcept (agent.systemPrompt state)
    let turn ← (TaskCall.complete state.messages systemPrompt).perform
    let diagnosis ← .ofExcept (agent.readTurn state turn)
    (TaskCall.appendEvent state.taskId (.agentModel (state.iteration + 1) state.reflectionCount
      agent.promptVersion agent.skillVersion turn.inputTokens turn.outputTokens turn.finishReason
      (turn.toolCalls.map ToolCall.name))).perform
    pure (.update (agent.turned state turn diagnosis))

end AgentSettings

/-- The state after the tools node. -/
def AgentState.answered (state : AgentState) (messages : List Message) : AgentState :=
  { state with messages := state.messages ++ messages }

/-- The tools whose arguments name a merchant and a product. -/
def scopedTools : List String := ["get_metrics", "get_product_context"]

/-- The argument is this string. -/
def ToolCall.carries (call : ToolCall) (key value : String) : Prop :=
  (call.arguments.get? key).bind Json.str? = some value

instance ToolCall.decidableCarries (call : ToolCall) (key value : String) :
    Decidable (call.carries key value) :=
  inferInstanceAs (Decidable (_ = _))

/-- The checks of `_execute_tool` on the scope of a call. -/
def checkScope (state : AgentState) (productId : String) (call : ToolCall) : Except Exn Unit :=
  if call.name ∈ scopedTools then
    if ¬ call.carries "merchant_id" state.merchantId then
      .error (.appError "MERCHANT_FORBIDDEN" "工具参数不能覆盖认证商家" 403)
    else if ¬ call.carries "product_id" productId then
      .error (.appError "PRODUCT_SCOPE_FORBIDDEN" "工具参数不能越过当前商品范围" 403)
    else .ok ()
  else .ok ()

/-- A tool that raises is reported, unless it was cancelled. -/
def reportToolFailed {α : Type} (state : AgentState) (call : ToolCall) (exc : Exn) :
    TaskProgram α :=
  if exc = .cancelled then throw exc
  else do
    (TaskCall.appendEvent state.taskId (.toolFailed call.name call.callId exc)).perform
    throw exc

namespace AgentSettings

variable (agent : AgentSettings)

def executeTool (state : AgentState) (call : ToolCall) : TaskProgram Message :=
  if call.name ∉ agent.toolNames then
    throw (.appError "TOOL_NOT_FOUND" ("未知读工具：" ++ call.name) 422)
  else do
    let expectedProductId ← .ofExcept (requireProductId state)
    let _ ← .ofExcept (checkScope state expectedProductId call)
    (TaskCall.appendEvent state.taskId (.toolStarted call.name call.callId)).perform
    let result ← (TaskCall.executeTool state.taskId call).perform.handle pure
      (reportToolFailed state call)
    (TaskCall.appendEvent state.taskId (.toolCompleted call.name call.callId
      (result.get? "evidence_ids") (result.get? "snapshot_id"))).perform
    pure (.tool call.callId call.name result)

def toolNode (state : AgentState) : NodeProgram :=
  match state.messages.getLast? with
  | none => throw (.other "IndexError")
  | some lastMessage => do
    let messages ← Program.gather TaskCall.schedule.perform
      (lastMessage.toolCalls.map (agent.executeTool state))
    pure (.update (state.answered messages))

end AgentSettings

/-- The `submit_diagnosis` call that the last message makes. -/
def diagnosisToolCallId (state : AgentState) : Option String :=
  state.messages.getLast?.bind fun lastMessage =>
    (lastMessage.toolCalls.find? fun call => call.name == submitName).map ToolCall.callId

/-- The answer to a rejected `submit_diagnosis`. -/
def rejection (errors : List String) : JsonObject :=
  [("accepted", .bool false), ("validation_errors", .arr (errors.map .str))]

def correctionMessages (state : AgentState) (errors : List String) : List Message :=
  ((diagnosisToolCallId state).map fun toolCallId =>
    Message.tool toolCallId submitName (rejection errors)).toList ++ [.correction errors]

/-- The state after a diagnosis that was not accepted. -/
def AgentState.reflected (state : AgentState) (errors : List String) : AgentState :=
  { state with
    diagnosis := none
    validationErrors := errors
    reflectionCount := state.reflectionCount + 1
    messages := state.messages ++ correctionMessages state errors }

/-- The state after a diagnosis that was accepted. -/
def AgentState.accepted (state : AgentState) : AgentState := { state with validationErrors := [] }

/-- The state at the end of a run without a plan. -/
def AgentState.concluded (state : AgentState) (output : String) : AgentState :=
  { state with
    finalStatus := some .completed
    finalOutput := some output
    interaction := none }

/-- The interaction that shows a plan. -/
def ActionPlan.interaction (plan : ActionPlan) : Interaction :=
  .approvalRequired plan.planId plan.planVersion plan.actionId plan.productId plan.productVersion
    plan.beforeValue plan.afterValue plan.reason

/-- The state after the plan node with a plan. -/
def AgentState.planned (state : AgentState) (output : String) (plan : ActionPlan) : AgentState :=
  { state with
    finalOutput := some output
    interaction := some plan.interaction }

/-- The state after a decision on the plan. -/
def AgentState.decided (state : AgentState) (status : RunStatus) (note : String) : AgentState :=
  { state with
    finalStatus := some status
    finalOutput := some (state.finalOutput.getD "" ++ note) }

/-- The note of a plan that was carried out. -/
def ActionReceipt.note (receipt : ActionReceipt) : String :=
  "\n\n执行结果：商品详情已按批准计划更新。" ++
    " 回执 " ++ receipt.receiptId ++ "，商品版本 " ++ toString receipt.productVersion ++ "。"

def approvalNode (state : AgentState) (resume : Option ResumeValue) : NodeProgram :=
  match state.interaction with
  | none => throw (.appError "APPROVAL_STATE_MISSING" "批准上下文丢失" 500)
  | some interaction =>
    match resume with
    | none => pure (.interrupt interaction)
    | some decision =>
      if decision.resumeKind ≠ .approval then
        throw (.appError "INVALID_APPROVAL_RESUME" "审批恢复参数无效" 422)
      else do
        let approval ← (TaskCall.graph state.taskId (.getApproval decision.resumeId)).perform
        match approval with
        | none => throw (.appError "APPROVAL_NOT_FOUND" "审批记录不存在" 404)
        | some approval =>
          if approval.decision = .reject then do
            (TaskCall.appendEvent state.taskId (.approvalRejected approval.planId)).perform
            pure (.update (state.decided .rejected "\n\n商家已拒绝执行商品修改。"))
          else do
            let receipt ←
              (TaskCall.graph state.taskId (.applyApprovedPlan decision.resumeId)).perform
            (TaskCall.appendEvent state.taskId (.actionApplied approval.planId approval.actionId
              receipt.receiptId receipt.productVersion (!receipt.applied))).perform
            pure (.update (state.decided .completed receipt.note))

namespace AgentSettings

variable (agent : AgentSettings)

def validationNode (state : AgentState) : NodeProgram := do
  let errors ← .ofExcept (agent.validateDiagnosis state)
  if errors ≠ [] ∧ state.reflectionCount < agent.maxReflections then do
    (TaskCall.appendEvent state.taskId (.reflection (state.reflectionCount + 1) errors)).perform
    pure (.update (state.reflected errors))
  else if errors ≠ [] then
    throw (.appError "DIAGNOSIS_VALIDATION_FAILED"
      ("诊断在一次修正后仍未通过：" ++ "；".intercalate errors) 422)
  else do
    (TaskCall.appendEvent state.taskId (.diagnosisValidated state.reflectionCount)).perform
    pure (.update state.accepted)

def planNode (state : AgentState) : NodeProgram :=
  match state.diagnosis with
  | some (.ok diagnosis) => do
    let result ← .ofExcept (agent.renderDiagnosis state diagnosis)
    match diagnosis.proposedPatch with
    | none => pure (.update (state.concluded result))
    | some patch => do
      let productId ← .ofExcept (requireProductId state)
      let plan ← (createPlanSync state.taskId state.merchantId productId patch).lift
        (TaskCall.graph state.taskId)
      pure (.update (state.planned result plan))
  | _ => throw (.valueError "Diagnosis")

/-- The program of a node. -/
def node : GraphNode → AgentState → Option ResumeValue → NodeProgram
  | .scope, state, resume => scopeNode state resume
  | .metrics, state, _ => metricsNode state
  | .model, state, _ => agent.modelNode state
  | .tools, state, _ => agent.toolNode state
  | .validate, state, _ => agent.validationNode state
  | .plan, state, _ => agent.planNode state
  | .approval, state, resume => approvalNode state resume

end AgentSettings

def routeAfterModel (state : AgentState) : GraphNode :=
  if state.diagnosis.isSome then .validate else .tools

def routeAfterValidation (state : AgentState) : GraphNode :=
  if state.validationErrors.isEmpty then .plan else .model

def routeAfterPlan (state : AgentState) : Option GraphNode :=
  if state.interaction.isSome then some .approval else none

/-- The edges of `_build_graph`; `none` is `END`. -/
def nextNode : GraphNode → AgentState → Option GraphNode
  | .scope, _ => some .metrics
  | .metrics, _ => some .model
  | .model, state => some (routeAfterModel state)
  | .tools, _ => some .model
  | .validate, state => some (routeAfterValidation state)
  | .plan, state => routeAfterPlan state
  | .approval, _ => none

def TaskRecord.initialState (task : TaskRecord) : AgentState where
  taskId := task.taskId
  sessionId := task.sessionId
  merchantId := task.merchantId
  productId := task.productId
  prompt := task.prompt
  messages := [.prompt task.prompt]

/-- The checkpoint of the input of a thread. -/
def TaskRecord.initialCheckpoint (task : TaskRecord) : Checkpoint :=
  ⟨task.initialState, some .scope, none⟩

/-- The checkpoint after a node has returned. -/
def Checkpoint.commit (checkpoint : Checkpoint) (node : GraphNode) : NodeResult → Checkpoint
  | .update state => ⟨state, nextNode node state, none⟩
  | .interrupt interaction => { checkpoint with interrupt := some interaction }

def resumeKindForInteraction : Interaction → ResumeKind
  | .approvalRequired .. => .approval
  | _ => .input

def interruptedOutcome (interaction : Interaction) : RunOutcome where
  status :=
    if resumeKindForInteraction interaction = .approval then .awaitingApproval else .awaitingInput
  interaction := some interaction

/-- The outcome of the result of `ainvoke`. -/
def Checkpoint.outcome (checkpoint : Checkpoint) : RunOutcome :=
  match checkpoint.interrupt with
  | some interaction => interruptedOutcome interaction
  | none =>
    { status := checkpoint.state.finalStatus.getD .completed
      result := some (checkpoint.state.finalOutput.getD "")
      interaction := checkpoint.state.interaction }

/-- `resume_kind in {"input", "approval"}`. -/
def resumesInterrupt : Option ResumeKind → Bool
  | some .input | some .approval => true
  | _ => false

/-- `resume_kind in {None, "retry", "input", "approval"}`. -/
def knownResumeKind : Option ResumeKind → Bool
  | some (.other _) => false
  | _ => true

namespace AgentSettings

variable (agent : AgentSettings)

def recursionLimit : ℕ := agent.maxIterations * 3 + 12

/-- Run the graph from a checkpoint; `resume` is for the node that runs first. -/
def runFrom (threadId : String) : ℕ → Checkpoint → Option ResumeValue → TaskProgram Checkpoint
  | 0, _, _ => throw .graphRecursionError
  | limit + 1, checkpoint, resume =>
    match checkpoint.next with
    | none => pure checkpoint
    | some node => do
      (TaskCall.enterNode threadId node).perform
      let result ← agent.node node checkpoint.state resume
      (TaskCall.putCheckpoint threadId (checkpoint.commit node result)).perform
      match result with
      | .interrupt _ => pure (checkpoint.commit node result)
      | .update _ => runFrom threadId limit (checkpoint.commit node result) none

/-- `ainvoke`, with the outcome that `run` makes of its result. -/
def invoke (limit : ℕ) (threadId : String) (checkpoint : Checkpoint)
    (resume : Option ResumeValue) : TaskProgram RunOutcome := do
  let result ← agent.runFrom threadId limit checkpoint resume
  pure result.outcome

/-- A run of a thread without a checkpoint. -/
def startThread (limit : ℕ) (task : TaskRecord) (resumeKind : Option ResumeKind) :
    TaskProgram RunOutcome :=
  if resumesInterrupt resumeKind then
    throw (.appError "CHECKPOINT_NOT_FOUND" "恢复任务缺少图检查点" 409)
  else do
    (TaskCall.putCheckpoint task.taskId task.initialCheckpoint).perform
    agent.invoke limit task.taskId task.initialCheckpoint none

/-- A run of a thread from its checkpoint. -/
def resumeThread (limit : ℕ) (threadId : String) (resumeKind : Option ResumeKind)
    (resumeId : Option String) (checkpoint : Checkpoint) : TaskProgram RunOutcome :=
  match checkpoint.interrupt with
  | some interaction =>
    if resumeKind ≠ some (resumeKindForInteraction interaction) then
      pure (interruptedOutcome interaction)
    else if !truthy resumeId then throw .resumeValueRequired
    else agent.invoke limit threadId checkpoint
      (some ⟨resumeKindForInteraction interaction, resumeId.getD ""⟩)
  | none =>
    if resumesInterrupt resumeKind && !truthy resumeId then
      throw .resumeValueRequired
    else agent.invoke limit threadId checkpoint none

/-- `AgentOrchestrator.run`, with a recursion limit. -/
def run (limit : ℕ) (task : TaskRecord) (resumeKind : Option ResumeKind)
    (resumeId : Option String) : TaskProgram RunOutcome :=
  if !knownResumeKind resumeKind then
    throw (.appError "INVALID_RESUME_KIND" "恢复任务类型无效" 422)
  else do
    let checkpoint ← (TaskCall.getCheckpoint task.taskId).perform
    match checkpoint with
    | none => agent.startThread limit task resumeKind
    | some checkpoint => agent.resumeThread limit task.taskId resumeKind resumeId checkpoint

/-- The orchestrator of the worker, under its `asyncio.timeout`, which turns the
cancellation of the run into a `TimeoutError`. -/
def orchestrator : Orchestrator := fun task resumeKind resumeId =>
  (agent.run agent.recursionLimit task resumeKind resumeId).handle pure
    fun exc => throw (if exc = .cancelled then .timeoutError else exc)

end AgentSettings

/-- An agent with the built-in tools and the product context; what libraries format is left
empty. -/
def demoAgent : AgentSettings where
  toolNames := ["search_knowledge", "get_metrics", "calculator", "get_product_context"]
  signature calls := ",".intercalate (calls.map Prod.fst)
  repr _ := ""
  schemaError _ := "Diagnosis"
  comparisonTexts _ := .ok ⟨"0", "0.00%", "0", "0"⟩

end CommerceAgent
