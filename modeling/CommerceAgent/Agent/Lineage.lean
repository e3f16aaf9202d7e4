import CommerceAgent.Agent.Graph
import CommerceAgent.Effects.Recording
import CommerceAgent.Tasks.Outline
import CommerceAgent.Tasks.Steps

/-!
# What a graph thread can reach

`AgentSettings.Returns` says, node by node, what the node can return, given what its
calls were answered; it is the one place where the nodes are taken apart. `Reach` is
the set of the checkpoints that a thread reaches by any number of runs, resumed,
retried and interrupted in any way, and `Permitted` says which calls a run makes at
which of them.

The result is `graph_run`: in every run of the task system under the orchestrator of
an agent, every stored checkpoint is in reach and every call is permitted.
-/

namespace CommerceAgent

open Effects

abbrev TaskRecording := Record Exn TaskCall TaskCall.Reply

/-- The call was answered with this value. -/
def Replied (H : Set TaskExchange) (c : TaskCall) (b : c.Reply) : Prop :=
  (⟨c, .ok b⟩ : TaskExchange) ∈ H

theorem Replied.mono {H H' : Set TaskExchange} {c : TaskCall} {b : c.Reply} (h : Replied H c b)
    (hH : H ⊆ H') : Replied H' c b := hH h

namespace AgentSettings

variable (agent : AgentSettings) (H : Set TaskExchange)

/-- The tools node may execute the call in this state. -/
structure Executable (state : AgentState) (call : ToolCall) : Prop where
  registered : call.name ∈ agent.toolNames
  inScope : ∃ productId, requireProductId state = .ok productId ∧
    checkScope state productId call = .ok ()

/-- The message answers the call of a tool that was executed. -/
def Answers (state : AgentState) (call : ToolCall) (message : Message) : Prop :=
  agent.Executable state call ∧ ∃ result, Replied H (.executeTool state.taskId call) result ∧
    message = .tool call.callId call.name result

/-- The plan that a new plan for the task is. -/
def newPlan (state : AgentState) (productId : String) (patch : ProductPatch)
    (description : String) (version : ℕ) : PlanContent where
  taskId := state.taskId
  merchantId := state.merchantId
  productId
  planVersion := 1
  actionId := "update_description"
  field := patch.field
  beforeValue := description
  afterValue := patch.newValue
  productVersion := version
  reason := patch.reason

/-- `create_plan` returned the plan. -/
def Created (state : AgentState) (productId : String) (patch : ProductPatch)
    (plan : ActionPlan) : Prop :=
  Replied H (.graph state.taskId (.selectPlanOfTask state.taskId)) (some plan) ∨
    ∃ description version, Replied H
      (.graph state.taskId (.insertPlan (newPlan state productId patch description version))) plan

/-- What a node can return. -/
inductive Returns (state : AgentState) : GraphNode → NodeResult → Prop
  | given (h : truthy state.productId = true) :
      Returns state .scope (.update (state.scoped (state.productId.getD "")))
  | resolved {candidate : ProductSummary} (h : truthy state.productId = false)
      (hreplied : Replied H (.resolveProduct state.merchantId state.prompt) [candidate]) :
      Returns state .scope (.update (state.scoped candidate.productId))
  | asked {candidates : List ProductSummary} (h : truthy state.productId = false)
      (hreplied : Replied H (.resolveProduct state.merchantId state.prompt) candidates) :
      Returns state .scope (.interrupt (.inputRequired candidates))
  | confirmed {productId : String} {items : List ProductSummary}
      (h : truthy state.productId = false)
      (hreplied : Replied H (.resolveProduct state.merchantId productId) items)
      (hmem : ∃ item ∈ items, item.productId = productId) :
      Returns state .scope (.update (state.scoped productId))
  | measured {productId : String} {metrics : Metrics}
      (hproduct : requireProductId state = .ok productId)
      (hreplied : Replied H (.getMetrics state.merchantId productId) metrics) :
      Returns state .metrics (.update (state.measured productId metrics))
  | turned {prompt : String} {turn : AssistantTurn} {diagnosis : Option Submission}
      (hiteration : state.iteration < agent.maxIterations)
      (hreplied : Replied H (.complete state.messages prompt) turn)
      (hread : agent.readTurn state turn = .ok diagnosis) :
      Returns state .model (.update (agent.turned state turn diagnosis))
  | answered {lastMessage : Message} {messages : List Message}
      (hlast : state.messages.getLast? = some lastMessage)
      (hanswers : List.Forall₂ (agent.Answers H state) lastMessage.toolCalls messages) :
      Returns state .tools (.update (state.answered messages))
  | reflected {errors : List String} (herrors : agent.validateDiagnosis state = .ok errors)
      (hne : errors ≠ []) (hcount : state.reflectionCount < agent.maxReflections) :
      Returns state .validate (.update (state.reflected errors))
  | accepted (herrors : agent.validateDiagnosis state = .ok []) :
      Returns state .validate (.update state.accepted)
  | concluded {diagnosis : Diagnosis} {output : String}
      (hdiagnosis : state.diagnosis = some (.ok diagnosis))
      (hpatch : diagnosis.proposedPatch = none) :
      Returns state .plan (.update (state.concluded output))
  | planned {diagnosis : Diagnosis} {patch : ProductPatch} {productId output : String}
      {plan : ActionPlan} (hdiagnosis : state.diagnosis = some (.ok diagnosis))
      (hpatch : diagnosis.proposedPatch = some patch)
      (hproduct : requireProductId state = .ok productId)
      (hcreated : Created H state productId patch plan) :
      Returns state .plan (.update (state.planned output plan))
  | shown {interaction : Interaction} (h : state.interaction = some interaction) :
      Returns state .approval (.interrupt interaction)
  | rejected {approvalId note : String} {approval : ApprovalRow} (h : state.interaction ≠ none)
      (hreplied : Replied H (.graph state.taskId (.getApproval approvalId)) (some approval))
      (hdecision : approval.decision = .reject) :
      Returns state .approval (.update (state.decided .rejected note))
  | applied {approvalId note : String} {approval : ApprovalRow} {receipt : ActionReceipt}
      (h : state.interaction ≠ none)
      (hreplied : Replied H (.graph state.taskId (.getApproval approvalId)) (some approval))
      (hdecision : approval.decision ≠ .reject)
      (hreceipt : Replied H (.graph state.taskId (.applyApprovedPlan approvalId)) receipt) :
      Returns state .approval (.update (state.decided .completed note))

/-- The checkpoints that the runs of a graph thread reach. -/
inductive Reach (threadId : String) : Checkpoint → Prop
  | initial {task : TaskRecord} (h : task.taskId = threadId) :
      Reach threadId task.initialCheckpoint
  | step {checkpoint : Checkpoint} {node : GraphNode} {result : NodeResult}
      (h : Reach threadId checkpoint) (hnext : checkpoint.next = some node)
      (hresult : agent.Returns H checkpoint.state node result) :
      Reach threadId (checkpoint.commit node result)

variable {agent H} {H' : Set TaskExchange}

theorem Returns.mono (hH : H ⊆ H') {state : AgentState} {node : GraphNode} {result : NodeResult}
    (h : agent.Returns H state node result) : agent.Returns H' state node result := by
  cases h with
  | given h => exact .given h
  | resolved h hreplied => exact .resolved h (hreplied.mono hH)
  | asked h hreplied => exact .asked h (hreplied.mono hH)
  | confirmed h hreplied hmem => exact .confirmed h (hreplied.mono hH) hmem
  | measured hproduct hreplied => exact .measured hproduct (hreplied.mono hH)
  | turned hiteration hreplied hread => exact .turned hiteration (hreplied.mono hH) hread
  | answered hlast hanswers =>
      apply Returns.answered hlast
      apply hanswers.imp
      intro call message hanswer
      obtain ⟨hcall, result, hreplied, hmessage⟩ := hanswer
      exact ⟨hcall, result, hreplied.mono hH, hmessage⟩
  | reflected herrors hne hcount => exact .reflected herrors hne hcount
  | accepted herrors => exact .accepted herrors
  | concluded hdiagnosis hpatch => exact .concluded hdiagnosis hpatch
  | planned hdiagnosis hpatch hproduct hcreated =>
      apply Returns.planned hdiagnosis hpatch hproduct
      exact hcreated.imp (fun h => h.mono hH) fun ⟨description, version, h⟩ =>
        ⟨description, version, h.mono hH⟩
  | shown h => exact .shown h
  | rejected h hreplied hdecision => exact .rejected h (hreplied.mono hH) hdecision
  | applied h hreplied hdecision hreceipt =>
      exact .applied h (hreplied.mono hH) hdecision (hreceipt.mono hH)

theorem Reach.mono (hH : H ⊆ H') {threadId : String} {checkpoint : Checkpoint}
    (h : agent.Reach H threadId checkpoint) : agent.Reach H' threadId checkpoint := by
  induction h with
  | initial h => exact .initial h
  | step _ hnext hresult ih => exact .step ih hnext (hresult.mono hH)

/-- A node returns no other task, session or merchant. -/
theorem Returns.taskId {state : AgentState} {node : GraphNode} {next : AgentState}
    (h : agent.Returns H state node (.update next)) : next.taskId = state.taskId := by
  cases h <;> rfl

/-- The thread of a checkpoint is the task of its state. -/
theorem Reach.taskId {threadId : String} {checkpoint : Checkpoint}
    (h : agent.Reach H threadId checkpoint) : checkpoint.state.taskId = threadId := by
  induction h with
  | initial h => exact h
  | @step checkpoint node result _ _ hresult ih =>
      cases result with
      | update next => exact hresult.taskId.trans ih
      | interrupt interaction => exact ih

end AgentSettings

end CommerceAgent
