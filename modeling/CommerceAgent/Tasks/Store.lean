import CommerceAgent.Agent.State
import CommerceAgent.Commerce.Repository
import CommerceAgent.Effects.Machine
import Mathlib.Data.List.Infix
import Mathlib.Data.List.Sort
import Mathlib.Data.String.Basic

/-!
# The stores of the task system

`World` is what the API processes and the workers share: the task records, the
idempotency keys and the task leases in Redis, the queue in RabbitMQ, the commerce
database, and the checkpoints of the graph. `TaskCall` is what a process awaits: a
Redis command or script, a queue operation, a step of the commerce repository, a
step of the checkpointer, a turn of the model, a tool, the start of a node of the
graph, the event loop's choice between two coroutines, or a run of an orchestrator
of which nothing is known. Each of them is atomic.

A `Site` names the function of the source that makes a call, and the message it
works on. The stores ignore it.
-/

namespace CommerceAgent

open Effects Relational

/-- The events of `append_event` with what their payloads carry. -/
inductive TaskEvent where
  | queued (sessionId : String) (attempt : ℤ)
  | failed (attempt : Option ℤ) (errorCode message : String)
  | inputSubmitted (productId : String)
  | approvalSubmitted (planId actionId : String) (decision : ApprovalDecision)
  | approvalRequeued (approvalId : String)
  | resumed (sessionId : String)
  | started (attempt : ℤ)
  | approvalRequired (interaction : Interaction)
  | finished (outcome : RunOutcome) (attempt : ℤ)
  | retrying (attempt nextAttempt : ℤ) (errorCode message : String)
  | scopeResolved (merchantId productId : String)
  | metricsComputed (snapshotId metricVersion : String)
  | agentModel (iteration reflectionCount : ℕ) (promptVersion skillVersion : String)
      (inputTokens outputTokens : Option ℕ) (finishReason : Option String) (toolCalls : List String)
  | toolStarted (toolName toolCallId : String)
  | toolFailed (toolName toolCallId : String) (error : Exn)
  | toolCompleted (toolName toolCallId : String) (evidenceIds snapshotId : Option Json)
  | reflection (reflectionCount : ℕ) (errors : List String)
  | diagnosisValidated (reflectionCount : ℕ)
  | approvalRejected (planId : String)
  | actionApplied (planId actionId receiptId : String) (productVersion : ℕ) (idempotencyHit : Bool)

/-- The `event_type` strings. -/
def TaskEvent.eventType : TaskEvent → String
  | .queued .. => "task.queued"
  | .failed .. => "task.failed"
  | .inputSubmitted .. => "input.submitted"
  | .approvalSubmitted .. => "approval.submitted"
  | .approvalRequeued .. => "approval.requeued"
  | .resumed .. => "task.resumed"
  | .started .. => "task.started"
  | .approvalRequired .. => "approval.required"
  | .finished outcome _ =>
      match outcome.status with
      | .awaitingInput => "task.awaiting_input"
      | .awaitingApproval => "task.awaiting_approval"
      | .rejected => "task.rejected"
      | .completed => "task.completed"
  | .retrying .. => "task.retrying"
  | .scopeResolved .. => "graph.scope_resolved"
  | .metricsComputed .. => "graph.metrics_computed"
  | .agentModel .. => "agent.model"
  | .toolStarted .. => "tool.started"
  | .toolFailed .. => "tool.failed"
  | .toolCompleted .. => "tool.completed"
  | .reflection .. => "agent.reflection"
  | .diagnosisValidated _ => "graph.diagnosis_validated"
  | .approvalRejected _ => "approval.rejected"
  | .actionApplied .. => "action.applied"

/-- Where in the source a call stands. -/
inductive Site where
  | createTask
  | submitInput
  | submitApproval
  | resumeTask
  | handleMessage (payload : QueueMessage)
  | markRunning (payload : QueueMessage)
  | outcome (payload : QueueMessage)
  | handleFailure (payload : QueueMessage)
  deriving DecidableEq, Repr

/-- The string operations that a product search uses. -/
structure TextOps where
  strip : String → String
  lower : String → String

/-- The configuration of a deployment. -/
structure Settings where
  text : TextOps
  catalog : Catalog
  /-- `int(task_timeout_seconds)`. -/
  taskTimeoutSeconds : ℕ := 180
  maxTaskAttempts : ℤ := 4

/-- What the processes share. -/
structure World where
  records : String → Option TaskRecord
  idempotencyKeys : String → Option String
  leases : String → Option ℕ
  events : List (String × TaskEvent)
  /-- The messages queued or waiting in a retry queue. -/
  inFlight : List QueueMessage
  /-- The message delivered to a handler and not settled. -/
  unacked : ℕ → Option QueueMessage
  deadLetters : List QueueMessage
  ledger : Ledger
  checkpoints : String → Option Checkpoint

/-- Nothing created yet. -/
def World.fresh : World where
  records _ := none
  idempotencyKeys _ := none
  leases _ := none
  events := []
  inFlight := []
  unacked _ := none
  deadLetters := []
  ledger := .fresh
  checkpoints _ := none

inductive TaskCall where
  | setNew (task : TaskRecord)
  | createScript (task : TaskRecord) (idempotencyKey : String)
  | deleteKey (idempotencyKey : String)
  | getTask (site : Site) (taskId : String)
  | saveTask (site : Site) (task : TaskRecord)
  | transitionTask (task : TaskRecord) (expectedStatus : TaskStatus)
  | acquireTaskLease (taskId : String) (ttlSeconds : ℕ)
  | releaseTaskLease (taskId : String)
  | hasTaskLease (taskId : String)
  | appendEvent (taskId : String) (event : TaskEvent)
  | publish (payload : QueueMessage)
  | publishRetry (payload : QueueMessage)
  | ack
  | reject (requeue : Bool)
  | resolveProduct (merchantId query : String)
  | ledger (c : LedgerCall)
  | run (task : TaskRecord) (resumeKind : Option ResumeKind) (resumeId : Option String)
  | graph (threadId : String) (c : LedgerCall)
  | getCheckpoint (threadId : String)
  | putCheckpoint (threadId : String) (checkpoint : Checkpoint)
  | complete (messages : List Message) (systemPrompt : String)
  | getMetrics (merchantId productId : String)
  | executeTool (threadId : String) (call : ToolCall)
  | enterNode (threadId : String) (node : GraphNode)
  | schedule

abbrev TaskCall.Reply : TaskCall → Type
  | .setNew _ => Bool
  | .createScript .. => String × Bool
  | .deleteKey _ => Unit
  | .getTask .. => Option TaskRecord
  | .saveTask .. => Unit
  | .transitionTask .. => Bool
  | .acquireTaskLease .. => Bool
  | .releaseTaskLease _ => Unit
  | .hasTaskLease _ => Bool
  | .appendEvent .. => Unit
  | .publish _ => Unit
  | .publishRetry _ => Unit
  | .ack => Unit
  | .reject _ => Unit
  | .resolveProduct .. => List ProductSummary
  | .ledger c => c.Reply
  | .run .. => RunOutcome
  | .graph _ c => c.Reply
  | .getCheckpoint _ => Option Checkpoint
  | .putCheckpoint .. => Unit
  | .complete .. => AssistantTurn
  | .getMetrics .. => Metrics
  | .executeTool .. => JsonObject
  | .enterNode .. => Unit
  | .schedule => Bool

abbrev TaskProgram (α : Type) := Program Exn TaskCall TaskCall.Reply α

abbrev TaskCall.perform (c : TaskCall) : TaskProgram c.Reply := Program.perform c

/-- What the environment chooses about a call: the token it draws, how it ends, what a
run of the orchestrator returns, what the model answers, what is read from the data
that the world does not keep, and which coroutine goes first. -/
structure TaskChoice where
  token : String := ""
  ending : Ending Exn := .done
  outcome : RunOutcome := { status := .completed }
  turn : AssistantTurn := {}
  metrics : Metrics := ⟨"", "paid_orders_funnel_v1", [], .null⟩
  result : JsonObject := []
  first : Bool := true

namespace World

/-- `SET` the record of a task. -/
def store (w : World) (task : TaskRecord) : World :=
  { w with records := Function.update w.records task.taskId (some task) }

/-- Forget the message a handler was working on. -/
def settle (w : World) (i : ℕ) : World :=
  { w with unacked := Function.update w.unacked i none }

/-- Put a message on a queue. -/
def enqueue (w : World) (payload : QueueMessage) : World :=
  { w with inFlight := w.inFlight ++ [payload] }

/-- Return the message of a handler to its queue. -/
def requeue (w : World) (i : ℕ) : World :=
  match w.unacked i with
  | some payload => (w.settle i).enqueue payload
  | none => w

/-- Move the message of a handler to the dead-letter queue. -/
def deadLetter (w : World) (i : ℕ) : World :=
  match w.unacked i with
  | some payload => { w.settle i with deadLetters := w.deadLetters ++ [payload] }
  | none => w

/-- Take a message from its queue and deliver it to a handler. -/
def deliver (w : World) (i : ℕ) (payload : QueueMessage) : World :=
  { w with
    inFlight := w.inFlight.erase payload
    unacked := Function.update w.unacked i (some payload) }

end World

/-- `sub in s`. -/
def occursIn (sub s : String) : Bool := decide (sub.toList <:+: s.toList)

def ProductRow.summary (row : ProductRow) : ProductSummary :=
  ⟨row.productId, row.name, row.version⟩

def resolveProductSync (text : TextOps) (merchantId query : String) (db : Ledger) :
    Except Exn (List ProductSummary) :=
  let rows := (db.products.rows.filter fun row => row.merchantId == merchantId).mergeSort
    fun p q => decide (p.productId ≤ q.productId)
  if rows = [] then
    .error (.appError "MERCHANT_NOT_FOUND" "商家不存在或无可访问商品" 404)
  else
    let normalized := text.lower (text.strip query)
    let hits := rows.filter fun row => normalized != "" &&
      (occursIn normalized (text.lower row.productId) || occursIn normalized (text.lower row.name))
    .ok ((if hits = [] then rows else hits).map ProductRow.summary)

/-- `_get_metrics_sync`, with what the metric windows say given. -/
def getMetricsSync (merchantId productId : String) (metrics : Metrics) (db : Ledger) :
    Except Exn Metrics :=
  match selectProduct merchantId productId db with
  | none => .error (.appError "PRODUCT_NOT_FOUND" "商品不存在或不属于当前商家" 404)
  | some _ => .ok metrics

/-- The step of the commerce repository that a call makes. -/
@[simp] def TaskCall.ledgerCall : TaskCall → Option LedgerCall
  | .ledger c | .graph _ c => some c
  | _ => none

/-- Run a call of the process `i`. -/
def TaskCall.execute (settings : Settings) (i : ℕ) : (c : TaskCall) → TaskChoice → World →
    Except Exn (c.Reply × World)
  | .setNew task, _, w =>
      match w.records task.taskId with
      | some _ => .ok (false, w)
      | none => .ok (true, w.store task)
  | .createScript task idempotencyKey, _, w =>
      match w.idempotencyKeys idempotencyKey with
      | some existing => .ok ((existing, false), w)
      | none =>
        match w.records task.taskId with
        | some _ => .ok (("", false), w)
        | none => .ok ((task.taskId, true),
            { w.store task with
              idempotencyKeys :=
                Function.update w.idempotencyKeys idempotencyKey (some task.taskId) })
  | .deleteKey idempotencyKey, _, w =>
      .ok ((), { w with
        idempotencyKeys := Function.update w.idempotencyKeys idempotencyKey none })
  | .getTask _ taskId, _, w => .ok (w.records taskId, w)
  | .saveTask _ task, _, w => .ok ((), w.store task)
  | .transitionTask task expectedStatus, _, w =>
      match w.records task.taskId with
      | none => .ok (false, w)
      | some current =>
        if current.status ≠ expectedStatus then .ok (false, w) else .ok (true, w.store task)
  | .acquireTaskLease taskId _, _, w =>
      match w.leases taskId with
      | some _ => .ok (false, w)
      | none => .ok (true, { w with leases := Function.update w.leases taskId (some i) })
  | .releaseTaskLease taskId, _, w =>
      if w.leases taskId = some i then
        .ok ((), { w with leases := Function.update w.leases taskId none })
      else .ok ((), w)
  | .hasTaskLease taskId, _, w => .ok ((w.leases taskId).isSome, w)
  | .appendEvent taskId event, _, w => .ok ((), { w with events := w.events ++ [(taskId, event)] })
  | .publish payload, _, w => .ok ((), w.enqueue payload)
  | .publishRetry payload, _, w => .ok ((), w.enqueue payload)
  | .ack, _, w => .ok ((), w.settle i)
  | .reject requeue, _, w => .ok ((), if requeue then w.requeue i else w.deadLetter i)
  | .resolveProduct merchantId query, _, w =>
      (resolveProductSync settings.text merchantId query w.ledger).map fun items => (items, w)
  | .ledger c, ch, w => (c.execute ch.token w.ledger).map fun r => (r.1, { w with ledger := r.2 })
  | .run .., ch, w => .ok (ch.outcome, w)
  | .graph _ c, ch, w => (c.execute ch.token w.ledger).map fun r => (r.1, { w with ledger := r.2 })
  | .getCheckpoint threadId, _, w => .ok (w.checkpoints threadId, w)
  | .putCheckpoint threadId checkpoint, _, w =>
      .ok ((), { w with checkpoints := Function.update w.checkpoints threadId (some checkpoint) })
  | .complete .., ch, w => .ok (ch.turn, w)
  | .getMetrics merchantId productId, ch, w =>
      (getMetricsSync merchantId productId ch.metrics w.ledger).map fun metrics => (metrics, w)
  | .executeTool .., ch, w => .ok (ch.result, w)
  | .enterNode .., _, w => .ok ((), w)
  | .schedule, ch, w => .ok (ch.first, w)

end CommerceAgent
