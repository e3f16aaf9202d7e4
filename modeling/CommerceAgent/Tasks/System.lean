import CommerceAgent.Commerce.Interleaving
import CommerceAgent.Tasks.WorkerService

/-!
# The task system

`taskMachine` runs any number of API calls and message handlers at once over one
`World`. A handler starts by taking a message off the queue, and its message
returns there when it crashes. The operations of the commerce repository that
the graph makes, apart from those of the task service, are requests of their own.

The environment lets leases, records and keys expire, duplicates messages, and
redelivers the message of a handler whose channel it has closed.
-/

namespace CommerceAgent

open Effects

/-- A repository operation, as a program of the task system. -/
def liftLedger {α : Type} (p : LedgerProgram α) : TaskProgram α := Program.lift .ledger p

inductive TaskRequest where
  | createTask (request : CreateTask)
  | submitInput (taskId merchantId productId : String)
  | submitApproval (request : SubmitApproval)
  | resumeTask (taskId merchantId : String)
  | handleMessage (body : Body)
  | ledger (request : LedgerRequest)

inductive TaskResult where
  | created (task : TaskRecord) (created : Bool)
  | task (task : TaskRecord)
  | approved (task : TaskRecord) (approvalId : String)
  | handled
  | ledger (result : LedgerResult)

/-- The task a request is about. -/
def TaskRequest.taskId : TaskRequest → Option String
  | .createTask request => some request.taskToken
  | .submitInput taskId _ _ => some taskId
  | .submitApproval request => some request.taskId
  | .resumeTask taskId _ => some taskId
  | .handleMessage (.ok payload) => some payload.taskId
  | .handleMessage (.error _) => none
  | .ledger _ => none

def TaskRequest.program (settings : Settings) (orchestrator : Orchestrator) :
    TaskRequest → TaskProgram TaskResult
  | .createTask request => do
      let (task, created) ← CommerceAgent.createTask request
      pure (.created task created)
  | .submitInput taskId merchantId productId => do
      let task ← CommerceAgent.submitInput taskId merchantId productId
      pure (.task task)
  | .submitApproval request => do
      let (task, approvalId) ← CommerceAgent.submitApproval request
      pure (.approved task approvalId)
  | .resumeTask taskId merchantId => do
      let task ← CommerceAgent.resumeTask taskId merchantId
      pure (.task task)
  | .handleMessage body => do
      CommerceAgent.handleMessage settings orchestrator body
      pure .handled
  | .ledger request => do
      let result ← liftLedger (request.program settings.catalog)
      pure (.ledger result)

inductive TaskEnvironment where
  | expireLease (taskId : String)
  | expireRecord (taskId : String)
  | expireKey (idempotencyKey : String)
  | duplicate (payload : QueueMessage)
  | redeliver (i : ℕ)
  deriving DecidableEq

/-- The record of some task expires. -/
def TaskEnvironment.expiresRecord : TaskEnvironment → Bool
  | .expireRecord _ => true
  | _ => false

theorem expiresRecord_eq_false_iff {e : TaskEnvironment} :
    e.expiresRecord = false ↔ ∀ taskId, e ≠ .expireRecord taskId := by
  cases e <;> simp [TaskEnvironment.expiresRecord]

def TaskEnvironment.apply : TaskEnvironment → World → Option World
  | .expireLease taskId, w => some { w with leases := Function.update w.leases taskId none }
  | .expireRecord taskId, w => some { w with records := Function.update w.records taskId none }
  | .expireKey idempotencyKey, w =>
      some { w with idempotencyKeys := Function.update w.idempotencyKeys idempotencyKey none }
  | .duplicate payload, w => if payload ∈ w.inFlight then some (w.enqueue payload) else none
  | .redeliver i, w => some (w.requeue i)

/-- What the start of a process does to the world: a handler takes its message. -/
def TaskRequest.accept (i : ℕ) : TaskRequest → World → Option World
  | .handleMessage (.ok payload), w =>
      if payload ∈ w.inFlight then some (w.deliver i payload) else none
  | _, w => some w

abbrev TaskMachine :=
  Machine Exn TaskCall TaskCall.Reply World TaskChoice TaskRequest TaskResult TaskEnvironment

abbrev TaskConfig := Config Exn TaskCall TaskCall.Reply World TaskRequest TaskResult

abbrev TaskAction := Action TaskChoice TaskRequest TaskEnvironment

abbrev TaskPolicy := Policy TaskCall World TaskChoice TaskRequest TaskEnvironment

/-- The processes of a deployment, with an orchestrator. -/
def taskMachine (settings : Settings) (orchestrator : Orchestrator) : TaskMachine where
  program _ q := q.program settings orchestrator
  answer i c ch w := some (ch.ending.answer (c.execute settings i ch w) w)
  accept i q w := q.accept i w
  halt i w := w.requeue i
  environment e w := e.apply w

/-- A deployment with the products of `_seed_sync`. -/
def demoSettings : Settings where
  text := ⟨fun s => s.trimAscii.toString, String.toLower⟩
  catalog := demoCatalog

def demoRequest : CreateTask where
  prompt := "Why did sales drop?"
  merchantId := demoMerchantId
  productId := some demoProductId
  taskToken := "task-1"
  sessionToken := "session-1"
  traceToken := "trace-1"

/-- The message of a task just created. -/
def demoMessage : QueueMessage := demoRequest.record.message 0 none none

end CommerceAgent
