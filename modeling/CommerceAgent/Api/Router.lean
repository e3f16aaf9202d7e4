import CommerceAgent.Agent.Graph
import CommerceAgent.Tasks.EventStream
import CommerceAgent.Tasks.System

/-!
# The router

The endpoints of the API, each a program that runs for the merchant that the request is
authenticated as. Next to the calls of the task system an endpoint reads the event stream
of a task. `apiMachine` runs any number of requests and message handlers at once.
-/

namespace CommerceAgent

open Effects

/-- What a process of the API or of a worker awaits. -/
inductive ApiCall where
  | task (c : TaskCall)
  /-- An `XRANGE` or `XREAD` of the events of a task. -/
  | readEvents (taskId : String)

abbrev ApiCall.Reply : ApiCall → Type
  | .task c => c.Reply
  | .readEvents _ => List TaskEvent

abbrev ApiProgram (α : Type) := Program Exn ApiCall ApiCall.Reply α

/-- A program of the task system among those of the API. -/
def liftTask {α : Type} (p : TaskProgram α) : ApiProgram α := Program.lift .task p

/-- What the environment chooses about a call: a read of events passes over those before
its cursor and those that are no longer kept, and returns no more than so many. -/
structure ApiChoice extends TaskChoice where
  skipped : ℕ := 0
  count : ℕ := 100

/-- The events that were appended for a task. -/
def World.eventsOf (w : World) (taskId : String) : List TaskEvent :=
  (w.events.filter fun entry => entry.1 == taskId).map Prod.snd

theorem World.mem_eventsOf {w : World} {taskId : String} {event : TaskEvent} :
    event ∈ w.eventsOf taskId ↔ (taskId, event) ∈ w.events := by
  simp [World.eventsOf]

/-- Run a call of the process `i`. -/
def ApiCall.execute (settings : Settings) (i : ℕ) : (c : ApiCall) → ApiChoice → World →
    Except Exn (c.Reply × World)
  | .task c, ch, w => c.execute settings i ch.toTaskChoice w
  | .readEvents taskId, ch, w =>
      .ok (((w.eventsOf taskId).drop ch.skipped).take ch.count, w)

structure CreateTaskRequest where
  prompt : String
  productId : Option String := none
  sessionId : Option String := none

structure SubmitApprovalRequest where
  planId : String
  planVersion : ℤ
  actionId : String
  decision : ApprovalDecision

/-- What the server adds to a request to create a task: the `trace_id` of its state, and
the tokens that it draws. -/
structure CreationContext where
  traceId : String := ""
  taskToken : String
  sessionToken : String
  traceToken : String
  stackDepth : ℕ := 1000

/-- `f"{merchant_id}:{idempotency_key}" if idempotency_key else None`. -/
def merchantKey (merchantId : String) (idempotencyKey : Option String) : Option String :=
  if truthy idempotencyKey then some (merchantId ++ ":" ++ idempotencyKey.getD "") else none

/-- The request as the router hands it to the task service. -/
def CreateTaskRequest.routed (payload : CreateTaskRequest) (merchantId : String)
    (idempotencyKey : Option String) (context : CreationContext) : CreateTask where
  prompt := payload.prompt
  sessionId := payload.sessionId
  idempotencyKey := merchantKey merchantId idempotencyKey
  traceId := context.traceId
  merchantId
  productId := payload.productId
  taskToken := context.taskToken
  sessionToken := context.sessionToken
  traceToken := context.traceToken
  stackDepth := context.stackDepth

/-- The approval as the router hands it to the task service. -/
def SubmitApprovalRequest.routed (payload : SubmitApprovalRequest) (merchantId taskId : String) :
    SubmitApproval where
  taskId
  merchantId
  planId := payload.planId
  planVersion := payload.planVersion
  actionId := payload.actionId
  decision := payload.decision

/-- The event ends the stream. -/
def TaskEvent.closes (event : TaskEvent) : Bool := decide (event.eventType ∈ closingEvents)

/-- What `event_generator` sends of a batch, and whether it then returns. -/
def sentOf : List TaskEvent → List TaskEvent × Bool
  | [] => ([], false)
  | event :: batch =>
      if event.closes then ([event], true) else (event :: (sentOf batch).1, (sentOf batch).2)

/-- `event_generator`, until the client goes away after so many reads. -/
def generateEvents (taskId : String) : ℕ → ApiProgram (List TaskEvent)
  | 0 => pure []
  | reads + 1 => do
    let batch ← Program.perform (ApiCall.readEvents taskId)
    if (sentOf batch).2 then pure (sentOf batch).1
    else do
      let rest ← generateEvents taskId reads
      pure ((sentOf batch).1 ++ rest)

/-- The endpoints of the router; the one for the event stream says how often the
stream is read before the client goes away. -/
inductive Endpoint where
  | createTask (payload : CreateTaskRequest) (idempotencyKey : Option String)
      (context : CreationContext)
  | getTask (taskId : String)
  | getTaskTrace (taskId : String)
  | submitTaskInput (taskId productId : String)
  | submitTaskApproval (taskId : String) (payload : SubmitApprovalRequest)
  | resumeTask (taskId : String)
  | streamTaskEvents (taskId : String) (after lastEventId : Option String) (reads : ℕ)

/-- What a response is made from. -/
inductive ApiResult where
  | created (task : TaskRecord) (created : Bool)
  | task (task : TaskRecord)
  | trace (task : TaskRecord) (events : List TaskEvent)
  | approved (task : TaskRecord) (approvalId : String)
  | events (events : List TaskEvent)
  | handled

/-- `get_task_for_merchant` of an endpoint that only reads. -/
def readTask (taskId merchantId : String) : ApiProgram TaskRecord :=
  liftTask (getTaskForMerchant .resumeTask taskId merchantId)

/-- `TaskService.get_trace`. -/
def getTrace (taskId merchantId : String) : ApiProgram (TaskRecord × List TaskEvent) := do
  let task ← readTask taskId merchantId
  let events ← Program.perform (ApiCall.readEvents taskId)
  pure (task, events)

/-- `stream_task_events`, with what it has sent when the connection ends. -/
def streamEvents (codec : EventCodec) (taskId merchantId : String)
    (after lastEventId : Option String) (reads : ℕ) : ApiProgram (List TaskEvent) := do
  let _ ← readTask taskId merchantId
  if !eventIdPattern codec (requestCursor lastEventId after) then
    throw (.appError "INVALID_EVENT_ID" "Last-Event-ID 格式无效" 422)
  else generateEvents taskId reads

/-- The program of an endpoint for a merchant. -/
def Endpoint.program (codec : EventCodec) (merchantId : String) : Endpoint → ApiProgram ApiResult
  | .createTask payload idempotencyKey context => do
      let (task, created) ←
        liftTask (CommerceAgent.createTask (payload.routed merchantId idempotencyKey context))
      pure (.created task created)
  | .getTask taskId => do
      let task ← readTask taskId merchantId
      pure (.task task)
  | .getTaskTrace taskId => do
      let (task, events) ← getTrace taskId merchantId
      pure (.trace task events)
  | .submitTaskInput taskId productId => do
      let task ← liftTask (submitInput taskId merchantId productId)
      pure (.task task)
  | .submitTaskApproval taskId payload => do
      let (task, approvalId) ← liftTask (submitApproval (payload.routed merchantId taskId))
      pure (.approved task approvalId)
  | .resumeTask taskId => do
      let task ← liftTask (CommerceAgent.resumeTask taskId merchantId)
      pure (.task task)
  | .streamTaskEvents taskId after lastEventId reads => do
      let events ← streamEvents codec taskId merchantId after lastEventId reads
      pure (.events events)

/-- What a process is started for: a request that is authenticated as a merchant, a
message of the queue, or the initialization of the database. -/
inductive ApiRequest where
  | request (merchantId : String) (endpoint : Endpoint)
  | handleMessage (body : Body)
  | startup

/-- The merchant that a process acts for. -/
def ApiRequest.merchant : ApiRequest → Option String
  | .request merchantId _ => some merchantId
  | .handleMessage _ | .startup => none

def ApiRequest.program (codec : EventCodec) (settings : Settings) (agent : AgentSettings) :
    ApiRequest → ApiProgram ApiResult
  | .request merchantId endpoint => endpoint.program codec merchantId
  | .handleMessage body => do
      liftTask (CommerceAgent.handleMessage settings agent.orchestrator body)
      pure .handled
  | .startup => do
      liftTask (TaskCall.ledger (.initializeSync settings.catalog)).perform
      pure .handled

/-- What the start of a process does to the world: a handler takes its message. -/
def ApiRequest.accept (i : ℕ) : ApiRequest → World → Option World
  | .handleMessage body, w => (TaskRequest.handleMessage body).accept i w
  | .request .., w | .startup, w => some w

abbrev ApiConfig := Config Exn ApiCall ApiCall.Reply World ApiRequest ApiResult

abbrev ApiAction := Action ApiChoice ApiRequest TaskEnvironment

/-- The processes of a deployment: those of the API and those of the workers. -/
def apiMachine (codec : EventCodec) (settings : Settings) (agent : AgentSettings) :
    Machine Exn ApiCall ApiCall.Reply World ApiChoice ApiRequest ApiResult TaskEnvironment where
  program _ q := q.program codec settings agent
  answer i c ch w := some (ch.ending.answer (c.execute settings i ch w) w)
  accept i q w := q.accept i w
  halt i w := w.requeue i
  environment e w := e.apply w

end CommerceAgent
