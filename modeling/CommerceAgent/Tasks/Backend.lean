import CommerceAgent.Tasks.EventNumbers
import CommerceAgent.Tasks.System
import CommerceAgent.Tasks.TaskQueue

/-!
# The task system over Redis and RabbitMQ

What `RedisStore` and `RabbitTaskQueue` do with the calls of the task system: the keys of
Redis, the texts under them, and the texts on the queues of the broker. A record is stored
under the key of its task as the text that `model_dump_json` writes, and a message waits as
such a text too. The commands of `append_event` may run between those of others, and what
they leave of its two keys is the environment's choice.
-/

namespace CommerceAgent

open Effects Messaging TaskQueue

/-- The value of a key; of a stream only that it is one. -/
inductive RedisValue where
  | string (text : String)
  | stream
  deriving DecidableEq

def taskKey (taskId : String) : String := "e-commerce-agent:v1:task:" ++ taskId

def leaseKey (taskId : String) : String := "e-commerce-agent:v1:task:" ++ taskId ++ ":lease"

/-- `idempotency_key`, with the `hexdigest` of the key. -/
def RedisStore.idempotencyKey (digest : String → String) (key : String) : String :=
  "e-commerce-agent:v1:idempotency:" ++ digest key

/-- What the functions of other libraries compute in a deployment. -/
structure BackendSettings where
  settings : Settings
  /-- `hashlib.sha256(key.encode("utf-8")).hexdigest()`. -/
  digest : String → String
  /-- The `lease_owner` that a handler draws. -/
  owner : ℕ → String
  floatText : String → String
  isDatetime : String → Bool

structure Backend where
  keys : String → Option RedisValue
  broker : Broker String
  /-- The body of the message delivered to a handler and not settled. -/
  unacked : ℕ → Option String
  ledger : Ledger
  checkpoints : String → Option Checkpoint

/-- What the environment chooses about a call: the times that a record is stamped with, and
what `append_event` leaves of the counter and of the stream. -/
structure BackendChoice extends TaskChoice where
  stamps : Timestamps := ⟨"", ""⟩
  sequence : Option ℕ := none
  added : Bool := false

namespace Backend

/-- Nothing stored yet, and the queues declared. -/
def fresh (t : Topology) : Backend :=
  ⟨fun _ => none, .fresh t, fun _ => none, .fresh, fun _ => none⟩

def set (key : String) (value : RedisValue) (b : Backend) : Backend :=
  { b with keys := Function.update b.keys key (some value) }

def del (key : String) (b : Backend) : Backend :=
  { b with keys := Function.update b.keys key none }

/-- `GET`. -/
def get (key : String) (b : Backend) : Except Exn (Option String) :=
  match b.keys key with
  | none => .ok none
  | some (.string text) => .ok (some text)
  | some .stream => .error (.other "ResponseError")

/-- `SET`, with the text of a record. -/
def store (task : TaskRecord) (stamps : Timestamps) (b : Backend) : Backend :=
  b.set (taskKey task.taskId) (.string (task.dumpJson stamps))

/-- `get_task`. -/
def getTask (B : BackendSettings) (taskId : String) (b : Backend) :
    Except Exn (Option TaskRecord) := do
  match ← b.get (taskKey taskId) with
  | none => pure none
  | some raw =>
    if raw = "" then pure none
    else
      match TaskRecord.validateJson B.floatText B.isDatetime raw with
      | some task => pure (some task)
      | none => throw (.valueError "ValidationError")

/-- The keys of `append_event` afterwards. -/
def report (taskId : String) (sequence : Option ℕ) (added : Bool) (b : Backend) : Backend :=
  let counted := match sequence with
    | some n => b.set (sequenceKey taskId) (.string (Nat.repr n))
    | none => b
  if added then counted.set (eventKey taskId) .stream else counted

/-- Publish a message, or raise what the broker refuses it with. -/
def publish (exchange key : String) (payload : QueueMessage) (b : Backend) :
    Except Exn Backend :=
  ((b.broker.publish exchange key payload.dumpJson).mapError BrokerError.raised).map fun broker =>
    { b with broker }

/-- Forget the message that a handler was working on. -/
def settle (i : ℕ) (b : Backend) : Backend :=
  { b with unacked := Function.update b.unacked i none }

/-- Return the message of a handler to its queue. -/
def requeue (i : ℕ) (b : Backend) : Backend :=
  match b.unacked i with
  | some body => { b.settle i with broker := b.broker.restore queueName body }
  | none => b

/-- `reject` without `requeue`. -/
def deadLetter (i : ℕ) (b : Backend) : Backend :=
  match b.unacked i with
  | some body => { b.settle i with broker := b.broker.deadLetter queueName body }
  | none => b

end Backend

/-- `cjson.decode(raw)['status']`. -/
def storedStatus (floatText : String → String) (raw : String) : Except Exn (Option Json) :=
  match Json.loads floatText raw with
  | some (.obj current) => .ok (JsonObject.get? "status" current)
  | some (.arr _) | some (.str _) => .ok none
  | _ => .error (.other "ResponseError")

/-- Run a call of the process `i`. -/
def TaskCall.executeOn (B : BackendSettings) (i : ℕ) : (c : TaskCall) → BackendChoice → Backend →
    Except Exn (c.Reply × Backend)
  | .setNew task, ch, b =>
      match b.keys (taskKey task.taskId) with
      | some _ => .ok (false, b)
      | none => .ok (true, b.store task ch.stamps)
  | .createScript task key, ch, b => do
      match ← b.get (RedisStore.idempotencyKey B.digest key) with
      | some existing => pure ((existing, false), b)
      | none =>
        match b.keys (taskKey task.taskId) with
        | some _ => pure (("", false), b)
        | none => pure ((task.taskId, true),
            (b.store task ch.stamps).set (RedisStore.idempotencyKey B.digest key)
              (.string task.taskId))
  | .deleteKey key, _, b => .ok ((), b.del (RedisStore.idempotencyKey B.digest key))
  | .getTask _ taskId, _, b => (b.getTask B taskId).map fun found => (found, b)
  | .saveTask _ task, ch, b => .ok ((), b.store task ch.stamps)
  | .transitionTask task expectedStatus, ch, b => do
      match ← b.get (taskKey task.taskId) with
      | none => pure (false, b)
      | some raw =>
        let status ← storedStatus B.floatText raw
        if status.bind Json.str? ≠ some expectedStatus.value then pure (false, b)
        else pure (true, b.store task ch.stamps)
  | .acquireTaskLease taskId _, _, b =>
      match b.keys (leaseKey taskId) with
      | some _ => .ok (false, b)
      | none => .ok (true, b.set (leaseKey taskId) (.string (B.owner i)))
  | .releaseTaskLease taskId, _, b => do
      let owner ← b.get (leaseKey taskId)
      pure ((), if owner = some (B.owner i) then b.del (leaseKey taskId) else b)
  | .hasTaskLease taskId, _, b => .ok ((b.keys (leaseKey taskId)).isSome, b)
  | .appendEvent taskId _, ch, b => .ok ((), b.report taskId ch.sequence ch.added)
  | .publish payload, _, b =>
      (b.publish exchangeName routingKey payload).map fun b' => ((), b')
  | .publishRetry payload, _, b =>
      (b.publish retryExchangeName (retryRoutingKey (retryIndex payload.attempt)) payload).map
        fun b' => ((), b')
  | .ack, _, b => .ok ((), b.settle i)
  | .reject requeue, _, b => .ok ((), if requeue then b.requeue i else b.deadLetter i)
  | .resolveProduct merchantId query, _, b =>
      (resolveProductSync B.settings.text merchantId query b.ledger).map fun items => (items, b)
  | .ledger c, ch, b => (c.execute ch.token b.ledger).map fun r => (r.1, { b with ledger := r.2 })
  | .run .., ch, b => .ok (ch.outcome, b)
  | .graph _ c, ch, b => (c.execute ch.token b.ledger).map fun r => (r.1, { b with ledger := r.2 })
  | .getCheckpoint threadId, _, b => .ok (b.checkpoints threadId, b)
  | .putCheckpoint threadId checkpoint, _, b =>
      .ok ((), { b with checkpoints := Function.update b.checkpoints threadId (some checkpoint) })
  | .complete .., ch, b => .ok (ch.turn, b)
  | .getMetrics merchantId productId, ch, b =>
      (getMetricsSync merchantId productId ch.metrics b.ledger).map fun metrics => (metrics, b)
  | .executeTool .., ch, b => .ok (ch.result, b)
  | .enterNode .., _, b => .ok ((), b)
  | .schedule, ch, b => .ok (ch.first, b)

/-- `decode` of a body gives the message, or raises. -/
def Body.reads (floatText : String → String) (body : Body) (text : String) : Bool :=
  match body, QueueMessage.validateJson floatText text with
  | .ok payload, some read => decide (read = payload)
  | .error _, none => true
  | _, _ => false

/-- A handler starts with a message of the queue that is decoded as its body; which of the
messages comes first is left open, since a consumer is sent several at once. -/
def TaskRequest.acceptOn (B : BackendSettings) (i : ℕ) : TaskRequest → Backend → Option Backend
  | .handleMessage body, b =>
      (b.broker.take queueName (body.reads B.floatText)).map fun taken =>
        { b with broker := taken.2, unacked := Function.update b.unacked i (some taken.1) }
  | _, b => some b

/-- What happens without a process: a key expires, or a message on a retry queue; a channel is
closed under its handler; or somebody else publishes a text that is no message. -/
inductive BackendEnvironment where
  | expireKey (key : String)
  | expireMessage (queue : String)
  | redeliver (i : ℕ)
  | foreign (text : String)
  deriving DecidableEq

def BackendEnvironment.apply : BackendEnvironment → Backend → Option Backend
  | .expireKey key, b => some (b.del key)
  | .expireMessage queue, b => (b.broker.expire queue).map fun broker => { b with broker }
  | .redeliver i, b => some (b.requeue i)
  | .foreign text, b => some { b with broker := b.broker.send exchangeName routingKey text }

abbrev BackendMachine :=
  Machine Exn TaskCall TaskCall.Reply Backend BackendChoice TaskRequest TaskResult
    BackendEnvironment

abbrev BackendConfig := Config Exn TaskCall TaskCall.Reply Backend TaskRequest TaskResult

abbrev BackendAction := Action BackendChoice TaskRequest BackendEnvironment

abbrev BackendPolicy := Policy TaskCall Backend BackendChoice TaskRequest BackendEnvironment

/-- The processes of a deployment, over Redis and RabbitMQ. -/
def backendMachine (B : BackendSettings) (orchestrator : Orchestrator) : BackendMachine where
  program _ q := q.program B.settings orchestrator
  answer i c ch b := some (ch.ending.answer (c.executeOn B i ch b) b)
  accept i q b := q.acceptOn B i b
  halt i b := b.requeue i
  environment e b := e.apply b

end CommerceAgent
