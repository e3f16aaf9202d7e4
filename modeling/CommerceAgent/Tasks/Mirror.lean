import CommerceAgent.Tasks.Backend

/-!
# Redis and RabbitMQ as the world says

The task system keeps records, keys, leases and messages as what they are, the deployment as
texts under keys and on queues. `Holds` says what a key of Redis holds in a world, `Conveys`
what the queues do, and `Mirrors` both.

The identifier of a task comes from the client as it is. One with a colon may be a key of
something else, such as a lease; what is there is never a text with a brace, and so no record.
-/

namespace CommerceAgent

open Effects Messaging TaskQueue

/-- The stamps are times. -/
def Timestamps.Valid (isDatetime : String → Bool) (stamps : Timestamps) : Prop :=
  isDatetime stamps.createdAt = true ∧ isDatetime stamps.updatedAt = true

/-- The value is the text of the record. -/
inductive Stored (isDatetime : String → Bool) : Option RedisValue → Option TaskRecord → Prop
  | absent : Stored isDatetime none none
  | present (task : TaskRecord) (stamps : Timestamps) (h : stamps.Valid isDatetime) :
      Stored isDatetime (some (.string (task.dumpJson stamps))) (some task)

/-- The key holds what the world says. Only the idempotency keys in `K` are looked at. -/
structure Holds (B : BackendSettings) (K : Set String) (w : World) (key : String)
    (value : Option RedisValue) : Prop where
  record : ∀ taskId, ':' ∉ taskId.toList → key = taskKey taskId →
    Stored B.isDatetime value (w.records taskId)
  /-- Behind an identifier with a colon there is no text that could be a record. -/
  foreign : ∀ taskId, ':' ∈ taskId.toList → key = taskKey taskId →
    ∀ text, value = some (.string text) → text ≠ "" ∧ '{' ∉ text.toList
  idempotency : ∀ k ∈ K, key = RedisStore.idempotencyKey B.digest k →
    value = (w.idempotencyKeys k).map .string
  lease : ∀ taskId, key = leaseKey taskId →
    value = (w.leases taskId).map fun i => .string (B.owner i)

/-- The queues on which a message waits for a worker. -/
def waitingQueues : List String :=
  queueName :: (List.range retryDelaysMs.length).map retryQueueName

/-- The queues hold the texts of the messages, and perhaps texts that are none. -/
structure Conveys (floatText : String → String) (broker : Broker String)
    (bodies : ℕ → Option String) (inFlight : List QueueMessage)
    (unacked : ℕ → Option QueueMessage) (deadLetters : List QueueMessage) : Prop where
  routed : Routed broker.topology
  within : Within broker.topology
  inFlight : inFlight.Perm
    ((broker.held waitingQueues).filterMap (QueueMessage.validateJson floatText))
  unacked : ∀ i, unacked i = (bodies i).bind (QueueMessage.validateJson floatText)
  deadLetters : deadLetters =
    (broker.ready deadQueueName).filterMap (QueueMessage.validateJson floatText)

/-- Redis and RabbitMQ are as the world says. -/
structure Mirrors (B : BackendSettings) (K : Set String) (b : Backend) (w : World) : Prop where
  keys : ∀ key, Holds B K w key (b.keys key)
  queue : Conveys B.floatText b.broker b.unacked w.inFlight w.unacked w.deadLetters
  ledger : w.ledger = b.ledger
  checkpoints : w.checkpoints = b.checkpoints

section Keys

theorem taskKey_injective : Function.Injective taskKey :=
  fun _ _ h => (String.append_right_inj _).1 h

theorem leaseKey_eq (taskId : String) : leaseKey taskId = taskKey (taskId ++ ":lease") :=
  String.append_assoc ..

theorem eventKey_eq (taskId : String) : eventKey taskId = taskKey (taskId ++ ":events") :=
  String.append_assoc ..

theorem sequenceKey_eq (taskId : String) : sequenceKey taskId = taskKey (taskId ++ ":sequence") :=
  String.append_assoc ..

theorem leaseKey_injective : Function.Injective leaseKey := by
  intro taskId other h
  exact (String.append_right_inj _).1 ((String.append_left_inj _).1 h)

theorem colon_mem_append (taskId : String) {suffix : String} (h : ':' ∈ suffix.toList) :
    ':' ∈ (taskId ++ suffix).toList := by
  rw [String.toList_append]
  exact List.mem_append_right _ h

theorem taskKey_toList (taskId : String) : (taskKey taskId).toList =
    "e-commerce-agent:v1:".toList ++ 't' :: ("ask:".toList ++ taskId.toList) := by
  have hsplit : "e-commerce-agent:v1:task:".toList =
      "e-commerce-agent:v1:".toList ++ 't' :: "ask:".toList := by decide +kernel
  unfold taskKey
  rw [String.toList_append, hsplit, List.append_assoc, List.cons_append]

theorem idempotencyKey_toList (digest : String → String) (key : String) :
    (RedisStore.idempotencyKey digest key).toList =
      "e-commerce-agent:v1:".toList ++ 'i' :: ("dempotency:".toList ++ (digest key).toList) := by
  have hsplit : "e-commerce-agent:v1:idempotency:".toList =
      "e-commerce-agent:v1:".toList ++ 'i' :: "dempotency:".toList := by decide +kernel
  unfold RedisStore.idempotencyKey
  rw [String.toList_append, hsplit, List.append_assoc, List.cons_append]

theorem taskKey_ne_idempotencyKey (digest : String → String) (taskId key : String) :
    taskKey taskId ≠ RedisStore.idempotencyKey digest key := by
  intro h
  have hlist := congrArg String.toList h
  rw [taskKey_toList, idempotencyKey_toList] at hlist
  exact absurd (List.cons.inj (List.append_cancel_left hlist)).1 (by decide)

theorem take_reverse_append (s suffix : String) {n : ℕ} (h : n ≤ suffix.toList.length) :
    (s ++ suffix).toList.reverse.take n = suffix.toList.reverse.take n := by
  rw [String.toList_append, List.reverse_append, List.take_append_of_le_length (by simpa using h)]

theorem leaseKey_end (taskId : String) :
    (leaseKey taskId).toList.reverse.take 2 = ":lease".toList.reverse.take 2 :=
  take_reverse_append _ _ (by decide)

/-- The keys of a task end differently. -/
theorem leaseKey_ne_eventKey (taskId other : String) : leaseKey taskId ≠ eventKey other := by
  intro h
  have hevents : (eventKey other).toList.reverse.take 2 = ":events".toList.reverse.take 2 :=
    take_reverse_append _ _ (by decide)
  have hend := leaseKey_end taskId
  rw [h, hevents] at hend
  exact absurd hend (by decide)

theorem leaseKey_ne_sequenceKey (taskId other : String) : leaseKey taskId ≠ sequenceKey other := by
  intro h
  have hsequence : (sequenceKey other).toList.reverse.take 2 = ":sequence".toList.reverse.take 2 :=
    take_reverse_append _ _ (by decide)
  have hend := leaseKey_end taskId
  rw [h, hsequence] at hend
  exact absurd hend (by decide)

end Keys

section Redis

variable {B : BackendSettings} {K : Set String} {w w' : World} {key taskId : String}
  {value : Option RedisValue}

/-- A world that says the same of the key. -/
theorem Holds.congr (h : Holds B K w key value)
    (hrecords : ∀ taskId, key = taskKey taskId → w'.records taskId = w.records taskId)
    (hkeys : ∀ k ∈ K, key = RedisStore.idempotencyKey B.digest k →
      w'.idempotencyKeys k = w.idempotencyKeys k)
    (hleases : ∀ taskId, key = leaseKey taskId → w'.leases taskId = w.leases taskId) :
    Holds B K w' key value where
  record taskId hcolon heq := by
    rw [hrecords taskId heq]
    exact h.record taskId hcolon heq
  foreign := h.foreign
  idempotency k hk heq := by
    rw [hkeys k hk heq]
    exact h.idempotency k hk heq
  lease taskId heq := by
    rw [hleases taskId heq]
    exact h.lease taskId heq

/-- The key of a record. -/
theorem Holds.task (hcolon : ':' ∉ taskId.toList)
    (h : Stored B.isDatetime value (w.records taskId)) : Holds B K w (taskKey taskId) value where
  record other _ heq := by
    cases taskKey_injective heq
    exact h
  foreign other hother heq := by
    cases taskKey_injective heq
    exact absurd hother hcolon
  idempotency k _ heq := absurd heq (taskKey_ne_idempotencyKey B.digest taskId k)
  lease other heq := by
    rw [leaseKey_eq] at heq
    cases taskKey_injective heq
    exact absurd (colon_mem_append other (by decide)) hcolon

/-- A key behind an identifier with a colon that is not a lease. -/
theorem Holds.aside (hcolon : ':' ∈ taskId.toList)
    (hlease : ∀ other, taskKey taskId ≠ leaseKey other)
    (h : ∀ text, value = some (.string text) → text ≠ "" ∧ '{' ∉ text.toList) :
    Holds B K w (taskKey taskId) value where
  record other hother heq := by
    cases taskKey_injective heq
    exact absurd hcolon hother
  foreign _ _ _ := h
  idempotency k _ heq := absurd heq (taskKey_ne_idempotencyKey B.digest taskId k)
  lease other heq := absurd heq (hlease other)

/-- The key of a lease. -/
theorem Holds.leased (howner : ∀ i, B.owner i ≠ "" ∧ '{' ∉ (B.owner i).toList)
    (h : value = (w.leases taskId).map fun i => .string (B.owner i)) :
    Holds B K w (leaseKey taskId) value where
  record other hother heq := by
    rw [leaseKey_eq] at heq
    cases taskKey_injective heq
    exact absurd (colon_mem_append taskId (by decide)) hother
  foreign other _ _ text htext := by
    rw [h] at htext
    obtain ⟨i, -, hi⟩ := Option.map_eq_some_iff.1 htext
    cases hi
    exact howner i
  idempotency k _ heq := by
    rw [leaseKey_eq] at heq
    exact absurd heq (taskKey_ne_idempotencyKey B.digest _ k)
  lease other heq := by
    cases leaseKey_injective heq
    exact h

/-- An idempotency key. -/
theorem Holds.reserved (hK : Set.InjOn B.digest K) {k : String} (hk : k ∈ K)
    (h : value = (w.idempotencyKeys k).map .string) :
    Holds B K w (RedisStore.idempotencyKey B.digest k) value where
  record other _ heq := absurd heq.symm (taskKey_ne_idempotencyKey B.digest other k)
  foreign other _ heq := absurd heq.symm (taskKey_ne_idempotencyKey B.digest other k)
  idempotency other hother heq := by
    have hdigest : B.digest k = B.digest other := (String.append_right_inj _).1 heq
    cases hK hk hother hdigest
    exact h
  lease other heq := by
    rw [leaseKey_eq] at heq
    exact absurd heq.symm (taskKey_ne_idempotencyKey B.digest _ k)

/-- One key changes, and the world with it. -/
theorem holds_update {b : Backend} (h : ∀ key, Holds B K w key (b.keys key))
    (hnew : Holds B K w' key value)
    (hold : ∀ other v, other ≠ key → Holds B K w other v → Holds B K w' other v) :
    ∀ other, Holds B K w' other (Function.update b.keys key value other) := by
  intro other
  by_cases hother : other = key
  · subst hother
    rw [Function.update_self]
    exact hnew
  · rw [Function.update_of_ne hother]
    exact hold other _ hother (h other)

namespace Mirrors

variable {b : Backend}

theorem setRecord (h : Mirrors B K b w) (hcolon : ':' ∉ taskId.toList) {r : Option TaskRecord}
    (hstored : Stored B.isDatetime value r) :
    Mirrors B K { b with keys := Function.update b.keys (taskKey taskId) value }
      { w with records := Function.update w.records taskId r } where
  keys := by
    refine holds_update h.keys (.task hcolon ?_) ?_
    · simpa only [Function.update_self] using hstored
    · intro other v hother hv
      refine hv.congr ?_ (fun _ _ _ => rfl) fun _ _ => rfl
      rintro other rfl
      exact Function.update_of_ne (fun heq => hother (congrArg taskKey heq)) ..
  queue := h.queue
  ledger := h.ledger
  checkpoints := h.checkpoints

theorem store (h : Mirrors B K b w) {task : TaskRecord} (hcolon : ':' ∉ task.taskId.toList)
    {stamps : Timestamps} (hstamps : stamps.Valid B.isDatetime) :
    Mirrors B K (b.store task stamps) (w.store task) :=
  h.setRecord hcolon (.present task stamps hstamps)

theorem setLease (h : Mirrors B K b w) (howner : ∀ i, B.owner i ≠ "" ∧ '{' ∉ (B.owner i).toList)
    (lease : Option ℕ) :
    Mirrors B K
      { b with
        keys := Function.update b.keys (leaseKey taskId) (lease.map fun i => .string (B.owner i)) }
      { w with leases := Function.update w.leases taskId lease } where
  keys := by
    refine holds_update h.keys (.leased howner ?_) ?_
    · simp only [Function.update_self]
    · intro other v hother hv
      refine hv.congr (fun _ _ => rfl) (fun _ _ _ => rfl) ?_
      rintro other rfl
      exact Function.update_of_ne (fun heq => hother (congrArg leaseKey heq)) ..
  queue := h.queue
  ledger := h.ledger
  checkpoints := h.checkpoints

theorem setKey (h : Mirrors B K b w) (hK : Set.InjOn B.digest K) {k : String} (hk : k ∈ K)
    (reserved : Option String) :
    Mirrors B K
      { b with
        keys := Function.update b.keys (RedisStore.idempotencyKey B.digest k)
          (reserved.map .string) }
      { w with idempotencyKeys := Function.update w.idempotencyKeys k reserved } where
  keys := by
    refine holds_update h.keys (.reserved hK hk ?_) ?_
    · simp only [Function.update_self]
    · intro other v hother hv
      refine hv.congr (fun _ _ => rfl) ?_ fun _ _ => rfl
      rintro other _ rfl
      exact Function.update_of_ne
        (fun heq => hother (congrArg (RedisStore.idempotencyKey B.digest) heq)) ..
  queue := h.queue
  ledger := h.ledger
  checkpoints := h.checkpoints

/-- A key of which the world says nothing. -/
theorem setAside (h : Mirrors B K b w) (hnew : Holds B K w key value) :
    Mirrors B K { b with keys := Function.update b.keys key value } w where
  keys := holds_update h.keys hnew fun _ _ _ hv => hv
  queue := h.queue
  ledger := h.ledger
  checkpoints := h.checkpoints

end Mirrors

end Redis

section Queues

theorem waitingQueues_nodup : waitingQueues.Nodup := by decide +kernel

theorem queueName_mem_waitingQueues : queueName ∈ waitingQueues := List.mem_cons_self

theorem retryQueueName_mem_waitingQueues {index : ℕ} (h : index < retryDelaysMs.length) :
    retryQueueName index ∈ waitingQueues :=
  List.mem_cons_of_mem _ (List.mem_map_of_mem (List.mem_range.2 h))

theorem deadQueueName_notMem_waitingQueues : deadQueueName ∉ waitingQueues := by decide +kernel

theorem ne_deadQueueName {queue : String} (h : queue ∈ waitingQueues) : deadQueueName ≠ queue :=
  fun heq => deadQueueName_notMem_waitingQueues (heq ▸ h)

/-- Only the retry queues let messages expire, and they lead to the queue of the workers. -/
theorem expiring_queue {t : Topology} (h : Within t) {queue : String} {arguments : QueueArguments}
    (hqueue : t.queues.lookup queue = some arguments) (httl : arguments.messageTtl ≠ none) :
    queue ∈ waitingQueues ∧ arguments.deadLetter = some (exchangeName, routingKey) := by
  have hall : ∀ p ∈ declarations.filterMap Declaration.queue?, p.2.messageTtl ≠ none →
      p.1 ∈ waitingQueues ∧ p.2.deadLetter = some (exchangeName, routingKey) := by decide +kernel
  exact hall (queue, arguments) (List.mem_filterMap.2 ⟨_, h.queues _ _ hqueue, rfl⟩) httl

/-- A queue of which a message expires is one of the retry queues. -/
theorem expired_queue {broker broker' : Broker String} (h : Within broker.topology)
    {queue : String} (hexpire : broker.expire queue = some broker') :
    queue ∈ waitingQueues ∧ (broker.topology.queues.lookup queue).bind QueueArguments.deadLetter =
      some (exchangeName, routingKey) := by
  have hexpiring : ∃ arguments, broker.topology.queues.lookup queue = some arguments ∧
      arguments.messageTtl ≠ none := by
    unfold Broker.expire at hexpire
    split at hexpire
    · next ttl m rest httl _ =>
        obtain ⟨arguments, hlookup, hmessage⟩ := Option.bind_eq_some_iff.1 httl
        exact ⟨arguments, hlookup, by rw [hmessage]; exact Option.some_ne_none _⟩
    · cases hexpire
  obtain ⟨arguments, hlookup, httl⟩ := hexpiring
  obtain ⟨hqueue, hdead⟩ := expiring_queue h hlookup httl
  exact ⟨hqueue, by rw [hlookup]; exact hdead⟩

theorem retryIndex_lt (attempt : ℤ) : retryIndex attempt < retryDelaysMs.length := by
  have hlength : retryDelaysMs.length = 3 := rfl
  rw [retryIndex, hlength]
  omega

variable {floatText : String → String} {broker broker' : Broker String}
  {bodies : ℕ → Option String} {inFlight : List QueueMessage} {unacked : ℕ → Option QueueMessage}
  {deadLetters : List QueueMessage} {i : ℕ} {body queue : String} {payload : QueueMessage}

namespace Conveys

/-- What waits is moved between the queues on which it waits. -/
theorem move (h : Conveys floatText broker bodies inFlight unacked deadLetters)
    (htopology : broker'.topology = broker.topology)
    (hheld : (broker'.held waitingQueues).Perm (broker.held waitingQueues))
    (hdead : broker'.ready deadQueueName = broker.ready deadQueueName) :
    Conveys floatText broker' bodies inFlight unacked deadLetters where
  routed := htopology ▸ h.routed
  within := htopology ▸ h.within
  inFlight := h.inFlight.trans (hheld.filterMap _).symm
  unacked := h.unacked
  deadLetters := hdead ▸ h.deadLetters

theorem filterMap_singleton (body : String) : [body].filterMap
    (QueueMessage.validateJson floatText) = (QueueMessage.validateJson floatText body).toList := by
  cases h : QueueMessage.validateJson floatText body <;> simp [h]

/-- A text is put on a queue of waiting messages. -/
theorem push (h : Conveys floatText broker bodies inFlight unacked deadLetters)
    (hqueue : queue ∈ waitingQueues) :
    Conveys floatText (broker.push body queue) bodies
      (inFlight ++ (QueueMessage.validateJson floatText body).toList) unacked deadLetters where
  routed := h.routed
  within := h.within
  inFlight := by
    have hheld : ((broker.push body queue).held waitingQueues).Perm
        (broker.held waitingQueues ++ [body]) := Broker.held_push waitingQueues_nodup hqueue
    have hread := hheld.filterMap (QueueMessage.validateJson floatText)
    rw [List.filterMap_append, filterMap_singleton] at hread
    exact (h.inFlight.append_right _).trans hread.symm
  unacked := h.unacked
  deadLetters := by
    rw [Broker.push_ready_ne broker (ne_deadQueueName hqueue)]
    exact h.deadLetters

/-- The message of a handler is read from its body. -/
theorem unacked_update (h : Conveys floatText broker bodies inFlight unacked deadLetters) (i : ℕ)
    (o : Option String) (j : ℕ) :
    Function.update unacked i (o.bind (QueueMessage.validateJson floatText)) j =
      (Function.update bodies i o j).bind (QueueMessage.validateJson floatText) := by
  by_cases hj : j = i
  · subst hj
    rw [Function.update_self, Function.update_self]
  · rw [Function.update_of_ne hj, Function.update_of_ne hj]
    exact h.unacked j

theorem settle (h : Conveys floatText broker bodies inFlight unacked deadLetters) (i : ℕ) :
    Conveys floatText broker (Function.update bodies i none) inFlight
      (Function.update unacked i none) deadLetters where
  routed := h.routed
  within := h.within
  inFlight := h.inFlight
  unacked := h.unacked_update i none
  deadLetters := h.deadLetters

theorem requeue (h : Conveys floatText broker bodies inFlight unacked deadLetters) (i : ℕ)
    (body : String) :
    Conveys floatText (broker.restore queueName body) (Function.update bodies i none)
      (inFlight ++ (QueueMessage.validateJson floatText body).toList)
      (Function.update unacked i none) deadLetters where
  routed := h.routed
  within := h.within
  inFlight := by
    have hheld : ((broker.restore queueName body).held waitingQueues).Perm
        ([body] ++ broker.held waitingQueues) :=
      Broker.held_restore waitingQueues_nodup queueName_mem_waitingQueues
    have hread := hheld.filterMap (QueueMessage.validateJson floatText)
    rw [List.filterMap_append, filterMap_singleton] at hread
    exact (h.inFlight.append_right _).trans (List.perm_append_comm.trans hread.symm)
  unacked := h.unacked_update i none
  deadLetters := by
    rw [Broker.restore_ready_ne broker (ne_deadQueueName queueName_mem_waitingQueues)]
    exact h.deadLetters

theorem deadLetter (h : Conveys floatText broker bodies inFlight unacked deadLetters) (i : ℕ)
    (body : String) :
    Conveys floatText (broker.deadLetter queueName body) (Function.update bodies i none) inFlight
      (Function.update unacked i none)
      (deadLetters ++ (QueueMessage.validateJson floatText body).toList) := by
  have hqueue : (broker.topology.queues.lookup queueName).bind QueueArguments.deadLetter =
      some (deadExchangeName, deadRoutingKey) := by
    rw [h.routed.queue]
    rfl
  rw [Broker.deadLetter_of_route hqueue h.routed.routeDead]
  constructor
  · exact h.routed
  · exact h.within
  · rw [Broker.held_push_of_notMem deadQueueName_notMem_waitingQueues]
    exact h.inFlight
  · exact h.unacked_update i none
  · rw [Broker.push_ready, if_pos rfl, List.filterMap_append, filterMap_singleton, ← h.deadLetters]

/-- A text of the queue is delivered. -/
theorem deliver (h : Conveys floatText broker bodies inFlight unacked deadLetters) (i : ℕ)
    {p : String → Bool} (htake : broker.take queueName p = some (body, broker')) :
    Conveys floatText broker' (Function.update bodies i (some body))
      ((QueueMessage.validateJson floatText body).elim inFlight inFlight.erase)
      (Function.update unacked i (QueueMessage.validateJson floatText body)) deadLetters := by
  obtain ⟨-, htopology, hother, hheld⟩ :=
    Broker.held_take waitingQueues_nodup queueName_mem_waitingQueues htake
  constructor
  · exact htopology ▸ h.routed
  · exact htopology ▸ h.within
  · have hread := hheld.filterMap (QueueMessage.validateJson floatText)
    cases hbody : QueueMessage.validateJson floatText body with
    | none =>
        rw [List.filterMap_cons_none hbody] at hread
        exact h.inFlight.trans hread
    | some payload =>
        rw [List.filterMap_cons_some hbody] at hread
        simpa using (h.inFlight.trans hread).erase payload
  · exact h.unacked_update i (some body)
  · rw [hother _ (ne_deadQueueName queueName_mem_waitingQueues)]
    exact h.deadLetters

end Conveys

end Queues

end CommerceAgent
