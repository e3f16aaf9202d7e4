import CommerceAgent.Tasks.Mirror
import CommerceAgent.Tasks.Steps

/-!
# Calls over Redis and RabbitMQ

What a call returns over Redis and RabbitMQ, it can return in the world that they mirror, and
leaves them as the world is then.
-/

namespace CommerceAgent

open Effects Messaging TaskQueue

section Calls

variable {B : BackendSettings} {K : Set String} {b : Backend} {w w' : World} {i : ℕ}

namespace World

theorem requeue_idempotencyKeys : (w.requeue i).idempotencyKeys = w.idempotencyKeys := by
  unfold requeue
  split <;> rfl

theorem requeue_deadLetters : (w.requeue i).deadLetters = w.deadLetters := by
  unfold requeue
  split <;> rfl

theorem deadLetter_idempotencyKeys : (w.deadLetter i).idempotencyKeys = w.idempotencyKeys := by
  unfold deadLetter
  split <;> rfl

theorem deadLetter_ledger : (w.deadLetter i).ledger = w.ledger := by
  unfold deadLetter
  split <;> rfl

theorem deadLetter_deadLetters :
    (w.deadLetter i).deadLetters = w.deadLetters ++ (w.unacked i).toList := by
  unfold deadLetter
  split
  · next h => simp [h]
  · next h => simp [h]

end World

namespace Mirrors

theorem keys_of_eq (h : Mirrors B K b w) (hrecords : w'.records = w.records)
    (hkeys : w'.idempotencyKeys = w.idempotencyKeys) (hleases : w'.leases = w.leases)
    (key : String) :
    Holds B K w' key (b.keys key) :=
  (h.keys key).congr (fun _ _ => congrFun hrecords _) (fun _ _ _ => congrFun hkeys _)
    fun _ _ => congrFun hleases _

theorem settle (h : Mirrors B K b w) (i : ℕ) : Mirrors B K (b.settle i) (w.settle i) :=
  ⟨h.keys_of_eq rfl rfl rfl, h.queue.settle i, h.ledger, h.checkpoints⟩

theorem unacked_eq (h : Mirrors B K b w) {o : Option String} (hbody : b.unacked i = o) :
    w.unacked i = o.bind (QueueMessage.validateJson B.floatText) := by
  rw [h.queue.unacked, hbody]

theorem requeue (h : Mirrors B K b w) (i : ℕ) : Mirrors B K (b.requeue i) (w.requeue i) := by
  cases hbody : b.unacked i with
  | none =>
      have hnone : w.unacked i = none := h.unacked_eq hbody
      simpa only [Backend.requeue, World.requeue, hbody, hnone] using h
  | some body =>
      have hread : w.unacked i = QueueMessage.validateJson B.floatText body := h.unacked_eq hbody
      have hqueue := h.queue.requeue i body
      simp only [Backend.requeue, hbody]
      refine ⟨h.keys_of_eq (w.requeue_records i) World.requeue_idempotencyKeys
          (w.requeue_leases i), ?_,
        (w.requeue_ledger i).trans h.ledger, (w.requeue_checkpoints i).trans h.checkpoints⟩
      rw [World.requeue_inFlight, World.requeue_unacked, World.requeue_deadLetters, hread]
      exact hqueue

theorem deadLetter (h : Mirrors B K b w) (i : ℕ) :
    Mirrors B K (b.deadLetter i) (w.deadLetter i) := by
  cases hbody : b.unacked i with
  | none =>
      have hnone : w.unacked i = none := h.unacked_eq hbody
      simpa only [Backend.deadLetter, World.deadLetter, hbody, hnone] using h
  | some body =>
      have hread : w.unacked i = QueueMessage.validateJson B.floatText body := h.unacked_eq hbody
      have hqueue := h.queue.deadLetter i body
      simp only [Backend.deadLetter, hbody]
      refine ⟨h.keys_of_eq (w.deadLetter_records i) World.deadLetter_idempotencyKeys
        (w.deadLetter_leases i), ?_, World.deadLetter_ledger.trans h.ledger,
        (w.deadLetter_checkpoints i).trans h.checkpoints⟩
      rw [World.deadLetter_inFlight, World.deadLetter_unacked, World.deadLetter_deadLetters, hread]
      exact hqueue

/-- A message that is published goes to the queue of the workers, or waits on a retry queue. -/
theorem enqueue (h : Mirrors B K b w) {payload : QueueMessage} (hpayload : payload.Canonical)
    {queue : String} (hqueue : queue ∈ waitingQueues) :
    Mirrors B K { b with broker := b.broker.push payload.dumpJson queue } (w.enqueue payload) := by
  refine ⟨h.keys_of_eq rfl rfl rfl, ?_, h.ledger, h.checkpoints⟩
  have hread : QueueMessage.validateJson B.floatText payload.dumpJson = some payload :=
    QueueMessage.validateJson_dumpJson hpayload
  have hconveys : Conveys B.floatText (b.broker.push payload.dumpJson queue) b.unacked
      (w.inFlight ++ (QueueMessage.validateJson B.floatText payload.dumpJson).toList) w.unacked
      w.deadLetters := h.queue.push hqueue
  rw [hread] at hconveys
  exact hconveys

end Mirrors

end Calls

/-- The record of a task that clients can name, with a resume kind of the source. -/
structure TaskRecord.Plain (task : TaskRecord) : Prop where
  colonless : ':' ∉ task.taskId.toList
  canonical : task.Canonical

section Simulations

variable {B : BackendSettings} {K : Set String} {i : ℕ} {ch : BackendChoice} {b : Backend}
  {w : World} {task : TaskRecord} {taskId : String}

variable (B K i ch b w) in
/-- What the call returns over Redis and RabbitMQ, it can return in the world. -/
def Simulated (c : TaskCall) : Prop :=
  ∀ reply b', c.executeOn B i ch b = .ok (reply, b') →
    ∃ w', c.execute B.settings i ch.toTaskChoice w = .ok (reply, w') ∧ Mirrors B K b' w'

theorem Stored.eq_none {isDatetime : String → Bool} {r : Option TaskRecord}
    (h : Stored isDatetime none r) : r = none := by
  cases h
  rfl

theorem Stored.eq_some {isDatetime : String → Bool} {v : RedisValue} {r : Option TaskRecord}
    (h : Stored isDatetime (some v) r) : ∃ task stamps, stamps.Valid isDatetime ∧
      r = some task ∧ v = .string (task.dumpJson stamps) := by
  cases h with
  | present task stamps hstamps => exact ⟨task, stamps, hstamps, rfl, rfl⟩

/-- Only a text with a brace is a record. -/
theorem brace_of_validateJson {floatText : String → String} {isDatetime : String → Bool}
    {raw : String} (h : TaskRecord.validateJson floatText isDatetime raw = some task) :
    '{' ∈ raw.toList := by
  obtain ⟨d, hd, -⟩ := Option.bind_eq_some_iff.1 h
  obtain ⟨v, hv, hobj⟩ := Option.bind_eq_some_iff.1 hd
  cases v with
  | obj fields => exact Json.brace_of_loads hv
  | _ => cases hobj

/-- The text of a record is read back. -/
theorem Backend.getTask_dumpJson {taskId : String} {task : TaskRecord} {stamps : Timestamps}
    (hkey : b.keys (taskKey taskId) = some (.string (task.dumpJson stamps)))
    (htask : task.Canonical) (hcreated : B.isDatetime stamps.createdAt = true)
    (hupdated : B.isDatetime stamps.updatedAt = true) :
    b.getTask B taskId = .ok (some task) := by
  have hread : TaskRecord.validateJson B.floatText B.isDatetime (task.dumpJson stamps) =
      some task := TaskRecord.validateJson_dumpJson htask hcreated hupdated
  have hraw : task.dumpJson stamps ≠ "" := by
    intro hempty
    have hbrace := brace_of_validateJson hread
    rw [hempty] at hbrace
    exact absurd hbrace (by decide)
  simp only [Backend.getTask, Backend.get, bind, Except.bind, hkey, if_neg hraw, hread]
  rfl

namespace Mirrors

theorem stored (h : Mirrors B K b w) (hcolon : ':' ∉ taskId.toList) :
    Stored B.isDatetime (b.keys (taskKey taskId)) (w.records taskId) :=
  (h.keys _).record taskId hcolon rfl

theorem setNew_simulated (h : Mirrors B K b w) (hcolon : ':' ∉ task.taskId.toList)
    (hstamps : ch.stamps.Valid B.isDatetime) : Simulated B K i ch b w (.setNew task) := by
  intro reply b' hexec
  have hstored := h.stored hcolon
  simp only [TaskCall.executeOn] at hexec
  cases hkey : b.keys (taskKey task.taskId) with
  | none =>
      rw [hkey] at hstored hexec
      cases hexec
      exact ⟨w.store task, by simp only [TaskCall.execute, hstored.eq_none], h.store hcolon hstamps⟩
  | some v =>
      rw [hkey] at hstored hexec
      cases hexec
      obtain ⟨stored, stamps, -, hrecord, -⟩ := hstored.eq_some
      exact ⟨w, by simp only [TaskCall.execute, hrecord], h⟩

/-- `GET` of an idempotency key. -/
theorem get_reserved (h : Mirrors B K b w) {k : String} (hk : k ∈ K) :
    b.get (RedisStore.idempotencyKey B.digest k) = .ok (w.idempotencyKeys k) := by
  have hvalue := (h.keys _).idempotency k hk rfl
  rw [Backend.get, hvalue]
  cases w.idempotencyKeys k <;> rfl

/-- `GET` of a lease. -/
theorem get_lease (h : Mirrors B K b w) (taskId : String) :
    b.get (leaseKey taskId) = .ok ((w.leases taskId).map B.owner) := by
  have hvalue := (h.keys _).lease taskId rfl
  rw [Backend.get, hvalue]
  cases w.leases taskId <;> rfl

theorem createScript_simulated (h : Mirrors B K b w) (hK : Set.InjOn B.digest K)
    (hcolon : ':' ∉ task.taskId.toList) {k : String} (hk : k ∈ K)
    (hstamps : ch.stamps.Valid B.isDatetime) : Simulated B K i ch b w (.createScript task k) := by
  intro reply b' hexec
  have hstored := h.stored hcolon
  simp only [TaskCall.executeOn, h.get_reserved hk, bind, Except.bind] at hexec
  cases hreserved : w.idempotencyKeys k with
  | some existing =>
      rw [hreserved] at hexec
      cases hexec
      exact ⟨w, by simp only [TaskCall.execute, hreserved], h⟩
  | none =>
      rw [hreserved] at hexec
      cases hkey : b.keys (taskKey task.taskId) with
      | none =>
          rw [hkey] at hstored
          simp only [hkey] at hexec
          cases hexec
          refine ⟨{ w.store task with
            idempotencyKeys := Function.update w.idempotencyKeys k (some task.taskId) }, ?_, ?_⟩
          · simp only [TaskCall.execute, hreserved, hstored.eq_none]
          · exact (h.store hcolon hstamps).setKey hK hk (some task.taskId)
      | some v =>
          rw [hkey] at hstored
          simp only [hkey] at hexec
          cases hexec
          obtain ⟨stored, stamps, -, hrecord, -⟩ := hstored.eq_some
          exact ⟨w, by simp only [TaskCall.execute, hreserved, hrecord], h⟩

/-- The text of a stored record is read back. -/
theorem getTask_stored (h : Mirrors B K b w) (hplain : ∀ taskId task, w.records taskId = some task →
      task.taskId = taskId ∧ task.Plain) (hcolon : ':' ∉ taskId.toList) :
    b.getTask B taskId = .ok (w.records taskId) := by
  have hstored := h.stored hcolon
  cases hkey : b.keys (taskKey taskId) with
  | none =>
      rw [hkey] at hstored
      simp only [Backend.getTask, Backend.get, bind, Except.bind, hkey, hstored.eq_none]
      rfl
  | some v =>
      rw [hkey] at hstored
      obtain ⟨task, stamps, hstamps, hrecord, rfl⟩ := hstored.eq_some
      rw [hrecord]
      exact Backend.getTask_dumpJson hkey (hplain taskId task hrecord).2.canonical hstamps.1 hstamps.2

/-- `get_task` finds the record of its task and no other. -/
theorem getTask_eq (h : Mirrors B K b w) (hplain : ∀ taskId task, w.records taskId = some task →
      task.taskId = taskId ∧ task.Plain) {found : Option TaskRecord}
    (hfound : b.getTask B taskId = .ok found) : w.records taskId = found := by
  by_cases hcolon : ':' ∈ taskId.toList
  · have hnone : w.records taskId = none := by
      cases hrecord : w.records taskId with
      | none => rfl
      | some task =>
          obtain ⟨rfl, htask⟩ := hplain taskId task hrecord
          exact absurd hcolon htask.colonless
    rw [hnone]
    simp only [Backend.getTask, Backend.get, bind, Except.bind] at hfound
    cases hkey : b.keys (taskKey taskId) with
    | none =>
        rw [hkey] at hfound
        cases hfound
        rfl
    | some v =>
        rw [hkey] at hfound
        cases v with
        | stream => cases hfound
        | string raw =>
            obtain ⟨hraw, hbrace⟩ := (h.keys _).foreign taskId hcolon rfl raw hkey
            simp only [if_neg hraw] at hfound
            split at hfound
            · next task hread => exact absurd (brace_of_validateJson hread) hbrace
            · cases hfound
  · rw [h.getTask_stored hplain hcolon] at hfound
    exact Except.ok.inj hfound

/-- What the script of `transition_task` reads of a stored record. -/
theorem storedStatus_dumpJson (floatText : String → String) (task : TaskRecord)
    (stamps : Timestamps) :
    storedStatus floatText (task.dumpJson stamps) = .ok (some (.str task.status.value)) := by
  rw [storedStatus, TaskRecord.loads_dumpJson]
  simp [TaskRecord.modelDump, JsonObject.get?]

theorem transitionTask_simulated (h : Mirrors B K b w) (hcolon : ':' ∉ task.taskId.toList)
    (hstamps : ch.stamps.Valid B.isDatetime) (expectedStatus : TaskStatus) :
    Simulated B K i ch b w (.transitionTask task expectedStatus) := by
  intro reply b' hexec
  have hstored := h.stored hcolon
  simp only [TaskCall.executeOn, Backend.get, bind, Except.bind] at hexec
  cases hkey : b.keys (taskKey task.taskId) with
  | none =>
      rw [hkey] at hstored hexec
      cases hexec
      exact ⟨w, by simp only [TaskCall.execute, hstored.eq_none], h⟩
  | some v =>
      rw [hkey] at hstored hexec
      obtain ⟨current, stamps, -, hrecord, rfl⟩ := hstored.eq_some
      simp only [storedStatus_dumpJson, Option.bind_some, Json.str?_str, ne_eq, Option.some.injEq,
        TaskStatus.value_injective.eq_iff] at hexec
      by_cases hstatus : current.status = expectedStatus
      · rw [if_neg (not_not_intro hstatus)] at hexec
        cases hexec
        refine ⟨w.store task, ?_, h.store hcolon hstamps⟩
        simp only [TaskCall.execute, hrecord, ne_eq, if_neg (not_not_intro hstatus)]
      · rw [if_pos hstatus] at hexec
        cases hexec
        refine ⟨w, ?_, h⟩
        simp only [TaskCall.execute, hrecord, ne_eq, if_pos hstatus]

theorem acquireTaskLease_simulated (h : Mirrors B K b w)
    (howner : ∀ i, B.owner i ≠ "" ∧ '{' ∉ (B.owner i).toList) (taskId : String) (ttl : ℕ) :
    Simulated B K i ch b w (.acquireTaskLease taskId ttl) := by
  intro reply b' hexec
  have hvalue := (h.keys _).lease taskId rfl
  simp only [TaskCall.executeOn, hvalue] at hexec
  cases hlease : w.leases taskId with
  | none =>
      rw [hlease] at hexec
      cases hexec
      exact ⟨{ w with leases := Function.update w.leases taskId (some i) },
        by simp only [TaskCall.execute, hlease], h.setLease howner (some i)⟩
  | some j =>
      rw [hlease] at hexec
      cases hexec
      exact ⟨w, by simp only [TaskCall.execute, hlease], h⟩

theorem releaseTaskLease_simulated (h : Mirrors B K b w)
    (howner : ∀ i, B.owner i ≠ "" ∧ '{' ∉ (B.owner i).toList)
    (hinjective : Function.Injective B.owner) (taskId : String) :
    Simulated B K i ch b w (.releaseTaskLease taskId) := by
  intro reply b' hexec
  simp only [TaskCall.executeOn, h.get_lease, bind, Except.bind, pure, Except.pure, Except.ok.injEq,
    Prod.mk.injEq] at hexec
  obtain ⟨-, rfl⟩ := hexec
  have howned : (w.leases taskId).map B.owner = some (B.owner i) ↔ w.leases taskId = some i := by
    rw [← Option.map_some, Option.map_inj_right fun _ _ heq => hinjective heq]
  by_cases hlease : w.leases taskId = some i
  · rw [if_pos (howned.2 hlease)]
    exact ⟨{ w with leases := Function.update w.leases taskId none },
      by simp only [TaskCall.execute, if_pos hlease], h.setLease howner none⟩
  · rw [if_neg (howned.not.2 hlease)]
    exact ⟨w, by simp only [TaskCall.execute, if_neg hlease], h⟩

theorem hasTaskLease_simulated (h : Mirrors B K b w) (taskId : String) :
    Simulated B K i ch b w (.hasTaskLease taskId) := by
  intro reply b' hexec
  have hvalue := (h.keys _).lease taskId rfl
  cases hexec
  refine ⟨w, ?_, h⟩
  rw [hvalue, Option.isSome_map]
  rfl

/-- What `append_event` leaves of its keys is nothing that the world speaks of. -/
theorem report (h : Mirrors B K b w) (taskId : String) (sequence : Option ℕ) (added : Bool) :
    Mirrors B K (b.report taskId sequence added) w := by
  have hsequence : ∀ n : ℕ, Holds B K w (sequenceKey taskId) (some (.string (Nat.repr n))) := by
    intro n
    rw [sequenceKey_eq]
    refine .aside (colon_mem_append taskId (by decide)) ?_ ?_
    · intro other
      rw [← sequenceKey_eq]
      exact (leaseKey_ne_sequenceKey other taskId).symm
    · rintro text ⟨⟩
      have hdigits : (Nat.repr n).toList = Nat.toDigits 10 n := by simp [Nat.repr]
      constructor
      · intro hempty
        rw [hempty] at hdigits
        exact Nat.toDigits_ne_nil hdigits.symm
      · rw [hdigits]
        exact fun hbrace => absurd (Text.toDigits_isDigit n '{' hbrace) (by decide)
  have hevents : Holds B K w (eventKey taskId) (some .stream) := by
    rw [eventKey_eq]
    refine .aside (colon_mem_append taskId (by decide)) ?_ ?_
    · intro other
      rw [← eventKey_eq]
      exact (leaseKey_ne_eventKey other taskId).symm
    · rintro text ⟨⟩
  have hcounted : Mirrors B K (b.report taskId sequence false) w := by
    cases sequence with
    | none => exact h
    | some n => exact h.setAside (hsequence n)
  cases added with
  | false => exact hcounted
  | true => exact hcounted.setAside hevents

theorem appendEvent_simulated (h : Mirrors B K b w) (taskId : String) (event : TaskEvent) :
    Simulated B K i ch b w (.appendEvent taskId event) := by
  intro reply b' hexec
  cases hexec
  have hreported := h.report taskId ch.sequence ch.added
  exact ⟨{ w with events := w.events ++ [(taskId, event)] }, rfl,
    ⟨hreported.keys_of_eq rfl rfl rfl, hreported.queue, hreported.ledger, hreported.checkpoints⟩⟩

theorem publish_simulated (h : Mirrors B K b w) {payload : QueueMessage}
    (hpayload : payload.Canonical) : Simulated B K i ch b w (.publish payload) := by
  intro reply b' hexec
  have hbroker := Broker.publish_of_route (m := payload.dumpJson) h.queue.routed.tasks
    h.queue.routed.route
  simp only [TaskCall.executeOn, Backend.publish, hbroker] at hexec
  cases hexec
  exact ⟨w.enqueue payload, rfl, h.enqueue hpayload queueName_mem_waitingQueues⟩

theorem publishRetry_simulated (h : Mirrors B K b w) {payload : QueueMessage}
    (hpayload : payload.Canonical) : Simulated B K i ch b w (.publishRetry payload) := by
  intro reply b' hexec
  have hindex := retryIndex_lt payload.attempt
  have hbroker := Broker.publish_of_route (m := payload.dumpJson) h.queue.routed.retries
    (h.queue.routed.routeRetry _ hindex)
  simp only [TaskCall.executeOn, Backend.publish, hbroker] at hexec
  cases hexec
  exact ⟨w.enqueue payload, rfl, h.enqueue hpayload (retryQueueName_mem_waitingQueues hindex)⟩

/-- An operation of the commerce database. -/
theorem ledger_simulated {α : Type} (h : Mirrors B K b w) {r : Except Exn (α × Ledger)} {reply : α}
    {b' : Backend} (hexec : (r.map fun r => (r.1, { b with ledger := r.2 })) = .ok (reply, b')) :
    ∃ w', (r.map fun r => (r.1, { w with ledger := r.2 })) = .ok (reply, w') ∧
      Mirrors B K b' w' := by
  obtain ⟨⟨value, db⟩, rfl, hresult⟩ := exists_of_map_ok hexec
  cases hresult
  exact ⟨{ w with ledger := db }, rfl, h.keys_of_eq rfl rfl rfl, h.queue, rfl, h.checkpoints⟩

/-- A reading operation of the commerce database. -/
theorem read_simulated {α : Type} (h : Mirrors B K b w) {r : Except Exn α} {reply : α}
    {b' : Backend} (hexec : (r.map fun value => (value, b)) = .ok (reply, b')) :
    ∃ w', (r.map fun value => (value, w)) = .ok (reply, w') ∧ Mirrors B K b' w' := by
  obtain ⟨value, rfl, hresult⟩ := exists_of_map_ok hexec
  cases hresult
  exact ⟨w, rfl, h⟩

end Mirrors

end Simulations

end CommerceAgent
