import CommerceAgent.Effects.Transcript
import CommerceAgent.Tasks.System

/-!
# What the steps of the task system do

One statement for each part of the world: which calls change the records, the
leases, the queue and the commerce database, and how. The invariants of the
task system are derived from these and never unfold a call.
-/

namespace CommerceAgent

open Effects Relational

abbrev TaskExchange := Exchange Exn TaskCall TaskCall.Reply

/-- The record a call may store. -/
def TaskCall.written : TaskCall → Option TaskRecord
  | .setNew task | .createScript task _ | .saveTask _ task | .transitionTask task _ => some task
  | _ => none

namespace World

variable (w : World) (i : ℕ) (payload : QueueMessage)

@[simp] theorem settle_records : (w.settle i).records = w.records := rfl

@[simp] theorem enqueue_records : (w.enqueue payload).records = w.records := rfl

@[simp] theorem deliver_records : (w.deliver i payload).records = w.records := rfl

@[simp] theorem requeue_records : (w.requeue i).records = w.records := by
  unfold requeue
  split <;> rfl

@[simp] theorem requeue_leases : (w.requeue i).leases = w.leases := by
  unfold requeue
  split <;> rfl

@[simp] theorem deadLetter_leases : (w.deadLetter i).leases = w.leases := by
  unfold deadLetter
  split <;> rfl

@[simp] theorem requeue_checkpoints : (w.requeue i).checkpoints = w.checkpoints := by
  unfold requeue
  split <;> rfl

@[simp] theorem deadLetter_checkpoints : (w.deadLetter i).checkpoints = w.checkpoints := by
  unfold deadLetter
  split <;> rfl

@[simp] theorem deadLetter_records : (w.deadLetter i).records = w.records := by
  unfold deadLetter
  split <;> rfl

theorem store_records (task : TaskRecord) (taskId : String) :
    (w.store task).records taskId =
      if taskId = task.taskId then some task else w.records taskId := by
  simp [store, Function.update_apply]

@[simp] theorem store_inFlight (task : TaskRecord) : (w.store task).inFlight = w.inFlight := rfl
@[simp] theorem store_unacked (task : TaskRecord) : (w.store task).unacked = w.unacked := rfl
@[simp] theorem store_leases (task : TaskRecord) : (w.store task).leases = w.leases := rfl

theorem requeue_inFlight : (w.requeue i).inFlight = w.inFlight ++ (w.unacked i).toList := by
  unfold requeue
  split
  · next h => simp [enqueue, settle, h]
  · next h => simp [h]

theorem requeue_unacked : (w.requeue i).unacked = Function.update w.unacked i none := by
  unfold requeue
  split
  · rfl
  · next h => rw [← h, Function.update_eq_self]

theorem deadLetter_inFlight : (w.deadLetter i).inFlight = w.inFlight := by
  unfold deadLetter
  split <;> rfl

theorem deadLetter_unacked : (w.deadLetter i).unacked = Function.update w.unacked i none := by
  unfold deadLetter
  split
  · rfl
  · next h => rw [← h, Function.update_eq_self]

end World

theorem exists_of_map_ok {α β : Type} {x : Except Exn α} {f : α → β} {b : β}
    (h : x.map f = .ok b) : ∃ a, x = .ok a ∧ f a = b := by
  cases x with
  | error e => cases h
  | ok a => exact ⟨a, rfl, Except.ok.inj h⟩

theorem exists_of_bind_ok {α β : Type} {x : Except Exn α} {f : α → Except Exn β} {r : β}
    (h : x >>= f = .ok r) : ∃ a, x = .ok a ∧ f a = .ok r := by
  cases x with
  | error e => cases h
  | ok a => exact ⟨a, rfl, h⟩

variable {settings : Settings} {orchestrator : Orchestrator} {i : ℕ} {c : TaskCall}
  {ch : TaskChoice} {w w' : World} {r : Except Exn c.Reply}

/-- The reply says that the record was stored. -/
def TaskCall.wrote : (c : TaskCall) → c.Reply → Bool
  | .setNew _, created => created
  | .createScript .., reply => reply.2
  | .saveTask .., _ => true
  | .transitionTask .., transitioned => transitioned
  | _, _ => false

/-- A call stores its record exactly if it says so. -/
theorem wrote_of_execute {reply : c.Reply} (h : c.execute settings i ch w = .ok (reply, w')) :
    (c.wrote reply = true ∧ ∃ task, c.written = some task ∧
      w'.records = (w.store task).records) ∨
    (c.wrote reply = false ∧ w'.records = w.records) := by
  cases c with
  | setNew task =>
      simp only [TaskCall.execute] at h
      split at h <;> cases h
      · exact .inr ⟨rfl, rfl⟩
      · exact .inl ⟨rfl, task, rfl, rfl⟩
  | createScript task key =>
      simp only [TaskCall.execute] at h
      split at h
      · cases h
        exact .inr ⟨rfl, rfl⟩
      · split at h <;> cases h
        · exact .inr ⟨rfl, rfl⟩
        · exact .inl ⟨rfl, task, rfl, rfl⟩
  | saveTask site task =>
      cases h
      exact .inl ⟨rfl, task, rfl, rfl⟩
  | transitionTask task status =>
      simp only [TaskCall.execute] at h
      split at h
      · cases h
        exact .inr ⟨rfl, rfl⟩
      · split at h <;> cases h
        · exact .inr ⟨rfl, rfl⟩
        · exact .inl ⟨rfl, task, rfl, rfl⟩
  | acquireTaskLease taskId ttl | releaseTaskLease taskId =>
      simp only [TaskCall.execute] at h
      split at h <;> cases h <;> exact .inr ⟨rfl, rfl⟩
  | reject requeue =>
      cases h
      cases requeue <;> exact .inr ⟨rfl, by simp⟩
  | resolveProduct merchantId query | getMetrics merchantId productId | ledger lc
  | graph threadId lc =>
      obtain ⟨items, -, heq⟩ := exists_of_map_ok h
      cases heq
      exact .inr ⟨rfl, rfl⟩
  | _ =>
      cases h
      exact .inr ⟨rfl, rfl⟩

/-- A call leaves the records alone or stores the record it carries. -/
theorem records_of_execute {reply : c.Reply}
    (h : c.execute settings i ch w = .ok (reply, w')) :
    w'.records = w.records ∨
      ∃ task, c.written = some task ∧ w'.records = (w.store task).records :=
  (wrote_of_execute h).elim (fun h => .inr h.2) fun h => .inl h.2

/-- What an answered call leaves: the same world, or what its operation leaves. -/
theorem answer_cases
    (h : (taskMachine settings orchestrator).answer i c ch w = some (r, w')) :
    w' = w ∨ ∃ reply, c.execute settings i ch w = .ok (reply, w') :=
  Ending.answer_cases (Option.some.inj h)

theorem execute_of_answer {reply : c.Reply}
    (h : (taskMachine settings orchestrator).answer i c ch w = some (.ok reply, w')) :
    c.execute settings i ch w = .ok (reply, w') :=
  Ending.answer_ok (Option.some.inj h)

/-- A call that is lost leaves the world alone. -/
theorem eq_of_lost {e : Exn} (hlost : ch.ending = .lost e)
    (h : (taskMachine settings orchestrator).answer i c ch w = some (r, w')) :
    r = .error e ∧ w' = w := by
  have h := Option.some.inj h
  rw [hlost] at h
  cases hrun : c.execute settings i ch w <;> rw [hrun] at h <;>
    exact ⟨(congrArg Prod.fst h).symm, (congrArg Prod.snd h).symm⟩

/-- A call that returns ended as its operation does. -/
theorem done_of_answer {reply : c.Reply}
    (h : (taskMachine settings orchestrator).answer i c ch w = some (.ok reply, w')) :
    ch.ending = .done := by
  have h := Option.some.inj h
  cases hrun : c.execute settings i ch w <;> cases hending : ch.ending <;>
    rw [hrun, hending] at h <;> first | rfl | cases h

theorem records_of_answer
    (h : (taskMachine settings orchestrator).answer i c ch w = some (r, w')) :
    w'.records = w.records ∨
      ∃ task, c.written = some task ∧ w'.records = (w.store task).records := by
  rcases answer_cases h with rfl | ⟨reply, hrun⟩
  · exact .inl rfl
  · exact records_of_execute hrun

/-- A record that is read is the stored one. -/
theorem read_of_answer {site : Site} {taskId : String} {found : Option TaskRecord}
    (h : (taskMachine settings orchestrator).answer i (.getTask site taskId) ch w =
      some (.ok found, w')) : found = w.records taskId ∧ w' = w := by
  have hrun := execute_of_answer h
  cases hrun
  exact ⟨rfl, rfl⟩

theorem records_of_accept {q : TaskRequest} (h : q.accept i w = some w') :
    w'.records = w.records := by
  unfold TaskRequest.accept at h
  split at h
  · split at h <;> cases h
    rfl
  · cases h
    rfl

/-- A record stays as it is while it does not expire. -/
theorem records_of_unexpired {e : TaskEnvironment} (h : e.apply w = some w') {taskId : String}
    (he : e ≠ .expireRecord taskId) : w'.records taskId = w.records taskId := by
  cases e with
  | expireRecord expired =>
      cases h
      exact Function.update_of_ne (fun heq => he (by rw [heq])) ..
  | duplicate payload =>
      simp only [TaskEnvironment.apply] at h
      split at h <;> cases h
      rfl
  | redeliver j =>
      cases h
      simp
  | _ =>
      cases h
      rfl

/-- The environment forgets records and changes none. -/
theorem records_of_environment {e : TaskEnvironment} (h : e.apply w = some w') (taskId : String) :
    w'.records taskId = w.records taskId ∨ w'.records taskId = none := by
  by_cases he : e = .expireRecord taskId
  · subst he
    cases h
    exact .inr (Function.update_self ..)
  · exact .inl (records_of_unexpired h he)

/-- A record is stored under its own identifier. -/
def World.Keyed (w : World) : Prop :=
  ∀ taskId task, w.records taskId = some task → task.taskId = taskId

theorem World.keyed_fresh : World.fresh.Keyed := fun _ _ htask => by cases htask

theorem World.Keyed.answer (hw : w.Keyed)
    (h : (taskMachine settings orchestrator).answer i c ch w = some (r, w')) : w'.Keyed := by
  intro taskId task htask
  rcases records_of_answer h with hrecords | ⟨written, -, hrecords⟩
  · exact hw taskId task (hrecords ▸ htask)
  · rw [hrecords, World.store_records] at htask
    split at htask
    · next heq =>
        cases htask
        exact heq.symm
    · exact hw taskId task htask

theorem World.Keyed.environment (hw : w.Keyed) {e : TaskEnvironment} (h : e.apply w = some w') :
    w'.Keyed := by
  intro taskId task htask
  rcases records_of_environment h taskId with heq | heq
  · exact hw taskId task (heq ▸ htask)
  · rw [heq] at htask
    cases htask

theorem World.Keyed.of_records (hw : w.Keyed) (h : w'.records = w.records) : w'.Keyed := by
  rwa [World.Keyed, h]

/-- Only the repository's calls change the commerce database. -/
theorem ledger_of_answer (hc : c.ledgerCall = none)
    (h : (taskMachine settings orchestrator).answer i c ch w = some (r, w')) :
    w'.ledger = w.ledger := by
  rcases answer_cases h with rfl | ⟨reply, hrun⟩
  · rfl
  cases c with
  | ledger lc | graph threadId lc => cases hc
  | resolveProduct merchantId query | getMetrics merchantId productId =>
      obtain ⟨items, -, heq⟩ := exists_of_map_ok hrun
      cases heq
      rfl
  | reject requeue =>
      cases hrun
      cases requeue <;> simp [World.deadLetter, World.requeue] <;> split <;> rfl
  | setNew task | createScript task key | transitionTask task status | acquireTaskLease taskId ttl
  | releaseTaskLease taskId =>
      simp only [TaskCall.execute] at hrun
      repeat' split at hrun
      all_goals
        cases hrun
        rfl
  | _ =>
      cases hrun
      rfl

@[simp] theorem World.requeue_ledger (w : World) (i : ℕ) :
    (w.requeue i).ledger = w.ledger := by
  unfold World.requeue
  split <;> rfl

theorem ledger_of_accept {q : TaskRequest} (h : q.accept i w = some w') : w'.ledger = w.ledger := by
  unfold TaskRequest.accept at h
  split at h
  · split at h <;> cases h
    rfl
  · cases h
    rfl

theorem ledger_of_environment {e : TaskEnvironment} (h : e.apply w = some w') :
    w'.ledger = w.ledger := by
  cases e with
  | duplicate payload =>
      simp only [TaskEnvironment.apply] at h
      split at h <;> cases h
      rfl
  | redeliver j =>
      cases h
      simp
  | _ =>
      cases h
      rfl

/-- The repository's calls are answered as in a ledger of their own. -/
theorem ledgerMachine_of_answer {lc : LedgerCall} {r : Except Exn lc.Reply}
    (h : (taskMachine settings orchestrator).answer i (.ledger lc) ch w = some (r, w')) :
    (ledgerMachine settings.catalog).answer i lc ⟨ch.token, ch.ending⟩ w.ledger =
      some (r, w'.ledger) ∧ w' = { w with ledger := w'.ledger } := by
  have h := Option.some.inj h
  simp only [TaskCall.execute] at h
  simp only [ledgerMachine, Option.some.injEq]
  cases hrun : lc.execute ch.token w.ledger with
  | error e =>
      rw [hrun] at h
      cases hending : ch.ending <;>
        simp only [hending, Except.map, Ending.answer, Prod.mk.injEq] at h <;>
        obtain ⟨rfl, rfl⟩ := h <;> exact ⟨rfl, rfl⟩
  | ok reply =>
      rw [hrun] at h
      cases hending : ch.ending <;>
        simp only [hending, Except.map, Ending.answer, Prod.mk.injEq] at h <;>
        obtain ⟨rfl, rfl⟩ := h <;> exact ⟨rfl, rfl⟩

/-- Whatever a call changes of the commerce database is what its repository step writes. -/
theorem writes_of_answer (h : (taskMachine settings orchestrator).answer i c ch w = some (r, w')) :
    w'.ledger = w.ledger ∨ ∃ lc, c.ledgerCall = some lc ∧ Writes lc w.ledger w'.ledger := by
  rcases answer_cases h with rfl | ⟨reply, hrun⟩
  · exact .inl rfl
  cases c with
  | ledger lc | graph threadId lc =>
      obtain ⟨b, hexecute, heq⟩ := exists_of_map_ok hrun
      cases heq
      exact .inr ⟨lc, rfl, writes_of_execute hexecute⟩
  | _ => exact .inl (ledger_of_answer rfl h)

/-- The call takes effect. -/
def TaskChoice.Effective (ch : TaskChoice) : Prop := ∀ e, ch.ending ≠ .lost e

instance (ch : TaskChoice) : Decidable ch.Effective :=
  match h : ch.ending with
  | .lost e => .isFalse fun heffective => heffective e h
  | .done => .isTrue fun _ heq => by
      rw [h] at heq
      cases heq
  | .late _ => .isTrue fun _ heq => by
      rw [h] at heq
      cases heq

/-- The call stores its record. -/
def TaskCall.stores (settings : Settings) (i : ℕ) (c : TaskCall) (ch : TaskChoice) (w : World) :
    Bool :=
  match ch.ending, c.execute settings i ch w with
  | .lost _, _ => false
  | _, .ok (reply, _) => c.wrote reply
  | _, .error _ => false

/-- A call stores its record, or leaves the records alone. -/
theorem stores_of_answer
    (h : (taskMachine settings arbitraryRun).answer i c ch w = some (r, w')) :
    (c.stores settings i ch w = true ∧ ch.Effective ∧
      ∃ reply, c.execute settings i ch w = .ok (reply, w') ∧ c.wrote reply = true) ∨
    (c.stores settings i ch w = false ∧ w'.records = w.records) := by
  have hanswer := Option.some.inj h
  cases hending : ch.ending with
  | lost e => exact .inr ⟨by simp [TaskCall.stores, hending], by rw [(eq_of_lost hending h).2]⟩
  | done | late e =>
      cases hrun : c.execute settings i ch w with
      | error e' =>
          rw [hrun, hending] at hanswer
          cases hanswer
          exact .inr ⟨by simp [TaskCall.stores, hrun, hending], rfl⟩
      | ok reply =>
          obtain ⟨reply, w₁⟩ := reply
          rw [hrun, hending] at hanswer
          cases hanswer
          rcases wrote_of_execute hrun with ⟨hwrote, -⟩ | ⟨hwrote, hrecords⟩
          · refine .inl ⟨by simp [TaskCall.stores, hrun, hending, hwrote], ?_, reply, rfl, hwrote⟩
            intro e heq
            rw [hending] at heq
            cases heq
          · exact .inr ⟨by simp [TaskCall.stores, hrun, hending, hwrote], hrecords⟩

/-- The call gives up the message of its handler. -/
def TaskCall.settles : TaskCall → Bool
  | .ack | .reject _ => true
  | _ => false

/-- The message a call puts on a queue. -/
def TaskCall.sent : TaskCall → Option QueueMessage
  | .publish payload | .publishRetry payload => some payload
  | _ => none

/-- What a call does to the queue: it takes no message from it, and puts there what
it publishes or returns; it touches no delivery but that of its own handler, and
that only to settle it. -/
structure QueueStep (i : ℕ) (c : TaskCall) (w w' : World) : Prop where
  inFlight : ∀ payload ∈ w.inFlight, payload ∈ w'.inFlight
  sent : ∀ payload ∈ w'.inFlight,
    payload ∈ w.inFlight ∨ c.sent = some payload ∨ w.unacked i = some payload
  others : ∀ j, j ≠ i → w'.unacked j = w.unacked j
  settled : ∀ j payload, w'.unacked j = some payload → w.unacked j = some payload
  own : c.settles = false → w'.unacked i = w.unacked i

theorem QueueStep.of_eq (hflight : w'.inFlight = w.inFlight) (hunacked : w'.unacked = w.unacked) :
    QueueStep i c w w' :=
  ⟨fun _ h => hflight ▸ h, fun _ h => .inl (hflight ▸ h), fun _ _ => by rw [hunacked],
    fun _ _ h => hunacked ▸ h, fun _ => by rw [hunacked]⟩

/-- To settle a message is to forget it, and perhaps to return it. -/
theorem QueueStep.of_settle (hc : c.settles = true)
    (hflight : ∀ payload ∈ w.inFlight, payload ∈ w'.inFlight)
    (hsent : ∀ payload ∈ w'.inFlight, payload ∈ w.inFlight ∨ w.unacked i = some payload)
    (hunacked : w'.unacked = Function.update w.unacked i none) : QueueStep i c w w' where
  inFlight := hflight
  sent payload h := (hsent payload h).imp_right .inr
  others j hj := by rw [hunacked, Function.update_of_ne hj]
  settled j payload h := by
    rw [hunacked, Function.update_apply] at h
    split at h
    · cases h
    · exact h
  own h := by
    rw [hc] at h
    cases h

theorem queueStep_of_execute {reply : c.Reply} (h : c.execute settings i ch w = .ok (reply, w')) :
    QueueStep i c w w' := by
  cases c with
  | setNew task | createScript task key | transitionTask task status | acquireTaskLease taskId ttl
  | releaseTaskLease taskId =>
      simp only [TaskCall.execute] at h
      repeat' split at h
      all_goals
        cases h
        exact .of_eq rfl rfl
  | publish payload | publishRetry payload =>
      cases h
      refine ⟨fun m hm => List.mem_append_left _ hm, fun m hm => ?_, fun _ _ => rfl,
        fun _ _ h => h, fun _ => rfl⟩
      rcases List.mem_append.1 hm with hm | hm
      · exact .inl hm
      · exact .inr (.inl (by rw [List.mem_singleton.1 hm]; rfl))
  | ack =>
      cases h
      exact .of_settle rfl (fun _ h => h) (fun _ h => .inl h) rfl
  | reject requeue =>
      cases h
      cases requeue with
      | false =>
          apply QueueStep.of_settle rfl
          · simp [World.deadLetter_inFlight]
          · simp +contextual [World.deadLetter_inFlight]
          · exact w.deadLetter_unacked i
      | true =>
          apply QueueStep.of_settle rfl
          · simp +contextual [World.requeue_inFlight]
          · simp [World.requeue_inFlight]
          · exact w.requeue_unacked i
  | resolveProduct merchantId query | getMetrics merchantId productId | ledger lc
  | graph threadId lc =>
      obtain ⟨items, -, heq⟩ := exists_of_map_ok h
      cases heq
      exact .of_eq rfl rfl
  | _ =>
      cases h
      exact .of_eq rfl rfl

theorem queueStep_of_answer
    (h : (taskMachine settings orchestrator).answer i c ch w = some (r, w')) :
    QueueStep i c w w' := by
  rcases answer_cases h with rfl | ⟨reply, hrun⟩
  · exact .of_eq rfl rfl
  · exact queueStep_of_execute hrun

/-- The message is on a queue, or delivered and not settled. -/
def World.Carried (w : World) (payload : QueueMessage) : Prop :=
  payload ∈ w.inFlight ∨ ∃ j, w.unacked j = some payload

theorem carried_of_answer
    (h : (taskMachine settings orchestrator).answer i c ch w = some (r, w'))
    {payload : QueueMessage} (hcarried : w'.Carried payload) :
    w.Carried payload ∨ c.sent = some payload := by
  have hqueue := queueStep_of_answer h
  rcases hcarried with hflight | ⟨j, hj⟩
  · rcases hqueue.sent payload hflight with hold | hsent | hown
    · exact .inl (.inl hold)
    · exact .inr hsent
    · exact .inl (.inr ⟨i, hown⟩)
  · exact .inl (.inr ⟨j, hqueue.settled j payload hj⟩)

theorem carried_of_accept {q : TaskRequest} (h : q.accept i w = some w') {payload : QueueMessage}
    (hcarried : w'.Carried payload) : w.Carried payload := by
  unfold TaskRequest.accept at h
  split at h
  · next taken =>
      split at h <;> cases h
      next hmem =>
      rcases hcarried with hflight | ⟨j, hj⟩
      · exact .inl (List.mem_of_mem_erase hflight)
      · simp only [World.deliver, Function.update_apply] at hj
        split at hj
        · cases hj
          exact .inl hmem
        · exact .inr ⟨j, hj⟩
  · cases h
    exact hcarried

/-- A handler starts on a message that is on a queue. -/
theorem carried_of_handled {payload : QueueMessage}
    (h : (TaskRequest.handleMessage (.ok payload)).accept i w = some w') : w.Carried payload := by
  simp only [TaskRequest.accept] at h
  split at h
  · next hmem => exact .inl hmem
  · cases h

theorem carried_of_requeue {payload : QueueMessage} (h : (w.requeue i).Carried payload) :
    w.Carried payload := by
  rcases h with hflight | ⟨j, hj⟩
  · rw [World.requeue_inFlight, List.mem_append, Option.mem_toList] at hflight
    exact hflight.imp id fun hown => ⟨i, hown⟩
  · rw [World.requeue_unacked, Function.update_apply] at hj
    split at hj
    · cases hj
    · exact .inr ⟨j, hj⟩

theorem carried_of_environment {e : TaskEnvironment} (h : e.apply w = some w')
    {payload : QueueMessage} (hcarried : w'.Carried payload) : w.Carried payload := by
  cases e with
  | duplicate copied =>
      simp only [TaskEnvironment.apply] at h
      split at h <;> cases h
      next hmem =>
      rcases hcarried with hflight | hunacked
      · rcases List.mem_append.1 hflight with hold | hnew
        · exact .inl hold
        · rw [List.mem_singleton.1 hnew]
          exact .inl hmem
      · exact .inr hunacked
  | redeliver j =>
      cases h
      exact carried_of_requeue hcarried
  | _ =>
      cases h
      exact hcarried

/-- An acquired lease was free, and only its owner gives a lease back. -/
structure LeaseStep (i : ℕ) (w w' : World) : Prop where
  kept : ∀ taskId j, j ≠ i → w.leases taskId = some j → w'.leases taskId = some j
  taken : ∀ taskId j, w'.leases taskId = some j → w.leases taskId = some j ∨
    (j = i ∧ w.leases taskId = none)

theorem LeaseStep.of_eq (h : w'.leases = w.leases) : LeaseStep i w w' :=
  ⟨fun _ _ _ hl => h ▸ hl, fun _ _ hl => .inl (h ▸ hl)⟩

theorem leaseStep_of_execute {reply : c.Reply} (h : c.execute settings i ch w = .ok (reply, w')) :
    LeaseStep i w w' := by
  cases c with
  | setNew task | createScript task key | transitionTask task status =>
      simp only [TaskCall.execute] at h
      repeat' split at h
      all_goals
        cases h
        exact .of_eq rfl
  | acquireTaskLease taskId ttl =>
      simp only [TaskCall.execute] at h
      split at h <;> cases h
      · exact .of_eq rfl
      · next hfree =>
          constructor
          · intro taskId' j hj hl
            by_cases heq : taskId' = taskId
            · rw [heq, hfree] at hl
              cases hl
            · simpa [Function.update_of_ne heq] using hl
          · intro taskId' j hl
            by_cases heq : taskId' = taskId
            · subst heq
              have hij : i = j := by simpa using hl
              exact .inr ⟨hij.symm, hfree⟩
            · exact .inl (by simpa [Function.update_of_ne heq] using hl)
  | releaseTaskLease taskId =>
      simp only [TaskCall.execute] at h
      split at h <;> cases h
      · next hown =>
          constructor
          · intro taskId' j hj hl
            by_cases heq : taskId' = taskId
            · rw [heq, hown] at hl
              exact absurd (Option.some.inj hl).symm hj
            · simpa [Function.update_of_ne heq] using hl
          · intro taskId' j hl
            by_cases heq : taskId' = taskId
            · simp [heq] at hl
            · exact .inl (by simpa [Function.update_of_ne heq] using hl)
      · exact .of_eq rfl
  | reject requeue =>
      cases h
      cases requeue <;> exact .of_eq (by simp)
  | resolveProduct merchantId query | getMetrics merchantId productId | ledger lc
  | graph threadId lc =>
      obtain ⟨items, -, heq⟩ := exists_of_map_ok h
      cases heq
      exact .of_eq rfl
  | _ =>
      cases h
      exact .of_eq rfl

theorem leaseStep_of_answer
    (h : (taskMachine settings orchestrator).answer i c ch w = some (r, w')) :
    LeaseStep i w w' := by
  rcases answer_cases h with rfl | ⟨reply, hrun⟩
  · exact .of_eq rfl
  · exact leaseStep_of_execute hrun

/-- Only `acquire_task_lease` and `release_task_lease` touch the leases. -/
theorem leases_of_answer (hacquire : ∀ taskId ttl, c ≠ .acquireTaskLease taskId ttl)
    (hrelease : ∀ taskId, c ≠ .releaseTaskLease taskId)
    (h : (taskMachine settings orchestrator).answer i c ch w = some (r, w')) :
    w'.leases = w.leases := by
  rcases answer_cases h with rfl | ⟨reply, hrun⟩
  · rfl
  cases c with
  | acquireTaskLease taskId ttl => exact absurd rfl (hacquire taskId ttl)
  | releaseTaskLease taskId => exact absurd rfl (hrelease taskId)
  | setNew task | createScript task key | transitionTask task status =>
      simp only [TaskCall.execute] at hrun
      repeat' split at hrun
      all_goals
        cases hrun
        rfl
  | reject requeue =>
      cases hrun
      cases requeue <;> simp
  | resolveProduct merchantId query | getMetrics merchantId productId | ledger lc
  | graph threadId lc =>
      obtain ⟨items, -, heq⟩ := exists_of_map_ok hrun
      cases heq
      rfl
  | _ =>
      cases hrun
      rfl

theorem leases_of_accept {q : TaskRequest} (h : q.accept i w = some w') :
    w'.leases = w.leases := by
  unfold TaskRequest.accept at h
  split at h
  · split at h <;> cases h
    rfl
  · cases h
    rfl

/-- The environment lets leases expire and grants none. -/
theorem leases_of_environment {e : TaskEnvironment} (h : e.apply w = some w') {taskId : String}
    {j : ℕ} (hj : w'.leases taskId = some j) : w.leases taskId = some j := by
  cases e with
  | expireLease expired =>
      cases h
      by_cases heq : taskId = expired
      · simp [heq] at hj
      · simpa [Function.update_of_ne heq] using hj
  | duplicate payload =>
      simp only [TaskEnvironment.apply] at h
      split at h <;> cases h
      exact hj
  | redeliver k =>
      cases h
      simpa using hj
  | _ =>
      cases h
      exact hj

/-- A lease stays as it is while it does not expire. -/
theorem leases_of_unexpired {e : TaskEnvironment} (h : e.apply w = some w') {taskId : String}
    (he : e ≠ .expireLease taskId) : w'.leases taskId = w.leases taskId := by
  cases e with
  | expireLease expired =>
      cases h
      exact Function.update_of_ne (fun heq => he (by rw [heq])) ..
  | duplicate payload =>
      simp only [TaskEnvironment.apply] at h
      split at h <;> cases h
      rfl
  | redeliver j =>
      cases h
      simp
  | _ =>
      cases h
      rfl

/-- Only the checkpointer's commits change the checkpoints. -/
theorem checkpoints_of_answer
    (h : (taskMachine settings orchestrator).answer i c ch w = some (r, w')) :
    w'.checkpoints = w.checkpoints ∨ ∃ threadId checkpoint, c = .putCheckpoint threadId checkpoint ∧
      w'.checkpoints = Function.update w.checkpoints threadId (some checkpoint) := by
  rcases answer_cases h with rfl | ⟨reply, hrun⟩
  · exact .inl rfl
  cases c with
  | putCheckpoint threadId checkpoint =>
      cases hrun
      exact .inr ⟨threadId, checkpoint, rfl, rfl⟩
  | setNew task | createScript task key | transitionTask task status | acquireTaskLease taskId ttl
  | releaseTaskLease taskId =>
      simp only [TaskCall.execute] at hrun
      repeat' split at hrun
      all_goals
        cases hrun
        exact .inl rfl
  | reject requeue =>
      cases hrun
      cases requeue <;> exact .inl (by simp)
  | resolveProduct merchantId query | getMetrics merchantId productId | ledger lc
  | graph threadId lc =>
      obtain ⟨items, -, heq⟩ := exists_of_map_ok hrun
      cases heq
      exact .inl rfl
  | _ =>
      cases hrun
      exact .inl rfl

theorem checkpoints_of_accept {q : TaskRequest} (h : q.accept i w = some w') :
    w'.checkpoints = w.checkpoints := by
  unfold TaskRequest.accept at h
  split at h
  · split at h <;> cases h
    rfl
  · cases h
    rfl

theorem checkpoints_of_environment {e : TaskEnvironment} (h : e.apply w = some w') :
    w'.checkpoints = w.checkpoints := by
  cases e with
  | duplicate payload =>
      simp only [TaskEnvironment.apply] at h
      split at h <;> cases h
      rfl
  | redeliver j =>
      cases h
      simp
  | _ =>
      cases h
      rfl

end CommerceAgent
