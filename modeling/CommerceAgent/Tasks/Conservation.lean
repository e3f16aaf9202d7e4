import CommerceAgent.Effects.Observation
import CommerceAgent.Tasks.Refinement

/-!
# No message is lost

Every text that was published has been acknowledged, waits on a queue or is held by a handler,
and as often as it was published: whatever the handlers do, and whenever they crash, lose their
channels or wait for a retry, no text disappears and none becomes two. The texts of the dead
queue are those that were rejected, in the order of the rejections.
-/

namespace CommerceAgent

open Effects Messaging TaskQueue
open scoped List

/-- The queues that `connect` declares. -/
def allQueues : List String := deadQueueName :: waitingQueues

/-- The texts that some handlers have not settled. -/
def Backend.holdings (n : ℕ) (b : Backend) : List String :=
  (List.range n).flatMap fun i => (b.unacked i).toList

/-- The texts on the queues and with the handlers below `n`. -/
def Backend.texts (n : ℕ) (b : Backend) : List String := b.broker.held allQueues ++ b.holdings n

def TaskCall.acknowledges : TaskCall → Bool
  | .ack => true
  | _ => false

/-- The message is rejected for good. -/
def TaskCall.rejects : TaskCall → Bool
  | .reject requeue => !requeue
  | _ => false

/-- The text that a call publishes. -/
def TaskCall.publishes (c : TaskCall) : List String := (c.sent.map QueueMessage.dumpJson).toList

/-- The call that a step carries out, with its process. -/
def carriedOut (v : BackendConfig × BackendAction) : Option (ℕ × TaskCall) :=
  ((Machine.answered v).filter fun m => m.2.2.ending.effective).map fun m => (m.1, m.2.1)

/-- The texts that a step publishes. -/
def published (v : BackendConfig × BackendAction) : List String :=
  match v.2 with
  | .environment (.foreign text) => [text]
  | _ => (carriedOut v).elim [] fun m => m.2.publishes

/-- The texts that a step acknowledges. -/
def acknowledged (v : BackendConfig × BackendAction) : List String :=
  (carriedOut v).elim [] fun m =>
    if m.2.acknowledges then (v.1.state.unacked m.1).toList else []

/-- The texts that a step rejects. -/
def rejected (v : BackendConfig × BackendAction) : List String :=
  (carriedOut v).elim [] fun m => if m.2.rejects then (v.1.state.unacked m.1).toList else []

/-- What a step does to the texts: some are published and some acknowledged, and some come to
the dead queue. -/
structure Moved (n : ℕ) (b b' : Backend) (come gone dead : List String) : Prop where
  topology : b'.broker.topology = b.broker.topology
  deadLetters : b'.broker.ready deadQueueName = b.broker.ready deadQueueName ++ dead
  texts : (gone ++ b'.texts n).Perm (b.texts n ++ come)

section Moves

theorem allQueues_nodup : allQueues.Nodup :=
  List.nodup_cons.2 ⟨deadQueueName_notMem_waitingQueues, waitingQueues_nodup⟩

theorem deadQueueName_mem_allQueues : deadQueueName ∈ allQueues := List.mem_cons_self

theorem mem_allQueues {queue : String} (h : queue ∈ waitingQueues) : queue ∈ allQueues :=
  List.mem_cons_of_mem _ h

variable {n i : ℕ} {b b' : Backend} {body queue : String} {come gone dead : List String}
  {broker' : Broker String}

/-- One handler holds another text. -/
theorem holdings_update (hi : i < n) (o : Option String)
    (h : b'.unacked = Function.update b.unacked i o) :
    (b'.holdings n ++ (b.unacked i).toList).Perm (b.holdings n ++ o.toList) := by
  have hself : b'.unacked i = o := by rw [h, Function.update_self]
  rw [← hself]
  refine flatMap_update_perm (f := fun j => (b.unacked j).toList) List.nodup_range
    (List.mem_range.2 hi) fun j hne => ?_
  rw [h, Function.update_of_ne hne]

namespace Moved

/-- Neither a queue nor a handler is touched. -/
theorem of_eq (hbroker : b'.broker = b.broker) (hunacked : b'.unacked = b.unacked) :
    Moved n b b' [] [] [] where
  topology := by rw [hbroker]
  deadLetters := by rw [hbroker, List.append_nil]
  texts := by
    rw [List.append_nil, List.nil_append, Backend.texts, Backend.texts, Backend.holdings, hbroker,
      hunacked]
    rfl

theorem push (hqueue : queue ∈ waitingQueues) :
    Moved n b { b with broker := b.broker.push body queue } [body] [] [] where
  topology := rfl
  deadLetters := by
    rw [List.append_nil]
    exact Broker.push_ready_ne b.broker (ne_deadQueueName hqueue)
  texts := by
    have hheld : ((b.broker.push body queue).held allQueues).Perm
        (b.broker.held allQueues ++ [body]) :=
      Broker.held_push allQueues_nodup (mem_allQueues hqueue)
    have hswap : ((b.broker.held allQueues ++ [body]) ++ b.holdings n).Perm
        (b.texts n ++ [body]) := by
      rw [Backend.texts, List.append_assoc, List.append_assoc]
      exact List.perm_append_comm.append_left _
    exact (hheld.append_right _).trans hswap

/-- The text of a handler is forgotten. -/
theorem settle (hi : i < n) : Moved n b (b.settle i) [] (b.unacked i).toList [] where
  topology := rfl
  deadLetters := (List.append_nil _).symm
  texts := by
    have hholdings : ((b.settle i).holdings n ++ (b.unacked i).toList).Perm
        (b.holdings n ++ []) := holdings_update hi none rfl
    have hfront : ((b.unacked i).toList ++ (b.settle i).texts n).Perm
        (b.broker.held allQueues ++ ((b.settle i).holdings n ++ (b.unacked i).toList)) := by
      rw [← List.append_assoc]
      exact List.perm_append_comm
    refine hfront.trans ?_
    rw [Backend.texts, List.append_assoc]
    exact hholdings.append_left _

/-- The text of a handler is put on a queue. -/
theorem returned (hi : i < n) (hbody : b.unacked i = some body)
    (hunacked : b'.unacked = Function.update b.unacked i none)
    (hheld : (b'.broker.held allQueues).Perm (body :: b.broker.held allQueues)) :
    (b'.texts n).Perm (b.texts n) := by
  have hholdings : (b'.holdings n ++ [body]).Perm (b.holdings n) := by
    have hupdate := holdings_update hi none hunacked
    rw [hbody] at hupdate
    simpa using hupdate
  calc b'.broker.held allQueues ++ b'.holdings n
      _ ~ (b.broker.held allQueues ++ [body]) ++ b'.holdings n :=
        (hheld.trans (List.perm_append_singleton _ _).symm).append_right _
      _ ~ b.broker.held allQueues ++ (b'.holdings n ++ [body]) := by
        rw [List.append_assoc]
        exact List.perm_append_comm.append_left _
      _ ~ b.broker.held allQueues ++ b.holdings n := hholdings.append_left _

theorem requeue (hi : i < n) : Moved n b (b.requeue i) [] [] [] := by
  cases hbody : b.unacked i with
  | none =>
      have hsame : b.requeue i = b := by rw [Backend.requeue, hbody]
      rw [hsame]
      exact of_eq rfl rfl
  | some body =>
      have hback : b.requeue i = { b.settle i with broker := b.broker.restore queueName body } := by
        rw [Backend.requeue, hbody]
      rw [hback]
      refine ⟨rfl, ?_, ?_⟩
      · rw [List.append_nil]
        exact Broker.restore_ready_ne b.broker (ne_deadQueueName queueName_mem_waitingQueues)
      · rw [List.append_nil, List.nil_append]
        exact returned hi hbody rfl
          (Broker.held_restore allQueues_nodup (mem_allQueues queueName_mem_waitingQueues))

theorem deadLetter (hrouted : Routed b.broker.topology) (hi : i < n) :
    Moved n b (b.deadLetter i) [] [] (b.unacked i).toList := by
  cases hbody : b.unacked i with
  | none =>
      have hsame : b.deadLetter i = b := by rw [Backend.deadLetter, hbody]
      rw [hsame]
      exact of_eq rfl rfl
  | some body =>
      have hqueue : (b.broker.topology.queues.lookup queueName).bind QueueArguments.deadLetter =
          some (deadExchangeName, deadRoutingKey) := by
        rw [hrouted.queue]
        rfl
      have hdead : b.deadLetter i =
          { b.settle i with broker := b.broker.push body deadQueueName } := by
        rw [Backend.deadLetter, hbody]
        simp only [Broker.deadLetter_of_route hqueue hrouted.routeDead]
      rw [hdead]
      refine ⟨rfl, ?_, ?_⟩
      · rw [Broker.push_ready, if_pos rfl, Option.toList_some]
      · rw [List.append_nil, List.nil_append]
        exact returned hi hbody rfl ((Broker.held_push allQueues_nodup
          deadQueueName_mem_allQueues).trans (List.perm_append_singleton _ _))

/-- A handler without a text is given one of the queue. -/
theorem deliver (hi : i < n) (hidle : b.unacked i = none) {p : String → Bool}
    (htake : b.broker.take queueName p = some (body, broker')) :
    Moved n b
      { b with broker := broker', unacked := Function.update b.unacked i (some body) }
      [] [] [] := by
  set b' : Backend :=
    { b with broker := broker', unacked := Function.update b.unacked i (some body) }
  obtain ⟨-, htopology, hother, hheld⟩ :=
    Broker.held_take allQueues_nodup (mem_allQueues queueName_mem_waitingQueues) htake
  have hholdings : (b'.holdings n).Perm (b.holdings n ++ [body]) := by
    have hupdate : (b'.holdings n ++ (b.unacked i).toList).Perm
        (b.holdings n ++ (some body).toList) := holdings_update hi (some body) rfl
    rw [hidle] at hupdate
    simpa using hupdate
  refine ⟨htopology, ?_, ?_⟩
  · rw [List.append_nil]
    exact hother _ (ne_deadQueueName queueName_mem_waitingQueues)
  · rw [List.append_nil, List.nil_append]
    calc broker'.held allQueues ++ b'.holdings n
        _ ~ broker'.held allQueues ++ (b.holdings n ++ [body]) := hholdings.append_left _
        _ ~ broker'.held allQueues ++ ([body] ++ b.holdings n) :=
          List.perm_append_comm.append_left _
        _ ~ (body :: broker'.held allQueues) ++ b.holdings n := by
          rw [← List.append_assoc]
          exact (List.perm_append_singleton _ _).append_right _
        _ ~ b.broker.held allQueues ++ b.holdings n := hheld.symm.append_right _

/-- A text whose time on a retry queue has ended goes to the queue of the workers. -/
theorem expire (hrouted : Routed b.broker.topology) (hwithin : Within b.broker.topology)
    (h : b.broker.expire queue = some broker') :
    Moved n b { b with broker := broker' } [] [] [] := by
  obtain ⟨hqueue, hdead⟩ := expired_queue hwithin h
  obtain ⟨htopology, hother, hheld⟩ := Broker.held_expire allQueues_nodup (mem_allQueues hqueue)
    (mem_allQueues queueName_mem_waitingQueues) hdead hrouted.route h
  refine ⟨htopology, ?_, ?_⟩
  · rw [List.append_nil]
    exact hother _ (ne_deadQueueName hqueue) (ne_deadQueueName queueName_mem_waitingQueues)
  · rw [List.append_nil, List.nil_append]
    exact hheld.append_right _

end Moved

end Moves

section Steps

variable {B : BackendSettings} {orchestrator : Orchestrator} {n i : ℕ} {ch : BackendChoice}
  {b b' : Backend} {c : TaskCall}

/-- A call that neither publishes nor settles a message leaves the messages as they are. -/
theorem executeOn_messages (hsent : c.sent = none) (hack : c.acknowledges = false)
    (hreject : ∀ requeue, c ≠ .reject requeue) {reply : c.Reply}
    (hexec : c.executeOn B i ch b = .ok (reply, b')) :
    b'.broker = b.broker ∧ b'.unacked = b.unacked := by
  cases c with
  | setNew task =>
      simp only [TaskCall.executeOn] at hexec
      split at hexec <;> cases hexec <;> exact ⟨rfl, rfl⟩
  | createScript task key =>
      obtain ⟨found, hfound, hexec⟩ := exists_of_bind_ok hexec
      cases found with
      | some existing =>
          cases hexec
          exact ⟨rfl, rfl⟩
      | none =>
          simp only at hexec
          split at hexec <;> cases hexec <;> exact ⟨rfl, rfl⟩
  | transitionTask task status =>
      obtain ⟨found, hfound, hexec⟩ := exists_of_bind_ok hexec
      cases found with
      | none =>
          cases hexec
          exact ⟨rfl, rfl⟩
      | some raw =>
          obtain ⟨stored, hstored, hexec⟩ := exists_of_bind_ok hexec
          split at hexec <;> cases hexec <;> exact ⟨rfl, rfl⟩
  | acquireTaskLease taskId ttl =>
      simp only [TaskCall.executeOn] at hexec
      split at hexec <;> cases hexec <;> exact ⟨rfl, rfl⟩
  | releaseTaskLease taskId =>
      obtain ⟨owner, howner, hexec⟩ := exists_of_bind_ok hexec
      cases hexec
      split <;> exact ⟨rfl, rfl⟩
  | appendEvent taskId event =>
      cases hexec
      unfold Backend.report
      cases ch.sequence <;> cases ch.added <;> exact ⟨rfl, rfl⟩
  | getTask site taskId | resolveProduct merchantId query | getMetrics merchantId productId =>
      obtain ⟨found, -, hreply⟩ := exists_of_map_ok hexec
      cases hreply
      exact ⟨rfl, rfl⟩
  | ledger lc | graph threadId lc =>
      obtain ⟨found, -, hreply⟩ := exists_of_map_ok hexec
      cases hreply
      exact ⟨rfl, rfl⟩
  | publish payload | publishRetry payload => cases hsent
  | ack => cases hack
  | reject requeue => exact absurd rfl (hreject requeue)
  | _ =>
      cases hexec
      exact ⟨rfl, rfl⟩

/-- What a call does to the messages, carried out or not. -/
theorem executeOn_moved (hrouted : Routed b.broker.topology) (hi : i < n) (ch : BackendChoice)
    (c : TaskCall) :
    (∃ reply b', c.executeOn B i ch b = .ok (reply, b') ∧
      Moved n b b' c.publishes (if c.acknowledges then (b.unacked i).toList else [])
        (if c.rejects then (b.unacked i).toList else [])) ∨
      ((∃ e, c.executeOn B i ch b = .error e) ∧ c.sent = none ∧ c.acknowledges = false ∧
        c.rejects = false) := by
  by_cases hquiet : c.sent = none ∧ c.acknowledges = false ∧ ∀ requeue, c ≠ .reject requeue
  · obtain ⟨hsent, hack, hreject⟩ := hquiet
    have hrejects : c.rejects = false := by
      cases c with
      | reject requeue => exact absurd rfl (hreject requeue)
      | _ => rfl
    cases hexec : c.executeOn B i ch b with
    | error e => exact .inr ⟨⟨e, rfl⟩, hsent, hack, hrejects⟩
    | ok result =>
        obtain ⟨reply, b'⟩ := result
        obtain ⟨hbroker, hunacked⟩ := executeOn_messages hsent hack hreject hexec
        refine .inl ⟨reply, b', rfl, ?_⟩
        rw [TaskCall.publishes, hsent, hack, hrejects]
        exact .of_eq hbroker hunacked
  · left
    cases c with
    | publish payload =>
        have hpublish : b.broker.publish exchangeName routingKey payload.dumpJson =
            .ok (b.broker.push payload.dumpJson queueName) :=
          Broker.publish_of_route hrouted.tasks hrouted.route
        refine ⟨(), { b with broker := b.broker.push payload.dumpJson queueName }, ?_,
          .push queueName_mem_waitingQueues⟩
        simp only [TaskCall.executeOn, Backend.publish, hpublish, Except.mapError, Except.map]
    | publishRetry payload =>
        have hindex := retryIndex_lt payload.attempt
        have hpublish : b.broker.publish retryExchangeName
            (retryRoutingKey (retryIndex payload.attempt)) payload.dumpJson =
            .ok (b.broker.push payload.dumpJson (retryQueueName (retryIndex payload.attempt))) :=
          Broker.publish_of_route hrouted.retries (hrouted.routeRetry _ hindex)
        refine ⟨(), ⟨b.keys, b.broker.push payload.dumpJson
          (retryQueueName (retryIndex payload.attempt)), b.unacked, b.ledger, b.checkpoints⟩, ?_,
          .push (retryQueueName_mem_waitingQueues hindex)⟩
        simp only [TaskCall.executeOn, Backend.publish, hpublish, Except.mapError, Except.map]
    | ack => exact ⟨(), b.settle i, rfl, .settle hi⟩
    | reject requeue =>
        cases requeue with
        | true => exact ⟨(), b.requeue i, rfl, .requeue hi⟩
        | false => exact ⟨(), b.deadLetter i, rfl, .deadLetter hrouted hi⟩
    | _ => exact absurd ⟨rfl, rfl, by rintro _ ⟨⟩⟩ hquiet

/-- A call keeps its hands off the messages of other handlers. -/
theorem executeOn_others {reply : c.Reply} (hexec : c.executeOn B i ch b = .ok (reply, b'))
    {j : ℕ} (hj : j ≠ i) : b'.unacked j = b.unacked j := by
  have hsettle : (b.settle i).unacked j = b.unacked j := Function.update_of_ne hj ..
  cases c with
  | publish payload | publishRetry payload =>
      obtain ⟨broker, hbroker, hreply⟩ := exists_of_map_ok hexec
      cases hreply
      obtain ⟨published, -, rfl⟩ := exists_of_map_ok hbroker
      rfl
  | ack =>
      cases hexec
      exact hsettle
  | reject requeue =>
      cases hexec
      cases requeue <;>
        simp only [Backend.requeue, Backend.deadLetter, if_true, Bool.false_eq_true, if_false] <;>
        split <;> first | exact hsettle | rfl
  | _ =>
      have hmessages := executeOn_messages rfl rfl (by rintro _ ⟨⟩) hexec
      rw [hmessages.2]

end Steps

section Runs

variable {B : BackendSettings} {orchestrator : Orchestrator} {t : Topology} {n : ℕ}
  {h : List (BackendConfig × BackendAction)} {c c' : BackendConfig} {a : BackendAction}

/-- The texts that a run has published are all somewhere, or acknowledged. -/
structure Conserved (t : Topology) (n : ℕ) (h : List (BackendConfig × BackendAction))
    (c : BackendConfig) : Prop where
  topology : c.state.broker.topology = t
  idle : ∀ i, c.pool i = .unused → c.state.unacked i = none
  deadLetters : c.state.broker.ready deadQueueName = h.flatMap rejected
  texts : (h.flatMap acknowledged ++ c.state.texts n).Perm (h.flatMap published)

theorem Conserved.moved (hc : Conserved t n h c)
    (hmoved : Moved n c.state c'.state (published (c, a)) (acknowledged (c, a)) (rejected (c, a)))
    (hidle : ∀ i, c'.pool i = .unused → c'.state.unacked i = none) :
    Conserved t n (h ++ [(c, a)]) c' where
  topology := hmoved.topology.trans hc.topology
  idle := hidle
  deadLetters := by
    rw [hmoved.deadLetters, hc.deadLetters, List.flatMap_append, List.flatMap_singleton]
  texts := by
    rw [List.flatMap_append, List.flatMap_singleton, List.flatMap_append, List.flatMap_singleton,
      List.append_assoc]
    refine (hmoved.texts.append_left _).trans ?_
    rw [← List.append_assoc]
    exact hc.texts.append_right _

theorem requeue_unacked (b : Backend) (i : ℕ) :
    (b.requeue i).unacked = Function.update b.unacked i none := by
  cases hbody : b.unacked i with
  | none =>
      have hsame : b.requeue i = b := by rw [Backend.requeue, hbody]
      rw [hsame, ← hbody, Function.update_eq_self]
  | some body => rw [Backend.requeue, hbody]; rfl

/-- What the answer to a call does to the messages. -/
theorem answer_moved {b s : Backend} (hrouted : Routed b.broker.topology) {i : ℕ} (hi : i < n)
    {cl : TaskCall} {ch : BackendChoice} {r : Except Exn cl.Reply}
    (hanswer : ch.ending.answer (cl.executeOn B i ch b) b = (r, s)) :
    Moved n b s (if ch.ending.effective then cl.publishes else [])
        (if ch.ending.effective ∧ cl.acknowledges then (b.unacked i).toList else [])
        (if ch.ending.effective ∧ cl.rejects then (b.unacked i).toList else []) ∧
      ∀ j, j ≠ i → s.unacked j = b.unacked j := by
  have hmoves := executeOn_moved hrouted hi ch cl (B := B)
  rcases hmoves with ⟨reply, b', hexec, hmoved⟩ | ⟨⟨e, hexec⟩, hsent, hack, hreject⟩
  · have hothers : ∀ j, j ≠ i → b'.unacked j = b.unacked j := fun j hj => executeOn_others hexec hj
    rw [hexec] at hanswer
    cases hending : ch.ending with
    | lost e =>
        rw [hending] at hanswer
        cases hanswer
        exact ⟨.of_eq rfl rfl, fun _ _ => rfl⟩
    | done | late e =>
        rw [hending] at hanswer
        cases hanswer
        simpa [Ending.effective] using ⟨hmoved, hothers⟩
  · have hs : s = b := by
      rw [hexec] at hanswer
      cases hending : ch.ending <;> rw [hending] at hanswer <;> cases hanswer <;> rfl
    subst hs
    refine ⟨?_, fun _ _ => rfl⟩
    simpa [TaskCall.publishes, hsent, hack, hreject] using Moved.of_eq rfl rfl

/-- Every step moves the texts. -/
theorem Conserved.step (hc : Conserved t n h c) (hrouted : Routed t) (hwithin : Within t)
    (hn : ∀ i, n ≤ i → c'.pool i = .unused)
    (hstep : (backendMachine B orchestrator).step a c = some c') :
    Conserved t n (h ++ [(c, a)]) c' := by
  have hrouted : Routed c.state.broker.topology := hc.topology ▸ hrouted
  have hwithin : Within c.state.broker.topology := hc.topology ▸ hwithin
  have hbelow : ∀ i, c'.pool i ≠ .unused → i < n := fun i hi =>
    lt_of_not_ge fun hle => hi (hn i hle)
  cases a with
  | call i ch =>
      obtain ⟨q, cl, k, r, s, hslot, hanswer, rfl⟩ := Machine.step_call _ hstep
      obtain ⟨hmoved, hothers⟩ := answer_moved hrouted
        (hbelow i (by simp)) (Option.some.inj hanswer)
      have hcarried : carriedOut (c, .call i ch) =
          if ch.ending.effective then some (i, cl) else none := by
        simp only [carriedOut, Machine.answered, hslot]
        cases hending : ch.ending.effective <;> simp [hending]
      refine hc.moved ?_ fun j hj => ?_
      · simp only [published, acknowledged, rejected, hcarried]
        cases hending : ch.ending.effective <;> simpa [hending] using hmoved
      · have hne : j ≠ i := by
          rintro rfl
          simp at hj
        exact (hothers j hne).trans (hc.idle j (Machine.step_unused hstep hj))
  | start i q =>
      obtain ⟨s, hslot, haccept, rfl⟩ := Machine.step_start _ hstep
      have hi := hbelow i (by simp)
      have hidle := hc.idle i hslot
      have hboth : Moved n c.state s [] [] [] ∧ ∀ j, j ≠ i → s.unacked j = c.state.unacked j := by
        cases q with
        | handleMessage body =>
            obtain ⟨⟨text, broker'⟩, htake, rfl⟩ := Option.map_eq_some_iff.1 haccept
            exact ⟨.deliver hi hidle htake, fun j hj => Function.update_of_ne hj ..⟩
        | _ =>
            cases haccept
            exact ⟨.of_eq rfl rfl, fun _ _ => rfl⟩
      refine hc.moved hboth.1 fun j hj => ?_
      have hne : j ≠ i := by
        rintro rfl
        simp at hj
      exact (hboth.2 j hne).trans (hc.idle j (Machine.step_unused hstep hj))
  | crash i =>
      obtain ⟨q, p, hslot, rfl⟩ := Machine.step_crash _ hstep
      refine hc.moved (.requeue (hbelow i (by simp))) fun j hj => ?_
      have hne : j ≠ i := by
        rintro rfl
        simp at hj
      change (c.state.requeue i).unacked j = none
      rw [requeue_unacked, Function.update_of_ne hne]
      exact hc.idle j (Machine.step_unused hstep hj)
  | environment e =>
      obtain ⟨s, henv, rfl⟩ := Machine.step_environment _ hstep
      cases e with
      | expireKey key =>
          cases henv
          exact hc.moved (.of_eq rfl rfl) hc.idle
      | expireMessage queue =>
          obtain ⟨broker', hexpire, rfl⟩ := Option.map_eq_some_iff.1 henv
          exact hc.moved (.expire hrouted hwithin hexpire) hc.idle
      | redeliver i =>
          cases henv
          refine hc.moved ?_ fun j hj => ?_
          · by_cases hi : i < n
            · exact .requeue hi
            · have hnone : c.state.unacked i = none := hc.idle i (hn i (Nat.le_of_not_lt hi))
              refine .of_eq ?_ ?_
              · change (c.state.requeue i).broker = _
                rw [Backend.requeue, hnone]
              · change (c.state.requeue i).unacked = _
                rw [requeue_unacked, ← hnone, Function.update_eq_self]
          · change (c.state.requeue i).unacked j = none
            rw [requeue_unacked, Function.update_apply]
            split
            · rfl
            · exact hc.idle j hj
      | foreign text =>
          cases henv
          have hsend : c.state.broker.send exchangeName routingKey text =
              c.state.broker.push text queueName := Broker.send_of_route hrouted.route
          refine hc.moved ?_ hc.idle
          change Moved n c.state
            { c.state with broker := c.state.broker.send exchangeName routingKey text } [text] [] []
          rw [hsend]
          exact .push queueName_mem_waitingQueues

theorem conserved_run (hrouted : Routed t) (hwithin : Within t)
    (run : (backendMachine B orchestrator).Run Policy.any (.initial (.fresh t)) h c)
    (hn : ∀ i, n ≤ i → c.pool i = .unused) : Conserved t n h c := by
  induction run with
  | nil =>
      refine ⟨rfl, fun _ _ => rfl, rfl, ?_⟩
      simp [Backend.texts, Backend.holdings, Broker.held, Backend.fresh, Broker.fresh,
        Config.initial]
  | @snoc h c c' a _ _ step ih =>
      have hbefore : ∀ i, n ≤ i → c.pool i = .unused := fun i hi =>
        Machine.step_unused step (hn i hi)
      exact (ih hbefore).step hrouted hwithin hn step

end Runs

/-- Over the queues that `connect` has declared, in every run of the deployment: the texts that
were acknowledged, those on the queues and those with the handlers are the texts that were
published, each as often; and the dead queue holds those that were rejected for good, in order. -/
theorem messages_conserved (B : BackendSettings) (orchestrator : Orchestrator)
    {hc : List (ConnectConfig × Action (Ending Exn) Unit Empty)} {cc : ConnectConfig}
    (connecting : connectMachine.Run Policy.any (.initial .empty) hc cc) {j : ℕ}
    (hconnected : cc.pool j = .running () (.pure ()))
    {h : List (BackendConfig × BackendAction)} {c : BackendConfig}
    (run : (backendMachine B orchestrator).Run Policy.any (.initial (.fresh cc.state)) h c) :
    ∃ n, (∀ i, n ≤ i → c.state.unacked i = none) ∧
      c.state.broker.ready deadQueueName = h.flatMap rejected ∧
      (h.flatMap acknowledged ++ c.state.texts n).Perm (h.flatMap published) := by
  have hconnection := connected_run connecting
  obtain ⟨n, hn⟩ := run.bounded
  have hconserved := conserved_run (hconnection.routed hconnected) hconnection.within run hn
  exact ⟨n, fun i hi => hconserved.idle i (hn i hi), hconserved.deadLetters, hconserved.texts⟩

/-- A text that is no message is rejected, and a handler crashes over the message of a task. -/
def demoHandlers : List BackendAction :=
  [.environment (.foreign "x"), .start 0 (.createTask demoRequest), .call 0 {}, .call 0 {},
    .call 0 {}, .start 1 (.handleMessage (.error (.valueError "ValidationError"))), .call 1 {},
    .start 2 (.handleMessage (.ok demoMessage)), .call 2 {}, .crash 2]

theorem messages_conserved_demo : ∃ (h : List (BackendConfig × BackendAction)) (c : BackendConfig),
    h.flatMap published = ["x", demoMessage.dumpJson] ∧
      c.state.broker.ready deadQueueName = ["x"] ∧
      ∃ n, (∀ i, n ≤ i → c.state.unacked i = none) ∧
        c.state.broker.ready deadQueueName = h.flatMap rejected ∧
        (h.flatMap acknowledged ++ c.state.texts n).Perm (h.flatMap published) := by
  obtain ⟨hc, cc, connecting, hconnected, hstate⟩ := exists_connected
  have hend : ((backendMachine demoBackend demoAgent.orchestrator).exec Policy.any demoHandlers
      (.initial (.fresh demoTopology))).map (fun c => c.state.broker.ready deadQueueName) =
        some ["x"] := by decide +kernel
  have hpublished : ((backendMachine demoBackend demoAgent.orchestrator).trail demoHandlers
      (.initial (.fresh demoTopology))).flatMap published = ["x", demoMessage.dumpJson] := by
    decide +kernel
  obtain ⟨c, hexec, hdead⟩ := Option.map_eq_some_iff.1 hend
  rw [← hstate] at hexec hpublished
  exact ⟨_, c, hpublished, hdead, messages_conserved demoBackend demoAgent.orchestrator connecting
    hconnected (Machine.Run.follow .nil hexec)⟩

end CommerceAgent
