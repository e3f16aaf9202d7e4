import CommerceAgent.Tasks.MirroredCalls
import CommerceAgent.Tasks.RecordHistory

/-!
# The deployment refines the task system

Every run of the deployment is one of the task system, with the same processes at the same
calls. So what holds in every run of the task system holds of the processes over Redis and
RabbitMQ, and of the texts that they store and send.
-/

namespace CommerceAgent

open Effects Messaging TaskQueue

/-- What `token_urlsafe` and `sha256` are relied on for: the lease owners are texts of their own
without a brace, and the idempotency keys in `K` have digests of their own. -/
structure BackendSettings.Sound (B : BackendSettings) (K : Set String) : Prop where
  digests : Set.InjOn B.digest K
  owners : Function.Injective B.owner
  owner : ∀ i, B.owner i ≠ "" ∧ '{' ∉ (B.owner i).toList

/-- The records that are created have identifiers without a colon, as `token_urlsafe` gives
them; they are stamped with times, and the idempotency keys are in `K`. What others publish is
no message. -/
def backendPolicy (B : BackendSettings) (K : Set String) : BackendPolicy where
  call _ c ch _ := ch.stamps.Valid B.isDatetime ∧
    match c with
    | .setNew task => ':' ∉ task.taskId.toList
    | .createScript task key => ':' ∉ task.taskId.toList ∧ key ∈ K
    | .deleteKey key => key ∈ K
    | _ => True
  environment e _ :=
    match e with
    | .foreign text => QueueMessage.validateJson B.floatText text = none
    | _ => True

/-- The same of the task system. -/
def colonless : TaskPolicy where
  call _ c _ _ :=
    match c with
    | .setNew task | .createScript task _ => ':' ∉ task.taskId.toList
    | _ => True

section Laws

variable {task : TaskRecord} {payload : QueueMessage}

theorem canonical_resumption (h : task.Canonical) :
    ∀ kind ∈ task.resumption.1, kind.Canonical := by
  unfold TaskRecord.resumption
  split_ifs
  · split <;> rintro kind ⟨⟩ <;> rfl
  · rintro kind ⟨⟩
    rfl
  · exact h

theorem canonical_retryResumption (h : payload.Canonical) (graphStarted : Bool) :
    ∀ kind ∈ (retryResumption payload graphStarted).1, kind.Canonical := by
  unfold retryResumption
  split_ifs
  · rintro kind ⟨⟩
    rfl
  · exact h

theorem plainLaw : RecordLaw TaskRecord.Plain QueueMessage.Canonical where
  input task productId h _ := ⟨h.colonless, by rintro kind ⟨⟩; rfl⟩
  approval task approvalId h := ⟨h.colonless, by rintro kind ⟨⟩; rfl⟩
  resumed task h := ⟨h.colonless, canonical_resumption h.canonical⟩
  publishFailed _ _ _ h _ := ⟨h.colonless, h.canonical⟩
  started _ _ h _ _ := ⟨h.colonless, h.canonical⟩
  finished task outcome h := ⟨h.colonless, by rintro kind ⟨⟩⟩
  failedRun _ _ _ graphStarted _ h hpayload _ :=
    ⟨h.colonless, canonical_retryResumption hpayload graphStarted⟩
  message task payload h hfor := by
    obtain ⟨-, -, hkind, -⟩ := hfor
    intro kind hmem
    exact h.canonical kind (hkind ▸ hmem)

end Laws

section Steps

variable {B : BackendSettings} {K : Set String} {orchestrator : Orchestrator} {i : ℕ}
  {b b' : Backend} {w : World}

/-- A handler that has not started has no message. -/
theorem unacked_of_unused {settings : Settings} {π : TaskPolicy}
    {h : List (TaskConfig × TaskAction)} {c : TaskConfig}
    (run : (taskMachine settings orchestrator).Run π (.initial World.fresh) h c) :
    ∀ i, c.pool i = .unused → c.state.unacked i = none := by
  refine (run.invariant (fun c => ∀ i, c.pool i = .unused → c.state.unacked i = none)
    (fun _ _ => rfl) ?_).1
  intro c a c' hc _ hstep j hj
  cases a with
  | call i ch =>
      obtain ⟨q, cl, k, r, w', -, hanswer, rfl⟩ := Machine.step_call _ hstep
      have hne : j ≠ i := by
        rintro rfl
        simp at hj
      simp only [Function.update_of_ne hne] at hj
      exact ((queueStep_of_answer hanswer).others j hne).trans (hc j hj)
  | start i q =>
      obtain ⟨w', -, haccept, rfl⟩ := Machine.step_start _ hstep
      have hne : j ≠ i := by
        rintro rfl
        simp at hj
      simp only [Function.update_of_ne hne] at hj
      have hother : w'.unacked j = c.state.unacked j := by
        simp only [taskMachine, TaskRequest.accept] at haccept
        split at haccept
        · split at haccept
          · cases haccept
            exact Function.update_of_ne hne ..
          · cases haccept
        · cases haccept
          rfl
      exact hother.trans (hc j hj)
  | crash i =>
      obtain ⟨q, p, -, rfl⟩ := Machine.step_crash _ hstep
      have hne : j ≠ i := by
        rintro rfl
        simp at hj
      simp only [Function.update_of_ne hne] at hj
      have hother : (c.state.requeue i).unacked j = c.state.unacked j := by
        rw [World.requeue_unacked]
        exact Function.update_of_ne hne ..
      exact hother.trans (hc j hj)
  | environment e =>
      obtain ⟨w', henv, rfl⟩ := Machine.step_environment _ hstep
      have hnone : c.state.unacked j = none := hc j hj
      cases e with
      | redeliver i =>
          cases henv
          change (c.state.requeue i).unacked j = none
          rw [World.requeue_unacked, Function.update_apply]
          split
          · rfl
          · exact hnone
      | duplicate payload =>
          simp only [taskMachine, TaskEnvironment.apply] at henv
          split at henv <;> cases henv
          exact hnone
      | _ =>
          cases henv
          exact hnone

namespace Mirrors

/-- What a handler starts with is a message of the world, or a text that is none. -/
theorem accept (h : Mirrors B K b w) (hidle : w.unacked i = none) {q : TaskRequest}
    (haccept : q.acceptOn B i b = some b') :
    ∃ w', q.accept i w = some w' ∧ Mirrors B K b' w' := by
  cases q with
  | handleMessage body =>
      obtain ⟨⟨text, broker'⟩, htake, rfl⟩ := Option.map_eq_some_iff.1 haccept
      obtain ⟨hreads, -, -, hheld⟩ :=
        Broker.held_take waitingQueues_nodup queueName_mem_waitingQueues htake
      have hconveys := h.queue.deliver i htake
      cases body with
      | ok payload =>
          have hread : QueueMessage.validateJson B.floatText text = some payload := by
            unfold Body.reads at hreads
            cases hread : QueueMessage.validateJson B.floatText text with
            | none => simp [hread] at hreads
            | some read => simpa [hread] using hreads
          have hmem : payload ∈ w.inFlight := by
            rw [h.queue.inFlight.mem_iff, List.mem_filterMap]
            exact ⟨text, hheld.mem_iff.2 List.mem_cons_self, hread⟩
          rw [hread] at hconveys
          exact ⟨w.deliver i payload, if_pos hmem, h.keys_of_eq rfl rfl rfl, hconveys, h.ledger,
            h.checkpoints⟩
      | error exc =>
          have hread : QueueMessage.validateJson B.floatText text = none := by
            unfold Body.reads at hreads
            cases hread : QueueMessage.validateJson B.floatText text with
            | none => rfl
            | some read => simp [hread] at hreads
          have hupdate : Function.update w.unacked i none = w.unacked := by
            rw [← hidle, Function.update_eq_self]
          rw [hread, hupdate] at hconveys
          exact ⟨w, rfl, h.keys, hconveys, h.ledger, h.checkpoints⟩
  | _ =>
      cases haccept
      exact ⟨w, rfl, h⟩

/-- A key that expires. -/
theorem expireKey (h : Mirrors B K b w) (hB : B.Sound K) (key : String) :
    Mirrors B K (b.del key) w ∨ ∃ e w', TaskEnvironment.apply e w = some w' ∧
      Mirrors B K (b.del key) w' := by
  by_cases hrecord : ∃ taskId, ':' ∉ taskId.toList ∧ key = taskKey taskId
  · obtain ⟨taskId, hcolon, rfl⟩ := hrecord
    exact .inr ⟨.expireRecord taskId, _, rfl, h.setRecord hcolon .absent⟩
  by_cases hlease : ∃ taskId, key = leaseKey taskId
  · obtain ⟨taskId, rfl⟩ := hlease
    exact .inr ⟨.expireLease taskId, _, rfl, h.setLease hB.owner none⟩
  by_cases hreserved : ∃ k ∈ K, key = RedisStore.idempotencyKey B.digest k
  · obtain ⟨k, hk, rfl⟩ := hreserved
    exact .inr ⟨.expireKey k, _, rfl, h.setKey hB.digests hk none⟩
  refine .inl (h.setAside ?_)
  constructor
  · exact fun taskId hcolon heq => absurd ⟨taskId, hcolon, heq⟩ hrecord
  · rintro taskId - - text ⟨⟩
  · exact fun k hk heq => absurd ⟨k, hk, heq⟩ hreserved
  · exact fun taskId heq => absurd ⟨taskId, heq⟩ hlease

/-- A message that expires on its retry queue goes on to the queue of the workers. -/
theorem expireMessage (h : Mirrors B K b w) {queue : String} {broker' : Broker String}
    (hexpire : b.broker.expire queue = some broker') :
    Mirrors B K { b with broker := broker' } w := by
  obtain ⟨hqueue, hdead⟩ := expired_queue h.queue.within hexpire
  obtain ⟨htopology, hother, hheld⟩ := Broker.held_expire waitingQueues_nodup hqueue
    queueName_mem_waitingQueues hdead h.queue.routed.route hexpire
  exact ⟨h.keys, h.queue.move htopology hheld (hother _ (ne_deadQueueName hqueue)
    (ne_deadQueueName queueName_mem_waitingQueues)), h.ledger, h.checkpoints⟩

theorem environment (h : Mirrors B K b w) (hB : B.Sound K) {e : BackendEnvironment}
    (hpermit : (backendPolicy B K).environment e b) (henv : e.apply b = some b') :
    Mirrors B K b' w ∨ ∃ e' w', TaskEnvironment.apply e' w = some w' ∧ Mirrors B K b' w' := by
  cases e with
  | expireKey key =>
      cases henv
      exact h.expireKey hB key
  | expireMessage queue =>
      obtain ⟨broker', hexpire, rfl⟩ := Option.map_eq_some_iff.1 henv
      exact .inl (h.expireMessage hexpire)
  | redeliver i =>
      cases henv
      exact .inr ⟨.redeliver i, _, rfl, h.requeue i⟩
  | foreign text =>
      have hnone : QueueMessage.validateJson B.floatText text = none := hpermit
      cases henv
      rw [Broker.send_of_route h.queue.routed.route]
      have hconveys : Conveys B.floatText (b.broker.push text queueName) b.unacked
          (w.inFlight ++ (QueueMessage.validateJson B.floatText text).toList) w.unacked
          w.deadLetters := h.queue.push queueName_mem_waitingQueues
      rw [hnone, Option.toList_none, List.append_nil] at hconveys
      exact .inl ⟨h.keys, hconveys, h.ledger, h.checkpoints⟩

end Mirrors

end Steps

section Refinement

variable {B : BackendSettings} {K : Set String} {orchestrator : Orchestrator} {i : ℕ}
  {ch : BackendChoice} {b b' : Backend} {w : World}

/-- Every call, in a world whose records are plain. -/
theorem Mirrors.simulated (h : Mirrors B K b w) (hB : B.Sound K)
    (hplain : ∀ taskId task, w.records taskId = some task → task.taskId = taskId ∧ task.Plain)
    {c : TaskCall} (hlawful : c.Lawful TaskRecord.Plain QueueMessage.Canonical)
    (hpermit : (backendPolicy B K).call i c ch b) : Simulated B K i ch b w c := by
  obtain ⟨hstamps, hpermit⟩ := hpermit
  cases c with
  | setNew task => exact h.setNew_simulated hpermit hstamps
  | createScript task key =>
      exact h.createScript_simulated hB.digests hpermit.1 hpermit.2 hstamps
  | deleteKey key =>
      rintro reply b' ⟨⟩
      exact ⟨_, rfl, h.setKey hB.digests hpermit none⟩
  | getTask site taskId =>
      intro reply b' hexec
      obtain ⟨found, hfound, hreply⟩ := exists_of_map_ok hexec
      cases hreply
      exact ⟨w, by simp only [TaskCall.execute, h.getTask_eq hplain hfound], h⟩
  | saveTask site task =>
      rintro reply b' ⟨⟩
      exact ⟨_, rfl, h.store hlawful.colonless hstamps⟩
  | transitionTask task status =>
      exact h.transitionTask_simulated hlawful.colonless hstamps status
  | acquireTaskLease taskId ttl => exact h.acquireTaskLease_simulated hB.owner taskId ttl
  | releaseTaskLease taskId => exact h.releaseTaskLease_simulated hB.owner hB.owners taskId
  | hasTaskLease taskId => exact h.hasTaskLease_simulated taskId
  | appendEvent taskId event => exact h.appendEvent_simulated taskId event
  | publish payload => exact h.publish_simulated hlawful
  | publishRetry payload => exact h.publishRetry_simulated hlawful
  | ack =>
      rintro reply b' ⟨⟩
      exact ⟨_, rfl, h.settle i⟩
  | reject requeue =>
      rintro reply b' ⟨⟩
      cases requeue with
      | true => exact ⟨_, rfl, h.requeue i⟩
      | false => exact ⟨_, rfl, h.deadLetter i⟩
  | resolveProduct merchantId query =>
      intro reply b' hexec
      simp only [TaskCall.execute, h.ledger]
      exact h.read_simulated hexec
  | getMetrics merchantId productId =>
      intro reply b' hexec
      simp only [TaskCall.execute, h.ledger]
      exact h.read_simulated hexec
  | ledger lc =>
      intro reply b' hexec
      simp only [TaskCall.execute, h.ledger]
      exact h.ledger_simulated hexec
  | graph threadId lc =>
      intro reply b' hexec
      simp only [TaskCall.execute, h.ledger]
      exact h.ledger_simulated hexec
  | getCheckpoint threadId =>
      rintro reply b' ⟨⟩
      exact ⟨w, by rw [← h.checkpoints]; rfl, h⟩
  | putCheckpoint threadId checkpoint =>
      rintro reply b' ⟨⟩
      exact ⟨_, rfl, h.keys_of_eq rfl rfl rfl, h.queue, h.ledger, by rw [← h.checkpoints]⟩
  | _ =>
      rintro reply b' ⟨⟩
      exact ⟨w, rfl, h⟩

/-- An answer that the environment may spoil. -/
theorem Mirrors.answered (h : Mirrors B K b w) {c : TaskCall}
    (hsimulated : Simulated B K i ch b w c) {r : Except Exn c.Reply}
    (hanswer : ch.ending.answer (c.executeOn B i ch b) b = (r, b')) :
    ∃ (ch' : TaskChoice) (w' : World),
      ch'.ending.answer (c.execute B.settings i ch' w) w = (r, w') ∧ Mirrors B K b' w' := by
  cases hexec : c.executeOn B i ch b with
  | error e =>
      rw [hexec] at hanswer
      cases hending : ch.ending <;> rw [hending] at hanswer <;> cases hanswer
      · exact ⟨{ ending := .lost e }, w, rfl, h⟩
      · exact ⟨{ ending := .lost _ }, w, rfl, h⟩
      · exact ⟨{ ending := .lost e }, w, rfl, h⟩
  | ok result =>
      obtain ⟨reply, b₁⟩ := result
      obtain ⟨w', hexec', hmirrors⟩ := hsimulated reply b₁ hexec
      rw [hexec] at hanswer
      cases hending : ch.ending <;> rw [hending] at hanswer <;> cases hanswer
      · exact ⟨ch.toTaskChoice, w', by rw [hending, hexec']; rfl, hmirrors⟩
      · exact ⟨ch.toTaskChoice, w, by rw [hending, hexec']; rfl, h⟩
      · exact ⟨ch.toTaskChoice, w', by rw [hending, hexec']; rfl, hmirrors⟩

/-- The records of the task system are plain. -/
theorem plain_run {settings : Settings} (haside : orchestrator.Aside)
    {h : List (TaskConfig × TaskAction)} {c : TaskConfig}
    (run : (taskMachine settings orchestrator).Run colonless (.initial World.fresh) h c) :
    (lawContract TaskRecord.Plain QueueMessage.Canonical).Holds
      (taskMachine settings orchestrator) h c := by
  apply lawful_run plainLaw haside
  apply lawPolicy_of_call _ run
  intro i cl ch w hpermit
  cases cl with
  | setNew task | createScript task key =>
      rintro request rfl
      exact ⟨hpermit, by rintro kind ⟨⟩⟩
  | _ => trivial

/-- The deployment over Redis and RabbitMQ does what the task system can do. -/
theorem backend_simulates (hB : B.Sound K) (haside : orchestrator.Aside) :
    Simulation (backendMachine B orchestrator) (taskMachine B.settings orchestrator)
      (backendPolicy B K) colonless World.fresh (Mirrors B K) where
  program _ _ := rfl
  start run i q b b' hslot hmirrors _ haccept :=
    ⟨trivial, hmirrors.accept (unacked_of_unused run i hslot) haccept⟩
  answer run i q cl k ch b r b' hslot hmirrors hpermit hanswer := by
    have hlaw := plain_run haside run
    have hplain : ∀ taskId (task : TaskRecord), _ → task.taskId = taskId ∧ task.Plain :=
      fun taskId task htask => ⟨hlaw.inv.1 taskId task htask, hlaw.inv.2.1 taskId task htask⟩
    have hsimulated := hmirrors.simulated hB hplain (hlaw.guarantee hslot) hpermit
    obtain ⟨ch', w', hanswer', hmirrors'⟩ := hmirrors.answered hsimulated (Option.some.inj hanswer)
    refine ⟨ch', w', ?_, congrArg some hanswer', hmirrors'⟩
    cases cl with
    | setNew task => exact hpermit.2
    | createScript task key => exact hpermit.2.1
    | _ => trivial
  crash i _ _ hmirrors _ := ⟨trivial, hmirrors.requeue i⟩
  environment e b w b' hmirrors hpermit henv := by
    rcases hmirrors.environment hB hpermit henv with hsame | ⟨e', w', henv', hmirrors'⟩
    · exact .inl hsame
    · exact .inr ⟨e', w', trivial, henv', hmirrors'⟩

/-- Nothing stored, and the queues declared. -/
theorem mirrors_fresh {t : Topology} (hrouted : Routed t) (hwithin : Within t) :
    Mirrors B K (.fresh t) .fresh where
  keys key := by
    constructor
    · exact fun _ _ _ => .absent
    · rintro taskId - - text ⟨⟩
    · exact fun _ _ _ => rfl
    · exact fun _ _ => rfl
  queue := by
    refine ⟨hrouted, hwithin, ?_, fun _ => rfl, rfl⟩
    have hheld : (Broker.fresh t : Broker String).held waitingQueues = [] := by
      simp [Broker.held, Broker.fresh]
    change List.Perm [] (((Broker.fresh t).held waitingQueues).filterMap _)
    rw [hheld]
    exact List.Perm.refl _
  ledger := rfl
  checkpoints := rfl

end Refinement

/-- Over the queues that `connect` has declared, whatever other processes connected meanwhile:
every run of the deployment is a run of the task system, with the same processes at the same
calls, and Redis and the queues hold at its end what the records, keys, leases and messages of
the task system say. -/
theorem deployment_refines (B : BackendSettings) (K : Set String) (hB : B.Sound K)
    (agent : AgentSettings) {hc : List (ConnectConfig × Action (Ending Exn) Unit Empty)}
    {cc : ConnectConfig} (connecting : connectMachine.Run Policy.any (.initial .empty) hc cc)
    {j : ℕ} (hconnected : cc.pool j = .running () (.pure ()))
    {h : List (BackendConfig × BackendAction)} {c : BackendConfig}
    (run : (backendMachine B agent.orchestrator).Run (backendPolicy B K)
      (.initial (.fresh cc.state)) h c) :
    ∃ h' c',
      (taskMachine B.settings agent.orchestrator).Run colonless (.initial World.fresh) h' c' ∧
      c.pool = c'.pool ∧ Mirrors B K c.state c'.state := by
  have hconnection := connected_run connecting
  exact (backend_simulates hB agent.aside).run
    (mirrors_fresh (hconnection.routed hconnected) hconnection.within) run

/-- A deployment whose lease owners differ in length. -/
def demoBackend : BackendSettings where
  settings := demoSettings
  digest key := key
  owner i := String.ofList (List.replicate (i + 1) 'w')
  floatText text := text
  isDatetime _ := true

theorem demoBackend_sound : demoBackend.Sound Set.univ where
  digests := Set.injOn_id _
  owners := by
    intro i j h
    have hlength : (List.replicate (i + 1) 'w').length = (List.replicate (j + 1) 'w').length :=
      congrArg List.length (String.ofList_injective h)
    simpa using hlength
  owner i := by
    constructor
    · intro hempty
      have hlist := congrArg String.toList hempty
      simp [demoBackend] at hlist
    · intro hbrace
      simp [demoBackend] at hbrace

theorem eq_of_returned {slot : Slot Exn Declaration (fun _ => Unit) Unit Unit}
    (h : returned slot = true) : slot = .running () (.pure ()) := by
  unfold returned at h
  split at h
  · rfl
  · cases h

/-- What `connect` leaves, alone. -/
def demoTopology : Topology :=
  match declarations.foldlM Declaration.execute .empty with
  | .ok t => t
  | .error _ => .empty

theorem exists_connected : ∃ hc cc, connectMachine.Run Policy.any (.initial .empty) hc cc ∧
    cc.pool 0 = .running () (.pure ()) ∧ cc.state = demoTopology := by
  have hend : (connectMachine.exec Policy.any (.start 0 () :: List.replicate 13 (.call 0 .done))
      (.initial .empty)).map (fun c => (returned (c.pool 0), c.state)) =
        some (true, demoTopology) := by decide +kernel
  obtain ⟨cc, hcc, hpair⟩ := Option.map_eq_some_iff.1 hend
  obtain ⟨hreturned, hstate⟩ := Prod.ext_iff.1 hpair
  obtain ⟨hc, connecting⟩ := Machine.Run.exec .nil hcc
  exact ⟨_, cc, connecting, eq_of_returned hreturned, hstate⟩

section Demo

variable (b : Backend)

instance (i : ℕ) (c : TaskCall) (ch : BackendChoice) :
    Decidable ((backendPolicy demoBackend Set.univ).call i c ch b) :=
  match c with
  | .setNew task =>
      inferInstanceAs (Decidable ((_ = true ∧ _ = true) ∧ ':' ∉ task.taskId.toList))
  | .createScript task _ =>
      inferInstanceAs (Decidable ((_ = true ∧ _ = true) ∧ ':' ∉ task.taskId.toList ∧ True))
  | .deleteKey _ | .getTask .. | .saveTask .. | .transitionTask .. | .acquireTaskLease ..
  | .releaseTaskLease _ | .hasTaskLease _ | .appendEvent .. | .publish _ | .publishRetry _ | .ack
  | .reject _ | .resolveProduct .. | .ledger _ | .run .. | .graph .. | .getCheckpoint _
  | .putCheckpoint .. | .complete .. | .getMetrics .. | .executeTool .. | .enterNode ..
  | .schedule => inferInstanceAs (Decidable ((_ = true ∧ _ = true) ∧ True))

instance (i : ℕ) (q : TaskRequest) :
    Decidable ((backendPolicy demoBackend Set.univ).start i q b) := .isTrue trivial

instance (i : ℕ) : Decidable ((backendPolicy demoBackend Set.univ).crash i b) := .isTrue trivial

instance (e : BackendEnvironment) :
    Decidable ((backendPolicy demoBackend Set.univ).environment e b) :=
  match e with
  | .foreign text =>
      decidable_of_iff ((QueueMessage.validateJson demoBackend.floatText text).isNone = true)
        Option.isNone_iff_eq_none
  | .expireKey _ | .expireMessage _ | .redeliver _ => .isTrue trivial

end Demo

/-- A text that is no message is rejected, and the process that handles the message of a task
crashes over it. -/
def demoDeployed : List BackendAction :=
  [.environment (.foreign "x"), .start 0 (.createTask demoRequest), .call 0 {},
    .call 0 { sequence := some 1, added := true }, .call 0 {},
    .start 1 (.handleMessage (.error (.valueError "ValidationError"))), .call 1 {},
    .start 2 (.handleMessage (.ok demoMessage)), .call 2 {}, .crash 2]

/-- What is left of the messages and of the record. -/
theorem exists_deployed : ∃ h c,
    (backendMachine demoBackend demoAgent.orchestrator).Run (backendPolicy demoBackend Set.univ)
      (.initial (.fresh demoTopology)) h c ∧ h.map Prod.snd = demoDeployed ∧
      c.state.broker.ready queueName = [demoMessage.dumpJson] ∧
      c.state.broker.ready deadQueueName = ["x"] ∧
      c.state.getTask demoBackend "task-1" = .ok (some demoRequest.record) := by
  have hend : ((backendMachine demoBackend demoAgent.orchestrator).exec
      (backendPolicy demoBackend Set.univ) demoDeployed (.initial (.fresh demoTopology))).map
        (fun c => (c.state.broker.ready queueName, c.state.broker.ready deadQueueName,
          c.state.keys (taskKey "task-1"))) =
      some ([demoMessage.dumpJson], ["x"],
        some (.string (demoRequest.record.dumpJson ⟨"", ""⟩))) := by decide +kernel
  obtain ⟨c, hc, hleft⟩ := Option.map_eq_some_iff.1 hend
  simp only [Prod.mk.injEq] at hleft
  obtain ⟨hready, hdead, hkey⟩ := hleft
  refine ⟨_, c, Machine.Run.follow .nil hc, Machine.trail_actions hc, hready, hdead, ?_⟩
  exact Backend.getTask_dumpJson hkey (by simp [TaskRecord.Canonical, CreateTask.record]) rfl rfl

theorem deployment_refines_demo : ∃ (cc : ConnectConfig) (h : List (BackendConfig × BackendAction))
    (c : BackendConfig) (h' : _) (c' : TaskConfig), cc.pool 0 = .running () (.pure ()) ∧
      h.map Prod.snd = demoDeployed ∧ c.state.broker.ready queueName = [demoMessage.dumpJson] ∧
      c.state.broker.ready deadQueueName = ["x"] ∧
      (taskMachine demoSettings demoAgent.orchestrator).Run colonless (.initial World.fresh) h' c' ∧
      c.pool = c'.pool ∧ Mirrors demoBackend Set.univ c.state c'.state := by
  obtain ⟨hc, cc, connecting, hconnected, hstate⟩ := exists_connected
  obtain ⟨h, c, run, hsteps, hready, hdead, -⟩ := exists_deployed
  rw [← hstate] at run
  obtain ⟨h', c', hrefines⟩ := deployment_refines demoBackend Set.univ demoBackend_sound demoAgent
    connecting hconnected run
  exact ⟨cc, h, c, h', c', hconnected, hsteps, hready, hdead, hrefines⟩

/-- What `get_task` and the workers read in any run of the deployment. For an identifier without
a colon `get_task` never raises, and whatever identifier a client gives, what it returns is the
coherent record of that task; a text on a queue on which messages wait is no message, or one
that says what to resume completely. -/
theorem deployment_reads (B : BackendSettings) (K : Set String) (hB : B.Sound K)
    (agent : AgentSettings) {hc : List (ConnectConfig × Action (Ending Exn) Unit Empty)}
    {cc : ConnectConfig} (connecting : connectMachine.Run Policy.any (.initial .empty) hc cc)
    {j : ℕ} (hconnected : cc.pool j = .running () (.pure ()))
    {h : List (BackendConfig × BackendAction)} {c : BackendConfig}
    (run : (backendMachine B agent.orchestrator).Run (backendPolicy B K)
      (.initial (.fresh cc.state)) h c) :
    (∀ taskId : String, ':' ∉ taskId.toList → ∃ found, c.state.getTask B taskId = .ok found) ∧
      (∀ taskId task, c.state.getTask B taskId = .ok (some task) →
        task.taskId = taskId ∧ ':' ∉ taskId.toList ∧ task.Coherent) ∧
      ∀ queue ∈ waitingQueues, ∀ text ∈ c.state.broker.ready queue, ∀ payload,
        QueueMessage.validateJson B.floatText text = some payload → payload.Paired := by
  have hconnection := connected_run connecting
  obtain ⟨h', c', run', -, hmirrors⟩ := (backend_simulates hB agent.aside).run
    (mirrors_fresh (hconnection.routed hconnected) hconnection.within) run
  have hplain := (plain_run agent.aside run').inv
  have hcoherent := (coherent_run agent run').inv.2
  have hrecords : ∀ taskId (task : TaskRecord), c'.state.records taskId = some task →
      task.taskId = taskId ∧ task.Plain := fun taskId task htask =>
    ⟨hplain.1 taskId task htask, hplain.2.1 taskId task htask⟩
  refine ⟨fun taskId hcolon => ⟨_, hmirrors.getTask_stored hrecords hcolon⟩, ?_, ?_⟩
  · intro taskId task hfound
    have htask := hmirrors.getTask_eq hrecords hfound
    obtain ⟨hid, hcolonless⟩ := hrecords taskId task htask
    exact ⟨hid, hid ▸ hcolonless.colonless, hcoherent.1 taskId task htask⟩
  · intro queue hqueue text htext payload hread
    apply hcoherent.2 payload
    refine .inl (hmirrors.queue.inFlight.mem_iff.2 (List.mem_filterMap.2 ⟨text, ?_, hread⟩))
    exact List.mem_flatMap.2 ⟨queue, hqueue, htext⟩

theorem deployment_reads_demo : ∃ c : BackendConfig,
    c.state.broker.ready queueName = [demoMessage.dumpJson] ∧
      c.state.getTask demoBackend "task-1" = .ok (some demoRequest.record) ∧
      (∀ taskId : String, ':' ∉ taskId.toList →
        ∃ found, c.state.getTask demoBackend taskId = .ok found) ∧
      (∀ taskId task, c.state.getTask demoBackend taskId = .ok (some task) →
        task.taskId = taskId ∧ ':' ∉ taskId.toList ∧ task.Coherent) ∧
      ∀ queue ∈ waitingQueues, ∀ text ∈ c.state.broker.ready queue, ∀ payload,
        QueueMessage.validateJson demoBackend.floatText text = some payload → payload.Paired := by
  obtain ⟨hc, cc, connecting, hconnected, hstate⟩ := exists_connected
  obtain ⟨h, c, run, -, hready, -, hrecord⟩ := exists_deployed
  rw [← hstate] at run
  exact ⟨c, hready, hrecord, deployment_reads demoBackend Set.univ demoBackend_sound demoAgent
    connecting hconnected run⟩

end CommerceAgent
