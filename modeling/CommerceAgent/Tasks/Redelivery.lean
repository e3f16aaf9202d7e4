import CommerceAgent.Effects.Transcript
import CommerceAgent.Tasks.Diligence

/-!
# Redelivery and retries

After `create_task` only workers act on the task. As long as none of them stores
the record as retrying, redelivery covers their crashes: the message that the
record waits for is queued or with a handler. The retry branch of
`_handle_failure` stores the record before it publishes the message that the
record then waits for, and in between no message matches: a handler that crashes
there leaves a record that no redelivery can move.
-/

namespace CommerceAgent

open Effects

/-- What `create_task` leaves in a deployment without any other task. -/
def World.created (request : CreateTask) : World :=
  { World.fresh.store request.record with
    idempotencyKeys :=
      match request.idempotencyKey with
      | none | some "" => World.fresh.idempotencyKeys
      | some key => Function.update World.fresh.idempotencyKeys key (some request.taskToken)
    events := [(request.taskToken, .queued request.record.sessionId 0)]
    inFlight := [request.record.message 0 none none] }

/-- Workers run and crash at any call, any call raises, messages are delivered
late and twice, and records do not expire. -/
def crashPolicy : TaskPolicy where
  start _ q _ := q.byWorker = true
  environment e _ := ∀ id, e ≠ .expireRecord id

/-- The call takes effect and stores a record as retrying. -/
def TaskCall.retries (c : TaskCall) (ch : TaskChoice) : Prop :=
  ∃ site task, c = .saveTask site task ∧ task.status = .retrying ∧ ∀ e, ch.ending ≠ .lost e

/-- The same, without the steps that store a record as retrying. -/
def steadyPolicy : TaskPolicy :=
  { crashPolicy with call := fun _ c ch _ => ¬ c.retries ch }

theorem steadyPolicy_covers : Covers steadyPolicy False where
  reliable h := h.elim
  crash _ _ _ h := h
  kept id _ h := h id rfl
  workers _ _ _ _ h := h
  unretried _ _ site task ch _ h hstatus := by
    by_contra hlost
    exact h ⟨site, task, rfl, hstatus, fun e heq => hlost ⟨e, heq⟩⟩

/-- Some message that is queued or with a handler is the one that the record of
the task waits for, if it waits. -/
def Covered (taskId : String) (w : World) : Prop :=
  ∀ task, w.records taskId = some task → task.status = .queued ∨ task.status = .retrying →
    ∃ payload, (payload ∈ w.inFlight ∨ ∃ i, w.unacked i = some payload) ∧
      payload.taskId = taskId ∧ task.pendingAttempt = some payload.attempt ∧
        task.pendingResumeKind = payload.resumeKind ∧ task.pendingResumeId = payload.resumeId

section Steady

variable {settings : Settings} {message : QueueMessage} {α β : Type}

/-- Before any retry there is only one message, and a retry would ask for another. -/
def TaskCall.Calm (message : QueueMessage) : TaskCall → Prop
  | .publish payload | .publishRetry payload => payload = message
  | .saveTask _ task => task.status = .retrying →
      task.taskId = message.taskId ∧ task.pendingAttempt = some (message.attempt + 1)
  | _ => True

/-- As long as no record is stored as retrying, every message is the first one. -/
def steadyContract (message : QueueMessage) :
    Contract Exn TaskCall TaskCall.Reply World TaskRequest where
  inv w := w.Keyed ∧ (∀ payload ∈ w.inFlight, payload = message) ∧
    ∀ i payload, w.unacked i = some payload → payload = message
  assume c r :=
    match c, r with
    | .getTask _ taskId, .ok (some task) => task.taskId = taskId
    | .saveTask _ task, .ok _ => task.status ≠ .retrying
    | _, _ => True
  guarantee _ _ c := c.Calm message

/-- The program is calm until a record has been stored as retrying. -/
def Steady (message : QueueMessage) (p : TaskProgram α) : Prop :=
  ∀ past, p.Meets (steadyContract message).assume (fun _ c => c.Calm message)
    (fun _ _ => True) (fun _ _ => True) past

theorem steady_of_only {V : α → Prop} {p : TaskProgram α} (hp : p.Only (TaskCall.Calm message) V) :
    Steady message p :=
  fun past => .of_only (fun _ _ h => h) (fun _ _ _ => trivial) (fun _ _ => trivial) past hp

theorem Steady.handle {p : TaskProgram α} {f : α → TaskProgram β} {h : Exn → TaskProgram β}
    (hp : Steady message p) (hf : ∀ a, Steady message (f a)) (hh : ∀ e, Steady message (h e)) :
    Steady message (p.handle f h) :=
  fun past => .handle ((hp past).mono (fun past a _ => hf a past) fun past e _ => hh e past)

theorem steady_getTask {site : Site} {id : String} {f : Option TaskRecord → TaskProgram β}
    {h : Exn → TaskProgram β} (hnone : Steady message (f none))
    (hf : ∀ task, task.taskId = id → Steady message (f (some task)))
    (hh : ∀ e, Steady message (h e)) :
    Steady message ((TaskCall.getTask site id).perform.handle f h) := by
  intro past
  rw [Program.meets_handle]
  refine ⟨trivial, ?_, fun e _ => hh e _⟩
  intro found hassume
  cases found with
  | none => exact hnone _
  | some task => exact hf task hassume _

/-- The retry branch stores the record as retrying first, and stops there if it cannot. -/
theorem steady_scheduleRetry (exc : Exn) (graphStarted : Bool) {task : TaskRecord}
    (htask : task.taskId = message.taskId) :
    Steady message (scheduleRetry message exc graphStarted task) := by
  intro past
  rw [scheduleRetry, Program.meets_bind]
  refine ⟨fun _ => ⟨htask, rfl⟩, ?_, fun _ _ => trivial⟩
  intro reply hassume
  exact absurd rfl hassume

theorem steady_perform {c : TaskCall} (hc : c.Calm message) : Steady message c.perform :=
  steady_of_only (V := fun _ => True) (.perform hc)

theorem Steady.bind {p : TaskProgram α} {f : α → TaskProgram β}
    (hp : Steady message p) (hf : ∀ a, Steady message (f a)) : Steady message (p >>= f) :=
  hp.handle hf fun _ _ => trivial

theorem steady_handleFailure (exc : Exn) (graphStarted : Bool) :
    Steady message (handleFailure settings message exc graphStarted) := by
  apply steady_getTask
  · exact steady_perform (c := .reject false) trivial
  · intro task htask
    change Steady message (if _ then _ else _)
    split
    · exact steady_scheduleRetry exc graphStarted htask
    · apply (steady_perform (c := .saveTask (.handleFailure message)
        (task.failedRun message exc graphStarted .failed)) nofun).bind
      intro _
      apply (steady_perform (c := .appendEvent _ _) trivial).bind
      exact fun _ => steady_perform (c := .reject false) trivial
  · exact fun _ _ => trivial

theorem steady_prepareRun : Steady message (prepareRun message) := by
  have hsettle : ∀ c : TaskCall, c.Calm message →
      Steady message (c.perform >>= fun _ => (pure none : TaskProgram (Option TaskRecord))) :=
    fun c hc => (steady_perform hc).bind fun _ _ => trivial
  apply steady_getTask
  · exact hsettle (.reject false) trivial
  · intro task _
    change Steady message (if _ then _ else _)
    split
    · exact hsettle .ack trivial
    split
    · exact hsettle .ack trivial
    split
    · exact hsettle .ack trivial
    have hstart : Steady message (markRunning task message) := by
      apply (steady_perform (c := .saveTask (.markRunning message) (task.started message))
        nofun).bind
      intro _
      apply (steady_perform (c := .appendEvent _ _) trivial).bind
      exact fun _ _ => trivial
    exact hstart.bind fun _ _ => trivial
  · exact fun _ _ => trivial

theorem steady_executeRun (task : TaskRecord) :
    Steady message (executeRun arbitraryRun message task) := by
  apply (steady_perform (c := .run task message.resumeKind message.resumeId) trivial).bind
  intro outcome
  have hfinished : (TaskCall.saveTask (.outcome message) (task.finished outcome)).Calm message := by
    intro hstatus
    cases h : outcome.status <;> simp [TaskRecord.finished, RunStatus.taskStatus, h] at hstatus
  apply (steady_perform hfinished).bind
  intro _
  have hreport : Steady message (reportApprovalRequired (task.finished outcome) outcome) := by
    unfold reportApprovalRequired
    split
    · exact steady_perform (by trivial)
    · exact fun _ => trivial
  apply hreport.bind
  intro _
  apply (steady_perform (c := .appendEvent _ _) trivial).bind
  exact fun _ => steady_perform (c := .ack) trivial

theorem steady_handleMessage :
    Steady message (handleMessage settings arbitraryRun (.ok message)) := by
  apply (steady_perform (c := .acquireTaskLease message.taskId settings.leaseTtl) trivial).bind
  intro acquired
  have hack : Steady message TaskCall.ack.perform := steady_perform trivial
  have hreject : Steady message (TaskCall.reject true).perform := steady_perform trivial
  have hretry : Steady message (TaskCall.publishRetry message).perform := steady_perform rfl
  have hrelease : Steady message (releaseLease message.taskId) :=
    (steady_perform (c := .releaseTaskLease message.taskId) trivial).handle (fun _ _ => trivial)
      fun _ _ => trivial
  cases acquired with
  | false => exact hretry.handle (fun _ => hack) fun _ => hreject
  | true =>
      have hrun : Steady message (runUnderLease settings arbitraryRun message) := by
        apply steady_prepareRun.handle
        · intro found
          cases found with
          | none => exact fun _ => trivial
          | some task =>
              exact (steady_executeRun task).handle (fun _ _ => trivial)
                fun exc => steady_handleFailure exc true
        · exact fun exc => steady_handleFailure exc false
      exact hrun.handle (fun _ => hrelease.handle (fun _ _ => trivial) fun _ _ => trivial)
        fun _ => hrelease.handle (fun _ _ => trivial) fun _ _ => trivial

theorem steady_program {q : TaskRequest} (hworker : q.byWorker = true)
    (hmessage : ∀ payload, q = .handleMessage (.ok payload) → payload = message) :
    Steady message (q.program settings arbitraryRun) := by
  cases q with
  | handleMessage body =>
      cases body with
      | error e => exact (steady_perform (c := .reject false) trivial).bind fun _ _ => trivial
      | ok payload =>
          cases hmessage payload rfl
          exact steady_handleMessage.bind fun _ _ => trivial
  | ledger request =>
      have hledger : (liftLedger (request.program settings.catalog)).Only
          (TaskCall.Calm message) fun _ => True := Program.only_lift (fun _ => trivial) _
      exact (steady_of_only hledger).bind fun _ _ => trivial
  | _ => cases hworker

/-- Only the first message is returned to its queue. -/
theorem steady_requeue {w : World} (hinv : (steadyContract message).inv w) (i : ℕ) :
    (steadyContract message).inv (w.requeue i) := by
  obtain ⟨hkeyed, hflight, hunacked⟩ := hinv
  refine ⟨hkeyed.of_records (w.requeue_records i), ?_, ?_⟩
  · intro payload hmem
    rw [World.requeue_inFlight, List.mem_append, Option.mem_toList] at hmem
    rcases hmem with hmem | hmem
    · exact hflight payload hmem
    · exact hunacked i payload hmem
  · intro j payload hj
    rw [World.requeue_unacked, Function.update_apply] at hj
    split at hj
    · cases hj
    · exact hunacked j payload hj

theorem steadySound (message : QueueMessage) :
    (steadyContract message).Sound (taskMachine settings arbitraryRun)
    steadyPolicy where
  start i q w w' hinv hworker haccept := by
    obtain ⟨hkeyed, hflight, hunacked⟩ := hinv
    have hkeyed' := hkeyed.of_records (records_of_accept haccept)
    replace haccept : q.accept i w = some w' := haccept
    unfold TaskRequest.accept at haccept
    split at haccept
    · next payload =>
        split at haccept <;> cases haccept
        next hmem =>
        refine ⟨⟨hkeyed', fun m hm => hflight m (List.mem_of_mem_erase hm), ?_⟩,
          steady_program hworker (fun _ heq => by cases heq; exact hflight payload hmem) []⟩
        intro j m hj
        by_cases hji : j = i
        · subst hji
          have heq : payload = m := by simpa [World.deliver] using hj
          exact heq ▸ hflight payload hmem
        · exact hunacked j m (by simpa [World.deliver, Function.update_of_ne hji] using hj)
    · next hother =>
        cases haccept
        exact ⟨⟨hkeyed', hflight, hunacked⟩,
          steady_program hworker (fun payload heq => absurd heq (hother payload)) []⟩
  call i q past c ch w r w' hinv hpermit hcalm hr := by
    obtain ⟨hkeyed, hflight, hunacked⟩ := hinv
    have hqueue := queueStep_of_answer hr
    constructor
    · cases c with
      | getTask site taskId =>
          cases r with
          | error e => trivial
          | ok found =>
              cases found with
              | none => trivial
              | some task => exact hkeyed taskId task (read_of_answer hr).1.symm
      | saveTask site task =>
          cases r with
          | error e => trivial
          | ok reply =>
              intro hstatus
              refine hpermit ⟨site, task, rfl, hstatus, fun e hlost => ?_⟩
              have hr := Option.some.inj hr
              rw [hlost] at hr
              cases hr
      | _ => cases r <;> trivial
    · refine ⟨hkeyed.answer hr, fun payload hmem => ?_,
        fun j payload hj => hunacked j payload (hqueue.settled j payload hj)⟩
      rcases hqueue.sent payload hmem with hmem | hsent | hown
      · exact hflight payload hmem
      · cases c with
        | publish m | publishRetry m =>
            cases hsent
            exact hcalm
        | _ => cases hsent
      · exact hunacked i payload hown
  crash i w hinv _ := steady_requeue hinv i
  environment e w w' hinv hpermit henv := by
    obtain ⟨hkeyed, hflight, hunacked⟩ := hinv
    have hkeyed' := hkeyed.environment henv
    cases e with
    | duplicate payload =>
        replace henv :
            (if payload ∈ w.inFlight then some (w.enqueue payload) else none) = some w' := henv
        split at henv <;> cases henv
        next hmem =>
        refine ⟨hkeyed', fun m hm => ?_, hunacked⟩
        rcases List.mem_append.1 hm with hm | hm
        · exact hflight m hm
        · rw [List.mem_singleton.1 hm]
          exact hflight payload hmem
    | redeliver i =>
        cases henv
        exact steady_requeue ⟨hkeyed, hflight, hunacked⟩ i
    | _ =>
        cases henv
        exact ⟨hkeyed', hflight, hunacked⟩

end Steady

section Redelivery

variable {settings : Settings} {request : CreateTask} {h : List (TaskConfig × TaskAction)}
  {c : TaskConfig}

/-- The step stores a record as retrying. -/
def StoresRetrying (v : TaskConfig × TaskAction) : Prop :=
  ∃ i ch q cl k, v.2 = .call i ch ∧ v.1.pool i = .running q (.call cl k) ∧ cl.retries ch

theorem created_keyed (request : CreateTask) : (World.created request).Keyed := by
  intro taskId task htask
  have hstored : ((World.fresh.store request.record).records) taskId = some task := htask
  rw [World.store_records] at hstored
  split at hstored
  · next heq =>
      cases hstored
      exact heq.symm
  · cases hstored

theorem created_awaits {taskId : String} {d : Triple}
    (h : (World.created request).awaits taskId = some d) :
    (coverage taskId False).met d (World.created request) := by
  obtain ⟨task, htask, -, rfl⟩ := awaits_eq_some h
  have hstored : ((World.fresh.store request.record).records) taskId = some task := htask
  rw [World.store_records] at hstored
  split at hstored
  · next heq =>
      cases hstored
      exact ⟨_, List.mem_singleton_self _, heq.symm, rfl⟩
  · cases hstored

/-- A run that stores no record as retrying is a steady run. -/
theorem steady_of_not_storesRetrying
    (run : (taskMachine settings arbitraryRun).Run crashPolicy (.initial (World.created request))
      h c)
    (hretry : ∀ v ∈ h, ¬ StoresRetrying v) :
    (taskMachine settings arbitraryRun).Run steadyPolicy (.initial (World.created request))
      h c := by
  apply run.restrict
  intro v hv hpermit
  obtain ⟨c, a⟩ := v
  cases a with
  | call i ch =>
      simp only [Policy.permits]
      split
      · next q cl k hslot =>
          exact fun hretries => hretry _ hv ⟨i, ch, q, cl, k, rfl, hslot, hretries⟩
      · trivial
  | start i q => exact hpermit
  | crash i => trivial
  | environment e => exact hpermit

theorem covered_of_steady
    (run : (taskMachine settings arbitraryRun).Run steadyPolicy (.initial (World.created request))
      h c)
    (taskId : String) : Covered taskId c.state := by
  intro task htask hstatus
  have hholds := (coverageSound taskId steadyPolicy_covers only_arbitraryRun).run
    (created_keyed request) (fun _ => created_awaits) run
  have hwaiting : task.status.Waiting := by simpa [TaskStatus.Waiting] using hstatus
  have hdue : c.state.awaits taskId = some task.triple := by simp [World.awaits, htask, hwaiting]
  have hcovered : ∃ payload, (payload ∈ c.state.inFlight ∨ ∃ i, c.state.unacked i = some payload) ∧
      payload.Carries taskId task.triple := by
    rcases hholds.met_or_held id hdue with ⟨payload, hmem, hcarries⟩ | ⟨i, payload, hi, hcarries⟩
    · exact ⟨payload, .inl hmem, hcarries⟩
    · exact ⟨payload, .inr ⟨i, hi⟩, hcarries⟩
  obtain ⟨payload, hwhere, hid, htriple⟩ := hcovered
  have hparts : some payload.attempt = task.pendingAttempt ∧
      payload.resumeKind = task.pendingResumeKind ∧ payload.resumeId = task.pendingResumeId := by
    simpa [QueueMessage.triple, TaskRecord.triple] using htriple
  exact ⟨payload, hwhere, hid, hparts.1.symm, hparts.2.1.symm, hparts.2.2.symm⟩

/-- The first record stored as retrying waits for a message that does not exist. -/
theorem not_covered_of_storesRetrying
    (run : (taskMachine settings arbitraryRun).Run steadyPolicy (.initial (World.created request))
      h c)
    {a : TaskAction} {c' : TaskConfig} (hstores : StoresRetrying (c, a))
    (hstep : (taskMachine settings arbitraryRun).step a c = some c') :
    ¬ Covered request.taskToken c'.state := by
  obtain ⟨i, ch, q, cl, k, rfl, hslot, site, task, rfl, hstatus, hlost⟩ := hstores
  have hholds := (steadySound (request.record.message 0 none none)).run
    ⟨created_keyed request, by simp [World.created],
      by simp [World.created, World.fresh, World.store]⟩
    run
  obtain ⟨htask, hpending⟩ := hholds.guarantee hslot hstatus
  obtain ⟨q', cl', k', r, w, hslot', hr, rfl⟩ := Machine.step_call _ hstep
  cases hslot.symm.trans hslot'
  have hstored : w = c.state.store task := by
    replace hr := Option.some.inj hr
    cases hending : ch.ending with
    | done | late e =>
        rw [hending] at hr
        cases hr
        rfl
    | lost e => exact absurd hending (hlost e)
  intro hcovered
  obtain ⟨payload, hwhere, -, hattempt, -⟩ :=
    hcovered task (by rw [hstored, World.store_records, htask]; exact if_pos rfl) (.inr hstatus)
  have hpayload : payload = request.record.message 0 none none := by
    rw [hstored] at hwhere
    rcases hwhere with hmem | ⟨j, hj⟩
    · exact hholds.inv.2.1 payload hmem
    · exact hholds.inv.2.2 j payload hj
  rw [hpayload, hpending] at hattempt
  cases hattempt

/-- Over every run of workers that crash at any call, after a task was created:
at every moment the record, if it is queued or retrying, is awaited by a message
that is queued or with a handler, if and only if no record is ever stored as
retrying. -/
theorem redelivery_covers
    (run : (taskMachine settings arbitraryRun).Run crashPolicy (.initial (World.created request))
      h c) :
    ((∀ v ∈ h, Covered request.taskToken v.1.state) ∧ Covered request.taskToken c.state) ↔
      ∀ v ∈ h, ¬ StoresRetrying v := by
  constructor
  · induction run with
    | nil => simp
    | @snoc h c c' a run permitted step ih =>
        intro hcovered v hv
        have hpast : ∀ v ∈ h, ¬ StoresRetrying v := by
          apply ih
          constructor
          · exact fun v hv => hcovered.1 v (List.mem_append_left _ hv)
          · exact hcovered.1 (c, a) (List.mem_append_right _ (List.mem_singleton_self _))
        rcases List.mem_append.1 hv with hv | hv
        · exact hpast v hv
        · rw [List.mem_singleton.1 hv]
          intro hstores
          exact not_covered_of_storesRetrying (steady_of_not_storesRetrying run hpast) hstores step
            hcovered.2
  · intro hretry
    constructor
    · intro v hv
      obtain ⟨h₁, h₂, rfl⟩ := List.append_of_mem hv
      apply covered_of_steady (steady_of_not_storesRetrying (run.before rfl).1 _)
      exact fun u hu => hretry u (List.mem_append_left _ hu)
    · exact covered_of_steady (steady_of_not_storesRetrying run hretry) _

end Redelivery

instance (i : ℕ) (c : TaskCall) (ch : TaskChoice) (w : World) :
    Decidable (crashPolicy.call i c ch w) := .isTrue trivial

instance (i : ℕ) (q : TaskRequest) (w : World) : Decidable (crashPolicy.start i q w) :=
  inferInstanceAs (Decidable (_ = true))

instance (i : ℕ) (w : World) : Decidable (crashPolicy.crash i w) := .isTrue trivial

instance (e : TaskEnvironment) (w : World) : Decidable (crashPolicy.environment e w) :=
  decidable_of_iff (e.expiresRecord = false) expiresRecord_eq_false_iff

/-- The run of a task times out, and the worker crashes before it has published the
retry; the first message is delivered again and acknowledged as stale. -/
def demoCrashActions : List TaskAction :=
  [.start 0 (.handleMessage (.ok demoMessage)), .call 0 {}, .call 0 {}, .call 0 {}, .call 0 {},
   .call 0 { ending := .lost .timeoutError }, .call 0 {}, .call 0 {}, .crash 0,
   .environment (.expireLease "task-1"), .start 1 (.handleMessage (.ok demoMessage)), .call 1 {},
   .call 1 {}, .call 1 {}, .call 1 {}]

/-- What the run leaves: a record that waits, and no message. -/
theorem exec_demoCrashActions :
    ((taskMachine demoSettings arbitraryRun).exec crashPolicy demoCrashActions
      (.initial (World.created demoRequest))).map (fun c =>
        ((c.state.records "task-1").map TaskRecord.status, c.state.inFlight, c.state.unacked)) =
      some (some .retrying, [], Function.update (Function.update (Function.update
        (Function.update (fun _ => none) 0 (some demoMessage)) 0 none) 1 (some demoMessage)) 1
          none) := rfl

/-- Redelivery does not cover a crash between the record and the message of a retry. -/
theorem redelivery_strands : ∃ h c,
    (taskMachine demoSettings arbitraryRun).Run crashPolicy (.initial (World.created demoRequest))
      h c ∧ (c.state.records "task-1").map TaskRecord.status = some .retrying ∧
        c.state.inFlight = [] ∧ (∀ i, c.state.unacked i = none) ∧ ¬ Covered "task-1" c.state := by
  obtain ⟨c, hc, hresults⟩ := Option.map_eq_some_iff.1 exec_demoCrashActions
  obtain ⟨h, run⟩ := Machine.Run.exec .nil hc
  rw [Prod.mk.injEq, Prod.mk.injEq] at hresults
  obtain ⟨hstatus, hflight, hunacked⟩ := hresults
  have hnone : ∀ i, c.state.unacked i = none := by
    intro i
    rw [hunacked]
    simp only [Function.update_apply]
    split_ifs <;> rfl
  refine ⟨h, c, run, hstatus, hflight, hnone, fun hcovered => ?_⟩
  obtain ⟨task, htask, hretrying⟩ := Option.map_eq_some_iff.1 hstatus
  obtain ⟨payload, hmem | ⟨i, hi⟩, -⟩ := hcovered task htask (.inr hretrying)
  · rw [hflight] at hmem
    cases hmem
  · rw [hnone i] at hi
    cases hi

theorem redelivery_covers_demo : ∃ h c,
    (taskMachine demoSettings arbitraryRun).Run crashPolicy (.initial (World.created demoRequest))
      h c ∧ (c.state.records "task-1").map TaskRecord.status = some .retrying ∧
        (((∀ v ∈ h, Covered "task-1" v.1.state) ∧ Covered "task-1" c.state) ↔
          ∀ v ∈ h, ¬ StoresRetrying v) := by
  obtain ⟨c, hc, hresults⟩ := Option.map_eq_some_iff.1 exec_demoCrashActions
  obtain ⟨h, run⟩ := Machine.Run.exec .nil hc
  rw [Prod.mk.injEq] at hresults
  exact ⟨h, c, run, hresults.1, redelivery_covers run⟩

end CommerceAgent
