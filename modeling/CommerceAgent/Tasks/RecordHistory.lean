import CommerceAgent.Agent.Exposure
import CommerceAgent.Tasks.Pending
import CommerceAgent.Tasks.RecordLaws

/-!
# What a record says of its task

Two laws of the records. The fields of a record fit together: it has an error exactly where
its status says that something failed, it expects a message exactly where a worker has still
to run it, and it says what to resume with a kind and an identifier or with neither. And a
record says of its session, its trace, its prompt and its merchant what the request that
created the task said, whatever has happened to it since.
-/

namespace CommerceAgent

open Effects

/-- The fields of the record fit together. -/
structure TaskRecord.Coherent (task : TaskRecord) : Prop where
  errors : task.errorCode.isSome = task.errorMessage.isSome
  failed : task.status ∈ [.retrying, .failed] → task.errorCode ≠ none
  clean : task.status ∉ [.running, .retrying, .failed] → task.errorCode = none
  expecting : task.status ∈ [.queued, .running, .retrying, .failed] → task.pendingAttempt ≠ none
  settled : task.status.Settled → task.pendingAttempt = none ∧ task.pendingResumeKind = none
  paired : task.pendingResumeKind.isSome = task.pendingResumeId.isSome
  queued : task.status = .queued → task.interaction = none

/-- The message says what to resume with a kind and an identifier or with neither. -/
def QueueMessage.Paired (payload : QueueMessage) : Prop :=
  payload.resumeKind.isSome = payload.resumeId.isSome

section Coherence

variable {task : TaskRecord} {payload : QueueMessage}

theorem TaskRecord.Coherent.errorMessage (h : task.Coherent) (hcode : task.errorCode = none) :
    task.errorMessage = none := by
  have hmessage := h.errors
  rw [hcode] at hmessage
  exact Option.isNone_iff_eq_none.1 (by simpa using hmessage.symm)

/-- What `resume_task` resumes has a kind and an identifier, or neither. -/
theorem paired_resumption (h : task.Coherent) :
    task.resumption.1.isSome = task.resumption.2.isSome := by
  unfold TaskRecord.resumption
  split_ifs
  · split <;> rfl
  · rfl
  · exact h.paired

theorem paired_retryResumption (h : payload.Paired) (graphStarted : Bool) :
    (retryResumption payload graphStarted).1.isSome =
      (retryResumption payload graphStarted).2.isSome := by
  unfold retryResumption
  split
  · rfl
  · exact h

/-- A record that waits for a worker on a message. -/
theorem coherent_of_queued (hstatus : task.status = .queued) (hcode : task.errorCode = none)
    (hmessage : task.errorMessage = none) (hattempt : task.pendingAttempt ≠ none)
    (hinteraction : task.interaction = none)
    (hpaired : task.pendingResumeKind.isSome = task.pendingResumeId.isSome) : task.Coherent where
  errors := by rw [hcode, hmessage]
  failed h := by simp [hstatus] at h
  clean _ := hcode
  expecting _ := hattempt
  settled h := by simp [TaskStatus.Settled, hstatus] at h
  paired := hpaired
  queued _ := hinteraction

/-- A record that has failed, for good or until its next attempt. -/
theorem coherent_of_failed (hstatus : task.status ∈ [.retrying, .failed])
    (hcode : task.errorCode.isSome = true) (hmessage : task.errorMessage.isSome = true)
    (hattempt : task.pendingAttempt ≠ none)
    (hpaired : task.pendingResumeKind.isSome = task.pendingResumeId.isSome) : task.Coherent where
  errors := by rw [hcode, hmessage]
  failed _ := Option.isSome_iff_ne_none.1 hcode
  clean h := by
    simp only [List.mem_cons, List.not_mem_nil, or_false] at hstatus
    rcases hstatus with hstatus | hstatus <;> simp [hstatus] at h
  expecting _ := hattempt
  settled h := by
    simp only [List.mem_cons, List.not_mem_nil, or_false] at hstatus
    rcases hstatus with hstatus | hstatus <;> simp [TaskStatus.Settled, hstatus] at h
  paired := hpaired
  queued h := by simp [h] at hstatus

theorem coherentLaw : RecordLaw TaskRecord.Coherent QueueMessage.Paired where
  input task productId h hstatus := by
    have hcode : task.errorCode = none := h.clean (by simp [hstatus])
    exact coherent_of_queued rfl hcode (h.errorMessage hcode) (by simp [TaskRecord.withInput]) rfl
      rfl
  approval task approvalId _ :=
    coherent_of_queued rfl rfl rfl (by simp [TaskRecord.withApproval]) rfl rfl
  resumed task h :=
    coherent_of_queued rfl rfl rfl (by simp [TaskRecord.resumed]) rfl (paired_resumption h)
  publishFailed task errorMessage interaction h hstatus := by
    refine coherent_of_failed (by simp [TaskRecord.publishFailed]) rfl rfl ?_ h.paired
    simp only [List.mem_cons, List.not_mem_nil, or_false] at hstatus
    apply h.expecting
    rcases hstatus with hstatus | hstatus <;> simp [hstatus]
  started task payload h _ hrunnable := by
    constructor
    · exact h.errors
    · intro hstatus
      simp [TaskRecord.started] at hstatus
    · intro hstatus
      simp [TaskRecord.started] at hstatus
    · intro _
      apply h.expecting
      simp only [TaskRecord.Runnable, List.mem_cons, List.not_mem_nil, or_false] at hrunnable ⊢
      rcases hrunnable with (hstatus | hstatus | hstatus) | ⟨hstatus, -⟩ <;> simp [hstatus]
    · intro hsettled
      simp [TaskStatus.Settled, TaskRecord.started] at hsettled
    · exact h.paired
    · intro hstatus
      cases hstatus
  finished task outcome _ := by
    constructor
    · rfl
    · intro hstatus
      cases houtcome : outcome.status <;>
        simp [TaskRecord.finished, RunStatus.taskStatus, houtcome] at hstatus
    · exact fun _ => rfl
    · intro hstatus
      cases houtcome : outcome.status <;>
        simp [TaskRecord.finished, RunStatus.taskStatus, houtcome] at hstatus
    · exact fun _ => ⟨rfl, rfl⟩
    · rfl
    · intro hstatus
      cases houtcome : outcome.status <;>
        simp [TaskRecord.finished, RunStatus.taskStatus, houtcome] at hstatus
  failedRun task payload exc graphStarted status _ hpayload hstatus :=
    coherent_of_failed hstatus rfl rfl (by simp [TaskRecord.failedRun])
      (paired_retryResumption hpayload graphStarted)
  message task payload h hfor := by
    obtain ⟨-, -, hkind, hid⟩ := hfor
    rw [QueueMessage.Paired, ← hkind, ← hid]
    exact h.paired

end Coherence

/-- The graph stores no record and sends no message. -/
theorem AgentSettings.aside (agent : AgentSettings) : agent.orchestrator.Aside := by
  intro task resumeKind resumeId
  apply (agent.orchestrator_only task resumeKind resumeId).mono
  · intro c hc
    cases c <;> first | exact ⟨rfl, rfl⟩ | cases hc
  · exact fun _ _ => trivial

/-- In every run the records that are created are coherent, and so are all that follow. -/
theorem coherent_run (agent : AgentSettings) {settings : Settings} {π : TaskPolicy}
    {h : List (TaskConfig × TaskAction)} {c : TaskConfig}
    (run : (taskMachine settings agent.orchestrator).Run π (.initial World.fresh) h c) :
    (lawContract TaskRecord.Coherent QueueMessage.Paired).Holds
      (taskMachine settings agent.orchestrator) h c := by
  have hcreated : ∀ request : CreateTask, request.record.Coherent := fun request =>
    coherent_of_queued rfl rfl rfl (by simp [CreateTask.record]) rfl rfl
  apply lawful_run coherentLaw agent.aside
  apply lawPolicy_of_call _ run
  intro i cl ch w _
  cases cl with
  | setNew task | createScript task key =>
      rintro request rfl
      exact hcreated request
  | _ => trivial

/-- In every run of a deployment, whatever fails, expires, crashes or is delivered twice: the
fields of each record fit together, and each message says what to resume completely. -/
theorem records_coherent (agent : AgentSettings) (settings : Settings)
    {h : List (TaskConfig × TaskAction)} {c : TaskConfig}
    (run : (taskMachine settings agent.orchestrator).Run Policy.any (.initial World.fresh) h c) :
    (∀ taskId task, c.state.records taskId = some task → task.Coherent) ∧
      ∀ payload, c.state.Carried payload → payload.Paired :=
  (coherent_run agent run).inv.2

/-- A task whose message could not be published. -/
def demoUnpublished : List TaskAction :=
  [.start 0 (.createTask demoRequest), .call 0 {}, .call 0 {},
    .call 0 { ending := .lost .timeoutError }, .call 0 {}]

/-- The record of the demonstration has failed. -/
def demoFailed (c : TaskConfig) : Bool :=
  (c.state.records "task-1").any fun task => task.status == .failed

theorem records_coherent_demo : ∃ h c,
    (taskMachine demoSettings demoAgent.orchestrator).Run Policy.any (.initial World.fresh) h c ∧
      demoFailed c = true ∧
      (∀ taskId task, c.state.records taskId = some task → task.Coherent) ∧
        ∀ payload, c.state.Carried payload → payload.Paired := by
  have hend : ((taskMachine demoSettings demoAgent.orchestrator).exec Policy.any demoUnpublished
      (.initial World.fresh)).map demoFailed = some true := by decide +kernel
  obtain ⟨c, hc, hfailed⟩ := Option.map_eq_some_iff.1 hend
  obtain ⟨h, run⟩ := Machine.Run.exec .nil hc
  exact ⟨_, c, run, hfailed, records_coherent demoAgent demoSettings run⟩

/-- The record says of its task what the request said that created it. -/
def TaskRecord.Own (requests : String → CreateTask) (task : TaskRecord) : Prop :=
  let created := (requests task.taskId).record
  task.sessionId = created.sessionId ∧ task.traceId = created.traceId ∧
    task.prompt = created.prompt ∧ task.merchantId = created.merchantId

theorem ownLaw (requests : String → CreateTask) :
    RecordLaw (TaskRecord.Own requests) fun _ => True where
  input _ _ h _ := h
  approval _ _ h := h
  resumed _ h := h
  publishFailed _ _ _ h _ := h
  started _ _ h _ _ := h
  finished _ _ h := h
  failedRun _ _ _ _ _ h _ _ := h
  message _ _ _ _ := trivial

/-- Each identifier of a task is drawn by one request. -/
def drawnOnce (requests : String → CreateTask) : TaskPolicy where
  call _ c _ _ :=
    match c with
    | .setNew task | .createScript task _ => task = (requests task.taskId).record
    | _ => True

/-- In every run in which no identifier is drawn by two requests: a record has the session,
the trace, the prompt and the merchant of the request that created its task. -/
theorem records_own (agent : AgentSettings) (settings : Settings) (requests : String → CreateTask)
    {h : List (TaskConfig × TaskAction)} {c : TaskConfig}
    (run : (taskMachine settings agent.orchestrator).Run (drawnOnce requests)
      (.initial World.fresh) h c) :
    ∀ taskId task, c.state.records taskId = some task →
      task.taskId = taskId ∧ task.Own requests := by
  have hrun : (taskMachine settings agent.orchestrator).Run
      (lawPolicy (TaskRecord.Own requests)) (.initial World.fresh) h c := by
    apply lawPolicy_of_call _ run
    intro i cl ch w hpermit
    cases cl with
    | setNew task | createScript task key =>
        intro request _
        have hdrawn : task = (requests task.taskId).record := hpermit
        refine ⟨?_, ?_, ?_, ?_⟩ <;> exact congrArg _ hdrawn
    | _ => trivial
  have hinv := (lawful_run (ownLaw requests) agent.aside hrun).inv
  intro taskId task htask
  exact ⟨hinv.1 taskId task htask, hinv.2.1 taskId task htask⟩

/-- A second task, created under an idempotency key. -/
def demoKeyedRequest : CreateTask where
  prompt := "Which products lost clicks?"
  idempotencyKey := some "key-2"
  merchantId := "second-merchant"
  taskToken := "task-2"
  sessionToken := "session-2"
  traceToken := "trace-2"

def demoDrawn (taskId : String) : CreateTask :=
  if taskId = "task-2" then demoKeyedRequest else demoRequest

section Demo

variable (w : World)

instance (i : ℕ) (c : TaskCall) (ch : TaskChoice) :
    Decidable ((drawnOnce demoDrawn).call i c ch w) :=
  match c with
  | .setNew task | .createScript task _ =>
      inferInstanceAs (Decidable (task = (demoDrawn task.taskId).record))
  | .deleteKey _ | .getTask .. | .saveTask .. | .transitionTask .. | .acquireTaskLease ..
  | .releaseTaskLease _ | .hasTaskLease _ | .appendEvent .. | .publish _ | .publishRetry _ | .ack
  | .reject _ | .resolveProduct .. | .ledger _ | .run .. | .graph .. | .getCheckpoint _
  | .putCheckpoint .. | .complete .. | .getMetrics .. | .executeTool .. | .enterNode ..
  | .schedule => .isTrue trivial

instance (i : ℕ) (q : TaskRequest) : Decidable ((drawnOnce demoDrawn).start i q w) :=
  .isTrue trivial

instance (i : ℕ) : Decidable ((drawnOnce demoDrawn).crash i w) := .isTrue trivial

instance (e : TaskEnvironment) : Decidable ((drawnOnce demoDrawn).environment e w) :=
  .isTrue trivial

end Demo

/-- The first task is run while the second one is created. -/
def demoDrawnActions : List TaskAction :=
  [.start 0 (.createTask demoRequest), .call 0 {}, .call 0 {}, .call 0 {},
    .start 1 (.handleMessage (.ok demoMessage)), .call 1 {}, .call 1 {},
    .start 2 (.createTask demoKeyedRequest), .call 2 {}, .call 1 {}]

theorem records_own_demo : ∃ h c,
    (taskMachine demoSettings demoAgent.orchestrator).Run (drawnOnce demoDrawn)
        (.initial World.fresh) h c ∧
      (c.state.records "task-1").map TaskRecord.status = some .running ∧
      (c.state.records "task-2").map TaskRecord.status = some .queued ∧
      ∀ taskId task, c.state.records taskId = some task →
        task.taskId = taskId ∧ task.Own demoDrawn := by
  have hend : ((taskMachine demoSettings demoAgent.orchestrator).exec (drawnOnce demoDrawn)
      demoDrawnActions (.initial World.fresh)).map (fun c =>
        ((c.state.records "task-1").map TaskRecord.status,
          (c.state.records "task-2").map TaskRecord.status)) =
      some (some .running, some .queued) := by decide +kernel
  obtain ⟨c, hc, hstatuses⟩ := Option.map_eq_some_iff.1 hend
  obtain ⟨hfirst, hsecond⟩ := Prod.mk.inj hstatuses
  have run := Machine.Run.follow .nil hc
  exact ⟨_, c, run, hfirst, hsecond, records_own demoAgent demoSettings demoDrawn run⟩

end CommerceAgent
