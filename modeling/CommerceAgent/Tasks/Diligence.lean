import CommerceAgent.Tasks.Coverage

/-!
# The diligence of processes

Every program of the task system sees to the records it lets wait. An operation
that stores a record as queued publishes its message, or stores the record as
failed; a handler that stores one as retrying does the same. `Duty.Sound.run`
then gives coverage: when no call or handler of a task is in progress, a record
that waits has a message on its way.
-/

namespace CommerceAgent

open Effects

section Diligence

variable {settings : Settings} {orchestrator : Orchestrator} {π : TaskPolicy} {promises : Prop}
  {taskId : String} {i : ℕ} {A : Prop} {α β : Type} {V : β → Prop}
  {Q : Triple → Pledge → β → Prop} {E : Triple → Pledge → Exn → Prop}

/-- The program sees to every record of the task that it lets wait. -/
abbrev Diligent (settings : Settings) (orchestrator : Orchestrator) (π : TaskPolicy)
    (taskId : String) (promises : Prop) (i : ℕ) (A : Prop) (Q : Triple → Pledge → β → Prop)
    (E : Triple → Pledge → Exn → Prop) (V : β → Prop) (p : TaskProgram β) : Prop :=
  (coverage taskId promises).Diligent (taskMachine settings orchestrator) π i A Q E V p

theorem due_of_written_eq_none {c : TaskCall} (hwritten : c.written = none) {ch : TaskChoice}
    {w w' : World} {r : Except Exn c.Reply}
    (h : (taskMachine settings orchestrator).answer i c ch w = some (r, w')) :
    w'.awaits taskId = w.awaits taskId := by
  apply awaits_of_records
  rcases records_of_answer h with hsame | ⟨task, htask, -⟩
  · exact hsame
  · rw [hwritten] at htask
    cases htask

theorem diligent_of_only {p : TaskProgram β} (hp : p.Only (fun c => c.written = none) V) :
    Diligent settings orchestrator π taskId promises i A Q E V p :=
  .of_only (fun _ hc _ _ _ _ _ _ h => due_of_written_eq_none hc h) hp

theorem diligent_quiet {c : TaskCall} (hwritten : c.written = none)
    {f : c.Reply → TaskProgram β} {h : Exn → TaskProgram β}
    (hf : ∀ ch w reply w', w.Keyed → c.execute settings i ch w = .ok (reply, w') →
      Diligent settings orchestrator π taskId promises i A Q E V (f reply))
    (hh : ∀ e, Diligent settings orchestrator π taskId promises i A Q E V (h e)) :
    Diligent settings orchestrator π taskId promises i A Q E V (c.perform.handle f h) := by
  intro ch w r w' hkeyed hpermit hr
  constructor
  · exact fun hne => absurd (due_of_written_eq_none hwritten hr) hne
  · cases r with
    | ok reply => exact hf ch w reply w' hkeyed (execute_of_answer hr)
    | error e => exact hh e

/-- To store a record that concerns the duty: if it is to wait, what follows the
write has to bear it. -/
theorem diligent_write (hπ : Covers π promises) {c : TaskCall} {task : TaskRecord}
    (hwritten : c.written = some task) (hA : task.taskId = taskId → A)
    {f : c.Reply → TaskProgram β} {h : Exn → TaskProgram β}
    (hf : ∀ reply, Diligent settings orchestrator π taskId promises i A Q E V (f reply))
    (hh : ∀ e, Diligent settings orchestrator π taskId promises i A Q E V (h e))
    (howes : task.taskId = taskId → task.status.Waiting → promises ∧ c.reliable = true ∧
      ∀ ch w reply w', c.execute settings i ch w = .ok (reply, w') → w'.records ≠ w.records →
        Bears settings orchestrator π taskId promises i Q E (f reply) task.triple .promised) :
    Diligent settings orchestrator π taskId promises i A Q E V (c.perform.handle f h) := by
  intro ch w r w' hkeyed hpermit hr
  constructor
  · intro hne
    have hrecords : w'.records ≠ w.records := fun heq => hne (awaits_of_records heq)
    obtain ⟨task', htask', hstored⟩ := (records_of_answer hr).resolve_left hrecords
    cases hwritten.symm.trans htask'
    have hawaits := awaits_store taskId hstored
    have htask : taskId = task.taskId := by
      by_contra hother
      rw [if_neg hother] at hawaits
      exact hne hawaits
    rw [if_pos htask] at hawaits
    refine ⟨hA htask.symm, ?_⟩
    by_cases hwaiting : task.status.Waiting
    · rw [if_pos hwaiting] at hawaits
      obtain ⟨hpromises, hreliable, hbears⟩ := howes htask.symm hwaiting
      cases r with
      | ok reply =>
          refine Duty.Owes.of_bears (b := .promised) hawaits hpromises ?_
          exact hbears ch w reply w' (execute_of_answer hr) hrecords
      | error e => exact (hπ.not_error hpromises hreliable hpermit hr).elim
    · rw [if_neg hwaiting] at hawaits
      exact Duty.Owes.of_due_eq_none hawaits
  · cases r with
    | ok reply => exact hf reply
    | error e => exact hh e

theorem diligent_publishOrFail (hπ : Covers π promises) {site : Site} {task : TaskRecord}
    (hA : task.taskId = taskId → A) {payload : QueueMessage} {errorMessage : String}
    {interaction : Option Interaction} {report : TaskProgram Unit}
    (hreport : report.Only (fun c => c.written = none) fun _ => True)
    {Q : Triple → Pledge → Unit → Prop} :
    Diligent settings orchestrator π taskId promises i A Q E (fun _ => True)
      (publishOrFail site task payload errorMessage interaction report) := by
  apply diligent_quiet rfl
  · exact fun _ _ _ _ _ _ => trivial
  intro e
  apply diligent_write hπ rfl
  · exact hA
  · exact fun _ => diligent_of_only (hreport.bind fun _ _ => trivial)
  · exact fun _ => trivial
  · intro _ hwaiting
    simp [TaskRecord.publishFailed, TaskStatus.Waiting] at hwaiting

/-- What every operation does with the record it has stored as queued. -/
theorem diligent_enqueue (hπ : Covers π promises) {site : Site} {task : TaskRecord}
    (hA : task.taskId = taskId → A) {event : TaskEvent} {payload : QueueMessage}
    {errorMessage : String} {interaction : Option Interaction} {report : TaskProgram Unit}
    (hreport : report.Only (fun c => c.written = none) fun _ => True) {f : Unit → TaskProgram β}
    (hf : ∀ a, (f a).Only (fun c => c.written = none) fun _ => True) :
    Diligent settings orchestrator π taskId promises i A Q E (fun _ => True)
      ((TaskCall.appendEvent task.taskId event).perform >>= fun _ =>
        publishOrFail site task payload errorMessage interaction report >>= f) := by
  apply diligent_quiet rfl
  · intro _ _ _ _ _ _
    exact (diligent_publishOrFail hπ hA hreport).bind fun a _ => diligent_of_only (hf a)
  · exact fun _ => trivial

theorem bears_enqueue (hπ : Covers π promises) (hpromises : promises) {site : Site}
    {task : TaskRecord} (htask : task.taskId = taskId) {event : TaskEvent} {payload : QueueMessage}
    (hpayload : payload.taskId = task.taskId) {d : Triple} (hd : payload.triple = d) {b : Pledge}
    {errorMessage : String} {interaction : Option Interaction} {report : TaskProgram Unit}
    {f : Unit → TaskProgram β} :
    Bears settings orchestrator π taskId promises i Q E
      ((TaskCall.appendEvent task.taskId event).perform >>= fun _ =>
        publishOrFail site task payload errorMessage interaction report >>= f) d b :=
  bears_appendEvent hπ hpromises
    (bears_publishOrFail hπ hpromises ⟨hpayload.trans htask, hd⟩ htask)

theorem diligent_getTaskForMerchant {site : Site} {id merchantId : String}
    {Q : Triple → Pledge → TaskRecord → Prop} :
    Diligent settings orchestrator π taskId promises i A Q E (fun task => task.taskId = id)
      (getTaskForMerchant site id merchantId) := by
  rw [getTaskForMerchant, getTask, Program.bind_eq, Program.bind_eq, Program.handle_handle]
  apply diligent_quiet rfl
  · intro ch w reply w' hkeyed hrun
    cases hrun
    cases htask : w.records id with
    | none => trivial
    | some task =>
        change Diligent _ _ _ _ _ _ _ _ _ _ (if _ then _ else _)
        split
        · trivial
        · exact hkeyed id task htask
  · exact fun _ => trivial

/-- A new record is returned as created to the program that bears it from then on. -/
theorem diligent_createTaskRecord (hπ : Covers π promises) (hpromises : promises)
    {task : TaskRecord} (hA : task.taskId = taskId → A)
    {Q : Triple → Pledge → TaskRecord × Bool → Prop}
    (hQ : task.taskId = taskId → Q task.triple .promised (task, true)) (key : Option String) :
    ∀ depth, Diligent settings orchestrator π taskId promises i A Q E (fun _ => True)
      (createTaskRecord task key depth)
  | 0 => trivial
  | depth + 1 => by
      have hset : Diligent settings orchestrator π taskId promises i A Q E (fun _ => True)
          ((TaskCall.setNew task).perform >>= fun created => pure (task, created)) := by
        apply diligent_write hπ rfl hA
        · exact fun _ => trivial
        · exact fun _ => trivial
        intro htask _
        refine ⟨hpromises, rfl, fun ch w created w' hrun hne => ?_⟩
        cases created with
        | true => exact hQ htask
        | false => exact absurd (wrote_of_execute hrun) (by simp [TaskCall.wrote, hne])
      unfold createTaskRecord
      split
      · exact hset
      · exact hset
      · next key _ =>
          apply diligent_write hπ rfl hA
          · intro reply
            obtain ⟨resolved, created⟩ := reply
            cases created with
            | true => trivial
            | false =>
                apply diligent_quiet rfl
                · intro _ _ found _ _ _
                  cases found with
                  | some existing => trivial
                  | none =>
                      apply diligent_quiet rfl
                      · exact fun _ _ _ _ _ _ =>
                          diligent_createTaskRecord hπ hpromises hA hQ _ depth
                      · exact fun _ => trivial
                · exact fun _ => trivial
          · exact fun _ => trivial
          intro htask _
          refine ⟨hpromises, rfl, fun ch w reply w' hrun hne => ?_⟩
          obtain ⟨resolved, created⟩ := reply
          cases created with
          | true => exact hQ htask
          | false => exact absurd (wrote_of_execute hrun) (by simp [TaskCall.wrote, hne])

theorem diligent_createTask (hπ : Covers π promises) (hpromises : promises) (request : CreateTask)
    (hA : request.taskToken = taskId → A) {Q : Triple → Pledge → TaskRecord × Bool → Prop} :
    Diligent settings orchestrator π taskId promises i A Q E (fun _ => True)
      (createTask request) := by
  apply (diligent_createTaskRecord hπ hpromises hA ?_ _ _).bind
  · intro result _
    obtain ⟨resolved, created⟩ := result
    cases created with
    | false => trivial
    | true =>
        refine diligent_enqueue hπ hA ?_ fun _ => by trivial
        exact Program.Only.perform (P := fun c : TaskCall => c.written = none) (by rfl)
  · exact fun htask => bears_enqueue hπ hpromises htask rfl rfl

theorem diligent_submitInput (hπ : Covers π promises) (hpromises : promises)
    {id merchantId productId : String} (hA : id = taskId → A)
    {Q : Triple → Pledge → TaskRecord → Prop} :
    Diligent settings orchestrator π taskId promises i A Q E (fun _ => True)
      (submitInput id merchantId productId) := by
  apply diligent_getTaskForMerchant.bind
  intro task htask
  have hA' : (task.withInput productId).taskId = taskId → A := fun h => hA (htask.symm.trans h)
  split
  · trivial
  apply diligent_quiet rfl
  · intro _ _ items _ _ _
    split
    · trivial
    apply diligent_write hπ rfl hA'
    · intro transitioned
      cases transitioned with
      | false =>
          apply diligent_getTaskForMerchant.bind
          intro current _
          split <;> trivial
      | true =>
          refine diligent_enqueue hπ hA' ?_ fun _ => by trivial
          trivial
    · exact fun _ => trivial
    intro hid _
    refine ⟨hpromises, rfl, fun ch w reply w' hrun hne => ?_⟩
    cases reply with
    | false => exact absurd (wrote_of_execute hrun) (by simp [TaskCall.wrote, hne])
    | true => exact bears_enqueue hπ hpromises hid rfl rfl
  · exact fun _ => trivial

theorem diligent_submitApproval (hπ : Covers π promises) (hpromises : promises)
    (request : SubmitApproval) (hA : request.taskId = taskId → A)
    {Q : Triple → Pledge → TaskRecord × String → Prop} :
    Diligent settings orchestrator π taskId promises i A Q E (fun _ => True)
      (submitApproval request) := by
  apply diligent_getTaskForMerchant.bind
  intro task htask
  change Diligent _ _ _ _ _ _ _ _ _ _ (if task.status ∈ _ then _ else _)
  split
  · apply diligent_quiet rfl
    · intro _ _ existing _ _ _
      cases existing with
      | none => trivial
      | some row =>
          change Diligent _ _ _ _ _ _ _ _ _ _ (if _ then _ else _)
          split <;> trivial
    · exact fun _ => trivial
  split
  · trivial
  split
  · trivial
  apply diligent_quiet rfl
  · intro _ _ approvalId _ _ _
    have hA' : (task.withApproval approvalId).taskId = taskId → A :=
      fun h => hA (htask.symm.trans h)
    apply diligent_write hπ rfl hA'
    · intro transitioned
      cases transitioned with
      | false =>
          apply diligent_getTaskForMerchant.bind
          intro current _
          split <;> trivial
      | true =>
          refine diligent_enqueue hπ hA' ?_ fun _ => ?_
          · trivial
          · apply Program.Only.bind (W := fun _ => True)
            · unfold reportRequeued
              split
              · exact Program.Only.perform (P := fun c : TaskCall => c.written = none) (by rfl)
              · trivial
            · exact fun _ _ => trivial
    · exact fun _ => trivial
    intro hid _
    refine ⟨hpromises, rfl, fun ch w reply w' hrun hne => ?_⟩
    cases reply with
    | false => exact absurd (wrote_of_execute hrun) (by simp [TaskCall.wrote, hne])
    | true => exact bears_enqueue hπ hpromises hid rfl rfl
  · exact fun _ => trivial

theorem diligent_resumeTask (hπ : Covers π promises) (hpromises : promises)
    {id merchantId : String} (hA : id = taskId → A) {Q : Triple → Pledge → TaskRecord → Prop} :
    Diligent settings orchestrator π taskId promises i A Q E (fun _ => True)
      (resumeTask id merchantId) := by
  apply diligent_getTaskForMerchant.bind
  intro original htask
  have hA' : original.resumed.taskId = taskId → A := fun h => hA (htask.symm.trans h)
  split
  · trivial
  have hstale : (staleRunning original).Only (fun c => c.written = none) fun _ => True := by
    unfold staleRunning
    split
    · exact ⟨rfl, fun r => by cases r <;> trivial⟩
    · trivial
  apply (diligent_of_only hstale).bind
  intro stale _
  split
  · trivial
  apply diligent_write hπ rfl hA'
  · intro _
    exact diligent_enqueue hπ hA' (by trivial) fun _ => by trivial
  · exact fun _ => trivial
  intro hid _
  refine ⟨hpromises, rfl, fun _ _ _ _ _ _ => ?_⟩
  exact bears_enqueue hπ hpromises hid rfl rfl

theorem diligent_unretried (hπ : Covers π promises) (hpromises : ¬ promises) {site : Site}
    {task : TaskRecord} (hstatus : task.status = .retrying)
    {f : Unit → TaskProgram β} {h : Exn → TaskProgram β}
    (hh : ∀ e, Diligent settings orchestrator π taskId promises i A Q E V (h e)) :
    Diligent settings orchestrator π taskId promises i A Q E V
      ((TaskCall.saveTask site task).perform.handle f h) := by
  intro ch w r w' hkeyed hpermit hr
  obtain ⟨e, hlost⟩ := hπ.unretried hpromises i site task ch w hpermit hstatus
  have hr := Option.some.inj hr
  rw [hlost] at hr
  cases hr
  exact ⟨fun hne => absurd rfl hne, hh e⟩

theorem diligent_perform {c : TaskCall} (hc : c.written = none)
    {Q : Triple → Pledge → c.Reply → Prop} :
    Diligent settings orchestrator π taskId promises i A Q E (fun _ => True) c.perform :=
  diligent_of_only (Program.Only.perform (P := fun c : TaskCall => c.written = none) hc)

/-- The last calls of a handler, which write no record. -/
theorem diligent_settle {id : String} {event : TaskEvent} {c : TaskCall} (hc : c.written = none)
    {Q : Triple → Pledge → c.Reply → Prop} :
    Diligent settings orchestrator π taskId promises i A Q E (fun _ => True)
      ((TaskCall.appendEvent id event).perform >>= fun _ => c.perform) := by
  apply (diligent_perform (c := .appendEvent id event) rfl).bind
  exact fun _ _ => diligent_perform hc

/-- To store a record that waits for no worker. -/
theorem diligent_save (hπ : Covers π promises) {site : Site} {task : TaskRecord}
    (hA : task.taskId = taskId → A) (hstatus : ¬ task.status.Waiting)
    {f : Unit → TaskProgram β}
    (hf : Diligent settings orchestrator π taskId promises i A Q E V (f ())) :
    Diligent settings orchestrator π taskId promises i A Q E V
      ((TaskCall.saveTask site task).perform >>= f) := by
  apply diligent_write hπ rfl hA
  · exact fun _ => hf
  · exact fun _ => trivial
  · exact fun _ hwaiting => absurd hwaiting hstatus

theorem diligent_scheduleRetry (hπ : Covers π promises) {payload : QueueMessage}
    (hA : payload.taskId = taskId → A) (exc : Exn) (graphStarted : Bool) {task : TaskRecord}
    (htask : task.taskId = payload.taskId) {Q : Triple → Pledge → Unit → Prop} :
    Diligent settings orchestrator π taskId promises i A Q E (fun _ => True)
      (scheduleRetry payload exc graphStarted task) := by
  by_cases hpromises : promises
  · have hA' : (task.failedRun payload exc graphStarted .retrying).taskId = taskId → A :=
      fun h => hA (htask.symm.trans h)
    apply diligent_write hπ rfl hA'
    · intro _
      apply diligent_quiet rfl
      · exact fun _ _ _ _ _ _ => diligent_settle (c := .ack) rfl
      · intro _
        apply diligent_save hπ (by exact hA')
        · simp [TaskRecord.publishFailed, TaskStatus.Waiting]
        · exact diligent_settle (c := .reject false) rfl
    · exact fun _ => trivial
    intro hid _
    have hcarries : (payload.retried graphStarted).Carries taskId
        (task.failedRun payload exc graphStarted .retrying).triple := ⟨htask.symm.trans hid, rfl⟩
    exact ⟨hpromises, rfl, fun _ _ _ _ _ _ => bears_publishRetry hπ hpromises hcarries hid⟩
  · exact diligent_unretried hπ hpromises rfl fun _ => trivial

/-- A handler that fails stores the record as retrying only with a message to follow. -/
theorem diligent_handleFailure (hπ : Covers π promises) {payload : QueueMessage}
    (hA : payload.taskId = taskId → A) (exc : Exn) (graphStarted : Bool)
    {Q : Triple → Pledge → Unit → Prop} :
    Diligent settings orchestrator π taskId promises i A Q E (fun _ => True)
      (handleFailure settings payload exc graphStarted) := by
  apply diligent_quiet rfl
  · intro ch w found w' hkeyed hrun
    cases hrun
    cases htask : w.records payload.taskId with
    | none => exact diligent_of_only ⟨rfl, fun r => by cases r <;> trivial⟩
    | some task =>
        have hid := hkeyed _ _ htask
        change Diligent _ _ _ _ _ _ _ _ _ _ (if _ then _ else _)
        split
        · exact diligent_scheduleRetry hπ hA exc graphStarted hid
        · have hA' : (task.failedRun payload exc graphStarted .failed).taskId = taskId → A :=
            fun h => hA (hid.symm.trans h)
          apply diligent_save hπ hA'
          · simp [TaskRecord.failedRun, TaskStatus.Waiting]
          · exact diligent_settle (c := .reject false) rfl
  · exact fun _ => trivial

theorem diligent_prepareRun (hπ : Covers π promises) {payload : QueueMessage}
    (hA : payload.taskId = taskId → A) {Q : Triple → Pledge → Option TaskRecord → Prop} :
    Diligent settings orchestrator π taskId promises i A Q E
      (fun found => ∀ task, found = some task → task.taskId = payload.taskId)
      (prepareRun payload) := by
  have hsettle : ∀ c : TaskCall, c.written = none →
      Diligent settings orchestrator π taskId promises i A Q E
        (fun found => ∀ task, found = some task → task.taskId = payload.taskId)
        (c.perform >>= fun _ => pure none) := fun c hc =>
    diligent_of_only (.bind (.perform hc) fun _ _ task heq => by cases heq)
  apply diligent_quiet rfl
  · intro ch w found w' hkeyed hrun
    cases hrun
    cases htask : w.records payload.taskId with
    | none => exact hsettle (.reject false) rfl
    | some task =>
        have hid : task.taskId = payload.taskId := hkeyed _ _ htask
        change Diligent _ _ _ _ _ _ _ _ _ _ (if _ then _ else _)
        split
        · exact hsettle .ack rfl
        split
        · exact hsettle .ack rfl
        split
        · exact hsettle .ack rfl
        have hstart : ∀ {Q : Triple → Pledge → TaskRecord → Prop},
            Diligent settings orchestrator π taskId promises i A Q E
              (fun task => task.taskId = payload.taskId) (markRunning task payload) := by
          intro Q
          apply diligent_save hπ
          · exact fun h => hA (hid.symm.trans h)
          · simp [TaskRecord.started, TaskStatus.Waiting]
          · apply diligent_quiet rfl
            · exact fun _ _ _ _ _ _ => hid
            · exact fun _ => trivial
        apply hstart.bind
        intro started hstarted task' heq
        cases heq
        exact hstarted
  · exact fun _ => trivial

theorem diligent_executeRun (hπ : Covers π promises) {payload : QueueMessage}
    (hA : payload.taskId = taskId → A)
    (horchestrator : ∀ task kind id,
      (orchestrator task kind id).Only (fun c => c.written = none) fun _ => True)
    {task : TaskRecord} (htask : task.taskId = payload.taskId)
    {Q : Triple → Pledge → Unit → Prop} :
    Diligent settings orchestrator π taskId promises i A Q E (fun _ => True)
      (executeRun orchestrator payload task) := by
  apply (diligent_of_only (horchestrator task payload.resumeKind payload.resumeId)).bind
  intro outcome _
  apply diligent_save hπ
  · exact fun h => hA (htask.symm.trans h)
  · cases hstatus : outcome.status <;>
      simp [TaskRecord.finished, RunStatus.taskStatus, TaskStatus.Waiting, hstatus]
  have hreport : (reportApprovalRequired (task.finished outcome) outcome).Only
      (fun c => c.written = none) fun _ => True := by
    unfold reportApprovalRequired
    split
    · exact Program.Only.perform (P := fun c : TaskCall => c.written = none) (by rfl)
    · trivial
  apply (diligent_of_only hreport).bind
  exact fun _ _ => diligent_settle (c := .ack) rfl

theorem diligent_handleMessage (hπ : Covers π promises) {payload : QueueMessage}
    (hA : payload.taskId = taskId → A)
    (horchestrator : ∀ task kind id,
      (orchestrator task kind id).Only (fun c => c.written = none) fun _ => True)
    {Q : Triple → Pledge → Unit → Prop} :
    Diligent settings orchestrator π taskId promises i A Q E (fun _ => True)
      (handleMessage settings orchestrator (.ok payload)) := by
  have hrelease : ∀ (next : TaskProgram Unit),
      next.Only (fun c => c.written = none) (fun _ => True) →
      Diligent settings orchestrator π taskId promises i A Q E (fun _ => True)
        ((releaseLease payload.taskId).handle (fun _ => next) .throw) := by
    intro next hnext
    rw [releaseLease, Program.tryCatch_eq, Program.handle_handle]
    apply diligent_quiet rfl
    · exact fun _ _ _ _ _ _ => diligent_of_only hnext
    · exact fun _ => diligent_of_only hnext
  apply diligent_quiet rfl
  · intro _ _ acquired _ _ _
    cases acquired with
    | false =>
        apply diligent_quiet rfl
        · exact fun _ _ _ _ _ _ => diligent_perform (c := .ack) rfl
        · exact fun _ => diligent_perform (c := .reject true) rfl
    | true =>
        refine Duty.Diligent.handle (W := fun _ => True) (fun a _ => hrelease (.pure a) trivial)
          (fun e => hrelease (.throw e) trivial) ?_
        refine Duty.Diligent.handle (fun found hfound => ?_)
          (fun e => diligent_handleFailure hπ hA e false) (diligent_prepareRun hπ hA)
        cases found with
        | none => trivial
        | some task =>
            refine Duty.Diligent.handle (W := fun _ => True) (fun _ _ => by trivial)
              (fun e => diligent_handleFailure hπ hA e true) ?_
            exact diligent_executeRun hπ hA horchestrator (hfound task rfl)
  · exact fun _ => trivial

end Diligence

section Covered

variable {settings : Settings} {orchestrator : Orchestrator} {π : TaskPolicy} {promises : Prop}
  {taskId : String}

/-- The request is about the task. -/
abbrev Concerns (taskId : String) (q : TaskRequest) : Prop := q.taskId = some taskId

theorem diligent_program (hπ : Covers π promises)
    (horchestrator : ∀ task kind id,
      (orchestrator task kind id).Only (fun c => c.written = none) fun _ => True)
    {i : ℕ} {q : TaskRequest} {w : World} (hstart : π.start i q w) :
    Diligent settings orchestrator π taskId promises i (Concerns taskId q)
      (coverage taskId promises).AtEnd (coverage taskId promises).AtEnd (fun _ => True)
      (q.program settings orchestrator) := by
  have hworker : ¬ promises → q.byWorker = true := fun h => hπ.workers h i q w hstart
  have hservice : q.byWorker = false → promises := by
    intro hfalse
    by_contra hpromises
    rw [hworker hpromises] at hfalse
    cases hfalse
  cases q with
  | createTask request =>
      apply (diligent_createTask hπ (hservice rfl) request (congrArg some)).bind
      exact fun _ _ => trivial
  | submitInput id merchantId productId =>
      apply (diligent_submitInput hπ (hservice rfl) (congrArg some)).bind
      exact fun _ _ => trivial
  | submitApproval request =>
      apply (diligent_submitApproval hπ (hservice rfl) request (congrArg some)).bind
      exact fun _ _ => trivial
  | resumeTask id merchantId =>
      apply (diligent_resumeTask hπ (hservice rfl) (congrArg some)).bind
      exact fun _ _ => trivial
  | handleMessage body =>
      cases body with
      | error e =>
          apply (diligent_perform (c := .reject false) rfl).bind
          exact fun _ _ => trivial
      | ok payload =>
          apply (diligent_handleMessage hπ (congrArg some) horchestrator).bind
          exact fun _ _ => trivial
  | ledger request =>
      have hledger : (liftLedger (request.program settings.catalog)).Only
          (fun c => c.written = none) fun _ => True :=
        Program.only_lift (P := fun c : TaskCall => c.written = none) (fun _ => rfl) _
      apply (diligent_of_only hledger).bind
      exact fun _ _ => trivial

/-- What the start of a process does to the duty: only the handler of a message
that meets it takes it over. -/
theorem coverage_accept (hπ : Covers π promises) {i : ℕ} {q : TaskRequest} {w w' : World}
    (h : q.accept i w = some w') (d : Triple) :
    ((coverage taskId promises).met d w → (coverage taskId promises).met d w' ∨
      (Concerns taskId q ∧ (coverage taskId promises).holds d i w' ∧
        BearsToEnd settings orchestrator π taskId promises i
          (q.program settings orchestrator) d .held)) ∧
    ∀ j, j ≠ i → (coverage taskId promises).holds d j w →
      (coverage taskId promises).holds d j w' := by
  unfold TaskRequest.accept at h
  split at h
  · next payload =>
      split at h <;> cases h
      constructor
      · rintro ⟨message, hmem, hcarries⟩
        by_cases heq : message = payload
        · subst heq
          refine .inr ⟨congrArg some hcarries.1, ⟨message, ?_, hcarries⟩, ?_⟩
          · simp [World.deliver]
          · exact Duty.Bears.handle (bears_handleMessage hπ hcarries)
        · exact .inl ⟨message, (List.mem_erase_of_ne heq).2 hmem, hcarries⟩
      · rintro j hj ⟨message, hunacked, hcarries⟩
        exact ⟨message, by simpa [World.deliver, Function.update_of_ne hj] using hunacked, hcarries⟩
  · cases h
    exact ⟨.inl, fun _ _ h => h⟩

/-- To return a message to its queue meets what it was held for. -/
theorem coverage_requeue (w : World) (i : ℕ) (d : Triple) :
    ((coverage taskId promises).met d w → (coverage taskId promises).met d (w.requeue i)) ∧
      ((coverage taskId promises).holds d i w → (coverage taskId promises).met d (w.requeue i)) ∧
        ∀ j, j ≠ i → (coverage taskId promises).holds d j w →
          (coverage taskId promises).holds d j (w.requeue i) := by
  refine ⟨?_, ?_, ?_⟩
  · rintro ⟨payload, hmem, hcarries⟩
    exact ⟨payload, by simp [World.requeue_inFlight, hmem], hcarries⟩
  · rintro ⟨payload, hunacked, hcarries⟩
    exact ⟨payload, by simp [World.requeue_inFlight, hunacked], hcarries⟩
  · rintro j hj ⟨payload, hunacked, hcarries⟩
    exact ⟨payload, by simpa [World.requeue_unacked, Function.update_of_ne hj] using hunacked,
      hcarries⟩

theorem coverage_environment (hπ : Covers π promises) {e : TaskEnvironment} {w w' : World}
    (hpermit : π.environment e w) (h : e.apply w = some w') :
    w'.records = w.records ∧ ∀ d,
      ((coverage taskId promises).met d w → (coverage taskId promises).met d w') ∧
        ∀ j, (coverage taskId promises).holds d j w →
          (coverage taskId promises).met d w' ∨ (coverage taskId promises).holds d j w' := by
  cases e with
  | expireRecord id => exact absurd hpermit (hπ.kept id w)
  | expireLease id =>
      cases h
      exact ⟨rfl, fun d => ⟨fun h => h, fun _ => .inr⟩⟩
  | expireKey key =>
      cases h
      exact ⟨rfl, fun d => ⟨fun h => h, fun _ => .inr⟩⟩
  | duplicate payload =>
      simp only [TaskEnvironment.apply] at h
      split at h <;> cases h
      refine ⟨rfl, fun d => ⟨?_, fun _ => .inr⟩⟩
      rintro ⟨message, hmem, hcarries⟩
      exact ⟨message, List.mem_append_left _ hmem, hcarries⟩
  | redeliver i =>
      cases h
      refine ⟨w.requeue_records i, fun d => ⟨(coverage_requeue w i d).1, fun j hholds => ?_⟩⟩
      by_cases hj : j = i
      · subst hj
        exact .inl ((coverage_requeue w j d).2.1 hholds)
      · exact .inr ((coverage_requeue w i d).2.2 j hj hholds)

theorem coverageSound (taskId : String) (hπ : Covers π promises)
    (horchestrator : ∀ task kind id,
      (orchestrator task kind id).Only (fun c => c.written = none) fun _ => True) :
    (coverage taskId promises).Sound (taskMachine settings orchestrator) π (Concerns taskId) where
  call i c ch w r w' hkeyed hpermit hr := by
    have hqueue := queueStep_of_answer hr
    refine ⟨hkeyed.answer hr, fun d => ⟨?_, ?_⟩⟩
    · rintro ⟨payload, hmem, hcarries⟩
      exact ⟨payload, hqueue.inFlight payload hmem, hcarries⟩
    · rintro j hj ⟨payload, hunacked, hcarries⟩
      exact ⟨payload, (hqueue.others j hj).trans hunacked, hcarries⟩
  start i q w w' hkeyed hpermit haccept :=
    ⟨hkeyed.of_records (records_of_accept haccept), awaits_of_records (records_of_accept haccept),
      diligent_program hπ horchestrator hpermit, fun d => coverage_accept hπ haccept d⟩
  crash i w hkeyed hpermit :=
    ⟨hπ.crash i w hpermit, hkeyed.of_records (w.requeue_records i),
      awaits_of_records (w.requeue_records i), fun d => coverage_requeue w i d⟩
  environment e w w' hkeyed hpermit henv := by
    obtain ⟨hrecords, hframe⟩ := coverage_environment hπ hpermit henv
    exact ⟨hkeyed.environment henv, awaits_of_records hrecords, hframe⟩

end Covered

/-- No process crashes, no record expires, and Redis calls succeed, as does the
return of a message to its queue; any other call may raise, before or after it
took effect. -/
def racePolicy : TaskPolicy where
  call _ c ch _ := c.reliable = true → ch.ending = .done
  crash _ _ := False
  environment e _ := ∀ id, e ≠ .expireRecord id

theorem racePolicy_covers : Covers racePolicy True where
  reliable _ _ _ _ _ h := h
  crash _ _ h := h.elim
  kept id _ h := h id rfl
  workers h := absurd trivial h
  unretried h := absurd trivial h

theorem only_arbitraryRun (task : TaskRecord) (kind : Option ResumeKind) (id : Option String) :
    (arbitraryRun task kind id).Only (fun c => c.written = none) fun _ => True :=
  Program.Only.perform (P := fun c : TaskCall => c.written = none) rfl

/-- Whatever API calls and handlers are interleaved, with any publish and any run
of the orchestrator raising: when no process for the task has a call to make, a
record that is queued or retrying has a message in flight with its pending triple. -/
theorem waiting_records_covered {settings : Settings} {h : List (TaskConfig × TaskAction)}
    {c : TaskConfig}
    (run : (taskMachine settings arbitraryRun).Run racePolicy (.initial World.fresh) h c)
    (taskId : String)
    (hidle : ∀ i q p, c.pool i = .running q p → q.taskId = some taskId → ¬ c.InProgress i)
    (task : TaskRecord) (htask : c.state.records taskId = some task)
    (hstatus : task.status = .queued ∨ task.status = .retrying) :
    ∃ payload ∈ c.state.inFlight, payload.taskId = taskId ∧
      task.pendingAttempt = some payload.attempt ∧ task.pendingResumeKind = payload.resumeKind ∧
        task.pendingResumeId = payload.resumeId := by
  have hholds := (coverageSound taskId racePolicy_covers only_arbitraryRun).run
    World.keyed_fresh (fun d hd => by cases hd) run
  have hwaiting : task.status.Waiting := by simpa [TaskStatus.Waiting] using hstatus
  have hdue : c.state.awaits taskId = some task.triple := by
    simp [World.awaits, htask, hwaiting]
  obtain ⟨payload, hmem, hid, htriple⟩ := hholds.met_of_idle trivial hidle hdue
  have hparts : some payload.attempt = task.pendingAttempt ∧
      payload.resumeKind = task.pendingResumeKind ∧ payload.resumeId = task.pendingResumeId := by
    simpa [QueueMessage.triple, TaskRecord.triple] using htriple
  exact ⟨payload, hmem, hid, hparts.1.symm, hparts.2.1.symm, hparts.2.2.symm⟩

instance (i : ℕ) (c : TaskCall) (ch : TaskChoice) (w : World) :
    Decidable (racePolicy.call i c ch w) :=
  inferInstanceAs (Decidable (_ = true → _ = _))

instance (i : ℕ) (q : TaskRequest) (w : World) : Decidable (racePolicy.start i q w) :=
  .isTrue trivial

instance (i : ℕ) (w : World) : Decidable (racePolicy.crash i w) := .isFalse id

instance (e : TaskEnvironment) (w : World) : Decidable (racePolicy.environment e w) :=
  decidable_of_iff (e.expiresRecord = false) expiresRecord_eq_false_iff

/-- A task is created with a publish that raises too late, and resumed while a
worker times out on the message that got through. -/
def demoRaceActions : List TaskAction :=
  [.start 0 (.createTask demoRequest), .call 0 {}, .call 0 {},
   .call 0 { ending := .late (.other "ConnectionError") }, .call 0 {}, .call 0 {},
   .start 1 (.resumeTask "task-1" demoMerchantId), .call 1 {},
   .start 2 (.handleMessage (.ok demoMessage)), .call 2 {}, .call 2 {}, .call 2 {}, .call 2 {},
   .call 1 {}, .call 1 {}, .call 2 { ending := .lost .timeoutError }, .call 2 {}, .call 1 {},
   .call 2 {}, .call 2 {}, .call 2 {}, .call 2 {}, .call 2 {}]

theorem waiting_records_covered_demo : ∃ h c,
    (taskMachine demoSettings arbitraryRun).Run racePolicy (.initial .fresh) h c ∧
      ∃ task, c.state.records "task-1" = some task ∧ task.status = .retrying ∧
        ∃ payload ∈ c.state.inFlight, payload.taskId = "task-1" ∧
          task.pendingAttempt = some payload.attempt ∧
            task.pendingResumeKind = payload.resumeKind ∧
              task.pendingResumeId = payload.resumeId := by
  have hend : ((taskMachine demoSettings arbitraryRun).exec racePolicy demoRaceActions
      (.initial .fresh)).map (fun c => ((c.state.records "task-1").map TaskRecord.status,
        [0, 1, 2].all fun i => !(c.pool i).calling)) = some (some .retrying, true) := by decide
  obtain ⟨c, hc, hresults⟩ := Option.map_eq_some_iff.1 hend
  obtain ⟨h, run⟩ := Machine.Run.exec .nil hc
  rw [Prod.mk.injEq] at hresults
  obtain ⟨task, htask, hstatus⟩ := Option.map_eq_some_iff.1 hresults.1
  refine ⟨h, c, run, task, htask, hstatus,
    waiting_records_covered run "task-1" (fun i _ _ _ _ => ?_) task htask (.inr hstatus)⟩
  rw [Config.inProgress_iff]
  by_cases hi : i ∈ [0, 1, 2]
  · have hcalling := List.all_eq_true.1 hresults.2 i hi
    simpa using hcalling
  · have hslot : c.pool i = .unused :=
      Machine.exec_pool racePolicy hc fun a ha => by
        have hthreads : ∀ a ∈ demoRaceActions, a.thread ∈ [some 0, some 1, some 2] := by decide
        intro heq
        have hmem := hthreads a ha
        rw [heq] at hmem
        exact hi (by simpa using hmem)
    simp [hslot, Slot.calling]

end CommerceAgent
