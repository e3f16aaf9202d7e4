import CommerceAgent.Effects.Simulation
import CommerceAgent.Tasks.Outline
import CommerceAgent.Tasks.Steps

/-!
# Laws of records

A law says of every record, and of every message, what each step of the task service and of
the worker keeps: what is derived from a lawful record, or from a lawful record and a lawful
message, is lawful again. If the records that are created are lawful, so is in every run every
record that is stored and every message that is sent.
-/

namespace CommerceAgent

open Effects

/-- Each step of the source keeps `T` of the records and `P` of the messages. -/
structure RecordLaw (T : TaskRecord → Prop) (P : QueueMessage → Prop) : Prop where
  input : ∀ task productId, T task → task.status = .awaitingInput → T (task.withInput productId)
  approval : ∀ task approvalId, T task → T (task.withApproval approvalId)
  resumed : ∀ task, T task → T task.resumed
  publishFailed : ∀ task errorMessage interaction, T task → task.status ∈ [.queued, .retrying] →
    T (task.publishFailed errorMessage interaction)
  started : ∀ task payload, T task → P payload → task.Runnable → T (task.started payload)
  finished : ∀ task outcome, T task → T (task.finished outcome)
  failedRun : ∀ task payload exc graphStarted status, T task → P payload →
    status ∈ [.retrying, .failed] → T (task.failedRun payload exc graphStarted status)
  message : ∀ task payload, T task → payload.For task → P payload

section

variable {T : TaskRecord → Prop} {P : QueueMessage → Prop}

variable (T P) in
/-- What a call stores and sends is lawful; what it creates is the record of a request. -/
def TaskCall.Lawful : TaskCall → Prop
  | .setNew task | .createScript task _ => ∃ request : CreateTask, task = request.record
  | .saveTask _ task | .transitionTask task _ => T task
  | .publish payload | .publishRetry payload => P payload
  | _ => True

variable (T) in
/-- What the answers to calls say. -/
def LawfulAnswer : (c : TaskCall) → Except Exn c.Reply → Prop
  | .setNew task, .ok true | .createScript task _, .ok (_, true) => T task
  | .getTask _ taskId, .ok (some task) => task.taskId = taskId ∧ T task
  | _, _ => True

variable (T P) in
def lawContract : Contract Exn TaskCall TaskCall.Reply World TaskRequest where
  inv w := w.Keyed ∧ (∀ taskId task, w.records taskId = some task → T task) ∧
    ∀ payload, w.Carried payload → P payload
  assume := LawfulAnswer T
  guarantee _ _ c := c.Lawful T P

variable (T) in
/-- The records that are created are lawful. -/
def lawPolicy : TaskPolicy where
  call _ c _ _ :=
    match c with
    | .setNew task | .createScript task _ =>
        ∀ request : CreateTask, task = request.record → T task
    | _ => True

variable (T P) in
/-- What a process knows of the records and the message. -/
def lawKnowledge : Knowledge → Unit → Prop
  | .known task, _ | .approved task _, _ => T task
  | .stored task _, _ => T task ∧ task.status = .queued
  | .found payload task, _ | .matched payload task, _ | .ran payload task _, _
  | .failing payload _ task, _ | .failed payload task, _ => P payload ∧ T task
  | .received payload, _ | .holding payload, _ | .missing payload, _ | .concluded payload, _
  | .raised payload _, _ | .settled payload, _ => P payload

theorem lawOutline (law : RecordLaw T P) (settings : Settings) :
    Outline settings (Program.answers (LawfulAnswer T) (TaskCall.Lawful T P))
      (lawKnowledge T P) where
  neutral c _ hc := by
    refine ⟨?_, fun _ _ _ _ hk => hk⟩
    cases c <;> trivial
  read site taskId _ _ := ⟨trivial, fun _ _ h => h⟩
  setNew request _ := ⟨⟨request, rfl⟩, fun _ h => ⟨h, rfl⟩⟩
  createScript request key _ := ⟨⟨request, rfl⟩, fun _ _ h => ⟨h, rfl⟩⟩
  input task productId _ hk hstatus :=
    have htask := law.input task productId hk hstatus
    ⟨htask, fun _ _ => ⟨htask, rfl⟩⟩
  record request task _ hk _ := ⟨trivial, fun _ _ _ => hk⟩
  approval task approvalId status _ hk _ :=
    have htask := law.approval task approvalId hk
    ⟨htask, fun _ _ => ⟨htask, rfl⟩⟩
  resumed task _ hk _ :=
    have htask := law.resumed task hk
    ⟨htask, fun _ _ => ⟨htask, rfl⟩⟩
  publish task past payload _ hk hfor := ⟨law.message task payload hk.1 hfor, fun _ _ _ => hk⟩
  publishFailed site task past errorMessage interaction _ hk _ _ _ := by
    have htask := law.publishFailed task errorMessage interaction hk.1 (by simp [hk.2])
    exact htask
  acquire payload ttl _ hk := ⟨trivial, fun b _ _ => by cases b <;> exact hk⟩
  delay payload _ hk := hk
  release payload _ _ := trivial
  readMessage payload _ hk :=
    ⟨trivial, fun _ _ h => ⟨h.1, hk, h.2⟩, fun _ _ => hk, fun _ _ _ => hk⟩
  dismiss payload _ hk := ⟨fun _ _ => hk, fun _ _ _ => hk⟩
  ignore payload task _ hk := ⟨fun _ _ => hk.1, fun _ _ _ => hk.1⟩
  started payload task _ hk _ hrunnable _ :=
    have htask := law.started task payload hk.2 hk.1 hrunnable
    ⟨htask, fun _ _ => ⟨hk.1, htask⟩, fun _ _ _ => hk.1⟩
  outcome payload task outcome _ hk :=
    ⟨law.finished task outcome hk.2, fun _ _ => hk.1, fun _ _ _ => hk.1⟩
  raise payload c e _ _ _ _ hk := by
    rcases hk with hk | ⟨task, hk⟩
    · exact hk
    · exact hk.1
  concluded payload _ hk := hk
  readFailure payload exc _ hk :=
    ⟨trivial, fun _ _ h => ⟨h.1, hk, h.2⟩, fun _ _ => hk, fun _ _ _ => hk⟩
  failedRun payload exc task graphStarted status _ hk _ hstatus _ :=
    have htask := law.failedRun task payload exc graphStarted status hk.2 hk.1 hstatus
    ⟨htask, fun _ _ => ⟨hk.1, htask⟩, fun _ _ _ => hk.1⟩
  publishRetry payload task retryPayload _ hk _ hfor :=
    ⟨law.message task retryPayload hk.2 hfor, fun _ _ _ => hk⟩
  retryFailed payload task errorMessage interaction _ hk hstatus _ _ :=
    ⟨law.publishFailed task errorMessage interaction hk.2 (by simp [hstatus]), fun _ _ _ => hk.1⟩
  failed payload task _ hk := hk.1

/-- The call stores no record and sends no message. -/
def TaskCall.Aside (c : TaskCall) : Prop := c.written = none ∧ c.sent = none

theorem TaskCall.Aside.lawful {c : TaskCall} (hc : c.Aside) : c.Lawful T P := by
  obtain ⟨hwritten, hsent⟩ := hc
  cases c with
  | setNew task => cases hwritten
  | createScript task key => cases hwritten
  | saveTask site task => cases hwritten
  | transitionTask task status => cases hwritten
  | publish payload => cases hsent
  | publishRetry payload => cases hsent
  | _ => trivial

variable {settings : Settings} {orchestrator : Orchestrator}

variable (orchestrator) in
/-- The orchestrator leaves the records and the queue to the worker. -/
def Orchestrator.Aside : Prop :=
  ∀ task resumeKind resumeId,
    (orchestrator task resumeKind resumeId).Only TaskCall.Aside fun _ => True

theorem lawful_program (law : RecordLaw T P) (haside : orchestrator.Aside) {q : TaskRequest}
    (hpayload : ∀ payload, q = .handleMessage (.ok payload) → P payload) :
    (lawContract T P).Honours q (q.program settings orchestrator) [] := by
  apply Program.Meets.of_follows
  by_cases hq : ∃ request, q = .ledger request
  · obtain ⟨request, rfl⟩ := hq
    apply Program.Follows.bind
    apply Program.Follows.of_only (G := TaskCall.Aside) (V := fun _ => True)
    · exact fun _ _ hc => hc.lawful
    · exact fun _ _ _ => trivial
    · exact fun _ _ => trivial
    · exact Program.only_lift (P := TaskCall.Aside) (fun _ => ⟨rfl, rfl⟩) _
  · refine ((lawOutline law settings).follows_program ?_ (fun request heq => hq ⟨request, heq⟩)
      hpayload).mono (fun _ _ _ => trivial) fun _ _ _ => trivial
    intro payload task _ hk
    apply Program.Follows.of_only (G := TaskCall.Aside) (V := fun _ => True)
    · exact fun _ _ hc => hc.lawful
    · exact fun _ _ _ => hk
    · exact fun _ _ => hk.1
    · exact haside task _ _

theorem lawful_of_written {i : ℕ} {c : TaskCall} {ch : TaskChoice} {w : World} {task : TaskRecord}
    (hpermit : (lawPolicy T).call i c ch w) (hc : c.Lawful T P) (hwritten : c.written = some task) :
    T task := by
  cases c with
  | setNew task' | createScript task' key =>
      cases hwritten
      obtain ⟨request, hrequest⟩ := hc
      exact hpermit request hrequest
  | saveTask site task' | transitionTask task' status =>
      cases hwritten
      exact hc
  | _ => cases hwritten

theorem lawfulAnswer_of_answer {i : ℕ} {c : TaskCall} {ch : TaskChoice} {w w' : World}
    {r : Except Exn c.Reply} (hinv : (lawContract T P).inv w)
    (hpermit : (lawPolicy T).call i c ch w)
    (hc : c.Lawful T P)
    (h : (taskMachine settings orchestrator).answer i c ch w = some (r, w')) :
    LawfulAnswer T c r := by
  cases r with
  | error e => cases c <;> trivial
  | ok b =>
      cases c with
      | setNew task =>
          obtain ⟨request, hrequest⟩ := hc
          cases b with
          | true => exact hpermit request hrequest
          | false => trivial
      | createScript task key =>
          obtain ⟨request, hrequest⟩ := hc
          obtain ⟨taskId, created⟩ := b
          cases created with
          | true => exact hpermit request hrequest
          | false => trivial
      | getTask site taskId =>
          cases b with
          | none => trivial
          | some task =>
              have htask := (read_of_answer h).1.symm
              exact ⟨hinv.1 taskId task htask, hinv.2.1 taskId task htask⟩
      | _ => trivial

theorem lawSound (law : RecordLaw T P) (haside : orchestrator.Aside) :
    (lawContract T P).Sound (taskMachine settings orchestrator) (lawPolicy T) where
  start i q w w' hinv _ haccept := by
    have hrecords := records_of_accept haccept
    refine ⟨⟨hinv.1.of_records hrecords, fun taskId task htask => ?_, fun payload hcarried => ?_⟩,
      lawful_program law haside ?_⟩
    · exact hinv.2.1 taskId task (hrecords ▸ htask)
    · exact hinv.2.2 payload (carried_of_accept haccept hcarried)
    · rintro payload rfl
      exact hinv.2.2 payload (carried_of_handled haccept)
  call i q past c ch w r w' hinv hpermit hc h := by
    refine ⟨lawfulAnswer_of_answer hinv hpermit hc h, hinv.1.answer h, ?_, ?_⟩
    · intro taskId task htask
      rcases records_of_answer h with hrecords | ⟨written, hwritten, hrecords⟩
      · exact hinv.2.1 taskId task (hrecords ▸ htask)
      · rw [hrecords, World.store_records] at htask
        split at htask
        · cases htask
          exact lawful_of_written hpermit hc hwritten
        · exact hinv.2.1 taskId task htask
    · intro payload hcarried
      rcases carried_of_answer h hcarried with hold | hsent
      · exact hinv.2.2 payload hold
      · cases c <;> cases hsent <;> exact hc
  crash i w hinv _ := by
    have hrecords : (w.requeue i).records = w.records := w.requeue_records i
    refine ⟨hinv.1.of_records hrecords, fun taskId task htask => ?_, fun payload hcarried => ?_⟩
    · exact hinv.2.1 taskId task (hrecords ▸ htask)
    · exact hinv.2.2 payload (carried_of_requeue hcarried)
  environment e w w' hinv _ henv := by
    refine ⟨hinv.1.environment henv, fun taskId task htask => ?_, fun payload hcarried => ?_⟩
    · rcases records_of_environment henv taskId with heq | heq
      · exact hinv.2.1 taskId task (heq ▸ htask)
      · rw [heq] at htask
        cases htask
    · exact hinv.2.2 payload (carried_of_environment henv hcarried)

/-- A run under a policy that makes the created records lawful. -/
theorem lawPolicy_of_call {π : TaskPolicy}
    (hcall : ∀ i c ch w, π.call i c ch w → (lawPolicy T).call i c ch w)
    {h : List (TaskConfig × TaskAction)} {c : TaskConfig}
    (run : (taskMachine settings orchestrator).Run π (.initial World.fresh) h c) :
    (taskMachine settings orchestrator).Run (lawPolicy T) (.initial World.fresh) h c :=
  run.restrict fun _ _ hpermit => Policy.permits_mono hcall (fun _ _ _ _ => trivial)
    (fun _ _ _ => trivial) (fun _ _ _ => trivial) hpermit

/-- In every run, what is stored and what is on the queue is lawful, and so is what the
processes are about to store and to send. -/
theorem lawful_run (law : RecordLaw T P) (haside : orchestrator.Aside)
    {h : List (TaskConfig × TaskAction)} {c : TaskConfig}
    (run : (taskMachine settings orchestrator).Run (lawPolicy T) (.initial World.fresh) h c) :
    (lawContract T P).Holds (taskMachine settings orchestrator) h c := by
  refine (lawSound law haside).run ⟨World.keyed_fresh, ?_, ?_⟩ run
  · intro taskId task htask
    cases htask
  · rintro payload (hflight | ⟨j, hj⟩)
    · cases hflight
    · cases hj

end

end CommerceAgent
