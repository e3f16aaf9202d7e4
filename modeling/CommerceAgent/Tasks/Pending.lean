import CommerceAgent.Tasks.Calls
import CommerceAgent.Tasks.Steps

/-!
# The pending triple

A record expects a message by its `pending_attempt`, `pending_resume_kind` and
`pending_resume_id`. The filter of the worker lets every message pass when
`pending_attempt` is `None`. `Contract.Sound.run` shows that this escape is never
taken: every write of a record sets `pending_attempt` to `None` exactly with one
of the four settled statuses, in which no message is executed at all.
-/

namespace CommerceAgent

open Effects

/-- The statuses in which a task waits for nobody's message. -/
def TaskStatus.Settled (status : TaskStatus) : Prop :=
  status ∈ [.awaitingInput, .awaitingApproval, .completed, .rejected]

instance (status : TaskStatus) : Decidable status.Settled := inferInstanceAs (Decidable (_ ∈ _))

/-- A record expects no message exactly when its status is settled. -/
def TaskRecord.PendingSound (task : TaskRecord) : Prop :=
  task.pendingAttempt = none ↔ task.status.Settled

/-- The message is the one the record expects. -/
def TaskRecord.Expects (task : TaskRecord) (payload : QueueMessage) : Prop :=
  task.pendingAttempt = some payload.attempt ∧ task.pendingResumeKind = payload.resumeKind ∧
    task.pendingResumeId = payload.resumeId

theorem TaskRecord.PendingSound.pendingAttempt_ne_none {task : TaskRecord}
    (h : task.PendingSound) (hrunnable : task.Runnable) : task.pendingAttempt ≠ none := by
  intro hnone
  have hsettled := h.1 hnone
  simp only [TaskStatus.Settled, TaskRecord.Runnable, List.mem_cons, List.not_mem_nil,
    or_false] at hsettled hrunnable
  rcases hsettled with hstatus | hstatus | hstatus | hstatus <;> simp [hstatus] at hrunnable

/-- The filter of the worker is exact on a record that expects a message. -/
theorem matchesPendingMessage_iff {task : TaskRecord} {payload : QueueMessage}
    (h : task.pendingAttempt ≠ none) :
    matchesPendingMessage task payload = true ↔ task.Expects payload := by
  obtain ⟨pendingAttempt, hpending⟩ := Option.ne_none_iff_exists'.1 h
  simp only [matchesPendingMessage, hpending, TaskRecord.Expects, Option.some.injEq,
    Bool.and_eq_true, beq_iff_eq, and_assoc]
  exact ⟨fun h => ⟨h.1.symm, h.2.1.symm, h.2.2.symm⟩,
    fun h => ⟨h.1.symm, h.2.1.symm, h.2.2.symm⟩⟩

/-- What a handler's `get_task` under the lease returned. -/
def handlerRead (past : List TaskExchange) : Option (Option TaskRecord) :=
  past.findSome? fun e =>
    match e with
    | ⟨.getTask (.handleMessage _) _, .ok found⟩ => some found
    | _ => none

/-- An `ack` or a `reject` has raised. -/
def settleFailed (past : List TaskExchange) : Bool :=
  past.any fun e =>
    match e with
    | ⟨.ack, .error _⟩ => true
    | ⟨.reject _, .error _⟩ => true
    | _ => false

/-- The handler has no reason to leave the record alone: it has read nothing
yet, or the record it read expects its message, or a settling call has raised. -/
def MayWrite (payload : QueueMessage) (past : List TaskExchange) : Prop :=
  ∀ found, handlerRead past = some found → settleFailed past = false →
    ∃ read, found = some read ∧ read.Runnable ∧ read.Expects payload

/-- What a handler guarantees of its next call: the orchestrator runs only on a
message that the record read under the lease expects, and otherwise the record
is not written. -/
structure Fenced (payload : QueueMessage) (past : List TaskExchange) (c : TaskCall) : Prop where
  run : ∀ task resumeKind resumeId, c = .run task resumeKind resumeId →
    ∃ read, handlerRead past = some (some read) ∧ read.Expects payload ∧
      resumeKind = payload.resumeKind ∧ resumeId = payload.resumeId
  write : c.written ≠ none → MayWrite payload past

/-- The contract of the task system: every record stored is sound, every record
read is a sound record of the task asked for, and handlers read before they
write and are fenced. -/
def pendingContract : Contract Exn TaskCall TaskCall.Reply World TaskRequest where
  inv w := ∀ taskId task, w.records taskId = some task →
    task.taskId = taskId ∧ task.PendingSound
  assume c r :=
    match c, r with
    | .getTask _ taskId, .ok (some task) => task.taskId = taskId ∧ task.PendingSound
    | _, _ => True
  guarantee q past c := (∀ task, c.written = some task → task.PendingSound) ∧
    (∀ payload taskId, c = .getTask (.handleMessage payload) taskId →
      ∀ e ∈ past, e.call.written = none) ∧
    ∀ payload, q = .handleMessage (.ok payload) → Fenced payload past c

theorem handlerRead_snoc (past : List TaskExchange) (c : TaskCall) (r : Except Exn c.Reply)
    (hc : ∀ payload taskId, c ≠ .getTask (.handleMessage payload) taskId) :
    handlerRead (past ++ [⟨c, r⟩]) = handlerRead past := by
  have hnone : handlerRead [⟨c, r⟩] = none := by
    simp only [handlerRead, List.findSome?_cons, List.findSome?_nil]
    split
    · next heq =>
        split at heq
        · next hexchange =>
            injection hexchange with hcall
            exact absurd hcall (hc _ _)
        · cases heq
    · rfl
  rw [handlerRead, List.findSome?_append]
  rw [handlerRead] at hnone
  rw [hnone, Option.or_none]
  rfl

theorem settleFailed_snoc {past : List TaskExchange} (h : settleFailed past = true)
    (e : TaskExchange) : settleFailed (past ++ [e]) = true := by
  rw [settleFailed, List.any_append, ← settleFailed, h, Bool.true_or]

namespace MayWrite

variable {payload : QueueMessage} {past : List TaskExchange} {c : TaskCall}
  {r : Except Exn c.Reply}

theorem snoc (h : MayWrite payload past)
    (hc : ∀ payload taskId, c ≠ .getTask (.handleMessage payload) taskId) :
    MayWrite payload (past ++ [⟨c, r⟩]) := by
  intro found hread hsettle
  rw [handlerRead_snoc past c r hc] at hread
  refine h found hread ?_
  by_contra hfailed
  rw [settleFailed_snoc (by simpa using hfailed)] at hsettle
  cases hsettle

end MayWrite

section Service

variable {q : TaskRequest} {past : List TaskExchange}

/-- A call that is no write, no run and not the read under the lease. -/
def TaskCall.quiet : TaskCall → Bool
  | .setNew _ | .createScript .. | .saveTask .. | .transitionTask .. | .run .. => false
  | .getTask (.handleMessage _) _ => false
  | _ => true

theorem TaskCall.written_of_quiet {c : TaskCall} (h : c.quiet = true) : c.written = none := by
  cases c <;> first | rfl | cases h

/-- A quiet call needs no justification. -/
theorem guarantee_of_quiet {c : TaskCall} (hquiet : c.quiet = true) :
    pendingContract.guarantee q past c := by
  have hwritten := TaskCall.written_of_quiet hquiet
  refine ⟨by simp [hwritten], ?_, fun payload _ => ⟨?_, fun h => absurd hwritten h⟩⟩
  · rintro payload taskId rfl
    cases hquiet
  · rintro task resumeKind resumeId rfl
    cases hquiet

theorem pendingSound_of_some {task : TaskRecord} (hpending : task.pendingAttempt ≠ none)
    (hstatus : ¬ task.status.Settled) : task.PendingSound := by
  simp [TaskRecord.PendingSound, hpending, hstatus]

theorem TaskRecord.PendingSound.finished (task : TaskRecord) (outcome : RunOutcome) :
    (task.finished outcome).PendingSound := by
  cases h : outcome.status <;>
    simp [TaskRecord.PendingSound, TaskRecord.finished, RunStatus.taskStatus,
      TaskStatus.Settled, h]

/-- What a service operation stores expects a message. -/
theorem TaskCall.ByService.pendingSound {site : Site} {c : TaskCall} (hc : c.ByService site)
    {task : TaskRecord} (hwritten : c.written = some task) : task.PendingSound := by
  cases c with
  | setNew task' | createScript task' key =>
      cases hwritten
      exact pendingSound_of_some hc.2 (by simp [hc.1, TaskStatus.Settled])
  | saveTask site' task' =>
      cases hwritten
      refine pendingSound_of_some hc.2.2 ?_
      have hstatus := hc.2.1
      simp only [List.mem_cons, List.not_mem_nil, or_false] at hstatus
      rcases hstatus with hstatus | hstatus <;> simp [hstatus, TaskStatus.Settled]
  | transitionTask task' expectedStatus =>
      cases hwritten
      exact pendingSound_of_some hc.2.1 (by simp [hc.1, TaskStatus.Settled])
  | _ => cases hwritten

/-- A service operation keeps the contract: it is no handler, and what it stores is sound. -/
theorem honours_of_serves {α : Type} {site : Site} {V : α → Prop} {p : TaskProgram α}
    (hq : ∀ payload, q ≠ .handleMessage (.ok payload))
    (hsite : ∀ payload, site ≠ .handleMessage payload) (hp : Serves site p V) :
    pendingContract.Honours q p past := by
  refine .of_only (fun past c hc => ⟨fun task => hc.pendingSound, ?_,
    fun payload heq => absurd heq (hq payload)⟩) (fun _ _ _ => trivial) (fun _ _ => trivial) past hp
  rintro payload taskId rfl
  exact absurd hc.symm (hsite payload)

theorem honours_perform {c : TaskCall} (hquiet : c.quiet = true)
    (past : List TaskExchange) : pendingContract.Honours q c.perform past :=
  Program.meets_perform.2 ⟨guarantee_of_quiet hquiet, fun _ _ => trivial, fun _ _ => trivial⟩

end Service

section Handler

variable {payload : QueueMessage} {past : List TaskExchange}

/-- The record read under the lease is to be executed on this message. -/
def Matched (payload : QueueMessage) (past : List TaskExchange) : Prop :=
  ∃ read, handlerRead past = some (some read) ∧ read.Runnable ∧ read.Expects payload

theorem Matched.mayWrite (h : Matched payload past) : MayWrite payload past := by
  obtain ⟨read, hread, hrunnable, hexpects⟩ := h
  intro found hfound _
  exact ⟨read, Option.some.inj (hfound.symm.trans hread), hrunnable, hexpects⟩

theorem Matched.snoc {c : TaskCall} {r : Except Exn c.Reply} (h : Matched payload past)
    (hc : ∀ payload taskId, c ≠ .getTask (.handleMessage payload) taskId) :
    Matched payload (past ++ [⟨c, r⟩]) := by
  obtain ⟨read, hread, hmatch⟩ := h
  exact ⟨read, by rw [handlerRead_snoc past c r hc, hread], hmatch⟩

theorem mayWrite_of_settleFailed (h : settleFailed past = true) : MayWrite payload past := by
  intro found _ hsettle
  rw [h] at hsettle
  cases hsettle

theorem mayWrite_of_unread (h : handlerRead past = none) : MayWrite payload past := by
  intro found hread
  rw [h] at hread
  cases hread

/-- The program honours the contract, and the handler may write wherever it raises. -/
def HonoursOpen (payload : QueueMessage) {α : Type} (p : TaskProgram α)
    (past : List TaskExchange) : Prop :=
  p.Meets pendingContract.assume (pendingContract.guarantee (.handleMessage (.ok payload)))
    (fun _ _ => True) (fun past _ => MayWrite payload past) past

theorem guarantee_of_mayWrite {c : TaskCall} (hmay : MayWrite payload past)
    (hwritten : ∀ task, c.written = some task → task.PendingSound)
    (hrun : ∀ task resumeKind resumeId, c ≠ .run task resumeKind resumeId)
    (hread : ∀ payload taskId, c ≠ .getTask (.handleMessage payload) taskId) :
    pendingContract.guarantee (.handleMessage (.ok payload)) past c := by
  refine ⟨hwritten, fun payload taskId heq => absurd heq (hread payload taskId), ?_⟩
  rintro _ ⟨⟩
  exact ⟨fun task resumeKind resumeId heq => absurd heq (hrun task resumeKind resumeId),
    fun _ => hmay⟩

/-- Once a handler may write it may go on writing. -/
theorem honoursOpen_handle {α : Type} {c : TaskCall} (hmay : MayWrite payload past)
    (hwritten : ∀ task, c.written = some task → task.PendingSound)
    (hrun : ∀ task resumeKind resumeId, c ≠ .run task resumeKind resumeId)
    (hread : ∀ payload taskId, c ≠ .getTask (.handleMessage payload) taskId)
    {f : c.Reply → TaskProgram α} {h : Exn → TaskProgram α}
    (hf : ∀ past b, MayWrite payload past → pendingContract.assume c (.ok b) →
      HonoursOpen payload (f b) past)
    (hh : ∀ past e, MayWrite payload past → HonoursOpen payload (h e) past) :
    HonoursOpen payload (c.perform.handle f h) past :=
  Program.meets_handle.2 ⟨guarantee_of_mayWrite hmay hwritten hrun hread,
    fun b hb => hf _ b (hmay.snoc hread) hb, fun e _ => hh _ e (hmay.snoc hread)⟩

theorem honoursOpen_bind {α : Type} {c : TaskCall} (hmay : MayWrite payload past)
    (hwritten : ∀ task, c.written = some task → task.PendingSound)
    (hrun : ∀ task resumeKind resumeId, c ≠ .run task resumeKind resumeId)
    (hread : ∀ payload taskId, c ≠ .getTask (.handleMessage payload) taskId)
    {f : c.Reply → TaskProgram α}
    (hf : ∀ past b, MayWrite payload past → pendingContract.assume c (.ok b) →
      HonoursOpen payload (f b) past) :
    HonoursOpen payload (c.perform >>= f) past :=
  honoursOpen_handle hmay hwritten hrun hread hf fun _ _ hmay => hmay

theorem honoursOpen_perform {c : TaskCall} (hmay : MayWrite payload past)
    (hwritten : c.written = none)
    (hrun : ∀ task resumeKind resumeId, c ≠ .run task resumeKind resumeId)
    (hread : ∀ payload taskId, c ≠ .getTask (.handleMessage payload) taskId) :
    HonoursOpen payload c.perform past :=
  Program.meets_perform.2 ⟨guarantee_of_mayWrite hmay (by simp [hwritten]) hrun hread,
    fun _ _ => trivial, fun _ _ => hmay.snoc hread⟩

theorem TaskRecord.failedRun_pendingSound (task : TaskRecord) (payload : QueueMessage) (exc : Exn)
    (graphStarted : Bool) {status : TaskStatus} (hstatus : ¬ status.Settled) :
    (task.failedRun payload exc graphStarted status).PendingSound :=
  pendingSound_of_some (by simp [TaskRecord.failedRun]) hstatus

theorem honoursOpen_scheduleRetry (exc : Exn) (graphStarted : Bool) (task : TaskRecord)
    (hmay : MayWrite payload past) :
    HonoursOpen payload (scheduleRetry payload exc graphStarted task) past := by
  refine honoursOpen_bind hmay ?_ (by simp) (by simp) fun past₁ _ hmay₁ _ => ?_
  · rintro _ ⟨⟩
    exact task.failedRun_pendingSound payload exc graphStarted (by decide)
  refine honoursOpen_handle hmay₁ (by simp [TaskCall.written]) (by simp) (by simp)
    (fun past₂ _ hmay₂ _ => ?_) (fun past₂ _ hmay₂ => ?_)
  · refine honoursOpen_bind hmay₂ (by simp [TaskCall.written]) (by simp) (by simp) ?_
    exact fun past₃ _ hmay₃ _ => honoursOpen_perform hmay₃ rfl (by simp) (by simp)
  · refine honoursOpen_bind hmay₂ ?_ (by simp) (by simp) fun past₃ _ hmay₃ _ => ?_
    · rintro _ ⟨⟩
      exact pendingSound_of_some (by simp [TaskRecord.publishFailed, TaskRecord.failedRun])
        (by simp [TaskStatus.Settled, TaskRecord.publishFailed])
    refine honoursOpen_bind hmay₃ (by simp [TaskCall.written]) (by simp) (by simp) ?_
    exact fun past₄ _ hmay₄ _ => honoursOpen_perform hmay₄ rfl (by simp) (by simp)

theorem honoursOpen_giveUp (exc : Exn) (graphStarted : Bool) (task : TaskRecord)
    (hmay : MayWrite payload past) :
    HonoursOpen payload (giveUp payload exc graphStarted task) past := by
  refine honoursOpen_bind hmay ?_ (by simp) (by simp) fun past₁ _ hmay₁ _ => ?_
  · rintro _ ⟨⟩
    exact task.failedRun_pendingSound payload exc graphStarted (by decide)
  refine honoursOpen_bind hmay₁ (by simp [TaskCall.written]) (by simp) (by simp) ?_
  exact fun past₂ _ hmay₂ _ => honoursOpen_perform hmay₂ rfl (by simp) (by simp)

theorem honoursOpen_handleFailure (settings : Settings) (exc : Exn) (graphStarted : Bool)
    (hmay : MayWrite payload past) :
    HonoursOpen payload (handleFailure settings payload exc graphStarted) past := by
  refine honoursOpen_bind hmay (by simp [TaskCall.written]) (by simp) (by simp) ?_
  rintro past₁ (_ | task) hmay₁ -
  · exact honoursOpen_perform hmay₁ rfl (by simp) (by simp)
  · change HonoursOpen payload (if _ then _ else _) past₁
    split
    · exact honoursOpen_scheduleRetry exc graphStarted task hmay₁
    · exact honoursOpen_giveUp exc graphStarted task hmay₁

theorem honoursOpen_executeRun (task : TaskRecord) (hmatched : Matched payload past) :
    HonoursOpen payload (executeRun arbitraryRun payload task) past := by
  refine Program.meets_bind.2 ⟨⟨by simp [TaskCall.written], by simp, ?_⟩, fun outcome _ => ?_,
    fun _ _ => (hmatched.snoc (by simp)).mayWrite⟩
  · rintro _ ⟨⟩
    refine ⟨?_, fun _ => hmatched.mayWrite⟩
    rintro _ _ _ ⟨⟩
    obtain ⟨read, hread, -, hexpects⟩ := hmatched
    exact ⟨read, hread, hexpects, rfl, rfl⟩
  refine honoursOpen_bind (hmatched.snoc (by simp)).mayWrite ?_ (by simp) (by simp)
    fun past₁ _ hmay₁ _ => ?_
  · rintro _ ⟨⟩
    exact TaskRecord.PendingSound.finished task outcome
  have hlast : ∀ past, MayWrite payload past → HonoursOpen payload (do
      (TaskCall.appendEvent task.taskId (.finished outcome payload.attempt)).perform
      TaskCall.ack.perform) past := fun past₂ hmay₂ =>
    honoursOpen_bind hmay₂ (by simp [TaskCall.written]) (by simp) (by simp)
      fun past₃ _ hmay₃ _ => honoursOpen_perform hmay₃ rfl (by simp) (by simp)
  unfold reportApprovalRequired
  split
  · exact honoursOpen_bind hmay₁ (by simp [TaskCall.written]) (by simp) (by simp)
      fun past₂ _ hmay₂ _ => hlast past₂ hmay₂
  · exact hlast past₁ hmay₁

/-- A message that is not executed is settled: the handler goes on only if that raises. -/
theorem meets_settle {c : TaskCall} (hc : c = .ack ∨ ∃ requeue, c = .reject requeue)
    {Q : List TaskExchange → Option TaskRecord → Prop} (hQ : ∀ past, Q past none) :
    (c.perform >>= fun _ => (pure none : TaskProgram (Option TaskRecord))).Meets
      pendingContract.assume (pendingContract.guarantee (.handleMessage (.ok payload))) Q
      (fun past _ => MayWrite payload past) past := by
  rcases hc with rfl | ⟨requeue, rfl⟩ <;>
    exact Program.meets_bind.2 ⟨guarantee_of_quiet rfl, fun _ _ => hQ _,
      fun _ _ => mayWrite_of_settleFailed (by simp [settleFailed])⟩

/-- What `prepareRun` hands on has been read under the lease and matched. -/
theorem meets_prepareRun (hunread : handlerRead past = none)
    (hclean : ∀ e ∈ past, e.call.written = none) :
    (prepareRun payload).Meets pendingContract.assume
      (pendingContract.guarantee (.handleMessage (.ok payload)))
      (fun past task => task ≠ none → Matched payload past)
      (fun past _ => MayWrite payload past) past := by
  refine Program.meets_bind.2 ⟨⟨by simp [TaskCall.written], fun _ _ _ => hclean, ?_⟩, ?_,
    fun e _ => ?_⟩
  · rintro _ ⟨⟩
    exact ⟨by simp, by simp [TaskCall.written]⟩
  · rintro (_ | task) hread
    · exact meets_settle (.inr ⟨_, rfl⟩) (by simp)
    change Program.Meets _ _ _ _ (if task.status ∈ _ then _ else _) _
    split
    · exact meets_settle (.inl rfl) (by simp)
    split
    · exact meets_settle (.inl rfl) (by simp)
    next hrunnable =>
    split
    · exact meets_settle (.inl rfl) (by simp)
    next hmatches =>
    have hrunnable := not_not.1 hrunnable
    have hpending := hread.2.pendingAttempt_ne_none hrunnable
    have hmatched : Matched payload
        (past ++ [⟨.getTask (.handleMessage payload) payload.taskId, .ok (some task)⟩]) := by
      refine ⟨task, ?_, hrunnable, (matchesPendingMessage_iff hpending).1 (by simpa using hmatches)⟩
      rw [handlerRead] at hunread
      simp [handlerRead, List.findSome?_append, hunread]
    have hsound : (task.started payload).PendingSound := by
      simp [TaskRecord.PendingSound, TaskRecord.started, TaskStatus.Settled, hpending]
    have hstarted : ∀ past, Matched payload past →
        Program.Meets pendingContract.assume
          (pendingContract.guarantee (.handleMessage (.ok payload)))
          (fun past task => task ≠ none → Matched payload past)
          (fun past _ => MayWrite payload past)
          (markRunning task payload >>= fun task => pure (some task)) past := by
      intro past₁ hmatched₁
      refine .handle (Program.meets_bind.2
        ⟨guarantee_of_mayWrite hmatched₁.mayWrite ?_ (by simp) (by simp),
        fun _ _ => ?_, fun _ _ => (hmatched₁.snoc (by simp)).mayWrite⟩)
      · rintro _ ⟨⟩
        exact hsound
      have hmatched₂ := hmatched₁.snoc (c := .saveTask (.markRunning payload)
        (task.started payload)) (r := .ok ()) (by simp)
      exact Program.meets_bind.2 ⟨guarantee_of_quiet rfl,
        fun _ _ _ => hmatched₂.snoc (by simp), fun _ _ => (hmatched₂.snoc (by simp)).mayWrite⟩
    exact hstarted _ hmatched
  · refine mayWrite_of_unread ?_
    rw [handlerRead] at hunread
    simp [handlerRead, List.findSome?_append, hunread]

theorem honours_runUnderLease (settings : Settings) (hunread : handlerRead past = none)
    (hclean : ∀ e ∈ past, e.call.written = none) :
    pendingContract.Honours (.handleMessage (.ok payload))
      (runUnderLease settings arbitraryRun payload) past := by
  have hfailure : ∀ exc graphStarted past, MayWrite payload past →
      pendingContract.Honours (.handleMessage (.ok payload))
        (handleFailure settings payload exc graphStarted) past := fun exc graphStarted past hmay =>
    (honoursOpen_handleFailure settings exc graphStarted hmay).mono (fun _ _ _ => trivial)
      fun _ _ _ => trivial
  refine .handle ((meets_prepareRun hunread hclean).mono ?_
    fun past₁ exc hmay => hfailure exc _ _ hmay)
  rintro past₁ (_ | task) hmatched
  · trivial
  · exact .handle ((honoursOpen_executeRun task (hmatched (by simp))).mono (fun _ _ _ => trivial)
      fun past₂ exc hmay => hfailure exc _ _ hmay)

theorem honours_releaseLease {q : TaskRequest} (taskId : String) (past : List TaskExchange) :
    pendingContract.Honours q (releaseLease taskId) past :=
  Program.meets_handle.2 ⟨guarantee_of_quiet rfl, fun _ _ => trivial, fun _ _ => trivial⟩

theorem honours_delayDuplicate {q : TaskRequest} (past : List TaskExchange) :
    pendingContract.Honours q (delayDuplicate payload) past :=
  Program.meets_handle.2 ⟨guarantee_of_quiet rfl,
    fun _ _ => honours_perform rfl _, fun _ _ => honours_perform rfl _⟩

theorem honours_handleMessage (settings : Settings) (body : Body) :
    pendingContract.Honours (.handleMessage body)
      (handleMessage settings arbitraryRun body) [] := by
  cases body with
  | error e => exact honours_perform rfl _
  | ok payload =>
      refine Program.meets_bind.2 ⟨guarantee_of_quiet rfl, fun acquired _ => ?_,
        fun _ _ => trivial⟩
      cases acquired with
      | false => exact honours_delayDuplicate _
      | true =>
          have hrelease : ∀ {last : TaskProgram Unit} past,
              (∀ past, pendingContract.Honours (.handleMessage (.ok payload)) last past) →
              pendingContract.Honours (.handleMessage (.ok payload))
                (releaseLease payload.taskId >>= fun _ => last) past := fun past hlast =>
            (honours_releaseLease _ past).bind fun past₁ _ => hlast past₁
          refine .handle
            ((honours_runUnderLease settings rfl (by simp [TaskCall.written])).mono ?_ ?_)
          · exact fun past₁ _ _ => hrelease past₁ fun _ => trivial
          · exact fun past₁ _ _ => hrelease past₁ fun _ => by trivial

end Handler

/-- The ledger is none of the records' business. -/
theorem honours_liftLedger {α : Type} {q : TaskRequest} :
    ∀ (p : LedgerProgram α) (past : List TaskExchange),
      pendingContract.Honours q (liftLedger p) past
  | .pure _, _ => trivial
  | .throw _, _ => trivial
  | .call _ k, _ => ⟨guarantee_of_quiet rfl, fun r _ => honours_liftLedger (k r) _⟩

theorem honours_program (settings : Settings) (q : TaskRequest) :
    pendingContract.Honours q (q.program settings arbitraryRun) [] := by
  cases q with
  | createTask request =>
      exact (honours_of_serves (by simp) (by simp) (serves_createTask request)).bind
        fun _ _ => trivial
  | submitInput taskId merchantId productId =>
      exact (honours_of_serves (by simp) (by simp) (serves_submitInput _ _ _)).bind
        fun _ _ => trivial
  | submitApproval request =>
      exact (honours_of_serves (by simp) (by simp) (serves_submitApproval request)).bind
        fun _ _ => trivial
  | resumeTask taskId merchantId =>
      exact (honours_of_serves (by simp) (by simp) (serves_resumeTask _ _)).bind
        fun _ _ => trivial
  | handleMessage body => exact (honours_handleMessage settings body).bind fun _ _ => trivial
  | ledger request => exact (honours_liftLedger _ _).bind fun _ _ => trivial

theorem handlerRead_mem {past : List TaskExchange} {found : Option TaskRecord}
    (h : handlerRead past = some found) :
    ∃ payload taskId, ⟨.getTask (.handleMessage payload) taskId, .ok found⟩ ∈ past := by
  obtain ⟨e, he, hfound⟩ := List.exists_of_findSome?_eq_some h
  split at hfound
  · cases hfound
    exact ⟨_, _, he⟩
  · cases hfound

theorem pendingSound (settings : Settings) :
    pendingContract.Sound (taskMachine settings arbitraryRun) .any where
  start i q w w' hinv _ haccept := by
    refine ⟨?_, honours_program settings q⟩
    simpa [pendingContract, records_of_accept haccept] using hinv
  call i q past c ch w r w' hinv _ hguarantee hanswer := by
    constructor
    · cases c with
      | getTask site taskId =>
          match r, hanswer with
          | .error e, _ => trivial
          | .ok none, _ => trivial
          | .ok (some task), hanswer => exact hinv taskId task (read_of_answer hanswer).1.symm
      | _ => cases r <;> trivial
    · intro taskId task htask
      rcases records_of_answer hanswer with hrecords | ⟨written, hwritten, hrecords⟩
      · exact hinv taskId task (hrecords ▸ htask)
      · rw [hrecords, World.store_records] at htask
        split at htask
        · next heq =>
            cases htask
            exact ⟨heq.symm, hguarantee.1 task hwritten⟩
        · exact hinv taskId task htask
  crash i w hinv _ := by simpa [pendingContract, taskMachine] using hinv
  environment e w w' hinv _ henv taskId task htask := by
    rcases records_of_environment henv taskId with heq | heq
    · exact hinv taskId task (heq ▸ htask)
    · rw [heq] at htask
      cases htask

/-- A handler that has read a record before its call goes on from that record. -/
theorem handlerRead_append {past rest : List TaskExchange} {found : Option TaskRecord}
    (h : handlerRead past = some found) : handlerRead (past ++ rest) = some found := by
  rw [handlerRead] at h
  rw [handlerRead, List.findSome?_append, h, Option.some_or]

theorem not_mem_of_handlerRead {past : List TaskExchange} (h : handlerRead past = none)
    {payload : QueueMessage} {taskId : String} {found : Option TaskRecord} :
    (⟨.getTask (.handleMessage payload) taskId, .ok found⟩ : TaskExchange) ∉ past := by
  intro hmem
  rw [handlerRead, List.findSome?_eq_none_iff] at h
  cases h _ hmem

theorem settleFailed_append {past rest : List TaskExchange} :
    settleFailed (past ++ rest) = (settleFailed past || settleFailed rest) :=
  List.any_append

section StaleMessages

variable {settings : Settings} {h : List (TaskConfig × TaskAction)} {c : TaskConfig}

theorem pendingHolds
    (run : (taskMachine settings arbitraryRun).Run .any (.initial World.fresh) h c) :
    pendingContract.Holds (taskMachine settings arbitraryRun) h c :=
  (pendingSound settings).run (fun _ _ htask => by cases htask) run

/-- A handler whose read under the lease does not ask for its message, and whose
settling calls return, writes nothing before or after that read. -/
theorem unchanged_of_stale
    (run : (taskMachine settings arbitraryRun).Run .any (.initial World.fresh) h c)
    {h₁ h₂ : List (TaskConfig × TaskAction)} {v : TaskConfig × TaskAction}
    (heq : h = h₁ ++ v :: h₂) {i : ℕ} {ch : TaskChoice} {payload : QueueMessage} {cl : TaskCall}
    {k : Except Exn cl.Reply → TaskProgram TaskResult} (haction : v.2 = .call i ch)
    (hslot : v.1.pool i = .running (.handleMessage (.ok payload)) (.call cl k))
    {found : Option TaskRecord}
    (hread : handlerRead ((taskMachine settings arbitraryRun).transcript i h) = some found)
    (hstale : ∀ read, found = some read → ¬ (read.Runnable ∧ read.Expects payload))
    (hsettle : settleFailed ((taskMachine settings arbitraryRun).transcript i h) = false) :
    cl.written = none := by
  have hguarantee := (pendingHolds (run.before heq).1).guarantee hslot
  by_contra hwritten
  rw [heq, Machine.transcript_append, settleFailed_append, Bool.or_eq_false_iff] at hsettle
  cases hpast : handlerRead ((taskMachine settings arbitraryRun).transcript i h₁) with
  | some found' =>
      rw [heq, Machine.transcript_append, handlerRead_append hpast] at hread
      cases hread
      obtain ⟨read, hfound, hmatch⟩ :=
        (hguarantee.2.2 payload rfl).write hwritten found hpast hsettle.1
      exact hstale read hfound hmatch
  | none =>
      -- The read comes after the write, but a handler reads before it writes.
      obtain ⟨-, -, c', hstep, -⟩ := run.before heq
      have hv : v = (v.1, .call i ch) := by rw [← haction]
      rw [haction] at hstep
      obtain ⟨q, cl', k', r, w, hslot', hanswer, -⟩ := Machine.step_call _ hstep
      rw [hslot] at hslot'
      cases hslot'
      have hexchange := Machine.exchange_call hslot hanswer
      rw [← hv] at hexchange
      obtain ⟨payload', taskId, hmem⟩ := handlerRead_mem hread
      have hlater : (⟨.getTask (.handleMessage payload') taskId, .ok found⟩ : TaskExchange) ∈
          (taskMachine settings arbitraryRun).transcript i h₂ := by
        rw [heq, ← List.singleton_append, Machine.transcript_append, Machine.transcript_append,
          List.mem_append, List.mem_append] at hmem
        rcases hmem with hmem | hmem | hmem
        · exact absurd hmem (not_mem_of_handlerRead hpast)
        · have hsame : (⟨.getTask (.handleMessage payload') taskId, .ok found⟩ : TaskExchange) =
              ⟨cl, r⟩ := by simpa [Machine.transcript, hexchange] using hmem
          injection hsame with hcall
          exact absurd (by rw [← hcall]; rfl) hwritten
        · exact hmem
      obtain ⟨g₁, u, g₂, rfl, hu⟩ := Machine.exists_of_mem_transcript hlater
      obtain ⟨ch', q', k', hcall', hslot''⟩ := Machine.exchange_eq_some hu
      have hsplit : h = (h₁ ++ v :: g₁) ++ u :: g₂ := by simp [heq]
      have hholds := pendingHolds (run.before hsplit).1
      refine hwritten ((hholds.guarantee hslot'').2.1 payload' taskId rfl ⟨cl, r⟩ ?_)
      rw [← List.singleton_append, Machine.transcript_append, Machine.transcript_append]
      simp [Machine.transcript, hexchange]

/-- Over every run of API calls and handlers, with any call raising and any
process crashing: a record expects no message exactly when it is settled, so that
the filter is exact; a handler runs the orchestrator only on a message that the
record it read under the lease expects; and a handler of any other message
leaves the records as they are, unless settling the message raises. -/
theorem stale_messages_never_run
    (run : (taskMachine settings arbitraryRun).Run .any (.initial World.fresh) h c) :
    (∀ taskId task, c.state.records taskId = some task →
      (task.pendingAttempt = none ↔
        task.status ∈ [.awaitingInput, .awaitingApproval, .completed, .rejected])) ∧
    ∀ h₁ v h₂, h = h₁ ++ v :: h₂ → ∀ i ch payload cl k, v.2 = .call i ch →
      v.1.pool i = .running (.handleMessage (.ok payload)) (.call cl k) →
        (∀ read, handlerRead ((taskMachine settings arbitraryRun).transcript i h₁) =
          some (some read) → read.Runnable → read.pendingAttempt ≠ none) ∧
        (∀ task resumeKind resumeId, cl = .run task resumeKind resumeId →
          ∃ read, handlerRead ((taskMachine settings arbitraryRun).transcript i h₁) =
            some (some read) ∧ read.Expects payload ∧ resumeKind = payload.resumeKind ∧
              resumeId = payload.resumeId) ∧
        (∀ found, handlerRead ((taskMachine settings arbitraryRun).transcript i h) = some found →
          (∀ read, found = some read → ¬ (read.Runnable ∧ read.Expects payload)) →
            settleFailed ((taskMachine settings arbitraryRun).transcript i h) = false →
              ∀ c', (taskMachine settings arbitraryRun).step v.2 v.1 = some c' →
                c'.state.records = v.1.state.records) := by
  refine ⟨fun taskId task htask => ((pendingHolds run).inv taskId task htask).2, ?_⟩
  intro h₁ v h₂ heq i ch payload cl k haction hslot
  have hholds := pendingHolds (run.before heq).1
  refine ⟨fun read hread hrunnable => ?_, ((hholds.guarantee hslot).2.2 payload rfl).run,
    fun found hread hstale hsettle c' hstep => ?_⟩
  · obtain ⟨_, taskId, hmem⟩ := handlerRead_mem hread
    exact (hholds.answers i _ hmem).2.pendingAttempt_ne_none hrunnable
  · have hunwritten := unchanged_of_stale run heq haction hslot hread hstale hsettle
    rw [haction] at hstep
    obtain ⟨q, cl', k', r, w, hslot', hanswer, rfl⟩ := Machine.step_call _ hstep
    rw [hslot] at hslot'
    cases hslot'
    rcases records_of_answer hanswer with hrecords | ⟨task, hwritten, -⟩
    · exact hrecords
    · rw [hunwritten] at hwritten
      cases hwritten

end StaleMessages

/-- A task is created, its message is duplicated, and a copy is handled up to its run. -/
def demoTakenActions : List TaskAction :=
  [.start 0 (.createTask demoRequest), .call 0 {}, .call 0 {}, .call 0 {},
   .environment (.duplicate demoMessage), .start 1 (.handleMessage (.ok demoMessage)),
   .call 1 {}, .call 1 {}, .call 1 {}, .call 1 {}]

/-- After the run the task is completed, and the other copy is read. -/
def demoReadActions : List TaskAction :=
  [.call 1 {}, .call 1 {}, .call 1 {}, .call 1 {}, .start 2 (.handleMessage (.ok demoMessage)),
   .call 2 {}, .call 2 {}]

/-- The message of a handler that is about to make such a call. -/
def handlerCalls (P : TaskCall → Bool) (c : TaskConfig) (i : ℕ) : Option QueueMessage :=
  match c.pool i with
  | .running (.handleMessage (.ok payload)) (.call cl _) => if P cl then some payload else none
  | _ => none

theorem exists_of_handlerCalls {P : TaskCall → Bool} {c : TaskConfig} {i : ℕ}
    {payload : QueueMessage} (h : handlerCalls P c i = some payload) :
    ∃ cl k, c.pool i = .running (.handleMessage (.ok payload)) (.call cl k) ∧ P cl = true := by
  unfold handlerCalls at h
  split at h
  · next payload' cl k hslot =>
      split at h
      · next hP =>
          cases h
          exact ⟨cl, k, hslot, hP⟩
      · cases h
  · cases h

def TaskCall.orchestrates : TaskCall → Bool
  | .run .. => true
  | _ => false

/-- The first copy is run on the record that expects it; the second one is acknowledged, and
changes nothing. -/
theorem stale_messages_never_run_demo : ∃ h c,
    (taskMachine demoSettings arbitraryRun).Run .any (.initial .fresh) h c ∧
      (∀ taskId task, c.state.records taskId = some task →
        (task.pendingAttempt = none ↔
          task.status ∈ [.awaitingInput, .awaitingApproval, .completed, .rejected])) ∧
      (∃ h₁ c₁ h₂ read, h = h₁ ++ (c₁, .call 1 {}) :: h₂ ∧
        handlerCalls TaskCall.orchestrates c₁ 1 = some demoMessage ∧
        handlerRead ((taskMachine demoSettings arbitraryRun).transcript 1 h₁) = some (some read) ∧
        read.Expects demoMessage) ∧
      ∃ h₁ c₁ h₂ c', h = h₁ ++ (c₁, .call 2 {}) :: h₂ ∧
        handlerCalls TaskCall.settles c₁ 2 = some demoMessage ∧
        (taskMachine demoSettings arbitraryRun).step (.call 2 {}) c₁ = some c' ∧
        c'.state.records = c₁.state.records := by
  have hend : ((taskMachine demoSettings arbitraryRun).exec .any
      (demoTakenActions ++ .call 1 {} :: (demoReadActions ++ [.call 2 {}]))
        (.initial .fresh)).isSome = true := by decide
  have htaken : ((taskMachine demoSettings arbitraryRun).exec .any demoTakenActions
      (.initial .fresh)).bind (fun c => handlerCalls TaskCall.orchestrates c 1) =
        some demoMessage := by decide
  have hread : ((taskMachine demoSettings arbitraryRun).exec .any
      (demoTakenActions ++ .call 1 {} :: demoReadActions) (.initial .fresh)).bind (fun c =>
        handlerCalls TaskCall.settles c 2) = some demoMessage := by decide
  have hfound : (handlerRead ((taskMachine demoSettings arbitraryRun).transcript 2
      ((taskMachine demoSettings arbitraryRun).trail
        (demoTakenActions ++ .call 1 {} :: (demoReadActions ++ [.call 2 {}]))
          (.initial .fresh)))).map (Option.map TaskRecord.status) = some (some .completed) := by
    decide
  obtain ⟨c, hc⟩ := Option.isSome_iff_exists.1 hend
  have run := Machine.Run.follow .nil hc
  obtain ⟨hpending, hstale⟩ := stale_messages_never_run run
  refine ⟨_, c, run, hpending, ?_, ?_⟩
  · obtain ⟨c₁, c₂, hc₁, -, -, htrail⟩ := Machine.exec_split hc
    rw [hc₁, Option.bind_some] at htaken
    obtain ⟨cl, k, hslot, hruns⟩ := exists_of_handlerCalls htaken
    cases cl with
    | run task resumeKind resumeId =>
        obtain ⟨read, hreads, hexpects, -⟩ := (hstale _ _ _ htrail 1 {} demoMessage _ k rfl
          hslot).2.1 task resumeKind resumeId rfl
        exact ⟨_, c₁, _, read, htrail, htaken, hreads, hexpects⟩
    | _ => cases hruns
  · have hsame : demoTakenActions ++ .call 1 {} :: (demoReadActions ++ [.call 2 {}]) =
        (demoTakenActions ++ .call 1 {} :: demoReadActions) ++ .call 2 {} :: [] := rfl
    rw [hsame] at hc hstale hfound ⊢
    obtain ⟨c₁, c', hc₁, hstep, -, htrail⟩ := Machine.exec_split hc
    rw [hc₁, Option.bind_some] at hread
    obtain ⟨cl, k, hslot, -⟩ := exists_of_handlerCalls hread
    obtain ⟨found, hfound, hstatus⟩ := Option.map_eq_some_iff.1 hfound
    refine ⟨_, c₁, _, c', htrail, hread, hstep, ?_⟩
    refine (hstale _ _ _ htrail 2 {} demoMessage cl k rfl hslot).2.2 found hfound ?_ ?_ c' hstep
    · rintro read rfl ⟨hrunnable, -⟩
      simp only [Option.map_some, Option.some.injEq] at hstatus
      simp [TaskRecord.Runnable, hstatus] at hrunnable
    · decide

end CommerceAgent
