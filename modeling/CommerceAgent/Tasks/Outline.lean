import CommerceAgent.Effects.Protocol
import CommerceAgent.Tasks.System

/-!
# Proof outlines of the programs

What a process knows of a record follows the same course in every proof about
the records: it reads the record, derives another one from it, stores that one,
and publishes a message for it or goes back on it. `Knowledge` names the points
of that course, and an `Outline` says what the protocol of the process makes of
them. Each program of the task system follows every protocol with an outline, and
those of the task service follow every protocol with a `ServiceOutline`.
-/

namespace CommerceAgent

open Effects

/-- What a process knows at a point of its program. -/
inductive Knowledge where
  /-- It has read the record. -/
  | known (task : TaskRecord)
  /-- It has read the record, and the approval of the task has this identifier. -/
  | approved (task : TaskRecord) (approvalId : String)
  /-- It has stored the record, and may go back to this interaction. -/
  | stored (task : TaskRecord) (interaction : Option Interaction)
  /-- It has taken the message. -/
  | received (payload : QueueMessage)
  /-- It holds the lease of the task of the message. -/
  | holding (payload : QueueMessage)
  /-- It has read the record under the lease. -/
  | found (payload : QueueMessage) (task : TaskRecord)
  /-- It has found no record under the lease. -/
  | missing (payload : QueueMessage)
  /-- It has stored the record as running on the message. -/
  | matched (payload : QueueMessage) (task : TaskRecord)
  /-- The orchestrator has run on the record and the message. -/
  | ran (payload : QueueMessage) (task : TaskRecord) (outcome : RunOutcome)
  /-- It has stored the outcome of the run. -/
  | concluded (payload : QueueMessage)
  /-- An exception was raised under the lease. -/
  | raised (payload : QueueMessage) (exc : Exn)
  /-- It has read the record after the exception. -/
  | failing (payload : QueueMessage) (exc : Exn) (task : TaskRecord)
  /-- It has stored the record with the failure. -/
  | failed (payload : QueueMessage) (task : TaskRecord)
  /-- It is about to release the lease. -/
  | settled (payload : QueueMessage)

/-- A call that neither reads nor writes a record, takes no lease and publishes nothing. -/
def TaskCall.neutral : TaskCall → Bool
  | .deleteKey _ | .hasTaskLease _ | .appendEvent .. | .ack | .reject _ | .resolveProduct .. => true
  | .ledger (.getApprovalForTask _) => true
  | _ => false

/-- The message has the identifier and the pending triple of the record. -/
def QueueMessage.For (payload : QueueMessage) (task : TaskRecord) : Prop :=
  payload.taskId = task.taskId ∧ task.pendingAttempt = some payload.attempt ∧
    task.pendingResumeKind = payload.resumeKind ∧ task.pendingResumeId = payload.resumeId

/-- The message that a process works on. -/
def Site.payload : Site → Option QueueMessage
  | .handleMessage payload | .markRunning payload | .outcome payload | .handleFailure payload =>
      some payload
  | _ => none

/-- The interaction of a failed publish remembers no approval but that of the record. -/
def Remembers (interaction : Option Interaction) (task : TaskRecord)
    (past : Option Interaction) : Prop :=
  ∀ approvalId, interaction = some (.approvalResume approvalId) →
    (task.pendingResumeKind = some .approval ∧ task.pendingResumeId = some approvalId) ∨
      past = interaction

/-- The interaction names what to resume. -/
def Interaction.resumes : Interaction → Bool
  | .inputResume _ | .approvalResume _ | .retryResume _ => true
  | .inputRequired _ | .approvalRequired .. => false

/-- The interaction of a failed publish names what to resume, or is the one before. -/
def Resumes (interaction past : Option Interaction) : Prop :=
  ∀ x, interaction = some x → x.resumes = true ∨ past = interaction

theorem resumes_resumeInteraction {kind : Option ResumeKind} {id : Option String}
    {interaction : Interaction} (h : resumeInteraction kind id = some interaction) :
    interaction.resumes = true := by
  unfold resumeInteraction at h
  split at h
  · split at h <;> cases h
    rfl
  · split at h <;> cases h
    rfl
  · split at h <;> cases h
    rfl
  · cases h

variable {S : Type}

/-- What a protocol makes of the points of the programs of the task service. -/
structure ServiceOutline (P : Protocol Exn TaskCall TaskCall.Reply S) (K : Knowledge → S → Prop) :
    Prop where
  neutral : ∀ c s, c.neutral = true → P.may c s ∧
    ∀ r s', P.next c s r s' → ∀ k, K k s → K k s'
  read : ∀ site taskId s, site.payload = none → P.may (.getTask site taskId) s ∧
    ∀ task s', P.next (.getTask site taskId) s (.ok (some task)) s' →
      task.taskId = taskId ∧ K (.known task) s'
  setNew : ∀ (request : CreateTask) s, P.may (.setNew request.record) s ∧
    ∀ s', P.next (.setNew request.record) s (.ok true) s' → K (.stored request.record none) s'
  createScript : ∀ (request : CreateTask) key s, P.may (.createScript request.record key) s ∧
    ∀ taskId s', P.next (.createScript request.record key) s (.ok (taskId, true)) s' →
      K (.stored request.record none) s'
  input : ∀ task productId s, K (.known task) s → task.status = .awaitingInput →
    P.may (.transitionTask (task.withInput productId) .awaitingInput) s ∧
      ∀ s', P.next (.transitionTask (task.withInput productId) .awaitingInput) s (.ok true) s' →
        K (.stored (task.withInput productId) none) s'
  record : ∀ (request : SubmitApproval) task s, K (.known task) s → task.taskId = request.taskId →
    P.may (.ledger (.recordApproval task.taskId task.merchantId request.planId request.planVersion
      request.actionId request.decision)) s ∧
      ∀ approvalId s', P.next (.ledger (.recordApproval task.taskId task.merchantId request.planId
        request.planVersion request.actionId request.decision)) s (.ok approvalId) s' →
          K (.approved task approvalId) s'
  approval : ∀ task approvalId status s, K (.approved task approvalId) s →
    status ∈ [.awaitingApproval, .failed] →
      P.may (.transitionTask (task.withApproval approvalId) status) s ∧
        ∀ s', P.next (.transitionTask (task.withApproval approvalId) status) s (.ok true) s' →
          K (.stored (task.withApproval approvalId) none) s'
  resumed : ∀ task s, K (.known task) s → task.status ∈ [.failed, .running] →
    P.may (.saveTask .resumeTask task.resumed) s ∧
      ∀ s', P.next (.saveTask .resumeTask task.resumed) s (.ok ()) s' →
        K (.stored task.resumed task.interaction) s'
  publish : ∀ task past payload s, K (.stored task past) s → payload.For task →
    P.may (.publish payload) s ∧
      ∀ e s', P.next (.publish payload) s (.error e) s' → K (.stored task past) s'
  publishFailed : ∀ site task past errorMessage interaction s, K (.stored task past) s →
    Remembers interaction task past → Resumes interaction past → site.payload = none →
      P.may (.saveTask site (task.publishFailed errorMessage interaction)) s

/-- A call of a handler that reports an event or ends the delivery. -/
def TaskCall.announces : TaskCall → Bool
  | .appendEvent .. | .ack | .reject _ => true
  | _ => false

/-- What a protocol makes of the points of all programs. -/
structure Outline (settings : Settings) (P : Protocol Exn TaskCall TaskCall.Reply S)
    (K : Knowledge → S → Prop) : Prop extends ServiceOutline P K where
  acquire : ∀ payload ttl s, K (.received payload) s →
    P.may (.acquireTaskLease payload.taskId ttl) s ∧
      ∀ b s', P.next (.acquireTaskLease payload.taskId ttl) s (.ok b) s' →
        if b then K (.holding payload) s' else K (.received payload) s'
  delay : ∀ payload s, K (.received payload) s → P.may (.publishRetry payload) s
  release : ∀ payload s, K (.settled payload) s → P.may (.releaseTaskLease payload.taskId) s
  readMessage : ∀ payload s, K (.holding payload) s →
    P.may (.getTask (.handleMessage payload) payload.taskId) s ∧
      (∀ task s', P.next (.getTask (.handleMessage payload) payload.taskId) s (.ok (some task)) s' →
        task.taskId = payload.taskId ∧ K (.found payload task) s') ∧
      (∀ s', P.next (.getTask (.handleMessage payload) payload.taskId) s (.ok none) s' →
        K (.missing payload) s') ∧
      ∀ e s', P.next (.getTask (.handleMessage payload) payload.taskId) s (.error e) s' →
        K (.raised payload e) s'
  dismiss : ∀ payload s, K (.missing payload) s →
    (∀ s', P.next (.reject false) s (.ok ()) s' → K (.settled payload) s') ∧
      ∀ e s', P.next (.reject false) s (.error e) s' → K (.raised payload e) s'
  ignore : ∀ payload task s, K (.found payload task) s →
    (∀ s', P.next .ack s (.ok ()) s' → K (.settled payload) s') ∧
      ∀ e s', P.next .ack s (.error e) s' → K (.raised payload e) s'
  started : ∀ payload task s, K (.found payload task) s → task.taskId = payload.taskId →
    task.Runnable → matchesPendingMessage task payload = true →
      P.may (.saveTask (.markRunning payload) (task.started payload)) s ∧
        (∀ s', P.next (.saveTask (.markRunning payload) (task.started payload)) s (.ok ()) s' →
          K (.matched payload (task.started payload)) s') ∧
        ∀ e s', P.next (.saveTask (.markRunning payload) (task.started payload)) s (.error e) s' →
          K (.raised payload e) s'
  outcome : ∀ payload task outcome s, K (.ran payload task outcome) s →
    P.may (.saveTask (.outcome payload) (task.finished outcome)) s ∧
      (∀ s', P.next (.saveTask (.outcome payload) (task.finished outcome)) s (.ok ()) s' →
        K (.concluded payload) s') ∧
      ∀ e s', P.next (.saveTask (.outcome payload) (task.finished outcome)) s (.error e) s' →
        K (.raised payload e) s'
  raise : ∀ payload c e s s', c.announces = true → P.next c s (.error e) s' →
    K (.concluded payload) s' ∨ (∃ task, K (.matched payload task) s') → K (.raised payload e) s'
  concluded : ∀ payload s, K (.concluded payload) s → K (.settled payload) s
  readFailure : ∀ payload exc s, K (.raised payload exc) s →
    P.may (.getTask (.handleFailure payload) payload.taskId) s ∧
      (∀ task s', P.next (.getTask (.handleFailure payload) payload.taskId) s (.ok (some task)) s' →
        task.taskId = payload.taskId ∧ K (.failing payload exc task) s') ∧
      (∀ s', P.next (.getTask (.handleFailure payload) payload.taskId) s (.ok none) s' →
        K (.settled payload) s') ∧
      ∀ e s', P.next (.getTask (.handleFailure payload) payload.taskId) s (.error e) s' →
        K (.settled payload) s'
  failedRun : ∀ payload exc task graphStarted status s, K (.failing payload exc task) s →
    task.taskId = payload.taskId → status ∈ [.retrying, .failed] →
      (status = .retrying → payload.attempt + 1 < settings.maxTaskAttempts) →
        P.may (.saveTask (.handleFailure payload)
          (task.failedRun payload exc graphStarted status)) s ∧
          (∀ s', P.next (.saveTask (.handleFailure payload)
            (task.failedRun payload exc graphStarted status)) s (.ok ()) s' →
              K (.failed payload (task.failedRun payload exc graphStarted status)) s') ∧
          ∀ e s', P.next (.saveTask (.handleFailure payload)
            (task.failedRun payload exc graphStarted status)) s (.error e) s' →
              K (.settled payload) s'
  publishRetry : ∀ payload task retryPayload s, K (.failed payload task) s →
    task.status = .retrying → retryPayload.For task → P.may (.publishRetry retryPayload) s ∧
      ∀ r s', P.next (.publishRetry retryPayload) s r s' → K (.failed payload task) s'
  retryFailed : ∀ payload task errorMessage interaction s, K (.failed payload task) s →
    task.status = .retrying → Remembers interaction task none → Resumes interaction none →
      P.may (.saveTask (.handleFailure payload) (task.publishFailed errorMessage interaction)) s ∧
        ∀ r s', P.next (.saveTask (.handleFailure payload)
          (task.publishFailed errorMessage interaction)) s r s' → K (.settled payload) s'
  failed : ∀ payload task s, K (.failed payload task) s → K (.settled payload) s

namespace ServiceOutline

variable {P : Protocol Exn TaskCall TaskCall.Reply S} {K : Knowledge → S → Prop} {α : Type}
  {Q : α → S → Prop}

/-- The program follows the protocol and may end anywhere. -/
abbrev Follows (P : Protocol Exn TaskCall TaskCall.Reply S) (p : TaskProgram α) (s : S) : Prop :=
  p.Follows P (fun _ _ => True) (fun _ _ => True) s

/-- A program of neutral calls. -/
theorem follows_of_only (o : ServiceOutline P K) {V : α → Prop} {p : TaskProgram α}
    (hp : p.Only (fun c => c.neutral = true) V) (s : S) :
    p.Follows P (fun a _ => V a) (fun _ _ => True) s :=
  .of_only (fun c s hc => (o.neutral c s hc).1) (fun _ _ h => h) (fun _ _ => trivial) s hp

theorem follows_perform (o : ServiceOutline P K) {c : TaskCall} (hc : c.neutral = true) (s : S) :
    Follows P c.perform s :=
  o.follows_of_only (Program.Only.perform (P := fun c : TaskCall => c.neutral = true) hc) s

/-- A neutral call leaves what is known as it is. -/
theorem follows_neutral (o : ServiceOutline P K) {c : TaskCall} (hc : c.neutral = true)
    {k : Knowledge} {s : S}
    (hk : K k s) {f : c.Reply → TaskProgram α} {h : Exn → TaskProgram α}
    (hf : ∀ b s', K k s' → (f b).Follows P Q (fun _ _ => True) s')
    (hh : ∀ e s', K k s' → (h e).Follows P Q (fun _ _ => True) s') :
    (c.perform.handle f h).Follows P Q (fun _ _ => True) s :=
  Program.follows_call (o.neutral c s hc).1
    (fun b s' hr => hf b s' ((o.neutral c s hc).2 _ s' hr k hk))
    fun e s' hr => hh e s' ((o.neutral c s hc).2 _ s' hr k hk)

theorem only_settle {id : String} {event : TaskEvent} {c : TaskCall} (hc : c.neutral = true) :
    ((TaskCall.appendEvent id event).perform >>= fun _ => c.perform).Only
      (fun c => c.neutral = true) fun _ => True := by
  have hevent : (TaskCall.appendEvent id event).perform.Only (fun c : TaskCall => c.neutral = true)
      fun _ => True := .perform rfl
  have hlast : c.perform.Only (fun c : TaskCall => c.neutral = true) fun _ => True := .perform hc
  exact hevent.bind fun _ _ => hlast

/-- A message is published for the record just stored, or the record is stored as failed. -/
theorem follows_publishOrFail (o : ServiceOutline P K) {site : Site}
    (hsite : site.payload = none) {task : TaskRecord}
    {past interaction : Option Interaction} {payload : QueueMessage} (hpayload : payload.For task)
    (hremembers : Remembers interaction task past) (hresumes : Resumes interaction past)
    {errorMessage : String}
    {report : TaskProgram Unit} (hreport : report.Only (fun c => c.neutral = true) fun _ => True)
    {s : S} (hk : K (.stored task past) s) :
    Follows P (publishOrFail site task payload errorMessage interaction report) s := by
  apply Program.follows_call (o.publish task past payload s hk hpayload).1
  · exact fun _ _ _ => trivial
  · intro e s' hr
    have hk' := (o.publish task past payload s hk hpayload).2 e s' hr
    apply Program.follows_call
    · exact o.publishFailed site task past errorMessage interaction s' hk' hremembers hresumes hsite
    · intro _ s'' _
      apply Program.Follows.handle
      exact (o.follows_of_only hreport s'').mono (fun _ _ _ => by trivial) fun _ _ _ => by trivial
    · exact fun _ _ _ => trivial

/-- What every operation does with the record it has stored as queued. -/
theorem follows_enqueue (o : ServiceOutline P K) {site : Site}
    (hsite : site.payload = none) {task : TaskRecord}
    {past interaction : Option Interaction} {payload : QueueMessage} (hpayload : payload.For task)
    (hremembers : Remembers interaction task past) (hresumes : Resumes interaction past)
    {event : TaskEvent} {errorMessage : String}
    {report : TaskProgram Unit} (hreport : report.Only (fun c => c.neutral = true) fun _ => True)
    {f : Unit → TaskProgram α} (hf : ∀ a, (f a).Only (fun c => c.neutral = true) fun _ => True)
    {s : S} (hk : K (.stored task past) s) :
    Follows P ((TaskCall.appendEvent task.taskId event).perform >>= fun _ =>
      publishOrFail site task payload errorMessage interaction report >>= f) s := by
  apply o.follows_neutral rfl hk
  · intro _ s' hk'
    apply Program.Follows.bind
    refine (o.follows_publishOrFail hsite hpayload hremembers hresumes hreport hk').mono ?_
      fun _ _ _ => trivial
    exact fun a s'' _ => (o.follows_of_only (hf a) s'').mono (fun _ _ _ => trivial)
      fun _ _ _ => trivial
  · exact fun _ _ _ => trivial

theorem follows_getTaskForMerchant (o : ServiceOutline P K) {site : Site}
    (hsite : site.payload = none) (taskId merchantId : String) (s : S) :
    (getTaskForMerchant site taskId merchantId).Follows P
      (fun task s => task.taskId = taskId ∧ task.merchantId = merchantId ∧ K (.known task) s)
      (fun _ _ => True) s := by
  rw [getTaskForMerchant, getTask, Program.bind_eq, Program.bind_eq, Program.handle_handle]
  apply Program.follows_call (o.read site taskId s hsite).1
  · intro found s' hr
    cases found with
    | none => trivial
    | some task =>
        obtain ⟨htask, hk⟩ := (o.read site taskId s hsite).2 task s' hr
        change Program.Follows _ _ _ (if task.merchantId ≠ merchantId then _ else _) s'
        split
        · trivial
        · next hmerchant => exact ⟨htask, not_not.1 hmerchant, hk⟩
  · exact fun _ _ _ => trivial

theorem follows_createTaskRecord (o : ServiceOutline P K) (request : CreateTask)
    (key : Option String) :
    ∀ depth s, (createTaskRecord request.record key depth).Follows P
      (fun result s => result.2 = true → K (.stored request.record none) s) (fun _ _ => True) s
  | 0, s => trivial
  | depth + 1, s => by
      have hset : ((TaskCall.setNew request.record).perform >>= fun created =>
          (pure (request.record, created) : TaskProgram (TaskRecord × Bool))).Follows P
            (fun result s => result.2 = true → K (.stored request.record none) s)
            (fun _ _ => True) s := by
        apply Program.follows_call (o.setNew request s).1
        · intro created s' hr hcreated
          cases hcreated
          exact (o.setNew request s).2 s' hr
        · exact fun _ _ _ => trivial
      unfold createTaskRecord
      split
      · exact hset
      · exact hset
      · next key _ =>
          apply Program.follows_call (o.createScript request key s).1
          · intro reply s' hr
            obtain ⟨resolved, created⟩ := reply
            cases created with
            | true => exact fun _ => (o.createScript request key s).2 resolved s' hr
            | false =>
                apply Program.follows_call (o.read .createTask resolved s' rfl).1
                · intro found s'' _
                  cases found with
                  | some existing => exact nofun
                  | none =>
                      apply Program.follows_call (o.neutral (.deleteKey key) s'' rfl).1
                      · exact fun _ s₃ _ => o.follows_createTaskRecord request _ depth s₃
                      · exact fun _ _ _ => trivial
                · exact fun _ _ _ => trivial
          · exact fun _ _ _ => trivial

theorem follows_createTask (o : ServiceOutline P K) (request : CreateTask) (s : S) :
    Follows P (createTask request) s := by
  apply Program.Follows.bind
  refine (o.follows_createTaskRecord request _ _ s).mono ?_ fun _ _ _ => trivial
  intro result s' hk
  obtain ⟨resolved, created⟩ := result
  cases created with
  | false => trivial
  | true =>
      refine o.follows_enqueue rfl ⟨rfl, rfl, rfl, rfl⟩ ?_ ?_ ?_ ?_ (hk rfl)
      · exact fun _ heq => by cases heq
      · exact fun _ heq => by cases heq
      · exact Program.Only.perform (P := fun c : TaskCall => c.neutral = true) (by rfl)
      · exact fun _ => trivial

theorem follows_submitInput (o : ServiceOutline P K) (taskId merchantId productId : String)
    (s : S) :
    Follows P (submitInput taskId merchantId productId) s := by
  apply Program.Follows.bind
  refine (o.follows_getTaskForMerchant rfl _ _ s).mono ?_ fun _ _ _ => trivial
  intro task s₁ hread
  split
  · trivial
  next hstatus =>
  have hstatus := not_not.1 hstatus
  apply o.follows_neutral rfl hread.2.2
  · intro items s₂ hk
    split
    · trivial
    apply Program.follows_call (o.input task productId s₂ hk hstatus).1
    · intro transitioned s₃ hr
      cases transitioned with
      | false =>
          apply Program.Follows.bind
          refine (o.follows_getTaskForMerchant rfl _ _ s₃).mono ?_ fun _ _ _ => trivial
          intro current _ _
          split <;> trivial
      | true =>
          have hk' := (o.input task productId s₂ hk hstatus).2 s₃ hr
          refine o.follows_enqueue rfl ⟨rfl, rfl, rfl, rfl⟩ ?_ ?_ ?_ ?_ hk'
          · exact fun _ heq => by cases heq
          · intro x heq
            cases heq
            exact .inl rfl
          · trivial
          · exact fun _ => trivial
    · exact fun _ _ _ => trivial
  · exact fun _ _ _ => trivial

theorem follows_submitApproval (o : ServiceOutline P K) (request : SubmitApproval) (s : S) :
    Follows P (submitApproval request) s := by
  apply Program.Follows.bind
  refine (o.follows_getTaskForMerchant rfl _ _ s).mono ?_ fun _ _ _ => trivial
  intro task s₁ hread
  obtain ⟨htask, -, hk⟩ := hread
  change Follows P (if task.status ∈ _ then _ else _) s₁
  split
  · apply o.follows_neutral rfl hk
    · intro existing _ _
      cases existing with
      | none => trivial
      | some row =>
          change Follows P (if _ then _ else _) _
          split <;> trivial
    · exact fun _ _ _ => trivial
  split
  · trivial
  split
  · trivial
  apply Program.follows_call (o.record request task s₁ hk htask).1
  · intro approvalId s₂ hr
    have hk₂ := (o.record request task s₁ hk htask).2 approvalId s₂ hr
    have hstatus : (if task.errorCode == some "QUEUE_PUBLISH_FAILED" then TaskStatus.failed
        else .awaitingApproval) ∈ [TaskStatus.awaitingApproval, .failed] := by
      split <;> simp
    apply Program.follows_call (o.approval task approvalId _ s₂ hk₂ hstatus).1
    · intro transitioned s₃ hr
      cases transitioned with
      | false =>
          apply Program.Follows.bind
          refine (o.follows_getTaskForMerchant rfl _ _ s₃).mono ?_ fun _ _ _ => trivial
          intro current _ _
          split <;> trivial
      | true =>
          have hk₃ := (o.approval task approvalId _ s₂ hk₂ hstatus).2 s₃ hr
          refine o.follows_enqueue rfl ⟨rfl, rfl, rfl, rfl⟩ ?_ ?_ ?_ ?_ hk₃
          · intro id heq
            cases heq
            exact .inl ⟨rfl, rfl⟩
          · intro x heq
            cases heq
            exact .inl rfl
          · trivial
          · intro _
            apply Program.Only.bind (W := fun _ => True)
            · unfold reportRequeued
              split
              · exact Program.Only.perform (P := fun c : TaskCall => c.neutral = true) (by rfl)
              · trivial
            · exact fun _ _ => trivial
    · exact fun _ _ _ => trivial
  · exact fun _ _ _ => trivial

/-- What a failed resumption remembers is what it resumed. -/
theorem remembers_resumed (original : TaskRecord) :
    Remembers ((resumeInteraction original.resumption.1 original.resumption.2).or
      original.interaction) original.resumed original.interaction := by
  intro approvalId heq
  cases hkind : resumeInteraction original.resumption.1 original.resumption.2 with
  | none =>
      exact .inr (by rw [Option.none_or])
  | some interaction =>
      rw [hkind, Option.some_or, Option.some.injEq] at heq
      subst heq
      unfold resumeInteraction at hkind
      split at hkind
      · split at hkind <;> cases hkind
      · next id hresumed hid =>
          split at hkind <;> cases hkind
          exact .inl ⟨hresumed, hid⟩
      · split at hkind <;> cases hkind
      · cases hkind

/-- What a failed resumption names is what it resumed, or what the record named before. -/
theorem resumes_resumed (original : TaskRecord) :
    Resumes ((resumeInteraction original.resumption.1 original.resumption.2).or
      original.interaction) original.interaction := by
  intro x heq
  cases hkind : resumeInteraction original.resumption.1 original.resumption.2 with
  | none =>
      exact .inr (by rw [Option.none_or])
  | some interaction =>
      rw [hkind, Option.some_or, Option.some.injEq] at heq
      subst heq
      exact .inl (resumes_resumeInteraction hkind)

theorem follows_resumeTask (o : ServiceOutline P K) (taskId merchantId : String) (s : S) :
    Follows P (resumeTask taskId merchantId) s := by
  apply Program.Follows.bind
  refine (o.follows_getTaskForMerchant rfl _ _ s).mono ?_ fun _ _ _ => trivial
  intro original s₁ hread
  split
  · trivial
  have hstale : (staleRunning original).Follows P (fun stale s => K (.known original) s ∧
      (stale = true → original.status = .running)) (fun _ _ => True) s₁ := by
    unfold staleRunning
    split
    · next hrunning =>
        apply o.follows_neutral rfl hread.2.2
        · exact fun _ _ hk => ⟨hk, fun _ => hrunning⟩
        · exact fun _ _ _ => trivial
    · exact ⟨hread.2.2, nofun⟩
  apply Program.Follows.bind
  refine hstale.mono ?_ fun _ _ _ => trivial
  intro stale s₂ hk
  split
  · trivial
  next hresumable =>
  have hstatus : original.status ∈ [.failed, .running] := by
    by_cases hfailed : original.status = .failed
    · simp [hfailed]
    · have hstale : stale = true := by simpa [hfailed] using hresumable
      simp [hk.2 hstale]
  apply Program.follows_call (o.resumed original s₂ hk.1 hstatus).1
  · intro _ s₃ hr
    have hk₃ := (o.resumed original s₂ hk.1 hstatus).2 s₃ hr
    refine o.follows_enqueue rfl ⟨rfl, rfl, rfl, rfl⟩
      (remembers_resumed original) (resumes_resumed original) ?_ ?_ hk₃
    · trivial
    · exact fun _ => trivial
  · exact fun _ _ _ => trivial

end ServiceOutline

namespace Outline

open ServiceOutline

variable {settings : Settings} {P : Protocol Exn TaskCall TaskCall.Reply S}
  {K : Knowledge → S → Prop} {α : Type}
  {Q : α → S → Prop}

section Handler

variable {payload : QueueMessage}

/-- A failure that remembers what it retries remembers no approval but that of the record. -/
theorem remembers_retried (task : TaskRecord) (payload : QueueMessage) (exc : Exn)
    (graphStarted : Bool) (status : TaskStatus) :
    Remembers (resumeInteraction (payload.retried graphStarted).resumeKind
      (payload.retried graphStarted).resumeId)
      (task.failedRun payload exc graphStarted status) none := by
  intro approvalId heq
  unfold resumeInteraction at heq
  split at heq
  · split at heq <;> cases heq
  · next id hkind hid =>
      split at heq <;> cases heq
      exact .inl ⟨hkind, hid⟩
  · split at heq <;> cases heq
  · cases heq

/-- Calls that only report end where they began. -/
theorem settled_of_only (o : Outline settings P K) {p : TaskProgram Unit}
    (hp : p.Only (fun c => c.neutral = true) fun _ => True) {s : S} (hk : K (.settled payload) s) :
    p.Follows P (fun _ s => K (.settled payload) s) (fun _ s => K (.settled payload) s) s :=
  (Program.Follows.of_invariant (I := K (.settled payload)) (fun c s hc hs =>
    ⟨(o.neutral c s hc).1, fun r s' hr => (o.neutral c s hc).2 r s' hr _ hs⟩) hp hk).mono
      (fun _ _ h => h.2) fun _ _ h => h

theorem follows_handleFailure (o : Outline settings P K) {exc : Exn} (graphStarted : Bool) {s : S}
    (hk : K (.raised payload exc) s) :
    (handleFailure settings payload exc graphStarted).Follows P
      (fun _ s => K (.settled payload) s) (fun _ s => K (.settled payload) s) s := by
  obtain ⟨hmay, hsome, hnone, hraise⟩ := o.readFailure payload exc s hk
  apply Program.follows_call hmay
  · intro found s₁ hr
    cases found with
    | none =>
        exact o.settled_of_only (Program.Only.perform (c := TaskCall.reject false) rfl)
          (hnone s₁ hr)
    | some task =>
        obtain ⟨htask, hk₁⟩ := hsome task s₁ hr
        change Program.Follows P _ _ (if _ then _ else _) s₁
        split
        · next hretry =>
          obtain ⟨hmay, hnext, hraise⟩ := o.failedRun payload exc task graphStarted .retrying s₁
            hk₁ htask (by simp) fun _ => hretry.2
          apply Program.follows_call hmay
          · intro _ s₂ hr
            have hk₂ := hnext s₂ hr
            have hpublish := o.publishRetry payload _ (payload.retried graphStarted) s₂ hk₂ rfl
              ⟨htask.symm, rfl, rfl, rfl⟩
            apply Program.follows_call hpublish.1
            · exact fun _ s₃ hr => o.settled_of_only (only_settle (c := .ack) rfl)
                (o.failed _ _ _ (hpublish.2 _ s₃ hr))
            · intro e s₃ hr
              obtain ⟨hmay, hnext⟩ := o.retryFailed payload _ _ _ s₃ (hpublish.2 _ s₃ hr) rfl
                (remembers_retried task payload exc _ _)
                fun x heq => .inl (resumes_resumeInteraction heq)
              apply Program.follows_call hmay
              · exact fun _ s₄ hr => o.settled_of_only (only_settle (c := .reject false) rfl)
                  (hnext _ s₄ hr)
              · exact fun e s₄ hr => hnext _ s₄ hr
          · exact hraise
        · obtain ⟨hmay, hnext, hraise⟩ := o.failedRun payload exc task graphStarted .failed s₁
            hk₁ htask (by simp) nofun
          apply Program.follows_call hmay
          · exact fun _ s₂ hr => o.settled_of_only (only_settle (c := .reject false) rfl)
              (o.failed _ _ _ (hnext s₂ hr))
          · exact hraise
  · exact hraise

theorem follows_prepareRun (o : Outline settings P K) {s : S} (hk : K (.holding payload) s) :
    (prepareRun payload).Follows P
      (fun found s => match found with
        | some task => K (.matched payload task) s
        | none => K (.settled payload) s)
      (fun e s => K (.raised payload e) s) s := by
  obtain ⟨hmay, hsome, hnone, hraise⟩ := o.readMessage payload s hk
  apply Program.follows_call hmay
  · intro found s₁ hr
    cases found with
    | none =>
        have hdismiss := o.dismiss payload s₁ (hnone s₁ hr)
        apply Program.follows_call (o.neutral (.reject false) s₁ rfl).1
        · exact fun _ => hdismiss.1
        · exact hdismiss.2
    | some task =>
        obtain ⟨htask, hk₁⟩ := hsome task s₁ hr
        have hignore : (TaskCall.ack.perform >>= fun _ =>
            (pure none : TaskProgram (Option TaskRecord))).Follows P (fun found s =>
              match found with
              | some task => K (.matched payload task) s
              | none => K (.settled payload) s) (fun e s => K (.raised payload e) s) s₁ := by
          apply Program.follows_call (o.neutral .ack s₁ rfl).1
          · exact fun _ => (o.ignore payload task s₁ hk₁).1
          · exact (o.ignore payload task s₁ hk₁).2
        change Program.Follows _ _ _ (if _ then _ else _) s₁
        split
        · exact hignore
        split
        · exact hignore
        next hrunnable =>
        split
        · exact hignore
        next hmatches =>
        obtain ⟨hmay, hnext, hraise⟩ := o.started payload task s₁ hk₁ htask (not_not.1 hrunnable)
          (by simpa using hmatches)
        apply Program.Follows.bind
        apply Program.follows_call hmay
        · intro _ s₂ hr
          have hk₂ := hnext s₂ hr
          have hevent := o.neutral (.appendEvent task.taskId (.started payload.attempt)) s₂ rfl
          apply Program.follows_call hevent.1
          · exact fun _ s₃ hr => hevent.2 _ s₃ hr _ hk₂
          · exact fun e s₃ hr => o.raise payload _ e s₂ s₃ rfl hr
              (.inr ⟨_, hevent.2 _ s₃ hr _ hk₂⟩)
        · exact hraise
  · exact hraise

/-- What is asked of the orchestrator: that it follows the protocol from a record
started on a message, and that its outcome may be stored. -/
def Runs (P : Protocol Exn TaskCall TaskCall.Reply S) (K : Knowledge → S → Prop)
    (orchestrator : Orchestrator) (payload : QueueMessage) : Prop :=
  ∀ task s, K (.matched payload task) s →
    (orchestrator task payload.resumeKind payload.resumeId).Follows P
      (fun outcome s => K (.ran payload task outcome) s) (fun e s => K (.raised payload e) s) s

/-- A report of a run that is stored, and what follows it. -/
theorem follows_report (o : Outline settings P K) {c : TaskCall} (hc : c.neutral = true)
    (hannounces : c.announces = true) {f : c.Reply → TaskProgram Unit} {s : S}
    (hk : K (.concluded payload) s)
    (hf : ∀ b s', K (.concluded payload) s' → (f b).Follows P
      (fun _ s => K (.settled payload) s) (fun e s => K (.raised payload e) s) s') :
    (c.perform >>= f).Follows P
      (fun _ s => K (.settled payload) s) (fun e s => K (.raised payload e) s) s :=
  Program.follows_call (o.neutral c s hc).1
    (fun b s' hr => hf b s' ((o.neutral c s hc).2 _ s' hr _ hk))
    fun e s' hr => o.raise payload c e s s' hannounces hr (.inl ((o.neutral c s hc).2 _ s' hr _ hk))

theorem follows_executeRun (o : Outline settings P K) {orchestrator : Orchestrator}
    (hrun : Runs P K orchestrator payload) {task : TaskRecord} {s : S}
    (hk : K (.matched payload task) s) :
    (executeRun orchestrator payload task).Follows P
      (fun _ s => K (.settled payload) s) (fun e s => K (.raised payload e) s) s := by
  apply Program.Follows.bind
  refine (hrun task s hk).mono ?_ fun _ _ h => h
  intro outcome s₁ hran
  obtain ⟨hmay, hnext, hraise⟩ := o.outcome payload task outcome s₁ hran
  apply Program.follows_call hmay
  · intro _ s₂ hr
    have hlast : ∀ s, K (.concluded payload) s → Program.Follows P
        (fun _ s => K (.settled payload) s) (fun e s => K (.raised payload e) s)
        ((TaskCall.appendEvent (task.finished outcome).taskId
          (.finished outcome payload.attempt)).perform >>= fun _ => TaskCall.ack.perform) s := by
      intro s hk
      apply o.follows_report rfl rfl hk
      intro _ s' hk'
      rw [← Program.handle_pure_throw TaskCall.ack.perform]
      exact o.follows_report rfl rfl hk' fun _ s'' hk'' => o.concluded payload s'' hk''
    change Program.Follows P _ _
      (reportApprovalRequired (task.finished outcome) outcome >>= fun _ => _) s₂
    unfold reportApprovalRequired
    split
    · exact o.follows_report rfl rfl (hnext s₂ hr) fun _ => hlast
    · exact hlast s₂ (hnext s₂ hr)
  · exact hraise

theorem follows_handleMessage (o : Outline settings P K) {orchestrator : Orchestrator}
    (hrun : Runs P K orchestrator payload) {s : S} (hk : K (.received payload) s) :
    Follows P (handleMessage settings orchestrator (.ok payload)) s := by
  obtain ⟨hmay, hacquired⟩ := o.acquire payload settings.leaseTtl s hk
  apply Program.follows_call hmay
  · intro acquired s₁ hr
    have hk₁ := hacquired acquired s₁ hr
    cases acquired with
    | false =>
        apply Program.follows_call (o.delay payload s₁ hk₁)
        · exact fun _ s₂ _ => o.follows_perform (c := .ack) rfl s₂
        · exact fun _ s₂ _ => o.follows_perform (c := .reject true) rfl s₂
    | true =>
        apply Program.Follows.handle
        have hunder : (runUnderLease settings orchestrator payload).Follows P
            (fun _ s => K (.settled payload) s) (fun _ s => K (.settled payload) s) s₁ := by
          apply Program.Follows.handle
          refine (o.follows_prepareRun hk₁).mono ?_ ?_
          · intro found s₂ hfound
            cases found with
            | none => exact hfound
            | some task =>
                apply Program.Follows.handle
                refine (o.follows_executeRun hrun hfound).mono ?_ ?_
                · exact fun _ _ h => h
                · exact fun e s₃ h => o.follows_handleFailure true h
          · exact fun e s₂ h => o.follows_handleFailure false h
        have hrelease : ∀ next : TaskProgram Unit, (∀ s, Follows P next s) → ∀ s,
            K (.settled payload) s →
              Follows P ((releaseLease payload.taskId).handle (fun _ => next) .throw) s := by
          intro next hnext s hs
          rw [releaseLease, Program.tryCatch_eq, Program.handle_handle]
          apply Program.follows_call (o.release payload s hs)
          · exact fun _ s' _ => hnext s'
          · exact fun _ s' _ => hnext s'
        refine hunder.mono ?_ ?_
        · exact fun a => hrelease (.pure a) fun _ => trivial
        · exact fun e => hrelease (.throw e) fun _ => trivial
  · exact fun _ _ _ => trivial

/-- Every request but those of the repository follows a protocol with an outline. -/
theorem follows_program (o : Outline settings P K) {orchestrator : Orchestrator}
    (hrun : ∀ payload, Runs P K orchestrator payload) {q : TaskRequest}
    (hq : ∀ request, q ≠ .ledger request) {s : S}
    (hk : ∀ payload, q = .handleMessage (.ok payload) → K (.received payload) s) :
    Follows P (q.program settings orchestrator) s := by
  have hdone : ∀ {β : Type} {p : TaskProgram β} (f : β → TaskResult), Follows P p s →
      Follows P (p >>= fun b => pure (f b)) s := fun f hp =>
    .bind (hp.mono (fun _ _ _ => by trivial) fun _ _ _ => by trivial)
  cases q with
  | createTask request => exact hdone _ (o.follows_createTask request s)
  | submitInput taskId merchantId productId => exact hdone _ (o.follows_submitInput _ _ _ s)
  | submitApproval request => exact hdone _ (o.follows_submitApproval request s)
  | resumeTask taskId merchantId => exact hdone _ (o.follows_resumeTask _ _ s)
  | handleMessage body =>
      cases body with
      | error e => exact hdone _ (o.follows_perform (c := .reject false) rfl s)
      | ok payload => exact hdone _ (o.follows_handleMessage (hrun payload) (hk payload rfl))
  | ledger request => exact absurd rfl (hq request)

end Handler

end Outline

end CommerceAgent
