import CommerceAgent.Agent.Agreement
import CommerceAgent.Agent.Selection
import CommerceAgent.Text.Casing
import Mathlib.Data.List.Sort

/-!
# Consent

A graph applies the plan of its task, and only after the merchant has approved it:
`Submitted` says how an approval has got into the table, and `Exposed` what the merchant
was shown.

Who records approvals is said by the contract `consenting`: `submit_approval` alone does,
for the task, the plan and the decision of its request, on a record that it has read.
-/

namespace CommerceAgent

open Effects Relational

/-- The call records an approval. -/
def TaskCall.recordsApproval : TaskCall → Bool
  | .ledger (.recordApproval ..) => true
  | _ => false

/-- The record is one that `submit_approval` goes on from. -/
def TaskRecord.Approvable (task : TaskRecord) : Prop :=
  task.status = .awaitingApproval ∨
    task.status = .failed ∧ task.errorCode = some "QUEUE_PUBLISH_FAILED"

/-- An approval is recorded for the request, on a record that was read. -/
def TaskRequest.Consents (q : TaskRequest) (past : List TaskExchange) : TaskCall → Prop
  | .ledger (.recordApproval taskId merchantId planId planVersion actionId decision) =>
      ∃ request task, q = .submitApproval request ∧
        (⟨.getTask .submitApproval request.taskId, .ok (some task)⟩ : TaskExchange) ∈ past ∧
        task.Approvable ∧ taskId = task.taskId ∧ merchantId = task.merchantId ∧
        planId = request.planId ∧ planVersion = request.planVersion ∧
        actionId = request.actionId ∧ decision = request.decision
  | _ => True

def consenting : Contract Exn TaskCall TaskCall.Reply World TaskRequest where
  inv _ := True
  assume _ _ := True
  guarantee q past c := q.Consents past c

section Programs

variable {q : TaskRequest} {past : List TaskExchange} {α : Type} {V : α → Prop}

/-- The program records no approval. -/
abbrev Silent (p : TaskProgram α) : Prop :=
  p.Only (fun c => c.recordsApproval = false) fun _ => True

theorem consents_of_silent {c : TaskCall} (hc : c.recordsApproval = false) : q.Consents past c := by
  cases c with
  | ledger lc => cases lc <;> trivial
  | _ => trivial

theorem Honours.of_silent {p : TaskProgram α} (hp : Silent p) : consenting.Honours q p past :=
  Program.Meets.of_only (fun _ _ => consents_of_silent) (fun _ _ _ => trivial)
    (fun _ _ => trivial) past hp

theorem silent_of_serves {site : Site} {p : TaskProgram α} (hp : Serves site p V)
    (hsite : site ≠ .submitApproval) : Silent p := by
  apply hp.mono
  · intro c hc
    cases c with
    | ledger lc =>
        cases lc with
        | recordApproval => exact absurd hc hsite
        | _ => rfl
    | _ => rfl
  · exact fun _ _ => trivial

theorem silent_perform {c : TaskCall} (hc : c.recordsApproval = false) : Silent c.perform :=
  .perform hc

theorem silent_bind {c : TaskCall} {f : c.Reply → TaskProgram α} (hc : c.recordsApproval = false)
    (hf : ∀ b, Silent (f b)) : Silent (c.perform >>= f) :=
  (silent_perform hc).bind fun b _ => hf b

theorem silent_getTaskForMerchant (site : Site) (taskId merchantId : String) :
    Silent (getTaskForMerchant site taskId merchantId) := by
  refine Program.Only.bind (W := fun _ => True) (silent_bind rfl ?_) ?_
  · rintro (_ | task) <;> trivial
  · intro task _
    split <;> trivial

theorem silent_repeatedApproval (request : SubmitApproval) (task : TaskRecord) :
    Silent (repeatedApproval request task) := by
  refine silent_bind rfl fun existing => ?_
  cases existing with
  | none => trivial
  | some row =>
      change Silent (if _ then _ else _)
      split <;> trivial

theorem silent_racedApproval (request : SubmitApproval) (approvalId : String) :
    Silent (racedApproval request approvalId) := by
  refine (silent_getTaskForMerchant _ _ _).bind fun current _ => ?_
  split <;> trivial

theorem silent_enqueueApproval (request : SubmitApproval) (task : TaskRecord)
    (approvalId : String) (requeued : Bool) :
    Silent (enqueueApproval request task approvalId requeued) := by
  refine silent_bind rfl fun _ => ?_
  have hpublish : Silent (publishOrFail .submitApproval task
      (task.message 0 (some .approval) (some approvalId)) "审批已保存，但恢复任务入队失败"
      (some (.approvalResume approvalId)) (pure ())) := by
    refine (silent_perform rfl).handle (fun _ _ => by trivial) fun e => ?_
    exact silent_bind rfl fun _ => by trivial
  refine hpublish.bind fun _ _ => ?_
  have hreport : Silent (reportRequeued task approvalId requeued) := by
    unfold reportRequeued
    split
    · exact silent_perform rfl
    · trivial
  exact hreport.bind fun _ _ => by trivial

/-- The record that is returned has been read. -/
theorem meets_getTaskForMerchant (site : Site) (taskId merchantId : String) :
    (getTaskForMerchant site taskId merchantId).Meets consenting.assume (consenting.guarantee q)
      (fun past task => (⟨.getTask site taskId, .ok (some task)⟩ : TaskExchange) ∈ past)
      (fun _ _ => True) past := by
  apply Program.Meets.handle
  apply Program.Meets.handle
  rw [Program.meets_perform]
  refine ⟨trivial, ?_, fun _ _ => trivial⟩
  intro found _
  cases found with
  | none => trivial
  | some task =>
      change Program.Meets _ _ _ _ (if _ then _ else _) _
      split
      · trivial
      · exact List.mem_append_right _ (List.mem_singleton_self _)

/-- `submit_approval` records an approval for its request. -/
theorem honours_submitApproval (request : SubmitApproval) :
    consenting.Honours (.submitApproval request) (submitApproval request) past := by
  apply Program.Meets.handle
  apply (meets_getTaskForMerchant _ _ _).mono
  · intro past task hread
    change Program.Meets _ _ _ _ (if task.status ∈ _ then _ else _) _
    split
    · exact Honours.of_silent (silent_repeatedApproval request task)
    split
    · trivial
    next hpublish =>
    split
    · trivial
    next hstatus =>
    have happrovable : task.Approvable := by
      by_cases hfailed : task.status = .failed
      · exact .inr ⟨hfailed, by simpa [hfailed] using hpublish⟩
      · exact .inl (by simpa [hfailed] using hstatus)
    apply Program.meets_bind.2
    refine ⟨⟨request, task, rfl, hread, happrovable, rfl, rfl, rfl, rfl, rfl, rfl⟩, ?_,
      fun _ _ => trivial⟩
    intro approvalId _
    apply Honours.of_silent
    refine silent_bind rfl fun transitioned => ?_
    split
    · exact silent_racedApproval request approvalId
    · exact silent_enqueueApproval request _ approvalId _
  · exact fun _ _ _ => trivial

theorem silent_handleMessage (agent : AgentSettings) (settings : Settings) (body : Body) :
    Silent (handleMessage settings agent.orchestrator body) := by
  apply Program.AtMost.only
  apply atMost_handleMessage settings
  · intro payload c hc
    cases c <;> first | rfl | cases hc
  · intro task resumeKind resumeId
    apply Program.Only.atMost (V := fun _ => True)
    apply (agent.orchestrator_only task resumeKind resumeId).mono
    · intro c hc
      cases c <;> first | rfl | cases hc
    · exact fun _ h => h

/-- Only `submit_approval` records approvals in a deployment. -/
theorem consents_program (agent : AgentSettings) (settings : Settings)
    (hrequest : ∀ request, q = .ledger request → request = .initializeSync) :
    consenting.Honours q (q.program settings agent.orchestrator) [] := by
  cases q with
  | createTask request =>
      exact Honours.of_silent ((silent_of_serves (serves_createTask request) nofun).bind
        fun _ _ => by trivial)
  | submitInput taskId merchantId productId =>
      exact Honours.of_silent ((silent_of_serves (serves_submitInput _ _ _) nofun).bind
        fun _ _ => by trivial)
  | submitApproval request =>
      exact (honours_submitApproval request).bind fun _ _ => by trivial
  | resumeTask taskId merchantId =>
      exact Honours.of_silent ((silent_of_serves (serves_resumeTask _ _) nofun).bind
        fun _ _ => by trivial)
  | handleMessage body =>
      exact Honours.of_silent ((silent_handleMessage agent settings body).bind
        fun _ _ => by trivial)
  | ledger request =>
      obtain rfl := hrequest request rfl
      have hseeds : Silent (liftLedger (LedgerRequest.initializeSync.program
          settings.catalog)) := ⟨rfl, fun r => by cases r <;> trivial⟩
      exact Honours.of_silent (hseeds.bind fun _ _ => by trivial)

theorem consentingSound {agent : AgentSettings} {settings : Settings} :
    consenting.Sound (taskMachine settings agent.orchestrator) deployed where
  start _ _ _ _ _ hstart _ := ⟨trivial, consents_program agent settings hstart⟩
  call _ _ _ _ _ _ _ _ _ _ _ _ := ⟨trivial, trivial⟩
  crash _ _ _ _ := trivial
  environment _ _ _ _ _ _ := trivial

end Programs

section Run

variable {agent : AgentSettings} {settings : Settings} {h : List (TaskConfig × TaskAction)}
  {c c' : TaskConfig} {taskId : String} {task : TaskRecord} {plan : ActionPlan} {row : ApprovalRow}

/-- The record of the task waits for the approval of the plan, and shows it. -/
def Exposed (taskId : String) (plan : ActionPlan) (w : World) : Prop :=
  ∃ task, w.records taskId = some task ∧ task.status = .awaitingApproval ∧
    task.interaction = some plan.interaction

/-- While a record waits for an approval, it shows the plan of its task. -/
theorem shown_of_run
    (run : (taskMachine settings agent.orchestrator).Run deployed (.initial World.fresh) h c)
    (htask : c.state.records taskId = some task) (hstatus : task.status = .awaitingApproval) :
    ∃ plan ∈ c.state.ledger.plans, plan.taskId = taskId ∧
      task.interaction = some plan.interaction := by
  obtain ⟨checkpoint, ⟨started, rfl⟩, hreach, hended⟩ :=
    exists_endedWith run htask (by simp [hstatus, transientStatuses])
  have houtcome : checkpoint.outcome.status = .awaitingApproval := by
    cases houtcome : checkpoint.outcome.status <;>
      simp_all [TaskRecord.finished, RunStatus.taskStatus]
  cases hinterrupt : checkpoint.interrupt with
  | none =>
      have hnext : checkpoint.next = none := hended.resolve_right fun h => h hinterrupt
      cases (hreach.concluded hnext).2 with
      | planless _ h | rejected _ h | applied _ h =>
          simp [Checkpoint.outcome, hinterrupt, h] at houtcome
  | some x =>
      simp only [Checkpoint.outcome, hinterrupt, interruptedOutcome] at houtcome
      have htype : x.type = "approval.required" := by
        cases x <;> simp_all [resumeKindForInteraction, Interaction.type]
      obtain ⟨plan, rfl, hknown⟩ := hreach.showsPlan.interrupt x hinterrupt htype
      rw [hreach.taskId] at hknown
      obtain ⟨hplan, hown⟩ := mem_of_known run hknown
      refine ⟨plan, hplan, hown, ?_⟩
      simp [TaskRecord.finished, Checkpoint.outcome, hinterrupt, interruptedOutcome]

/-- What a record shows of the plan of its task while it waits is the same at every time of
a run. -/
theorem shown_of_visited {h₁ h₂ : List (TaskConfig × TaskAction)} {v : TaskConfig × TaskAction}
    (run : (taskMachine settings agent.orchestrator).Run deployed (.initial World.fresh)
      (h₁ ++ v :: h₂) c)
    (hplan : plan ∈ c.state.ledger.plans) (hown : plan.taskId = taskId)
    (htask : v.1.state.records taskId = some task) (hstatus : task.status = .awaitingApproval) :
    task.interaction = some plan.interaction := by
  obtain ⟨run₁, -, -⟩ := run.before rfl
  obtain ⟨plan', hplan', hown', hshown⟩ := shown_of_run run₁ htask hstatus
  have hgrows : v.1.state.ledger.Grows c.state.ledger :=
    run.related (r := fun w w' => w.ledger.Grows w'.ledger)
      (fun a c c' step => ledger_grows_of_step step) v (by simp)
  rw [hshown, eq_of_planTask (hgrows.plans plan' hplan') hplan (hown'.trans hown.symm)]

/-- A record that was read was the record of the task at that time. -/
theorem visited_of_read {i : ℕ} {site : Site}
    (hread : (⟨.getTask site taskId, .ok (some task)⟩ : TaskExchange) ∈
      agent.transcripts settings h i) :
    ∃ h₁ v h₂, h = h₁ ++ v :: h₂ ∧ v.1.state.records taskId = some task := by
  obtain ⟨h₁, v, h₂, rfl, hexchange⟩ := Machine.exists_of_mem_transcript hread
  obtain ⟨ch, w, -, hanswer⟩ := Machine.answer_of_exchange hexchange
  exact ⟨h₁, v, h₂, rfl, (read_of_answer hanswer).1.symm⟩

variable (agent settings) in
/-- How an approval has got into the table: `submit_approval` has recorded it for its task,
after the plan was exposed; or on a record whose message was on no queue. -/
def Submitted (h : List (TaskConfig × TaskAction)) (row : ApprovalRow) (plan : ActionPlan) : Prop :=
  ∃ h₁ v h₂ c' j ch request task k, h = h₁ ++ v :: h₂ ∧ v.2 = .call j ch ∧
    v.1.pool j = .running (.submitApproval request) (.call (.ledger (.recordApproval row.taskId
      row.merchantId row.planId row.planVersion row.actionId row.decision)) k) ∧
    (taskMachine settings agent.orchestrator).step v.2 v.1 = some c' ∧
    row ∉ v.1.state.ledger.approvals ∧ row ∈ c'.state.ledger.approvals ∧
    request.taskId = row.taskId ∧ request.planId = row.planId ∧ request.decision = row.decision ∧
    (⟨.getTask .submitApproval row.taskId, .ok (some task)⟩ : TaskExchange) ∈
      agent.transcripts settings h₁ j ∧
    task.merchantId = row.merchantId ∧
    ((∃ u ∈ h₁, Exposed row.taskId plan u.1.state) ∨
      task.status = .failed ∧ task.errorCode = some "QUEUE_PUBLISH_FAILED")

/-- A new approval is recorded by the step. -/
theorem approval_of_writes {lc : LedgerCall} {db db' : Ledger} (hwrites : Writes lc db db')
    (hrow : row ∈ db'.approvals) : row ∈ db.approvals ∨ lc = .recordApproval row.taskId
      row.merchantId row.planId row.planVersion row.actionId row.decision := by
  cases hwrites with
  | approval mem insert =>
      rcases (Table.mem_of_insert? insert).1 hrow with hold | rfl
      · exact .inl hold
      · exact .inr rfl
  | _ => exact .inl hrow

theorem recorded_of_run
    (run : (taskMachine settings agent.orchestrator).Run deployed (.initial World.fresh) h c)
    (hrow : row ∈ c.state.ledger.approvals) (hplan : plan ∈ c.state.ledger.plans)
    (hown : plan.taskId = row.taskId) : Submitted agent settings h row plan := by
  obtain ⟨h₁, v, h₂, c', rfl, step, hbefore, hafter⟩ :=
    run.becomes (P := fun w => row ∈ w.ledger.approvals) Table.not_mem_empty hrow
  obtain ⟨run₁, -, -⟩ := run.before rfl
  obtain ⟨c₁, a⟩ := v
  rcases writes_of_step step with hsame | ⟨j, ch, q, cl, k, lc, rfl, hslot, hlc, hwrites⟩
  · exact absurd (hsame ▸ hafter) hbefore
  rcases approval_of_writes hwrites hafter with hold | rfl
  · exact absurd hold hbefore
  cases cl with
  | ledger lc' =>
      cases hlc
      obtain ⟨request, task, rfl, hread, happrovable, htaskId, hmerchant, hplanId, -, -,
        hdecision⟩ := (consentingSound.run trivial run₁).guarantee hslot
      obtain ⟨g₁, u, g₂, rfl, htask⟩ := visited_of_read hread
      obtain ⟨run₂, -, -⟩ := run₁.before rfl
      have hid : task.taskId = request.taskId :=
        (vetted_run run₂).inv.keyed request.taskId task htask
      have hrequest : request.taskId = row.taskId := hid.symm.trans htaskId.symm
      rw [hrequest] at hread htask
      refine ⟨_, _, h₂, c', j, ch, request, task, k, rfl, rfl, hslot, step, hbefore, hafter,
        hrequest, hplanId.symm, hdecision.symm, hread, hmerchant.symm, ?_⟩
      rcases happrovable with hawaiting | hfailed
      · have run' : (taskMachine settings agent.orchestrator).Run deployed (.initial World.fresh)
            (g₁ ++ u :: (g₂ ++ (c₁, .call j ch) :: h₂)) c := by simpa using run
        exact .inl ⟨u, by simp, task, htask, hawaiting,
          shown_of_visited run' hplan hown htask hawaiting⟩
      · exact .inr hfailed
  | graph threadId lc' =>
      cases hlc
      obtain ⟨payload, checkpoint, -, hgraph⟩ := graphStep_of_run run₁ hslot step
      exact hgraph.step.elim
  | _ => cases hlc

/-- The description of the product of the plan is replaced, and no other row. -/
structure Written (plan : ActionPlan) (products products' : Table ProductRow productKeys) :
    Prop where
  replaced : ∃ p ∈ products, p.merchantId = plan.merchantId ∧ p.productId = plan.productId ∧
    p.patched plan (p.version + 1) ∈ products'
  only : ∀ p ∈ products', p ∈ products ∨ p.merchantId = plan.merchantId ∧
    p.productId = plan.productId ∧ p.description = plan.afterValue

/-- A step of the repository that changes products applies an approved plan. -/
theorem written_of_writes {approvalId : String} {db db' : Ledger}
    (hwrites : Writes (.applyApprovedPlan approvalId) db db')
    (hchanged : db'.products ≠ db.products) :
    ∃ row ∈ db.approvals, ∃ plan ∈ db.plans, row.approvalId = approvalId ∧
      row.decision = .approve ∧ row.planId = plan.planId ∧
        Written plan db.products db'.products := by
  cases hwrites with
  | nothing => exact absurd rfl hchanged
  | @receipt approval plan product receiptId _ receipts happroval happroved hplan hid hunapplied
      hproduct hmerchant hproductId hversion hfield hinsert =>
      refine ⟨approval, happroval, plan, hplan, rfl, happroved, hid.symm, ?_, ?_⟩
      · refine ⟨product, hproduct, hmerchant, hproductId, ?_⟩
        exact mem_updateProduct.2
          ⟨product, hproduct, .inl ⟨hmerchant, hproductId, hversion, by rw [hversion]⟩⟩
      · intro p hp
        obtain ⟨p', hp', ⟨hmerchant', hid', -, rfl⟩ | ⟨-, rfl⟩⟩ := mem_updateProduct.1 hp
        · exact .inr ⟨hmerchant', hid', rfl⟩
        · exact .inl hp'

/-- An approval that the graph of a task asks for is one of the task, and the handler has
it from a message of kind `approval`. -/
theorem consumed_of_step
    (run : (taskMachine settings agent.orchestrator).Run deployed (.initial World.fresh) h c)
    {i : ℕ} {ch : TaskChoice} {q : TaskRequest} {approvalId : String} {lc : LedgerCall}
    {k : Except Exn lc.Reply → TaskProgram TaskResult}
    (hlc : lc = .getApproval approvalId ∨ lc = .applyApprovedPlan approvalId)
    (hslot : c.pool i = .running q (.call (.graph taskId lc) k))
    (step : (taskMachine settings agent.orchestrator).step (.call i ch) c = some c') :
    ∃ payload, ∃ row ∈ c.state.ledger.approvals, q = .handleMessage (.ok payload) ∧
      payload.taskId = taskId ∧ payload.resumeKind = some .approval ∧
        row.approvalId = approvalId ∧ row.taskId = taskId := by
  obtain ⟨payload, checkpoint, rfl, hgraph⟩ := graphStep_of_run run hslot step
  have hnext : checkpoint.next = some .approval := by
    rcases hlc with rfl | rfl
    · exact hgraph.step
    · exact hgraph.step.1
  obtain ⟨hkind, howned⟩ := hgraph.consumes hnext approvalId hlc
  obtain ⟨row, hrow, hid, htask⟩ := Ledger.mem_of_taskOf howned
  exact ⟨payload, row, hrow, rfl, hgraph.own.symm, hkind, hid, htask.trans hgraph.own.symm⟩

/-- While the lease of its task is kept, a plan has the scope of the graph that works on it. -/
theorem scoped_of_step
    (run : (taskMachine settings agent.orchestrator).Run deployed (.initial World.fresh) h c)
    (hkept : LeasesKept taskId h) {i : ℕ} {ch : TaskChoice} {q : TaskRequest} {lc : LedgerCall}
    {k : Except Exn lc.Reply → TaskProgram TaskResult}
    (hslot : c.pool i = .running q (.call (.graph taskId lc) k))
    (step : (taskMachine settings agent.orchestrator).step (.call i ch) c = some c')
    (hplan : plan ∈ c.state.ledger.plans) (hown : plan.taskId = taskId) :
    ∃ checkpoint, currentCheckpoint (agent.transcripts settings h i) = some checkpoint ∧
      checkpoint.state.merchantId = plan.merchantId ∧
        checkpoint.state.productId = some plan.productId := by
  obtain ⟨payload, checkpoint, rfl, hgraph⟩ := graphStep_of_run run hslot step
  have hstored := stored_of_run run hkept ⟨_, .graph taskId lc, k, hslot⟩
    (hgraph.own ▸ hgraph.working.leased) hgraph.working.work
  obtain ⟨checkpoint', hstored', hmerchant, hproduct, -⟩ :=
    plannedAt_of_run run (hown ▸ hkept) hplan
  rw [hown, hstored, Option.some.injEq] at hstored'
  subst hstored'
  refine ⟨checkpoint, currentCheckpoint_of_openWork hgraph.working.work, hmerchant, ?_⟩
  unfold requireProductId at hproduct
  split at hproduct
  · next productId hsome =>
      split at hproduct
      · cases hproduct
      · cases hproduct
        exact hsome
  · cases hproduct

/-- What the merchant has seen is what is written. A graph changes products by the plan of
its task alone, after `submit_approval` has recorded its approval for the task; what the
record of the task shows while it waits is this plan, at any time. -/
theorem written_as_seen
    (run : (taskMachine settings agent.orchestrator).Run deployed (.initial World.fresh) h c) :
    (∀ h₁ c₁ i ch h₂ c₂ q taskId approvalId k, h = h₁ ++ (c₁, .call i ch) :: h₂ →
      c₁.pool i = .running q (.call (.graph taskId (.applyApprovedPlan approvalId)) k) →
      (taskMachine settings agent.orchestrator).step (.call i ch) c₁ = some c₂ →
      c₂.state.ledger.products ≠ c₁.state.ledger.products →
      ∃ row ∈ c₁.state.ledger.approvals, ∃ plan ∈ c₁.state.ledger.plans,
        row.approvalId = approvalId ∧ row.taskId = taskId ∧ row.decision = .approve ∧
        Submitted agent settings h₁ row plan ∧
        row.planId = plan.planId ∧ plan.taskId = taskId ∧ plan.merchantId = row.merchantId ∧
        (LeasesKept taskId h₁ → ∃ checkpoint,
          currentCheckpoint (agent.transcripts settings h₁ i) = some checkpoint ∧
            checkpoint.state.merchantId = plan.merchantId ∧
              checkpoint.state.productId = some plan.productId) ∧
        Written plan c₁.state.ledger.products c₂.state.ledger.products ∧
        ∀ w, (∃ v ∈ h, w = v.1.state) ∨ w = c.state →
          ∀ task, w.records taskId = some task → task.status = .awaitingApproval →
            task.interaction = some plan.interaction) ∧
    ∀ h₁ c₁ i ch h₂ q taskId approvalId lc k, h = h₁ ++ (c₁, .call i ch) :: h₂ →
      c₁.pool i = .running q (.call (.graph taskId lc) k) →
      lc = .getApproval approvalId ∨ lc = .applyApprovedPlan approvalId →
      ∃ payload, ∃ row ∈ c₁.state.ledger.approvals, q = .handleMessage (.ok payload) ∧
        payload.taskId = taskId ∧ payload.resumeKind = some .approval ∧
          row.approvalId = approvalId ∧ row.taskId = taskId := by
  constructor
  · rintro h₁ c₁ i ch h₂ c₂ q taskId approvalId k rfl hslot step hchanged
    obtain ⟨run₁, -, -⟩ := run.before rfl
    obtain ⟨payload, row, hrow, -, -, -, hid, htask⟩ :=
      consumed_of_step run₁ (.inr rfl) hslot step
    have hwrites : Writes (.applyApprovedPlan approvalId) c₁.state.ledger c₂.state.ledger := by
      obtain ⟨q', cl, k', r, w, hslot', hanswer, rfl⟩ := Machine.step_call _ step
      rw [hslot, Slot.running.injEq, Program.call.injEq] at hslot'
      obtain ⟨-, rfl, -⟩ := hslot'
      rcases writes_of_answer hanswer with hsame | ⟨lc, hlc, hwrites⟩
      · exact absurd (congrArg Ledger.products hsame) hchanged
      · cases hlc
        exact hwrites
    obtain ⟨row', hrow', plan, hplan, hid', hdecision, hplanId, hwritten⟩ :=
      written_of_writes hwrites hchanged
    obtain rfl := eq_of_approvalId hrow hrow' (hid.trans hid'.symm)
    have happroves := (ledger_invariant run₁).approves_of_planId hrow hplan hplanId.symm
    have hown : plan.taskId = taskId := happroves.taskId.symm.trans htask
    have hgrows : c₁.state.ledger.Grows c.state.ledger :=
      run.related (r := fun w w' => w.ledger.Grows w'.ledger)
        (fun a c c' step => ledger_grows_of_step step) (c₁, .call i ch) (by simp)
    refine ⟨row, hrow, plan, hplan, hid, htask, hdecision,
      recorded_of_run run₁ hrow hplan happroves.taskId.symm, hplanId, hown,
      happroves.merchantId.symm, fun hkept => scoped_of_step run₁ hkept hslot step hplan hown,
      hwritten, ?_⟩
    rintro w (⟨v, hv, rfl⟩ | rfl) task htask hstatus
    · obtain ⟨g₁, g₂, hsplit⟩ := List.append_of_mem hv
      rw [hsplit] at run
      exact shown_of_visited run (hgrows.plans plan hplan) hown htask hstatus
    · obtain ⟨plan', hplan', hown', hshown⟩ := shown_of_run run htask hstatus
      rw [hshown, eq_of_planTask hplan' (hgrows.plans plan hplan) (hown'.trans hown.symm)]
  · rintro h₁ c₁ i ch h₂ q taskId approvalId lc k rfl hslot hlc
    obtain ⟨run₁, -, c₂, step, -⟩ := run.before rfl
    exact consumed_of_step run₁ hlc hslot step

end Run

section Demo

/-- The approval that a process is about to apply, and the task of its graph. -/
def applyingApproval (c : TaskConfig) (i : ℕ) : Option (String × String) :=
  match c.pool i with
  | .running _ (.call (.graph taskId (.applyApprovedPlan approvalId)) _) =>
      some (taskId, approvalId)
  | _ => none

theorem exists_of_applyingApproval {c : TaskConfig} {i : ℕ} {taskId approvalId : String}
    (h : applyingApproval c i = some (taskId, approvalId)) :
    ∃ q k, c.pool i = .running q (.call (.graph taskId (.applyApprovedPlan approvalId)) k) := by
  unfold applyingApproval at h
  split at h
  · next q taskId' approvalId' k hslot =>
      cases h
      exact ⟨q, k, hslot⟩
  · cases h

/-- The descriptions of the products. -/
def Ledger.descriptions (db : Ledger) : List (String × String) :=
  db.products.rows.map fun p => (p.productId, p.description)

/-- The approved plan is resumed, up to the step that applies it. -/
def demoResumption (i : ℕ) : List TaskAction :=
  .start i (.handleMessage (.ok demoApprovalMessage)) :: List.replicate 7 (.call i {})

/-- What comes of the actions and of one more step of a process: the approval that it
applies, and the descriptions before and after. -/
def demoApplication (M : TaskMachine) (actions : List TaskAction) (i : ℕ) :
    Option (Option (String × String) × List (String × String) × List (String × String)) :=
  (M.exec deployed actions (.initial .fresh)).bind fun c =>
    (M.step (.call i {}) c).map fun c' => (applyingApproval c i, c.state.ledger.descriptions,
      c'.state.ledger.descriptions)

theorem exists_of_demoApplication {M : TaskMachine} {actions : List TaskAction} {i : ℕ}
    {taskId approvalId : String} {before after : List (String × String)}
    (h : demoApplication M actions i = some (some (taskId, approvalId), before, after)) :
    ∃ c c' q k, M.exec deployed actions (.initial .fresh) = some c ∧
      c.pool i = .running q (.call (.graph taskId (.applyApprovedPlan approvalId)) k) ∧
      M.step (.call i {}) c = some c' ∧ c.state.ledger.descriptions = before ∧
      c'.state.ledger.descriptions = after := by
  obtain ⟨c, hc, hstep⟩ := Option.bind_eq_some_iff.1 h
  obtain ⟨c', hstep, hresults⟩ := Option.map_eq_some_iff.1 hstep
  simp only [Prod.mk.injEq] at hresults
  obtain ⟨happlying, hbefore, hafter⟩ := hresults
  obtain ⟨q, k, hslot⟩ := exists_of_applyingApproval happlying
  exact ⟨c, c', q, k, hc, hslot, hstep, hbefore, hafter⟩

theorem permits_deployed_graph {c : TaskConfig} {i : ℕ} (ch : TaskChoice) {q : TaskRequest}
    {threadId : String} {lc : LedgerCall} {k : Except Exn lc.Reply → TaskProgram TaskResult}
    (hslot : c.pool i = .running q (.call (.graph threadId lc) k)) :
    deployed.permits c (.call i ch) := by
  simp [Policy.permits, hslot, deployed]

/-- A plan is made, approved and about to be applied. -/
def demoConsentActions : List TaskAction :=
  demoPlanActions ++ .start 3 (.submitApproval demoApproval) ::
    List.replicate 5 (.call 3 { token := "approval-1" }) ++ demoResumption 4

theorem written_as_seen_demo : ∃ h c c' i ch q k checkpoint plan,
    (taskMachine demoSettings demoAgent.orchestrator).Run deployed (.initial .fresh)
      (h ++ [(c, .call i ch)]) c' ∧
    c.pool i = .running q (.call (.graph "task-1" (.applyApprovedPlan "approval-1")) k) ∧
    c'.state.ledger.products ≠ c.state.ledger.products ∧
    currentCheckpoint (demoAgent.transcripts demoSettings h i) = some checkpoint ∧
    checkpoint.state.productId = some plan.productId ∧
    Written plan c.state.ledger.products c'.state.ledger.products := by
  have hend : demoApplication (taskMachine demoSettings demoAgent.orchestrator)
      demoConsentActions 4 = some (some ("task-1", "approval-1"),
        (seedSync demoCatalog .fresh).descriptions,
        [(demoProductId, "New text."),
          (secondProductId, "Compact speaker for travel and outdoor use.")]) := by decide
  obtain ⟨c, c', q, k, hc, hslot, step, hbefore, hafter⟩ := exists_of_demoApplication hend
  have run := Machine.Run.follow .nil hc
  have hkept : LeasesKept "task-1" _ :=
    leasesKept_of_unexpired (Machine.trail_actions hc) (by decide)
  have hchanged : c'.state.ledger.products ≠ c.state.ledger.products := by
    intro heq
    rw [Ledger.descriptions, heq] at hafter
    exact absurd (hbefore.symm.trans hafter) (by decide)
  have run' := run.snoc (permits_deployed_graph {} hslot) step
  obtain ⟨row, -, plan, -, -, -, -, -, -, -, -, hscope, hwritten, -⟩ :=
    (written_as_seen run').1 _ c 4 {} [] c' q "task-1" "approval-1" k rfl hslot step hchanged
  obtain ⟨checkpoint, hcurrent, -, hproduct⟩ := hscope hkept
  exact ⟨_, c, c', 4, {}, q, k, checkpoint, plan, run', hslot, hchanged, hcurrent, hproduct,
    hwritten⟩

/-- `resolve_product` with a sort that can be evaluated. -/
def resolveProductByInsertion (text : TextOps) (merchantId query : String) (db : Ledger) :
    Except Exn (List ProductSummary) :=
  let rows := (db.products.rows.filter fun row => row.merchantId == merchantId).insertionSort
    fun p q => p.productId ≤ q.productId
  if rows = [] then
    .error (.appError "MERCHANT_NOT_FOUND" "商家不存在或无可访问商品" 404)
  else
    let normalized := text.lower (text.strip query)
    let hits := rows.filter fun row => normalized != "" &&
      (occursIn normalized (text.lower row.productId) || occursIn normalized (text.lower row.name))
    .ok ((if hits = [] then rows else hits).map ProductRow.summary)

theorem resolveProductByInsertion_eq : resolveProductByInsertion = resolveProductSync := by
  funext text merchantId query db
  have hsort : (db.products.rows.filter fun row => row.merchantId == merchantId).insertionSort
      (fun p q => p.productId ≤ q.productId) = merchantProducts merchantId db := by
    have : Std.Total fun p q : ProductRow => p.productId ≤ q.productId :=
      ⟨fun p q => le_total p.productId q.productId⟩
    have : IsTrans ProductRow fun p q => p.productId ≤ q.productId := ⟨fun _ _ _ => le_trans⟩
    refine List.Perm.eq_of_pairwise ?_ (List.pairwise_insertionSort _ _)
      (merchantProducts_ordered.imp le_of_lt)
      ((List.perm_insertionSort _ _).trans (List.mergeSort_perm _ _).symm)
    intro p q hp hq hle hge
    rw [List.mem_insertionSort, List.mem_filter] at hp
    exact eq_of_productId hp.1 (mem_merchantProducts.1 hq).1 (le_antisymm hle hge)
  rw [resolveProductByInsertion, hsort]
  rfl

/-- The machine with `resolve_product` evaluated so. -/
def evalMachine (settings : Settings) (orchestrator : Orchestrator) : TaskMachine :=
  { taskMachine settings orchestrator with
    answer := fun i c ch w =>
      match c with
      | .resolveProduct merchantId query => some (ch.ending.answer
          ((resolveProductByInsertion settings.text merchantId query w.ledger).map
            fun items => (items, w)) w)
      | c => some (ch.ending.answer (c.execute settings i ch w) w) }

theorem evalMachine_eq : evalMachine = taskMachine := by
  funext settings orchestrator
  rw [evalMachine, taskMachine]
  congr 1
  funext i c ch w
  rw [resolveProductByInsertion_eq]
  cases c <;> rfl

def demoOpenSettings : Settings := { demoSettings with text := textOps .basicLatin }

/-- A task whose product the merchant has to choose. -/
def demoOpenRequest : CreateTask := { demoRequest with productId := none }

/-- The message that resumes the task with a product. -/
def demoInputMessage (productId : String) : QueueMessage :=
  { demoMessage with resumeKind := some .input, resumeId := some productId }

/-- What a handler is answered from the scope to the approval of a plan. -/
def demoPlanChoice : TaskChoice where
  token := "plan-1"
  turn := demoPatchTurn
  metrics := ⟨"", "paid_orders_funnel_v1", ["doc-1"], .null⟩

/-- The merchant chooses a product, and a handler resumes the scope node with it, up to the
commit. -/
def demoChoose (i : ℕ) (productId : String) : List TaskAction :=
  .start i (.submitInput "task-1" demoMerchantId productId) :: List.replicate 5 (.call i {}) ++
    .start (i + 1) (.handleMessage (.ok (demoInputMessage productId))) ::
      List.replicate 9 (.call (i + 1) {})

/-- Two handlers of the first message overlap; the second one asks for the product, which is
given, and its handler is stalled before it commits the scope. The first handler asks again,
another product is given and its plan is made. The stalled handler then goes on. -/
def demoRivalActions : List TaskAction :=
  [.start 0 (.createTask demoOpenRequest), .call 0 {}, .call 0 {}, .call 0 {},
    .start 1 (.ledger .initializeSync), .call 1 {},
    .start 2 (.handleMessage (.ok demoMessage)), .call 2 {}, .call 2 {},
    .environment (.expireLease "task-1"), .environment (.redeliver 2),
    .start 3 (.handleMessage (.ok demoMessage))] ++ List.replicate 13 (.call 3 {}) ++
  demoChoose 4 demoProductId ++ .environment (.expireLease "task-1") ::
    List.replicate 7 (.call 2 {}) ++ demoChoose 6 secondProductId ++
  List.replicate 24 (.call 7 demoPlanChoice) ++ List.replicate 22 (.call 5 demoPlanChoice) ++
  .start 8 (.submitApproval demoApproval) :: List.replicate 5 (.call 8 { token := "approval-1" }) ++
  demoResumption 9

/-- The outcome of the run that makes the plan is not stored and its retry is on no queue.
The plan is approved all the same. -/
def demoUnseenActions : List TaskAction :=
  demoStartActions ++ demoCallActions ++ demoPatchActions ++ List.replicate 8 (.call 2 {}) ++
  .call 2 { token := "plan-1" } :: List.replicate 3 (.call 2 {}) ++
  [.call 2 { ending := .lost .timeoutError }, .call 2 {}, .call 2 {},
    .call 2 { ending := .lost .timeoutError }] ++ List.replicate 4 (.call 2 {}) ++
  .start 3 (.submitApproval demoApproval) :: List.replicate 6 (.call 3 { token := "approval-1" }) ++
  demoResumption 4

/-- A plan for another product than the one in the scope of the graph is applied when two
runs of a task overlap; and a plan that no record has shown, when its identifier is given. -/
theorem written_otherwise :
    (∃ h c c' q k checkpoint p,
      (taskMachine demoOpenSettings demoAgent.orchestrator).Run deployed (.initial .fresh)
        (h ++ [(c, .call 9 {})]) c' ∧
      c.pool 9 = .running q (.call (.graph "task-1" (.applyApprovedPlan "approval-1")) k) ∧
      currentCheckpoint (demoAgent.transcripts demoOpenSettings h 9) = some checkpoint ∧
      checkpoint.state.productId = some demoProductId ∧ p ∈ c'.state.ledger.products ∧
      p ∉ c.state.ledger.products ∧ p.productId = secondProductId) ∧
    ∃ h c c' q k,
      (taskMachine demoSettings demoAgent.orchestrator).Run deployed (.initial .fresh)
        (h ++ [(c, .call 4 {})]) c' ∧
      c.pool 4 = .running q (.call (.graph "task-1" (.applyApprovedPlan "approval-1")) k) ∧
      c'.state.ledger.products ≠ c.state.ledger.products ∧
      ∀ w, (∃ v ∈ h, w = v.1.state) ∨ w = c.state → ∀ task, w.records "task-1" = some task →
        task.status ≠ .awaitingApproval := by
  constructor
  · have hend : demoApplication (evalMachine demoOpenSettings demoAgent.orchestrator)
        demoRivalActions 9 = some (some ("task-1", "approval-1"),
          (seedSync demoCatalog .fresh).descriptions,
          [(demoProductId, "Lightweight wireless headphones with active noise cancellation."),
            (secondProductId, "New text.")]) := by decide +kernel
    have hscope : (currentCheckpoint ((evalMachine demoOpenSettings
        demoAgent.orchestrator).transcript 9 ((evalMachine demoOpenSettings
          demoAgent.orchestrator).trail demoRivalActions (.initial .fresh)))).map
            (fun checkpoint => checkpoint.state.productId) = some (some demoProductId) := by
      decide +kernel
    rw [evalMachine_eq] at hend hscope
    obtain ⟨c, c', q, k, hc, hslot, step, hbefore, hafter⟩ := exists_of_demoApplication hend
    obtain ⟨checkpoint, hcurrent, hproduct⟩ := Option.map_eq_some_iff.1 hscope
    have run := Machine.Run.follow .nil hc
    obtain ⟨p, hp, hdescription⟩ : ∃ p ∈ c'.state.ledger.products.rows,
        (p.productId, p.description) = (secondProductId, "New text.") := by
      apply List.mem_map.1
      change (secondProductId, "New text.") ∈ c'.state.ledger.descriptions
      rw [hafter]
      simp
    refine ⟨_, c, c', q, k, checkpoint, p, run.snoc (permits_deployed_graph {} hslot) step, hslot,
      hcurrent, hproduct, hp, fun hold => ?_, congrArg Prod.fst hdescription⟩
    have hmem : (secondProductId, "New text.") ∈ c.state.ledger.descriptions :=
      hdescription ▸ List.mem_map_of_mem (f := fun p : ProductRow => (p.productId, p.description))
        hold
    rw [hbefore] at hmem
    exact absurd hmem (by decide)
  · have hend : demoApplication (taskMachine demoSettings demoAgent.orchestrator)
        demoUnseenActions 4 = some (some ("task-1", "approval-1"),
          (seedSync demoCatalog .fresh).descriptions,
          [(demoProductId, "New text."),
            (secondProductId, "Compact speaker for travel and outdoor use.")]) := by decide
    have hunseen : ((taskMachine demoSettings demoAgent.orchestrator).trail demoUnseenActions
        (.initial .fresh)).all (fun v => (v.1.state.records "task-1").map TaskRecord.status !=
          some .awaitingApproval) = true := by decide
    have hrunning : ((taskMachine demoSettings demoAgent.orchestrator).exec deployed
        demoUnseenActions (.initial .fresh)).map (fun c =>
          (c.state.records "task-1").map TaskRecord.status) = some (some .running) := by decide
    obtain ⟨c, c', q, k, hc, hslot, step, hbefore, hafter⟩ := exists_of_demoApplication hend
    have run := Machine.Run.follow .nil hc
    refine ⟨_, c, c', q, k, run.snoc (permits_deployed_graph {} hslot) step, hslot, ?_, ?_⟩
    · intro heq
      rw [Ledger.descriptions, heq] at hafter
      exact absurd (hbefore.symm.trans hafter) (by decide)
    · rintro w (⟨v, hv, rfl⟩ | rfl) task htask hstatus
      · have hshown := List.all_eq_true.1 hunseen v hv
        simp [htask, hstatus] at hshown
      · rw [hc] at hrunning
        simp [htask, hstatus] at hrunning

end Demo

end CommerceAgent
