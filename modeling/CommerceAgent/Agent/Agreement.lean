import CommerceAgent.Agent.Planning

/-!
# The record and the ledger of a task

The status of a record comes from the graph, the receipt from the database. While its
lease is kept, the stored checkpoint of a task is replaced by what its next node has
returned and by nothing else, `checkpoint_of_step`. A task that has a plan is therefore at
the plan node with a patch, or beyond it, and a graph that ends from there ends with a
decision.
-/

namespace CommerceAgent

open Effects Relational

namespace AgentSettings

variable {agent : AgentSettings} {H : Set TaskExchange} {plan : ActionPlan}
  {checkpoint : Checkpoint} {node : GraphNode} {result : NodeResult}

/-- The graph is where the plan is made, or beyond. -/
inductive PlanStage (checkpoint : Checkpoint) : Prop
  | planning {diagnosis : Diagnosis} {patch : ProductPatch} (hnext : checkpoint.next = some .plan)
      (hdiagnosis : checkpoint.state.diagnosis = some (.ok diagnosis))
      (hpatch : diagnosis.proposedPatch = some patch)
  | deciding (hnext : checkpoint.next = some .approval)
  | decided (hnext : checkpoint.next = none) (hinteraction : checkpoint.state.interaction ≠ none)

/-- The plan is of the scope of the graph, which has got to it. -/
structure PlannedAt (plan : ActionPlan) (checkpoint : Checkpoint) : Prop where
  merchantId : checkpoint.state.merchantId = plan.merchantId
  productId : requireProductId checkpoint.state = .ok plan.productId
  stage : PlanStage checkpoint

/-- What the next node returns keeps to the plan. -/
theorem PlannedAt.commit (h : PlannedAt plan checkpoint) (hnext : checkpoint.next = some node)
    (hresult : agent.Returns H checkpoint.state node result) :
    PlannedAt plan (checkpoint.commit node result) := by
  obtain ⟨hmerchant, hproduct, hstage⟩ := h
  cases hstage with
  | planning hplan hdiagnosis hpatch =>
      obtain rfl : node = .plan := Option.some.inj (hnext.symm.trans hplan)
      cases hresult with
      | concluded hdiagnosis' hnone =>
          rw [hdiagnosis] at hdiagnosis'
          cases hdiagnosis'
          rw [hpatch] at hnone
          cases hnone
      | planned hdiagnosis' hpatch' hproduct' hcreated =>
          exact ⟨hmerchant, hproduct, .deciding rfl⟩
  | deciding happroval =>
      obtain rfl : node = .approval := Option.some.inj (hnext.symm.trans happroval)
      cases hresult with
      | shown h => exact ⟨hmerchant, hproduct, .deciding happroval⟩
      | rejected h hreplied hdecision => exact ⟨hmerchant, hproduct, .decided rfl h⟩
      | applied h hreplied hdecision hreceipt => exact ⟨hmerchant, hproduct, .decided rfl h⟩
  | decided hnone hinteraction => exact absurd (hnext.symm.trans hnone) nofun

end AgentSettings

section Run

variable {agent : AgentSettings} {settings : Settings} {h : List (TaskConfig × TaskAction)}
  {c c' : TaskConfig} {a : TaskAction} {taskId : String}

/-- While the lease of the task is kept, its stored checkpoint is replaced by what its next
node has returned. -/
theorem checkpoint_of_step
    (run : (taskMachine settings agent.orchestrator).Run deployed (.initial World.fresh) h c)
    (hkept : LeasesKept taskId h)
    (step : (taskMachine settings agent.orchestrator).step a c = some c')
    {checkpoint : Checkpoint} (hstored : c.state.checkpoints taskId = some checkpoint) :
    c'.state.checkpoints taskId = some checkpoint ∨
      ∃ node result, checkpoint.next = some node ∧
        agent.Returns (agent.transcripts settings (h ++ [(c, a)])).happened checkpoint.state node
          result ∧ c'.state.checkpoints taskId = some (checkpoint.commit node result) := by
  rw [checkpoints_of_step taskId step]
  cases hcommitted : committedTo taskId (c, a) with
  | none => exact .inl hstored
  | some v =>
      obtain ⟨i, new⟩ := v
      obtain ⟨ch, q, k, rfl, hslot⟩ := exists_of_committedTo hcommitted
      obtain ⟨hleased, hwork⟩ := allows_of_run run hslot
      obtain ⟨work, hwork⟩ := Option.ne_none_iff_exists'.1 hwork
      have hcurrent := currentCheckpoint_of_openWork hwork
      rw [← stored_of_run run hkept ⟨q, _, k, hslot⟩ hleased hwork, hstored] at hcurrent
      obtain ⟨r, -, hcommits⟩ := AgentSettings.graph_call
        (run.restrict fun v _ _ => Policy.permits_any v.1 v.2) step hslot
      rcases hcommits with ⟨hnone, -⟩ | ⟨current, node, result, hat, hnext, hresult, rfl⟩
      · exact absurd (hnone.symm.trans hcurrent) nofun
      · obtain rfl : checkpoint = current := Option.some.inj (hcurrent.symm.trans hat.1)
        exact .inr ⟨node, result, hnext, hresult, rfl⟩

/-- A new plan is inserted by the step. -/
theorem plan_of_writes {lc : LedgerCall} {db db' : Ledger} (hwrites : Writes lc db db')
    {plan : ActionPlan} (hplan : plan ∈ db'.plans) :
    plan ∈ db.plans ∨ lc = .insertPlan plan.toPlanContent := by
  cases hwrites with
  | plan insert =>
      rcases (Table.mem_of_insert? insert).1 hplan with hold | rfl
      · exact .inl hold
      · exact .inr rfl
  | _ => exact .inl hplan

theorem plan_of_step {orchestrator : Orchestrator}
    (step : (taskMachine settings orchestrator).step a c = some c') {plan : ActionPlan}
    (hplan : plan ∈ c'.state.ledger.plans) :
    plan ∈ c.state.ledger.plans ∨ ∃ i ch q cl k, a = .call i ch ∧
      c.pool i = .running q (.call cl k) ∧
        cl.ledgerCall = some (.insertPlan plan.toPlanContent) := by
  rcases writes_of_step step with hsame | ⟨i, ch, q, cl, k, lc, rfl, hslot, hlc, hwrites⟩
  · exact .inl (hsame ▸ hplan)
  · rcases plan_of_writes hwrites hplan with hold | rfl
    · exact .inl hold
    · exact .inr ⟨i, ch, q, cl, k, rfl, hslot, hlc⟩

/-- A plan is inserted at the stored checkpoint of its task, where it is made. -/
theorem plannedAt_of_insert
    (run : (taskMachine settings agent.orchestrator).Run deployed (.initial World.fresh) h c)
    {i : ℕ} {ch : TaskChoice} {q : TaskRequest} {cl : TaskCall}
    {k : Except Exn cl.Reply → TaskProgram TaskResult}
    (step : (taskMachine settings agent.orchestrator).step (.call i ch) c = some c')
    (hslot : c.pool i = .running q (.call cl k)) {plan : ActionPlan}
    (hkept : LeasesKept plan.taskId h)
    (hlc : cl.ledgerCall = some (.insertPlan plan.toPlanContent)) :
    ∃ checkpoint, c'.state.checkpoints plan.taskId = some checkpoint ∧
      AgentSettings.PlannedAt plan checkpoint := by
  cases cl with
  | ledger lc =>
      cases hlc
      exact absurd rfl ((allows_of_run run hslot).1 _)
  | graph threadId lc =>
      cases hlc
      obtain ⟨payload, checkpoint, -, hgraph⟩ := graphStep_of_run run hslot step
      obtain ⟨hnext, diagnosis, productId, patch, description, version, hdiagnosis, hpatch,
        hproduct, hcontent⟩ := hgraph.step
      have htask : plan.taskId = payload.taskId := by
        rw [hcontent]
        exact hgraph.working.own
      have hstored := stored_of_run run (htask ▸ hkept) ⟨q, _, k, hslot⟩ hgraph.working.leased
        hgraph.working.work
      refine ⟨checkpoint, ?_, ?_, ?_, .planning hnext hdiagnosis hpatch⟩
      · rw [checkpoints_of_step plan.taskId step, htask]
        simpa [committedTo, hslot] using hstored
      · rw [hcontent]
        rfl
      · rw [hcontent]
        exact hproduct
  | _ => cases hlc

/-- While the lease of its task is kept, the graph is where the plan was made, or beyond. -/
theorem plannedAt_of_run
    (run : (taskMachine settings agent.orchestrator).Run deployed (.initial World.fresh) h c)
    {plan : ActionPlan} (hkept : LeasesKept plan.taskId h)
    (hplan : plan ∈ c.state.ledger.plans) :
    ∃ checkpoint, c.state.checkpoints plan.taskId = some checkpoint ∧
      AgentSettings.PlannedAt plan checkpoint := by
  induction run with
  | nil => exact absurd hplan Table.not_mem_empty
  | @snoc h c c' a run permitted step ih =>
      have hpast := hkept.before
      rcases plan_of_step step hplan with hold | ⟨i, ch, q, cl, k, rfl, hslot, hlc⟩
      · obtain ⟨checkpoint, hstored, hplanned⟩ := ih hpast hold
        rcases checkpoint_of_step run hpast step hstored with
          hsame | ⟨node, result, hnext, hresult, hstored'⟩
        · exact ⟨checkpoint, hsame, hplanned⟩
        · exact ⟨_, hstored', hplanned.commit hnext hresult⟩
      · exact plannedAt_of_insert run step hslot hpast hlc

/-- Only a run at the end of the graph has the outcome of no interrupt. -/
theorem interrupt_of_outcome {checkpoint : Checkpoint}
    (h : checkpoint.outcome.status = .completed ∨ checkpoint.outcome.status = .rejected) :
    checkpoint.interrupt = none := by
  cases hinterrupt : checkpoint.interrupt with
  | none => rfl
  | some x =>
      unfold Checkpoint.outcome interruptedOutcome at h
      rw [hinterrupt] at h
      simp only at h
      split at h <;> simp at h

/-- A record that is completed or rejected has the final status of a graph at its end. -/
theorem EndedWith.concluded {H : Set TaskExchange} {task : TaskRecord} {checkpoint : Checkpoint}
    (h : EndedWith agent H taskId task checkpoint)
    (hstatus : task.status = .completed ∨ task.status = .rejected) :
    checkpoint.next = none ∧ AgentSettings.Concluded H checkpoint.state ∧
      ∃ final, checkpoint.state.finalStatus = some final ∧ task.status = final.taskStatus := by
  obtain ⟨⟨started, rfl⟩, hreach, hended⟩ := h
  have hinterrupt : checkpoint.interrupt = none := by
    apply interrupt_of_outcome
    cases houtcome : checkpoint.outcome.status <;>
      simp_all [TaskRecord.finished, RunStatus.taskStatus]
  have hnext : checkpoint.next = none := hended.resolve_right fun h => h hinterrupt
  have hconcluded := (hreach.concluded hnext).2
  refine ⟨hnext, hconcluded, ?_⟩
  have hfinal : ∃ final, checkpoint.state.finalStatus = some final := by
    cases hconcluded with
    | planless _ h | rejected _ h | applied _ h => exact ⟨_, h⟩
  obtain ⟨final, hfinal⟩ := hfinal
  refine ⟨final, hfinal, ?_⟩
  simp [TaskRecord.finished, Checkpoint.outcome, hinterrupt, hfinal]

/-- While its lease is kept, a task is completed with the graph at its end. -/
theorem completed_of_run
    (run : (taskMachine settings agent.orchestrator).Run deployed (.initial World.fresh) h c)
    (hkept : LeasesKept taskId h) {task : TaskRecord} (htask : c.state.records taskId = some task)
    (hstatus : task.status = .completed) :
    ∃ checkpoint, c.state.checkpoints taskId = some checkpoint ∧ checkpoint.next = none ∧
      EndedWith agent (agent.transcripts settings h).happened taskId task checkpoint := by
  induction run with
  | nil => cases htask
  | @snoc h c c' a run permitted step ih =>
      have hpast := hkept.before
      rcases record_of_step step htask with hold | ⟨i, ch, q, cl, k, rfl, hslot, hwritten, rfl⟩
      · obtain ⟨checkpoint, hstored, hnext, hfinished, hreach, hended⟩ := ih hpast hold
        rcases checkpoint_of_step run hpast step hstored with
          hsame | ⟨node, result, hnode, -, -⟩
        · exact ⟨checkpoint, hsame, hnext, hfinished, hreach.mono (happened_snoc _), hended⟩
        · exact absurd (hnext.symm.trans hnode) nofun
      · obtain ⟨checkpoint, hleased, hwork, hended⟩ :=
          endedWith_of_written run hslot step hwritten (by simp [hstatus, transientStatuses])
        have hstored := stored_of_run run hpast ⟨q, _, k, hslot⟩ hleased hwork
        refine ⟨checkpoint, ?_, ?_, hended⟩
        · rw [checkpoints_of_step _ step]
          cases cl with
          | putCheckpoint => cases hwritten
          | _ => simpa [committedTo, hslot] using hstored
        · exact (hended.concluded (.inl hstatus)).1

/-- A rejected task has its rejection in the database, and no receipt. -/
theorem rejected_agrees
    (run : (taskMachine settings agent.orchestrator).Run deployed (.initial World.fresh) h c)
    {task : TaskRecord} (htask : c.state.records taskId = some task)
    (hstatus : task.status = .rejected) :
    (∃ row ∈ c.state.ledger.approvals, row.taskId = taskId ∧ row.decision = .reject) ∧
      ∀ receipt ∈ c.state.ledger.receipts, ∃ plan ∈ c.state.ledger.plans,
        receipt.idempotencyKey = idempotencyKey plan ∧ plan.taskId ≠ taskId := by
  obtain ⟨checkpoint, hended⟩ :=
    exists_endedWith run htask (by simp [hstatus, transientStatuses])
  obtain ⟨-, hconcluded, final, hfinal, htaken⟩ := hended.concluded (.inr hstatus)
  rw [hstatus] at htaken
  cases hconcluded with
  | planless hinteraction h | applied hinteraction h =>
      rw [hfinal, Option.some.injEq] at h
      rw [h] at htaken
      cases htaken
  | rejected hinteraction h hreplied hdecision =>
      rw [hended.reach.taskId] at hreplied
      obtain ⟨hrow, hrowTask⟩ := mem_of_approvalRead run hreplied
      refine ⟨⟨_, hrow, hrowTask, hdecision⟩, fun receipt hreceipt => ?_⟩
      have hconsistent := (ledger_invariant run).consistent
      obtain ⟨plan, ⟨hplan, hkey⟩, -⟩ := hconsistent.receipt receipt hreceipt
      refine ⟨plan, hplan, hkey, ?_⟩
      rw [← hrowTask]
      exact hconsistent.rejected _ hrow hdecision receipt hreceipt plan hplan hkey

/-- While its lease is kept, a completed task that has a plan has its receipt. -/
theorem completed_agrees
    (run : (taskMachine settings agent.orchestrator).Run deployed (.initial World.fresh) h c)
    (hkept : LeasesKept taskId h) {task : TaskRecord} (htask : c.state.records taskId = some task)
    (hstatus : task.status = .completed) {plan : ActionPlan}
    (hplan : plan ∈ c.state.ledger.plans) (hown : plan.taskId = taskId) :
    ∃ receipt ∈ c.state.ledger.receipts, receipt.idempotencyKey = idempotencyKey plan := by
  obtain ⟨checkpoint, hstored, hnext, hended⟩ := completed_of_run run hkept htask hstatus
  obtain ⟨checkpoint', hstored', -, -, hstage⟩ := plannedAt_of_run run (hown ▸ hkept) hplan
  rw [hown, hstored, Option.some.injEq] at hstored'
  subst hstored'
  have hinteraction : checkpoint.state.interaction ≠ none := by
    cases hstage with
    | planning h | deciding h =>
        rw [hnext] at h
        cases h
    | decided _ h => exact h
  obtain ⟨-, hconcluded, final, hfinal, htaken⟩ := hended.concluded (.inl hstatus)
  rw [hstatus] at htaken
  cases hconcluded with
  | planless hnone => exact absurd hnone hinteraction
  | rejected _ h =>
      rw [hfinal, Option.some.injEq] at h
      rw [h] at htaken
      cases htaken
  | applied _ _ hreceipt =>
      rw [hended.reach.taskId] at hreceipt
      exact receipt_of_applied run hreceipt hplan hown

/-- The status that `run` falls back on is taken from no graph that has ended. -/
theorem finalStatus_of_saved
    (run : (taskMachine settings agent.orchestrator).Run deployed (.initial World.fresh) h c)
    {i : ℕ} {q : TaskRequest} {payload : QueueMessage} {task : TaskRecord}
    {k : Except Exn (TaskCall.saveTask (.outcome payload) task).Reply → TaskProgram TaskResult}
    (hslot : c.pool i = .running q (.call (.saveTask (.outcome payload) task) k)) :
    ∃ started checkpoint, task = TaskRecord.finished started (Checkpoint.outcome checkpoint) ∧
      currentCheckpoint (agent.transcripts settings h i) = some checkpoint ∧
        (checkpoint.interrupt = none → checkpoint.state.finalStatus ≠ none) := by
  obtain ⟨c', step⟩ : ∃ c', (taskMachine settings agent.orchestrator).step (.call i {}) c =
      some c' := by
    rw [Machine.step, hslot]
    exact ⟨_, rfl⟩
  obtain ⟨r, -, started, checkpoint, hfinished, hat, hended⟩ := AgentSettings.graph_call
    (run.restrict fun v _ _ => Policy.permits_any v.1 v.2) step hslot
  refine ⟨started, checkpoint, hfinished, hat.1, fun hinterrupt => ?_⟩
  have hnext : checkpoint.next = none := hended.resolve_right fun h => h hinterrupt
  cases (hat.2.concluded hnext).2 with
  | planless _ h | rejected _ h | applied _ h => simp [h]

/-- The record of a task agrees with the database: a rejected one has its rejection there
and no receipt, and a completed one that has a plan has its receipt, as long as the lease of
the task is kept. What a graph has ended with is never the default. -/
theorem record_agrees_with_ledger
    (run : (taskMachine settings agent.orchestrator).Run deployed (.initial World.fresh) h c) :
    (∀ taskId task, c.state.records taskId = some task → task.status = .rejected →
      (∃ row ∈ c.state.ledger.approvals, row.taskId = taskId ∧ row.decision = .reject) ∧
        ∀ receipt ∈ c.state.ledger.receipts, ∃ plan ∈ c.state.ledger.plans,
          receipt.idempotencyKey = idempotencyKey plan ∧ plan.taskId ≠ taskId) ∧
    (∀ taskId task, LeasesKept taskId h → c.state.records taskId = some task →
      task.status = .completed → ∀ plan ∈ c.state.ledger.plans, plan.taskId = taskId →
        ∃ receipt ∈ c.state.ledger.receipts, receipt.idempotencyKey = idempotencyKey plan) ∧
    ∀ i q payload task k,
      c.pool i = .running q (.call (.saveTask (.outcome payload) task) k) →
        ∃ started checkpoint, task = TaskRecord.finished started (Checkpoint.outcome checkpoint) ∧
          currentCheckpoint (agent.transcripts settings h i) = some checkpoint ∧
            (checkpoint.interrupt = none → checkpoint.state.finalStatus ≠ none) := by
  refine ⟨?_, ?_, ?_⟩
  · exact fun taskId task htask hstatus => rejected_agrees run htask hstatus
  · intro taskId task hkept htask hstatus plan hplan hown
    exact completed_agrees run hkept htask hstatus hplan hown
  · exact fun i q payload task k hslot => finalStatus_of_saved run hslot

end Run

section Demo

variable (w : World)

instance (i : ℕ) (c : TaskCall) (ch : TaskChoice) : Decidable (deployed.call i c ch w) :=
  match c with
  | .setNew task | .createScript task _ => inferInstanceAs (Decidable (':' ∉ task.taskId.toList))
  | .deleteKey _ | .getTask .. | .saveTask .. | .transitionTask .. | .acquireTaskLease ..
  | .releaseTaskLease _ | .hasTaskLease _ | .appendEvent .. | .publish _ | .publishRetry _ | .ack
  | .reject _ | .resolveProduct .. | .ledger _ | .run .. | .graph .. | .getCheckpoint _
  | .putCheckpoint .. | .complete .. | .getMetrics .. | .executeTool .. | .enterNode ..
  | .schedule => .isTrue trivial

instance (i : ℕ) (q : TaskRequest) : Decidable (deployed.start i q w) :=
  match q with
  | .ledger .initializeSync => .isTrue fun _ h => (TaskRequest.ledger.inj h).symm
  | .ledger (.createPlan ..) | .ledger (.recordApproval ..) | .ledger (.applyApprovedPlan _) =>
      .isFalse fun h => nomatch h _ rfl
  | .createTask _ | .submitInput .. | .submitApproval _ | .resumeTask .. | .handleMessage _ =>
      .isTrue nofun

instance (i : ℕ) : Decidable (deployed.crash i w) := .isTrue trivial

instance (e : TaskEnvironment) : Decidable (deployed.environment e w) := .isTrue trivial

end Demo

/-- Some lease expires. -/
def expiresLease : TaskAction → Bool
  | .environment (.expireLease _) => true
  | _ => false

theorem leasesKept_of_unexpired {taskId : String} {h : List (TaskConfig × TaskAction)}
    {actions : List TaskAction} (hactions : h.map Prod.snd = actions)
    (hall : actions.all (fun a => !expiresLease a) = true) : LeasesKept taskId h := by
  intro v hv i hexpired
  have hmem : v.2 ∈ actions := hactions ▸ List.mem_map_of_mem hv
  have hfalse := List.all_eq_true.1 hall v.2 hmem
  rw [hexpired] at hfalse
  cases hfalse

/-- What a handler does from the model's first turn to the approval of a plan. -/
def demoPlanning (i : ℕ) : List TaskAction :=
  .call i { turn := { toolCalls := [demoToolCall] } } :: List.replicate 4 (.call i {}) ++
    .call i { result := [("evidence_ids", .arr [.str "doc-1"])] } ::
      (List.replicate 3 (.call i {}) ++ .call i { turn := demoPatchTurn } ::
        (List.replicate 8 (.call i {}) ++ .call i { token := "plan-1" } ::
          List.replicate 8 (.call i {})))

/-- The turn that proposes nothing. -/
def demoPlainTurn : AssistantTurn where
  toolCalls :=
    [{ callId := "call-3"
       name := submitName
       arguments :=
        [("summary", .str "No cause found."),
         ("findings", .arr [.obj [("category", .str "content"), ("statement", .str "Unclear."),
            ("kind", .str "hypothesis")]]),
         ("actions", .arr [.str "Wait."])] }]

/-- The lease of a handler expires before the model's first turn; another handler takes
the message and makes a plan, and the first one ends without. -/
def demoOverlapActions : List TaskAction :=
  demoStartActions ++ .environment (.expireLease "task-1") :: .environment (.redeliver 2) ::
    .start 3 (.handleMessage (.ok demoMessage)) :: (List.replicate 6 (.call 3 {}) ++
      demoPlanning 3 ++ .call 2 { turn := demoPlainTurn } :: List.replicate 8 (.call 2 {}))

/-- A task is completed with a plan that nobody has decided on. -/
theorem completed_undecided : ∃ h c task plan,
    (taskMachine demoSettings demoAgent.orchestrator).Run deployed (.initial .fresh) h c ∧
      c.state.records "task-1" = some task ∧ task.status = .completed ∧
      plan ∈ c.state.ledger.plans ∧ plan.taskId = "task-1" ∧
      ∀ receipt, receipt ∉ c.state.ledger.receipts := by
  have hend : ((taskMachine demoSettings demoAgent.orchestrator).exec deployed demoOverlapActions
      (.initial .fresh)).bind (fun c => (c.state.records "task-1").map fun task =>
        (task.status, c.state.ledger.plans.rows.map (fun p => p.taskId),
          c.state.ledger.receipts.rows.length)) = some (.completed, ["task-1"], 0) := by decide
  obtain ⟨c, hc, hrecord⟩ := Option.bind_eq_some_iff.1 hend
  obtain ⟨task, htask, hresults⟩ := Option.map_eq_some_iff.1 hrecord
  simp only [Prod.mk.injEq] at hresults
  obtain ⟨hstatus, hplans, hreceipts⟩ := hresults
  obtain ⟨h, run⟩ := Machine.Run.exec .nil hc
  obtain ⟨plan, hplan, hown⟩ : ∃ plan ∈ c.state.ledger.plans.rows, plan.taskId = "task-1" := by
    apply List.mem_map.1
    rw [hplans]
    exact List.mem_singleton_self _
  refine ⟨h, c, task, plan, run, htask, hstatus, hplan, hown, fun receipt hreceipt => ?_⟩
  rw [List.length_eq_zero_iff] at hreceipts
  exact absurd (Table.mem_rows.2 hreceipt) (by simp [hreceipts])

theorem record_agrees_with_ledger_demo : ∃ h c task plan,
    (taskMachine demoSettings demoAgent.orchestrator).Run deployed (.initial .fresh) h c ∧
      LeasesKept "task-1" h ∧ c.state.records "task-1" = some task ∧ task.status = .completed ∧
      plan ∈ c.state.ledger.plans ∧ plan.taskId = "task-1" ∧
      ∃ receipt ∈ c.state.ledger.receipts, receipt.idempotencyKey = idempotencyKey plan := by
  have hend : ((taskMachine demoSettings demoAgent.orchestrator).exec deployed
      (demoPlanActions ++ demoApproveActions) (.initial .fresh)).bind (fun c =>
        (c.state.records "task-1").map fun task =>
          (task.status, c.state.ledger.plans.rows.map (fun p => p.taskId))) =
            some (.completed, ["task-1"]) := by decide
  obtain ⟨c, hc, hrecord⟩ := Option.bind_eq_some_iff.1 hend
  obtain ⟨task, htask, hresults⟩ := Option.map_eq_some_iff.1 hrecord
  obtain ⟨hstatus, hplans⟩ := Prod.mk.inj hresults
  have run := Machine.Run.follow .nil hc
  have hkept : LeasesKept "task-1" _ :=
    leasesKept_of_unexpired (Machine.trail_actions hc) (by decide)
  obtain ⟨plan, hplan, hown⟩ : ∃ plan ∈ c.state.ledger.plans.rows, plan.taskId = "task-1" := by
    apply List.mem_map.1
    rw [hplans]
    exact List.mem_singleton_self _
  exact ⟨_, c, task, plan, run, hkept, htask, hstatus, hplan, hown,
    (record_agrees_with_ledger run).2.1 "task-1" task hkept htask hstatus plan hplan hown⟩

end CommerceAgent
