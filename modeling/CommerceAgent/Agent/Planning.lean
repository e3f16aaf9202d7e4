import CommerceAgent.Agent.Tenure
import CommerceAgent.Commerce.Replay

/-!
# Plans of a deployment

What the checkpoints say about the plan of a task: an interaction shows a plan that
`create_plan` has returned, and a graph that has ended without a plan differs from one
that has ended with a decision.

At the other end, a step of the repository that a graph makes is one of a handler of a
vetted message, at the checkpoint in work. The database is therefore as consistent in a
deployment as it is by itself.
-/

namespace CommerceAgent

open Effects Relational

namespace AgentSettings

variable {agent : AgentSettings} {H : Set TaskExchange} {threadId : String}
  {checkpoint : Checkpoint}

/-- `create_plan` has returned the plan for the task. -/
def Known (H : Set TaskExchange) (taskId : String) (plan : ActionPlan) : Prop :=
  Replied H (.graph taskId (.selectPlanOfTask taskId)) (some plan) ∨
    ∃ content, content.taskId = taskId ∧ Replied H (.graph taskId (.insertPlan content)) plan

theorem Created.known {state : AgentState} {productId : String} {patch : ProductPatch}
    {plan : ActionPlan} (h : Created H state productId patch plan) : Known H state.taskId plan := by
  rcases h with h | ⟨description, version, h⟩
  · exact .inl h
  · exact .inr ⟨_, rfl, h⟩

/-- What the state and the interrupt of a checkpoint show of a plan is a plan of the task. -/
structure ShowsPlan (H : Set TaskExchange) (checkpoint : Checkpoint) : Prop where
  interaction : ∀ x, checkpoint.state.interaction = some x →
    ∃ plan, x = plan.interaction ∧ Known H checkpoint.state.taskId plan
  interrupt : ∀ x, checkpoint.interrupt = some x → x.type = "approval.required" →
    ∃ plan, x = plan.interaction ∧ Known H checkpoint.state.taskId plan

theorem Reach.showsPlan (h : agent.Reach H threadId checkpoint) : ShowsPlan H checkpoint := by
  induction h with
  | initial h => constructor <;> simp [TaskRecord.initialCheckpoint, TaskRecord.initialState]
  | @step checkpoint node result _ _ hresult ih =>
      obtain ⟨hinteraction, hinterrupt⟩ := ih
      cases hresult with
      | asked h hreplied =>
          refine ⟨hinteraction, ?_⟩
          rintro x ⟨⟩ htype
          simp [Interaction.type] at htype
      | shown h =>
          refine ⟨hinteraction, ?_⟩
          rintro x ⟨⟩ -
          exact hinteraction _ h
      | concluded hdiagnosis hpatch =>
          constructor <;> simp [Checkpoint.commit, AgentState.concluded]
      | @planned diagnosis patch productId output plan hdiagnosis hpatch hproduct hcreated =>
          refine ⟨?_, by simp [Checkpoint.commit]⟩
          rintro x ⟨⟩
          exact ⟨plan, rfl, hcreated.known⟩
      | _ => exact ⟨hinteraction, by simp [Checkpoint.commit]⟩

/-- How a graph thread has ended. -/
inductive Concluded (H : Set TaskExchange) (state : AgentState) : Prop
  | planless (hinteraction : state.interaction = none)
      (hstatus : state.finalStatus = some .completed)
  | rejected {approvalId : String} {approval : ApprovalRow}
      (hinteraction : state.interaction ≠ none)
      (hstatus : state.finalStatus = some .rejected)
      (hreplied : Replied H (.graph state.taskId (.getApproval approvalId)) (some approval))
      (hdecision : approval.decision = .reject)
  | applied {approvalId : String} {receipt : ActionReceipt}
      (hinteraction : state.interaction ≠ none)
      (hstatus : state.finalStatus = some .completed)
      (hreceipt : Replied H (.graph state.taskId (.applyApprovedPlan approvalId)) receipt)

theorem Reach.concluded (h : agent.Reach H threadId checkpoint) (hnext : checkpoint.next = none) :
    checkpoint.interrupt = none ∧ Concluded H checkpoint.state := by
  cases h with
  | initial h => cases hnext
  | @step checkpoint node result hreach hcurrent hresult =>
      cases hresult with
      | asked h hreplied => exact absurd (hcurrent.symm.trans hnext) nofun
      | shown h => exact absurd (hcurrent.symm.trans hnext) nofun
      | concluded hdiagnosis hpatch => exact ⟨rfl, .planless rfl rfl⟩
      | rejected h hreplied hdecision => exact ⟨rfl, .rejected h rfl hreplied hdecision⟩
      | applied h hreplied hdecision hreceipt => exact ⟨rfl, .applied h rfl hreceipt⟩
      | planned hdiagnosis hpatch hproduct hcreated => cases hnext
      | _ => cases hnext

/-- A step of the repository that a graph makes: the step of a handler of a vetted
message, at the checkpoint in work. -/
structure GraphStep (agent : AgentSettings) (taskOf : String → Option String)
    (H : Set TaskExchange) (past : List TaskExchange) (threadId : String) (lc : LedgerCall)
    (payload : QueueMessage) (checkpoint : Checkpoint) : Prop where
  own : threadId = payload.taskId
  vetted : payload.Vetted taskOf
  working : Working payload past checkpoint
  reach : agent.Reach H payload.taskId checkpoint
  step : LedgerStep H checkpoint lc
  consumes : checkpoint.next = some .approval → Consumes taskOf payload lc
  quotes : checkpoint.next = some .plan → Quotes past lc

end AgentSettings

section Run

variable {agent : AgentSettings} {settings : Settings} {h : List (TaskConfig × TaskAction)}
  {c c' : TaskConfig} {i : ℕ} {ch : TaskChoice}

theorem graphStep_of_run
    (run : (taskMachine settings agent.orchestrator).Run deployed (.initial World.fresh) h c)
    {q : TaskRequest} {threadId : String} {lc : LedgerCall}
    {k : Except Exn lc.Reply → TaskProgram TaskResult}
    (hslot : c.pool i = .running q (.call (.graph threadId lc) k))
    (step : (taskMachine settings agent.orchestrator).step (.call i ch) c = some c') :
    ∃ payload checkpoint, q = .handleMessage (.ok payload) ∧
      agent.GraphStep c.state.ledger.taskOf
        (agent.transcripts settings (h ++ [(c, .call i ch)])).happened
        (agent.transcripts settings h i) threadId lc payload checkpoint := by
  obtain ⟨payload, checkpoint, hq, hpayload, hwork, hconsumes, hquotes⟩ := allows_of_run run hslot
  obtain ⟨r, -, current, hat, hstep⟩ := AgentSettings.graph_call
    (run.restrict fun v _ _ => Policy.permits_any v.1 v.2) step hslot
  have hcurrent := currentCheckpoint_of_openWork hwork.work
  obtain rfl : checkpoint = current := Option.some.inj (hcurrent.symm.trans hat.1)
  have hown : threadId = payload.taskId := hat.2.taskId.symm.trans hwork.own
  exact ⟨payload, checkpoint, hq, hown, hpayload, hwork, hown ▸ hat.2, hstep, hconsumes, hquotes⟩

/-- What has happened stays so. -/
theorem happened_snoc (v : TaskConfig × TaskAction) :
    (agent.transcripts settings h).happened ⊆ (agent.transcripts settings (h ++ [v])).happened := by
  rintro e ⟨i, he⟩
  refine ⟨i, ?_⟩
  rw [AgentSettings.transcripts, Machine.transcript_snoc]
  exact List.mem_append_left _ he

/-- What a graph was answered by the repository, it was answered by a database that has
only grown since. -/
theorem executed_of_mem {π : TaskPolicy}
    (run : (taskMachine settings agent.orchestrator).Run π (.initial World.fresh) h c)
    {threadId : String} {lc : LedgerCall} {b : lc.Reply}
    (hmem : (⟨.graph threadId lc, .ok b⟩ : TaskExchange) ∈ agent.transcripts settings h i) :
    ∃ token db db', lc.execute token db = .ok (b, db') ∧ db'.Grows c.state.ledger := by
  obtain ⟨ch, w, w', hanswer, hgrows⟩ := run.exchanged (r := fun w w' => w.ledger.Grows w'.ledger)
    (fun a c c' step => ledger_grows_of_step step) hmem
  have hrun : (TaskCall.graph threadId lc).execute settings i ch w = .ok (b, w') :=
    execute_of_answer hanswer
  obtain ⟨⟨reply, db'⟩, hexecute, heq⟩ := exists_of_map_ok hrun
  cases heq
  exact ⟨ch.token, w.ledger, db', hexecute, hgrows⟩

/-- The plans that the graphs insert are made of what was read. -/
theorem sound_of_quotes
    (run : (taskMachine settings agent.orchestrator).Run deployed (.initial World.fresh) h c)
    {content : PlanContent} (htask : ':' ∉ content.taskId.toList)
    (hquotes : Quotes (agent.transcripts settings h i) (.insertPlan content)) :
    content.Sound c.state.ledger := by
  obtain ⟨hread, hversion, haction⟩ := hquotes content rfl
  obtain ⟨token, db, db', hexecute, hgrows⟩ := executed_of_mem run hread
  simp only [LedgerCall.execute, Except.ok.injEq, Prod.mk.injEq] at hexecute
  obtain ⟨hselect, rfl⟩ := hexecute
  refine ⟨htask, hversion, haction, Snapshot.grows ?_ hgrows⟩
  obtain ⟨p, hp, hmerchant, hproduct, hdescription, hversion⟩ := mem_of_selectProduct hselect
  exact ⟨p, hp, hmerchant, hproduct, hversion.ge, fun _ => hdescription⟩

/-- A step leaves the database alone, or is a step of the repository. -/
theorem writes_of_step {orchestrator : Orchestrator} {a : TaskAction}
    (step : (taskMachine settings orchestrator).step a c = some c') :
    c'.state.ledger = c.state.ledger ∨ ∃ i ch q cl k lc, a = .call i ch ∧
      c.pool i = .running q (.call cl k) ∧ cl.ledgerCall = some lc ∧
        Writes lc c.state.ledger c'.state.ledger := by
  cases a with
  | call i ch =>
      obtain ⟨q, cl, k, r, w, hslot, hanswer, rfl⟩ := Machine.step_call _ step
      rcases writes_of_answer hanswer with hsame | ⟨lc, hlc, hwrites⟩
      · exact .inl hsame
      · exact .inr ⟨i, ch, q, cl, k, lc, rfl, hslot, hlc, hwrites⟩
  | start i q =>
      obtain ⟨w, -, haccept, rfl⟩ := Machine.step_start _ step
      exact .inl (ledger_of_accept haccept)
  | crash i =>
      obtain ⟨q, p, -, rfl⟩ := Machine.step_crash _ step
      exact .inl (World.requeue_ledger ..)
  | environment e =>
      obtain ⟨w, he, rfl⟩ := Machine.step_environment _ step
      exact .inl (ledger_of_environment he)

/-- The database of a deployment is consistent. -/
theorem ledger_invariant
    (run : (taskMachine settings agent.orchestrator).Run deployed (.initial World.fresh) h c) :
    c.state.ledger.Invariant settings.catalog := by
  induction run with
  | nil => exact .fresh
  | @snoc h c c' a run permitted step ih =>
      rcases writes_of_step step with hsame | ⟨i, ch, q, cl, k, lc, rfl, hslot, hlc, hwrites⟩
      · exact hsame ▸ ih
      cases cl with
      | ledger lc' =>
          cases hlc
          obtain ⟨hplan, -, hseed⟩ := allows_of_run run hslot
          exact hwrites.invariant ih hseed fun content heq => absurd heq (hplan content)
      | graph threadId lc' =>
          cases hlc
          obtain ⟨payload, checkpoint, -, hgraph⟩ := graphStep_of_run run hslot step
          apply hwrites.invariant ih
          · rintro catalog' rfl
            exact hgraph.step.elim
          · rintro content rfl
            obtain ⟨hnext, diagnosis, productId, patch, description, version, -, -, -, rfl⟩ :=
              hgraph.step
            apply sound_of_quotes run _ (hgraph.quotes hnext)
            change ':' ∉ checkpoint.state.taskId.toList
            rw [hgraph.working.own]
            exact hgraph.vetted.colonFree
      | _ => cases hlc

/-- A plan that `create_plan` has returned for a task is the plan of the task. -/
theorem mem_of_known {π : TaskPolicy}
    (run : (taskMachine settings agent.orchestrator).Run π (.initial World.fresh) h c)
    {taskId : String} {plan : ActionPlan}
    (hknown : AgentSettings.Known (agent.transcripts settings h).happened taskId plan) :
    plan ∈ c.state.ledger.plans ∧ plan.taskId = taskId := by
  rcases hknown with ⟨i, hmem⟩ | ⟨content, rfl, i, hmem⟩
  · obtain ⟨token, db, db', hexecute, hgrows⟩ := executed_of_mem run hmem
    simp only [LedgerCall.execute, Except.ok.injEq, Prod.mk.injEq] at hexecute
    obtain ⟨hselect, rfl⟩ := hexecute
    obtain ⟨hplan, htask⟩ := mem_of_selectPlanOfTask hselect
    exact ⟨hgrows.plans plan hplan, htask⟩
  · obtain ⟨token, db, db', hexecute, hgrows⟩ := executed_of_mem run hmem
    simp only [LedgerCall.execute, insertPlan] at hexecute
    split at hexecute
    · cases hexecute
    · next plans hinsert =>
        cases hexecute
        exact ⟨hgrows.plans _ ((Table.mem_of_insert? hinsert).2 (.inr rfl)), rfl⟩

/-- The graph of a task asks for no approval but one of its task. -/
theorem taskOf_of_consumed
    (run : (taskMachine settings agent.orchestrator).Run deployed (.initial World.fresh) h c)
    {threadId approvalId : String} {lc : LedgerCall}
    (hlc : lc = .getApproval approvalId ∨ lc = .applyApprovedPlan approvalId)
    {r : Except Exn lc.Reply}
    (hmem : (⟨.graph threadId lc, r⟩ : TaskExchange) ∈ agent.transcripts settings h i) :
    c.state.ledger.taskOf approvalId = some threadId := by
  obtain ⟨h₁, v, h₂, rfl, hexchange⟩ := Machine.exists_of_mem_transcript hmem
  obtain ⟨ch, q, k, hv, hslot⟩ := Machine.exchange_eq_some hexchange
  obtain ⟨run₁, -, c₂, hstep, -⟩ := run.before rfl
  obtain ⟨c₁, a⟩ := v
  obtain rfl : a = .call i ch := hv
  obtain ⟨payload, checkpoint, -, hgraph⟩ := graphStep_of_run run₁ hslot hstep
  have hnext : checkpoint.next = some .approval := by
    rcases hlc with rfl | rfl
    · exact hgraph.step
    · exact hgraph.step.1
  obtain ⟨row, hrow, rfl, htask⟩ :=
    Ledger.mem_of_taskOf (hgraph.consumes hnext approvalId hlc).2
  have hgrows : c₁.state.ledger.Grows c.state.ledger :=
    run.related (r := fun w w' => w.ledger.Grows w'.ledger)
      (fun a c c' step => ledger_grows_of_step step) (c₁, .call i ch) (by simp)
  rw [hgraph.own, ← htask]
  exact Ledger.taskOf_of_mem (hgrows.approvals row hrow)

/-- The approval that a graph was given is the approval of its task. -/
theorem mem_of_approvalRead
    (run : (taskMachine settings agent.orchestrator).Run deployed (.initial World.fresh) h c)
    {threadId approvalId : String} {approval : ApprovalRow}
    (hreplied : Replied (agent.transcripts settings h).happened
      (.graph threadId (.getApproval approvalId)) (some approval)) :
    approval ∈ c.state.ledger.approvals ∧ approval.taskId = threadId := by
  obtain ⟨i, hmem⟩ := hreplied
  obtain ⟨token, db, db', hexecute, hgrows⟩ := executed_of_mem run hmem
  simp only [LedgerCall.execute, Except.ok.injEq, Prod.mk.injEq] at hexecute
  obtain ⟨hget, rfl⟩ := hexecute
  obtain ⟨hrow, rfl⟩ := mem_of_getApproval hget
  have hlast := hgrows.approvals approval hrow
  have htask := taskOf_of_consumed run (.inl rfl) hmem
  rw [Ledger.taskOf_of_mem hlast, Option.some.injEq] at htask
  exact ⟨hlast, htask⟩

/-- What a graph has applied is the plan of its task. -/
theorem receipt_of_applied
    (run : (taskMachine settings agent.orchestrator).Run deployed (.initial World.fresh) h c)
    {threadId approvalId : String} {receipt : ActionReceipt}
    (hreplied : Replied (agent.transcripts settings h).happened
      (.graph threadId (.applyApprovedPlan approvalId)) receipt) {plan : ActionPlan}
    (hplan : plan ∈ c.state.ledger.plans) (htask : plan.taskId = threadId) :
    ∃ r ∈ c.state.ledger.receipts, r.idempotencyKey = idempotencyKey plan := by
  obtain ⟨i, hmem⟩ := hreplied
  obtain ⟨token, db, db', hexecute, hgrows⟩ := executed_of_mem run hmem
  obtain ⟨approval, happroval, rfl, -, plan', hplan', hid, row, hrow, hkey, -⟩ :=
    exists_row_of_applyApprovedPlan hexecute
  have hlast := hgrows.approvals approval happroval
  have htask' := taskOf_of_consumed run (.inr rfl) hmem
  rw [Ledger.taskOf_of_mem hlast, Option.some.injEq] at htask'
  have hplan'' := hgrows.plans plan' hplan'
  have happroves := (ledger_invariant run).approves_of_planId hlast hplan'' hid
  obtain rfl : plan = plan' := by
    apply eq_of_planTask hplan hplan''
    rw [htask, ← htask', happroves.taskId]
  exact ⟨row, hgrows.receipts row hrow, hkey⟩

/-- A record that is found after a step was there before, or is written by it. -/
theorem record_of_step {orchestrator : Orchestrator} {a : TaskAction} {taskId : String}
    {task : TaskRecord} (step : (taskMachine settings orchestrator).step a c = some c')
    (htask : c'.state.records taskId = some task) :
    c.state.records taskId = some task ∨ ∃ i ch q cl k, a = .call i ch ∧
      c.pool i = .running q (.call cl k) ∧ cl.written = some task ∧ task.taskId = taskId := by
  cases a with
  | call i ch =>
      obtain ⟨q, cl, k, r, w, hslot, hanswer, rfl⟩ := Machine.step_call _ step
      rcases records_of_answer hanswer with hsame | ⟨written, hwritten, hrecords⟩
      · exact .inl (hsame ▸ htask)
      · rw [hrecords, World.store_records] at htask
        split at htask
        · next hid =>
            cases htask
            exact .inr ⟨i, ch, q, cl, k, rfl, hslot, hwritten, hid.symm⟩
        · exact .inl htask
  | start i q =>
      obtain ⟨w, -, haccept, rfl⟩ := Machine.step_start _ step
      exact .inl (records_of_accept haccept ▸ htask)
  | crash i =>
      obtain ⟨q, p, -, rfl⟩ := Machine.step_crash _ step
      have hsame : ((taskMachine settings orchestrator).halt i c.state).records =
        c.state.records := World.requeue_records ..
      exact .inl (hsame ▸ htask)
  | environment e =>
      obtain ⟨w, he, rfl⟩ := Machine.step_environment _ step
      rcases records_of_environment he taskId with heq | heq
      · exact .inl (heq ▸ htask)
      · exact absurd (heq.symm.trans htask) nofun

/-- The statuses of a record that is being worked on, or that has failed. -/
def transientStatuses : List TaskStatus := [.queued, .running, .retrying, .failed]

/-- A run of the graph of the task that has ended with the record. -/
structure EndedWith (agent : AgentSettings) (H : Set TaskExchange) (taskId : String)
    (task : TaskRecord) (checkpoint : Checkpoint) : Prop where
  finished : ∃ started : TaskRecord, task = started.finished checkpoint.outcome
  reach : agent.Reach H taskId checkpoint
  ended : checkpoint.Ended

/-- Another status is written at the end of a run only, by the process that has the
checkpoint in work. -/
theorem endedWith_of_written
    (run : (taskMachine settings agent.orchestrator).Run deployed (.initial World.fresh) h c)
    {q : TaskRequest} {cl : TaskCall} {k : Except Exn cl.Reply → TaskProgram TaskResult}
    (hslot : c.pool i = .running q (.call cl k))
    (step : (taskMachine settings agent.orchestrator).step (.call i ch) c = some c')
    {task : TaskRecord} (hwritten : cl.written = some task)
    (hstatus : task.status ∉ transientStatuses) :
    ∃ checkpoint, heldLease (agent.transcripts settings h i) = some task.taskId ∧
      openWork (agent.transcripts settings h i) = some (some checkpoint) ∧
        EndedWith agent (agent.transcripts settings (h ++ [(c, .call i ch)])).happened task.taskId
          task checkpoint := by
  have hallows := allows_of_run run hslot
  obtain ⟨r, -, hpermitted⟩ := AgentSettings.graph_call
    (run.restrict fun v _ _ => Policy.permits_any v.1 v.2) step hslot
  cases cl with
  | setNew new | createScript new key =>
      cases hwritten
      exact absurd hallows.2 fun heq => hstatus (by simp [heq, transientStatuses])
  | transitionTask new expectedStatus =>
      cases hwritten
      exact absurd hallows.2 fun heq => hstatus (by simp [heq, transientStatuses])
  | saveTask site new =>
      cases hwritten
      cases site with
      | outcome payload =>
          obtain ⟨-, -, htask, -, hleased, hwork⟩ := hallows
          obtain ⟨started, checkpoint, hfinished, hat, hended⟩ := hpermitted
          obtain ⟨work, hwork⟩ := Option.ne_none_iff_exists'.1 hwork
          have hcurrent := currentCheckpoint_of_openWork hwork
          rw [hat.1] at hcurrent
          rw [htask]
          exact ⟨checkpoint, hleased, hcurrent ▸ hwork, ⟨started, hfinished⟩, hat.2, hended⟩
      | _ => exact absurd hallows.2 hstatus
  | _ => cases hwritten

/-- A record of another status is the end of a run of the graph of the task. -/
theorem exists_endedWith
    (run : (taskMachine settings agent.orchestrator).Run deployed (.initial World.fresh) h c)
    {taskId : String} {task : TaskRecord} (htask : c.state.records taskId = some task)
    (hstatus : task.status ∉ transientStatuses) :
    ∃ checkpoint,
      EndedWith agent (agent.transcripts settings h).happened taskId task checkpoint := by
  induction run with
  | nil => cases htask
  | @snoc h c c' a run permitted step ih =>
      rcases record_of_step step htask with hold | ⟨i, ch, q, cl, k, rfl, hslot, hwritten, rfl⟩
      · obtain ⟨checkpoint, hfinished, hreach, hended⟩ := ih hold
        exact ⟨checkpoint, hfinished, hreach.mono (happened_snoc _), hended⟩
      · obtain ⟨checkpoint, -, -, hended⟩ :=
          endedWith_of_written run hslot step hwritten hstatus
        exact ⟨checkpoint, hended⟩

end Run

end CommerceAgent
