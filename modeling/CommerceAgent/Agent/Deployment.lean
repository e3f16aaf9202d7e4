import CommerceAgent.Agent.Exposure
import CommerceAgent.Agent.Scope
import CommerceAgent.Agent.Vetting

/-!
# Vetted runs

In a deployment the repository is asked for nothing but its initialization, and no
identifier of a task has a colon. There every run is vetted, with `taskOf` read from the
approvals table at its end: rows are never changed.

What the graph adds to the contract, `vettedPolicy`, holds of every run by `graph_run`.
-/

namespace CommerceAgent

open Effects Relational

/-- The task of an approval. -/
def Ledger.taskOf (db : Ledger) (approvalId : String) : Option String :=
  (getApprovalSync approvalId db).map ApprovalRow.taskId

theorem Ledger.taskOf_of_mem {db : Ledger} {row : ApprovalRow} (hrow : row ∈ db.approvals) :
    db.taskOf row.approvalId = some row.taskId := by
  unfold Ledger.taskOf
  cases hfound : getApprovalSync row.approvalId db with
  | none =>
      have hfalse := Table.select_eq_none_iff.1 hfound row hrow
      simp at hfalse
  | some found =>
      obtain ⟨hmem, hid⟩ := mem_of_getApproval hfound
      rw [eq_of_approvalId hmem hrow hid]
      rfl

/-- An attribution of an approval is that of a row. -/
theorem Ledger.mem_of_taskOf {db : Ledger} {approvalId taskId : String}
    (h : db.taskOf approvalId = some taskId) :
    ∃ row ∈ db.approvals, row.approvalId = approvalId ∧ row.taskId = taskId := by
  obtain ⟨row, hfound, htask⟩ := Option.map_eq_some_iff.1 h
  obtain ⟨hmem, hid⟩ := mem_of_getApproval hfound
  exact ⟨row, hmem, hid, htask⟩

section Soundness

variable (taskOf : String → Option String) (settings : Settings)

/-- What is left to the database and to the graph. -/
def vettedPolicy : TaskPolicy where
  call i c ch w :=
    (∀ row ∈ (ch.ending.answer (c.execute settings i ch w) w).2.ledger.approvals,
      taskOf row.approvalId = some row.taskId) ∧
    match c with
    | .setNew task | .createScript task _ => ':' ∉ task.taskId.toList
    | .saveTask (.outcome _) task =>
        ∀ approvalId, task.interaction ≠ some (.approvalResume approvalId)
    | .putCheckpoint threadId checkpoint => checkpoint.state.taskId = threadId
    | _ => True
  start _ q _ := ∀ request, q = .ledger request → request = .initializeSync

variable {taskOf settings} {orchestrator : Orchestrator} {i : ℕ} {q : TaskRequest}
  {past : List TaskExchange} {c : TaskCall} {ch : TaskChoice} {r : Except Exn c.Reply}
  {w w' : World}

/-- What leaves the records, the messages, the checkpoints and the ledger as they are, or
drops some of them, keeps them vetted. -/
theorem World.Vetted.frame (h : w.Vetted taskOf) (hkeyed : w'.Keyed)
    (hrecords : ∀ taskId task, w'.records taskId = some task → w.records taskId = some task)
    (hmessages : ∀ payload, w'.Carried payload → w.Carried payload)
    (hcheckpoints : w'.checkpoints = w.checkpoints) (hledger : w'.ledger = w.ledger) :
    w'.Vetted taskOf where
  keyed := hkeyed
  records taskId task htask := h.records taskId task (hrecords taskId task htask)
  messages payload hcarried := h.messages payload (hmessages payload hcarried)
  checkpoints threadId checkpoint hstored :=
    h.checkpoints threadId checkpoint (hcheckpoints ▸ hstored)
  approvals row hrow := h.approvals row (hledger ▸ hrow)

/-- The records that the processes write are vetted. -/
theorem vetted_of_written {catalog : Catalog} (hc : q.Allows taskOf catalog past c)
    (hpermit : (vettedPolicy taskOf settings).call i c ch w) {task : TaskRecord}
    (hwritten : c.written = some task) : task.Vetted taskOf := by
  cases c with
  | setNew new | createScript new key =>
      cases hwritten
      exact hc.1 hpermit.2
  | transitionTask new expectedStatus =>
      cases hwritten
      exact hc.1
  | saveTask site new =>
      cases hwritten
      cases site with
      | outcome payload =>
          obtain ⟨-, hpayload, htask, hnone, -⟩ := hc
          constructor
          · exact htask ▸ hpayload.colonFree
          · intro hkind
            rw [hnone] at hkind
            cases hkind
          · exact fun approvalId h => absurd h (hpermit.2 approvalId)
      | _ => exact hc.1
  | _ => cases hwritten

/-- An approval that is recorded is a row of its task. -/
theorem exists_row_of_recordApproval {taskId merchantId planId actionId : String}
    {planVersion : ℤ} {decision : ApprovalDecision} {approvalId : String}
    (h : (taskMachine settings orchestrator).answer i
      (.ledger (.recordApproval taskId merchantId planId planVersion actionId decision)) ch w =
        some (.ok approvalId, w')) :
    ∃ row ∈ w'.ledger.approvals, row.approvalId = approvalId ∧ row.taskId = taskId := by
  obtain ⟨⟨approvalId', db⟩, hexecute, heq⟩ := exists_of_map_ok (execute_of_answer h)
  cases heq
  obtain ⟨-, -, -, -, -, -, -, ⟨rfl, row, hrow, htask, -, hid⟩ | ⟨rfl, approvals, rfl, hinsert⟩⟩ :=
    recordApproval_ok hexecute
  · exact ⟨row, hrow, hid, htask⟩
  · exact ⟨_, (Table.mem_of_insert? hinsert).2 (.inr rfl), rfl, rfl⟩

/-- The answers are what they are taken for. -/
theorem attested_of_answer (hinv : w.Vetted taskOf)
    (hpermit : (vettedPolicy taskOf settings).call i c ch w)
    (h : (taskMachine settings orchestrator).answer i c ch w = some (r, w')) :
    Attested taskOf c r := by
  cases r with
  | error e =>
      cases c with
      | ledger lc => cases lc <;> trivial
      | _ => trivial
  | ok b =>
      cases c with
      | setNew task => cases b <;> first | exact hpermit.2 | trivial
      | createScript task key =>
          obtain ⟨taskId, created⟩ := b
          cases created <;> first | exact hpermit.2 | trivial
      | getTask site taskId =>
          cases b with
          | none => trivial
          | some task =>
              have htask := (read_of_answer h).1.symm
              exact ⟨hinv.keyed taskId task htask, hinv.records taskId task htask⟩
      | getCheckpoint threadId =>
          cases b with
          | none => trivial
          | some checkpoint =>
              have hrun := execute_of_answer h
              simp only [TaskCall.execute, Except.ok.injEq, Prod.mk.injEq] at hrun
              exact hinv.checkpoints threadId checkpoint hrun.1
      | putCheckpoint threadId checkpoint => exact hpermit.2
      | ledger lc =>
          cases lc with
          | recordApproval taskId merchantId planId planVersion actionId decision =>
              obtain ⟨row, hrow, hid, htask⟩ := exists_row_of_recordApproval h
              rw [← hid, ← htask]
              apply hpermit.1 row
              rw [Option.some.inj h]
              exact hrow
          | _ => trivial
      | _ => trivial

variable {agent : AgentSettings}

/-- Every request of a deployment keeps the contract. -/
theorem vetted_program (hrequest : ∀ request, q = .ledger request → request = .initializeSync)
    (hpayload : ∀ payload, q = .handleMessage (.ok payload) → payload.Vetted taskOf) :
    (vetting taskOf settings.catalog).Honours q (q.program settings agent.orchestrator) [] := by
  apply Program.Meets.of_transcribed
  by_cases hq : ∃ request, q = .ledger request
  · obtain ⟨request, rfl⟩ := hq
    obtain rfl := hrequest request rfl
    apply Program.Follows.bind
    apply Program.Follows.of_only (V := fun _ => True)
      (G := fun c : TaskCall => c = .ledger (.initializeSync settings.catalog))
    · rintro c past rfl
      exact ⟨nofun, nofun, fun _ h => by cases h; rfl⟩
    · exact fun _ _ _ => trivial
    · exact fun _ _ => trivial
    · exact ⟨rfl, fun r => by cases r <;> trivial⟩
  · refine ((vettedOutline settings).follows_program vetted_runs
      (fun request heq => hq ⟨request, heq⟩) ?_).mono (fun _ _ _ => trivial) fun _ _ _ => trivial
    exact fun payload heq => ⟨⟨heq, hpayload payload heq⟩, rfl, rfl⟩

theorem vettedSound : (vetting taskOf settings.catalog).Sound
    (taskMachine settings agent.orchestrator) (vettedPolicy taskOf settings) where
  start i q w w' hinv hstart haccept := by
    have hrecords := records_of_accept haccept
    refine ⟨World.Vetted.frame hinv (hinv.keyed.of_records hrecords) (fun taskId task => ?_)
      (fun _ => carried_of_accept haccept) (checkpoints_of_accept haccept)
      (ledger_of_accept haccept), vetted_program hstart ?_⟩
    · rw [hrecords]
      exact id
    · rintro payload rfl
      exact hinv.messages payload (carried_of_handled haccept)
  call i q past c ch w r w' hinv hpermit hc h := by
    refine ⟨attested_of_answer hinv hpermit h, ?_⟩
    change w'.Vetted taskOf
    constructor
    · exact hinv.keyed.answer h
    · intro taskId task htask
      rcases records_of_answer h with hrecords | ⟨written, hwritten, hrecords⟩
      · exact hinv.records taskId task (hrecords ▸ htask)
      · rw [hrecords, World.store_records] at htask
        split at htask
        · cases htask
          exact vetted_of_written hc hpermit hwritten
        · exact hinv.records taskId task htask
    · intro payload hcarried
      rcases carried_of_answer h hcarried with hold | hsent
      · exact hinv.messages payload hold
      · cases c with
        | publish sent | publishRetry sent =>
            cases hsent
            exact hc
        | _ => cases hsent
    · intro threadId checkpoint hstored
      rcases checkpoints_of_answer h with heq | ⟨t, new, rfl, heq⟩
      · exact hinv.checkpoints threadId checkpoint (heq ▸ hstored)
      · rw [heq, Function.update_apply] at hstored
        split at hstored
        · next ht =>
            cases hstored
            rw [ht]
            exact hpermit.2
        · exact hinv.checkpoints threadId checkpoint hstored
    · intro row hrow
      apply hpermit.1 row
      rw [Option.some.inj h]
      exact hrow
  crash i w hinv _ := by
    have hrecords : (w.requeue i).records = w.records := w.requeue_records i
    refine World.Vetted.frame hinv (hinv.keyed.of_records hrecords) (fun taskId task => ?_)
      (fun _ => carried_of_requeue) (w.requeue_checkpoints i) (w.requeue_ledger i)
    change (w.requeue i).records taskId = _ → _
    rw [hrecords]
    exact id
  environment e w w' hinv _ henv := by
    refine World.Vetted.frame hinv (hinv.keyed.environment henv) ?_
      (fun _ => carried_of_environment henv) (checkpoints_of_environment henv)
      (ledger_of_environment henv)
    intro taskId task htask
    rcases records_of_environment henv taskId with heq | heq
    · rwa [← heq]
    · rw [heq] at htask
      cases htask

end Soundness

/-- The repository is asked for its initialization only, and the identifiers of the tasks
have no colon. -/
def deployed : TaskPolicy where
  call _ c _ _ :=
    match c with
    | .setNew task | .createScript task _ => ':' ∉ task.taskId.toList
    | _ => True
  start _ q _ := ∀ request, q = .ledger request → request = .initializeSync

section Run

variable {agent : AgentSettings} {settings : Settings} {h : List (TaskConfig × TaskAction)}
  {c : TaskConfig}

theorem World.vetted_fresh {taskOf : String → Option String} : World.fresh.Vetted taskOf where
  keyed := World.keyed_fresh
  records _ _ htask := by cases htask
  messages payload hcarried := by
    rcases hcarried with h | ⟨j, h⟩
    · cases h
    · cases h
  checkpoints _ _ hstored := by cases hstored
  approvals _ hrow := absurd hrow Table.not_mem_empty

/-- What a run ends with names no approval to resume. -/
theorem AgentSettings.Reach.no_resume {H : Set TaskExchange} {threadId : String}
    {checkpoint : Checkpoint} (hreach : agent.Reach H threadId checkpoint) (approvalId : String) :
    checkpoint.outcome.interaction ≠ some (.approvalResume approvalId) := by
  obtain ⟨hinteraction, hinterrupt, -⟩ := hreach.shows
  intro heq
  unfold Checkpoint.outcome at heq
  split at heq
  · next x hx =>
      cases heq
      simpa [Interaction.type] using hinterrupt _ hx
  · simpa [Interaction.type] using hinteraction _ heq

/-- The calls of a deployment are permitted to a contract that attributes the approvals
as the table does in the end. -/
theorem vetted_permits {h₁ h₂ : List (TaskConfig × TaskAction)} {v : TaskConfig × TaskAction}
    (run : (taskMachine settings agent.orchestrator).Run deployed (.initial World.fresh)
      (h₁ ++ v :: h₂) c) (hpermit : deployed.permits v.1 v.2) :
    (vettedPolicy c.state.ledger.taskOf settings).permits v.1 v.2 := by
  obtain ⟨c₁, a⟩ := v
  obtain ⟨run₁, -, c₂, hstep, -⟩ := run.before rfl
  cases a with
  | call i ch =>
      obtain ⟨q, cl, k, r, w, hslot, hanswer, rfl⟩ := Machine.step_call _ hstep
      obtain ⟨r', -, hpermitted⟩ := AgentSettings.graph_call
        (run₁.restrict fun v _ _ => Policy.permits_any v.1 v.2) hstep hslot
      replace hslot : c₁.pool i = .running q (.call cl k) := hslot
      replace hpermit : deployed.call i cl ch c₁.state := by
        simpa [Policy.permits, hslot] using hpermit
      suffices hcall : (vettedPolicy c.state.ledger.taskOf settings).call i cl ch c₁.state by
        simpa [Policy.permits, hslot] using hcall
      constructor
      · intro row hrow
        rw [Option.some.inj hanswer] at hrow
        obtain ⟨c₃, hstep', hgrows⟩ := run.since (r := fun w w' => w.ledger.Grows w'.ledger)
          (fun a c c' step => ledger_grows_of_step step) (c₁, .call i ch) (by simp)
        rw [hstep, Option.some.injEq] at hstep'
        subst hstep'
        exact Ledger.taskOf_of_mem (hgrows.approvals row hrow)
      · cases cl with
        | setNew task | createScript task key => exact hpermit
        | putCheckpoint threadId checkpoint => exact hpermitted.reach.taskId
        | saveTask site task =>
            cases site with
            | outcome payload =>
                obtain ⟨started, checkpoint, rfl, hat, -⟩ := hpermitted
                exact hat.2.no_resume
            | _ => trivial
        | _ => trivial
  | start i q => exact hpermit
  | crash i => trivial
  | environment e => trivial

/-- Every run of a deployment is vetted. -/
theorem vetted_run
    (run : (taskMachine settings agent.orchestrator).Run deployed (.initial World.fresh) h c) :
    (vetting c.state.ledger.taskOf settings.catalog).Holds
      (taskMachine settings agent.orchestrator) h c := by
  apply vettedSound.run World.vetted_fresh
  apply run.restrict
  intro v hv
  obtain ⟨h₁, h₂, rfl⟩ := List.append_of_mem hv
  exact vetted_permits run

end Run

end CommerceAgent
