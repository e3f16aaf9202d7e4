import CommerceAgent.Agent.Lineage

/-!
# Runs of the graph in the task system

`Permitted` says which calls the processes of the task system make, those of the
graph by the checkpoint that the run works on. The discipline is proved node by node
with the rule for coroutines, since the tools of one turn run side by side; the
result is `graph_run`.
-/

namespace CommerceAgent

open Effects

/-- What an exchange makes of the checkpoint that a run works on. -/
def checkpointAfter : TaskExchange → Option Checkpoint → Option Checkpoint
  | ⟨.getCheckpoint _, .ok found⟩, _ => found
  | ⟨.putCheckpoint _ checkpoint, .ok _⟩, _ => some checkpoint
  | _, current => current

/-- The checkpoint that a run works on: the last one it has read or committed. -/
def currentCheckpoint (past : List TaskExchange) : Option Checkpoint :=
  past.foldl (fun current e => checkpointAfter e current) none

/-- The call reads or commits a checkpoint. -/
def TaskCall.movesCheckpoint : TaskCall → Bool
  | .getCheckpoint _ | .putCheckpoint .. => true
  | _ => false

theorem currentCheckpoint_snoc (past : List TaskExchange) (e : TaskExchange) :
    currentCheckpoint (past ++ [e]) = checkpointAfter e (currentCheckpoint past) := by
  rw [currentCheckpoint, List.foldl_append]
  rfl

theorem checkpointAfter_of_other {c : TaskCall} (hc : c.movesCheckpoint = false)
    (r : Except Exn c.Reply) (current : Option Checkpoint) :
    checkpointAfter ⟨c, r⟩ current = current := by
  cases c <;> first | rfl | cases hc

/-- The run is at the end of the graph or at an interrupt. -/
def Checkpoint.Ended (checkpoint : Checkpoint) : Prop :=
  checkpoint.next = none ∨ checkpoint.interrupt ≠ none

namespace AgentSettings

variable (agent : AgentSettings) (H : Set TaskExchange)

/-- The run works on the checkpoint. -/
def At (past : List TaskExchange) (threadId : String) (checkpoint : Checkpoint) : Prop :=
  currentCheckpoint past = some checkpoint ∧ agent.Reach H threadId checkpoint

/-- The steps of the repository that the graph makes at a checkpoint. -/
def LedgerStep (checkpoint : Checkpoint) : LedgerCall → Prop
  | .selectPlanOfTask taskId => checkpoint.next = some .plan ∧ taskId = checkpoint.state.taskId
  | .selectProduct merchantId productId => checkpoint.next = some .plan ∧
      merchantId = checkpoint.state.merchantId ∧ requireProductId checkpoint.state = .ok productId
  | .insertPlan content => checkpoint.next = some .plan ∧
      ∃ diagnosis productId patch description version,
        checkpoint.state.diagnosis = some (.ok diagnosis) ∧ diagnosis.proposedPatch = some patch ∧
          requireProductId checkpoint.state = .ok productId ∧
            content = newPlan checkpoint.state productId patch description version
  | .getApproval _ => checkpoint.next = some .approval
  | .applyApprovedPlan approvalId => checkpoint.next = some .approval ∧ ∃ approval,
      Replied H (.graph checkpoint.state.taskId (.getApproval approvalId)) (some approval) ∧
        approval.decision ≠ .reject
  | _ => False

/-- A commit of the run: the input of the thread, or what the next node returned. -/
def Commits (past : List TaskExchange) (threadId : String) (checkpoint : Checkpoint) : Prop :=
  (currentCheckpoint past = none ∧ ∃ task : TaskRecord, task.taskId = threadId ∧
    checkpoint = task.initialCheckpoint) ∨
  ∃ current node result, agent.At H past threadId current ∧ current.next = some node ∧
    agent.Returns H current.state node result ∧ checkpoint = current.commit node result

/-- The calls that the processes make, after the exchanges `past`. -/
def Permitted (past : List TaskExchange) : TaskCall → Prop
  | .complete messages _ => ∃ threadId checkpoint, agent.At H past threadId checkpoint ∧
      checkpoint.next = some .model ∧ checkpoint.state.iteration < agent.maxIterations ∧
        messages = checkpoint.state.messages
  | .executeTool threadId call => ∃ checkpoint, agent.At H past threadId checkpoint ∧
      checkpoint.next = some .tools ∧ agent.Executable checkpoint.state call
  | .graph threadId c => ∃ checkpoint, agent.At H past threadId checkpoint ∧
      LedgerStep H checkpoint c
  | .enterNode threadId node => ∃ checkpoint, agent.At H past threadId checkpoint ∧
      checkpoint.next = some node
  | .putCheckpoint threadId checkpoint => agent.Commits H past threadId checkpoint
  | .saveTask (.outcome payload) task => ∃ started checkpoint,
      task = TaskRecord.finished started (Checkpoint.outcome checkpoint) ∧
        agent.At H past payload.taskId checkpoint ∧ checkpoint.Ended
  | _ => True

variable {agent H} {H' : Set TaskExchange} {past : List TaskExchange}

theorem At.mono (hH : H ⊆ H') {threadId : String} {checkpoint : Checkpoint}
    (h : agent.At H past threadId checkpoint) : agent.At H' past threadId checkpoint :=
  ⟨h.1, h.2.mono hH⟩

theorem Commits.reach {threadId : String} {checkpoint : Checkpoint}
    (h : agent.Commits H past threadId checkpoint) : agent.Reach H threadId checkpoint := by
  rcases h with ⟨-, task, htask, rfl⟩ | ⟨current, node, result, hat, hnext, hresult, rfl⟩
  · exact .initial htask
  · exact .step hat.2 hnext hresult

theorem LedgerStep.mono (hH : H ⊆ H') {checkpoint : Checkpoint} {c : LedgerCall}
    (h : LedgerStep H checkpoint c) : LedgerStep H' checkpoint c := by
  cases c with
  | applyApprovedPlan approvalId =>
      obtain ⟨hnext, approval, hreplied, hdecision⟩ := h
      exact ⟨hnext, approval, hreplied.mono hH, hdecision⟩
  | _ => exact h

theorem Permitted.mono (hH : H ⊆ H') {c : TaskCall} (h : agent.Permitted H past c) :
    agent.Permitted H' past c := by
  unfold Permitted at h ⊢
  split at h
  · obtain ⟨threadId, checkpoint, hat, hrest⟩ := h
    exact ⟨threadId, checkpoint, hat.mono hH, hrest⟩
  · obtain ⟨checkpoint, hat, hrest⟩ := h
    exact ⟨checkpoint, hat.mono hH, hrest⟩
  · obtain ⟨checkpoint, hat, hstep⟩ := h
    exact ⟨checkpoint, hat.mono hH, hstep.mono hH⟩
  · obtain ⟨checkpoint, hat, hnext⟩ := h
    exact ⟨checkpoint, hat.mono hH, hnext⟩
  · rcases h with h | ⟨current, node, result, hat, hnext, hresult, heq⟩
    · exact .inl h
    · exact .inr ⟨current, node, result, hat.mono hH, hnext, hresult.mono hH, heq⟩
  · obtain ⟨started, checkpoint, htask, hat, hended⟩ := h
    exact ⟨started, checkpoint, htask, hat.mono hH, hended⟩
  · trivial

/-- What holds of the world and the transcripts at every moment. -/
structure GraphSound (agent : AgentSettings) (s : World × TaskRecording) : Prop where
  keyed : s.1.Keyed
  stored : ∀ threadId checkpoint, s.1.checkpoints threadId = some checkpoint →
    agent.Reach s.2.happened threadId checkpoint
  permitted : ∀ i past e rest, s.2 i = past ++ e :: rest →
    agent.Permitted s.2.happened past e.call

/-- Nothing that has happened is undone, and no thread speaks for another. -/
def graphDiscipline (agent : AgentSettings) :
    Discipline (World × TaskRecording) TaskRequest TaskResult where
  inv := agent.GraphSound
  rely
    | none, s, s' => s.2.happened ⊆ s'.2.happened
    | some i, s, s' => s.2.happened ⊆ s'.2.happened ∧ s'.2 i = s.2 i
  post _ _ _ := True
  refl j s := by
    cases j with
    | none => exact subset_rfl
    | some i => exact ⟨subset_rfl, rfl⟩
  trans {j s s' s''} h h' := by
    cases j with
    | none => exact subset_trans h h'
    | some i => exact ⟨subset_trans h.1 h'.1, h'.2.trans h.2⟩
  post_stable _ _ := trivial

end AgentSettings

namespace AgentSettings

section Protocol

variable {agent : AgentSettings} {settings : Settings} {orchestrator : Orchestrator} {i : ℕ}
  {c : TaskCall} {ch : TaskChoice} {s s' : World × TaskRecording} {r : Except Exn c.Reply}

/-- A permitted call keeps the discipline. -/
theorem graph_keeps (hinv : agent.GraphSound s) (hc : agent.Permitted s.2.happened (s.2 i) c)
    (h : (taskMachine settings orchestrator).recorded.answer i c ch s = some (r, s')) :
    (graphDiscipline agent).Keeps i s s' := by
  obtain ⟨hanswer, hrecord⟩ := Machine.recorded_answer h
  have hgrows : s.2.happened ⊆ s'.2.happened := by
    rw [hrecord, Record.happened_push]
    exact Set.subset_insert ..
  refine ⟨⟨hinv.keyed.answer hanswer, ?_, ?_⟩, ?_⟩
  · intro threadId checkpoint hstored
    rcases checkpoints_of_answer hanswer with heq | ⟨t, new, rfl, heq⟩
    · exact (hinv.stored threadId checkpoint (heq ▸ hstored)).mono hgrows
    · rw [heq, Function.update_apply] at hstored
      split at hstored
      · next ht =>
          cases hstored
          rw [ht]
          exact (Commits.reach hc).mono hgrows
      · exact (hinv.stored threadId checkpoint hstored).mono hgrows
  · intro j past e rest hpast
    by_cases hj : j = i
    · subst hj
      rw [hrecord, Record.push_self] at hpast
      rcases List.eq_nil_or_concat rest with rfl | ⟨rest, last, rfl⟩
      · obtain ⟨rfl, heq⟩ := List.append_inj' hpast rfl
        rw [← (List.cons.inj heq).1]
        exact hc.mono hgrows
      · have hsplit : s.2 j ++ [⟨c, r⟩] = (past ++ e :: rest) ++ [last] := by simpa using hpast
        exact (hinv.permitted j past e rest (List.append_inj' hsplit rfl).1).mono hgrows
    · rw [hrecord, Record.push_of_ne _ hj] at hpast
      exact (hinv.permitted j past e rest hpast).mono hgrows
  · intro j hj
    cases j with
    | none => exact hgrows
    | some j =>
        refine ⟨hgrows, ?_⟩
        rw [hrecord, Record.push_of_ne]
        exact fun heq => hj (by rw [heq])

variable (agent settings orchestrator i) in
/-- The protocol of the process `i`. -/
abbrev graphProtocol : Protocol Exn TaskCall TaskCall.Reply (World × TaskRecording) :=
  (graphDiscipline agent).protocol (taskMachine settings orchestrator).recorded .any i

theorem graph_may (hc : agent.Permitted s.2.happened (s.2 i) c) :
    (graphProtocol agent settings orchestrator i).may c s := by
  intro s' hrely hinv ch r s'' _ h
  refine graph_keeps hinv ?_ h
  rw [hrely.2]
  exact hc.mono hrely.1

/-- What a process knows after a call. -/
theorem graph_next (h : (graphProtocol agent settings orchestrator i).next c s r s') :
    s.2.happened ⊆ s'.2.happened ∧ (⟨c, r⟩ : TaskExchange) ∈ s'.2.happened ∧
      s'.2 i = s.2 i ++ [⟨c, r⟩] := by
  obtain ⟨s₁, ch, hrely, -, -, hanswer⟩ := h
  obtain ⟨-, hrecord⟩ := Machine.recorded_answer hanswer
  rw [hrecord, Record.happened_push, Record.push_self, hrely.2]
  exact ⟨subset_trans hrely.1 (Set.subset_insert ..), Set.mem_insert .., rfl⟩

/-- A checkpoint that is read is in reach. -/
theorem reach_of_read {threadId : String} {checkpoint : Checkpoint}
    (h : (graphProtocol agent settings orchestrator i).next (.getCheckpoint threadId) s
      (.ok (some checkpoint)) s') : agent.Reach s'.2.happened threadId checkpoint := by
  have hgrows := (graph_next h).1
  obtain ⟨s₁, ch, hrely, hinv, -, hanswer⟩ := h
  obtain ⟨hanswer, hrecord⟩ := Machine.recorded_answer hanswer
  have hrun := execute_of_answer hanswer
  have hread : s₁.1.checkpoints threadId = some checkpoint := by
    simp only [TaskCall.execute, Except.ok.injEq, Prod.mk.injEq] at hrun
    exact hrun.1
  apply (hinv.stored threadId checkpoint hread).mono
  rw [hrecord, Record.happened_push]
  exact Set.subset_insert ..

/-- Time passes without a move of the run of process `i` to another checkpoint. -/
def Later (i : ℕ) (s s' : World × TaskRecording) : Prop :=
  s.2.happened ⊆ s'.2.happened ∧ currentCheckpoint (s'.2 i) = currentCheckpoint (s.2 i)

instance : IsPreorder (World × TaskRecording) (Later i) where
  refl _ := ⟨subset_rfl, rfl⟩
  trans _ _ _ h h' := ⟨subset_trans h.1 h'.1, h'.2.trans h.2⟩

theorem At.later {threadId : String} {checkpoint : Checkpoint} (hs : Later i s s')
    (h : agent.At s.2.happened (s.2 i) threadId checkpoint) :
    agent.At s'.2.happened (s'.2 i) threadId checkpoint :=
  ⟨hs.2.trans h.1, h.2.mono hs.1⟩

theorem later_of_next (hc : c.movesCheckpoint = false)
    (h : (graphProtocol agent settings orchestrator i).next c s r s') : Later i s s' := by
  obtain ⟨hgrows, -, hpast⟩ := graph_next h
  refine ⟨hgrows, ?_⟩
  rw [hpast, currentCheckpoint_snoc, checkpointAfter_of_other hc]

variable {α β : Type} {Q : β → World × TaskRecording → Prop}

/-- A call of a node, and what follows its return or its raise. -/
theorem beside_call {f : c.Reply → TaskProgram β} {h : Exn → TaskProgram β}
    (hmoves : c.movesCheckpoint = false)
    (hmay : ∀ s', Later i s s' → agent.Permitted s'.2.happened (s'.2 i) c)
    (hf : ∀ b s', Later i s s' → Replied s'.2.happened c b →
      (f b).Beside (graphProtocol agent settings orchestrator i) (Later i) Q s')
    (hh : ∀ e s', Later i s s' →
      (h e).Beside (graphProtocol agent settings orchestrator i) (Later i) Q s') :
    (c.perform.handle f h).Beside (graphProtocol agent settings orchestrator i) (Later i) Q s := by
  intro s' hs
  refine ⟨graph_may (hmay s' hs), fun r s'' hr => ?_⟩
  have hlater := later_of_next hmoves hr
  refine ⟨hlater, ?_⟩
  cases r with
  | ok b => exact hf b s'' (trans_of (Later i) hs hlater) (graph_next hr).2.1
  | error e => exact hh e s'' (trans_of (Later i) hs hlater)

/-- What a node raises is of no concern. -/
theorem beside_ofExcept {x : Except Exn α} {f : α → TaskProgram β}
    (hf : ∀ a, x = .ok a →
      (f a).Beside (graphProtocol agent settings orchestrator i) (Later i) Q s) :
    (Program.ofExcept x >>= f).Beside (graphProtocol agent settings orchestrator i) (Later i) Q
      s := by
  cases x with
  | ok a => exact hf a rfl
  | error e => trivial

variable (agent settings orchestrator i) in
/-- The program of a node at a state, run among coroutines. -/
abbrev NodeReturns (state : AgentState) (node : GraphNode) (p : NodeProgram)
    (s : World × TaskRecording) : Prop :=
  p.Beside (graphProtocol agent settings orchestrator i) (Later i)
    (fun result s => agent.Returns s.2.happened state node result) s

/-- A node that ends by reporting what it returns. -/
theorem nodeReturns_report {state : AgentState} {node : GraphNode} {event : TaskEvent}
    {result : NodeResult} (h : agent.Returns s.2.happened state node result) :
    NodeReturns agent settings orchestrator i state node
      ((TaskCall.appendEvent state.taskId event).perform >>= fun _ => pure result) s := by
  apply beside_call rfl
  · exact fun _ _ => trivial
  · exact fun _ s' hs _ => h.mono hs.1
  · exact fun _ _ _ => trivial

theorem nodeReturns_scope (state : AgentState) (resume : Option ResumeValue) :
    NodeReturns agent settings orchestrator i state .scope (scopeNode state resume) s := by
  unfold scopeNode
  split
  · next hgiven => exact nodeReturns_report (.given hgiven)
  next hopen =>
  have hopen : truthy state.productId = false := by simpa using hopen
  apply beside_call rfl
  · exact fun _ _ => trivial
  · intro candidates s₁ hs₁ hreplied
    split
    · next candidate => exact nodeReturns_report (.resolved hopen hreplied)
    split
    · exact .asked hopen hreplied
    · next decision =>
        unfold confirmScope
        split
        · trivial
        · apply beside_call rfl
          · exact fun _ _ => trivial
          · intro items s₂ hs₂ hreplied₂
            split
            · trivial
            · next hmem =>
                exact nodeReturns_report (.confirmed hopen hreplied₂ (by simpa using hmem))
          · exact fun _ _ _ => trivial
  · exact fun _ _ _ => trivial

theorem nodeReturns_metrics (state : AgentState) :
    NodeReturns agent settings orchestrator i state .metrics (metricsNode state) s := by
  apply beside_ofExcept
  intro productId hproduct
  apply beside_call rfl
  · exact fun _ _ => trivial
  · exact fun metrics s₁ _ hreplied => nodeReturns_report (.measured hproduct hreplied)
  · exact fun _ _ _ => trivial

section Nodes

variable {threadId : String} {checkpoint : Checkpoint}

theorem nodeReturns_model (hat : agent.At s.2.happened (s.2 i) threadId checkpoint)
    (hnext : checkpoint.next = some .model) :
    NodeReturns agent settings orchestrator i checkpoint.state .model
      (agent.modelNode checkpoint.state) s := by
  unfold modelNode
  split
  · trivial
  next hiteration =>
  have hiteration : checkpoint.state.iteration < agent.maxIterations := not_le.1 hiteration
  apply beside_ofExcept
  intro prompt _
  apply beside_call rfl
  · exact fun s₁ hs₁ => ⟨threadId, checkpoint, hat.later hs₁, hnext, hiteration, rfl⟩
  · intro turn s₁ hs₁ hreplied
    apply beside_ofExcept
    exact fun diagnosis hread => nodeReturns_report (.turned hiteration hreplied hread)
  · exact fun _ _ _ => trivial

theorem beside_executeTool (hat : agent.At s.2.happened (s.2 i) threadId checkpoint)
    (hnext : checkpoint.next = some .tools) (call : ToolCall) :
    (agent.executeTool checkpoint.state call).Beside
      (graphProtocol agent settings orchestrator i) (Later i)
      (fun message s => agent.Answers s.2.happened checkpoint.state call message) s := by
  unfold executeTool
  split
  · trivial
  next hregistered =>
  apply beside_ofExcept
  intro productId hproduct
  apply beside_ofExcept
  intro _ hscope
  have hcall : agent.Executable checkpoint.state call :=
    ⟨not_not.1 hregistered, productId, hproduct, hscope⟩
  apply beside_call rfl
  · exact fun _ _ => trivial
  · intro _ s₁ hs₁ _
    rw [Program.bind_eq, Program.handle_handle]
    apply beside_call rfl
    · intro s₂ hs₂
      refine ⟨checkpoint, ?_, hnext, hcall⟩
      rw [hat.2.taskId]
      exact hat.later (trans_of (Later i) hs₁ hs₂)
    · intro result s₂ _ hreplied
      apply beside_call rfl
      · exact fun _ _ => trivial
      · exact fun _ s₃ hs₃ _ => ⟨hcall, result, hreplied.mono hs₃.1, rfl⟩
      · exact fun _ _ _ => trivial
    · intro exc s₂ _
      unfold reportToolFailed
      split
      · trivial
      · rw [Program.bind_eq, Program.handle_handle]
        apply beside_call rfl
        · exact fun _ _ => trivial
        · exact fun _ _ _ _ => trivial
        · exact fun _ _ _ => trivial
  · exact fun _ _ _ => trivial

theorem beside_schedule (s : World × TaskRecording) :
    TaskCall.schedule.perform.Beside (graphProtocol agent settings orchestrator i) (Later i)
      (fun _ s' => Later i s s') s := by
  rw [← Program.handle_pure_throw TaskCall.schedule.perform]
  apply beside_call rfl
  · exact fun _ _ => trivial
  · exact fun _ s' hs' _ => hs'
  · exact fun _ _ _ => trivial

theorem nodeReturns_tools (hat : agent.At s.2.happened (s.2 i) threadId checkpoint)
    (hnext : checkpoint.next = some .tools) :
    NodeReturns agent settings orchestrator i checkpoint.state .tools
      (agent.toolNode checkpoint.state) s := by
  unfold toolNode
  split
  · trivial
  next lastMessage hlast =>
  apply Program.Beside.handle (fun _ _ => by trivial)
  apply (Program.Beside.gather beside_schedule ?_ fun call _ =>
    beside_executeTool hat hnext call).mono
  · exact fun messages s₁ hanswers => .answered hlast hanswers
  · intro call message s₁ s₂ hs hanswer
    obtain ⟨hcall, result, hreplied, hmessage⟩ := hanswer
    exact ⟨hcall, result, hreplied.mono hs.1, hmessage⟩

theorem nodeReturns_validate (state : AgentState) :
    NodeReturns agent settings orchestrator i state .validate (agent.validationNode state) s := by
  apply beside_ofExcept
  intro errors herrors
  change NodeReturns _ _ _ _ _ _ (if _ then _ else _) _
  split
  · next h => exact nodeReturns_report (.reflected herrors h.1 h.2)
  split
  · trivial
  · next h =>
      rw [not_not.1 h] at herrors
      exact nodeReturns_report (.accepted herrors)

theorem permitted_graph (hat : agent.At s.2.happened (s.2 i) threadId checkpoint)
    (hs : Later i s s') {lc : LedgerCall} (hstep : LedgerStep s'.2.happened checkpoint lc) :
    agent.Permitted s'.2.happened (s'.2 i) (.graph checkpoint.state.taskId lc) := by
  refine ⟨checkpoint, ?_, hstep⟩
  rw [hat.2.taskId]
  exact hat.later hs

theorem beside_createPlan (hat : agent.At s.2.happened (s.2 i) threadId checkpoint)
    (hnext : checkpoint.next = some .plan) {diagnosis : Diagnosis} {patch : ProductPatch}
    (hdiagnosis : checkpoint.state.diagnosis = some (.ok diagnosis))
    (hpatch : diagnosis.proposedPatch = some patch) {productId : String}
    (hproduct : requireProductId checkpoint.state = .ok productId) :
    ((createPlanSync checkpoint.state.taskId checkpoint.state.merchantId productId patch).lift
      (TaskCall.graph checkpoint.state.taskId)).Beside
        (graphProtocol agent settings orchestrator i) (Later i)
        (fun plan s => Created s.2.happened checkpoint.state productId patch plan) s := by
  rw [createPlanSync, Program.bind_eq, Program.lift_handle, Program.lift_perform]
  apply beside_call rfl
  · exact fun s₁ hs₁ => permitted_graph hat hs₁ ⟨hnext, rfl⟩
  · intro existing s₁ hs₁ hreplied
    cases existing with
    | some plan => exact .inl hreplied
    | none =>
        simp only [Program.bind_eq, Program.lift_handle, Program.lift_perform]
        apply beside_call rfl
        · exact fun s₂ hs₂ =>
            permitted_graph hat (trans_of (Later i) hs₁ hs₂) ⟨hnext, rfl, hproduct⟩
        · intro product s₂ hs₂ _
          cases product with
          | none => trivial
          | some row =>
              simp only [Program.lift_perform]
              rw [← Program.handle_pure_throw (Program.perform _)]
              apply beside_call rfl
              · exact fun s₃ hs₃ =>
                  permitted_graph hat (trans_of (Later i) (trans_of (Later i) hs₁ hs₂) hs₃)
                    ⟨hnext, diagnosis, productId, patch, row.1, row.2, hdiagnosis, hpatch,
                      hproduct, rfl⟩
              · exact fun plan s₃ _ hreplied => .inr ⟨row.1, row.2, hreplied⟩
              · exact fun _ _ _ => trivial
        · exact fun _ _ _ => trivial
  · exact fun _ _ _ => trivial

theorem nodeReturns_plan (hat : agent.At s.2.happened (s.2 i) threadId checkpoint)
    (hnext : checkpoint.next = some .plan) :
    NodeReturns agent settings orchestrator i checkpoint.state .plan
      (agent.planNode checkpoint.state) s := by
  unfold planNode
  split
  · next diagnosis hdiagnosis =>
      apply beside_ofExcept
      intro result _
      split
      · next hpatch => exact Returns.concluded hdiagnosis hpatch
      · next patch hpatch =>
          apply beside_ofExcept
          intro productId hproduct
          apply Program.Beside.handle (fun _ _ => by trivial)
          apply (beside_createPlan hat hnext hdiagnosis hpatch hproduct).mono
          exact fun plan s₁ hcreated => .planned hdiagnosis hpatch hproduct hcreated
  · trivial

theorem nodeReturns_approval (hat : agent.At s.2.happened (s.2 i) threadId checkpoint)
    (hnext : checkpoint.next = some .approval) (resume : Option ResumeValue) :
    NodeReturns agent settings orchestrator i checkpoint.state .approval
      (approvalNode checkpoint.state resume) s := by
  unfold approvalNode
  split
  · trivial
  next interaction hinteraction =>
  split
  · exact Returns.shown hinteraction
  next decision =>
  split
  · trivial
  have hne : checkpoint.state.interaction ≠ none := by simp [hinteraction]
  apply beside_call rfl
  · exact fun s₁ hs₁ => permitted_graph hat hs₁ hnext
  · intro approval s₁ hs₁ hreplied
    cases approval with
    | none => trivial
    | some approval =>
        change NodeReturns _ _ _ _ _ _ (if _ then _ else _) _
        split
        · next hdecision => exact nodeReturns_report (.rejected hne hreplied hdecision)
        · next hdecision =>
            apply beside_call rfl
            · exact fun s₂ hs₂ => permitted_graph hat (trans_of (Later i) hs₁ hs₂)
                ⟨hnext, approval, hreplied.mono hs₂.1, hdecision⟩
            · exact fun receipt s₂ hs₂ hreceipt =>
                nodeReturns_report (.applied hne (hreplied.mono hs₂.1) hdecision hreceipt)
            · exact fun _ _ _ => trivial
  · exact fun _ _ _ => trivial

/-- A node returns, from the checkpoint that the run works on, what it can return. -/
theorem nodeReturns (hat : agent.At s.2.happened (s.2 i) threadId checkpoint) {node : GraphNode}
    (hnext : checkpoint.next = some node) (resume : Option ResumeValue) :
    NodeReturns agent settings orchestrator i checkpoint.state node
      (agent.node node checkpoint.state resume) s := by
  cases node with
  | scope => exact nodeReturns_scope _ _
  | metrics => exact nodeReturns_metrics _
  | model => exact nodeReturns_model hat hnext
  | tools => exact nodeReturns_tools hat hnext
  | validate => exact nodeReturns_validate _
  | plan => exact nodeReturns_plan hat hnext
  | approval => exact nodeReturns_approval hat hnext resume

/-- A commit moves the run to the new checkpoint. -/
theorem at_of_commit {next : Checkpoint}
    (hcommits : agent.Commits s.2.happened (s.2 i) threadId next)
    (h : (graphProtocol agent settings orchestrator i).next (.putCheckpoint threadId next) s
      (.ok ()) s') : agent.At s'.2.happened (s'.2 i) threadId next := by
  obtain ⟨hgrows, -, hpast⟩ := graph_next h
  refine ⟨?_, hcommits.reach.mono hgrows⟩
  rw [hpast, currentCheckpoint_snoc]
  rfl

/-- A run of the graph ends at a checkpoint in reach. -/
theorem follows_runFrom (limit : ℕ) :
    ∀ (checkpoint : Checkpoint) (resume : Option ResumeValue) (s : World × TaskRecording),
      agent.At s.2.happened (s.2 i) threadId checkpoint →
        (agent.runFrom threadId limit checkpoint resume).Follows
          (graphProtocol agent settings orchestrator i)
          (fun result s => agent.At s.2.happened (s.2 i) threadId result ∧ result.Ended)
          (fun _ _ => True) s := by
  induction limit with
  | zero => exact fun _ _ _ _ => trivial
  | succ limit ih =>
      intro checkpoint resume s hat
      unfold runFrom
      split
      · next hend => exact ⟨hat, .inl hend⟩
      next node hnext =>
      apply Program.follows_call
      · exact graph_may ⟨checkpoint, hat, hnext⟩
      · intro _ s₁ hr₁
        have hat₁ := hat.later (later_of_next rfl hr₁)
        apply Program.Follows.handle
        have hnode : NodeReturns agent settings orchestrator i checkpoint.state node
          (agent.node node checkpoint.state resume) s₁ := nodeReturns hat₁ hnext resume
        refine (hnode.since (refl_of (Later i) s₁)).follows.mono ?_ fun _ _ _ => trivial
        rintro result s₂ ⟨hresult, hlater⟩
        have hcommits : agent.Commits s₂.2.happened (s₂.2 i) threadId
            (checkpoint.commit node result) :=
          .inr ⟨checkpoint, node, result, hat₁.later hlater, hnext, hresult, rfl⟩
        apply Program.follows_call
        · exact graph_may hcommits
        · intro _ s₃ hr₃
          have hat₃ := at_of_commit hcommits hr₃
          cases result with
          | interrupt interaction => exact ⟨hat₃, .inr (by simp [Checkpoint.commit])⟩
          | update state => exact ih _ _ s₃ hat₃
        · exact fun _ _ _ => trivial
      · exact fun _ _ _ => trivial

/-- What an orchestrator may return for a thread: the outcome of the checkpoint that it
works on. -/
def OutcomeOf (agent : AgentSettings) (H : Set TaskExchange) (past : List TaskExchange)
    (threadId : String) (outcome : RunOutcome) : Prop :=
  ∃ checkpoint, agent.At H past threadId checkpoint ∧ checkpoint.Ended ∧
    outcome = checkpoint.outcome

theorem follows_invoke (limit : ℕ) (resume : Option ResumeValue)
    (hat : agent.At s.2.happened (s.2 i) threadId checkpoint) :
    (agent.invoke limit threadId checkpoint resume).Follows
      (graphProtocol agent settings orchestrator i)
      (fun outcome s => agent.OutcomeOf s.2.happened (s.2 i) threadId outcome)
      (fun _ _ => True) s := by
  apply Program.Follows.bind
  refine (follows_runFrom limit checkpoint resume s hat).mono ?_ fun _ _ _ => trivial
  exact fun result s₁ hresult => ⟨result, hresult.1, hresult.2, rfl⟩

theorem follows_resumeThread (limit : ℕ) (resumeKind : Option ResumeKind)
    (resumeId : Option String) (hat : agent.At s.2.happened (s.2 i) threadId checkpoint) :
    (agent.resumeThread limit threadId resumeKind resumeId checkpoint).Follows
      (graphProtocol agent settings orchestrator i)
      (fun outcome s => agent.OutcomeOf s.2.happened (s.2 i) threadId outcome)
      (fun _ _ => True) s := by
  unfold resumeThread
  split
  · next interaction hinteraction =>
      split
      · refine ⟨checkpoint, hat, .inr (by simp [hinteraction]), ?_⟩
        rw [Checkpoint.outcome, hinteraction]
      split
      · trivial
      · exact follows_invoke limit _ hat
  · split
    · trivial
    · exact follows_invoke limit none hat

end Nodes

theorem follows_startThread (limit : ℕ) (task : TaskRecord) (resumeKind : Option ResumeKind)
    (hnone : currentCheckpoint (s.2 i) = none) :
    (agent.startThread limit task resumeKind).Follows
      (graphProtocol agent settings orchestrator i)
      (fun outcome s => agent.OutcomeOf s.2.happened (s.2 i) task.taskId outcome)
      (fun _ _ => True) s := by
  unfold startThread
  split
  · trivial
  have hcommits : agent.Commits s.2.happened (s.2 i) task.taskId task.initialCheckpoint :=
    .inl ⟨hnone, task, rfl, rfl⟩
  apply Program.follows_call
  · exact graph_may hcommits
  · exact fun _ s₁ hr₁ => follows_invoke limit none (at_of_commit hcommits hr₁)
  · exact fun _ _ _ => trivial

/-- A run of the orchestrator. -/
theorem follows_run (limit : ℕ) (task : TaskRecord) (resumeKind : Option ResumeKind)
    (resumeId : Option String) (s : World × TaskRecording) :
    (agent.run limit task resumeKind resumeId).Follows
      (graphProtocol agent settings orchestrator i)
      (fun outcome s => agent.OutcomeOf s.2.happened (s.2 i) task.taskId outcome)
      (fun _ _ => True) s := by
  unfold run
  split
  · trivial
  apply Program.follows_call
  · exact graph_may (by trivial)
  · intro found s₁ hr₁
    have hcurrent : currentCheckpoint (s₁.2 i) = found := by
      rw [(graph_next hr₁).2.2, currentCheckpoint_snoc]
      rfl
    cases found with
    | none => exact follows_startThread limit task resumeKind hcurrent
    | some checkpoint =>
        exact follows_resumeThread limit resumeKind resumeId ⟨hcurrent, reach_of_read hr₁⟩
  · exact fun _ _ _ => trivial

theorem follows_orchestrator (task : TaskRecord) (resumeKind : Option ResumeKind)
    (resumeId : Option String) (s : World × TaskRecording) :
    (agent.orchestrator task resumeKind resumeId).Follows
      (graphProtocol agent settings orchestrator i)
      (fun outcome s => agent.OutcomeOf s.2.happened (s.2 i) task.taskId outcome)
      (fun _ _ => True) s :=
  .handle ((follows_run agent.recursionLimit task resumeKind resumeId s).mono (fun _ _ h => h)
    fun _ _ _ => trivial)

/-- What the processes know, of the graph: whose record they run, and where an outcome
comes from. -/
def graphKnowledge (agent : AgentSettings) (i : ℕ) : Knowledge → World × TaskRecording → Prop
  | .matched payload task, _ => task.taskId = payload.taskId
  | .ran payload _ outcome, s => agent.OutcomeOf s.2.happened (s.2 i) payload.taskId outcome
  | _, _ => True

/-- A call that is not the graph's. -/
theorem graph_may_save {site : Site} {task : TaskRecord}
    (hsite : ∀ payload, site ≠ .outcome payload) :
    (graphProtocol agent settings orchestrator i).may (.saveTask site task) s := by
  apply graph_may
  cases site with
  | outcome payload => exact absurd rfl (hsite payload)
  | _ => trivial

theorem graph_read {site : Site} {taskId : String} {task : TaskRecord}
    (h : (graphProtocol agent settings orchestrator i).next (.getTask site taskId) s
      (.ok (some task)) s') : task.taskId = taskId := by
  obtain ⟨s₁, ch, -, hinv, -, hanswer⟩ := h
  have hread := read_of_answer (Machine.recorded_answer hanswer).1
  exact hinv.keyed taskId task hread.1.symm

theorem graphOutline :
    Outline settings (graphProtocol agent settings orchestrator i) (graphKnowledge agent i) where
  neutral c s hc := by
    refine ⟨graph_may ?_, fun r s' h k hk => ?_⟩
    · cases c <;> trivial
    · cases k with
      | ran payload task outcome =>
          obtain ⟨checkpoint, hat, hended⟩ := hk
          have hmoves : c.movesCheckpoint = false := by
            cases c <;> first | rfl | cases hc
          exact ⟨checkpoint, hat.later (later_of_next hmoves h), hended⟩
      | _ => exact hk
  acquire payload ttl s _ := ⟨graph_may trivial, fun b _ _ => by cases b <;> trivial⟩
  delay payload s _ := graph_may trivial
  release payload s _ := graph_may trivial
  read site taskId s _ := ⟨graph_may trivial, fun _ _ h => ⟨graph_read h, trivial⟩⟩
  readMessage payload s _ :=
    ⟨graph_may trivial, fun _ _ h => ⟨graph_read h, trivial⟩, fun _ _ => trivial,
      fun _ _ _ => trivial⟩
  dismiss payload s _ := ⟨fun _ _ => trivial, fun _ _ _ => trivial⟩
  ignore payload task s _ := ⟨fun _ _ => trivial, fun _ _ _ => trivial⟩
  raise payload c e s s' _ _ _ := trivial
  concluded payload s _ := trivial
  readFailure payload exc s _ :=
    ⟨graph_may trivial, fun _ _ h => ⟨graph_read h, trivial⟩, fun _ _ => trivial,
      fun _ _ _ => trivial⟩
  failed payload task s _ := trivial
  setNew request s := ⟨graph_may trivial, fun _ _ => trivial⟩
  createScript request key s := ⟨graph_may trivial, fun _ _ _ => trivial⟩
  input task productId s _ _ := ⟨graph_may trivial, fun _ _ => trivial⟩
  record request task s _ _ := ⟨graph_may trivial, fun _ _ _ => trivial⟩
  approval task approvalId status s _ _ := ⟨graph_may trivial, fun _ _ => trivial⟩
  resumed task s _ _ := ⟨graph_may trivial, fun _ _ => trivial⟩
  publish task past payload s _ _ := ⟨graph_may trivial, fun _ _ _ => trivial⟩
  publishFailed site task past errorMessage interaction s _ _ _ hsite :=
    graph_may_save fun payload heq => by
      rw [heq] at hsite
      cases hsite
  started payload task s _ htask _ _ :=
    ⟨graph_may trivial, fun _ _ => htask, fun _ _ _ => trivial⟩
  outcome payload task outcome s hk := by
    obtain ⟨checkpoint, hat, hended, rfl⟩ := hk
    exact ⟨graph_may ⟨task, checkpoint, rfl, hat, hended⟩, fun _ _ => trivial, fun _ _ _ => trivial⟩
  failedRun payload exc task graphStarted status s _ _ _ _ :=
    ⟨graph_may trivial, fun _ _ => trivial, fun _ _ _ => trivial⟩
  publishRetry payload task retryPayload s _ _ _ := ⟨graph_may trivial, fun _ _ _ => trivial⟩
  retryFailed payload task errorMessage interaction s _ _ _ _ :=
    ⟨graph_may trivial, fun _ _ _ => trivial⟩

theorem graph_runs (payload : QueueMessage) :
    Outline.Runs (graphProtocol agent settings orchestrator i) (graphKnowledge agent i)
      agent.orchestrator payload := by
  intro task s hk
  refine (follows_orchestrator task _ _ s).mono ?_ fun _ _ _ => trivial
  intro outcome s' houtcome
  have htask : task.taskId = payload.taskId := hk
  rw [htask] at houtcome
  exact houtcome

/-- Every program of the task system keeps the discipline of the graph. -/
theorem graph_safe (q : TaskRequest) (s : World × TaskRecording) :
    (graphDiscipline agent).Safe (taskMachine settings orchestrator).recorded .any i
      ((graphDiscipline agent).post q) (fun _ _ => True)
      (q.program settings agent.orchestrator) s := by
  apply Discipline.Safe.of_follows
  by_cases hq : ∃ request, q = .ledger request
  · obtain ⟨request, rfl⟩ := hq
    apply Program.Follows.bind
    apply Program.Follows.of_only (G := fun c : TaskCall => ∃ lc, c = .ledger lc)
      (V := fun _ => True)
    · rintro c s ⟨lc, rfl⟩
      exact graph_may trivial
    · exact fun _ _ _ => trivial
    · exact fun _ _ => trivial
    · exact Program.only_lift (P := fun c : TaskCall => ∃ lc, c = .ledger lc)
        (fun lc => ⟨lc, rfl⟩) _
  · exact graphOutline.follows_program graph_runs (fun request heq => hq ⟨request, heq⟩)
      fun _ _ => trivial

/-- What leaves the records' keys, the checkpoints and the transcripts alone keeps the
discipline. -/
theorem graph_frame {w w' : World} (g : TaskRecording) (hinv : agent.GraphSound (w, g))
    (hkeyed : w'.Keyed) (hcheckpoints : w'.checkpoints = w.checkpoints) :
    (graphDiscipline agent).inv (w', g) ∧ ∀ j, (graphDiscipline agent).rely j (w, g) (w', g) := by
  refine ⟨⟨hkeyed, fun threadId checkpoint hstored => ?_, hinv.permitted⟩, fun j => ?_⟩
  · exact hinv.stored threadId checkpoint (hcheckpoints ▸ hstored)
  · cases j with
    | none => exact subset_rfl
    | some j => exact ⟨subset_rfl, rfl⟩

theorem graphSound : (graphDiscipline agent).Sound
    (taskMachine settings agent.orchestrator).recorded .any where
  start i q s s' hinv _ haccept := by
    obtain ⟨w, g⟩ := s
    obtain ⟨w', haccepted, heq⟩ := Option.map_eq_some_iff.1 haccept
    cases heq
    have hframe := graph_frame g hinv (hinv.keyed.of_records (records_of_accept haccepted))
      (checkpoints_of_accept haccepted)
    exact ⟨⟨hframe.1, fun j _ => hframe.2 j⟩, graph_safe q _⟩
  crash i s hinv _ := by
    obtain ⟨w, g⟩ := s
    have hframe := graph_frame g hinv (hinv.keyed.of_records (w.requeue_records i))
      (w.requeue_checkpoints i)
    exact ⟨hframe.1, fun j _ => hframe.2 j⟩
  environment e s s' hinv _ henv := by
    obtain ⟨w, g⟩ := s
    obtain ⟨w', hchange, heq⟩ := Option.map_eq_some_iff.1 henv
    cases heq
    exact graph_frame g hinv (hinv.keyed.environment hchange) (checkpoints_of_environment hchange)

end Protocol

/-- The transcripts of a run of the task system with the graph. -/
abbrev transcripts (agent : AgentSettings) (settings : Settings)
    (h : List (TaskConfig × TaskAction)) : TaskRecording :=
  fun i => (taskMachine settings agent.orchestrator).transcript i h

/-- In every run of the task system, each stored checkpoint is in reach of its thread,
and each call is permitted where it was made. -/
theorem graph_run {agent : AgentSettings} {settings : Settings}
    {h : List (TaskConfig × TaskAction)} {c : TaskConfig}
    (run : (taskMachine settings agent.orchestrator).Run .any (.initial World.fresh) h c) :
    agent.GraphSound (c.state, agent.transcripts settings h) := by
  obtain ⟨h', run'⟩ := run.recorded
  have hfresh : agent.GraphSound (World.fresh, fun _ => []) := by
    refine ⟨World.keyed_fresh, ?_, ?_⟩
    · exact fun threadId checkpoint hstored => by cases hstored
    · intro i past e rest hpast
      simp at hpast
  exact (graphSound.run hfresh run').1.inv

/-- Each call of a run is permitted at the step that makes it. -/
theorem graph_call {agent : AgentSettings} {settings : Settings}
    {h : List (TaskConfig × TaskAction)} {c c' : TaskConfig}
    (run : (taskMachine settings agent.orchestrator).Run .any (.initial World.fresh) h c)
    {i : ℕ} {ch : TaskChoice} {q : TaskRequest} {cl : TaskCall}
    {k : Except Exn cl.Reply → TaskProgram TaskResult}
    (step : (taskMachine settings agent.orchestrator).step (.call i ch) c = some c')
    (hslot : c.pool i = .running q (.call cl k)) :
    ∃ r, agent.transcripts settings (h ++ [(c, .call i ch)]) i =
        agent.transcripts settings h i ++ [⟨cl, r⟩] ∧
      agent.Permitted (agent.transcripts settings (h ++ [(c, .call i ch)])).happened
        (agent.transcripts settings h i) cl := by
  obtain ⟨q', cl', k', r, s, hslot', hanswer, -⟩ := Machine.step_call _ step
  have htranscript : agent.transcripts settings (h ++ [(c, .call i ch)]) i =
      agent.transcripts settings h i ++ [⟨cl', r⟩] := by
    rw [transcripts, Machine.transcript_snoc, Machine.exchange_call hslot' hanswer]
    rfl
  rw [hslot, Slot.running.injEq, Program.call.injEq] at hslot'
  obtain ⟨-, rfl, -⟩ := hslot'
  have hsound := graph_run (run.snoc (Policy.permits_any ..) step)
  exact ⟨r, htranscript, hsound.permitted i _ _ [] htranscript⟩

end AgentSettings

/-- The call of a read tool in the scope of the task. -/
def demoToolCall : ToolCall where
  callId := "call-1"
  name := "get_metrics"
  arguments := [("merchant_id", .str demoMerchantId), ("product_id", .str demoProductId)]

/-- A task is created and its message handled up to the model's first turn. -/
def demoStartActions : List TaskAction :=
  [.start 0 (.createTask demoRequest), .call 0 {}, .call 0 {}, .call 0 {},
   .start 1 (.ledger .initializeSync), .call 1 {},
   .start 2 (.handleMessage (.ok demoMessage))] ++ List.replicate 14 (.call 2 {})

/-- The same up to the model's second turn; the first one has called a tool. -/
def demoToolActions : List TaskAction :=
  demoStartActions ++
    .call 2 { turn := { toolCalls := [demoToolCall] } } :: List.replicate 9 (.call 2 {})

end CommerceAgent
