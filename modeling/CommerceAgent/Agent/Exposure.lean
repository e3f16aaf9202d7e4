import CommerceAgent.Agent.Budget

/-!
# The interaction of a record

A client acts on what the `interaction` of a record asks for. `TaskRecord.Matched` says
that it goes with the status. Three writes can break this, and `Exposes` names them: the
worker stores the `interaction` that the approval node has left in the state of a graph
that has ended, and `_mark_running` and `_handle_failure` store a record that they have
read under another status.
-/

namespace CommerceAgent

open Effects

/-- The `type` entry. -/
def Interaction.type : Interaction → String
  | .inputRequired _ => "input.required"
  | .approvalRequired .. => "approval.required"
  | .inputResume _ => "input.resume"
  | .approvalResume _ => "approval.resume"
  | .retryResume _ => "retry.resume"

/-- The interaction of the record goes with its status. -/
structure TaskRecord.Matched (task : TaskRecord) : Prop where
  approval : task.interaction.map Interaction.type = some "approval.required" ↔
    task.status = .awaitingApproval
  input : task.interaction.map Interaction.type = some "input.required" ↔
    task.status = .awaitingInput
  resume : ∀ type ∈ task.interaction.map Interaction.type,
    type ∈ ["input.resume", "approval.resume", "retry.resume"] →
      task.status = .failed ∧ task.errorCode = some "QUEUE_PUBLISH_FAILED"

/-- Every stored record is matched. -/
def World.RecordsMatched (w : World) : Prop :=
  ∀ taskId task, w.records taskId = some task → task.Matched

section Matched

variable {task : TaskRecord}

theorem matched_of_none (hnone : task.interaction = none)
    (hstatus : task.status ∉ [.awaitingInput, .awaitingApproval]) : task.Matched := by
  simp only [List.mem_cons, List.not_mem_nil, or_false, not_or] at hstatus
  constructor <;> simp [hnone, hstatus]

theorem matched_of_resumes (hresumes : ∀ x ∈ task.interaction, x.resumes = true)
    (hstatus : task.status = .failed) (hcode : task.errorCode = some "QUEUE_PUBLISH_FAILED") :
    task.Matched := by
  constructor
  · cases hx : task.interaction with
    | none => simp [hstatus]
    | some x =>
        have hresume := hresumes x hx
        cases x <;> simp_all [Interaction.resumes, Interaction.type]
  · cases hx : task.interaction with
    | none => simp [hstatus]
    | some x =>
        have hresume := hresumes x hx
        cases x <;> simp_all [Interaction.resumes, Interaction.type]
  · exact fun _ _ _ => ⟨hstatus, hcode⟩

/-- A record that waits for nothing names at most what to resume. -/
theorem TaskRecord.Matched.resumes (h : task.Matched)
    (hstatus : task.status ∉ [.awaitingInput, .awaitingApproval]) :
    ∀ x, task.interaction = some x → x.resumes = true := by
  intro x hx
  simp only [List.mem_cons, List.not_mem_nil, or_false, not_or] at hstatus
  have hinput := mt h.input.1 hstatus.1
  have happroval := mt h.approval.1 hstatus.2
  cases x <;> simp_all [Interaction.resumes, Interaction.type]

end Matched

namespace AgentSettings

variable {agent : AgentSettings} {H : Set TaskExchange} {threadId : String}
  {checkpoint : Checkpoint}

/-- What a checkpoint can show a client. -/
structure Shows (checkpoint : Checkpoint) : Prop where
  interaction : ∀ x, checkpoint.state.interaction = some x → x.type = "approval.required"
  interrupt : ∀ x, checkpoint.interrupt = some x →
    x.type ∈ ["input.required", "approval.required"]
  status : checkpoint.state.finalStatus.getD .completed ∈ [.completed, .rejected]

theorem Reach.shows (h : agent.Reach H threadId checkpoint) : Shows checkpoint := by
  induction h with
  | initial h => constructor <;> simp [TaskRecord.initialCheckpoint, TaskRecord.initialState]
  | @step checkpoint node result _ _ hresult ih =>
      obtain ⟨hinteraction, hinterrupt, hstatus⟩ := ih
      cases hresult with
      | asked h hreplied =>
          refine ⟨hinteraction, ?_, hstatus⟩
          rintro x ⟨⟩
          simp [Interaction.type]
      | shown h =>
          refine ⟨hinteraction, ?_, hstatus⟩
          rintro x ⟨⟩
          simp [hinteraction _ h]
      | concluded hdiagnosis hpatch =>
          constructor <;> simp [Checkpoint.commit, AgentState.concluded]
      | planned hdiagnosis hpatch hproduct hcreated =>
          refine ⟨?_, by simp [Checkpoint.commit], hstatus⟩
          rintro x ⟨⟩
          rfl
      | rejected h hreplied hdecision =>
          exact ⟨hinteraction, by simp [Checkpoint.commit],
            by simp [Checkpoint.commit, AgentState.decided]⟩
      | applied h hreplied hdecision hreceipt =>
          exact ⟨hinteraction, by simp [Checkpoint.commit],
            by simp [Checkpoint.commit, AgentState.decided]⟩
      | _ => exact ⟨hinteraction, by simp [Checkpoint.commit], hstatus⟩

/-- The outcome of a run is matched, unless the graph has ended with an interaction. -/
theorem Reach.matched (h : agent.Reach H threadId checkpoint) (hended : checkpoint.Ended)
    (hclear : checkpoint.next = none → checkpoint.state.interaction = none) (task : TaskRecord) :
    (task.finished checkpoint.outcome).Matched := by
  obtain ⟨-, hinterrupt, hstatus⟩ := h.shows
  cases hx : checkpoint.interrupt with
  | none =>
      have hnone := hclear (hended.resolve_right fun h => h hx)
      apply matched_of_none
      · simp [TaskRecord.finished, Checkpoint.outcome, hx, hnone]
      · simp only [List.mem_cons, List.not_mem_nil, or_false] at hstatus
        rcases hstatus with hstatus | hstatus <;>
          simp [TaskRecord.finished, Checkpoint.outcome, hx, hstatus, RunStatus.taskStatus]
  | some x =>
      have htype := hinterrupt x hx
      cases x with
      | inputRequired candidates =>
          constructor <;> simp [TaskRecord.finished, Checkpoint.outcome, hx, interruptedOutcome,
            resumeKindForInteraction, RunStatus.taskStatus, Interaction.type]
      | approvalRequired planId planVersion actionId productId productVersion before after reason =>
          constructor <;> simp [TaskRecord.finished, Checkpoint.outcome, hx, interruptedOutcome,
            resumeKindForInteraction, RunStatus.taskStatus, Interaction.type]
      | _ => simp [Interaction.type] at htype

end AgentSettings

/-- What an exchange makes of the record that a process has read last. -/
def readAfter : TaskExchange → Option TaskRecord → Option TaskRecord
  | ⟨.getTask .., .ok found⟩, _ => found
  | _, last => last

/-- The record that a process has read last. -/
def lastRead (past : List TaskExchange) : Option TaskRecord :=
  past.foldl (fun last e => readAfter e last) none

theorem lastRead_snoc (past : List TaskExchange) (e : TaskExchange) :
    lastRead (past ++ [e]) = readAfter e (lastRead past) := by
  rw [lastRead, List.foldl_append]
  rfl

/-- The call stores the outcome of a graph that has ended with an interaction, or another
status for a record that was read with one. -/
def exposes (past : List TaskExchange) : TaskCall → Bool
  | .saveTask (.outcome _) _ => (currentCheckpoint past).any fun checkpoint =>
      checkpoint.next.isNone && checkpoint.state.interaction.isSome
  | .saveTask (.markRunning _) _ | .saveTask (.handleFailure _) _ =>
      (lastRead past).any fun task => task.interaction.isSome
  | _ => false

/-- No call that takes effect exposes an interaction. -/
def unexposedPolicy :
    Policy TaskCall (World × TaskRecording) TaskChoice TaskRequest TaskEnvironment where
  call i c ch s := ch.ending.effective = true → exposes (s.2 i) c = false

/-- The same, where the outcomes that are stored are matched. -/
def matchedPolicy :
    Policy TaskCall (World × TaskRecording) TaskChoice TaskRequest TaskEnvironment where
  call i c ch s := ch.ending.effective = true → exposes (s.2 i) c = false ∧
    ∀ payload task, c = .saveTask (.outcome payload) task → task.Matched

/-- Every record is matched, and no thread speaks for another. -/
def matchedDiscipline : Discipline (World × TaskRecording) TaskRequest TaskResult where
  inv s := s.1.Keyed ∧ s.1.RecordsMatched
  rely
    | none, _, _ => True
    | some i, s, s' => s'.2 i = s.2 i
  post _ _ _ := True
  refl j s := by cases j <;> trivial
  trans {j s s' s''} h h' := by
    cases j with
    | none => trivial
    | some i => exact h'.trans h
  post_stable _ _ := trivial

section Rules

variable {agent : AgentSettings} {settings : Settings} {orchestrator : Orchestrator} {i : ℕ}
  {c : TaskCall} {s s' : World × TaskRecording} {r : Except Exn c.Reply}

variable (settings orchestrator i) in
/-- The protocol of the process `i`. -/
abbrev matchedProtocol : Protocol Exn TaskCall TaskCall.Reply (World × TaskRecording) :=
  matchedDiscipline.protocol (taskMachine settings orchestrator).recorded matchedPolicy i

/-- A process may store a record that is matched if the policy permits the call. -/
theorem matched_may (hmatched : (exposes (s.2 i) c = false ∧
      ∀ payload task, c = .saveTask (.outcome payload) task → task.Matched) →
        ∀ task, c.written = some task → task.Matched) :
    (matchedProtocol settings orchestrator i).may c s := by
  intro s₁ hrely hinv ch r s₂ hpermit h
  obtain ⟨hanswer, hrecord⟩ := Machine.recorded_answer h
  have hpast : s₁.2 i = s.2 i := hrely
  refine ⟨⟨hinv.1.answer hanswer, ?_⟩, ?_⟩
  · intro taskId task htask
    rcases records_of_answer hanswer with hsame | ⟨written, hwritten, hstored⟩
    · exact hinv.2 taskId task (hsame ▸ htask)
    · by_cases heffective : ch.ending.effective = true
      · rw [hstored, World.store_records] at htask
        split at htask
        · cases htask
          exact hmatched (hpast ▸ hpermit heffective) task hwritten
        · exact hinv.2 taskId task htask
      · have hlost : ∃ e, ch.ending = .lost e := by
          cases hending : ch.ending <;> simp_all [Ending.effective]
        obtain ⟨e, hlost⟩ := hlost
        rw [(eq_of_lost hlost hanswer).2] at htask
        exact hinv.2 taskId task htask
  · intro j hj
    cases j with
    | none => trivial
    | some j =>
        change s₂.2 j = s₁.2 j
        rw [hrecord, Record.push_of_ne]
        exact fun heq => hj (by rw [heq])

theorem matched_may_of_unwritten (hc : c.written = none) :
    (matchedProtocol settings orchestrator i).may c s := by
  apply matched_may
  intro _ task htask
  rw [hc] at htask
  cases htask

/-- What the processes know of the records. -/
def matchedKnowledge (i : ℕ) : Knowledge → World × TaskRecording → Prop
  | .known task, s | .found _ task, s | .failing _ _ task, s =>
      lastRead (s.2 i) = some task ∧ task.Matched
  | .stored _ past, _ => ∀ x, past = some x → x.resumes = true
  | _, _ => True

/-- What a process learns when it reads a record. -/
theorem matched_read {site : Site} {id : String} {task : TaskRecord}
    (h : (matchedProtocol settings orchestrator i).next (.getTask site id) s (.ok (some task)) s') :
    task.taskId = id ∧ lastRead (s'.2 i) = some task ∧ task.Matched := by
  obtain ⟨s₁, ch, -, hinv, -, hanswer⟩ := h
  obtain ⟨hanswer, hrecord⟩ := Machine.recorded_answer hanswer
  have hfound : s₁.1.records id = some task := (read_of_answer hanswer).1.symm
  refine ⟨hinv.1 id task hfound, ?_, hinv.2 id task hfound⟩
  rw [hrecord, Record.push_self, lastRead_snoc]
  rfl

theorem matchedOutline :
    Outline settings (matchedProtocol settings orchestrator i) (matchedKnowledge i) where
  neutral c s hc := by
    have hwritten : c.written = none := by
      cases c <;> first | rfl | cases hc
    refine ⟨matched_may_of_unwritten hwritten, fun r s' h k hk => ?_⟩
    obtain ⟨s₁, ch, hrely, -, -, hanswer⟩ := h
    obtain ⟨-, hrecord⟩ := Machine.recorded_answer hanswer
    have hlast : lastRead (s'.2 i) = lastRead (s.2 i) := by
      rw [hrecord, Record.push_self, lastRead_snoc, show s₁.2 i = s.2 i from hrely]
      cases c <;> first | rfl | cases hc
    cases k with
    | known task => exact ⟨hlast.trans hk.1, hk.2⟩
    | found payload task => exact ⟨hlast.trans hk.1, hk.2⟩
    | failing payload exc task => exact ⟨hlast.trans hk.1, hk.2⟩
    | _ => exact hk
  acquire payload ttl s _ := ⟨matched_may_of_unwritten rfl, fun b _ _ => by cases b <;> trivial⟩
  delay payload s _ := matched_may_of_unwritten rfl
  release payload s _ := matched_may_of_unwritten rfl
  read site id s _ := ⟨matched_may_of_unwritten rfl, fun _ _ h => matched_read h⟩
  readMessage payload s _ :=
    ⟨matched_may_of_unwritten rfl, fun _ _ h => matched_read h, fun _ _ => trivial,
      fun _ _ _ => trivial⟩
  dismiss payload s _ := ⟨fun _ _ => trivial, fun _ _ _ => trivial⟩
  ignore payload task s _ := ⟨fun _ _ => trivial, fun _ _ _ => trivial⟩
  raise payload c e s s' _ _ _ := trivial
  concluded payload s _ := trivial
  readFailure payload exc s _ :=
    ⟨matched_may_of_unwritten rfl, fun _ _ h => matched_read h, fun _ _ => trivial,
      fun _ _ _ => trivial⟩
  failed payload task s _ := trivial
  setNew request s := by
    refine ⟨matched_may ?_, fun _ _ _ heq => by cases heq⟩
    rintro - task ⟨⟩
    exact matched_of_none rfl (by simp [CreateTask.record])
  createScript request key s := by
    refine ⟨matched_may ?_, fun _ _ _ _ heq => by cases heq⟩
    rintro - task ⟨⟩
    exact matched_of_none rfl (by simp [CreateTask.record])
  input task productId s _ _ := by
    refine ⟨matched_may ?_, fun _ _ _ heq => by cases heq⟩
    rintro - task ⟨⟩
    exact matched_of_none rfl (by simp [TaskRecord.withInput])
  record request task s _ _ := ⟨matched_may_of_unwritten rfl, fun _ _ _ => trivial⟩
  approval task approvalId status s _ _ := by
    refine ⟨matched_may ?_, fun _ _ _ heq => by cases heq⟩
    rintro - task ⟨⟩
    exact matched_of_none rfl (by simp [TaskRecord.withApproval])
  resumed task s hk hstatus := by
    refine ⟨matched_may ?_, fun s' _ => hk.2.resumes ?_⟩
    · rintro - task ⟨⟩
      exact matched_of_none rfl (by simp [TaskRecord.resumed])
    · simp only [List.mem_cons, List.not_mem_nil, or_false] at hstatus
      rcases hstatus with hstatus | hstatus <;> simp [hstatus]
  publish task past payload s hk _ := ⟨matched_may_of_unwritten rfl, fun _ _ _ => hk⟩
  publishFailed site task past errorMessage interaction s hk _ hresumes _ := by
    apply matched_may
    rintro - task ⟨⟩
    apply matched_of_resumes _ rfl rfl
    intro x hx
    exact (hresumes x hx).elim id fun hpast => hk x (hpast.trans hx)
  started payload task s hk _ _ _ := by
    refine ⟨matched_may ?_, fun _ _ => trivial, fun _ _ _ => trivial⟩
    rintro ⟨hexposes, -⟩ task' ⟨⟩
    have hnone : task.interaction = none := by simpa [exposes, hk.1] using hexposes
    exact matched_of_none hnone (by simp [TaskRecord.started])
  outcome payload task outcome s _ := by
    refine ⟨matched_may ?_, fun _ _ => trivial, fun _ _ _ => trivial⟩
    rintro ⟨-, houtcome⟩ task' ⟨⟩
    exact houtcome payload _ rfl
  failedRun payload exc task graphStarted status s hk _ hstatus _ := by
    refine ⟨matched_may ?_, fun _ _ => trivial, fun _ _ _ => trivial⟩
    rintro ⟨hexposes, -⟩ task' ⟨⟩
    have hnone : task.interaction = none := by simpa [exposes, hk.1] using hexposes
    refine matched_of_none hnone ?_
    simp only [List.mem_cons, List.not_mem_nil, or_false] at hstatus
    rcases hstatus with rfl | rfl <;> simp [TaskRecord.failedRun]
  publishRetry payload task retryPayload s _ _ _ :=
    ⟨matched_may_of_unwritten rfl, fun _ _ _ => trivial⟩
  retryFailed payload task errorMessage interaction s _ _ _ hresumes := by
    refine ⟨matched_may ?_, fun _ _ _ => trivial⟩
    rintro - task ⟨⟩
    apply matched_of_resumes _ rfl rfl
    intro x hx
    refine (hresumes x hx).elim id fun hnone => ?_
    have hx : interaction = some x := hx
    rw [← hnone] at hx
    cases hx

/-- The call of a run of the graph. -/
def TaskCall.ofGraph : TaskCall → Bool
  | .enterNode .. | .getCheckpoint _ | .putCheckpoint .. => true
  | c => c.ofNode

namespace AgentSettings

/-- The calls of a run of the graph: those of the nodes, and the checkpoints. -/
theorem orchestrator_only (agent : AgentSettings) (task : TaskRecord)
    (resumeKind : Option ResumeKind) (resumeId : Option String) :
    (agent.orchestrator task resumeKind resumeId).Only (fun c => c.ofGraph = true)
      fun _ => True := by
  have hcall : ∀ {c : TaskCall}, c.ofGraph = true →
      c.perform.Only (fun c => c.ofGraph = true) fun _ => True := fun hc => .perform hc
  have hnode : ∀ node state resume, (agent.node node state resume).Only
      (fun c => c.ofGraph = true) fun _ => True := by
    intro node state resume
    apply (nodeOnly node state resume).mono
    · intro c hc
      cases c <;> first | rfl | cases hc
    · exact fun _ _ => trivial
  have hfrom : ∀ threadId limit checkpoint resume,
      (agent.runFrom threadId limit checkpoint resume).Only (fun c => c.ofGraph = true)
        fun _ => True := by
    intro threadId limit
    induction limit with
    | zero => exact fun _ _ => trivial
    | succ limit ih =>
        intro checkpoint resume
        unfold runFrom
        split
        · trivial
        · next node _ =>
            apply (hcall rfl).bind
            intro _ _
            apply (hnode node checkpoint.state resume).bind
            intro result _
            apply (hcall rfl).bind
            intro _ _
            cases result with
            | interrupt interaction => trivial
            | update next => exact ih _ none
  have hinvoke : ∀ threadId checkpoint resume,
      (agent.invoke agent.recursionLimit threadId checkpoint resume).Only
        (fun c => c.ofGraph = true) fun _ => True :=
    fun threadId checkpoint resume => (hfrom threadId _ checkpoint resume).bind fun _ _ => trivial
  apply Program.Only.handle (W := fun _ => True) (fun _ _ => by trivial) (fun _ => by trivial)
  unfold run
  split
  · trivial
  apply (hcall rfl).bind
  intro found _
  cases found with
  | none =>
      change (agent.startThread _ _ _).Only _ _
      unfold startThread
      split
      · trivial
      · exact (hcall rfl).bind fun _ _ => hinvoke _ _ none
  | some checkpoint =>
      change (agent.resumeThread _ _ _ _ _).Only _ _
      unfold resumeThread
      split
      · split
        · trivial
        split
        · trivial
        · exact hinvoke _ _ _
      · split
        · trivial
        · exact hinvoke _ _ none

/-- A run of the graph stores no record. -/
theorem orchestrator_unwritten (agent : AgentSettings) (task : TaskRecord)
    (resumeKind : Option ResumeKind) (resumeId : Option String) :
    (agent.orchestrator task resumeKind resumeId).Only (fun c => c.written = none)
      fun _ => True := by
  apply (agent.orchestrator_only task resumeKind resumeId).mono
  · intro c hc
    cases c <;> first | rfl | cases hc
  · exact fun _ _ => trivial

end AgentSettings

theorem matched_runs (payload : QueueMessage) :
    Outline.Runs (matchedProtocol settings orchestrator i) (matchedKnowledge i)
      agent.orchestrator payload := by
  intro task s _
  apply Program.Follows.of_only (V := fun _ => True)
  · exact fun _ _ hc => matched_may_of_unwritten hc
  · exact fun _ _ _ => trivial
  · exact fun _ _ => trivial
  · exact agent.orchestrator_unwritten task _ _

theorem matched_safe (q : TaskRequest) (s : World × TaskRecording) :
    matchedDiscipline.Safe (taskMachine settings orchestrator).recorded matchedPolicy i
      (matchedDiscipline.post q) (fun _ _ => True) (q.program settings agent.orchestrator) s := by
  apply Discipline.Safe.of_follows
  by_cases hq : ∃ request, q = .ledger request
  · obtain ⟨request, rfl⟩ := hq
    apply Program.Follows.bind
    apply Program.Follows.of_only (G := fun c : TaskCall => c.written = none) (V := fun _ => True)
    · exact fun _ _ hc => matched_may_of_unwritten hc
    · exact fun _ _ _ => trivial
    · exact fun _ _ => trivial
    · exact Program.only_lift (P := fun c : TaskCall => c.written = none) (fun _ => rfl) _
  · exact matchedOutline.follows_program matched_runs (fun request heq => hq ⟨request, heq⟩)
      fun _ _ => trivial

/-- What leaves the records alone, or forgets some, keeps the discipline. -/
theorem matched_frame {w w' : World} (g : TaskRecording)
    (hinv : matchedDiscipline.inv (w, g)) (hkeyed : w'.Keyed)
    (hrecords : ∀ taskId, w'.records taskId = w.records taskId ∨ w'.records taskId = none) :
    matchedDiscipline.inv (w', g) ∧ ∀ j, matchedDiscipline.rely j (w, g) (w', g) := by
  refine ⟨⟨hkeyed, fun taskId task htask => ?_⟩, fun j => by cases j <;> trivial⟩
  rcases hrecords taskId with hsame | hnone
  · exact hinv.2 taskId task (hsame ▸ htask)
  · rw [hnone] at htask
    cases htask

theorem matchedSound : matchedDiscipline.Sound
    (taskMachine settings agent.orchestrator).recorded matchedPolicy where
  start i q s s' hinv _ haccept := by
    obtain ⟨w, g⟩ := s
    obtain ⟨w', haccepted, heq⟩ := Option.map_eq_some_iff.1 haccept
    cases heq
    have hrecords := records_of_accept haccepted
    have hframe := matched_frame g hinv (hinv.1.of_records hrecords)
      fun taskId => .inl (congrFun hrecords taskId)
    exact ⟨⟨hframe.1, fun j _ => hframe.2 j⟩, matched_safe q _⟩
  crash i s hinv _ := by
    obtain ⟨w, g⟩ := s
    have hframe := matched_frame g hinv (hinv.1.of_records (w.requeue_records i))
      fun taskId => .inl (congrFun (w.requeue_records i) taskId)
    exact ⟨hframe.1, fun j _ => hframe.2 j⟩
  environment e s s' hinv _ henv := by
    obtain ⟨w, g⟩ := s
    obtain ⟨w', hchange, heq⟩ := Option.map_eq_some_iff.1 henv
    cases heq
    exact matched_frame g hinv (hinv.1.environment hchange) (records_of_environment hchange)

end Rules

/-- In a run of the task system with the graph whose steps expose nothing, the interaction
of every record goes with its status. -/
theorem interactions_matched {agent : AgentSettings} {settings : Settings}
    {h : List (TaskConfig × TaskAction)} {c : TaskConfig}
    (run : (taskMachine settings agent.orchestrator).Run .any (.initial World.fresh) h c)
    (hexposes : ∀ h₁ v h₂, h = h₁ ++ v :: h₂ →
      unexposedPolicy.permits (v.1.observed (agent.transcripts settings h₁)) v.2) :
    (∀ v ∈ h, v.1.state.RecordsMatched) ∧ c.state.RecordsMatched := by
  have hpermits : ∀ h₁ v h₂, h = h₁ ++ v :: h₂ → matchedPolicy.permits (v.1.observed
      (Machine.tally (taskMachine settings agent.orchestrator).noteExchange (fun _ => []) h₁))
        v.2 := by
    rintro h₁ ⟨c₁, a⟩ h₂ heq
    cases a with
    | call i ch =>
        have hclear := hexposes h₁ _ h₂ heq
        rw [Machine.tally_noteExchange]
        simp only [Policy.permits, Config.observed] at hclear ⊢
        split
        · next q cl k hslot =>
            rw [hslot] at hclear
            intro heffective
            have hclear : exposes (agent.transcripts settings h₁ i) cl = false := hclear heffective
            refine ⟨hclear, ?_⟩
            rintro payload task rfl
            obtain ⟨run₁, -, c', step, -⟩ := run.before heq
            obtain ⟨r, -, started, checkpoint, rfl, hat, hended⟩ :=
              AgentSettings.graph_call run₁ step hslot
            apply hat.2.matched hended
            intro hnext
            simpa [exposes, hat.1, hnext] using hclear
        · trivial
    | _ => trivial
  obtain ⟨h', run', hpast⟩ := run.observe _ hpermits
  have hfresh : matchedDiscipline.inv (World.fresh, fun _ => []) :=
    ⟨World.keyed_fresh, fun _ _ htask => by cases htask⟩
  obtain ⟨hend, hvisited⟩ := matchedSound.run hfresh run'
  refine ⟨fun v hv => ?_, hend.inv.2⟩
  obtain ⟨g, hmem⟩ := hpast v hv
  exact (hvisited _ hmem).1.inv.2

section Demo

variable (s : World × TaskRecording)

instance (i : ℕ) (c : TaskCall) (ch : TaskChoice) : Decidable (unexposedPolicy.call i c ch s) :=
  inferInstanceAs (Decidable (_ = true → _ = false))

instance (i : ℕ) (q : TaskRequest) : Decidable (unexposedPolicy.start i q s) := .isTrue trivial

instance (i : ℕ) : Decidable (unexposedPolicy.crash i s) := .isTrue trivial

instance (e : TaskEnvironment) : Decidable (unexposedPolicy.environment e s) := .isTrue trivial

end Demo

/-- The turn that proposes a new description. -/
def demoPatchTurn : AssistantTurn where
  toolCalls :=
    [{ callId := "call-2"
       name := submitName
       arguments :=
        [("summary", .str "Fewer visits."),
         ("findings", .arr [.obj [("category", .str "content"), ("statement", .str "Thin text."),
            ("kind", .str "fact"), ("evidence_ids", .arr [.str "doc-1"])]]),
         ("actions", .arr [.str "Rewrite the text."]),
         ("proposed_patch", .obj [("field", .str "description"), ("new_value", .str "New text."),
            ("reason", .str "Clearer.")])] }]

/-- The model calls a tool. -/
def demoCallActions : List TaskAction :=
  .call 2 { turn := { toolCalls := [demoToolCall] } } :: List.replicate 4 (.call 2 {})

/-- The tool returns evidence, and the model proposes a new description. -/
def demoPatchActions : List TaskAction :=
  .call 2 { result := [("evidence_ids", .arr [.str "doc-1"])] } ::
    (List.replicate 3 (.call 2 {}) ++ [.call 2 { turn := demoPatchTurn }])

/-- A task is created and run up to the approval of its plan. -/
def demoPlanActions : List TaskAction :=
  demoStartActions ++ demoCallActions ++ demoPatchActions ++ List.replicate 8 (.call 2 {}) ++
    .call 2 { token := "plan-1" } :: List.replicate 8 (.call 2 {})

def demoApproval : SubmitApproval where
  taskId := "task-1"
  merchantId := demoMerchantId
  planId := "plan-1"
  planVersion := 1
  actionId := "update_description"
  decision := .approve

/-- The message that resumes the task with the approval. -/
def demoApprovalMessage : QueueMessage :=
  { demoMessage with resumeKind := some .approval, resumeId := some "approval-1" }

/-- The plan is approved and carried out. -/
def demoApproveActions : List TaskAction :=
  .start 3 (.submitApproval demoApproval) ::
    (List.replicate 5 (.call 3 { token := "approval-1" }) ++
      .start 4 (.handleMessage (.ok demoApprovalMessage)) ::
        List.replicate 14 (.call 4 { token := "receipt-1" }))

/-- What a client sees of a record. -/
def TaskRecord.exposed (task : TaskRecord) : TaskStatus × Option String :=
  (task.status, task.interaction.map Interaction.type)

/-- A task whose plan was approved and carried out is completed and still asks for the
approval. -/
theorem approval_left_exposed : ∃ h c task,
    (taskMachine demoSettings demoAgent.orchestrator).Run .any (.initial World.fresh) h c ∧
      c.state.records "task-1" = some task ∧ task.status = .completed ∧ ¬ task.Matched := by
  have hend : ((taskMachine demoSettings demoAgent.orchestrator).exec .any
      (demoPlanActions ++ demoApproveActions) (.initial .fresh)).bind (fun c =>
        (c.state.records "task-1").map TaskRecord.exposed) =
          some (.completed, some "approval.required") := by decide
  obtain ⟨c, hc, hrecord⟩ := Option.bind_eq_some_iff.1 hend
  obtain ⟨task, htask, hexposed⟩ := Option.map_eq_some_iff.1 hrecord
  obtain ⟨h, run⟩ := Machine.Run.exec .nil hc
  obtain ⟨hstatus, htype⟩ := Prod.mk.inj hexposed
  refine ⟨h, c, task, run, htask, hstatus, fun hmatched => ?_⟩
  have hawaiting := hmatched.approval.1 htype
  rw [hstatus] at hawaiting
  cases hawaiting

theorem interactions_matched_demo : ∃ h c task,
    (taskMachine demoSettings demoAgent.orchestrator).Run .any (.initial World.fresh) h c ∧
      c.state.records "task-1" = some task ∧
      task.exposed = (.awaitingApproval, some "approval.required") ∧
      (∀ v ∈ h, v.1.state.RecordsMatched) ∧ task.Matched := by
  have hend : ((taskMachine demoSettings demoAgent.orchestrator).recorded.exec unexposedPolicy
      demoPlanActions ((Config.initial World.fresh).observed fun _ => [])).bind (fun c =>
        (c.state.1.records "task-1").map TaskRecord.exposed) =
          some (.awaitingApproval, some "approval.required") := by decide
  obtain ⟨c', hc', hrecord⟩ := Option.bind_eq_some_iff.1 hend
  obtain ⟨task, htask, hexposed⟩ := Option.map_eq_some_iff.1 hrecord
  obtain ⟨h', run'⟩ := Machine.Run.exec .nil hc'
  obtain ⟨h, c, run, rfl, hpermits⟩ := run'.of_observe
  simp only [Machine.tally_noteExchange] at hpermits
  obtain ⟨hvisited, hlast⟩ := interactions_matched run hpermits
  exact ⟨h, c, task, run, htask, hexposed, hvisited, hlast "task-1" task htask⟩

end CommerceAgent
