import CommerceAgent.Agent.Runs

/-!
# Evidence

`_collect_evidence_ids` reads the accepted evidence back from the conversation. Each tool
message there is the result of a registered tool that was executed in the thread, or the
answer to a rejected diagnosis, which carries no evidence; hence what the model writes
adds nothing to the accepted set.

What the tools node has not committed is not accepted: the results of a batch that fails
halfway are lost with it.
-/

namespace CommerceAgent

open Effects

/-- The top-level `evidence_ids` are a list of strings, if they are there. -/
def JsonObject.listed (result : JsonObject) : Bool :=
  match result.get? "evidence_ids" with
  | none => true
  | some v => v.strings?.isSome

/-- The strings of the top-level `evidence_ids`. -/
def JsonObject.listedIds (result : JsonObject) : List String :=
  ((result.get? "evidence_ids").bind Json.strings?).getD []

/-- The evidence that a message of the conversation adds. -/
def Message.listedIds : Message → List String
  | .tool _ _ result => result.listedIds
  | _ => []

/-- The accepted evidence: the metrics' and that of the tool messages. -/
def AgentState.acceptedIds (state : AgentState) : List String :=
  (state.metrics.map Metrics.evidenceIds).getD [] ++ state.messages.flatMap Message.listedIds

/-- The diagnosis cites such evidence only, and as much as it needs. -/
structure Backed (P : String → Prop) (diagnosis : Diagnosis) : Prop where
  cited : ∀ finding ∈ diagnosis.findings, ∀ id ∈ finding.evidenceIds, P id
  facts : ∀ finding ∈ diagnosis.findings, finding.kind = "fact" → finding.evidenceIds ≠ []
  patch : diagnosis.proposedPatch ≠ none → ∃ finding ∈ diagnosis.findings,
    finding.category = "content" ∧ finding.kind = "fact" ∧ finding.evidenceIds ≠ []

theorem Backed.imp {P Q : String → Prop} {diagnosis : Diagnosis} (h : Backed P diagnosis)
    (hPQ : ∀ id, P id → Q id) : Backed Q diagnosis :=
  ⟨fun finding hfinding id hid => hPQ id (h.cited finding hfinding id hid), h.facts, h.patch⟩

theorem strings?_eq_some {v : Json} {ids : List String} (h : v.strings? = some ids) :
    v = .arr (ids.map .str) := by
  obtain ⟨items, hitems, hmap⟩ := Option.bind_eq_some_iff.1 h
  have hstr : ∀ item : Json, ∀ s, item.str? = some s → item = .str s := by
    intro item s hs
    cases item <;> cases hs
    rfl
  have hlist : items = ids.map .str := by
    clear hitems h
    induction items generalizing ids with
    | nil =>
        cases hmap
        rfl
    | cons item items ih =>
        rw [List.mapM_cons] at hmap
        obtain ⟨s, hs, hrest⟩ := Option.bind_eq_some_iff.1 hmap
        obtain ⟨rest, hitems, heq⟩ := Option.bind_eq_some_iff.1 hrest
        cases heq
        rw [hstr item s hs, ih hitems]
        rfl
  cases v with
  | arr items' =>
      cases hitems
      rw [hlist]
  | _ => cases hitems

namespace AgentSettings

theorem findingErrors_eq_nil {ids : List String} {finding : Finding} :
    findingErrors ids finding = [] ↔ (finding.kind = "fact" → finding.evidenceIds ≠ []) ∧
      ∀ id ∈ finding.evidenceIds, id ∈ ids := by
  unfold findingErrors
  rw [List.append_eq_nil_iff]
  apply and_congr
  · by_cases h : finding.kind = "fact" ∧ finding.evidenceIds = [] <;> simp_all
  · simp

theorem patchErrors_eq_nil {diagnosis : Diagnosis} :
    patchErrors diagnosis = [] ↔ (diagnosis.proposedPatch ≠ none →
      ∃ finding ∈ diagnosis.findings, finding.category = "content" ∧ finding.kind = "fact" ∧
        finding.evidenceIds ≠ []) := by
  have hany : diagnosis.findings.any supportsPatch = true ↔ ∃ finding ∈ diagnosis.findings,
      finding.category = "content" ∧ finding.kind = "fact" ∧ finding.evidenceIds ≠ [] := by
    simp [supportsPatch, and_assoc]
  unfold patchErrors
  rw [← hany]
  cases hpatch : diagnosis.proposedPatch with
  | none => simp
  | some patch =>
      by_cases hsupport : diagnosis.findings.any supportsPatch = true <;> simp [hsupport]

variable {agent : AgentSettings} {H : Set TaskExchange} {state next : AgentState}
  {node : GraphNode} {threadId : String} {checkpoint : Checkpoint}

variable (agent H) in
/-- The evidence of the metrics, or of a result of a registered tool that was executed. -/
def Executed (threadId : String) (state : AgentState) (id : String) : Prop :=
  (∃ metrics, state.metrics = some metrics ∧ id ∈ metrics.evidenceIds) ∨
    ∃ call result, call.name ∈ agent.toolNames ∧ Replied H (.executeTool threadId call) result ∧
      id ∈ result.listedIds

variable (agent H) in
/-- Where the tool messages come from. -/
def Traced (threadId : String) : Message → Prop
  | .tool _ name result => (∃ errors, result = rejection errors) ∨
      ∃ call : ToolCall, name = call.name ∧ call.name ∈ agent.toolNames ∧
        Replied H (.executeTool threadId call) result
  | _ => True

/-- A node adds to the conversation only, and only traced messages. -/
theorem Returns.traced (h : agent.Returns H state node (.update next)) :
    ∃ messages, next.messages = state.messages ++ messages ∧
      ∀ message ∈ messages, agent.Traced H state.taskId message := by
  cases h with
  | @measured productId metrics hproduct hreplied =>
      refine ⟨[.context state.merchantId productId metrics], rfl, ?_⟩
      simp [Traced]
  | @turned prompt turn diagnosis hiteration hreplied hread =>
      refine ⟨[.assistant turn.content turn.toolCalls], rfl, ?_⟩
      simp [Traced]
  | @answered lastMessage messages hlast hanswers =>
      refine ⟨messages, rfl, ?_⟩
      clear hlast
      generalize lastMessage.toolCalls = calls at hanswers
      induction hanswers with
      | nil => simp
      | @cons call message calls messages hanswer _ ih =>
          obtain ⟨hcall, result, hreplied, rfl⟩ := hanswer
          rw [List.forall_mem_cons]
          exact ⟨.inr ⟨call, rfl, hcall.registered, hreplied⟩, ih⟩
  | @reflected errors herrors hne hcount =>
      refine ⟨correctionMessages state errors, rfl, ?_⟩
      unfold correctionMessages
      cases diagnosisToolCallId state with
      | none => simp [Traced]
      | some id => simp [Traced]
  | _ => exact ⟨[], (List.append_nil _).symm, by simp⟩

/-- Every tool message of a thread is traced. -/
theorem Reach.traced (h : agent.Reach H threadId checkpoint) :
    ∀ message ∈ checkpoint.state.messages, agent.Traced H threadId message := by
  induction h with
  | initial h => simp [TaskRecord.initialCheckpoint, TaskRecord.initialState, Traced]
  | @step checkpoint node result hreach _ hresult ih =>
      cases result with
      | interrupt interaction => exact ih
      | update next =>
          obtain ⟨messages, heq, htraced⟩ := hresult.traced
          rw [hreach.taskId] at htraced
          intro message hmessage
          change message ∈ next.messages at hmessage
          rw [heq] at hmessage
          exact (List.mem_append.1 hmessage).elim (ih message) (htraced message)

/-- Only the metrics node and the tools node add evidence. -/
theorem Returns.acceptedIds (h : agent.Returns H state node (.update next))
    (hnode : node ∉ [.metrics, .tools]) : next.acceptedIds = state.acceptedIds := by
  cases h with
  | measured hproduct hreplied | answered hlast hanswers => simp at hnode
  | @turned prompt turn diagnosis hiteration hreplied hread =>
      simp [AgentState.acceptedIds, AgentSettings.turned, Message.listedIds]
  | @reflected errors herrors hne hcount =>
      have hcorrection : (correctionMessages state errors).flatMap Message.listedIds = [] := by
        unfold correctionMessages
        cases diagnosisToolCallId state with
        | none => rfl
        | some id => rfl
      simp [AgentState.acceptedIds, AgentState.reflected, hcorrection]
  | _ => rfl

variable (H) in
/-- The results of the executed tools list their evidence as strings. -/
def Listed : Prop :=
  ∀ threadId call result, Replied H (.executeTool threadId call) result →
    JsonObject.listed result = true

theorem evidenceOf_listed {result : JsonObject} (h : result.listed = true) :
    agent.evidenceOf result = .ok result.listedIds := by
  unfold JsonObject.listed at h
  unfold evidenceOf JsonObject.listedIds
  cases hvalue : result.get? "evidence_ids" with
  | none => rfl
  | some v =>
      rw [hvalue] at h
      obtain ⟨ids, hids⟩ := Option.isSome_iff_exists.1 h
      have hstr : ids.map (agent.str ∘ .str) = ids := List.map_id ids
      rw [Option.bind_some, hids, strings?_eq_some hids]
      simpa [itemTexts] using hstr

theorem Traced.listed (hlisted : Listed H) {toolCallId name : String} {result : JsonObject}
    (h : agent.Traced H threadId (.tool toolCallId name result)) : result.listed = true := by
  rcases h with ⟨errors, rfl⟩ | ⟨call, -, -, hreplied⟩
  · rfl
  · exact hlisted threadId call result hreplied

theorem toolEvidence_listed (hlisted : Listed H) {messages : List Message}
    (h : ∀ message ∈ messages, agent.Traced H threadId message) :
    agent.toolEvidence messages = .ok (messages.flatMap Message.listedIds) := by
  induction messages with
  | nil => rfl
  | cons message messages ih =>
      have hrest := ih fun message hmessage => h message (List.mem_cons_of_mem _ hmessage)
      cases message with
      | tool toolCallId name result =>
          have hresult := (h _ List.mem_cons_self).listed hlisted
          rw [toolEvidence, evidenceOf_listed hresult, hrest]
          rfl
      | _ => exact hrest

theorem Reach.collected (h : agent.Reach H threadId checkpoint) (hlisted : Listed H) :
    agent.collectEvidenceIds checkpoint.state = .ok checkpoint.state.acceptedIds := by
  rw [collectEvidenceIds, toolEvidence_listed hlisted h.traced]
  rfl

/-- The accepted evidence is that of the metrics and of executed tools. -/
theorem Reach.executed (h : agent.Reach H threadId checkpoint) :
    ∀ id ∈ checkpoint.state.acceptedIds, agent.Executed H threadId checkpoint.state id := by
  intro id hid
  rcases List.mem_append.1 hid with hid | hid
  · cases hmetrics : checkpoint.state.metrics with
    | none => simp [hmetrics] at hid
    | some metrics => exact .inl ⟨metrics, hmetrics, by simpa [hmetrics] using hid⟩
  · obtain ⟨message, hmessage, hid⟩ := List.mem_flatMap.1 hid
    have htraced := h.traced message hmessage
    cases message with
    | tool toolCallId name result =>
        rcases htraced with ⟨errors, rfl⟩ | ⟨call, -, hname, hreplied⟩
        · cases hid
        · exact .inr ⟨call, result, hname, hreplied, hid⟩
    | _ => cases hid

/-- `_validate_diagnosis` accepts exactly the diagnoses that are backed by the accepted
evidence. -/
theorem validateDiagnosis_iff (hcollected : agent.collectEvidenceIds state = .ok state.acceptedIds)
    {diagnosis : Diagnosis} (hdiagnosis : state.diagnosis = some (.ok diagnosis)) :
    agent.validateDiagnosis state = .ok [] ↔ Backed (· ∈ state.acceptedIds) diagnosis := by
  have hvalidate : agent.validateDiagnosis state =
      .ok (diagnosis.findings.flatMap (findingErrors state.acceptedIds) ++
        patchErrors diagnosis) := by
    rw [validateDiagnosis, hdiagnosis]
    dsimp only
    rw [hcollected]
    rfl
  rw [hvalidate, Except.ok.injEq, List.append_eq_nil_iff, List.flatMap_eq_nil_iff,
    patchErrors_eq_nil]
  simp only [findingErrors_eq_nil]
  constructor
  · rintro ⟨hfindings, hpatch⟩
    exact ⟨fun finding hmem => (hfindings finding hmem).2,
      fun finding hmem => (hfindings finding hmem).1, hpatch⟩
  · intro h
    exact ⟨fun finding hmem => ⟨h.facts finding hmem, h.cited finding hmem⟩, h.patch⟩

/-- The diagnosis of a thread that is about to plan is backed. -/
theorem Reach.backed (h : agent.Reach H threadId checkpoint) (hlisted : Listed H)
    (hnext : checkpoint.next = some .plan) : ∃ diagnosis,
      checkpoint.state.diagnosis = some (.ok diagnosis) ∧
        Backed (· ∈ checkpoint.state.acceptedIds) diagnosis := by
  induction h with
  | initial h => cases hnext
  | @step checkpoint node result hreach hnode hresult ih =>
      cases hresult with
      | asked h hreplied | shown h => exact ih hnext
      | accepted herrors =>
          cases hdiagnosis : checkpoint.state.diagnosis with
          | none => simp [validateDiagnosis, hdiagnosis, pure, Except.pure] at herrors
          | some submission =>
              cases submission with
              | error text => simp [validateDiagnosis, hdiagnosis, pure, Except.pure] at herrors
              | ok diagnosis =>
                  have hcollected := hreach.collected hlisted
                  exact ⟨diagnosis, hdiagnosis,
                    (validateDiagnosis_iff hcollected hdiagnosis).1 herrors⟩
      | @reflected errors herrors hne hcount =>
          simp [Checkpoint.commit, nextNode, routeAfterValidation, AgentState.reflected, hne]
            at hnext
      | turned hiteration hreplied hread =>
          simp only [Checkpoint.commit, nextNode, routeAfterModel] at hnext
          split at hnext <;> cases hnext
      | concluded hdiagnosis hpatch | planned hdiagnosis hpatch hproduct hcreated =>
          simp only [Checkpoint.commit, nextNode, routeAfterPlan] at hnext
          split at hnext <;> cases hnext
      | _ => cases hnext

/-- What holds of the evidence at a checkpoint that a run works on. -/
structure EvidenceKept (agent : AgentSettings) (H : Set TaskExchange) (threadId : String)
    (checkpoint : Checkpoint) : Prop where
  collected : agent.collectEvidenceIds checkpoint.state = .ok checkpoint.state.acceptedIds
  executed : ∀ id ∈ checkpoint.state.acceptedIds, agent.Executed H threadId checkpoint.state id
  accepts : ∀ diagnosis, checkpoint.state.diagnosis = some (.ok diagnosis) →
    (agent.validateDiagnosis checkpoint.state = .ok [] ↔
      Backed (· ∈ checkpoint.state.acceptedIds) diagnosis)
  plan : checkpoint.next = some .plan → ∃ diagnosis,
    checkpoint.state.diagnosis = some (.ok diagnosis) ∧
      Backed (agent.Executed H threadId checkpoint.state) diagnosis

theorem Reach.evidenceKept (h : agent.Reach H threadId checkpoint) (hlisted : Listed H) :
    agent.EvidenceKept H threadId checkpoint where
  collected := h.collected hlisted
  executed := h.executed
  accepts _ hdiagnosis := validateDiagnosis_iff (h.collected hlisted) hdiagnosis
  plan hnext := by
    obtain ⟨diagnosis, hdiagnosis, hbacked⟩ := h.backed hlisted hnext
    exact ⟨diagnosis, hdiagnosis, hbacked.imp h.executed⟩

/-- Only the tools that were executed matter. -/
theorem EvidenceKept.of_executed {H' : Set TaskExchange}
    (h : agent.EvidenceKept H threadId checkpoint)
    (hH : ∀ call result, Replied H (.executeTool threadId call) result →
      Replied H' (.executeTool threadId call) result) :
    agent.EvidenceKept H' threadId checkpoint := by
  have hexecuted : ∀ id, agent.Executed H threadId checkpoint.state id →
      agent.Executed H' threadId checkpoint.state id := by
    rintro id (hmetrics | ⟨call, result, hname, hreplied, hid⟩)
    · exact .inl hmetrics
    · exact .inr ⟨call, result, hname, hH call result hreplied, hid⟩
  refine ⟨h.collected, fun id hid => hexecuted id (h.executed id hid), h.accepts, fun hnext => ?_⟩
  obtain ⟨diagnosis, hdiagnosis, hbacked⟩ := h.plan hnext
  exact ⟨diagnosis, hdiagnosis, hbacked.imp hexecuted⟩

end AgentSettings

/-- The call executes a tool. -/
def TaskCall.executesTool : TaskCall → Bool
  | .executeTool .. => true
  | _ => false

/-- The tools list their evidence as strings, if they have any. -/
def listedResults : TaskPolicy where
  call _ c ch _ := c.executesTool = true → ch.result.listed = true

section Run

variable {agent : AgentSettings} {settings : Settings} {h : List (TaskConfig × TaskAction)}
  {c : TaskConfig}

/-- The result of a tool is the one that was chosen at a permitted step. -/
theorem listed_of_run
    (run : (taskMachine settings agent.orchestrator).Run listedResults (.initial World.fresh) h c) :
    AgentSettings.Listed (agent.transcripts settings h).happened := by
  intro threadId call result hreplied
  obtain ⟨i, hmem⟩ := hreplied
  obtain ⟨h₁, v, h₂, rfl, hexchange⟩ := Machine.exists_of_mem_transcript hmem
  obtain ⟨ch, w, haction, hanswer⟩ := Machine.answer_of_exchange hexchange
  obtain ⟨ch', q, k, haction', hslot⟩ := Machine.exchange_eq_some hexchange
  obtain ⟨-, hpermits, -⟩ := run.before rfl
  obtain ⟨c', a⟩ := v
  dsimp only at haction hslot hanswer
  subst haction
  have hlisted : ch.result.listed = true := by
    have hcall : listedResults.call i (.executeTool threadId call) ch c'.state := by
      simpa [Policy.permits, hslot] using hpermits
    exact hcall rfl
  have hrun := execute_of_answer hanswer
  cases hrun
  exact hlisted

/-- In every run whose tools list their evidence as strings: a node is entered with the
evidence accounted for, so that the plan node is entered with a diagnosis backed by the
metrics and by tools executed before; the accepted evidence grows at the metrics node and
the tools node only; and a diagnosis that is backed by it is never rejected. -/
theorem evidence_not_forged
    (run : (taskMachine settings agent.orchestrator).Run listedResults (.initial World.fresh) h c) :
    (∀ h₁ c₁ i ch h₂ q threadId node k, h = h₁ ++ (c₁, .call i ch) :: h₂ →
      c₁.pool i = .running q (.call (.enterNode threadId node) k) → ∃ checkpoint,
        currentCheckpoint (agent.transcripts settings h₁ i) = some checkpoint ∧
          checkpoint.next = some node ∧
            agent.EvidenceKept (agent.transcripts settings h₁).happened threadId checkpoint) ∧
      ∀ i past e rest threadId checkpoint current,
        agent.transcripts settings h i = past ++ e :: rest →
          e.call = .putCheckpoint threadId checkpoint → currentCheckpoint past = some current →
            current.next ∉ [some .metrics, some .tools] →
              checkpoint.state.acceptedIds = current.state.acceptedIds := by
  refine ⟨?_, ?_⟩
  · intro h₁ c₁ i ch h₂ q threadId node k heq hslot
    obtain ⟨run₁, -, c', step, run'⟩ := run.before heq
    have hlisted := listed_of_run run'
    obtain ⟨r, htranscript, checkpoint, hat, hnext⟩ := AgentSettings.graph_call
      (run₁.restrict fun v _ _ => Policy.permits_any ..) step hslot
    refine ⟨checkpoint, hat.1, hnext, (hat.2.evidenceKept hlisted).of_executed ?_⟩
    rintro call result ⟨j, hmem⟩
    refine ⟨j, ?_⟩
    rw [AgentSettings.transcripts, Machine.transcript_snoc, List.mem_append] at hmem
    rcases hmem with hmem | hmem
    · exact hmem
    · obtain ⟨ch', q', k', haction, hslot'⟩ :=
        Machine.exchange_eq_some (Option.mem_toList.1 hmem)
      cases haction
      rw [hslot, Slot.running.injEq, Program.call.injEq] at hslot'
      cases hslot'.2.1
  · intro i past e rest threadId checkpoint current hpast hcall hcurrent hnext
    have hpermitted := (AgentSettings.graph_run
      (run.restrict fun v _ _ => Policy.permits_any ..)).permitted i past e rest hpast
    rw [hcall] at hpermitted
    rcases hpermitted with ⟨hnone, -⟩ | ⟨current', node, result, hat, hnode, hresult, rfl⟩
    · rw [hcurrent] at hnone
      cases hnone
    · rw [hat.1, Option.some.injEq] at hcurrent
      subst hcurrent
      cases result with
      | update next => exact hresult.acceptedIds (by simpa [hnode] using hnext)
      | interrupt interaction => rfl

end Run

/-- A diagnosis with one fact, which cites the evidence. -/
def demoDiagnosis (id : String) : Diagnosis where
  summary := "Fewer visits."
  findings :=
    [{ category := "traffic", statement := "Visits fell.", kind := "fact", evidenceIds := [id] }]
  actions := ["Check the title."]

/-- The turn that submits it. -/
def demoSubmission (id : String) : AssistantTurn where
  toolCalls :=
    [{ callId := "call-2"
       name := submitName
       arguments :=
        [("summary", .str "Fewer visits."),
         ("findings", .arr [.obj [("category", .str "traffic"), ("statement", .str "Visits fell."),
            ("kind", .str "fact"), ("evidence_ids", .arr [.str id])]]),
         ("actions", .arr [.str "Check the title."])] }]

def demoEvidence (id : String) : JsonObject := [("evidence_ids", .arr [.str id])]

/-- The model calls a tool, which returns its result, but the event of its completion is
lost. -/
def demoLostActions : List TaskAction :=
  [.call 2 { turn := { toolCalls := [demoToolCall] } }, .call 2 {}, .call 2 {}, .call 2 {},
   .call 2 {}, .call 2 { result := demoEvidence "doc-1" },
   .call 2 { ending := .lost (.other "ConnectionError") }]

/-- The tool is executed again with another result, and the model submits a diagnosis that
cites the evidence. -/
def demoRetryActions (id : String) : List TaskAction :=
  [.call 3 { result := demoEvidence "doc-2" }, .call 3 {}, .call 3 {}, .call 3 {},
   .call 3 { turn := demoSubmission id }, .call 3 {}, .call 3 {}]

/-- A task whose first run fails with a tool's result and whose second run ends with the
submission. -/
def demoEvidenceActions (id : String) : List TaskAction :=
  demoStartActions ++ demoLostActions ++ List.replicate 6 (.call 2 {}) ++
    .start 3 (.handleMessage (.ok (demoMessage.retried true))) ::
      (List.replicate 7 (.call 3 {}) ++ demoRetryActions id)

instance (i : ℕ) (c : TaskCall) (ch : TaskChoice) (w : World) :
    Decidable (listedResults.call i c ch w) :=
  inferInstanceAs (Decidable (_ → _))

instance (i : ℕ) (q : TaskRequest) (w : World) : Decidable (listedResults.start i q w) :=
  .isTrue trivial

instance (i : ℕ) (w : World) : Decidable (listedResults.crash i w) := .isTrue trivial

instance (e : TaskEnvironment) (w : World) : Decidable (listedResults.environment e w) :=
  .isTrue trivial

/-- The diagnosis that waits for its validation, with the number of its errors. -/
def AgentSettings.pendingDiagnosis (agent : AgentSettings) (checkpoint : Checkpoint) :
    Option (Diagnosis × ℕ) :=
  match checkpoint.next, checkpoint.state.diagnosis, agent.validateDiagnosis checkpoint.state with
  | some .validate, some (.ok diagnosis), .ok errors => some (diagnosis, errors.length)
  | _, _, _ => none

/-- The evidence that the result of an executed tool lists. -/
def executedEvidence : TaskExchange → Option (String × String × List String)
  | ⟨.executeTool threadId call, .ok result⟩ =>
      some (threadId, call.name, JsonObject.listedIds result)
  | _ => none

/-- Evidence of a tool that was executed in the thread, but whose result was not
committed, is rejected. -/
theorem evidence_rejected : ∃ h c checkpoint diagnosis errors,
    (taskMachine demoSettings demoAgent.orchestrator).Run listedResults (.initial .fresh) h c ∧
      c.state.checkpoints "task-1" = some checkpoint ∧ checkpoint.next = some .validate ∧
      checkpoint.state.diagnosis = some (.ok diagnosis) ∧
      Backed (demoAgent.Executed (demoAgent.transcripts demoSettings h).happened "task-1"
        checkpoint.state) diagnosis ∧
      demoAgent.validateDiagnosis checkpoint.state = .ok errors ∧ errors ≠ [] := by
  have hend : ((taskMachine demoSettings demoAgent.orchestrator).exec listedResults
      (demoEvidenceActions "doc-1") (.initial .fresh)).bind (fun c =>
        (c.state.checkpoints "task-1").bind demoAgent.pendingDiagnosis) =
          some (demoDiagnosis "doc-1", 1) := by decide
  obtain ⟨c, hc, hpending⟩ := Option.bind_eq_some_iff.1 hend
  obtain ⟨checkpoint, hstored, hpending⟩ := Option.bind_eq_some_iff.1 hpending
  have run := Machine.Run.follow .nil hc
  unfold AgentSettings.pendingDiagnosis at hpending
  split at hpending
  · next diagnosis errors hnext hdiagnosis hvalidate =>
      simp only [Option.some.injEq, Prod.mk.injEq] at hpending
      obtain ⟨rfl, hlength⟩ := hpending
      have hexecuted : ("task-1", "get_metrics", ["doc-1"]) ∈ (demoAgent.transcripts demoSettings
          ([] ++ (taskMachine demoSettings demoAgent.orchestrator).trail
            (demoEvidenceActions "doc-1") (.initial .fresh)) 2).filterMap executedEvidence := by
        decide
      refine ⟨_, c, checkpoint, _, errors, run, hstored, hnext, hdiagnosis, ?_, hvalidate, ?_⟩
      · refine ⟨?_, by simp [demoDiagnosis], by simp [demoDiagnosis]⟩
        intro finding hfinding id hid
        obtain rfl := List.mem_singleton.1 hfinding
        obtain rfl := List.mem_singleton.1 hid
        obtain ⟨e, hmem, he⟩ := List.mem_filterMap.1 hexecuted
        unfold executedEvidence at he
        split at he
        · next threadId call result =>
            simp only [Option.some.injEq, Prod.mk.injEq] at he
            obtain ⟨rfl, hname, hids⟩ := he
            exact .inr ⟨call, result, by rw [hname]; decide, ⟨2, hmem⟩, by rw [hids]; decide⟩
        · cases he
      · rintro rfl
        cases hlength
  · cases hpending

/-- The node that a process is about to enter. -/
def enteredNode (c : TaskConfig) (i : ℕ) : Option (String × GraphNode) :=
  match c.pool i with
  | .running _ (.call (.enterNode threadId node) _) => some (threadId, node)
  | _ => none

theorem evidence_not_forged_demo : ∃ h c checkpoint diagnosis,
    (taskMachine demoSettings demoAgent.orchestrator).Run listedResults (.initial .fresh) h c ∧
      enteredNode c 3 = some ("task-1", .plan) ∧
      currentCheckpoint (demoAgent.transcripts demoSettings h 3) = some checkpoint ∧
      checkpoint.state.diagnosis = some (.ok diagnosis) ∧
      Backed (demoAgent.Executed (demoAgent.transcripts demoSettings h).happened "task-1"
        checkpoint.state) diagnosis := by
  have hend : ((taskMachine demoSettings demoAgent.orchestrator).exec listedResults
      (demoEvidenceActions "doc-2" ++ List.replicate 3 (.call 3 {})) (.initial .fresh)).map
        (fun c => enteredNode c 3) = some (some ("task-1", .plan)) := by decide
  obtain ⟨c, hc, hentered⟩ := Option.map_eq_some_iff.1 hend
  obtain ⟨h, run⟩ := Machine.Run.exec .nil hc
  have hslot := hentered
  unfold enteredNode at hslot
  split at hslot
  · next q threadId node k hpool =>
      simp only [Option.some.injEq, Prod.mk.injEq] at hslot
      obtain ⟨rfl, rfl⟩ := hslot
      obtain ⟨c', step⟩ : ∃ c', (taskMachine demoSettings demoAgent.orchestrator).step
          (.call 3 {}) c = some c' := by
        rw [Machine.step, hpool]
        exact ⟨_, rfl⟩
      have hpermitted : listedResults.permits c (.call 3 {}) := by
        simp [Policy.permits, hpool, listedResults, TaskCall.executesTool]
      obtain ⟨checkpoint, hcurrent, hnext, hkept⟩ :=
        (evidence_not_forged (run.snoc hpermitted step)).1 _ c 3 {} [] q _ _ k rfl hpool
      obtain ⟨diagnosis, hdiagnosis, hbacked⟩ := hkept.plan hnext
      exact ⟨_, c, checkpoint, diagnosis, run, hentered, hcurrent, hdiagnosis, hbacked⟩
  · cases hslot

end CommerceAgent
