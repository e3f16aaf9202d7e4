import CommerceAgent.Agent.Runs
import CommerceAgent.Agent.Wire

/-!
# The conversation with the model

A conversation is well formed when each turn of the model is followed by the answers to
its calls, one by one and in order, and no other tool message stands anywhere. Between
two nodes a conversation may end with a turn that waits for its answers; `Spoken` says
what each node finds, and the model never finds such a turn.
-/

namespace CommerceAgent

open Effects

/-- A message with the role `user`. -/
def Message.ByUser : Message → Prop
  | .prompt _ | .context .. | .correction _ => True
  | .assistant .. | .tool .. => False

/-- The tool message with the id and the name of the call. -/
def ToolCall.AnsweredBy (call : ToolCall) : Message → Prop
  | .tool toolCallId name _ => toolCallId = call.callId ∧ name = call.name
  | _ => False

/-- Each turn is followed by the answers to its calls, and no others. -/
inductive WellFormed : List Message → Prop
  | nil : WellFormed []
  | user {message : Message} {messages : List Message} (hmessage : message.ByUser)
      (h : WellFormed messages) : WellFormed (message :: messages)
  | turn {content : String} {calls : List ToolCall} {answers messages : List Message}
      (hanswers : List.Forall₂ ToolCall.AnsweredBy calls answers) (h : WellFormed messages) :
      WellFormed (.assistant content calls :: (answers ++ messages))

theorem WellFormed.append {messages messages' : List Message} (h : WellFormed messages)
    (h' : WellFormed messages') : WellFormed (messages ++ messages') := by
  induction h with
  | nil => exact h'
  | user hmessage _ ih => exact .user hmessage ih
  | turn hanswers _ ih =>
      rw [List.cons_append, List.append_assoc]
      exact .turn hanswers ih

theorem WellFormed.append_user {messages : List Message} {message : Message}
    (h : WellFormed messages) (hmessage : message.ByUser) : WellFormed (messages ++ [message]) :=
  h.append (.user hmessage .nil)

/-- The last turn is answered. -/
theorem WellFormed.append_answers {messages answers : List Message} {content : String}
    {calls : List ToolCall} (h : WellFormed messages)
    (hanswers : List.Forall₂ ToolCall.AnsweredBy calls answers) :
    WellFormed (messages ++ [.assistant content calls] ++ answers) := by
  have hturn : WellFormed (.assistant content calls :: (answers ++ [])) := .turn hanswers .nil
  rw [List.append_nil] at hturn
  rw [List.append_assoc]
  exact h.append hturn

/-- A well-formed conversation with one more turn, which waits for its answers. -/
def Waiting (calls : List ToolCall) (messages : List Message) : Prop :=
  ∃ before content, messages = before ++ [.assistant content calls] ∧ WellFormed before

/-- The conversation that a node finds. -/
def Spoken (messages : List Message) : GraphNode → Prop
  | .scope | .metrics | .model => WellFormed messages
  | .tools => ∃ calls, Waiting calls messages
  | .validate => Waiting [] messages ∨
      ∃ call : ToolCall, call.name = submitName ∧ Waiting [call] messages
  | .plan | .approval => True

theorem Waiting.getLast? {calls : List ToolCall} {messages : List Message}
    (h : Waiting calls messages) :
    ∃ content, messages.getLast? = some (.assistant content calls) := by
  obtain ⟨before, content, rfl, -⟩ := h
  exact ⟨content, by simp⟩

theorem Waiting.answered {calls : List ToolCall} {messages answers : List Message}
    (h : Waiting calls messages) (hanswers : List.Forall₂ ToolCall.AnsweredBy calls answers) :
    WellFormed (messages ++ answers) := by
  obtain ⟨before, content, rfl, hbefore⟩ := h
  exact hbefore.append_answers hanswers

namespace AgentSettings

variable {agent : AgentSettings} {H : Set TaskExchange} {state next : AgentState}
  {node : GraphNode}

/-- A turn that is sent to validation submits a diagnosis alone, or calls nothing. -/
theorem calls_of_readTurn {turn : AssistantTurn} {submission : Submission}
    (h : agent.readTurn state turn = .ok (some submission)) :
    turn.toolCalls = [] ∨ ∃ call : ToolCall, call.name = submitName ∧ turn.toolCalls = [call] := by
  unfold readTurn at h
  split at h
  · cases h
  split at h
  · cases h
  split at h
  · next call rest hfilter =>
      split at h
      · cases h
      · next hlength =>
          push Not at hlength
          obtain ⟨only, hcalls⟩ := List.length_eq_one_iff.1 hlength.2
          have hmem : call ∈ turn.toolCalls.filter fun call => call.name == submitName := by
            rw [hfilter]
            exact List.mem_cons_self
          rw [List.mem_filter, hcalls, List.mem_singleton, beq_iff_eq] at hmem
          exact .inr ⟨only, hmem.1 ▸ hmem.2, hcalls⟩
  · split at h
    · next hempty => exact .inl (List.isEmpty_iff.1 hempty)
    · cases h

theorem answeredBy_of_answers {calls : List ToolCall} {messages : List Message}
    (h : List.Forall₂ (agent.Answers H state) calls messages) :
    List.Forall₂ ToolCall.AnsweredBy calls messages := by
  apply h.imp
  intro call message hanswer
  obtain ⟨-, result, -, rfl⟩ := hanswer
  exact ⟨rfl, rfl⟩

/-- The correction answers the turn that it rejects. -/
theorem wellFormed_reflected (h : Spoken state.messages .validate) (errors : List String) :
    WellFormed (state.reflected errors).messages := by
  have hcorrection : (Message.correction errors).ByUser := trivial
  change WellFormed (state.messages ++ correctionMessages state errors)
  rcases h with hwaiting | ⟨call, hname, hwaiting⟩
  · obtain ⟨content, hlast⟩ := hwaiting.getLast?
    have hmessages : correctionMessages state errors = [] ++ [.correction errors] := by
      simp [correctionMessages, diagnosisToolCallId, hlast, Message.toolCalls]
    rw [hmessages, ← List.append_assoc]
    exact (hwaiting.answered .nil).append_user hcorrection
  · obtain ⟨content, hlast⟩ := hwaiting.getLast?
    have hmessages : correctionMessages state errors =
        [.tool call.callId submitName (rejection errors)] ++ [.correction errors] := by
      simp [correctionMessages, diagnosisToolCallId, hlast, Message.toolCalls, hname]
    have hanswer : call.AnsweredBy (.tool call.callId submitName (rejection errors)) :=
      ⟨rfl, hname.symm⟩
    rw [hmessages, ← List.append_assoc]
    exact (hwaiting.answered (.cons hanswer .nil)).append_user hcorrection

/-- Each node leaves the next one the conversation that it expects. -/
theorem Returns.spoken (h : agent.Returns H state node (.update next))
    (hspoken : Spoken state.messages node) {node' : GraphNode}
    (hnext : nextNode node next = some node') : Spoken next.messages node' := by
  cases h with
  | given h | resolved h hreplied | confirmed h hreplied hmem =>
      cases hnext
      exact hspoken
  | measured hproduct hreplied =>
      cases hnext
      exact WellFormed.append_user hspoken trivial
  | @turned prompt turn diagnosis hiteration hreplied hread =>
      have hwaiting : Waiting turn.toolCalls (agent.turned state turn diagnosis).messages :=
        ⟨state.messages, turn.content, rfl, hspoken⟩
      cases hnext
      cases diagnosis with
      | none => exact ⟨_, hwaiting⟩
      | some submission =>
          rcases calls_of_readTurn hread with hcalls | ⟨call, hname, hcalls⟩
          · exact .inl (hcalls ▸ hwaiting)
          · exact .inr ⟨call, hname, hcalls ▸ hwaiting⟩
  | @answered lastMessage messages hlast hanswers =>
      obtain ⟨calls, hwaiting⟩ := hspoken
      obtain ⟨content, hlast'⟩ := hwaiting.getLast?
      rw [hlast', Option.some.injEq] at hlast
      subst hlast
      cases hnext
      exact hwaiting.answered (answeredBy_of_answers hanswers)
  | @reflected errors herrors hne hcount =>
      have hroute : nextNode .validate (state.reflected errors) = some .model := by
        simp [nextNode, routeAfterValidation, AgentState.reflected, hne]
      rw [hroute] at hnext
      cases hnext
      exact wellFormed_reflected hspoken errors
  | accepted herrors =>
      cases hnext
      trivial
  | concluded hdiagnosis hpatch | planned hdiagnosis hpatch hproduct hcreated =>
      simp only [nextNode, routeAfterPlan] at hnext
      split at hnext <;> cases hnext
      trivial
  | rejected h hreplied hdecision | applied h hreplied hdecision hreceipt => cases hnext

/-- The next node of a checkpoint finds the conversation that it expects. -/
theorem Reach.spoken {threadId : String} {checkpoint : Checkpoint}
    (h : agent.Reach H threadId checkpoint) {node : GraphNode}
    (hnext : checkpoint.next = some node) :
    Spoken checkpoint.state.messages node := by
  induction h generalizing node with
  | initial h =>
      cases hnext
      exact .user trivial .nil
  | @step checkpoint node' result _ hnode hresult ih =>
      cases result with
      | update next => exact hresult.spoken (ih hnode) hnext
      | interrupt interaction => exact ih hnext

end AgentSettings

/-- In every run of the task system, whatever the model and the tools answer and
whichever calls raise: each conversation sent to the model is well formed, and
`_wire_messages` transmits it message by message. -/
theorem conversations_wellFormed {agent : AgentSettings} {settings : Settings}
    {h : List (TaskConfig × TaskAction)} {c : TaskConfig}
    (run : (taskMachine settings agent.orchestrator).Run .any (.initial World.fresh) h c)
    (codec : JsonCodec) :
    ∀ i, ∀ e ∈ agent.transcripts settings h i, ∀ messages systemPrompt,
      e.call = .complete messages systemPrompt → WellFormed messages ∧
        ∃ wires, codec.wireMessages (messages.map codec.dict) = .ok wires ∧
          List.Forall₂ codec.Transmits messages wires := by
  intro i e he messages systemPrompt hcall
  obtain ⟨past, rest, hpast⟩ := List.append_of_mem he
  have hpermitted := (AgentSettings.graph_run run).permitted i past e rest hpast
  rw [hcall] at hpermitted
  obtain ⟨threadId, checkpoint, hat, hnext, -, rfl⟩ := hpermitted
  exact ⟨hat.2.spoken hnext, codec.wireMessages_transmit checkpoint.state.messages⟩

/-- The texts of the objects that the call of `demoToolActions` puts on the wire. -/
def demoCodec : JsonCodec where
  dumps
    | .obj [("merchant_id", .str merchantId), ("product_id", .str productId)] =>
        "\x7b\"merchant_id\": \"" ++ merchantId ++ "\", \"product_id\": \"" ++ productId ++ "\"\x7d"
    | _ => "\x7b\x7d"
  loads text :=
    if text = "\x7b\x7d" then some (.obj [])
    else some (.obj demoToolCall.arguments)
  str _ := ""
  metrics _ := .null

/-- The number of the messages that a call sends to the model. -/
def TaskCall.messageCount : TaskCall → Option ℕ
  | .complete messages _ => some messages.length
  | _ => none

theorem conversations_wellFormed_demo : ∃ h c messages,
    (taskMachine demoSettings demoAgent.orchestrator).Run .any (.initial .fresh) h c ∧
      (∃ e ∈ demoAgent.transcripts demoSettings h 2, ∃ systemPrompt,
        e.call = .complete messages systemPrompt) ∧
      messages.length = 4 ∧ WellFormed messages ∧ demoCodec.Survives demoToolCall ∧
      ∃ wires, demoCodec.wireMessages (messages.map demoCodec.dict) = .ok wires ∧
        List.Forall₂ demoCodec.Transmits messages wires := by
  have hend : ((taskMachine demoSettings demoAgent.orchestrator).exec .any demoToolActions
      (.initial .fresh)).isSome = true := by decide
  have hsent : (demoAgent.transcripts demoSettings ((taskMachine demoSettings
      demoAgent.orchestrator).trail demoToolActions (.initial .fresh)) 2).any
        (fun e => e.call.messageCount == some 4) = true := by decide
  obtain ⟨c, hc⟩ := Option.isSome_iff_exists.1 hend
  have run := Machine.Run.follow .nil hc
  obtain ⟨⟨call, answer⟩, he, hcall⟩ := List.any_eq_true.1 hsent
  cases call with
  | complete messages systemPrompt =>
      obtain ⟨hwellFormed, hwires⟩ :=
        conversations_wellFormed run demoCodec 2 _ he messages systemPrompt rfl
      exact ⟨_, c, messages, run, ⟨_, he, systemPrompt, rfl⟩,
        by simpa [TaskCall.messageCount] using hcall, hwellFormed, rfl, hwires⟩
  | _ => cases hcall

end CommerceAgent
