import CommerceAgent.Agent.Conversation
import CommerceAgent.Sequence.Trailing

/-!
# Repeated tool calls

`_detect_repetition` keeps a counter and the signature of the last batch of tool calls in
the checkpointed state. The counter is exact: it is the length of the run of equal batches
at the end of the conversation. Two batches are equal when their names and arguments are,
up to the order of the keys of JSON objects; that the signature tells batches apart is
assumed of the batches of the conversation at hand.
-/

namespace CommerceAgent

open Effects Sequence

mutual

/-- Equality of JSON values up to the order of the keys of objects. -/
inductive Json.Same : Json → Json → Prop
  | null : Json.Same .null .null
  | bool (b : Bool) : Json.Same (.bool b) (.bool b)
  | int (n : ℤ) : Json.Same (.int n) (.int n)
  | float (text : String) : Json.Same (.float text) (.float text)
  | str (s : String) : Json.Same (.str s) (.str s)
  | arr {items items' : List Json} (h : Json.SameItems items items') :
      Json.Same (.arr items) (.arr items')
  | obj {fields sorted fields' : List (String × Json)} (hperm : fields.Perm sorted)
      (h : Json.SameFields sorted fields') : Json.Same (.obj fields) (.obj fields')

inductive Json.SameItems : List Json → List Json → Prop
  | nil : Json.SameItems [] []
  | cons {v v' : Json} {items items' : List Json} (h : Json.Same v v')
      (hrest : Json.SameItems items items') : Json.SameItems (v :: items) (v' :: items')

inductive Json.SameFields : List (String × Json) → List (String × Json) → Prop
  | nil : Json.SameFields [] []
  | cons {key : String} {v v' : Json} {fields fields' : List (String × Json)} (h : Json.Same v v')
      (hrest : Json.SameFields fields fields') :
      Json.SameFields ((key, v) :: fields) ((key, v') :: fields')

end

mutual

theorem Json.same_refl : ∀ v : Json, Json.Same v v
  | .null => .null
  | .bool b => .bool b
  | .int n => .int n
  | .float text => .float text
  | .str s => .str s
  | .arr items => .arr (sameItems_refl items)
  | .obj fields => .obj (List.Perm.refl fields) (sameFields_refl fields)

theorem Json.sameItems_refl : ∀ items : List Json, Json.SameItems items items
  | [] => .nil
  | v :: items => .cons (same_refl v) (sameItems_refl items)

theorem Json.sameFields_refl : ∀ fields : List (String × Json), Json.SameFields fields fields
  | [] => .nil
  | (_, v) :: fields => .cons (same_refl v) (sameFields_refl fields)

end

/-- The order of the keys does not matter. -/
theorem Json.Same.of_perm {fields fields' : List (String × Json)} (h : fields.Perm fields') :
    Json.Same (.obj fields) (.obj fields') :=
  .obj h (Json.sameFields_refl fields')

/-- The names and arguments of the tool calls of a turn. -/
abbrev Batch := List (String × JsonObject)

/-- Equality of batches up to the order of keys. -/
def SameBatch (batch batch' : Batch) : Prop :=
  List.Forall₂ (fun call call' => call.1 = call'.1 ∧ Json.Same (.obj call.2) (.obj call'.2))
    batch batch'

theorem SameBatch.names {batch batch' : Batch} (h : SameBatch batch batch') :
    batch.map Prod.fst = batch'.map Prod.fst := by
  induction h with
  | nil => rfl
  | cons hcall _ ih => rw [List.map_cons, List.map_cons, hcall.1, ih]

/-- The calls that `_detect_repetition` compares. -/
def batchOf (calls : List ToolCall) : Batch :=
  (calls.filter fun call => call.name != submitName).map fun call => (call.name, call.arguments)

/-- The batch of a committed turn. -/
def Message.batch? : Message → Option Batch
  | .assistant _ calls => some (batchOf calls)
  | _ => none

/-- The batches of the committed turns, in order. -/
def AgentState.batches (state : AgentState) : List Batch :=
  state.messages.filterMap Message.batch?

/-- `n` is 0 after a turn without tool calls, and otherwise the length of the run of
batches at the end that are the same as the last one. -/
def Repeats (batches : List Batch) (n : ℕ) : Prop :=
  match batches.getLast? with
  | none | some [] => n = 0
  | some last => Trailing SameBatch batches last n

/-- No batch of tool calls occurs `limit` times in a row. -/
def Varied (limit : ℕ) (batches : List Batch) : Prop :=
  ∀ earlier window later batch, batches = earlier ++ window ++ later → batch ∈ window →
    batch ≠ [] → (∀ other ∈ window, SameBatch other batch) → window.length < limit

namespace AgentSettings

variable (agent : AgentSettings)

/-- The signature tells the batches of a conversation apart, up to the order of keys. -/
def Separates (batches : List Batch) : Prop :=
  ∀ batch ∈ batches, ∀ batch' ∈ batches, batch ≠ [] → batch' ≠ [] →
    (agent.signature batch = agent.signature batch' ↔ SameBatch batch batch')

end AgentSettings

section

variable {batches : List Batch} {batch other : Batch}

theorem SameBatch.ne_nil (h : SameBatch other batch) (hne : batch ≠ []) : other ≠ [] := by
  intro hnil
  rw [hnil] at h
  cases h
  exact hne rfl

theorem SameBatch.ne_nil' (h : SameBatch other batch) (hne : other ≠ []) : batch ≠ [] := by
  intro hnil
  rw [hnil] at h
  cases h
  exact hne rfl

theorem repeats_snoc_nil : Repeats (batches ++ [[]]) 0 := by
  simp [Repeats]

/-- The counter after a turn with tool calls. -/
theorem repeats_snoc {n : ℕ} (hne : batch ≠ [])
    (h : Trailing SameBatch (batches ++ [batch]) batch n) :
    Repeats (batches ++ [batch]) n := by
  have hlast : (batches ++ [batch]).getLast? = some batch := by simp
  unfold Repeats
  rw [hlast]
  split
  · next hnone => cases hnone
  · next hnil => exact absurd (Option.some.inj hnil) hne
  · next last _ hsome => exact Option.some.inj hsome ▸ h

end

theorem batches_of_messages {state next : AgentState} {messages : List Message}
    (hmessages : next.messages = state.messages ++ messages)
    (hbatch : ∀ message ∈ messages, message.batch? = none) : next.batches = state.batches := by
  have hnone : messages.filterMap Message.batch? = [] := List.filterMap_eq_nil_iff.2 hbatch
  rw [AgentState.batches, hmessages, List.filterMap_append, hnone, List.append_nil]
  rfl

namespace AgentSettings

variable {agent : AgentSettings} {H : Set TaskExchange} {state next : AgentState}
  {node : GraphNode} {batches : List Batch} {batch : Batch}

theorem Separates.of_append (h : agent.Separates (batches ++ [batch])) :
    agent.Separates batches := by
  intro b hb b' hb'
  exact h b (List.mem_append_left _ hb) b' (List.mem_append_left _ hb')

/-- The batches of a conversation that are the same as `b` are so as `b'`, if these two are. -/
theorem Separates.congr (h : agent.Separates batches) {b b' : Batch} (hb : b ∈ batches)
    (hb' : b' ∈ batches) (hsame : SameBatch b b') (hne : b ≠ []) {other : Batch}
    (hother : other ∈ batches) : SameBatch other b ↔ SameBatch other b' := by
  have hne' := hsame.ne_nil' hne
  have hsignature := (h b hb b' hb' hne hne').2 hsame
  constructor
  · intro hs
    have hne'' := hs.ne_nil hne
    exact (h other hother b' hb' hne'' hne').1
      (((h other hother b hb hne'' hne).2 hs).trans hsignature)
  · intro hs
    have hne'' := hs.ne_nil hne'
    exact (h other hother b hb hne'' hne).1
      (((h other hother b' hb' hne'' hne').2 hs).trans hsignature.symm)

/-- One more turn keeps the conversation varied, when its run is short enough. -/
theorem Separates.varied_snoc (h : agent.Separates (batches ++ [batch])) {limit : ℕ}
    (hvaried : Varied limit batches)
    (hrun : batch ≠ [] → ∃ n < limit, Trailing SameBatch (batches ++ [batch]) batch n) :
    Varied limit (batches ++ [batch]) := by
  intro earlier window later b hsplit hb hne hall
  rcases List.eq_nil_or_concat later with rfl | ⟨later, last, rfl⟩
  · -- The window ends with the new turn.
    rw [List.append_nil] at hsplit
    rcases List.eq_nil_or_concat window with rfl | ⟨front, last, rfl⟩
    · cases hb
    rw [List.concat_eq_append, ← List.append_assoc] at hsplit
    obtain ⟨rfl, hlast⟩ := List.append_inj' hsplit rfl
    obtain rfl := (List.cons.inj hlast).1
    have hsame : SameBatch batch b := hall batch (by simp)
    have hbatch : batch ≠ [] := hsame.ne_nil hne
    obtain ⟨n, hn, htrailing⟩ := hrun hbatch
    have hmem : ∀ y ∈ front.concat batch, y ∈ earlier ++ front ++ [batch] := by
      intro y hy
      simp only [List.concat_eq_append, List.mem_append] at hy ⊢
      tauto
    have hend : earlier ++ front ++ [batch] = earlier ++ front.concat batch := by simp
    refine (htrailing.length_le hend ?_).trans_lt hn
    intro y hy
    exact (h.congr (hmem batch (by simp)) (hmem b hb) hsame hbatch (hmem y hy)).2 (hall y hy)
  · -- The window lies before the new turn.
    rw [List.concat_eq_append, ← List.append_assoc] at hsplit
    exact hvaried earlier window later b (List.append_inj' hsplit rfl).1 hb hne hall

/-- What the counter and the signature in the state say about the conversation. -/
structure Counted (agent : AgentSettings) (state : AgentState) : Prop where
  repeats : Repeats state.batches state.repeatedSteps
  signature : ∀ last ∈ state.batches.getLast?, last ≠ [] →
    state.lastSignature = agent.signature last
  varied : Varied agent.maxRepeatedSteps state.batches

theorem detectRepetition_nil {turn : AssistantTurn} (h : batchOf turn.toolCalls = []) :
    agent.detectRepetition state turn = (0, "") := by
  have hcalls : turn.toolCalls.filter (fun call => call.name != submitName) = [] :=
    List.map_eq_nil_iff.1 h
  simp only [detectRepetition, hcalls]
  rfl

theorem detectRepetition_cons {turn : AssistantTurn} (h : batchOf turn.toolCalls ≠ []) :
    agent.detectRepetition state turn =
      (if agent.signature (batchOf turn.toolCalls) = state.lastSignature then
        state.repeatedSteps + 1 else 1, agent.signature (batchOf turn.toolCalls)) := by
  have hcalls : (turn.toolCalls.filter fun call => call.name != submitName).isEmpty = false := by
    rw [List.isEmpty_eq_false_iff]
    exact fun hnil => h (List.map_eq_nil_iff.2 hnil)
  simp only [detectRepetition, hcalls]
  rfl

/-- A turn that is read stays below the limit. -/
theorem repetition_lt_of_readTurn {turn : AssistantTurn} {diagnosis : Option Submission}
    (h : agent.readTurn state turn = .ok diagnosis) :
    (agent.detectRepetition state turn).1 < agent.maxRepeatedSteps := by
  unfold readTurn at h
  split at h
  · cases h
  split at h
  · cases h
  · next hlimit => exact not_le.1 hlimit

/-- The new counter is the length of the run that the new turn ends. -/
theorem Counted.trailing (hcounted : agent.Counted state) {turn : AssistantTurn}
    (hseparates : agent.Separates (state.batches ++ [batchOf turn.toolCalls]))
    (hne : batchOf turn.toolCalls ≠ []) :
    Trailing SameBatch (state.batches ++ [batchOf turn.toolCalls]) (batchOf turn.toolCalls)
      (agent.detectRepetition state turn).1 := by
  have hnew : batchOf turn.toolCalls ∈ state.batches ++ [batchOf turn.toolCalls] := by simp
  have hself : SameBatch (batchOf turn.toolCalls) (batchOf turn.toolCalls) :=
    (hseparates _ hnew _ hnew hne hne).1 rfl
  have hrepeats := hcounted.repeats
  rw [detectRepetition_cons hne]
  unfold Repeats at hrepeats
  split at hrepeats
  · -- The first turn.
    next hnone => simpa [hrepeats] using Trailing.snoc_new hself (by simp [hnone])
  · -- A turn without tool calls came before it.
    next hsome =>
      have hother : ∀ y ∈ state.batches.getLast?, ¬ SameBatch y (batchOf turn.toolCalls) := by
        intro y hy hs
        rw [hsome, Option.mem_some_iff] at hy
        exact hs.ne_nil hne hy.symm
      simpa [hrepeats] using Trailing.snoc_new hself hother
  · next last hnil hsome =>
      have hlast : last ≠ [] := hnil
      have hmem : last ∈ state.batches ++ [batchOf turn.toolCalls] :=
        List.mem_append_left _ (List.mem_of_mem_getLast? hsome)
      have hkey := hseparates last hmem _ hnew hlast hne
      rw [hcounted.signature last hsome hlast]
      split
      · next heq =>
          have hsame := hkey.1 heq.symm
          apply hrepeats.snoc_same hself
          intro y hy
          exact hseparates.congr hmem hnew hsame hlast (List.mem_append_left _ hy)
      · next hdiffers =>
          apply Trailing.snoc_new hself
          intro y hy hs
          rw [hsome, Option.mem_some_iff] at hy
          exact hdiffers (hkey.2 (hy ▸ hs)).symm

/-- A committed turn. -/
theorem Counted.turned (hcounted : agent.Counted state) {turn : AssistantTurn}
    {diagnosis : Option Submission} (hread : agent.readTurn state turn = .ok diagnosis)
    (hseparates : agent.Separates (agent.turned state turn diagnosis).batches) :
    agent.Counted (agent.turned state turn diagnosis) := by
  have hbatches : (agent.turned state turn diagnosis).batches =
      state.batches ++ [batchOf turn.toolCalls] := by
    simp [AgentState.batches, AgentSettings.turned, Message.batch?]
  rw [hbatches] at hseparates
  have htrailing := hcounted.trailing hseparates
  constructor
  · rw [hbatches]
    by_cases hne : batchOf turn.toolCalls = []
    · rw [hne]
      have hcount : (agent.turned state turn diagnosis).repeatedSteps = 0 :=
        congrArg Prod.fst (detectRepetition_nil hne)
      exact hcount ▸ repeats_snoc_nil
    · exact repeats_snoc hne (htrailing hne)
  · intro last hlast hne
    rw [hbatches] at hlast
    have heq : batchOf turn.toolCalls = last := by simpa using hlast
    subst heq
    exact congrArg Prod.snd (detectRepetition_cons hne)
  · rw [hbatches]
    apply hseparates.varied_snoc hcounted.varied
    intro hne
    exact ⟨_, repetition_lt_of_readTurn hread, htrailing hne⟩

/-- The answers of tools are no turns. -/
theorem batch?_of_answers {calls : List ToolCall} {messages : List Message}
    (h : List.Forall₂ (agent.Answers H state) calls messages) :
    ∀ message ∈ messages, message.batch? = none := by
  induction h with
  | nil => simp
  | cons hanswer _ ih =>
      obtain ⟨-, result, -, rfl⟩ := hanswer
      exact List.forall_mem_cons.2 ⟨rfl, ih⟩

/-- Only the model node adds a turn or counts one. -/
theorem Returns.batches_eq (h : agent.Returns H state node (.update next)) (hnode : node ≠ .model) :
    next.batches = state.batches ∧ next.repeatedSteps = state.repeatedSteps ∧
      next.lastSignature = state.lastSignature := by
  cases h with
  | turned hiteration hreplied hread => exact absurd rfl hnode
  | measured hproduct hreplied =>
      exact ⟨batches_of_messages rfl (by simp [Message.batch?]), rfl, rfl⟩
  | @answered lastMessage messages hlast hanswers =>
      exact ⟨batches_of_messages rfl (batch?_of_answers hanswers), rfl, rfl⟩
  | @reflected errors herrors hne hcount =>
      have hnone : ∀ message ∈ correctionMessages state errors, message.batch? = none := by
        intro message hmessage
        rcases List.mem_append.1 hmessage with hmessage | hmessage
        · obtain ⟨toolCallId, -, rfl⟩ := Option.map_eq_some_iff.1 (Option.mem_toList.1 hmessage)
          rfl
        · rw [List.mem_singleton.1 hmessage]
          rfl
      exact ⟨batches_of_messages rfl hnone, rfl, rfl⟩
  | _ => exact ⟨rfl, rfl, rfl⟩

/-- The turns of a thread are only added to. -/
theorem Returns.separates (h : agent.Returns H state node (.update next))
    (hseparates : agent.Separates next.batches) : agent.Separates state.batches := by
  by_cases hnode : node = .model
  · subst hnode
    cases h with
    | @turned prompt turn diagnosis hiteration hreplied hread =>
        have happend : agent.Separates (state.batches ++ [batchOf turn.toolCalls]) := by
          simpa [AgentState.batches, AgentSettings.turned, Message.batch?] using hseparates
        exact happend.of_append
  · exact (h.batches_eq hnode).1 ▸ hseparates

theorem Returns.counted (h : agent.Returns H state node (.update next))
    (hseparates : agent.Separates next.batches) (hcounted : agent.Counted state) :
    agent.Counted next := by
  by_cases hnode : node = .model
  · subst hnode
    cases h with
    | turned hiteration hreplied hread => exact hcounted.turned hread hseparates
  · obtain ⟨hbatches, hrepeated, hsignature⟩ := h.batches_eq hnode
    constructor
    · rw [hbatches, hrepeated]
      exact hcounted.repeats
    · rw [hbatches, hsignature]
      exact hcounted.signature
    · rw [hbatches]
      exact hcounted.varied

/-- The counter of every checkpoint in reach is exact. -/
theorem Reach.counted {threadId : String} {checkpoint : Checkpoint}
    (h : agent.Reach H threadId checkpoint)
    (hseparates : agent.Separates checkpoint.state.batches) :
    agent.Counted checkpoint.state := by
  induction h with
  | @initial task h =>
      have hnil : task.initialCheckpoint.state.batches = [] := rfl
      constructor
      · exact rfl
      · intro last hlast
        rw [hnil] at hlast
        cases hlast
      · intro earlier window later batch hsplit hbatch
        rw [hnil] at hsplit
        simp_all
  | @step checkpoint node result _ _ hresult ih =>
      cases result with
      | update next => exact hresult.counted hseparates (ih (hresult.separates hseparates))
      | interrupt interaction => exact ih hseparates

/-- A turn that goes to the tools calls tools only, and at least one. -/
theorem batchOf_of_readTurn {turn : AssistantTurn} (h : agent.readTurn state turn = .ok none) :
    turn.toolCalls ≠ [] ∧
      batchOf turn.toolCalls = turn.toolCalls.map fun call => (call.name, call.arguments) := by
  unfold readTurn at h
  split at h
  · cases h
  split at h
  · cases h
  split at h
  · split at h <;> cases h
  · next hsubmit =>
      split at h
      · cases h
      · next hcalls =>
          refine ⟨fun hnil => hcalls (by simp [hnil]), ?_⟩
          have hall : turn.toolCalls.filter (fun call => call.name != submitName) =
              turn.toolCalls := by
            apply List.filter_eq_self.2
            intro call hcall
            simpa [bne] using List.filter_eq_nil_iff.1 hsubmit call hcall
          rw [batchOf, hall]

/-- What the tools node receives is the last batch of the conversation. -/
theorem Reach.received {threadId : String} {checkpoint : Checkpoint}
    (h : agent.Reach H threadId checkpoint) (hnext : checkpoint.next = some .tools) :
    ∃ message, checkpoint.state.messages.getLast? = some message ∧ message.toolCalls ≠ [] ∧
      checkpoint.state.batches.getLast? =
        some (message.toolCalls.map fun call => (call.name, call.arguments)) := by
  induction h with
  | initial h => cases hnext
  | @step checkpoint node result _ hnode hresult ih =>
      cases result with
      | interrupt interaction => exact ih hnext
      | update next =>
          cases hresult with
          | @turned prompt turn diagnosis hiteration hreplied hread =>
              cases diagnosis with
              | some submission => cases hnext
              | none =>
                  obtain ⟨hne, hbatch⟩ := batchOf_of_readTurn hread
                  refine ⟨.assistant turn.content turn.toolCalls, ?_, hne, ?_⟩
                  · simp [Checkpoint.commit, AgentSettings.turned]
                  · simp [Checkpoint.commit, AgentState.batches, AgentSettings.turned,
                      Message.batch?, Message.toolCalls, hbatch]
          | concluded | planned | reflected | accepted =>
              simp only [Checkpoint.commit, nextNode, routeAfterPlan, routeAfterValidation] at hnext
              split at hnext <;> cases hnext
          | _ => cases hnext

/-- Repetition is detected: the counter is exact, no batch occurs `max_repeated_steps` times
in a row, and the tools node receives the last batch. -/
structure Detected (agent : AgentSettings) (checkpoint : Checkpoint) : Prop where
  repeats : Repeats checkpoint.state.batches checkpoint.state.repeatedSteps
  varied : Varied agent.maxRepeatedSteps checkpoint.state.batches
  received : checkpoint.next = some .tools →
    ∃ message, checkpoint.state.messages.getLast? = some message ∧ message.toolCalls ≠ [] ∧
      checkpoint.state.batches.getLast? =
        some (message.toolCalls.map fun call => (call.name, call.arguments))

theorem Reach.detected {threadId : String} {checkpoint : Checkpoint}
    (h : agent.Reach H threadId checkpoint)
    (hseparates : agent.Separates checkpoint.state.batches) :
    agent.Detected checkpoint :=
  ⟨(h.counted hseparates).repeats, (h.counted hseparates).varied, h.received⟩

end AgentSettings

/-- In every run of the task system, whatever the model answers and however often a thread
is retried or resumed: in each stored checkpoint, and in each checkpoint at which a node is
run, the counter is the length of the run of equal batches at the end of the committed
turns, and no batch occurs `max_repeated_steps` times in a row. -/
theorem repetition_exact {agent : AgentSettings} {settings : Settings}
    {h : List (TaskConfig × TaskAction)} {c : TaskConfig}
    (run : (taskMachine settings agent.orchestrator).Run .any (.initial World.fresh) h c) :
    (∀ threadId checkpoint, c.state.checkpoints threadId = some checkpoint →
      agent.Separates checkpoint.state.batches → agent.Detected checkpoint) ∧
    ∀ i past e rest threadId node, agent.transcripts settings h i = past ++ e :: rest →
      e.call = .enterNode threadId node →
        ∃ checkpoint, currentCheckpoint past = some checkpoint ∧ checkpoint.next = some node ∧
          (agent.Separates checkpoint.state.batches → agent.Detected checkpoint) := by
  have hsound := AgentSettings.graph_run run
  constructor
  · intro threadId checkpoint hstored hseparates
    exact (hsound.stored threadId checkpoint hstored).detected hseparates
  · intro i past e rest threadId node hpast hcall
    have hpermitted := hsound.permitted i past e rest hpast
    rw [hcall] at hpermitted
    obtain ⟨checkpoint, hat, hnext⟩ := hpermitted
    exact ⟨checkpoint, hat.1, hnext, hat.2.detected⟩

/-- The call of `demoToolCall` again, its keys in the other order. -/
def demoRepeatedCall : ToolCall where
  callId := "call-2"
  name := "get_metrics"
  arguments := [("product_id", .str demoProductId), ("merchant_id", .str demoMerchantId)]

/-- Another call, before the two. -/
def demoOtherCall : ToolCall where
  callId := "call-0"
  name := "search_knowledge"
  arguments := [("query", .str "conversion")]

/-- The model calls one tool in its first turn, another one in its second, and that again in its
third. -/
def demoRepeatActions : List TaskAction :=
  demoStartActions ++
    .call 2 { turn := { toolCalls := [demoOtherCall] } } :: List.replicate 8 (.call 2 {}) ++
    .call 2 { turn := { toolCalls := [demoToolCall] } } :: List.replicate 8 (.call 2 {}) ++
    .call 2 { turn := { toolCalls := [demoRepeatedCall] } } :: List.replicate 2 (.call 2 {})

/-- The signature of the names tells the batches of the run apart. -/
theorem separates_demoBatches : demoAgent.Separates
    [batchOf [demoOtherCall], batchOf [demoToolCall], batchOf [demoRepeatedCall]] := by
  have hnamed : ∀ batch batch', SameBatch batch batch' →
      demoAgent.signature batch = demoAgent.signature batch' :=
    fun _ _ hsame => congrArg (",".intercalate) hsame.names
  have hother : demoAgent.signature (batchOf [demoOtherCall]) ≠
      demoAgent.signature (batchOf [demoToolCall]) := by decide +kernel
  have hswapped : ∀ fields fields' : List (String × Json), fields.Perm fields' →
      SameBatch [("get_metrics", fields)] [("get_metrics", fields')] :=
    fun _ _ hperm => .cons ⟨rfl, .of_perm hperm⟩ .nil
  have hswap : demoToolCall.arguments.Perm demoRepeatedCall.arguments := List.Perm.swap _ _ _
  intro batch hbatch batch' hbatch' _ _
  refine ⟨fun hsignature => ?_, hnamed _ _⟩
  simp only [List.mem_cons, List.not_mem_nil, or_false] at hbatch hbatch'
  rcases hbatch with rfl | rfl | rfl
  · rcases hbatch' with rfl | rfl | rfl
    · exact .cons ⟨rfl, .of_perm (.refl _)⟩ .nil
    · exact absurd hsignature hother
    · exact absurd hsignature hother
  · rcases hbatch' with rfl | rfl | rfl
    · exact absurd hsignature.symm hother
    · exact hswapped _ _ (.refl _)
    · exact hswapped _ _ hswap
  · rcases hbatch' with rfl | rfl | rfl
    · exact absurd hsignature.symm hother
    · exact hswapped _ _ hswap.symm
    · exact hswapped _ _ (.refl _)

theorem repetition_exact_demo : ∃ h c checkpoint,
    (taskMachine demoSettings demoAgent.orchestrator).Run .any (.initial .fresh) h c ∧
      c.state.checkpoints "task-1" = some checkpoint ∧
      checkpoint.state.batches =
        [batchOf [demoOtherCall], batchOf [demoToolCall], batchOf [demoRepeatedCall]] ∧
      checkpoint.state.repeatedSteps = 2 ∧ demoAgent.Detected checkpoint := by
  have hend : ((taskMachine demoSettings demoAgent.orchestrator).exec .any demoRepeatActions
      (.initial .fresh)).bind (fun c => (c.state.checkpoints "task-1").map fun checkpoint =>
        (checkpoint.state.batches, checkpoint.state.repeatedSteps)) =
      some ([batchOf [demoOtherCall], batchOf [demoToolCall], batchOf [demoRepeatedCall]], 2) := by
    rfl
  obtain ⟨c, hc, hcheckpoint⟩ := Option.bind_eq_some_iff.1 hend
  obtain ⟨h, run⟩ := Machine.Run.exec .nil hc
  obtain ⟨checkpoint, hstored, hcounts⟩ := Option.map_eq_some_iff.1 hcheckpoint
  obtain ⟨hbatches, hrepeated⟩ := Prod.mk.inj hcounts
  exact ⟨h, c, checkpoint, run, hstored, hbatches, hrepeated,
    (repetition_exact run).1 "task-1" checkpoint hstored (hbatches ▸ separates_demoBatches)⟩

end CommerceAgent
