import CommerceAgent.Agent.Budget
import CommerceAgent.Agent.Completion
import CommerceAgent.Agent.Conversation

/-!
# What the model is told it has said

The turns of the model are read from responses, kept in the checkpoints of a thread, and sent
back to the model with every later request. Each of them is what the model has answered when it
was sent the conversation before it, and it is sent as it was read: with its content and its
calls, and the calls with the ids, names and arguments that they had.
-/

namespace CommerceAgent

open Effects

/-- The codec writes and reads JSON as `json` does, and `str` leaves nothing empty. -/
structure JsonCodec.Faithful (codec : JsonCodec) (floatText : String → String) : Prop where
  dumps : codec.dumps = Json.dumps Json.spaced
  loads : codec.loads = Json.loads floatText
  normal : Json.Normal floatText
  str : ∀ v, codec.str v ≠ ""

/-- A call that is read back from what is written of it. -/
def JsonCodec.Keeps (codec : JsonCodec) (call : ToolCall) : Prop :=
  call.callId ≠ "" ∧ codec.Survives call

section Reading

variable {codec : JsonCodec} {floatText : String → String}

theorem JsonCodec.Faithful.survives (h : codec.Faithful floatText) {call : ToolCall}
    (hwritable : Json.Writable floatText (.obj call.arguments)) : codec.Survives call := by
  rw [Survives, h.dumps, h.loads]
  exact Json.loads_dumps Json.spaced_blank hwritable

theorem JsonCodec.Faithful.text_ne (h : codec.Faithful floatText) {v : Json}
    (hv : v.truthy = true) : codec.text v ≠ "" := by
  cases v with
  | str s =>
      change s ≠ ""
      simpa [Json.truthy] using hv
  | _ => exact h.str _

theorem JsonCodec.Faithful.readId_ne (h : codec.Faithful floatText) (n : ℕ)
    (rawCall : JsonObject) : codec.readId n rawCall ≠ "" := by
  have hdefault : "call-" ++ toString n ≠ "" := by
    intro hempty
    have hlist := congrArg String.toList hempty
    rw [String.toList_append] at hlist
    cases hlist
  unfold JsonCodec.readId
  split
  · next id _ =>
      split_ifs with hid
      · exact h.text_ne hid
      · exact hdefault
  · exact hdefault

theorem JsonCodec.Faithful.readArguments (h : codec.Faithful floatText) {function d : JsonObject}
    (hfunction : Json.Writable floatText (.obj function))
    (hread : codec.readArguments function = .ok d) : Json.Writable floatText (.obj d) := by
  unfold JsonCodec.readArguments at hread
  split at hread
  · next arguments hget =>
      cases hread
      cases hfield : JsonObject.get? "arguments" function with
      | none =>
          rw [hfield] at hget
          cases hget
      | some v =>
          rw [hfield] at hget
          cases hget
          exact hfunction.of_get? hfield
  · split at hread
    · cases hread
    · next arguments hloads =>
        cases hread
        rw [h.loads] at hloads
        exact Json.writable_of_loads h.normal hloads
    · cases hread

theorem JsonCodec.Faithful.readCall (h : codec.Faithful floatText) {v : Json}
    (hv : Json.Writable floatText v) {n : ℕ} {call : ToolCall}
    (hread : codec.readCall n v = .ok call) : codec.Keeps call := by
  cases v with
  | obj rawCall =>
      obtain ⟨function, hfunction, hread⟩ := exists_of_bind_ok hread
      obtain ⟨arguments, harguments, hread⟩ := exists_of_bind_ok hread
      cases hread
      refine ⟨h.readId_ne n rawCall, h.survives ?_⟩
      have hwritable : Json.Writable floatText (.obj function) := by
        unfold JsonCodec.function at hfunction
        split at hfunction
        · cases hfunction
          exact .obj List.nodup_nil fun _ hmem => absurd hmem List.not_mem_nil
        · next hget =>
            cases hfunction
            exact hv.of_get? hget
        · cases hfunction
      exact h.readArguments hwritable harguments
  | _ => cases hread

theorem JsonCodec.Faithful.readCallsFrom (h : codec.Faithful floatText) {rawCalls : List Json}
    (hraw : ∀ v ∈ rawCalls, Json.Writable floatText v) {n : ℕ} {calls : List ToolCall}
    (hread : codec.readCallsFrom n rawCalls = .ok calls) : ∀ call ∈ calls, codec.Keeps call := by
  induction rawCalls generalizing n calls with
  | nil =>
      cases hread
      exact fun _ hmem => absurd hmem List.not_mem_nil
  | cons v rawCalls ih =>
      obtain ⟨call, hcall, hread⟩ := exists_of_bind_ok hread
      obtain ⟨rest, hrest, hread⟩ := exists_of_bind_ok hread
      cases hread
      intro other hmem
      rcases List.mem_cons.1 hmem with rfl | hmem
      · exact h.readCall (hraw v List.mem_cons_self) hcall
      · exact ih (fun v hv => hraw v (List.mem_cons_of_mem _ hv)) hrest other hmem

/-- The calls of a message that `json` has read are kept. -/
theorem JsonCodec.Faithful.readCalls (h : codec.Faithful floatText) {message : JsonObject}
    (hmessage : Json.Writable floatText (.obj message)) {calls : List ToolCall}
    (hread : codec.readCalls message = .ok calls) : ∀ call ∈ calls, codec.Keeps call := by
  unfold JsonCodec.readCalls at hread
  split at hread
  · cases hread
    exact fun _ hmem => absurd hmem List.not_mem_nil
  · next rawCalls hget =>
      have hraw := hmessage.of_get? hget
      split at hread
      · cases hread
        exact fun _ hmem => absurd hmem List.not_mem_nil
      · split at hread
        · exact h.readCallsFrom (fun v hv => hraw.of_mem hv) hread
        · cases hread
        · cases hread
        · cases hread

end Reading

section Responses

variable {codec : CompletionCodec} {floatText : String → String}

theorem dict_eq_ok {v : Json} {d : JsonObject} (h : v.dict = .ok d) : v = .obj d := by
  cases v with
  | obj d' =>
      cases h
      rfl
  | _ => cases h

theorem writable_dictOf {key : String} {d d' : JsonObject}
    (hd : Json.Writable floatText (.obj d)) (h : d.dictOf key = .ok d') :
    Json.Writable floatText (.obj d') := by
  have hget := dict_eq_ok h
  cases hfield : d.get? key with
  | none =>
      rw [hfield] at hget
      cases hget
      exact .obj List.nodup_nil fun _ hmem => absurd hmem List.not_mem_nil
  | some v =>
      rw [hfield] at hget
      cases hget
      exact hd.of_get? hfield

end Responses

section Runs

variable {codec : CompletionCodec} {floatText : String → String} {agent : AgentSettings}
  {settings : Settings} {h : List (TaskConfig × TaskAction)} {c : TaskConfig}

/-- Each turn in the conversation is what the model has answered when it was sent the messages
before it. -/
def Recounts (H : Set TaskExchange) (messages : List Message) : Prop :=
  ∀ before content toolCalls after, messages = before ++ .assistant content toolCalls :: after →
    ∃ systemPrompt, ∃ turn : AssistantTurn, Replied H (.complete before systemPrompt) turn ∧
      turn.content = content ∧ turn.toolCalls = toolCalls

variable {H : Set TaskExchange} {threadId : String} {checkpoint : Checkpoint}
  {messages : List Message}

theorem Recounts.snoc (hmessages : Recounts H messages) {message : Message}
    (hlast : ∀ content toolCalls, message = .assistant content toolCalls →
      ∃ systemPrompt, ∃ turn : AssistantTurn, Replied H (.complete messages systemPrompt) turn ∧
        turn.content = content ∧ turn.toolCalls = toolCalls) :
    Recounts H (messages ++ [message]) := by
  intro before content toolCalls after heq
  rcases List.eq_nil_or_concat after with rfl | ⟨after, last, rfl⟩
  · obtain ⟨rfl, hmessage⟩ := List.append_inj' heq rfl
    exact hlast content toolCalls (List.singleton_inj.1 hmessage)
  · rw [List.concat_eq_append, ← List.cons_append, ← List.append_assoc] at heq
    exact hmessages before content toolCalls after (List.append_inj' heq rfl).1

theorem Recounts.append (hmessages : Recounts H messages) {new : List Message}
    (hnew : new.countP Message.isTurn = 0) : Recounts H (messages ++ new) := by
  induction new generalizing messages with
  | nil => rwa [List.append_nil]
  | cons message new ih =>
      obtain ⟨hmessage, hrest⟩ := List.forall_mem_cons.1 (List.countP_eq_zero.1 hnew)
      rw [List.append_cons]
      refine ih (hmessages.snoc ?_) (List.countP_eq_zero.2 hrest)
      rintro content toolCalls rfl
      exact absurd rfl hmessage

end Runs

/-- The turn of the model that a step would be answered with. -/
def TaskAction.turn : TaskAction → Option AssistantTurn
  | .call _ ch => some ch.turn
  | _ => none

end CommerceAgent
