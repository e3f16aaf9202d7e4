import CommerceAgent.Json.Normal
import CommerceAgent.Tasks.Documents
import CommerceAgent.Tasks.EventNumbers
import CommerceAgent.Tasks.Store

/-!
# The texts of the event stream

`append_event` enriches the payload of an event and writes it as JSON, `list_events` and
`iter_events` read it back. Whatever calls of `append_event` run at once: each entry of a
stream is read as the event of the call that has added it, which is the event that the call
returns.
-/

namespace CommerceAgent

open Effects Text

/-- The context variables of `append_event`, its clock, and what the worker measures. -/
structure EventContext where
  traceId : String
  sessionId : String
  occurredAt : String
  queueWaitMs : Json
  /-- `type(exc).__name__`. -/
  exceptionName : Exn → String

/-- The payload that the source hands to `append_event` for the event. -/
def TaskEvent.payload (context : EventContext) (taskId : String) : TaskEvent → JsonObject
  | .queued sessionId attempt =>
      [("task_id", .str taskId), ("session_id", .str sessionId), ("attempt", .int attempt)]
  | .failed none errorCode message =>
      [("task_id", .str taskId), ("error_code", .str errorCode), ("message", .str message)]
  | .failed (some attempt) errorCode message =>
      [("task_id", .str taskId), ("attempt", .int attempt), ("error_code", .str errorCode),
        ("message", .str message)]
  | .inputSubmitted productId => [("product_id", .str productId)]
  | .approvalSubmitted planId actionId decision =>
      [("plan_id", .str planId), ("action_id", .str actionId), ("decision", .str decision.value)]
  | .approvalRequeued approvalId => [("approval_id", .str approvalId)]
  | .resumed sessionId => [("task_id", .str taskId), ("session_id", .str sessionId)]
  | .started attempt =>
      [("task_id", .str taskId), ("attempt", .int attempt), ("queue_wait_ms", context.queueWaitMs)]
  | .approvalRequired interaction => Json.dictOf (("node_name", .str "plan") :: interaction.dict)
  | .finished outcome attempt =>
      [("result", .ofOption .str outcome.result),
        ("interaction", .ofOption (fun interaction => .obj interaction.dict) outcome.interaction),
        ("attempt", .int attempt)]
  | .retrying attempt nextAttempt errorCode message =>
      [("task_id", .str taskId), ("attempt", .int attempt), ("next_attempt", .int nextAttempt),
        ("error_code", .str errorCode), ("message", .str message)]
  | .scopeResolved merchantId productId =>
      [("node_name", .str "scope"), ("merchant_id", .str merchantId),
        ("product_id", .str productId)]
  | .metricsComputed snapshotId metricVersion =>
      [("node_name", .str "metrics"), ("snapshot_id", .str snapshotId),
        ("metric_version", .str metricVersion)]
  | .agentModel iteration reflectionCount promptVersion skillVersion inputTokens outputTokens
      finishReason toolCalls =>
      [("node_name", .str "diagnose"), ("role", .str "main_agent"), ("iteration", .int iteration),
        ("reflection_count", .int reflectionCount), ("prompt_version", .str promptVersion),
        ("skill_version", .str skillVersion),
        ("input_tokens", .ofOption (fun n : ℕ => .int n) inputTokens),
        ("output_tokens", .ofOption (fun n : ℕ => .int n) outputTokens),
        ("finish_reason", .ofOption .str finishReason), ("tool_calls", .arr (toolCalls.map .str))]
  | .toolStarted toolName toolCallId =>
      [("tool_name", .str toolName), ("tool_call_id", .str toolCallId)]
  | .toolFailed toolName toolCallId error =>
      [("tool_name", .str toolName), ("tool_call_id", .str toolCallId),
        ("error", .str (context.exceptionName error))]
  | .toolCompleted toolName toolCallId evidenceIds snapshotId =>
      [("tool_name", .str toolName), ("tool_call_id", .str toolCallId),
        ("evidence_ids", evidenceIds.getD (.arr [])), ("snapshot_id", snapshotId.getD .null)]
  | .reflection reflectionCount errors =>
      [("node_name", .str "validate"), ("reflection_count", .int reflectionCount),
        ("errors", .arr (errors.map .str))]
  | .diagnosisValidated reflectionCount =>
      [("node_name", .str "validate"), ("reflection_count", .int reflectionCount),
        ("validation", .str "passed")]
  | .approvalRejected planId => [("node_name", .str "approval"), ("plan_id", .str planId)]
  | .actionApplied planId actionId receiptId productVersion idempotencyHit =>
      [("node_name", .str "execute"), ("plan_id", .str planId), ("action_id", .str actionId),
        ("receipt_id", .str receiptId), ("product_version", .int productVersion),
        ("idempotency_hit", .bool idempotencyHit)]

/-- `{"trace_id": ..., "task_id": ..., "session_id": ..., "occurred_at": ..., **payload}`. -/
def enrichedPayload (context : EventContext) (taskId : String) (payload : JsonObject) :
    JsonObject :=
  Json.dictOf ([("trace_id", .str context.traceId), ("task_id", .str taskId),
    ("session_id", .str context.sessionId), ("occurred_at", .str context.occurredAt)] ++ payload)

/-- The call of `append_event` that reports an event. -/
def TaskEvent.request (context : EventContext) (taskId : String) (event : TaskEvent) :
    AppendRequest :=
  ⟨taskId, event.eventType, enrichedPayload context taskId (event.payload context taskId)⟩

/-- `json.dumps(enriched_payload, ensure_ascii=False, default=str)`. -/
def dumpsPayload (payload : JsonObject) : String := (Json.obj payload).dumps Json.spaced

/-- What `_decode_event` and the router use of `json`, `int` and `re`. -/
def jsonEventCodec (floatText : String → String) (int : String → Except Exn ℤ)
    (decimal : Char → Bool) : EventCodec where
  loads text := (Json.loads floatText text).elim (.error (.valueError "JSONDecodeError")) .ok
  int
  decimal

/-- `list_events`, on the stream as it is. -/
def listEvents (codec : EventCodec) (stream : List StreamEntry) : Except Exn (List StreamEvent) :=
  stream.mapM (decodeEvent codec)

/-- What a tool or the clock has contributed can be written. -/
def TaskEvent.Writable (floatText : String → String) (context : EventContext) (event : TaskEvent) :
    Prop :=
  context.queueWaitMs.Writable floatText ∧
    ∀ toolName toolCallId evidenceIds snapshotId,
      event = .toolCompleted toolName toolCallId evidenceIds snapshotId →
        (∀ v ∈ evidenceIds, v.Writable floatText) ∧ ∀ v ∈ snapshotId, v.Writable floatText

theorem writable_strings {floatText : String → String} (texts : List String) :
    (Json.arr (texts.map .str)).Writable floatText := by
  refine .arr ?_
  intro v hv
  obtain ⟨text, -, rfl⟩ := List.mem_map.1 hv
  exact .str text

/-- The values of a payload can be written. -/
theorem TaskEvent.writable_payload {floatText : String → String} {context : EventContext}
    {event : TaskEvent} (h : event.Writable floatText context) (taskId : String) :
    ∀ field ∈ event.payload context taskId, field.2.Writable floatText := by
  have htext : ∀ o : Option String, (Json.ofOption .str o).Writable floatText :=
    Json.writable_ofOption .str
  have hcount : ∀ o : Option ℕ, (Json.ofOption (fun n : ℕ => .int n) o).Writable floatText :=
    Json.writable_ofOption fun n => .int n
  have hinteraction : ∀ o : Option Interaction,
      (Json.ofOption (fun interaction => .obj interaction.dict) o).Writable floatText :=
    Json.writable_ofOption Interaction.writable_dict
  have hstr : ∀ s, (Json.str s).Writable floatText := .str
  have hint : ∀ n, (Json.int n).Writable floatText := .int
  have hbool : ∀ b, (Json.bool b).Writable floatText := .bool
  cases event with
  | approvalRequired interaction =>
      have hdict : (Json.obj interaction.dict).Writable floatText := interaction.writable_dict
      have hwhole :
          (Json.obj (Json.dictOf (("node_name", .str "plan") :: interaction.dict))).Writable
            floatText := by
        apply Json.writable_dictOf
        intro field hfield
        rcases List.mem_cons.1 hfield with rfl | hfield
        · exact .str _
        · cases hdict with
          | obj hkeys hfields => exact hfields field hfield
      cases hwhole with
      | obj hkeys hfields => exact hfields
  | failed attempt errorCode message => cases attempt <;> simp [payload, hstr, hint]
  | toolCompleted toolName toolCallId evidenceIds snapshotId =>
      obtain ⟨hids, hsnapshot⟩ := h.2 _ _ _ _ rfl
      have hids' : (evidenceIds.getD (.arr [])).Writable floatText := by
        cases evidenceIds with
        | none => exact .arr (by simp)
        | some v => exact hids v rfl
      have hsnapshot' : (snapshotId.getD .null).Writable floatText := by
        cases snapshotId with
        | none => exact .null
        | some v => exact hsnapshot v rfl
      simp [payload, hstr, hids', hsnapshot']
  | started attempt => simp [payload, hstr, hint, h.1]
  | _ => simp [payload, hstr, hint, hbool, htext, hcount, hinteraction, writable_strings]

theorem TaskEvent.writable_request {floatText : String → String} {context : EventContext}
    {event : TaskEvent} (h : event.Writable floatText context) (taskId : String) :
    (Json.obj (event.request context taskId).payload).Writable floatText := by
  apply Json.writable_dictOf
  intro field hfield
  rcases List.mem_append.1 hfield with hfield | hfield
  · simp only [List.mem_cons, List.not_mem_nil, or_false] at hfield
    rcases hfield with rfl | rfl | rfl | rfl <;> exact .str _
  · exact event.writable_payload h taskId field hfield

/-- The request of the thread. -/
def appendRequest? : Slot Exn EventCall EventCall.Reply AppendRequest StreamEvent →
    Option AppendRequest
  | .unused => none
  | .running q _ | .crashed q => some q

/-- The event that `append_event` returns for an entry with this id and number. -/
def AppendRequest.event (q : AppendRequest) (id : StreamId) (sequence : ℕ) : StreamEvent :=
  ⟨id.text, q.eventType, sequence, q.payload⟩

/-- The entry is the one that a call of `append_event` for the task adds, with the number
that the call has drawn. -/
def EntryOf (dumps : JsonObject → String) (c : EventConfig) (taskId : String) (e : NumberedEntry)
    (q : AppendRequest) (n : ℕ) : Prop :=
  appendRequest? (c.pool e.writer) = some q ∧ q.taskId = taskId ∧
    (c.state.draws (sequenceKey taskId))[n]? = some e.writer ∧
    e.entry.fields = entryData dumps q (n + 1)

/-- What a call that is done with its `XADD` returns is what its entry says. -/
def ReturnStage (dumps : JsonObject → String) (i : ℕ) (q : AppendRequest) (s : EventStore)
    (p : EventProgram StreamEvent) : Prop :=
  p = appendEvent dumps q ∨ (∃ n, p = addEntry dumps q (n + 1)) ∨
    p.Only (fun c => ∃ eventKey sequenceKey, c = .expire eventKey sequenceKey) fun event =>
      ∀ e ∈ s.streams (eventKey q.taskId), e.writer = i →
        ∃ n, e.entry.fields = entryData dumps q n ∧ event = q.event e.entry.id n

structure Authored (dumps : JsonObject → String) (c : EventConfig) : Prop where
  numbering : Numbering dumps c
  entry : ∀ taskId, ∀ e ∈ c.state.streams (eventKey taskId), ∃ q n, EntryOf dumps c taskId e q n
  stage : ∀ i q p, c.pool i = .running q p → ReturnStage dumps i q c.state p

section Authorship

variable {dumps : JsonObject → String} {i j : ℕ} {q : AppendRequest} {s s' : EventStore}
  {p p' : EventProgram StreamEvent} {c c' : EventConfig}

theorem ReturnStage.later (h : ReturnStage dumps i q s p) (hlater : s.Later i s') :
    ReturnStage dumps i q s' p := by
  rcases h with hp | hp | honly
  · exact .inl hp
  · exact .inr (.inl hp)
  · refine .inr (.inr (honly.mono (fun _ hc => hc) ?_))
    intro event hevent e he hwriter
    rcases hlater.streams _ e he with he | hne
    · exact hevent e he hwriter
    · exact absurd hwriter hne

/-- Entries stay what they are when a call goes on and the draws grow. -/
theorem EntryOf.update {taskId : String} {e : NumberedEntry} {q' : AppendRequest} {n : ℕ}
    (h : EntryOf dumps c taskId e q' n) {slot : Slot Exn EventCall EventCall.Reply AppendRequest
      StreamEvent} (hslot : appendRequest? (c.pool i) = appendRequest? slot)
    (hdraws : ∃ more, s.draws (sequenceKey taskId) = c.state.draws (sequenceKey taskId) ++ more) :
    EntryOf dumps ⟨Function.update c.pool i slot, s⟩ taskId e q' n := by
  obtain ⟨hrequest, htask, hdrawn, hfields⟩ := h
  refine ⟨?_, htask, ?_, hfields⟩
  · by_cases hij : e.writer = i
    · rw [← hrequest, hij, hslot]
      simp
    · simpa only [Function.update_of_ne hij] using hrequest
  · obtain ⟨more, hmore⟩ := hdraws
    simp only [hmore]
    exact getElem?_append_of_some hdrawn more

/-- The state after a command of the call `i` that adds no entry. -/
theorem Authored.silent (h : Authored dumps c) (hslot : c.pool i = .running q p)
    (hnumbering : Numbering dumps ⟨Function.update c.pool i (.running q p'), s⟩)
    (hlater : ∀ j, j ≠ i → c.state.Later j s) (hstreams : s.streams = c.state.streams)
    (hdraws : ∀ key, ∃ more, s.draws key = c.state.draws key ++ more)
    (hstage : ReturnStage dumps i q s p') :
    Authored dumps ⟨Function.update c.pool i (.running q p'), s⟩ where
  numbering := hnumbering
  entry taskId e he := by
    rw [hstreams] at he
    obtain ⟨q', n, hentry⟩ := h.entry taskId e he
    exact ⟨q', n, hentry.update (by rw [hslot]; rfl) (hdraws _)⟩
  stage j q' p'' hj := by
    by_cases hij : j = i
    · subst hij
      simp only [Function.update_self] at hj
      cases hj
      exact hstage
    · simp only [Function.update_of_ne hij] at hj
      exact (h.stage j q' p'' hj).later (hlater j hij)

/-- The draws after a command are those before, and perhaps one more. -/
theorem draws_answer {choice : EventChoice} {command : EventCall} {r : Except Exn command.Reply}
    (h : (eventMachine dumps).answer i command choice s = some (r, s')) (key : String) :
    ∃ more, s'.draws key = s.draws key ++ more := by
  rw [state_of_answer h]
  split
  · cases command with
    | incr key' =>
        by_cases hkey : key = key'
        · subst hkey
          exact ⟨[i], by simp [EventCall.execute]⟩
        · exact ⟨[], by simp [EventCall.execute, Function.update_of_ne hkey]⟩
    | _ => exact ⟨[], by simp [EventCall.execute]⟩
  · exact ⟨[], by simp⟩

theorem streams_answer {choice : EventChoice} {command : EventCall} {r : Except Exn command.Reply}
    (hcommand : ∀ key data, command ≠ .xadd key data)
    (h : (eventMachine dumps).answer i command choice s = some (r, s')) :
    s'.streams = s.streams := by
  rw [state_of_answer h]
  split
  · cases command with
    | xadd key data => exact absurd rfl (hcommand key data)
    | _ => rfl
  · rfl

/-- What follows the `XADD` returns the event of the entry, or raises. -/
theorem only_returned {V : StreamEvent → Prop} (r : Except Exn StreamId) {sequence : ℕ}
    (h : ∀ eventId, r = .ok eventId → V (q.event eventId sequence)) :
    ((Program.ofExcept r).handle (fun eventId : StreamId =>
      ((EventCall.expire (eventKey q.taskId) (sequenceKey q.taskId)).perform).handle
        (fun _ => .pure (⟨eventId.text, q.eventType, sequence, q.payload⟩ : StreamEvent))
        .throw) .throw : EventProgram StreamEvent).Only
      (fun c => ∃ eventKey sequenceKey, c = .expire eventKey sequenceKey) V := by
  cases r with
  | error exc => trivial
  | ok eventId =>
      refine ⟨⟨_, _, rfl⟩, ?_⟩
      intro r
      cases r with
      | error exc => trivial
      | ok _ => exact h eventId rfl

/-- The `XADD` of a call. -/
theorem Authored.xadd (h : Authored dumps c) {n : ℕ}
    (hslot : c.pool i = .running q p)
    (hdrawn : (c.state.draws (sequenceKey q.taskId))[n]? = some i)
    (hwriter : ∀ e ∈ c.state.streams (eventKey q.taskId), e.writer ≠ i) {choice : EventChoice}
    {r : Except Exn StreamId}
    (hanswer : (eventMachine dumps).answer i
      (.xadd (eventKey q.taskId) (entryData dumps q (n + 1))) choice c.state = some (r, s))
    (hp' : p' = (Program.ofExcept r).handle (fun eventId : StreamId =>
      ((EventCall.expire (eventKey q.taskId) (sequenceKey q.taskId)).perform).handle
        (fun _ => .pure (⟨eventId.text, q.eventType, ((n + 1 : ℕ) : ℤ), q.payload⟩ : StreamEvent))
        .throw) .throw)
    (hnumbering : Numbering dumps ⟨Function.update c.pool i (.running q p'), s⟩) :
    Authored dumps ⟨Function.update c.pool i (.running q p'), s⟩ := by
  have hstate := state_of_answer hanswer
  have hlater : ∀ j, j ≠ i → c.state.Later j s := fun j hij => later_answer hij hanswer
  have hdraws := draws_answer hanswer
  -- The entries of the task's stream afterwards: those before, and the new one.
  have hentries : ∀ e ∈ s.streams (eventKey q.taskId), e ∈ c.state.streams (eventKey q.taskId) ∨
      e = ⟨i, choice.entryId, entryData dumps q (n + 1)⟩ := by
    intro e he
    rw [hstate] at he
    split at he
    · simp only [EventCall.execute, Function.update_self] at he
      rcases List.mem_append.1 he with he | he
      · exact .inl (List.mem_of_mem_drop he)
      · exact .inr (List.mem_singleton.1 he)
    · exact .inl he
  have hothers : ∀ taskId, taskId ≠ q.taskId → s.streams (eventKey taskId) =
      c.state.streams (eventKey taskId) := by
    intro taskId htask
    have hkey : eventKey taskId ≠ eventKey q.taskId := fun heq => htask (eventKey_injective heq)
    rw [hstate]
    split
    · simp [EventCall.execute, Function.update_of_ne hkey]
    · rfl
  refine ⟨hnumbering, ?_, ?_⟩
  · intro taskId e he
    by_cases htask : taskId = q.taskId
    · subst htask
      rcases hentries e he with he | rfl
      · obtain ⟨q', m, hentry⟩ := h.entry q.taskId e he
        exact ⟨q', m, hentry.update (by rw [hslot]; rfl) (hdraws _)⟩
      · obtain ⟨more, hmore⟩ := hdraws (sequenceKey q.taskId)
        refine ⟨q, n, by simp [appendRequest?], rfl, ?_, rfl⟩
        simp only [hmore]
        exact getElem?_append_of_some hdrawn more
    · simp only [hothers taskId htask] at he
      obtain ⟨q', m, hentry⟩ := h.entry taskId e he
      exact ⟨q', m, hentry.update (by rw [hslot]; rfl) (hdraws _)⟩
  · intro j q' p'' hj
    by_cases hij : j = i
    · subst hij
      simp only [Function.update_self] at hj
      cases hj
      refine .inr (.inr ?_)
      rw [hp']
      apply only_returned
      rintro eventId rfl e he heq
      rcases hentries e he with he | rfl
      · exact absurd heq (hwriter e he)
      · have hok := Ending.answer_ok (Option.some.inj hanswer)
        cases hok
        exact ⟨n + 1, rfl, rfl⟩
    · simp only [Function.update_of_ne hij] at hj
      exact (h.stage j q' p'' hj).later (hlater j hij)

theorem Authored.step (h : Authored dumps c) {a : EventAction}
    (hstep : (eventMachine dumps).step a c = some c') : Authored dumps c' := by
  have hnumbering := h.numbering.step hstep
  cases a with
  | call i choice =>
      obtain ⟨q, command, k, r, s, hslot, hanswer, rfl⟩ := (eventMachine dumps).step_call hstep
      have hlater : ∀ j, j ≠ i → c.state.Later j s := fun j hij => later_answer hij hanswer
      have hdraws := draws_answer hanswer
      rcases h.numbering.stage i q _ hslot with ⟨hp, -⟩ | ⟨n, hp, hdrawn, hwriter⟩ | honly
      · have hincr : Program.call command k = Program.call (.incr (sequenceKey q.taskId))
          fun r => (Program.ofExcept r).handle (addEntry dumps q) .throw := hp
        cases hincr
        refine h.silent hslot hnumbering hlater (streams_answer (by simp) hanswer) hdraws ?_
        cases r with
        | error exc => exact .inr (.inr trivial)
        | ok number =>
            have hok := Ending.answer_ok (Option.some.inj hanswer)
            cases hok
            exact .inr (.inl ⟨_, rfl⟩)
      · have hxadd : Program.call command k = Program.call
          (.xadd (eventKey q.taskId) (entryData dumps q (n + 1)))
          fun r => (Program.ofExcept r).handle _ .throw := hp
        cases hxadd
        exact h.xadd hslot hdrawn hwriter hanswer rfl hnumbering
      · obtain ⟨⟨eventKey, sequenceKey, rfl⟩, hrest⟩ := honly
        refine h.silent hslot hnumbering hlater (streams_answer (by simp) hanswer) hdraws ?_
        rcases h.stage i q _ hslot with hp | ⟨n, hp⟩ | hreturn
        · cases hp
        · cases hp
        · refine .inr (.inr ((hreturn.2 r).mono (fun _ hc => hc) ?_))
          intro event hevent e he
          rw [streams_answer (by simp) hanswer] at he
          exact hevent e he
  | start i q =>
      obtain ⟨s, hslot, hs, rfl⟩ := (eventMachine dumps).step_start hstep
      cases hs
      refine ⟨hnumbering, ?_, ?_⟩
      · intro taskId e he
        obtain ⟨q', n, hentry⟩ := h.entry taskId e he
        obtain ⟨hrequest, htask, hdrawn, hfields⟩ := hentry
        refine ⟨q', n, ?_, htask, hdrawn, hfields⟩
        have hne : e.writer ≠ i := by
          rintro rfl
          rw [hslot] at hrequest
          cases hrequest
        simpa only [Function.update_of_ne hne] using hrequest
      · intro j q' p' hj
        by_cases hij : j = i
        · subst hij
          simp only [Function.update_self] at hj
          cases hj
          exact .inl rfl
        · simp only [Function.update_of_ne hij] at hj
          exact h.stage j q' p' hj
  | crash i =>
      obtain ⟨q, p, hslot, rfl⟩ := (eventMachine dumps).step_crash hstep
      refine ⟨hnumbering, ?_, ?_⟩
      · intro taskId e he
        obtain ⟨q', n, hentry⟩ := h.entry taskId e he
        exact ⟨q', n, hentry.update (by rw [hslot]; rfl) ⟨[], by simp [eventMachine]⟩⟩
      · intro j q' p' hj
        by_cases hij : j = i
        · subst hij
          simp at hj
        · simp only [Function.update_of_ne hij] at hj
          exact h.stage j q' p' hj
  | environment e => exact e.elim

theorem authored_initial : Authored dumps (.initial .empty) where
  numbering := numbering_initial
  entry _ e he := by cases he
  stage _ _ _ hslot := by cases hslot

end Authorship

/-- `append_event` is called with the events of the source. -/
def reporting (floatText : String → String) :
    Policy EventCall EventStore EventChoice AppendRequest Empty where
  start _ q _ := ∃ (event : TaskEvent) (context : EventContext) (taskId : String),
    event.Writable floatText context ∧ q = event.request context taskId

section

variable {floatText : String → String} {int : String → Except Exn ℤ} {q : AppendRequest}

/-- An entry of `append_event` is read as the event that it returns. -/
theorem decodeEvent_entryData (decimal : Char → Bool)
    (hint : ∀ n : ℕ, int (Nat.repr n) = .ok (n : ℤ))
    (hpayload : (Json.obj q.payload).Writable floatText) (id : StreamId) (n : ℕ) :
    decodeEvent (jsonEventCodec floatText int decimal) ⟨id, entryData dumpsPayload q n⟩ =
      .ok (q.event id n) := by
  have htext : entryField (entryData dumpsPayload q n) "payload" = .ok (dumpsPayload q.payload) :=
    rfl
  have htype : entryField (entryData dumpsPayload q n) "event_type" = .ok q.eventType := rfl
  have hnumber : entryField (entryData dumpsPayload q n) "sequence_number" = .ok (Nat.repr n) := rfl
  have hloads : (jsonEventCodec floatText int decimal).loads (dumpsPayload q.payload) =
      .ok (.obj q.payload) := by
    simp only [jsonEventCodec, dumpsPayload]
    rw [Json.loads_dumps Json.spaced_blank hpayload]
    rfl
  have hnumber' : (jsonEventCodec floatText int decimal).int (Nat.repr n) = .ok (n : ℤ) := hint n
  simp only [decodeEvent, htext, htype, hnumber, bind, Except.bind, pure, Except.pure, hloads,
    hnumber', AppendRequest.event]

theorem reporting_writable {h : List (EventConfig × EventAction)} {c : EventConfig}
    (run : (eventMachine dumpsPayload).Run (reporting floatText) (.initial .empty) h c) :
    ∀ i q, appendRequest? (c.pool i) = some q → (Json.obj q.payload).Writable floatText := by
  refine (run.invariant (fun c => ∀ i q, appendRequest? (c.pool i) = some q →
    (Json.obj q.payload).Writable floatText) ?_ ?_).1
  · intro i q hq
    cases hq
  · intro c a c' hc permitted hstep i q hq
    by_cases hi : a.thread = some i
    · cases a with
      | call j choice =>
          cases hi
          obtain ⟨q', command, k, r, s, hslot, -, rfl⟩ :=
            (eventMachine dumpsPayload).step_call hstep
          simp only [Function.update_self] at hq
          exact hc i q (by rw [hslot]; exact hq)
      | start j q' =>
          cases hi
          obtain ⟨s, -, -, rfl⟩ := (eventMachine dumpsPayload).step_start hstep
          simp only [Function.update_self] at hq
          cases hq
          obtain ⟨event, context, taskId, hwritable, rfl⟩ := permitted
          exact event.writable_request hwritable taskId
      | crash j =>
          cases hi
          obtain ⟨q', p, hslot, rfl⟩ := (eventMachine dumpsPayload).step_crash hstep
          simp only [Function.update_self] at hq
          exact hc i q (by rw [hslot]; exact hq)
      | environment e => exact e.elim
    · rw [Machine.step_pool hstep hi] at hq
      exact hc i q hq

end

/-- Whatever calls of `append_event` are interleaved, fail or are cut off: `list_events` raises
on no stream, and reads each entry as the event of a call for this task, with the number that
the call has drawn and the payload that it was given; what a call has returned is what its
entry is read as. -/
theorem events_read_back (floatText : String → String) (int : String → Except Exn ℤ)
    (decimal : Char → Bool) (hint : ∀ n : ℕ, int (Nat.repr n) = .ok (n : ℤ))
    {h : List (EventConfig × EventAction)} {c : EventConfig}
    (run : (eventMachine dumpsPayload).Run (reporting floatText) (.initial .empty) h c)
    (taskId : String) :
    ∃ events, listEvents (jsonEventCodec floatText int decimal)
        ((c.state.streams (eventKey taskId)).map NumberedEntry.entry) = .ok events ∧
      List.Forall₂ (fun e event => ∃ q n, appendRequest? (c.pool e.writer) = some q ∧
        q.taskId = taskId ∧ (c.state.draws (sequenceKey taskId))[n]? = some e.writer ∧
        event = q.event e.entry.id (n + 1) ∧
        ∀ returned, c.pool e.writer = .running q (.pure returned) → event = returned)
        (c.state.streams (eventKey taskId)) events := by
  have hauthored : Authored dumpsPayload c :=
    (run.invariant (Authored dumpsPayload) authored_initial fun _ _ _ hc _ hstep => hc.step hstep).1
  have hwritable := reporting_writable run
  have hentry : ∀ e ∈ c.state.streams (eventKey taskId), ∃ event,
      decodeEvent (jsonEventCodec floatText int decimal) e.entry = .ok event ∧
      ∃ q n, appendRequest? (c.pool e.writer) = some q ∧
        q.taskId = taskId ∧ (c.state.draws (sequenceKey taskId))[n]? = some e.writer ∧
        event = q.event e.entry.id (n + 1) ∧
        ∀ returned, c.pool e.writer = .running q (.pure returned) → event = returned := by
    intro e he
    obtain ⟨q, n, hrequest, htask, hdrawn, hfields⟩ := hauthored.entry taskId e he
    have hread := decodeEvent_entryData decimal hint (hwritable e.writer q hrequest)
      e.entry.id (n + 1)
    rw [← hfields] at hread
    refine ⟨_, hread, q, n, hrequest, htask, hdrawn, rfl, ?_⟩
    intro returned hslot
    rcases hauthored.stage e.writer q _ hslot with hp | ⟨m, hp⟩ | honly
    · cases hp
    · cases hp
    · obtain ⟨m, hfields', hreturned⟩ := honly e (htask ▸ he) rfl
      have hread' := decodeEvent_entryData decimal hint
        (hwritable e.writer q hrequest) e.entry.id m
      rw [← hfields', hread] at hread'
      rw [hreturned]
      exact Except.ok.inj hread'
  generalize c.state.streams (eventKey taskId) = stream at hentry
  induction stream with
  | nil => exact ⟨[], rfl, .nil⟩
  | cons e stream ih =>
      obtain ⟨event, hread, hevent⟩ := hentry e List.mem_cons_self
      obtain ⟨events, hevents, hall⟩ := ih fun x hx => hentry x (List.mem_cons_of_mem _ hx)
      refine ⟨event :: events, ?_, .cons hevent hall⟩
      rw [listEvents] at hevents ⊢
      rw [List.map_cons, List.mapM_cons, hread, hevents]
      rfl

/-- A submitted input, reported in a task's stream. -/
def demoReport : AppendRequest :=
  (TaskEvent.inputSubmitted "product-1").request ⟨"trace-1", "session-1", "now", .null, fun _ => ""⟩
    "task-1"

/-- Python's `int`, on the digits that Redis holds. -/
def demoInt (text : String) : Except Exn ℤ :=
  if text.toList ≠ [] ∧ text.toList.all Char.isDigit then
    .ok (Nat.ofDigitChars 10 text.toList 0 : ℕ)
  else .error (.valueError "invalid literal")

theorem demoInt_repr (n : ℕ) : demoInt (Nat.repr n) = .ok (n : ℤ) := by
  have hdigits : (Nat.repr n).toList = Nat.toDigits 10 n := by simp [Nat.repr]
  have hall : ∀ c ∈ Nat.toDigits 10 n, c.isDigit = true := toDigits_isDigit n
  rw [demoInt, hdigits, if_pos ⟨Nat.toDigits_ne_nil, List.all_eq_true.2 hall⟩,
    Nat.ofDigitChars_ten_toDigits]

theorem events_read_back_demo : ∃ h c,
    (eventMachine dumpsPayload).Run (reporting fun text => text) (.initial .empty) h c ∧
      (c.state.streams (eventKey "task-1")).map (fun e => e.writer) = [0] ∧
      ∃ events, listEvents (jsonEventCodec (fun text => text) demoInt Char.isDigit)
          ((c.state.streams (eventKey "task-1")).map NumberedEntry.entry) = .ok events ∧
        List.Forall₂ (fun e event => ∃ q n, appendRequest? (c.pool e.writer) = some q ∧
          q.taskId = "task-1" ∧ (c.state.draws (sequenceKey "task-1"))[n]? = some e.writer ∧
          event = q.event e.entry.id (n + 1) ∧
          ∀ returned, c.pool e.writer = .running q (.pure returned) → event = returned)
          (c.state.streams (eventKey "task-1")) events := by
  have hwritable : (TaskEvent.inputSubmitted "product-1").Writable (fun text => text)
      ⟨"trace-1", "session-1", "now", .null, fun _ => ""⟩ := ⟨.null, by simp⟩
  have hnone : Machine.Run (eventMachine dumpsPayload) (reporting fun text => text)
      (.initial .empty) [] (.initial .empty) := .nil
  have hstart := hnone.snoc (a := .start 0 demoReport) ⟨_, _, _, hwritable, rfl⟩ rfl
  have hincr := hstart.snoc (a := .call 0 ⟨.done, .zero, 0⟩) trivial rfl
  have hxadd := hincr.snoc (a := .call 0 ⟨.done, ⟨1, 0⟩, 0⟩) trivial rfl
  exact ⟨_, _, hxadd, by decide,
    events_read_back (fun text => text) demoInt Char.isDigit demoInt_repr hxadd "task-1"⟩

end CommerceAgent
