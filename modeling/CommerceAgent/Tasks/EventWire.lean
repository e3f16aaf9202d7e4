import CommerceAgent.Tasks.EventReplay
import CommerceAgent.Tasks.EventText
import CommerceAgent.Text.EventSource

/-!
# The events as they are sent

`event_generator` writes each event as three lines, the last of which is JSON. A client
receives the text character by character, dispatches an event at its empty line, and may lose
the connection anywhere, also within an event. What it has dispatched over all its connections
are the first events after its first cursor: its runs are runs of the client that receives
whole frames.
-/

namespace CommerceAgent

open Text

/-- What `event_generator` writes. -/
def Frame.text : Frame → String
  | .retry => "retry: 3000\n\n"
  | .ping => ": ping\n\n"
  | .event frame =>
      "id: " ++ frame.id ++ "\nevent: " ++ frame.event ++ "\ndata: " ++ dumpsPayload frame.data ++
        "\n\n"

/-- The lines of a frame. -/
def Frame.lines : Frame → List (List Char)
  | .retry => ["retry: 3000".toList]
  | .ping => [": ping".toList]
  | .event frame =>
      ["id: ".toList ++ frame.id.toList, "event: ".toList ++ frame.event.toList,
        "data: ".toList ++ (dumpsPayload frame.data).toList]

/-- The frame as the client sees it. -/
def EventFrame.dispatched (frame : EventFrame) : Dispatched :=
  ⟨frame.id.toList, frame.event.toList, (dumpsPayload frame.data).toList⟩

/-- The frame does not break the lines that it is written on. -/
structure EventFrame.Plain (frame : EventFrame) : Prop where
  id : EventSource.IsLine frame.id.toList
  noNul : '\x00' ∉ frame.id.toList
  event : EventSource.IsLine frame.event.toList
  data : EventSource.IsLine (dumpsPayload frame.data).toList

/-- A client of the event stream, and the text that was sent and not yet received. -/
structure WireState where
  log : EventLog
  connection : Option (Option IterEvents × List Char)
  client : EventSource

inductive WireAction where
  | log (action : LogAction)
  | connect (granted : Bool)
  | next (failure : Option Exn) (disconnected : Bool)
  | receive
  | lose

namespace WireState

/-- `Last-Event-ID`: the id of the last event that was dispatched. -/
def lastEventId (request : EventRequest) (s : WireState) : Option String :=
  (s.client.dispatched.getLast?.map fun event => String.ofList event.lastEventId).or
    request.lastEventId

def cursor (request : EventRequest) (s : WireState) : String :=
  requestCursor (s.lastEventId request) request.afterId

/-- The frames as text. -/
def written (frames : List Frame) : List Char := frames.flatMap fun frame => frame.text.toList

def act (codec : EventCodec) (request : EventRequest) (s : WireState) : WireAction → WireState
  | .log action => { s with log := s.log.act action }
  | .connect granted =>
      { s with
        connection :=
          (streamTaskEvents codec granted (s.lastEventId request) request.afterId).map
            fun connection => (connection.iter, written connection.inFlight)
        client := s.client.reopened }
  | .next failure disconnected =>
      match s.connection with
      | some (some iter, text) =>
          let connection :=
            EventConnection.handle [] disconnected (iter.step codec s.log.visible failure)
          { s with connection := some (connection.iter, text ++ written connection.inFlight) }
      | _ => s
  | .receive =>
      match s.connection with
      | some (iter, char :: text) =>
          { s with connection := some (iter, text), client := s.client.feed char }
      | _ => s
  | .lose => { s with connection := none }

end WireState

/-- The entry is one that `append_event` has added for an event of the source. -/
def StreamEntry.Reported (floatText : String → String) (entry : StreamEntry) : Prop :=
  ∃ (event : TaskEvent) (context : EventContext) (taskId : String) (n : ℕ),
    event.Writable floatText context ∧
      entry.fields = entryData dumpsPayload (event.request context taskId) n

/-- Only `append_event` adds to the stream. -/
def WireAction.Reported (floatText : String → String) : WireAction → Prop
  | .log (.append entry) => entry.Reported floatText
  | _ => True

/-- The runs of a client whose first request is `request`. -/
inductive WireRun (floatText : String → String) (codec : EventCodec) (request : EventRequest) :
    WireState → Prop
  | initial (log : EventLog) (h : ∀ entry ∈ log.appended, entry.Reported floatText) :
      WireRun floatText codec request ⟨log, none, .opened []⟩
  | step {s : WireState} (h : WireRun floatText codec request s)
      (hlog : s.log.Orderly (s.cursor request)) (action : WireAction)
      (haction : action.Reported floatText) :
      WireRun floatText codec request (s.act codec request action)

section Frames

open EventSource

variable {c : EventSource} {frame : EventFrame} {floatText : String → String}

theorem isLine_append {text line : List Char} (htext : ∀ c ∈ text, c ≠ '\n' ∧ c ≠ '\r')
    (hline : IsLine line) : IsLine (text ++ line) := by
  refine ⟨List.append_ne_nil_of_right_ne_nil _ hline.1, ?_⟩
  intro char hchar
  rcases List.mem_append.1 hchar with hchar | hchar
  · exact htext char hchar
  · exact hline.2 char hchar

theorem Frame.text_toList (frame : Frame) : frame.text.toList = block frame.lines := by
  cases frame with
  | retry => decide
  | ping => decide
  | event frame =>
      have hid : "\nevent: ".toList = '\n' :: "event: ".toList := by decide
      have hdata : "\ndata: ".toList = '\n' :: "data: ".toList := by decide
      have hend : "\n\n".toList = ['\n', '\n'] := by decide
      simp [Frame.text, Frame.lines, block, ended, hid, hdata, hend]

/-- The frame can be sent. -/
def Frame.Plain (frame : Frame) : Prop := ∀ event ∈ frame.event?, event.Plain

theorem Frame.Plain.lines {frame : Frame} (h : frame.Plain) :
    ∀ line ∈ frame.lines, IsLine line := by
  cases frame with
  | retry =>
      intro line hline
      rw [List.mem_singleton.1 hline]
      decide
  | ping =>
      intro line hline
      rw [List.mem_singleton.1 hline]
      decide
  | event frame =>
      have hframe : frame.Plain := h frame rfl
      intro line hline
      simp only [Frame.lines, List.mem_cons, List.not_mem_nil, or_false] at hline
      rcases hline with rfl | rfl | rfl
      · exact isLine_append (List.all_iff_forall_prop.1 (by decide)) hframe.id
      · exact isLine_append (List.all_iff_forall_prop.1 (by decide)) hframe.event
      · exact isLine_append (List.all_iff_forall_prop.1 (by decide)) hframe.data

theorem readField_id (c : EventSource) (value : List Char) :
    c.readField ("id: ".toList ++ value) = c.setField ['i', 'd'] value := rfl

theorem readField_event (c : EventSource) (value : List Char) :
    c.readField ("event: ".toList ++ value) = c.setField ['e', 'v', 'e', 'n', 't'] value := rfl

theorem readField_data (c : EventSource) (value : List Char) :
    c.readField ("data: ".toList ++ value) = c.setField ['d', 'a', 't', 'a'] value := rfl

/-- A frame that came through is the event that it was sent for. -/
theorem receive_frame {frame : Frame} (h : c.Idle) (hframe : frame.Plain) :
    (c.receive frame.text.toList).Idle ∧ (c.receive frame.text.toList).dispatched =
      c.dispatched ++ frame.event?.toList.map EventFrame.dispatched := by
  rw [frame.text_toList, receive_block h.toAtLine hframe.lines]
  refine ⟨(h.toAtLine.readFields _).idle_dispatch, ?_⟩
  cases frame with
  | retry =>
      have hdata : (c.readFields Frame.retry.lines).data = [] := h.data
      rw [EventSource.dispatch, if_pos hdata]
      exact (dispatched_readFields c _).trans (List.append_nil _).symm
  | ping =>
      have hdata : (c.readFields Frame.ping.lines).data = [] := h.data
      rw [EventSource.dispatch, if_pos hdata]
      exact (dispatched_readFields c _).trans (List.append_nil _).symm
  | event frame =>
      have hplain : frame.Plain := hframe frame rfl
      have hread : c.readFields (Frame.event frame).lines =
          { c with
            lastEventId := frame.id.toList, eventType := frame.event.toList
            data := (dumpsPayload frame.data).toList ++ ['\n'] } := by
        simp only [Frame.lines, EventSource.readFields, List.foldl_cons, List.foldl_nil,
          readField_id, readField_event, readField_data]
        simp [EventSource.setField, hplain.noNul, h.data]
      have hdata : (dumpsPayload frame.data).toList ++ ['\n'] ≠ [] := by simp
      rw [hread, EventSource.dispatch, if_neg hdata]
      simp [Frame.event?, EventFrame.dispatched, hplain.event.1]

end Frames

section Reported

variable {floatText : String → String} {int : String → Except Exn ℤ}

theorem isLine_text (id : StreamId) :
    EventSource.IsLine id.text.toList ∧ '\x00' ∉ id.text.toList := by
  have hchars : ∀ c ∈ id.text.toList, c.isDigit = true ∨ c = '-' := by
    intro c hc
    simp only [StreamId.text, String.toList_append, List.mem_append] at hc
    rcases hc with (hc | hc) | hc
    · exact .inl (toDigits_isDigit _ c (by simpa [Nat.repr] using hc))
    · exact .inr (List.mem_singleton.1 hc)
    · exact .inl (toDigits_isDigit _ c (by simpa [Nat.repr] using hc))
  refine ⟨⟨?_, ?_⟩, ?_⟩
  · intro hnil
    exact id.text_ne_empty (String.toList_eq_nil_iff.1 hnil)
  · intro c hc
    constructor
    · rintro rfl
      exact absurd (hchars _ hc) (by decide)
    · rintro rfl
      exact absurd (hchars _ hc) (by decide)
  · intro hc
    exact absurd (hchars _ hc) (by decide)

theorem TaskEvent.isLine_eventType (event : TaskEvent) :
    EventSource.IsLine event.eventType.toList := by
  have hline : ∀ text ∈ ["task.queued", "task.failed", "input.submitted", "approval.submitted",
      "approval.requeued", "task.resumed", "task.started", "approval.required",
      "task.awaiting_input", "task.awaiting_approval", "task.rejected", "task.completed",
      "task.retrying", "graph.scope_resolved", "graph.metrics_computed", "agent.model",
      "tool.started", "tool.failed", "tool.completed", "agent.reflection",
      "graph.diagnosis_validated", "approval.rejected", "action.applied"],
      EventSource.IsLine text.toList := by decide
  apply hline
  cases event with
  | finished outcome attempt => cases hstatus : outcome.status <;> simp [eventType, hstatus]
  | _ => simp [eventType]

theorem isLine_dumpsPayload {payload : JsonObject} (h : (Json.obj payload).Writable floatText) :
    EventSource.IsLine (dumpsPayload payload).toList := by
  rw [dumpsPayload, Json.dumps, String.toList_ofList]
  constructor
  · rw [Json.write_obj]
    exact List.cons_ne_nil _ _
  · intro c hc
    have hgap : ∀ c ∈ Json.spaced.itemGap ++ Json.spaced.keyGap, Json.Printable c :=
      List.all_iff_forall_prop.1 (by decide)
    have hprintable := Json.printable_write hgap h c hc
    exact ⟨hprintable.ne_lineFeed, hprintable.ne_carriageReturn⟩

theorem writable_withSequenceNumber {payload : JsonObject}
    (h : (Json.obj payload).Writable floatText) (n : ℤ) :
    (Json.obj (withSequenceNumber n payload)).Writable floatText := by
  cases h with
  | obj hkeys hvalues =>
      have hrest : ∀ field ∈ payload.filter fun member => member.1 != "sequence_number",
          field ∈ payload ∧ field.1 ≠ "sequence_number" := by
        intro field hfield
        obtain ⟨hmem, hne⟩ := List.mem_filter.1 hfield
        exact ⟨hmem, by simpa using hne⟩
      refine .obj (List.nodup_cons.2 ⟨?_, ?_⟩) ?_
      · intro hmem
        obtain ⟨field, hfield, heq⟩ := List.mem_map.1 hmem
        exact (hrest field hfield).2 heq
      · exact hkeys.sublist (List.filter_sublist.map Prod.fst)
      · intro field hfield
        rcases List.mem_cons.1 hfield with rfl | hfield
        · simp only [JsonObject.get?]
          cases hfind : payload.find? fun field => field.1 == "sequence_number" with
          | none => exact .int n
          | some member => exact hvalues member (List.mem_of_find?_eq_some hfind)
        · exact hvalues field (hrest field hfield).1

/-- A reported entry is read as the event of a call, and the event's frame can be sent. -/
theorem StreamEntry.Reported.decode {entry : StreamEntry} (h : entry.Reported floatText)
    (decimal : Char → Bool) (hint : ∀ n : ℕ, int (Nat.repr n) = .ok (n : ℤ)) :
    ∃ (q : AppendRequest) (n : ℕ), entry.fields = entryData dumpsPayload q n ∧
      (Json.obj q.payload).Writable floatText ∧
      decodeFrame (jsonEventCodec floatText int decimal) entry =
        .ok (eventFrame (q.event entry.id n)) ∧
      (eventFrame (q.event entry.id n)).Plain := by
  obtain ⟨event, context, taskId, n, hevent, hfields⟩ := h
  have hpayload := event.writable_request hevent taskId
  refine ⟨event.request context taskId, n, hfields, hpayload, ?_, ?_⟩
  · have hread := decodeEvent_entryData decimal hint hpayload entry.id n
    rw [← hfields] at hread
    rw [decodeFrame, hread]
    rfl
  · exact ⟨(isLine_text entry.id).1, (isLine_text entry.id).2, event.isLine_eventType,
      isLine_dumpsPayload (writable_withSequenceNumber hpayload n)⟩

end Reported

/-- The client has received a part of the frames in flight, and less than the first of them. -/
structure Receiving (client : EventSource) (inFlight : List Frame) (text : List Char) : Prop where
  part : ∃ (idle : EventSource) (got : List Char), idle.Idle ∧ client = idle.receive got ∧
    got ++ text = WireState.written inFlight ∧
    ∀ frame ∈ inFlight.head?, got.length < frame.text.toList.length

/-- The client that receives text, and the client that receives whole frames. -/
structure WireState.Mirrors (s : WireState) (t : ClientState) : Prop where
  log : s.log = t.log
  dispatched : s.client.dispatched = t.received.map EventFrame.dispatched
  connection : s.connection.map Prod.fst = t.connection.map EventConnection.iter
  receiving : ∀ iter text, s.connection = some (iter, text) →
    ∀ connection ∈ t.connection, Receiving s.client connection.inFlight text

section

open EventSource

variable {floatText : String → String} {codec : EventCodec} {request : EventRequest} {s : WireState}
  {t : ClientState} {client : EventSource} {frames inFlight : List Frame} {frame : Frame}
  {text : List Char} {char : Char}

theorem written_cons (frame : Frame) (frames : List Frame) :
    WireState.written (frame :: frames) = frame.text.toList ++ WireState.written frames :=
  List.flatMap_cons

theorem written_append (frames more : List Frame) :
    WireState.written (frames ++ more) = WireState.written frames ++ WireState.written more :=
  List.flatMap_append

theorem Frame.text_ne_nil (frame : Frame) : frame.text.toList ≠ [] := by
  rw [frame.text_toList, block]
  simp

theorem receiving_idle (h : client.Idle) (frames : List Frame) :
    Receiving client frames (WireState.written frames) := by
  refine ⟨client, [], h, rfl, rfl, ?_⟩
  intro frame _
  exact List.length_pos_of_ne_nil frame.text_ne_nil

/-- More frames are sent. -/
theorem Receiving.send (h : Receiving client inFlight text) (frames : List Frame) :
    Receiving client (inFlight ++ frames) (text ++ WireState.written frames) := by
  obtain ⟨idle, got, hidle, hclient, htext, hpart⟩ := h.part
  refine ⟨idle, got, hidle, hclient, ?_, ?_⟩
  · rw [← List.append_assoc, htext, written_append]
  · cases inFlight with
    | nil =>
        obtain ⟨rfl, rfl⟩ := List.append_eq_nil_iff.1 htext
        intro frame _
        exact List.length_pos_of_ne_nil frame.text_ne_nil
    | cons first rest => exact hpart

/-- Where no text is left, no frame is in flight. -/
theorem Receiving.inFlight_eq_nil (h : Receiving client inFlight []) : inFlight = [] := by
  obtain ⟨idle, got, -, -, htext, hpart⟩ := h.part
  cases inFlight with
  | nil => rfl
  | cons frame rest =>
      have hlength := hpart frame rfl
      rw [List.append_nil, written_cons] at htext
      rw [htext, List.length_append] at hlength
      omega

/-- The next character either is the last one of the first frame, or dispatches nothing. -/
theorem Receiving.feed (h : Receiving client inFlight (char :: text))
    (hplain : ∀ frame ∈ inFlight, frame.Plain) :
    (∃ frame rest, inFlight = frame :: rest ∧ Receiving (client.feed char) rest text ∧
      (client.feed char).dispatched =
        client.dispatched ++ frame.event?.toList.map EventFrame.dispatched) ∨
    (Receiving (client.feed char) inFlight text ∧
      (client.feed char).dispatched = client.dispatched) := by
  obtain ⟨idle, got, hidle, rfl, htext, hpart⟩ := h.part
  have hfeed : (idle.receive got).feed char = idle.receive (got ++ [char]) := by
    rw [receive_append]
    rfl
  have hmore : (got ++ [char]) ++ text = WireState.written inFlight := by
    rw [← htext, List.append_assoc]
    rfl
  cases inFlight with
  | nil => simp [WireState.written] at hmore
  | cons frame rest =>
      have hframe := hplain frame List.mem_cons_self
      have hlength := hpart frame rfl
      have hfirst : got ++ [char] <+: frame.text.toList := by
        apply List.prefix_of_prefix_length_le ⟨text, hmore⟩
        · exact ⟨WireState.written rest, (written_cons frame rest).symm⟩
        · simpa using Nat.succ_le_of_lt hlength
      have hbefore : (idle.receive got).dispatched = idle.dispatched := by
        rw [frame.text_toList] at hlength hfirst
        apply dispatched_of_part hidle.toAtLine hframe.lines ((List.prefix_append _ _).trans hfirst)
        rintro rfl
        exact absurd hlength (lt_irrefl _)
      rw [hfeed, hbefore]
      by_cases hend : got ++ [char] = frame.text.toList
      · refine .inl ⟨frame, rest, rfl, ?_, ?_⟩
        · rw [hend, written_cons] at hmore
          rw [hend, List.append_cancel_left hmore]
          exact receiving_idle (receive_frame hidle hframe).1 rest
        · rw [hend]
          exact (receive_frame hidle hframe).2
      · refine .inr ⟨⟨idle, got ++ [char], hidle, rfl, hmore, ?_⟩, ?_⟩
        · rintro other hother
          cases hother
          exact lt_of_le_of_ne hfirst.length_le fun heq => hend (hfirst.eq_of_length heq)
        · rw [frame.text_toList] at hfirst hend
          exact dispatched_of_part hidle.toAtLine hframe.lines hfirst hend

theorem WireState.Mirrors.lastEventId (h : s.Mirrors t) :
    s.lastEventId request = t.lastEventId request := by
  rw [WireState.lastEventId, ClientState.lastEventId, h.dispatched, List.getLast?_map,
    Option.map_map]
  congr 2
  funext frame
  simp [EventFrame.dispatched]

theorem handle_eq (inFlight : List Frame) (disconnected : Bool) (progress : IterProgress) :
    EventConnection.handle inFlight disconnected progress =
      ⟨(EventConnection.handle [] disconnected progress).iter,
        inFlight ++ (EventConnection.handle [] disconnected progress).inFlight⟩ := by
  cases progress with
  | silent iter => simp [EventConnection.handle]
  | raised exc => simp [EventConnection.handle]
  | yielded event iter =>
      cases disconnected with
      | true => simp [EventConnection.handle]
      | false => cases event <;> simp [EventConnection.handle]

end

section

open EventSource

variable {floatText : String → String} {int : String → Except Exn ℤ} {decimal : Char → Bool}
  {codec : EventCodec} {request : EventRequest} {s : WireState} {t : ClientState}

/-- The connection of the one client is that of the other. -/
theorem WireState.Mirrors.connected {log : EventLog} {iter : Option IterEvents} {text : List Char}
    {client : EventSource} (h : WireState.Mirrors ⟨log, some (iter, text), client⟩ t) :
    ∃ connection, t.connection = some connection ∧ connection.iter = iter :=
  Option.map_eq_some_iff.1 h.connection.symm

/-- What the text does, whole frames do, or nothing. -/
theorem WireState.Mirrors.act (codec : EventCodec) (request : EventRequest) (h : s.Mirrors t)
    (hplain : ∀ connection ∈ t.connection, ∀ frame ∈ connection.inFlight, frame.Plain)
    (action : WireAction) :
    (s.act codec request action).Mirrors t ∨
      ∃ action', (s.act codec request action).Mirrors (t.act codec request action') := by
  obtain ⟨log, connection, client⟩ := s
  obtain ⟨log', connection', received⟩ := t
  obtain rfl : log = log' := h.log
  cases action with
  | log action => exact .inr ⟨.log action, rfl, h.dispatched, h.connection, h.receiving⟩
  | connect granted =>
      refine .inr ⟨.connect granted, rfl, h.dispatched, ?_, ?_⟩
      · simp only [WireState.act, ClientState.act, h.lastEventId, Option.map_map]
        rfl
      · simp only [WireState.act, ClientState.act, h.lastEventId]
        intro iter text htext opened hopened
        have hopened' : streamTaskEvents codec granted
          (ClientState.lastEventId request ⟨log, connection', received⟩) request.afterId =
            some opened := hopened
        rw [hopened'] at htext
        cases htext
        exact receiving_idle ⟨⟨rfl, rfl⟩, rfl, rfl⟩ opened.inFlight
  | next failure disconnected =>
      cases connection with
      | none => exact .inl h
      | some opened =>
          obtain ⟨iter, text⟩ := opened
          obtain ⟨⟨iter', inFlight⟩, rfl, rfl⟩ := h.connected
          cases iter' with
          | none => exact .inl h
          | some iter' =>
              refine .inr ⟨.next failure disconnected, rfl, h.dispatched, ?_, ?_⟩
              · simp only [WireState.act, ClientState.act]
                rw [handle_eq inFlight]
                rfl
              · simp only [WireState.act, ClientState.act]
                rintro iter' text' htext' connection'' hconnection''
                cases htext'
                cases hconnection''
                rw [handle_eq inFlight]
                exact (h.receiving _ _ rfl _ rfl).send _
  | receive =>
      cases connection with
      | none => exact .inl h
      | some opened =>
          obtain ⟨iter, text⟩ := opened
          obtain ⟨⟨_, inFlight⟩, rfl, rfl⟩ := h.connected
          cases text with
          | nil => exact .inl h
          | cons char text =>
              rcases (h.receiving _ _ rfl _ rfl).feed (hplain _ rfl) with
                ⟨frame, rest, rfl, hrest, hdispatched⟩ | ⟨hrest, hdispatched⟩
              · refine .inr ⟨.receive, rfl, ?_, rfl, ?_⟩
                · have hbefore : client.dispatched = received.map EventFrame.dispatched :=
                    h.dispatched
                  simp only [WireState.act, ClientState.act]
                  rw [hdispatched, hbefore, List.map_append]
                · rintro iter' text' htext' connection'' hconnection''
                  cases htext'
                  cases hconnection''
                  exact hrest
              · refine .inl ⟨rfl, hdispatched.trans h.dispatched, rfl, ?_⟩
                rintro iter' text' htext' connection'' hconnection''
                cases htext'
                cases hconnection''
                exact hrest
  | lose =>
      refine .inr ⟨.lose, rfl, h.dispatched, rfl, ?_⟩
      intro iter text htext
      cases htext

/-- The frames in flight are those of reported entries. -/
theorem ClientRun.plain (hint : ∀ n : ℕ, int (Nat.repr n) = .ok (n : ℤ))
    (h : ClientRun (jsonEventCodec floatText int decimal) request t)
    (hlog : ∀ entry ∈ t.log.appended, entry.Reported floatText) :
    ∀ connection ∈ t.connection, ∀ frame ∈ connection.inFlight, frame.Plain := by
  obtain ⟨read, hread⟩ := h.invariant
  intro connection hconnection frame hframe event hevent
  obtain ⟨sent, hsent⟩ := hread.carries connection hconnection
  have hmem : Except.ok event ∈ (connection.inFlight.filterMap Frame.event?).map
      (Except.ok (ε := Exn)) :=
    List.mem_map_of_mem (List.mem_filterMap.2 ⟨frame, hframe, hevent⟩)
  rw [← hsent.inFlight] at hmem
  obtain ⟨entry, hentry, hdecode⟩ := List.mem_map.1 hmem
  have happended : entry ∈ t.log.appended := by
    have hlater := hsent.sent_prefix.subset (List.mem_append_right _ hentry)
    unfold entriesAfter at hlater
    split at hlater
    · exact List.mem_of_mem_filter hlater
    · cases hlater
  obtain ⟨q, n, -, -, hframe', hplain⟩ := (hlog entry happended).decode decimal hint
  rw [hdecode] at hframe'
  cases hframe'
  exact hplain

/-- The client that receives text does what the client that receives whole frames can do. -/
theorem WireRun.refines (hint : ∀ n : ℕ, int (Nat.repr n) = .ok (n : ℤ))
    (run : WireRun floatText (jsonEventCodec floatText int decimal) request s) :
    (∀ entry ∈ s.log.appended, entry.Reported floatText) ∧
      ∃ t, ClientRun (jsonEventCodec floatText int decimal) request t ∧ s.Mirrors t := by
  induction run with
  | initial log hlog =>
      refine ⟨hlog, _, .initial log, rfl, rfl, rfl, ?_⟩
      intro iter text htext
      cases htext
  | @step s _ hlog action haction ih =>
      obtain ⟨hreported, t, hrun, hmatches⟩ := ih
      have hreported' : ∀ entry ∈ s.log.appended, entry.Reported floatText := hreported
      have hcursor : s.cursor request = t.cursor request := by
        rw [WireState.cursor, ClientState.cursor, hmatches.lastEventId]
      rw [hcursor, hmatches.log] at hlog
      have hplain := hrun.plain hint (hmatches.log ▸ hreported)
      refine ⟨?_, ?_⟩
      · cases action with
        | log action =>
            cases action with
            | append entry =>
                intro other hother
                rcases List.mem_append.1 hother with hother | hother
                · exact hreported other hother
                · rw [List.mem_singleton.1 hother]
                  exact haction
            | trim count => exact hreported
        | connect granted => exact hreported
        | next failure disconnected =>
            simp only [WireState.act]
            split <;> exact hreported
        | receive =>
            simp only [WireState.act]
            split <;> exact hreported
        | lose => exact hreported
      · rcases hmatches.act (jsonEventCodec floatText int decimal) request hplain action with
          hsame | ⟨action', hnext⟩
        · exact ⟨t, hrun, hsame⟩
        · exact ⟨_, hrun.step hlog action', hnext⟩

end

/-- A client that receives the text of its connections character by character, and loses them
wherever it may be, dispatches the first events after the cursor of its first request, each
once: the event of the call that has added the entry, with data that reads as its payload. When
all text is received and the poll of the connection is answered nothing, these are all. -/
theorem events_on_the_wire (floatText : String → String) (int : String → Except Exn ℤ)
    (decimal : Char → Bool) (hint : ∀ n : ℕ, int (Nat.repr n) = .ok (n : ℤ))
    (request : EventRequest) {s : WireState}
    (run : WireRun floatText (jsonEventCodec floatText int decimal) request s) :
    ∃ read, read <+: entriesAfter request.cursor s.log.appended ∧
      List.Forall₂ (fun entry event => ∃ (q : AppendRequest) (n : ℕ),
        entry.fields = entryData dumpsPayload q n ∧
        event.lastEventId = entry.id.text.toList ∧ event.eventType = q.eventType.toList ∧
        Json.loads floatText (String.ofList event.data) =
          some (.obj (withSequenceNumber n q.payload))) read s.client.dispatched ∧
      ∀ iter, s.connection = some (some iter, []) → s.log.Orderly (s.cursor request) →
        iter.Idles (jsonEventCodec floatText int decimal) s.log →
          read = entriesAfter request.cursor s.log.appended := by
  obtain ⟨hreported, t, hrun, hmatches⟩ := run.refines hint
  obtain ⟨read, hread⟩ := hrun.invariant
  have hprefix := hread.read_prefix
  rw [← hmatches.log] at hprefix
  have hall : ∀ iter, s.connection = some (some iter, []) → s.log.Orderly (s.cursor request) →
      iter.Idles (jsonEventCodec floatText int decimal) s.log →
        read = entriesAfter request.cursor s.log.appended := by
    intro iter hconnection hlog hidles
    have hsame := hmatches.connection
    rw [hconnection] at hsame
    obtain ⟨opened, hopened, hiter⟩ := Option.map_eq_some_iff.1 hsame.symm
    have hempty := (hmatches.receiving _ _ hconnection opened hopened).inFlight_eq_nil
    rw [WireState.cursor, hmatches.lastEventId, hmatches.log] at hlog
    rw [hmatches.log] at hidles ⊢
    obtain ⟨sent, hread', hsent⟩ := hread.caught_up hlog hopened hiter hidles
    rw [hempty] at hsent
    rwa [List.map_eq_nil_iff.1 hsent, List.append_nil] at hread'
  refine ⟨read, hprefix, ?_, hall⟩
  have hentries : ∀ entry ∈ read, entry.Reported floatText := by
    intro entry hentry
    have hlater := hprefix.subset hentry
    unfold entriesAfter at hlater
    split at hlater
    · exact hreported entry (List.mem_of_mem_filter hlater)
    · cases hlater
  have hpairs : List.Forall₂ (fun entry frame =>
      decodeFrame (jsonEventCodec floatText int decimal) entry = .ok frame) read t.received := by
    have hsame : List.Forall₂ (fun x y : Except Exn EventFrame => x = y)
        (read.map (decodeFrame (jsonEventCodec floatText int decimal)))
        (t.received.map .ok) := by
      rw [hread.received]
      exact List.forall₂_refl _
    rw [List.forall₂_map_left_iff, List.forall₂_map_right_iff] at hsame
    exact hsame
  rw [hmatches.dispatched, List.forall₂_map_right_iff]
  refine ((List.forall₂_and_left (p := fun entry => entry.Reported floatText) read t.received).2
    ⟨hentries, hpairs⟩).imp ?_
  rintro entry frame ⟨hentry, hframe⟩
  obtain ⟨q, n, hfields, hpayload, hframe', -⟩ := hentry.decode decimal hint
  rw [hframe] at hframe'
  cases hframe'
  refine ⟨q, n, hfields, rfl, rfl, ?_⟩
  rw [EventFrame.dispatched, String.ofList_toList]
  exact Json.loads_dumps Json.spaced_blank (writable_withSequenceNumber hpayload n)

/-- Two connections: the first is lost within the event, the second is not. -/
def demoWire : List WireAction :=
  [.connect true, .next none false, .next none false] ++ List.replicate 40 .receive ++
    [.lose, .connect true, .next none false, .next none false] ++ List.replicate 300 .receive ++
      [.next none false]

/-- The action leaves the log as it is. -/
def WireAction.quiet : WireAction → Bool
  | .log _ => false
  | _ => true

/-- A run in which nothing is appended or cut off. -/
theorem WireRun.foldl {floatText : String → String} {codec : EventCodec} {request : EventRequest}
    {s : WireState} (h : WireRun floatText codec request s) (htrimmed : s.log.trimmed = 0)
    (hincreasing : Sequence.Increasing StreamEntry.id s.log.appended) {actions : List WireAction}
    (hactions : ∀ action ∈ actions, action.quiet = true) :
    WireRun floatText codec request (actions.foldl (WireState.act codec request) s) := by
  induction actions generalizing s with
  | nil => exact h
  | cons action rest ih =>
      have hquiet := hactions action List.mem_cons_self
      have hlog : (s.act codec request action).log = s.log := by
        cases action with
        | log change => cases hquiet
        | connect granted => rfl
        | next failure disconnected =>
            simp only [WireState.act]
            split <;> rfl
        | receive =>
            simp only [WireState.act]
            split <;> rfl
        | lose => rfl
      have horderly : s.log.Orderly (s.cursor request) := by
        refine ⟨hincreasing, ?_⟩
        intro id _ entry hentry
        rw [htrimmed] at hentry
        cases hentry
      have hreported : action.Reported floatText := by
        cases action with
        | log change => cases hquiet
        | _ => trivial
      exact ih (h.step horderly action hreported) (hlog ▸ htrimmed) (hlog ▸ hincreasing)
        fun other hother => hactions other (List.mem_cons_of_mem _ hother)

/-- A poll that finds nothing leaves the connection where it was. -/
theorem IterEvents.idles_of_xread (codec : EventCodec) {log : EventLog} {currentId : String}
    (h : xread log.visible currentId 100 = .ok []) :
    IterEvents.Idles codec log ⟨currentId, .poll⟩ :=
  ⟨none, ⟨currentId, .poll⟩, by simp only [IterEvents.step, h]⟩

def demoWireCodec : EventCodec := jsonEventCodec (fun text => text) demoInt Char.isDigit

/-- The stream with one event. -/
def demoWireLog : EventLog := ⟨[⟨.first, entryData dumpsPayload demoReport 1⟩], 0⟩

def demoWireEnd : WireState :=
  demoWire.foldl (WireState.act demoWireCodec ⟨none, none⟩) ⟨demoWireLog, none, .opened []⟩

theorem events_on_the_wire_demo :
    demoWireEnd.client.dispatched.map Dispatched.eventType = ["input.submitted".toList] ∧
      List.Forall₂ (fun entry event => ∃ (q : AppendRequest) (n : ℕ),
        entry.fields = entryData dumpsPayload q n ∧
        event.lastEventId = entry.id.text.toList ∧ event.eventType = q.eventType.toList ∧
        Json.loads (fun text => text) (String.ofList event.data) =
          some (.obj (withSequenceNumber n q.payload)))
        (entriesAfter "0-0" demoWireEnd.log.appended) demoWireEnd.client.dispatched := by
  have hreported : ∀ entry ∈ demoWireLog.appended, entry.Reported fun text => text := by
    intro entry hentry
    rw [List.mem_singleton.1 hentry]
    exact ⟨_, _, _, 1, ⟨.null, by simp⟩, rfl⟩
  have hrun : WireRun (fun text => text) demoWireCodec ⟨none, none⟩ demoWireEnd :=
    (WireRun.initial demoWireLog hreported).foldl rfl (by decide) (by decide +kernel)
  obtain ⟨read, -, hevents, hall⟩ :=
    events_on_the_wire (fun text => text) demoInt Char.isDigit demoInt_repr ⟨none, none⟩ hrun
  obtain ⟨hopen, htrimmed, hincreasing, hnothing, hdispatched⟩ :
      demoWireEnd.connection = some (some ⟨StreamId.first.text, .poll⟩, []) ∧
        demoWireEnd.log.trimmed = 0 ∧
        Sequence.Increasing StreamEntry.id demoWireEnd.log.appended ∧
        xread demoWireEnd.log.visible StreamId.first.text 100 = .ok [] ∧
        demoWireEnd.client.dispatched.map Dispatched.eventType =
          ["input.submitted".toList] := by
    decide +kernel
  have horderly : demoWireEnd.log.Orderly (demoWireEnd.cursor ⟨none, none⟩) := by
    refine ⟨hincreasing, ?_⟩
    intro id _ entry hentry
    rw [htrimmed] at hentry
    cases hentry
  have hlast := hall _ hopen horderly (IterEvents.idles_of_xread _ hnothing)
  exact ⟨hdispatched, hlast ▸ hevents⟩

end CommerceAgent
