import CommerceAgent.Agent.State
import CommerceAgent.Errors
import CommerceAgent.Sequence.Cursor
import CommerceAgent.Tasks.StreamId

/-!
# The event stream of a task

`iter_events` reads the stream of a task from a cursor: first what is there, by one
`XRANGE`, then batches of 100, each by an `XREAD` that waits for entries. `stream_task_events`
sends each event as a frame and returns at an event with which the task waits or ends. A
client that has lost its connection opens another with the id of the last event that it
received. The stream grows and is cut off at its beginning between any two of these steps.
-/

namespace CommerceAgent

open Sequence

/-- What the event stream uses of `json`, `int` and `\d`. -/
structure EventCodec where
  loads : String → Except Exn Json
  int : String → Except Exn ℤ
  decimal : Char → Bool

structure StreamEntry where
  id : StreamId
  fields : List (String × String)
  deriving DecidableEq

structure StreamEvent where
  eventId : String
  eventType : String
  sequenceNumber : ℤ
  payload : JsonObject

/-- The entries that were appended, of which the first `trimmed` are gone. -/
structure EventLog where
  appended : List StreamEntry
  trimmed : ℕ

def EventLog.visible (log : EventLog) : List StreamEntry := log.appended.drop log.trimmed

/-- `fields[key]`. -/
def entryField (fields : List (String × String)) (key : String) : Except Exn String :=
  match fields.lookup key with
  | some text => .ok text
  | none => .error (.other "KeyError")

/-- `_decode_event`. -/
def decodeEvent (codec : EventCodec) (entry : StreamEntry) : Except Exn StreamEvent := do
  let text ← entryField entry.fields "payload"
  let value ← codec.loads text
  let payload := match value with
    | .obj members => members
    | other => [("value", other)]
  let eventType ← entryField entry.fields "event_type"
  let sequence ← entryField entry.fields "sequence_number"
  let sequenceNumber ← codec.int sequence
  return ⟨entry.id.text, eventType, sequenceNumber, payload⟩

/-- The event has the id of its entry. -/
theorem eventId_of_decodeEvent {codec : EventCodec} {entry : StreamEntry} {event : StreamEvent}
    (h : decodeEvent codec entry = .ok event) : event.eventId = entry.id.text := by
  simp only [decodeEvent, bind, Except.bind, pure, Except.pure] at h
  repeat' split at h
  all_goals cases h
  all_goals rfl

def responseError : Exn := .other "ResponseError"

/-- `XRANGE key (cursor +`. -/
def xrange (stream : List StreamEntry) (cursor : String) : Except Exn (List StreamEntry) :=
  match StreamId.read cursor with
  | none => .error responseError
  | some id => if id = .last then .error responseError else .ok (after StreamEntry.id id stream)

/-- The reply of `XREAD COUNT count BLOCK n STREAMS key cursor`, empty at a timeout. -/
def xread (stream : List StreamEntry) (cursor : String) (count : ℕ) :
    Except Exn (List StreamEntry) :=
  match StreamId.read cursor with
  | none => .error responseError
  | some id => .ok ((after StreamEntry.id id stream).take count)

/-- Where `iter_events` is: before its first command, in the loop over the backlog, before
an `XREAD`, or in the loop over what it returned. -/
inductive IterPhase where
  | start
  | backlog (rest : List StreamEntry)
  | poll
  | batch (rest : List StreamEntry)
  deriving DecidableEq

structure IterEvents where
  currentId : String
  phase : IterPhase
  deriving DecidableEq

/-- What `iter_events` does next: a step that yields nothing, a `yield`, or an exception. -/
inductive IterProgress where
  | silent (iter : IterEvents)
  | yielded (event : Option StreamEvent) (iter : IterEvents)
  | raised (exc : Exn)

namespace IterEvents

/-- `iter_events(task_id, after_id)` before it runs. -/
def initial (afterId : String) : IterEvents := ⟨afterId, .start⟩

/-- One turn of a loop over entries. -/
def yieldEntry (codec : EventCodec) (entry : StreamEntry) (phase : IterPhase) : IterProgress :=
  match decodeEvent codec entry with
  | .error exc => .raised exc
  | .ok event => .yielded (some event) ⟨entry.id.text, phase⟩

/-- One step of `iter_events`, on the stream as it is; a Redis command may fail. -/
def step (codec : EventCodec) (stream : List StreamEntry) (failure : Option Exn)
    (iter : IterEvents) : IterProgress :=
  match iter.phase with
  | .start =>
      match failure, xrange stream iter.currentId with
      | some exc, _ => .raised exc
      | none, .error exc => .raised exc
      | none, .ok backlog => .silent ⟨iter.currentId, .backlog backlog⟩
  | .backlog [] => .silent ⟨iter.currentId, .poll⟩
  | .backlog (entry :: rest) => yieldEntry codec entry (.backlog rest)
  | .poll =>
      match failure, xread stream iter.currentId 100 with
      | some exc, _ => .raised exc
      | none, .error exc => .raised exc
      | none, .ok [] => .yielded none iter
      | none, .ok batch => .silent ⟨iter.currentId, .batch batch⟩
  | .batch [] => .silent ⟨iter.currentId, .poll⟩
  | .batch (entry :: rest) => yieldEntry codec entry (.batch rest)

/-- The entries that were fetched and not yet yielded. -/
def rest (iter : IterEvents) : List StreamEntry :=
  match iter.phase with
  | .start => []
  | .backlog rest => rest
  | .poll => []
  | .batch rest => rest

end IterEvents

/-- An event as it is sent: the lines `id`, `event` and `data`. -/
structure EventFrame where
  id : String
  event : String
  data : JsonObject

/-- What `event_generator` yields: `retry: 3000`, a comment `ping`, or an event. -/
inductive Frame where
  | retry
  | ping
  | event (frame : EventFrame)

def Frame.event? : Frame → Option EventFrame
  | .event frame => some frame
  | _ => none

/-- `{"sequence_number": n, **payload}`. -/
def withSequenceNumber (n : ℤ) (payload : JsonObject) : JsonObject :=
  ("sequence_number", (payload.get? "sequence_number").getD (.int n)) ::
    payload.filter fun member => member.1 != "sequence_number"

def eventFrame (event : StreamEvent) : EventFrame :=
  ⟨event.eventId, event.eventType, withSequenceNumber event.sequenceNumber event.payload⟩

/-- The events after which the connection is closed. -/
def closingEvents : List String :=
  ["task.awaiting_input", "task.awaiting_approval", "task.rejected", "task.completed",
    "task.failed"]

/-- A connection: the generator, unless it has returned, and the frames that were sent and
not yet received. -/
structure EventConnection where
  iter : Option IterEvents
  inFlight : List Frame

/-- `event_generator` after a step of `iter_events`. -/
def EventConnection.handle (inFlight : List Frame) (disconnected : Bool) :
    IterProgress → EventConnection
  | .silent iter => ⟨some iter, inFlight⟩
  | .raised _ => ⟨none, inFlight⟩
  | .yielded event iter =>
      if disconnected then ⟨none, inFlight⟩
      else
        match event with
        | none => ⟨some iter, inFlight ++ [.ping]⟩
        | some event =>
            ⟨if event.eventType ∈ closingEvents then none else some iter,
              inFlight ++ [.event (eventFrame event)]⟩

/-- `last_event_id or after or "0-0"`. -/
def requestCursor (lastEventId afterId : Option String) : String :=
  match lastEventId.filter (· != ""), afterId.filter (· != "") with
  | some cursor, _ => cursor
  | none, some cursor => cursor
  | none, none => "0-0"

theorem requestCursor_some {cursor : String} (h : cursor ≠ "") (afterId : Option String) :
    requestCursor (some cursor) afterId = cursor := by
  have hfilter : (some cursor).filter (· != "") = some cursor := by
    simp [h]
  rw [requestCursor, hfilter]

/-- `_event_id_pattern.fullmatch(cursor)`. -/
def eventIdPattern (codec : EventCodec) (cursor : String) : Bool :=
  let before := cursor.toList.takeWhile (· != '-')
  let rest := cursor.toList.dropWhile (· != '-')
  !before.isEmpty && before.all codec.decimal && !rest.tail.isEmpty && rest.tail.all codec.decimal

/-- `stream_task_events`; the check of the merchant may refuse the request. -/
def streamTaskEvents (codec : EventCodec) (granted : Bool) (lastEventId afterId : Option String) :
    Option EventConnection :=
  let cursor := requestCursor lastEventId afterId
  if granted && eventIdPattern codec cursor then some ⟨some (.initial cursor), [.retry]⟩
  else none

end CommerceAgent
