import CommerceAgent.Tasks.EventStream

/-!
# No event is lost or repeated

`IterRun` are the runs of one `iter_events` while the stream grows and is cut off;
`ClientRun` are those of a client that opens one connection after the other, each with the
id of the last event that it received. Both assume of every state that the ids increase and
that nothing after the cursor is gone. Where a reader stands is said once, by `Positioned`:
what he has read and what he has fetched is a beginning of the entries after his start.
-/

namespace CommerceAgent

open Sequence

inductive LogAction where
  | append (entry : StreamEntry)
  | trim (count : ℕ)

def EventLog.act (log : EventLog) : LogAction → EventLog
  | .append entry => { log with appended := log.appended ++ [entry] }
  | .trim count => { log with trimmed := count }

/-- What is assumed: the ids increase, and nothing after the cursor is gone. -/
structure EventLog.Orderly (log : EventLog) (cursor : String) : Prop where
  increasing : Increasing StreamEntry.id log.appended
  kept : ∀ id, StreamId.read cursor = some id →
    ∀ entry ∈ log.appended.take log.trimmed, entry.id ≤ id

/-- The entries after a cursor; none, if the cursor is no id. -/
def entriesAfter (cursor : String) (stream : List StreamEntry) : List StreamEntry :=
  match StreamId.read cursor with
  | some id => after StreamEntry.id id stream
  | none => []

/-- The cursor of a reader who started at `start`. -/
def cursorAfter (start : String) (read : List StreamEntry) : String :=
  (read.getLast?.map fun entry => entry.id.text).getD start

section

variable {start cursor : String} {stream read more : List StreamEntry} {log : EventLog}

theorem entriesAfter_of_read {id : StreamId} (h : StreamId.read cursor = some id) :
    entriesAfter cursor stream = after StreamEntry.id id stream := by
  simp only [entriesAfter, h]

theorem entriesAfter_of_read_none (h : StreamId.read cursor = none) :
    entriesAfter cursor stream = [] := by
  simp only [entriesAfter, h]

@[simp] theorem cursorAfter_nil : cursorAfter start [] = start := rfl

@[simp] theorem cursorAfter_append_singleton (entry : StreamEntry) :
    cursorAfter start (read ++ [entry]) = entry.id.text := by
  simp [cursorAfter]

theorem read_cursorAfter {id : StreamId} (h : StreamId.read start = some id) :
    StreamId.read (cursorAfter start read) = some (position StreamEntry.id id read) := by
  cases hlast : read.getLast? with
  | none => simp [cursorAfter, position, hlast, h]
  | some entry => simp [cursorAfter, position, hlast, StreamId.read_text]

theorem prefix_entriesAfter_act (h : read <+: entriesAfter start log.appended)
    (action : LogAction) : read <+: entriesAfter start (log.act action).appended := by
  cases action with
  | trim count => exact h
  | append entry =>
      cases hstart : StreamId.read start with
      | none =>
          rw [entriesAfter_of_read_none hstart] at h ⊢
          exact h
      | some id =>
          rw [entriesAfter_of_read hstart] at h ⊢
          exact prefix_after_append h [entry]

/-- Reading on from the cursor goes on with the beginning that has been read. -/
theorem append_prefix_entriesAfter (hstream : Increasing StreamEntry.id stream)
    (h : read <+: entriesAfter start stream)
    (hmore : more <+: entriesAfter (cursorAfter start read) stream) :
    read ++ more <+: entriesAfter start stream := by
  cases hstart : StreamId.read start with
  | none =>
      rw [entriesAfter_of_read_none hstart] at h ⊢
      obtain rfl := List.prefix_nil.1 h
      rw [cursorAfter_nil, entriesAfter_of_read_none hstart] at hmore
      exact hmore
  | some id =>
      rw [entriesAfter_of_read hstart] at h ⊢
      rw [entriesAfter_of_read (read_cursorAfter hstart)] at hmore
      exact append_prefix_of_position hstream h hmore

/-- What is gone is missed by no reader at the cursor. -/
theorem entriesAfter_visible (h : log.Orderly cursor) :
    entriesAfter cursor log.visible = entriesAfter cursor log.appended := by
  cases hcursor : StreamId.read cursor with
  | none => rw [entriesAfter_of_read_none hcursor, entriesAfter_of_read_none hcursor]
  | some id =>
      rw [entriesAfter_of_read hcursor, entriesAfter_of_read hcursor]
      exact after_drop (h.kept id hcursor)

theorem xrange_eq (h : xrange stream cursor = .ok more) : more = entriesAfter cursor stream := by
  unfold xrange at h
  split at h
  · cases h
  · next id hcursor =>
      split at h
      · cases h
      · cases h
        exact (entriesAfter_of_read hcursor).symm

theorem xread_begins {count : ℕ} (h : xread stream cursor count = .ok more) :
    more <+: entriesAfter cursor stream := by
  unfold xread at h
  split at h
  · cases h
  · next id hcursor =>
      cases h
      rw [entriesAfter_of_read hcursor]
      exact List.take_prefix _ _

/-- A poll that is answered nothing has nothing to find. -/
theorem entriesAfter_of_xread_nil {count : ℕ} (h : xread stream cursor (count + 1) = .ok []) :
    entriesAfter cursor stream = [] := by
  unfold xread at h
  split at h
  · cases h
  · next id hcursor =>
      rw [Except.ok.injEq, List.take_eq_nil_iff] at h
      rw [entriesAfter_of_read hcursor]
      exact h.resolve_left (Nat.succ_ne_zero count)

/-- A beginning with nothing after it is all there is. -/
theorem eq_entriesAfter (hstream : Increasing StreamEntry.id stream)
    (h : read <+: entriesAfter start stream)
    (hnone : entriesAfter (cursorAfter start read) stream = []) :
    read = entriesAfter start stream := by
  cases hstart : StreamId.read start with
  | none =>
      rw [entriesAfter_of_read_none hstart] at h ⊢
      exact List.prefix_nil.1 h
  | some id =>
      rw [entriesAfter_of_read hstart] at h ⊢
      rw [entriesAfter_of_read (read_cursorAfter hstart)] at hnone
      have hall := append_after_position hstream h
      rwa [hnone, List.append_nil] at hall

end

/-- The reader has yielded `read` since `start`, and what he has fetched comes next. -/
structure Positioned (start : String) (log : EventLog) (read : List StreamEntry)
    (iter : IterEvents) : Prop where
  current : iter.currentId = cursorAfter start read
  fetched : read ++ iter.rest <+: entriesAfter start log.appended

/-- A step yields the next entry or none. -/
def Advances (codec : EventCodec) (start : String) (log : EventLog) (read : List StreamEntry) :
    IterProgress → Prop
  | .silent iter => Positioned start log read iter
  | .yielded none iter => Positioned start log read iter
  | .yielded (some event) iter =>
      ∃ entry, decodeEvent codec entry = .ok event ∧ Positioned start log (read ++ [entry]) iter
  | .raised _ => True

section

variable {codec : EventCodec} {start : String} {log : EventLog} {read rest : List StreamEntry}
  {iter : IterEvents}

theorem Positioned.read_prefix (h : Positioned start log read iter) :
    read <+: entriesAfter start log.appended :=
  (List.prefix_append _ _).trans h.fetched

theorem Positioned.act (h : Positioned start log read iter) (action : LogAction) :
    Positioned start (log.act action) read iter :=
  ⟨h.current, prefix_entriesAfter_act h.fetched action⟩

theorem yieldEntry_advances {entry : StreamEntry} {phase : IterPhase}
    (hfetched : read ++ entry :: rest <+: entriesAfter start log.appended)
    (hrest : (⟨entry.id.text, phase⟩ : IterEvents).rest = rest) :
    Advances codec start log read (IterEvents.yieldEntry codec entry phase) := by
  unfold IterEvents.yieldEntry
  split
  · trivial
  · next event hevent =>
      refine ⟨entry, hevent, ?_, ?_⟩
      · rw [cursorAfter_append_singleton]
      · rw [hrest, List.append_assoc]
        exact hfetched

/-- One step of `iter_events` keeps its place. -/
theorem step_advances (hlog : log.Orderly iter.currentId) (h : Positioned start log read iter)
    (failure : Option Exn) :
    Advances codec start log read (iter.step codec log.visible failure) := by
  obtain ⟨currentId, phase⟩ := iter
  have hcurrent := h.current
  have hfetched := h.fetched
  -- What a command returns comes after what has been read.
  have hread : ∀ more, more <+: entriesAfter currentId log.visible →
      read ++ more <+: entriesAfter start log.appended := by
    intro more hmore
    rw [entriesAfter_visible hlog, show currentId = cursorAfter start read from hcurrent] at hmore
    exact append_prefix_entriesAfter hlog.increasing h.read_prefix hmore
  cases phase with
  | start =>
      simp only [IterEvents.step]
      split
      · trivial
      · trivial
      · next backlog hbacklog =>
          exact ⟨hcurrent, hread backlog (xrange_eq hbacklog ▸ List.prefix_rfl)⟩
  | backlog rest =>
      cases rest with
      | nil => exact ⟨hcurrent, hfetched⟩
      | cons entry rest => exact yieldEntry_advances hfetched rfl
  | poll =>
      simp only [IterEvents.step]
      split
      · trivial
      · trivial
      · exact h
      · next batch _ hbatch => exact ⟨hcurrent, hread _ (xread_begins hbatch)⟩
  | batch rest =>
      cases rest with
      | nil => exact ⟨hcurrent, hfetched⟩
      | cons entry rest => exact yieldEntry_advances hfetched rfl

end

/-- The generator is about to yield `None`: its poll is answered nothing. -/
def IterEvents.Idles (codec : EventCodec) (log : EventLog) (iter : IterEvents) : Prop :=
  ∃ failure next, iter.step codec log.visible failure = .yielded none next

/-- A reader whose poll is answered nothing has read everything after his start. -/
theorem Positioned.caught_up {codec : EventCodec} {start : String} {log : EventLog}
    {read : List StreamEntry} {iter : IterEvents} (hlog : log.Orderly iter.currentId)
    (h : Positioned start log read iter) (hidles : iter.Idles codec log) :
    read = entriesAfter start log.appended := by
  obtain ⟨failure, next, hstep⟩ := hidles
  have hread := h.read_prefix
  obtain ⟨currentId, phase⟩ := iter
  obtain rfl : currentId = cursorAfter start read := h.current
  have hyield : ∀ entry phase, IterEvents.yieldEntry codec entry phase ≠ .yielded none next := by
    intro entry phase hnone
    unfold IterEvents.yieldEntry at hnone
    split at hnone <;> cases hnone
  cases phase with
  | start =>
      simp only [IterEvents.step] at hstep
      split at hstep <;> cases hstep
  | backlog rest =>
      cases rest with
      | nil => cases hstep
      | cons entry rest => exact absurd hstep (hyield entry _)
  | poll =>
      simp only [IterEvents.step] at hstep
      split at hstep
      · cases hstep
      · cases hstep
      · next hempty =>
          apply eq_entriesAfter hlog.increasing hread
          rw [← entriesAfter_visible hlog]
          exact entriesAfter_of_xread_nil hempty
      · cases hstep
  | batch rest =>
      cases rest with
      | nil => cases hstep
      | cons entry rest => exact absurd hstep (hyield entry _)

/-! ## One reader -/

/-- A reader of `iter_events`: the generator, unless it has raised, and what it has yielded. -/
structure IterState where
  log : EventLog
  iter : Option IterEvents
  yielded : List (Option StreamEvent)

inductive IterAction where
  | log (action : LogAction)
  | next (failure : Option Exn)

def IterState.act (codec : EventCodec) (s : IterState) : IterAction → IterState
  | .log action => { s with log := s.log.act action }
  | .next failure =>
      match s.iter with
      | none => s
      | some iter =>
          match iter.step codec s.log.visible failure with
          | .silent iter => { s with iter := some iter }
          | .yielded event iter => { s with iter := some iter, yielded := s.yielded ++ [event] }
          | .raised _ => { s with iter := none }

/-- The runs of `iter_events(task_id, afterId)`. -/
inductive IterRun (codec : EventCodec) (afterId : String) : IterState → Prop
  | initial (log : EventLog) : IterRun codec afterId ⟨log, some (.initial afterId), []⟩
  | step {s : IterState} (h : IterRun codec afterId s)
      (hlog : ∀ iter ∈ s.iter, s.log.Orderly iter.currentId) (action : IterAction) :
      IterRun codec afterId (s.act codec action)

/-- What has been yielded is what was read, and the generator goes on after it. -/
structure IterInvariant (codec : EventCodec) (afterId : String) (s : IterState)
    (read : List StreamEntry) : Prop where
  read_prefix : read <+: entriesAfter afterId s.log.appended
  yielded : read.map (decodeEvent codec) = (s.yielded.filterMap id).map .ok
  positioned : ∀ iter ∈ s.iter, Positioned afterId s.log read iter

section

variable {codec : EventCodec} {afterId : String} {s : IterState} {read : List StreamEntry}

theorem IterInvariant.act (h : IterInvariant codec afterId s read)
    (hlog : ∀ iter ∈ s.iter, s.log.Orderly iter.currentId) (action : IterAction) :
    ∃ read, IterInvariant codec afterId (s.act codec action) read := by
  cases action with
  | log action =>
      refine ⟨read, prefix_entriesAfter_act h.read_prefix action, h.yielded, ?_⟩
      intro iter hiter
      exact (h.positioned iter hiter).act action
  | next failure =>
      obtain ⟨log, iter?, yielded⟩ := s
      cases iter? with
      | none => exact ⟨read, h⟩
      | some iter =>
          have hadvances : Advances codec afterId log read
              (iter.step codec log.visible failure) :=
            step_advances (hlog iter rfl) (h.positioned iter rfl) failure
          simp only [IterState.act]
          cases hstep : iter.step codec log.visible failure with
          | raised exc =>
              refine ⟨read, h.read_prefix, h.yielded, ?_⟩
              intro iter' hiter'
              cases hiter'
          | silent next =>
              rw [hstep] at hadvances
              refine ⟨read, h.read_prefix, h.yielded, ?_⟩
              intro iter' hiter'
              cases hiter'
              exact hadvances
          | yielded event next =>
              rw [hstep] at hadvances
              cases event with
              | none =>
                  refine ⟨read, h.read_prefix, by simpa using h.yielded, ?_⟩
                  intro iter' hiter'
                  cases hiter'
                  exact hadvances
              | some event =>
                  obtain ⟨entry, hevent, hplace⟩ := hadvances
                  refine ⟨read ++ [entry], hplace.read_prefix, ?_, ?_⟩
                  · simp [h.yielded, hevent]
                  · intro iter' hiter'
                    cases hiter'
                    exact hplace

theorem IterRun.invariant (h : IterRun codec afterId s) :
    ∃ read, IterInvariant codec afterId s read := by
  induction h with
  | initial log =>
      refine ⟨[], List.nil_prefix, rfl, ?_⟩
      intro iter hiter
      cases hiter
      exact ⟨rfl, List.nil_prefix⟩
  | step _ hlog action ih =>
      obtain ⟨read, hread⟩ := ih
      exact hread.act hlog action

end

/-! ## A client and its connections -/

/-- The parameters of the first request. -/
structure EventRequest where
  lastEventId : Option String
  afterId : Option String

def EventRequest.cursor (request : EventRequest) : String :=
  requestCursor request.lastEventId request.afterId

structure ClientState where
  log : EventLog
  connection : Option EventConnection
  received : List EventFrame

inductive ClientAction where
  | log (action : LogAction)
  | connect (granted : Bool)
  | next (failure : Option Exn) (disconnected : Bool)
  | receive
  | lose

namespace ClientState

/-- `Last-Event-ID`: the id of the last event that was received. -/
def lastEventId (request : EventRequest) (s : ClientState) : Option String :=
  (s.received.getLast?.map EventFrame.id).or request.lastEventId

def cursor (request : EventRequest) (s : ClientState) : String :=
  requestCursor (s.lastEventId request) request.afterId

def act (codec : EventCodec) (request : EventRequest) (s : ClientState) :
    ClientAction → ClientState
  | .log action => { s with log := s.log.act action }
  | .connect granted =>
      { s with
        connection := streamTaskEvents codec granted (s.lastEventId request) request.afterId }
  | .next failure disconnected =>
      match s.connection with
      | some ⟨some iter, inFlight⟩ =>
          { s with
            connection := some
              (EventConnection.handle inFlight disconnected
                (iter.step codec s.log.visible failure)) }
      | _ => s
  | .receive =>
      match s.connection with
      | some ⟨iter, frame :: inFlight⟩ =>
          { s with
            connection := some ⟨iter, inFlight⟩, received := s.received ++ frame.event?.toList }
      | _ => s
  | .lose => { s with connection := none }

end ClientState

/-- The runs of a client whose first request is `request`. -/
inductive ClientRun (codec : EventCodec) (request : EventRequest) : ClientState → Prop
  | initial (log : EventLog) : ClientRun codec request ⟨log, none, []⟩
  | step {s : ClientState} (h : ClientRun codec request s)
      (hlog : s.log.Orderly (s.cursor request)) (action : ClientAction) :
      ClientRun codec request (s.act codec request action)

/-- The frame that is sent for an entry. -/
def decodeFrame (codec : EventCodec) (entry : StreamEntry) : Except Exn EventFrame :=
  (decodeEvent codec entry).map eventFrame

/-- The frames in flight are those of `sent`, and the generator goes on after them. -/
structure Carries (codec : EventCodec) (start : String) (log : EventLog)
    (read sent : List StreamEntry) (connection : EventConnection) : Prop where
  sent_prefix : read ++ sent <+: entriesAfter start log.appended
  inFlight : sent.map (decodeFrame codec) = (connection.inFlight.filterMap Frame.event?).map .ok
  positioned : ∀ iter ∈ connection.iter, Positioned start log (read ++ sent) iter

/-- What has been received is what was read, and the connection goes on after it. -/
structure ClientInvariant (codec : EventCodec) (request : EventRequest) (s : ClientState)
    (read : List StreamEntry) : Prop where
  read_prefix : read <+: entriesAfter request.cursor s.log.appended
  received : read.map (decodeFrame codec) = s.received.map .ok
  carries : ∀ connection ∈ s.connection,
    ∃ sent, Carries codec request.cursor s.log read sent connection

section

variable {codec : EventCodec} {request : EventRequest} {s : ClientState} {log : EventLog}
  {start : String} {read sent : List StreamEntry} {connection : EventConnection} {iter : IterEvents}

/-- A frame has the id of its entry. -/
theorem id_of_decodeFrame {entry : StreamEntry} {frame : EventFrame}
    (h : decodeFrame codec entry = .ok frame) : frame.id = entry.id.text := by
  cases hevent : decodeEvent codec entry with
  | error exc =>
      rw [decodeFrame, hevent] at h
      cases h
  | ok event =>
      rw [decodeFrame, hevent] at h
      cases h
      exact eventId_of_decodeEvent hevent

/-- The next request goes on after the last event that was received. -/
theorem cursor_eq (h : read.map (decodeFrame codec) = s.received.map .ok) :
    s.cursor request = cursorAfter request.cursor read := by
  rcases List.eq_nil_or_concat read with rfl | ⟨earlier, entry, rfl⟩
  · have hnone : s.received = [] := List.map_eq_nil_iff.1 h.symm
    simp [ClientState.cursor, ClientState.lastEventId, EventRequest.cursor, hnone]
  · rw [List.concat_eq_append, List.map_append] at h
    obtain ⟨frames, last, hreceived, -, hlast⟩ := List.map_eq_append_iff.1 h.symm
    obtain ⟨frame, rfl, hframe⟩ := List.map_eq_singleton_iff.1 hlast
    have hheader : s.lastEventId request = some entry.id.text := by
      simp [ClientState.lastEventId, hreceived, id_of_decodeFrame hframe.symm]
    rw [ClientState.cursor, hheader, requestCursor_some entry.id.text_ne_empty,
      List.concat_eq_append, cursorAfter_append_singleton]

/-- Nothing after a later cursor is gone either. -/
theorem EventLog.Orderly.later (h : log.Orderly (cursorAfter start read))
    (hsent : read ++ sent <+: entriesAfter start log.appended) :
    log.Orderly (cursorAfter start (read ++ sent)) := by
  refine ⟨h.increasing, ?_⟩
  cases hstart : StreamId.read start with
  | none =>
      rw [entriesAfter_of_read_none hstart] at hsent
      obtain ⟨rfl, rfl⟩ := List.append_eq_nil_iff.1 (List.prefix_nil.1 hsent)
      exact h.kept
  | some id =>
      intro later hlater entry hentry
      rw [entriesAfter_of_read hstart] at hsent
      rw [read_cursorAfter hstart] at hlater
      cases hlater
      exact (h.kept _ (read_cursorAfter hstart) entry hentry).trans
        (position_le_append h.increasing hsent)

theorem Carries.act (h : Carries codec start log read sent connection) (action : LogAction) :
    Carries codec start (log.act action) read sent connection := by
  refine ⟨prefix_entriesAfter_act h.sent_prefix action, h.inFlight, ?_⟩
  intro iter hiter
  exact (h.positioned iter hiter).act action

/-- What the connection does after a step of the generator. -/
theorem Carries.handle {inFlight : List Frame}
    (h : Carries codec start log read sent ⟨some iter, inFlight⟩) {progress : IterProgress}
    (hprogress : Advances codec start log (read ++ sent) progress) (disconnected : Bool) :
    ∃ sent, Carries codec start log read sent
      (EventConnection.handle inFlight disconnected progress) := by
  cases progress with
  | raised exc =>
      refine ⟨sent, h.sent_prefix, h.inFlight, ?_⟩
      intro iter' hiter'
      cases hiter'
  | silent next =>
      refine ⟨sent, h.sent_prefix, h.inFlight, ?_⟩
      intro iter' hiter'
      cases hiter'
      exact hprogress
  | yielded event next =>
      cases disconnected with
      | true =>
          refine ⟨sent, h.sent_prefix, h.inFlight, ?_⟩
          intro iter' hiter'
          cases hiter'
      | false =>
          cases event with
          | none =>
              refine ⟨sent, h.sent_prefix, ?_, ?_⟩
              · have hping : (inFlight ++ [Frame.ping]).filterMap Frame.event? =
                    inFlight.filterMap Frame.event? := by
                  rw [List.filterMap_append, List.filterMap_cons_none rfl, List.filterMap_nil,
                    List.append_nil]
                exact h.inFlight.trans (congrArg _ hping.symm)
              · intro iter' hiter'
                cases hiter'
                exact hprogress
          | some event =>
              obtain ⟨entry, hevent, hplace⟩ := hprogress
              rw [List.append_assoc] at hplace
              refine ⟨sent ++ [entry], hplace.read_prefix, ?_, ?_⟩
              · have hframe : decodeFrame codec entry = .ok (eventFrame event) := by
                  rw [decodeFrame, hevent]
                  rfl
                simp [EventConnection.handle, Frame.event?, h.inFlight, hframe]
              · intro iter' hiter'
                -- The generator has returned after a closing event.
                simp only [EventConnection.handle, Bool.false_eq_true, if_false] at hiter'
                split at hiter'
                · cases hiter'
                · cases hiter'
                  exact hplace

theorem ClientInvariant.act (h : ClientInvariant codec request s read)
    (hlog : s.log.Orderly (s.cursor request)) (action : ClientAction) :
    ∃ read, ClientInvariant codec request (s.act codec request action) read := by
  rw [cursor_eq h.received] at hlog
  cases action with
  | log action =>
      refine ⟨read, prefix_entriesAfter_act h.read_prefix action, h.received, ?_⟩
      intro connection hconnection
      obtain ⟨sent, hsent⟩ := h.carries connection hconnection
      exact ⟨sent, hsent.act action⟩
  | connect granted =>
      refine ⟨read, h.read_prefix, h.received, ?_⟩
      intro connection hconnection
      simp only [ClientState.act, streamTaskEvents] at hconnection
      split at hconnection
      · cases hconnection
        have hempty : read ++ [] <+: entriesAfter request.cursor s.log.appended := by
          rw [List.append_nil]
          exact h.read_prefix
        refine ⟨[], hempty, rfl, ?_⟩
        intro iter hiter
        cases hiter
        constructor
        · rw [List.append_nil]
          exact cursor_eq h.received
        · rw [List.append_nil]
          exact hempty
      · cases hconnection
  | next failure disconnected =>
      obtain ⟨log, connection?, received⟩ := s
      match connection? with
      | none => exact ⟨read, h⟩
      | some ⟨none, inFlight⟩ => exact ⟨read, h⟩
      | some ⟨some iter, inFlight⟩ =>
          obtain ⟨sent, hsent⟩ := h.carries _ rfl
          have hplace := hsent.positioned iter rfl
          have hlater : log.Orderly iter.currentId := by
            rw [hplace.current]
            exact hlog.later hsent.sent_prefix
          refine ⟨read, h.read_prefix, h.received, ?_⟩
          intro connection hconnection
          cases hconnection
          exact hsent.handle (step_advances hlater hplace failure) disconnected
  | receive =>
      obtain ⟨log, connection?, received⟩ := s
      match connection? with
      | none => exact ⟨read, h⟩
      | some ⟨iter?, []⟩ => exact ⟨read, h⟩
      | some ⟨iter?, frame :: inFlight⟩ =>
          obtain ⟨sent, hsent⟩ := h.carries _ rfl
          cases hframe : frame.event? with
          | none =>
              refine ⟨read, h.read_prefix, ?_, ?_⟩
              · simpa [ClientState.act, hframe] using h.received
              · intro connection hconnection
                cases hconnection
                have hinFlight := hsent.inFlight
                rw [List.filterMap_cons_none hframe] at hinFlight
                exact ⟨sent, hsent.sent_prefix, hinFlight, hsent.positioned⟩
          | some event =>
              have hinFlight := hsent.inFlight
              rw [List.filterMap_cons_some hframe, List.map_cons] at hinFlight
              obtain ⟨entry, later, rfl, hentry, hlater⟩ := List.map_eq_cons_iff.1 hinFlight
              have hbegin := hsent.sent_prefix
              have hplace := hsent.positioned
              rw [List.append_cons] at hbegin hplace
              refine ⟨read ++ [entry], (List.prefix_append _ _).trans hbegin, ?_, ?_⟩
              · simp [ClientState.act, hframe, h.received, hentry]
              · intro connection hconnection
                cases hconnection
                exact ⟨later, hbegin, hlater, hplace⟩
  | lose =>
      refine ⟨read, h.read_prefix, h.received, ?_⟩
      intro connection hconnection
      cases hconnection

/-- A client whose connection finds nothing more has received everything, or has it in
flight. -/
theorem ClientInvariant.caught_up (h : ClientInvariant codec request s read)
    (hlog : s.log.Orderly (s.cursor request)) (hconnection : s.connection = some connection)
    (hiter : connection.iter = some iter) (hidles : iter.Idles codec s.log) :
    ∃ sent, read ++ sent = entriesAfter request.cursor s.log.appended ∧
      sent.map (decodeFrame codec) = (connection.inFlight.filterMap Frame.event?).map .ok := by
  rw [cursor_eq h.received] at hlog
  obtain ⟨sent, hsent⟩ := h.carries connection hconnection
  have hplace := hsent.positioned iter hiter
  have hlater : s.log.Orderly iter.currentId := by
    rw [hplace.current]
    exact hlog.later hsent.sent_prefix
  exact ⟨sent, hplace.caught_up hlater hidles, hsent.inFlight⟩

theorem ClientRun.invariant (h : ClientRun codec request s) :
    ∃ read, ClientInvariant codec request s read := by
  induction h with
  | initial log =>
      refine ⟨[], List.nil_prefix, rfl, ?_⟩
      intro connection hconnection
      cases hconnection
  | step _ hlog action ih =>
      obtain ⟨read, hread⟩ := ih
      exact hread.act hlog action

end

/-- The items are what the first entries after the cursor are decoded to, in their order. -/
def Delivers {β : Type} (decode : StreamEntry → Except Exn β) (cursor : String)
    (stream : List StreamEntry) (items : List β) : Prop :=
  ∃ read, read <+: entriesAfter cursor stream ∧ read.map decode = items.map .ok

/-- The items are what all entries after the cursor are decoded to. -/
def DeliversAll {β : Type} (decode : StreamEntry → Except Exn β) (cursor : String)
    (stream : List StreamEntry) (items : List β) : Prop :=
  (entriesAfter cursor stream).map decode = items.map .ok

/-- All entries are after `0-0`. -/
theorem entriesAfter_zero {stream : List StreamEntry} (h : ∀ entry ∈ stream, .zero < entry.id) :
    entriesAfter "0-0" stream = stream := by
  have hread : StreamId.read "0-0" = some .zero := by decide
  rw [entriesAfter_of_read hread]
  apply List.filter_eq_self.2
  intro entry hentry
  exact decide_eq_true (h entry hentry)

/-- Whatever is appended and cut off between the commands, if the ids increase and nothing
after the cursor is gone: `iter_events` yields the first entries after its cursor, and the
client receives, over all its connections, the first entries after the cursor of its first
request; of the whole stream, if that gave none. All of them are yielded before a poll is
answered nothing, and received or in flight when the poll of a connection is. -/
theorem event_replay (codec : EventCodec) (afterId : String) (request : EventRequest)
    {s : IterState} {client : ClientState} (hs : IterRun codec afterId s)
    (hclient : ClientRun codec request client) :
    Delivers (decodeEvent codec) afterId s.log.appended (s.yielded.filterMap id) ∧
      (∀ iter, s.iter = some iter → s.log.Orderly iter.currentId → iter.Idles codec s.log →
        DeliversAll (decodeEvent codec) afterId s.log.appended (s.yielded.filterMap id)) ∧
      Delivers (decodeFrame codec) request.cursor client.log.appended client.received ∧
      (∀ iter inFlight, client.connection = some ⟨some iter, inFlight⟩ →
        client.log.Orderly (client.cursor request) → iter.Idles codec client.log →
          DeliversAll (decodeFrame codec) request.cursor client.log.appended
            (client.received ++ inFlight.filterMap Frame.event?)) ∧
      (request.cursor = "0-0" → (∀ entry ∈ client.log.appended, .zero < entry.id) →
        entriesAfter request.cursor client.log.appended = client.log.appended) := by
  obtain ⟨read, hread⟩ := hs.invariant
  obtain ⟨received, hreceived⟩ := hclient.invariant
  refine ⟨⟨read, hread.read_prefix, hread.yielded⟩, ?_,
    ⟨received, hreceived.read_prefix, hreceived.received⟩, ?_, ?_⟩
  · intro iter hiter hlog hidles
    rw [DeliversAll, ← (hread.positioned iter hiter).caught_up hlog hidles]
    exact hread.yielded
  · intro iter inFlight hconnection hlog hidles
    obtain ⟨sent, hall, hsent⟩ := hreceived.caught_up hlog hconnection rfl hidles
    rw [DeliversAll, ← hall, List.map_append, List.map_append, hreceived.received, hsent]
  · intro hcursor hpositive
    rw [hcursor]
    exact entriesAfter_zero hpositive

/-! ## A client that comes back -/

/-- Nothing is gone before any of the actions, and the ids increase. -/
def ClientState.untrimmed (codec : EventCodec) (request : EventRequest) (s : ClientState) :
    List ClientAction → Bool
  | [] => true
  | action :: rest =>
      decide (s.log.trimmed = 0) && decide (Increasing StreamEntry.id s.log.appended) &&
        untrimmed codec request (s.act codec request action) rest

theorem ClientRun.foldl {codec : EventCodec} {request : EventRequest} {s : ClientState}
    (h : ClientRun codec request s) {actions : List ClientAction}
    (hactions : s.untrimmed codec request actions = true) :
    ClientRun codec request (actions.foldl (ClientState.act codec request) s) := by
  induction actions generalizing s with
  | nil => exact h
  | cons action rest ih =>
      simp only [ClientState.untrimmed, Bool.and_eq_true, decide_eq_true_eq] at hactions
      obtain ⟨⟨htrimmed, hincreasing⟩, hrest⟩ := hactions
      refine ih (h.step ⟨hincreasing, ?_⟩ action) hrest
      intro id _ entry hentry
      rw [htrimmed] at hentry
      cases hentry

def demoEventCodec : EventCodec where
  loads _ := .ok (.obj [])
  int text := if text = "1" then .ok 1 else .error (.valueError "invalid literal for int()")
  decimal := Char.isDigit

def demoEntry (id : StreamId) (eventType : String) : StreamEntry :=
  ⟨id, [("event_type", eventType), ("sequence_number", "1"), ("payload", "\x7b\x7d")]⟩

/-- A connection to the first event, which closes it, and one that is answered nothing, then
the event that is appended meanwhile, then nothing. -/
def demoActions : List ClientAction :=
  [.connect true, .next none false, .next none false, .receive, .receive,
    .connect true, .next none false, .next none false, .next none false,
    .log (.append (demoEntry .last "task.started")), .next none false, .next none false,
    .receive, .receive, .receive, .next none false]

def demoReplay : ClientState :=
  demoActions.foldl (ClientState.act demoEventCodec ⟨none, none⟩)
    ⟨⟨[demoEntry .first "task.awaiting_input"], 0⟩, none, []⟩

theorem event_replay_demo :
    demoReplay.received.map EventFrame.event = ["task.awaiting_input", "task.started"] ∧
      Delivers (decodeFrame demoEventCodec) "0-0" demoReplay.log.appended demoReplay.received ∧
      DeliversAll (decodeFrame demoEventCodec) "0-0" demoReplay.log.appended
        demoReplay.received := by
  have hclient : ClientRun demoEventCodec ⟨none, none⟩ demoReplay :=
    (ClientRun.initial _).foldl (by decide)
  obtain ⟨-, -, hreceived, hall, -⟩ :=
    event_replay demoEventCodec "0-0" ⟨none, none⟩ (.initial ⟨[], 0⟩) hclient
  refine ⟨by decide, hreceived, ?_⟩
  have horderly : demoReplay.log.Orderly (demoReplay.cursor ⟨none, none⟩) :=
    ⟨by decide, fun _ _ entry hentry => by cases hentry⟩
  have hlast := hall ⟨StreamId.last.text, .poll⟩ [] rfl horderly ⟨none, _, rfl⟩
  rwa [List.filterMap_nil, List.append_nil] at hlast

end CommerceAgent
