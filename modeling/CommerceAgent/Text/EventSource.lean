import Mathlib.Data.Bool.AllAny
import Mathlib.Data.List.Infix
import Mathlib.Data.List.TakeWhile
import Mathlib.Data.Nat.Notation

/-!
# The client of an event stream

What a client does with the characters of a `text/event-stream`, one after the other: a
line sets a field of the event that is being read, and an empty line dispatches it. Lines
end with a line feed, a carriage return, or both.

A block is a sequence of lines with an empty one behind it. A client that receives blocks
dispatches at their ends only: what is cut off before its end dispatches nothing.
-/

namespace Text

/-- An event as the client sees it. -/
structure Dispatched where
  lastEventId : List Char
  eventType : List Char
  data : List Char
  deriving DecidableEq

/-- The client of an event stream: the unfinished line, the buffers of the unfinished event,
and the events dispatched so far. -/
structure EventSource where
  line : List Char
  afterReturn : Bool
  data : List Char
  eventType : List Char
  lastEventId : List Char
  retry : Option ℕ
  dispatched : List Dispatched

namespace EventSource

/-- A client that opens a connection after it has got the event `lastEventId`. -/
def opened (lastEventId : List Char) : EventSource := ⟨[], false, [], [], lastEventId, none, []⟩

/-- A new connection of the client, after the last event that it has got. -/
def reopened (c : EventSource) : EventSource :=
  { opened ((c.dispatched.getLast?.map Dispatched.lastEventId).getD []) with
    retry := c.retry, dispatched := c.dispatched }

def setLine (c : EventSource) (line : List Char) : EventSource := { c with line }

/-- One field of the event that is being read. -/
def setField (c : EventSource) (name value : List Char) : EventSource :=
  if name = ['e', 'v', 'e', 'n', 't'] then { c with eventType := value }
  else if name = ['d', 'a', 't', 'a'] then { c with data := c.data ++ (value ++ ['\n']) }
  else if name = ['i', 'd'] then if '\x00' ∈ value then c else { c with lastEventId := value }
  else if name = ['r', 'e', 't', 'r', 'y'] then
    if value ≠ [] ∧ value.all Char.isDigit then
      { c with retry := some (Nat.ofDigitChars 10 value 0) }
    else c
  else c

/-- The value of a field behind its colon, without a blank in front. -/
def fieldValue (rest : List Char) : List Char :=
  match rest with
  | [] => []
  | _ :: value => if value.head? = some ' ' then value.tail else value

/-- A line that is not empty. -/
def readField (c : EventSource) (line : List Char) : EventSource :=
  c.setField (line.takeWhile (· != ':')) (fieldValue (line.dropWhile (· != ':')))

/-- An empty line. -/
def dispatch (c : EventSource) : EventSource :=
  if c.data = [] then { c with eventType := [] }
  else
    { c with
      data := []
      eventType := []
      dispatched := c.dispatched ++ [⟨c.lastEventId,
        if c.eventType = [] then ['m', 'e', 's', 's', 'a', 'g', 'e'] else c.eventType,
        c.data.dropLast⟩] }

def endLine (c : EventSource) : EventSource :=
  if c.line = [] then c.dispatch else (c.readField c.line).setLine []

/-- The next character of the stream. -/
def feed (c : EventSource) (char : Char) : EventSource :=
  if char = '\n' then if c.afterReturn then { c with afterReturn := false } else c.endLine
  else if char = '\r' then { c.endLine with afterReturn := true }
  else { c.setLine (c.line ++ [char]) with afterReturn := false }

def receive (c : EventSource) (text : List Char) : EventSource := text.foldl feed c

/-- A line without an end of line in it, and not empty. -/
def IsLine (line : List Char) : Prop := line ≠ [] ∧ ∀ char ∈ line, char ≠ '\n' ∧ char ≠ '\r'

instance (line : List Char) : Decidable (IsLine line) :=
  decidable_of_iff (line ≠ [] ∧ line.all (fun char => char ≠ '\n' ∧ char ≠ '\r') = true)
    (and_congr_right fun _ => List.all_iff_forall_prop)

/-- Lines as they are sent. -/
def ended (lines : List (List Char)) : List Char := lines.flatMap fun line => line ++ ['\n']

/-- The lines of an event, with an empty line behind them. -/
def block (lines : List (List Char)) : List Char := ended lines ++ ['\n']

/-- What the lines of an event do. -/
def readFields (c : EventSource) (lines : List (List Char)) : EventSource := lines.foldl readField c

/-- The client is at the beginning of a line. -/
structure AtLine (c : EventSource) : Prop where
  line : c.line = []
  afterReturn : c.afterReturn = false

section

variable {c : EventSource} {line text : List Char} {lines : List (List Char)}

theorem receive_append (c : EventSource) (text text' : List Char) :
    c.receive (text ++ text') = (c.receive text).receive text' := List.foldl_append

/-- The characters of a line are collected. -/
theorem receive_chars (hc : c.afterReturn = false)
    (htext : ∀ char ∈ text, char ≠ '\n' ∧ char ≠ '\r') :
    c.receive text = c.setLine (c.line ++ text) := by
  induction text generalizing c with
  | nil => simp [receive, setLine]
  | cons char text ih =>
      have hchar := htext char List.mem_cons_self
      have hfeed : c.feed char = c.setLine (c.line ++ [char]) := by
        rw [feed, if_neg hchar.1, if_neg hchar.2, ← hc]
        rfl
      have hrest := ih (c := c.setLine (c.line ++ [char])) hc fun d hd =>
        htext d (List.mem_cons_of_mem _ hd)
      change (c.feed char).receive text = _
      rw [hfeed, hrest]
      simp [setLine]

theorem readField_rest (c : EventSource) (line : List Char) :
    (c.readField line).line = c.line ∧ (c.readField line).afterReturn = c.afterReturn ∧
      (c.readField line).dispatched = c.dispatched := by
  unfold readField setField
  split_ifs <;> exact ⟨rfl, rfl, rfl⟩

theorem AtLine.readField (h : c.AtLine) (line : List Char) : (c.readField line).AtLine where
  line := (readField_rest c line).1.trans h.line
  afterReturn := (readField_rest c line).2.1.trans h.afterReturn

theorem AtLine.readFields (h : c.AtLine) (lines : List (List Char)) :
    (c.readFields lines).AtLine := by
  induction lines generalizing c with
  | nil => exact h
  | cons line lines ih => exact ih (h.readField line)

theorem dispatched_readFields (c : EventSource) (lines : List (List Char)) :
    (c.readFields lines).dispatched = c.dispatched := by
  induction lines generalizing c with
  | nil => rfl
  | cons line lines ih => exact (ih (c.readField line)).trans (readField_rest c line).2.2

/-- The field of a line is set regardless of the line buffer. -/
theorem readField_setLine (h : c.line = []) (buffer line : List Char) :
    ((c.setLine buffer).readField line).setLine [] = c.readField line := by
  have hsame : ((c.setLine buffer).readField line).setLine [] = (c.readField line).setLine [] := by
    unfold EventSource.readField setField
    split_ifs <;> rfl
  rw [hsame, setLine, ← h, ← (readField_rest c line).1]

theorem receive_line (h : c.AtLine) (hline : IsLine line) :
    c.receive (line ++ ['\n']) = c.readField line := by
  rw [receive_append, receive_chars h.afterReturn hline.2, h.line, List.nil_append]
  change (c.setLine line).feed '\n' = _
  have hreturn : (c.setLine line).afterReturn = false := h.afterReturn
  have hbuffer : (c.setLine line).line = line := rfl
  rw [feed, if_pos rfl, hreturn, if_neg Bool.false_ne_true, endLine, hbuffer, if_neg hline.1,
    readField_setLine h.line]

theorem receive_ended (h : c.AtLine) (hlines : ∀ line ∈ lines, IsLine line) :
    c.receive (ended lines) = c.readFields lines := by
  induction lines generalizing c with
  | nil => rfl
  | cons line lines ih =>
      rw [ended, List.flatMap_cons, receive_append, receive_line h (hlines line List.mem_cons_self)]
      exact ih (h.readField line) fun l hl => hlines l (List.mem_cons_of_mem _ hl)

/-- A block sets the fields of its lines and dispatches. -/
theorem receive_block (h : c.AtLine) (hlines : ∀ line ∈ lines, IsLine line) :
    c.receive (block lines) = (c.readFields lines).dispatch := by
  have hafter := h.readFields lines
  rw [block, receive_append, receive_ended h hlines]
  change (c.readFields lines).feed '\n' = _
  rw [feed, if_pos rfl, hafter.afterReturn, endLine, if_pos hafter.line]
  rfl

theorem AtLine.dispatch (h : c.AtLine) : c.dispatch.AtLine := by
  unfold EventSource.dispatch
  split <;> exact ⟨h.line, h.afterReturn⟩

/-- Nothing is dispatched before the end of a block. -/
theorem dispatched_of_prefix (h : c.AtLine) (hlines : ∀ line ∈ lines, IsLine line)
    (htext : text <+: ended lines) : (c.receive text).dispatched = c.dispatched := by
  induction lines generalizing c text with
  | nil =>
      rw [List.prefix_nil.1 htext]
      rfl
  | cons line lines ih =>
      have hline := hlines line List.mem_cons_self
      rw [ended, List.flatMap_cons] at htext
      rcases List.prefix_or_prefix_of_prefix htext (List.prefix_append _ _) with hshort | hlong
      · rcases List.prefix_concat_iff.1 hshort with rfl | hshort
        · rw [receive_line h hline]
          exact (readField_rest c line).2.2
        · rw [receive_chars h.afterReturn fun char hchar => hline.2 char (hshort.subset hchar)]
          rfl
      · obtain ⟨rest, rfl⟩ := hlong
        rw [receive_append, receive_line h hline, ih (h.readField line)
          (fun l hl => hlines l (List.mem_cons_of_mem _ hl))
          ((List.prefix_append_right_inj _).1 htext)]
        exact (readField_rest c line).2.2

/-- The client is between two events. -/
structure Idle (c : EventSource) : Prop extends AtLine c where
  data : c.data = []
  eventType : c.eventType = []

theorem AtLine.idle_dispatch (h : c.AtLine) : c.dispatch.Idle := by
  unfold EventSource.dispatch
  split
  · next hdata => exact ⟨⟨h.line, h.afterReturn⟩, hdata, rfl⟩
  · exact ⟨⟨h.line, h.afterReturn⟩, rfl, rfl⟩

/-- A part of a block dispatches nothing. -/
theorem dispatched_of_part (h : c.AtLine) (hlines : ∀ line ∈ lines, IsLine line)
    (htext : text <+: block lines) (hpart : text ≠ block lines) :
    (c.receive text).dispatched = c.dispatched := by
  rcases List.prefix_concat_iff.1 htext with rfl | htext
  · exact absurd rfl hpart
  · exact dispatched_of_prefix h hlines htext

end

end EventSource

end Text
