import CommerceAgent.Effects.Machine
import CommerceAgent.Tasks.EventStream
import Std.Data.String.ToInt

/-!
# The numbers of events

`append_event` draws the number of its event by an `INCR` and adds the entry by an `XADD`
afterwards. Any number of calls run at once, also of one task, as the tools of one turn do.
Each entry is recorded with the call that has added it, and the calls that have drawn a
number with their order, so that it can be said which call was overtaken.
-/

namespace CommerceAgent

open Effects

/-- An entry of the stream, with the call that has added it. -/
structure NumberedEntry where
  writer : ℕ
  entry : StreamEntry

/-- The counters and the streams, and who has drawn from each counter, in this order. -/
structure EventStore where
  counters : String → ℕ
  streams : String → List NumberedEntry
  draws : String → List ℕ

inductive EventCall where
  | incr (key : String)
  | xadd (key : String) (data : List (String × String))
  | expire (eventKey sequenceKey : String)

abbrev EventCall.Reply : EventCall → Type
  | .incr _ => ℕ
  | .xadd .. => StreamId
  | .expire .. => Unit

/-- How a command ends, the id of an added entry, and how many entries `MAXLEN` cuts off. -/
structure EventChoice where
  ending : Ending Exn
  entryId : StreamId := .zero
  trimmed : ℕ := 0

/-- What a command does for the call `i`. -/
def EventCall.execute (i : ℕ) (choice : EventChoice) (s : EventStore) :
    (c : EventCall) → c.Reply × EventStore
  | .incr key =>
      (s.counters key + 1,
        { s with
          counters := Function.update s.counters key (s.counters key + 1)
          draws := Function.update s.draws key (s.draws key ++ [i]) })
  | .xadd key data =>
      (choice.entryId,
        { s with
          streams := Function.update s.streams key
            ((s.streams key).drop choice.trimmed ++ [⟨i, choice.entryId, data⟩]) })
  | .expire .. => ((), s)

abbrev EventProgram := Program Exn EventCall EventCall.Reply

abbrev EventCall.perform (c : EventCall) : EventProgram c.Reply := Program.perform c

def sequenceKey (taskId : String) : String := "e-commerce-agent:v1:task:" ++ taskId ++ ":sequence"

def eventKey (taskId : String) : String := "e-commerce-agent:v1:task:" ++ taskId ++ ":events"

/-- A call of `append_event`; the payload is the enriched one. -/
structure AppendRequest where
  taskId : String
  eventType : String
  payload : JsonObject

/-- The fields of an entry that `append_event` adds. -/
def entryData (dumps : JsonObject → String) (q : AppendRequest) (sequence : ℕ) :
    List (String × String) :=
  [("event_type", q.eventType), ("sequence_number", Nat.repr sequence),
    ("payload", dumps q.payload)]

/-- `append_event` after its `INCR`. -/
def addEntry (dumps : JsonObject → String) (q : AppendRequest) (sequence : ℕ) :
    EventProgram StreamEvent := do
  let eventId ← (EventCall.xadd (eventKey q.taskId) (entryData dumps q sequence)).perform
  (EventCall.expire (eventKey q.taskId) (sequenceKey q.taskId)).perform
  return ⟨eventId.text, q.eventType, sequence, q.payload⟩

/-- `append_event`. -/
def appendEvent (dumps : JsonObject → String) (q : AppendRequest) : EventProgram StreamEvent := do
  let sequence ← (EventCall.incr (sequenceKey q.taskId)).perform
  addEntry dumps q sequence

def eventMachine (dumps : JsonObject → String) :
    Machine Exn EventCall EventCall.Reply EventStore EventChoice AppendRequest StreamEvent
      Empty where
  program _ q := appendEvent dumps q
  answer i c choice s := some (choice.ending.answer (.ok (c.execute i choice s)) s)
  accept _ _ s := some s
  halt _ s := s
  environment e := e.elim

abbrev EventConfig := Config Exn EventCall EventCall.Reply EventStore AppendRequest StreamEvent

abbrev EventAction := Action EventChoice AppendRequest Empty

/-- Redis without any of the keys. -/
def EventStore.empty : EventStore := ⟨fun _ => 0, fun _ => [], fun _ => []⟩

/-- `int(fields["sequence_number"])`. -/
def NumberedEntry.sequenceNumber (entry : NumberedEntry) : Option ℤ :=
  (entry.entry.fields.lookup "sequence_number").bind String.toInt?

/-- The numbers of the entries increase. -/
def Numbered (stream : List NumberedEntry) : Prop :=
  ∃ numbers : List ℤ, stream.map NumberedEntry.sequenceNumber = numbers.map some ∧
    numbers.Pairwise fun m n => m < n

/-- The call `i` has drawn its number before `j`. -/
def EventStore.DrewBefore (s : EventStore) (key : String) (i j : ℕ) : Prop :=
  ∃ a b : ℕ, a < b ∧ (s.draws key)[a]? = some i ∧ (s.draws key)[b]? = some j

/-- The step is an `XADD` behind an entry of a call that has drawn its number later. -/
def Overtaken (v : EventConfig × EventAction) : Prop :=
  ∃ i choice q key data k, v.2 = .call i choice ∧
    v.1.pool i = .running q (.call (.xadd key data) k) ∧ choice.ending.effective = true ∧
    ∃ entry ∈ (v.1.state.streams key).drop choice.trimmed,
      v.1.state.DrewBefore (sequenceKey q.taskId) i entry.writer

theorem eventKey_injective : Function.Injective eventKey := by
  intro taskId other h
  exact (String.append_right_inj _).1 ((String.append_left_inj _).1 h)

section

variable {stream : List NumberedEntry} {e : NumberedEntry}

/-- An entry at the end needs a number above all others. -/
theorem numbered_append_singleton_iff :
    Numbered (stream ++ [e]) ↔ Numbered stream ∧ ∃ n, e.sequenceNumber = some n ∧
      ∀ other ∈ stream, ∀ m, other.sequenceNumber = some m → m < n := by
  constructor
  · rintro ⟨numbers, hnumbers, hpairwise⟩
    rw [List.map_append] at hnumbers
    obtain ⟨front, last, rfl, hfront, hlast⟩ := List.map_eq_append_iff.1 hnumbers.symm
    obtain ⟨n, rfl, hn⟩ := List.map_eq_singleton_iff.1 hlast
    obtain ⟨hincreasing, -, hbelow⟩ := List.pairwise_append.1 hpairwise
    refine ⟨⟨front, hfront.symm, hincreasing⟩, n, hn.symm, ?_⟩
    intro other hother m hm
    have hmem : some m ∈ front.map some := by
      rw [hfront, ← hm]
      exact List.mem_map_of_mem hother
    obtain ⟨m', hm', heq⟩ := List.mem_map.1 hmem
    cases heq
    exact hbelow m hm' n (List.mem_singleton_self n)
  · rintro ⟨⟨numbers, hnumbers, hpairwise⟩, n, hn, hbelow⟩
    refine ⟨numbers ++ [n], by simp [hnumbers, hn], ?_⟩
    apply List.pairwise_append.2
    refine ⟨hpairwise, List.pairwise_singleton _ _, ?_⟩
    intro m hm n' hn'
    rw [List.mem_singleton.1 hn']
    have hmem : some m ∈ stream.map NumberedEntry.sequenceNumber := by
      rw [hnumbers]
      exact List.mem_map_of_mem hm
    obtain ⟨other, hother, heq⟩ := List.mem_map.1 hmem
    exact hbelow other hother m heq

theorem Numbered.drop (h : Numbered stream) (k : ℕ) : Numbered (stream.drop k) := by
  obtain ⟨numbers, hnumbers, hpairwise⟩ := h
  refine ⟨numbers.drop k, ?_, hpairwise.sublist (List.drop_sublist k numbers)⟩
  rw [List.map_drop, hnumbers, List.map_drop]

end

theorem getElem?_append_of_some {α : Type} {xs : List α} {n : ℕ} {x : α} (h : xs[n]? = some x)
    (ys : List α) : (xs ++ ys)[n]? = some x := by
  rw [List.getElem?_append_left (List.getElem?_eq_some_iff.1 h).1]
  exact h

/-- Where a call of `append_event` is: before its `INCR`; with the number that it has drawn,
and no entry yet; or done with the stream. -/
def AppendStage (dumps : JsonObject → String) (i : ℕ) (q : AppendRequest) (s : EventStore)
    (p : EventProgram StreamEvent) : Prop :=
  (p = appendEvent dumps q ∧ ∀ key, i ∉ s.draws key) ∨
  (∃ n, p = addEntry dumps q (n + 1) ∧ (s.draws (sequenceKey q.taskId))[n]? = some i ∧
    ∀ e ∈ s.streams (eventKey q.taskId), e.writer ≠ i) ∨
  p.Only (fun c => ∃ eventKey sequenceKey, c = .expire eventKey sequenceKey) fun _ => True

/-- The counters count the draws, each call draws once, and an entry has the number that its
call has drawn. -/
structure Numbering (dumps : JsonObject → String) (c : EventConfig) : Prop where
  counter : ∀ key, c.state.counters key = (c.state.draws key).length
  once : ∀ key, (c.state.draws key).Nodup
  entry : ∀ taskId, ∀ e ∈ c.state.streams (eventKey taskId), ∃ n : ℕ,
    e.sequenceNumber = some (n + 1 : ℕ) ∧ (c.state.draws (sequenceKey taskId))[n]? = some e.writer
  unused : ∀ i, c.pool i = .unused → ∀ key, i ∉ c.state.draws key
  stage : ∀ i q p, c.pool i = .running q p → AppendStage dumps i q c.state p

/-- What the commands of other calls do to the state that the call `i` sees. -/
structure EventStore.Later (i : ℕ) (s s' : EventStore) : Prop where
  draws : ∀ key, ∃ more, s'.draws key = s.draws key ++ more ∧ i ∉ more
  streams : ∀ key, ∀ e ∈ s'.streams key, e ∈ s.streams key ∨ e.writer ≠ i

section

variable {dumps : JsonObject → String} {i j : ℕ} {q : AppendRequest} {s s' : EventStore}
  {p : EventProgram StreamEvent} {c c' : EventConfig}

theorem EventStore.Later.refl (i : ℕ) (s : EventStore) : s.Later i s where
  draws key := ⟨[], by simp, by simp⟩
  streams key e he := .inl he

theorem later_execute (hij : i ≠ j) (choice : EventChoice) (s : EventStore) (command : EventCall) :
    s.Later i (command.execute j choice s).2 := by
  cases command with
  | incr key =>
      constructor
      · intro key'
        by_cases hkey : key' = key
        · subst hkey
          exact ⟨[j], by simp [EventCall.execute], by simpa using hij⟩
        · exact ⟨[], by simp [EventCall.execute, Function.update_of_ne hkey], by simp⟩
      · exact fun _ _ he => .inl he
  | xadd key data =>
      constructor
      · exact fun _ => ⟨[], by simp [EventCall.execute], by simp⟩
      · intro key' e he
        by_cases hkey : key' = key
        · subst hkey
          simp only [EventCall.execute, Function.update_self] at he
          rcases List.mem_append.1 he with he | he
          · exact .inl (List.mem_of_mem_drop he)
          · rw [List.mem_singleton.1 he]
            exact .inr hij.symm
        · simp only [EventCall.execute, Function.update_of_ne hkey] at he
          exact .inl he
  | expire eventKey sequenceKey => exact .refl i s

theorem AppendStage.later (h : AppendStage dumps i q s p) (hlater : s.Later i s') :
    AppendStage dumps i q s' p := by
  rcases h with ⟨hp, hfresh⟩ | ⟨n, hp, hdrawn, hwriter⟩ | honly
  · refine .inl ⟨hp, ?_⟩
    intro key hmem
    obtain ⟨more, hmore, hnot⟩ := hlater.draws key
    rw [hmore] at hmem
    rcases List.mem_append.1 hmem with hmem | hmem
    · exact hfresh key hmem
    · exact hnot hmem
  · refine .inr (.inl ⟨n, hp, ?_, ?_⟩)
    · obtain ⟨more, hmore, -⟩ := hlater.draws (sequenceKey q.taskId)
      rw [hmore]
      exact getElem?_append_of_some hdrawn more
    · intro e he
      rcases hlater.streams _ e he with he | hne
      · exact hwriter e he
      · exact hne
  · exact .inr (.inr honly)

/-- The state after a command is that of its execution or the one before. -/
theorem state_of_answer {choice : EventChoice} {command : EventCall}
    {r : Except Exn command.Reply}
    (h : (eventMachine dumps).answer i command choice s = some (r, s')) :
    s' = if choice.ending.effective then (command.execute i choice s).2 else s := by
  have hanswer := Option.some.inj h
  rw [← choice.ending.answer_of_ok (command.execute i choice s).1 s]
  exact (congrArg Prod.snd hanswer).symm

/-- What a command of the call `j` leaves to the others. -/
theorem later_answer {choice : EventChoice} {command : EventCall} {r : Except Exn command.Reply}
    (hij : i ≠ j) (h : (eventMachine dumps).answer j command choice s = some (r, s')) :
    s.Later i s' := by
  rw [state_of_answer h]
  split
  · exact later_execute hij choice s command
  · exact .refl i s

/-- A step of the call `i`: the others keep their stages. -/
theorem Numbering.update (h : Numbering dumps c) (hslot : c.pool i = .running q p)
    {p' : EventProgram StreamEvent} (hlater : ∀ j, j ≠ i → c.state.Later j s)
    (hcounter : ∀ key, s.counters key = (s.draws key).length) (honce : ∀ key, (s.draws key).Nodup)
    (hentry : ∀ taskId, ∀ e ∈ s.streams (eventKey taskId), ∃ n : ℕ,
      e.sequenceNumber = some (n + 1 : ℕ) ∧ (s.draws (sequenceKey taskId))[n]? = some e.writer)
    (hstage : AppendStage dumps i q s p') :
    Numbering dumps ⟨Function.update c.pool i (.running q p'), s⟩ where
  counter := hcounter
  once := honce
  entry := hentry
  unused j hj key hmem := by
    by_cases hij : j = i
    · subst hij
      simp at hj
    · simp only [Function.update_of_ne hij] at hj
      obtain ⟨more, hmore, hnot⟩ := (hlater j hij).draws key
      rw [hmore] at hmem
      rcases List.mem_append.1 hmem with hmem | hmem
      · exact h.unused j hj key hmem
      · exact hnot hmem
  stage j q' p'' hj := by
    by_cases hij : j = i
    · subst hij
      simp only [Function.update_self] at hj
      cases hj
      exact hstage
    · simp only [Function.update_of_ne hij] at hj
      exact (h.stage j q' p'' hj).later (hlater j hij)

/-- The `INCR` of a call. -/
theorem Numbering.incr (h : Numbering dumps c) (hslot : c.pool i = .running q p)
    (hfresh : ∀ key, i ∉ c.state.draws key) {choice : EventChoice} {r : Except Exn ℕ}
    (hanswer : (eventMachine dumps).answer i (.incr (sequenceKey q.taskId)) choice c.state =
      some (r, s)) :
    Numbering dumps ⟨Function.update c.pool i
      (.running q ((Program.ofExcept r).handle (addEntry dumps q) .throw)), s⟩ := by
  have hlater : ∀ j, j ≠ i → c.state.Later j s := fun j hij => later_answer hij hanswer
  have hstate := state_of_answer hanswer
  have hstage : AppendStage dumps i q s
      ((Program.ofExcept r).handle (addEntry dumps q) .throw) := by
    cases r with
    | error exc => exact .inr (.inr trivial)
    | ok n =>
        have hok := Ending.answer_ok (Option.some.inj hanswer)
        cases hok
        refine .inr (.inl ⟨(c.state.draws (sequenceKey q.taskId)).length, ?_, ?_, ?_⟩)
        · rw [← h.counter]
          rfl
        · simp
        · rintro e he rfl
          obtain ⟨n, -, hdrawn⟩ := h.entry q.taskId e he
          exact hfresh _ (List.mem_of_getElem? hdrawn)
  cases heffective : choice.ending.effective with
  | false =>
      rw [heffective] at hstate
      subst hstate
      exact h.update hslot hlater h.counter h.once h.entry hstage
  | true =>
      rw [heffective] at hstate
      subst hstate
      apply h.update hslot hlater
      · intro key
        by_cases hkey : key = sequenceKey q.taskId
        · subst hkey
          simp [EventCall.execute, h.counter]
        · simp [EventCall.execute, Function.update_of_ne hkey, h.counter]
      · intro key
        by_cases hkey : key = sequenceKey q.taskId
        · subst hkey
          simpa [EventCall.execute, List.nodup_append] using
            ⟨h.once _, fun j hj hji => hfresh _ (hji ▸ hj)⟩
        · simpa [EventCall.execute, Function.update_of_ne hkey] using h.once key
      · intro taskId e he
        obtain ⟨n, hnumber, hdrawn⟩ := h.entry taskId e he
        refine ⟨n, hnumber, ?_⟩
        by_cases hkey : sequenceKey taskId = sequenceKey q.taskId
        · rw [hkey] at hdrawn
          simp only [if_true, EventCall.execute, hkey, Function.update_self]
          exact getElem?_append_of_some hdrawn _
        · simpa only [if_true, EventCall.execute, Function.update_of_ne hkey] using hdrawn
      · exact hstage

theorem sequenceNumber_entryData (i : ℕ) (entryId : StreamId) (n : ℕ) :
    NumberedEntry.sequenceNumber ⟨i, entryId, entryData dumps q n⟩ = some (n : ℤ) := by
  have hlookup : (entryData dumps q n).lookup "sequence_number" = some (Nat.repr n) := rfl
  rw [NumberedEntry.sequenceNumber, hlookup]
  simp

/-- The `XADD` of a call. -/
theorem Numbering.xadd (h : Numbering dumps c) (hslot : c.pool i = .running q p) {n : ℕ}
    (hdrawn : (c.state.draws (sequenceKey q.taskId))[n]? = some i) {choice : EventChoice}
    {r : Except Exn StreamId} {p' : EventProgram StreamEvent}
    (hanswer : (eventMachine dumps).answer i
      (.xadd (eventKey q.taskId) (entryData dumps q (n + 1))) choice c.state = some (r, s))
    (honly : p'.Only (fun c => ∃ eventKey sequenceKey, c = .expire eventKey sequenceKey)
      fun _ => True) :
    Numbering dumps ⟨Function.update c.pool i (.running q p'), s⟩ := by
  have hlater : ∀ j, j ≠ i → c.state.Later j s := fun j hij => later_answer hij hanswer
  have hstate := state_of_answer hanswer
  cases heffective : choice.ending.effective with
  | false =>
      rw [heffective] at hstate
      subst hstate
      exact h.update hslot hlater h.counter h.once h.entry (.inr (.inr honly))
  | true =>
      rw [heffective] at hstate
      subst hstate
      apply h.update hslot hlater h.counter h.once _ (.inr (.inr honly))
      intro taskId e he
      by_cases htask : taskId = q.taskId
      · subst htask
        simp only [if_true, EventCall.execute, Function.update_self] at he
        rcases List.mem_append.1 he with he | he
        · exact h.entry q.taskId e (List.mem_of_mem_drop he)
        · rw [List.mem_singleton.1 he]
          exact ⟨n, sequenceNumber_entryData i choice.entryId (n + 1), hdrawn⟩
      · have hkey : eventKey taskId ≠ eventKey q.taskId := fun heq => htask (eventKey_injective heq)
        simp only [if_true, EventCall.execute, Function.update_of_ne hkey] at he
        exact h.entry taskId e he

/-- What follows the `XADD` adds no entry. -/
theorem only_after_xadd (r : Except Exn StreamId) {sequence : ℕ} :
    ((Program.ofExcept r).handle (fun eventId : StreamId =>
      ((EventCall.expire (eventKey q.taskId) (sequenceKey q.taskId)).perform).handle
        (fun _ => .pure (⟨eventId.text, q.eventType, sequence, q.payload⟩ : StreamEvent))
        .throw) .throw : EventProgram StreamEvent).Only
      (fun c => ∃ eventKey sequenceKey, c = .expire eventKey sequenceKey) fun _ => True := by
  cases r with
  | error exc => trivial
  | ok eventId =>
      refine ⟨⟨_, _, rfl⟩, ?_⟩
      intro r
      cases r <;> trivial

theorem Numbering.step (h : Numbering dumps c) {a : EventAction}
    (hstep : (eventMachine dumps).step a c = some c') : Numbering dumps c' := by
  cases a with
  | call i choice =>
      obtain ⟨q, command, k, r, s, hslot, hanswer, rfl⟩ := (eventMachine dumps).step_call hstep
      rcases h.stage i q _ hslot with ⟨hp, hfresh⟩ | ⟨n, hp, hdrawn, -⟩ | honly
      · have hincr : Program.call command k = Program.call (.incr (sequenceKey q.taskId))
          fun r => (Program.ofExcept r).handle (addEntry dumps q) .throw := hp
        cases hincr
        exact h.incr hslot hfresh hanswer
      · have hxadd : Program.call command k = Program.call
          (.xadd (eventKey q.taskId) (entryData dumps q (n + 1)))
          fun r => (Program.ofExcept r).handle _ .throw := hp
        cases hxadd
        exact h.xadd hslot hdrawn hanswer (only_after_xadd r)
      · obtain ⟨⟨eventKey, sequenceKey, rfl⟩, hrest⟩ := honly
        have hstate := state_of_answer hanswer
        obtain rfl : s = c.state := by
          rw [hstate]
          split <;> rfl
        exact h.update hslot (fun j _ => .refl j _) h.counter h.once h.entry
          (.inr (.inr (hrest r)))
  | start i q =>
      obtain ⟨s, hslot, hs, rfl⟩ := (eventMachine dumps).step_start hstep
      cases hs
      constructor
      · exact h.counter
      · exact h.once
      · exact h.entry
      · intro j hj
        by_cases hij : j = i
        · subst hij
          simp at hj
        · simp only [Function.update_of_ne hij] at hj
          exact h.unused j hj
      · intro j q' p' hj
        by_cases hij : j = i
        · subst hij
          simp only [Function.update_self] at hj
          cases hj
          exact .inl ⟨rfl, h.unused j hslot⟩
        · simp only [Function.update_of_ne hij] at hj
          exact h.stage j q' p' hj
  | crash i =>
      obtain ⟨q, p, hslot, rfl⟩ := (eventMachine dumps).step_crash hstep
      constructor
      · exact h.counter
      · exact h.once
      · exact h.entry
      · intro j hj
        by_cases hij : j = i
        · subst hij
          simp at hj
        · simp only [Function.update_of_ne hij] at hj
          exact h.unused j hj
      · intro j q' p' hj
        by_cases hij : j = i
        · subst hij
          simp at hj
        · simp only [Function.update_of_ne hij] at hj
          exact h.stage j q' p' hj
  | environment e => exact e.elim

theorem numbering_initial : Numbering dumps (.initial .empty) where
  counter _ := rfl
  once _ := List.nodup_nil
  entry _ e he := by cases he
  unused _ _ _ := by simp [Config.initial, EventStore.empty]
  stage _ _ _ hslot := by cases hslot

/-- All streams are numbered. -/
def AllNumbered (c : EventConfig) : Prop := ∀ taskId, Numbered (c.state.streams (eventKey taskId))

/-- The order of the draws is the order of the positions. -/
theorem drewBefore_iff {key : String} {m n : ℕ} (hnodup : (s.draws key).Nodup)
    (hi : (s.draws key)[n]? = some i) (hj : (s.draws key)[m]? = some j) :
    s.DrewBefore key i j ↔ n < m := by
  have hunique : ∀ {k l x : ℕ}, (s.draws key)[k]? = some x → (s.draws key)[l]? = some x →
      k = l := by
    intro k l x hk hl
    exact (List.getElem?_inj (List.getElem?_eq_some_iff.1 hk).1 hnodup).1 (hk.trans hl.symm)
  constructor
  · rintro ⟨a, b, hab, ha, hb⟩
    rw [hunique hi ha, hunique hj hb]
    exact hab
  · intro hlt
    exact ⟨n, m, hlt, hi, hj⟩

/-- The entry of a call keeps the numbers increasing exactly if no entry of a later draw is
before it. -/
theorem numbered_xadd_iff (h : Numbering dumps c) {n : ℕ}
    (hdrawn : (c.state.draws (sequenceKey q.taskId))[n]? = some i)
    (hwriter : ∀ e ∈ c.state.streams (eventKey q.taskId), e.writer ≠ i)
    (hnumbered : Numbered (c.state.streams (eventKey q.taskId))) (choice : EventChoice) :
    Numbered ((c.state.streams (eventKey q.taskId)).drop choice.trimmed ++
        [⟨i, choice.entryId, entryData dumps q (n + 1)⟩]) ↔
      ¬ ∃ e ∈ (c.state.streams (eventKey q.taskId)).drop choice.trimmed,
        c.state.DrewBefore (sequenceKey q.taskId) i e.writer := by
  rw [numbered_append_singleton_iff, and_iff_right (hnumbered.drop _)]
  constructor
  · rintro ⟨number, hnumber, hbelow⟩ ⟨e, he, hbefore⟩
    obtain ⟨m, hm, hdrew⟩ := h.entry q.taskId e (List.mem_of_mem_drop he)
    have hlt := (drewBefore_iff (h.once _) hdrawn hdrew).1 hbefore
    have hless := hbelow e he _ hm
    rw [sequenceNumber_entryData] at hnumber
    cases hnumber
    omega
  · intro hnone
    refine ⟨_, sequenceNumber_entryData i choice.entryId (n + 1), ?_⟩
    intro e he number hnumber
    have hmem := List.mem_of_mem_drop he
    obtain ⟨m, hm, hdrew⟩ := h.entry q.taskId e hmem
    rw [hm] at hnumber
    cases hnumber
    have hnot : ¬ n < m := fun hlt =>
      hnone ⟨e, he, (drewBefore_iff (h.once _) hdrawn hdrew).2 hlt⟩
    have hne : m ≠ n := by
      rintro rfl
      rw [hdrawn] at hdrew
      cases hdrew
      exact hwriter e hmem rfl
    omega

/-- One step keeps the numbers increasing exactly if no call is overtaken by it. -/
theorem allNumbered_step_iff (h : Numbering dumps c) (hnumbered : AllNumbered c)
    {a : EventAction} (hstep : (eventMachine dumps).step a c = some c') :
    AllNumbered c' ↔ ¬ Overtaken (c, a) := by
  cases a with
  | call i choice =>
      obtain ⟨q, command, k, r, s, hslot, hanswer, rfl⟩ := (eventMachine dumps).step_call hstep
      have hstate := state_of_answer hanswer
      -- A step that is no `XADD` changes no stream and overtakes no call.
      have hother : (∀ key data, command ≠ .xadd key data) →
          (AllNumbered ⟨Function.update c.pool i (.running q (k r)), s⟩ ↔
            ¬ Overtaken (c, .call i choice)) := by
        intro hne
        refine iff_of_true ?_ ?_
        · intro taskId
          have hstreams : s.streams = c.state.streams := by
            rw [hstate]
            split
            · cases command with
              | xadd key data => exact absurd rfl (hne key data)
              | _ => rfl
            · rfl
          simpa only [hstreams] using hnumbered taskId
        · rintro ⟨i', choice', q', key, data, k', haction, hslot', -⟩
          cases haction
          rw [hslot] at hslot'
          cases hslot'
          exact hne key data rfl
      rcases h.stage i q _ hslot with ⟨hp, -⟩ | ⟨n, hp, hdrawn, hwriter⟩ | honly
      · have hincr : Program.call command k = Program.call (.incr (sequenceKey q.taskId))
          fun r => (Program.ofExcept r).handle (addEntry dumps q) .throw := hp
        cases hincr
        exact hother (by simp)
      · have hxadd : Program.call command k = Program.call
          (.xadd (eventKey q.taskId) (entryData dumps q (n + 1)))
          fun r => (Program.ofExcept r).handle _ .throw := hp
        cases hxadd
        cases heffective : choice.ending.effective with
        | false =>
            rw [heffective] at hstate
            subst hstate
            refine iff_of_true hnumbered ?_
            rintro ⟨i', choice', q', key, data, k', haction, -, heffective', -⟩
            cases haction
            rw [heffective] at heffective'
            cases heffective'
        | true =>
            rw [heffective] at hstate
            subst hstate
            have hovertaken : Overtaken (c, .call i choice) ↔
                ∃ e ∈ (c.state.streams (eventKey q.taskId)).drop choice.trimmed,
                  c.state.DrewBefore (sequenceKey q.taskId) i e.writer := by
              constructor
              · rintro ⟨i', choice', q', key, data, k', haction, hslot', -, hexists⟩
                cases haction
                rw [hslot] at hslot'
                cases hslot'
                exact hexists
              · exact fun hexists => ⟨i, choice, q, _, _, _, rfl, hslot, heffective, hexists⟩
            rw [hovertaken, ← numbered_xadd_iff h hdrawn hwriter (hnumbered q.taskId) choice]
            constructor
            · intro hall
              simpa [EventCall.execute] using hall q.taskId
            · intro hstream taskId
              by_cases htask : taskId = q.taskId
              · subst htask
                simpa [EventCall.execute] using hstream
              · have hkey : eventKey taskId ≠ eventKey q.taskId :=
                  fun heq => htask (eventKey_injective heq)
                simpa [EventCall.execute, Function.update_of_ne hkey] using hnumbered taskId
      · obtain ⟨⟨eventKey, sequenceKey, rfl⟩, -⟩ := honly
        exact hother (by simp)
  | start i q =>
      obtain ⟨s, -, hs, rfl⟩ := (eventMachine dumps).step_start hstep
      cases hs
      refine iff_of_true hnumbered ?_
      rintro ⟨i', choice', q', key, data, k', haction, -⟩
      cases haction
  | crash i =>
      obtain ⟨q, p, -, rfl⟩ := (eventMachine dumps).step_crash hstep
      refine iff_of_true hnumbered ?_
      rintro ⟨i', choice', q', key, data, k', haction, -⟩
      cases haction
  | environment e => exact e.elim

end

/-- In every run, whatever calls of `append_event` are interleaved: the numbers increase
along each stream in every state, exactly if no step adds an entry behind one of a call that
has drawn its number later. -/
theorem events_numbered_iff (dumps : JsonObject → String) {c : EventConfig}
    {h : List (EventConfig × EventAction)}
    (run : (eventMachine dumps).Run Policy.any (.initial .empty) h c) :
    (AllNumbered c ∧ ∀ v ∈ h, AllNumbered v.1) ↔ ∀ v ∈ h, ¬ Overtaken v := by
  have hnumbering : ∀ {h c}, (eventMachine dumps).Run Policy.any (.initial .empty) h c →
      Numbering dumps c := fun run =>
    (run.invariant (Numbering dumps) numbering_initial fun _ _ _ hc _ hstep => hc.step hstep).1
  induction run with
  | nil =>
      refine iff_of_true ⟨?_, by simp⟩ (by simp)
      exact fun _ => ⟨[], rfl, List.Pairwise.nil⟩
  | @snoc h c c' a run _ hstep ih =>
      simp only [List.forall_mem_append, List.forall_mem_singleton]
      constructor
      · rintro ⟨hlast, hpast, hc⟩
        exact ⟨ih.1 ⟨hc, hpast⟩, (allNumbered_step_iff (hnumbering run) hc hstep).1 hlast⟩
      · rintro ⟨hpast, hnot⟩
        obtain ⟨hc, hnumbered⟩ := ih.2 hpast
        exact ⟨(allNumbered_step_iff (hnumbering run) hc hstep).2 hnot, hnumbered, hc⟩

/-- Two calls of `append_event` for one task, whose `INCR`s come first. -/
def demoDraws : List EventAction :=
  [.start 0 ⟨"task-1", "tool.started", []⟩, .start 1 ⟨"task-1", "tool.started", []⟩,
    .call 0 ⟨.done, .zero, 0⟩, .call 1 ⟨.done, .zero, 0⟩]

/-- The numbers in the stream of the demonstration, as they are written. -/
def writtenNumbers (c : EventConfig) : List (Option String) :=
  (c.state.streams (eventKey "task-1")).map fun e => e.entry.fields.lookup "sequence_number"

theorem events_numbered_iff_demo : ∃ h c,
    (eventMachine fun _ => "").Run Policy.any (.initial .empty) h c ∧
      writtenNumbers c = [some "1", some "2"] ∧
      ((AllNumbered c ∧ ∀ v ∈ h, AllNumbered v.1) ↔ ∀ v ∈ h, ¬ Overtaken v) := by
  have hend : ((eventMachine fun _ => "").exec Policy.any
      (demoDraws ++ [.call 0 ⟨.done, ⟨1, 0⟩, 0⟩, .call 1 ⟨.done, ⟨2, 0⟩, 0⟩])
      (.initial .empty)).map writtenNumbers = some [some "1", some "2"] := by decide
  obtain ⟨c, hc, hwritten⟩ := Option.map_eq_some_iff.1 hend
  obtain ⟨h, run⟩ := Machine.Run.exec .nil hc
  exact ⟨_, c, run, hwritten, events_numbered_iff _ run⟩

/-- The call that has drawn 2 adds its entry before the call that has drawn 1. -/
theorem events_out_of_order : ∃ h c,
    (eventMachine fun _ => "").Run Policy.any (.initial .empty) h c ∧
      writtenNumbers c = [some "2", some "1"] ∧ ¬ AllNumbered c := by
  have hend : ((eventMachine fun _ => "").exec Policy.any
      (demoDraws ++ [.call 1 ⟨.done, ⟨1, 0⟩, 0⟩, .call 0 ⟨.done, ⟨2, 0⟩, 0⟩])
      (.initial .empty)).map writtenNumbers = some [some "2", some "1"] := by decide
  obtain ⟨c, hc, hwritten⟩ := Option.map_eq_some_iff.1 hend
  obtain ⟨h, run⟩ := Machine.Run.exec .nil hc
  refine ⟨_, c, run, hwritten, ?_⟩
  intro hall
  obtain ⟨numbers, hnumbers, hincreasing⟩ := hall "task-1"
  have htwo : (Nat.repr 2).toInt? = some 2 := by simp
  have hone : (Nat.repr 1).toInt? = some 1 := by simp
  have hread : (c.state.streams (eventKey "task-1")).map NumberedEntry.sequenceNumber =
      [some 2, some 1] := by
    calc (c.state.streams (eventKey "task-1")).map NumberedEntry.sequenceNumber
        = (writtenNumbers c).map fun text => text.bind String.toInt? := by
          rw [writtenNumbers, List.map_map]
          rfl
      _ = [(Nat.repr 2).toInt?, (Nat.repr 1).toInt?] := by
          rw [hwritten]
          rfl
      _ = [some 2, some 1] := by rw [htwo, hone]
  rw [hread] at hnumbers
  obtain rfl : numbers = [2, 1] := by
    apply List.map_injective_iff.2 (Option.some_injective ℤ)
    exact hnumbers.symm
  exact absurd hincreasing (by decide)

end CommerceAgent
