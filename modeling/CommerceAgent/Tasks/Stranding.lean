import CommerceAgent.Effects.Alone
import CommerceAgent.Tasks.Coverage

/-!
# Stranded tasks

Each operation of the task service stores the record as queued, appends an event
and publishes the message, and only the publish stands in a `try` block. Run alone,
with at most one call that raises, an operation leaves the record queued without a
message exactly when the call that raises is the append of that event, or the
store of the record, when that takes effect all the same.
-/

namespace CommerceAgent

open Effects

/-- The answer of the stores to a process that is alone. -/
abbrev TaskCall.answer (settings : Settings) (i : ℕ) (c : TaskCall) (ch : TaskChoice) (w : World) :
    Except Exn c.Reply × World :=
  ch.ending.answer (c.execute settings i ch w) w

abbrev MadeCall := Made TaskCall World TaskChoice

/-- The event that follows the store of a queued record. -/
def TaskEvent.reportsQueued : TaskEvent → Bool
  | .queued .. | .inputSubmitted _ | .approvalSubmitted .. | .resumed _ => true
  | _ => false

/-- The call appends the event that follows the store of a queued record. -/
def TaskCall.reports : TaskCall → Bool
  | .appendEvent _ event => event.reportsQueued
  | _ => false

/-- The call raises. -/
def MadeCall.raises (m : MadeCall) : Bool := decide (m.choice.ending ≠ .done)

/-- The call raises although it stores the record as queued, or between that store
and the publish. -/
def MadeCall.strands (settings : Settings) (i : ℕ) (m : MadeCall) : Bool :=
  m.raises && (m.call.reports ||
    (m.call.stores settings i m.choice m.state &&
      m.call.written.any fun task => decide (task.status = .queued)))

/-- The message that a call published, whether or not it raised. -/
def MadeCall.sent (m : MadeCall) : Option QueueMessage :=
  if m.choice.Effective then m.call.sent else none

/-- The record of the task is queued, and the messages sent have not its triple. -/
def Stranded (taskId : String) (sent : List QueueMessage) (w : World) : Prop :=
  ∃ task, w.records taskId = some task ∧ task.status = .queued ∧
    ∀ payload ∈ sent, ¬ payload.Carries taskId task.triple

/-- At most one call raised. -/
def AtMostOneRaised (log : List MadeCall) : Prop := (log.filter MadeCall.raises).length ≤ 1

theorem AtMostOneRaised.prefix (l l' : List MadeCall) (h : AtMostOneRaised (l ++ l')) :
    AtMostOneRaised l := by
  rw [AtMostOneRaised, List.filter_append, List.length_append] at h
  exact (Nat.le_add_right _ _).trans h

theorem AtMostOneRaised.only {log : List MadeCall} {m m' : MadeCall}
    (h : AtMostOneRaised (log ++ [m] ++ [m'])) (hm : m.raises = true) : m'.raises = false := by
  rw [AtMostOneRaised, List.filter_append, List.filter_append, List.filter_singleton, hm] at h
  cases hm' : m'.raises with
  | false => rfl
  | true =>
      simp [hm'] at h

/-- A state of an operation: the world and the log. -/
abbrev Stage := World × List MadeCall

/-- The protocol of an operation of which at most one call raises. -/
abbrev soloProtocol (settings : Settings) (i : ℕ) : Protocol Exn TaskCall TaskCall.Reply Stage :=
  aloneProtocol (fun c ch w => c.answer settings i ch w) AtMostOneRaised

section Stages

variable (settings : Settings) (i : ℕ) (taskId : String)

/-- No call has raised at a bad place, and the record is not stranded. -/
structure Sent (s : Stage) : Prop where
  harmless : ∀ m ∈ s.2, m.strands settings i = false
  covered : ¬ Stranded taskId (s.2.filterMap MadeCall.sent) s.1

/-- The operation has not stored the record yet. -/
structure Before (s : Stage) : Prop where
  keyed : s.1.Keyed
  harmless : ∀ m ∈ s.2, m.strands settings i = false
  unsent : s.2.filterMap MadeCall.sent = []
  open_ : ∀ task, s.1.records taskId = some task → task.status ≠ .queued

/-- The operation has stored the record as queued, and not published its message. -/
structure Queued (task : TaskRecord) (s : Stage) : Prop where
  harmless : ∀ m ∈ s.2, m.strands settings i = false
  unsent : s.2.filterMap MadeCall.sent = []
  stored : s.1.records taskId = some task
  queued : task.status = .queued

/-- The record is stranded when a call has raised at a bad place, and only then. -/
def Told (s : Stage) : Prop :=
  Stranded taskId (s.2.filterMap MadeCall.sent) s.1 ↔ ∃ m ∈ s.2, m.strands settings i = true

end Stages

section Rules

variable {settings : Settings} {i : ℕ} {taskId : String} {c : TaskCall} {r : Except Exn c.Reply}
  {s s' : Stage} {task : TaskRecord} {α : Type}

theorem Sent.told (h : Sent settings i taskId s) : Told settings i taskId s := by
  constructor
  · exact fun hstranded => absurd hstranded h.covered
  · rintro ⟨m, hm, hstrands⟩
    rw [h.harmless m hm] at hstrands
    cases hstrands

theorem Before.sent (h : Before settings i taskId s) : Sent settings i taskId s := by
  refine ⟨h.harmless, ?_⟩
  rintro ⟨task, htask, hqueued, -⟩
  exact h.open_ task htask hqueued

/-- What a call adds to the log. -/
theorem next_log (h : (soloProtocol settings i).next c s r s') :
    ∃ ch, s'.2 = s.2 ++ [⟨s.1, c, ch⟩] ∧ AtMostOneRaised s'.2 ∧
      (taskMachine settings arbitraryRun).answer i c ch s.1 = some (r, s'.1) := by
  obtain ⟨ch, hlog, hanswer, heq⟩ := h
  exact ⟨ch, heq, hlog, congrArg some hanswer⟩

/-- A call that neither stores the record nor reports that leaves no harm. -/
theorem harmless_snoc {ch : TaskChoice} (hharmless : ∀ m ∈ s.2, m.strands settings i = false)
    (hreports : c.reports = false)
    (hstores : c.stores settings i ch s.1 = false ∨ ch.ending = .done ∨
      ∀ task, c.written = some task → task.status ≠ .queued) :
    ∀ m ∈ s.2 ++ [(⟨s.1, c, ch⟩ : MadeCall)], m.strands settings i = false := by
  intro m hm
  rcases List.mem_append.1 hm with hm | hm
  · exact hharmless m hm
  · rw [List.mem_singleton.1 hm]
    rcases hstores with hstores | hdone | hwritten
    · simp [MadeCall.strands, hreports, hstores]
    · simp [MadeCall.strands, MadeCall.raises, hdone]
    · cases htask : c.written with
      | none => simp [MadeCall.strands, hreports, htask]
      | some task => simp [MadeCall.strands, hreports, htask, hwritten task htask]

theorem unsent_snoc {ch : TaskChoice} (hunsent : s.2.filterMap MadeCall.sent = [])
    (hsent : c.sent = none) :
    (s.2 ++ [(⟨s.1, c, ch⟩ : MadeCall)]).filterMap MadeCall.sent = [] := by
  simp [List.filterMap_append, hunsent, MadeCall.sent, hsent]

/-- A call that writes no record, publishes nothing and reports no store. -/
def TaskCall.idle (c : TaskCall) : Prop := c.written = none ∧ c.sent = none ∧ c.reports = false

theorem records_of_unwritten {ch : TaskChoice} {w w' : World} (hwritten : c.written = none)
    (h : (taskMachine settings arbitraryRun).answer i c ch w = some (r, w')) :
    w'.records = w.records := by
  rcases records_of_answer h with hsame | ⟨task, htask, -⟩
  · exact hsame
  · rw [hwritten] at htask
    cases htask

theorem Before.idle (hs : Before settings i taskId s) (hc : c.idle)
    (h : (soloProtocol settings i).next c s r s') : Before settings i taskId s' := by
  obtain ⟨ch, hlog, -, hanswer⟩ := next_log h
  have hrecords := records_of_unwritten hc.1 hanswer
  refine ⟨hs.keyed.answer hanswer, ?_, ?_, ?_⟩
  · rw [hlog]
    exact harmless_snoc hs.harmless hc.2.2 (.inr (.inr (by simp [hc.1])))
  · rw [hlog]
    exact unsent_snoc hs.unsent hc.2.1
  · rw [hrecords]
    exact hs.open_

/-- A record that is covered stays so, whatever else is published. -/
theorem Sent.later (hs : Sent settings i taskId s) (hwritten : c.written = none)
    (hreports : c.reports = false) (h : (soloProtocol settings i).next c s r s') :
    Sent settings i taskId s' := by
  obtain ⟨ch, hlog, -, hanswer⟩ := next_log h
  have hrecords := records_of_unwritten hwritten hanswer
  refine ⟨?_, ?_⟩
  · rw [hlog]
    exact harmless_snoc hs.harmless hreports (.inr (.inr (by simp [hwritten])))
  · rintro ⟨task, htask, hqueued, hsent⟩
    refine hs.covered ⟨task, hrecords ▸ htask, hqueued, fun payload hpayload => hsent payload ?_⟩
    rw [hlog, List.filterMap_append]
    exact List.mem_append_left _ hpayload

/-- A call that raises what the store would have answered raises by its ending. -/
theorem raises_of_error {ch : TaskChoice} {w w' : World} {reply : c.Reply} {w₁ : World} {e : Exn}
    (hrun : c.execute settings i ch w = .ok (reply, w₁))
    (h : (taskMachine settings arbitraryRun).answer i c ch w = some (.error e, w')) :
    MadeCall.raises ⟨w, c, ch⟩ = true := by
  rw [MadeCall.raises, decide_eq_true_iff]
  intro hending
  replace hending : ch.ending = .done := hending
  have heq := Option.some.inj h
  rw [hrun, hending] at heq
  cases heq

/-- A call that stores nothing leaves the operation where it was. -/
theorem Before.unstored (hs : Before settings i taskId s) (hsent : c.sent = none)
    (hreports : c.reports = false) {ch : TaskChoice} (hlog : s'.2 = s.2 ++ [⟨s.1, c, ch⟩])
    (hstores : c.stores settings i ch s.1 = false) (hrecords : s'.1.records = s.1.records) :
    Before settings i taskId s' := by
  refine ⟨hs.keyed.of_records hrecords, ?_, ?_, ?_⟩
  · rw [hlog]
    exact harmless_snoc hs.harmless hreports (.inl hstores)
  · rw [hlog]
    exact unsent_snoc hs.unsent hsent
  · rw [hrecords]
    exact hs.open_

theorem stored_of_execute {ch : TaskChoice} {w w' : World} {reply : c.Reply}
    (h : c.execute settings i ch w = .ok (reply, w')) (hwrote : c.wrote reply = true)
    (hwritten : c.written = some task) (hid : task.taskId = taskId) :
    w'.records taskId = some task := by
  obtain ⟨-, task', hwritten', hstored⟩ := (wrote_of_execute h).resolve_right fun h => by
    rw [hwrote] at h
    cases h.1
  cases hwritten.symm.trans hwritten'
  rw [hstored, World.store_records, if_pos hid.symm]

/-- The operation stores the record as queued, or finds that it may not. -/
theorem queued_of_next {reply : c.Reply} (hs : Before settings i taskId s)
    (hwritten : c.written = some task) (hid : task.taskId = taskId)
    (hqueued : task.status = .queued) (hsent : c.sent = none) (hreports : c.reports = false)
    (h : (soloProtocol settings i).next c s (.ok reply) s') :
    (c.wrote reply = true → Queued settings i taskId task s') ∧
      (c.wrote reply = false → Before settings i taskId s') := by
  obtain ⟨ch, hlog, -, hanswer⟩ := next_log h
  have hdone := done_of_answer hanswer
  have hrun := execute_of_answer hanswer
  constructor
  · intro hwrote
    refine ⟨?_, ?_, stored_of_execute hrun hwrote hwritten hid, hqueued⟩
    · rw [hlog]
      exact harmless_snoc hs.harmless hreports (.inr (.inl hdone))
    · rw [hlog]
      exact unsent_snoc hs.unsent hsent
  · intro hwrote
    have hrecords := (wrote_of_execute hrun).resolve_left fun h => by
      rw [hwrote] at h
      cases h.1
    exact hs.unstored hsent hreports hlog (by simp [TaskCall.stores, hrun, hdone, hwrote])
      hrecords.2

/-- When the store of the record raises, the record is stranded if it was stored. -/
theorem told_of_next {e : Exn} (hs : Before settings i taskId s)
    (hwritten : c.written = some task) (hid : task.taskId = taskId)
    (hqueued : task.status = .queued) (hsent : c.sent = none) (hreports : c.reports = false)
    (h : (soloProtocol settings i).next c s (.error e) s') : Told settings i taskId s' := by
  obtain ⟨ch, hlog, -, hanswer⟩ := next_log h
  rcases stores_of_answer hanswer with ⟨hstores, -, reply, hrun, hwrote⟩ | ⟨hstores, hrecords⟩
  · constructor
    · rintro -
      refine ⟨⟨s.1, c, ch⟩, by simp [hlog], ?_⟩
      simp [MadeCall.strands, raises_of_error hrun hanswer, hstores, hwritten, hqueued]
    · rintro -
      refine ⟨task, stored_of_execute hrun hwrote hwritten hid, hqueued, ?_⟩
      rw [hlog, unsent_snoc hs.unsent hsent]
      simp
  · exact (hs.unstored hsent hreports hlog hstores hrecords).sent.told

/-- When the event that follows the store is not appended, the record is stranded. -/
theorem told_of_report {e : Exn} (hs : Queued settings i taskId task s) {id : String}
    {event : TaskEvent} (hevent : event.reportsQueued = true)
    (h : (soloProtocol settings i).next (.appendEvent id event) s (.error e) s') :
    Told settings i taskId s' := by
  obtain ⟨ch, hlog, -, hanswer⟩ := next_log h
  have hrecords := records_of_unwritten rfl hanswer
  constructor
  · rintro -
    refine ⟨⟨s.1, .appendEvent id event, ch⟩, by simp [hlog], ?_⟩
    simp [MadeCall.strands, raises_of_error (by rfl) hanswer, TaskCall.reports, hevent]
  · rintro -
    refine ⟨task, by rw [hrecords]; exact hs.stored, hs.queued, ?_⟩
    rw [hlog, unsent_snoc hs.unsent rfl]
    simp

/-- The event that follows the store is appended. -/
theorem Queued.reported (hs : Queued settings i taskId task s) {id : String} {event : TaskEvent}
    (h : (soloProtocol settings i).next (.appendEvent id event) s (.ok ()) s') :
    Queued settings i taskId task s' := by
  obtain ⟨ch, hlog, -, hanswer⟩ := next_log h
  refine ⟨?_, ?_, ?_, hs.queued⟩
  · rw [hlog]
    intro m hm
    rcases List.mem_append.1 hm with hm | hm
    · exact hs.harmless m hm
    · rw [List.mem_singleton.1 hm]
      simp [MadeCall.strands, MadeCall.raises, done_of_answer hanswer]
  · rw [hlog]
    exact unsent_snoc hs.unsent rfl
  · rw [records_of_unwritten rfl hanswer]
    exact hs.stored

/-- The message is published. -/
theorem Queued.published {payload : QueueMessage} (hs : Queued settings i taskId task s)
    (hpayload : payload.Carries taskId task.triple)
    (h : (soloProtocol settings i).next (.publish payload) s (.ok ()) s') :
    Sent settings i taskId s' := by
  obtain ⟨ch, hlog, -, hanswer⟩ := next_log h
  refine ⟨?_, ?_⟩
  · rw [hlog]
    exact harmless_snoc hs.harmless rfl (.inr (.inl (done_of_answer hanswer)))
  · rintro ⟨task', htask', -, hnone⟩
    rw [records_of_unwritten rfl hanswer] at htask'
    cases hs.stored.symm.trans htask'
    refine hnone payload ?_ hpayload
    have heffective : ch.Effective := by simp [TaskChoice.Effective, done_of_answer hanswer]
    simp [hlog, hs.unsent, MadeCall.sent, heffective, TaskCall.sent]

/-- When the publish raises, the record is stored as failed. -/
theorem Queued.failed {payload : QueueMessage} {site : Site} {e : Exn} {errorMessage : String}
    {interaction : Option Interaction} {s'' : Stage} {r : Except Exn Unit}
    (hs : Queued settings i taskId task s) (hid : task.taskId = taskId)
    (h : (soloProtocol settings i).next (.publish payload) s (.error e) s')
    (h' : (soloProtocol settings i).next
      (.saveTask site (task.publishFailed errorMessage interaction)) s' r s'') :
    Sent settings i taskId s'' := by
  obtain ⟨ch, hlog, -, hanswer⟩ := next_log h
  obtain ⟨ch', hlog', hone, hanswer'⟩ := next_log h'
  have hending : ch'.ending = .done := by
    rw [hlog', hlog] at hone
    simpa [MadeCall.raises] using hone.only (raises_of_error (by rfl) hanswer)
  have hstored : s''.1.records taskId = some (task.publishFailed errorMessage interaction) := by
    rcases stores_of_answer hanswer' with ⟨-, -, reply, hrun, hwrote⟩ | ⟨hstores, -⟩
    · exact stored_of_execute hrun hwrote rfl hid
    · simp [TaskCall.stores, hending, TaskCall.execute, TaskCall.wrote] at hstores
  refine ⟨?_, ?_⟩
  · rw [hlog']
    apply harmless_snoc _ rfl (.inr (.inl hending))
    rw [hlog]
    exact harmless_snoc hs.harmless rfl (.inr (.inr (by simp [TaskCall.written])))
  · rintro ⟨task', htask', hqueued, -⟩
    cases hstored.symm.trans htask'
    cases hqueued

/-- The operation ends where the log tells whether the record is stranded. -/
abbrev Tells (settings : Settings) (i : ℕ) (taskId : String) (p : TaskProgram α) (s : Stage) :
    Prop :=
  p.Follows (soloProtocol settings i) (fun _ => Told settings i taskId)
    (fun _ => Told settings i taskId) s

/-- Once the message is published nothing strands the record. -/
theorem tells_of_sent {p : TaskProgram α}
    (hp : p.Only (fun c => c.written = none ∧ c.reports = false) fun _ => True)
    (hs : Sent settings i taskId s) : Tells settings i taskId p s :=
  (Program.Follows.of_invariant (I := Sent settings i taskId)
    (fun _ _ hc hs => ⟨trivial, fun _ _ hr => hs.later hc.1 hc.2 hr⟩) hp hs).mono
    (fun _ _ h => h.2.told) fun _ _ h => h.told

theorem Before.tells_call {p : c.Reply → TaskProgram α} (hs : Before settings i taskId s)
    (hc : c.idle) (hp : ∀ reply s', Before settings i taskId s' →
      Tells settings i taskId (p reply) s') : Tells settings i taskId (c.perform >>= p) s :=
  Program.follows_call trivial (fun reply s' hr => hp reply s' (hs.idle hc hr))
    fun _ _ hr => (hs.idle hc hr).sent.told

theorem Before.tells_getTaskForMerchant {site : Site} {id merchantId : String}
    {p : TaskRecord → TaskProgram α} (hs : Before settings i taskId s)
    (hp : ∀ task s', Before settings i taskId s' → task.taskId = id →
      Tells settings i taskId (p task) s') :
    Tells settings i taskId (getTaskForMerchant site id merchantId >>= p) s := by
  apply Program.Follows.bind
  rw [getTaskForMerchant, getTask, Program.bind_eq, Program.bind_eq, Program.handle_handle]
  apply Program.follows_call trivial
  · intro found s' hr
    have hs' := hs.idle ⟨rfl, rfl, rfl⟩ hr
    obtain ⟨ch, -, -, hanswer⟩ := next_log hr
    obtain ⟨rfl, -⟩ := read_of_answer hanswer
    cases hfound : s.1.records id with
    | none => exact hs'.sent.told
    | some task =>
        change Program.Follows _ _ _ (if task.merchantId ≠ merchantId then _ else _) s'
        split
        · exact hs'.sent.told
        · exact hp task s' hs' (hs.keyed id task hfound)
  · exact fun _ _ hr => (hs.idle ⟨rfl, rfl, rfl⟩ hr).sent.told

/-- What every operation does with the record it has stored as queued. -/
theorem Queued.tells_enqueue (hs : Queued settings i taskId task s) (hid : task.taskId = taskId)
    {site : Site} {payload : QueueMessage} (hpayload : payload.Carries taskId task.triple)
    {event : TaskEvent} (hevent : event.reportsQueued = true) {errorMessage : String}
    {interaction : Option Interaction} {report : TaskProgram Unit}
    (hreport : report.Only (fun c => c.written = none ∧ c.reports = false) fun _ => True)
    {f : Unit → TaskProgram α}
    (hf : ∀ a, (f a).Only (fun c => c.written = none ∧ c.reports = false) fun _ => True) :
    Tells settings i taskId ((TaskCall.appendEvent task.taskId event).perform >>= fun _ =>
      publishOrFail site task payload errorMessage interaction report >>= f) s := by
  apply Program.follows_call trivial
  · intro _ s₁ hr₁
    have hs₁ := hs.reported hr₁
    apply Program.Follows.bind
    apply Program.follows_call trivial
    · exact fun a s₂ hr₂ => tells_of_sent (hf a) (hs₁.published hpayload hr₂)
    · intro e s₂ hr₂
      apply Program.follows_call trivial
      · intro _ s₃ hr₃
        have hthrow : (report >>= fun _ => (throw (.dependencyError "QUEUE_PUBLISH_FAILED"
            errorMessage) : TaskProgram Unit)).Only
              (fun c => c.written = none ∧ c.reports = false) fun _ => True :=
          hreport.bind fun _ _ => trivial
        refine (Program.Follows.of_invariant (I := Sent settings i taskId)
          (fun _ _ hc hs => ⟨trivial, fun _ _ hr => hs.later hc.1 hc.2 hr⟩) hthrow
          (hs₁.failed hid hr₂ hr₃)).mono ?_ ?_
        · exact fun a s₄ h => tells_of_sent (hf a) h.2
        · exact fun _ _ h => h.told
      · exact fun _ s₃ hr₃ => (hs₁.failed hid hr₂ hr₃).told
  · exact fun _ _ hr => told_of_report hs hevent hr

theorem tells_createTaskRecord (request : CreateTask) (key : Option String) :
    ∀ depth s, Before settings i request.taskToken s →
      (createTaskRecord request.record key depth).Follows (soloProtocol settings i)
        (fun result s => (result.2 = true → Queued settings i request.taskToken request.record s) ∧
          (result.2 = false → Before settings i request.taskToken s))
        (fun _ => Told settings i request.taskToken) s
  | 0, _, hs => hs.sent.told
  | depth + 1, s, hs => by
      have hset : ((TaskCall.setNew request.record).perform >>= fun created =>
          (pure (request.record, created) : TaskProgram (TaskRecord × Bool))).Follows
            (soloProtocol settings i)
            (fun result s =>
              (result.2 = true → Queued settings i request.taskToken request.record s) ∧
                (result.2 = false → Before settings i request.taskToken s))
            (fun _ => Told settings i request.taskToken) s := by
        apply Program.follows_call trivial
        · exact fun created s' hr => queued_of_next hs rfl rfl rfl rfl rfl hr
        · exact fun e s' hr => told_of_next hs rfl rfl rfl rfl rfl hr
      unfold createTaskRecord
      split
      · exact hset
      · exact hset
      · next key _ =>
          apply Program.follows_call trivial
          · intro reply s' hr
            have hstored := queued_of_next hs rfl rfl rfl rfl rfl hr
            obtain ⟨resolved, created⟩ := reply
            cases created with
            | true => exact ⟨fun _ => hstored.1 rfl, nofun⟩
            | false =>
                have hs' := hstored.2 rfl
                apply Program.follows_call trivial
                · intro found s'' hr'
                  have hs'' := hs'.idle ⟨rfl, rfl, rfl⟩ hr'
                  cases found with
                  | some existing => exact ⟨nofun, fun _ => hs''⟩
                  | none =>
                      apply Program.follows_call trivial
                      · exact fun _ s₃ hr₃ => tells_createTaskRecord request _ depth s₃
                          (hs''.idle ⟨rfl, rfl, rfl⟩ hr₃)
                      · exact fun _ _ hr₃ => (hs''.idle ⟨rfl, rfl, rfl⟩ hr₃).sent.told
                · exact fun _ _ hr' => (hs'.idle ⟨rfl, rfl, rfl⟩ hr').sent.told
          · exact fun e s' hr => told_of_next hs rfl rfl rfl rfl rfl hr

theorem tells_createTask (request : CreateTask) (hs : Before settings i request.taskToken s) :
    Tells settings i request.taskToken (createTask request) s := by
  apply Program.Follows.bind
  refine (tells_createTaskRecord request _ _ s hs).mono ?_ fun _ _ h => h
  intro result s' h
  obtain ⟨resolved, created⟩ := result
  cases created with
  | false => exact (h.2 rfl).sent.told
  | true =>
      refine (h.1 rfl).tells_enqueue rfl ⟨rfl, rfl⟩ rfl ?_ ?_
      · exact Program.Only.perform
          (P := fun c : TaskCall => c.written = none ∧ c.reports = false) (by exact ⟨rfl, rfl⟩)
      · exact fun _ => trivial

/-- A transition to the queued record, and what follows it. -/
theorem Before.tells_transition {status : TaskStatus} {p : Bool → TaskProgram α}
    (hs : Before settings i taskId s) (hid : task.taskId = taskId) (hqueued : task.status = .queued)
    (hstored : ∀ s', Queued settings i taskId task s' → Tells settings i taskId (p true) s')
    (hrefused : ∀ s', Before settings i taskId s' → Tells settings i taskId (p false) s') :
    Tells settings i taskId ((TaskCall.transitionTask task status).perform >>= p) s := by
  apply Program.follows_call trivial
  · intro transitioned s' hr
    have hnext := queued_of_next hs rfl hid hqueued rfl rfl hr
    cases transitioned with
    | true => exact hstored s' (hnext.1 rfl)
    | false => exact hrefused s' (hnext.2 rfl)
  · exact fun e s' hr => told_of_next hs rfl hid hqueued rfl rfl hr

theorem tells_submitInput (merchantId productId : String) (hs : Before settings i taskId s) :
    Tells settings i taskId (submitInput taskId merchantId productId) s := by
  apply hs.tells_getTaskForMerchant
  intro task s₁ hs₁ htask
  split
  · exact hs₁.sent.told
  apply hs₁.tells_call ⟨rfl, rfl, rfl⟩
  intro items s₂ hs₂
  split
  · exact hs₂.sent.told
  have hid : (task.withInput productId).taskId = taskId := htask
  apply hs₂.tells_transition hid rfl
  · intro s₃ hs₃
    refine hs₃.tells_enqueue hid ⟨hid, rfl⟩ rfl ?_ ?_
    · trivial
    · exact fun _ => trivial
  · intro s₃ hs₃
    apply hs₃.tells_getTaskForMerchant
    intro current s₄ hs₄ _
    split <;> exact hs₄.sent.told

theorem tells_submitApproval (request : SubmitApproval)
    (hs : Before settings i request.taskId s) :
    Tells settings i request.taskId (submitApproval request) s := by
  apply hs.tells_getTaskForMerchant
  intro task s₁ hs₁ htask
  change Tells settings i request.taskId (if task.status ∈ _ then _ else _) s₁
  split
  · apply hs₁.tells_call ⟨rfl, rfl, rfl⟩
    intro existing s₂ hs₂
    cases existing with
    | none => exact hs₂.sent.told
    | some row =>
        change Tells settings i request.taskId (if _ then _ else _) _
        split <;> exact hs₂.sent.told
  split
  · exact hs₁.sent.told
  split
  · exact hs₁.sent.told
  apply hs₁.tells_call ⟨rfl, rfl, rfl⟩
  intro approvalId s₂ hs₂
  have hid : (task.withApproval approvalId).taskId = request.taskId := htask
  apply hs₂.tells_transition hid rfl
  · intro s₃ hs₃
    refine hs₃.tells_enqueue hid ⟨hid, rfl⟩ rfl ?_ ?_
    · trivial
    · intro _
      apply Program.Only.bind (W := fun _ => True)
      · unfold reportRequeued
        split
        · exact Program.Only.perform
            (P := fun c : TaskCall => c.written = none ∧ c.reports = false) (by exact ⟨rfl, rfl⟩)
        · trivial
      · exact fun _ _ => trivial
  · intro s₃ hs₃
    apply hs₃.tells_getTaskForMerchant
    intro current s₄ hs₄ _
    split <;> exact hs₄.sent.told

theorem tells_resumeTask (merchantId : String) (hs : Before settings i taskId s) :
    Tells settings i taskId (resumeTask taskId merchantId) s := by
  apply hs.tells_getTaskForMerchant
  intro original s₁ hs₁ htask
  split
  · exact hs₁.sent.told
  have hstale : (staleRunning original).Follows (soloProtocol settings i)
      (fun _ => Before settings i taskId) (fun _ => Told settings i taskId) s₁ := by
    unfold staleRunning
    split
    · apply Program.follows_call trivial
      · exact fun _ _ hr => hs₁.idle ⟨rfl, rfl, rfl⟩ hr
      · exact fun _ _ hr => (hs₁.idle ⟨rfl, rfl, rfl⟩ hr).sent.told
    · exact hs₁
  apply Program.Follows.bind
  refine hstale.mono ?_ fun _ _ h => h
  intro stale s₂ hs₂
  split
  · exact hs₂.sent.told
  have hid : original.resumed.taskId = taskId := htask
  apply Program.follows_call trivial
  · intro _ s₃ hr
    have hs₃ := (queued_of_next hs₂ rfl hid rfl rfl rfl hr).1 rfl
    refine hs₃.tells_enqueue hid ⟨hid, rfl⟩ rfl ?_ ?_
    · trivial
    · exact fun _ => trivial
  · exact fun e s₃ hr => told_of_next hs₂ rfl hid rfl rfl rfl hr

end Rules

/-- For every operation of the task service, on every record that is not queued yet,
with at most one call that raises, before or after its effect: the record is left
queued without a message for it exactly when the call that raised was the append of
the event that follows the store, or the store of the record, which took effect. -/
theorem stranded_iff (settings : Settings) (i : ℕ) (w : World) (hkeyed : w.Keyed)
    (q : TaskRequest) (hservice : q.byWorker = false) (taskId : String)
    (htask : q.taskId = some taskId)
    (hadmitted : ∀ task, w.records taskId = some task → task.status ≠ .queued)
    (choose : ℕ → TaskChoice) :
    let course := (q.program settings arbitraryRun).alone
      (fun c ch w => c.answer settings i ch w) choose w
    AtMostOneRaised course.log →
      (Stranded taskId (course.log.filterMap MadeCall.sent) course.state ↔
        ∃ m ∈ course.log, MadeCall.strands settings i m = true) := by
  intro course hone
  have hbefore : Before settings i taskId (w, []) := ⟨hkeyed, by simp, rfl, hadmitted⟩
  have hdone : ∀ {α : Type} {p : TaskProgram α} (f : α → TaskResult),
      Tells settings i taskId p (w, []) →
        Tells settings i taskId (p >>= fun a => pure (f a)) (w, []) :=
    fun f hp => .bind (hp.mono (fun _ _ h => h) fun _ _ h => h)
  have htells : Tells settings i taskId (q.program settings arbitraryRun) (w, []) := by
    cases q with
    | createTask request =>
        cases htask
        exact hdone _ (tells_createTask request hbefore)
    | submitInput id merchantId productId =>
        cases htask
        exact hdone _ (tells_submitInput merchantId productId hbefore)
    | submitApproval request =>
        cases htask
        exact hdone _ (tells_submitApproval request hbefore)
    | resumeTask id merchantId =>
        cases htask
        exact hdone _ (tells_resumeTask merchantId hbefore)
    | handleMessage body => cases hservice
    | ledger request => cases hservice
  have hends := Program.alone_of_follows AtMostOneRaised.prefix htells hone
  unfold Course.Ends at hends
  split at hends <;> exact hends

/-- The creation of a task of which the call number `n` ends like this. -/
def demoCreation (n : ℕ) (ending : Ending Exn) : Course Exn TaskCall World TaskChoice TaskResult :=
  ((TaskRequest.createTask demoRequest).program demoSettings arbitraryRun).alone
    (fun c ch w => c.answer demoSettings 0 ch w)
    (fun k => if k = n then { ending } else {}) .fresh

instance (log : List MadeCall) : Decidable (AtMostOneRaised log) :=
  inferInstanceAs (Decidable (_ ≤ _))

/-- A task is created, the event is not appended, and the record waits for a message
that was never published. -/
theorem created_task_stranded :
    AtMostOneRaised (demoCreation 1 (.lost (.other "ConnectionError"))).log ∧
      Stranded "task-1"
        ((demoCreation 1 (.lost (.other "ConnectionError"))).log.filterMap MadeCall.sent)
        (demoCreation 1 (.lost (.other "ConnectionError"))).state := by
  have hend : ((demoCreation 1 (.lost (.other "ConnectionError"))).state.records "task-1").map
        TaskRecord.status = some .queued ∧
      (demoCreation 1 (.lost (.other "ConnectionError"))).log.filterMap MadeCall.sent = [] ∧
        AtMostOneRaised (demoCreation 1 (.lost (.other "ConnectionError"))).log := by decide
  obtain ⟨hstatus, hsent, hone⟩ := hend
  obtain ⟨task, htask, hqueued⟩ := Option.map_eq_some_iff.1 hstatus
  refine ⟨hone, task, htask, hqueued, ?_⟩
  rw [hsent]
  simp

theorem stranded_iff_demo :
    ((demoCreation 2 (.late (.other "ConnectionError"))).state.records "task-1").map
        TaskRecord.status = some .failed ∧
      (Stranded "task-1"
        ((demoCreation 2 (.late (.other "ConnectionError"))).log.filterMap MadeCall.sent)
        (demoCreation 2 (.late (.other "ConnectionError"))).state ↔
        ∃ m ∈ (demoCreation 2 (.late (.other "ConnectionError"))).log,
          MadeCall.strands demoSettings 0 m = true) := by
  have hone : AtMostOneRaised (demoCreation 2 (.late (.other "ConnectionError"))).log := by decide
  refine ⟨by decide, ?_⟩
  exact stranded_iff demoSettings 0 .fresh World.keyed_fresh (.createTask demoRequest) rfl "task-1"
    rfl (fun _ h => by cases h)
    (fun k => if k = 2 then { ending := .late (.other "ConnectionError") } else {}) hone

end CommerceAgent
