import CommerceAgent.Tasks.Approvals
import CommerceAgent.Tasks.Finality
import CommerceAgent.Tasks.Pending

/-!
# Acknowledged approvals

`submit_approval` moves the record to `queued` with the approval in its pending
triple, by a comparison of the status. From then on the approval is owed until the
outcome of a run on it is stored. Who has looked at the record since the move
carries the approval over into what it stores: a resumption resumes what is
pending, and the worker executes only the message that is. `_handle_failure`
looks, but stores the triple of its own message. `watchedPolicy` says that no
process stores what it read before the move, and that `_handle_failure` works on
the message of the approval.
-/

namespace CommerceAgent

open Effects Relational

/-- The approval that is owed, and which processes have not looked at the record
since it is. -/
structure Watch where
  awaited : Option String
  blind : ℕ → Bool

/-- Nothing is owed, and nobody has missed anything. -/
def Watch.fresh : Watch := ⟨none, fun _ => false⟩

/-- The approval that a call moves the record of the task to. -/
def TaskCall.moved (taskId : String) : TaskCall → Option String
  | .transitionTask task _ =>
      if task.taskId = taskId ∧ task.pendingResumeKind = some .approval then task.pendingResumeId
      else none
  | _ => none

/-- The message is one on this approval. -/
def QueueMessage.On (payload : QueueMessage) (approvalId : String) : Prop :=
  payload.resumeKind = some .approval ∧ payload.resumeId = some approvalId

instance (payload : QueueMessage) (approvalId : String) : Decidable (payload.On approvalId) :=
  inferInstanceAs (Decidable (_ ∧ _))

/-- The record waits for this approval to be carried out. -/
def TaskRecord.On (task : TaskRecord) (approvalId : String) : Prop :=
  task.pendingResumeKind = some .approval ∧ task.pendingResumeId = some approvalId

/-- The call stores the outcome of a run on the approval. -/
def TaskCall.Concludes (taskId approvalId : String) : TaskCall → Prop
  | .saveTask (.outcome payload) task => task.taskId = taskId ∧ payload.On approvalId
  | _ => False

instance (taskId approvalId : String) (c : TaskCall) : Decidable (c.Concludes taskId approvalId) :=
  match c with
  | .saveTask (.outcome _) _ => inferInstanceAs (Decidable (_ ∧ _))
  | .saveTask .createTask _ | .saveTask .submitInput _ | .saveTask .submitApproval _
  | .saveTask .resumeTask _ | .saveTask (.handleMessage _) _ | .saveTask (.markRunning _) _
  | .saveTask (.handleFailure _) _ => .isFalse id
  | .setNew _ | .createScript .. | .deleteKey _ | .getTask .. | .transitionTask ..
  | .acquireTaskLease .. | .releaseTaskLease _ | .hasTaskLease _ | .appendEvent .. | .publish _
  | .publishRetry _ | .ack | .reject _ | .resolveProduct .. | .ledger _ | .run .. | .graph ..
  | .getCheckpoint _ | .putCheckpoint .. | .complete .. | .getMetrics .. | .executeTool ..
  | .enterNode .. | .schedule =>
      .isFalse id

/-- A process that looks at the record and returns is no longer blind. -/
def Watch.look (watch : Watch) (taskId : String) (i : ℕ) (c : TaskCall) (ch : TaskChoice) : Watch :=
  if c.looksAt taskId = true ∧ ch.ending = .done then
    { watch with blind := Function.update watch.blind i false }
  else watch

/-- What a call does to the approval that is owed: a move makes it so, unless one is
owed already, and the outcome of a run on it ends it. -/
def noteApproval (settings : Settings) (taskId : String) (i : ℕ) (c : TaskCall) (ch : TaskChoice)
    (w : World) (watch : Watch) : Watch :=
  if c.stores settings i ch w = true then
    match watch.awaited with
    | none =>
        match c.moved taskId with
        | some approvalId => ⟨some approvalId, fun j => decide (j ≠ i)⟩
        | none => watch.look taskId i c ch
    | some approvalId =>
        if c.Concludes taskId approvalId then { watch with awaited := none }
        else watch.look taskId i c ch
  else watch.look taskId i c ch

/-- The message after whose failure a call reads the record of the task. -/
def TaskCall.failedOn (taskId : String) : TaskCall → Option QueueMessage
  | .getTask (.handleFailure payload) id => if id = taskId then some payload else none
  | _ => none

/-- Where a call stores the record of the task without comparing it. -/
def TaskCall.savedAt (taskId : String) : TaskCall → Option Site
  | .saveTask site task => if task.taskId = taskId then some site else none
  | _ => none

/-- The record does not expire; while an approval is owed, `_handle_failure` reads the
record only for a message on it, and a process that stores the record has looked at
it since, or works on a message on the approval. -/
def watchedPolicy (taskId : String) :
    Policy TaskCall (World × Watch) TaskChoice TaskRequest TaskEnvironment where
  call i c ch s := ∀ approvalId ∈ s.2.awaited,
    (∀ payload ∈ c.failedOn taskId, ch.ending = .done → payload.On approvalId) ∧
      ∀ site ∈ c.savedAt taskId, ch.Effective →
        s.2.blind i = false ∨ ∃ payload ∈ site.payload, payload.On approvalId
  environment e _ := e ≠ .expireRecord taskId

/-- The same, where every record is sound. -/
def soundPolicy (taskId : String) :
    Policy TaskCall (World × Watch) TaskChoice TaskRequest TaskEnvironment where
  call i c ch s := (watchedPolicy taskId).call i c ch s ∧
    ∀ id task, s.1.records id = some task → task.PendingSound
  environment := (watchedPolicy taskId).environment

/-- The machine with the auxiliary variable. -/
abbrev watchedMachine (settings : Settings) (taskId : String) :
    Machine Exn TaskCall TaskCall.Reply (World × Watch) TaskChoice TaskRequest TaskResult
      TaskEnvironment :=
  (taskMachine settings arbitraryRun).observe (noteApproval settings taskId)

/-- The approval is the one recorded for the task. -/
def Recorded (taskId approvalId : String) (db : Ledger) : Prop :=
  ∃ row ∈ db.approvals, row.taskId = taskId ∧ row.approvalId = approvalId

theorem Recorded.grows {taskId approvalId : String} {db db' : Ledger}
    (h : Recorded taskId approvalId db) (hgrows : db.Grows db') :
    Recorded taskId approvalId db' := by
  obtain ⟨row, hrow, hcolumns⟩ := h
  exact ⟨row, hgrows.approvals row hrow, hcolumns⟩

/-- The record carries the approval that is owed. -/
structure Owed (taskId approvalId : String) (w : World) : Prop where
  carried : ∃ task, w.records taskId = some task ∧ task.On approvalId ∧ ¬ task.status.Settled
  recorded : Recorded taskId approvalId w.ledger

/-- The process knows that the approval is owed. -/
def Aware (approvalId : String) (i : ℕ) (watch : Watch) : Prop :=
  watch.awaited = some approvalId ∧ watch.blind i = false

/-- What is owed is carried by the record, the database grows, and nobody comes to
know of an approval by what others do. -/
def watchDiscipline (settings : Settings) (taskId : String) :
    Discipline (World × Watch) TaskRequest TaskResult where
  inv s := (s.1.ledger.Invariant settings.catalog ∧ s.1.Keyed) ∧
    ∀ approvalId, s.2.awaited = some approvalId → Owed taskId approvalId s.1
  rely
    | none, _, _ => True
    | some i, s, s' => s.1.ledger.Grows s'.1.ledger ∧
        ∀ approvalId, Aware approvalId i s'.2 → Aware approvalId i s.2
  post _ _ _ := True
  refl j s := by
    cases j with
    | none => trivial
    | some i => exact ⟨.refl _, fun _ => id⟩
  trans {j s s' s''} h h' := by
    cases j with
    | none => trivial
    | some i => exact ⟨h.1.trans h'.1, fun approvalId => h.2 approvalId ∘ h'.2 approvalId⟩
  post_stable _ _ := trivial

section Watch

variable {settings : Settings} {taskId : String} {i j : ℕ} {c : TaskCall} {ch : TaskChoice}
  {w w' : World} {watch : Watch} {r : Except Exn c.Reply} {approvalId : String}

@[simp] theorem look_awaited : (watch.look taskId i c ch).awaited = watch.awaited := by
  unfold Watch.look
  split <;> rfl

theorem look_blind (hj : j ≠ i ∨ c.looksAt taskId = false) :
    (watch.look taskId i c ch).blind j = watch.blind j := by
  unfold Watch.look
  split
  · next hlooks =>
      rcases hj with hj | hj
      · exact Function.update_of_ne hj ..
      · rw [hj] at hlooks
        cases hlooks.1
  · rfl

/-- An approval that is owed after a call was owed before it, or the call moved the
record to it. -/
theorem awaited_of_note
    (h : (noteApproval settings taskId i c ch w watch).awaited = some approvalId) :
    (watch.awaited = some approvalId ∧ (c.stores settings i ch w = true →
      ¬ c.Concludes taskId approvalId)) ∨
    (watch.awaited = none ∧ c.stores settings i ch w = true ∧
      c.moved taskId = some approvalId) := by
  unfold noteApproval at h
  split at h
  · next hstores =>
      split at h
      · next hnone =>
          split at h
          · next id hmoved =>
              cases h
              exact .inr ⟨hnone, hstores, hmoved⟩
          · rw [look_awaited, hnone] at h
            cases h
      · next id hsome =>
          split at h
          · cases h
          · next hconcludes =>
              rw [look_awaited, hsome] at h
              cases h
              exact .inl ⟨hsome, fun _ => hconcludes⟩
  · next hstores =>
      rw [look_awaited] at h
      exact .inl ⟨h, fun h => absurd h hstores⟩

theorem moved_of_not_looksAt (h : c.looksAt taskId = false) : c.moved taskId = none := by
  cases c with
  | transitionTask task status =>
      have hid : task.taskId ≠ taskId := by simpa [TaskCall.looksAt, TaskCall.written] using h
      simp [TaskCall.moved, hid]
  | _ => rfl

/-- A process comes to know of an approval only by a call of its own that looks. -/
theorem aware_of_note (hj : j ≠ i ∨ c.looksAt taskId = false)
    (h : Aware approvalId j (noteApproval settings taskId i c ch w watch)) :
    Aware approvalId j watch := by
  obtain ⟨hawaited, hblind⟩ := h
  rcases awaited_of_note hawaited with ⟨hwas, hconcludes⟩ | ⟨hnone, hstores, hmoved⟩
  · refine ⟨hwas, ?_⟩
    unfold noteApproval at hblind
    split at hblind
    · next hstores =>
        simp only [hwas, if_neg (hconcludes hstores)] at hblind
        rwa [look_blind hj] at hblind
    · rwa [look_blind hj] at hblind
  · rcases hj with hj | hlooks
    · simp [noteApproval, hstores, hnone, hmoved, hj] at hblind
    · rw [moved_of_not_looksAt hlooks] at hmoved
      cases hmoved

end Watch

section Rules

variable {settings : Settings} {taskId : String} {i : ℕ} {c : TaskCall} {ch : TaskChoice}
  {s s' : World × Watch} {r : Except Exn c.Reply} {approvalId : String}

/-- What a step of the process `i` owes to the others, when what it stores carries
the approval that is owed. -/
theorem watch_keeps (hc : c.KeepsPlans) (hinv : (watchDiscipline settings taskId).inv s)
    (hstore : ∀ task approvalId, c.written = some task → task.taskId = taskId →
      c.stores settings i ch s.1 = true → s'.2.awaited = some approvalId →
        task.On approvalId ∧ ¬ task.status.Settled ∧
          (s.2.awaited = none → Recorded taskId approvalId s.1.ledger))
    (h : (watchedMachine settings taskId).answer i c ch s = some (r, s')) :
    (watchDiscipline settings taskId).Keeps i s s' := by
  obtain ⟨hr, hwatch⟩ := Machine.observe_answer h
  have hagree := agreement_keeps_call hc hinv.1 hr
  have hgrows : s.1.ledger.Grows s'.1.ledger := hagree.2 none (by simp)
  refine ⟨⟨hagree.1, ?_⟩, fun j hj => ?_⟩
  · intro approvalId hawaited
    have hwas := awaited_of_note (hwatch ▸ hawaited)
    rcases stores_of_answer hr with ⟨hstores, -, reply, hrun, hwrote⟩ | ⟨hstores, hrecords⟩
    · obtain ⟨-, task, hwritten, hstored⟩ :=
        (wrote_of_execute hrun).resolve_right fun h => by
          rw [hwrote] at h
          cases h.1
      by_cases htask : task.taskId = taskId
      · obtain ⟨hon, hopen, hrecorded⟩ := hstore task approvalId hwritten htask hstores hawaited
        refine ⟨⟨task, by rw [hstored, World.store_records, if_pos htask.symm], hon, hopen⟩, ?_⟩
        rcases hwas with ⟨hwas, -⟩ | ⟨hnone, -, -⟩
        · exact (hinv.2 approvalId hwas).recorded.grows hgrows
        · exact (hrecorded hnone).grows hgrows
      · have hmoved : c.moved taskId = none := by
          cases c with
          | transitionTask task' status =>
              cases hwritten
              simp [TaskCall.moved, htask]
          | _ => rfl
        rcases hwas with ⟨hwas, -⟩ | ⟨-, -, hsome⟩
        · obtain ⟨⟨old, hold, hcarried⟩, hrecorded⟩ := hinv.2 approvalId hwas
          refine ⟨⟨old, ?_, hcarried⟩, hrecorded.grows hgrows⟩
          rw [hstored, World.store_records, if_neg (Ne.symm htask)]
          exact hold
        · rw [hmoved] at hsome
          cases hsome
    · rcases hwas with ⟨hwas, -⟩ | ⟨-, hsome, -⟩
      · obtain ⟨⟨old, hold, hcarried⟩, hrecorded⟩ := hinv.2 approvalId hwas
        exact ⟨⟨old, hrecords ▸ hold, hcarried⟩, hrecorded.grows hgrows⟩
      · rw [hstores] at hsome
        cases hsome
  · cases j with
    | none => trivial
    | some j =>
        refine ⟨hgrows, fun approvalId haware => ?_⟩
        exact aware_of_note (.inl fun heq => hj (congrArg some heq)) (hwatch ▸ haware)

/-- The protocol of the process `i`. -/
abbrev watchProtocol (settings : Settings) (taskId : String) (i : ℕ) :
    Protocol Exn TaskCall TaskCall.Reply (World × Watch) :=
  (watchDiscipline settings taskId).protocol (watchedMachine settings taskId) (soundPolicy taskId) i

/-- What a process that handles records knows about the approval that is owed. -/
def watchKnowledge (taskId : String) (i : ℕ) : Knowledge → World × Watch → Prop
  | .known task, s | .found _ task, s => task.PendingSound ∧ (task.taskId = taskId →
      ∀ approvalId, Aware approvalId i s.2 → task.On approvalId)
  | .approved task approvalId, s => Recorded task.taskId approvalId s.1.ledger
  | .stored task _, s => task.taskId = taskId → ∀ approvalId, Aware approvalId i s.2 →
      task.On approvalId
  | .matched payload task, s | .ran payload task _, s =>
      (task.pendingResumeKind = payload.resumeKind ∧ task.pendingResumeId = payload.resumeId) ∧
        (task.taskId = taskId → ∀ approvalId, Aware approvalId i s.2 → task.On approvalId)
  | .failing payload _ task, s => task.taskId = taskId → ∀ approvalId, Aware approvalId i s.2 →
      payload.On approvalId
  | .failed payload task, s => (∀ approvalId, payload.On approvalId → task.On approvalId) ∧
      (task.taskId = taskId → ∀ approvalId, Aware approvalId i s.2 → task.On approvalId)
  | _, _ => True

theorem watch_may_of_unwritten (hc : c.KeepsPlans) (hwritten : c.written = none) :
    (watchProtocol settings taskId i).may c s := by
  intro s₁ _ hinv ch r s₂ _ h
  apply watch_keeps hc hinv _ h
  intro task _ htask
  rw [hwritten] at htask
  cases htask

/-- What a process knows, and what the database has, is still so when it makes a
call that does not look at the record. -/
theorem watch_next (hc : c.KeepsPlans) (hlooks : c.looksAt taskId = false)
    (h : (watchProtocol settings taskId i).next c s r s') :
    s.1.ledger.Grows s'.1.ledger ∧
      ∀ approvalId, Aware approvalId i s'.2 → Aware approvalId i s.2 := by
  obtain ⟨s₁, ch, hrely, hinv, -, hanswer⟩ := h
  obtain ⟨hr, hwatch⟩ := Machine.observe_answer hanswer
  have hagree := agreement_keeps_call hc hinv.1 hr
  refine ⟨hrely.1.trans (hagree.2 none (by simp)), fun approvalId haware => ?_⟩
  exact hrely.2 approvalId (aware_of_note (.inr hlooks) (hwatch ▸ haware))

theorem watchKnowledge_later {k : Knowledge} (hgrows : s.1.ledger.Grows s'.1.ledger)
    (haware : ∀ approvalId, Aware approvalId i s'.2 → Aware approvalId i s.2)
    (hk : watchKnowledge taskId i k s) : watchKnowledge taskId i k s' := by
  cases k with
  | known task => exact ⟨hk.1, fun hid id h => hk.2 hid id (haware id h)⟩
  | found payload task => exact ⟨hk.1, fun hid id h => hk.2 hid id (haware id h)⟩
  | approved task id => exact Recorded.grows hk hgrows
  | stored task past => exact fun hid id h => hk hid id (haware id h)
  | matched payload task => exact ⟨hk.1, fun hid id h => hk.2 hid id (haware id h)⟩
  | ran payload task outcome => exact ⟨hk.1, fun hid id h => hk.2 hid id (haware id h)⟩
  | failing payload exc task => exact fun hid id h => hk hid id (haware id h)
  | failed payload task => exact ⟨hk.1, fun hid id h => hk.2 hid id (haware id h)⟩
  | received | holding | missing | concluded | raised | settled => trivial

/-- What a process has just stored carries the approval that is owed. -/
theorem on_of_wrote {reply : c.Reply} {task : TaskRecord}
    (hmay : (watchProtocol settings taskId i).may c s)
    (h : (watchProtocol settings taskId i).next c s (.ok reply) s') (hwrote : c.wrote reply = true)
    (hwritten : c.written = some task) (hid : task.taskId = taskId) (approvalId : String)
    (hawaited : s'.2.awaited = some approvalId) : task.On approvalId := by
  obtain ⟨s₁, ch, hrely, hinv, hpermit, hanswer⟩ := h
  have hkeeps := hmay s₁ hrely hinv ch _ s' hpermit hanswer
  obtain ⟨⟨task', htask', hon, -⟩, -⟩ := hkeeps.1.2 approvalId hawaited
  have hrun := execute_of_answer (Machine.observe_answer hanswer).1
  rcases wrote_of_execute hrun with ⟨-, task'', hwritten', hstored⟩ | ⟨hnot, -⟩
  · cases hwritten.symm.trans hwritten'
    rw [hstored, World.store_records, if_pos hid.symm] at htask'
    cases htask'
    exact hon
  · rw [hwrote] at hnot
    cases hnot

/-- To store a record without comparing is allowed to a process whose record carries
every approval that it knows of, or that its message is on. -/
theorem watch_may_save {site : Site} {task : TaskRecord}
    (hsettled : ¬ task.status.Settled)
    (hk : task.taskId = taskId → ∀ approvalId, Aware approvalId i s.2 → task.On approvalId)
    (hsite : ∀ payload ∈ site.payload, ∀ approvalId, payload.On approvalId →
      task.On approvalId) :
    (watchProtocol settings taskId i).may (.saveTask site task) s := by
  intro s₁ hrely hinv ch r s₂ hpermit h
  apply watch_keeps (by simp [TaskCall.KeepsPlans]) hinv _ h
  intro task' approvalId htask hid hstores hawaited
  cases htask
  obtain ⟨hr, hwatch⟩ := Machine.observe_answer h
  obtain ⟨hwas, -⟩ := (awaited_of_note (hwatch ▸ hawaited)).resolve_right fun h => by cases h.2.2
  have heffective := ((stores_of_answer hr).resolve_right fun h => by
    rw [hstores] at h
    cases h.1).2.1
  refine ⟨?_, hsettled, fun hnone => by rw [hnone] at hwas; cases hwas⟩
  rcases (hpermit.1 approvalId hwas).2 site (by simp [TaskCall.savedAt, hid]) heffective with
    hseen | ⟨payload, hpayload, hon⟩
  · exact hk hid approvalId (hrely.2 approvalId ⟨hwas, hseen⟩)
  · exact hsite payload hpayload approvalId hon

/-- The outcome of a run is stored when the run was on the approval that is owed, if any. -/
theorem watch_may_outcome {payload : QueueMessage} {task : TaskRecord}
    (hk : task.taskId = taskId → ∀ approvalId, Aware approvalId i s.2 → payload.On approvalId) :
    (watchProtocol settings taskId i).may (.saveTask (.outcome payload) task) s := by
  intro s₁ hrely hinv ch r s₂ hpermit h
  apply watch_keeps (by simp [TaskCall.KeepsPlans]) hinv _ h
  intro task' approvalId htask hid hstores hawaited
  cases htask
  obtain ⟨hr, hwatch⟩ := Machine.observe_answer h
  obtain ⟨hwas, hconcludes⟩ :=
    (awaited_of_note (hwatch ▸ hawaited)).resolve_right fun h => by cases h.2.2
  have heffective := ((stores_of_answer hr).resolve_right fun h => by
    rw [hstores] at h
    cases h.1).2.1
  refine absurd ⟨hid, ?_⟩ (hconcludes hstores)
  rcases (hpermit.1 approvalId hwas).2 (.outcome payload) (by simp [TaskCall.savedAt, hid])
    heffective with hseen | ⟨payload', hpayload, hon⟩
  · exact hk hid approvalId (hrely.2 approvalId ⟨hwas, hseen⟩)
  · cases hpayload
    exact hon

/-- A record that carries the owed approval is there, and waits for no outcome. -/
theorem Owed.open {w : World} {task : TaskRecord} (h : Owed taskId approvalId w)
    (htask : w.records taskId = some task) : task.On approvalId ∧ ¬ task.status.Settled := by
  obtain ⟨⟨task', htask', hopen⟩, -⟩ := h
  cases htask'.symm.trans htask
  exact hopen

/-- A new record is stored only where there is none. -/
theorem absent_of_created {task : TaskRecord} {idempotencyKey : String} {w w' : World}
    {reply : c.Reply} (hc : c = .setNew task ∨ c = .createScript task idempotencyKey)
    (h : c.execute settings i ch w = .ok (reply, w')) (hwrote : c.wrote reply = true) :
    w.records task.taskId = none := by
  rcases hc with rfl | rfl
  · simp only [TaskCall.execute] at h
    split at h
    · cases h
      cases hwrote
    · assumption
  · simp only [TaskCall.execute] at h
    split at h
    · cases h
      cases hwrote
    · split at h
      · cases h
        cases hwrote
      · assumption

/-- Where a new record is stored no approval is owed. -/
theorem watch_may_create {task : TaskRecord} (idempotencyKey : String)
    (hc : c = .setNew task ∨ c = .createScript task idempotencyKey) :
    (watchProtocol settings taskId i).may c s := by
  intro s₁ _ hinv ch r s₂ _ h
  apply watch_keeps _ hinv _ h
  · rcases hc with rfl | rfl <;> simp [TaskCall.KeepsPlans]
  intro task' approvalId htask hid hstores hawaited
  obtain ⟨hr, hwatch⟩ := Machine.observe_answer h
  obtain ⟨-, -, reply, hrun, hwrote⟩ := (stores_of_answer hr).resolve_right fun h => by
    rw [hstores] at h
    cases h.1
  obtain ⟨hwas, -⟩ := (awaited_of_note (hwatch ▸ hawaited)).resolve_right fun h => by
    rcases hc with rfl | rfl <;> cases h.2.2
  obtain ⟨⟨old, hold, -⟩, -⟩ := hinv.2 approvalId hwas
  have hcreated : c.written = some task := by rcases hc with rfl | rfl <;> rfl
  cases htask.symm.trans hcreated
  have habsent := absent_of_created hc hrun hwrote
  rw [hid, hold] at habsent
  cases habsent

/-- A transition finds a record with the status that it expects. -/
theorem current_of_transition {task : TaskRecord} {status : TaskStatus} {w w' : World}
    {reply : Bool}
    (h : (TaskCall.transitionTask task status).execute settings i ch w = .ok (reply, w'))
    (hreply : reply = true) : ∃ current, w.records task.taskId = some current ∧
      current.status = status := by
  subst hreply
  simp only [TaskCall.execute] at h
  split at h
  · cases h
  · next current hcurrent =>
      split at h
      · cases h
      · next hstatus => exact ⟨current, hcurrent, not_not.1 hstatus⟩

/-- A transition takes a record that waits for no approval, or it repeats the
approval of a failed publish, and there is only one of the task. -/
theorem watch_may_transition {task : TaskRecord} {status : TaskStatus}
    (hopen : ¬ task.status.Settled)
    (happroval : ∀ approvalId, task.On approvalId → Recorded task.taskId approvalId s.1.ledger)
    (hstatus : status.Settled ∨ (status = .failed ∧ ∃ approvalId, task.On approvalId)) :
    (watchProtocol settings taskId i).may (.transitionTask task status) s := by
  intro s₁ hrely hinv ch r s₂ _ h
  apply watch_keeps (by simp [TaskCall.KeepsPlans]) hinv _ h
  intro task' approvalId htask hid hstores hawaited
  cases htask
  subst hid
  obtain ⟨hr, hwatch⟩ := Machine.observe_answer h
  have hrecorded : ∀ approvalId, task.On approvalId →
      Recorded task.taskId approvalId s₁.1.ledger := fun id hon =>
    (happroval id hon).grows hrely.1
  obtain ⟨-, -, reply, hrun, hwrote⟩ := (stores_of_answer hr).resolve_right fun h => by
    rw [hstores] at h
    cases h.1
  obtain ⟨current, hcurrent, hexpected⟩ := current_of_transition hrun hwrote
  rcases awaited_of_note (hwatch ▸ hawaited) with ⟨hwas, -⟩ | ⟨-, -, hmoved⟩
  · have howed := hinv.2 approvalId hwas
    refine ⟨?_, hopen, fun _ => howed.recorded⟩
    rcases hstatus with hsettled | ⟨-, approvalId', hon⟩
    · exact absurd (hexpected ▸ hsettled) (howed.open hcurrent).2
    · obtain ⟨row, hrow, htask, hid⟩ := hrecorded approvalId' hon
      obtain ⟨row', hrow', htask', hid'⟩ := howed.recorded
      have heq : row = row' := eq_of_approvalTask hrow hrow' (htask.trans htask'.symm)
      rw [← hid', ← heq, hid]
      exact hon
  · have hon : task.On approvalId := by
      simp only [TaskCall.moved, true_and] at hmoved
      split at hmoved
      · next hkind => exact ⟨hkind, hmoved⟩
      · cases hmoved
    exact ⟨hon, hopen, fun _ => hrecorded approvalId hon⟩

/-- What a process learns when it reads a record. -/
theorem watch_read {site : Site} {id : String} {task : TaskRecord}
    (h : (watchProtocol settings taskId i).next (.getTask site id) s (.ok (some task)) s') :
    task.taskId = id ∧ watchKnowledge taskId i (.known task) s' := by
  obtain ⟨s₁, ch, -, hinv, hpermit, hanswer⟩ := h
  obtain ⟨hr, hwatch⟩ := Machine.observe_answer hanswer
  obtain ⟨hfound, -⟩ := read_of_answer hr
  have hid := hinv.1.2 id task hfound.symm
  refine ⟨hid, hpermit.2 id task hfound.symm, ?_⟩
  intro htask approvalId haware
  have hwas := awaited_of_note (hwatch ▸ haware.1)
  have hstored : s₁.1.records taskId = some task := by rw [← htask, hid, ← hfound]
  exact ((hinv.2 approvalId (hwas.resolve_right fun h => by cases h.2.2).1).open hstored).1

/-- A handler that reads the record after a failure is on the approval that is owed. -/
theorem watch_readFailure {payload : QueueMessage} {id : String} {task : TaskRecord} {exc : Exn}
    (h : (watchProtocol settings taskId i).next (.getTask (.handleFailure payload) id) s
      (.ok (some task)) s') : watchKnowledge taskId i (.failing payload exc task) s' := by
  have hid := (watch_read h).1
  obtain ⟨s₁, ch, -, -, hpermit, hanswer⟩ := h
  obtain ⟨hr, hwatch⟩ := Machine.observe_answer hanswer
  intro htask approvalId haware
  have hwas := awaited_of_note (hwatch ▸ haware.1)
  refine (hpermit.1 approvalId (hwas.resolve_right fun h => by cases h.2.2).1).1 payload ?_
    (done_of_answer hr)
  simp [TaskCall.failedOn, hid.symm.trans htask]

theorem watchOutline :
    Outline settings (watchProtocol settings taskId i) (watchKnowledge taskId i) where
  neutral c s hc := by
    have hplans : c.KeepsPlans := by
      intro lc heq
      cases c with
      | ledger c =>
          cases heq
          constructor <;> rintro _ rfl <;> cases hc
      | graph threadId c => cases hc
      | _ => cases heq
    have hwritten : c.written = none := by
      cases c <;> first | rfl | cases hc
    have hlooks : c.looksAt taskId = false := by
      cases c <;> first | rfl | cases hc
    refine ⟨watch_may_of_unwritten hplans hwritten, fun r s' h k hk => ?_⟩
    obtain ⟨hgrows, haware⟩ := watch_next hplans hlooks h
    exact watchKnowledge_later hgrows haware hk
  acquire payload ttl s _ := by
    refine ⟨watch_may_of_unwritten (by simp [TaskCall.KeepsPlans]) rfl, fun b _ _ => ?_⟩
    cases b <;> trivial
  delay payload s _ := watch_may_of_unwritten (by simp [TaskCall.KeepsPlans]) rfl
  release payload s _ := watch_may_of_unwritten (by simp [TaskCall.KeepsPlans]) rfl
  read site id s _ :=
    ⟨watch_may_of_unwritten (by simp [TaskCall.KeepsPlans]) rfl, fun _ _ h => watch_read h⟩
  readMessage payload s _ :=
    ⟨watch_may_of_unwritten (by simp [TaskCall.KeepsPlans]) rfl, fun _ _ h => watch_read h,
      fun _ _ => trivial, fun _ _ _ => trivial⟩
  dismiss payload s _ := ⟨fun _ _ => trivial, fun _ _ _ => trivial⟩
  ignore payload task s _ := ⟨fun _ _ => trivial, fun _ _ _ => trivial⟩
  raise payload c e s s' _ _ _ := trivial
  concluded payload s _ := trivial
  readFailure payload exc s _ :=
    ⟨watch_may_of_unwritten (by simp [TaskCall.KeepsPlans]) rfl,
      fun _ _ h => ⟨(watch_read h).1, watch_readFailure h⟩, fun _ _ => trivial,
      fun _ _ _ => trivial⟩
  failed payload task s _ := trivial
  setNew request s := by
    have hmay : (watchProtocol settings taskId i).may (.setNew request.record) s :=
      watch_may_create "" (.inl rfl)
    exact ⟨hmay, fun s' h hid approvalId haware =>
      on_of_wrote hmay h rfl rfl hid approvalId haware.1⟩
  createScript request key s := by
    have hmay : (watchProtocol settings taskId i).may (.createScript request.record key) s :=
      watch_may_create key (.inr rfl)
    exact ⟨hmay, fun _ s' h hid approvalId haware =>
      on_of_wrote hmay h rfl rfl hid approvalId haware.1⟩
  input task productId s _ _ := by
    have hmay : (watchProtocol settings taskId i).may
        (.transitionTask (task.withInput productId) .awaitingInput) s := by
      apply watch_may_transition
      · simp [TaskRecord.withInput, TaskStatus.Settled]
      · intro approvalId hon
        cases hon.1
      · exact .inl (by simp [TaskStatus.Settled])
    exact ⟨hmay, fun s' h hid approvalId haware =>
      on_of_wrote hmay h rfl rfl hid approvalId haware.1⟩
  record request task s _ htask := by
    refine ⟨watch_may_of_unwritten (by simp [TaskCall.KeepsPlans]) rfl, fun approvalId s' h => ?_⟩
    obtain ⟨s₁, ch, -, hinv, -, hanswer⟩ := h
    have hrun := Ending.answer_ok
      (Option.some.inj (ledgerMachine_of_answer (Machine.observe_answer hanswer).1).1)
    rw [htask] at hrun
    obtain ⟨row, hrow, hid, hrowTask, -⟩ :=
      agreed_of_recordApproval { request with merchantId := task.merchantId } hinv.1.1 hrun
    exact ⟨row, hrow, hrowTask.trans htask.symm, hid⟩
  approval task approvalId status s hk hstatus := by
    have hmay : (watchProtocol settings taskId i).may
        (.transitionTask (task.withApproval approvalId) status) s := by
      apply watch_may_transition
      · simp [TaskRecord.withApproval, TaskStatus.Settled]
      · intro id hon
        cases hon.2
        exact hk
      · simp only [List.mem_cons, List.not_mem_nil, or_false] at hstatus
        rcases hstatus with rfl | rfl
        · exact .inl (by simp [TaskStatus.Settled])
        · exact .inr ⟨rfl, approvalId, rfl, rfl⟩
    exact ⟨hmay, fun s' h hid id haware => on_of_wrote hmay h rfl rfl hid id haware.1⟩
  resumed task s hk hstatus := by
    have hmay : (watchProtocol settings taskId i).may (.saveTask .resumeTask task.resumed) s := by
      apply watch_may_save
      · simp [TaskRecord.resumed, TaskStatus.Settled]
      · intro hid approvalId haware
        have hon := hk.2 hid approvalId haware
        simp [TaskRecord.On, TaskRecord.resumed, TaskRecord.resumption, hon.1, hon.2]
      · intro payload hpayload
        cases hpayload
    exact ⟨hmay, fun s' h hid id haware => on_of_wrote hmay h rfl rfl hid id haware.1⟩
  publish task past payload s hk _ := by
    refine ⟨watch_may_of_unwritten (by simp [TaskCall.KeepsPlans]) rfl, fun e s' h => ?_⟩
    obtain ⟨hgrows, haware⟩ := watch_next (by simp [TaskCall.KeepsPlans]) rfl h
    exact watchKnowledge_later hgrows haware hk
  publishFailed site task past errorMessage interaction s hk _ _ hsite := by
    apply watch_may_save
    · simp [TaskRecord.publishFailed, TaskStatus.Settled]
    · exact hk
    · intro payload hpayload
      rw [hsite] at hpayload
      cases hpayload
  started payload task s hk htask hrunnable hmatches := by
    obtain ⟨-, hkind, hid⟩ :=
      (matchesPendingMessage_iff (hk.1.pendingAttempt_ne_none hrunnable)).1 hmatches
    have hmay : (watchProtocol settings taskId i).may
        (.saveTask (.markRunning payload) (task.started payload)) s := by
      apply watch_may_save
      · simp [TaskRecord.started, TaskStatus.Settled]
      · exact hk.2
      · rintro payload' ⟨⟩ approvalId hon
        exact ⟨hkind.trans hon.1, hid.trans hon.2⟩
    exact ⟨hmay, fun s' h => ⟨⟨hkind, hid⟩, fun htask id haware =>
      on_of_wrote hmay h rfl rfl htask id haware.1⟩, fun _ _ _ => trivial⟩
  outcome payload task outcome s hk := by
    refine ⟨watch_may_outcome ?_, fun _ _ => trivial, fun _ _ _ => trivial⟩
    intro hid approvalId haware
    have hon := hk.2 hid approvalId haware
    exact ⟨hk.1.1.symm.trans hon.1, hk.1.2.symm.trans hon.2⟩
  failedRun payload exc task graphStarted status s hk htask hstatus _ := by
    have hretried : ∀ approvalId, payload.On approvalId →
        (task.failedRun payload exc graphStarted status).On approvalId := by
      rintro approvalId ⟨hkind, hid⟩
      simp [TaskRecord.On, TaskRecord.failedRun, retryResumption, hkind, hid]
    have hmay : (watchProtocol settings taskId i).may (.saveTask (.handleFailure payload)
        (task.failedRun payload exc graphStarted status)) s := by
      apply watch_may_save
      · simp only [List.mem_cons, List.not_mem_nil, or_false] at hstatus
        rcases hstatus with rfl | rfl <;> simp [TaskRecord.failedRun, TaskStatus.Settled]
      · exact fun hid approvalId haware => hretried approvalId (hk hid approvalId haware)
      · rintro payload' ⟨⟩
        exact hretried
    exact ⟨hmay, fun s' h => ⟨hretried, fun hid id haware =>
      on_of_wrote hmay h rfl rfl hid id haware.1⟩, fun _ _ _ => trivial⟩
  publishRetry payload task retryPayload s hk _ _ := by
    refine ⟨watch_may_of_unwritten (by simp [TaskCall.KeepsPlans]) rfl, fun r s' h => ?_⟩
    obtain ⟨hgrows, haware⟩ := watch_next (by simp [TaskCall.KeepsPlans]) rfl h
    exact watchKnowledge_later hgrows haware hk
  retryFailed payload task errorMessage interaction s hk _ _ _ := by
    refine ⟨watch_may_save ?_ ?_ ?_, fun _ _ _ => trivial⟩
    · simp [TaskRecord.publishFailed, TaskStatus.Settled]
    · exact hk.2
    · rintro payload' ⟨⟩
      exact hk.1

theorem watch_runs (payload : QueueMessage) :
    Outline.Runs (watchProtocol settings taskId i) (watchKnowledge taskId i) arbitraryRun
      payload := by
  intro task s hk
  refine ⟨watch_may_of_unwritten (by simp [TaskCall.KeepsPlans]) rfl, fun r s' h => ?_⟩
  cases r with
  | error e => trivial
  | ok outcome =>
      obtain ⟨hgrows, haware⟩ := watch_next (by simp [TaskCall.KeepsPlans]) rfl h
      exact watchKnowledge_later (k := .matched payload task) hgrows haware hk

/-- What leaves the record of the task and the database alone keeps the discipline. -/
theorem watch_frame {w w' : World} {watch : Watch}
    (hinv : (watchDiscipline settings taskId).inv (w, watch)) (hkeyed : w'.Keyed)
    (hrecords : w'.records taskId = w.records taskId) (hgrows : w.ledger.Grows w'.ledger)
    (hledger : w'.ledger.Invariant settings.catalog) :
    (watchDiscipline settings taskId).inv (w', watch) ∧
      ∀ j, (watchDiscipline settings taskId).rely j (w, watch) (w', watch) := by
  refine ⟨⟨⟨hledger, hkeyed⟩, fun approvalId hawaited => ?_⟩, fun j => ?_⟩
  · obtain ⟨⟨task, htask, hopen⟩, hrecorded⟩ := hinv.2 approvalId hawaited
    exact ⟨⟨task, hrecords.trans htask, hopen⟩, hrecorded.grows hgrows⟩
  · cases j with
    | none => trivial
    | some j => exact ⟨hgrows, fun _ => id⟩

/-- A program of the repository is as safe here as in a ledger of its own. -/
theorem watch_liftLedger {α : Type} {p : LedgerProgram α} {Q : α → Ledger → Prop}
    {E : Exn → Ledger → Prop}
    (hp : (ledgerDiscipline settings.catalog).Safe (ledgerMachine settings.catalog) .any i Q E p
      s.1.ledger) :
    (watchDiscipline settings taskId).Safe (watchedMachine settings taskId) (soundPolicy taskId) i
      (fun a s => Q a s.1.ledger) (fun e s => E e s.1.ledger) (liftLedger p) s := by
  refine Discipline.Safe.lift (f := TaskCall.ledger)
    (fun s s' (h : (watchDiscipline settings taskId).rely (some i) s s') => h.1)
    (fun s (hinv : (watchDiscipline settings taskId).inv s) => hinv.1.1) ?_ ?_ hp
  · intro c ch s r s' h
    obtain ⟨hr, -⟩ := Machine.observe_answer h
    exact ⟨⟨ch.token, ch.ending⟩, trivial, (ledgerMachine_of_answer hr).1⟩
  · intro c ch s r s' hinv h hkeeps
    obtain ⟨hr, hwatch⟩ := Machine.observe_answer h
    have hrecords : s'.1.records = s.1.records := by
      rcases records_of_answer hr with hsame | ⟨task, htask, -⟩
      · exact hsame
      · cases htask
    have hsame : s'.2 = s.2 := by
      have hstores : (TaskCall.ledger c).stores settings i ch s.1 = false := by
        rcases stores_of_answer hr with ⟨-, -, reply, -, hwrote⟩ | ⟨hstores, -⟩
        · cases hwrote
        · exact hstores
      rw [hwatch]
      simp [noteApproval, hstores, Watch.look, TaskCall.looksAt, TaskCall.written]
    obtain ⟨w', watch⟩ := s'
    cases hsame
    have hframe := watch_frame hinv (hinv.1.2.answer hr) (congrFun hrecords taskId)
      (hkeeps.2 none (by simp)) hkeeps.1
    exact ⟨hframe.1, fun j _ => hframe.2 j⟩

theorem watch_safe (q : TaskRequest) (hinv : s.1.ledger.Invariant settings.catalog) :
    (watchDiscipline settings taskId).Safe (watchedMachine settings taskId) (soundPolicy taskId) i
      ((watchDiscipline settings taskId).post q) (fun _ _ => True)
      (q.program settings arbitraryRun) s := by
  by_cases hq : ∃ request, q = .ledger request
  · obtain ⟨request, rfl⟩ := hq
    apply Discipline.Safe.handle
    apply Discipline.Safe.imp _ (fun _ _ _ => trivial)
      (watch_liftLedger (ledgerSound.start i request _ _ hinv trivial rfl).2)
    exact fun _ _ _ => trivial
  · apply Discipline.Safe.of_follows
    apply watchOutline.follows_program watch_runs
    · exact fun request heq => hq ⟨request, heq⟩
    · exact fun _ _ => trivial

theorem watchSound :
    (watchDiscipline settings taskId).Sound (watchedMachine settings taskId)
      (soundPolicy taskId) where
  start i q s s' hinv _ haccept := by
    obtain ⟨w, watch⟩ := s
    obtain ⟨w', haccepted, heq⟩ := Option.map_eq_some_iff.1 haccept
    cases heq
    have hrecords := records_of_accept haccepted
    have hledger := ledger_of_accept haccepted
    have hframe := watch_frame hinv (hinv.1.2.of_records hrecords) (congrFun hrecords taskId)
      (hledger ▸ .refl _) (hledger ▸ hinv.1.1)
    exact ⟨⟨hframe.1, fun j _ => hframe.2 j⟩, watch_safe q hframe.1.1.1⟩
  crash i s hinv _ := by
    obtain ⟨w, watch⟩ := s
    have hframe := watch_frame hinv (hinv.1.2.of_records (w.requeue_records i))
      (congrFun (w.requeue_records i) taskId) (w.requeue_ledger i ▸ .refl _)
      (w.requeue_ledger i ▸ hinv.1.1)
    exact ⟨hframe.1, fun j _ => hframe.2 j⟩
  environment e s s' hinv hpermit henv := by
    obtain ⟨w, watch⟩ := s
    obtain ⟨w', hchange, heq⟩ := Option.map_eq_some_iff.1 henv
    cases heq
    have hledger := ledger_of_environment hchange
    exact watch_frame hinv (hinv.1.2.environment hchange) (records_of_unexpired hchange hpermit)
      (hledger ▸ .refl _) (hledger ▸ hinv.1.1)

end Rules

/-- The approval that a step of a run moves the record of the task to, if any. -/
def movedBy (settings : Settings) (taskId : String) (v : TaskConfig × TaskAction) :
    Option String :=
  Machine.noteStep
    (fun i c ch w _ => if c.stores settings i ch w = true then c.moved taskId else none) v none

/-- The step stores the outcome of a run on the approval. -/
def concludedBy (settings : Settings) (taskId approvalId : String) (v : TaskConfig × TaskAction) :
    Bool :=
  Machine.noteStep (fun i c ch w _ => c.stores settings i ch w &&
    decide (c.Concludes taskId approvalId)) v false

section History

variable {settings : Settings} {taskId approvalId : String} {v : TaskConfig × TaskAction}
  {watch : Watch}

/-- A step that moves the record leaves its approval owed, or another one that was
owed before. -/
theorem awaited_of_moved (watch : Watch) (h : movedBy settings taskId v = some approvalId) :
    ∃ approvalId', (Machine.noteStep (noteApproval settings taskId) v watch).awaited =
      some approvalId' := by
  unfold movedBy Machine.noteStep at h
  unfold Machine.noteStep
  split at h
  · next i ch haction =>
      split at h
      · next q cl k hslot =>
          beta_reduce at h
          split at h
          · next hstores =>
              cases hawaited : watch.awaited with
              | none => exact ⟨approvalId, by simp [noteApproval, hstores, hawaited, h]⟩
              | some approvalId' =>
                  have hconcludes : ¬ cl.Concludes taskId approvalId' := by
                    cases cl with
                    | transitionTask task status => exact id
                    | _ => cases h
                  exact ⟨approvalId', by simp [noteApproval, hstores, hawaited, hconcludes]⟩
          · cases h
      · cases h
  · cases h

/-- What is owed stays owed until a step concludes it. -/
theorem awaited_of_unconcluded (hawaited : watch.awaited = some approvalId)
    (h : concludedBy settings taskId approvalId v = false) :
    (Machine.noteStep (noteApproval settings taskId) v watch).awaited = some approvalId := by
  unfold concludedBy Machine.noteStep at h
  unfold Machine.noteStep
  split at h
  · next i ch haction =>
      split at h
      · next q cl k hslot =>
          simp only [Bool.and_eq_false_iff, decide_eq_false_iff_not] at h
          unfold noteApproval
          split
          · next hstores =>
              have hconcludes := h.resolve_left (by simp [hstores])
              simp [hawaited, hconcludes]
          · rw [look_awaited, hawaited]
      · exact hawaited
  · exact hawaited

/-- An approval that is owed after a step was owed before, or the step moved the
record to it. -/
theorem awaited_of_noteStep
    (h : (Machine.noteStep (noteApproval settings taskId) v watch).awaited = some approvalId) :
    (watch.awaited = some approvalId ∧ concludedBy settings taskId approvalId v = false) ∨
      movedBy settings taskId v = some approvalId := by
  unfold Machine.noteStep at h
  unfold concludedBy movedBy Machine.noteStep
  split at h
  · next i ch haction =>
      split at h
      · next q cl k hslot =>
          rcases awaited_of_note h with ⟨hwas, hconcludes⟩ | ⟨-, hstores, hmoved⟩
          · refine .inl ⟨hwas, ?_⟩
            rw [Bool.and_eq_false_iff, decide_eq_false_iff_not]
            by_cases hstores : cl.stores settings i ch v.1.state = true
            · exact .inr (hconcludes hstores)
            · exact .inl (Bool.eq_false_of_not_eq_true hstores)
          · exact .inr (by simp [hstores, hmoved])
      · exact .inl ⟨h, rfl⟩
  · exact .inl ⟨h, rfl⟩

/-- An approval is owed since a step moved the record to it, and none concluded it. -/
theorem moved_of_awaited (h : List (TaskConfig × TaskAction))
    (hawaited : (Machine.tally (noteApproval settings taskId) .fresh h).awaited =
      some approvalId) :
    ∃ h₁ v h₂, h = h₁ ++ v :: h₂ ∧ movedBy settings taskId v = some approvalId ∧
      ∀ u ∈ h₂, concludedBy settings taskId approvalId u = false := by
  induction h using List.reverseRecOn with
  | nil => cases hawaited
  | append_singleton h v ih =>
      rw [Machine.tally_snoc] at hawaited
      rcases awaited_of_noteStep hawaited with ⟨hwas, hopen⟩ | hmoved
      · obtain ⟨h₁, v', h₂, rfl, hmoved, hrest⟩ := ih hwas
        refine ⟨h₁, v', h₂ ++ [v], by simp, hmoved, ?_⟩
        intro u hu
        rcases List.mem_append.1 hu with hu | hu
        · exact hrest u hu
        · rw [List.mem_singleton.1 hu]
          exact hopen
      · exact ⟨h, v, [], rfl, hmoved, by simp⟩

/-- The record that a step has moved to an approval carries it. -/
theorem on_of_moved {c : TaskConfig} (h : movedBy settings taskId v = some approvalId)
    (hstep : (taskMachine settings arbitraryRun).step v.2 v.1 = some c) :
    ∃ task, c.state.records taskId = some task ∧ task.On approvalId := by
  unfold movedBy Machine.noteStep at h
  split at h
  · next i ch haction =>
      split at h
      · next q cl k hslot =>
          beta_reduce at h
          split at h
          · next hstores =>
              rw [haction] at hstep
              obtain ⟨q', cl', k', r, w, hslot', hanswer, rfl⟩ := Machine.step_call _ hstep
              cases hslot.symm.trans hslot'
              rcases stores_of_answer hanswer with ⟨-, -, reply, hrun, hwrote⟩ | ⟨hnot, -⟩
              · obtain ⟨-, task, hwritten, hstored⟩ :=
                  (wrote_of_execute hrun).resolve_right fun h => by
                    rw [hwrote] at h
                    cases h.1
                cases cl with
                | transitionTask task' status =>
                    cases hwritten
                    simp only [TaskCall.moved] at h
                    split at h
                    · next hmoved =>
                        refine ⟨task, ?_, hmoved.2, h⟩
                        rw [hstored, World.store_records, if_pos hmoved.1.symm]
                    · cases h
                | _ => cases h
              · rw [hstores] at hnot
                cases hnot
          · cases h
      · cases h
  · cases h

variable {h : List (TaskConfig × TaskAction)} {c : TaskConfig}

/-- In a watched run the record carries what is owed. -/
theorem owed_of_awaited
    (run : (taskMachine settings arbitraryRun).Run .any (.initial World.fresh) h c)
    (hwatched : ∀ h₁ v h₂, h = h₁ ++ v :: h₂ → (watchedPolicy taskId).permits
      (v.1.observed (Machine.tally (noteApproval settings taskId) .fresh h₁)) v.2)
    (hawaited : (Machine.tally (noteApproval settings taskId) .fresh h).awaited =
      some approvalId) : Owed taskId approvalId c.state := by
  have hsound : ∀ h₁ v h₂, h = h₁ ++ v :: h₂ → (soundPolicy taskId).permits
      (v.1.observed (Machine.tally (noteApproval settings taskId) .fresh h₁)) v.2 := by
    rintro h₁ ⟨c₁, action⟩ h₂ heq
    have hpermits := hwatched h₁ _ h₂ heq
    have hholds := pendingHolds (run.before heq).1
    cases action with
    | call i ch =>
        cases hslot : c₁.pool i with
        | running q p =>
            cases p with
            | call cl k =>
                simp only [Policy.permits, Config.observed, hslot] at hpermits ⊢
                exact ⟨hpermits, fun id task htask => (hholds.inv id task htask).2⟩
            | _ => simp [Policy.permits, Config.observed, hslot]
        | _ => simp [Policy.permits, Config.observed, hslot]
    | start i q => trivial
    | crash i => trivial
    | environment e => exact hpermits
  obtain ⟨h', run', -⟩ := run.observe _ hsound
  have hfresh : (watchDiscipline settings taskId).inv (World.fresh, .fresh) :=
    ⟨⟨.fresh, World.keyed_fresh⟩, fun _ heq => by cases heq⟩
  exact (watchSound.run hfresh run').1.inv.2 approvalId hawaited

/-- Over every run of API calls, handlers and repository operations, with any call
raising and any process crashing: if each step is watched, a record moved to an
approval carries it until the outcome of a run on it is stored. -/
theorem approvals_kept
    (run : (taskMachine settings arbitraryRun).Run .any (.initial World.fresh) h c)
    (taskId : String)
    (hwatched : ∀ h₁ v h₂, h = h₁ ++ v :: h₂ → (watchedPolicy taskId).permits
      (v.1.observed (Machine.tally (noteApproval settings taskId) .fresh h₁)) v.2) :
    ∀ h₁ v h₂ approvalId, h = h₁ ++ v :: h₂ → movedBy settings taskId v = some approvalId →
      (∀ u ∈ h₂, concludedBy settings taskId approvalId u = false) →
        ∃ task, c.state.records taskId = some task ∧
          task.pendingResumeKind = some .approval ∧ task.pendingResumeId = some approvalId := by
  have hawaited : ∀ h₁ v h₂ approvalId, h = h₁ ++ v :: h₂ →
      movedBy settings taskId v = some approvalId →
        (∀ u ∈ h₂, concludedBy settings taskId approvalId u = false) →
          (Machine.tally (noteApproval settings taskId) .fresh h).awaited = some approvalId := by
    induction run with
    | nil => simp
    | @snoc h c c' a run permitted step ih =>
        have hpast := fun h₁ v h₂ (heq : h = h₁ ++ v :: h₂) =>
          hwatched h₁ v (h₂ ++ [(c, a)]) (by simp [heq])
        intro h₁ v h₂ approvalId heq hmoved hopen
        rw [Machine.tally_snoc]
        rcases List.eq_nil_or_concat h₂ with rfl | ⟨h₂, u, rfl⟩
        · obtain ⟨rfl, hv⟩ := List.append_inj' heq rfl
          cases hv
          obtain ⟨approvalId', hnext⟩ :=
            awaited_of_moved (Machine.tally (noteApproval settings taskId) .fresh h) hmoved
          -- The record carries what is owed, and the step has just stored it.
          have howed := owed_of_awaited (.snoc run permitted step) hwatched
            (by rw [Machine.tally_snoc]; exact hnext)
          obtain ⟨task, htask, hon⟩ := on_of_moved hmoved step
          have heq := (howed.open htask).1.2.symm.trans hon.2
          rw [hnext, heq]
        · have hsplit : h ++ [(c, a)] = (h₁ ++ v :: h₂) ++ [u] := by simpa using heq
          obtain ⟨hh, hu⟩ := List.append_inj' hsplit rfl
          cases hu
          exact awaited_of_unconcluded (ih hpast h₁ v h₂ approvalId hh hmoved
            fun u hu => hopen u (by simp [hu])) (hopen _ (by simp))
  intro h₁ v h₂ approvalId heq hmoved hopen
  have howed := owed_of_awaited run hwatched (hawaited h₁ v h₂ approvalId heq hmoved hopen)
  obtain ⟨task, htask, hon, -⟩ := howed.carried
  exact ⟨task, htask, hon⟩

end History

section Demo

variable (taskId : String) (s : World × Watch)

instance (i : ℕ) (c : TaskCall) (ch : TaskChoice) :
    Decidable ((watchedPolicy taskId).call i c ch s) :=
  inferInstanceAs (Decidable (∀ approvalId ∈ s.2.awaited,
    (∀ payload ∈ c.failedOn taskId, ch.ending = .done → payload.On approvalId) ∧
      ∀ site ∈ c.savedAt taskId, ch.Effective →
        s.2.blind i = false ∨ ∃ payload ∈ site.payload, payload.On approvalId))

instance (i : ℕ) (q : TaskRequest) : Decidable ((watchedPolicy taskId).start i q s) :=
  .isTrue trivial

instance (i : ℕ) : Decidable ((watchedPolicy taskId).crash i s) := .isTrue trivial

instance (e : TaskEnvironment) : Decidable ((watchedPolicy taskId).environment e s) :=
  inferInstanceAs (Decidable (e ≠ .expireRecord taskId))

end Demo

/-- A plan is shown and approved while the handler that showed it has still to report. -/
def demoAwaitedActions : List TaskAction :=
  let approval : SubmitApproval :=
    ⟨"task-1", demoMerchantId, "plan-1", 1, "update_description", .approve⟩
  let patch : ProductPatch := ⟨"description", "Works with game consoles.", "Buyers ask."⟩
  [.start 0 (.createTask demoRequest), .call 0 {}, .call 0 {}, .call 0 {},
   .start 1 (.ledger .initializeSync), .call 1 {},
   .start 2 (.handleMessage (.ok demoMessage)), .call 2 {}, .call 2 {}, .call 2 {}, .call 2 {},
   .start 3 (.ledger (.createPlan demoTaskId demoMerchantId demoProductId patch)),
   .call 3 {}, .call 3 {}, .call 3 { token := "plan-1" },
   .call 2 { outcome := { status := .awaitingApproval } }, .call 2 {},
   .start 4 (.submitApproval approval), .call 4 {}, .call 4 { token := "approval-1" }, .call 4 {}]

/-- The report is lost, and the handler takes that for a failure of its own message. -/
def demoForgetActions : List TaskAction :=
  [.call 2 { ending := .lost (.other "ConnectionError") }, .call 2 {}, .call 2 {}]

/-- The report is made, and the approval is published and handled. -/
def demoResumeActions : List TaskAction :=
  [.call 2 {}, .call 2 {}, .call 2 {}, .call 4 {}, .call 4 {},
   .start 5 (.handleMessage (.ok (demoRequest.record.message 0 (some .approval)
     (some "approval-1")))), .call 5 {}, .call 5 {}, .call 5 {}, .call 5 {}]

/-- What an observed configuration owes, and what the record of the demonstration carries. -/
def awaitedAndPending
    (c : Config Exn TaskCall TaskCall.Reply (World × Watch) TaskRequest TaskResult) :
    Option String × Option (Option ResumeKind × Option String) :=
  (c.state.2.awaited, (c.state.1.records "task-1").map fun task =>
    (task.pendingResumeKind, task.pendingResumeId))

/-- A record moved to an approval is stored with the resumption of another message. -/
theorem approval_forgotten : ∃ h₁ v h₂ c,
    (taskMachine demoSettings arbitraryRun).Run .any (.initial World.fresh) (h₁ ++ v :: h₂) c ∧
      movedBy demoSettings "task-1" v = some "approval-1" ∧
      (∀ u ∈ h₂, concludedBy demoSettings "task-1" "approval-1" u = false) ∧
      (c.state.records "task-1").map (fun task =>
        (task.pendingResumeKind, task.pendingResumeId)) = some (some .retry, some "task-1") := by
  have hend : ((watchedMachine demoSettings "task-1").exec .any
      (demoAwaitedActions ++ demoForgetActions)
      ((Config.initial World.fresh).observed Watch.fresh)).map awaitedAndPending =
        some (some "approval-1", some (some .retry, some "task-1")) := by decide
  obtain ⟨c', hc', hresults⟩ := Option.map_eq_some_iff.1 hend
  obtain ⟨h', run'⟩ := Machine.Run.exec .nil hc'
  obtain ⟨h, c, run, rfl, -⟩ := run'.of_observe
  rw [awaitedAndPending, Prod.mk.injEq] at hresults
  obtain ⟨h₁, v, h₂, rfl, hmoved, hopen⟩ := moved_of_awaited h hresults.1
  exact ⟨h₁, v, h₂, c, run, hmoved, hopen, hresults.2⟩

theorem approvals_kept_demo : ∃ h₁ v h₂ c,
    (taskMachine demoSettings arbitraryRun).Run .any (.initial World.fresh) (h₁ ++ v :: h₂) c ∧
      movedBy demoSettings "task-1" v = some "approval-1" ∧
      (∀ u ∈ h₂, concludedBy demoSettings "task-1" "approval-1" u = false) ∧
      (c.state.records "task-1").map TaskRecord.status = some .running ∧
      ∃ task, c.state.records "task-1" = some task ∧
        task.pendingResumeKind = some .approval ∧ task.pendingResumeId = some "approval-1" := by
  have hend : ((watchedMachine demoSettings "task-1").exec (watchedPolicy "task-1")
      (demoAwaitedActions ++ demoResumeActions)
      ((Config.initial World.fresh).observed Watch.fresh)).map (fun c =>
        (c.state.2.awaited, (c.state.1.records "task-1").map TaskRecord.status)) =
          some (some "approval-1", some .running) := by decide
  obtain ⟨c', hc', hresults⟩ := Option.map_eq_some_iff.1 hend
  obtain ⟨h', run'⟩ := Machine.Run.exec .nil hc'
  obtain ⟨h, c, run, rfl, hwatched⟩ := run'.of_observe
  rw [Prod.mk.injEq] at hresults
  obtain ⟨h₁, v, h₂, rfl, hmoved, hopen⟩ := moved_of_awaited h hresults.1
  exact ⟨h₁, v, h₂, c, run, hmoved, hopen, hresults.2,
    approvals_kept run "task-1" hwatched h₁ v h₂ "approval-1" rfl hmoved hopen⟩

end CommerceAgent
