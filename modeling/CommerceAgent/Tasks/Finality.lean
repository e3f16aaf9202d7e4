import CommerceAgent.Effects.Observation
import CommerceAgent.Tasks.Outline
import CommerceAgent.Tasks.Steps

/-!
# Final records

The worker acknowledges messages of a completed or rejected task at once, and the
operations of the task service write only what they compare first or what they
have just read. What can still overwrite a final record is a write that does not
look: `_handle_failure`, which reads the record and stores it whatever its status
is, and a `save_task` of a process that has not seen the record become final and
does not hold the lease. `Settled` says that a step is none of these, by an
auxiliary variable that keeps for each process whether the record has become
final since the process last read or wrote it.
-/

namespace CommerceAgent

open Effects

/-- The statuses that the worker takes for the end of a task. -/
def TaskStatus.Final (status : TaskStatus) : Prop := status ∈ [.completed, .rejected]

instance (status : TaskStatus) : Decidable status.Final := inferInstanceAs (Decidable (_ ∈ _))

/-- The record of the task is stored with a final status. -/
def World.Final (w : World) (taskId : String) : Prop :=
  ∃ task, w.records taskId = some task ∧ task.status.Final

instance (w : World) (taskId : String) : Decidable (w.Final taskId) :=
  match htask : w.records taskId with
  | none => .isFalse (by simp [World.Final, htask])
  | some task => decidable_of_iff task.status.Final (by simp [World.Final, htask])

/-- What a call leaves of the world. -/
def TaskCall.after (settings : Settings) (i : ℕ) (c : TaskCall) (ch : TaskChoice) (w : World) :
    World :=
  (ch.ending.answer (c.execute settings i ch w) w).2

/-- The call reads the record of the task, or may write it. -/
def TaskCall.looksAt (taskId : String) : TaskCall → Bool
  | .getTask _ id => decide (id = taskId)
  | c => decide (c.written.map TaskRecord.taskId = some taskId)

/-- Which processes have not looked at the record since it last became final. -/
abbrev Blind := ℕ → Bool

/-- A call that makes the record final leaves all the other processes blind to that,
and one that looks at the record and returns ends the blindness of its own. -/
def noteFinal (settings : Settings) (taskId : String) (i : ℕ) (c : TaskCall) (ch : TaskChoice)
    (w : World) (blind : Blind) : Blind :=
  if ¬ w.Final taskId ∧ (c.after settings i ch w).Final taskId then fun j => decide (j ≠ i)
  else if c.looksAt taskId = true ∧ ch.ending = .done then Function.update blind i false
  else blind

/-- `_handle_failure` reads the record of the task. -/
def TaskCall.readsAfterFailure (taskId : String) : TaskCall → Bool
  | .getTask (.handleFailure _) id => decide (id = taskId)
  | _ => false

/-- The record that `save_task` stores, whatever is stored already. -/
def TaskCall.saved : TaskCall → Option TaskRecord
  | .saveTask _ task => some task
  | _ => none

/-- The record does not expire; `_handle_failure` finds no final record; a process
that stores the record holds the lease or has looked at the record since it became
final; and a final record is not stored under another process's lease. -/
def settledPolicy (taskId : String) :
    Policy TaskCall (World × Blind) TaskChoice TaskRequest TaskEnvironment where
  call i c ch s :=
    (c.readsAfterFailure taskId = true → ch.ending = .done → ¬ s.1.Final taskId) ∧
      ∀ task ∈ c.saved, task.taskId = taskId → ch.Effective →
        (s.1.leases taskId = some i ∨ s.2 i = false) ∧
          (task.status.Final → ∀ j ∈ s.1.leases taskId, j = i)
  environment e _ := e ≠ .expireRecord taskId

/-- The machine with the auxiliary variable. -/
abbrev finalMachine (settings : Settings) (taskId : String) :
    Machine Exn TaskCall TaskCall.Reply (World × Blind) TaskChoice TaskRequest TaskResult
      TaskEnvironment :=
  (taskMachine settings arbitraryRun).observe (noteFinal settings taskId)

/-- If the record is final, the process has not looked at it since, and holds no lease. -/
def Unaware (taskId : String) (i : ℕ) (s : World × Blind) : Prop :=
  s.1.Final taskId → s.2 i = true ∧ s.1.leases taskId ≠ some i

/-- Final records keep their status, and no process becomes aware of a final record
by what others do. -/
def finalDiscipline (taskId : String) : Discipline (World × Blind) TaskRequest TaskResult where
  inv s := s.1.Keyed
  rely
    | none, s, s' => ∀ task, s.1.records taskId = some task → task.status.Final →
        ∃ task', s'.1.records taskId = some task' ∧ task'.status = task.status
    | some i, s, s' => Unaware taskId i s → Unaware taskId i s'
  post _ _ _ := True
  refl j s := by
    cases j with
    | none => exact fun task htask _ => ⟨task, htask, rfl⟩
    | some i => exact id
  trans {j s s' s''} h h' := by
    cases j with
    | none =>
        intro task htask hfinal
        obtain ⟨task', htask', hstatus⟩ := h task htask hfinal
        obtain ⟨task'', htask'', hstatus'⟩ := h' task' htask' (hstatus ▸ hfinal)
        exact ⟨task'', htask'', hstatus'.trans hstatus⟩
    | some i => exact h' ∘ h
  post_stable _ _ := trivial

section Rules

variable {settings : Settings} {taskId : String} {i : ℕ} {c : TaskCall} {ch : TaskChoice}
  {s s' : World × Blind} {r : Except Exn c.Reply}

theorem after_of_answer
    (h : (finalMachine settings taskId).answer i c ch s = some (r, s')) :
    s'.1 = c.after settings i ch s.1 := by
  have h := Option.some.inj (Machine.observe_answer h).1
  rw [TaskCall.after, h]

/-- What a step of the process `i` owes to the others, when it does not overwrite
a final record. -/
theorem final_keeps (hinv : s.1.Keyed)
    (hwrite : ∀ task, c.written = some task → task.taskId = taskId →
      s'.1.records = (s.1.store task).records → s'.1.records ≠ s.1.records →
        ¬ s.1.Final taskId ∧ (task.status.Final → ∀ j, s.1.leases taskId = some j → j = i))
    (h : (finalMachine settings taskId).answer i c ch s = some (r, s')) :
    (finalDiscipline taskId).Keeps i s s' := by
  obtain ⟨hr, hblind⟩ := Machine.observe_answer h
  have hlease := leaseStep_of_answer hr
  -- Either the record of the task is as before, or it was not final.
  have hrecord : s'.1.records taskId = s.1.records taskId ∨ (¬ s.1.Final taskId ∧
      (s'.1.Final taskId → ∀ j, s.1.leases taskId = some j → j = i)) := by
    by_cases hsame : s'.1.records = s.1.records
    · exact .inl (by rw [hsame])
    obtain ⟨task, hwritten, hstored⟩ := (records_of_answer hr).resolve_left hsame
    by_cases htask : task.taskId = taskId
    · obtain ⟨hopen, hfree⟩ := hwrite task hwritten htask hstored hsame
      refine .inr ⟨hopen, fun hfinal => hfree ?_⟩
      obtain ⟨task', htask', hfinal'⟩ := hfinal
      rw [hstored, World.store_records, if_pos htask.symm] at htask'
      cases htask'
      exact hfinal'
    · left
      rw [hstored, World.store_records, if_neg (Ne.symm htask)]
  refine ⟨hinv.answer hr, fun j hj => ?_⟩
  cases j with
  | none =>
      intro task htask hfinal
      rcases hrecord with hsame | ⟨hopen, -⟩
      · exact ⟨task, hsame.trans htask, rfl⟩
      · exact absurd ⟨task, htask, hfinal⟩ hopen
  | some j =>
      have hji : j ≠ i := fun heq => hj (congrArg some heq)
      intro hunaware hfinal
      have hleases : s'.1.leases taskId = some j → s.1.leases taskId = some j := fun hl =>
        (hlease.taken taskId j hl).resolve_right fun h => hji h.1
      rcases hrecord with hsame | ⟨hopen, hfree⟩
      · have hwas : s.1.Final taskId := by
          obtain ⟨task, htask, hstatus⟩ := hfinal
          exact ⟨task, hsame ▸ htask, hstatus⟩
        obtain ⟨hstale, hnone⟩ := hunaware hwas
        refine ⟨?_, fun hl => hnone (hleases hl)⟩
        rw [hblind, noteFinal, if_neg fun hboth => hboth.1 hwas]
        split
        · rwa [Function.update_of_ne hji]
        · exact hstale
      · refine ⟨?_, fun hl => hji (hfree hfinal j (hleases hl))⟩
        rw [hblind, noteFinal, if_pos ⟨hopen, after_of_answer h ▸ hfinal⟩]
        simpa using hji

/-- The protocol of the process `i`. -/
abbrev finalProtocol (settings : Settings) (taskId : String) (i : ℕ) :
    Protocol Exn TaskCall TaskCall.Reply (World × Blind) :=
  (finalDiscipline taskId).protocol (finalMachine settings taskId) (settledPolicy taskId) i

/-- What a process that handles records knows about final ones. -/
def finalKnowledge (taskId : String) (i : ℕ) : Knowledge → World × Blind → Prop
  | .known task, s | .found _ task, s =>
      task.taskId = taskId → ¬ task.status.Final → Unaware taskId i s
  | .stored task _, s | .matched _ task, s | .ran _ task _, s | .failing _ _ task, s
  | .failed _ task, s => task.taskId = taskId → Unaware taskId i s
  | _, _ => True

/-- The process has just seen or stored a record that is not final. -/
theorem unaware_of_open {task : TaskRecord} (htask : s.1.records taskId = some task)
    (hopen : ¬ task.status.Final) : Unaware taskId i s := by
  intro hfinal
  obtain ⟨task', htask', hfinal'⟩ := hfinal
  cases htask.symm.trans htask'
  exact absurd hfinal' hopen

theorem final_may_of_unwritten (hc : c.written = none) :
    (finalProtocol settings taskId i).may c s := by
  intro s₁ _ hinv ch r s₂ _ h
  apply final_keeps hinv _ h
  intro task htask
  rw [hc] at htask
  cases htask

/-- To store a record without looking is allowed to a process that is unaware of a
final one: it holds the lease, or would know. -/
theorem final_may_save {site : Site} {task : TaskRecord}
    (hk : task.taskId = taskId → Unaware taskId i s) :
    (finalProtocol settings taskId i).may (.saveTask site task) s := by
  intro s₁ hrely hinv ch r s₂ hpermit h
  apply final_keeps hinv _ h
  intro task' htask' hid _ hne
  cases htask'
  have heffective : ch.Effective := by
    intro e hlost
    exact hne (by rw [(eq_of_lost hlost (Machine.observe_answer h).1).2])
  obtain ⟨hlook, hfree⟩ := hpermit.2 task rfl hid heffective
  refine ⟨fun hfinal => ?_, hfree⟩
  obtain ⟨hblind, hlease⟩ := hrely (hk hid) hfinal
  rcases hlook with hown | hseen
  · exact hlease hown
  · rw [hblind] at hseen
    cases hseen

/-- A record that is compared first is not final when it is replaced. -/
theorem final_may_compare
    (hc : (∃ task, c = .setNew task) ∨ (∃ task key, c = .createScript task key) ∨
      ∃ task status, c = .transitionTask task status ∧ ¬ status.Final)
    (hopen : ∀ task, c.written = some task → ¬ task.status.Final) :
    (finalProtocol settings taskId i).may c s := by
  rintro ⟨w₁, blind₁⟩ - hinv ch r ⟨w₂, blind₂⟩ - h
  apply final_keeps hinv _ h
  intro task htask hid _ hne
  refine ⟨?_, fun hfinal => absurd hfinal (hopen task htask)⟩
  rintro ⟨task', htask', hfinal'⟩
  obtain ⟨reply, hrun⟩ := (answer_cases (Machine.observe_answer h).1).resolve_left
    fun heq => hne (by rw [heq])
  replace hne : w₂.records ≠ w₁.records := hne
  replace htask' : w₁.records taskId = some task' := htask'
  rcases hc with ⟨task, rfl⟩ | ⟨task, key, rfl⟩ | ⟨task, status, rfl, hstatus⟩
  · cases htask
    simp only [TaskCall.execute, hid, htask'] at hrun
    cases hrun
    exact hne rfl
  · cases htask
    simp only [TaskCall.execute, hid, htask'] at hrun
    split at hrun <;> cases hrun <;> exact hne rfl
  · cases htask
    simp only [TaskCall.execute, hid, htask'] at hrun
    split at hrun
    · cases hrun
      exact hne rfl
    · next hcurrent =>
        rw [not_not.1 hcurrent] at hfinal'
        exact hstatus hfinal'

/-- A process has stored a record that is not final. -/
theorem unaware_of_wrote {reply : c.Reply}
    (h : (finalProtocol settings taskId i).next c s (.ok reply) s') (hwrote : c.wrote reply = true)
    {task : TaskRecord} (hwritten : c.written = some task) (hopen : ¬ task.status.Final)
    (hid : task.taskId = taskId) : Unaware taskId i s' := by
  obtain ⟨s₁, ch, -, -, -, hanswer⟩ := h
  have hrun := execute_of_answer (Machine.observe_answer hanswer).1
  rcases wrote_of_execute hrun with ⟨-, task', hwritten', hstored⟩ | ⟨hnot, -⟩
  · cases hwritten.symm.trans hwritten'
    exact unaware_of_open (by rw [hstored, World.store_records, if_pos hid.symm]) hopen
  · rw [hwrote] at hnot
    cases hnot

/-- A call that touches neither the records nor the leases tells a process nothing. -/
theorem final_next_of_unwritten (hwritten : c.written = none)
    (hlooks : c.looksAt taskId = false) (hacquire : ∀ id ttl, c ≠ .acquireTaskLease id ttl)
    (hrelease : ∀ id, c ≠ .releaseTaskLease id)
    (h : (finalProtocol settings taskId i).next c s r s') (hunaware : Unaware taskId i s) :
    Unaware taskId i s' := by
  obtain ⟨s₁, ch, hrely, -, -, hanswer⟩ := h
  obtain ⟨hr, hblind⟩ := Machine.observe_answer hanswer
  have hrecords : s'.1.records = s₁.1.records := by
    rcases records_of_answer hr with hsame | ⟨task, htask, -⟩
    · exact hsame
    · rw [hwritten] at htask
      cases htask
  intro hfinal
  have hwas : s₁.1.Final taskId := by
    obtain ⟨task, htask, hstatus⟩ := hfinal
    exact ⟨task, hrecords ▸ htask, hstatus⟩
  obtain ⟨hstale, hnone⟩ := hrely hunaware hwas
  rw [hblind, noteFinal, if_neg fun hboth => hboth.1 hwas, if_neg (by simp [hlooks]),
    leases_of_answer hacquire hrelease hr]
  exact ⟨hstale, hnone⟩

/-- What a process learns when it reads a record. -/
theorem final_read {site : Site} {id : String} {task : TaskRecord}
    (h : (finalProtocol settings taskId i).next (.getTask site id) s (.ok (some task)) s') :
    task.taskId = id ∧ finalKnowledge taskId i (.known task) s' := by
  obtain ⟨s₁, ch, -, hinv, -, hanswer⟩ := h
  obtain ⟨hfound, hsame⟩ := read_of_answer (Machine.observe_answer hanswer).1
  have htask := hinv id task hfound.symm
  refine ⟨htask, fun hid hopen => ?_⟩
  have hstored : s'.1.records taskId = some task := by rw [hsame, hfound, ← htask, hid]
  exact unaware_of_open hstored hopen

/-- A record that is read after a failure is not final. -/
theorem final_readFailure {payload : QueueMessage} {id : String} {task : TaskRecord} {exc : Exn}
    (h : (finalProtocol settings taskId i).next (.getTask (.handleFailure payload) id) s
      (.ok (some task)) s') : finalKnowledge taskId i (.failing payload exc task) s' := by
  have htask := (final_read h).1
  obtain ⟨s₁, ch, -, -, hpermit, hanswer⟩ := h
  obtain ⟨-, hsame⟩ := read_of_answer (Machine.observe_answer hanswer).1
  have hdone := done_of_answer (Machine.observe_answer hanswer).1
  intro hid hfinal
  have hnot := hpermit.1 (by simp [TaskCall.readsAfterFailure, htask.symm.trans hid]) hdone
  exact absurd (hsame ▸ hfinal) hnot

theorem finalOutline :
    Outline settings (finalProtocol settings taskId i) (finalKnowledge taskId i) where
  neutral c s hc := by
    have hwritten : c.written = none := by
      cases c <;> first | rfl | cases hc
    refine ⟨final_may_of_unwritten hwritten, fun r s' h k hk => ?_⟩
    have hunaware : Unaware taskId i s → Unaware taskId i s' := by
      refine final_next_of_unwritten hwritten ?_ ?_ ?_ h
      · cases c <;> first | rfl | cases hc
      · rintro id ttl rfl
        cases hc
      · rintro id rfl
        cases hc
    cases k with
    | known task | found payload task => exact fun hid hopen => hunaware (hk hid hopen)
    | stored | matched | ran | failing | failed => exact fun hid => hunaware (hk hid)
    | approved | received | holding | missing | concluded | raised | settled => trivial
  acquire payload ttl s _ := ⟨final_may_of_unwritten rfl, fun b _ _ => by cases b <;> trivial⟩
  delay payload s _ := final_may_of_unwritten rfl
  release payload s _ := final_may_of_unwritten rfl
  read site id s _ := ⟨final_may_of_unwritten rfl, fun _ _ h => final_read h⟩
  readMessage payload s _ :=
    ⟨final_may_of_unwritten rfl, fun _ _ h => final_read h, fun _ _ => trivial,
      fun _ _ _ => trivial⟩
  dismiss payload s _ := ⟨fun _ _ => trivial, fun _ _ _ => trivial⟩
  ignore payload task s _ := ⟨fun _ _ => trivial, fun _ _ _ => trivial⟩
  raise payload c e s s' _ _ _ := trivial
  concluded payload s _ := trivial
  readFailure payload exc s _ :=
    ⟨final_may_of_unwritten rfl, fun _ _ h => ⟨(final_read h).1, final_readFailure h⟩,
      fun _ _ => trivial, fun _ _ _ => trivial⟩
  failed payload task s _ := trivial
  setNew request s := by
    have hopen : ¬ request.record.status.Final := by simp [CreateTask.record, TaskStatus.Final]
    refine ⟨final_may_compare (.inl ⟨_, rfl⟩) ?_, fun s' h => unaware_of_wrote h rfl rfl hopen⟩
    rintro task ⟨⟩
    exact hopen
  createScript request key s := by
    have hopen : ¬ request.record.status.Final := by simp [CreateTask.record, TaskStatus.Final]
    refine ⟨final_may_compare (.inr (.inl ⟨_, _, rfl⟩)) ?_,
      fun id s' h => unaware_of_wrote h rfl rfl hopen⟩
    rintro task ⟨⟩
    exact hopen
  input task productId s _ _ := by
    have hopen : ¬ (task.withInput productId).status.Final := by
      simp [TaskRecord.withInput, TaskStatus.Final]
    refine ⟨final_may_compare (.inr (.inr ⟨_, _, rfl, by simp [TaskStatus.Final]⟩)) ?_,
      fun s' h => unaware_of_wrote h rfl rfl hopen⟩
    rintro task ⟨⟩
    exact hopen
  record request task s _ _ := ⟨final_may_of_unwritten rfl, fun _ _ _ => trivial⟩
  approval task approvalId status s _ hstatus := by
    have hopen : ¬ (task.withApproval approvalId).status.Final := by
      simp [TaskRecord.withApproval, TaskStatus.Final]
    have hexpected : ¬ status.Final := by
      rintro hfinal
      simp only [TaskStatus.Final, List.mem_cons, List.not_mem_nil, or_false] at hstatus hfinal
      rcases hstatus with rfl | rfl <;> simp at hfinal
    refine ⟨final_may_compare (.inr (.inr ⟨_, _, rfl, hexpected⟩)) ?_,
      fun s' h => unaware_of_wrote h rfl rfl hopen⟩
    rintro task ⟨⟩
    exact hopen
  resumed task s hk hstatus := by
    have hopen : ¬ task.status.Final := by
      intro hfinal
      simp only [TaskStatus.Final, List.mem_cons, List.not_mem_nil, or_false] at hstatus hfinal
      rcases hstatus with hstatus | hstatus <;> simp [hstatus] at hfinal
    exact ⟨final_may_save fun hid => hk hid hopen, fun s' h =>
      unaware_of_wrote h rfl rfl (by simp [TaskRecord.resumed, TaskStatus.Final])⟩
  publish task past payload s hk _ := by
    refine ⟨final_may_of_unwritten rfl, fun e s' h hid => ?_⟩
    exact final_next_of_unwritten rfl rfl (by simp) (by simp) h (hk hid)
  publishFailed site task past errorMessage interaction s hk _ _ _ := final_may_save hk
  started payload task s hk htask hrunnable _ := by
    have hopen : ¬ task.status.Final := by
      intro hfinal
      simp only [TaskStatus.Final, TaskRecord.Runnable, List.mem_cons, List.not_mem_nil,
        or_false] at hfinal hrunnable
      rcases hfinal with hfinal | hfinal <;> simp [hfinal] at hrunnable
    exact ⟨final_may_save fun hid => hk hid hopen, fun s' h =>
      unaware_of_wrote h rfl rfl (by simp [TaskRecord.started, TaskStatus.Final]),
      fun _ _ _ => trivial⟩
  outcome payload task outcome s hk :=
    ⟨final_may_save hk, fun _ _ => trivial, fun _ _ _ => trivial⟩
  failedRun payload exc task graphStarted status s hk htask hstatus _ := by
    have hopen : ¬ (task.failedRun payload exc graphStarted status).status.Final := by
      intro hfinal
      simp only [TaskStatus.Final, TaskRecord.failedRun, List.mem_cons, List.not_mem_nil,
        or_false] at hfinal hstatus
      rcases hstatus with rfl | rfl <;> simp at hfinal
    exact ⟨final_may_save hk, fun s' h => unaware_of_wrote h rfl rfl hopen, fun _ _ _ => trivial⟩
  publishRetry payload task retryPayload s hk _ _ := by
    refine ⟨final_may_of_unwritten rfl, fun r s' h hid => ?_⟩
    exact final_next_of_unwritten rfl rfl (by simp) (by simp) h (hk hid)
  retryFailed payload task errorMessage interaction s hk _ _ _ :=
    ⟨final_may_save hk, fun _ _ _ => trivial⟩

theorem final_runs (payload : QueueMessage) :
    Outline.Runs (finalProtocol settings taskId i) (finalKnowledge taskId i) arbitraryRun
      payload := by
  intro task s hk
  refine ⟨final_may_of_unwritten rfl, fun r s' h => ?_⟩
  cases r with
  | error e => trivial
  | ok outcome =>
      intro hid
      exact final_next_of_unwritten rfl rfl (by simp) (by simp) h (hk hid)

/-- Every program keeps final records, under the policy. -/
theorem final_safe (q : TaskRequest) (s : World × Blind) :
    (finalDiscipline taskId).Safe (finalMachine settings taskId) (settledPolicy taskId) i
      ((finalDiscipline taskId).post q) (fun _ _ => True) (q.program settings arbitraryRun) s := by
  apply Discipline.Safe.of_follows
  by_cases hq : ∃ request, q = .ledger request
  · obtain ⟨request, rfl⟩ := hq
    apply Program.Follows.bind
    apply Program.Follows.of_only (G := fun c : TaskCall => c.written = none) (V := fun _ => True)
    · exact fun _ _ hc => final_may_of_unwritten hc
    · exact fun _ _ _ => trivial
    · exact fun _ _ => trivial
    · exact Program.only_lift (P := fun c : TaskCall => c.written = none) (fun _ => rfl) _
  · exact finalOutline.follows_program final_runs (fun request heq => hq ⟨request, heq⟩)
      fun _ _ => trivial

/-- What leaves the records alone keeps the discipline. -/
theorem final_frame {w w' : World} (blind : Blind) (hkeyed : w'.Keyed)
    (hrecords : w'.records taskId = w.records taskId)
    (hleases : ∀ j, w'.leases taskId = some j → w.leases taskId = some j) :
    (finalDiscipline taskId).inv (w', blind) ∧
      ∀ j, (finalDiscipline taskId).rely j (w, blind) (w', blind) := by
  refine ⟨hkeyed, fun j => ?_⟩
  cases j with
  | none => exact fun task htask _ => ⟨task, hrecords.trans htask, rfl⟩
  | some j =>
      intro hunaware hfinal
      obtain ⟨task, htask, hstatus⟩ := hfinal
      obtain ⟨hblind, hnone⟩ := hunaware ⟨task, hrecords ▸ htask, hstatus⟩
      exact ⟨hblind, fun hl => hnone (hleases j hl)⟩

theorem finalSound :
    (finalDiscipline taskId).Sound (finalMachine settings taskId) (settledPolicy taskId) where
  start i q s s' hinv _ haccept := by
    obtain ⟨w, blind⟩ := s
    obtain ⟨w', haccepted, heq⟩ := Option.map_eq_some_iff.1 haccept
    cases heq
    have hrecords := records_of_accept haccepted
    have hframe := final_frame blind (hinv.of_records hrecords)
      (congrFun hrecords taskId) (leases_of_accept haccepted ▸ fun _ h => h)
    exact ⟨⟨hframe.1, fun j _ => hframe.2 j⟩, final_safe q _⟩
  crash i s hinv _ := by
    obtain ⟨w, blind⟩ := s
    have hframe := final_frame blind (hinv.of_records (w.requeue_records i))
      (congrFun (w.requeue_records i) taskId) (w.requeue_leases i ▸ fun _ h => h)
    exact ⟨hframe.1, fun j _ => hframe.2 j⟩
  environment e s s' hinv hpermit henv := by
    obtain ⟨w, blind⟩ := s
    obtain ⟨w', hchange, heq⟩ := Option.map_eq_some_iff.1 henv
    cases heq
    exact final_frame blind (hinv.environment hchange) (records_of_unexpired hchange hpermit)
      fun j => leases_of_environment hchange

end Rules

/-- Over every run of API calls and handlers with any call raising, any message
delivered twice and any process crashing: if each step is settled, a record that is
completed or rejected keeps its status for ever. -/
theorem final_records_kept {settings : Settings} {h : List (TaskConfig × TaskAction)}
    {c : TaskConfig} (run : (taskMachine settings arbitraryRun).Run .any (.initial World.fresh) h c)
    (taskId : String)
    (hsettled : ∀ h₁ v h₂, h = h₁ ++ v :: h₂ → (settledPolicy taskId).permits
      (v.1.observed (Machine.tally (noteFinal settings taskId) (fun _ => false) h₁)) v.2) :
    ∀ v ∈ h, ∀ task, v.1.state.records taskId = some task →
      task.status = .completed ∨ task.status = .rejected →
        ∃ task', c.state.records taskId = some task' ∧ task'.status = task.status := by
  intro v hv task htask hstatus
  obtain ⟨h', run', hpast⟩ := run.observe _ hsettled
  have hkeyed : (finalDiscipline taskId).inv (World.fresh, fun _ => false) := World.keyed_fresh
  obtain ⟨-, hrely⟩ := finalSound.run hkeyed run'
  obtain ⟨blind, hmem⟩ := hpast v hv
  exact (hrely _ hmem).2 task htask (by simpa [TaskStatus.Final] using hstatus)

section Demo

variable (taskId : String) (s : World × Blind)

instance (i : ℕ) (c : TaskCall) (ch : TaskChoice) :
    Decidable ((settledPolicy taskId).call i c ch s) :=
  inferInstanceAs (Decidable ((_ = true → _ = _ → ¬ World.Final _ _) ∧
    ∀ task ∈ c.saved, _ = _ → ch.Effective → (_ = _ ∨ _ = _) ∧
      (task.status.Final → ∀ j ∈ s.1.leases taskId, j = i)))

instance (i : ℕ) (q : TaskRequest) : Decidable ((settledPolicy taskId).start i q s) :=
  .isTrue trivial

instance (i : ℕ) : Decidable ((settledPolicy taskId).crash i s) := .isTrue trivial

instance (e : TaskEnvironment) : Decidable ((settledPolicy taskId).environment e s) :=
  inferInstanceAs (Decidable (e ≠ .expireRecord taskId))

end Demo

/-- A task is created and run to its end. -/
def demoFinalActions : List TaskAction :=
  [.start 0 (.createTask demoRequest), .call 0 {}, .call 0 {}, .call 0 {},
   .start 1 (.handleMessage (.ok demoMessage)), .call 1 {}, .call 1 {}, .call 1 {}, .call 1 {},
   .call 1 {}, .call 1 {}]

/-- The event that reports the end is lost, and the handler takes that for a failure. -/
def demoOverwriteActions : List TaskAction :=
  [.call 1 { ending := .lost (.other "ConnectionError") }, .call 1 {}, .call 1 {}]

/-- A completed record is stored as retrying by the handler that completed it. -/
theorem final_record_overwritten : ∃ h₁ c₁ h₂ c₂,
    (taskMachine demoSettings arbitraryRun).Run .any (.initial World.fresh) h₁ c₁ ∧
      (taskMachine demoSettings arbitraryRun).Run .any (.initial World.fresh) (h₁ ++ h₂) c₂ ∧
        (c₁.state.records "task-1").map TaskRecord.status = some .completed ∧
          (c₂.state.records "task-1").map TaskRecord.status = some .retrying := by
  have hend : ((taskMachine demoSettings arbitraryRun).exec .any demoFinalActions
      (.initial .fresh)).bind (fun c₁ => ((taskMachine demoSettings arbitraryRun).exec .any
        demoOverwriteActions c₁).map fun c₂ =>
          ((c₁.state.records "task-1").map TaskRecord.status,
            (c₂.state.records "task-1").map TaskRecord.status)) =
        some (some .completed, some .retrying) := by decide
  obtain ⟨c₁, hc₁, hrest⟩ := Option.bind_eq_some_iff.1 hend
  obtain ⟨c₂, hc₂, hresults⟩ := Option.map_eq_some_iff.1 hrest
  obtain ⟨h₁, run₁⟩ := Machine.Run.exec .nil hc₁
  obtain ⟨h₂, run₂⟩ := Machine.Run.exec run₁ hc₂
  rw [Prod.mk.injEq] at hresults
  exact ⟨h₁, c₁, h₂, c₂, run₁, run₂, hresults.1, hresults.2⟩

/-- A task is created, its message is duplicated, and one copy is handled to the end. -/
def demoHandledActions : List TaskAction :=
  [.start 0 (.createTask demoRequest), .call 0 {}, .call 0 {}, .call 0 {},
   .environment (.duplicate demoMessage), .start 1 (.handleMessage (.ok demoMessage))] ++
    List.replicate 9 (.call 1 {})

/-- The other copy is handled too, and the client asks to resume the task. -/
def demoLateActions : List TaskAction :=
  [.call 2 {}, .call 2 {}, .call 2 {}, .call 2 {}, .start 3 (.resumeTask "task-1" demoMerchantId),
   .call 3 {}]

theorem final_records_kept_demo : ∃ h₁ c₁ h₂ c,
    (taskMachine demoSettings arbitraryRun).Run .any (.initial World.fresh)
        (h₁ ++ (c₁, .start 2 (.handleMessage (.ok demoMessage))) :: h₂) c ∧
      h₂.map Prod.snd = demoLateActions ∧
      (c₁.state.records "task-1").map TaskRecord.status = some .completed ∧
      ∃ task, c.state.records "task-1" = some task ∧ task.status = .completed := by
  have hend : ((finalMachine demoSettings "task-1").exec (settledPolicy "task-1")
      (demoHandledActions ++ .start 2 (.handleMessage (.ok demoMessage)) :: demoLateActions)
      ((Config.initial World.fresh).observed fun _ => false)).isSome = true := by decide
  have hfinal : ((taskMachine demoSettings arbitraryRun).exec .any demoHandledActions
      (.initial World.fresh)).bind (fun c₁ => (c₁.state.records "task-1").map TaskRecord.status) =
        some .completed := by decide
  obtain ⟨c', hc'⟩ := Option.isSome_iff_exists.1 hend
  obtain ⟨c, hc, -, hsettled⟩ := Machine.exec_of_observe hc'
  have run := Machine.Run.follow .nil hc
  obtain ⟨c₁, c₂, hc₁, -, hlate, htrail⟩ := Machine.exec_split hc
  rw [hc₁, Option.bind_some] at hfinal
  obtain ⟨task, htask, hstatus⟩ := Option.map_eq_some_iff.1 hfinal
  rw [List.nil_append] at run
  have hkept := final_records_kept run "task-1" hsettled _
    (htrail ▸ List.mem_append_right _ (List.mem_cons_self ..)) task htask (.inl hstatus)
  rw [htrail] at run
  exact ⟨_, c₁, _, c, run, Machine.trail_actions hlate,
    Option.map_eq_some_iff.2 ⟨task, htask, hstatus⟩, hstatus ▸ hkept⟩

end CommerceAgent
