import CommerceAgent.Effects.Observation
import CommerceAgent.Tasks.Outline
import CommerceAgent.Tasks.Steps

/-!
# Attempts

How often a task is run is not counted anywhere in the source: the number of an
attempt travels through the messages and the record, and the lease keeps two
handlers of a task apart. `Progress` is an auxiliary variable that counts the runs
of each task since an operation of the task service last wrote its record, and
keeps where each handler stands. The invariant compares the count with the attempt
that the record expects, except while a run of the task waits to be recorded.
-/

namespace CommerceAgent

open Effects

/-- Where a process stands with the task whose lease it holds. -/
inductive Standing where
  | outside
  /-- It has the lease and has not run the orchestrator. -/
  | held (taskId : String)
  /-- It has run the orchestrator, and the record does not show it. -/
  | ran (taskId : String)
  /-- It has recorded what became of the message. -/
  | recorded (taskId : String)
  deriving DecidableEq

/-- The task whose handler the process is in. -/
def Standing.task : Standing → Option String
  | .outside => none
  | .held taskId | .ran taskId | .recorded taskId => some taskId

/-- Where the processes stand, and the runs of each task since the task service last
wrote its record. -/
structure Progress where
  standing : ℕ → Standing
  runs : String → ℕ

def Progress.initial : Progress := ⟨fun _ => .outside, fun _ => 0⟩

/-- The record that an operation of the task service writes. -/
def TaskCall.served : TaskCall → Option TaskRecord
  | .saveTask site task => if site.payload = none then some task else none
  | c => c.written

/-- Where a process stands after a call. -/
def TaskCall.standing (c : TaskCall) (ch : TaskChoice) (w : World) (standing : Standing) :
    Standing :=
  match c with
  | .acquireTaskLease taskId _ =>
      if ch.ending = .done ∧ w.leases taskId = none then .held taskId else standing
  | .releaseTaskLease _ => .outside
  | .run task _ _ => .ran task.taskId
  | .saveTask (.outcome _) task | .saveTask (.handleFailure _) task =>
      if ch.ending.effective then .recorded task.taskId else standing
  | .getTask (.handleFailure _) taskId =>
      if ch.ending = .done ∧ w.records taskId = none then .recorded taskId else standing
  | _ => standing

/-- The runs of the tasks after a call. -/
def TaskCall.runs (settings : Settings) (i : ℕ) (c : TaskCall) (ch : TaskChoice) (w : World)
    (runs : String → ℕ) : String → ℕ :=
  match c with
  | .run task _ _ => Function.update runs task.taskId (runs task.taskId + 1)
  | c =>
      match c.served with
      | some task => if c.stores settings i ch w then Function.update runs task.taskId 0 else runs
      | none => runs

/-- What a call does to the auxiliary variable. -/
def noteProgress (settings : Settings) (i : ℕ) (c : TaskCall) (ch : TaskChoice) (w : World)
    (g : Progress) : Progress where
  standing := Function.update g.standing i (c.standing ch w (g.standing i))
  runs := c.runs settings i ch w g.runs

/-- The machine with the auxiliary variable. -/
abbrev attemptMachine (settings : Settings) :
    Machine Exn TaskCall TaskCall.Reply (World × Progress) TaskChoice TaskRequest TaskResult
      TaskEnvironment :=
  (taskMachine settings arbitraryRun).observe (noteProgress settings)

/-- A call that the bound relies on: the read under the lease, the `ack` of a message
that is ignored, and the reads and writes of `_handle_failure`. -/
def TaskCall.essential : TaskCall → Standing → Bool
  | .getTask (.handleMessage _) _, _ | .getTask (.handleFailure _) _, _
  | .saveTask (.handleFailure _) _, _ => true
  | .ack, .held _ => true
  | _, _ => false

/-- The exception that ends a call. -/
def TaskChoice.raised (ch : TaskChoice) : Option Exn :=
  match ch.ending with
  | .done => none
  | .lost e | .late e => some e

/-- No process crashes, no lease expires while its owner is in the handler, and the
essential calls succeed. -/
def reliablePolicy : Policy TaskCall (World × Progress) TaskChoice TaskRequest TaskEnvironment where
  call i c ch s := c.essential (s.2.standing i) = true → ch.ending = .done
  crash _ _ := False
  environment e s := ∀ taskId, e = .expireLease taskId →
    ∀ i, s.1.leases taskId = some i → (s.2.standing i).task ≠ some taskId

/-- The same, and no call raises the error of a failed publish, which the task service
alone raises. -/
def unmarkedPolicy : Policy TaskCall (World × Progress) TaskChoice TaskRequest TaskEnvironment :=
  { reliablePolicy with
    call := fun i c ch s => reliablePolicy.call i c ch s ∧
      ∀ e ∈ ch.raised, (safeError e).1 ≠ "QUEUE_PUBLISH_FAILED" }

/-- The same, where a process is in no handler when it starts. -/
def attemptPolicy : Policy TaskCall (World × Progress) TaskChoice TaskRequest TaskEnvironment :=
  { unmarkedPolicy with start := fun i _ s => s.2.standing i = .outside }

section Bounds

variable (limit : ℤ)

/-- The attempt of a message that may be delivered. -/
def QueueMessage.Bounded (payload : QueueMessage) : Prop :=
  0 ≤ payload.attempt ∧ payload.attempt < limit

/-- The record expects a message whose attempt is below the limit. -/
def TaskRecord.Expecting (task : TaskRecord) : Prop :=
  ∃ n, task.pendingAttempt = some n ∧ 0 ≤ n ∧ n < limit

/-- A record that may be run or published again expects a message below the limit. -/
def TaskRecord.Bounded (task : TaskRecord) : Prop :=
  task.Runnable ∨ task.errorCode = some "QUEUE_PUBLISH_FAILED" → task.Expecting limit

end Bounds

/-- The task has been run no more often than the attempt that its record expects. -/
def Spent (taskId : String) (s : World × Progress) : Prop :=
  ∀ task, s.1.records taskId = some task → task.Runnable →
    ∀ n, task.pendingAttempt = some n → s.2.runs taskId ≤ n

/-- What holds of the attempts in every state. -/
structure AttemptsSound (limit : ℤ) (s : World × Progress) : Prop where
  keyed : s.1.Keyed
  records : ∀ taskId task, s.1.records taskId = some task → task.Bounded limit
  messages : ∀ payload, s.1.Carried payload → payload.Bounded limit
  leases : ∀ i taskId, (s.2.standing i).task = some taskId → s.1.leases taskId = some i
  spent : ∀ taskId, (∀ i, s.2.standing i ≠ .ran taskId) → Spent taskId s
  runs : ∀ taskId, s.2.runs taskId ≤ limit

/-- What a process in the handler of a task may find later: it is where it was, and
its task was not run, and is as it was, or gone, or written by the task service. -/
structure Undisturbed (i : ℕ) (s s' : World × Progress) : Prop where
  standing : s'.2.standing i = s.2.standing i
  runs : ∀ taskId, (s.2.standing i).task = some taskId → s'.2.runs taskId = 0 ∨
    (s'.2.runs taskId = s.2.runs taskId ∧
      (s'.1.records taskId = s.1.records taskId ∨ s'.1.records taskId = none))

theorem Undisturbed.refl (i : ℕ) (s : World × Progress) : Undisturbed i s s :=
  ⟨rfl, fun _ _ => .inr ⟨rfl, .inl rfl⟩⟩

theorem Undisturbed.trans {i : ℕ} {s s' s'' : World × Progress} (h : Undisturbed i s s')
    (h' : Undisturbed i s' s'') : Undisturbed i s s'' where
  standing := h'.standing.trans h.standing
  runs taskId htask := by
    rcases h'.runs taskId (h.standing ▸ htask) with hzero | ⟨hruns', hrecord'⟩
    · exact .inl hzero
    rcases h.runs taskId htask with hzero | ⟨hruns, hrecord⟩
    · exact .inl (hruns'.trans hzero)
    · refine .inr ⟨hruns'.trans hruns, ?_⟩
      rcases hrecord' with hsame | hnone
      · exact hrecord.imp hsame.trans hsame.trans
      · exact .inr hnone

/-- The attempts stay bounded, and no process is disturbed in its handler. -/
def attemptDiscipline (limit : ℤ) : Discipline (World × Progress) TaskRequest TaskResult where
  inv := AttemptsSound limit
  rely
    | none, _, _ => True
    | some i, s, s' => Undisturbed i s s'
  post _ _ _ := True
  refl j s := by
    cases j with
    | none => trivial
    | some i => exact .refl i s
  trans {j s s' s''} h h' := by
    cases j with
    | none => trivial
    | some i => exact Undisturbed.trans h h'
  post_stable _ _ := trivial

section Rules

variable {settings : Settings} {i : ℕ} {c : TaskCall} {ch : TaskChoice} {s s' : World × Progress}
  {r : Except Exn c.Reply}

variable (settings i) in
/-- The protocol of the process `i`. -/
abbrev attemptProtocol : Protocol Exn TaskCall TaskCall.Reply (World × Progress) :=
  (attemptDiscipline settings.maxTaskAttempts).protocol (attemptMachine settings) attemptPolicy i

theorem standing_of_answer (h : (attemptMachine settings).answer i c ch s = some (r, s')) :
    s'.2.standing i = c.standing ch s.1 (s.2.standing i) := by
  rw [(Machine.observe_answer h).2]
  exact Function.update_self ..

theorem standing_of_answer_ne (h : (attemptMachine settings).answer i c ch s = some (r, s'))
    {j : ℕ} (hj : j ≠ i) : s'.2.standing j = s.2.standing j := by
  rw [(Machine.observe_answer h).2]
  exact Function.update_of_ne hj ..

theorem runs_of_answer (h : (attemptMachine settings).answer i c ch s = some (r, s')) :
    s'.2.runs = c.runs settings i ch s.1 s.2.runs := by
  rw [(Machine.observe_answer h).2]
  rfl

/-- What a step of the process `i` owes to the others. -/
theorem attempts_keeps (hinv : AttemptsSound settings.maxTaskAttempts s)
    (h : (attemptMachine settings).answer i c ch s = some (r, s'))
    (hsent : ∀ payload, c.sent = some payload → payload.Bounded settings.maxTaskAttempts)
    (hwritten : ∀ task, c.written = some task → task.Bounded settings.maxTaskAttempts)
    (hlease : ∀ taskId, (s'.2.standing i).task = some taskId → s'.1.leases taskId = some i)
    (hothers : ∀ taskId, (s.2.standing i).task ≠ some taskId → s'.2.runs taskId = 0 ∨
      (s'.2.runs taskId = s.2.runs taskId ∧ s'.1.records taskId = s.1.records taskId))
    (hspent : ∀ taskId, s'.2.standing i ≠ .ran taskId → Spent taskId s' ∨
      (s.2.standing i ≠ .ran taskId ∧ s'.2.runs taskId = s.2.runs taskId ∧
        s'.1.records taskId = s.1.records taskId))
    (hruns : ∀ taskId, s'.2.runs taskId ≤ settings.maxTaskAttempts) :
    (attemptDiscipline settings.maxTaskAttempts).Keeps i s s' := by
  have hr := (Machine.observe_answer h).1
  refine ⟨⟨hinv.keyed.answer hr, ?_, ?_, ?_, ?_, hruns⟩, ?_⟩
  · intro taskId task htask
    rcases records_of_answer hr with hsame | ⟨written, hcall, hstored⟩
    · exact hinv.records taskId task (hsame ▸ htask)
    · rw [hstored, World.store_records] at htask
      split at htask
      · cases htask
        exact hwritten task hcall
      · exact hinv.records taskId task htask
  · intro payload hcarried
    exact (carried_of_answer hr hcarried).elim (hinv.messages payload) (hsent payload)
  · intro j taskId htask
    by_cases hj : j = i
    · subst hj
      exact hlease taskId htask
    · rw [standing_of_answer_ne h hj] at htask
      exact (leaseStep_of_answer hr).kept taskId j hj (hinv.leases j taskId htask)
  · intro taskId hnone
    rcases hspent taskId (hnone i) with hspent | ⟨hown, hruns, hrecord⟩
    · exact hspent
    · have hbefore : Spent taskId s := hinv.spent taskId fun j => by
        by_cases hj : j = i
        · exact hj ▸ hown
        · exact standing_of_answer_ne h hj ▸ hnone j
      rwa [Spent, hrecord, hruns]
  · intro j hj
    cases j with
    | none => trivial
    | some j =>
        have hji : j ≠ i := fun heq => hj (congrArg some heq)
        refine ⟨standing_of_answer_ne h hji, fun taskId htask => ?_⟩
        have hother : (s.2.standing i).task ≠ some taskId := by
          intro hmine
          have hboth := (hinv.leases j taskId htask).symm.trans (hinv.leases i taskId hmine)
          exact hji (Option.some.inj hboth)
        exact (hothers taskId hother).imp_right fun hsame => ⟨hsame.1, .inl hsame.2⟩

/-- A step that leaves the records and the counts as they are. -/
theorem attempts_keeps_still (hinv : AttemptsSound settings.maxTaskAttempts s)
    (h : (attemptMachine settings).answer i c ch s = some (r, s'))
    (hsent : ∀ payload, c.sent = some payload → payload.Bounded settings.maxTaskAttempts)
    (hwritten : ∀ task, c.written = some task → task.Bounded settings.maxTaskAttempts)
    (hlease : ∀ taskId, (s'.2.standing i).task = some taskId → s'.1.leases taskId = some i)
    (hrecords : s'.1.records = s.1.records) (hruns : s'.2.runs = s.2.runs)
    (hleft : ∀ taskId, s.2.standing i = .ran taskId → s'.2.standing i = .ran taskId) :
    (attemptDiscipline settings.maxTaskAttempts).Keeps i s s' := by
  apply attempts_keeps hinv h hsent hwritten hlease
  · exact fun taskId _ => .inr ⟨congrFun hruns taskId, congrFun hrecords taskId⟩
  · intro taskId hnone
    exact .inr ⟨fun hran => hnone (hleft taskId hran), congrFun hruns taskId,
      congrFun hrecords taskId⟩
  · rw [hruns]
    exact hinv.runs

/-- A call that writes no record, touches no lease and moves no process. -/
def TaskCall.bystander : TaskCall → Bool
  | .setNew _ | .createScript .. | .saveTask .. | .transitionTask .. | .acquireTaskLease ..
  | .releaseTaskLease _ | .run .. | .getTask (.handleFailure _) _ => false
  | _ => true

theorem TaskCall.standing_of_bystander (hc : c.bystander = true) (w : World)
    (standing : Standing) : c.standing ch w standing = standing := by
  cases c with
  | getTask site taskId => cases site <;> first | rfl | cases hc
  | _ => first | rfl | cases hc

theorem TaskCall.written_of_bystander (hc : c.bystander = true) : c.written = none := by
  cases c <;> first | rfl | cases hc

theorem TaskCall.runs_of_bystander (hc : c.bystander = true) (w : World) (runs : String → ℕ) :
    c.runs settings i ch w runs = runs := by
  cases c <;> first | rfl | cases hc

theorem progress_records_of_unwritten (hc : c.written = none)
    (h : (attemptMachine settings).answer i c ch s = some (r, s')) :
    s'.1.records = s.1.records := by
  rcases records_of_answer (Machine.observe_answer h).1 with hsame | ⟨task, htask, -⟩
  · exact hsame
  · rw [hc] at htask
    cases htask

/-- What a process finds after a call of its own that only stands by. -/
theorem undisturbed_of_bystander (hc : c.bystander = true)
    (h : (attemptMachine settings).answer i c ch s = some (r, s')) : Undisturbed i s s' := by
  constructor
  · rw [standing_of_answer h, TaskCall.standing_of_bystander hc]
  · intro taskId _
    refine .inr ⟨by rw [runs_of_answer h, TaskCall.runs_of_bystander hc], .inl ?_⟩
    rw [progress_records_of_unwritten (TaskCall.written_of_bystander hc) h]

theorem leases_of_bystander (hc : c.bystander = true)
    (h : (attemptMachine settings).answer i c ch s = some (r, s')) :
    s'.1.leases = s.1.leases := by
  apply leases_of_answer _ _ (Machine.observe_answer h).1
  · rintro taskId ttl rfl
    cases hc
  · rintro taskId rfl
    cases hc

theorem attempts_may_bystander (hc : c.bystander = true)
    (hsent : ∀ payload, c.sent = some payload → payload.Bounded settings.maxTaskAttempts) :
    (attemptProtocol settings i).may c s := by
  intro s₁ _ hinv ch r s₂ _ h
  have hsame := (undisturbed_of_bystander hc h).standing
  have hwritten := TaskCall.written_of_bystander hc
  apply attempts_keeps_still hinv h hsent
  · intro task htask
    rw [hwritten] at htask
    cases htask
  · intro taskId htask
    rw [leases_of_bystander hc h]
    exact hinv.leases i taskId (hsame ▸ htask)
  · exact progress_records_of_unwritten hwritten h
  · rw [runs_of_answer h, TaskCall.runs_of_bystander hc]
  · exact fun taskId hran => hsame.trans hran

/-- What a process finds after a call that only stands by. -/
theorem undisturbed_of_next (hc : c.bystander = true)
    (h : (attemptProtocol settings i).next c s r s') : Undisturbed i s s' := by
  obtain ⟨s₁, ch, hrely, -, -, hanswer⟩ := h
  exact Undisturbed.trans hrely (undisturbed_of_bystander hc hanswer)

theorem TaskCall.written_of_served {task : TaskRecord} (h : c.served = some task) :
    c.written = some task := by
  cases c with
  | saveTask site task' =>
      simp only [TaskCall.served] at h
      split at h <;> cases h
      rfl
  | _ => exact h

theorem TaskCall.sent_of_served {task : TaskRecord} (h : c.served = some task) :
    c.sent = none := by
  cases c <;> first | rfl | cases h

/-- The task service may write a record that expects a message below the limit. -/
theorem attempts_may_serve {task : TaskRecord} (hserved : c.served = some task)
    (hbounded : task.Bounded settings.maxTaskAttempts) (hlimit : 0 ≤ settings.maxTaskAttempts) :
    (attemptProtocol settings i).may c s := by
  intro s₁ _ hinv ch r s₂ _ h
  have hwritten := TaskCall.written_of_served hserved
  have hsent : ∀ payload, c.sent = some payload → payload.Bounded settings.maxTaskAttempts := by
    intro payload hsent
    rw [TaskCall.sent_of_served hserved] at hsent
    cases hsent
  have htask : ∀ task', c.written = some task' → task'.Bounded settings.maxTaskAttempts := by
    intro task' htask'
    cases hwritten.symm.trans htask'
    exact hbounded
  have hstanding : s₂.2.standing i = s₁.2.standing i := by
    rw [standing_of_answer h]
    cases c with
    | saveTask site task' => cases site <;> first | rfl | cases hserved
    | _ => first | rfl | cases hserved
  have hruns : s₂.2.runs = if c.stores settings i ch s₁.1 then
      Function.update s₁.2.runs task.taskId 0 else s₁.2.runs := by
    rw [runs_of_answer h]
    cases c with
    | run => cases hserved
    | _ => simp only [TaskCall.runs, hserved]
  have hleases : s₂.1.leases = s₁.1.leases := by
    apply leases_of_answer _ _ (Machine.observe_answer h).1
    · rintro taskId ttl rfl
      cases hserved
    · rintro taskId rfl
      cases hserved
  have hlease : ∀ taskId, (s₂.2.standing i).task = some taskId → s₂.1.leases taskId = some i := by
    intro taskId hmine
    rw [hleases]
    exact hinv.leases i taskId (hstanding ▸ hmine)
  rcases stores_of_answer (Machine.observe_answer h).1 with
    ⟨hstores, -, reply, hrun, hwrote⟩ | ⟨hstores, hrecords⟩
  · have hstored : s₂.1.records = (s₁.1.store task).records := by
      rcases wrote_of_execute hrun with ⟨-, task', hwritten', hstored⟩ | ⟨hnot, -⟩
      · cases hwritten.symm.trans hwritten'
        exact hstored
      · rw [hwrote] at hnot
        cases hnot
    rw [if_pos hstores] at hruns
    have hother : ∀ taskId, taskId ≠ task.taskId → s₂.2.runs taskId = s₁.2.runs taskId ∧
        s₂.1.records taskId = s₁.1.records taskId := by
      intro taskId hne
      rw [hruns, hstored, World.store_records, if_neg hne]
      exact ⟨Function.update_of_ne hne .., rfl⟩
    have hzero : s₂.2.runs task.taskId = 0 := by
      rw [hruns]
      exact Function.update_self ..
    apply attempts_keeps hinv h hsent htask hlease
    · intro taskId _
      by_cases heq : taskId = task.taskId
      · exact .inl (heq ▸ hzero)
      · exact .inr (hother taskId heq)
    · intro taskId hnone
      by_cases heq : taskId = task.taskId
      · subst heq
        left
        intro task' htask' hrunnable n hn
        rw [hstored, World.store_records, if_pos rfl] at htask'
        cases htask'
        obtain ⟨m, hm, hnonneg, -⟩ := hbounded (.inl hrunnable)
        cases hm.symm.trans hn
        rw [hzero]
        exact hnonneg
      · exact .inr ⟨hstanding ▸ hnone, hother taskId heq⟩
    · intro taskId
      by_cases heq : taskId = task.taskId
      · rw [heq, hzero]
        exact hlimit
      · rw [(hother taskId heq).1]
        exact hinv.runs taskId
  · rw [if_neg (by simp [hstores])] at hruns
    exact attempts_keeps_still hinv h hsent htask hlease hrecords hruns
      fun taskId hran => hstanding.trans hran

end Rules

end CommerceAgent
