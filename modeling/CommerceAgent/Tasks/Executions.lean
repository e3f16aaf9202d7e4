import CommerceAgent.Tasks.Attempts
import CommerceAgent.Tasks.Pending

/-!
# Bounded execution

The lease keeps two runs of a task apart, the attempts of all messages stay below
the limit, and between two writes of the task service a task is run at most that
often. Each is read off the invariant of the attempts, whose outline says what a
handler knows of the runs of its task: no more than the attempt of its message
before it runs the orchestrator, and one more after that.
-/

namespace CommerceAgent

open Effects

section Rules

variable {settings : Settings} {i : ℕ} {c : TaskCall} {ch : TaskChoice} {s s' : World × Progress}
  {r : Except Exn c.Reply}

/-- The record is gone, or the task has been run no more often than the next attempt of
the message says. -/
def Due (payload : QueueMessage) (s : World × Progress) : Prop :=
  s.1.records payload.taskId = none ∨ s.2.runs payload.taskId ≤ payload.attempt + 1

/-- The runs of the task are at most `n`. -/
abbrev RunsAtMost (n : ℤ) (payload : QueueMessage) (s : World × Progress) : Prop :=
  s.2.runs payload.taskId ≤ n

/-- What the processes know about the attempts. -/
def attemptKnowledge (limit : ℤ) (i : ℕ) : Knowledge → World × Progress → Prop
  | .known task, _ => task.Bounded limit
  | .approved .., _ => True
  | .stored task _, _ => task.Expecting limit
  | .received payload, s => payload.Bounded limit ∧ s.2.standing i = .outside
  | .holding payload, s => payload.Bounded limit ∧ s.2.standing i = .held payload.taskId
  | .found payload task, s => payload.Bounded limit ∧ s.2.standing i = .held payload.taskId ∧
      task.Bounded limit ∧ (task.Runnable → ∀ n, task.pendingAttempt = some n →
        RunsAtMost n payload s)
  | .missing payload, s => payload.Bounded limit ∧ s.2.standing i = .held payload.taskId ∧
      Due payload s
  | .matched payload task, s => payload.Bounded limit ∧ s.2.standing i = .held payload.taskId ∧
      task.taskId = payload.taskId ∧ RunsAtMost payload.attempt payload s
  | .ran payload task _, s => payload.Bounded limit ∧ s.2.standing i = .ran payload.taskId ∧
      task.taskId = payload.taskId ∧ RunsAtMost (payload.attempt + 1) payload s
  | .concluded payload, s => payload.Bounded limit ∧
      s.2.standing i = .recorded payload.taskId ∧ Due payload s
  | .raised payload exc, s => payload.Bounded limit ∧
      (s.2.standing i).task = some payload.taskId ∧ Due payload s ∧
        (safeError exc).1 ≠ "QUEUE_PUBLISH_FAILED"
  | .failing payload exc _, s => payload.Bounded limit ∧
      (s.2.standing i).task = some payload.taskId ∧
        RunsAtMost (payload.attempt + 1) payload s ∧ (safeError exc).1 ≠ "QUEUE_PUBLISH_FAILED"
  | .failed payload task, s => payload.Bounded limit ∧
      s.2.standing i = .recorded payload.taskId ∧ task.taskId = payload.taskId ∧
      task.pendingAttempt = some (payload.attempt + 1) ∧
        (task.status = .retrying → task.Expecting limit) ∧
          RunsAtMost (payload.attempt + 1) payload s
  | .settled payload, s => s.2.standing i = .held payload.taskId ∨
      s.2.standing i = .recorded payload.taskId

theorem Undisturbed.runsAtMost {payload : QueueMessage} {n : ℤ} (h : Undisturbed i s s')
    (hn : 0 ≤ n) (htask : (s.2.standing i).task = some payload.taskId)
    (hruns : RunsAtMost n payload s) : RunsAtMost n payload s' := by
  rcases h.runs payload.taskId htask with hzero | ⟨hsame, -⟩
  · simpa [RunsAtMost, hzero] using hn
  · simpa [RunsAtMost, hsame] using hruns

theorem Undisturbed.due {payload : QueueMessage} {limit : ℤ} (h : Undisturbed i s s')
    (hbounded : payload.Bounded limit) (htask : (s.2.standing i).task = some payload.taskId)
    (hdue : Due payload s) : Due payload s' := by
  have hnonneg := hbounded.1
  rcases h.runs payload.taskId htask with hzero | ⟨hsame, hrecord⟩
  · exact .inr (by rw [hzero]; omega)
  · rcases hdue with hnone | hruns
    · exact .inl (hrecord.elim (fun h => h.trans hnone) id)
    · exact .inr (hsame ▸ hruns)

/-- What a process knows is still so when it was not disturbed. -/
theorem attemptKnowledge_later {limit : ℤ} {k : Knowledge} (h : Undisturbed i s s')
    (hk : attemptKnowledge limit i k s) : attemptKnowledge limit i k s' := by
  have hstanding := h.standing
  cases k with
  | known | approved | stored => exact hk
  | received payload => exact ⟨hk.1, hstanding.trans hk.2⟩
  | holding payload => exact ⟨hk.1, hstanding.trans hk.2⟩
  | found payload task =>
      obtain ⟨hbounded, hheld, htask, hruns⟩ := hk
      refine ⟨hbounded, hstanding.trans hheld, htask, fun hrunnable n hn => ?_⟩
      obtain ⟨m, hm, hnonneg, -⟩ := htask (.inl hrunnable)
      cases hm.symm.trans hn
      exact h.runsAtMost hnonneg (by rw [hheld]; rfl) (hruns hrunnable n hn)
  | missing payload =>
      obtain ⟨hbounded, hheld, hdue⟩ := hk
      exact ⟨hbounded, hstanding.trans hheld, h.due hbounded (by rw [hheld]; rfl) hdue⟩
  | matched payload task =>
      obtain ⟨hbounded, hheld, htask, hruns⟩ := hk
      exact ⟨hbounded, hstanding.trans hheld, htask,
        h.runsAtMost hbounded.1 (by rw [hheld]; rfl) hruns⟩
  | ran payload task outcome =>
      obtain ⟨hbounded, hran, htask, hruns⟩ := hk
      have hnonneg := hbounded.1
      exact ⟨hbounded, hstanding.trans hran, htask,
        h.runsAtMost (by omega) (by rw [hran]; rfl) hruns⟩
  | concluded payload =>
      obtain ⟨hbounded, hrecorded, hdue⟩ := hk
      exact ⟨hbounded, hstanding.trans hrecorded, h.due hbounded (by rw [hrecorded]; rfl) hdue⟩
  | raised payload exc =>
      obtain ⟨hbounded, htask, hdue, hcode⟩ := hk
      exact ⟨hbounded, hstanding ▸ htask, h.due hbounded htask hdue, hcode⟩
  | failing payload exc task =>
      obtain ⟨hbounded, htask, hruns, hcode⟩ := hk
      have hnonneg := hbounded.1
      exact ⟨hbounded, hstanding ▸ htask, h.runsAtMost (by omega) htask hruns, hcode⟩
  | failed payload task =>
      obtain ⟨hbounded, hrecorded, htask, hpending, hexpects, hruns⟩ := hk
      have hnonneg := hbounded.1
      exact ⟨hbounded, hstanding.trans hrecorded, htask, hpending, hexpects,
        h.runsAtMost (by omega) (by rw [hrecorded]; rfl) hruns⟩
  | settled payload => exact hk.imp hstanding.trans hstanding.trans

/-- The operation of the call does not fail by itself. -/
def TaskCall.Total (settings : Settings) (i : ℕ) (c : TaskCall) : Prop :=
  ∀ ch w, ∃ reply, c.execute settings i ch w = .ok reply

/-- The exception that such a call raises is what the environment chose. -/
theorem raised_of_answer {w w' : World} {e : Exn} (hc : c.Total settings i)
    (h : (taskMachine settings arbitraryRun).answer i c ch w = some (.error e, w')) :
    ch.raised = some e := by
  obtain ⟨reply, hrun⟩ := hc ch w
  have h := Option.some.inj h
  rw [hrun] at h
  cases hending : ch.ending <;> rw [hending] at h <;> cases h <;> simp [TaskChoice.raised, hending]

/-- No call raises the error of a failed publish. -/
theorem code_of_next {e : Exn} (hc : c.Total settings i)
    (h : (attemptProtocol settings i).next c s (.error e) s') :
    (safeError e).1 ≠ "QUEUE_PUBLISH_FAILED" := by
  obtain ⟨s₁, ch, -, -, hpermit, hanswer⟩ := h
  exact hpermit.2 e (raised_of_answer hc (Machine.observe_answer hanswer).1)

/-- An essential call does not raise. -/
theorem returns_of_next {e : Exn} (hc : c.Total settings i)
    (hessential : c.essential (s.2.standing i) = true)
    (h : (attemptProtocol settings i).next c s (.error e) s') : False := by
  obtain ⟨s₁, ch, hrely, -, hpermit, hanswer⟩ := h
  have hdone := hpermit.1 (by rwa [hrely.standing])
  have hraised := raised_of_answer hc (Machine.observe_answer hanswer).1
  rw [TaskChoice.raised, hdone] at hraised
  cases hraised

/-- What a read returns, where it stands, and that the record read is the stored one. -/
theorem read_of_next {site : Site} {taskId : String} {found : Option TaskRecord}
    (h : (attemptProtocol settings i).next (.getTask site taskId) s (.ok found) s') :
    ∃ s₁, Undisturbed i s s₁ ∧ AttemptsSound settings.maxTaskAttempts s₁ ∧
      s₁.1.records taskId = found ∧ s'.1 = s₁.1 ∧ s'.2.runs = s₁.2.runs ∧
        s'.2.standing i = (TaskCall.getTask site taskId).standing {} s₁.1 (s₁.2.standing i) := by
  obtain ⟨s₁, ch, hrely, hinv, -, hanswer⟩ := h
  obtain ⟨hfound, hsame⟩ := read_of_answer (Machine.observe_answer hanswer).1
  have hdone := done_of_answer (Machine.observe_answer hanswer).1
  refine ⟨s₁, hrely, hinv, hfound.symm, hsame, runs_of_answer hanswer, ?_⟩
  rw [standing_of_answer hanswer]
  cases site <;> simp [TaskCall.standing, hdone]

/-- A process that holds the lease is the only one that can have run the task. -/
theorem spent_of_held {taskId : String} (hinv : AttemptsSound settings.maxTaskAttempts s)
    (hheld : s.2.standing i = .held taskId) : Spent taskId s := by
  apply hinv.spent
  intro j hran
  have hboth := (hinv.leases j taskId (by rw [hran]; rfl)).symm.trans
    (hinv.leases i taskId (by rw [hheld]; rfl))
  cases hboth
  rw [hheld] at hran
  cases hran

/-- A handler may run the orchestrator on a record it has started. -/
theorem attempts_may_run {payload : QueueMessage} {task : TaskRecord}
    {resumeKind : Option ResumeKind} {resumeId : Option String}
    (hk : attemptKnowledge settings.maxTaskAttempts i (.matched payload task) s) :
    (attemptProtocol settings i).may (.run task resumeKind resumeId) s := by
  intro s₁ hrely hinv ch r s₂ _ h
  obtain ⟨hbounded, hheld, htask, hruns⟩ := attemptKnowledge_later hrely hk
  have hstanding : s₂.2.standing i = .ran task.taskId := standing_of_answer h
  have hrecords := progress_records_of_unwritten rfl h
  have hleases := leases_of_answer (by simp) (by simp) (Machine.observe_answer h).1
  have hcount : s₂.2.runs =
      Function.update s₁.2.runs task.taskId (s₁.2.runs task.taskId + 1) := runs_of_answer h
  have hmine : (s₁.2.standing i).task = some task.taskId := by rw [hheld, htask]; rfl
  apply attempts_keeps hinv h
  · exact fun _ hsent => by cases hsent
  · exact fun _ hwritten => by cases hwritten
  · intro taskId hown
    rw [hleases]
    rw [hstanding] at hown
    exact hinv.leases i taskId (hmine.trans hown)
  · intro taskId hother
    have hne : taskId ≠ task.taskId := fun heq => hother (by rw [heq, hmine])
    rw [hcount, hrecords, Function.update_of_ne hne]
    exact .inr ⟨rfl, rfl⟩
  · intro taskId hnone
    have hne : taskId ≠ task.taskId := by
      rintro rfl
      exact hnone hstanding
    rw [hcount, hrecords, Function.update_of_ne hne]
    exact .inr ⟨by rw [hheld]; nofun, rfl, rfl⟩
  · intro taskId
    by_cases heq : taskId = task.taskId
    · have hlimit := hbounded.2
      rw [htask] at heq
      rw [hcount, heq, htask, Function.update_self]
      simp only [RunsAtMost] at hruns
      push_cast
      omega
    · rw [hcount, Function.update_of_ne heq]
      exact hinv.runs taskId

theorem standing_of_save (site : Site) (task : TaskRecord) (ch : TaskChoice) (w : World)
    (standing : Standing) :
    (TaskCall.saveTask site task).standing ch w standing = standing ∨
      (ch.ending.effective = true ∧
        (TaskCall.saveTask site task).standing ch w standing = .recorded task.taskId) := by
  cases heffective : ch.ending.effective with
  | false =>
      left
      cases site <;> simp [TaskCall.standing, heffective]
  | true =>
      cases site with
      | outcome payload | handleFailure payload =>
          exact .inr ⟨rfl, by simp [TaskCall.standing, heffective]⟩
      | _ => exact .inl rfl

/-- A handler may store a record that its task has not overrun. -/
theorem attempts_may_save {site : Site} {payload : QueueMessage} {task : TaskRecord}
    (hsite : site.payload = some payload) (hbounded : task.Bounded settings.maxTaskAttempts)
    (htask : task.taskId = payload.taskId)
    (hown : (s.2.standing i).task = some payload.taskId)
    (hruns : task.Runnable → ∀ n, task.pendingAttempt = some n → RunsAtMost n payload s) :
    (attemptProtocol settings i).may (.saveTask site task) s := by
  intro s₁ hrely hinv ch r s₂ _ h
  have hown₁ : (s₁.2.standing i).task = some payload.taskId := hrely.standing ▸ hown
  have hwritten : ∀ task', (TaskCall.saveTask site task).written = some task' →
      task'.Bounded settings.maxTaskAttempts := by
    rintro task' ⟨⟩
    exact hbounded
  have hleases := leases_of_answer (by simp) (by simp) (Machine.observe_answer h).1
  have hcount : s₂.2.runs = s₁.2.runs := by
    rw [runs_of_answer h]
    simp [TaskCall.runs, TaskCall.served, hsite]
  have hstanding := standing_of_save site task ch s₁.1 (s₁.2.standing i)
  rw [← standing_of_answer h] at hstanding
  have hlease : ∀ taskId, (s₂.2.standing i).task = some taskId →
      s₂.1.leases taskId = some i := by
    intro taskId hmine
    rw [hleases]
    rcases hstanding with hsame | ⟨-, hrecorded⟩
    · exact hinv.leases i taskId (hsame ▸ hmine)
    · rw [hrecorded, htask] at hmine
      exact hinv.leases i taskId (hown₁.trans hmine)
  have hsent : ∀ payload', (TaskCall.saveTask site task).sent = some payload' →
      payload'.Bounded settings.maxTaskAttempts := fun _ hsent => by cases hsent
  rcases stores_of_answer (Machine.observe_answer h).1 with
    ⟨-, -, reply, hrun, hwrote⟩ | ⟨hstores, hrecords⟩
  · have hrecord : ∀ taskId, s₂.1.records taskId =
        if taskId = payload.taskId then some task else s₁.1.records taskId := by
      have hstored : s₁.1.store task = s₂.1 := congrArg Prod.snd (Except.ok.inj hrun)
      rw [← hstored, ← htask]
      exact s₁.1.store_records task
    apply attempts_keeps hinv h hsent hwritten hlease
    · intro taskId hother
      have hne : taskId ≠ payload.taskId := fun heq => hother (heq ▸ hown₁)
      exact .inr ⟨by rw [hcount], by rw [hrecord, if_neg hne]⟩
    · intro taskId _
      by_cases heq : taskId = payload.taskId
      · subst heq
        left
        intro task' htask' hrunnable n hn
        rw [hrecord, if_pos rfl] at htask'
        cases htask'
        obtain ⟨m, hm, hnonneg, -⟩ := hbounded (.inl hrunnable)
        cases hm.symm.trans hn
        have hlater : RunsAtMost n payload s₁ :=
          Undisturbed.runsAtMost hrely hnonneg hown (hruns hrunnable n hn)
        simpa [RunsAtMost, hcount] using hlater
      · refine .inr ⟨fun hran => ?_, by rw [hcount], by rw [hrecord, if_neg heq]⟩
        rw [hran] at hown₁
        exact heq (Option.some.inj hown₁)
    · rw [hcount]
      exact hinv.runs
  · apply attempts_keeps_still hinv h hsent hwritten hlease hrecords hcount
    intro taskId hran
    rcases hstanding with hsame | ⟨heffective, -⟩
    · exact hsame.trans hran
    · cases hending : ch.ending <;>
        simp [TaskCall.stores, hending, TaskCall.execute, TaskCall.wrote, Ending.effective]
          at hstores heffective

/-- What a handler that has stored a record knows: where it stands, and the runs of
its task. -/
theorem saved_of_next {site : Site} {task : TaskRecord} {r : Except Exn Unit}
    (hsite : site.payload ≠ none)
    (h : (attemptProtocol settings i).next (.saveTask site task) s r s') :
    ∃ s₁, Undisturbed i s s₁ ∧ s'.2.runs = s₁.2.runs ∧
      (s'.2.standing i = s₁.2.standing i ∨ s'.2.standing i = .recorded task.taskId) ∧
      (r = .ok () → s'.2.standing i =
        (TaskCall.saveTask site task).standing {} s₁.1 (s₁.2.standing i)) := by
  obtain ⟨s₁, ch, hrely, -, -, hanswer⟩ := h
  have hstanding := standing_of_answer hanswer
  refine ⟨s₁, hrely, ?_, ?_, ?_⟩
  · rw [runs_of_answer hanswer]
    simp [TaskCall.runs, TaskCall.served, hsite]
  · rw [hstanding]
    exact (standing_of_save site task ch s₁.1 _).imp_right And.right
  · rintro rfl
    have hdone := done_of_answer (Machine.observe_answer hanswer).1
    rw [hstanding]
    cases site <;> simp [TaskCall.standing, hdone]

/-- To store a record takes a handler out of no task and runs none. -/
theorem own_of_saved {site : Site} {payload : QueueMessage} {task : TaskRecord}
    {r : Except Exn Unit} (h : (attemptProtocol settings i).next (.saveTask site task) s r s')
    (hsite : site.payload = some payload) (hbounded : payload.Bounded settings.maxTaskAttempts)
    (htask : task.taskId = payload.taskId) (hown : (s.2.standing i).task = some payload.taskId)
    (hruns : RunsAtMost (payload.attempt + 1) payload s) :
    (s'.2.standing i).task = some payload.taskId ∧
      RunsAtMost (payload.attempt + 1) payload s' := by
  obtain ⟨s₁, hrely, hcount, hstanding, -⟩ := saved_of_next (by simp [hsite]) h
  have hnonneg := hbounded.1
  constructor
  · rcases hstanding with hsame | hrecorded
    · rw [hsame, hrely.standing, hown]
    · rw [hrecorded, htask]
      rfl
  · rw [RunsAtMost, hcount]
    exact hrely.runsAtMost (by omega) hown hruns

/-- A handler that took a message may ask for the lease. -/
theorem attempts_may_acquire {payload : QueueMessage} {taskId : String} {ttl : ℕ}
    (hk : attemptKnowledge settings.maxTaskAttempts i (.received payload) s) :
    (attemptProtocol settings i).may (.acquireTaskLease taskId ttl) s := by
  intro s₁ hrely hinv ch r s₂ _ h
  have houtside := (attemptKnowledge_later hrely hk).2
  have hstanding := standing_of_answer h
  apply attempts_keeps_still hinv h
  · exact fun _ hsent => by cases hsent
  · exact fun _ hwritten => by cases hwritten
  · intro taskId' hmine
    rw [hstanding, houtside, TaskCall.standing] at hmine
    split at hmine
    · next hfree =>
        cases hmine
        have hanswer := Option.some.inj (Machine.observe_answer h).1
        rw [hfree.1] at hanswer
        simp only [TaskCall.execute, hfree.2, Ending.answer] at hanswer
        have hleases := congrArg World.leases (congrArg Prod.snd hanswer)
        rw [← hleases]
        exact Function.update_self ..
    · cases hmine
  · exact progress_records_of_unwritten rfl h
  · exact runs_of_answer h
  · intro taskId' hran
    rw [houtside] at hran
    cases hran

/-- A handler that has settled its message may release the lease. -/
theorem attempts_may_release {payload : QueueMessage} {taskId : String}
    (hk : attemptKnowledge settings.maxTaskAttempts i (.settled payload) s) :
    (attemptProtocol settings i).may (.releaseTaskLease taskId) s := by
  intro s₁ hrely hinv ch r s₂ _ h
  have hsettled := attemptKnowledge_later hrely hk
  have hstanding : s₂.2.standing i = .outside := standing_of_answer h
  apply attempts_keeps_still hinv h
  · exact fun _ hsent => by cases hsent
  · exact fun _ hwritten => by cases hwritten
  · intro taskId' hmine
    rw [hstanding] at hmine
    cases hmine
  · exact progress_records_of_unwritten rfl h
  · exact runs_of_answer h
  · intro taskId' hran
    rcases hsettled with hheld | hrecorded
    · rw [hheld] at hran
      cases hran
    · rw [hrecorded] at hran
      cases hran

/-- A handler may read its record after a failure. -/
theorem attempts_may_readFailure {payload : QueueMessage}
    (hown : (s.2.standing i).task = some payload.taskId) :
    (attemptProtocol settings i).may (.getTask (.handleFailure payload) payload.taskId) s := by
  intro s₁ hrely hinv ch r s₂ _ h
  have hown₁ : (s₁.2.standing i).task = some payload.taskId := hrely.standing ▸ hown
  have hrecords := progress_records_of_unwritten rfl h
  have hcount : s₂.2.runs = s₁.2.runs := runs_of_answer h
  have hleases := leases_of_answer (by simp) (by simp) (Machine.observe_answer h).1
  have hstanding : s₂.2.standing i = s₁.2.standing i ∨
      (s₁.1.records payload.taskId = none ∧ s₂.2.standing i = .recorded payload.taskId) := by
    rw [standing_of_answer h, TaskCall.standing]
    split
    · next hnone => exact .inr ⟨hnone.2, rfl⟩
    · exact .inl rfl
  apply attempts_keeps hinv h
  · exact fun _ hsent => by cases hsent
  · exact fun _ hwritten => by cases hwritten
  · intro taskId hmine
    rw [hleases]
    rcases hstanding with hsame | ⟨-, hrecorded⟩
    · exact hinv.leases i taskId (hsame ▸ hmine)
    · rw [hrecorded] at hmine
      exact hinv.leases i taskId (hown₁.trans hmine)
  · exact fun taskId _ => .inr ⟨by rw [hcount], by rw [hrecords]⟩
  · intro taskId hleft
    rcases hstanding with hsame | ⟨hnone, -⟩
    · exact .inr ⟨hsame ▸ hleft, by rw [hcount], by rw [hrecords]⟩
    by_cases heq : taskId = payload.taskId
    · left
      intro task htask
      rw [hrecords, heq, hnone] at htask
      cases htask
    · refine .inr ⟨fun hran => ?_, by rw [hcount], by rw [hrecords]⟩
      rw [hran] at hown₁
      exact heq (Option.some.inj hown₁)
  · rw [hcount]
    exact hinv.runs

theorem attemptOutline (hlimit : 0 < settings.maxTaskAttempts) :
    Outline settings (attemptProtocol settings i)
      (attemptKnowledge settings.maxTaskAttempts i) where
  neutral c s hc := by
    have hbystander : c.bystander = true := by
      cases c <;> first | rfl | cases hc
    have hsilent : c.sent = none := by
      cases c <;> first | rfl | cases hc
    refine ⟨attempts_may_bystander hbystander ?_, fun r s' h k hk => ?_⟩
    · intro payload hsent
      rw [hsilent] at hsent
      cases hsent
    · exact attemptKnowledge_later (undisturbed_of_next hbystander h) hk
  read site taskId s hsite := by
    have hbystander : (TaskCall.getTask site taskId).bystander = true := by
      cases site <;> first | rfl | cases hsite
    refine ⟨attempts_may_bystander hbystander (by simp [TaskCall.sent]), fun task s' h => ?_⟩
    obtain ⟨s₁, -, hinv, hfound, -, -, -⟩ := read_of_next h
    exact ⟨hinv.keyed taskId task hfound, hinv.records taskId task hfound⟩
  setNew request s := by
    have hexpecting : request.record.Expecting settings.maxTaskAttempts := ⟨0, rfl, le_rfl, hlimit⟩
    exact ⟨attempts_may_serve rfl (fun _ => hexpecting) hlimit.le, fun _ _ => hexpecting⟩
  createScript request key s := by
    have hexpecting : request.record.Expecting settings.maxTaskAttempts := ⟨0, rfl, le_rfl, hlimit⟩
    exact ⟨attempts_may_serve rfl (fun _ => hexpecting) hlimit.le, fun _ _ _ => hexpecting⟩
  input task productId s _ _ := by
    have hexpecting : (task.withInput productId).Expecting settings.maxTaskAttempts :=
      ⟨0, rfl, le_rfl, hlimit⟩
    exact ⟨attempts_may_serve rfl (fun _ => hexpecting) hlimit.le, fun _ _ => hexpecting⟩
  record request task s _ _ :=
    ⟨attempts_may_bystander rfl (by simp [TaskCall.sent]), fun _ _ _ => trivial⟩
  approval task approvalId status s _ _ := by
    have hexpecting : (task.withApproval approvalId).Expecting settings.maxTaskAttempts :=
      ⟨0, rfl, le_rfl, hlimit⟩
    exact ⟨attempts_may_serve rfl (fun _ => hexpecting) hlimit.le, fun _ _ => hexpecting⟩
  resumed task s hk _ := by
    have hexpecting : task.resumed.Expecting settings.maxTaskAttempts := by
      by_cases hcode : task.errorCode = some "QUEUE_PUBLISH_FAILED"
      · obtain ⟨n, hn, hbounds⟩ := hk (.inr hcode)
        exact ⟨n, by simp [TaskRecord.resumed, TaskRecord.resumeAttempt, hcode, hn], hbounds⟩
      · exact ⟨0, by simp [TaskRecord.resumed, TaskRecord.resumeAttempt, hcode], le_rfl, hlimit⟩
    exact ⟨attempts_may_serve rfl (fun _ => hexpecting) hlimit.le, fun _ _ => hexpecting⟩
  publish task past payload s hk hpayload := by
    obtain ⟨n, hn, hbounds⟩ := hk
    have hattempt : payload.attempt = n := Option.some.inj (hpayload.2.1.symm.trans hn)
    refine ⟨attempts_may_bystander rfl ?_, fun _ _ _ => ⟨n, hn, hbounds⟩⟩
    rintro payload' ⟨⟩
    rwa [QueueMessage.Bounded, hattempt]
  publishFailed site task past errorMessage interaction s hk _ _ hsite := by
    have hserved : (TaskCall.saveTask site (task.publishFailed errorMessage interaction)).served =
        some (task.publishFailed errorMessage interaction) := by simp [TaskCall.served, hsite]
    exact attempts_may_serve hserved (fun _ => hk) hlimit.le
  acquire payload ttl s hk := by
    refine ⟨attempts_may_acquire hk, fun b s' h => ?_⟩
    obtain ⟨s₁, ch, hrely, -, -, hanswer⟩ := h
    have hdone := done_of_answer (Machine.observe_answer hanswer).1
    have hrun := execute_of_answer (Machine.observe_answer hanswer).1
    have hstanding := standing_of_answer hanswer
    have hk₁ := attemptKnowledge_later hrely hk
    simp only [TaskCall.execute] at hrun
    split at hrun
    · next hleased =>
        obtain ⟨rfl, -⟩ := Prod.mk.inj (Except.ok.inj hrun)
        refine ⟨hk.1, ?_⟩
        rw [hstanding, TaskCall.standing, if_neg (by simp [hleased])]
        exact hk₁.2
    · next hfree =>
        obtain ⟨rfl, -⟩ := Prod.mk.inj (Except.ok.inj hrun)
        refine ⟨hk.1, ?_⟩
        rw [hstanding, TaskCall.standing, if_pos ⟨hdone, hfree⟩]
  delay payload s hk := by
    apply attempts_may_bystander rfl
    rintro payload' ⟨⟩
    exact hk.1
  release payload s hk := attempts_may_release hk
  readMessage payload s hk := by
    refine ⟨attempts_may_bystander rfl (by simp [TaskCall.sent]), fun task s' h => ?_,
      fun s' h => ?_, fun e s' h => ?_⟩
    · obtain ⟨s₁, hrely, hinv, hfound, hsame, hcount, hstanding⟩ := read_of_next h
      have hheld : s₁.2.standing i = .held payload.taskId := hrely.standing.trans hk.2
      refine ⟨hinv.keyed _ task hfound, hk.1, hstanding.trans hheld, hinv.records _ task hfound, ?_⟩
      intro hrunnable n hn
      rw [RunsAtMost, hcount]
      exact spent_of_held hinv hheld task hfound hrunnable n hn
    · obtain ⟨s₁, hrely, -, hfound, hsame, -, hstanding⟩ := read_of_next h
      exact ⟨hk.1, hstanding.trans (hrely.standing.trans hk.2), .inl (hsame ▸ hfound)⟩
    · exact (returns_of_next (fun _ _ => ⟨_, rfl⟩) rfl h).elim
  dismiss payload s hk := by
    have hlater : ∀ {r s'}, (attemptProtocol settings i).next (.reject false) s r s' →
        attemptKnowledge settings.maxTaskAttempts i (.missing payload) s' :=
      fun h => attemptKnowledge_later (undisturbed_of_next rfl h) hk
    refine ⟨fun s' h => .inl (hlater h).2.1, fun e s' h => ?_⟩
    obtain ⟨hbounded, hheld, hdue⟩ := hlater h
    exact ⟨hbounded, by rw [hheld]; rfl, hdue, code_of_next (fun _ _ => ⟨_, rfl⟩) h⟩
  ignore payload task s hk := by
    refine ⟨fun s' h => ?_, fun e s' h => ?_⟩
    · exact .inl (attemptKnowledge_later (undisturbed_of_next rfl h) hk).2.1
    · exact (returns_of_next (fun _ _ => ⟨_, rfl⟩) (by rw [hk.2.1]; rfl) h).elim
  started payload task s hk htask hrunnable hmatches := by
    obtain ⟨hbounded, hheld, hrecord, hruns⟩ := hk
    obtain ⟨n, hn, hbounds⟩ := hrecord (.inl hrunnable)
    have hattempt : payload.attempt = n := by
      have hexpects := (matchesPendingMessage_iff (by simp [hn])).1 hmatches
      exact Option.some.inj (hexpects.1.symm.trans hn)
    have hspent : RunsAtMost payload.attempt payload s := hattempt ▸ hruns hrunnable n hn
    have hown : (s.2.standing i).task = some payload.taskId := by rw [hheld]; rfl
    refine ⟨attempts_may_save rfl (fun _ => ⟨n, hn, hbounds⟩) htask hown ?_, ?_, ?_⟩
    · intro _ m hm
      cases hn.symm.trans hm
      exact hattempt ▸ hspent
    · intro s' h
      obtain ⟨s₁, hrely, hcount, -, hstanding⟩ := saved_of_next (by simp [Site.payload]) h
      refine ⟨hbounded, (hstanding rfl).trans (hrely.standing.trans hheld), htask, ?_⟩
      rw [RunsAtMost, hcount]
      exact hrely.runsAtMost hbounded.1 hown hspent
    · intro e s' h
      have hruns : RunsAtMost (payload.attempt + 1) payload s := by
        rw [RunsAtMost] at hspent ⊢
        omega
      obtain ⟨hown', hruns'⟩ := own_of_saved h rfl hbounded htask hown hruns
      exact ⟨hbounded, hown', .inr hruns', code_of_next (fun _ _ => ⟨_, rfl⟩) h⟩
  outcome payload task outcome s hk := by
    obtain ⟨hbounded, hran, htask, hruns⟩ := hk
    have hown : (s.2.standing i).task = some payload.taskId := by rw [hran]; rfl
    have hover : ¬ (task.finished outcome).Runnable := by
      cases hstatus : outcome.status <;>
        simp [TaskRecord.Runnable, TaskRecord.finished, RunStatus.taskStatus, hstatus]
    have hsettled : (task.finished outcome).Bounded settings.maxTaskAttempts := by
      rintro (hrunnable | hcode)
      · exact absurd hrunnable hover
      · cases hcode
    refine ⟨attempts_may_save rfl hsettled htask hown fun hrunnable => absurd hrunnable hover,
      fun s' h => ?_, fun e s' h => ?_⟩
    · obtain ⟨-, hruns'⟩ := own_of_saved h rfl hbounded htask hown hruns
      obtain ⟨s₁, -, -, -, hstanding⟩ := saved_of_next (by simp [Site.payload]) h
      refine ⟨hbounded, (hstanding rfl).trans ?_, .inr hruns'⟩
      rw [← htask]
      rfl
    · obtain ⟨hown', hruns'⟩ := own_of_saved h rfl hbounded htask hown hruns
      exact ⟨hbounded, hown', .inr hruns', code_of_next (fun _ _ => ⟨_, rfl⟩) h⟩
  raise payload c e s s' hc h hk := by
    have hcode : (safeError e).1 ≠ "QUEUE_PUBLISH_FAILED" := by
      refine code_of_next (fun _ _ => ?_) h
      cases c <;> first | exact ⟨_, rfl⟩ | cases hc
    rcases hk with ⟨hbounded, hrecorded, hdue⟩ | ⟨task, hbounded, hheld, -, hruns⟩
    · exact ⟨hbounded, by rw [hrecorded]; rfl, hdue, hcode⟩
    · refine ⟨hbounded, by rw [hheld]; rfl, .inr ?_, hcode⟩
      rw [RunsAtMost] at hruns
      omega
  concluded payload s hk := .inr hk.2.1
  readFailure payload exc s hk := by
    obtain ⟨hbounded, hown, hdue, hcode⟩ := hk
    refine ⟨attempts_may_readFailure hown, fun task s' h => ?_, fun s' h => ?_, fun e s' h => ?_⟩
    · obtain ⟨s₁, hrely, hinv, hfound, hsame, hcount, hstanding⟩ := read_of_next h
      rw [TaskCall.standing, if_neg (by simp [hfound]), hrely.standing] at hstanding
      refine ⟨hinv.keyed _ task hfound, hbounded, by rw [hstanding, hown], ?_, hcode⟩
      rcases Undisturbed.due hrely hbounded hown hdue with hnone | hruns
      · rw [hfound] at hnone
        cases hnone
      · rwa [RunsAtMost, hcount]
    · obtain ⟨s₁, -, -, hfound, -, -, hstanding⟩ := read_of_next h
      rw [TaskCall.standing, if_pos ⟨rfl, hfound⟩] at hstanding
      exact .inr hstanding
    · exact (returns_of_next (fun _ _ => ⟨_, rfl⟩) rfl h).elim
  failedRun payload exc task graphStarted status s hk htask hstatus hretry := by
    obtain ⟨hbounded, hown, hruns, hcode⟩ := hk
    have hnonneg := hbounded.1
    have hexpecting : status = .retrying →
        (task.failedRun payload exc graphStarted status).Expecting settings.maxTaskAttempts :=
      fun hretrying => ⟨_, rfl, by omega, hretry hretrying⟩
    have hagain : (task.failedRun payload exc graphStarted status).Bounded
        settings.maxTaskAttempts := by
      intro hopen
      apply hexpecting
      simp only [List.mem_cons, List.not_mem_nil, or_false] at hstatus
      rcases hstatus with hretrying | hfailed
      · exact hretrying
      · simp [TaskRecord.Runnable, TaskRecord.failedRun, hfailed, hcode] at hopen
    refine ⟨attempts_may_save rfl hagain htask hown ?_, fun s' h => ?_, fun e s' h => ?_⟩
    · rintro - n ⟨⟩
      exact hruns
    · obtain ⟨-, hruns'⟩ := own_of_saved h rfl hbounded htask hown hruns
      obtain ⟨s₁, -, -, -, hstanding⟩ := saved_of_next (by simp [Site.payload]) h
      refine ⟨hbounded, (hstanding rfl).trans ?_, htask, rfl, hexpecting, hruns'⟩
      rw [← htask]
      rfl
    · exact (returns_of_next (fun _ _ => ⟨_, rfl⟩) rfl h).elim
  publishRetry payload task retryPayload s hk hretrying hpayload := by
    obtain ⟨n, hn, hbounds⟩ := hk.2.2.2.2.1 hretrying
    have hattempt : retryPayload.attempt = n := Option.some.inj (hpayload.2.1.symm.trans hn)
    refine ⟨attempts_may_bystander rfl ?_, fun r s' h => ?_⟩
    · rintro payload' ⟨⟩
      rwa [QueueMessage.Bounded, hattempt]
    · exact attemptKnowledge_later (undisturbed_of_next rfl h) hk
  retryFailed payload task errorMessage interaction s hk hretrying _ _ := by
    obtain ⟨hbounded, hrecorded, htask, hpending, hexpecting, hruns⟩ := hk
    have hown : (s.2.standing i).task = some payload.taskId := by rw [hrecorded]; rfl
    refine ⟨attempts_may_save rfl (fun _ => hexpecting hretrying) htask hown ?_, fun r s' h => ?_⟩
    · intro _ n hn
      cases hpending.symm.trans hn
      exact hruns
    · obtain ⟨s₁, hrely, -, hstanding, -⟩ := saved_of_next (by simp [Site.payload]) h
      rcases hstanding with hsame | hagain
      · exact .inr (hsame.trans (hrely.standing.trans hrecorded))
      · exact .inr (hagain.trans (by rw [← htask]; rfl))
  failed payload task s hk := .inr hk.2.1

theorem attempt_runs (payload : QueueMessage) :
    Outline.Runs (attemptProtocol settings i) (attemptKnowledge settings.maxTaskAttempts i)
      arbitraryRun payload := by
  intro task s hk
  have hnext : ∀ r s', (attemptProtocol settings i).next
      (.run task payload.resumeKind payload.resumeId) s r s' →
        s'.2.standing i = .ran task.taskId ∧ RunsAtMost (payload.attempt + 1) payload s' := by
    rintro r s' ⟨s₁, ch, hrely, -, -, hanswer⟩
    obtain ⟨-, -, htask, hruns⟩ := attemptKnowledge_later hrely hk
    refine ⟨standing_of_answer hanswer, ?_⟩
    rw [RunsAtMost, runs_of_answer hanswer, TaskCall.runs, htask, Function.update_self]
    rw [RunsAtMost] at hruns
    push_cast
    omega
  obtain ⟨hbounded, -, htask, -⟩ := id hk
  refine ⟨attempts_may_run hk, fun r s' h => ?_⟩
  obtain ⟨hran, hruns⟩ := hnext r s' h
  cases r with
  | error e =>
      refine ⟨hbounded, by rw [hran, htask]; rfl, .inr hruns, ?_⟩
      exact code_of_next (fun _ _ => ⟨_, rfl⟩) h
  | ok outcome => exact ⟨hbounded, hran.trans (by rw [htask]), htask, hruns⟩

/-- Every program keeps the attempts bounded. -/
theorem attempt_safe (hlimit : 0 < settings.maxTaskAttempts) (q : TaskRequest)
    (hk : ∀ payload, q = .handleMessage (.ok payload) →
      attemptKnowledge settings.maxTaskAttempts i (.received payload) s) :
    (attemptDiscipline settings.maxTaskAttempts).Safe (attemptMachine settings) attemptPolicy i
      ((attemptDiscipline settings.maxTaskAttempts).post q) (fun _ _ => True)
      (q.program settings arbitraryRun) s := by
  apply Discipline.Safe.of_follows
  by_cases hq : ∃ request, q = .ledger request
  · obtain ⟨request, rfl⟩ := hq
    apply Program.Follows.bind
    apply Program.Follows.of_only (G := fun c : TaskCall => ∃ lc, c = .ledger lc)
      (V := fun _ => True)
    · rintro c s ⟨lc, rfl⟩
      exact attempts_may_bystander rfl (by simp [TaskCall.sent])
    · exact fun _ _ _ => trivial
    · exact fun _ _ => trivial
    · exact Program.only_lift (P := fun c : TaskCall => ∃ lc, c = .ledger lc)
        (fun lc => ⟨lc, rfl⟩) _
  · exact (attemptOutline hlimit).follows_program attempt_runs
      (fun request heq => hq ⟨request, heq⟩) hk

/-- What leaves the records alone, or forgets some, and takes no lease from a handler
keeps the discipline. -/
theorem attempt_frame {w w' : World} (g : Progress)
    (hinv : AttemptsSound settings.maxTaskAttempts (w, g)) (hkeyed : w'.Keyed)
    (hrecords : ∀ taskId, w'.records taskId = w.records taskId ∨ w'.records taskId = none)
    (hcarried : ∀ payload, w'.Carried payload → w.Carried payload)
    (hleases : ∀ j taskId, (g.standing j).task = some taskId → w'.leases taskId = some j) :
    (attemptDiscipline settings.maxTaskAttempts).inv (w', g) ∧
      ∀ j, (attemptDiscipline settings.maxTaskAttempts).rely j (w, g) (w', g) := by
  refine ⟨⟨hkeyed, ?_, fun payload h => hinv.messages payload (hcarried payload h), hleases, ?_,
    hinv.runs⟩, ?_⟩
  · intro taskId task htask
    rcases hrecords taskId with hsame | hnone
    · exact hinv.records taskId task (hsame ▸ htask)
    · rw [hnone] at htask
      cases htask
  · intro taskId hleft task htask
    rcases hrecords taskId with hsame | hnone
    · exact hinv.spent taskId hleft task (hsame ▸ htask)
    · rw [hnone] at htask
      cases htask
  · intro j
    cases j with
    | none => trivial
    | some j => exact ⟨rfl, fun taskId _ => .inr ⟨rfl, hrecords taskId⟩⟩

theorem attemptSound (hlimit : 0 < settings.maxTaskAttempts) :
    (attemptDiscipline settings.maxTaskAttempts).Sound (attemptMachine settings)
      attemptPolicy where
  start i q s s' hinv hpermit haccept := by
    obtain ⟨w, g⟩ := s
    obtain ⟨w', haccepted, heq⟩ := Option.map_eq_some_iff.1 haccept
    cases heq
    have hframe := attempt_frame g hinv (hinv.keyed.of_records (records_of_accept haccepted))
      (fun taskId => .inl (congrFun (records_of_accept haccepted) taskId))
      (fun payload => carried_of_accept haccepted)
      (fun j taskId hmine => leases_of_accept haccepted ▸ hinv.leases j taskId hmine)
    refine ⟨⟨hframe.1, fun j _ => hframe.2 j⟩, attempt_safe hlimit q ?_⟩
    rintro payload rfl
    exact ⟨hinv.messages payload (carried_of_handled haccepted), hpermit⟩
  crash i s _ hpermit := hpermit.elim
  environment e s s' hinv hpermit henv := by
    obtain ⟨w, g⟩ := s
    obtain ⟨w', hchange, heq⟩ := Option.map_eq_some_iff.1 henv
    cases heq
    refine attempt_frame g hinv (hinv.keyed.environment hchange)
      (records_of_environment hchange) (fun payload => carried_of_environment hchange) ?_
    intro j taskId hmine
    have hheld := hinv.leases j taskId hmine
    have hkept : e ≠ .expireLease taskId := fun heq => hpermit taskId heq j hheld hmine
    exact (leases_of_unexpired hchange hkept).trans hheld

end Rules

/-- The process waits for a run of the orchestrator on the task. -/
def Executing (c : TaskConfig) (i : ℕ) (taskId : String) : Prop :=
  ∃ q task resumeKind resumeId k,
    c.pool i = .running q (.call (.run task resumeKind resumeId) k) ∧ task.taskId = taskId

/-- The step ends a run of the orchestrator on the task. -/
def executes (taskId : String) (v : TaskConfig × TaskAction) : Bool :=
  match Machine.answered v with
  | some (_, .run task _ _, _) => decide (task.taskId = taskId)
  | _ => false

/-- The step is a write of the record by an operation of the task service. -/
def servesTask (settings : Settings) (taskId : String) (v : TaskConfig × TaskAction) : Bool :=
  match Machine.answered v with
  | some (i, c, ch) => c.stores settings i ch v.1.state &&
      decide (c.served.map TaskRecord.taskId = some taskId)
  | none => false

section Runs

variable {settings : Settings} {h : List (TaskConfig × TaskAction)} {c : TaskConfig}
  {taskId : String}

theorem TaskCall.runs_of_serving {i : ℕ} {cl : TaskCall} {ch : TaskChoice} {w : World}
    {runs : String → ℕ} (hrun : ∀ task resumeKind resumeId, cl ≠ .run task resumeKind resumeId) :
    cl.runs settings i ch w runs = match cl.served with
      | some task => if cl.stores settings i ch w then Function.update runs task.taskId 0 else runs
      | none => runs := by
  cases cl with
  | run task resumeKind resumeId => exact (hrun _ _ _ rfl).elim
  | _ => rfl

theorem runs_of_unserved {i : ℕ} {cl : TaskCall} {ch : TaskChoice} {w : World}
    (hserves : (cl.stores settings i ch w &&
      decide (cl.served.map TaskRecord.taskId = some taskId)) = false) (runs : String → ℕ) :
    (match cl.served with
      | some task => if cl.stores settings i ch w then Function.update runs task.taskId 0 else runs
      | none => runs : String → ℕ) taskId = runs taskId := by
  cases hserved : cl.served with
  | none => rfl
  | some task =>
      by_cases hstores : cl.stores settings i ch w = true
      · have hne : taskId ≠ task.taskId := by
          intro heq
          simp [hstores, hserved, heq] at hserves
        simp only [if_pos hstores]
        exact Function.update_of_ne hne ..
      · simp only [if_neg hstores]

/-- A step that does not write the record for the task service counts as one run or none. -/
theorem runs_of_noteStep {v : TaskConfig × TaskAction}
    (hserves : servesTask settings taskId v = false) (g : Progress) :
    (Machine.noteStep (noteProgress settings) v g).runs taskId =
      g.runs taskId + if executes taskId v then 1 else 0 := by
  rw [Machine.noteStep_eq]
  cases hanswered : Machine.answered v with
  | none => simp [executes, hanswered]
  | some m =>
      obtain ⟨i, cl, ch⟩ := m
      simp only [servesTask, hanswered] at hserves
      simp only [Option.elim_some, noteProgress, executes, hanswered]
      cases cl with
      | run task resumeKind resumeId =>
          by_cases heq : task.taskId = taskId
          · simp [TaskCall.runs, heq]
          · simp [TaskCall.runs, heq, Function.update_of_ne (Ne.symm heq)]
      | _ =>
          rw [TaskCall.runs_of_serving (by simp)]
          exact (runs_of_unserved hserves g.runs).trans (by simp)

/-- While the task service does not write the record, the count is that of the runs. -/
theorem runs_of_tally (hserves : ∀ v ∈ h, servesTask settings taskId v = false) (g : Progress) :
    (Machine.tally (noteProgress settings) g h).runs taskId =
      g.runs taskId + h.countP (executes taskId) := by
  induction h generalizing g with
  | nil => rfl
  | cons v h ih =>
      have hstep := runs_of_noteStep (hserves v List.mem_cons_self) g
      have hrest := ih (fun u hu => hserves u (List.mem_cons_of_mem _ hu))
        (Machine.noteStep (noteProgress settings) v g)
      rw [hstep] at hrest
      rw [List.countP_cons, show Machine.tally (noteProgress settings) g (v :: h) =
        Machine.tally (noteProgress settings) (Machine.noteStep (noteProgress settings) v g) h
          from rfl, hrest]
      omega

/-- A process that is about to run a task holds its lease, and the run is not one too many. -/
theorem leased_of_executing {g : Progress} {i : ℕ}
    (hholds : (attemptDiscipline settings.maxTaskAttempts).Holds (attemptMachine settings)
      attemptPolicy (c.observed g)) (hexecuting : Executing c i taskId) :
    c.state.leases taskId = some i ∧ g.runs taskId + 1 ≤ settings.maxTaskAttempts := by
  obtain ⟨q, task, resumeKind, resumeId, k, hslot, rfl⟩ := hexecuting
  have hsafe := hholds.safe i
  rw [show (c.observed g).pool i = .running q (.call (.run task resumeKind resumeId) k) from hslot]
    at hsafe
  have hpermit : attemptPolicy.call i (.run task resumeKind resumeId) {} (c.state, g) := by
    constructor
    · intro hessential
      cases hessential
    · intro e he
      cases he
  obtain ⟨hkeeps, -⟩ := hsafe (c.state, g) (Discipline.refl _ _ _) hholds.inv {} _ _ hpermit rfl
  have hruns := hkeeps.1.runs task.taskId
  refine ⟨hkeeps.1.leases i task.taskId ?_, ?_⟩
  · simp [noteProgress, TaskCall.standing, Standing.task]
  · simpa [noteProgress, TaskCall.runs] using hruns

/-- A process that has not started is in no handler. -/
theorem outside_of_unused
    (run : (taskMachine settings arbitraryRun).Run .any (.initial World.fresh) h c) {i : ℕ}
    (hunused : c.pool i = .unused) :
    (Machine.tally (noteProgress settings) .initial h).standing i = .outside := by
  refine run.tally_of_unused (I := fun g : Progress => g.standing i = .outside) ?_ rfl hunused
  intro j cl ch w g hj houtside
  exact (Function.update_of_ne (Ne.symm hj) ..).trans houtside

/-- A steady run keeps the attempts bounded. -/
theorem attempts_hold (hlimit : 0 < settings.maxTaskAttempts)
    (run : (taskMachine settings arbitraryRun).Run .any (.initial World.fresh) h c)
    (hsteady : ∀ h₁ v h₂, h = h₁ ++ v :: h₂ → unmarkedPolicy.permits
      (v.1.observed (Machine.tally (noteProgress settings) .initial h₁)) v.2) :
    (attemptDiscipline settings.maxTaskAttempts).Holds (attemptMachine settings) attemptPolicy
      (c.observed (Machine.tally (noteProgress settings) .initial h)) := by
  have hpermits : ∀ h₁ v h₂, h = h₁ ++ v :: h₂ → attemptPolicy.permits
      (v.1.observed (Machine.tally (noteProgress settings) .initial h₁)) v.2 := by
    rintro h₁ ⟨c₁, a⟩ h₂ heq
    have hpermit := hsteady h₁ (c₁, a) h₂ heq
    cases a with
    | start i q =>
        obtain ⟨run₁, -, c', hstep, -⟩ := run.before heq
        obtain ⟨-, hunused, -, -⟩ := Machine.step_start _ hstep
        exact outside_of_unused run₁ hunused
    | _ => exact hpermit
  obtain ⟨h', run', -⟩ := run.observe _ hpermits
  have hfresh : AttemptsSound settings.maxTaskAttempts (World.fresh, .initial) := by
    constructor
    · exact World.keyed_fresh
    · intro _ _ htask
      cases htask
    · rintro payload (hflight | ⟨j, hj⟩)
      · cases hflight
      · cases hj
    · intro _ _ hmine
      cases hmine
    · intro _ _ _ htask
      cases htask
    · exact fun _ => hlimit.le
  exact ((attemptSound hlimit).run hfresh run').1

end Runs

/-- Over every run of API calls and handlers with any message delivered twice or late: if
no process crashes, no lease expires while its owner is in the handler, the essential
calls succeed and no call raises the error of a failed publish, two runs of a task
never overlap, every message has an attempt below the limit, and the task is run at
most that often between two writes of its record by the task service. -/
theorem executions_bounded {settings : Settings} (hlimit : 0 < settings.maxTaskAttempts)
    {h : List (TaskConfig × TaskAction)} {c : TaskConfig}
    (run : (taskMachine settings arbitraryRun).Run .any (.initial World.fresh) h c)
    (hsteady : ∀ h₁ v h₂, h = h₁ ++ v :: h₂ → unmarkedPolicy.permits
      (v.1.observed (Machine.tally (noteProgress settings) .initial h₁)) v.2) :
    (∀ taskId i j, Executing c i taskId → Executing c j taskId → i = j) ∧
    (∀ payload, c.state.Carried payload →
      0 ≤ payload.attempt ∧ payload.attempt < settings.maxTaskAttempts) ∧
    ∀ taskId h₁ h₂, h = h₁ ++ h₂ → (∀ v ∈ h₂, servesTask settings taskId v = false) →
      h₂.countP (executes taskId) ≤ settings.maxTaskAttempts ∧
        ∀ i, Executing c i taskId →
          h₂.countP (executes taskId) + 1 ≤ settings.maxTaskAttempts := by
  have hholds := attempts_hold hlimit run hsteady
  refine ⟨fun taskId i j hi hj => ?_, hholds.inv.messages, ?_⟩
  · have hboth := (leased_of_executing hholds hi).1.symm.trans (leased_of_executing hholds hj).1
    exact Option.some.inj hboth
  · rintro taskId h₁ h₂ rfl hserves
    have hcount := runs_of_tally hserves (Machine.tally (noteProgress settings) .initial h₁)
    rw [← Machine.tally_append] at hcount
    constructor
    · have hruns := hholds.inv.runs taskId
      simp only [Config.observed, hcount] at hruns
      push_cast at hruns
      omega
    · intro i hi
      have hruns := (leased_of_executing hholds hi).2
      rw [hcount] at hruns
      push_cast at hruns
      omega

section Demo

variable (s : World × Progress)

instance (i : ℕ) (c : TaskCall) (ch : TaskChoice) : Decidable (reliablePolicy.call i c ch s) :=
  inferInstanceAs (Decidable (_ = true → _ = _))

instance (i : ℕ) (q : TaskRequest) : Decidable (reliablePolicy.start i q s) := .isTrue trivial

instance (i : ℕ) : Decidable (reliablePolicy.crash i s) := .isFalse id

instance (e : TaskEnvironment) : Decidable (reliablePolicy.environment e s) :=
  match e with
  | .expireLease taskId =>
      decidable_of_iff (∀ i ∈ s.1.leases taskId, (s.2.standing i).task ≠ some taskId)
        ⟨fun h taskId' heq => by cases heq; exact h, fun h => h taskId rfl⟩
  | .expireRecord _ | .expireKey _ | .duplicate _ | .redeliver _ => .isTrue nofun

instance (i : ℕ) (c : TaskCall) (ch : TaskChoice) : Decidable (unmarkedPolicy.call i c ch s) :=
  inferInstanceAs (Decidable (reliablePolicy.call i c ch s ∧ ∀ e ∈ ch.raised, _ ≠ _))

instance (i : ℕ) (q : TaskRequest) : Decidable (unmarkedPolicy.start i q s) := .isTrue trivial

instance (i : ℕ) : Decidable (unmarkedPolicy.crash i s) := .isFalse id

instance (e : TaskEnvironment) : Decidable (unmarkedPolicy.environment e s) :=
  inferInstanceAs (Decidable (reliablePolicy.environment e s))

end Demo

/-- A deployment that does not retry. -/
def demoOnce : Settings := { demoSettings with maxTaskAttempts := 1 }

/-- A run of the orchestrator raises. -/
def demoRaiseActions (exc : Exn) : List TaskAction :=
  [.start 0 (.createTask demoRequest), .call 0 {}, .call 0 {}, .call 0 {},
   .start 1 (.handleMessage (.ok demoMessage)), .call 1 {}, .call 1 {}, .call 1 {}, .call 1 {},
   .call 1 { ending := .lost exc }, .call 1 {}, .call 1 {}, .call 1 {}, .call 1 {}, .call 1 {}]

/-- The task is resumed. -/
def demoResumedActions : List TaskAction :=
  [.start 2 (.resumeTask "task-1" demoMerchantId), .call 2 {}, .call 2 {}, .call 2 {}, .call 2 {}]

/-- If the orchestrator raises an error that has the code of a failed publish, the task is
resumed with the attempt that is one too many. -/
theorem attempt_over_limit : ∃ h c,
    (taskMachine demoOnce arbitraryRun).Run .any (.initial World.fresh) h c ∧
      (∀ h₁ v h₂, h = h₁ ++ v :: h₂ → reliablePolicy.permits
        (v.1.observed (Machine.tally (noteProgress demoOnce) .initial h₁)) v.2) ∧
      ∃ payload ∈ c.state.inFlight, ¬ payload.attempt < demoOnce.maxTaskAttempts := by
  have hend : ((attemptMachine demoOnce).exec reliablePolicy
      (demoRaiseActions (.dependencyError "QUEUE_PUBLISH_FAILED" "") ++ demoResumedActions)
      ((Config.initial World.fresh).observed .initial)).map
        (fun c => c.state.1.inFlight.map QueueMessage.attempt) = some [1] := by decide
  obtain ⟨c', hc', hflight⟩ := Option.map_eq_some_iff.1 hend
  obtain ⟨h', run'⟩ := Machine.Run.exec .nil hc'
  obtain ⟨h, c, run, rfl, hreliable⟩ := run'.of_observe
  have hattempt : (1 : ℤ) ∈ c.state.inFlight.map QueueMessage.attempt := by
    rw [show c.state.inFlight.map QueueMessage.attempt = [1] from hflight]
    exact List.mem_singleton_self _
  obtain ⟨payload, hpayload, hone⟩ := List.mem_map.1 hattempt
  refine ⟨h, c, run, hreliable, payload, hpayload, ?_⟩
  rw [hone]
  decide

theorem executions_bounded_demo : ∃ h c,
    (taskMachine demoSettings arbitraryRun).Run .any (.initial World.fresh) h c ∧
      c.state.inFlight.map QueueMessage.attempt = [1] ∧
      (∀ taskId i j, Executing c i taskId → Executing c j taskId → i = j) ∧
      (∀ payload, c.state.Carried payload → 0 ≤ payload.attempt ∧ payload.attempt < 4) ∧
      ∀ taskId h₁ h₂, h = h₁ ++ h₂ → (∀ v ∈ h₂, servesTask demoSettings taskId v = false) →
        (h₂.countP (executes taskId) : ℤ) ≤ 4 ∧
          ∀ i, Executing c i taskId → (h₂.countP (executes taskId) : ℤ) + 1 ≤ 4 := by
  have hend : ((attemptMachine demoSettings).exec unmarkedPolicy
      (demoRaiseActions .timeoutError)
      ((Config.initial World.fresh).observed .initial)).map
        (fun c => c.state.1.inFlight.map QueueMessage.attempt) = some [1] := by decide
  obtain ⟨c', hc', hflight⟩ := Option.map_eq_some_iff.1 hend
  obtain ⟨h', run'⟩ := Machine.Run.exec .nil hc'
  obtain ⟨h, c, run, rfl, hsteady⟩ := run'.of_observe
  exact ⟨h, c, run, hflight, executions_bounded (by decide) run hsteady⟩

end CommerceAgent
