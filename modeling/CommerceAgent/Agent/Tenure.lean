import CommerceAgent.Agent.Deployment

/-!
# One run of a task at a time

While no lease expires under a handler that has calls to make, the handler that was given
the lease of a task has it until it gives it back. What it has read or committed last is
then the checkpoint of the task: `Run.along` carries both along a run.
-/

namespace CommerceAgent

open Effects

/-- The lease of the task does not expire while its owner is in the handler. -/
def LeasesKept (taskId : String) (h : List (TaskConfig × TaskAction)) : Prop :=
  ∀ v ∈ h, ∀ i, v.2 = .environment (.expireLease taskId) →
    v.1.state.leases taskId = some i → ¬ v.1.InProgress i

theorem LeasesKept.before {taskId : String} {h₁ h₂ : List (TaskConfig × TaskAction)}
    (hkept : LeasesKept taskId (h₁ ++ h₂)) : LeasesKept taskId h₁ :=
  fun v hv => hkept v (List.mem_append_left _ hv)

/-- A lease is taken by a process that has none, and a checkpoint is read and stored under the
lease of its task, after one was read. -/
def TaskCall.Tenant (past : List TaskExchange) : TaskCall → Prop
  | .acquireTaskLease .. => heldLease past = none ∧ openWork past = none
  | .getCheckpoint taskId => heldLease past = some taskId
  | .putCheckpoint taskId _ => heldLease past = some taskId ∧ openWork past ≠ none
  | _ => True

/-- A record is found under its own identifier. -/
def Identified : (c : TaskCall) → Except Exn c.Reply → Prop
  | .getTask _ taskId, .ok (some task) => task.taskId = taskId
  | _, _ => True

/-- The contract of the leases. -/
def tenure : Contract Exn TaskCall TaskCall.Reply World TaskRequest where
  inv := World.Keyed
  assume := Identified
  guarantee _ past c := c.Tenant past

/-- What a process knows of the lease that it has. -/
def tenureKnowledge : Knowledge → List TaskExchange → Prop
  | .received _, past => heldLease past = none ∧ openWork past = none
  | .holding payload, past | .found payload _, past | .ran payload _ _, past =>
      heldLease past = some payload.taskId
  | .matched payload task, past => heldLease past = some payload.taskId ∧
      task.taskId = payload.taskId
  | _, _ => True

abbrev tenureProtocol : Protocol Exn TaskCall TaskCall.Reply (List TaskExchange) :=
  Program.transcribed Identified fun past c => c.Tenant past

section Programs

variable {c : TaskCall} {past : List TaskExchange} {α : Type}

theorem tenant_of_steady (hc : c.steady = true) : c.Tenant past := by
  cases c <;> trivial

theorem tenureKnowledge_of_steady (hc : c.steady = true) {r : Except Exn c.Reply} {k : Knowledge}
    (hk : tenureKnowledge k past) : tenureKnowledge k (past ++ [⟨c, r⟩]) := by
  cases k <;>
    simp only [tenureKnowledge, heldLease_of_steady hc, openWork_of_steady hc] at hk ⊢ <;> exact hk

theorem tenureOutline (settings : Settings) :
    Outline settings tenureProtocol tenureKnowledge where
  neutral c past hc := by
    refine ⟨tenant_of_steady (steady_of_neutral hc), ?_⟩
    rintro r past' ⟨-, rfl⟩ k hk
    exact tenureKnowledge_of_steady (steady_of_neutral hc) hk
  acquire payload ttl past hk := by
    refine ⟨hk, ?_⟩
    rintro acquired past' ⟨-, rfl⟩
    cases acquired with
    | true =>
        change heldLease _ = _
        rw [heldLease_snoc]
        rfl
    | false =>
        change heldLease _ = _ ∧ openWork _ = _
        rw [heldLease_snoc, openWork_snoc]
        exact hk
  delay _ _ _ := trivial
  release _ _ _ := trivial
  read _ _ _ _ := ⟨trivial, fun _ _ h => ⟨h.1, trivial⟩⟩
  readMessage payload past hk := by
    refine ⟨trivial, ?_, fun _ _ => trivial, fun _ _ _ => trivial⟩
    rintro task past' ⟨hidentified, rfl⟩
    exact ⟨hidentified, (heldLease_of_steady rfl _).trans hk⟩
  dismiss _ _ _ := ⟨fun _ _ => trivial, fun _ _ _ => trivial⟩
  ignore _ _ _ _ := ⟨fun _ _ => trivial, fun _ _ _ => trivial⟩
  raise _ _ _ _ _ _ _ _ := trivial
  concluded _ _ _ := trivial
  readFailure _ _ _ _ :=
    ⟨trivial, fun _ _ h => ⟨h.1, trivial⟩, fun _ _ => trivial, fun _ _ _ => trivial⟩
  failed _ _ _ _ := trivial
  setNew _ _ := ⟨trivial, fun _ _ => trivial⟩
  createScript _ _ _ := ⟨trivial, fun _ _ _ => trivial⟩
  input _ _ _ _ _ := ⟨trivial, fun _ _ => trivial⟩
  record _ _ _ _ _ := ⟨trivial, fun _ _ _ => trivial⟩
  approval _ _ _ _ _ _ := ⟨trivial, fun _ _ => trivial⟩
  resumed _ _ _ _ := ⟨trivial, fun _ _ => trivial⟩
  publish _ _ _ _ _ _ := ⟨trivial, fun _ _ _ => trivial⟩
  publishFailed _ _ _ _ _ _ _ _ _ _ := trivial
  started payload task past hk htask _ _ := by
    refine ⟨trivial, ?_, fun _ _ _ => trivial⟩
    rintro past' ⟨-, rfl⟩
    exact ⟨(heldLease_of_steady rfl _).trans hk, htask⟩
  outcome _ _ _ _ _ := ⟨trivial, fun _ _ => trivial, fun _ _ _ => trivial⟩
  failedRun _ _ _ _ _ _ _ _ _ _ := ⟨trivial, fun _ _ => trivial, fun _ _ _ => trivial⟩
  publishRetry _ _ _ _ _ _ _ := ⟨trivial, fun _ _ _ => trivial⟩
  retryFailed _ _ _ _ _ _ _ _ _ := ⟨trivial, fun _ _ _ => trivial⟩

variable {agent : AgentSettings} {threadId : String}

/-- A process that works on a checkpoint of the thread under its lease. -/
def Occupies (threadId : String) (past : List TaskExchange) : Prop :=
  heldLease past = some threadId ∧ openWork past ≠ none

theorem Occupies.snoc (h : Occupies threadId past) (hc : c.steady = true) (r : Except Exn c.Reply) :
    Occupies threadId (past ++ [⟨c, r⟩]) := by
  rwa [Occupies, heldLease_of_steady hc, openWork_of_steady hc]

theorem occupies_of_commit (h : heldLease past = some threadId) (checkpoint : Checkpoint) :
    Occupies threadId (past ++ [⟨.putCheckpoint threadId checkpoint, .ok ()⟩]) := by
  rw [Occupies, heldLease_snoc, openWork_snoc]
  exact ⟨h, nofun⟩

/-- A node leaves the lease and the checkpoint alone. -/
theorem tenure_node (node : GraphNode) (state : AgentState) (resume : Option ResumeValue)
    (h : Occupies threadId past) :
    (agent.node node state resume).Follows tenureProtocol (fun _ past => Occupies threadId past)
      (fun _ _ => True) past := by
  refine (Program.Follows.of_invariant (I := Occupies threadId) ?_
    (AgentSettings.nodeOnly node state resume) h).mono (fun _ _ h => h.2) fun _ _ _ => trivial
  intro c past hc h
  refine ⟨tenant_of_steady (steady_of_ofNode hc), ?_⟩
  rintro r past' ⟨-, rfl⟩
  exact h.snoc (steady_of_ofNode hc) r

theorem tenure_runFrom (limit : ℕ) :
    ∀ (checkpoint : Checkpoint) (resume : Option ResumeValue) (past : List TaskExchange),
      Occupies threadId past →
        (agent.runFrom threadId limit checkpoint resume).Follows tenureProtocol
          (fun _ past => Occupies threadId past) (fun _ _ => True) past := by
  induction limit with
  | zero => exact fun _ _ _ _ => trivial
  | succ limit ih =>
      intro checkpoint resume past h
      unfold AgentSettings.runFrom
      split
      · exact h
      next node hnext =>
      have hentered : (TaskCall.enterNode threadId node).Tenant past := trivial
      apply Program.follows_call hentered
      · rintro _ past₁ ⟨-, rfl⟩
        apply Program.Follows.bind
        refine (tenure_node node _ resume (h.snoc rfl _)).mono ?_ fun _ _ _ => trivial
        intro result past₂ h₂
        apply Program.follows_call h₂
        · rintro _ past₃ ⟨-, rfl⟩
          have h₃ := occupies_of_commit h₂.1 (checkpoint.commit node result)
          cases result with
          | interrupt interaction => exact h₃
          | update state => exact ih _ none _ h₃
        · exact fun _ _ _ => trivial
      · exact fun _ _ _ => trivial

/-- The orchestrator reads a checkpoint under the lease of its task, and goes on from it. -/
theorem tenure_orchestrator (task : TaskRecord) (resumeKind : Option ResumeKind)
    (resumeId : Option String) (hleased : heldLease past = some task.taskId) :
    (agent.orchestrator task resumeKind resumeId).Follows tenureProtocol
      (fun _ past => Occupies task.taskId past) (fun _ _ => True) past := by
  have hinvoke : ∀ {limit checkpoint resume past}, Occupies task.taskId past →
      (agent.invoke limit task.taskId checkpoint resume).Follows tenureProtocol
        (fun _ past => Occupies task.taskId past) (fun _ _ => True) past :=
    fun h => .bind (tenure_runFrom _ _ _ _ h)
  suffices hrun : (agent.run agent.recursionLimit task resumeKind resumeId).Follows tenureProtocol
      (fun _ past => Occupies task.taskId past) (fun _ _ => True) past from
    .handle (hrun.mono (fun _ _ h => h) fun _ _ _ => trivial)
  unfold AgentSettings.run
  split
  · trivial
  apply Program.follows_call hleased
  · rintro found past₁ ⟨-, rfl⟩
    have hoccupies : Occupies task.taskId (past ++ [⟨.getCheckpoint task.taskId, .ok found⟩]) := by
      rw [Occupies, heldLease_snoc, openWork_snoc]
      exact ⟨hleased, nofun⟩
    cases found with
    | none =>
        change Program.Follows _ _ _ (agent.startThread _ _ _) _
        unfold AgentSettings.startThread
        split
        · trivial
        apply Program.follows_call hoccupies
        · rintro _ past₂ ⟨-, rfl⟩
          exact hinvoke (occupies_of_commit hoccupies.1 _)
        · exact fun _ _ _ => trivial
    | some checkpoint =>
        change Program.Follows _ _ _ (agent.resumeThread _ _ _ _ _) _
        unfold AgentSettings.resumeThread
        split
        · split
          · exact hoccupies
          split
          · trivial
          · exact hinvoke hoccupies
        · split
          · trivial
          · exact hinvoke hoccupies
  · exact fun _ _ _ => trivial

theorem tenure_program (settings : Settings) (q : TaskRequest) :
    (q.program settings agent.orchestrator).Follows tenureProtocol (fun _ _ => True)
      (fun _ _ => True) [] := by
  by_cases hq : ∃ request, q = .ledger request
  · obtain ⟨request, rfl⟩ := hq
    have honly : (TaskRequest.program settings agent.orchestrator (.ledger request)).Only
        (fun c => c.steady = true) fun _ => True :=
      (Program.only_lift (P := fun c : TaskCall => c.steady = true) (fun _ => rfl) _).bind
        fun _ _ => trivial
    exact (Program.Follows.of_only (fun c past hc => tenant_of_steady hc) (fun _ _ _ => trivial)
      (fun _ _ => trivial) [] honly).mono (fun _ _ _ => trivial) fun _ _ _ => trivial
  · refine (tenureOutline settings).follows_program (fun payload task past hk => ?_)
      (fun request heq => hq ⟨request, heq⟩) fun payload _ => ⟨rfl, rfl⟩
    obtain ⟨hleased, htask⟩ := hk
    refine (tenure_orchestrator task _ _ (htask ▸ hleased)).mono ?_ fun _ _ _ => trivial
    exact fun outcome past' h => h.1.trans (congrArg some htask)

end Programs

section Steps

variable {settings : Settings} {orchestrator : Orchestrator} {i : ℕ} {a : TaskAction}
  {c c' : TaskConfig}

/-- A lease is kept by the steps of the others. -/
theorem leases_of_other {taskId : String}
    (step : (taskMachine settings orchestrator).step a c = some c') (ha : a.thread ≠ some i)
    (hkept : a ≠ .environment (.expireLease taskId)) (hleased : c.state.leases taskId = some i) :
    c'.state.leases taskId = some i := by
  cases a with
  | call j ch =>
      obtain ⟨q, cl, k, r, w, -, hanswer, rfl⟩ := Machine.step_call _ step
      exact (leaseStep_of_answer hanswer).kept taskId i (fun heq => ha (by rw [heq]; rfl)) hleased
  | start j q =>
      obtain ⟨w, -, haccept, rfl⟩ := Machine.step_start _ step
      exact leases_of_accept haccept ▸ hleased
  | crash j =>
      obtain ⟨q, p, -, rfl⟩ := Machine.step_crash _ step
      change (World.requeue c.state j).leases taskId = some i
      rwa [World.requeue_leases]
  | environment e =>
      obtain ⟨w, he, rfl⟩ := Machine.step_environment _ step
      exact (leases_of_unexpired he fun heq => hkept (by rw [heq])).trans hleased

/-- A call that is no commit leaves the checkpoints alone. -/
theorem checkpoints_of_uncommitted {cl : TaskCall} {ch : TaskChoice} {r : Except Exn cl.Reply}
    {w w' : World} (hcommit : ∀ threadId checkpoint, cl ≠ .putCheckpoint threadId checkpoint)
    (h : (taskMachine settings orchestrator).answer i cl ch w = some (r, w')) :
    w'.checkpoints = w.checkpoints := by
  rcases checkpoints_of_answer h with heq | ⟨threadId, checkpoint, rfl, -⟩
  · exact heq
  · exact absurd rfl (hcommit threadId checkpoint)

end Steps

section Run

variable {agent : AgentSettings} {settings : Settings} {h : List (TaskConfig × TaskAction)}
  {c : TaskConfig} {π : TaskPolicy} {taskId : String}

theorem tenureSound : tenure.Sound (taskMachine settings agent.orchestrator) π where
  start i q w w' hinv _ haccept :=
    ⟨hinv.of_records (records_of_accept haccept),
      .of_transcribed ((tenure_program settings q).mono (fun _ _ _ => trivial)
        fun _ _ _ => trivial)⟩
  call i q past cl ch w r w' hinv _ _ h := by
    refine ⟨?_, World.Keyed.answer hinv h⟩
    cases cl with
    | getTask site taskId =>
        cases r with
        | error e => trivial
        | ok found =>
            cases found with
            | none => trivial
            | some task => exact hinv taskId task (read_of_answer h).1.symm
    | _ => trivial
  crash i w hinv _ := World.Keyed.of_records hinv (w.requeue_records i)
  environment e w w' hinv _ h := World.Keyed.environment hinv h

/-- What a process calls next keeps to the leases. -/
theorem tenant_of_run
    (run : (taskMachine settings agent.orchestrator).Run π (.initial World.fresh) h c)
    {i : ℕ} {q : TaskRequest} {cl : TaskCall} {k : Except Exn cl.Reply → TaskProgram TaskResult}
    (hslot : c.pool i = .running q (.call cl k)) :
    cl.Tenant (agent.transcripts settings h i) :=
  (tenureSound.run World.keyed_fresh run).guarantee hslot

/-- What a process calls next, its contract allows. -/
theorem allows_of_run
    (run : (taskMachine settings agent.orchestrator).Run deployed (.initial World.fresh) h c)
    {i : ℕ} {q : TaskRequest} {cl : TaskCall} {k : Except Exn cl.Reply → TaskProgram TaskResult}
    (hslot : c.pool i = .running q (.call cl k)) :
    q.Allows c.state.ledger.taskOf settings.catalog (agent.transcripts settings h i) cl :=
  (vetted_run run).guarantee hslot

/-- A process in progress that was given a lease has it. -/
theorem leased_of_run
    (run : (taskMachine settings agent.orchestrator).Run π (.initial World.fresh) h c)
    (hkept : LeasesKept taskId h) {i : ℕ} (hi : c.InProgress i)
    (hheld : heldLease (agent.transcripts settings h i) = some taskId) :
    c.state.leases taskId = some i := by
  revert hheld
  refine run.along (I := fun i past w => heldLease past = some taskId →
    w.leases taskId = some i) hkept (fun i s hheld => by cases hheld) ?_ ?_ i hi
  · intro h c i ch q cl k r w run _ hslot hanswer ih hheld
    have htenant := tenant_of_run run hslot
    rw [heldLease_snoc] at hheld
    cases cl with
    | acquireTaskLease id ttl =>
        have hnone : heldLease (agent.transcripts settings h i) = none := htenant.1
        cases r with
        | error e => exact absurd (hnone.symm.trans hheld) nofun
        | ok acquired =>
            cases acquired with
            | false => exact absurd (hnone.symm.trans hheld) nofun
            | true =>
                cases hheld
                have hrun := execute_of_answer hanswer
                simp only [TaskCall.execute] at hrun
                split at hrun
                · cases hrun
                · cases hrun
                  simp
    | releaseTaskLease id => cases hheld
    | _ =>
        rw [leases_of_answer (by simp) (by simp) hanswer]
        exact ih hheld
  · intro h c a c' i run _ hexpiry step ha hi ih hheld
    apply leases_of_other step ha _ (ih hheld)
    rintro rfl
    exact hexpiry i rfl (ih hheld) hi

/-- A checkpoint of a task is stored by the process that has its lease. -/
theorem leased_of_committedTo
    (run : (taskMachine settings agent.orchestrator).Run π (.initial World.fresh) h c)
    (hkept : LeasesKept taskId h) {a : TaskAction} {i : ℕ} {checkpoint : Checkpoint}
    (hcommitted : committedTo taskId (c, a) = some (i, checkpoint)) :
    c.state.leases taskId = some i := by
  obtain ⟨ch, q, k, rfl, hslot⟩ := exists_of_committedTo hcommitted
  have htenant := tenant_of_run run hslot
  exact leased_of_run run hkept ⟨q, _, k, hslot⟩ htenant.1

/-- The checkpoint in work is the one that is stored. -/
theorem stored_of_run
    (run : (taskMachine settings agent.orchestrator).Run π (.initial World.fresh) h c)
    (hkept : LeasesKept taskId h) {i : ℕ} (hi : c.InProgress i)
    {work : Option Checkpoint} (hheld : heldLease (agent.transcripts settings h i) = some taskId)
    (hwork : openWork (agent.transcripts settings h i) = some work) :
    c.state.checkpoints taskId = work := by
  revert hwork hheld
  refine run.along (I := fun i past w => heldLease past = some taskId →
    openWork past = some work → w.checkpoints taskId = work) hkept
      (fun i s hheld => by cases hheld) ?_ ?_ i hi
  · intro h c i ch q cl k r w run _ hslot hanswer ih hheld hwork
    have htenant := tenant_of_run run hslot
    rw [heldLease_snoc] at hheld
    rw [openWork_snoc] at hwork
    cases cl with
    | acquireTaskLease id ttl =>
        exact absurd (htenant.2.symm.trans hwork) nofun
    | releaseTaskLease id => cases hheld
    | getCheckpoint id =>
        have hid : heldLease (agent.transcripts settings h i) = some id := htenant
        obtain rfl : taskId = id := Option.some.inj (hheld.symm.trans hid)
        cases r with
        | error e =>
            rw [checkpoints_of_uncommitted (by simp) hanswer]
            exact ih hheld hwork
        | ok found =>
            cases hwork
            have hrun := execute_of_answer hanswer
            cases hrun
            rfl
    | putCheckpoint id checkpoint =>
        have hid : heldLease (agent.transcripts settings h i) = some id := htenant.1
        obtain rfl : taskId = id := Option.some.inj (hheld.symm.trans hid)
        cases r with
        | error e => cases hwork
        | ok _ =>
            cases hwork
            have hrun := execute_of_answer hanswer
            cases hrun
            simp
    | _ =>
        rw [checkpoints_of_uncommitted (by simp) hanswer]
        exact ih hheld hwork
  · intro h c a c' i run hkept _ step ha hi ih hheld hwork
    rw [checkpoints_of_step taskId step]
    cases hcommitted : committedTo taskId (c, a) with
    | none => exact ih hheld hwork
    | some v =>
        have howner := leased_of_committedTo run hkept hcommitted
        rw [leased_of_run run hkept hi hheld, Option.some.injEq] at howner
        obtain ⟨ch, q, k, rfl, -⟩ := exists_of_committedTo hcommitted
        exact absurd (congrArg some howner.symm) ha

end Run

end CommerceAgent
