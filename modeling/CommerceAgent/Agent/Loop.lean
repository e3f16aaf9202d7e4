import CommerceAgent.Agent.Consent

/-!
# The agent loop over the runs of a thread

While its lease is kept, the runs of a thread follow one another: each of them commits on
the stored checkpoint, whose conversation counts what has been committed before. The budgets
then bound what all of them commit together. Where the lease expires under a handler, two of
them commit on one checkpoint, each within its budgets.
-/

namespace CommerceAgent

open Effects

section Run

variable {agent : AgentSettings} {settings : Settings} {h : List (TaskConfig × TaskAction)}
  {c : TaskConfig} {threadId : String}

/-- The runs of a thread whose lease is kept follow one another. -/
theorem successive_of_leasesKept {π : TaskPolicy}
    (run : (taskMachine settings agent.orchestrator).Run π (.initial World.fresh) h c)
    (hkept : LeasesKept threadId h) : agent.Successive settings threadId h := by
  intro h₁ v h₂ heq i checkpoint hcommit
  obtain ⟨run₁, -, -⟩ := run.before heq
  obtain ⟨c₁, a⟩ := v
  obtain ⟨ch, q, k, rfl, hslot⟩ := exists_of_committedTo hcommit
  obtain ⟨hheld, hopen⟩ := tenant_of_run run₁ hslot
  obtain ⟨work, hwork⟩ := Option.ne_none_iff_exists'.1 hopen
  subst heq
  rw [currentCheckpoint_of_openWork hwork]
  exact stored_of_run run₁ hkept.before ⟨q, _, k, hslot⟩ hheld hwork

/-- A stored conversation is within the budgets. -/
theorem stored_within_budgets
    (run : (taskMachine settings agent.orchestrator).Run .any (.initial World.fresh) h c)
    {checkpoint : Checkpoint} (hstored : c.state.checkpoints threadId = some checkpoint) :
    checkpoint.state.turns ≤ agent.maxIterations ∧
      checkpoint.state.reflections ≤ agent.maxReflections := by
  have hbudgeted := ((AgentSettings.graph_run run).stored threadId checkpoint hstored).budgeted
  exact ⟨hbudgeted.turns_le, hbudgeted.reflections_le⟩

/-- What the runs of a thread commit together is within the budgets while its lease is
kept. -/
theorem commits_within_budgets
    (run : (taskMachine settings agent.orchestrator).Run .any (.initial World.fresh) h c)
    (hkept : LeasesKept threadId h) :
    h.countP (commitsTurn threadId) ≤ agent.maxIterations ∧
      h.countP (commitsReflection threadId) ≤ agent.maxReflections := by
  obtain ⟨hturns, hreflections⟩ := stored_counts run (successive_of_leasesKept run hkept)
  rw [hturns, hreflections]
  cases hstored : c.state.checkpoints threadId with
  | none => exact ⟨Nat.zero_le _, Nat.zero_le _⟩
  | some checkpoint => exact stored_within_budgets run hstored

/-- In every run of the task system, whatever the model answers and whichever calls
raise: each stored conversation is within the budgets; where the lease of a thread is kept,
the commits of all its runs together are; and no run starts more than
`2 * maxIterations + 4` nodes, so that its recursion limit does not matter. -/
theorem loop_within_budgets
    (run : (taskMachine settings agent.orchestrator).Run .any (.initial World.fresh) h c) :
    (∀ threadId checkpoint, c.state.checkpoints threadId = some checkpoint →
        checkpoint.state.turns ≤ agent.maxIterations ∧
          checkpoint.state.reflections ≤ agent.maxReflections) ∧
      (∀ threadId, LeasesKept threadId h →
        h.countP (commitsTurn threadId) ≤ agent.maxIterations ∧
          h.countP (commitsReflection threadId) ≤ agent.maxReflections) ∧
      (∀ i, Machine.calls TaskCall.entersNode (agent.transcripts settings h i) ≤
        2 * agent.maxIterations + 4) ∧
      ∀ limit, 2 * agent.maxIterations + 4 < limit →
        agent.run limit = agent.run agent.recursionLimit := by
  refine ⟨fun threadId checkpoint => stored_within_budgets run,
    fun threadId => commits_within_budgets run, ?_, ?_⟩
  · intro i
    apply (Machine.Run.count_le (fun _ q => ?_) run i).calls_le
    apply atMost_program settings ?_ ?_ (fun _ => rfl) AgentSettings.orchestrator_atMost q
    · intro site c hc
      cases c <;> first | rfl | cases hc
    · intro payload c hc
      cases c <;> first | rfl | cases hc
  · intro limit hlimit
    apply AgentSettings.run_limit hlimit
    rw [AgentSettings.recursionLimit]
    omega

end Run

/-- An agent whose model may take one turn. -/
def demoBriefAgent : AgentSettings := { demoAgent with maxIterations := 1 }

/-- The lease of a handler expires before the model's first turn. Another handler takes the
message and commits a turn, which is sent back, and then the first one commits its own. -/
def demoTwiceActions : List TaskAction :=
  demoStartActions ++ .environment (.expireLease "task-1") :: .environment (.redeliver 2) ::
    .start 3 (.handleMessage (.ok demoMessage)) :: (List.replicate 12 (.call 3 {}) ++
      List.replicate 3 (.call 2 {}))

/-- The turns that the actions commit for the demo task, and the reflections. -/
def demoCommits (M : TaskMachine) (actions : List TaskAction) : ℕ × ℕ :=
  ((M.trail actions (.initial .fresh)).countP (commitsTurn "task-1"),
    (M.trail actions (.initial .fresh)).countP (commitsReflection "task-1"))

/-- Two handlers that overlap commit two turns where one is allowed. -/
theorem turns_beyond_budget : ∃ h c,
    (taskMachine demoSettings demoBriefAgent.orchestrator).Run deployed (.initial .fresh) h c ∧
      h.countP (commitsTurn "task-1") = 2 ∧ demoBriefAgent.maxIterations = 1 := by
  have hend : ((evalMachine demoSettings demoBriefAgent.orchestrator).exec deployed
      demoTwiceActions (.initial .fresh)).isSome = true := by decide +kernel
  have hcommits : demoCommits (evalMachine demoSettings demoBriefAgent.orchestrator)
      demoTwiceActions = (2, 1) := by decide +kernel
  rw [evalMachine_eq] at hend hcommits
  obtain ⟨c, hc⟩ := Option.isSome_iff_exists.1 hend
  exact ⟨_, c, Machine.Run.follow .nil hc, (Prod.mk.inj hcommits).1, rfl⟩

/-- An agent whose model may take three turns. -/
def demoThriftyAgent : AgentSettings := { demoAgent with maxIterations := 3 }

/-- The model's first turn submits nothing and is sent back; its second answer is lost. The
retry calls a tool and makes a plan, which is approved and carried out. -/
def demoLoopActions : List TaskAction :=
  demoStartActions ++ List.replicate 7 (.call 2 {}) ++
    .call 2 { ending := .lost .timeoutError } :: List.replicate 6 (.call 2 {}) ++
    .start 3 (.handleMessage (.ok
      { demoMessage with attempt := 1, resumeKind := some .retry, resumeId := some "task-1" })) ::
    List.replicate 6 (.call 3 {}) ++ demoPlanning 3 ++
    .start 4 (.submitApproval demoApproval) ::
      List.replicate 5 (.call 4 { token := "approval-1" }) ++
    .start 5 (.handleMessage (.ok demoApprovalMessage)) ::
      List.replicate 14 (.call 5 { token := "receipt-1" })

theorem loop_within_budgets_demo : ∃ h c checkpoint,
    (taskMachine demoSettings demoThriftyAgent.orchestrator).Run .any (.initial .fresh) h c ∧
      c.state.checkpoints "task-1" = some checkpoint ∧ checkpoint.next = none ∧
      checkpoint.state.turns ≤ 3 ∧ checkpoint.state.reflections ≤ 1 ∧
      LeasesKept "task-1" h ∧
      (h.countP (commitsTurn "task-1") = 3 ∧ h.countP (commitsReflection "task-1") = 1) ∧
      (h.countP (commitsTurn "task-1") ≤ 3 ∧ h.countP (commitsReflection "task-1") ≤ 1) ∧
      ∀ i, Machine.calls TaskCall.entersNode
        (demoThriftyAgent.transcripts demoSettings h i) ≤ 10 := by
  have hend : ((evalMachine demoSettings demoThriftyAgent.orchestrator).exec .any
      demoLoopActions (.initial .fresh)).bind (fun c =>
        (c.state.checkpoints "task-1").map Checkpoint.next) = some none := by decide +kernel
  have hcommits : demoCommits (evalMachine demoSettings demoThriftyAgent.orchestrator)
      demoLoopActions = (3, 1) := by decide +kernel
  rw [evalMachine_eq] at hend hcommits
  obtain ⟨c, hc, hcheckpoint⟩ := Option.bind_eq_some_iff.1 hend
  obtain ⟨checkpoint, hstored, hnext⟩ := Option.map_eq_some_iff.1 hcheckpoint
  have run := Machine.Run.follow .nil hc
  have hkept : LeasesKept "task-1" _ :=
    leasesKept_of_unexpired (Machine.trail_actions hc) (by decide)
  obtain ⟨hbudget, htogether, hnodes, -⟩ := loop_within_budgets run
  obtain ⟨hturns, hreflections⟩ := hbudget "task-1" checkpoint hstored
  exact ⟨_, c, checkpoint, run, hstored, hnext, hturns, hreflections, hkept,
    Prod.mk.inj hcommits, htogether "task-1" hkept, hnodes⟩

end CommerceAgent
