import CommerceAgent.Agent.Runs
import CommerceAgent.Effects.Counting
import CommerceAgent.Tasks.Calls

/-!
# The budgets of the agent loop

The number of nodes that a run of the graph can still start is a function of the next
node and of the iteration counter alone (`AgentSettings.stepsFrom`): it falls with
every node that returns. Hence a run starts at most `2 * maxIterations + 4` nodes, and
the recursion limit does not matter. The counters themselves count the messages that
the model's turns and the corrections have left in the conversation.
-/

namespace CommerceAgent

open Effects

/-- The start of a node. -/
def TaskCall.entersNode : TaskCall → Bool
  | .enterNode .. => true
  | _ => false

/-- The call of a node. -/
def TaskCall.ofNode : TaskCall → Bool
  | .appendEvent .. | .resolveProduct .. | .getMetrics .. | .complete .. | .executeTool ..
  | .schedule | .graph .. => true
  | _ => false

/-- A node starts no node. -/
theorem entersNode_of_ofNode {c : TaskCall} (h : c.ofNode = true) : c.entersNode = false := by
  cases c <;> first | rfl | cases h

abbrev NodeOnly {α : Type} (V : α → Prop) (p : TaskProgram α) : Prop :=
  p.Only (fun c => c.ofNode = true) V

section NodeOnly

variable {α β : Type} {V : β → Prop}

theorem nodeOnly_call {c : TaskCall} {f : c.Reply → TaskProgram β} {h : Exn → TaskProgram β}
    (hc : c.ofNode = true) (hf : ∀ b, NodeOnly V (f b)) (hh : ∀ e, NodeOnly V (h e)) :
    NodeOnly V (c.perform.handle f h) :=
  .handle (fun b _ => hf b) hh (.perform hc)

theorem nodeOnly_ofExcept {x : Except Exn α} {f : α → TaskProgram β}
    (hf : ∀ a, x = .ok a → NodeOnly V (f a)) : NodeOnly V (Program.ofExcept x >>= f) := by
  cases x with
  | ok a => exact hf a rfl
  | error e => trivial

/-- A program that makes such calls only is one that may run among others. -/
theorem nodeOnly_iff_beside {p : TaskProgram α} {V : α → Prop} :
    NodeOnly V p ↔ p.Beside
      ⟨fun c (_ : Unit) => c.ofNode = true, fun _ _ _ _ => True⟩ (fun _ _ => True)
      (fun a _ => V a) () := by
  induction p with
  | pure a => exact Iff.rfl
  | throw e => exact Iff.rfl
  | call c k ih =>
      constructor
      · exact fun hp _ _ => ⟨hp.1, fun r _ _ => ⟨trivial, (ih r).1 (hp.2 r)⟩⟩
      · exact fun hp => ⟨(hp () trivial).1, fun r => (ih r).2 ((hp () trivial).2 r () trivial).2⟩

end NodeOnly

namespace AgentSettings

variable (agent : AgentSettings)

/-- How many nodes a run can start from here. -/
def stepsFrom (iteration : ℕ) : Option GraphNode → ℕ
  | none => 0
  | some .scope => 2 * (agent.maxIterations - iteration) + 4
  | some .metrics => 2 * (agent.maxIterations - iteration) + 3
  | some .model => 2 * (agent.maxIterations - iteration) + 2
  | some .tools => 2 * (agent.maxIterations - iteration) + 3
  | some .validate => 2 * (agent.maxIterations - iteration) + 3
  | some .plan => 2
  | some .approval => 1

/-- How many nodes a run can start from the checkpoint. -/
def stepsLeft (checkpoint : Checkpoint) : ℕ :=
  agent.stepsFrom checkpoint.state.iteration checkpoint.next

theorem stepsLeft_le (checkpoint : Checkpoint) :
    agent.stepsLeft checkpoint ≤ 2 * agent.maxIterations + 4 := by
  unfold stepsLeft stepsFrom
  split <;> omega

/-- What the node returned leaves fewer nodes to start. -/
def Advances (node : GraphNode) (state : AgentState) (result : NodeResult) : Prop :=
  ∀ next, result = .update next →
    agent.stepsFrom next.iteration (nextNode node next) <
      agent.stepsFrom state.iteration (some node)

variable {agent}

theorem nodeOnly_report {node : GraphNode} {state next : AgentState} {event : TaskEvent}
    (h : agent.stepsFrom next.iteration (nextNode node next) <
      agent.stepsFrom state.iteration (some node)) :
    NodeOnly (agent.Advances node state)
      ((TaskCall.appendEvent state.taskId event).perform >>= fun _ => pure (.update next)) := by
  apply nodeOnly_call rfl
  · intro _ next' heq
    cases heq
    exact h
  · exact fun _ => trivial

theorem nodeOnly_scope (state : AgentState) (resume : Option ResumeValue) :
    NodeOnly (agent.Advances .scope state) (scopeNode state resume) := by
  have hreport : ∀ productId,
      NodeOnly (agent.Advances .scope state) (reportScope state productId) :=
    fun productId => nodeOnly_report (by simp [AgentState.scoped, nextNode, stepsFrom])
  unfold scopeNode
  split
  · exact hreport _
  apply nodeOnly_call rfl
  · intro candidates
    split
    · exact hreport _
    split
    · intro next heq
      cases heq
    · unfold confirmScope
      split
      · trivial
      · apply nodeOnly_call rfl
        · intro items
          split
          · trivial
          · exact hreport _
        · exact fun _ => trivial
  · exact fun _ => trivial

theorem nodeOnly_metrics (state : AgentState) :
    NodeOnly (agent.Advances .metrics state) (metricsNode state) := by
  apply nodeOnly_ofExcept
  intro productId _
  apply nodeOnly_call rfl
  · exact fun metrics => nodeOnly_report (by simp [AgentState.measured, nextNode, stepsFrom])
  · exact fun _ => trivial

theorem nodeOnly_model (state : AgentState) :
    NodeOnly (agent.Advances .model state) (agent.modelNode state) := by
  unfold modelNode
  split
  · trivial
  next hiteration =>
  apply nodeOnly_ofExcept
  intro prompt _
  apply nodeOnly_call rfl
  · intro turn
    apply nodeOnly_ofExcept
    intro diagnosis _
    apply nodeOnly_report
    cases diagnosis with
    | none =>
        change 2 * (agent.maxIterations - (state.iteration + 1)) + 3 <
          2 * (agent.maxIterations - state.iteration) + 2
        omega
    | some submission =>
        change 2 * (agent.maxIterations - (state.iteration + 1)) + 3 <
          2 * (agent.maxIterations - state.iteration) + 2
        omega
  · exact fun _ => trivial

theorem nodeOnly_executeTool (state : AgentState) (call : ToolCall) :
    NodeOnly (fun _ => True) (agent.executeTool state call) := by
  unfold executeTool
  split
  · trivial
  apply nodeOnly_ofExcept
  intro productId _
  apply nodeOnly_ofExcept
  intro _ _
  apply nodeOnly_call rfl
  · intro _
    rw [Program.bind_eq, Program.handle_handle]
    apply nodeOnly_call rfl
    · exact fun result => nodeOnly_call rfl (fun _ => trivial) fun _ => trivial
    · intro exc
      unfold reportToolFailed
      split
      · trivial
      · rw [Program.bind_eq, Program.handle_handle]
        exact nodeOnly_call rfl (fun _ => trivial) fun _ => trivial
  · exact fun _ => trivial

theorem nodeOnly_tools (state : AgentState) :
    NodeOnly (agent.Advances .tools state) (agent.toolNode state) := by
  unfold toolNode
  split
  · trivial
  next lastMessage _ =>
  have hschedule : NodeOnly (fun _ => True) TaskCall.schedule.perform :=
    Program.Only.perform (P := fun c : TaskCall => c.ofNode = true) (by rfl)
  have hgather : NodeOnly (fun _ => True) (Program.gather TaskCall.schedule.perform
      (lastMessage.toolCalls.map (agent.executeTool state))) := by
    rw [nodeOnly_iff_beside]
    have : IsPreorder Unit (fun _ _ => True) :=
      { refl := fun _ => trivial, trans := fun _ _ _ _ _ => trivial }
    apply (Program.Beside.gather (Q := fun _ _ _ => True) ?_ (fun _ _ _ _ _ _ => trivial)
      fun call _ => nodeOnly_iff_beside.1 (nodeOnly_executeTool state call)).mono
    · exact fun _ _ _ => trivial
    · exact fun _ => nodeOnly_iff_beside.1 hschedule
  apply hgather.bind
  intro messages _ next heq
  cases heq
  simp [AgentState.answered, nextNode, stepsFrom]

theorem nodeOnly_validate (state : AgentState) :
    NodeOnly (agent.Advances .validate state) (agent.validationNode state) := by
  apply nodeOnly_ofExcept
  intro errors _
  change NodeOnly _ (if _ then _ else _)
  split
  · next h =>
      apply nodeOnly_report
      have hroute : nextNode .validate (state.reflected errors) = some .model := by
        simp [nextNode, routeAfterValidation, AgentState.reflected, h.1]
      rw [hroute]
      simp [AgentState.reflected, stepsFrom]
  split
  · trivial
  · apply nodeOnly_report
    simp [AgentState.accepted, nextNode, routeAfterValidation, stepsFrom]

theorem nodeOnly_plan (state : AgentState) :
    NodeOnly (agent.Advances .plan state) (agent.planNode state) := by
  have hroute : ∀ next : AgentState, agent.stepsFrom next.iteration (nextNode .plan next) <
      agent.stepsFrom state.iteration (some .plan) := by
    intro next
    simp only [nextNode, routeAfterPlan]
    split <;> simp [stepsFrom]
  unfold planNode
  split
  · apply nodeOnly_ofExcept
    intro result _
    split
    · intro next _
      exact hroute next
    · apply nodeOnly_ofExcept
      intro productId _
      apply Program.Only.bind
      · exact Program.only_lift (P := fun c : TaskCall => c.ofNode = true) (fun _ => rfl) _
      · intro plan _ next _
        exact hroute next
  · trivial

theorem nodeOnly_approval (state : AgentState) (resume : Option ResumeValue) :
    NodeOnly (agent.Advances .approval state) (approvalNode state resume) := by
  unfold approvalNode
  split
  · trivial
  split
  · intro next heq
    cases heq
  split
  · trivial
  apply nodeOnly_call rfl
  · intro approval
    cases approval with
    | none => trivial
    | some approval =>
        change NodeOnly _ (if _ then _ else _)
        split
        · exact nodeOnly_report (by simp [nextNode, stepsFrom])
        · apply nodeOnly_call rfl
          · exact fun receipt => nodeOnly_report (by simp [nextNode, stepsFrom])
          · exact fun _ => trivial
  · exact fun _ => trivial

/-- A node starts no other node, and what it returns leaves fewer to start. -/
theorem nodeOnly (node : GraphNode) (state : AgentState) (resume : Option ResumeValue) :
    NodeOnly (agent.Advances node state) (agent.node node state resume) := by
  cases node with
  | scope => exact nodeOnly_scope state resume
  | metrics => exact nodeOnly_metrics state
  | model => exact nodeOnly_model state
  | tools => exact nodeOnly_tools state
  | validate => exact nodeOnly_validate state
  | plan => exact nodeOnly_plan state
  | approval => exact nodeOnly_approval state resume

/-- A run from a checkpoint starts no more nodes than are left. -/
theorem runFrom_atMost (threadId : String) (limit : ℕ) :
    ∀ (checkpoint : Checkpoint) (resume : Option ResumeValue),
      (agent.runFrom threadId limit checkpoint resume).AtMost TaskCall.entersNode
        (agent.stepsLeft checkpoint) := by
  induction limit with
  | zero => exact fun _ _ => trivial
  | succ limit ih =>
      intro checkpoint resume
      unfold runFrom
      split
      · trivial
      next node hnext =>
      have hsteps : agent.stepsLeft checkpoint =
          agent.stepsFrom checkpoint.state.iteration (some node) := by rw [stepsLeft, hnext]
      obtain ⟨left, hleft⟩ : ∃ left,
          agent.stepsFrom checkpoint.state.iteration (some node) = left + 1 :=
        Nat.exists_eq_succ_of_ne_zero (by cases node <;> simp [stepsFrom])
      rw [hsteps, hleft]
      apply Program.atMost_call rfl
      intro r
      apply Program.AtMost.handle ?_ (fun _ => by trivial)
        (V := fun _ => True) (by cases r <;> trivial)
      intro _ _
      have honly : (agent.node node checkpoint.state resume).Only (fun c => c.entersNode = false)
          (agent.Advances node checkpoint.state) :=
        (nodeOnly node checkpoint.state resume).mono (fun _ => entersNode_of_ofNode) fun _ h => h
      apply Program.AtMost.handle ?_ (fun _ => by trivial) honly
      intro result hadvances
      have hput : (TaskCall.putCheckpoint threadId (checkpoint.commit node result)).perform.Only
          (fun c => c.entersNode = false) fun _ => True := .perform (by rfl)
      apply Program.AtMost.handle ?_ (fun _ => by trivial) hput
      intro _ _
      cases result with
      | interrupt interaction => trivial
      | update next =>
          have hnode := hadvances next rfl
          apply (ih (checkpoint.commit node (.update next)) none).mono
          change agent.stepsFrom next.iteration (nextNode node next) ≤ left
          omega

/-- A limit that the nodes left do not reach is as good as any other. -/
theorem runFrom_limit (threadId : String) (limit : ℕ) :
    ∀ (limit' : ℕ) (checkpoint : Checkpoint) (resume : Option ResumeValue),
      agent.stepsLeft checkpoint < limit → agent.stepsLeft checkpoint < limit' →
        agent.runFrom threadId limit checkpoint resume =
          agent.runFrom threadId limit' checkpoint resume := by
  induction limit with
  | zero => exact fun _ _ _ hlimit _ => absurd hlimit (Nat.not_lt_zero _)
  | succ limit ih =>
      intro limit' checkpoint resume hlimit hlimit'
      obtain ⟨limit', rfl⟩ := Nat.exists_eq_succ_of_ne_zero (Nat.ne_zero_of_lt hlimit')
      unfold runFrom
      split
      · rfl
      next node hnext =>
      have hsteps : agent.stepsLeft checkpoint =
          agent.stepsFrom checkpoint.state.iteration (some node) := by rw [stepsLeft, hnext]
      rw [hsteps] at hlimit hlimit'
      simp only [Program.bind_eq]
      congr 1
      funext _
      apply (nodeOnly node checkpoint.state resume).handle_congr
      intro result hadvances
      congr 1
      funext _
      cases result with
      | interrupt interaction => rfl
      | update next =>
          have hnode := hadvances next rfl
          have hleft : agent.stepsLeft (checkpoint.commit node (.update next)) <
              agent.stepsFrom checkpoint.state.iteration (some node) := hnode
          exact ih limit' _ none (by omega) (by omega)

theorem invoke_limit {limit limit' : ℕ} (hlimit : 2 * agent.maxIterations + 4 < limit)
    (hlimit' : 2 * agent.maxIterations + 4 < limit') :
    agent.invoke limit = agent.invoke limit' := by
  funext threadId checkpoint resume
  have hleft := agent.stepsLeft_le checkpoint
  rw [invoke, invoke, runFrom_limit threadId limit limit' checkpoint resume (by omega) (by omega)]

/-- A run does not depend on its recursion limit. -/
theorem run_limit {limit limit' : ℕ} (hlimit : 2 * agent.maxIterations + 4 < limit)
    (hlimit' : 2 * agent.maxIterations + 4 < limit') : agent.run limit = agent.run limit' := by
  funext task resumeKind resumeId
  simp only [run, startThread, resumeThread, invoke_limit hlimit hlimit']

theorem orchestrator_atMost (task : TaskRecord) (resumeKind : Option ResumeKind)
    (resumeId : Option String) : (agent.orchestrator task resumeKind resumeId).AtMost
      TaskCall.entersNode (2 * agent.maxIterations + 4) := by
  have hinvoke : ∀ limit threadId checkpoint resume,
      (agent.invoke limit threadId checkpoint resume).AtMost TaskCall.entersNode
        (2 * agent.maxIterations + 4) := by
    intro limit threadId checkpoint resume
    apply Program.AtMost.andThen (fun _ => by trivial) (fun _ => by trivial)
    exact (runFrom_atMost threadId limit checkpoint resume).mono (agent.stepsLeft_le checkpoint)
  have hcall : ∀ {c : TaskCall}, c.entersNode = false →
      c.perform.Only (fun c => c.entersNode = false) fun _ => True := fun hc => .perform hc
  apply Program.AtMost.andThen (fun _ => by trivial) (fun _ => by trivial)
  unfold run
  split
  · trivial
  apply Program.AtMost.handle ?_ (fun _ => by trivial) (hcall rfl)
  intro found _
  cases found with
  | none =>
      change (startThread ..).AtMost _ _
      unfold startThread
      split
      · trivial
      · exact Program.AtMost.handle (fun _ _ => hinvoke _ _ _ _) (fun _ => by trivial) (hcall rfl)
  | some checkpoint =>
      change (resumeThread ..).AtMost _ _
      unfold resumeThread
      split
      · split
        · trivial
        split
        · trivial
        · exact hinvoke _ _ _ _
      · split
        · trivial
        · exact hinvoke _ _ _ _

end AgentSettings

/-- The message is a turn of the model. -/
def Message.isTurn : Message → Bool
  | .assistant .. => true
  | _ => false

/-- The message asks the model to correct a diagnosis. -/
def Message.isCorrection : Message → Bool
  | .correction _ => true
  | _ => false

/-- How many turns of the model the conversation holds. -/
def AgentState.turns (state : AgentState) : ℕ := state.messages.countP Message.isTurn

/-- How many reflections the conversation holds. -/
def AgentState.reflections (state : AgentState) : ℕ := state.messages.countP Message.isCorrection

/-- The counters count the messages, within the budgets. -/
structure AgentSettings.Budgeted (agent : AgentSettings) (state : AgentState) : Prop where
  iteration : state.iteration = state.turns
  turns_le : state.turns ≤ agent.maxIterations
  reflectionCount : state.reflectionCount = state.reflections
  reflections_le : state.reflections ≤ agent.maxReflections

theorem countP_answers {agent : AgentSettings} {H : Set TaskExchange} {state : AgentState}
    {P : Message → Bool} (hP : ∀ id name result, P (.tool id name result) = false)
    {calls : List ToolCall} {messages : List Message}
    (h : List.Forall₂ (agent.Answers H state) calls messages) : messages.countP P = 0 := by
  induction h with
  | nil => rfl
  | cons hanswer _ ih =>
      obtain ⟨-, result, -, rfl⟩ := hanswer
      rw [List.countP_cons_of_neg (by simp [hP]), ih]

theorem countP_correctionMessages {P : Message → Bool}
    (hP : ∀ id name result, P (.tool id name result) = false) (state : AgentState)
    (errors : List String) :
    (correctionMessages state errors).countP P = if P (.correction errors) then 1 else 0 := by
  unfold correctionMessages
  rw [List.countP_append, List.countP_singleton]
  cases diagnosisToolCallId state with
  | none => simp
  | some id => simp [hP]

namespace AgentSettings

variable {agent : AgentSettings} {H : Set TaskExchange} {state next : AgentState}
  {node : GraphNode}

/-- Only the model node adds a turn. -/
theorem Returns.turns (h : agent.Returns H state node (.update next)) :
    next.turns = state.turns + if node = .model then 1 else 0 := by
  cases h with
  | turned hiteration hreplied hread =>
      simp [AgentState.turns, AgentSettings.turned, Message.isTurn]
  | answered hlast hanswers =>
      simp [AgentState.turns, AgentState.answered, countP_answers (P := Message.isTurn)
        (fun _ _ _ => rfl) hanswers]
  | reflected herrors hne hcount =>
      simp [AgentState.turns, AgentState.reflected, countP_correctionMessages
        (P := Message.isTurn) (fun _ _ _ => rfl), Message.isTurn]
  | measured hproduct hreplied => simp [AgentState.turns, AgentState.measured, Message.isTurn]
  | _ => rfl

/-- Only a rejected diagnosis adds a reflection. -/
theorem Returns.reflections (h : agent.Returns H state node (.update next)) :
    next.reflections = state.reflections +
      if node = .validate ∧ nextNode node next = some .model then 1 else 0 := by
  cases h with
  | turned hiteration hreplied hread =>
      simp [AgentState.reflections, AgentSettings.turned, Message.isCorrection]
  | answered hlast hanswers =>
      simp [AgentState.reflections, AgentState.answered, countP_answers
        (P := Message.isCorrection) (fun _ _ _ => rfl) hanswers]
  | @reflected errors herrors hne hcount =>
      have hroute : nextNode .validate (state.reflected errors) = some .model := by
        simp [nextNode, routeAfterValidation, AgentState.reflected, hne]
      rw [if_pos ⟨rfl, hroute⟩]
      simp [AgentState.reflections, AgentState.reflected, countP_correctionMessages
        (P := Message.isCorrection) (fun _ _ _ => rfl), Message.isCorrection]
  | accepted herrors =>
      simp [AgentState.reflections, AgentState.accepted, nextNode, routeAfterValidation]
  | measured hproduct hreplied =>
      simp [AgentState.reflections, AgentState.measured, Message.isCorrection]
  | _ => rfl

/-- The counters move with the messages. -/
theorem Returns.budgeted (h : agent.Returns H state node (.update next))
    (hbudget : agent.Budgeted state) : agent.Budgeted next := by
  have hturns := h.turns
  have hreflections := h.reflections
  obtain ⟨hiteration, hmax, hcount, hreflect⟩ := hbudget
  cases h with
  | turned hlt hreplied hread =>
      simp only [if_true, reduceCtorEq, false_and, if_false, add_zero] at hturns hreflections
      exact ⟨by rw [hturns, ← hiteration]; rfl, by omega, hcount.trans hreflections.symm, by omega⟩
  | @reflected errors herrors hne hlt =>
      have hroute : nextNode .validate (state.reflected errors) = some .model := by
        simp [nextNode, routeAfterValidation, AgentState.reflected, hne]
      rw [if_pos ⟨rfl, hroute⟩] at hreflections
      simp only [reduceCtorEq, if_false, add_zero] at hturns
      exact ⟨hiteration.trans hturns.symm, by omega, by rw [hreflections, ← hcount]; rfl, by omega⟩
  | accepted herrors =>
      exact ⟨hiteration, hmax, hcount, hreflect⟩
  | _ =>
      simp only [reduceCtorEq, false_and, if_false, add_zero] at hturns hreflections
      exact ⟨hiteration.trans hturns.symm, hturns.trans_le hmax, hcount.trans hreflections.symm,
        hreflections.trans_le hreflect⟩

/-- Every checkpoint that a thread reaches is within the budgets. -/
theorem Reach.budgeted {threadId : String} {checkpoint : Checkpoint}
    (h : agent.Reach H threadId checkpoint) : agent.Budgeted checkpoint.state := by
  induction h with
  | initial h => exact ⟨rfl, Nat.zero_le _, rfl, Nat.zero_le _⟩
  | @step checkpoint node result _ _ hresult ih =>
      cases result with
      | update next => exact hresult.budgeted ih
      | interrupt interaction => exact ih

end AgentSettings

/-- The process that stores a checkpoint of the thread in this step, with the checkpoint. -/
def committedTo (threadId : String) (v : TaskConfig × TaskAction) : Option (ℕ × Checkpoint) :=
  match v.2 with
  | .call i ch =>
      match v.1.pool i with
      | .running _ (.call (.putCheckpoint t checkpoint) _) =>
          if t = threadId ∧ ch.ending.effective then some (i, checkpoint) else none
      | _ => none
  | _ => none

/-- The node that a checkpoint of the thread waits for. -/
def nextOf (threadId : String) (v : TaskConfig × TaskAction) : Option GraphNode :=
  (v.1.state.checkpoints threadId).bind Checkpoint.next

/-- The step commits a turn of the model. -/
def commitsTurn (threadId : String) (v : TaskConfig × TaskAction) : Bool :=
  (committedTo threadId v).isSome && nextOf threadId v == some .model

/-- The step commits a reflection. -/
def commitsReflection (threadId : String) (v : TaskConfig × TaskAction) : Bool :=
  (committedTo threadId v).any (fun new => new.2.next == some .model) &&
    nextOf threadId v == some .validate

section Commits

variable {agent : AgentSettings} {settings : Settings} {h : List (TaskConfig × TaskAction)}
  {c c' : TaskConfig} {a : TaskAction} {threadId : String}

variable (threadId) in
/-- A step stores the checkpoint that it commits, and no other step changes the store. -/
theorem checkpoints_of_step {orchestrator : Orchestrator}
    (step : (taskMachine settings orchestrator).step a c = some c') :
    c'.state.checkpoints threadId =
      ((committedTo threadId (c, a)).map Prod.snd).or (c.state.checkpoints threadId) := by
  cases a with
  | call i ch =>
      obtain ⟨q, cl, k, r, w, hslot, hanswer, rfl⟩ := Machine.step_call _ step
      by_cases hput : ∃ t checkpoint, cl = .putCheckpoint t checkpoint
      · obtain ⟨t, checkpoint, rfl⟩ := hput
        have hw : w = (ch.ending.answer (.ok ((), { c.state with
            checkpoints := Function.update c.state.checkpoints t (some checkpoint) })) c.state).2 :=
          (congrArg Prod.snd (Option.some.inj hanswer)).symm
        rw [Ending.answer_of_ok] at hw
        simp only [committedTo, hslot, hw]
        by_cases heffective : ch.ending.effective = true
        · by_cases ht : t = threadId
          · subst ht
            simp [heffective]
          · simp [heffective, ht, Ne.symm ht]
        · simp [heffective]
      · have hnone : committedTo threadId (c, .call i ch) = none := by
          simp only [committedTo, hslot]
          split
          · next heq =>
              rw [Slot.running.injEq, Program.call.injEq] at heq
              exact absurd ⟨_, _, heq.2.1⟩ hput
          · rfl
        rw [hnone]
        rcases checkpoints_of_answer hanswer with heq | ⟨t, checkpoint, hcl, -⟩
        · exact congrFun heq threadId
        · exact absurd ⟨t, checkpoint, hcl⟩ hput
  | start i q =>
      obtain ⟨w, -, haccept, rfl⟩ := Machine.step_start _ step
      exact congrFun (checkpoints_of_accept haccept) threadId
  | crash i =>
      obtain ⟨q, p, -, rfl⟩ := Machine.step_crash _ step
      exact congrFun (World.requeue_checkpoints ..) threadId
  | environment e =>
      obtain ⟨w, he, rfl⟩ := Machine.step_environment _ step
      exact congrFun (checkpoints_of_environment he) threadId

/-- The runs of the thread follow one another: each commits on the stored checkpoint. -/
def AgentSettings.Successive (agent : AgentSettings) (settings : Settings) (threadId : String)
    (h : List (TaskConfig × TaskAction)) : Prop :=
  ∀ h₁ v h₂, h = h₁ ++ v :: h₂ → ∀ i checkpoint, committedTo threadId v = some (i, checkpoint) →
    v.1.state.checkpoints threadId = currentCheckpoint (agent.transcripts settings h₁ i)

theorem AgentSettings.Successive.before {h₁ : List (TaskConfig × TaskAction)}
    {v : TaskConfig × TaskAction} (hsucc : agent.Successive settings threadId (h₁ ++ [v])) :
    agent.Successive settings threadId h₁ := by
  intro h₂ w h₃ heq
  exact hsucc h₂ w (h₃ ++ [v]) (by simp [heq])

/-- Whoever stores a checkpoint makes the call that does. -/
theorem exists_of_committedTo {i : ℕ} {checkpoint : Checkpoint}
    (h : committedTo threadId (c, a) = some (i, checkpoint)) : ∃ ch q k,
      a = .call i ch ∧ c.pool i = .running q (.call (.putCheckpoint threadId checkpoint) k) := by
  cases a with
  | call j ch =>
      simp only [committedTo] at h
      split at h
      · next q t found k hslot =>
          split at h
          · next ht =>
              cases h
              obtain ⟨rfl, -⟩ := ht
              exact ⟨ch, q, k, rfl, hslot⟩
          · cases h
      · cases h
  | _ => cases h

/-- A commit on the stored checkpoint counts what its node adds to the conversation. -/
theorem AgentSettings.Commits.counts {H : Set TaskExchange} {past : List TaskExchange}
    {v : TaskConfig × TaskAction} {i : ℕ} {checkpoint : Checkpoint}
    (hcommits : agent.Commits H past threadId checkpoint)
    (hcommit : committedTo threadId v = some (i, checkpoint))
    (hcurrent : v.1.state.checkpoints threadId = currentCheckpoint past) :
    checkpoint.state.turns = ((v.1.state.checkpoints threadId).map fun current =>
        current.state.turns).getD 0 + (if commitsTurn threadId v then 1 else 0) ∧
      checkpoint.state.reflections = ((v.1.state.checkpoints threadId).map fun current =>
        current.state.reflections).getD 0 + if commitsReflection threadId v then 1 else 0 := by
  rcases hcommits with ⟨hnone, task, -, rfl⟩ | ⟨current, node, result, hat, hnext, hresult, rfl⟩
  · rw [hnone] at hcurrent
    simp only [commitsTurn, commitsReflection, nextOf, hcurrent, Option.bind_none,
      reduceCtorEq, beq_iff_eq, Bool.and_eq_true, and_false, if_false]
    exact ⟨rfl, rfl⟩
  · rw [hat.1] at hcurrent
    simp only [commitsTurn, commitsReflection, nextOf, hcommit, hcurrent, Option.bind_some, hnext,
      Option.map_some, Option.getD_some, Option.any_some, Option.isSome_some, Bool.true_and,
      Bool.and_eq_true, beq_iff_eq, Option.some.injEq]
    cases result with
    | update next =>
        exact ⟨hresult.turns, by
          simpa [and_comm, Checkpoint.commit] using hresult.reflections⟩
    | interrupt interaction =>
        cases hresult <;> simp [Checkpoint.commit]

/-- What is stored for the thread counts its commits. -/
theorem stored_counts
    (run : (taskMachine settings agent.orchestrator).Run .any (.initial World.fresh) h c)
    (hsucc : agent.Successive settings threadId h) :
    h.countP (commitsTurn threadId) =
        ((c.state.checkpoints threadId).map fun current => current.state.turns).getD 0 ∧
      h.countP (commitsReflection threadId) =
        ((c.state.checkpoints threadId).map fun current => current.state.reflections).getD 0 := by
  induction run with
  | nil => exact ⟨rfl, rfl⟩
  | @snoc h c c' a run _ step ih =>
      obtain ⟨hturns, hreflections⟩ := ih hsucc.before
      have hstored := checkpoints_of_step threadId step
      rw [List.countP_append, List.countP_append, List.countP_singleton, List.countP_singleton,
        hturns, hreflections]
      cases hcommit : committedTo threadId (c, a) with
      | none =>
          have hquiet : commitsTurn threadId (c, a) = false ∧
              commitsReflection threadId (c, a) = false := by
            simp [commitsTurn, commitsReflection, hcommit]
          rw [hcommit, Option.map_none, Option.none_or] at hstored
          simp [hquiet, hstored]
      | some new =>
          obtain ⟨i, checkpoint⟩ := new
          obtain ⟨ch, q, k, rfl, hslot⟩ := exists_of_committedTo hcommit
          obtain ⟨r, -, hpermitted⟩ := AgentSettings.graph_call run step hslot
          have hcurrent := hsucc h _ [] rfl i checkpoint hcommit
          have hcounts := AgentSettings.Commits.counts hpermitted hcommit hcurrent
          rw [hcommit, Option.map_some, Option.some_or] at hstored
          rw [hstored, Option.map_some, Option.map_some, Option.getD_some, Option.getD_some]
          exact ⟨hcounts.1.symm, hcounts.2.symm⟩

end Commits

end CommerceAgent
