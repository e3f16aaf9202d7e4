import CommerceAgent.Api.Ownership
import CommerceAgent.Tasks.Outline

/-!
# The workers keep to the merchant of a task

What a message handler and the graph write is owned, given that what they read is: the
graph starts from the merchant of the record, and every product that it shows comes from
a search for this merchant or from the plan of the task.
-/

namespace CommerceAgent

open Effects

namespace Owners

variable (o : Owners) {α β : Type}

/-- The program writes what is owned, given that what it reads is, and ends in `V`. -/
abbrev Keeps (p : TaskProgram α) (V : α → Prop) : Prop :=
  p.Follows (Program.answers o.Gives o.May) (fun a _ => V a) (fun _ _ => True) ()

section Rules

variable {o} {V : β → Prop}

theorem keeps_call {c : TaskCall} {f : c.Reply → TaskProgram β} {h : Exn → TaskProgram β}
    (hmay : o.May c) (hf : ∀ b, o.Gives c (.ok b) → o.Keeps (f b) V)
    (hh : ∀ e, o.Keeps (h e) V) : o.Keeps (c.perform.handle f h) V :=
  Program.follows_call hmay (fun b _ hb => hf b hb) fun e _ _ => hh e

theorem keeps_perform {c : TaskCall} (hmay : o.May c) :
    o.Keeps c.perform (fun b => o.Gives c (.ok b)) := by
  rw [← Program.handle_pure_throw c.perform]
  exact keeps_call hmay (fun _ hb => hb) fun _ => trivial

theorem keeps_ofExcept {x : Except Exn α} {f : α → TaskProgram β}
    (hf : ∀ a, x = .ok a → o.Keeps (f a) V) : o.Keeps (Program.ofExcept x >>= f) V := by
  cases x with
  | ok a => exact hf a rfl
  | error e => trivial

theorem Keeps.handle {p : TaskProgram α} {W : α → Prop} {f : α → TaskProgram β}
    {h : Exn → TaskProgram β} (hp : o.Keeps p W) (hf : ∀ a, W a → o.Keeps (f a) V)
    (hh : ∀ e, o.Keeps (h e) V) : o.Keeps (p.handle f h) V :=
  Program.Follows.handle (hp.mono (fun a _ ha => hf a ha) fun e _ _ => hh e)

theorem Keeps.bind {p : TaskProgram α} {W : α → Prop} {f : α → TaskProgram β}
    (hp : o.Keeps p W) (hf : ∀ a, W a → o.Keeps (f a) V) : o.Keeps (p >>= f) V :=
  hp.handle hf fun _ => trivial

theorem Keeps.mono {p : TaskProgram β} {W : β → Prop} (hp : o.Keeps p W) (h : ∀ b, W b → V b) :
    o.Keeps p V :=
  Program.Follows.mono (fun b _ hb => h b hb) (fun _ _ _ => trivial) hp

end Rules

/-- What a node returns stays with the merchant of its thread. -/
def Returned (threadId : String) (state : AgentState) : NodeResult → Prop
  | .update next => o.Thread threadId next
  | .interrupt interaction => o.Shows state.merchantId interaction

/-- The interaction of the outcome shows products of the merchant. -/
def Outcome (merchantId : String) (outcome : RunOutcome) : Prop :=
  ∀ x, outcome.interaction = some x → o.Shows merchantId x

section Nodes

variable {o} {agent : AgentSettings} {threadId : String} {state next : AgentState}

/-- A node that ends by reporting what it returns. -/
theorem keeps_report (next : AgentState) {event : TaskEvent} (h : o.Thread threadId next) :
    o.Keeps ((TaskCall.appendEvent state.taskId event).perform >>= fun _ => pure (.update next))
      (o.Returned threadId state) :=
  keeps_call (by trivial) (fun _ _ => h) fun _ => trivial

theorem keeps_scope (h : o.Thread threadId state) (resume : Option ResumeValue) :
    o.Keeps (scopeNode state resume) (o.Returned threadId state) := by
  have hreport : ∀ productId, o.Keeps (reportScope state productId) (o.Returned threadId state) :=
    fun productId => keeps_report (state.scoped productId)
      ⟨h.taskId, h.owned, h.shown⟩
  unfold scopeNode
  split
  · exact hreport _
  apply keeps_call (by trivial)
  · intro candidates hcandidates
    split
    · exact hreport _
    split
    · exact hcandidates
    · unfold confirmScope
      split
      · trivial
      · apply keeps_call (by trivial)
        · intro items _
          split
          · trivial
          · exact hreport _
        · exact fun _ => trivial
  · exact fun _ => trivial

theorem keeps_metrics (h : o.Thread threadId state) :
    o.Keeps (metricsNode state) (o.Returned threadId state) := by
  apply keeps_ofExcept
  intro productId _
  apply keeps_call (by trivial)
  · intro metrics _
    exact keeps_report (state.measured productId metrics)
      ⟨h.taskId, h.owned, h.shown⟩
  · exact fun _ => trivial

theorem keeps_model (h : o.Thread threadId state) :
    o.Keeps (agent.modelNode state) (o.Returned threadId state) := by
  unfold AgentSettings.modelNode
  split
  · trivial
  apply keeps_ofExcept
  intro prompt _
  apply keeps_call (by trivial)
  · intro turn _
    apply keeps_ofExcept
    intro diagnosis _
    exact keeps_report (agent.turned state turn diagnosis)
      ⟨h.taskId, h.owned, h.shown⟩
  · exact fun _ => trivial

theorem keeps_executeTool (call : ToolCall) :
    o.Keeps (agent.executeTool state call) fun _ => True := by
  unfold AgentSettings.executeTool
  split
  · trivial
  apply keeps_ofExcept
  intro productId _
  apply keeps_ofExcept
  intro _ _
  apply keeps_call (by trivial)
  · intro _ _
    rw [Program.bind_eq, Program.handle_handle]
    apply keeps_call (by trivial)
    · exact fun result _ => keeps_call (by trivial) (fun _ _ => trivial) fun _ => trivial
    · intro exc
      unfold reportToolFailed
      split
      · trivial
      · rw [Program.bind_eq, Program.handle_handle]
        exact keeps_call (by trivial) (fun _ _ => trivial) fun _ => trivial
  · exact fun _ => trivial

theorem keeps_tools (h : o.Thread threadId state) :
    o.Keeps (agent.toolNode state) (o.Returned threadId state) := by
  unfold AgentSettings.toolNode
  split
  · trivial
  next lastMessage _ =>
  have : IsPreorder Unit (fun _ _ => True) :=
    { refl := fun _ => trivial, trans := fun _ _ _ _ _ => trivial }
  have hbeside : (Program.gather TaskCall.schedule.perform
      (lastMessage.toolCalls.map (agent.executeTool state))).Beside
        (Program.answers o.Gives o.May) (fun _ _ => True) (fun _ _ => True) () := by
    apply (Program.Beside.gather (Q := fun _ _ _ => True) ?_ (fun _ _ _ _ _ _ => trivial)
      fun call _ => Program.beside_answers (keeps_executeTool call)).mono
    · exact fun _ _ _ => trivial
    · exact fun _ => Program.beside_answers ((keeps_perform (by trivial)).mono fun _ _ => trivial)
  have hgather : o.Keeps (Program.gather TaskCall.schedule.perform
      (lastMessage.toolCalls.map (agent.executeTool state))) fun _ => True := hbeside.follows
  apply hgather.bind
  intro messages _
  exact ⟨h.taskId, h.owned, h.shown⟩

theorem keeps_validate (h : o.Thread threadId state) :
    o.Keeps (agent.validationNode state) (o.Returned threadId state) := by
  apply keeps_ofExcept
  intro errors _
  change o.Keeps (if _ then _ else _) _
  split
  · exact keeps_report (state.reflected errors) ⟨h.taskId, h.owned, h.shown⟩
  split
  · trivial
  · exact keeps_report state.accepted ⟨h.taskId, h.owned, h.shown⟩

/-- The plan of a thread is one of its task, for a product of the merchant. -/
theorem keeps_createPlan (h : o.Thread threadId state) (productId : String) (patch : ProductPatch) :
    o.Keeps ((createPlanSync state.taskId state.merchantId productId patch).lift
      (TaskCall.graph state.taskId)) fun plan =>
        o.product plan.productId = some state.merchantId := by
  have howned : o.task state.taskId = some state.merchantId := h.taskId ▸ h.owned
  rw [createPlanSync, Program.bind_eq, Program.lift_handle, Program.lift_perform]
  apply keeps_call (by trivial)
  · intro existing hexisting
    cases existing with
    | some plan =>
        obtain ⟨htask, hplan⟩ := hexisting
        have hmerchant := hplan.task
        rw [htask, howned] at hmerchant
        exact hplan.product.trans hmerchant.symm
    | none =>
        change o.Keeps (Program.lift _ (Program.handle _ _ _)) _
        rw [Program.lift_handle, Program.lift_perform]
        apply keeps_call (by trivial)
        · intro product hproduct
          cases product with
          | none => trivial
          | some snapshot =>
              obtain ⟨description, version⟩ := snapshot
              change o.Keeps (Program.lift _ (Program.perform _)) _
              rw [Program.lift_perform]
              apply (keeps_perform _).mono
              · intro plan hplan
                change plan.toPlanContent = _ at hplan
                rw [hplan]
                exact hproduct
              · exact ⟨howned, hproduct⟩
        · exact fun _ => trivial
  · exact fun _ => trivial

theorem keeps_plan (h : o.Thread threadId state) :
    o.Keeps (agent.planNode state) (o.Returned threadId state) := by
  unfold AgentSettings.planNode
  split
  · apply keeps_ofExcept
    intro result _
    split
    · exact ⟨h.taskId, h.owned, nofun⟩
    · apply keeps_ofExcept
      intro productId _
      apply (keeps_createPlan h productId _).bind
      intro plan hplan
      refine ⟨h.taskId, h.owned, ?_⟩
      intro x hx
      cases hx
      exact hplan
  · trivial

theorem keeps_approval (h : o.Thread threadId state) (resume : Option ResumeValue) :
    o.Keeps (approvalNode state resume) (o.Returned threadId state) := by
  unfold approvalNode
  split
  · trivial
  next interaction hinteraction =>
  split
  · exact h.shown interaction hinteraction
  split
  · trivial
  apply keeps_call (by trivial)
  · intro approval _
    cases approval with
    | none => trivial
    | some approval =>
        change o.Keeps (if _ then _ else _) _
        split
        · exact keeps_report (state.decided .rejected _)
            ⟨h.taskId, h.owned, h.shown⟩
        · apply keeps_call (by trivial)
          · exact fun receipt _ => keeps_report (state.decided .completed _)
              ⟨h.taskId, h.owned, h.shown⟩
          · exact fun _ => trivial
  · exact fun _ => trivial

/-- Every node stays with the merchant of its thread. -/
theorem keeps_node (h : o.Thread threadId state) (node : GraphNode)
    (resume : Option ResumeValue) :
    o.Keeps (agent.node node state resume) (o.Returned threadId state) := by
  cases node with
  | scope => exact keeps_scope h resume
  | metrics => exact keeps_metrics h
  | model => exact keeps_model h
  | tools => exact keeps_tools h
  | validate => exact keeps_validate h
  | plan => exact keeps_plan h
  | approval => exact keeps_approval h resume

end Nodes

section Runs

variable {o} {agent : AgentSettings} {threadId merchantId : String} {checkpoint : Checkpoint}

theorem Stored.commit (h : o.Stored threadId checkpoint) (node : GraphNode) {result : NodeResult}
    (hresult : o.Returned threadId checkpoint.state result) :
    o.Stored threadId (checkpoint.commit node result) := by
  cases result with
  | update next => exact ⟨hresult, nofun⟩
  | interrupt interaction =>
      refine ⟨h.thread, ?_⟩
      intro x hx
      cases hx
      exact hresult

/-- A run of the graph stays with the merchant of its thread. -/
theorem keeps_runFrom (limit : ℕ) : ∀ {checkpoint : Checkpoint} (resume : Option ResumeValue),
    o.Stored threadId checkpoint →
      o.Keeps (agent.runFrom threadId limit checkpoint resume) (o.Stored threadId) := by
  induction limit with
  | zero => exact fun _ _ => trivial
  | succ limit ih =>
      intro checkpoint resume h
      unfold AgentSettings.runFrom
      split
      · exact h
      next node hnext =>
      apply keeps_call (by trivial)
      · intro _ _
        apply (keeps_node h.thread node resume).bind
        intro result hresult
        have hcommit := h.commit node hresult
        apply keeps_call (by exact hcommit)
        · intro _ _
          cases result with
          | interrupt interaction => exact hcommit
          | update next => exact ih none hcommit
        · exact fun _ => trivial
      · exact fun _ => trivial

theorem Stored.outcome (h : o.Stored threadId checkpoint)
    (howned : o.task threadId = some merchantId) :
    o.Outcome merchantId checkpoint.outcome := by
  have hmerchant : checkpoint.state.merchantId = merchantId :=
    Option.some.inj (h.thread.owned.symm.trans howned)
  subst hmerchant
  intro x hx
  unfold Checkpoint.outcome at hx
  split at hx
  · next interaction hinterrupt =>
      cases hx
      exact h.interrupted _ hinterrupt
  · exact h.thread.shown x hx

theorem keeps_invoke (limit : ℕ) (h : o.Stored threadId checkpoint)
    (howned : o.task threadId = some merchantId) (resume : Option ResumeValue) :
    o.Keeps (agent.invoke limit threadId checkpoint resume) (o.Outcome merchantId) :=
  (keeps_runFrom limit resume h).bind fun _ hresult => hresult.outcome howned

theorem Record.thread {task : TaskRecord} (h : o.Record task) :
    o.Stored task.taskId task.initialCheckpoint :=
  ⟨⟨rfl, h.owned, nofun⟩, nofun⟩

theorem keeps_startThread (limit : ℕ) {task : TaskRecord} (h : o.Record task)
    (resumeKind : Option ResumeKind) :
    o.Keeps (agent.startThread limit task resumeKind) (o.Outcome task.merchantId) := by
  unfold AgentSettings.startThread
  split
  · trivial
  · apply keeps_call (by exact h.thread)
    · exact fun _ _ => keeps_invoke limit h.thread h.owned none
    · exact fun _ => trivial

theorem keeps_resumeThread (limit : ℕ) (h : o.Stored threadId checkpoint)
    (howned : o.task threadId = some merchantId) (resumeKind : Option ResumeKind)
    (resumeId : Option String) :
    o.Keeps (agent.resumeThread limit threadId resumeKind resumeId checkpoint)
      (o.Outcome merchantId) := by
  unfold AgentSettings.resumeThread
  split
  · next interaction hinterrupt =>
      split
      · intro x hx
        cases hx
        have hmerchant : checkpoint.state.merchantId = merchantId :=
          Option.some.inj (h.thread.owned.symm.trans howned)
        exact hmerchant ▸ h.interrupted interaction hinterrupt
      split
      · trivial
      · exact keeps_invoke limit h howned _
  · split
    · trivial
    · exact keeps_invoke limit h howned none

/-- A run of the orchestrator stays with the merchant of the record. -/
theorem keeps_orchestrator {task : TaskRecord} (h : o.Record task)
    (resumeKind : Option ResumeKind) (resumeId : Option String) :
    o.Keeps (agent.orchestrator task resumeKind resumeId) (o.Outcome task.merchantId) := by
  apply Keeps.handle (W := o.Outcome task.merchantId)
  · unfold AgentSettings.run
    split
    · trivial
    apply keeps_call (by trivial)
    · intro found hfound
      cases found with
      | none => exact keeps_startThread _ h resumeKind
      | some checkpoint => exact keeps_resumeThread _ hfound h.owned resumeKind resumeId
    · exact fun _ => trivial
  · exact fun _ houtcome => houtcome
  · exact fun _ => trivial

end Runs

section Handlers

variable {o} {agent : AgentSettings} {payload : QueueMessage} {task : TaskRecord}

theorem shows_of_resumes {merchantId : String} {x : Interaction} (h : x.resumes = true) :
    o.Shows merchantId x := by
  cases x with
  | inputRequired candidates | approvalRequired => cases h
  | inputResume productId | approvalResume approvalId | retryResume resumeId => trivial

/-- A record stays owned when its interaction does. -/
theorem Record.with (h : o.Record task) {task' : TaskRecord} (htask : task'.taskId = task.taskId)
    (hmerchant : task'.merchantId = task.merchantId)
    (hshown : ∀ x, task'.interaction = some x → o.Shows task.merchantId x) : o.Record task' := by
  refine ⟨?_, ?_⟩
  · rw [htask, hmerchant]
    exact h.owned
  · rw [hmerchant]
    exact hshown

theorem keeps_markRunning (h : o.Record task) : o.Keeps (markRunning task payload) o.Record := by
  have hstarted : o.Record (task.started payload) := h.with rfl rfl h.shown
  apply keeps_call (by exact hstarted)
  · exact fun _ _ => keeps_call (by trivial) (fun _ _ => hstarted) fun _ => trivial
  · exact fun _ => trivial

theorem keeps_prepareRun (payload : QueueMessage) :
    o.Keeps (prepareRun payload) fun found => ∀ task, found = some task → o.Record task := by
  have hnone : ∀ task, (none : Option TaskRecord) = some task → o.Record task := by
    intro task heq
    cases heq
  have hack : o.Keeps
      (TaskCall.ack.perform >>= fun _ => (pure none : TaskProgram (Option TaskRecord)))
      fun found => ∀ task, found = some task → o.Record task :=
    keeps_call (by trivial) (fun _ _ => hnone) fun _ => trivial
  apply keeps_call (by trivial)
  · intro found hfound
    cases found with
    | none => exact keeps_call (by trivial) (fun _ _ => hnone) fun _ => trivial
    | some task =>
        change o.Keeps (if _ then _ else _) _
        split
        · exact hack
        split
        · exact hack
        split
        · exact hack
        · apply (keeps_markRunning hfound.2).bind
          intro started hstarted task' heq
          cases heq
          exact hstarted
  · exact fun _ => trivial

theorem keeps_report_approval (outcome : RunOutcome) :
    o.Keeps (reportApprovalRequired task outcome) fun _ => True := by
  unfold reportApprovalRequired
  split
  · exact (keeps_perform (by trivial)).mono fun _ _ => trivial
  · trivial

theorem keeps_executeRun (h : o.Record task) :
    o.Keeps (executeRun agent.orchestrator payload task) fun _ => True := by
  apply (keeps_orchestrator h _ _).bind
  intro outcome houtcome
  apply keeps_call
  · exact h.with rfl rfl houtcome
  · intro _ _
    apply (keeps_report_approval outcome).bind
    intro _ _
    apply keeps_call (by trivial)
    · exact fun _ _ => (keeps_perform (by trivial)).mono fun _ _ => trivial
    · exact fun _ => trivial
  · exact fun _ => trivial

/-- The last calls of a handler. -/
theorem keeps_settle (taskId : String) (event : TaskEvent) {c : TaskCall} (hc : o.May c) :
    o.Keeps ((TaskCall.appendEvent taskId event).perform >>= fun _ => c.perform) fun _ => True :=
  keeps_call (by trivial) (fun _ _ => (keeps_perform hc).mono fun _ _ => trivial) fun _ => trivial

theorem keeps_handleFailure (settings : Settings) (exc : Exn) (graphStarted : Bool) :
    o.Keeps (handleFailure settings payload exc graphStarted) fun _ => True := by
  apply keeps_call (by trivial)
  · intro found hfound
    cases found with
    | none => exact (keeps_perform (by trivial)).mono fun _ _ => trivial
    | some task =>
        have hfailed : ∀ status, o.Record (task.failedRun payload exc graphStarted status) :=
          fun status => hfound.2.with rfl rfl hfound.2.shown
        change o.Keeps (if _ then _ else _) _
        split
        · apply keeps_call (by exact hfailed .retrying)
          · intro _ _
            apply keeps_call (by trivial)
            · exact fun _ _ => keeps_settle _ _ (by trivial)
            · intro _
              apply keeps_call
              · exact (hfailed .retrying).with rfl rfl fun x hx =>
                  shows_of_resumes (resumes_resumeInteraction hx)
              · exact fun _ _ => keeps_settle _ _ (by trivial)
              · exact fun _ => trivial
          · exact fun _ => trivial
        · apply keeps_call (by exact hfailed .failed)
          · exact fun _ _ => keeps_settle _ _ (by trivial)
          · exact fun _ => trivial
  · exact fun _ => trivial

/-- A message handler keeps to the merchant of its task. -/
theorem keeps_handleMessage (settings : Settings) (body : Body) :
    o.Keeps (handleMessage settings agent.orchestrator body) fun _ => True := by
  cases body with
  | error e => exact (keeps_perform (by trivial)).mono fun _ _ => trivial
  | ok payload =>
      apply keeps_call (by trivial)
      · intro acquired _
        have hrelease : o.Keeps (releaseLease payload.taskId) fun _ => True :=
          keeps_call (by trivial) (fun _ _ => trivial) fun _ => trivial
        have hunder :
            o.Keeps (runUnderLease settings agent.orchestrator payload) fun _ => True := by
          apply (keeps_prepareRun payload).handle
          · intro found hfound
            cases found with
            | none => trivial
            | some task =>
                exact (keeps_executeRun (hfound task rfl)).handle (fun _ _ => trivial)
                  fun exc => keeps_handleFailure settings exc true
          · exact fun exc => keeps_handleFailure settings exc false
        cases acquired with
        | false =>
            apply keeps_call (by trivial)
            · exact fun _ _ => (keeps_perform (by trivial)).mono fun _ _ => trivial
            · exact fun _ => (keeps_perform (by trivial)).mono fun _ _ => trivial
        | true =>
            apply hunder.handle
            · exact fun _ _ => hrelease.handle (fun _ _ => trivial) fun _ => trivial
            · exact fun _ => hrelease.handle (fun _ _ => trivial) fun _ => trivial
      · exact fun _ => trivial

end Handlers

end Owners

end CommerceAgent
