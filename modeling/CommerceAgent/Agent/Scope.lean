import CommerceAgent.Agent.Runs

/-!
# The scope of the model

The merchant and the product of a graph thread are out of the model's reach: no node
changes them once the scope node has set the product, the tools that name them run with
them only, and the one thing that the nodes before the approval write is the plan of the
task.
-/

namespace CommerceAgent

open Effects Relational

/-- The merchant has the product. -/
def Ledger.HasProduct (db : Ledger) (merchantId productId : String) : Prop :=
  ∃ row ∈ db.products, row.merchantId = merchantId ∧ row.productId = productId

theorem Ledger.HasProduct.grows {db db' : Ledger} {merchantId productId : String}
    (h : db.HasProduct merchantId productId) (hgrows : db.Grows db') :
    db'.HasProduct merchantId productId := by
  obtain ⟨row, hrow, hmerchant, hproduct⟩ := h
  obtain ⟨row', hrow', hproduct', hmerchant', -⟩ := hgrows.products row hrow
  exact ⟨row', hrow', hmerchant'.trans hmerchant, hproduct'.trans hproduct⟩

theorem hasProduct_of_getMetrics {merchantId productId : String} {metrics metrics' : Metrics}
    {db : Ledger} (h : getMetricsSync merchantId productId metrics db = .ok metrics') :
    db.HasProduct merchantId productId := by
  unfold getMetricsSync at h
  split at h
  · cases h
  · next product hselect =>
      obtain ⟨row, hrow, -⟩ := Option.map_eq_some_iff.1 hselect
      obtain ⟨hmem, hkeys⟩ := Table.mem_of_select hrow
      rw [Bool.and_eq_true, beq_iff_eq, beq_iff_eq] at hkeys
      exact ⟨row, hmem, hkeys⟩

/-- One plan is added: the first of its task, for the merchant and the product of the state. -/
def InsertsPlan (state : AgentState) (db db' : Ledger) : Prop :=
  ∃ plan plans, plan.taskId = state.taskId ∧ plan.merchantId = state.merchantId ∧
    state.productId = some plan.productId ∧ (∀ p ∈ db.plans, p.taskId ≠ state.taskId) ∧
      db.plans.insert? plan = some plans ∧ db' = { db with plans }

theorem productId_of_require {state : AgentState} {productId : String}
    (h : requireProductId state = .ok productId) : state.productId = some productId := by
  unfold requireProductId at h
  split at h
  · next hsome =>
      split at h <;> cases h
      exact hsome
  · cases h

/-- A scoped tool that passes the checks carries the merchant and the product. -/
theorem carries_of_checkScope {state : AgentState} {productId : String} {call : ToolCall}
    (h : checkScope state productId call = .ok ()) (hname : call.name ∈ scopedTools) :
    call.carries "merchant_id" state.merchantId ∧ call.carries "product_id" productId := by
  rw [checkScope, if_pos hname] at h
  split at h
  · cases h
  · next hmerchant =>
      split at h
      · cases h
      · next hproduct => exact ⟨not_not.1 hmerchant, not_not.1 hproduct⟩

namespace AgentSettings

section Reach

variable {agent : AgentSettings} {H : Set TaskExchange} {state next : AgentState}
  {node : GraphNode} {threadId : String} {checkpoint : Checkpoint}

/-- A node keeps the merchant, and the product unless it is the scope node. -/
theorem Returns.scope (h : agent.Returns H state node (.update next)) :
    next.merchantId = state.merchantId ∧ (node ≠ .scope → next.productId = state.productId) := by
  cases h with
  | given h | resolved h hreplied | confirmed h hreplied hmem =>
      exact ⟨rfl, fun hne => absurd rfl hne⟩
  | _ => exact ⟨rfl, fun _ => rfl⟩

/-- Only the scope node leads to the metrics node, and none to the scope node. -/
theorem commit_next_notMem (checkpoint : Checkpoint) (next : AgentState) (hnode : node ≠ .scope) :
    (checkpoint.commit node (.update next)).next ∉ [some .scope, some .metrics] := by
  change nextNode node next ∉ _
  cases node with
  | scope => exact absurd rfl hnode
  | model =>
      simp only [nextNode, routeAfterModel]
      split <;> simp
  | validate =>
      simp only [nextNode, routeAfterValidation]
      split <;> simp
  | plan =>
      simp only [nextNode, routeAfterPlan]
      split <;> simp
  | metrics | tools | approval => simp [nextNode]

/-- A commit keeps the merchant, and the product once the scope node has run: no commit leads
back to it. -/
theorem commit_scope {current : Checkpoint} {result : NodeResult}
    (hnext : current.next = some node) (h : agent.Returns H current.state node result) :
    (current.commit node result).state.merchantId = current.state.merchantId ∧
      (node ≠ .scope → (current.commit node result).next ≠ some .scope ∧
        (current.commit node result).state.productId = current.state.productId) := by
  cases result with
  | update next =>
      refine ⟨h.scope.1, fun hnode => ⟨fun hscope => ?_, h.scope.2 hnode⟩⟩
      exact commit_next_notMem current next hnode (hscope ▸ List.mem_cons_self)
  | interrupt interaction =>
      refine ⟨rfl, fun hnode => ⟨fun hscope => ?_, rfl⟩⟩
      exact hnode (Option.some.inj (hnext.symm.trans hscope))

/-- The metrics are those of the product of the state. -/
def Measured (H : Set TaskExchange) (state : AgentState) : Prop :=
  ∀ metrics, state.metrics = some metrics → ∃ productId, state.productId = some productId ∧
    Replied H (.getMetrics state.merchantId productId) metrics

theorem Measured.of_eq (h : Measured H state) (hmetrics : next.metrics = state.metrics)
    (hproduct : next.productId = state.productId) (hmerchant : next.merchantId = state.merchantId) :
    Measured H next := by
  rw [Measured, hmetrics, hproduct, hmerchant]
  exact h

/-- The scope node runs before there are metrics, and the metrics stay with their product. -/
theorem Reach.measured (h : agent.Reach H threadId checkpoint) :
    (checkpoint.next ∈ [some .scope, some .metrics] → checkpoint.state.metrics = none) ∧
      Measured H checkpoint.state := by
  induction h with
  | initial h =>
      refine ⟨fun _ => rfl, ?_⟩
      intro metrics hmetrics
      cases hmetrics
  | @step checkpoint node result _ hnode hresult ih =>
      obtain ⟨hnone, hmeasured⟩ := ih
      cases hresult with
      | given h | resolved h hreplied | confirmed h hreplied hmem =>
          have hmetrics := hnone (by simp [hnode])
          refine ⟨fun _ => hmetrics, ?_⟩
          intro metrics hsome
          exact absurd (hmetrics.symm.trans hsome) (by simp)
      | asked h hreplied | shown h => exact ⟨hnone, hmeasured⟩
      | @measured productId metrics hproduct hreplied =>
          refine ⟨fun hnext => absurd hnext (commit_next_notMem _ _ (by decide)), ?_⟩
          intro metrics' hmetrics
          cases hmetrics
          exact ⟨productId, productId_of_require hproduct, hreplied⟩
      | _ =>
          exact ⟨fun hnext => absurd hnext (commit_next_notMem _ _ (by decide)),
            hmeasured.of_eq rfl rfl rfl⟩

end Reach

end AgentSettings

section Run

variable {agent : AgentSettings} {settings : Settings} {h : List (TaskConfig × TaskAction)}
  {c : TaskConfig}

/-- Nothing that a step does takes a row out of the database. -/
theorem ledger_grows_of_step {orchestrator : Orchestrator} {a : TaskAction} {c c' : TaskConfig}
    (step : (taskMachine settings orchestrator).step a c = some c') :
    c.state.ledger.Grows c'.state.ledger := by
  cases a with
  | call i ch =>
      obtain ⟨q, cl, k, r, w, -, hanswer, rfl⟩ := Machine.step_call _ step
      rcases writes_of_answer hanswer with heq | ⟨lc, -, hwrites⟩
      · exact heq ▸ .refl _
      · exact hwrites.grows
  | start i q =>
      obtain ⟨w, -, haccept, rfl⟩ := Machine.step_start _ step
      exact ledger_of_accept haccept ▸ .refl _
  | crash i =>
      obtain ⟨q, p, -, rfl⟩ := Machine.step_crash _ step
      exact World.requeue_ledger .. ▸ .refl _
  | environment e =>
      obtain ⟨w, he, rfl⟩ := Machine.step_environment _ step
      exact ledger_of_environment he ▸ .refl _

instance : IsPreorder World (fun w w' => w.ledger.Grows w'.ledger) where
  refl w := .refl w.ledger
  trans _ _ _ h h' := h.trans h'

/-- The product whose metrics were read is the merchant's, from then on. -/
theorem hasProduct_of_replied
    (run : (taskMachine settings agent.orchestrator).Run .any (.initial World.fresh) h c)
    {merchantId productId : String} {metrics : Metrics}
    (hreplied : Replied (agent.transcripts settings h).happened (.getMetrics merchantId productId)
      metrics) : c.state.ledger.HasProduct merchantId productId := by
  obtain ⟨i, hmem⟩ := hreplied
  obtain ⟨h₁, v, h₂, rfl, hexchange⟩ := Machine.exists_of_mem_transcript hmem
  obtain ⟨ch, w, -, hanswer⟩ := Machine.answer_of_exchange hexchange
  have hrun := execute_of_answer hanswer
  obtain ⟨metrics', hmetrics, -⟩ := exists_of_map_ok hrun
  have hgrows : v.1.state.ledger.Grows c.state.ledger :=
    run.related (r := fun w w' => w.ledger.Grows w'.ledger)
      (fun a c c' step => ledger_grows_of_step step) v (by simp)
  exact (hasProduct_of_getMetrics hmetrics).grows hgrows

/-- What the graph writes before the approval is the plan of the task. -/
theorem insertsPlan_of_writes {H : Set TaskExchange} {checkpoint : Checkpoint} {lc : LedgerCall}
    {db db' : Ledger} (hstep : AgentSettings.LedgerStep H checkpoint lc)
    (hwrites : Writes lc db db') (happroval : checkpoint.next ≠ some .approval) :
    db' = db ∨ InsertsPlan checkpoint.state db db' := by
  cases hwrites with
  | nothing => exact .inl rfl
  | seed => exact absurd hstep id
  | @plan content planId db plans insert =>
      obtain ⟨-, diagnosis, productId, patch, description, version, -, -, hproduct, rfl⟩ := hstep
      refine .inr ⟨_, plans, rfl, rfl, productId_of_require hproduct, ?_, insert, rfl⟩
      intro p hp
      exact Table.free_of_insert? insert (f := fun p => p.taskId) (by simp) hp
  | approval mem insert => exact absurd hstep id
  | receipt approval_mem approved plan_mem planId unapplied product_mem merchant productId version
      field insert =>
      exact absurd hstep.1 happroval

/-- The scope of the graph threads of a run, with the transcripts of its processes. -/
structure ScopeKept (agent : AgentSettings) (g : TaskRecording) (w : World) : Prop where
  commits : ∀ i past e rest threadId checkpoint current, g i = past ++ e :: rest →
    e.call = .putCheckpoint threadId checkpoint → currentCheckpoint past = some current →
      checkpoint.state.merchantId = current.state.merchantId ∧
        (current.next ≠ some .scope → checkpoint.next ≠ some .scope ∧
          checkpoint.state.productId = current.state.productId)
  products : ∀ threadId checkpoint, w.checkpoints threadId = some checkpoint →
    checkpoint.state.metrics ≠ none → ∃ productId, checkpoint.state.productId = some productId ∧
      w.ledger.HasProduct checkpoint.state.merchantId productId
  tools : ∀ i past e rest threadId call, g i = past ++ e :: rest →
    e.call = .executeTool threadId call → call.name ∈ agent.toolNames ∧
      ∃ current productId, currentCheckpoint past = some current ∧
        current.state.productId = some productId ∧
          (call.name ∈ scopedTools → call.carries "merchant_id" current.state.merchantId ∧
            call.carries "product_id" productId)

/-- A step of a process that is no repository call of the API changes nothing in the
database, or is made for an approval, or inserts the plan of its state. -/
def WritesPlanOnly (agent : AgentSettings) (settings : Settings)
    (h : List (TaskConfig × TaskAction)) : Prop :=
  ∀ h₁ c i ch c' h₂ q (cl : TaskCall) k, h = h₁ ++ (c, .call i ch) :: h₂ →
    c.pool i = .running q (.call cl k) → (∀ lc, cl ≠ .ledger lc) →
      (taskMachine settings agent.orchestrator).step (.call i ch) c = some c' →
        c'.state.ledger = c.state.ledger ∨
          ∃ current, currentCheckpoint (agent.transcripts settings h₁ i) = some current ∧
            (current.next = some .approval ∨
              InsertsPlan current.state c.state.ledger c'.state.ledger)

theorem writesPlanOnly
    (run : (taskMachine settings agent.orchestrator).Run .any (.initial World.fresh) h c) :
    WritesPlanOnly agent settings h := by
  intro h₁ c₁ i ch c' h₂ q cl k heq hslot hapi hstep
  obtain ⟨run₁, -, -⟩ := run.before heq
  obtain ⟨r, -, hpermitted⟩ := AgentSettings.graph_call run₁ hstep hslot
  obtain ⟨q', cl', k', r', w, hslot', hanswer, rfl⟩ := Machine.step_call _ hstep
  rw [hslot, Slot.running.injEq, Program.call.injEq] at hslot'
  obtain ⟨-, rfl, -⟩ := hslot'
  rcases writes_of_answer hanswer with hsame | ⟨lc, hlc, hwrites⟩
  · exact .inl hsame
  cases cl with
  | ledger lc' => exact absurd rfl (hapi lc')
  | graph threadId lc' =>
      rw [TaskCall.ledgerCall, Option.some.injEq] at hlc
      subst hlc
      obtain ⟨checkpoint, hat, hledger⟩ := hpermitted
      by_cases happroval : checkpoint.next = some .approval
      · exact .inr ⟨checkpoint, hat.1, .inl happroval⟩
      · exact (insertsPlan_of_writes hledger hwrites happroval).imp_right fun hinserts =>
          ⟨checkpoint, hat.1, .inr hinserts⟩
  | _ => cases hlc

/-- In every run of the task system, whatever turns the model takes, the merchant and
the product of each graph thread stay as the scope node has left them, the tools run in
this scope only, and the nodes before the approval write the plan of the task at most. -/
theorem scope_isolated
    (run : (taskMachine settings agent.orchestrator).Run .any (.initial World.fresh) h c) :
    ScopeKept agent (agent.transcripts settings h) c.state ∧ WritesPlanOnly agent settings h := by
  have hsound := AgentSettings.graph_run run
  refine ⟨⟨?_, ?_, ?_⟩, writesPlanOnly run⟩
  · intro i past e rest threadId checkpoint current hpast hcall hcurrent
    have hpermitted := hsound.permitted i past e rest hpast
    rw [hcall] at hpermitted
    rcases hpermitted with ⟨hnone, -⟩ | ⟨current', node, result, hat, hnext, hresult, rfl⟩
    · rw [hcurrent] at hnone
      cases hnone
    · rw [hat.1, Option.some.injEq] at hcurrent
      subst hcurrent
      obtain ⟨hmerchant, hproduct⟩ := AgentSettings.commit_scope hnext hresult
      refine ⟨hmerchant, fun hscope => hproduct ?_⟩
      rintro rfl
      exact hscope hnext
  · intro threadId checkpoint hstored hmetrics
    obtain ⟨metrics, hsome⟩ := Option.ne_none_iff_exists'.1 hmetrics
    obtain ⟨productId, hproduct, hreplied⟩ :=
      (hsound.stored threadId checkpoint hstored).measured.2 metrics hsome
    exact ⟨productId, hproduct, hasProduct_of_replied run hreplied⟩
  · intro i past e rest threadId call hpast hcall
    have hpermitted := hsound.permitted i past e rest hpast
    rw [hcall] at hpermitted
    obtain ⟨current, hat, -, hregistered, productId, hproduct, hscope⟩ := hpermitted
    exact ⟨hregistered, current, productId, hat.1, productId_of_require hproduct,
      carries_of_checkScope hscope⟩

end Run

/-- The name of the tool that a call executes. -/
def TaskCall.executedTool : TaskCall → Option String
  | .executeTool _ call => some call.name
  | _ => none

theorem scope_isolated_demo : ∃ h c,
    (taskMachine demoSettings demoAgent.orchestrator).Run .any (.initial .fresh) h c ∧
      (demoAgent.transcripts demoSettings h 2).filterMap (fun e => e.call.executedTool) =
        ["get_metrics"] ∧
      c.state.ledger.plans.rows = [] ∧
      ScopeKept demoAgent (demoAgent.transcripts demoSettings h) c.state ∧
      WritesPlanOnly demoAgent demoSettings h := by
  have hend : ((taskMachine demoSettings demoAgent.orchestrator).exec .any demoToolActions
      (.initial .fresh)).map (fun c => c.state.ledger.plans.rows) = some [] := by decide
  obtain ⟨c, hc, hplans⟩ := Option.map_eq_some_iff.1 hend
  have run := Machine.Run.follow .nil hc
  exact ⟨_, c, run, by decide, hplans, scope_isolated run⟩

end CommerceAgent
