import CommerceAgent.Agent.Graph
import CommerceAgent.Tasks.Creation

/-!
# Who owns what

`Owners` names the merchant of each task and of each product. A world is `Owned` when
everything in it that names a task or a product names its merchant too, or shows only what
the merchant of the task owns; an idempotency key belongs to the merchant that it begins
with. A call that writes only such things keeps the world owned, and what it reads from an
owned world is owned.
-/

namespace CommerceAgent

open Effects Relational

/-- The merchants of the tasks and of the products. -/
structure Owners where
  task : String → Option String
  product : String → Option String

namespace Owners

variable (o : Owners)

/-- The merchant owns the products that the interaction shows. -/
def Shows (merchantId : String) : Interaction → Prop
  | .inputRequired candidates =>
      ∀ candidate ∈ candidates, o.product candidate.productId = some merchantId
  | .approvalRequired _ _ _ productId .. => o.product productId = some merchantId
  | .inputResume _ | .approvalResume _ | .retryResume _ => True

/-- The record names the merchant of its task, and shows products of this merchant. -/
structure Record (task : TaskRecord) : Prop where
  owned : o.task task.taskId = some task.merchantId
  shown : ∀ x, task.interaction = some x → o.Shows task.merchantId x

/-- The plan names the merchant of its task and of its product. -/
structure Plan (content : PlanContent) : Prop where
  task : o.task content.taskId = some content.merchantId
  product : o.product content.productId = some content.merchantId

/-- The graph thread works for the merchant of its task. -/
structure Thread (threadId : String) (state : AgentState) : Prop where
  taskId : state.taskId = threadId
  owned : o.task threadId = some state.merchantId
  shown : ∀ x, state.interaction = some x → o.Shows state.merchantId x

/-- The checkpoint is one of a thread, at whose interrupt it shows products of the merchant. -/
structure Stored (threadId : String) (checkpoint : Checkpoint) : Prop where
  thread : o.Thread threadId checkpoint.state
  interrupted : ∀ x, checkpoint.interrupt = some x → o.Shows checkpoint.state.merchantId x

/-- The key begins with the merchant of the task. -/
def Key (key taskId : String) : Prop :=
  ∃ merchantId client, ':' ∉ merchantId.toList ∧ key = merchantId ++ ":" ++ client ∧
    o.task taskId = some merchantId

/-- The catalogue gives each product to its merchant. -/
def Seeds (catalog : Catalog) : Prop :=
  ∀ productId row, (catalog.products.find? fun p => p.productId == productId) = some row →
    o.product productId = some row.merchantId

/-- The rows of the database name the merchants of their tasks and products. -/
structure Rows (db : Ledger) : Prop where
  products : ∀ row ∈ db.products, o.product row.productId = some row.merchantId
  plans : ∀ plan ∈ db.plans, o.Plan plan.toPlanContent
  approvals : ∀ row ∈ db.approvals, o.task row.taskId = some row.merchantId

structure Owned (w : World) : Prop where
  records : ∀ taskId task, w.records taskId = some task → task.taskId = taskId ∧ o.Record task
  keys : ∀ key taskId, w.idempotencyKeys key = some taskId → o.Key key taskId
  checkpoints : ∀ threadId checkpoint, w.checkpoints threadId = some checkpoint →
    o.Stored threadId checkpoint
  rows : o.Rows w.ledger

/-- What a repository step may write. -/
def MayWrite : LedgerCall → Prop
  | .initializeSync catalog => o.Seeds catalog
  | .insertPlan content => o.Plan content
  | _ => True

/-- What a repository step reads. -/
def Reads : (lc : LedgerCall) → Except Exn lc.Reply → Prop
  | .selectPlanOfTask taskId, .ok (some plan) => plan.taskId = taskId ∧ o.Plan plan.toPlanContent
  | .selectProduct merchantId productId, .ok (some _) => o.product productId = some merchantId
  | .insertPlan content, .ok plan => plan.toPlanContent = content
  | _, _ => True

/-- What a call may write. -/
def May : TaskCall → Prop
  | .setNew task | .saveTask _ task | .transitionTask task _ => o.Record task
  | .createScript task key => o.Record task ∧ o.Key key task.taskId
  | .putCheckpoint threadId checkpoint => o.Stored threadId checkpoint
  | .ledger lc | .graph _ lc => o.MayWrite lc
  | _ => True

/-- What an answer carries. -/
def Gives : (c : TaskCall) → Except Exn c.Reply → Prop
  | .getTask _ taskId, .ok (some task) => task.taskId = taskId ∧ o.Record task
  | .createScript _ key, .ok (taskId, false) => taskId = "" ∨ o.Key key taskId
  | .getCheckpoint threadId, .ok (some checkpoint) => o.Stored threadId checkpoint
  | .resolveProduct merchantId _, .ok items =>
      ∀ item ∈ items, o.product item.productId = some merchantId
  | .ledger lc, r | .graph _ lc, r => o.Reads lc r
  | _, _ => True

section Steps

variable {o : Owners} {settings : Settings} {orchestrator : Orchestrator} {i : ℕ} {c : TaskCall}
  {ch : TaskChoice} {w w' : World} {r : Except Exn c.Reply}

/-- A key tells the merchant that it belongs to. -/
theorem eq_of_merchantKey {merchantId merchantId' client client' : String}
    (hcolon : ':' ∉ merchantId.toList) (hcolon' : ':' ∉ merchantId'.toList)
    (h : merchantId ++ ":" ++ client = merchantId' ++ ":" ++ client') :
    merchantId = merchantId' := by
  have hlist := congrArg String.toList h
  simp only [String.toList_append, List.append_assoc] at hlist
  exact String.toList_inj.1 (eq_of_append_separator hcolon hcolon' hlist).1

theorem Key.owned {merchantId client taskId : String} (hcolon : ':' ∉ merchantId.toList)
    (h : o.Key (merchantId ++ ":" ++ client) taskId) : o.task taskId = some merchantId := by
  obtain ⟨merchantId', client', hcolon', hkey, howned⟩ := h
  rw [eq_of_merchantKey hcolon hcolon' hkey]
  exact howned

theorem Owned.fresh : o.Owned World.fresh where
  records _ _ htask := by cases htask
  keys _ _ hkey := by cases hkey
  checkpoints _ _ hstored := by cases hstored
  rows := ⟨fun _ hrow => absurd hrow Table.not_mem_empty,
    fun _ hplan => absurd hplan Table.not_mem_empty,
    fun _ hrow => absurd hrow Table.not_mem_empty⟩

theorem Rows.seed {catalog : Catalog} {db : Ledger} (h : o.Rows db) (hseeds : o.Seeds catalog) :
    o.Rows (seedSync catalog db) where
  products row hrow := by
    rcases Ledger.Invariant.mem_of_mem_seed hrow with hrow | ⟨hfind, -⟩
    · exact h.products row hrow
    · exact hseeds row.productId row hfind
  plans := h.plans
  approvals := h.approvals

/-- A repository step that writes what is owned keeps the database owned. -/
theorem Rows.writes {lc : LedgerCall} {db db' : Ledger} (h : o.Rows db) (hmay : o.MayWrite lc)
    (hwrites : Writes lc db db') : o.Rows db' := by
  cases hwrites with
  | nothing => exact h
  | seed => exact h.seed hmay
  | plan insert =>
      refine ⟨h.products, ?_, h.approvals⟩
      intro plan hplan
      rcases (Table.mem_of_insert? insert).1 hplan with hplan | rfl
      · exact h.plans plan hplan
      · exact hmay
  | @approval plan decision approvalId db approvals mem insert =>
      refine ⟨h.products, h.plans, ?_⟩
      intro row hrow
      rcases (Table.mem_of_insert? insert).1 hrow with hrow | rfl
      · exact h.approvals row hrow
      · exact (h.plans plan mem).task
  | receipt =>
      refine ⟨?_, h.plans, h.approvals⟩
      intro row hrow
      obtain ⟨row', hrow', ⟨-, -, -, rfl⟩ | ⟨-, rfl⟩⟩ := mem_updateProduct.1 hrow
      · exact h.products row' hrow'
      · exact h.products row hrow'

theorem Rows.product {db : Ledger} (h : o.Rows db) {merchantId productId : String}
    {found : String × ℕ} (hselect : selectProduct merchantId productId db = some found) :
    o.product productId = some merchantId := by
  obtain ⟨row, hrow, rfl, rfl, -, -⟩ := mem_of_selectProduct hselect
  exact h.products row hrow

/-- What a repository step reads from an owned database is owned. -/
theorem Rows.reads {lc : LedgerCall} {token : String} {db db' : Ledger} {reply : lc.Reply}
    (h : o.Rows db) (hrun : lc.execute token db = .ok (reply, db')) : o.Reads lc (.ok reply) := by
  cases lc with
  | selectPlanOfTask taskId =>
      cases reply with
      | none => trivial
      | some plan =>
          simp only [LedgerCall.execute, Except.ok.injEq, Prod.mk.injEq] at hrun
          obtain ⟨hplan, htask⟩ := mem_of_selectPlanOfTask hrun.1
          exact ⟨htask, h.plans plan hplan⟩
  | selectProduct merchantId productId =>
      cases reply with
      | none => trivial
      | some found =>
          simp only [LedgerCall.execute, Except.ok.injEq, Prod.mk.injEq] at hrun
          exact h.product hrun.1
  | insertPlan content =>
      simp only [LedgerCall.execute, insertPlan] at hrun
      split at hrun <;> cases hrun
      rfl
  | _ => trivial

/-- A product search returns products of the merchant. -/
theorem Rows.resolves {db : Ledger} (h : o.Rows db) {text : TextOps} {merchantId query : String}
    {items : List ProductSummary} (hrun : resolveProductSync text merchantId query db = .ok items) :
    ∀ item ∈ items, o.product item.productId = some merchantId := by
  have hrows : ∀ row ∈ (db.products.rows.filter fun row => row.merchantId == merchantId).mergeSort
      fun p q => decide (p.productId ≤ q.productId), o.product row.productId = some merchantId := by
    intro row hrow
    rw [List.mem_mergeSort, List.mem_filter, beq_iff_eq] at hrow
    rw [← hrow.2]
    exact h.products row hrow.1
  unfold resolveProductSync at hrun
  dsimp only at hrun
  split at hrun
  · cases hrun
  · cases hrun
    intro item hitem
    obtain ⟨row, hrow, rfl⟩ := List.mem_map.1 hitem
    split at hrow
    · exact hrows row hrow
    · exact hrows row (List.mem_filter.1 hrow).1

/-- A call leaves the keys alone, deletes one, or maps one to the task of its record. -/
theorem keys_of_answer (h : (taskMachine settings orchestrator).answer i c ch w = some (r, w')) :
    w'.idempotencyKeys = w.idempotencyKeys ∨
      (∃ key, w'.idempotencyKeys = Function.update w.idempotencyKeys key none) ∨
      ∃ task key, c = .createScript task key ∧
        w'.idempotencyKeys = Function.update w.idempotencyKeys key (some task.taskId) := by
  rcases answer_cases h with rfl | ⟨reply, hrun⟩
  · exact .inl rfl
  cases c with
  | createScript task key =>
      simp only [TaskCall.execute] at hrun
      repeat' split at hrun
      all_goals cases hrun
      · exact .inl rfl
      · exact .inl rfl
      · exact .inr (.inr ⟨task, key, rfl, rfl⟩)
  | deleteKey key =>
      cases hrun
      exact .inr (.inl ⟨key, rfl⟩)
  | setNew task | transitionTask task status | acquireTaskLease taskId ttl
  | releaseTaskLease taskId =>
      simp only [TaskCall.execute] at hrun
      repeat' split at hrun
      all_goals
        cases hrun
        exact .inl rfl
  | reject requeue =>
      cases hrun
      cases requeue <;> simp [World.deadLetter, World.requeue] <;> split <;> exact .inl rfl
  | resolveProduct merchantId query | getMetrics merchantId productId | ledger lc
  | graph threadId lc =>
      obtain ⟨items, -, heq⟩ := exists_of_map_ok hrun
      cases heq
      exact .inl rfl
  | _ =>
      cases hrun
      exact .inl rfl

/-- The records after a call: each was there before, or is the one that the call stores. -/
theorem Owned.records_answer (hw : o.Owned w) (hmay : o.May c)
    (h : (taskMachine settings orchestrator).answer i c ch w = some (r, w')) :
    ∀ taskId task, w'.records taskId = some task → task.taskId = taskId ∧ o.Record task := by
  intro taskId task htask
  rcases records_of_answer h with hsame | ⟨written, hwritten, hstored⟩
  · exact hw.records taskId task (hsame ▸ htask)
  · rw [hstored, World.store_records] at htask
    split at htask
    · next heq =>
        cases htask
        refine ⟨heq.symm, ?_⟩
        cases c with
        | setNew stored | saveTask site stored | transitionTask stored status =>
            cases hwritten
            exact hmay
        | createScript stored key =>
            cases hwritten
            exact hmay.1
        | _ => cases hwritten
    · exact hw.records taskId task htask

theorem Owned.keys_answer (hw : o.Owned w) (hmay : o.May c)
    (h : (taskMachine settings orchestrator).answer i c ch w = some (r, w')) :
    ∀ key taskId, w'.idempotencyKeys key = some taskId → o.Key key taskId := by
  intro key taskId hkey
  rcases keys_of_answer h with hsame | ⟨deleted, hdeleted⟩ | ⟨task, mapped, rfl, hmapped⟩
  · exact hw.keys key taskId (hsame ▸ hkey)
  · rw [hdeleted] at hkey
    by_cases heq : key = deleted
    · rw [heq, Function.update_self] at hkey
      cases hkey
    · rw [Function.update_of_ne heq] at hkey
      exact hw.keys key taskId hkey
  · rw [hmapped] at hkey
    by_cases heq : key = mapped
    · rw [heq, Function.update_self] at hkey
      cases hkey
      exact heq ▸ hmay.2
    · rw [Function.update_of_ne heq] at hkey
      exact hw.keys key taskId hkey

theorem Owned.checkpoints_answer (hw : o.Owned w) (hmay : o.May c)
    (h : (taskMachine settings orchestrator).answer i c ch w = some (r, w')) :
    ∀ threadId checkpoint, w'.checkpoints threadId = some checkpoint →
      o.Stored threadId checkpoint := by
  intro threadId checkpoint hstored
  rcases checkpoints_of_answer h with hsame | ⟨threadId', put, rfl, hput⟩
  · exact hw.checkpoints threadId checkpoint (hsame ▸ hstored)
  · rw [hput] at hstored
    by_cases heq : threadId = threadId'
    · rw [heq, Function.update_self] at hstored
      cases hstored
      exact heq ▸ hmay
    · rw [Function.update_of_ne heq] at hstored
      exact hw.checkpoints threadId checkpoint hstored

theorem Owned.rows_answer (hw : o.Owned w) (hmay : o.May c)
    (h : (taskMachine settings orchestrator).answer i c ch w = some (r, w')) :
    o.Rows w'.ledger := by
  rcases writes_of_answer h with hsame | ⟨lc, hlc, hwrites⟩
  · exact hsame ▸ hw.rows
  · cases c with
    | ledger lc' | graph threadId lc' =>
        cases hlc
        exact hw.rows.writes hmay hwrites
    | _ => cases hlc

/-- A call that writes what is owned keeps the world owned. -/
theorem Owned.answer (hw : o.Owned w) (hmay : o.May c)
    (h : (taskMachine settings orchestrator).answer i c ch w = some (r, w')) : o.Owned w' where
  records := hw.records_answer hmay h
  keys := hw.keys_answer hmay h
  checkpoints := hw.checkpoints_answer hmay h
  rows := hw.rows_answer hmay h

/-- What a call is answered in an owned world is owned. -/
theorem Owned.gives (hw : o.Owned w)
    (h : (taskMachine settings orchestrator).answer i c ch w = some (r, w')) : o.Gives c r := by
  cases r with
  | error e => cases c <;> first | trivial | (rename_i lc; cases lc <;> trivial)
  | ok reply =>
      have hrun := execute_of_answer h
      cases c with
      | getTask site taskId =>
          cases hrun
          cases htask : w.records taskId with
          | none => trivial
          | some task => exact hw.records taskId task htask
      | createScript task key =>
          simp only [TaskCall.execute] at hrun
          split at hrun
          · next taskId hkey =>
              cases hrun
              exact .inr (hw.keys key taskId hkey)
          · split at hrun <;> cases hrun
            · exact .inl rfl
            · trivial
      | getCheckpoint threadId =>
          cases hrun
          cases hstored : w.checkpoints threadId with
          | none => trivial
          | some checkpoint => exact hw.checkpoints threadId checkpoint hstored
      | resolveProduct merchantId query =>
          obtain ⟨items, hitems, heq⟩ := exists_of_map_ok hrun
          cases heq
          exact hw.rows.resolves hitems
      | ledger lc | graph threadId lc =>
          obtain ⟨b, hread, heq⟩ := exists_of_map_ok hrun
          cases heq
          exact hw.rows.reads hread
      | _ => trivial

/-- A change that forgets records and keys, and leaves the rest, keeps the world owned. -/
theorem Owned.forget (hw : o.Owned w)
    (hrecords : ∀ taskId, w'.records taskId = w.records taskId ∨ w'.records taskId = none)
    (hkeys : ∀ key, w'.idempotencyKeys key = w.idempotencyKeys key ∨
      w'.idempotencyKeys key = none)
    (hcheckpoints : w'.checkpoints = w.checkpoints) (hledger : w'.ledger = w.ledger) :
    o.Owned w' where
  records taskId task htask := by
    rcases hrecords taskId with heq | heq
    · exact hw.records taskId task (heq ▸ htask)
    · rw [heq] at htask
      cases htask
  keys key taskId hkey := by
    rcases hkeys key with heq | heq
    · exact hw.keys key taskId (heq ▸ hkey)
    · rw [heq] at hkey
      cases hkey
  checkpoints := hcheckpoints ▸ hw.checkpoints
  rows := hledger ▸ hw.rows

theorem Owned.environment (hw : o.Owned w) {e : TaskEnvironment} (h : e.apply w = some w') :
    o.Owned w' :=
  hw.forget (records_of_environment h) (fun key => (keys_of_environment h key).imp_right And.right)
    (checkpoints_of_environment h) (ledger_of_environment h)

theorem Owned.accept (hw : o.Owned w) {q : TaskRequest} (h : q.accept i w = some w') :
    o.Owned w' := by
  have hkeys : w'.idempotencyKeys = w.idempotencyKeys := by
    unfold TaskRequest.accept at h
    split at h
    · split at h <;> cases h
      rfl
    · cases h
      rfl
  exact hw.forget (fun taskId => .inl (by rw [records_of_accept h]))
    (fun key => .inl (by rw [hkeys]))
    (checkpoints_of_accept h) (ledger_of_accept h)

theorem Owned.requeue (hw : o.Owned w) : o.Owned (w.requeue i) := by
  have hkeys : (w.requeue i).idempotencyKeys = w.idempotencyKeys := by
    unfold World.requeue
    split <;> rfl
  exact hw.forget (fun taskId => .inl (by rw [World.requeue_records]))
    (fun key => .inl (by rw [hkeys]))
    (w.requeue_checkpoints i) (w.requeue_ledger i)

end Steps

end Owners

end CommerceAgent
