import CommerceAgent.Commerce.Schema
import CommerceAgent.Effects.Program

/-!
# The commerce repository

The operations of `CommerceRepository` on the plans, approvals and receipts.
`record_approval` and `apply_approved_plan` run under `BEGIN IMMEDIATE` and roll
back when they raise, so each is a function that returns either an exception or
a result with the new database. `create_plan` reads outside a write
transaction: its two `SELECT`s and its `INSERT` are three calls, and any other
operation may come between them.

The token that `secrets.token_urlsafe` returns inside an operation is a
parameter of the operation.
-/

namespace CommerceAgent

open Effects Relational

/-- `INSERT OR IGNORE` the products of a catalogue. -/
def seedSync (catalog : Catalog) (db : Ledger) : Ledger :=
  { db with products := catalog.products.foldl Table.insertOrIgnore db.products }

/-- `SELECT * FROM action_plans WHERE task_id = ?`. -/
def selectPlanOfTask (taskId : String) (db : Ledger) : Option ActionPlan :=
  db.plans.select fun p => p.taskId == taskId

/-- `SELECT description, version FROM products WHERE merchant_id = ? AND product_id = ?`. -/
def selectProduct (merchantId productId : String) (db : Ledger) : Option (String × ℕ) :=
  (db.products.select fun p => p.merchantId == merchantId && p.productId == productId).map
    fun p => (p.description, p.version)

/-- `INSERT INTO action_plans`, with the plan identifier drawn. -/
def insertPlan (content : PlanContent) (planId : String) (db : Ledger) :
    Except Exn (ActionPlan × Ledger) :=
  match db.plans.insert? { content with planId } with
  | none => .error .integrityError
  | some plans => .ok ({ content with planId }, { db with plans })

def recordApprovalSync (taskId merchantId planId : String) (planVersion : ℤ) (actionId : String)
    (decision : ApprovalDecision) (approvalId : String) (db : Ledger) :
    Except Exn (String × Ledger) :=
  match db.plans.select fun p => p.planId == planId && p.taskId == taskId with
  | none => .error (.appError "PLAN_NOT_FOUND" "行动计划不存在" 404)
  | some plan =>
    if plan.merchantId ≠ merchantId then
      .error (.appError "MERCHANT_FORBIDDEN" "不能批准其他商家的计划" 403)
    else if plan.planVersion ≠ planVersion ∨ plan.actionId ≠ actionId then
      .error (.appError "PLAN_VERSION_CONFLICT" "计划版本或动作不匹配" 409)
    else
      match db.approvals.select fun a => a.taskId == taskId with
      | some existing =>
        if existing.decision ≠ decision then
          .error (.appError "APPROVAL_CONFLICT" "任务已经提交不同审批决定" 409)
        else .ok (existing.approvalId, db)
      | none =>
        match db.approvals.insert?
            { approvalId, taskId, merchantId, planId, planVersion, actionId, decision } with
        | none => .error .integrityError
        | some approvals => .ok (approvalId, { db with approvals })

def getApprovalSync (approvalId : String) (db : Ledger) : Option ApprovalRow :=
  db.approvals.select fun a => a.approvalId == approvalId

def getApprovalForTaskSync (taskId : String) (db : Ledger) : Option ApprovalRow :=
  db.approvals.select fun a => a.taskId == taskId

/-- The new row of a product whose description a plan replaces. -/
def ProductRow.patched (plan : ActionPlan) (version : ℕ) (row : ProductRow) : ProductRow :=
  { row with description := plan.afterValue, version }

theorem patched_keys (plan : ActionPlan) (version : ℕ) :
    ∀ f ∈ productKeys, ∀ row : ProductRow, f (row.patched plan version) = f row := by
  simp [ProductRow.patched]

/-- `UPDATE products SET description = ?, version = ? WHERE merchant_id = ? AND
product_id = ? AND version = ?`. -/
def updateProduct (plan : ActionPlan) (version : ℕ) (products : Table ProductRow productKeys) :
    Table ProductRow productKeys :=
  products.update
    (fun p => p.merchantId == plan.merchantId && p.productId == plan.productId &&
      p.version == plan.productVersion)
    (ProductRow.patched plan version) (patched_keys plan version)

def applyApprovedPlanSync (approvalId receiptId : String) (db : Ledger) :
    Except Exn (ActionReceipt × Ledger) :=
  match getApprovalSync approvalId db with
  | none => .error (.appError "APPROVAL_NOT_FOUND" "审批记录不存在" 404)
  | some approval =>
    if approval.decision ≠ .approve then
      .error (.appError "ACTION_NOT_APPROVED" "计划未获批准，不能执行" 409)
    else
      match db.plans.select fun p => p.planId == approval.planId with
      | none => .error (.appError "PLAN_NOT_FOUND" "行动计划不存在" 404)
      | some plan =>
        match db.receipts.select fun r => r.idempotencyKey == idempotencyKey plan with
        | some existing => .ok (existing.toReceipt false, db)
        | none =>
          match selectProduct plan.merchantId plan.productId db with
          | none => .error (.appError "PRODUCT_NOT_FOUND" "商品不存在或不属于当前商家" 404)
          | some (_, version) =>
            if version ≠ plan.productVersion then
              .error (.appError "PRODUCT_VERSION_CONFLICT" "商品已变化，需要重新生成计划" 409)
            else if plan.field ≠ "description" then
              .error (.appError "ACTION_FIELD_FORBIDDEN" "不允许修改该字段" 403)
            else
              let row : ReceiptRow :=
                { receiptId
                  idempotencyKey := idempotencyKey plan
                  merchantId := plan.merchantId
                  productId := plan.productId
                  actionId := plan.actionId
                  productVersion := version + 1 }
              match db.receipts.insert? row with
              | none => .error .integrityError
              | some receipts =>
                .ok (row.toReceipt true,
                  { db with products := updateProduct plan (version + 1) db.products, receipts })

/-- The atomic steps of the repository. -/
inductive LedgerCall where
  | initializeSync (catalog : Catalog)
  | selectPlanOfTask (taskId : String)
  | selectProduct (merchantId productId : String)
  | insertPlan (content : PlanContent)
  | recordApproval (taskId merchantId planId : String) (planVersion : ℤ) (actionId : String)
      (decision : ApprovalDecision)
  | getApproval (approvalId : String)
  | getApprovalForTask (taskId : String)
  | applyApprovedPlan (approvalId : String)

/-- What each step returns. -/
abbrev LedgerCall.Reply : LedgerCall → Type
  | .initializeSync _ => Unit
  | .selectPlanOfTask _ => Option ActionPlan
  | .selectProduct _ _ => Option (String × ℕ)
  | .insertPlan _ => ActionPlan
  | .recordApproval .. => String
  | .getApproval _ => Option ApprovalRow
  | .getApprovalForTask _ => Option ApprovalRow
  | .applyApprovedPlan _ => ActionReceipt

/-- Run one step on the database, `token` being the token it draws. -/
def LedgerCall.execute : (c : LedgerCall) → (token : String) → Ledger →
    Except Exn (c.Reply × Ledger)
  | .initializeSync catalog, _, db => .ok ((), seedSync catalog db)
  | .selectPlanOfTask taskId, _, db => .ok (CommerceAgent.selectPlanOfTask taskId db, db)
  | .selectProduct merchantId productId, _, db =>
      .ok (CommerceAgent.selectProduct merchantId productId db, db)
  | .insertPlan content, token, db => CommerceAgent.insertPlan content token db
  | .recordApproval taskId merchantId planId planVersion actionId decision, token, db =>
      recordApprovalSync taskId merchantId planId planVersion actionId decision token db
  | .getApproval approvalId, _, db => .ok (getApprovalSync approvalId db, db)
  | .getApprovalForTask taskId, _, db => .ok (getApprovalForTaskSync taskId db, db)
  | .applyApprovedPlan approvalId, token, db => applyApprovedPlanSync approvalId token db

abbrev LedgerProgram (α : Type) := Program Exn LedgerCall LedgerCall.Reply α

/-- Perform one step, from a program of steps. -/
abbrev LedgerCall.perform (c : LedgerCall) : LedgerProgram c.Reply := Program.perform c

/-- `_create_plan_sync`: the plan of the task if there is one, and otherwise a
new plan against the product as it is read. -/
def createPlanSync (taskId merchantId productId : String) (patch : ProductPatch) :
    LedgerProgram ActionPlan := do
  let existing ← (LedgerCall.selectPlanOfTask taskId).perform
  match existing with
  | some plan => pure plan
  | none =>
    let product ← (LedgerCall.selectProduct merchantId productId).perform
    match product with
    | none => throw (.appError "PRODUCT_NOT_FOUND" "商品不存在或不属于当前商家" 404)
    | some (description, version) =>
      (LedgerCall.insertPlan
        { taskId
          merchantId
          productId
          planVersion := 1
          actionId := "update_description"
          field := patch.field
          beforeValue := description
          afterValue := patch.newValue
          productVersion := version
          reason := patch.reason }).perform

end CommerceAgent
