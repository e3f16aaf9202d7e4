import CommerceAgent.Domain
import CommerceAgent.Errors
import CommerceAgent.Relational.Table

/-!
# The commerce database

The tables of `commerce.db` that the program reads back, each with its `PRIMARY
KEY` and `UNIQUE` columns, and the rows a deployment is seeded with. A catalogue
carries the proof that its products start at version 1.
-/

namespace CommerceAgent

open Relational

structure ProductRow where
  productId : String
  merchantId : String
  name : String
  description : String
  version : ℕ
  deriving DecidableEq, Repr

structure ApprovalRow where
  approvalId : String
  taskId : String
  merchantId : String
  planId : String
  planVersion : ℤ
  actionId : String
  decision : ApprovalDecision
  deriving DecidableEq, Repr

structure ReceiptRow where
  receiptId : String
  idempotencyKey : String
  merchantId : String
  productId : String
  actionId : String
  productVersion : ℕ
  deriving DecidableEq, Repr

abbrev productKeys : List (ProductRow → String) := [ProductRow.productId]

abbrev planKeys : List (ActionPlan → String) := [ActionPlan.planId, fun p => p.taskId]

abbrev approvalKeys : List (ApprovalRow → String) := [ApprovalRow.approvalId, ApprovalRow.taskId]

abbrev receiptKeys : List (ReceiptRow → String) :=
  [ReceiptRow.receiptId, ReceiptRow.idempotencyKey]

/-- The state of the commerce database. -/
structure Ledger where
  products : Table ProductRow productKeys
  plans : Table ActionPlan planKeys
  approvals : Table ApprovalRow approvalKeys
  receipts : Table ReceiptRow receiptKeys

/-- The tables just created, without rows. -/
def Ledger.fresh : Ledger := ⟨.empty, .empty, .empty, .empty⟩

/-- The products a deployment is seeded with. -/
structure Catalog where
  products : List ProductRow
  version_one : ∀ p ∈ products, p.version = 1

def demoMerchantId : String := "demo-merchant"

def demoProductId : String := "wireless-headphones"

def secondProductId : String := "portable-speaker"

theorem demoTask_colonFree : ':' ∉ "task-1".toList := by decide

theorem demoRival_colonFree : ':' ∉ "task-2".toList := by decide

/-- Two tasks for the demonstrations. -/
def demoTaskId : TaskId := ⟨"task-1", demoTask_colonFree⟩

def demoRivalId : TaskId := ⟨"task-2", demoRival_colonFree⟩

/-- The products of `_seed_sync`. -/
def demoCatalog : Catalog where
  products :=
    [{ productId := demoProductId
       merchantId := demoMerchantId
       name := "Wireless Noise Cancelling Headphones"
       description := "Lightweight wireless headphones with active noise cancellation."
       version := 1 },
     { productId := secondProductId
       merchantId := demoMerchantId
       name := "Portable Bluetooth Speaker"
       description := "Compact speaker for travel and outdoor use."
       version := 1 }]
  version_one := by simp

/-- The description a product is seeded with. -/
def Catalog.seedDescription (catalog : Catalog) (productId : String) : Option String :=
  (catalog.products.find? fun p => p.productId == productId).map ProductRow.description

/-- The idempotency key of a plan: `merchant:task:plan_version:action`. -/
def idempotencyKey (plan : ActionPlan) : String :=
  ":".intercalate [plan.merchantId, plan.taskId, toString plan.planVersion, plan.actionId]

def ReceiptRow.toReceipt (row : ReceiptRow) (applied : Bool) : ActionReceipt :=
  { receiptId := row.receiptId
    idempotencyKey := row.idempotencyKey
    merchantId := row.merchantId
    productId := row.productId
    actionId := row.actionId
    productVersion := row.productVersion
    applied := applied }

end CommerceAgent
