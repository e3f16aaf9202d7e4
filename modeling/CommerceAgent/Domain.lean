import Mathlib.Data.Int.Notation
import Mathlib.Data.Nat.Notation

/-!
# Domain values

The records of the task store, the messages of the queue and the rows of the
commerce database. Timestamps are left out: nothing the program decides reads
them. The `interaction` dictionaries of the source are tagged by their `type`
entry; here the tag is the constructor.
-/

namespace CommerceAgent

inductive TaskStatus where
  | queued
  | running
  | retrying
  | awaitingInput
  | awaitingApproval
  | rejected
  | completed
  | failed
  deriving DecidableEq, Repr

inductive ApprovalDecision where
  | approve
  | reject
  deriving DecidableEq, Repr

inductive RunStatus where
  | completed
  | awaitingInput
  | awaitingApproval
  | rejected
  deriving DecidableEq, Repr

/-- The `resume_kind` strings; any string can be in a message that is decoded. -/
inductive ResumeKind where
  | retry
  | input
  | approval
  | other (kind : String)
  deriving DecidableEq, Repr

/-- A task identifier over an alphabet without `:`, as the URL-safe tokens of
`secrets.token_urlsafe` are. -/
structure TaskId where
  val : String
  colonFree : ':' ∉ val.toList

/-- The columns of a product that the scope search returns. -/
structure ProductSummary where
  productId : String
  name : String
  version : ℕ
  deriving DecidableEq, Repr

structure ProductPatch where
  field : String
  newValue : String
  reason : String
  deriving DecidableEq, Repr

/-- A plan apart from its identifier. -/
structure PlanContent where
  taskId : String
  merchantId : String
  productId : String
  planVersion : ℤ
  actionId : String
  field : String
  beforeValue : String
  afterValue : String
  productVersion : ℕ
  reason : String
  deriving DecidableEq, Repr

structure ActionPlan extends PlanContent where
  planId : String
  deriving DecidableEq, Repr

structure ActionReceipt where
  receiptId : String
  idempotencyKey : String
  merchantId : String
  productId : String
  actionId : String
  productVersion : ℕ
  applied : Bool
  deriving DecidableEq, Repr

/-- The dictionaries stored in a record's `interaction`. -/
inductive Interaction where
  | inputRequired (candidates : List ProductSummary)
  | approvalRequired (planId : String) (planVersion : ℤ) (actionId productId : String)
      (productVersion : ℕ) (before after reason : String)
  | inputResume (productId : String)
  | approvalResume (approvalId : String)
  | retryResume (resumeId : String)
  deriving DecidableEq, Repr

structure TaskRecord where
  taskId : String
  sessionId : String
  traceId : String
  prompt : String
  merchantId : String := "demo-merchant"
  productId : Option String := none
  status : TaskStatus := .queued
  attempt : ℤ := 0
  pendingAttempt : Option ℤ := none
  pendingResumeKind : Option ResumeKind := none
  pendingResumeId : Option String := none
  result : Option String := none
  interaction : Option Interaction := none
  errorCode : Option String := none
  errorMessage : Option String := none
  deriving DecidableEq, Repr

structure QueueMessage where
  taskId : String
  sessionId : String
  traceId : String
  attempt : ℤ := 0
  resumeKind : Option ResumeKind := none
  resumeId : Option String := none
  deriving DecidableEq, Repr

structure RunOutcome where
  status : RunStatus
  result : Option String := none
  interaction : Option Interaction := none
  deriving DecidableEq, Repr

/-- The truth value of an optional string: `None` and `""` are false. -/
def truthy : Option String → Bool
  | some s => s != ""
  | none => false

end CommerceAgent
