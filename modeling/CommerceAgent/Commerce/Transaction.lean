import CommerceAgent.Commerce.Operations
import CommerceAgent.Effects.Alone

/-!
# The transaction of `apply_approved_plan`

`applyApprovedPlanSync` is one atomic step. Here the operation is written as the
statements it sends over its connection, each of which may raise. A `Connection`
keeps the working copy of an open transaction apart from what is committed, and
`commits_or_rolls_back` says that the statements amount to the step: they commit
what it writes, or raise and leave every table as it was.
-/

namespace CommerceAgent

open Effects Relational

/-- What is committed, and what an open transaction has made of it. -/
structure Connection where
  committed : Ledger
  working : Option Ledger := none

namespace Connection

/-- What the statements of the connection see. -/
def database (connection : Connection) : Ledger :=
  connection.working.getD connection.committed

/-- The connection after a write; it opens a transaction if none is open. -/
def write (connection : Connection) (db : Ledger) : Connection :=
  { connection with working := some db }

def commit (connection : Connection) : Connection := ⟨connection.database, none⟩

/-- The connection after `ROLLBACK`, or after it is closed. -/
def discard (connection : Connection) : Connection := { connection with working := none }

@[simp] theorem database_some (committed db : Ledger) :
    (⟨committed, some db⟩ : Connection).database = db := rfl

@[simp] theorem database_write (connection : Connection) (db : Ledger) :
    (connection.write db).database = db := rfl

@[simp] theorem committed_write (connection : Connection) (db : Ledger) :
    (connection.write db).committed = connection.committed := rfl

@[simp] theorem committed_discard (connection : Connection) :
    connection.discard.committed = connection.committed := rfl

@[simp] theorem committed_commit (connection : Connection) :
    connection.commit.committed = connection.database := rfl

end Connection

/-- The statements of `_apply_approved_plan_sync`. -/
inductive Statement where
  | beginImmediate
  | selectApproval (approvalId : String)
  | selectPlan (planId : String)
  | selectReceipt (idempotencyKey : String)
  | selectVersion (merchantId productId : String)
  | updateProduct (plan : ActionPlan) (version : ℕ)
  | insertReceipt (row : ReceiptRow)
  | commit
  | rollback
  | close

abbrev Statement.Reply : Statement → Type
  | .beginImmediate | .updateProduct .. | .insertReceipt _ | .commit | .rollback | .close => Unit
  | .selectApproval _ => Option ApprovalRow
  | .selectPlan _ => Option ActionPlan
  | .selectReceipt _ => Option ReceiptRow
  | .selectVersion .. => Option ℕ

abbrev Transaction (α : Type) := Program Exn Statement Statement.Reply α

abbrev Statement.perform (s : Statement) : Transaction s.Reply := Program.perform s

def Statement.execute : (s : Statement) → Connection → Except Exn (s.Reply × Connection)
  | .beginImmediate, connection => .ok ((), connection.write connection.committed)
  | .selectApproval approvalId, connection =>
      .ok (getApprovalSync approvalId connection.database, connection)
  | .selectPlan planId, connection =>
      .ok (connection.database.plans.select fun p => p.planId == planId, connection)
  | .selectReceipt key, connection =>
      .ok (connection.database.receipts.select fun r => r.idempotencyKey == key, connection)
  | .selectVersion merchantId productId, connection =>
      .ok ((selectProduct merchantId productId connection.database).map Prod.snd, connection)
  | .updateProduct plan version, connection =>
      .ok ((), connection.write { connection.database with
        products := CommerceAgent.updateProduct plan version connection.database.products })
  | .insertReceipt row, connection =>
      match connection.database.receipts.insert? row with
      | none => .error .integrityError
      | some receipts => .ok ((), connection.write { connection.database with receipts })
  | .commit, connection => .ok ((), connection.commit)
  | .rollback, connection | .close, connection => .ok ((), connection.discard)

/-- A statement ends as it does by itself or, but for `close`, with a fault. -/
def Statement.answer (s : Statement) (fault : Option Exn) (connection : Connection) :
    Except Exn s.Reply × Connection :=
  match s, fault with
  | .close, _ => (.ok (), connection.discard)
  | _, some e => (.error e, connection)
  | s, none =>
      match s.execute connection with
      | .ok (reply, connection') => (.ok reply, connection')
      | .error e => (.error e, connection)

/-- The receipt of a plan that takes its product to `newVersion`. -/
def receiptRow (plan : ActionPlan) (receiptId : String) (newVersion : ℕ) : ReceiptRow where
  receiptId
  idempotencyKey := idempotencyKey plan
  merchantId := plan.merchantId
  productId := plan.productId
  actionId := plan.actionId
  productVersion := newVersion

/-- What follows in `_apply_approved_plan_sync` when the plan has no receipt. -/
def applyOnce (plan : ActionPlan) (receiptId : String) : Transaction ActionReceipt := do
  let product ← (Statement.selectVersion plan.merchantId plan.productId).perform
  match product with
  | none => throw (.appError "PRODUCT_NOT_FOUND" "商品不存在或不属于当前商家" 404)
  | some version =>
    if version ≠ plan.productVersion then
      throw (.appError "PRODUCT_VERSION_CONFLICT" "商品已变化，需要重新生成计划" 409)
    else if plan.field ≠ "description" then
      throw (.appError "ACTION_FIELD_FORBIDDEN" "不允许修改该字段" 403)
    else do
      let newVersion := version + 1
      (Statement.updateProduct plan newVersion).perform
      (Statement.insertReceipt (receiptRow plan receiptId newVersion)).perform
      Statement.commit.perform
      pure ((receiptRow plan receiptId newVersion).toReceipt true)

/-- The `try` block of `_apply_approved_plan_sync`. -/
def applyInTransaction (approvalId receiptId : String) : Transaction ActionReceipt := do
  Statement.beginImmediate.perform
  let approval ← (Statement.selectApproval approvalId).perform
  match approval with
  | none => throw (.appError "APPROVAL_NOT_FOUND" "审批记录不存在" 404)
  | some approval =>
    if approval.decision ≠ .approve then
      throw (.appError "ACTION_NOT_APPROVED" "计划未获批准，不能执行" 409)
    else do
      let plan ← (Statement.selectPlan approval.planId).perform
      match plan with
      | none => throw (.appError "PLAN_NOT_FOUND" "行动计划不存在" 404)
      | some plan => do
        let existing ← (Statement.selectReceipt (idempotencyKey plan)).perform
        match existing with
        | some existing => do
          Statement.commit.perform
          pure (existing.toReceipt false)
        | none => applyOnce plan receiptId

/-- `_apply_approved_plan_sync` with its `except` and `finally` clauses. -/
def applyApprovedPlanStatements (approvalId receiptId : String) : Transaction ActionReceipt :=
  (tryCatch (applyInTransaction approvalId receiptId) fun e => do
    Statement.rollback.perform
    throw e).ensuring Statement.close.perform

/-- The operation on a connection of its own, with a fault or none for each statement. -/
def runApplyApprovedPlan (approvalId receiptId : String) (faults : ℕ → Option Exn) (db : Ledger) :
    Course Exn Statement Connection (Option Exn) ActionReceipt :=
  (applyApprovedPlanStatements approvalId receiptId).alone Statement.answer faults ⟨db, none⟩

section Rules

/-- A connection with the statements it has answered. -/
abbrev Session := Connection × List (Made Statement Connection (Option Exn))

/-- No statement has met with a fault. -/
def Faultless (log : List (Made Statement Connection (Option Exn))) : Prop :=
  ∀ m ∈ log, m.choice = none

/-- What the transaction of `apply_approved_plan` on the database `db` establishes. -/
def Transacts (approvalId receiptId : String) (db : Ledger) (p : Transaction ActionReceipt)
    (session : Session) : Prop :=
  p.Follows (aloneProtocol Statement.answer fun _ => True)
    (fun receipt session =>
      applyApprovedPlanSync approvalId receiptId db = .ok (receipt, session.1.committed))
    (fun e session => session.1.committed = db ∧
      (Faultless session.2 → applyApprovedPlanSync approvalId receiptId db = .error e)) session

variable {approvalId receiptId : String} {db : Ledger} {connection : Connection}
  {log : List (Made Statement Connection (Option Exn))}

theorem not_faultless_snoc {m : Made Statement Connection (Option Exn)} {e : Exn}
    (hm : m.choice = some e) : ¬ Faultless (log ++ [m]) := by
  intro hlog
  have hnone := hlog m (by simp)
  rw [hm] at hnone
  cases hnone

/-- A statement other than `close`, and what follows it: it meets with a fault, or it
ends as it does by itself. -/
theorem transacts_bind {s : Statement} {f : s.Reply → Transaction ActionReceipt}
    (hs : s ≠ .close) (hcommitted : connection.committed = db)
    (hok : ∀ reply connection', s.execute connection = .ok (reply, connection') →
      ∀ m, Transacts approvalId receiptId db (f reply) (connection', log ++ [m]))
    (herror : ∀ e, s.execute connection = .error e →
      applyApprovedPlanSync approvalId receiptId db = .error e) :
    Transacts approvalId receiptId db (s.perform >>= f) (connection, log) := by
  refine ⟨trivial, ?_⟩
  rintro r ⟨connection', log'⟩ ⟨fault, -, hanswer, rfl⟩
  cases fault with
  | some e =>
      have hraised : r = .error e ∧ connection' = connection := by
        cases s <;> first | exact absurd rfl hs | (cases hanswer; exact ⟨rfl, rfl⟩)
      obtain ⟨rfl, rfl⟩ := hraised
      exact ⟨hcommitted, fun hlog => absurd hlog (not_faultless_snoc rfl)⟩
  | none =>
      have hanswer : (match s.execute connection with
          | .ok (reply, connection') => (.ok reply, connection')
          | .error e => (.error e, connection)) = (r, connection') := by
        cases s <;> first | exact absurd rfl hs | exact hanswer
      cases hrun : s.execute connection with
      | error e =>
          rw [hrun] at hanswer
          cases hanswer
          exact ⟨hcommitted, fun _ => herror e hrun⟩
      | ok result =>
          rw [hrun] at hanswer
          cases hanswer
          exact hok _ _ hrun _

theorem transacts_throw {e : Exn} (hcommitted : connection.committed = db)
    (he : applyApprovedPlanSync approvalId receiptId db = .error e) :
    Transacts approvalId receiptId db (throw e) (connection, log) :=
  ⟨hcommitted, fun _ => he⟩

/-- The last `COMMIT` makes the working copy the database. -/
theorem transacts_commit {receipt : ActionReceipt} (hcommitted : connection.committed = db)
    (hsync : applyApprovedPlanSync approvalId receiptId db = .ok (receipt, connection.database)) :
    Transacts approvalId receiptId db (Statement.commit.perform >>= fun _ => pure receipt)
      (connection, log) := by
  apply transacts_bind (by simp) hcommitted
  · intro reply connection' hrun m
    cases hrun
    exact hsync
  · exact fun e hrun => by cases hrun

/-- A statement that does not fail by itself, and what follows it. -/
theorem transacts_step {s : Statement} {f : s.Reply → Transaction ActionReceipt}
    {reply : s.Reply} {connection' : Connection} (hs : s ≠ .close)
    (hcommitted : connection.committed = db)
    (hrun : s.execute connection = .ok (reply, connection'))
    (hf : ∀ log, Transacts approvalId receiptId db (f reply) (connection', log)) :
    Transacts approvalId receiptId db (s.perform >>= f) (connection, log) := by
  apply transacts_bind hs hcommitted
  · intro reply' connection'' hrun' m
    rw [hrun] at hrun'
    cases hrun'
    exact hf _
  · intro e hrun'
    rw [hrun] at hrun'
    cases hrun'

/-- A receipt that is inserted and committed. -/
theorem transacts_insertReceipt {row : ReceiptRow} (hcommitted : connection.committed = db)
    (hok : ∀ receipts, connection.database.receipts.insert? row = some receipts →
      applyApprovedPlanSync approvalId receiptId db =
        .ok (row.toReceipt true, { connection.database with receipts }))
    (herror : connection.database.receipts.insert? row = none →
      applyApprovedPlanSync approvalId receiptId db = .error .integrityError) :
    Transacts approvalId receiptId db
      ((Statement.insertReceipt row).perform >>= fun _ =>
        Statement.commit.perform >>= fun _ => pure (row.toReceipt true)) (connection, log) := by
  cases hinsert : connection.database.receipts.insert? row with
  | none =>
      have hrun : (Statement.insertReceipt row).execute connection = .error .integrityError := by
        simp [Statement.execute, hinsert]
      apply transacts_bind (by simp) hcommitted
      · intro reply connection' hrun'
        rw [hrun] at hrun'
        cases hrun'
      · intro e hrun'
        rw [hrun] at hrun'
        cases hrun'
        exact herror hinsert
  | some receipts =>
      have hrun : (Statement.insertReceipt row).execute connection =
          .ok ((), connection.write { connection.database with receipts }) := by
        simp [Statement.execute, hinsert]
      apply transacts_step (by simp) hcommitted hrun
      exact fun log => transacts_commit hcommitted (hok receipts hinsert)

theorem transacts_applyOnce {approval : ApprovalRow} {plan : ActionPlan}
    (happroval : getApprovalSync approvalId db = some approval)
    (hdecision : approval.decision = .approve)
    (hplan : (db.plans.select fun p => p.planId == approval.planId) = some plan)
    (hunapplied : (db.receipts.select fun r => r.idempotencyKey == idempotencyKey plan) = none)
    (hcommitted : connection.committed = db) (hdatabase : connection.database = db) :
    Transacts approvalId receiptId db (applyOnce plan receiptId) (connection, log) := by
  have hsync : applyApprovedPlanSync approvalId receiptId db =
      applyApprovedPlanSync approvalId receiptId db := rfl
  conv_rhs at hsync =>
    simp only [applyApprovedPlanSync, happroval, hdecision, hplan, hunapplied, ne_eq,
      not_true_eq_false, ↓reduceIte]
  apply transacts_step (by simp) hcommitted rfl
  intro log
  rw [hdatabase]
  cases hproduct : selectProduct plan.merchantId plan.productId db with
  | none => exact transacts_throw hcommitted (by simpa [hproduct] using hsync)
  | some product =>
      obtain ⟨description, version⟩ := product
      change Transacts approvalId receiptId db (if version ≠ plan.productVersion then _ else _) _
      simp only [hproduct] at hsync
      split
      · next hversion => exact transacts_throw hcommitted (by simpa [hversion] using hsync)
      next hversion =>
      split
      · next hfield =>
          exact transacts_throw hcommitted (by simpa [not_not.1 hversion, hfield] using hsync)
      next hfield =>
      rw [if_neg hversion, if_neg hfield] at hsync
      apply transacts_step (by simp) hcommitted rfl
      intro log
      rw [hdatabase]
      refine transacts_insertReceipt ((Connection.committed_write ..).trans hcommitted) ?_ ?_
      · intro receipts hinsert
        simp only [Connection.database_write, receiptRow] at hinsert ⊢
        rw [hsync, hinsert]
      · intro hinsert
        simp only [Connection.database_write, receiptRow] at hinsert
        rw [hsync, hinsert]

theorem transacts_applyInTransaction (approvalId receiptId : String) (db : Ledger) :
    Transacts approvalId receiptId db (applyInTransaction approvalId receiptId)
      (⟨db, none⟩, []) := by
  have hclosed : (⟨db, none⟩ : Connection).committed = db := rfl
  have hopen : (⟨db, some db⟩ : Connection).committed = db := rfl
  apply transacts_step (by simp) hclosed rfl
  intro log
  apply transacts_step (by simp) hopen rfl
  intro log
  cases happroval : getApprovalSync approvalId db with
  | none =>
      simp only [Connection.database_some, happroval]
      exact transacts_throw hopen (by simp [applyApprovedPlanSync, happroval])
  | some approval =>
      simp only [Connection.database_some, happroval]
      split
      · next hdecision =>
          exact transacts_throw hopen (by simp [applyApprovedPlanSync, happroval, hdecision])
      next hdecision =>
      rw [not_not] at hdecision
      apply transacts_step (by simp) hopen rfl
      intro log
      cases hplan : db.plans.select fun p => p.planId == approval.planId with
      | none =>
          simp only [Connection.database_some, hplan]
          apply transacts_throw hopen
          simp [applyApprovedPlanSync, happroval, hdecision, hplan]
      | some plan =>
          simp only [Connection.database_some, hplan]
          apply transacts_step (by simp) hopen rfl
          intro log
          cases hreceipt : db.receipts.select fun r => r.idempotencyKey == idempotencyKey plan with
          | some existing =>
              simp only [Connection.database_some, hreceipt]
              apply transacts_commit hopen
              simp [applyApprovedPlanSync, happroval, hdecision, hplan, hreceipt]
          | none =>
              simp only [Connection.database_some, hreceipt]
              exact transacts_applyOnce happroval hdecision hplan hreceipt hopen rfl

/-- The `except` clause takes back what the `try` block has not committed. -/
theorem transacts_applyApprovedPlan (approvalId receiptId : String) (db : Ledger) :
    Transacts approvalId receiptId db (applyApprovedPlanStatements approvalId receiptId)
      (⟨db, none⟩, []) := by
  apply Program.Follows.handle
  apply Program.Follows.handle
  refine (transacts_applyInTransaction approvalId receiptId db).mono ?_ ?_
  · rintro receipt ⟨connection, log⟩ hsync
    apply Program.follows_call trivial
    · rintro _ ⟨connection', log'⟩ ⟨fault, -, hanswer, -⟩
      cases hanswer
      exact hsync
    · rintro e ⟨connection', log'⟩ ⟨fault, -, hanswer, -⟩
      cases hanswer
  · rintro e ⟨connection, log⟩ ⟨hcommitted, hsync⟩
    have hclose : ∀ (e : Exn) (connection : Connection) log, connection.committed = db →
        (Faultless log → applyApprovedPlanSync approvalId receiptId db = .error e) →
        Transacts approvalId receiptId db
          (Statement.close.perform.handle (fun _ => .throw e) .throw) (connection, log) := by
      intro e connection log hcommitted hsync
      apply Program.follows_call trivial
      · rintro _ ⟨connection', log'⟩ ⟨fault, -, hanswer, rfl⟩
        cases hanswer
        exact ⟨hcommitted, fun hlog => hsync fun m hm => hlog m (List.mem_append_left _ hm)⟩
      · rintro e ⟨connection', log'⟩ ⟨fault, -, hanswer, -⟩
        cases hanswer
    -- `ROLLBACK` may fail too; then closing the connection discards the working copy.
    apply Program.follows_call trivial
    · rintro _ ⟨connection', log'⟩ ⟨fault, -, hanswer, rfl⟩
      cases fault with
      | some e' => cases hanswer
      | none =>
          cases hanswer
          exact hclose e _ _ hcommitted fun hlog =>
            hsync fun m hm => hlog m (List.mem_append_left _ hm)
    · rintro e' ⟨connection', log'⟩ ⟨fault, -, hanswer, rfl⟩
      cases fault with
      | some e' =>
          cases hanswer
          exact hclose _ _ _ hcommitted fun hlog => absurd hlog (not_faultless_snoc rfl)
      | none => cases hanswer

/-- Whatever statements meet with faults, the operation commits what its atomic step
writes and returns its receipt, or it raises and every table is as it was. -/
theorem commits_or_rolls_back (approvalId receiptId : String) (faults : ℕ → Option Exn)
    (db : Ledger) :
    let course := runApplyApprovedPlan approvalId receiptId faults db
    (∀ receipt, course.result = .ok receipt →
      applyApprovedPlanSync approvalId receiptId db = .ok (receipt, course.state.committed)) ∧
    ∀ e, course.result = .error e → course.state.committed = db ∧
      (Faultless course.log → applyApprovedPlanSync approvalId receiptId db = .error e) := by
  intro course
  have hends : course.Ends _ _ [] := Program.alone_of_follows (fun _ _ h => h)
    (transacts_applyApprovedPlan approvalId receiptId db) trivial
  refine ⟨fun receipt hresult => hends.ok hresult, fun e hresult => ?_⟩
  simpa using hends.error hresult

end Rules

end CommerceAgent
