import CommerceAgent.Commerce.Repository

/-!
# What an operation writes

`Writes c db db'` lists the ways in which the step `c` can change the database,
each with everything the step has checked before it wrote. The proofs about runs
split on it and do not unfold the operations again. `Ledger.Grows` is what every
step has in common: rows of plans, approvals and receipts stay, and a product
only changes its description together with its version, which never falls.
-/

namespace CommerceAgent

open Relational

theorem mem_of_selectProduct {db : Ledger} {merchantId productId description : String}
    {version : ℕ} (h : selectProduct merchantId productId db = some (description, version)) :
    ∃ p ∈ db.products, p.merchantId = merchantId ∧ p.productId = productId ∧
      p.description = description ∧ p.version = version := by
  obtain ⟨p, hp, hcols⟩ := Option.map_eq_some_iff.1 h
  obtain ⟨hmem, hwhere⟩ := Table.mem_of_select hp
  simp only [Bool.and_eq_true, beq_iff_eq] at hwhere
  simp only [Prod.mk.injEq] at hcols
  exact ⟨p, hmem, hwhere.1, hwhere.2, hcols.1, hcols.2⟩

theorem mem_of_selectPlanOfTask {db : Ledger} {taskId : String} {plan : ActionPlan}
    (h : selectPlanOfTask taskId db = some plan) : plan ∈ db.plans ∧ plan.taskId = taskId := by
  simpa using Table.mem_of_select h

theorem mem_of_getApproval {db : Ledger} {approvalId : String} {a : ApprovalRow}
    (h : getApprovalSync approvalId db = some a) :
    a ∈ db.approvals ∧ a.approvalId = approvalId := by
  simpa using Table.mem_of_select h

theorem mem_of_getApprovalForTask {db : Ledger} {taskId : String} {a : ApprovalRow}
    (h : getApprovalForTaskSync taskId db = some a) : a ∈ db.approvals ∧ a.taskId = taskId := by
  simpa using Table.mem_of_select h

theorem eq_of_planId {db : Ledger} {p q : ActionPlan} (hp : p ∈ db.plans) (hq : q ∈ db.plans)
    (h : p.planId = q.planId) : p = q :=
  Table.eq_of_unique (f := ActionPlan.planId) (by simp) hp hq h

theorem eq_of_planTask {db : Ledger} {p q : ActionPlan} (hp : p ∈ db.plans) (hq : q ∈ db.plans)
    (h : p.taskId = q.taskId) : p = q :=
  Table.eq_of_unique (f := fun p : ActionPlan => p.taskId) (by simp) hp hq h

theorem eq_of_approvalId {db : Ledger} {a b : ApprovalRow} (ha : a ∈ db.approvals)
    (hb : b ∈ db.approvals) (h : a.approvalId = b.approvalId) : a = b :=
  Table.eq_of_unique (f := ApprovalRow.approvalId) (by simp) ha hb h

theorem eq_of_approvalTask {db : Ledger} {a b : ApprovalRow} (ha : a ∈ db.approvals)
    (hb : b ∈ db.approvals) (h : a.taskId = b.taskId) : a = b :=
  Table.eq_of_unique (f := ApprovalRow.taskId) (by simp) ha hb h

theorem eq_of_productId {db : Ledger} {p q : ProductRow} (hp : p ∈ db.products)
    (hq : q ∈ db.products) (h : p.productId = q.productId) : p = q :=
  Table.eq_of_unique (f := ProductRow.productId) (by simp) hp hq h

theorem eq_of_receiptKey {db : Ledger} {r s : ReceiptRow} (hr : r ∈ db.receipts)
    (hs : s ∈ db.receipts) (h : r.idempotencyKey = s.idempotencyKey) : r = s :=
  Table.eq_of_unique (f := ReceiptRow.idempotencyKey) (by simp) hr hs h

/-- The changes a step can make to the database. -/
inductive Writes : LedgerCall → Ledger → Ledger → Prop where
  | nothing {c : LedgerCall} {db : Ledger} : Writes c db db
  | seed {catalog : Catalog} {db : Ledger} :
      Writes (.initializeSync catalog) db (seedSync catalog db)
  | plan {content : PlanContent} {planId : String} {db : Ledger}
      {plans : Table ActionPlan planKeys}
      (insert : db.plans.insert? { content with planId } = some plans) :
      Writes (.insertPlan content) db { db with plans }
  | approval {plan : ActionPlan} {decision : ApprovalDecision} {approvalId : String} {db : Ledger}
      {approvals : Table ApprovalRow approvalKeys} (mem : plan ∈ db.plans)
      (insert : db.approvals.insert?
        { approvalId, taskId := plan.taskId, merchantId := plan.merchantId, planId := plan.planId,
          planVersion := plan.planVersion, actionId := plan.actionId, decision } =
          some approvals) :
      Writes (.recordApproval plan.taskId plan.merchantId plan.planId plan.planVersion
        plan.actionId decision) db { db with approvals }
  | receipt {approval : ApprovalRow} {plan : ActionPlan} {product : ProductRow}
      {receiptId : String} {db : Ledger} {receipts : Table ReceiptRow receiptKeys}
      (approval_mem : approval ∈ db.approvals) (approved : approval.decision = .approve)
      (plan_mem : plan ∈ db.plans) (planId : plan.planId = approval.planId)
      (unapplied : ∀ r ∈ db.receipts, r.idempotencyKey ≠ idempotencyKey plan)
      (product_mem : product ∈ db.products) (merchant : product.merchantId = plan.merchantId)
      (productId : product.productId = plan.productId)
      (version : product.version = plan.productVersion) (field : plan.field = "description")
      (insert : db.receipts.insert?
        { receiptId, idempotencyKey := idempotencyKey plan, merchantId := plan.merchantId,
          productId := plan.productId, actionId := plan.actionId,
          productVersion := plan.productVersion + 1 } = some receipts) :
      Writes (.applyApprovedPlan approval.approvalId) db
        { db with products := updateProduct plan (plan.productVersion + 1) db.products, receipts }

/-- A successful approval returns the row of the task, which agrees with the
call in every column. -/
theorem recordApproval_ok {taskId merchantId planId actionId approvalId token : String}
    {planVersion : ℤ} {decision : ApprovalDecision} {db db' : Ledger}
    (h : recordApprovalSync taskId merchantId planId planVersion actionId decision token db =
      .ok (approvalId, db')) :
    ∃ plan ∈ db.plans, plan.planId = planId ∧ plan.taskId = taskId ∧
      plan.merchantId = merchantId ∧ plan.planVersion = planVersion ∧ plan.actionId = actionId ∧
      ((db' = db ∧ ∃ row ∈ db.approvals, row.taskId = taskId ∧ row.decision = decision ∧
          row.approvalId = approvalId) ∨
        (approvalId = token ∧ ∃ approvals, db' = { db with approvals } ∧ db.approvals.insert?
          { approvalId := token, taskId, merchantId, planId, planVersion, actionId, decision } =
            some approvals)) := by
  simp only [recordApprovalSync] at h
  split at h
  · cases h
  · next plan hplan =>
      obtain ⟨hmem, hwhere⟩ := Table.mem_of_select hplan
      simp only [Bool.and_eq_true, beq_iff_eq] at hwhere
      by_cases hmerchant : plan.merchantId ≠ merchantId
      · rw [if_pos hmerchant] at h
        cases h
      rw [if_neg hmerchant] at h
      by_cases hversion : plan.planVersion ≠ planVersion ∨ plan.actionId ≠ actionId
      · rw [if_pos hversion] at h
        cases h
      rw [if_neg hversion] at h
      push Not at hmerchant hversion
      refine ⟨plan, hmem, hwhere.1, hwhere.2, hmerchant, hversion.1, hversion.2, ?_⟩
      split at h
      · next existing hexisting =>
          obtain ⟨hrow, htask⟩ := mem_of_getApprovalForTask hexisting
          by_cases hdecision : existing.decision ≠ decision
          · rw [if_pos hdecision] at h
            cases h
          rw [if_neg hdecision] at h
          push Not at hdecision
          simp only [Except.ok.injEq, Prod.mk.injEq] at h
          exact .inl ⟨h.2.symm, existing, hrow, htask, hdecision, h.1⟩
      · split at h
        · cases h
        · next approvals hinsert =>
            simp only [Except.ok.injEq, Prod.mk.injEq] at h
            exact .inr ⟨h.1.symm, approvals, h.2.symm, hinsert⟩

/-- A successful application is a replay of the plan's receipt, or the first one:
then the plan's snapshot is the product as it stands. -/
theorem applyApprovedPlan_ok {approvalId token : String} {receipt : ActionReceipt}
    {db db' : Ledger} (h : applyApprovedPlanSync approvalId token db = .ok (receipt, db')) :
    ∃ approval ∈ db.approvals, approval.approvalId = approvalId ∧ approval.decision = .approve ∧
      ∃ plan ∈ db.plans, plan.planId = approval.planId ∧
        ((db' = db ∧ ∃ row ∈ db.receipts, row.idempotencyKey = idempotencyKey plan ∧
            receipt = row.toReceipt false) ∨
          ((∀ r ∈ db.receipts, r.idempotencyKey ≠ idempotencyKey plan) ∧
            plan.field = "description" ∧
            (∃ product ∈ db.products, product.merchantId = plan.merchantId ∧
              product.productId = plan.productId ∧ product.version = plan.productVersion) ∧
            ∃ row : ReceiptRow,
              row = { receiptId := token, idempotencyKey := idempotencyKey plan,
                      merchantId := plan.merchantId, productId := plan.productId,
                      actionId := plan.actionId, productVersion := plan.productVersion + 1 } ∧
              receipt = row.toReceipt true ∧
              ∃ receipts, db.receipts.insert? row = some receipts ∧
                db' = { db with
                  products := updateProduct plan (plan.productVersion + 1) db.products
                  receipts })) := by
  simp only [applyApprovedPlanSync] at h
  split at h
  · cases h
  · next approval happroval =>
      obtain ⟨happroval, hid⟩ := mem_of_getApproval happroval
      by_cases hdecision : approval.decision ≠ .approve
      · rw [if_pos hdecision] at h
        cases h
      rw [if_neg hdecision] at h
      push Not at hdecision
      refine ⟨approval, happroval, hid, hdecision, ?_⟩
      split at h
      · cases h
      · next plan hplan =>
          obtain ⟨hmem, hplanId⟩ := Table.mem_of_select hplan
          rw [beq_iff_eq] at hplanId
          refine ⟨plan, hmem, hplanId, ?_⟩
          split at h
          · next existing hexisting =>
              obtain ⟨hrow, hkey⟩ := Table.mem_of_select hexisting
              rw [beq_iff_eq] at hkey
              simp only [Except.ok.injEq, Prod.mk.injEq] at h
              exact .inl ⟨h.2.symm, existing, hrow, hkey, h.1.symm⟩
          · next hnone =>
              have hunapplied : ∀ r ∈ db.receipts, r.idempotencyKey ≠ idempotencyKey plan := by
                intro r hr
                simpa using Table.select_eq_none_iff.1 hnone r hr
              split at h
              · cases h
              · next description version hproduct =>
                  obtain ⟨p, hp, hmerchant, hproductId, -, hpversion⟩ :=
                    mem_of_selectProduct hproduct
                  by_cases hversion : version ≠ plan.productVersion
                  · rw [if_pos hversion] at h
                    cases h
                  rw [if_neg hversion] at h
                  push Not at hversion
                  by_cases hfield : plan.field ≠ "description"
                  · rw [if_pos hfield] at h
                    cases h
                  rw [if_neg hfield] at h
                  push Not at hfield
                  subst hversion
                  split at h
                  · cases h
                  · next receipts hinsert =>
                      simp only [Except.ok.injEq, Prod.mk.injEq] at h
                      exact .inr ⟨hunapplied, hfield,
                        ⟨p, hp, hmerchant, hproductId, hpversion⟩, _, rfl, h.1.symm, receipts,
                        hinsert, h.2.symm⟩

/-- Every successful step writes as `Writes` says. -/
theorem writes_of_execute {c : LedgerCall} {token : String} {db db' : Ledger} {reply : c.Reply}
    (h : c.execute token db = .ok (reply, db')) : Writes c db db' := by
  cases c with
  | initializeSync catalog =>
      simp only [LedgerCall.execute, Except.ok.injEq, Prod.mk.injEq] at h
      rw [← h.2]
      exact .seed
  | insertPlan content =>
      simp only [LedgerCall.execute, insertPlan] at h
      split at h
      · cases h
      · next plans hplans =>
          simp only [Except.ok.injEq, Prod.mk.injEq] at h
          rw [← h.2]
          exact .plan hplans
  | recordApproval taskId merchantId planId planVersion actionId decision =>
      obtain ⟨plan, hmem, rfl, rfl, rfl, rfl, rfl, hdb | ⟨-, approvals, rfl, hinsert⟩⟩ :=
        recordApproval_ok h
      · rw [hdb.1]
        exact .nothing
      · exact .approval hmem hinsert
  | applyApprovedPlan approvalId =>
      obtain ⟨approval, hmem, rfl, hdecision, plan, hplan, hplanId, hdb |
        ⟨hunapplied, hfield, ⟨product, hproduct, hmerchant, hproductId, hversion⟩, row, rfl, -,
          receipts, hinsert, rfl⟩⟩ := applyApprovedPlan_ok h
      · rw [hdb.1]
        exact .nothing
      · exact .receipt hmem hdecision hplan hplanId hunapplied hproduct hmerchant hproductId
          hversion hfield hinsert
  | selectPlanOfTask taskId =>
      simp only [LedgerCall.execute, Except.ok.injEq, Prod.mk.injEq] at h
      rw [← h.2]
      exact .nothing
  | selectProduct merchantId productId =>
      simp only [LedgerCall.execute, Except.ok.injEq, Prod.mk.injEq] at h
      rw [← h.2]
      exact .nothing
  | getApproval approvalId =>
      simp only [LedgerCall.execute, Except.ok.injEq, Prod.mk.injEq] at h
      rw [← h.2]
      exact .nothing
  | getApprovalForTask taskId =>
      simp only [LedgerCall.execute, Except.ok.injEq, Prod.mk.injEq] at h
      rw [← h.2]
      exact .nothing

end CommerceAgent
