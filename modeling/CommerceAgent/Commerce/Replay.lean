import CommerceAgent.Commerce.Consistency
import CommerceAgent.Commerce.Transaction

/-!
# Applying an approved plan once

An application looks for the receipt of its plan before it looks at the product.
A receipt is never deleted, and its key belongs to one plan, so that once a plan
has its receipt every further application of it finds that receipt, at whatever
version the product has arrived.
-/

namespace CommerceAgent

open Effects Relational

/-- An approved plan that has a receipt is answered with it, and nothing is changed. -/
theorem applyApprovedPlan_of_receipt {db : Ledger} {approval : ApprovalRow} {plan : ActionPlan}
    {row : ReceiptRow} (happroval : approval ∈ db.approvals)
    (hdecision : approval.decision = .approve) (hplan : plan ∈ db.plans)
    (hplanId : plan.planId = approval.planId) (hrow : row ∈ db.receipts)
    (hkey : row.idempotencyKey = idempotencyKey plan) (receiptId : String) :
    applyApprovedPlanSync approval.approvalId receiptId db = .ok (row.toReceipt false, db) := by
  have hgetApproval : getApprovalSync approval.approvalId db = some approval :=
    Table.select_eq_some happroval (by simp) fun a ha hid =>
      eq_of_approvalId ha happroval (by simpa using hid)
  have hselectPlan : (db.plans.select fun p => p.planId == approval.planId) = some plan :=
    Table.select_eq_some hplan (by simp [hplanId]) fun p hp hid =>
      eq_of_planId hp hplan ((by simpa using hid : p.planId = approval.planId).trans hplanId.symm)
  have hselectReceipt : (db.receipts.select fun r => r.idempotencyKey == idempotencyKey plan) =
      some row :=
    Table.select_eq_some hrow (by simp [hkey]) fun r hr hid =>
      eq_of_receiptKey hr hrow ((by simpa using hid : r.idempotencyKey = _).trans hkey.symm)
  simp [applyApprovedPlanSync, hgetApproval, hdecision, hselectPlan, hselectReceipt]

/-- A receipt that was returned is in the database, with its approved plan. -/
theorem exists_row_of_applyApprovedPlan {approvalId token : String} {receipt : ActionReceipt}
    {db db' : Ledger} (h : applyApprovedPlanSync approvalId token db = .ok (receipt, db')) :
    ∃ approval ∈ db'.approvals, approval.approvalId = approvalId ∧
      approval.decision = .approve ∧ ∃ plan ∈ db'.plans, plan.planId = approval.planId ∧
        ∃ row ∈ db'.receipts, row.idempotencyKey = idempotencyKey plan ∧
          row.toReceipt false = { receipt with applied := false } := by
  obtain ⟨approval, happroval, hid, hdecision, plan, hplan, hplanId,
    ⟨rfl, row, hrow, hkey, rfl⟩ | ⟨-, -, -, row, hrow, rfl, receipts, hinsert, rfl⟩⟩ :=
    applyApprovedPlan_ok h
  · exact ⟨approval, happroval, hid, hdecision, plan, hplan, hplanId, row, hrow, hkey, rfl⟩
  · refine ⟨approval, happroval, hid, hdecision, plan, hplan, hplanId, row, ?_, ?_, rfl⟩
    · exact (Table.mem_of_insert? hinsert).2 (.inr rfl)
    · rw [hrow]

/-- The step `v` is an application of the approval that gets the receipt, whether or
not the receipt reaches the caller. -/
def Receipted (approvalId : String) (receipt : ActionReceipt)
    (v : Config Exn LedgerCall LedgerCall.Reply Ledger LedgerRequest LedgerResult ×
      Action LedgerChoice LedgerRequest Empty) : Prop :=
  ∃ i ch q k db', v.2 = .call i ch ∧
    v.1.pool i = .running q (.call (.applyApprovedPlan approvalId) k) ∧
      (∀ e, ch.ending ≠ .lost e) ∧
        applyApprovedPlanSync approvalId ch.token v.1.state = .ok (receipt, db')

/-- The step leaves what the application leaves. -/
theorem Receipted.exists_row {catalog : Catalog} {approvalId : String} {receipt : ActionReceipt}
    {v} (hv : Receipted approvalId receipt v)
    {c' : Config Exn LedgerCall LedgerCall.Reply Ledger LedgerRequest LedgerResult}
    (hstep : (ledgerMachine catalog).step v.2 v.1 = some c') :
    ∃ approval ∈ c'.state.approvals, approval.approvalId = approvalId ∧
      approval.decision = .approve ∧ ∃ plan ∈ c'.state.plans, plan.planId = approval.planId ∧
        ∃ row ∈ c'.state.receipts, row.idempotencyKey = idempotencyKey plan ∧
          row.toReceipt false = { receipt with applied := false } := by
  obtain ⟨i, ch, q, k, db', hcall, hslot, hending, happly⟩ := hv
  rw [hcall] at hstep
  obtain ⟨q', cl, k', r, s, hslot', hanswer, rfl⟩ := Machine.step_call _ hstep
  rw [hslot] at hslot'
  cases hslot'
  have hs : s = db' := by
    simp only [ledgerMachine, LedgerCall.execute, happly, Option.some.injEq] at hanswer
    cases hcase : ch.ending with
    | lost e => exact absurd hcase (hending e)
    | done | late e =>
        rw [hcase] at hanswer
        exact (congrArg Prod.snd hanswer).symm
  rw [hs]
  exact exists_row_of_applyApprovedPlan happly

/-- At every state of every run an application commits what its atomic step writes and
returns its receipt, or it raises and leaves every table as it was, whatever statement it
raises in; one whose approval had a receipt at an earlier
step changes nothing, and returns that receipt if no statement meets with a fault;
and no two plans share an idempotency key, so that a receipt answers for the plan of
the approval and for no other. -/
theorem receipts_replayed {catalog : Catalog} {h c}
    (run : (ledgerMachine catalog).Run .any (.initial Ledger.fresh) h c) :
    (∀ approvalId receiptId faults,
      let course := runApplyApprovedPlan approvalId receiptId faults c.state
      (∀ receipt, course.result = .ok receipt →
        applyApprovedPlanSync approvalId receiptId c.state =
          .ok (receipt, course.state.committed)) ∧
      ∀ e, course.result = .error e → course.state.committed = c.state ∧
        (Faultless course.log → applyApprovedPlanSync approvalId receiptId c.state = .error e)) ∧
    (∀ v ∈ h, ∀ approvalId receipt, Receipted approvalId receipt v → ∀ receiptId faults,
      let course := runApplyApprovedPlan approvalId receiptId faults c.state
      course.state.committed = c.state ∧
        (∀ receipt', course.result = .ok receipt' → receipt' = { receipt with applied := false }) ∧
        (Faultless course.log → course.result = .ok { receipt with applied := false })) ∧
    (∀ plan ∈ c.state.plans, ∀ plan' ∈ c.state.plans,
      idempotencyKey plan = idempotencyKey plan' → plan = plan') ∧
    ∀ approvalId receiptId faults receipt,
      (runApplyApprovedPlan approvalId receiptId faults c.state).result = .ok receipt →
        ∀ plan ∈ c.state.plans, receipt.idempotencyKey = idempotencyKey plan →
          ∃ approval ∈ c.state.approvals, approval.approvalId = approvalId ∧
            approval.decision = .approve ∧ approval.planId = plan.planId := by
  obtain ⟨hinv, -⟩ := ledger_run run
  refine ⟨?_, ?_, fun plan hplan plan' hplan' => hinv.eq_of_key hplan hplan', ?_⟩
  · exact fun approvalId receiptId faults =>
      commits_or_rolls_back approvalId receiptId faults c.state
  · intro v hv approvalId receipt hreceipted receiptId faults course
    obtain ⟨c', hstep, hgrows⟩ := ledgerSound.since Ledger.Invariant.fresh run v hv
    replace hgrows : c'.state.Grows c.state := hgrows
    obtain ⟨approval, happroval, rfl, hdecision, plan, hplan, hplanId, row, hrow, hkey, hreceipt⟩ :=
      hreceipted.exists_row hstep
    have hsync := applyApprovedPlan_of_receipt (hgrows.approvals _ happroval) hdecision
      (hgrows.plans _ hplan) hplanId (hgrows.receipts _ hrow) hkey receiptId
    obtain ⟨hok, herror⟩ := commits_or_rolls_back approval.approvalId receiptId faults c.state
    rw [hreceipt] at hsync
    have hreturned : ∀ receipt', course.result = .ok receipt' →
        receipt' = { receipt with applied := false } ∧ course.state.committed = c.state := by
      intro receipt' hresult
      have heq := hok receipt' hresult
      rw [hsync, Except.ok.injEq, Prod.mk.injEq] at heq
      exact ⟨heq.1.symm, heq.2.symm⟩
    refine ⟨?_, fun receipt' hresult => (hreturned receipt' hresult).1, ?_⟩
    · cases hresult : course.result with
      | ok receipt' => exact (hreturned receipt' hresult).2
      | error e => exact (herror e hresult).1
    · intro hfaultless
      cases hresult : course.result with
      | ok receipt' => rw [(hreturned receipt' hresult).1]
      | error e =>
          have heq := (herror e hresult).2 hfaultless
          rw [hsync] at heq
          cases heq
  · intro approvalId receiptId faults receipt hresult plan hplan hkey
    have hsync := (commits_or_rolls_back approvalId receiptId faults c.state).1 receipt hresult
    obtain ⟨approval, happroval, hid, hdecision, plan', hplan', hplanId, h⟩ :=
      applyApprovedPlan_ok hsync
    have hkey' : receipt.idempotencyKey = idempotencyKey plan' := by
      obtain ⟨-, row, -, hrow, rfl⟩ | ⟨-, -, -, row, rfl, rfl, -⟩ := h
      · exact hrow
      · rfl
    have heq := hinv.eq_of_key hplan hplan' (hkey.symm.trans hkey')
    exact ⟨approval, happroval, hid, hdecision, by rw [heq, hplanId]⟩

/-- A plan is made, approved and about to be applied. -/
def demoReplayActions : List (Action LedgerChoice LedgerRequest Empty) :=
  let patch : ProductPatch := ⟨"description", "Works with game consoles.", "Buyers ask."⟩
  [.start 0 .initializeSync, .call 0 {},
   .start 1 (.createPlan demoTaskId demoMerchantId demoProductId patch), .call 1 {}, .call 1 {},
   .call 1 { token := "plan-1" },
   .start 2 (.recordApproval "task-1" demoMerchantId "plan-1" 1 "update_description" .approve),
   .call 2 { token := "approval-1" }, .start 3 (.applyApprovedPlan "approval-1")]

/-- It is applied, and then the plan of another task moves the product on. -/
def demoOvertakingActions : List (Action LedgerChoice LedgerRequest Empty) :=
  let patch : ProductPatch := ⟨"description", "Works with every console.", "Buyers ask."⟩
  [.call 3 { token := "receipt-1" },
   .start 4 (.createPlan demoRivalId demoMerchantId demoProductId patch), .call 4 {}, .call 4 {},
   .call 4 { token := "plan-2" },
   .start 5 (.recordApproval "task-2" demoMerchantId "plan-2" 1 "update_description" .approve),
   .call 5 { token := "approval-2" }, .start 6 (.applyApprovedPlan "approval-2"),
   .call 6 { token := "receipt-2" }]

/-- The receipt of the first plan. -/
def demoReceipt : ActionReceipt :=
  ⟨"receipt-1", "demo-merchant:task-1:1:update_description", demoMerchantId, demoProductId,
    "update_description", 2, true⟩

/-- The approval that the thread is about to apply. -/
def applying (c : Config Exn LedgerCall LedgerCall.Reply Ledger LedgerRequest LedgerResult)
    (i : ℕ) : Option String :=
  match c.pool i with
  | .running _ (.call (.applyApprovedPlan approvalId) _) => some approvalId
  | _ => none

/-- The application the thread is about to make gets this receipt. -/
theorem receipted_of_applying {c : Config Exn LedgerCall LedgerCall.Reply Ledger LedgerRequest
      LedgerResult} {i : ℕ} {approvalId : String} {receipt : ActionReceipt} {ch : LedgerChoice}
    (happlying : applying c i = some approvalId) (hending : ∀ e, ch.ending ≠ .lost e)
    (happly : (applyApprovedPlanSync approvalId ch.token c.state).toOption.map Prod.fst =
      some receipt) : Receipted approvalId receipt (c, .call i ch) := by
  unfold applying at happlying
  split at happlying
  · next q _ k hslot =>
      cases happlying
      obtain ⟨⟨receipt', db'⟩, hsome, rfl⟩ := Option.map_eq_some_iff.1 happly
      cases hrun : applyApprovedPlanSync approvalId ch.token c.state with
      | error e =>
          rw [hrun] at hsome
          cases hsome
      | ok result =>
          rw [hrun] at hsome
          cases hsome
          exact ⟨i, ch, q, k, db', rfl, hslot, hending, hrun⟩
  · cases happlying

theorem receipts_replayed_demo : ∃ h c,
    (ledgerMachine demoCatalog).Run .any (.initial Ledger.fresh) h c ∧
      c.state.products.rows.map ProductRow.version = [3, 1] ∧
      ∀ receiptId, (runApplyApprovedPlan "approval-1" receiptId (fun _ => none) c.state).result =
        .ok { demoReceipt with applied := false } := by
  have hmid : ((ledgerMachine demoCatalog).exec .any demoReplayActions (.initial .fresh)).map
      (fun c => (applying c 3,
        (applyApprovedPlanSync "approval-1" "receipt-1" c.state).toOption.map Prod.fst)) =
      some (some "approval-1", some demoReceipt) := by decide
  have hend : ((ledgerMachine demoCatalog).exec .any (demoReplayActions ++ demoOvertakingActions)
      (.initial .fresh)).map (fun c => c.state.products.rows.map ProductRow.version) =
        some [3, 1] := by decide
  obtain ⟨c₀, hc₀, happlying⟩ := Option.map_eq_some_iff.1 hmid
  obtain ⟨c, hc, hversions⟩ := Option.map_eq_some_iff.1 hend
  obtain ⟨h₀, run₀⟩ := Machine.Run.exec .nil hc₀
  rw [Machine.exec_append, hc₀, Option.bind_some, demoOvertakingActions, Machine.exec,
    if_pos (Policy.permits_any ..)] at hc
  obtain ⟨c₁, hstep, hrest⟩ := Option.bind_eq_some_iff.1 hc
  obtain ⟨h₁, run⟩ := Machine.Run.exec (.snoc run₀ (Policy.permits_any ..) hstep) hrest
  rw [Prod.mk.injEq] at happlying
  have hreceipted : Receipted "approval-1" demoReceipt (c₀, .call 3 { token := "receipt-1" }) :=
    receipted_of_applying happlying.1 (by simp) happlying.2
  refine ⟨_, c, run, hversions, fun receiptId => ?_⟩
  refine ((receipts_replayed run).2.1 _ ?_ _ _ hreceipted receiptId fun _ => none).2.2 ?_
  · simp
  · intro m hm
    obtain ⟨n, hn⟩ := Program.choice_of_mem_log hm
    exact hn

end CommerceAgent
