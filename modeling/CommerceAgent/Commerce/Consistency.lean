import CommerceAgent.Commerce.Interleaving

/-!
# What the tables say about each other

The two results about whole runs of the ledger. `Ledger.Consistent` reads the
version, the description and the approval of every product and receipt off the
other tables. `Ledger.Current` is the optimistic-concurrency argument: a plan
can only be applied to the very text it was shown with, at most one plan per
snapshot is applied, and the others then fail for good.
-/

namespace CommerceAgent

open Effects Relational

/-- The tables of a commerce database agree with each other and with the
catalogue it was seeded from. -/
structure Ledger.Consistent (catalog : Catalog) (db : Ledger) : Prop where
  version : ∀ p ∈ db.products, p.version = 1 + (receiptsOf p.productId db).length
  versions : ∀ p ∈ db.products,
    ((receiptsOf p.productId db).map ReceiptRow.productVersion).Perm
      (List.range' 2 (p.version - 1))
  seeded : ∀ p ∈ db.products, receiptsOf p.productId db = [] →
    catalog.seedDescription p.productId = some p.description
  written : ∀ p ∈ db.products, ∀ r ∈ receiptsOf p.productId db,
    (∀ r' ∈ receiptsOf p.productId db, r'.productVersion ≤ r.productVersion) →
      ∀ plan ∈ db.plans, r.idempotencyKey = idempotencyKey plan → p.description = plan.afterValue
  receipt : ∀ r ∈ db.receipts, ∃! plan, plan ∈ db.plans ∧ r.idempotencyKey = idempotencyKey plan
  approved : ∀ r ∈ db.receipts, ∀ plan ∈ db.plans, r.idempotencyKey = idempotencyKey plan →
    ∃ a ∈ db.approvals, a.planId = plan.planId ∧ a.taskId = plan.taskId ∧ a.decision = .approve
  rejected : ∀ a ∈ db.approvals, a.decision = .reject → ∀ r ∈ db.receipts, ∀ plan ∈ db.plans,
    r.idempotencyKey = idempotencyKey plan → plan.taskId ≠ a.taskId

namespace Ledger.Invariant

variable {catalog : Catalog} {db : Ledger}

theorem version_eq (h : db.Invariant catalog) {p : ProductRow} (hp : p ∈ db.products) :
    p.version = 1 + (receiptsOf p.productId db).length := by
  have htraced := h.products p hp
  have hlength := congrArg List.length htraced.versions
  rw [List.length_map, List.length_range'] at hlength
  have hpos := htraced.positive
  omega

/-- The receipt of an applied plan is below the version of its product. -/
theorem productVersion_lt (h : db.Invariant catalog) {r : ReceiptRow} (hr : r ∈ db.receipts)
    {plan : ActionPlan} (hplan : plan ∈ db.plans)
    (hkey : r.idempotencyKey = idempotencyKey plan) {p : ProductRow} (hp : p ∈ db.products)
    (hid : p.productId = plan.productId) : plan.productVersion < p.version := by
  have hfulfils := h.fulfils_of_key hr hplan hkey
  have hmem : r ∈ receiptsOf p.productId db :=
    mem_receiptsOf.2 ⟨hr, hfulfils.productId.trans hid.symm⟩
  have hversion := List.mem_map_of_mem (f := ReceiptRow.productVersion) hmem
  rw [(h.products p hp).versions, List.mem_range'_1, hfulfils.productVersion] at hversion
  omega

theorem consistent (h : db.Invariant catalog) : db.Consistent catalog where
  version p hp := h.version_eq hp
  versions p hp := by rw [(h.products p hp).versions]
  seeded p hp hnil := (h.products p hp).seeded (by rw [h.version_eq hp, hnil]; rfl)
  written p hp r hr hgreatest plan hplan hkey := by
    -- The greatest version among the receipts is the version of the product.
    have hversions := (h.products p hp).versions
    refine (h.products p hp).written r hr (le_antisymm ?_ ?_) plan hplan hkey
    · have hmem := List.mem_map_of_mem (f := ReceiptRow.productVersion) hr
      rw [hversions, List.mem_range'_1] at hmem
      omega
    · have hlength : 0 < (receiptsOf p.productId db).length := List.length_pos_of_mem hr
      have heq := h.version_eq hp
      have hlast : p.version ∈ List.range' 2 (p.version - 1) := by
        rw [List.mem_range'_1]
        omega
      rw [← hversions] at hlast
      obtain ⟨r', hr', hversion⟩ := List.mem_map.1 hlast
      exact hversion ▸ hgreatest r' hr'
  receipt r hr := by
    obtain ⟨plan, hplan, hfulfils⟩ := h.receipts r hr
    refine ⟨plan, ⟨hplan, hfulfils.key⟩, ?_⟩
    rintro plan' ⟨hplan', hkey⟩
    exact h.eq_of_key hplan' hplan (hkey.symm.trans hfulfils.key)
  approved r hr plan hplan hkey := (h.fulfils_of_key hr hplan hkey).approved
  rejected a ha hreject r hr plan hplan hkey htask := by
    obtain ⟨a', ha', -, htask', happrove⟩ := (h.fulfils_of_key hr hplan hkey).approved
    rw [eq_of_approvalTask ha ha' (htask.symm.trans htask'.symm), happrove] at hreject
    cases hreject

end Ledger.Invariant

/-- Whatever operations are interleaved, and however their calls end, the tables
agree at the end of the run. -/
theorem ledger_consistent {catalog : Catalog} {h c}
    (run : (ledgerMachine catalog).Run .any (.initial Ledger.fresh) h c) :
    c.state.Consistent catalog :=
  (ledger_run run).1.consistent

/-- Two tasks plan on one product at the same version, both plans are approved,
and the first one is applied. -/
def demoLedgerActions : List (Action LedgerChoice LedgerRequest Empty) :=
  let patch : ProductPatch := ⟨"description", "Works with game consoles.", "Buyers ask."⟩
  [.start 0 .initializeSync, .call 0 {},
   .start 1 (.createPlan demoTaskId demoMerchantId demoProductId patch), .call 1 {},
   .start 2 (.createPlan demoRivalId demoMerchantId demoProductId patch), .call 2 {},
   .call 1 {}, .call 2 {}, .call 2 { token := "plan-2" }, .call 1 { token := "plan-1" },
   .start 3 (.recordApproval "task-1" demoMerchantId "plan-1" 1 "update_description" .approve),
   .start 4 (.recordApproval "task-2" demoMerchantId "plan-2" 1 "update_description" .approve),
   .call 4 { token := "approval-2" }, .call 3 { token := "approval-1" },
   .start 5 (.applyApprovedPlan "approval-1"), .call 5 { token := "receipt-1" }]

theorem ledger_consistent_demo : ∃ h c,
    (ledgerMachine demoCatalog).Run .any (.initial Ledger.fresh) h c ∧
      c.state.receipts.rows.length = 1 ∧ c.state.Consistent demoCatalog := by
  have hend : ((ledgerMachine demoCatalog).exec .any demoLedgerActions (.initial .fresh)).map
      (fun c => c.state.receipts.rows.length) = some 1 := by decide
  obtain ⟨c, hc, hlength⟩ := Option.map_eq_some_iff.1 hend
  obtain ⟨h, run⟩ := Machine.Run.exec .nil hc
  exact ⟨h, c, run, hlength, ledger_consistent run⟩

/-- A plan has been applied when the receipt with its key exists. -/
def Applied (plan : ActionPlan) (db : Ledger) : Prop :=
  ∃ r ∈ db.receipts, r.idempotencyKey = idempotencyKey plan

theorem Applied.grows {plan : ActionPlan} {db db' : Ledger} (h : Applied plan db)
    (hgrows : db.Grows db') : Applied plan db' := by
  obtain ⟨r, hr, hkey⟩ := h
  exact ⟨r, hgrows.receipts r hr, hkey⟩

/-- Two plans made against one version of one product. -/
def SameSnapshot (plan plan' : ActionPlan) : Prop :=
  plan.productId = plan'.productId ∧ plan.productVersion = plan'.productVersion

/-- What the version of a plan says about the product as it stands. -/
structure Ledger.Current (db : Ledger) : Prop where
  snapshot : ∀ plan ∈ db.plans, ∃ p ∈ db.products, p.merchantId = plan.merchantId ∧
    p.productId = plan.productId ∧ plan.productVersion ≤ p.version ∧
    (plan.productVersion = p.version → p.description = plan.beforeValue)
  overwritten : ∀ approvalId token receipt db',
    applyApprovedPlanSync approvalId token db = .ok (receipt, db') →
      ∀ p ∈ db.products, p ∉ db'.products → ∃ a ∈ db.approvals, a.approvalId = approvalId ∧
        ∃ plan ∈ db.plans, plan.planId = a.planId ∧ plan.productId = p.productId ∧
          p.description = plan.beforeValue ∧ p.patched plan (p.version + 1) ∈ db'.products
  applied_once : ∀ plan ∈ db.plans, ∀ plan' ∈ db.plans, SameSnapshot plan plan' →
    Applied plan db → Applied plan' db → plan = plan'
  conflict : ∀ plan ∈ db.plans, Applied plan db → ∀ plan' ∈ db.plans, plan' ≠ plan →
    SameSnapshot plan plan' → ∀ a ∈ db.approvals, a.planId = plan'.planId →
      a.decision = .approve → ∀ token, applyApprovedPlanSync a.approvalId token db =
        .error (.appError "PRODUCT_VERSION_CONFLICT" "商品已变化，需要重新生成计划" 409)

namespace Ledger.Invariant

variable {catalog : Catalog} {db : Ledger}

theorem applied_once (h : db.Invariant catalog) {plan plan' : ActionPlan}
    (hplan : plan ∈ db.plans) (hplan' : plan' ∈ db.plans) (hsame : SameSnapshot plan plan')
    (happlied : Applied plan db) (happlied' : Applied plan' db) : plan = plan' := by
  obtain ⟨r, hr, hkey⟩ := happlied
  obtain ⟨r', hr', hkey'⟩ := happlied'
  have hf := h.fulfils_of_key hr hplan hkey
  have hf' := h.fulfils_of_key hr' hplan' hkey'
  obtain ⟨p, hp, -, hid, -⟩ := h.product_of_plan hplan
  -- Both receipts carry the same version of one product, where each version occurs once.
  have hmem : r ∈ receiptsOf p.productId db :=
    mem_receiptsOf.2 ⟨hr, hf.productId.trans hid.symm⟩
  have hmem' : r' ∈ receiptsOf p.productId db :=
    mem_receiptsOf.2 ⟨hr', hf'.productId.trans (hsame.1.symm.trans hid.symm)⟩
  have hnodup : ((receiptsOf p.productId db).map ReceiptRow.productVersion).Nodup := by
    rw [(h.products p hp).versions]
    exact List.nodup_range' 1
  have hversion : r.productVersion = r'.productVersion := by
    rw [hf.productVersion, hf'.productVersion, hsame.2]
  have heq := List.inj_on_of_nodup_map hnodup hmem hmem' hversion
  exact h.eq_of_key hplan hplan' (hkey.symm.trans (heq ▸ hkey'))

theorem conflict (h : db.Invariant catalog) {plan plan' : ActionPlan} (hplan : plan ∈ db.plans)
    (happlied : Applied plan db) (hplan' : plan' ∈ db.plans) (hne : plan' ≠ plan)
    (hsame : SameSnapshot plan plan') {a : ApprovalRow} (ha : a ∈ db.approvals)
    (hplanId : a.planId = plan'.planId) (happrove : a.decision = .approve) (token : String) :
    applyApprovedPlanSync a.approvalId token db =
      .error (.appError "PRODUCT_VERSION_CONFLICT" "商品已变化，需要重新生成计划" 409) := by
  have happroval : getApprovalSync a.approvalId db = some a :=
    Table.select_eq_some ha (by simp) fun b hb hid => eq_of_approvalId hb ha (by simpa using hid)
  have hselect : (db.plans.select fun p => p.planId == a.planId) = some plan' :=
    Table.select_eq_some hplan' (by simp [hplanId]) fun q hq hid =>
      eq_of_planId hq hplan' ((by simpa using hid : q.planId = a.planId).trans hplanId)
  have hunapplied : (db.receipts.select fun r => r.idempotencyKey == idempotencyKey plan') =
      none := by
    rw [Table.select_eq_none_iff]
    intro r hr
    rw [beq_eq_false_iff_ne]
    intro hkey
    exact hne (h.applied_once hplan hplan' hsame happlied ⟨r, hr, hkey⟩).symm
  obtain ⟨p, hp, hmerchant, hid, -⟩ := h.product_of_plan hplan'
  have hproduct : selectProduct plan'.merchantId plan'.productId db =
      some (p.description, p.version) := by
    rw [selectProduct, Table.select_eq_some hp (by simp [hmerchant, hid])]
    · rfl
    · intro q hq hwhere
      simp only [Bool.and_eq_true, beq_iff_eq] at hwhere
      exact eq_of_productId hq hp (hwhere.2.trans hid.symm)
  obtain ⟨r, hr, hkey⟩ := happlied
  have hlt := h.productVersion_lt hr hplan hkey hp (hid.trans hsame.1.symm)
  have hversion : p.version ≠ plan'.productVersion := by
    rw [← hsame.2]
    exact hlt.ne'
  simp [applyApprovedPlanSync, happroval, happrove, hselect, hunapplied, hproduct, hversion]

theorem overwritten (h : db.Invariant catalog) {approvalId token : String}
    {receipt : ActionReceipt} {db' : Ledger}
    (happly : applyApprovedPlanSync approvalId token db = .ok (receipt, db')) {p : ProductRow}
    (hp : p ∈ db.products) (hgone : p ∉ db'.products) :
    ∃ a ∈ db.approvals, a.approvalId = approvalId ∧ ∃ plan ∈ db.plans, plan.planId = a.planId ∧
      plan.productId = p.productId ∧ p.description = plan.beforeValue ∧
        p.patched plan (p.version + 1) ∈ db'.products := by
  obtain ⟨a, ha, haId, -, plan, hplan, hplanId, ⟨rfl, -⟩ |
    ⟨-, -, -, row, -, -, receipts, -, rfl⟩⟩ := applyApprovedPlan_ok happly
  · exact absurd hp hgone
  by_cases hwhere : p.merchantId = plan.merchantId ∧ p.productId = plan.productId ∧
      p.version = plan.productVersion
  · obtain ⟨p', hp', -, hid', -, hsame⟩ := h.product_of_plan hplan
    have heq := eq_of_productId hp' hp (hid'.trans hwhere.2.1.symm)
    subst heq
    refine ⟨a, ha, haId, plan, hplan, hplanId, hwhere.2.1.symm, hsame hwhere.2.2.symm, ?_⟩
    rw [hwhere.2.2]
    exact mem_updateProduct.2 ⟨p', hp, .inl ⟨hwhere.1, hwhere.2.1, hwhere.2.2, rfl⟩⟩
  · exact absurd (mem_updateProduct.2 ⟨p, hp, .inr ⟨hwhere, rfl⟩⟩) hgone

theorem current (h : db.Invariant catalog) : db.Current where
  snapshot _ hplan := h.product_of_plan hplan
  overwritten _ _ _ _ happly _ hp hgone := h.overwritten happly hp hgone
  applied_once _ hplan _ hplan' hsame happlied happlied' :=
    h.applied_once hplan hplan' hsame happlied happlied'
  conflict _ hplan happlied _ hplan' hne hsame _ ha hplanId happrove token :=
    h.conflict hplan happlied hplan' hne hsame ha hplanId happrove token

end Ledger.Invariant

/-- At every state of every run a plan is current or behind, and a plan that was
applied at some state excludes the other plans of its snapshot at every later one. -/
theorem ledger_current {catalog : Catalog} {h c}
    (run : (ledgerMachine catalog).Run .any (.initial Ledger.fresh) h c) :
    c.state.Current ∧ ∀ v ∈ h, ∀ plan ∈ v.1.state.plans, Applied plan v.1.state →
      ∀ plan' ∈ c.state.plans, plan' ≠ plan → SameSnapshot plan plan' →
        ¬ Applied plan' c.state ∧
          ∀ a ∈ c.state.approvals, a.planId = plan'.planId → a.decision = .approve →
            ∀ token, applyApprovedPlanSync a.approvalId token c.state =
              .error (.appError "PRODUCT_VERSION_CONFLICT" "商品已变化，需要重新生成计划" 409) := by
  obtain ⟨hinv, hpast⟩ := ledger_run run
  refine ⟨hinv.current, ?_⟩
  intro v hv plan hplan happlied plan' hplan' hne hsame
  have hgrows := (hpast v hv).2
  have hplan := hgrows.plans plan hplan
  have happlied := happlied.grows hgrows
  refine ⟨fun happlied' => hne (hinv.applied_once hplan hplan' hsame happlied happlied').symm, ?_⟩
  intro a ha hplanId happrove token
  exact hinv.conflict hplan happlied hplan' hne hsame ha hplanId happrove token

theorem ledger_current_demo : ∃ h c,
    (ledgerMachine demoCatalog).Run .any (.initial Ledger.fresh) h c ∧
      c.state.plans.rows.length = 2 ∧ c.state.receipts.rows.length = 1 ∧ c.state.Current := by
  have hend : ((ledgerMachine demoCatalog).exec .any demoLedgerActions (.initial .fresh)).map
      (fun c => (c.state.plans.rows.length, c.state.receipts.rows.length)) = some (2, 1) := by
    decide
  obtain ⟨c, hc, hlength⟩ := Option.map_eq_some_iff.1 hend
  obtain ⟨h, run⟩ := Machine.Run.exec .nil hc
  rw [Prod.mk.injEq] at hlength
  exact ⟨h, c, run, hlength.1, hlength.2, (ledger_current run).1⟩

end CommerceAgent
