import CommerceAgent.Commerce.Operations
import Mathlib.Data.List.Range

/-!
# The invariant of the commerce database

A plan remembers a `Snapshot` of its product: the description and the version
that were read. `Ledger.Grows` makes snapshots stable, since a product changes
its description only together with its version. `Ledger.Invariant` ties the four
tables together: a receipt is the receipt of one plan, which is approved, and
moves the product from the version of the plan's snapshot to the next.
-/

namespace CommerceAgent

open Relational

/-- What every step does to the database: it keeps the rows of the three ledger
tables, and a product that keeps its version keeps its description. -/
structure Ledger.Grows (db db' : Ledger) : Prop where
  plans : ∀ p ∈ db.plans, p ∈ db'.plans
  approvals : ∀ a ∈ db.approvals, a ∈ db'.approvals
  receipts : ∀ r ∈ db.receipts, r ∈ db'.receipts
  products : ∀ p ∈ db.products, ∃ p' ∈ db'.products, p'.productId = p.productId ∧
    p'.merchantId = p.merchantId ∧ p.version ≤ p'.version ∧
    (p.version = p'.version → p'.description = p.description)

namespace Ledger.Grows

theorem refl (db : Ledger) : db.Grows db :=
  ⟨fun _ h => h, fun _ h => h, fun _ h => h, fun p h => ⟨p, h, rfl, rfl, le_rfl, fun _ => rfl⟩⟩

theorem trans {db₁ db₂ db₃ : Ledger} (h₁ : db₁.Grows db₂) (h₂ : db₂.Grows db₃) :
    db₁.Grows db₃ where
  plans p h := h₂.plans p (h₁.plans p h)
  approvals a h := h₂.approvals a (h₁.approvals a h)
  receipts r h := h₂.receipts r (h₁.receipts r h)
  products p h := by
    obtain ⟨p', hp', hid', hmerchant', hle', hsame'⟩ := h₁.products p h
    obtain ⟨p'', hp'', hid'', hmerchant'', hle'', hsame''⟩ := h₂.products p' hp'
    refine ⟨p'', hp'', hid''.trans hid', hmerchant''.trans hmerchant', hle'.trans hle'', ?_⟩
    intro heq
    have hmid : p.version = p'.version := le_antisymm hle' (heq ▸ hle'')
    exact (hsame'' (hmid ▸ heq)).trans (hsame' hmid)

end Ledger.Grows

/-- The row a product has after a plan is applied to it. -/
theorem mem_updateProduct {db : Ledger} {plan : ActionPlan} {version : ℕ} {p' : ProductRow} :
    p' ∈ updateProduct plan version db.products ↔
      ∃ p ∈ db.products,
        ((p.merchantId = plan.merchantId ∧ p.productId = plan.productId ∧
            p.version = plan.productVersion ∧ p' = p.patched plan version) ∨
          (¬ (p.merchantId = plan.merchantId ∧ p.productId = plan.productId ∧
            p.version = plan.productVersion) ∧ p' = p)) := by
  rw [updateProduct, Table.mem_update]
  refine exists_congr fun p => and_congr_right fun _ => ?_
  by_cases h : p.merchantId = plan.merchantId ∧ p.productId = plan.productId ∧
      p.version = plan.productVersion
  · simp [h, eq_comm, ProductRow.patched]
  · rw [if_neg (by simpa [and_assoc] using h)]
    constructor
    · intro heq
      exact .inr ⟨h, heq.symm⟩
    · rintro (⟨h₁, h₂, h₃, -⟩ | ⟨-, rfl⟩)
      · exact absurd ⟨h₁, h₂, h₃⟩ h
      · rfl

theorem mem_seed_of_mem {catalog : Catalog} {db : Ledger} {p : ProductRow}
    (h : p ∈ db.products) : p ∈ (seedSync catalog db).products := by
  simp only [seedSync]
  have hfold : ∀ (rows : List ProductRow) (t : Table ProductRow productKeys), p ∈ t →
      p ∈ rows.foldl Table.insertOrIgnore t := by
    intro rows
    induction rows with
    | nil => exact fun _ ht => ht
    | cons row rows ih => exact fun t ht => ih _ (Table.mem_insertOrIgnore_of_mem ht)
  exact hfold _ _ h

theorem Writes.grows {c : LedgerCall} {db db' : Ledger} (h : Writes c db db') : db.Grows db' := by
  cases h with
  | nothing => exact .refl db
  | seed =>
      refine ⟨fun _ h => h, fun _ h => h, fun _ h => h, fun p hp => ?_⟩
      exact ⟨p, mem_seed_of_mem hp, rfl, rfl, le_rfl, fun _ => rfl⟩
  | plan insert =>
      refine ⟨fun p hp => (Table.mem_of_insert? insert).2 (.inl hp), fun _ h => h, fun _ h => h,
        fun p hp => ⟨p, hp, rfl, rfl, le_rfl, fun _ => rfl⟩⟩
  | approval _ insert =>
      refine ⟨fun _ h => h, fun a ha => (Table.mem_of_insert? insert).2 (.inl ha), fun _ h => h,
        fun p hp => ⟨p, hp, rfl, rfl, le_rfl, fun _ => rfl⟩⟩
  | @receipt approval plan product receiptId db receipts _ _ _ _ _ _ _ _ _ _ insert =>
      refine ⟨fun _ h => h, fun _ h => h, fun r hr => (Table.mem_of_insert? insert).2 (.inl hr),
        fun p hp => ?_⟩
      by_cases h : p.merchantId = plan.merchantId ∧ p.productId = plan.productId ∧
          p.version = plan.productVersion
      · -- The patched row has the next version, so nothing is claimed of its description.
        refine ⟨p.patched plan (plan.productVersion + 1),
          mem_updateProduct.2 ⟨p, hp, .inl ⟨h.1, h.2.1, h.2.2, rfl⟩⟩, rfl, rfl, ?_, ?_⟩
        · simp [ProductRow.patched, h.2.2]
        · intro heq
          simp [ProductRow.patched, h.2.2] at heq
      · exact ⟨p, mem_updateProduct.2 ⟨p, hp, .inr ⟨h, rfl⟩⟩, rfl, rfl, le_rfl, fun _ => rfl⟩

/-- The product had this description at this version. -/
def Snapshot (merchantId productId description : String) (version : ℕ) (db : Ledger) : Prop :=
  ∃ p ∈ db.products, p.merchantId = merchantId ∧ p.productId = productId ∧
    version ≤ p.version ∧ (version = p.version → p.description = description)

theorem Snapshot.grows {merchantId productId description : String} {version : ℕ}
    {db db' : Ledger} (h : Snapshot merchantId productId description version db)
    (hgrows : db.Grows db') : Snapshot merchantId productId description version db' := by
  obtain ⟨p, hp, hmerchant, hid, hle, hsame⟩ := h
  obtain ⟨p', hp', hid', hmerchant', hle', hsame'⟩ := hgrows.products p hp
  refine ⟨p', hp', hmerchant'.trans hmerchant, hid'.trans hid, hle.trans hle', ?_⟩
  intro heq
  have hmid : version = p.version := le_antisymm hle (heq ▸ hle')
  exact (hsame' (hmid ▸ heq)).trans (hsame hmid)

/-- What `create_plan` writes into a plan, given what it has read. -/
structure PlanContent.Sound (content : PlanContent) (db : Ledger) : Prop where
  task : ':' ∉ content.taskId.toList
  planVersion : content.planVersion = 1
  actionId : content.actionId = "update_description"
  snapshot : Snapshot content.merchantId content.productId content.beforeValue
    content.productVersion db

theorem PlanContent.Sound.grows {content : PlanContent} {db db' : Ledger}
    (h : content.Sound db) (hgrows : db.Grows db') : content.Sound db' :=
  ⟨h.task, h.planVersion, h.actionId, h.snapshot.grows hgrows⟩

/-- Two texts cut at the last separator agree on both sides of it. -/
theorem eq_of_append_separator {α : Type*} {c : α} :
    ∀ {l₁ l₂ r₁ r₂ : List α}, c ∉ l₁ → c ∉ l₂ → l₁ ++ c :: r₁ = l₂ ++ c :: r₂ →
      l₁ = l₂ ∧ r₁ = r₂
  | [], [], _, _, _, _, h => by simpa using h
  | [], a :: l₂, _, _, _, h₂, h => by
      rw [List.nil_append, List.cons_append, List.cons.injEq] at h
      exact absurd (h.1 ▸ List.mem_cons_self) h₂
  | a :: l₁, [], _, _, h₁, _, h => by
      rw [List.nil_append, List.cons_append, List.cons.injEq] at h
      exact absurd (h.1 ▸ List.mem_cons_self) h₁
  | a :: l₁, b :: l₂, _, _, h₁, h₂, h => by
      rw [List.cons_append, List.cons_append, List.cons.injEq] at h
      have ih := eq_of_append_separator (fun hc => h₁ (List.mem_cons_of_mem _ hc))
        (fun hc => h₂ (List.mem_cons_of_mem _ hc)) h.2
      exact ⟨by rw [h.1, ih.1], ih.2⟩

/-- The key determines the merchant and the task, whatever characters the
merchant has, because only the merchant can contain the separator. -/
theorem idempotencyKey_injective {p q : ActionPlan} {db db' : Ledger}
    (hp : p.toPlanContent.Sound db) (hq : q.toPlanContent.Sound db')
    (h : idempotencyKey p = idempotencyKey q) :
    p.merchantId = q.merchantId ∧ p.taskId = q.taskId := by
  have hlist := congrArg String.toList h
  simp only [idempotencyKey, hp.planVersion, hp.actionId, hq.planVersion, hq.actionId,
    String.intercalate_cons_cons, String.intercalate_singleton, String.toList_append] at hlist
  have hhead : p.merchantId.toList ++ ':' :: p.taskId.toList =
      q.merchantId.toList ++ ':' :: q.taskId.toList := by
    refine (List.append_left_inj
      (":".toList ++ (toString (1 : ℤ)).toList ++ ":".toList ++ "update_description".toList)).1 ?_
    simpa using hlist
  have hrev := congrArg List.reverse hhead
  simp only [List.reverse_append, List.reverse_cons, List.append_assoc,
    List.singleton_append] at hrev
  obtain ⟨htask, hmerchant⟩ := eq_of_append_separator (by simpa using hp.task)
    (by simpa using hq.task) hrev
  exact ⟨String.toList_inj.1 (List.reverse_injective hmerchant),
    String.toList_inj.1 (List.reverse_injective htask)⟩

/-- The receipts of a product, in the order in which they were written. -/
def receiptsOf (productId : String) (db : Ledger) : List ReceiptRow :=
  db.receipts.rows.filter fun r => r.productId == productId

theorem mem_receiptsOf {productId : String} {db : Ledger} {r : ReceiptRow} :
    r ∈ receiptsOf productId db ↔ r ∈ db.receipts ∧ r.productId = productId := by
  simp [receiptsOf, Table.mem_rows]

/-- The receipt of an approved plan. -/
structure Fulfils (r : ReceiptRow) (plan : ActionPlan) (db : Ledger) : Prop where
  key : r.idempotencyKey = idempotencyKey plan
  productId : r.productId = plan.productId
  productVersion : r.productVersion = plan.productVersion + 1
  approved : ∃ a ∈ db.approvals, a.planId = plan.planId ∧ a.taskId = plan.taskId ∧
    a.decision = .approve

theorem Fulfils.grows {r : ReceiptRow} {plan : ActionPlan} {db db' : Ledger}
    (h : Fulfils r plan db) (hgrows : db.Grows db') : Fulfils r plan db' := by
  obtain ⟨a, ha, hrow⟩ := h.approved
  exact ⟨h.key, h.productId, h.productVersion, a, hgrows.approvals a ha, hrow⟩

/-- The approval of a plan of the same task and merchant. -/
structure Approves (a : ApprovalRow) (plan : ActionPlan) : Prop where
  planId : a.planId = plan.planId
  taskId : a.taskId = plan.taskId
  merchantId : a.merchantId = plan.merchantId
  planVersion : a.planVersion = plan.planVersion
  actionId : a.actionId = plan.actionId

/-- A product that was seeded from the catalogue and changed by its receipts only. -/
structure ProductRow.Traced (p : ProductRow) (catalog : Catalog) (db : Ledger) : Prop where
  versions : (receiptsOf p.productId db).map ReceiptRow.productVersion =
    List.range' 2 (p.version - 1)
  positive : 1 ≤ p.version
  seeded : p.version = 1 → catalog.seedDescription p.productId = some p.description
  written : ∀ r ∈ receiptsOf p.productId db, r.productVersion = p.version →
    ∀ plan ∈ db.plans, r.idempotencyKey = idempotencyKey plan → p.description = plan.afterValue

/-- The invariant of the commerce database. -/
structure Ledger.Invariant (catalog : Catalog) (db : Ledger) : Prop where
  plans : ∀ plan ∈ db.plans, plan.toPlanContent.Sound db
  approvals : ∀ a ∈ db.approvals, ∃ plan ∈ db.plans, Approves a plan
  receipts : ∀ r ∈ db.receipts, ∃ plan ∈ db.plans, Fulfils r plan db
  products : ∀ p ∈ db.products, p.Traced catalog db

namespace Ledger.Invariant

variable {catalog : Catalog} {db : Ledger}

theorem fresh : Ledger.fresh.Invariant catalog :=
  ⟨fun _ h => absurd h Table.not_mem_empty, fun _ h => absurd h Table.not_mem_empty,
    fun _ h => absurd h Table.not_mem_empty, fun _ h => absurd h Table.not_mem_empty⟩

/-- A key belongs to one plan. -/
theorem eq_of_key (h : db.Invariant catalog) {p q : ActionPlan} (hp : p ∈ db.plans)
    (hq : q ∈ db.plans) (hkey : idempotencyKey p = idempotencyKey q) : p = q :=
  eq_of_planTask hp hq (idempotencyKey_injective (h.plans p hp) (h.plans q hq) hkey).2

/-- The plan whose key a receipt carries is the plan the receipt fulfils. -/
theorem fulfils_of_key (h : db.Invariant catalog) {r : ReceiptRow} (hr : r ∈ db.receipts)
    {plan : ActionPlan} (hplan : plan ∈ db.plans)
    (hkey : r.idempotencyKey = idempotencyKey plan) : Fulfils r plan db := by
  obtain ⟨plan', hplan', hfulfils⟩ := h.receipts r hr
  rw [h.eq_of_key hplan hplan' (hkey.symm.trans hfulfils.key)]
  exact hfulfils

/-- The plan an approval refers to is the plan it approves. -/
theorem approves_of_planId (h : db.Invariant catalog) {a : ApprovalRow} (ha : a ∈ db.approvals)
    {plan : ActionPlan} (hplan : plan ∈ db.plans) (hid : plan.planId = a.planId) :
    Approves a plan := by
  obtain ⟨plan', hplan', happroves⟩ := h.approvals a ha
  rw [eq_of_planId hplan hplan' (hid.trans happroves.planId)]
  exact happroves

/-- The product a plan was made against is still there. -/
theorem product_of_plan (h : db.Invariant catalog) {plan : ActionPlan} (hplan : plan ∈ db.plans) :
    ∃ p ∈ db.products, p.merchantId = plan.merchantId ∧ p.productId = plan.productId ∧
      plan.productVersion ≤ p.version ∧
      (plan.productVersion = p.version → p.description = plan.beforeValue) :=
  (h.plans plan hplan).snapshot

/-- A row that is in the products after seeding was there before, or is the
catalogue's row of a product that was missing. -/
theorem mem_of_mem_seed {catalog : Catalog} {db : Ledger} {p : ProductRow}
    (h : p ∈ (seedSync catalog db).products) :
    p ∈ db.products ∨ (catalog.products.find? (fun q => q.productId == p.productId) = some p ∧
      ∀ q ∈ db.products, q.productId ≠ p.productId) := by
  have hfold : ∀ (rows : List ProductRow) (t : Table ProductRow productKeys),
      p ∈ rows.foldl Table.insertOrIgnore t → p ∈ t ∨
        (rows.find? (fun q => q.productId == p.productId) = some p ∧
          ∀ q ∈ t, q.productId ≠ p.productId) := by
    intro rows
    induction rows with
    | nil => exact fun _ ht => .inl ht
    | cons row rows ih =>
        intro t ht
        rw [List.foldl_cons] at ht
        cases hinsert : t.insert? row with
        | none =>
            rw [show t.insertOrIgnore row = t by simp [Table.insertOrIgnore, hinsert]] at ht
            apply (ih t ht).imp_right
            rintro ⟨hfind, hfree⟩
            refine ⟨?_, hfree⟩
            obtain ⟨f, hf, q, hq, heq⟩ := Table.insert?_eq_none_iff.1 hinsert
            rw [List.mem_singleton.1 hf] at heq
            rw [List.find?_cons_of_neg (by simpa [← heq] using hfree q hq)]
            exact hfind
        | some t' =>
            rw [show t.insertOrIgnore row = t' by simp [Table.insertOrIgnore, hinsert]] at ht
            have hfree := fun q hq =>
              Table.free_of_insert? hinsert (f := ProductRow.productId) (by simp) (b := q) hq
            rcases ih t' ht with hp | ⟨hfind, hfree'⟩
            · rcases (Table.mem_of_insert? hinsert).1 hp with hp | rfl
              · exact .inl hp
              · exact .inr ⟨List.find?_cons_of_pos (by simp), hfree⟩
            · refine .inr ⟨?_, fun q hq => hfree' q ((Table.mem_of_insert? hinsert).2 (.inl hq))⟩
              rw [List.find?_cons_of_neg
                (by simpa using hfree' row ((Table.mem_of_insert? hinsert).2 (.inr rfl)))]
              exact hfind
  exact hfold _ _ h

/-- The receipts of a product that is not in the database. -/
theorem receiptsOf_eq_nil (h : db.Invariant catalog) {productId : String}
    (hfree : ∀ q ∈ db.products, q.productId ≠ productId) : receiptsOf productId db = [] := by
  rw [List.eq_nil_iff_forall_not_mem]
  intro r hr
  obtain ⟨hr, hid⟩ := mem_receiptsOf.1 hr
  obtain ⟨plan, hplan, hfulfils⟩ := h.receipts r hr
  obtain ⟨p, hp, -, hpid, -⟩ := h.product_of_plan hplan
  exact hfree p hp (hpid.trans (hfulfils.productId.symm.trans hid))

theorem seed (h : db.Invariant catalog) : (seedSync catalog db).Invariant catalog where
  plans plan hplan := (h.plans plan hplan).grows Writes.seed.grows
  approvals := h.approvals
  receipts r hr := by
    obtain ⟨plan, hplan, hfulfils⟩ := h.receipts r hr
    exact ⟨plan, hplan, hfulfils.grows Writes.seed.grows⟩
  products p hp := by
    rcases mem_of_mem_seed hp with hp | ⟨hfind, hfree⟩
    · have htraced := h.products p hp
      exact ⟨htraced.versions, htraced.positive, htraced.seeded, htraced.written⟩
    · have hversion := catalog.version_one p (List.mem_of_find?_eq_some hfind)
      have hnil : receiptsOf p.productId (seedSync catalog db) = [] := h.receiptsOf_eq_nil hfree
      refine ⟨?_, hversion.ge, fun _ => ?_, ?_⟩
      · simp [hnil, hversion]
      · simp [Catalog.seedDescription, hfind]
      · simp [hnil]

theorem insertPlan (h : db.Invariant catalog) {content : PlanContent} (hcontent : content.Sound db)
    {planId : String} {plans : Table ActionPlan planKeys}
    (hinsert : db.plans.insert? { content with planId } = some plans) :
    Ledger.Invariant catalog { db with plans } where
  plans plan hplan := by
    have hgrows := (Writes.plan hinsert).grows
    rcases (Table.mem_of_insert? hinsert).1 hplan with hplan | rfl
    · exact (h.plans plan hplan).grows hgrows
    · exact hcontent.grows hgrows
  approvals a ha := by
    obtain ⟨plan, hplan, happroves⟩ := h.approvals a ha
    exact ⟨plan, (Table.mem_of_insert? hinsert).2 (.inl hplan), happroves⟩
  receipts r hr := by
    obtain ⟨plan, hplan, hfulfils⟩ := h.receipts r hr
    have hgrows := (Writes.plan hinsert).grows
    exact ⟨plan, hgrows.plans plan hplan, hfulfils.grows hgrows⟩
  products p hp := by
    have htraced := h.products p hp
    refine ⟨htraced.versions, htraced.positive, htraced.seeded, ?_⟩
    intro r hr hversion plan hplan hkey
    rcases (Table.mem_of_insert? hinsert).1 hplan with hplan | rfl
    · exact htraced.written r hr hversion plan hplan hkey
    · -- The new plan is of a task without a plan, so no receipt carries its key.
      obtain ⟨plan', hplan', hfulfils⟩ := h.receipts r (mem_receiptsOf.1 hr).1
      have htask := (idempotencyKey_injective (h.plans plan' hplan') hcontent
        (hfulfils.key.symm.trans hkey)).2
      exact absurd htask (Table.free_of_insert? hinsert
        (f := fun p : ActionPlan => p.taskId) (by simp) hplan')

theorem recordApproval (h : db.Invariant catalog) {plan : ActionPlan} (hplan : plan ∈ db.plans)
    {decision : ApprovalDecision} {approvalId : String}
    {approvals : Table ApprovalRow approvalKeys}
    (hinsert : db.approvals.insert?
      { approvalId, taskId := plan.taskId, merchantId := plan.merchantId, planId := plan.planId,
        planVersion := plan.planVersion, actionId := plan.actionId, decision } = some approvals) :
    Ledger.Invariant catalog { db with approvals } where
  plans plan hplan' := (h.plans plan hplan').grows (Writes.approval hplan hinsert).grows
  approvals a ha := by
    rcases (Table.mem_of_insert? hinsert).1 ha with ha | rfl
    · exact h.approvals a ha
    · exact ⟨plan, hplan, rfl, rfl, rfl, rfl, rfl⟩
  receipts r hr := by
    obtain ⟨plan', hplan', hfulfils⟩ := h.receipts r hr
    exact ⟨plan', hplan', hfulfils.grows (Writes.approval hplan hinsert).grows⟩
  products p hp :=
    have htraced := h.products p hp
    ⟨htraced.versions, htraced.positive, htraced.seeded, htraced.written⟩

/-- The receipts of a product after one more receipt was written. -/
theorem receiptsOf_insert {receipts : Table ReceiptRow receiptKeys} {row : ReceiptRow}
    (hinsert : db.receipts.insert? row = some receipts)
    (products : Table ProductRow productKeys) (productId : String) :
    receiptsOf productId { db with products, receipts } =
      receiptsOf productId db ++ if row.productId = productId then [row] else [] := by
  simp only [receiptsOf, Table.rows_of_insert? hinsert, List.filter_append]
  by_cases hid : row.productId = productId <;> simp [hid]

theorem applyApprovedPlan (h : db.Invariant catalog) {approval : ApprovalRow}
    {plan : ActionPlan} {product : ProductRow} {receiptId : String}
    {receipts : Table ReceiptRow receiptKeys}
    (happroval : approval ∈ db.approvals) (happroved : approval.decision = .approve)
    (hplan : plan ∈ db.plans) (hplanId : plan.planId = approval.planId)
    (hproduct : product ∈ db.products) (hmerchant : product.merchantId = plan.merchantId)
    (hproductId : product.productId = plan.productId)
    (hversion : product.version = plan.productVersion)
    (hinsert : db.receipts.insert?
      { receiptId, idempotencyKey := idempotencyKey plan, merchantId := plan.merchantId,
        productId := plan.productId, actionId := plan.actionId,
        productVersion := plan.productVersion + 1 } = some receipts)
    (hgrows : db.Grows { db with
      products := updateProduct plan (plan.productVersion + 1) db.products, receipts }) :
    Ledger.Invariant catalog { db with
      products := updateProduct plan (plan.productVersion + 1) db.products, receipts } where
  plans plan' hplan' := (h.plans plan' hplan').grows hgrows
  approvals := h.approvals
  receipts r hr := by
    rcases (Table.mem_of_insert? hinsert).1 hr with hr | rfl
    · obtain ⟨plan', hplan', hfulfils⟩ := h.receipts r hr
      exact ⟨plan', hplan', hfulfils.grows hgrows⟩
    · have happroves := h.approves_of_planId happroval hplan hplanId
      exact ⟨plan, hplan, rfl, rfl, rfl, approval, happroval, hplanId.symm, happroves.taskId,
        happroved⟩
  products p' hp' := by
    obtain ⟨p, hp, ⟨-, hid, hpversion, rfl⟩ | ⟨hother, rfl⟩⟩ := mem_updateProduct.1 hp'
    · have htraced := h.products p hp
      have hlist := receiptsOf_insert hinsert
        (updateProduct plan (plan.productVersion + 1) db.products) p.productId
      rw [if_pos hid.symm] at hlist
      have hpos := htraced.positive
      refine ⟨?_, Nat.le_add_left _ _, ?_, ?_⟩
      · change (receiptsOf p.productId _).map _ = List.range' 2 (plan.productVersion + 1 - 1)
        rw [hlist, List.map_append, htraced.versions, hpversion,
          show plan.productVersion + 1 - 1 = plan.productVersion - 1 + 1 by omega,
          List.range'_1_concat]
        simp
        omega
      · intro hone
        simp only [ProductRow.patched] at hone
        omega
      · intro r hr hrversion plan' hplan' hkey
        change r ∈ receiptsOf p.productId _ at hr
        rw [hlist, List.mem_append, List.mem_singleton] at hr
        rcases hr with hr | rfl
        · -- The receipts written before stop at the version the plan was made against.
          have hmem := List.mem_map_of_mem (f := ReceiptRow.productVersion) hr
          rw [htraced.versions, List.mem_range'_1] at hmem
          simp only [ProductRow.patched] at hrversion
          omega
        · rw [h.eq_of_key hplan' hplan hkey.symm]
          rfl
    · have htraced := h.products p' hp
      have hid : plan.productId ≠ p'.productId := by
        intro hid
        have heq := eq_of_productId hp hproduct (hid.symm.trans hproductId.symm)
        subst heq
        exact hother ⟨hmerchant, hproductId, hversion⟩
      have hlist := receiptsOf_insert hinsert
        (updateProduct plan (plan.productVersion + 1) db.products) p'.productId
      rw [if_neg hid, List.append_nil] at hlist
      exact ⟨by rw [hlist]; exact htraced.versions, htraced.positive, htraced.seeded,
        by rw [hlist]; exact htraced.written⟩

end Ledger.Invariant

/-- Every step keeps the invariant, if a plan that is inserted is what
`create_plan` makes of what it has read. -/
theorem Writes.invariant {catalog : Catalog} {c : LedgerCall} {db db' : Ledger}
    (h : Writes c db db') (hinv : db.Invariant catalog)
    (hseed : ∀ catalog', c = .initializeSync catalog' → catalog' = catalog)
    (hplan : ∀ content, c = .insertPlan content → content.Sound db) : db'.Invariant catalog := by
  have hgrows := h.grows
  cases h with
  | nothing => exact hinv
  | seed =>
      rw [hseed _ rfl]
      exact hinv.seed
  | plan insert => exact hinv.insertPlan (hplan _ rfl) insert
  | approval mem insert => exact hinv.recordApproval mem insert
  | receipt approval_mem approved plan_mem planId _ product_mem merchant productId version _
      insert =>
      exact hinv.applyApprovedPlan approval_mem approved plan_mem planId product_mem merchant
        productId version insert hgrows

end CommerceAgent
