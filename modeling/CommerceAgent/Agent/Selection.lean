import CommerceAgent.Agent.Graph
import CommerceAgent.Tasks.System
import CommerceAgent.Text.Casing

/-!
# The selection of a product

`resolve_product` is a fuzzy search, and both `submit_input` and the resumed scope node
use it to decide whether a product belongs to the merchant: they accept `p` when some
item of the search for `p` has the identifier `p`. The search is exact for this use,
because an identifier, stripped and lower-cased, occurs in its own lower case.
-/

namespace CommerceAgent

open Relational

/-- `strip` and `lower` of strings, over the character data. -/
def textOps (table : Text.CaseTable) : TextOps where
  strip s := String.ofList (Text.strip s.toList)
  lower s := String.ofList (table.lower s.toList)

/-- The rows that `resolve_product` selects, in the order of the product identifiers. -/
def merchantProducts (merchantId : String) (db : Ledger) : List ProductRow :=
  (db.products.rows.filter fun row => row.merchantId == merchantId).mergeSort
    fun p q => decide (p.productId ≤ q.productId)

/-- `p` is the identifier of a product of the merchant. -/
def OwnProduct (merchantId p : String) (db : Ledger) : Prop :=
  ∃ row ∈ db.products, row.merchantId = merchantId ∧ row.productId = p

section

variable {merchantId : String} {db : Ledger}

theorem mem_merchantProducts {row : ProductRow} :
    row ∈ merchantProducts merchantId db ↔ row ∈ db.products ∧ row.merchantId = merchantId := by
  simp [merchantProducts, Table.mem_rows]

/-- The identifier is the primary key, so the order is strict. -/
theorem merchantProducts_ordered :
    (merchantProducts merchantId db).Pairwise fun p q => p.productId < q.productId := by
  have hsorted : (merchantProducts merchantId db).Pairwise
      fun p q => decide (p.productId ≤ q.productId) = true := by
    apply List.pairwise_mergeSort
    · intro p q r hpq hqr
      exact decide_eq_true ((of_decide_eq_true hpq).trans (of_decide_eq_true hqr))
    · intro p q
      simpa using le_total p.productId q.productId
  have hnodup : ((merchantProducts merchantId db).map ProductRow.productId).Nodup := by
    have hrows := db.products.nodup ProductRow.productId List.mem_cons_self
    exact ((List.mergeSort_perm _ _).map _).nodup_iff.2
      (hrows.sublist (List.filter_sublist.map ProductRow.productId))
  have hne : (merchantProducts merchantId db).Pairwise fun p q => p.productId ≠ q.productId :=
    List.pairwise_map.1 hnodup
  exact (hsorted.and hne).imp fun h => lt_of_le_of_ne (of_decide_eq_true h.1) h.2

end

section

variable (text : TextOps) {merchantId : String} {db : Ledger}

/-- The rows that match a query. -/
def productHits (text : TextOps) (query : String) (rows : List ProductRow) : List ProductRow :=
  let normalized := text.lower (text.strip query)
  rows.filter fun row => normalized != "" &&
    (occursIn normalized (text.lower row.productId) || occursIn normalized (text.lower row.name))

/-- The rows that a query returns: all of them when none matches. -/
def foundProducts (text : TextOps) (query : String) (rows : List ProductRow) : List ProductRow :=
  if productHits text query rows = [] then rows else productHits text query rows

theorem resolveProductSync_eq (hproducts : ∃ row ∈ db.products, row.merchantId = merchantId)
    (query : String) :
    resolveProductSync text merchantId query db =
      .ok ((foundProducts text query (merchantProducts merchantId db)).map
        ProductRow.summary) := by
  obtain ⟨row, hrow, hmerchant⟩ := hproducts
  have hmem : row ∈ merchantProducts merchantId db := mem_merchantProducts.2 ⟨hrow, hmerchant⟩
  have hne : merchantProducts merchantId db ≠ [] := List.ne_nil_of_mem hmem
  unfold merchantProducts at hne
  simp only [resolveProductSync, if_neg hne]
  rfl

theorem foundProducts_sublist (query : String) (rows : List ProductRow) :
    (foundProducts text query rows).Sublist rows := by
  unfold foundProducts
  split_ifs
  · exact List.Sublist.refl rows
  · exact List.filter_sublist

theorem foundProducts_ne_nil (query : String) {rows : List ProductRow} (hrows : rows ≠ []) :
    foundProducts text query rows ≠ [] := by
  unfold foundProducts
  split_ifs with hhits
  · exact hrows
  · exact hhits

end

/-- A product is found by its own identifier. -/
theorem mem_foundProducts_self (table : Text.CaseTable) {rows : List ProductRow}
    {row : ProductRow} (hrow : row ∈ rows) :
    row ∈ foundProducts (textOps table) row.productId rows := by
  unfold foundProducts
  split_ifs with hhits
  · exact hrow
  · -- Some row matches, so what is searched for is not empty.
    have hnormalized : (textOps table).lower ((textOps table).strip row.productId) ≠ "" := by
      intro hempty
      simp [productHits, hempty] at hhits
    have hoccurs : occursIn ((textOps table).lower ((textOps table).strip row.productId))
        ((textOps table).lower row.productId) = true := by
      simpa [occursIn, textOps] using table.lower_strip_infix row.productId.toList
    simp [productHits, hrow, hnormalized, hoccurs]

/-- The laws of the search for one merchant: whatever the query, the items are a non-empty
part of the merchant's products in the order of their identifiers. -/
structure Resolved (merchantId : String) (db : Ledger) (items : List ProductSummary) : Prop where
  ne_nil : items ≠ []
  sublist : items.Sublist ((merchantProducts merchantId db).map ProductRow.summary)
  ordered : items.Pairwise fun item next => item.productId < next.productId
  own : ∀ item ∈ items, OwnProduct merchantId item.productId db

section

variable {merchantId : String} {db : Ledger}

theorem resolved_foundProducts (text : TextOps) (query : String)
    (hproducts : ∃ row ∈ db.products, row.merchantId = merchantId) :
    Resolved merchantId db ((foundProducts text query (merchantProducts merchantId db)).map
      ProductRow.summary) := by
  have hsublist := foundProducts_sublist text query (merchantProducts merchantId db)
  constructor
  · obtain ⟨row, hrow, hmerchant⟩ := hproducts
    have hmem : row ∈ merchantProducts merchantId db := mem_merchantProducts.2 ⟨hrow, hmerchant⟩
    have hne := foundProducts_ne_nil text query (List.ne_nil_of_mem hmem)
    simpa using hne
  · exact hsublist.map _
  · exact List.pairwise_map.2 (merchantProducts_ordered.sublist hsublist)
  · intro item hitem
    obtain ⟨row, hrow, rfl⟩ := List.mem_map.1 hitem
    have hrow' := mem_merchantProducts.1 (hsublist.subset hrow)
    exact ⟨row, hrow'.1, hrow'.2, rfl⟩

/-- The identifier is among those found exactly when it is the merchant's. -/
theorem exists_found_iff (table : Text.CaseTable) (p : String) :
    (∃ item ∈ (foundProducts (textOps table) p (merchantProducts merchantId db)).map
        ProductRow.summary, item.productId = p) ↔ OwnProduct merchantId p db := by
  constructor
  · rintro ⟨item, hitem, rfl⟩
    obtain ⟨row, hrow, rfl⟩ := List.mem_map.1 hitem
    have hmem := (foundProducts_sublist (textOps table) _ _).subset hrow
    have hrow' := mem_merchantProducts.1 hmem
    exact ⟨row, hrow'.1, hrow'.2, rfl⟩
  · rintro ⟨row, hrow, hmerchant, rfl⟩
    have hmem : row ∈ merchantProducts merchantId db := mem_merchantProducts.2 ⟨hrow, hmerchant⟩
    exact ⟨row.summary, List.mem_map_of_mem (mem_foundProducts_self table hmem), rfl⟩

/-- For a merchant with a product, the test of `submit_input` (`any`) and that of the
resumed scope node (`all`, negated) accept exactly the merchant's products, and every
search returns a non-empty part of these in order; a single candidate is one of them. -/
theorem product_selection_exact (table : Text.CaseTable) (merchantId : String) (db : Ledger)
    (hproducts : ∃ row ∈ db.products, row.merchantId = merchantId) :
    (∀ p, ∃ items, resolveProductSync (textOps table) merchantId p db = .ok items ∧
      ((items.any fun item => item.productId == p) = true ↔ OwnProduct merchantId p db) ∧
      ((items.all fun item => item.productId != p) = false ↔ OwnProduct merchantId p db)) ∧
    (∀ query, ∃ items, resolveProductSync (textOps table) merchantId query db = .ok items ∧
      Resolved merchantId db items) ∧
    ∀ query candidate, resolveProductSync (textOps table) merchantId query db = .ok [candidate] →
      OwnProduct merchantId candidate.productId db := by
  have heq := resolveProductSync_eq (textOps table) hproducts
  have hresolved := fun query => resolved_foundProducts (textOps table) query hproducts
  refine ⟨?_, ?_, ?_⟩
  · intro p
    refine ⟨_, heq p, ?_, ?_⟩
    · rw [← exists_found_iff table p]
      simp
    · rw [← exists_found_iff table p]
      simp
  · intro query
    exact ⟨_, heq query, hresolved query⟩
  · intro query candidate hcandidate
    have hitems := Except.ok.inj ((heq query).symm.trans hcandidate)
    exact (hresolved query).own candidate (hitems ▸ List.mem_singleton_self candidate)

end

/-- The products of `_seed_sync`. -/
def seededLedger : Ledger :=
  { Ledger.fresh with products := ⟨demoCatalog.products, by decide⟩ }

/-- The seeded merchant. -/
theorem product_selection_exact_demo :
    (∀ p, ∃ items,
      resolveProductSync (textOps .basicLatin) demoMerchantId p seededLedger = .ok items ∧
      ((items.any fun item => item.productId == p) = true ↔
        OwnProduct demoMerchantId p seededLedger) ∧
      ((items.all fun item => item.productId != p) = false ↔
        OwnProduct demoMerchantId p seededLedger)) ∧
    (∀ query, ∃ items,
      resolveProductSync (textOps .basicLatin) demoMerchantId query seededLedger = .ok items ∧
      Resolved demoMerchantId seededLedger items) ∧
    ∀ query candidate,
      resolveProductSync (textOps .basicLatin) demoMerchantId query seededLedger =
        .ok [candidate] →
      OwnProduct demoMerchantId candidate.productId seededLedger :=
  product_selection_exact .basicLatin demoMerchantId seededLedger
    ⟨_, List.mem_cons_self, rfl⟩

end CommerceAgent
