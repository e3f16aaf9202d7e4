import CommerceAgent.Agent.Graph
import CommerceAgent.Commerce.Repository
import CommerceAgent.Sequence.Descent

/-!
# The product context

`get_product_context` parses the columns of the sections it is asked for and lists the
evidence of each: `_extract_evidence_ids` walks over the parsed value and lists the
`evidence_id` of every object in it. What it lists is counted by the places of the value
where such an object stands.

`json.loads` is a parameter.
-/

namespace CommerceAgent

open Relational Sequence

/-- A row of `product_context`. -/
structure ContextRow where
  merchantId : String
  productId : String
  inventoryJson : String
  priceJson : String
  reviewsJson : String
  competitorsJson : String

abbrev contextKeys : List (ContextRow → String × String) :=
  [fun context => (context.merchantId, context.productId)]

namespace Json

/-- `evidence_id = value.get("evidence_id")`, if it is a string that is not empty. -/
def evidenceId? : Json → Option String
  | .obj fields =>
      match JsonObject.get? "evidence_id" fields with
      | some (.str evidenceId) => if evidenceId = "" then none else some evidenceId
      | _ => none
  | _ => none

/-- The values that an object or a list is made of. -/
def children : Json → List Json
  | .obj fields => fields.map Prod.snd
  | .arr items => items
  | _ => []

theorem wellFounded_children : WellFounded fun v w : Json => v ∈ w.children := by
  apply Subrelation.wf (r := fun v w : Json => sizeOf v < sizeOf w) _ (measure sizeOf).wf
  intro v w hv
  cases w with
  | obj fields =>
      obtain ⟨⟨key, nested⟩, hfield, rfl⟩ := List.mem_map.1 hv
      have hsize := List.sizeOf_lt_of_mem hfield
      simp only [obj.sizeOf_spec, Prod.mk.sizeOf_spec] at hsize ⊢
      omega
  | arr items =>
      have hmem : v ∈ items := hv
      have hsize := List.sizeOf_lt_of_mem hmem
      simp only [arr.sizeOf_spec]
      omega
  | _ => cases hv

/-- The places of a value where an object has the string as its `evidence_id`. -/
def evidencePlaces (evidenceId : String) (v : Json) : Set (List ℕ) :=
  {place | ∃ fields : JsonObject, descend children v place = some (.obj fields) ∧
    fields.get? "evidence_id" = some (.str evidenceId) ∧ evidenceId ≠ ""}

theorem evidenceId?_eq_some {v : Json} {evidenceId : String} :
    v.evidenceId? = some evidenceId ↔ ∃ fields : JsonObject, v = .obj fields ∧
      fields.get? "evidence_id" = some (.str evidenceId) ∧ evidenceId ≠ "" := by
  constructor
  · intro h
    unfold evidenceId? at h
    split at h
    · split at h
      · split at h
        · cases h
        · cases h
          exact ⟨_, rfl, ‹_›, ‹_›⟩
      · cases h
    · cases h
  · rintro ⟨fields, rfl, hget, hne⟩
    simp [evidenceId?, hget, hne]

theorem evidencePlaces_eq (evidenceId : String) (v : Json) : evidencePlaces evidenceId v =
    positions children (fun w => w.evidenceId? = some evidenceId) v := by
  ext place
  simp only [evidencePlaces, positions, evidenceId?_eq_some, Set.mem_ofPred_eq]
  constructor
  · rintro ⟨fields, hdescend, hget⟩
    exact ⟨_, hdescend, fields, rfl, hget⟩
  · rintro ⟨_, hdescend, fields, rfl, hget⟩
    exact ⟨fields, hdescend, hget⟩

end Json

mutual

/-- `_extract_evidence_ids(value)`. -/
def extractEvidenceIds : Json → List String
  | .obj fields => (Json.obj fields).evidenceId?.toList ++ extractFromFields fields
  | .arr items => extractFromItems items
  | _ => []

def extractFromItems : List Json → List String
  | [] => []
  | nested :: items => extractEvidenceIds nested ++ extractFromItems items

def extractFromFields : List (String × Json) → List String
  | [] => []
  | (_, nested) :: fields => extractEvidenceIds nested ++ extractFromFields fields

end

theorem extractFromItems_eq (items : List Json) :
    extractFromItems items = items.flatMap extractEvidenceIds := by
  induction items with
  | nil => simp [extractFromItems]
  | cons nested items ih => simp [extractFromItems, ih]

theorem extractFromFields_eq (fields : List (String × Json)) :
    extractFromFields fields = (fields.map Prod.snd).flatMap extractEvidenceIds := by
  induction fields with
  | nil => simp [extractFromFields]
  | cons field fields ih => simp [extractFromFields, ih]

theorem extractEvidenceIds_eq (v : Json) : extractEvidenceIds v =
    v.evidenceId?.toList ++ v.children.flatMap extractEvidenceIds := by
  cases v with
  | obj fields => rw [extractEvidenceIds, extractFromFields_eq, Json.children]
  | arr items => simp [extractEvidenceIds, extractFromItems_eq, Json.children, Json.evidenceId?]
  | _ => simp [extractEvidenceIds, Json.children, Json.evidenceId?]

/-- An identifier is listed once for each place where it is. -/
theorem count_extractEvidenceIds (evidenceId : String) (v : Json) :
    ((extractEvidenceIds v).count evidenceId : ℕ∞) = (v.evidencePlaces evidenceId).encard := by
  rw [Json.evidencePlaces_eq]
  exact count_gathered Json.wellFounded_children extractEvidenceIds_eq evidenceId v

/-- The sections that are read from a column. -/
def contextColumns : List (String × (ContextRow → String)) :=
  [("inventory", ContextRow.inventoryJson), ("price", ContextRow.priceJson),
    ("reviews", ContextRow.reviewsJson), ("competitors", ContextRow.competitorsJson)]

/-- `set(sections or [...])`. -/
def requestedSections : Option (List String) → List String
  | none | some [] => ["product", "inventory", "price", "reviews", "competitors"]
  | some sections => sections

/-- What the loop over the sections has put into `data` and into `evidence_ids`. -/
structure ContextData where
  data : JsonObject
  evidenceIds : List String := []

/-- `SELECT ... FROM products p JOIN product_context c ... WHERE p.merchant_id = ? AND
p.product_id = ?`. -/
def selectContext (merchantId productId : String) (db : Ledger)
    (contexts : Table ContextRow contextKeys) : Option (ProductRow × ContextRow) := do
  let product ← db.products.select fun p => p.merchantId == merchantId && p.productId == productId
  let context ← contexts.select fun c =>
    c.merchantId == product.merchantId && c.productId == product.productId
  pure (product, context)

section Sections

variable (loads : String → Except Exn Json)

/-- One section of the loop. -/
def ContextData.addSection (row : ContextRow) (requested : List String) (read : ContextData)
    (column : String × (ContextRow → String)) : Except Exn ContextData :=
  if column.1 ∈ requested then do
    let sectionData ← loads (column.2 row)
    pure { data := read.data ++ [(column.1, sectionData)]
           evidenceIds := read.evidenceIds ++ extractEvidenceIds sectionData }
  else pure read

/-- The `product` section. -/
def productData (product : ProductRow) : Json :=
  .obj [("name", .str product.name), ("description", .str product.description),
    ("version", .int product.version)]

/-- `CommerceRepository._get_product_context_sync`. -/
def getProductContextSync (merchantId productId : String) (sections : Option (List String))
    (db : Ledger) (contexts : Table ContextRow contextKeys) : Except Exn JsonObject :=
  match selectContext merchantId productId db contexts with
  | none => .error (.productNotFound "商品不存在或不属于当前商家")
  | some (product, row) => do
      let requested := requestedSections sections
      let read ← contextColumns.foldlM (ContextData.addSection loads row requested)
        { data := if "product" ∈ requested then [("product", productData product)] else [] }
      pure [("merchant_id", .str merchantId), ("product_id", .str productId),
        ("snapshot_id", .str ("context-" ++ productId ++ "-v" ++ toString product.version)),
        ("as_of", .str "2026-09-14T00:00:00Z"), ("source", .str "demo_commerce_db"),
        ("data", .obj read.data), ("evidence_ids", .arr (read.evidenceIds.map .str)),
        ("missing_fields", .arr [])]

end Sections

section Loop

variable {loads : String → Except Exn Json} {row : ContextRow} {requested : List String}

/-- The loop parses the columns of the requested sections, and lists the evidence of
each. -/
theorem foldlM_addSection {columns : List (String × (ContextRow → String))}
    {read final : ContextData}
    (h : columns.foldlM (ContextData.addSection loads row requested) read = .ok final) :
    ∃ parsed : JsonObject, final.data = read.data ++ parsed ∧
      final.evidenceIds = read.evidenceIds ++
        parsed.flatMap (fun field => extractEvidenceIds field.2) ∧
      List.Forall₂ (fun column field => field.1 = column.1 ∧ loads (column.2 row) = .ok field.2)
        (columns.filter fun column => column.1 ∈ requested) parsed := by
  induction columns generalizing read with
  | nil =>
      cases h
      exact ⟨[], by simp, by simp, .nil⟩
  | cons column columns ih =>
      rw [List.foldlM_cons, ContextData.addSection] at h
      by_cases hrequested : column.1 ∈ requested
      · rw [if_pos hrequested] at h
        cases hloads : loads (column.2 row) with
        | error e =>
            rw [hloads] at h
            cases h
        | ok sectionData =>
            rw [hloads] at h
            obtain ⟨parsed, hdata, hids, hparsed⟩ := ih h
            refine ⟨(column.1, sectionData) :: parsed, ?_, ?_, ?_⟩
            · rw [hdata, List.append_assoc, List.singleton_append]
            · rw [hids, List.append_assoc, List.flatMap_cons]
            · rw [List.filter_cons_of_pos (by simpa using hrequested)]
              exact .cons ⟨rfl, hloads⟩ hparsed
      · rw [if_neg hrequested] at h
        rw [List.filter_cons_of_neg (by simpa using hrequested)]
        exact ih h

end Loop

theorem get?_of_mem {d : JsonObject} (hkeys : (d.map Prod.fst).Nodup) {field : String × Json}
    (h : field ∈ d) : d.get? field.1 = some field.2 := by
  induction d with
  | nil => cases h
  | cons first d ih =>
      rw [List.map_cons, List.nodup_cons] at hkeys
      unfold JsonObject.get?
      rcases List.mem_cons.1 h with rfl | hmem
      · simp
      · have hne : first.1 ≠ field.1 := by
          intro heq
          exact hkeys.1 (heq ▸ List.mem_map_of_mem hmem)
        rw [List.find?_cons_of_neg (by simpa using hne)]
        exact ih hkeys.2 hmem

theorem get?_eq_none {d : JsonObject} {key : String} : d.get? key = none ↔
    key ∉ d.map Prod.fst := by
  simp only [JsonObject.get?, Option.map_eq_none_iff, List.find?_eq_none, List.mem_map]
  constructor
  · rintro h ⟨field, hfield, rfl⟩
    exact h field hfield (by simp)
  · intro h field hfield heq
    exact h ⟨field, hfield, by simpa using heq⟩

theorem filterMap_of_forall₂ {α β γ : Type} {R : α → β → Prop} {f : α → Option γ} {g : β → γ}
    {as : List α} {bs : List β} (h : List.Forall₂ R as bs)
    (hfg : ∀ a, ∀ b ∈ bs, R a b → f a = some (g b)) : as.filterMap f = bs.map g := by
  induction h with
  | nil => rfl
  | cons hab _ ih =>
      rw [List.filterMap_cons_some (hfg _ _ (List.mem_cons_self ..) hab), List.map_cons,
        ih fun a b hb => hfg a b (List.mem_cons_of_mem _ hb)]

theorem exists_of_forall₂ {α β : Type} {R : α → β → Prop} {as : List α} {bs : List β}
    (h : List.Forall₂ R as bs) {a : α} (ha : a ∈ as) : ∃ b ∈ bs, R a b := by
  induction h with
  | nil => cases ha
  | cons hab _ ih =>
      rcases List.mem_cons.1 ha with rfl | ha
      · exact ⟨_, List.mem_cons_self .., hab⟩
      · obtain ⟨b, hb, hab⟩ := ih ha
        exact ⟨b, List.mem_cons_of_mem _ hb, hab⟩

theorem mem_extractEvidenceIds {evidenceId : String} {v : Json} :
    evidenceId ∈ extractEvidenceIds v ↔ (v.evidencePlaces evidenceId).Nonempty := by
  rw [← List.count_pos_iff, ← Set.encard_ne_zero, ← count_extractEvidenceIds]
  simp [Nat.pos_iff_ne_zero]

section Result

variable {loads : String → Except Exn Json} {merchantId productId : String}
  {sections : Option (List String)} {db : Ledger} {contexts : Table ContextRow contextKeys}
  {result : JsonObject}

/-- What the result holds: the parsed columns of the requested sections, and the evidence
of each. -/
theorem getProductContextSync_ok
    (h : getProductContextSync loads merchantId productId sections db contexts = .ok result) :
    ∃ (product : ProductRow) (row : ContextRow) (described parsed : JsonObject),
      selectContext merchantId productId db contexts = some (product, row) ∧
      described = (if "product" ∈ requestedSections sections then
        [("product", productData product)] else []) ∧
      List.Forall₂ (fun column field => field.1 = column.1 ∧ loads (column.2 row) = .ok field.2)
        (contextColumns.filter fun column => column.1 ∈ requestedSections sections) parsed ∧
      result.get? "data" = some (.obj (described ++ parsed)) ∧
      result.get? "evidence_ids" =
        some (.arr ((parsed.flatMap fun field => extractEvidenceIds field.2).map .str)) := by
  unfold getProductContextSync at h
  cases hselect : selectContext merchantId productId db contexts with
  | none =>
      rw [hselect] at h
      cases h
  | some found =>
      obtain ⟨product, row⟩ := found
      rw [hselect] at h
      simp only at h
      cases hloop : contextColumns.foldlM
          (ContextData.addSection loads row (requestedSections sections))
          { data := if "product" ∈ requestedSections sections then
              [("product", productData product)] else [] } with
      | error e =>
          rw [hloop] at h
          cases h
      | ok read =>
          rw [hloop] at h
          cases h
          obtain ⟨parsed, hdata, hids, hparsed⟩ := foldlM_addSection hloop
          refine ⟨product, row, _, parsed, rfl, rfl, hparsed, ?_, ?_⟩
          · rw [← hdata]
            rfl
          · rw [List.nil_append] at hids
            rw [← hids]
            rfl

/-- The keys of `data` are those of the requested sections, each once. -/
theorem keys_of_parsed {row : ContextRow} {described parsed : JsonObject} {product : ProductRow}
    (hdescribed : described = (if "product" ∈ requestedSections sections then
      [("product", productData product)] else []))
    (hparsed : List.Forall₂
      (fun column field => field.1 = column.1 ∧ loads (column.2 row) = .ok field.2)
      (contextColumns.filter fun column => column.1 ∈ requestedSections sections) parsed) :
    ((described ++ parsed).map Prod.fst).Nodup ∧
      ∀ key ∈ (described ++ parsed).map Prod.fst, key ∈ requestedSections sections := by
  have hkeys : parsed.map Prod.fst =
      (contextColumns.filter fun column => column.1 ∈ requestedSections sections).map
        Prod.fst := by
    rw [← filterMap_of_forall₂ hparsed (f := fun column => some column.1), List.filterMap_eq_map']
    rintro column field - ⟨hkey, -⟩
    rw [hkey]
  have hcolumns : (contextColumns.map Prod.fst).Nodup ∧
      "product" ∉ contextColumns.map Prod.fst := by
    decide
  have hsub : (parsed.map Prod.fst).Sublist (contextColumns.map Prod.fst) := by
    rw [hkeys]
    exact List.filter_sublist.map _
  have hrequested : ∀ key ∈ parsed.map Prod.fst, key ∈ requestedSections sections := by
    intro key hkey
    rw [hkeys] at hkey
    obtain ⟨column, hcolumn, rfl⟩ := List.mem_map.1 hkey
    simpa using (List.mem_filter.1 hcolumn).2
  rw [hdescribed, List.map_append]
  by_cases hproduct : "product" ∈ requestedSections sections
  · rw [if_pos hproduct, List.map_singleton, List.singleton_append]
    constructor
    · exact List.nodup_cons.2 ⟨fun hmem => hcolumns.2 (hsub.subset hmem), hcolumns.1.sublist hsub⟩
    · exact List.forall_mem_cons.2 ⟨hproduct, hrequested⟩
  · rw [if_neg hproduct]
    exact ⟨hcolumns.1.sublist hsub, hrequested⟩

/-- The evidence listed is that of the data of the sections, and of no section that is not
requested. -/
theorem getProductContextSync_evidence
    (h : getProductContextSync loads merchantId productId sections db contexts = .ok result) :
    ∃ (product : ProductRow) (row : ContextRow) (data : JsonObject) (evidenceIds : List String),
      selectContext merchantId productId db contexts = some (product, row) ∧
      result.get? "data" = some (.obj data) ∧
      result.get? "evidence_ids" = some (.arr (evidenceIds.map .str)) ∧
      (∀ key, data.get? key ≠ none → key ∈ requestedSections sections) ∧
      (∀ column ∈ contextColumns, column.1 ∈ requestedSections sections →
        ∃ v, loads (column.2 row) = .ok v ∧ data.get? column.1 = some v) ∧
      (∀ evidenceId, (evidenceIds.count evidenceId : ℕ∞) =
        ((contextColumns.filterMap fun column => data.get? column.1).map fun v =>
          (v.evidencePlaces evidenceId).encard).sum) ∧
      ∀ evidenceId, evidenceId ∈ evidenceIds ↔
        ∃ column ∈ contextColumns, column.1 ∈ requestedSections sections ∧
          ∃ v, loads (column.2 row) = .ok v ∧ (v.evidencePlaces evidenceId).Nonempty := by
  obtain ⟨product, row, described, parsed, hselect, hdescribed, hparsed, hdata, hids⟩ :=
    getProductContextSync_ok h
  obtain ⟨hnodup, hkeys⟩ := keys_of_parsed hdescribed hparsed
  have hget : ∀ field ∈ parsed, (described ++ parsed).get? field.1 = some field.2 :=
    fun field hfield => get?_of_mem hnodup (List.mem_append_right _ hfield)
  have hrequested : ∀ key, (described ++ parsed).get? key ≠ none →
      key ∈ requestedSections sections := by
    intro key hkey
    exact hkeys key (not_not.1 fun hmem => hkey (get?_eq_none.2 hmem))
  -- The values of the sections are the parsed columns, in their order.
  have hvalues : (contextColumns.filterMap fun column => (described ++ parsed).get? column.1) =
      parsed.map Prod.snd := by
    rw [← filterMap_of_forall₂ hparsed (f := fun column => (described ++ parsed).get? column.1),
      List.filterMap_filter]
    · apply List.filterMap_congr
      intro column _
      by_cases hcolumn : column.1 ∈ requestedSections sections
      · simp [hcolumn]
      · simpa [hcolumn] using fun hne => hcolumn (hrequested column.1 hne)
    · rintro column field hfield ⟨hkey, -⟩
      rw [← hkey]
      exact hget field hfield
  refine ⟨product, row, described ++ parsed, _, hselect, hdata, hids, hrequested, ?_, ?_, ?_⟩
  · intro column hcolumn hmem
    obtain ⟨field, hfield, hkey, hloads⟩ := exists_of_forall₂ hparsed
      (List.mem_filter.2 ⟨hcolumn, by simpa using hmem⟩)
    exact ⟨field.2, hloads, hkey ▸ hget field hfield⟩
  · intro evidenceId
    rw [hvalues, List.count_flatMap, Nat.cast_list_sum, List.map_map, List.map_map]
    congr 1
    apply List.map_congr_left
    intro field _
    exact count_extractEvidenceIds evidenceId field.2
  · intro evidenceId
    simp only [List.mem_flatMap, mem_extractEvidenceIds]
    constructor
    · rintro ⟨field, hfield, hplaces⟩
      obtain ⟨column, hcolumn, hkey, hloads⟩ := exists_of_forall₂ hparsed.flip hfield
      rw [List.mem_filter] at hcolumn
      exact ⟨column, hcolumn.1, by simpa using hcolumn.2, field.2, hloads, hplaces⟩
    · rintro ⟨column, hcolumn, hmem, v, hloads, hplaces⟩
      obtain ⟨field, hfield, -, hfieldLoads⟩ := exists_of_forall₂ hparsed
        (List.mem_filter.2 ⟨hcolumn, by simpa using hmem⟩)
      rw [hfieldLoads] at hloads
      cases hloads
      exact ⟨field, hfield, hplaces⟩

end Result

/-- The evidence is listed exactly: each identifier once for each object that has it, and
in the product context once for each such object in the data of its sections. -/
theorem extractEvidenceIds_exact :
    (∀ (v : Json) (evidenceId : String),
      ((extractEvidenceIds v).count evidenceId : ℕ∞) = (v.evidencePlaces evidenceId).encard) ∧
    ∀ (loads : String → Except Exn Json) (merchantId productId : String)
      (sections : Option (List String)) (db : Ledger) (contexts : Table ContextRow contextKeys)
      (result : JsonObject),
      getProductContextSync loads merchantId productId sections db contexts = .ok result →
      ∃ (product : ProductRow) (row : ContextRow) (data : JsonObject) (evidenceIds : List String),
        selectContext merchantId productId db contexts = some (product, row) ∧
        result.get? "data" = some (.obj data) ∧
        result.get? "evidence_ids" = some (.arr (evidenceIds.map .str)) ∧
        (∀ key, data.get? key ≠ none → key ∈ requestedSections sections) ∧
        (∀ column ∈ contextColumns, column.1 ∈ requestedSections sections →
          ∃ v, loads (column.2 row) = .ok v ∧ data.get? column.1 = some v) ∧
        (∀ evidenceId, (evidenceIds.count evidenceId : ℕ∞) =
          ((contextColumns.filterMap fun column => data.get? column.1).map fun v =>
            (v.evidencePlaces evidenceId).encard).sum) ∧
        ∀ evidenceId, evidenceId ∈ evidenceIds ↔
          ∃ column ∈ contextColumns, column.1 ∈ requestedSections sections ∧
            ∃ v, loads (column.2 row) = .ok v ∧ (v.evidencePlaces evidenceId).Nonempty := by
  constructor
  · exact fun v evidenceId => count_extractEvidenceIds evidenceId v
  · intro loads merchantId productId sections db contexts result h
    exact getProductContextSync_evidence h

/-- The columns of a product, for the demonstrations. -/
def demoContext : ContextRow where
  merchantId := demoMerchantId
  productId := demoProductId
  inventoryJson :=
    "[\x7b\"evidence_id\": \"inventory_primary_sku\"\x7d, \x7b\"evidence_id\": \"\"\x7d]"
  priceJson := "\x7b\"evidence_id\": \"price_unchanged\"\x7d"
  reviewsJson := "[]"
  competitorsJson := "null"

/-- `json.loads` of the columns of `demoContext`. -/
def demoLoads (text : String) : Except Exn Json :=
  if text = demoContext.inventoryJson then
    .ok (.arr [.obj [("evidence_id", .str "inventory_primary_sku")],
      .obj [("evidence_id", .str "")]])
  else if text = demoContext.priceJson then
    .ok (.obj [("evidence_id", .str "price_unchanged")])
  else if text = demoContext.reviewsJson then .ok (.arr [])
  else if text = demoContext.competitorsJson then .ok .null
  else .error (.valueError "Expecting value")

def demoContexts : Table ContextRow contextKeys := ⟨[demoContext], by simp⟩

/-- The price alone is requested, and its evidence alone is listed. -/
theorem extractEvidenceIds_exact_demo : ∃ result,
    getProductContextSync demoLoads demoMerchantId demoProductId (some ["price"])
      (seedSync demoCatalog .fresh) demoContexts = .ok result ∧
    ∃ (data : JsonObject) (evidenceIds : List String), result.get? "data" = some (.obj data) ∧
      result.get? "evidence_ids" = some (.arr (evidenceIds.map .str)) ∧
      (∀ key, data.get? key ≠ none → key ∈ ["price"]) ∧
      ∀ evidenceId, (evidenceIds.count evidenceId : ℕ∞) =
        ((contextColumns.filterMap fun column => data.get? column.1).map fun v =>
          (v.evidencePlaces evidenceId).encard).sum := by
  refine ⟨_, rfl, ?_⟩
  obtain ⟨_, _, data, evidenceIds, _, hdata, hids, hkeys, _, hcount, _⟩ :=
    extractEvidenceIds_exact.2 demoLoads demoMerchantId demoProductId (some ["price"])
      (seedSync demoCatalog .fresh) demoContexts _ rfl
  exact ⟨data, evidenceIds, hdata, hids, hkeys, hcount⟩

end CommerceAgent
