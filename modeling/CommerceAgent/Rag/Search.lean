import CommerceAgent.Rag.KnowledgeBase

/-!
# What a knowledge search returns

A document that shares a token with the query has a score of at least 1, because no token
occurs in more documents than there are, so that its weight is at least 1; every other
document has the score 0. With the stable sort this makes the search sound, complete and
ordered.
-/

namespace CommerceAgent

open Numeric Relational Sequence

/-- The content of the row and the query have a token in common. -/
def Shares (table : Text.CaseTable) (query : String) (row : DocumentRow) : Prop :=
  ∃ token ∈ tokenize table query, token ∈ tokenize table row.content

instance (table : Text.CaseTable) (query : String) (row : DocumentRow) :
    Decidable (Shares table query row) :=
  inferInstanceAs (Decidable (∃ token ∈ tokenize table query, token ∈ tokenize table row.content))

section

variable {K : Type} [Field K] [LinearOrder K] [FloorRing K] (log : K → K)
  (table : Text.CaseTable)

/-- The score that a result for the row shows. -/
def roundedScore (rows : List DocumentRow) (query : String) (row : DocumentRow) : K :=
  roundTo 4 (documentScore log (rows.map fun row => tokenize table row.content)
    (tokenize table query) (tokenize table row.content))

/-- The laws of a search with a limit in the documents `rows`. The score that is shown is the
score with four decimals. -/
structure Ranks (rows : List DocumentRow) (query : String) (limit : ℤ)
    (found : List (RetrievedDocument K)) : Prop where
  length_eq : (found.length : ℤ) =
    min limit (rows.countP fun row => decide (Shares table query row))
  sound : ∀ document ∈ found, ∃ row ∈ rows, Shares table query row ∧
    document.documentId = row.documentId ∧
      document.score = roundedScore log table rows query row ∧ 1 ≤ document.score
  rounded : ∀ row ∈ rows, (∃ n : ℤ, roundedScore log table rows query row * 10 ^ 4 = n) ∧
    |roundedScore log table rows query row -
      documentScore log (rows.map fun row => tokenize table row.content) (tokenize table query)
        (tokenize table row.content)| ≤ 5 / 10 ^ 5
  ordered : found.Pairwise fun document next => next.score ≤ document.score
  ties : ∀ score, ((found.filter fun document => decide (document.score = score)).map
    RetrievedDocument.documentId).Sublist (rows.map DocumentRow.documentId)
  complete : ∀ row ∈ rows, Shares table query row →
    row.documentId ∉ found.map RetrievedDocument.documentId →
      ∀ document ∈ found, roundedScore log table rows query row ≤ document.score

variable {log} {table} [IsStrictOrderedRing K] (hlog : ∀ x : K, 1 ≤ x → 0 ≤ log x)

include hlog

/-- No token occurs in more documents than there are. -/
theorem one_le_inverseFrequency (documentTokens : List (List (List Char))) (token : List Char) :
    1 ≤ inverseFrequency log documentTokens token := by
  have hcount : documentTokens.countP (fun tokens => decide (token ∈ tokens)) ≤
      max documentTokens.length 1 :=
    List.countP_le_length.trans (le_max_left _ _)
  have hcast : ((documentTokens.countP fun tokens => decide (token ∈ tokens) : ℕ) : K) + 1 ≤
      ((max documentTokens.length 1 : ℕ) : K) + 1 := by
    have h := (Nat.cast_le (α := K)).2 hcount
    linarith
  have hpos :
      (0 : K) < ((documentTokens.countP fun tokens => decide (token ∈ tokens) : ℕ) : K) + 1 := by
    positivity
  have hweight := hlog _ ((one_le_div hpos).2 hcast)
  unfold inverseFrequency
  linarith

/-- What a token adds to the score of a document that contains it. -/
theorem one_le_term (documentTokens : List (List (List Char))) (token : List Char) {frequency : ℕ}
    (hfrequency : frequency ≠ 0) :
    1 ≤ (1 + log (frequency : K)) * inverseFrequency log documentTokens token := by
  have hone : (1 : K) ≤ (frequency : K) := by
    exact_mod_cast Nat.one_le_iff_ne_zero.2 hfrequency
  have hfactor : 1 ≤ 1 + log (frequency : K) := by
    have := hlog _ hone
    linarith
  exact one_le_mul_of_one_le_of_one_le hfactor (one_le_inverseFrequency hlog documentTokens token)

/-- Every query token that the document contains adds at least 1, and the others nothing. -/
theorem score_fold (documentTokens : List (List (List Char))) (tokens : List (List Char)) :
    ∀ (queryTokens : List (List Char)) (start : K),
      let score := queryTokens.foldl
        (fun score token =>
          let frequency := tokens.count token
          if frequency = 0 then score
          else score + (1 + log (frequency : K)) * inverseFrequency log documentTokens token) start
      ((∀ token ∈ queryTokens, token ∉ tokens) → score = start) ∧ start ≤ score ∧
        ((∃ token ∈ queryTokens, token ∈ tokens) → start + 1 ≤ score)
  | [], start => by simp
  | token :: queryTokens, start => by
      by_cases hmem : token ∈ tokens
      · have hfrequency : tokens.count token ≠ 0 := (List.count_pos_iff.2 hmem).ne'
        have hterm := one_le_term hlog documentTokens token hfrequency
        obtain ⟨-, hle, -⟩ := score_fold documentTokens tokens queryTokens (start +
          (1 + log ((tokens.count token : ℕ) : K)) * inverseFrequency log documentTokens token)
        simp only [List.foldl_cons, hfrequency, if_false]
        refine ⟨fun hnone => absurd hmem (hnone token List.mem_cons_self), ?_, fun _ => ?_⟩
        · linarith
        · linarith
      · have hfrequency : tokens.count token = 0 := List.count_eq_zero.2 hmem
        obtain ⟨hnone, hle, hsome⟩ := score_fold documentTokens tokens queryTokens start
        simp only [List.foldl_cons, hfrequency, if_true]
        refine ⟨fun h => hnone fun t ht => h t (List.mem_cons_of_mem _ ht), hle, ?_⟩
        rintro ⟨t, ht, htokens⟩
        apply hsome
        rcases List.mem_cons.1 ht with rfl | ht
        · exact absurd htokens hmem
        · exact ⟨t, ht, htokens⟩

theorem documentScore_eq_zero {documentTokens : List (List (List Char))}
    {queryTokens tokens : List (List Char)} (h : ∀ token ∈ queryTokens, token ∉ tokens) :
    documentScore log documentTokens queryTokens tokens = 0 :=
  (score_fold hlog documentTokens tokens queryTokens 0).1 h

theorem one_le_documentScore {documentTokens : List (List (List Char))}
    {queryTokens tokens : List (List Char)} (h : ∃ token ∈ queryTokens, token ∈ tokens) :
    1 ≤ documentScore log documentTokens queryTokens tokens := by
  have hscore := (score_fold hlog documentTokens tokens queryTokens 0).2.2 h
  rwa [zero_add] at hscore

omit hlog in
/-- The entry of a document that shares a token. -/
def rankedEntry (log : K → K) (table : Text.CaseTable) (rows : List DocumentRow) (query : String)
    (row : DocumentRow) : RetrievedDocument K where
  documentId := row.documentId
  title := row.title
  content := bestExcerpt table row.content query
  score := roundedScore log table rows query row
  metadata := row.metadata

theorem one_le_roundedScore {rows : List DocumentRow} {query : String} {row : DocumentRow}
    (h : Shares table query row) : 1 ≤ roundedScore log table rows query row := by
  have hscore : ((1 : ℤ) : K) ≤ documentScore log (rows.map fun row => tokenize table row.content)
      (tokenize table query) (tokenize table row.content) := by
    rw [Int.cast_one]
    exact one_le_documentScore hlog h
  have hrounded := roundTo_mono 4 hscore
  rwa [roundTo_intCast, Int.cast_one] at hrounded

/-- Exactly the documents that share a token with the query are scored. -/
theorem scoreRow_eq (rows : List DocumentRow) (query : String) (row : DocumentRow) :
    scoreRow log table (rows.map fun row => tokenize table row.content) query row =
      if Shares table query row then some (rankedEntry log table rows query row) else none := by
  by_cases h : Shares table query row
  · have hscore : 1 ≤ documentScore log (rows.map fun row => tokenize table row.content)
        (tokenize table query) (tokenize table row.content) := one_le_documentScore hlog h
    have hpos : ¬ documentScore log (rows.map fun row => tokenize table row.content)
        (tokenize table query) (tokenize table row.content) ≤ 0 := by
      rw [not_le]
      linarith
    rw [if_pos h, scoreRow, if_neg hpos]
    rfl
  · have hnone : ∀ token ∈ tokenize table query, token ∉ tokenize table row.content :=
      fun token htoken hmem => h ⟨token, htoken, hmem⟩
    have hzero : documentScore log (rows.map fun row => tokenize table row.content)
        (tokenize table query) (tokenize table row.content) = 0 := documentScore_eq_zero hlog hnone
    rw [if_neg h, scoreRow, hzero, if_pos le_rfl]

/-- The list that is sorted: the entries of the documents that share a token. -/
theorem scored_eq (rows : List DocumentRow) (query : String) :
    rows.filterMap (scoreRow log table (rows.map fun row => tokenize table row.content) query) =
      (rows.filter fun row => decide (Shares table query row)).map
        (rankedEntry log table rows query) := by
  have hmap : (rows.filter fun row => decide (Shares table query row)).map
      (rankedEntry log table rows query) =
        (rows.filter fun row => decide (Shares table query row)).filterMap fun row =>
          some (rankedEntry log table rows query row) := by
    rw [List.filterMap_eq_map']
  rw [hmap, List.filterMap_filter]
  congr 1
  funext row
  rw [scoreRow_eq hlog]
  by_cases h : Shares table query row <;> simp [h]

theorem search_eq (documents : Table DocumentRow documentKeys) (query : String) (limit : ℤ) :
    search log table documents query limit =
      sliceTo (ranked RetrievedDocument.score
        (((loadDocuments documents).filter fun row => decide (Shares table query row)).map
          (rankedEntry log table (loadDocuments documents) query))) limit := by
  by_cases hempty : tokenize table query = []
  · have hnone : ∀ row, ¬ Shares table query row := by
      rintro row ⟨token, htoken, -⟩
      rw [hempty] at htoken
      cases htoken
    have hranked : ranked RetrievedDocument.score ([] : List (RetrievedDocument K)) = [] :=
      List.mergeSort_nil
    simp [search, hempty, hnone, hranked, sliceTo]
  · simp only [search, hempty, if_false, scored_eq hlog]

/-- Below the size that is loaded, a search with a positive limit obeys the laws. -/
theorem search_ranks (documents : Table DocumentRow documentKeys) (query : String) (limit : ℤ)
    (hcorpus : documents.rows.length ≤ 5000) (hlimit : 1 ≤ limit) :
    Ranks log table documents.rows query limit (search log table documents query limit) := by
  have hload : loadDocuments documents = documents.rows := List.take_of_length_le hcorpus
  have hnonneg : 0 ≤ limit := by omega
  rw [search_eq hlog, hload, sliceTo, if_pos hnonneg]
  generalize hscored : (documents.rows.filter fun row => decide (Shares table query row)).map
    (rankedEntry log table documents.rows query) = scored
  have hlength : scored.length =
      documents.rows.countP fun row => decide (Shares table query row) := by
    rw [← hscored, List.length_map, List.countP_eq_length_filter]
  have hids : (scored.map RetrievedDocument.documentId).Sublist
      (documents.rows.map DocumentRow.documentId) := by
    have hmap : scored.map RetrievedDocument.documentId =
        (documents.rows.filter fun row => decide (Shares table query row)).map
          DocumentRow.documentId := by
      rw [← hscored, List.map_map]
      rfl
    rw [hmap]
    exact List.filter_sublist.map _
  constructor
  · have hranked : (ranked RetrievedDocument.score scored).length = scored.length :=
      (ranked_perm _ _).length_eq
    rw [List.length_take, hranked, hlength]
    push_cast
    rw [Int.toNat_of_nonneg hnonneg]
  · intro document hdocument
    have hmem := (mem_ranked _ _).1 (List.mem_of_mem_take hdocument)
    rw [← hscored] at hmem
    obtain ⟨row, hrow, rfl⟩ := List.mem_map.1 hmem
    have hrow' := List.mem_filter.1 hrow
    have hshares := of_decide_eq_true hrow'.2
    exact ⟨row, hrow'.1, hshares, rfl, rfl, one_le_roundedScore hlog hshares⟩
  · intro row _
    refine ⟨⟨_, roundTo_mul_pow 4 _⟩, (abs_roundTo_sub_le 4 _).trans_eq ?_⟩
    norm_num
  · exact (ranked_ordered _ _).sublist (List.take_sublist _ _)
  · intro score
    exact ((take_ranked_filter_sublist _ _ _ score).map _).trans hids
  · intro row hrow hshares hmissing document hdocument
    have hentry : rankedEntry log table documents.rows query row ∈ scored := by
      rw [← hscored]
      exact List.mem_map_of_mem (List.mem_filter.2 ⟨hrow, decide_eq_true hshares⟩)
    have hdropped : rankedEntry log table documents.rows query row ∉
        (ranked RetrievedDocument.score scored).take limit.toNat := by
      intro hmem
      exact hmissing (List.mem_map_of_mem hmem)
    exact key_le_of_dropped RetrievedDocument.score scored limit.toNat hentry hdropped hdocument

end

/-- For every corpus of at most 5000 documents, every query and every positive limit, the
search with the scores of the reals returns the best of the documents that share a token
with the query, all of them if the limit allows, in the order of their rounded scores, ties
in the order in which they were loaded. -/
theorem knowledge_search_ranks (table : Text.CaseTable)
    (documents : Table DocumentRow documentKeys) (query : String) (limit : ℤ)
    (hcorpus : documents.rows.length ≤ 5000) (hlimit : 1 ≤ limit) :
    Ranks Real.log table documents.rows query limit
      (search Real.log table documents query limit) :=
  search_ranks (fun _ hx => Real.log_nonneg hx) documents query limit hcorpus hlimit

/-- Two documents of which one is about the query. -/
def demoDocuments : Table DocumentRow documentKeys where
  rows :=
    [⟨"doc-1", "Returns", "Return rates of headphones", []⟩,
     ⟨"doc-2", "Traffic", "Search traffic and clicks", []⟩]
  nodup := by decide

theorem knowledge_search_ranks_demo :
    demoDocuments.rows.countP (fun row => decide (Shares .basicLatin "search clicks" row)) = 1 ∧
      Ranks Real.log .basicLatin demoDocuments.rows "search clicks" 4
        (search Real.log .basicLatin demoDocuments "search clicks" 4) :=
  ⟨by decide, knowledge_search_ranks .basicLatin demoDocuments "search clicks" 4 (by decide)
    (by decide)⟩

end CommerceAgent
