import CommerceAgent.Rag.Search
import CommerceAgent.Rag.Sources

/-!
# What the search tool returns

The tool ranks the documents of one moment of a run, and each piece of evidence is an excerpt
from one of them, which is the document of a file.
-/

namespace CommerceAgent

open Effects Relational

section Answers

variable {K : Type} [Field K] [LinearOrder K] [FloorRing K] {kb : SQLiteKnowledgeBase K}

/-- A document of the ranking shows an excerpt from a row. -/
def RetrievedDocument.Shows (table : Text.CaseTable) (query : String)
    (document : RetrievedDocument K) (row : DocumentRow) : Prop :=
  document.documentId = row.documentId ∧ document.title = row.title ∧
    document.content = bestExcerpt table row.content query ∧ document.metadata = row.metadata

theorem mem_of_mem_sliceTo {α : Type} {xs : List α} {limit : ℤ} {x : α} (h : x ∈ sliceTo xs limit) :
    x ∈ xs := by
  unfold sliceTo at h
  split at h <;> exact List.mem_of_mem_take h

theorem shows_of_mem_rank {rows : List DocumentRow} {query : String} {limit : ℤ}
    {document : RetrievedDocument K} (h : document ∈ kb.rank rows query limit) :
    ∃ row ∈ rows, document.Shows kb.characters query row := by
  unfold SQLiteKnowledgeBase.rank at h
  split at h
  · cases h
  · have hscored := (Sequence.mem_ranked _ _).1 (mem_of_mem_sliceTo h)
    obtain ⟨row, hrow, hscore⟩ := List.mem_filterMap.1 hscored
    simp only [scoreRow] at hscore
    split at hscore
    · cases hscore
    · cases hscore
      exact ⟨row, hrow, rfl, rfl, rfl, rfl⟩

theorem length_rank_le {rows : List DocumentRow} {query : String} {limit : ℤ} (hlimit : 0 ≤ limit) :
    ((kb.rank rows query limit).length : ℤ) ≤ limit := by
  unfold SQLiteKnowledgeBase.rank
  split
  · exact hlimit
  · rw [sliceTo, if_pos hlimit, List.length_take]
    omega

/-- In the same runs, what the tool answers was ranked over the documents of one moment, and each
piece of evidence is an excerpt from a document that was there before the run, or from a file. -/
theorem evidence_served [IsStrictOrderedRing K] (kb : SQLiteKnowledgeBase K)
    (hlog : ∀ x : K, 1 ≤ x → 0 ≤ kb.log x) {s₀ : KnowledgeFiles}
    {h : List (KnowledgeConfig K × KnowledgeAction)} {c : KnowledgeConfig K}
    (run : (knowledgeMachine kb).Run .any (.initial s₀) h c) {i : ℕ} {query : String} {limit : ℤ}
    {result : Option (KnowledgeAnswer K)}
    (hreturned : c.pool i = .running (.execute query limit) (.pure result)) :
    ∃ answer, result = some answer ∧ answer.query = String.ofList (Text.strip query.toList) ∧
      answer.evidenceIds = answer.documents.map RetrievedDocument.documentId ∧
      (answer.documents.length : ℤ) ≤ min (max limit 1) 8 ∧
      (∃ v ∈ h, ∃ documents, v.1.state.documents = some documents ∧
        (documents.rows.length ≤ 5000 →
          Ranks kb.log kb.characters documents.rows answer.query (min (max limit 1) 8)
            answer.documents)) ∧
      ∀ document ∈ answer.documents, ∃ row,
        (row ∈ s₀.rows ∨ kb.Sourced (HadContent s₀ h) row) ∧
          document.Shows kb.characters answer.query row := by
  have run' := run_hadContent run
  obtain ⟨rows, hloaded, answer, rfl, hquery, hdocuments, hids⟩ :=
    filesSound.post (fun _ q _ _ => meets_request q) within_hadContent run' i _ _ hreturned
  obtain ⟨h₁, v, h₂, heq, hexchange⟩ := Machine.exists_of_mem_transcript hloaded
  obtain ⟨ending, s, -, hanswer⟩ := Machine.answer_of_exchange hexchange
  have hexecute := Ending.answer_ok (Option.some.inj hanswer)
  have hwithin := (filesSound.run within_hadContent (run'.before heq).1).inv
  have hlimit : 1 ≤ min (max limit 1) 8 := by omega
  simp only [KnowledgeCall.execute] at hexecute
  split at hexecute
  · next documents hopened =>
      cases hexecute
      have hrows : v.1.state.rows = documents.rows := by simp [KnowledgeFiles.rows, hopened]
      refine ⟨answer, rfl, hquery, hids, ?_,
        ⟨v, by simp [heq], documents, hopened, fun hcorpus => ?_⟩, ?_⟩
      · rw [hdocuments]
        exact length_rank_le (by omega)
      · rw [hdocuments]
        exact search_ranks hlog documents answer.query _ hcorpus hlimit
      · intro document hdocument
        rw [hdocuments] at hdocument
        obtain ⟨row, hrow, hshows⟩ := shows_of_mem_rank hdocument
        exact ⟨row, hwithin.rows row (hrows ▸ List.mem_of_mem_take hrow), hshows⟩
  · cases hexecute

end Answers

/-- The sources after an edit. -/
def demoEdited : SourceDirectory where
  files := [("traffic.md", "Search traffic, clicks and orders"), ("notes.txt", "Search clicks"),
    ("returns.md", "Return rates after an edit")]
  nodup := by decide

/-- The documents of a process that has read one file before the edit and one after it. -/
def demoIndexed : Table DocumentRow documentKeys :=
  (Table.empty.upsert (demoKnowledgeBase.sourceDocument "returns.md"
    "Return rates of headphones")).upsert
      (demoKnowledgeBase.sourceDocument "traffic.md" "Search traffic, clicks and orders")

/-- A process starts while the files are edited, and the tool searches. -/
def demoServing : List KnowledgeAction :=
  [.start 0 .start, .call 0 .done, .call 0 .done, .call 0 .done, .environment (some demoEdited),
    .call 0 .done, .call 0 .done, .call 0 .done, .start 1 (.execute " search rates " 20),
    .call 1 .done]

/-- What a search has returned. -/
def searched (slot : Slot Exn KnowledgeCall KnowledgeReply KnowledgeRequest
    (Option (KnowledgeAnswer ℚ))) : Option (KnowledgeAnswer ℚ) :=
  match slot with
  | .running (.execute _ _) (.pure answer) => answer
  | _ => none

theorem exists_of_searched {slot : Slot Exn KnowledgeCall KnowledgeReply KnowledgeRequest
    (Option (KnowledgeAnswer ℚ))} {answer : KnowledgeAnswer ℚ} (h : searched slot = some answer) :
    ∃ query limit, slot = .running (.execute query limit) (.pure (some answer)) := by
  unfold searched at h
  split at h
  · subst h
    exact ⟨_, _, rfl⟩
  · cases h

theorem evidence_served_demo : ∃ h c answer,
    (knowledgeMachine demoKnowledgeBase).Run .any (.initial ⟨some demoSources, none⟩) h c ∧
      h.map Prod.snd = demoServing ∧ searched (c.pool 1) = some answer ∧
      answer.documents.length = 2 ∧
      ∀ document ∈ answer.documents, ∃ row,
        demoKnowledgeBase.Sourced (HadContent ⟨some demoSources, none⟩ h) row ∧
          document.Shows .basicLatin answer.query row := by
  have hend : ((knowledgeMachine demoKnowledgeBase).exec .any demoServing
      (.initial ⟨some demoSources, none⟩)).bind (fun c =>
        (searched (c.pool 1)).map KnowledgeAnswer.documents) =
      some (search demoKnowledgeBase.log .basicLatin demoIndexed "search rates" 8) := by rfl
  have hranks : Ranks demoKnowledgeBase.log .basicLatin demoIndexed.rows "search rates" 8
      (search demoKnowledgeBase.log .basicLatin demoIndexed "search rates" 8) :=
    search_ranks (fun _ _ => le_refl (0 : ℚ)) demoIndexed "search rates" 8 (by decide) (by decide)
  have hshared : demoIndexed.rows.countP
      (fun row => decide (Shares .basicLatin "search rates" row)) = 2 := by decide +kernel
  obtain ⟨c, hc, hsearched⟩ := Option.bind_eq_some_iff.1 hend
  obtain ⟨answer, hanswer, hdocuments⟩ := Option.map_eq_some_iff.1 hsearched
  obtain ⟨query, limit, hreturned⟩ := exists_of_searched hanswer
  have run := Machine.Run.follow .nil hc
  obtain ⟨_, heq, -, -, -, -, hshows⟩ :=
    evidence_served demoKnowledgeBase (fun _ _ => le_refl (0 : ℚ)) run hreturned
  obtain rfl := Option.some.inj heq
  refine ⟨_, c, answer, run, Machine.trail_actions hc, hanswer, ?_, fun document hdocument => ?_⟩
  · have hlength := hranks.length_eq
    rw [← hdocuments, hshared] at hlength
    omega
  · obtain ⟨row, hrow, hrest⟩ := hshows document hdocument
    exact ⟨row, hrow.resolve_left (by simp [KnowledgeFiles.rows]), hrest⟩

end CommerceAgent
