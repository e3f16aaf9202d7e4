import CommerceAgent.Effects.Transcript
import CommerceAgent.Json.RoundTrip
import CommerceAgent.Rag.Indexing

/-!
# Documents of files

Every process that starts writes its documents, while the files are edited and other
processes do the same. A document is always some file as it was at one time, and a file that
a process has listed has its document from then on.
-/

namespace CommerceAgent

open Effects Relational

namespace SQLiteKnowledgeBase

variable {K : Type} (kb : SQLiteKnowledgeBase K)

/-- The text whose digest is the `document_id` of a file. -/
def sourceText (name : String) : String :=
  Json.dumps Json.spaced (Json.sortKeys (.obj [("source", .str (kb.path name))]))

def sourceId (name : String) : String := kb.sha256 (kb.sourceText name)

/-- The document of a file with this content. -/
def sourceDocument (name content : String) : DocumentRow where
  documentId := kb.sourceId name
  title := stem name
  content := content
  metadata := [("source", kb.path name)]

theorem path_ne_empty (name : String) : kb.path name ≠ "" := by
  intro h
  have hlist := congrArg String.toList h
  simp [path] at hlist

theorem path_injective : Function.Injective kb.path := by
  intro name name' h
  have hlist := congrArg String.toList h
  simp only [path, String.toList_append, List.append_cancel_left_eq] at hlist
  exact String.toList_injective hlist

theorem sourceText_eq (name : String) :
    kb.sourceText name = Json.dumps Json.spaced (.obj [("source", .str (kb.path name))]) := by
  simp [sourceText, Json.sortKeys, Json.sortKeysFields]

theorem sourceText_injective : Function.Injective kb.sourceText := by
  intro name name' h
  have hread : ∀ name, Json.loads id (kb.sourceText name) =
      some (.obj [("source", .str (kb.path name))]) := by
    intro name
    have hwritable : Json.Writable id (.obj [("source", .str (kb.path name))]) :=
      .obj (by simp) fun field hfield => by
        rw [List.mem_singleton.1 hfield]
        exact .str _
    rw [sourceText_eq]
    exact Json.loads_dumps Json.spaced_blank hwritable
  have hsame := hread name
  rw [h, hread name'] at hsame
  simp only [Option.some.injEq, Json.obj.injEq, List.cons.injEq, Prod.mk.injEq, Json.str.injEq,
    true_and, and_true] at hsame
  exact (kb.path_injective hsame).symm

/-- Texts without a common digest belong to files without one. -/
theorem injOn_sourceId {names : Set String} (h : Set.InjOn kb.sha256 (kb.sourceText '' names)) :
    Set.InjOn kb.sourceId names :=
  h.comp kb.sourceText_injective.injOn (Set.mapsTo_image _ _)

theorem sourceDocument_inj {name name' content content' : String}
    (h : kb.sourceDocument name content = kb.sourceDocument name' content') :
    name = name' ∧ content = content' := by
  simp only [sourceDocument, DocumentRow.mk.injEq, List.cons.injEq, Prod.mk.injEq] at h
  exact ⟨kb.path_injective h.2.2.2.1.2, h.2.2.1⟩

/-- The row that `index_source_directory` writes for a file. -/
theorem document_source (name content : String) :
    kb.document (stem name) content [("source", kb.path name)] =
      kb.sourceDocument name content := by
  have hlookup : ([("source", kb.path name)].lookup "source").getD "" = kb.path name := by simp
  simp only [document, sourceDocument, digest, sourceId, sourceText, identity, hlookup,
    if_pos (kb.path_ne_empty name)]

/-- The row is the document of a file whose content `F` allows. -/
def Sourced (F : String → String → Prop) (row : DocumentRow) : Prop :=
  ∃ name content, F name content ∧ isMarkdown name = true ∧ row = kb.sourceDocument name content

end SQLiteKnowledgeBase

section Files

variable {K : Type} (kb : SQLiteKnowledgeBase K) (F : String → String → Prop)
  (known : List DocumentRow)

/-- The files have contents that `F` allows, and the documents are theirs or known. -/
structure KnowledgeFiles.Within (s : KnowledgeFiles) : Prop where
  files : ∀ directory ∈ s.directory, ∀ file ∈ directory.files, F file.1 file.2
  rows : ∀ row ∈ s.rows, row ∈ known ∨ kb.Sourced F row

/-- What a process relies on in an answer: it lists Markdown files, and reads what is allowed. -/
def KnowledgeCall.Assumed : (c : KnowledgeCall) → Except Exn (KnowledgeReply c) → Prop
  | .sources, .ok (some names) => ∀ name ∈ names, isMarkdown name = true
  | .readText name, .ok content => F name content
  | _, _ => True

/-- A document that is added is that of a file. -/
def KnowledgeCall.Guaranteed : KnowledgeCall → Prop
  | .addDocumentSync title content metadata => kb.Sourced F (kb.document title content metadata)
  | _ => True

def filesContract : Contract Exn KnowledgeCall KnowledgeReply KnowledgeFiles KnowledgeRequest where
  inv s := s.Within kb F known
  assume := KnowledgeCall.Assumed F
  guarantee _ _ c := c.Guaranteed kb F

/-- The directory is only edited to files that `F` allows. -/
def filesPolicy :
    Policy KnowledgeCall KnowledgeFiles (Ending Exn) KnowledgeRequest (Option SourceDirectory) where
  environment edited _ := ∀ directory ∈ edited, ∀ file ∈ directory.files, F file.1 file.2

variable {kb} {F} {known} {s : KnowledgeFiles}

theorem KnowledgeFiles.Within.content (h : s.Within kb F known) {name content : String}
    (hcontent : s.content? name = some content) : F name content := by
  obtain ⟨directory, hdirectory, hlookup⟩ := Option.bind_eq_some_iff.1 hcontent
  obtain ⟨before, after, hfiles, -⟩ := List.lookup_eq_some_iff.1 hlookup
  exact h.files directory hdirectory (name, content) (by simp [hfiles])

theorem isMarkdown_of_mem_sources {directory : SourceDirectory} {name : String}
    (h : name ∈ directory.sources) : isMarkdown name = true :=
  (List.mem_filter.1 ((List.mem_insertionSort _).1 h)).2

theorem mem_sources {directory : SourceDirectory} {file : String × String}
    (hfile : file ∈ directory.files) (h : isMarkdown file.1 = true) :
    file.1 ∈ directory.sources :=
  (List.mem_insertionSort _).2 (List.mem_filter.2 ⟨List.mem_map_of_mem hfile, h⟩)

/-- What a call leaves: it never edits the directory, and the only one that changes a row puts
its document in the place of the one with the same digest. -/
theorem KnowledgeCall.execute_cases {c : KnowledgeCall} {reply : KnowledgeReply c}
    {s' : KnowledgeFiles} (hexecute : c.execute kb s = .ok (reply, s')) :
    s'.directory = s.directory ∧
      ((∀ title content metadata, c ≠ .addDocumentSync title content metadata) ∧
          s'.rows = s.rows ∨
        ∃ title content metadata, c = .addDocumentSync title content metadata ∧
          ∀ row, row ∈ s'.rows ↔ row = kb.document title content metadata ∨
            row ∈ s.rows ∧ row.documentId ≠ kb.digest title content metadata) := by
  cases c with
  | initializeSync =>
      cases hexecute
      refine ⟨rfl, .inl ⟨by simp, ?_⟩⟩
      cases hdocuments : s.documents <;> simp [KnowledgeFiles.rows, hdocuments]
  | sources =>
      cases hexecute
      exact ⟨rfl, .inl ⟨by simp, rfl⟩⟩
  | readText name =>
      simp only [KnowledgeCall.execute] at hexecute
      split at hexecute
      · cases hexecute
        exact ⟨rfl, .inl ⟨by simp, rfl⟩⟩
      · cases hexecute
  | addDocumentSync title content metadata =>
      simp only [KnowledgeCall.execute] at hexecute
      split at hexecute
      · next documents hdocuments =>
          cases hexecute
          have hrows : s.rows = documents.rows := by simp [KnowledgeFiles.rows, hdocuments]
          exact ⟨rfl, .inr ⟨title, content, metadata, rfl, fun row => hrows ▸ Table.mem_upsert⟩⟩
      · cases hexecute
  | loadDocumentsSync =>
      simp only [KnowledgeCall.execute] at hexecute
      split at hexecute
      · cases hexecute
        exact ⟨rfl, .inl ⟨by simp, rfl⟩⟩
      · cases hexecute

/-- A call is answered what a process relies on. -/
theorem KnowledgeFiles.Within.assumed (h : s.Within kb F known) {c : KnowledgeCall}
    {reply : KnowledgeReply c} {s' : KnowledgeFiles}
    (hexecute : c.execute kb s = .ok (reply, s')) : c.Assumed F (.ok reply) := by
  cases c with
  | sources =>
      cases hexecute
      cases hdirectory : s.directory with
      | none => trivial
      | some directory => exact fun name hname => isMarkdown_of_mem_sources hname
  | readText name =>
      simp only [KnowledgeCall.execute] at hexecute
      split at hexecute
      · next content hcontent =>
          cases hexecute
          exact h.content hcontent
      · cases hexecute
  | _ => trivial

/-- A call that is guaranteed keeps the documents to the files. -/
theorem KnowledgeFiles.Within.execute (h : s.Within kb F known) {c : KnowledgeCall}
    (hc : c.Guaranteed kb F) {reply : KnowledgeReply c} {s' : KnowledgeFiles}
    (hexecute : c.execute kb s = .ok (reply, s')) : s'.Within kb F known := by
  obtain ⟨hdirectory, ⟨-, hsame⟩ | ⟨title, content, metadata, rfl, hrows⟩⟩ :=
    KnowledgeCall.execute_cases hexecute
  · exact ⟨hdirectory ▸ h.files, hsame ▸ h.rows⟩
  · refine ⟨hdirectory ▸ h.files, fun row hrow => ?_⟩
    rcases (hrows row).1 hrow with rfl | ⟨hrow, -⟩
    · exact .inr hc
    · exact h.rows row hrow

/-- The document of the file is there, with a content that `F` allows. -/
def SQLiteKnowledgeBase.Stored (kb : SQLiteKnowledgeBase K) (F : String → String → Prop)
    (name : String) (s : KnowledgeFiles) : Prop :=
  ∃ content, F name content ∧ kb.sourceDocument name content ∈ s.rows

/-- A document is only replaced by one of the same file. -/
theorem stored_execute (hdigests : Set.InjOn kb.sourceId {name | ∃ content, F name content})
    {name : String} (h : kb.Stored F name s) {c : KnowledgeCall} (hc : c.Guaranteed kb F)
    {reply : KnowledgeReply c} {s' : KnowledgeFiles}
    (hexecute : c.execute kb s = .ok (reply, s')) : kb.Stored F name s' := by
  obtain ⟨content, hcontent, hrow⟩ := h
  obtain ⟨-, ⟨-, hsame⟩ | ⟨title, content', metadata, rfl, hrows⟩⟩ :=
    KnowledgeCall.execute_cases hexecute
  · exact ⟨content, hcontent, hsame ▸ hrow⟩
  · obtain ⟨name', content', hcontent', -, hdocument⟩ := hc
    by_cases heq : kb.sourceId name = kb.sourceId name'
    · obtain rfl := hdigests ⟨content, hcontent⟩ ⟨content', hcontent'⟩ heq
      exact ⟨content', hcontent', (hrows _).2 (.inl hdocument.symm)⟩
    · have hdigest : kb.digest title _ metadata = kb.sourceId name' :=
        congrArg DocumentRow.documentId hdocument
      exact ⟨content, hcontent, (hrows _).2 (.inr ⟨hrow, hdigest ▸ heq⟩)⟩

end Files

section Programs

variable {K : Type} {kb : SQLiteKnowledgeBase K} {F : String → String → Prop}
  {known : List DocumentRow}

/-- What a process has been answered. -/
abbrev KnowledgeTranscript := List (Exchange Exn KnowledgeCall KnowledgeReply)

/-- The document of the file has been written. -/
def SQLiteKnowledgeBase.Wrote (kb : SQLiteKnowledgeBase K) (past : KnowledgeTranscript)
    (name : String) : Prop :=
  ∃ content documentId,
    ⟨.addDocumentSync (stem name) content [("source", kb.path name)], .ok documentId⟩ ∈ past

/-- The loop writes every file of the list. -/
theorem meets_indexAll (q : KnowledgeRequest) {names : List String} (indexed : ℕ)
    (past : KnowledgeTranscript) (hnames : ∀ name ∈ names, isMarkdown name = true) :
    (kb.indexAll names indexed).Meets (filesContract kb F known).assume
      ((filesContract kb F known).guarantee q)
      (fun later _ => past ⊆ later ∧ ∀ name ∈ names, kb.Wrote later name)
      (fun _ _ => True) past := by
  induction names generalizing indexed past with
  | nil => exact ⟨List.Subset.refl _, by simp⟩
  | cons name names ih =>
      obtain ⟨hname, hrest⟩ := List.forall_mem_cons.1 hnames
      refine Program.meets_bind.2 ⟨trivial, fun content hcontent => ?_, fun _ _ => trivial⟩
      have hsourced : kb.Sourced F (kb.document (stem name) content [("source", kb.path name)]) :=
        ⟨name, content, hcontent, hname, kb.document_source name content⟩
      refine Program.meets_bind.2 ⟨hsourced, fun documentId _ => ?_, fun _ _ => trivial⟩
      refine (ih (indexed + 1) _ hrest).mono ?_ fun _ _ _ => trivial
      rintro later _ ⟨hlater, hwrote⟩
      refine ⟨fun e he => hlater (by simp [he]), List.forall_mem_cons.2 ⟨?_, hwrote⟩⟩
      exact ⟨content, documentId, hlater (by simp)⟩

variable [Field K] [LinearOrder K] [FloorRing K]

/-- What a request has led to when it is done. -/
def KnowledgeRequest.Done (kb : SQLiteKnowledgeBase K) :
    KnowledgeRequest → KnowledgeTranscript → Option (KnowledgeAnswer K) → Prop
  | .start, past, _ => ∃ listing, ⟨.sources, .ok listing⟩ ∈ past ∧
      ∀ name ∈ listing.getD [], kb.Wrote past name
  | .execute query limit, past, result => ∃ rows, ⟨.loadDocumentsSync, .ok rows⟩ ∈ past ∧
      ∃ answer, result = some answer ∧
        answer.query = String.ofList (Text.strip query.toList) ∧
        answer.documents = kb.rank rows answer.query (min (max limit 1) 8) ∧
        answer.evidenceIds = answer.documents.map RetrievedDocument.documentId

theorem meets_search (q : KnowledgeRequest) (query : String) (limit : ℤ)
    (past : KnowledgeTranscript) :
    (kb.search query limit).Meets (filesContract kb F known).assume
      ((filesContract kb F known).guarantee q)
      (fun later documents => ∃ rows, ⟨.loadDocumentsSync, .ok rows⟩ ∈ later ∧
        documents = kb.rank rows query limit) (fun _ _ => True) past :=
  Program.meets_bind.2 ⟨trivial, fun rows _ => ⟨rows, by simp, rfl⟩, fun _ _ => trivial⟩

theorem meets_request (q : KnowledgeRequest) :
    (q.program kb).Meets (filesContract kb F known).assume ((filesContract kb F known).guarantee q)
      (q.Done kb) (fun _ _ => True) [] := by
  cases q with
  | start =>
      refine .handle (Program.meets_bind.2 ⟨trivial, fun _ _ => ?_, fun _ _ => trivial⟩)
      refine .handle (Program.meets_bind.2
        ⟨trivial, fun listing hlisting => ?_, fun _ _ => trivial⟩)
      have hnames : ∀ name ∈ listing.getD [], isMarkdown name = true := by
        cases listing with
        | none => simp
        | some names => exact hlisting
      refine (meets_indexAll .start 0 _ hnames).mono ?_ fun _ _ _ => trivial
      rintro later _ ⟨hlater, hwrote⟩
      exact ⟨listing, hlater (by simp), hwrote⟩
  | execute query limit =>
      refine .handle ?_
      simp only [SQLiteKnowledgeBase.execute]
      split
      · trivial
      · refine .handle ((meets_search _ _ _ _).mono ?_ fun _ _ _ => trivial)
        rintro later documents ⟨rows, hrows, hdocuments⟩
        exact ⟨rows, hrows, _, rfl, rfl, hdocuments, rfl⟩

end Programs

section Steps

variable {K : Type} {kb : SQLiteKnowledgeBase K} {F : String → String → Prop}
  {known : List DocumentRow} [Field K] [LinearOrder K] [FloorRing K]

abbrev KnowledgeConfig (K : Type) :=
  Config Exn KnowledgeCall KnowledgeReply KnowledgeFiles KnowledgeRequest
    (Option (KnowledgeAnswer K))

abbrev KnowledgeAction := Action (Ending Exn) KnowledgeRequest (Option SourceDirectory)

theorem KnowledgeCall.assumed_error (c : KnowledgeCall) (exc : Exn) : c.Assumed F (.error exc) := by
  cases c <;> trivial

theorem filesSound : (filesContract kb F known).Sound (knowledgeMachine kb) (filesPolicy F) where
  start i q s s' hinv _ haccept := by
    cases haccept
    exact ⟨hinv, (meets_request q).mono (fun _ _ _ => trivial) fun _ _ _ => trivial⟩
  call i q past c ending s r s' hinv _ hc hanswer := by
    have hanswer : ending.answer (c.execute kb s) s = (r, s') := Option.some.inj hanswer
    cases r with
    | ok reply =>
        have hexecute := Ending.answer_ok hanswer
        exact ⟨hinv.assumed hexecute, hinv.execute hc hexecute⟩
    | error exc =>
        refine ⟨c.assumed_error exc, ?_⟩
        rcases Ending.answer_cases hanswer with rfl | ⟨reply, hexecute⟩
        · exact hinv
        · exact hinv.execute hc hexecute
  crash i s hinv _ := hinv
  environment edited s s' hinv hpermit henv := by
    cases henv
    exact ⟨hpermit, hinv.rows⟩

variable {s₀ : KnowledgeFiles} {h : List (KnowledgeConfig K × KnowledgeAction)}
  {c c' : KnowledgeConfig K} {i : ℕ} {name : String}

/-- What a step does to the files: nothing, an edit, or what a call does. -/
theorem files_of_step {a : KnowledgeAction} (step : (knowledgeMachine kb).step a c = some c') :
    c'.state = c.state ∨
      (∃ edited, a = .environment edited ∧ c'.state = { c.state with directory := edited }) ∨
      ∃ i q cl k reply, c.pool i = .running q (.call cl k) ∧
        cl.execute kb c.state = .ok (reply, c'.state) := by
  cases a with
  | call i ending =>
      obtain ⟨q, cl, k, r, s, hslot, hr, rfl⟩ := Machine.step_call _ step
      rcases Ending.answer_cases (Option.some.inj hr) with hsame | ⟨reply, hexecute⟩
      · exact .inl hsame
      · exact .inr (.inr ⟨i, q, cl, k, reply, hslot, hexecute⟩)
  | start i q =>
      obtain ⟨s, -, haccept, rfl⟩ := Machine.step_start _ step
      cases haccept
      exact .inl rfl
  | crash i =>
      obtain ⟨q, p, -, rfl⟩ := Machine.step_crash _ step
      exact .inl rfl
  | environment edited =>
      obtain ⟨s, henv, rfl⟩ := Machine.step_environment _ step
      cases henv
      exact .inr (.inl ⟨edited, rfl, rfl⟩)

/-- In a run in which each call is guaranteed, a document that is there stays. -/
theorem stored_step (hdigests : Set.InjOn kb.sourceId {name | ∃ content, F name content})
    (hholds : (filesContract kb F known).Holds (knowledgeMachine kb) h c) {a : KnowledgeAction}
    (step : (knowledgeMachine kb).step a c = some c') (hstored : kb.Stored F name c.state) :
    kb.Stored F name c'.state := by
  rcases files_of_step step with hsame | ⟨edited, -, hedited⟩ | ⟨i, q, cl, k, _, hslot, hexecute⟩
  · exact hsame ▸ hstored
  · rw [hedited]
    exact hstored
  · exact stored_execute hdigests hstored (hholds.guarantee hslot) hexecute

/-- A document that a process has written is there. -/
theorem stored_of_wrote (hdigests : Set.InjOn kb.sourceId {name | ∃ content, F name content})
    (hwithin : s₀.Within kb F known)
    (run : (knowledgeMachine kb).Run (filesPolicy F) (.initial s₀) h c)
    (hwrote : kb.Wrote ((knowledgeMachine kb).transcript i h) name) :
    kb.Stored F name c.state := by
  induction run with
  | nil =>
      obtain ⟨content, documentId, hmem⟩ := hwrote
      cases hmem
  | @snoc h c c' a run permitted step ih =>
      have hholds := filesSound.run hwithin run
      by_cases hbefore : kb.Wrote ((knowledgeMachine kb).transcript i h) name
      · exact stored_step hdigests hholds step (ih hbefore)
      · obtain ⟨content, documentId, hmem⟩ := hwrote
        rw [Machine.transcript_snoc] at hmem
        rcases List.mem_append.1 hmem with hmem | hmem
        · exact absurd ⟨content, documentId, hmem⟩ hbefore
        · rw [Option.mem_toList] at hmem
          obtain ⟨ending, q, k, rfl, hslot⟩ := Machine.exchange_eq_some hmem
          obtain ⟨ending', s, heq, hanswer⟩ := Machine.answer_of_exchange hmem
          cases heq
          obtain ⟨q', cl, k', r, s', hslot', hanswer', rfl⟩ := Machine.step_call _ step
          rw [hslot] at hslot'
          cases hslot'
          rw [hanswer] at hanswer'
          cases hanswer'
          have hexecute := Ending.answer_ok (Option.some.inj hanswer)
          obtain ⟨name', content', hcontent', -, hdocument⟩ := hholds.guarantee hslot
          rw [kb.document_source] at hdocument
          obtain ⟨rfl, rfl⟩ := kb.sourceDocument_inj hdocument
          obtain ⟨-, ⟨hother, -⟩ | ⟨_, _, _, hcall, hrows⟩⟩ := KnowledgeCall.execute_cases hexecute
          · exact absurd rfl (hother _ _ _)
          · cases hcall
            exact ⟨content, hcontent', (hrows _).2 (.inl (kb.document_source name content).symm)⟩

end Steps

section Runs

variable {K : Type} {kb : SQLiteKnowledgeBase K} {s₀ : KnowledgeFiles}
  {h : List (KnowledgeConfig K × KnowledgeAction)} {c c' : KnowledgeConfig K}

/-- The file had this content when the run began, or was edited to it. -/
def HadContent (s₀ : KnowledgeFiles) (h : List (KnowledgeConfig K × KnowledgeAction))
    (name content : String) : Prop :=
  (∃ directory ∈ s₀.directory, (name, content) ∈ directory.files) ∨
    ∃ v ∈ h, ∃ directory, v.2 = .environment (some directory) ∧ (name, content) ∈ directory.files

theorem within_hadContent : s₀.Within kb (HadContent s₀ h) s₀.rows where
  files directory hdirectory _ hfile := .inl ⟨directory, hdirectory, hfile⟩
  rows _ hrow := .inl hrow

theorem rows_unique {s : KnowledgeFiles} {row row' : DocumentRow} (hrow : row ∈ s.rows)
    (hrow' : row' ∈ s.rows) (h : row.documentId = row'.documentId) : row = row' := by
  cases hdocuments : s.documents with
  | none => simp [KnowledgeFiles.rows, hdocuments] at hrow
  | some documents =>
      simp only [KnowledgeFiles.rows, hdocuments, Option.elim_some] at hrow hrow'
      exact Table.eq_of_unique (List.mem_singleton_self DocumentRow.documentId) hrow hrow' h

variable [Field K] [LinearOrder K] [FloorRing K]

theorem run_hadContent (run : (knowledgeMachine kb).Run .any (.initial s₀) h c) :
    (knowledgeMachine kb).Run (filesPolicy (HadContent s₀ h)) (.initial s₀) h c := by
  apply run.restrict
  rintro ⟨c', a⟩ hv -
  cases a with
  | call i ending =>
      simp only [Policy.permits]
      split <;> trivial
  | start i q => trivial
  | crash i => trivial
  | environment edited =>
      rintro directory hdirectory file hfile
      cases hdirectory
      exact .inr ⟨_, hv, directory, rfl, hfile⟩

/-- Without an edit the directory stays. -/
theorem directory_of_unedited (run : (knowledgeMachine kb).Run .any (.initial s₀) h c)
    (hunedited : ∀ v ∈ h, ∀ edited, v.2 ≠ .environment edited) :
    c.state.directory = s₀.directory := by
  induction run with
  | nil => rfl
  | snoc run _ step ih =>
      rw [← ih fun v hv => hunedited v (List.mem_append_left _ hv)]
      rcases files_of_step step with hsame | ⟨edited, hedit, -⟩ | ⟨_, _, _, _, _, -, hexecute⟩
      · rw [hsame]
      · have hlast := hunedited _ (List.mem_append_right _ (List.mem_singleton_self _))
        exact absurd hedit (hlast edited)
      · exact (KnowledgeCall.execute_cases hexecute).1

/-- A process that has initialized the knowledge base has listed the directory, and the documents
of the files that it has listed are there. -/
theorem listed_of_started (run : (knowledgeMachine kb).Run .any (.initial s₀) h c)
    (hdigests : Set.InjOn kb.sourceId {name | ∃ content, HadContent s₀ h name content}) {i : ℕ}
    {result : Option (KnowledgeAnswer K)} (hstarted : c.pool i = .running .start (.pure result)) :
    ∃ h₁ v h₂, h = h₁ ++ v :: h₂ ∧
      (∃ ending q k, v.2 = .call i ending ∧ v.1.pool i = .running q (.call .sources k)) ∧
        ∀ directory ∈ v.1.state.directory, ∀ file ∈ directory.files, isMarkdown file.1 = true →
          kb.Stored (HadContent s₀ h) file.1 c.state := by
  have run' := run_hadContent run
  obtain ⟨listing, hlisted, hwrote⟩ :=
    filesSound.post (fun _ q _ _ => meets_request q) within_hadContent run' i _ _ hstarted
  obtain ⟨h₁, v, h₂, heq, hexchange⟩ := Machine.exists_of_mem_transcript hlisted
  obtain ⟨ending, q, k, hv, hslot⟩ := Machine.exchange_eq_some hexchange
  obtain ⟨ending', s, -, hanswer⟩ := Machine.answer_of_exchange hexchange
  have hexecute := Ending.answer_ok (Option.some.inj hanswer)
  cases hexecute
  refine ⟨h₁, v, h₂, heq, ⟨ending, q, k, hv, hslot⟩, ?_⟩
  intro directory hdirectory file hfile hmarkdown
  refine stored_of_wrote hdigests within_hadContent run' (hwrote file.1 ?_)
  rw [Option.mem_def.1 hdirectory]
  exact mem_sources hfile hmarkdown

/-- Any number of processes that initialize the knowledge base and of searches, over a directory
that is edited at any time, from any earlier database. A document that was not there before is
a file's, with a content that the file had at some time. Provided that `sha256` has no collision
on the sources that were in the directory, the documents of all files that a started process has
listed are there; and without an edit each of these has the content of its file, and is the only
one with its digest. -/
theorem files_indexed (kb : SQLiteKnowledgeBase K) {s₀ : KnowledgeFiles}
    {h : List (KnowledgeConfig K × KnowledgeAction)} {c : KnowledgeConfig K}
    (run : (knowledgeMachine kb).Run .any (.initial s₀) h c) :
    (∀ row ∈ c.state.rows, row ∈ s₀.rows ∨ kb.Sourced (HadContent s₀ h) row) ∧
      (Set.InjOn kb.sha256 (kb.sourceText '' {name | ∃ content, HadContent s₀ h name content}) →
        ∀ i result, c.pool i = .running .start (.pure result) →
          (∃ v ∈ h, (∃ ending q k, v.2 = .call i ending ∧
              v.1.pool i = .running q (.call .sources k)) ∧
            ∀ directory ∈ v.1.state.directory, ∀ file ∈ directory.files,
              isMarkdown file.1 = true → ∃ content, HadContent s₀ h file.1 content ∧
                kb.sourceDocument file.1 content ∈ c.state.rows) ∧
          ((∀ v ∈ h, ∀ edited, v.2 ≠ .environment edited) →
            ∀ directory ∈ s₀.directory, ∀ file ∈ directory.files, isMarkdown file.1 = true →
              ∀ row, row ∈ c.state.rows ∧ row.documentId = kb.sourceId file.1 ↔
                row = kb.sourceDocument file.1 file.2)) := by
  have hrows := (filesSound.run within_hadContent (run_hadContent run)).inv.rows
  refine ⟨hrows, fun hdigests i result hstarted => ?_⟩
  obtain ⟨h₁, v, h₂, heq, hcalled, hlisted⟩ :=
    listed_of_started run (kb.injOn_sourceId hdigests) hstarted
  refine ⟨⟨v, by simp [heq], hcalled, hlisted⟩, ?_⟩
  intro hunedited directory hdirectory file hfile hmarkdown row
  have hstays : v.1.state.directory = s₀.directory :=
    directory_of_unedited (run.before heq).1 fun u hu => hunedited u (by simp [heq, hu])
  obtain ⟨content, hhad, hstored⟩ :=
    hlisted directory (hstays ▸ hdirectory) file hfile hmarkdown
  have hcontent : content = file.2 := by
    rcases hhad with ⟨directory', hdirectory', hfile'⟩ | ⟨u, hu, edited, hedited, -⟩
    · obtain rfl := Option.mem_unique hdirectory hdirectory'
      exact congrArg Prod.snd (List.inj_on_of_nodup_map directory.nodup hfile' hfile rfl)
    · exact absurd hedited (hunedited u hu _)
  subst hcontent
  constructor
  · rintro ⟨hrow, hid⟩
    exact rows_unique hrow hstored hid
  · rintro rfl
    exact ⟨hstored, rfl⟩

end Runs

/-- Three files, of which two are sources. -/
def demoSources : SourceDirectory where
  files := [("traffic.md", "Search traffic and clicks"), ("notes.txt", "Search clicks"),
    ("returns.md", "Return rates of headphones")]
  nodup := by decide

def demoKnowledgeBase : SQLiteKnowledgeBase ℚ where
  sourceDir := "knowledge"
  sha256 text := text
  characters := .basicLatin
  log _ := 0

/-- The database still has an earlier content of a file. -/
def demoStale : KnowledgeFiles where
  directory := some demoSources
  documents := some (Table.empty.upsert (demoKnowledgeBase.sourceDocument "traffic.md" "Traffic"))

/-- The process has initialized the knowledge base. -/
def startedSlot (slot : Slot Exn KnowledgeCall KnowledgeReply KnowledgeRequest
    (Option (KnowledgeAnswer ℚ))) : Bool :=
  match slot with
  | .running .start (.pure _) => true
  | _ => false

theorem exists_of_startedSlot {slot : Slot Exn KnowledgeCall KnowledgeReply KnowledgeRequest
    (Option (KnowledgeAnswer ℚ))} (h : startedSlot slot = true) :
    ∃ result, slot = .running .start (.pure result) := by
  unfold startedSlot at h
  split at h
  · exact ⟨_, rfl⟩
  · cases h

/-- Two processes start together, and one of them crashes. -/
def demoStarting : List KnowledgeAction :=
  [.start 0 .start, .start 1 .start, .call 0 .done, .call 1 .done, .call 1 .done, .call 0 .done,
    .call 0 .done, .call 1 .done, .call 0 .done, .call 1 .done, .call 0 .done, .crash 1,
    .call 0 .done]

theorem files_indexed_demo : ∃ h c result,
    (knowledgeMachine demoKnowledgeBase).Run .any (.initial demoStale) h c ∧
      h.map Prod.snd = demoStarting ∧ c.pool 0 = .running .start (.pure result) ∧
      ∀ row, row ∈ c.state.rows ∧ row.documentId = demoKnowledgeBase.sourceId "traffic.md" ↔
        row = demoKnowledgeBase.sourceDocument "traffic.md" "Search traffic and clicks" := by
  have hend : ((knowledgeMachine demoKnowledgeBase).exec .any demoStarting
      (.initial demoStale)).map (fun c => startedSlot (c.pool 0)) = some true := by decide +kernel
  have hmarkdown : isMarkdown "traffic.md" = true := by decide +kernel
  obtain ⟨c, hc, hstarted⟩ := Option.map_eq_some_iff.1 hend
  obtain ⟨result, hresult⟩ := exists_of_startedSlot hstarted
  have run := Machine.Run.follow .nil hc
  have hsteps := Machine.trail_actions hc
  refine ⟨_, c, result, run, hsteps, hresult, ?_⟩
  obtain ⟨-, hindexed⟩ := files_indexed demoKnowledgeBase run
  refine (hindexed (Set.injOn_id _) 0 result hresult).2 ?_ demoSources rfl
    ("traffic.md", "Search traffic and clicks") (List.mem_cons_self ..) hmarkdown
  intro v hv edited hedited
  have hmem := List.mem_map_of_mem (f := Prod.snd) hv
  rw [List.nil_append, hsteps, hedited] at hmem
  simp [demoStarting] at hmem

end CommerceAgent
