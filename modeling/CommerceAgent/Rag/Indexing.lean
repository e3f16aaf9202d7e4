import CommerceAgent.Effects.Machine
import CommerceAgent.Errors
import CommerceAgent.Json.Text
import CommerceAgent.Rag.KnowledgeBase
import Mathlib.Data.List.Sort

/-!
# Indexing the sources

Every process of the API and every worker initializes the knowledge base when it starts: it
creates the table and writes a document for each file of the source directory, while other
processes do the same, the tool searches and the files are edited. A document with a source
is known by the digest of its source alone, so that a file that is read again replaces its
document.
-/

namespace CommerceAgent

open Effects Relational

/-- The files of the source directory with their contents. -/
structure SourceDirectory where
  files : List (String × String)
  nodup : (files.map Prod.fst).Nodup

/-- The source directory and the database file, each of which may be missing. -/
structure KnowledgeFiles where
  directory : Option SourceDirectory
  documents : Option (Table DocumentRow documentKeys)

namespace KnowledgeFiles

def content? (s : KnowledgeFiles) (name : String) : Option String :=
  s.directory.bind fun directory => directory.files.lookup name

def rows (s : KnowledgeFiles) : List DocumentRow := s.documents.elim [] Table.rows

end KnowledgeFiles

/-- The name matches `*.md`. -/
def isMarkdown (name : String) : Bool := ".md".toList.isSuffixOf name.toList

/-- `sorted(self._source_dir.glob("*.md"))`. -/
def SourceDirectory.sources (directory : SourceDirectory) : List String :=
  ((directory.files.map Prod.fst).filter isMarkdown).insertionSort (· ≤ ·)

/-- `path.stem`. -/
def stem (name : String) : String :=
  let before := (name.toList.rdropWhile fun c => c != '.').dropLast
  if before ≠ [] ∧ name.toList.getLast? ≠ some '.' then String.ofList before else name

namespace Json

mutual

/-- The value as `json.dumps` with `sort_keys` orders it. -/
def sortKeys : Json → Json
  | .arr items => .arr (sortKeysAll items)
  | .obj fields => .obj ((sortKeysFields fields).insertionSort fun field next => field.1 ≤ next.1)
  | .null => .null
  | .bool b => .bool b
  | .int n => .int n
  | .float text => .float text
  | .str s => .str s

def sortKeysAll : List Json → List Json
  | [] => []
  | v :: items => v.sortKeys :: sortKeysAll items

def sortKeysFields : List (String × Json) → List (String × Json)
  | [] => []
  | (key, v) :: fields => (key, v.sortKeys) :: sortKeysFields fields

end

end Json

/-- What the knowledge base asks of its files. -/
inductive KnowledgeCall where
  | initializeSync
  | sources
  | readText (name : String)
  | addDocumentSync (title content : String) (metadata : List (String × String))
  | loadDocumentsSync

abbrev KnowledgeReply : KnowledgeCall → Type
  | .initializeSync => Unit
  | .sources => Option (List String)
  | .readText _ => String
  | .addDocumentSync .. => String
  | .loadDocumentsSync => List DocumentRow

abbrev KnowledgeProgram := Program Exn KnowledgeCall KnowledgeReply

/-- The knowledge base: where its sources are, and what it computes with. -/
structure SQLiteKnowledgeBase (K : Type) where
  sourceDir : String
  /-- `hashlib.sha256(text.encode("utf-8")).hexdigest()`. -/
  sha256 : String → String
  characters : Text.CaseTable
  log : K → K

/-- What `search_knowledge` returns. -/
structure KnowledgeAnswer (K : Type) where
  query : String
  documents : List (RetrievedDocument K)
  evidenceIds : List String

namespace SQLiteKnowledgeBase

variable {K : Type} (kb : SQLiteKnowledgeBase K)

/-- `str(path)` of a file of the source directory. -/
def path (name : String) : String := kb.sourceDir ++ "/" ++ name

/-- What a document is known by. -/
def identity (title content : String) (metadata : List (String × String)) : Json :=
  let source := (metadata.lookup "source").getD ""
  if source ≠ "" then .obj [("source", .str source)]
  else .obj [("title", .str title), ("content", .str content),
    ("metadata", .obj (metadata.map fun field => (field.1, .str field.2)))]

def digest (title content : String) (metadata : List (String × String)) : String :=
  kb.sha256 (Json.dumps Json.spaced (identity title content metadata).sortKeys)

/-- The row that `_add_document_sync` writes. -/
def document (title content : String) (metadata : List (String × String)) : DocumentRow where
  documentId := kb.digest title content metadata
  title := title
  content := content
  metadata := metadata

def addDocument (title content : String) (metadata : List (String × String)) :
    KnowledgeProgram String :=
  Program.perform (KnowledgeCall.addDocumentSync title content metadata)

/-- The loop of `index_source_directory`. -/
def indexAll : List String → ℕ → KnowledgeProgram ℕ
  | [], indexed => pure indexed
  | name :: names, indexed => do
    let content : String ← Program.perform (KnowledgeCall.readText name)
    let _ ← addDocument (stem name) content [("source", kb.path name)]
    indexAll names (indexed + 1)

def indexSourceDirectory : KnowledgeProgram ℕ := do
  let listing : Option (List String) ← Program.perform KnowledgeCall.sources
  kb.indexAll (listing.getD []) 0

/-- `initialize`. -/
def initializeBase : KnowledgeProgram Unit := do
  let _ : Unit ← Program.perform KnowledgeCall.initializeSync
  let _ ← kb.indexSourceDirectory
  pure ()

section Search

variable [Field K] [LinearOrder K] [FloorRing K]

/-- What `search` does with the documents it has loaded. -/
def rank (rows : List DocumentRow) (query : String) (limit : ℤ) : List (RetrievedDocument K) :=
  if tokenize kb.characters query = [] then []
  else
    let documentTokens := rows.map fun row => tokenize kb.characters row.content
    let scored := rows.filterMap (scoreRow kb.log kb.characters documentTokens query)
    sliceTo (Sequence.ranked RetrievedDocument.score scored) limit

def search (query : String) (limit : ℤ) : KnowledgeProgram (List (RetrievedDocument K)) := do
  let rows : List DocumentRow ← Program.perform KnowledgeCall.loadDocumentsSync
  pure (kb.rank rows query limit)

/-- `RagSearchTool.execute`. -/
def execute (query : String) (limitValue : ℤ) : KnowledgeProgram (KnowledgeAnswer K) :=
  let query := String.ofList (Text.strip query.toList)
  if query = "" then throw (.valueError "query 不能为空")
  else do
    let limit := min (max limitValue 1) 8
    let documents ← kb.search query limit
    pure
      { query := query
        documents := documents
        evidenceIds := documents.map RetrievedDocument.documentId }

end Search

end SQLiteKnowledgeBase

section

variable {K : Type} (kb : SQLiteKnowledgeBase K)

def KnowledgeCall.execute (s : KnowledgeFiles) :
    (c : KnowledgeCall) → Except Exn (KnowledgeReply c × KnowledgeFiles)
  | .initializeSync => .ok ((), { s with documents := some (s.documents.getD .empty) })
  | .sources => .ok (s.directory.map SourceDirectory.sources, s)
  | .readText name =>
      match s.content? name with
      | some content => .ok (content, s)
      | none => .error (.other "FileNotFoundError")
  | .addDocumentSync title content metadata =>
      match s.documents with
      | some documents => .ok (kb.digest title content metadata,
          { s with documents := some (documents.upsert (kb.document title content metadata)) })
      | none => .error (.other "OperationalError")
  | .loadDocumentsSync =>
      match s.documents with
      | some documents => .ok (loadDocuments documents, s)
      | none => .error (.other "OperationalError")

/-- A process that starts, or a search of the tool. -/
inductive KnowledgeRequest where
  | start
  | execute (query : String) (limit : ℤ)
  deriving DecidableEq

variable [Field K] [LinearOrder K] [FloorRing K]

def KnowledgeRequest.program : KnowledgeRequest → KnowledgeProgram (Option (KnowledgeAnswer K))
  | .start => do
    kb.initializeBase
    pure none
  | .execute query limit => do
    let answer ← kb.execute query limit
    pure (some answer)

/-- Any number of processes that initialize the knowledge base, and of searches, over files
that change at any time. -/
def knowledgeMachine : Machine Exn KnowledgeCall KnowledgeReply KnowledgeFiles (Ending Exn)
    KnowledgeRequest (Option (KnowledgeAnswer K)) (Option SourceDirectory) where
  program _ q := q.program kb
  answer _ c ending s := some (ending.answer (c.execute kb s) s)
  accept _ _ s := some s
  halt _ s := s
  environment directory s := some { s with directory := directory }

end

end CommerceAgent
