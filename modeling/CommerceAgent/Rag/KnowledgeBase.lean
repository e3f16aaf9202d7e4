import CommerceAgent.Numeric.Rounding
import CommerceAgent.Relational.Table
import CommerceAgent.Sequence.Ranking
import CommerceAgent.Text.Casing
import CommerceAgent.Text.Scan
import Mathlib.Algebra.Order.BigOperators.Group.List
import Mathlib.Analysis.SpecialFunctions.Log.Basic

/-!
# The knowledge base

`search` scores each document by the words that it shares with the query, weighted by how
rare they are, and returns the best excerpts. The scores are elements of an ordered field
with a logarithm; what is proved uses of it only that it is not negative from 1 on, and
the result is stated for the reals.
-/

namespace CommerceAgent

open Numeric Relational Sequence

/-- A row of `documents`; `metadata` is what `metadata_json` encodes. -/
structure DocumentRow where
  documentId : String
  title : String
  content : String
  metadata : List (String × String)

structure RetrievedDocument (K : Type) where
  documentId : String
  title : String
  content : String
  score : K
  metadata : List (String × String)

abbrev documentKeys : List (DocumentRow → String) := [DocumentRow.documentId]

/-- `[a-z0-9_\-]`. -/
def wordChar (c : Char) : Bool :=
  ('a'.toNat ≤ c.toNat && c.toNat ≤ 'z'.toNat) || ('0'.toNat ≤ c.toNat && c.toNat ≤ '9'.toNat) ||
    c = '_' || c = '-'

/-- `[\u4e00-\u9fff]`. -/
def chineseChar (c : Char) : Bool := 0x4e00 ≤ c.toNat && c.toNat ≤ 0x9fff

/-- `_tokenize`. -/
def tokenize (table : Text.CaseTable) (text : String) : List (List Char) :=
  let normalized := table.lower text.toList
  let words := Text.runs wordChar normalized
  let chinese := normalized.filter chineseChar
  let singleChars := if chinese.length = 1 then [chinese] else []
  words ++ Text.bigrams chinese ++ singleChars

/-- The tokens of a query that `_best_excerpt` looks for. -/
def candidates (table : Text.CaseTable) (query : String) : List (List Char) :=
  (tokenize table query).filter fun token => decide (2 ≤ token.length)

/-- Where the first of the candidates occurs; 0 if none does. -/
def excerptCenter (table : Text.CaseTable) (content query : String) : ℕ :=
  let lowered := table.lower content.toList
  (((candidates table query).filterMap fun token => Text.find token lowered).min?).getD 0

def excerptStart (table : Text.CaseTable) (content query : String) (maxChars : ℕ) : ℕ :=
  excerptCenter table content query - maxChars / 4

def excerptEnd (table : Text.CaseTable) (content query : String) (maxChars : ℕ) : ℕ :=
  min (excerptStart table content query maxChars + maxChars) content.length

/-- `content[start:end]`. -/
def excerptBody (table : Text.CaseTable) (content query : String) (maxChars : ℕ) : List Char :=
  (content.toList.take (excerptEnd table content query maxChars)).drop
    (excerptStart table content query maxChars)

/-- `_best_excerpt`. -/
def bestExcerpt (table : Text.CaseTable) (content query : String) (maxChars : ℕ := 1500) : String :=
  if content.length ≤ maxChars then content
  else
    (if 0 < excerptStart table content query maxChars then "…" else "") ++
      String.ofList (excerptBody table content query maxChars) ++
      (if excerptEnd table content query maxChars < content.length then "…" else "")

/-- `_load_documents_sync`. -/
def loadDocuments (documents : Table DocumentRow documentKeys) : List DocumentRow :=
  documents.rows.take 5000

/-- `xs[:limit]`. -/
def sliceTo {α : Type} (xs : List α) (limit : ℤ) : List α :=
  if 0 ≤ limit then xs.take limit.toNat else xs.take (xs.length - limit.natAbs)

section Search

variable {K : Type} [Field K] [LinearOrder K] [FloorRing K] (log : K → K)

/-- The weight of a token, by the number of documents that contain it. -/
def inverseFrequency (documentTokens : List (List (List Char))) (token : List Char) : K :=
  let totalDocuments := max documentTokens.length 1
  let documentFrequency := documentTokens.countP fun tokens => decide (token ∈ tokens)
  log (((totalDocuments : K) + 1) / ((documentFrequency : K) + 1)) + 1

/-- The score of a document: the sum over the query tokens that it contains. -/
def documentScore (documentTokens : List (List (List Char)))
    (queryTokens tokens : List (List Char)) : K :=
  queryTokens.foldl
    (fun score token =>
      let frequency := tokens.count token
      if frequency = 0 then score
      else score + (1 + log (frequency : K)) * inverseFrequency log documentTokens token) 0

/-- The entry of a row in the list of results, unless its score is 0. -/
def scoreRow (table : Text.CaseTable) (documentTokens : List (List (List Char))) (query : String)
    (row : DocumentRow) : Option (RetrievedDocument K) :=
  let score := documentScore log documentTokens (tokenize table query) (tokenize table row.content)
  if score ≤ 0 then none
  else some
    { documentId := row.documentId
      title := row.title
      content := bestExcerpt table row.content query
      score := roundTo 4 score
      metadata := row.metadata }

/-- `search`. -/
def search (table : Text.CaseTable) (documents : Table DocumentRow documentKeys) (query : String)
    (limit : ℤ := 4) : List (RetrievedDocument K) :=
  let rows := loadDocuments documents
  if tokenize table query = [] then []
  else
    let documentTokens := rows.map fun row => tokenize table row.content
    let scored := rows.filterMap (scoreRow log table documentTokens query)
    sliceTo (ranked RetrievedDocument.score scored) limit

end Search

end CommerceAgent
