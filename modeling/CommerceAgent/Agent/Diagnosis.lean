import CommerceAgent.Agent.State
import CommerceAgent.Errors

/-!
# The diagnosis of the model

`Diagnosis.model_validate` reads the arguments of `submit_diagnosis` against the
schema, and `_validate_diagnosis` compares what it read with the evidence that has
been collected. What depends on libraries (the text of a schema error, the text of a
JSON value that is not a string, the formatting of the funnel comparison) is a
parameter of the agent.
-/

namespace CommerceAgent

/-- The four texts that `_render_diagnosis` makes of the funnel comparison. -/
structure ComparisonTexts where
  orderChange : String
  rate : String
  traffic : String
  conversion : String

/-- The configuration of an `AgentOrchestrator`, with the names of its read tools. -/
structure AgentSettings where
  toolNames : List String
  maxIterations : ℕ := 12
  maxRepeatedSteps : ℕ := 3
  maxToolCallsPerTurn : ℕ := 8
  maxReflections : ℕ := 1
  promptVersion : String := "sales-diagnosis-v1"
  skillVersion : String := "sales-drop-diagnosis-v1"
  /-- `sha256(json.dumps(normalized, sort_keys=True)).hexdigest()`. -/
  signature : List (String × JsonObject) → String
  /-- `str` of a JSON value that is not a string. -/
  repr : Json → String
  schemaError : JsonObject → String
  comparisonTexts : Json → Except Exn ComparisonTexts

/-- The length of a string that the schema bounds. -/
def bounded (minLength maxLength : ℕ) (s : String) : Option String :=
  if minLength ≤ s.length ∧ s.length ≤ maxLength then some s else none

def oneOf (values : List String) (s : String) : Option String :=
  if s ∈ values then some s else none

def Json.strings? (v : Json) : Option (List String) := v.arr?.bind fun items => items.mapM str?

/-- A required field. -/
def JsonObject.field {α : Type} (d : JsonObject) (key : String) (parse : Json → Option α) :
    Option α :=
  (d.get? key).bind parse

/-- A field with a default. -/
def JsonObject.fieldOr {α : Type} (d : JsonObject) (key : String) (parse : Json → Option α)
    (default : α) : Option α :=
  match d.get? key with
  | none => some default
  | some v => parse v

def Finding.modelValidate (v : Json) : Option Finding := do
  let d ← v.obj?
  let category ← d.field "category" Json.str?
  let statement ← d.field "statement" Json.str?
  let kind ← (d.field "kind" Json.str?).bind (oneOf ["fact", "hypothesis", "gap"])
  let evidenceIds ← d.fieldOr "evidence_ids" Json.strings? []
  let confidence ← (d.fieldOr "confidence" Json.str? "medium").bind
    (oneOf ["low", "medium", "high"])
  pure { category, statement, kind, evidenceIds, confidence }

def ProductPatch.modelValidate (v : Json) : Option ProductPatch := do
  let d ← v.obj?
  let field ← (d.field "field" Json.str?).bind (oneOf ["description"])
  let newValue ← (d.field "new_value" Json.str?).bind (bounded 1 4000)
  let reason ← (d.field "reason" Json.str?).bind (bounded 1 1000)
  pure { field, newValue, reason }

/-- `proposed_patch: ProductPatch | None`. -/
def optionalPatch : Json → Option (Option ProductPatch)
  | .null => some none
  | v => (ProductPatch.modelValidate v).map some

/-- The number of items of a list that the schema bounds. -/
def boundedList {α : Type} (maxLength : ℕ) (items : List α) : Option (List α) :=
  if 1 ≤ items.length ∧ items.length ≤ maxLength then some items else none

def Diagnosis.parse (d : JsonObject) : Option Diagnosis := do
  let summary ← (d.field "summary" Json.str?).bind (bounded 1 4000)
  let findings ← (d.field "findings" fun v =>
    v.arr?.bind fun items => items.mapM Finding.modelValidate).bind (boundedList 12)
  let actions ← (d.field "actions" Json.strings?).bind (boundedList 10)
  let proposedPatch ← d.fieldOr "proposed_patch" optionalPatch none
  let missingData ← d.fieldOr "missing_data" Json.strings? []
  pure { summary, findings, actions, proposedPatch, missingData }

namespace AgentSettings

variable (agent : AgentSettings)

/-- `Diagnosis.model_validate(...)`, or the `validation_parse_error`. -/
def submission (arguments : JsonObject) : Submission :=
  match Diagnosis.parse arguments with
  | some diagnosis => .ok diagnosis
  | none => .error (agent.schemaError arguments)

/-- `str(item)`. -/
def str : Json → String
  | .str s => s
  | v => agent.repr v

/-- `[str(item) for item in v]`. -/
def itemTexts : Json → Except Exn (List String)
  | .arr items => .ok (items.map agent.str)
  | .str s => .ok (s.toList.map Char.toString)
  | .obj fields => .ok (fields.map Prod.fst)
  | _ => .error (.other "TypeError")

/-- The top-level `evidence_ids` of a tool result. -/
def evidenceOf (result : JsonObject) : Except Exn (List String) :=
  match result.get? "evidence_ids" with
  | none => .ok []
  | some v => agent.itemTexts v

/-- The evidence of the messages with the role `tool`. -/
def toolEvidence : List Message → Except Exn (List String)
  | [] => .ok []
  | .tool _ _ result :: messages => do
      let evidence ← agent.evidenceOf result
      let rest ← toolEvidence messages
      pure (evidence ++ rest)
  | _ :: messages => toolEvidence messages

def collectEvidenceIds (state : AgentState) : Except Exn (List String) := do
  let evidence ← agent.toolEvidence state.messages
  pure ((state.metrics.map Metrics.evidenceIds).getD [] ++ evidence)

/-- What is wrong with one finding. -/
def findingErrors (evidenceIds : List String) (finding : Finding) : List String :=
  let unknown := finding.evidenceIds.filter fun id => decide (id ∉ evidenceIds)
  (if finding.kind = "fact" ∧ finding.evidenceIds = [] then
    ["事实结论缺少证据：" ++ finding.statement] else []) ++
  (if unknown = [] then [] else
    ["引用了不存在的证据：" ++
      ", ".intercalate (unknown.eraseDups.mergeSort fun a b => decide (a ≤ b))])

/-- A content fact with evidence. -/
def supportsPatch (finding : Finding) : Bool :=
  finding.category == "content" && finding.kind == "fact" && finding.evidenceIds != []

def patchErrors (diagnosis : Diagnosis) : List String :=
  if diagnosis.proposedPatch.isSome ∧ ¬ diagnosis.findings.any supportsPatch then
    ["商品详情修改缺少有证据支持的内容事实"] else []

def validateDiagnosis (state : AgentState) : Except Exn (List String) :=
  match state.diagnosis with
  | some (.ok diagnosis) => do
      let evidenceIds ← agent.collectEvidenceIds state
      pure (diagnosis.findings.flatMap (findingErrors evidenceIds) ++ patchErrors diagnosis)
  | _ => pure ["submit_diagnosis 参数不符合 Diagnosis schema"]

/-- One line of the report for each finding. -/
def findingLine (finding : Finding) : String :=
  "- [" ++ finding.kind ++ "] " ++ finding.statement ++ "（证据：" ++
    (if finding.evidenceIds = [] then "无" else ", ".intercalate finding.evidenceIds) ++ "）"

def renderDiagnosis (state : AgentState) (diagnosis : Diagnosis) : Except Exn String :=
  match state.metrics with
  | none => .error (.other "KeyError")
  | some metrics => do
      let texts ← agent.comparisonTexts metrics.comparison
      let lines := [diagnosis.summary,
          "订单变化：" ++ texts.orderChange ++ "（" ++ texts.rate ++ "）",
          "流量贡献：" ++ texts.traffic ++ "；转化贡献：" ++ texts.conversion,
          "主要发现："] ++
        diagnosis.findings.map findingLine ++ ["行动计划："] ++
        diagnosis.actions.map (fun action => "- " ++ action) ++
        (if diagnosis.missingData = [] then [] else
          ["仍需验证：" ++ "；".intercalate diagnosis.missingData])
      pure ("\n".intercalate lines)

end AgentSettings

end CommerceAgent
