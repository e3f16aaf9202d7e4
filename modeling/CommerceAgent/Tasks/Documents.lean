import CommerceAgent.Agent.Diagnosis
import CommerceAgent.Json.RoundTrip

/-!
# Records and messages as documents

A record is stored in Redis, and a message is published, as the JSON text that
`model_dump_json` writes; `model_validate_json` reads it back. The two timestamps of a
record are part of its document and of nothing else here. An `interaction` is written as
the dictionary that it is in the source.
-/

namespace CommerceAgent

/-- `int`, as a JSON value. -/
def Json.int? : Json → Option ℤ
  | .int n => some n
  | _ => none

/-- A number that is not negative. -/
def Json.nat? : Json → Option ℕ
  | .int n => if 0 ≤ n then some n.toNat else none
  | _ => none

@[simp] theorem Json.str?_str (s : String) : Json.str? (.str s) = some s := rfl

@[simp] theorem Json.obj?_obj (d : JsonObject) : Json.obj? (.obj d) = some d := rfl

@[simp] theorem Json.int?_int (n : ℤ) : Json.int? (.int n) = some n := rfl

@[simp] theorem Json.nat?_natCast (n : ℕ) : Json.nat? (.int n) = some n := by
  simp [Json.nat?]

/-- `T | None`, as a JSON value. -/
def Json.ofOption {α : Type} (write : α → Json) : Option α → Json
  | some a => write a
  | none => .null

def Json.optional? {α : Type} (parse : Json → Option α) : Json → Option (Option α)
  | .null => some none
  | v => (parse v).map some

theorem Json.optional?_ofOption {α : Type} {write : α → Json} {parse : Json → Option α}
    {o : Option α}
    (hnull : ∀ a, write a ≠ .null) (h : ∀ a ∈ o, parse (write a) = some a) :
    optional? parse (ofOption write o) = some o := by
  cases o with
  | none => rfl
  | some a =>
      have hparse := h a rfl
      change optional? parse (write a) = _
      unfold optional?
      split
      · next hv => exact absurd hv (hnull a)
      · rw [hparse]
        rfl

def TaskStatus.value : TaskStatus → String
  | .queued => "queued"
  | .running => "running"
  | .retrying => "retrying"
  | .awaitingInput => "awaiting_input"
  | .awaitingApproval => "awaiting_approval"
  | .rejected => "rejected"
  | .completed => "completed"
  | .failed => "failed"

def TaskStatus.ofValue? (s : String) : Option TaskStatus :=
  [TaskStatus.queued, .running, .retrying, .awaitingInput, .awaitingApproval, .rejected, .completed,
    .failed].find? fun status => status.value == s

def RunStatus.value : RunStatus → String
  | .completed => "completed"
  | .awaitingInput => "awaiting_input"
  | .awaitingApproval => "awaiting_approval"
  | .rejected => "rejected"

def ApprovalDecision.value : ApprovalDecision → String
  | .approve => "approve"
  | .reject => "reject"

def ResumeKind.value : ResumeKind → String
  | .retry => "retry"
  | .input => "input"
  | .approval => "approval"
  | .other kind => kind

def ResumeKind.ofValue (s : String) : ResumeKind :=
  if s = "retry" then .retry
  else if s = "input" then .input
  else if s = "approval" then .approval
  else .other s

/-- The kind is the one that its string stands for. -/
def ResumeKind.Canonical (kind : ResumeKind) : Prop := .ofValue kind.value = kind

theorem TaskStatus.ofValue?_value (status : TaskStatus) :
    TaskStatus.ofValue? status.value = some status := by
  cases status <;> rfl

theorem TaskStatus.value_injective : Function.Injective TaskStatus.value := by
  intro status other h
  have hread := status.ofValue?_value
  rw [h, other.ofValue?_value] at hread
  exact (Option.some.inj hread).symm

namespace ProductSummary

def modelDump (item : ProductSummary) : Json :=
  .obj [("product_id", .str item.productId), ("name", .str item.name),
    ("version", .int item.version)]

def ofJson? (v : Json) : Option ProductSummary := do
  let d ← v.obj?
  let productId ← d.field "product_id" Json.str?
  let name ← d.field "name" Json.str?
  let version ← d.field "version" Json.nat?
  pure ⟨productId, name, version⟩

theorem ofJson?_modelDump (item : ProductSummary) : ofJson? item.modelDump = some item := by
  simp [ofJson?, modelDump, JsonObject.field, JsonObject.get?]

theorem mapM_modelDump (items : List ProductSummary) :
    (items.map modelDump).mapM ofJson? = some items := by
  induction items with
  | nil => rfl
  | cons item items ih => simp [ofJson?_modelDump, ih]

end ProductSummary

namespace Interaction

/-- The dictionary that the source keeps. -/
def dict : Interaction → JsonObject
  | .inputRequired candidates =>
      [("type", .str "input.required"), ("field", .str "product_id"),
        ("message", .str "请确认要诊断的商品"),
        ("candidates", .arr (candidates.map ProductSummary.modelDump))]
  | .approvalRequired planId planVersion actionId productId productVersion before after reason =>
      [("type", .str "approval.required"), ("plan_id", .str planId),
        ("plan_version", .int planVersion), ("action_id", .str actionId),
        ("product_id", .str productId), ("product_version", .int productVersion),
        ("before", .str before), ("after", .str after), ("reason", .str reason)]
  | .inputResume productId => [("type", .str "input.resume"), ("product_id", .str productId)]
  | .approvalResume approvalId =>
      [("type", .str "approval.resume"), ("approval_id", .str approvalId)]
  | .retryResume resumeId => [("type", .str "retry.resume"), ("resume_id", .str resumeId)]

/-- The interaction of a dictionary. -/
def ofDict? (d : JsonObject) : Option Interaction := do
  let kind ← d.field "type" Json.str?
  if kind = "input.required" then do
    let candidates ← d.field "candidates" fun v =>
      v.arr?.bind fun items => items.mapM ProductSummary.ofJson?
    pure (.inputRequired candidates)
  else if kind = "approval.required" then do
    let planId ← d.field "plan_id" Json.str?
    let planVersion ← d.field "plan_version" Json.int?
    let actionId ← d.field "action_id" Json.str?
    let productId ← d.field "product_id" Json.str?
    let productVersion ← d.field "product_version" Json.nat?
    let before ← d.field "before" Json.str?
    let after ← d.field "after" Json.str?
    let reason ← d.field "reason" Json.str?
    pure
      (.approvalRequired planId planVersion actionId productId productVersion before after reason)
  else if kind = "input.resume" then (d.field "product_id" Json.str?).map .inputResume
  else if kind = "approval.resume" then (d.field "approval_id" Json.str?).map .approvalResume
  else if kind = "retry.resume" then (d.field "resume_id" Json.str?).map .retryResume
  else none

theorem ofDict?_dict (interaction : Interaction) : ofDict? interaction.dict = some interaction := by
  cases interaction with
  | inputRequired candidates =>
      change ((candidates.map ProductSummary.modelDump).mapM ProductSummary.ofJson?).bind _ = _
      rw [ProductSummary.mapM_modelDump]
      rfl
  | approvalRequired planId planVersion actionId productId productVersion before after reason =>
      simp [ofDict?, dict, JsonObject.field, JsonObject.get?]
  | _ => rfl

end Interaction

/-- The texts of `created_at` and `updated_at`. -/
structure Timestamps where
  createdAt : String
  updatedAt : String

namespace TaskRecord

variable (isDatetime : String → Bool)

/-- `model_dump(mode="json")`. -/
def modelDump (stamps : Timestamps) (task : TaskRecord) : JsonObject :=
  [("task_id", .str task.taskId),
    ("session_id", .str task.sessionId),
    ("trace_id", .str task.traceId),
    ("prompt", .str task.prompt),
    ("merchant_id", .str task.merchantId),
    ("product_id", .ofOption .str task.productId),
    ("status", .str task.status.value),
    ("attempt", .int task.attempt),
    ("pending_attempt", .ofOption .int task.pendingAttempt),
    ("pending_resume_kind", .ofOption (fun kind => .str kind.value) task.pendingResumeKind),
    ("pending_resume_id", .ofOption .str task.pendingResumeId),
    ("result", .ofOption .str task.result),
    ("interaction", .ofOption (fun interaction => .obj interaction.dict) task.interaction),
    ("error_code", .ofOption .str task.errorCode),
    ("error_message", .ofOption .str task.errorMessage),
    ("created_at", .str stamps.createdAt),
    ("updated_at", .str stamps.updatedAt)]

/-- A text that is a datetime. -/
def datetime? (v : Json) : Option String :=
  v.str?.bind fun text => if isDatetime text then some text else none

/-- `TaskRecord.model_validate`. -/
def modelValidate (d : JsonObject) : Option TaskRecord := do
  let taskId ← d.field "task_id" Json.str?
  let sessionId ← d.field "session_id" Json.str?
  let traceId ← d.field "trace_id" Json.str?
  let prompt ← d.field "prompt" Json.str?
  let merchantId ← d.fieldOr "merchant_id" Json.str? "demo-merchant"
  let productId ← d.fieldOr "product_id" (Json.optional? Json.str?) none
  let status ← d.fieldOr "status" (fun v => v.str?.bind TaskStatus.ofValue?) .queued
  let attempt ← d.fieldOr "attempt" Json.int? 0
  let pendingAttempt ← d.fieldOr "pending_attempt" (Json.optional? Json.int?) none
  let pendingResumeKind ← d.fieldOr "pending_resume_kind" (Json.optional? Json.str?) none
  let pendingResumeId ← d.fieldOr "pending_resume_id" (Json.optional? Json.str?) none
  let result ← d.fieldOr "result" (Json.optional? Json.str?) none
  let interaction ← d.fieldOr "interaction"
    (Json.optional? fun v => v.obj?.bind Interaction.ofDict?) none
  let errorCode ← d.fieldOr "error_code" (Json.optional? Json.str?) none
  let errorMessage ← d.fieldOr "error_message" (Json.optional? Json.str?) none
  let _ ← d.fieldOr "created_at" (datetime? isDatetime) ""
  let _ ← d.fieldOr "updated_at" (datetime? isDatetime) ""
  pure
    { taskId, sessionId, traceId, prompt, merchantId, productId, status, attempt, pendingAttempt,
      pendingResumeKind := pendingResumeKind.map ResumeKind.ofValue, pendingResumeId, result,
      interaction, errorCode, errorMessage }

/-- The resume kind of the record is one of the source. -/
def Canonical (task : TaskRecord) : Prop := ∀ kind ∈ task.pendingResumeKind, kind.Canonical

variable {isDatetime}

theorem modelValidate_modelDump {task : TaskRecord} {stamps : Timestamps} (htask : task.Canonical)
    (hcreated : isDatetime stamps.createdAt = true)
    (hupdated : isDatetime stamps.updatedAt = true) :
    modelValidate isDatetime (task.modelDump stamps) = some task := by
  have htext : ∀ o : Option String, Json.optional? Json.str? (.ofOption .str o) = some o := fun o =>
    Json.optional?_ofOption (by simp) fun _ _ => rfl
  have hnumber : Json.optional? Json.int? (.ofOption .int task.pendingAttempt) =
      some task.pendingAttempt := Json.optional?_ofOption (by simp) fun _ _ => rfl
  have hkind : Json.optional? Json.str? (.ofOption (fun kind => .str kind.value)
      task.pendingResumeKind) = some (task.pendingResumeKind.map ResumeKind.value) := by
    cases task.pendingResumeKind <;> rfl
  have hinteraction : Json.optional? (fun v => v.obj?.bind Interaction.ofDict?)
      (.ofOption (fun interaction => .obj interaction.dict) task.interaction) =
      some task.interaction :=
    Json.optional?_ofOption (by simp) fun interaction _ => interaction.ofDict?_dict
  have hdatetime : ∀ text, isDatetime text = true →
      datetime? isDatetime (.str text) = some text := by
    intro text h
    simp [datetime?, h]
  have hback : (task.pendingResumeKind.map ResumeKind.value).map ResumeKind.ofValue =
      task.pendingResumeKind := by
    cases hsome : task.pendingResumeKind with
    | none => rfl
    | some kind => exact congrArg some (htask kind hsome)
  simp [modelValidate, modelDump, JsonObject.field, JsonObject.fieldOr, JsonObject.get?, htext,
    hnumber, hkind, hinteraction, TaskStatus.ofValue?_value, hdatetime _ hcreated,
    hdatetime _ hupdated, hback]

end TaskRecord

namespace QueueMessage

def modelDump (payload : QueueMessage) : JsonObject :=
  [("task_id", .str payload.taskId),
    ("session_id", .str payload.sessionId),
    ("trace_id", .str payload.traceId),
    ("attempt", .int payload.attempt),
    ("resume_kind", .ofOption (fun kind => .str kind.value) payload.resumeKind),
    ("resume_id", .ofOption .str payload.resumeId)]

/-- `QueueMessage.model_validate`. -/
def modelValidate (d : JsonObject) : Option QueueMessage := do
  let taskId ← d.field "task_id" Json.str?
  let sessionId ← d.field "session_id" Json.str?
  let traceId ← d.field "trace_id" Json.str?
  let attempt ← d.fieldOr "attempt" Json.int? 0
  let resumeKind ← d.fieldOr "resume_kind" (Json.optional? Json.str?) none
  let resumeId ← d.fieldOr "resume_id" (Json.optional? Json.str?) none
  pure
    { taskId, sessionId, traceId, attempt, resumeKind := resumeKind.map ResumeKind.ofValue,
      resumeId }

def Canonical (payload : QueueMessage) : Prop := ∀ kind ∈ payload.resumeKind, kind.Canonical

theorem modelValidate_modelDump {payload : QueueMessage} (h : payload.Canonical) :
    modelValidate payload.modelDump = some payload := by
  have htext : Json.optional? Json.str? (.ofOption .str payload.resumeId) = some payload.resumeId :=
    Json.optional?_ofOption (by simp) fun _ _ => rfl
  have hkind : Json.optional? Json.str? (.ofOption (fun kind => .str kind.value)
      payload.resumeKind) = some (payload.resumeKind.map ResumeKind.value) := by
    cases payload.resumeKind <;> rfl
  have hback : (payload.resumeKind.map ResumeKind.value).map ResumeKind.ofValue =
      payload.resumeKind := by
    cases hsome : payload.resumeKind with
    | none => rfl
    | some kind => exact congrArg some (h kind hsome)
  simp [modelValidate, modelDump, JsonObject.field, JsonObject.fieldOr, JsonObject.get?, htext,
    hkind, hback]

end QueueMessage

section Texts

variable {floatText : String → String}

theorem Json.writable_ofOption {α : Type} {write : α → Json} (h : ∀ a, Writable floatText (write a))
    (o : Option α) : Writable floatText (ofOption write o) := by
  cases o with
  | none => exact .null
  | some a => exact h a

theorem ProductSummary.writable_modelDump (item : ProductSummary) :
    item.modelDump.Writable floatText := by
  refine .obj (by simp) ?_
  simp only [List.forall_mem_cons, List.not_mem_nil, false_imp_iff, implies_true, and_true]
  exact ⟨.str _, .str _, .int _⟩

theorem Interaction.writable_dict (interaction : Interaction) :
    (Json.obj interaction.dict).Writable floatText := by
  cases interaction with
  | inputRequired candidates =>
      refine .obj (by simp [dict]) ?_
      simp only [dict, List.forall_mem_cons, List.not_mem_nil, false_imp_iff, implies_true,
        and_true]
      refine ⟨.str _, .str _, .str _, .arr ?_⟩
      intro v hv
      obtain ⟨item, -, rfl⟩ := List.mem_map.1 hv
      exact item.writable_modelDump
  | approvalRequired =>
      refine .obj (by simp [dict]) ?_
      simp only [dict, List.forall_mem_cons, List.not_mem_nil, false_imp_iff, implies_true,
        and_true]
      exact ⟨.str _, .str _, .int _, .str _, .str _, .int _, .str _, .str _, .str _⟩
  | _ =>
      refine .obj (by simp [dict]) ?_
      simp only [dict, List.forall_mem_cons, List.not_mem_nil, false_imp_iff, implies_true,
        and_true]
      exact ⟨.str _, .str _⟩

theorem TaskRecord.writable_modelDump (task : TaskRecord) (stamps : Timestamps) :
    (Json.obj (task.modelDump stamps)).Writable floatText := by
  have htext : ∀ o : Option String, (Json.ofOption .str o).Writable floatText :=
    Json.writable_ofOption .str
  refine .obj (by simp [modelDump]) ?_
  simp only [modelDump, List.forall_mem_cons, List.not_mem_nil, false_imp_iff, implies_true,
    and_true]
  exact ⟨.str _, .str _, .str _, .str _, .str _, htext _, .str _, .int _,
    Json.writable_ofOption .int _, Json.writable_ofOption (fun _ => .str _) _, htext _, htext _,
    Json.writable_ofOption Interaction.writable_dict _, htext _, htext _, .str _, .str _⟩

theorem QueueMessage.writable_modelDump (payload : QueueMessage) :
    (Json.obj payload.modelDump).Writable floatText := by
  refine .obj (by simp [modelDump]) ?_
  simp only [modelDump, List.forall_mem_cons, List.not_mem_nil, false_imp_iff, implies_true,
    and_true]
  exact ⟨.str _, .str _, .str _, .int _, Json.writable_ofOption (fun _ => .str _) _,
    Json.writable_ofOption .str _⟩

/-- `task.model_dump_json()`. -/
def TaskRecord.dumpJson (task : TaskRecord) (stamps : Timestamps) : String :=
  (Json.obj (task.modelDump stamps)).dumps Json.compact

/-- `TaskRecord.model_validate_json(raw)`. -/
def TaskRecord.validateJson (floatText : String → String) (isDatetime : String → Bool)
    (raw : String) : Option TaskRecord :=
  ((Json.loads floatText raw).bind Json.obj?).bind (modelValidate isDatetime)

/-- `payload.model_dump_json()`. -/
def QueueMessage.dumpJson (payload : QueueMessage) : String :=
  (Json.obj payload.modelDump).dumps Json.compact

/-- `QueueMessage.model_validate_json(body)`. -/
def QueueMessage.validateJson (floatText : String → String) (body : String) :
    Option QueueMessage :=
  ((Json.loads floatText body).bind Json.obj?).bind modelValidate

theorem TaskRecord.loads_dumpJson (task : TaskRecord) (stamps : Timestamps) :
    Json.loads floatText (task.dumpJson stamps) = some (.obj (task.modelDump stamps)) :=
  Json.loads_dumps Json.compact_blank (task.writable_modelDump stamps)

theorem TaskRecord.validateJson_dumpJson {isDatetime : String → Bool} {task : TaskRecord}
    {stamps : Timestamps} (htask : task.Canonical) (hcreated : isDatetime stamps.createdAt = true)
    (hupdated : isDatetime stamps.updatedAt = true) :
    validateJson floatText isDatetime (task.dumpJson stamps) = some task := by
  rw [validateJson, loads_dumpJson]
  exact modelValidate_modelDump htask hcreated hupdated

theorem QueueMessage.validateJson_dumpJson {payload : QueueMessage} (h : payload.Canonical) :
    validateJson floatText payload.dumpJson = some payload := by
  rw [validateJson, dumpJson, Json.loads_dumps Json.compact_blank payload.writable_modelDump]
  exact modelValidate_modelDump h

end Texts

end CommerceAgent
