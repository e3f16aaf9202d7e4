import CommerceAgent.Agent.Diagnosis
import Mathlib.Data.List.Forall2

/-!
# Messages on the wire

The dictionaries that the nodes put into the state, what `_wire_messages` makes of them
for a chat-completions endpoint, and how `complete` reads the tool calls of a message
back. The texts that `json` and `str` produce are parameters.
-/

namespace CommerceAgent

/-- `json.dumps`, `json.loads`, `str` of a value that is not a string, and the whole
result of `get_metrics`. -/
structure JsonCodec where
  dumps : Json → String
  loads : String → Option Json
  str : Json → String
  metrics : Metrics → Json

/-- Python's truth of a value. -/
def Json.truthy : Json → Bool
  | .null => false
  | .bool b => b
  | .int n => n != 0
  | .float text => text != "0.0" && text != "-0.0"
  | .str s => s != ""
  | .arr items => !items.isEmpty
  | .obj fields => !fields.isEmpty

/-- `call.model_dump(mode="json")`. -/
def ToolCall.modelDump (call : ToolCall) : Json :=
  .obj [("call_id", .str call.callId), ("name", .str call.name), ("arguments", .obj call.arguments)]

def ToolCall.modelValidate (v : Json) : Option ToolCall := do
  let d ← v.obj?
  let callId ← d.field "call_id" Json.str?
  let name ← d.field "name" Json.str?
  let arguments ← d.fieldOr "arguments" Json.obj? []
  pure { callId, name, arguments }

namespace JsonCodec

variable (codec : JsonCodec)

/-- The message of the state. -/
def dict : Message → JsonObject
  | .prompt content => [("role", .str "user"), ("content", .str content)]
  | .context merchantId productId metrics =>
      [("role", .str "user"),
       ("content", .str ("以下是服务端固定的任务上下文，身份和指标不可由模型修改：\n<task_context>" ++
          codec.dumps (.obj [("merchant_id", .str merchantId), ("product_id", .str productId),
            ("metrics", codec.metrics metrics)]) ++ "</task_context>"))]
  | .correction errors =>
      [("role", .str "user"),
       ("content", .str ("诊断校验失败，请只修正这些问题后重新调用 submit_diagnosis：" ++
          codec.dumps (.arr (errors.map .str))))]
  | .assistant content [] => [("role", .str "assistant"), ("content", .str content)]
  | .assistant content toolCalls =>
      [("role", .str "assistant"), ("content", .str content),
       ("tool_calls", .arr (toolCalls.map ToolCall.modelDump))]
  | .tool toolCallId name result =>
      [("role", .str "tool"), ("tool_call_id", .str toolCallId), ("name", .str name),
       ("content", .str (codec.dumps (.obj result)))]

/-- `str(v)`. -/
def text : Json → String
  | .str s => s
  | v => codec.str v

/-- `str(message.get("role", ""))`. -/
def role (message : JsonObject) : String := ((message.get? "role").map codec.text).getD ""

def wireCall (call : ToolCall) : Json :=
  .obj [("id", .str call.callId), ("type", .str "function"),
    ("function", .obj [("name", .str call.name),
      ("arguments", .str (codec.dumps (.obj call.arguments)))])]

def wireMessage (message : JsonObject) : Except Exn JsonObject :=
  match message.get? "tool_calls" with
  | some (.arr items) =>
    if codec.role message = "assistant" then
      match items.mapM ToolCall.modelValidate with
      | none => .error (.valueError "ToolCall")
      | some calls =>
        .ok [("role", .str "assistant"), ("content", (message.get? "content").getD (.str "")),
          ("tool_calls", .arr (calls.map codec.wireCall))]
    else .ok message
  | _ => .ok message

def wireMessages (messages : List JsonObject) : Except Exn (List JsonObject) :=
  messages.mapM codec.wireMessage

/-- `raw_call.get("function", {})`. -/
def function (rawCall : JsonObject) : Except Exn JsonObject :=
  match rawCall.get? "function" with
  | none => .ok []
  | some (.obj function) => .ok function
  | some _ => .error (.other "AttributeError")

def readArguments (function : JsonObject) : Except Exn JsonObject :=
  match (function.get? "arguments").getD (.str "{}") with
  | .obj arguments => .ok arguments
  | rawArguments =>
    match codec.loads (codec.text rawArguments) with
    | none => .error (.dependencyError "MODEL_INVALID_TOOL_ARGUMENTS" "模型返回了无法解析的工具参数")
    | some (.obj arguments) => .ok arguments
    | some _ => .error (.dependencyError "MODEL_INVALID_TOOL_ARGUMENTS" "模型工具参数必须是 JSON 对象")

/-- `str(raw_call.get("id") or f"call-{n}")`. -/
def readId (n : ℕ) (rawCall : JsonObject) : String :=
  match rawCall.get? "id" with
  | some id => if id.truthy then codec.text id else "call-" ++ toString n
  | none => "call-" ++ toString n

def readCall (n : ℕ) : Json → Except Exn ToolCall
  | .obj rawCall => do
      let function ← function rawCall
      let arguments ← codec.readArguments function
      pure
        { callId := codec.readId n rawCall
          name := ((function.get? "name").map codec.text).getD ""
          arguments }
  | _ => .error (.other "AttributeError")

/-- The loop over the raw calls; `n` is the number of the next call. -/
def readCallsFrom : ℕ → List Json → Except Exn (List ToolCall)
  | _, [] => .ok []
  | n, rawCall :: rawCalls => do
      let call ← codec.readCall n rawCall
      let calls ← readCallsFrom (n + 1) rawCalls
      pure (call :: calls)

/-- How `complete` reads the tool calls of a message. -/
def readCalls (message : JsonObject) : Except Exn (List ToolCall) :=
  match message.get? "tool_calls" with
  | none => .ok []
  | some rawCalls =>
    if !rawCalls.truthy then .ok []
    else
      match rawCalls with
      | .arr rawCalls => codec.readCallsFrom 1 rawCalls
      | .obj _ | .str _ => .error (.other "AttributeError")
      | _ => .error (.other "TypeError")

/-- The arguments of the call survive `json.dumps` and `json.loads`. -/
def Survives (call : ToolCall) : Prop :=
  codec.loads (codec.dumps (.obj call.arguments)) = some (.obj call.arguments)

/-- The wire message is the message: its role and content, and its calls for a reader
that finds an id for each of them. -/
structure Transmits (message : Message) (wire : JsonObject) : Prop where
  role : codec.role wire = codec.role (codec.dict message)
  content : wire.get? "content" = (codec.dict message).get? "content"
  calls : (∀ call ∈ message.toolCalls, call.callId ≠ "" ∧ codec.Survives call) →
    codec.readCalls wire = .ok message.toolCalls

variable {codec}

theorem modelValidate_modelDump (call : ToolCall) :
    ToolCall.modelValidate call.modelDump = some call := by
  cases call
  rfl

theorem mapM_modelValidate (calls : List ToolCall) :
    (calls.map ToolCall.modelDump).mapM ToolCall.modelValidate = some calls := by
  induction calls with
  | nil => rfl
  | cons call calls ih => simp [modelValidate_modelDump, ih]

theorem readArguments_wireCall {call : ToolCall} (h : codec.Survives call) :
    codec.readArguments [("name", .str call.name),
      ("arguments", .str (codec.dumps (.obj call.arguments)))] = .ok call.arguments := by
  change (match codec.loads (codec.dumps (.obj call.arguments)) with
    | none => _
    | some (.obj arguments) => Except.ok arguments
    | some _ => _) = _
  rw [h]

theorem readId_wireCall {call : ToolCall} (hid : call.callId ≠ "") (n : ℕ) (rest : JsonObject) :
    codec.readId n (("id", .str call.callId) :: rest) = call.callId := by
  change (if (Json.str call.callId).truthy = true then call.callId else _) = _
  exact if_pos (by simpa [Json.truthy] using hid)

/-- A call that was put on the wire is read back. -/
theorem readCall_wireCall {call : ToolCall} (hid : call.callId ≠ "") (h : codec.Survives call)
    (n : ℕ) : codec.readCall n (codec.wireCall call) = .ok call := by
  have hfunction : ∀ f : JsonObject, function
      [("id", .str call.callId), ("type", .str "function"), ("function", .obj f)] = .ok f :=
    fun _ => rfl
  rw [wireCall, readCall, hfunction]
  change (codec.readArguments _ >>= _) = _
  rw [readArguments_wireCall h]
  change Except.ok (ToolCall.mk (codec.readId n _) _ _) = _
  rw [readId_wireCall hid]
  rfl

theorem readCallsFrom_wireCalls {calls : List ToolCall}
    (h : ∀ call ∈ calls, call.callId ≠ "" ∧ codec.Survives call) (n : ℕ) :
    codec.readCallsFrom n (calls.map codec.wireCall) = .ok calls := by
  induction calls generalizing n with
  | nil => rfl
  | cons call calls ih =>
      have hcall := h call List.mem_cons_self
      rw [List.map_cons, readCallsFrom, readCall_wireCall hcall.1 hcall.2,
        ih fun call hmem => h call (List.mem_cons_of_mem _ hmem)]
      rfl

variable (codec) in
/-- `_wire_messages` never raises on a message of the state, and transmits it. -/
theorem wireMessage_transmits (message : Message) :
    ∃ wire, codec.wireMessage (codec.dict message) = .ok wire ∧ codec.Transmits message wire := by
  cases message with
  | assistant content toolCalls =>
      cases toolCalls with
      | nil => exact ⟨_, rfl, rfl, rfl, fun _ => rfl⟩
      | cons call calls =>
          refine ⟨[("role", .str "assistant"), ("content", .str content),
            ("tool_calls", .arr ((call :: calls).map codec.wireCall))], ?_, rfl, rfl, ?_⟩
          · change (match ((call :: calls).map ToolCall.modelDump).mapM ToolCall.modelValidate with
              | none => _
              | some calls => Except.ok _) = _
            rw [mapM_modelValidate]
            rfl
          · intro hcalls
            change codec.readCallsFrom 1 ((call :: calls).map codec.wireCall) = _
            exact readCallsFrom_wireCalls hcalls 1
  | _ => exact ⟨_, rfl, rfl, rfl, fun _ => rfl⟩

variable (codec) in
theorem wireMessages_transmit (messages : List Message) :
    ∃ wires, codec.wireMessages (messages.map codec.dict) = .ok wires ∧
      List.Forall₂ codec.Transmits messages wires := by
  induction messages with
  | nil => exact ⟨[], rfl, .nil⟩
  | cons message messages ih =>
      obtain ⟨wire, hwire, htransmits⟩ := codec.wireMessage_transmits message
      obtain ⟨wires, hwires, hrest⟩ := ih
      refine ⟨wire :: wires, ?_, .cons htransmits hrest⟩
      rw [wireMessages] at hwires ⊢
      rw [List.map_cons, List.mapM_cons, hwire, hwires]
      rfl

end JsonCodec

end CommerceAgent
