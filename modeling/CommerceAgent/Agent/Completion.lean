import CommerceAgent.Agent.Wire
import CommerceAgent.Effects.Retry
import CommerceAgent.Json.Normal

/-!
# The model client

`OpenAICompatibleModelClient.complete` posts the conversation to a chat-completions endpoint
and reads the turn of the model from the response. A post that fails on the way, or that the
endpoint cannot answer for the moment, is repeated; whatever else goes wrong is raised.
-/

namespace CommerceAgent

open Effects

structure ToolDefinition where
  name : String
  description : String
  parameters : JsonObject := []

structure HttpResponse where
  statusCode : ℕ
  text : String

/-- A post, with its `Authorization` header and the dictionary that is sent as JSON. -/
structure ModelCall where
  url : String
  authorization : String
  payload : JsonObject

abbrev ModelProgram := Program Exn ModelCall (fun _ => HttpResponse)

/-- The `AssistantTurn` that `complete` returns. -/
structure Completion where
  content : String
  toolCalls : List ToolCall
  inputTokens : Option ℤ
  outputTokens : Option ℤ
  finishReason : Option String

/-- With `int` of a string and of a finite float; `none` where it raises a `ValueError`. -/
structure CompletionCodec extends JsonCodec where
  parseInt : String → Option ℤ
  truncate : String → Option ℤ

/-- The value has the methods of a dictionary. -/
def Json.dict : Json → Except Exn JsonObject
  | .obj d => .ok d
  | _ => .error (.other "AttributeError")

/-- `d.get(key, {})`, of which the fields are asked for. -/
def JsonObject.dictOf (key : String) (d : JsonObject) : Except Exn JsonObject :=
  ((d.get? key).getD (.obj [])).dict

/-- `choices[0]`. -/
def firstChoice : Json → Except Exn Json
  | .arr (choice :: _) => .ok choice
  | .arr [] => .error (.other "IndexError")
  | .str text =>
    match text.toList with
    | c :: _ => .ok (.str (String.singleton c))
    | [] => .error (.other "IndexError")
  | .obj _ => .error (.other "KeyError")
  | _ => .error (.other "TypeError")

namespace CompletionCodec

variable (codec : CompletionCodec)

/-- `_optional_int`. -/
def optionalInt : Option Json → Except Exn (Option ℤ)
  | some (.bool b) => .ok (some (if b then 1 else 0))
  | some (.int n) => .ok (some n)
  | some (.float text) =>
    if text = "Infinity" ∨ text = "-Infinity" then .error (.other "OverflowError")
    else .ok (codec.truncate text)
  | some (.str text) => .ok (codec.parseInt text)
  | _ => .ok none

/-- `str(v or "")`. -/
def textOrEmpty : Option Json → String
  | some v => if v.truthy then codec.text v else ""
  | none => ""

/-- What `operation` makes of the body of a response. -/
def readBody (body : Json) : Except Exn Completion := do
  let body ← body.dict
  let choices := (body.get? "choices").getD (.arr [])
  if !choices.truthy then .error (.dependencyError "MODEL_EMPTY_RESPONSE" "模型未返回 choices")
  else do
    let choice ← firstChoice choices
    let choice ← choice.dict
    let message ← choice.dictOf "message"
    let toolCalls ← codec.readCalls message
    let usage ← body.dictOf "usage"
    let inputTokens ← codec.optionalInt (usage.get? "prompt_tokens")
    let outputTokens ← codec.optionalInt (usage.get? "completion_tokens")
    let finishReason := codec.textOrEmpty (choice.get? "finish_reason")
    pure
      { content := codec.textOrEmpty (message.get? "content")
        toolCalls
        inputTokens
        outputTokens
        finishReason := if finishReason = "" then none else some finishReason }

/-- What `operation` makes of a response. -/
def readResponse (response : HttpResponse) : Except Exn Completion :=
  if 500 ≤ response.statusCode ∨ response.statusCode = 429 then .error (.other "HTTPStatusError")
  else if 400 ≤ response.statusCode then
    .error (.dependencyError "MODEL_REQUEST_REJECTED"
      ("模型请求失败，HTTP 状态码 " ++ toString response.statusCode))
  else
    match codec.loads response.text with
    | none => .error (.valueError "JSONDecodeError")
    | some body => codec.readBody body

end CompletionCodec

def ToolDefinition.wire (tool : ToolDefinition) : Json :=
  .obj [("type", .str "function"),
    ("function", .obj [("name", .str tool.name), ("description", .str tool.description),
      ("parameters", .obj tool.parameters)])]

structure OpenAICompatibleModelClient where
  baseUrl : String
  apiKey : String
  model : String
  temperature : String
  maxOutputTokens : ℤ
  retryAttempts : ℕ

/-- The classes of `httpx` that `complete` retries. -/
def retryableErrors : List String :=
  ["ConnectTimeout", "ReadTimeout", "WriteTimeout", "PoolTimeout", "ConnectError", "ReadError",
    "WriteError", "CloseError", "HTTPStatusError"]

def retryableError : Exn → Bool
  | .other name => decide (name ∈ retryableErrors)
  | _ => false

namespace OpenAICompatibleModelClient

variable (client : OpenAICompatibleModelClient) (codec : CompletionCodec)

/-- `base_url.rstrip("/")` and the path. -/
def url : String :=
  String.ofList (client.baseUrl.toList.reverse.dropWhile fun c => c == '/').reverse ++
    "/chat/completions"

def payload (wires : List JsonObject) (tools : List ToolDefinition) (systemPrompt : String) :
    JsonObject :=
  [("model", .str client.model), ("temperature", .float client.temperature),
    ("max_tokens", .int client.maxOutputTokens),
    ("messages", .arr (.obj [("role", .str "system"), ("content", .str systemPrompt)] ::
      wires.map .obj)),
    ("tools", .arr (tools.map ToolDefinition.wire)), ("tool_choice", .str "auto")]

def request (payload : JsonObject) : ModelCall :=
  ⟨client.url, "Bearer " ++ client.apiKey, payload⟩

def operation (payload : JsonObject) : ModelProgram Completion := do
  let response ← Program.perform (client.request payload)
  .ofExcept (codec.readResponse response)

def complete (messages : List JsonObject) (tools : List ToolDefinition) (systemPrompt : String) :
    ModelProgram Completion := do
  let wires ← .ofExcept (codec.wireMessages messages)
  (client.operation codec (client.payload wires tools systemPrompt)).retry client.retryAttempts
    retryableError (.other "RuntimeError")

end OpenAICompatibleModelClient

/-- The post failed on the way, or the endpoint could not answer for the moment. -/
def Transient : Except Exn HttpResponse → Prop
  | .error e => retryableError e = true
  | .ok response => 500 ≤ response.statusCode ∨ response.statusCode = 429

section Reading

variable {codec : CompletionCodec} {e : Exn}

/-- The value is not an exception that is retried. -/
def Lasting {α : Type} (x : Except Exn α) : Prop := ∀ e, x = .error e → retryableError e = false

theorem Lasting.bind {α β : Type} {x : Except Exn α} {f : α → Except Exn β} (hx : Lasting x)
    (hf : ∀ a, Lasting (f a)) : Lasting (x >>= f) := by
  cases x with
  | error e =>
      rintro e' ⟨⟩
      exact hx e rfl
  | ok a => exact hf a

theorem lasting_ok {α : Type} (a : α) : Lasting (.ok a : Except Exn α) := by rintro e ⟨⟩

theorem lasting_error {α : Type} (h : retryableError e = false) :
    Lasting (.error e : Except Exn α) := by
  rintro e' ⟨⟩
  exact h

theorem lasting_dict (v : Json) : Lasting v.dict := by
  cases v with
  | obj d => exact lasting_ok d
  | _ => exact lasting_error (by decide)

theorem lasting_firstChoice (v : Json) : Lasting (firstChoice v) := by
  unfold firstChoice
  split
  · exact lasting_ok _
  · exact lasting_error (by decide)
  · split
    · exact lasting_ok _
    · exact lasting_error (by decide)
  · exact lasting_error (by decide)
  · exact lasting_error (by decide)

theorem lasting_readCall (n : ℕ) (v : Json) : Lasting (codec.readCall n v) := by
  cases v with
  | obj rawCall =>
      refine Lasting.bind ?_ fun function => Lasting.bind ?_ fun arguments => lasting_ok _
      · unfold JsonCodec.function
        split
        · exact lasting_ok _
        · exact lasting_ok _
        · exact lasting_error (by decide)
      · unfold JsonCodec.readArguments
        split
        · exact lasting_ok _
        · split
          · exact lasting_error rfl
          · exact lasting_ok _
          · exact lasting_error rfl
  | _ => exact lasting_error (by decide)

theorem lasting_readCallsFrom (n : ℕ) (rawCalls : List Json) :
    Lasting (codec.readCallsFrom n rawCalls) := by
  induction rawCalls generalizing n with
  | nil => exact lasting_ok _
  | cons rawCall rawCalls ih =>
      exact (lasting_readCall n rawCall).bind fun _ => (ih (n + 1)).bind fun _ => lasting_ok _

theorem lasting_readCalls (message : JsonObject) : Lasting (codec.readCalls message) := by
  unfold JsonCodec.readCalls
  split
  · exact lasting_ok _
  · split
    · exact lasting_ok _
    · split
      · exact lasting_readCallsFrom 1 _
      · exact lasting_error (by decide)
      · exact lasting_error (by decide)
      · exact lasting_error (by decide)

theorem lasting_optionalInt (v : Option Json) : Lasting (codec.optionalInt v) := by
  unfold CompletionCodec.optionalInt
  split
  · exact lasting_ok _
  · exact lasting_ok _
  · split
    · exact lasting_error (by decide)
    · exact lasting_ok _
  · exact lasting_ok _
  · exact lasting_ok _

/-- Whatever a body is, reading it raises nothing that is retried. -/
theorem lasting_readBody (body : Json) : Lasting (codec.readBody body) := by
  refine (lasting_dict body).bind fun body => ?_
  dsimp only
  split
  · exact lasting_error rfl
  · refine (lasting_firstChoice _).bind fun choice => (lasting_dict choice).bind fun choice => ?_
    refine (lasting_dict _).bind fun message => (lasting_readCalls message).bind fun toolCalls => ?_
    refine (lasting_dict _).bind fun usage => (lasting_optionalInt _).bind fun inputTokens => ?_
    exact (lasting_optionalInt _).bind fun outputTokens => lasting_ok _

/-- What is repeated is what the transport or the endpoint may do better the next time. -/
theorem repeats_iff (codec : CompletionCodec) (request : ModelCall)
    {r : Except Exn HttpResponse} :
    Program.Repeats (C := ModelCall) (R := fun _ => HttpResponse) (c := request)
      codec.readResponse retryableError r ↔ Transient r := by
  cases r with
  | error e => exact ⟨by rintro ⟨_, ⟨⟩, h⟩; exact h, fun h => ⟨e, rfl, h⟩⟩
  | ok response =>
      constructor
      rotate_left
      · exact fun h => ⟨_, if_pos h, by decide⟩
      · rintro ⟨e, herror, hretry⟩
        by_contra hlater
        have hstatus : ¬(500 ≤ response.statusCode ∨ response.statusCode = 429) := hlater
        have hlasting : Lasting (codec.readResponse response) := by
          rw [CompletionCodec.readResponse, if_neg hstatus]
          split
          · exact lasting_error rfl
          · split
            · exact lasting_error rfl
            · exact lasting_readBody _
        rw [hlasting e herror] at hretry
        cases hretry

end Reading

/-- The courses of the posts with one payload. -/
theorem ends_posts (client : OpenAICompatibleModelClient) (codec : CompletionCodec)
    (payload : JsonObject) (past : List (Exchange Exn ModelCall fun _ => HttpResponse))
    (result : Except Exn Completion) :
    ((client.operation codec payload).retry client.retryAttempts retryableError
        (.other "RuntimeError")).Ends past result ↔
      (client.retryAttempts = 0 ∧ past = [] ∧ result = .error (.other "RuntimeError")) ∨
        ∃ earlier r, past = (earlier ++ [r]).map (.mk (client.request payload)) ∧
          (∀ r ∈ earlier, Transient r) ∧ earlier.length < client.retryAttempts ∧
            (Transient r → earlier.length + 1 = client.retryAttempts) ∧
              result = r.bind codec.readResponse := by
  simp only [← repeats_iff codec (client.request payload)]
  exact Program.ends_retry_asking

/-- Whatever a post is answered with, again and again: `complete` posts the conversation at most
`retry_attempts` times, again only after an answer that the next post may better, and ends as
its last answer says. Every such course is one of `complete`. -/
theorem complete_courses (client : OpenAICompatibleModelClient) (codec : CompletionCodec)
    (messages : List Message) (tools : List ToolDefinition) (systemPrompt : String)
    {past : List (Exchange Exn ModelCall fun _ => HttpResponse)} {result : Except Exn Completion} :
    (client.complete codec (messages.map codec.dict) tools systemPrompt).Ends past result ↔
      ∃ wires, codec.wireMessages (messages.map codec.dict) = .ok wires ∧
        ((client.retryAttempts = 0 ∧ past = [] ∧ result = .error (.other "RuntimeError")) ∨
          ∃ earlier r,
            past = (earlier ++ [r]).map
                (.mk (client.request (client.payload wires tools systemPrompt))) ∧
              (∀ r ∈ earlier, Transient r) ∧ earlier.length < client.retryAttempts ∧
                (Transient r → earlier.length + 1 = client.retryAttempts) ∧
                  result = r.bind codec.readResponse) := by
  obtain ⟨wires, hwires, -⟩ := codec.wireMessages_transmit messages
  have hcomplete : client.complete codec (messages.map codec.dict) tools systemPrompt =
      (client.operation codec (client.payload wires tools systemPrompt)).retry
        client.retryAttempts retryableError (.other "RuntimeError") := by
    rw [OpenAICompatibleModelClient.complete, hwires]
    rfl
  have hcourses := ends_posts client codec (client.payload wires tools systemPrompt) past result
  rw [hcomplete]
  constructor
  · exact fun h => ⟨wires, hwires, hcourses.1 h⟩
  · rintro ⟨wires', hwires', h⟩
    rw [hwires] at hwires'
    cases hwires'
    exact hcourses.2 h

end CommerceAgent
