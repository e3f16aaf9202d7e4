import CommerceAgent.Domain

/-!
# The state of the agent graph

`AgentState` is what the nodes of the graph read and update. A `Checkpoint` is what
the checkpointer keeps for a thread: the state after the last node that was
committed, the node to run next, and the value of a pending interrupt.

The messages of a conversation are kept apart by the node that writes them. Where
the source writes a JSON text of data that it has, the constructor keeps the data.
-/

namespace CommerceAgent

/-- JSON values, as the arguments and the results of tools are. -/
inductive Json where
  | null
  | bool (b : Bool)
  | int (n : ℤ)
  | float (text : String)
  | str (s : String)
  | arr (items : List Json)
  | obj (fields : List (String × Json))

/-- A `dict[str, object]`, its keys in the order of insertion. -/
abbrev JsonObject := List (String × Json)

namespace Json

def str? : Json → Option String
  | .str s => some s
  | _ => none

def arr? : Json → Option (List Json)
  | .arr items => some items
  | _ => none

def obj? : Json → Option JsonObject
  | .obj fields => some fields
  | _ => none

end Json

/-- `d.get(key)`. -/
def JsonObject.get? (key : String) (d : JsonObject) : Option Json :=
  (d.find? fun field => field.1 == key).map Prod.snd

structure ToolCall where
  callId : String
  name : String
  arguments : JsonObject := []

structure AssistantTurn where
  content : String := ""
  toolCalls : List ToolCall := []
  inputTokens : Option ℕ := none
  outputTokens : Option ℕ := none
  finishReason : Option String := none

/-- What the nodes use of the result of `get_metrics`. -/
structure Metrics where
  snapshotId : String
  metricVersion : String
  evidenceIds : List String
  comparison : Json

structure Finding where
  category : String
  statement : String
  kind : String
  evidenceIds : List String := []
  confidence : String := "medium"
  deriving DecidableEq

structure Diagnosis where
  summary : String
  findings : List Finding
  actions : List String
  proposedPatch : Option ProductPatch := none
  missingData : List String := []
  deriving DecidableEq

/-- The messages of the conversation with the model. -/
inductive Message where
  | prompt (content : String)
  | context (merchantId productId : String) (metrics : Metrics)
  | correction (errors : List String)
  | assistant (content : String) (toolCalls : List ToolCall)
  | tool (toolCallId name : String) (result : JsonObject)

/-- `message.get("tool_calls", [])`. -/
def Message.toolCalls : Message → List ToolCall
  | .assistant _ toolCalls => toolCalls
  | _ => []

/-- The `diagnosis` entry of the state: a diagnosis or a `validation_parse_error`. -/
abbrev Submission := Except String Diagnosis

structure AgentState where
  taskId : String
  sessionId : String
  merchantId : String
  productId : Option String
  prompt : String
  messages : List Message
  metrics : Option Metrics := none
  diagnosis : Option Submission := none
  iteration : ℕ := 0
  repeatedSteps : ℕ := 0
  lastSignature : String := ""
  reflectionCount : ℕ := 0
  validationErrors : List String := []
  interaction : Option Interaction := none
  finalStatus : Option RunStatus := none
  finalOutput : Option String := none

inductive GraphNode where
  | scope
  | metrics
  | model
  | tools
  | validate
  | plan
  | approval
  deriving DecidableEq, Repr

/-- What `Command(resume=...)` delivers to a pending interrupt. -/
structure ResumeValue where
  resumeKind : ResumeKind
  resumeId : String
  deriving DecidableEq, Repr

/-- What the checkpointer keeps of a thread; `next` is `none` at the end of the graph. -/
structure Checkpoint where
  state : AgentState
  next : Option GraphNode
  interrupt : Option Interaction := none

end CommerceAgent
