import ModelRuntime.Engine.Config
import ModelRuntime.Server.Http

/-!
# The REST handlers

`handle_completions` and `handle_chat_completions` are one function of the body they build. Beside
the response each gives the `generate_response` calls it has made.
-/

namespace ModelRuntime
open Cpp

/-- What the handlers see of the rest of the program. -/
structure ServerEnv where
  /-- `engine_.generate` -/
  generate : Bytes → GenerationConfig → Except StdException Bytes
  stof : Bytes → Except StdException CFloat
  time : Int := 0
  isReady : Bool := true
  modelName : Bytes := str "stub"
  deviceName : Bytes := str "cpu"
  isCuda : Bool := false
  /-- The text of the `double`. -/
  tokensPerSecond : Bytes := str "0"
  totalTokensGenerated : Int := 0

/-- The arguments of `generate_response`. -/
structure GenerateCall where
  model : Bytes
  prompt : Bytes
  maxTokens : Int
  temperature : CFloat
  deriving DecidableEq

variable (env : ServerEnv)

def generateResponse (call : GenerateCall) : Except StdException Bytes :=
  env.generate call.prompt { maxTokens := call.maxTokens, temperature := call.temperature }

/-- What a completion request asks for, with the defaults of the handlers. -/
def readCall (body : Bytes) : Except StdException GenerateCall := do
  let params ← parseJson body
  let model := (params.lookup (str "model")).getD (str "sovalune-model")
  let prompt := (params.lookup (str "prompt")).getD []
  let maxTokens ← match params.lookup (str "max_tokens") with
    | some text => stoi text
    | none => pure 1024
  let temperature ← match params.lookup (str "temperature") with
    | some text => env.stof text
    | none => pure (.finite 0.7)
  return { model, prompt, maxTokens, temperature }

def errorBody (e : StdException) : Bytes := str "\x7b\"error\": \"" ++ e.what ++ str "\"\x7d"

/-- What a handler answers to an exception. -/
def errorResponse (e : StdException) : HttpResponse where
  statusCode := 500
  statusText := str "Internal Server Error"
  body := errorBody e

/-- A handler that answers with `render`, and its calls. -/
def complete (render : Int → GenerateCall → Bytes → Bytes) (request : HttpRequest) :
    HttpResponse × List GenerateCall :=
  match readCall env request.body with
  | .error e => (errorResponse e, [])
  | .ok call =>
    match generateResponse env call with
    | .error e => (errorResponse e, [call])
    | .ok result => ({ body := render env.time call result }, [call])

variable {env} in
/-- A handler calls the engine once when it understands the request. -/
theorem complete_calls {render : Int → GenerateCall → Bytes → Bytes} {request : HttpRequest}
    {call : GenerateCall} (read : readCall env request.body = .ok call) :
    ∃ response, complete env render request = (response, [call]) := by
  rw [complete, read]
  dsimp only
  split
  · exact ⟨_, rfl⟩
  · exact ⟨_, rfl⟩

variable {env} in
/-- The one call is what was understood. -/
theorem complete_call_iff {render : Int → GenerateCall → Bytes → Bytes} {request : HttpRequest}
    {call : GenerateCall} :
    (complete env render request).2 = [call] ↔ readCall env request.body = .ok call := by
  cases read : readCall env request.body with
  | error e =>
    rw [complete, read]
    simp
  | ok call' =>
    obtain ⟨response, done⟩ := @complete_calls env render request call' read
    rw [done]
    simp

/-- The `usage` member of a response. -/
def usageBody (prompt result : Bytes) : Bytes :=
  str "\"usage\": \x7b\"prompt_tokens\": " ++ decimal (prompt.length / 4) ++
  str ",\"completion_tokens\": " ++ decimal (result.length / 4) ++
  str ",\"total_tokens\": " ++ decimal ((prompt.length + result.length) / 4) ++ str "\x7d"

def chatBody (time : Int) (call : GenerateCall) (result : Bytes) : Bytes :=
  str "\x7b\"id\": \"chatcmpl-123\",\"object\": \"chat.completion\",\"created\": " ++
  decimalInt time ++ str ",\"model\": \"" ++ call.model ++ str "\"," ++
  usageBody call.prompt result ++
  str ",\"choices\": [\x7b\"message\": \x7b\"role\": \"assistant\",\"content\": \"" ++ result ++
  str "\"\x7d,\"finish_reason\": \"stop\",\"index\": 0\x7d]\x7d"

def completionBody (time : Int) (call : GenerateCall) (result : Bytes) : Bytes :=
  str "\x7b\"id\": \"cmpl-123\",\"object\": \"text_completion\",\"created\": " ++
  decimalInt time ++ str ",\"model\": \"" ++ call.model ++
  str "\",\"choices\": [\x7b\"text\": \"" ++ result ++
  str "\",\"index\": 0,\"logprobs\": null,\"finish_reason\": \"stop\"\x7d]," ++
  usageBody call.prompt result ++ str "\x7d"

def handleChatCompletions (request : HttpRequest) : HttpResponse × List GenerateCall :=
  complete env chatBody request

def handleCompletions (request : HttpRequest) : HttpResponse × List GenerateCall :=
  complete env completionBody request

def handleHealth (_ : HttpRequest) : HttpResponse where
  body :=
    str "\x7b\"status\": \"" ++ (if env.isReady then str "ok" else str "not ready") ++
    str "\",\"model\": \"" ++ env.modelName ++ str "\",\"device\": \"" ++ env.deviceName ++
    str "\",\"cuda\": " ++ (if env.isCuda then str "true" else str "false") ++
    str ",\"tokens_per_second\": " ++ env.tokensPerSecond ++
    str ",\"total_tokens_generated\": " ++ decimalInt env.totalTokensGenerated ++ str "\x7d"

def handleModels (_ : HttpRequest) : HttpResponse where
  body := str ("\x7b\"object\": \"list\",\"data\": [\x7b\"id\": \"sovalune-model\"," ++
    "\"object\": \"model\",\"created\": 1677610602,\"owned_by\": \"sovalune\"," ++
    "\"permission\": [],\"root\": \"sovalune-model\",\"parent\": null\x7d]\x7d")

def routeRequest (request : HttpRequest) : HttpResponse × List GenerateCall :=
  if request.method = str "GET" ∧ request.path = str "/health" then (handleHealth env request, [])
  else if request.method = str "GET" ∧ request.path = str "/v1/models" then (handleModels request, [])
  else if request.method = str "POST" ∧ request.path = str "/v1/chat/completions" then
    handleChatCompletions env request
  else if request.method = str "POST" ∧ request.path = str "/v1/completions" then
    handleCompletions env request
  else
    ({ statusCode := 404, statusText := str "Not Found",
       body := str "\x7b\"error\": \"Not found\"\x7d" }, [])

/-- The thread of a connection on which `arrived` is there at the one `recv`; no response where
nothing is. -/
def handleClient (arrived : Bytes) : Except StdException (Option HttpResponse × List GenerateCall) :=
  let buffer := arrived.take (4096 - 1)
  if buffer = [] then .ok (none, [])
  else do
    let request ← parseRequest buffer
    let (response, calls) := routeRequest env request
    return (some response, calls)

/-- The client thread answers the request that the one `recv` brings. -/
theorem handleClient_received {arrived : Bytes} (nonempty : arrived ≠ []) {request : HttpRequest}
    (parsed : parseRequest (arrived.take 4095) = .ok request) :
    handleClient env arrived = .ok (some (routeRequest env request).1, (routeRequest env request).2) := by
  have brings : arrived.take 4095 ≠ [] := by
    rw [Ne, List.take_eq_nil_iff]
    simpa using nonempty
  rw [handleClient]
  dsimp only
  rw [if_neg brings, parsed]
  rfl

end ModelRuntime
