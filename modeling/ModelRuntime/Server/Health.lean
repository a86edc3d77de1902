import ModelRuntime.Lib.JsonAppend
import ModelRuntime.Nats.Publish
import ModelRuntime.Server.OnEngine
import ModelRuntime.Server.Response

/-!
# The routes as JSON

`/health` splices the model's and the device's name, the other bodies of their own are constants. With the
completions this says of every request, on an engine in whatever state, when the response is a document that
carries what it is about.
-/

namespace ModelRuntime
open Cpp Lib Lib.Json

variable {M C L : Type}

/-! ## What `/health` reports -/

namespace LlamaBackend

def modelName (llamaModelName : M → Bytes) (be : LlamaBackend M C) : Bytes :=
  match be.model with
  | none => str "unknown"
  | some model => llamaModelName model

/-- `device_name`; `useCublas` is the macro of the build. -/
def deviceName (useCublas : Bool) (be : LlamaBackend M C) : Bytes :=
  match be.model with
  | none => str "cpu"
  | some _ => if useCublas ∧ be.config.mode = str "cuda" then str "cuda" else str "cpu"

def isCuda (useCublas : Bool) (be : LlamaBackend M C) : Bool :=
  useCublas && decide (be.config.mode = str "cuda")

end LlamaBackend

namespace InferenceEngine

def getModelName (llamaModelName : M → Bytes) (e : InferenceEngine M C) : Bytes :=
  if e.config.modelPath ≠ [] then e.backend.modelName llamaModelName else str "stub"

def getDeviceName (useCublas : Bool) (e : InferenceEngine M C) : Bytes := e.backend.deviceName useCublas

def isCuda (useCublas : Bool) (e : InferenceEngine M C) : Bool := e.backend.isCuda useCublas

/-- The engine as all of the handlers see it; `env` has the time and the text of the rate. -/
def statusEnv (api : LlamaCpp M C L) (sampleToken : Sampler L) (llamaModelName : M → Bytes) (useCublas : Bool)
    (e : InferenceEngine M C) (env : ServerEnv) (draws : Nat) : ServerEnv :=
  { e.serverEnv api sampleToken env draws with
    modelName := e.getModelName llamaModelName
    deviceName := e.getDeviceName useCublas
    isCuda := e.isCuda useCublas }

end InferenceEngine

/-! ## The document of `/health` -/

section Health

variable (env : ServerEnv)

def statusText : Bytes := if env.isReady then str "ok" else str "not ready"

/-- The members before the total. -/
def healthMembers : KnownMembers :=
  [(str "status", quoted (statusText env), .string (statusText env)),
   (str "model", quoted env.modelName, .string env.modelName),
   (str "device", quoted env.deviceName, .string env.deviceName),
   (str "cuda", boolText env.isCuda, .bool env.isCuda),
   (str "tokens_per_second", env.tokensPerSecond, .number env.tokensPerSecond)]

/-- What `/health` says. -/
def healthFields : List (Bytes × Json) :=
  values (healthMembers env) ++
    [(str "total_tokens_generated", .number (decimalInt env.totalTokensGenerated))]

/-- The text of a rate is a number. -/
structure RateText (t : Bytes) : Prop where
  ascii : Ascii t
  number : ofText t = some (.number t)

theorem handleHealth_text (request : HttpRequest) : (handleHealth env request).body =
    objectText (healthMembers env) (str "total_tokens_generated") (decimalInt env.totalTokensGenerated) := by
  simp only [handleHealth, healthMembers, statusText, boolText, objectText, frontText, memberText, quoted,
    List.flatMap_cons, List.flatMap_nil, List.append_assoc, List.cons_append, List.nil_append, List.append_nil]
  rfl

theorem verbatim_status : Verbatim (statusText env) := by
  unfold statusText
  split <;> decide

theorem known_status :
    Known [(str "status", quoted (statusText env), .string (statusText env))] :=
  .cons (by decide) (reads_string (verbatim_status env)) known_nil

variable {env}

theorem known_health (rate : RateText env.tokensPerSecond) (model : Verbatim env.modelName)
    (device : Verbatim env.deviceName) : Known (healthMembers env) :=
  (known_status env).append <|
    .cons (by decide) (reads_string model) <| .cons (by decide) (reads_string device) <|
      .cons (by decide) (reads_bool env.isCuda) <| .cons (by decide) (reads_ofText rate.number) known_nil

theorem handleHealth_utf8_iff (rate : RateText env.tokensPerSecond) (request : HttpRequest) :
    Utf8 (handleHealth env request).body ↔ Utf8 env.modelName ∧ Utf8 env.deviceName := by
  have ascii : quote < 128 := by decide
  have front : Ascii (str "\x7b\"status\": \"" ++ (statusText env ++ str "\",\"model\": \"")) := by
    refine .append (by decide) (.append ?_ (by decide))
    unfold statusText
    split <;> decide
  have back : Ascii (str ",\"cuda\": " ++ (boolText env.isCuda ++ (str ",\"tokens_per_second\": " ++
      (env.tokensPerSecond ++ (str ",\"total_tokens_generated\": " ++
        (decimalInt env.totalTokensGenerated ++ str "\x7d")))))) :=
    .append (by decide) <| .append (ascii_boolText _) <| .append (by decide) <| .append rate.ascii <|
      .append (by decide) <| .append (ascii_decimalInt _) (by decide)
  have split : (handleHealth env request).body =
      (str "\x7b\"status\": \"" ++ (statusText env ++ str "\",\"model\": \"")) ++ (env.modelName ++ quote ::
        (str ",\"device\": \"" ++ (env.deviceName ++ quote :: (str ",\"cuda\": " ++ (boolText env.isCuda ++
          (str ",\"tokens_per_second\": " ++ (env.tokensPerSecond ++ (str ",\"total_tokens_generated\": " ++
            (decimalInt env.totalTokensGenerated ++ str "\x7d"))))))))) := by
    simp only [handleHealth, statusText, boolText, List.append_assoc]
    rfl
  rw [split, utf8_ascii_append front, utf8_cut ascii, utf8_ascii_append (by decide), utf8_cut ascii]
  constructor
  · rintro ⟨model, device, _⟩
    exact ⟨model, device⟩
  · rintro ⟨model, device⟩
    exact ⟨model, device, back.utf8⟩

/-- Each field is found under its key. -/
theorem member_health : ∀ f ∈ healthFields env, member f.1 (.object (healthFields env)) = some f.2 := by
  intro f mem
  simp only [healthFields, values, healthMembers, List.map_cons, List.map_nil, List.cons_append, List.nil_append,
    List.mem_cons, List.not_mem_nil, or_false] at mem
  rcases mem with rfl | rfl | rfl | rfl | rfl | rfl <;> rfl

/-- **The health report** says what it is to say exactly where the two names need no escaping. -/
theorem handleHealth_iff (rate : RateText env.tokensPerSecond) (request : HttpRequest) :
    Decodes (handleHealth env request).body (healthFields env) ↔ Clean env.modelName ∧ Clean env.deviceName := by
  rw [Decodes, handleHealth_utf8_iff rate]
  constructor
  · rintro ⟨⟨utf8Model, utf8Device⟩, v, read, found⟩
    rw [handleHealth_text] at read
    obtain ⟨_, model⟩ := (Stands.document rfl read).inner (known_status env)
      (m := (str "model", quoted env.modelName, .string env.modelName)) (show Verbatim (str "model") by decide)
      (fun _ => rfl)
    rw [quoted_append] at model
    have hmodel := model.verbatim (found (str "model", .string env.modelName) (by simp [healthFields, values, healthMembers]))
    obtain ⟨_, device⟩ := (Stands.document rfl read).inner
      ((known_status env).append (.cons (by decide) (reads_string hmodel) known_nil))
      (m := (str "device", quoted env.deviceName, .string env.deviceName)) (show Verbatim (str "device") by decide)
      (fun _ => rfl)
    rw [quoted_append] at device
    exact ⟨⟨utf8Model, hmodel⟩, utf8Device,
      device.verbatim (found (str "device", .string env.deviceName) (by simp [healthFields, values, healthMembers]))⟩
  · rintro ⟨⟨utf8Model, model⟩, utf8Device, device⟩
    have body := reads_object (known_health rate model device)
      (show Verbatim (str "total_tokens_generated") by decide) (reads_decimalInt env.totalTokensGenerated)
    rw [← handleHealth_text env request] at body
    exact ⟨⟨utf8Model, utf8Device⟩, _, body.decode, member_health⟩

end Health

/-! ## Every route -/

/-- The one model of `/v1/models`, before its last member. -/
def modelEntry : KnownMembers :=
  [(str "id", quoted (str "sovalune-model"), .string (str "sovalune-model")),
   (str "object", quoted (str "model"), .string (str "model")),
   (str "created", str "1677610602", .number (str "1677610602")),
   (str "owned_by", quoted (str "sovalune"), .string (str "sovalune")),
   (str "permission", str "[]", .array []),
   (str "root", quoted (str "sovalune-model"), .string (str "sovalune-model"))]

def modelsFront : KnownMembers := [(str "object", quoted (str "list"), .string (str "list"))]

/-- What `/v1/models` says. -/
def modelsFields : List (Bytes × Json) :=
  values modelsFront ++ [(str "data", .array [.object (values modelEntry ++ [(str "parent", .null)])])]

def notFoundFields : List (Bytes × Json) := [(str "error", .string (str "Not found"))]

set_option maxRecDepth 4000 in
theorem handleModels_text (request : HttpRequest) : (handleModels request).body =
    objectText modelsFront (str "data") (91 :: (objectText modelEntry (str "parent") (str "null") ++ [93])) := by
  unfold handleModels
  decide +kernel

theorem known_modelEntry : Known modelEntry :=
  .cons (by decide) (reads_string (by decide)) <| .cons (by decide) (reads_string (by decide)) <|
    .cons (by decide) (reads_ofText rfl) <| .cons (by decide) (reads_string (by decide)) <|
    .cons (by decide) (reads_ofText rfl) <| .cons (by decide) (reads_string (by decide)) known_nil

theorem handleModels_decodes (request : HttpRequest) : Decodes (handleModels request).body modelsFields := by
  have front : Known modelsFront := .cons (by decide) (reads_string (by decide)) known_nil
  have body := reads_object front (show Verbatim (str "data") by decide)
    (reads_array (reads_object known_modelEntry (show Verbatim (str "parent") by decide) reads_null))
  rw [← handleModels_text request] at body
  refine ⟨Ascii.utf8 ?_, _, body.decode, ?_⟩
  · unfold handleModels
    decide +kernel
  · intro f mem
    simp only [modelsFields, modelsFront, values, List.map_cons, List.map_nil, List.cons_append, List.nil_append,
      List.mem_cons, List.not_mem_nil, or_false] at mem
    rcases mem with rfl | rfl <;> rfl

theorem notFound_decodes : Decodes (str "\x7b\"error\": \"Not found\"\x7d") notFoundFields := by
  have text : str "\x7b\"error\": \"Not found\"\x7d" = objectText [] (str "error") (quoted (str "Not found")) := by
    decide
  have body := reads_object known_nil (show Verbatim (str "error") by decide)
    (reads_string (show Verbatim (str "Not found") by decide))
  rw [← text] at body
  refine ⟨Ascii.utf8 (by decide), _, body.decode, ?_⟩
  intro f mem
  obtain rfl := List.mem_singleton.1 mem
  rfl

namespace HttpRequest

variable (request : HttpRequest)

def IsHealth : Prop := request.method = str "GET" ∧ request.path = str "/health"

def IsModels : Prop := request.method = str "GET" ∧ request.path = str "/v1/models"

def IsChat : Prop := request.method = str "POST" ∧ request.path = str "/v1/chat/completions"

def IsText : Prop := request.method = str "POST" ∧ request.path = str "/v1/completions"

instance : Decidable request.IsHealth := inferInstanceAs (Decidable (_ ∧ _))

instance : Decidable request.IsModels := inferInstanceAs (Decidable (_ ∧ _))

instance : Decidable request.IsChat := inferInstanceAs (Decidable (_ ∧ _))

instance : Decidable request.IsText := inferInstanceAs (Decidable (_ ∧ _))

end HttpRequest

/-- The body of the response is the document that its route is for. -/
def Conveys (env : ServerEnv) (request : HttpRequest) : Prop :=
  let body := (routeRequest env request).1.body
  if request.IsHealth then Decodes body (healthFields env)
  else if request.IsModels then Decodes body modelsFields
  else if request.IsChat then Carries chatContent (outcome env request) body
  else if request.IsText then Carries completionText (outcome env request) body
  else Decodes body notFoundFields

/-- What the route splices needs no escaping. -/
def SplicesPlain (env : ServerEnv) (request : HttpRequest) : Prop :=
  if request.IsHealth then Clean env.modelName ∧ Clean env.deviceName
  else if request.IsChat ∨ request.IsText then NeedsNoEscape (outcome env request)
  else True

section Routes

variable {env : ServerEnv} {request : HttpRequest}

theorem route_health (health : request.IsHealth) : routeRequest env request = (handleHealth env request, []) :=
  if_pos health

theorem route_models (models : request.IsModels) : routeRequest env request = (handleModels request, []) := by
  have notHealth : ¬ request.IsHealth := by
    rintro ⟨_, health⟩
    rw [models.2] at health
    exact absurd health (by decide)
  exact (if_neg notHealth).trans (if_pos models)

theorem route_chat (chat : request.IsChat) : routeRequest env request = handleChatCompletions env request := by
  have notGet : request.method ≠ str "GET" := by
    rw [chat.1]
    decide
  exact (if_neg fun get => notGet get.1).trans ((if_neg fun get => notGet get.1).trans (if_pos chat))

theorem route_text (text : request.IsText) : routeRequest env request = handleCompletions env request := by
  have notGet : request.method ≠ str "GET" := by
    rw [text.1]
    decide
  have notChat : ¬ request.IsChat := by
    rintro ⟨_, chat⟩
    rw [text.2] at chat
    exact absurd chat (by decide)
  exact (if_neg fun get => notGet get.1).trans
    ((if_neg fun get => notGet get.1).trans ((if_neg notChat).trans (if_pos text)))

theorem route_unknown (health : ¬ request.IsHealth) (models : ¬ request.IsModels) (chat : ¬ request.IsChat)
    (text : ¬ request.IsText) :
    routeRequest env request =
      ({ statusCode := 404, statusText := str "Not Found",
         body := str "\x7b\"error\": \"Not found\"\x7d" }, []) :=
  (if_neg health).trans ((if_neg models).trans ((if_neg chat).trans (if_neg text)))

/-- A completion is shown where its model and its result, or the text of its exception, need no escaping. -/
theorem conveys_completion_iff (completion : request.IsChat ∨ request.IsText) :
    Conveys env request ↔ NeedsNoEscape (outcome env request) := by
  have post : request.method = str "POST" := by
    rcases completion with chat | text
    · exact chat.1
    · exact text.1
  have notGet : request.method ≠ str "GET" := by
    rw [post]
    decide
  rw [Conveys, if_neg (fun health : request.IsHealth => notGet health.1),
    if_neg (fun models : request.IsModels => notGet models.1)]
  by_cases chat : request.IsChat
  · rw [if_pos chat, route_chat chat]
    exact chat_shows.carries_iff env request
  · have text := completion.resolve_left chat
    rw [if_neg chat, if_pos text, route_text text]
    exact completion_shows.carries_iff env request

theorem routeRequest_conveys_iff (rate : RateText env.tokensPerSecond) (request : HttpRequest) :
    Conveys env request ↔ SplicesPlain env request := by
  rw [SplicesPlain]
  by_cases health : request.IsHealth
  · rw [Conveys, if_pos health, if_pos health, route_health health]
    exact handleHealth_iff rate request
  rw [if_neg health]
  by_cases completion : request.IsChat ∨ request.IsText
  · rw [if_pos completion]
    exact conveys_completion_iff completion
  obtain ⟨chat, text⟩ := not_or.1 completion
  rw [Conveys, if_neg health, if_neg completion, if_neg chat, if_neg text, iff_true]
  by_cases models : request.IsModels
  · rw [if_pos models, route_models models]
    exact handleModels_decodes request
  · rw [if_neg models, route_unknown health models chat text]
    exact notFound_decodes

end Routes

/-! ## On an engine -/

section OnEngine

variable (llamaModelName : M → Bytes) (useCublas : Bool) (e : InferenceEngine M C)

/-- The device's name is one of two. -/
theorem InferenceEngine.getDeviceName_clean : Clean (e.getDeviceName useCublas) := by
  have cpu : Clean (str "cpu") := ⟨Ascii.utf8 (by decide), by decide⟩
  have cuda : Clean (str "cuda") := ⟨Ascii.utf8 (by decide), by decide⟩
  rw [getDeviceName, LlamaBackend.deviceName]
  split
  · exact cpu
  · split
    · exact cuda
    · exact cpu

/-- The model's own name is shown where one is configured and loaded. -/
theorem InferenceEngine.getModelName_clean_iff : Clean (e.getModelName llamaModelName) ↔
    (e.config.modelPath ≠ [] → ∀ model, e.backend.model = some model → Clean (llamaModelName model)) := by
  have stub : Clean (str "stub") := ⟨Ascii.utf8 (by decide), by decide⟩
  have unknown : Clean (str "unknown") := ⟨Ascii.utf8 (by decide), by decide⟩
  rw [getModelName]
  by_cases path : e.config.modelPath = []
  · rw [if_neg (not_not.2 path)]
    exact iff_of_true stub fun some => absurd path some
  · rw [if_pos path, LlamaBackend.modelName]
    cases e.backend.model with
    | none => exact iff_of_true unknown fun _ _ none => by cases none
    | some model =>
      constructor
      · intro clean _ _ same
        cases same
        exact clean
      · exact fun all => all path model rfl

/-- **Every response** of the server is the document that its route is for exactly where what the route splices
needs no escaping: for `/health` that is the name of a loaded model alone, for a completion its model and its result
or the text of its exception; `/v1/models` and an unknown route always answer with theirs. -/
theorem serves_json_iff (api : LlamaCpp M C L) (sampleToken : Sampler L) {env : ServerEnv}
    (rate : RateText env.tokensPerSecond) (draws : Nat) (request : HttpRequest) :
    let server := e.statusEnv api sampleToken llamaModelName useCublas env draws
    Conveys server request ↔
      if request.IsHealth then
        e.config.modelPath ≠ [] → ∀ model, e.backend.model = some model → Clean (llamaModelName model)
      else if request.IsChat ∨ request.IsText then NeedsNoEscape (outcome server request)
      else True := by
  intro server
  have same : RateText server.tokensPerSecond := rate
  refine (routeRequest_conveys_iff same request).trans ?_
  rw [SplicesPlain]
  by_cases health : request.IsHealth
  · rw [if_pos health, if_pos health]
    exact (and_iff_left (e.getDeviceName_clean useCublas)).trans (e.getModelName_clean_iff llamaModelName)
  · rw [if_neg health, if_neg health]

end OnEngine

/-- A model whose name has a quote. -/
theorem serves_json_iff_quoted :
    let env : ServerEnv :=
      { generate := fun _ _ => .ok [], stof := fun _ => .ok (.finite 1), tokensPerSecond := str "12.5" }
    let e := { sumEngine with config := { modelPath := str "m.gguf" } }
    let request : HttpRequest := { method := str "GET", path := str "/health", body := [], headers := ∅ }
    let server := e.statusEnv sumLlama (fun _ _ _ _ _ => 1) (fun _ => str "a\"b") false env 0
    Conveys server request ↔
      if request.IsHealth then
        e.config.modelPath ≠ [] → ∀ model, e.backend.model = some model → Clean (str "a\"b")
      else if request.IsChat ∨ request.IsText then NeedsNoEscape (outcome server request)
      else True :=
  serves_json_iff (fun _ => str "a\"b") false _ sumLlama (fun _ _ _ _ _ => 1) ⟨by decide, rfl⟩ 0 _

end ModelRuntime
