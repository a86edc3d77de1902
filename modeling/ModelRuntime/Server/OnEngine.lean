import ModelRuntime.Engine.Generating
import ModelRuntime.Server.Handlers

/-!
# The handlers over an engine

A prompt that cannot be tokenized and a prompt batch that cannot be decoded come back from the backend
as an empty list of tokens, from `generate` as an empty text, and leave the handler as a completion:
`failed_status`.
-/

namespace ModelRuntime
open Cpp

variable {M C L : Type} (api : LlamaCpp M C L) (sampleToken : Sampler L)

namespace InferenceEngine

def getTotalTokensGenerated (e : InferenceEngine M C) : Int := e.backend.tokensGenerated

/-- The engine as the handlers see it; `env` has what it does not decide. -/
def serverEnv (e : InferenceEngine M C) (env : ServerEnv) (draws : Nat) : ServerEnv :=
  { env with
    generate := fun prompt genConfig => (e.generate api sampleToken prompt genConfig draws).1
    isReady := e.ready
    totalTokensGenerated := e.getTotalTokensGenerated }

end InferenceEngine

/-! ## Failures of the backend -/

/-- `tokenize` takes its error branch. -/
def LlamaBackend.TokenizeFails (be : LlamaBackend M C) (text : Bytes) (addBos : Bool) : Prop :=
  ∃ model, be.model = some model ∧ be.modelLoaded = true ∧
    (api.tokenize model text (toInt text.length) 0 addBos true).1 < 0

/-- `llama_decode` refuses one of the prompt batches. -/
def LlamaBackend.PrefillFails (be : LlamaBackend M C) (prompt : List Int) (genConfig : GenerationConfig)
    (draws : Nat) : Prop :=
  ∃ i ret, i < prompt.length ∧ ret ≠ 0 ∧ (promptBatch (toSizeT be.config.nBatch) prompt i, ret) ∈
    (be.generate api sampleToken prompt genConfig.maxTokens genConfig.temperature genConfig.topP
      genConfig.topK none draws ()).decodes

/-- In serving the prompt the backend fails to tokenize it or to decode one of its batches. -/
def InferenceEngine.GenerationFails (e : InferenceEngine M C) (prompt : Bytes)
    (genConfig : GenerationConfig) (draws : Nat) : Prop :=
  e.ready = true ∧ 0 < e.backend.vocabSize api ∧ (e.backend.TokenizeFails api prompt true ∨
    e.backend.PrefillFails api sampleToken (e.promptTokens api prompt) genConfig draws)

section

variable {api sampleToken} {be : LlamaBackend M C}

theorem LlamaBackend.TokenizeFails.nil {text : Bytes} {addBos : Bool}
    (fails : be.TokenizeFails api text addBos) : be.tokenize api text addBos = [] := by
  obtain ⟨model, hasModel, loaded, negative⟩ := fails
  rw [tokenize, hasModel, loaded]
  dsimp only
  rw [if_neg (by decide), if_pos negative]

theorem LlamaBackend.generate_negative {prompt : List Int} {maxTokens : Int} (negative : maxTokens < 0)
    (temperature topP : CFloat) (topK : Int) (draws : Nat) :
    (be.generate api sampleToken prompt maxTokens temperature topP topK none draws ()).decodes = [] := by
  rw [generate]
  cases be.ctx with
  | none => rfl
  | some ctx =>
    dsimp only
    split
    · rfl
    · rw [generateOn, if_pos negative]

variable {e : InferenceEngine M C} {prompt : Bytes} {genConfig : GenerationConfig} {draws : Nat}

/-- **A generation that fails** returns a text all the same. -/
theorem InferenceEngine.GenerationFails.returns
    (fails : e.GenerationFails api sampleToken prompt genConfig draws) :
    ∃ text, (e.generate api sampleToken prompt genConfig draws).1 = .ok text := by
  obtain ⟨ready, vocab, fails⟩ := fails
  have bound : e.promptTokens api prompt ≠ [] → 0 ≤ genConfig.maxTokens := by
    intro some
    rcases fails with tokenize | ⟨i, ret, _, _, mem⟩
    · rw [promptTokens, if_pos vocab, tokenize.nil] at some
      exact absurd rfl some
    · by_contra negative
      rw [LlamaBackend.generate_negative (by omega)] at mem
      cases mem
  apply (generate_restored_iff ready).2.2
  rw [sampleTokens_ok_iff]
  exact fun _ _ => bound

end

/-! ## What the client is told -/

/-- A POST to one of the two completion routes. -/
structure HttpRequest.IsCompletion (request : HttpRequest) : Prop where
  method : request.method = str "POST"
  path : request.path = str "/v1/chat/completions" ∨ request.path = str "/v1/completions"

/-- A completion request is answered by `complete`. -/
theorem HttpRequest.IsCompletion.route {request : HttpRequest} (h : request.IsCompletion) (env : ServerEnv) :
    ∃ render, routeRequest env request = complete env render request := by
  have notGet : request.method ≠ str "GET" := by
    rw [h.method]
    decide
  rw [routeRequest, if_neg (fun get => notGet get.1), if_neg (fun get => notGet get.1)]
  rcases h.path with chat | completions
  · exact ⟨chatBody, by rw [if_pos ⟨h.method, chat⟩]; rfl⟩
  · have notChat : request.path ≠ str "/v1/chat/completions" := by
      rw [completions]
      decide
    exact ⟨completionBody, by rw [if_neg (fun chat => notChat chat.2), if_pos ⟨h.method, completions⟩]; rfl⟩

/-- A text is answered with 200. -/
theorem complete_status {env : ServerEnv} {render : Int → GenerateCall → Bytes → Bytes}
    {request : HttpRequest} {call : GenerateCall} (read : readCall env request.body = .ok call)
    {text : Bytes} (returns : generateResponse env call = .ok text) :
    (complete env render request).1.statusCode = 200 := by
  rw [complete, read]
  dsimp only
  rw [returns]

/-- **A failed generation is a success** to the client, whatever the request. -/
theorem failed_status (e : InferenceEngine M C) (env : ServerEnv) (draws : Nat) {request : HttpRequest}
    (completion : request.IsCompletion) {call : GenerateCall}
    (read : readCall (e.serverEnv api sampleToken env draws) request.body = .ok call)
    (fails : e.GenerationFails api sampleToken call.prompt
      { maxTokens := call.maxTokens, temperature := call.temperature } draws) :
    (routeRequest (e.serverEnv api sampleToken env draws) request).1.statusCode = 200 := by
  obtain ⟨render, routed⟩ := completion.route (e.serverEnv api sampleToken env draws)
  obtain ⟨text, returns⟩ := fails.returns
  rw [routed]
  exact complete_status read returns

/-- A client that asks the small model to go on from `hi`. -/
def hiPost : HttpRequest where
  method := str "POST"
  path := str "/v1/completions"
  body := str "\x7b\"prompt\": \"hi\"\x7d"

def hiCall : GenerateCall := ⟨str "sovalune-model", str "hi", 1024, .finite 0.7⟩

def plainEnv : ServerEnv where
  generate _ _ := .ok []
  stof _ := .ok (.finite 0)

theorem hiPost_completion : hiPost.IsCompletion := ⟨rfl, .inr rfl⟩

theorem hiPost_read : readCall (sumEngine.serverEnv sumLlama (fun _ _ _ _ _ => 0) plainEnv 0) hiPost.body =
    .ok hiCall := by
  decide +kernel

/-- Its `llama_tokenize` answers the null buffer with the negated count. -/
theorem hiPost_fails : sumEngine.GenerationFails sumLlama (fun _ _ _ _ _ => 0) hiCall.prompt
    { maxTokens := hiCall.maxTokens, temperature := hiCall.temperature } 0 :=
  ⟨rfl, by decide, .inl ⟨(), rfl, rfl, by decide⟩⟩

theorem failed_status_hi :
    (routeRequest (sumEngine.serverEnv sumLlama (fun _ _ _ _ _ => 0) plainEnv 0) hiPost).1.statusCode = 200 :=
  failed_status sumLlama (fun _ _ _ _ _ => 0) sumEngine plainEnv 0 hiPost_completion hiPost_read hiPost_fails

theorem failed_generation_reported :
    ¬ ∀ (request : HttpRequest) (call : GenerateCall), request.IsCompletion →
      readCall (sumEngine.serverEnv sumLlama (fun _ _ _ _ _ => 0) plainEnv 0) request.body = .ok call →
      sumEngine.GenerationFails sumLlama (fun _ _ _ _ _ => 0) call.prompt
        { maxTokens := call.maxTokens, temperature := call.temperature } 0 →
      (routeRequest (sumEngine.serverEnv sumLlama (fun _ _ _ _ _ => 0) plainEnv 0) request).1.statusCode ≠
        200 := by
  intro all
  refine all hiPost hiCall hiPost_completion hiPost_read hiPost_fails ?_
  decide +kernel

end ModelRuntime
