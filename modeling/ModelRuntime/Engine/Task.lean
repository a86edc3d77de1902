import ModelRuntime.Engine.Generating
import ModelRuntime.Nats.Publish

/-!
# Tasks

`process_task`. On a ready engine it throws where the callback of the task does, and only there: a
placeholder response can be made of every prompt, and a backend, which gets no prompt tokens
(`tokenize_nil`), calls nobody.
-/

namespace ModelRuntime
open Cpp

variable {M C L σ : Type}

structure InferenceTask (σ : Type) where
  requestId : Bytes
  prompt : Bytes
  genConfig : GenerationConfig := {}
  onToken : Option (Token → σ → Except StdException σ) := none
  isStreaming : Bool := false

/-- What `process_task` reads and changes: the engine, the number of the next draw, the state of the tasks'
callers and what is published. -/
structure TaskContext (M C σ : Type) where
  engine : InferenceEngine M C
  draws : Nat := 0
  user : σ
  published : List Published := []

variable (api : LlamaCpp M C L) (sampleToken : Sampler L) (connected : Bool)

/-- `process_task`. -/
def processTask (task : InferenceTask σ) (s : TaskContext M C σ) : Except StdException Unit × TaskContext M C σ :=
  match task.isStreaming, task.onToken with
  | true, some onToken =>
    match s.engine.generateStream api sampleToken task.prompt onToken task.genConfig s.draws s.user with
    | (.ok user, engine, draws) => (.ok (), { s with engine, draws, user })
    | (.error x, engine, draws) => (.error x, { s with engine, draws })
  | _, _ =>
    match s.engine.generate api sampleToken task.prompt task.genConfig s.draws with
    | (.ok result, engine, draws) =>
      let response := { requestId := task.requestId, delta := result, done := true }
      (.ok (), { s with engine, draws, published := s.published ++ publishResponse connected response })
    | (.error x, engine, draws) => (.error x, { s with engine, draws })

/-- The task's own callback takes the placeholder response. On a backend it is given nothing. -/
def InferenceTask.CallbackReturns (task : InferenceTask σ) (s : TaskContext M C σ) : Prop :=
  ∀ onToken, task.isStreaming = true → task.onToken = some onToken → ¬ 0 < s.engine.backend.vocabSize api →
    ∃ user, InferenceEngine.reportAll (fun tokenId user => onToken (s.engine.streamToken api tokenId) user)
      ((s.engine.tokenizer.encode InferenceEngine.stubResponse).take task.genConfig.maxTokens.toNat) s.user = .ok user

namespace TaskContext

def setReady (s : TaskContext M C σ) (ready : Bool) : TaskContext M C σ := { s with engine := { s.engine with ready } }

@[simp] theorem setReady_ready (s : TaskContext M C σ) (ready : Bool) : (s.setReady ready).engine.ready = ready := rfl

end TaskContext

/-- `process_task` of an engine that is not ready throws. -/
theorem processTask_notReady {task : InferenceTask σ} {s : TaskContext M C σ} (notReady : s.engine.ready = false) :
    (processTask api sampleToken connected task s).1 = .error (.runtimeError (str "Engine not ready")) := by
  unfold processTask
  split
  · unfold InferenceEngine.generateStream
    rw [notReady]
    rfl
  · unfold InferenceEngine.generate
    rw [notReady]
    rfl

section Process

variable {api} {e : InferenceEngine M C}

theorem LlamaBackend.generate_nil (be : LlamaBackend M C) (maxTokens : Int) (temperature topP : CFloat) (topK : Int)
    (onToken : Option (TokenCallback σ)) (draws : Nat) (user : σ) :
    (be.generate api sampleToken [] maxTokens temperature topP topK onToken draws user).tokens = .ok [] := by
  unfold LlamaBackend.generate
  cases be.ctx <;> rfl

variable {vocab : M → Bytes → Int → Bool → List Int} (contract : TokenizeContract api vocab)
include contract

/-- A backend gets no tokens. -/
theorem InferenceEngine.promptTokens_nil (backend : 0 < e.backend.vocabSize api) (prompt : Bytes) :
    e.promptTokens api prompt = [] := by
  rw [InferenceEngine.promptTokens, if_pos backend]
  cases model : e.backend.model with
  | none =>
    rw [LlamaBackend.vocabSize, model] at backend
    exact absurd backend (Int.lt_irrefl 0)
  | some model' => exact LlamaBackend.tokenize_nil contract model prompt true

theorem InferenceEngine.generate_returns (ready : e.ready = true) (prompt : Bytes) (genConfig : GenerationConfig)
    (draws : Nat) : ∃ text, (e.generate api sampleToken prompt genConfig draws).1 = .ok text := by
  apply (generate_restored_iff ready).2.2
  rw [sampleTokens_ok_iff]
  intro backend _ some
  exact absurd (promptTokens_nil contract backend prompt) some

theorem InferenceEngine.generateStream_returns (ready : e.ready = true) (prompt : Bytes)
    (onToken : Token → σ → Except StdException σ) (genConfig : GenerationConfig) (draws : Nat) (user : σ) :
    (∃ user', (e.generateStream api sampleToken prompt onToken genConfig draws user).1 = .ok user') ↔
      (¬ 0 < e.backend.vocabSize api →
        ∃ user', reportAll (fun tokenId user => onToken (e.streamToken api tokenId) user)
          ((e.tokenizer.encode stubResponse).take genConfig.maxTokens.toNat) user = .ok user') := by
  rw [(generateStream_restored_iff ready).2]
  by_cases backend : 0 < e.backend.vocabSize api
  · rw [tolerable_backend backend, promptTokens_nil contract backend, LlamaBackend.generate_nil]
    exact ⟨fun _ stub => absurd backend stub, fun _ => ⟨[], rfl⟩⟩
  · rw [tolerable_stub backend]
    exact ⟨fun callback _ => callback, fun callback => callback backend⟩

/-- `process_task` of a ready engine throws where the task's callback does. -/
theorem processTask_returns {task : InferenceTask σ} {s : TaskContext M C σ} (ready : s.engine.ready = true) :
    (processTask api sampleToken connected task s).1 = .ok () ↔ task.CallbackReturns api s := by
  unfold processTask InferenceTask.CallbackReturns
  split
  · rename_i onToken streaming callback
    have returns := InferenceEngine.generateStream_returns sampleToken contract ready task.prompt onToken
      task.genConfig s.draws s.user
    rw [streaming, callback]
    constructor
    · intro returned onToken' _ same
      cases same
      apply returns.1
      split at returned
      · rename_i made
        exact ⟨_, congrArg Prod.fst made⟩
      · cases returned
    · intro returned
      obtain ⟨user, made⟩ := returns.2 (returned onToken rfl rfl)
      split
      · rfl
      · rename_i thrown
        rw [thrown] at made
        cases made
  · rename_i other
    obtain ⟨text, made⟩ := InferenceEngine.generate_returns sampleToken contract ready task.prompt task.genConfig
      s.draws
    refine ⟨fun _ onToken streaming callback => absurd callback (other onToken streaming), fun _ => ?_⟩
    split
    · rfl
    · rename_i thrown
      rw [thrown] at made
      cases made

end Process

end ModelRuntime
