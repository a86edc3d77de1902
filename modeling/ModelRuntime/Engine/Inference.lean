import ModelRuntime.Backend.Generate
import ModelRuntime.Tokenizer.Model

/-!
# `InferenceEngine`

`generate` over the backend, or over the engine's own tokenizer in stub mode. `tokenize_nil` is what
the first of the two `llama_tokenize` calls comes to: its negative return value, which carries the
count, is taken for an error.
-/

namespace ModelRuntime
open Cpp

structure InferenceEngine (M C : Type) where
  config : EngineConfig := {}
  backend : LlamaBackend M C
  tokenizer : Tokenizer := {}
  ready : Bool := false
  generating : Bool := false

variable {M C L : Type} (api : LlamaCpp M C L)

namespace InferenceEngine

/-- The prompt as token ids. -/
def promptTokens (e : InferenceEngine M C) (prompt : Bytes) : List Int :=
  if 0 < e.backend.vocabSize api then e.backend.tokenize api prompt true
  else e.tokenizer.encode prompt

/-- What stub mode answers to every prompt. -/
def stubResponse : Bytes := str "I am Sovalune AI, ready to help with your software engineering tasks."

/-- The tokens, the backend and the number of the next draw afterwards. -/
def sampleTokens (sampleToken : Sampler L) (e : InferenceEngine M C) (promptTokens : List Int)
    (maxTokens : Int) (temperature topP : CFloat) (topK : Int) (draws : Nat) :
    Except StdException (List Int) × LlamaBackend M C × Nat :=
  if 0 < e.backend.vocabSize api then
    let out := e.backend.generate api sampleToken promptTokens maxTokens temperature topP topK none
      draws ()
    (out.tokens, out.backend, out.draws)
  else (.ok ((e.tokenizer.encode stubResponse).take maxTokens.toNat), e.backend, draws)

/-- The generated tokens as text. -/
def responseText (e : InferenceEngine M C) (tokens : List Int) : Bytes :=
  if 0 < e.backend.vocabSize api then e.backend.detokenize api tokens else e.tokenizer.decode tokens

/-- The text or the exception, and the engine and the number of the next draw afterwards. -/
def generate (sampleToken : Sampler L) (e : InferenceEngine M C) (prompt : Bytes)
    (genConfig : GenerationConfig) (draws : Nat) :
    Except StdException Bytes × InferenceEngine M C × Nat :=
  if !e.ready then (.error (.runtimeError (str "Engine not ready")), e, draws)
  else
    let (tokens, backend, draws) := e.sampleTokens api sampleToken (e.promptTokens api prompt)
      genConfig.maxTokens genConfig.temperature genConfig.topP genConfig.topK draws
    match tokens with
    -- an exception leaves the flag set
    | .error x => (.error x, { e with backend, generating := true }, draws)
    | .ok tokens =>
      let e := { e with backend, generating := false }
      (.ok (e.responseText api tokens), e, draws)

end InferenceEngine

section Tokenize

variable {api} {vocab : M → Bytes → Int → Bool → List Int} {be : LlamaBackend M C} {model : M}

/-- No text gets tokens: a text that has some is refused, one that has none gets none. -/
theorem LlamaBackend.tokenize_nil (contract : TokenizeContract api vocab)
    (hasModel : be.model = some model) (text : Bytes) (addBos : Bool) :
    be.tokenize api text addBos = [] := by
  rw [LlamaBackend.tokenize, hasModel]
  dsimp only
  by_cases loaded : be.modelLoaded = true
  · rw [loaded, contract, contract]
    dsimp only [Bool.not_true]
    by_cases none : vocab model text (toInt text.length) addBos = []
    · rw [none]
      rfl
    · have some : 0 < (vocab model text (toInt text.length) addBos).length :=
        List.length_pos_iff.2 none
      have noCount : ¬ ((vocab model text (toInt text.length) addBos).length : Int) ≤ 0 := by omega
      rw [if_neg noCount, if_neg (by decide), if_pos (by dsimp only; omega)]
  · rw [if_pos (by simpa using loaded)]

/-- **The two-call protocol.** A loaded model's tokens come back exactly for the texts that have
none, and it is exactly these whose prompt may be empty. -/
theorem InferenceEngine.tokenize_iff (contract : TokenizeContract api vocab) {e : InferenceEngine M C}
    (hasModel : e.backend.model = some model) (text : Bytes) :
    (∀ addBos, e.backend.tokenize api text addBos = vocab model text text.length addBos ↔
        vocab model text text.length addBos = []) ∧
      (0 < e.backend.vocabSize api →
        ((vocab model text text.length true ≠ [] → e.promptTokens api text ≠ []) ↔
          vocab model text text.length true = [])) := by
  constructor
  · intro addBos
    rw [LlamaBackend.tokenize_nil contract hasModel]
    exact eq_comm
  · intro backend
    rw [InferenceEngine.promptTokens, if_pos backend, LlamaBackend.tokenize_nil contract hasModel]
    simp

/-- An engine on the small model. -/
def sumEngine : InferenceEngine Unit (List (Int × Int)) where
  backend := { config := {}, model := some (), ctx := some [], modelLoaded := true }
  ready := true

theorem InferenceEngine.tokenize_iff_hi :
    (∀ addBos, sumEngine.backend.tokenize sumLlama (str "hi") addBos =
          byteVocab () (str "hi") 2 addBos ↔ byteVocab () (str "hi") 2 addBos = []) ∧
      (0 < sumEngine.backend.vocabSize sumLlama →
        ((byteVocab () (str "hi") 2 true ≠ [] → sumEngine.promptTokens sumLlama (str "hi") ≠ []) ↔
          byteVocab () (str "hi") 2 true = [])) :=
  InferenceEngine.tokenize_iff sumLlama_tokenize rfl (str "hi")

/-- `hi` has two tokens and gets none. -/
theorem LlamaBackend.tokenize_hi :
    ¬ ∀ (text : Bytes) (addBos : Bool), sumEngine.backend.tokenize sumLlama text addBos =
      byteVocab () text text.length addBos := by
  intro all
  have e := all (str "hi") false
  rw [LlamaBackend.tokenize_nil sumLlama_tokenize rfl] at e
  revert e
  decide

end Tokenize
end ModelRuntime
