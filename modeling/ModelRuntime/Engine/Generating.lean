import ModelRuntime.Engine.Stream

/-!
# The flag `generating_`

`generate` and `generate_stream` set the flag before they call the backend and clear it after, so that an
exception in between leaves it set. Two can come: the callback's own, at one of the tokens the model
has to offer (`offered`), and the one with which `reserve` refuses a negative `max_tokens` where there
is a context and a prompt. `restored_iff` says that there is no third.
-/

namespace ModelRuntime
open Cpp InferenceEngine

variable {M C L σ : Type} (api : LlamaCpp M C L) (sampleToken : Sampler L)

/-! ## What the model has to offer -/

namespace LlamaBackend

/-- The tokens from `cur` on, at most `left` of them: up to the first that ends the generation, and up to
the first that `llama_decode` refuses, which is still offered. -/
def answer (be : LlamaBackend M C) (draw : L → Nat → Int) (promptLength : Nat) :
    (left i : Nat) → (cur : Int) → C → (draws : Nat) → List Int
  | 0, _, _, _, _ => []
  | left + 1, i, cur, ctx, draws =>
    if be.isEos api cur then []
    else
      let (ret, ctx) := api.decode ctx (batchOf [cur] (promptLength + i))
      cur ::
        if ret ≠ 0 then []
        else answer be draw promptLength left (i + 1) (draw (api.getLogitsIth ctx 0) draws) ctx (draws + 1)

/-- The answer to a prompt, none where the prompt cannot be submitted. -/
def offered (be : LlamaBackend M C) (prompt : List Int) (maxTokens : Int) (temperature topP : CFloat)
    (topK : Int) (draws : Nat) : List Int :=
  match be.ctx with
  | none => []
  | some ctx =>
    if prompt = [] then []
    else
      let draw := fun logits k => sampleToken logits temperature topP topK k
      let (filled, run) := prefill api (toSizeT be.config.nBatch) prompt prompt.length 0
        ({ ctx := api.kvCacheClear ctx, draws, user := () } : GenRun C Unit)
      if !filled then []
      else
        let (cur, run) := run.sample api draw (-1)
        answer api be draw prompt.length maxTokens.toNat 0 cur run.ctx run.draws

/-- `reserve` is not reached with a negative `max_tokens`. -/
def TakesLimit (be : LlamaBackend M C) (prompt : List Int) (maxTokens : Int) : Prop :=
  be.ctx ≠ none → prompt ≠ [] → 0 ≤ maxTokens

section

variable {api sampleToken} {be : LlamaBackend M C} {draw : L → Nat → Int}

/-- **The token loop returns** where its callback takes all that is offered. -/
theorem decodeLoop_ok_iff (onToken : TokenCallback σ) (promptLength : Nat) :
    ∀ (left i : Nat) (cur : Int) (generated : List Int) (run : GenRun C σ),
      (∃ tokens, (decodeLoop api be draw (some onToken) promptLength left i cur generated run).1 =
          .ok tokens) ↔
        ∃ user, reportAll onToken (answer api be draw promptLength left i cur run.ctx run.draws) run.user =
          .ok user := by
  intro left
  induction left with
  | zero =>
    intro i cur generated run
    exact ⟨fun _ => ⟨run.user, rfl⟩, fun _ => ⟨generated, rfl⟩⟩
  | succ left ih =>
    intro i cur generated run
    rw [decodeLoop, answer]
    cases eos : be.isEos api cur with
    | true => simp [reportAll]
    | false =>
      rw [if_neg (by simp), if_neg (by simp), GenRun.call]
      dsimp only
      rw [reportAll]
      cases reported : onToken cur run.user with
      | error thrown =>
        refine ⟨fun returned => ?_, fun returned => ?_⟩
        · obtain ⟨_, returned⟩ := returned
          cases returned
        · obtain ⟨_, returned⟩ := returned
          cases returned
      | ok user =>
        dsimp only [Except.map]
        by_cases refused : (api.decode run.ctx (batchOf [cur] (promptLength + i))).1 ≠ 0
        · rw [if_pos refused, if_pos (show (GenRun.decode api { run with user } _).1 ≠ 0 from refused)]
          exact ⟨fun _ => ⟨user, rfl⟩, fun _ => ⟨_, rfl⟩⟩
        · rw [if_neg refused, if_neg (show ¬ (GenRun.decode api { run with user } _).1 ≠ 0 from refused)]
          apply ih

variable {prompt : List Int} {maxTokens : Int}

variable (be prompt maxTokens) in
/-- `generate` without a callback throws where `reserve` does. -/
theorem generate_ok_iff (temperature topP : CFloat) (topK : Int) (draws : Nat) :
    (∃ tokens, (be.generate api sampleToken prompt maxTokens temperature topP topK none draws ()).tokens =
        .ok tokens) ↔ be.TakesLimit prompt maxTokens := by
  rw [TakesLimit]
  by_cases limit : 0 ≤ maxTokens
  · obtain ⟨tokens, _, quiet, _⟩ := be.generate_reports api (fun _ (user : Unit) => user) sampleToken prompt
      limit temperature topP topK draws ()
    exact ⟨fun _ _ _ => limit, fun _ => ⟨tokens, quiet⟩⟩
  · rw [generate]
    cases be.ctx with
    | none => simp
    | some ctx =>
      by_cases empty : prompt = []
      · simp [empty]
      · dsimp only
        rw [if_neg empty, generateOn, if_pos (by omega)]
        simp [empty, limit]

variable (be prompt maxTokens) in
/-- `generate` with a callback throws where `reserve` or the callback does. -/
theorem generate_callback_ok_iff (temperature topP : CFloat) (topK : Int) (draws : Nat)
    (onToken : TokenCallback σ) (user : σ) :
    (∃ tokens, (be.generate api sampleToken prompt maxTokens temperature topP topK (some onToken) draws
        user).tokens = .ok tokens) ↔
      be.TakesLimit prompt maxTokens ∧ ∃ user', reportAll onToken
        (be.offered api sampleToken prompt maxTokens temperature topP topK draws) user = .ok user' := by
  rw [TakesLimit, generate, offered]
  cases be.ctx with
  | none => simp [reportAll]
  | some ctx =>
    dsimp only
    by_cases empty : prompt = []
    · simp [empty, reportAll]
    · rw [if_neg empty, if_neg empty, generateOn]
      by_cases limit : maxTokens < 0
      · rw [if_pos limit]
        simp [empty, limit]
      · rw [if_neg limit, and_iff_right (fun _ _ => by omega)]
        obtain ⟨filled, run, loud, quiet, kept⟩ := prefill_start api (toSizeT be.config.nBatch) prompt prompt.length 0
          (api.kvCacheClear ctx) draws user
        dsimp only
        rw [loud, quiet]
        cases filled with
        | false => simp [reportAll]
        | true =>
          dsimp only [Bool.not_true]
          rw [if_neg (by decide), if_neg (by decide), ← kept]
          exact decodeLoop_ok_iff onToken prompt.length maxTokens.toNat 0 _ [] (run.sample api _ (-1)).2

end

end LlamaBackend

/-! ## The flag -/

namespace InferenceEngine

/-- The tokens that are there for the callback of a `generate_stream`. -/
def offered (e : InferenceEngine M C) (prompt : Bytes) (genConfig : GenerationConfig) (draws : Nat) : List Int :=
  if 0 < e.backend.vocabSize api then
    e.backend.offered api sampleToken (e.promptTokens api prompt) genConfig.maxTokens genConfig.temperature
      genConfig.topP genConfig.topK draws
  else (e.tokenizer.encode stubResponse).take genConfig.maxTokens.toNat

/-- What is wanted of both: the flag is cleared however they end, and a negative `max_tokens` is a limit that
leaves no token. -/
structure Restored (e : InferenceEngine M C) (prompt : Bytes) (genConfig : GenerationConfig)
    (onToken : Token → σ → Except StdException σ) (draws : Nat) (user : σ) : Prop where
  blocking : (e.generate api sampleToken prompt genConfig draws).2.1.generating = false
  streaming : (e.generateStream api sampleToken prompt onToken genConfig draws user).2.1.generating = false
  negative : genConfig.maxTokens < 0 →
    (∃ text, (e.generate api sampleToken prompt genConfig draws).1 = .ok text) ∧
      (e.sampleTokens api sampleToken (e.promptTokens api prompt) genConfig.maxTokens genConfig.temperature
        genConfig.topP genConfig.topK draws).1 = .ok []

/-- No backend that has a prompt to work on is given a negative limit, and the callback returns for every
token there is for it. -/
structure Tolerable (e : InferenceEngine M C) (prompt : Bytes) (genConfig : GenerationConfig)
    (onToken : Token → σ → Except StdException σ) (draws : Nat) (user : σ) : Prop where
  limit : 0 < e.backend.vocabSize api → e.backend.TakesLimit (e.promptTokens api prompt) genConfig.maxTokens
  callback : ∃ user', reportAll (fun tokenId user => onToken (e.streamToken api tokenId) user)
    (e.offered api sampleToken prompt genConfig draws) user = .ok user'

section Ready

variable {api sampleToken} {e : InferenceEngine M C} {prompt : Bytes} {genConfig : GenerationConfig} {draws : Nat}

/-- `sample_tokens` throws where `reserve` does. -/
theorem sampleTokens_ok_iff (e : InferenceEngine M C) (prompt : List Int) (maxTokens : Int) (temperature topP : CFloat)
    (topK : Int) (draws : Nat) :
    (∃ tokens, (e.sampleTokens api sampleToken prompt maxTokens temperature topP topK draws).1 = .ok tokens) ↔
      (0 < e.backend.vocabSize api → e.backend.TakesLimit prompt maxTokens) := by
  rw [sampleTokens]
  by_cases backend : 0 < e.backend.vocabSize api
  · rw [if_pos backend, e.backend.generate_ok_iff prompt maxTokens temperature topP topK draws]
    exact ⟨fun taken _ => taken, fun taken => taken backend⟩
  · rw [if_neg backend]
    exact ⟨fun _ stub => absurd stub backend, fun _ => ⟨_, rfl⟩⟩

/-- A negative limit that is taken leaves no token. -/
theorem sampleTokens_negative {prompt : List Int} {maxTokens : Int} (negative : maxTokens < 0)
    (limit : 0 < e.backend.vocabSize api → e.backend.TakesLimit prompt maxTokens) (temperature topP : CFloat)
    (topK : Int) (draws : Nat) :
    (e.sampleTokens api sampleToken prompt maxTokens temperature topP topK draws).1 = .ok [] := by
  rw [sampleTokens]
  by_cases backend : 0 < e.backend.vocabSize api
  · rw [if_pos backend, LlamaBackend.generate]
    have taken := limit backend
    cases hasCtx : e.backend.ctx with
    | none => rfl
    | some ctx =>
      have empty : prompt = [] := by
        by_contra some
        have := taken (by simp [hasCtx]) some
        omega
      simp [empty]
  · rw [if_neg backend, show maxTokens.toNat = 0 by omega]
    simp

/-- `generate` clears the flag where it returns. -/
theorem generate_restored_iff (ready : e.ready = true) :
    ((e.generate api sampleToken prompt genConfig draws).2.1.generating = false ↔
        ∃ tokens, (e.sampleTokens api sampleToken (e.promptTokens api prompt) genConfig.maxTokens
          genConfig.temperature genConfig.topP genConfig.topK draws).1 = .ok tokens) ∧
      ((∃ text, (e.generate api sampleToken prompt genConfig draws).1 = .ok text) ↔
        ∃ tokens, (e.sampleTokens api sampleToken (e.promptTokens api prompt) genConfig.maxTokens
          genConfig.temperature genConfig.topP genConfig.topK draws).1 = .ok tokens) := by
  rw [generate, if_neg (by simp [ready])]
  rcases e.sampleTokens api sampleToken (e.promptTokens api prompt) genConfig.maxTokens
    genConfig.temperature genConfig.topP genConfig.topK draws with ⟨_ | tokens, backend, draws'⟩
  · simp
  · simp

variable {onToken : Token → σ → Except StdException σ} {user : σ}

theorem tolerable_backend (backend : 0 < e.backend.vocabSize api) :
    e.Tolerable api sampleToken prompt genConfig onToken draws user ↔
      ∃ tokens, (e.backend.generate api sampleToken (e.promptTokens api prompt) genConfig.maxTokens
        genConfig.temperature genConfig.topP genConfig.topK
        (some fun tokenId user => onToken (e.streamToken api tokenId) user) draws user).tokens = .ok tokens := by
  rw [e.backend.generate_callback_ok_iff]
  constructor
  · rintro ⟨limit, callback⟩
    rw [offered, if_pos backend] at callback
    exact ⟨limit backend, callback⟩
  · rintro ⟨limit, callback⟩
    refine ⟨fun _ => limit, ?_⟩
    rwa [offered, if_pos backend]

theorem tolerable_stub (stub : ¬ 0 < e.backend.vocabSize api) :
    e.Tolerable api sampleToken prompt genConfig onToken draws user ↔
      ∃ user', reportAll (fun tokenId user => onToken (e.streamToken api tokenId) user)
        ((e.tokenizer.encode stubResponse).take genConfig.maxTokens.toNat) user = .ok user' := by
  constructor
  · rintro ⟨_, callback⟩
    rwa [offered, if_neg stub] at callback
  · intro callback
    refine ⟨fun backend => absurd backend stub, ?_⟩
    rwa [offered, if_neg stub]

/-- `generate_stream` clears the flag where it returns, that is where neither `reserve` nor the callback throws. -/
theorem generateStream_restored_iff (ready : e.ready = true) :
    ((e.generateStream api sampleToken prompt onToken genConfig draws user).2.1.generating = false ↔
        e.Tolerable api sampleToken prompt genConfig onToken draws user) ∧
      ((∃ user', (e.generateStream api sampleToken prompt onToken genConfig draws user).1 = .ok user') ↔
        e.Tolerable api sampleToken prompt genConfig onToken draws user) := by
  rw [generateStream, if_neg (by simp [ready])]
  dsimp only
  by_cases backend : 0 < e.backend.vocabSize api
  · rw [if_pos backend, tolerable_backend backend]
    cases (e.backend.generate api sampleToken (e.promptTokens api prompt) genConfig.maxTokens
      genConfig.temperature genConfig.topP genConfig.topK
      (some fun tokenId user => onToken (e.streamToken api tokenId) user) draws user).tokens with
    | error x => simp
    | ok tokens => simp
  · rw [if_neg backend, tolerable_stub backend, sampleTokens, if_neg backend]
    dsimp only
    cases reportAll (fun tokenId user => onToken (e.streamToken api tokenId) user)
      ((e.tokenizer.encode stubResponse).take genConfig.maxTokens.toNat) user with
    | error x => simp
    | ok user' => simp

/-- **The flag is cleared and every limit is safe** exactly where nothing throws: the callback at no token there
is for it, and no backend with a prompt to work on gets a negative limit. -/
theorem restored_iff (ready : e.ready = true) :
    e.Restored api sampleToken prompt genConfig onToken draws user ↔
      e.Tolerable api sampleToken prompt genConfig onToken draws user := by
  obtain ⟨cleared, returns⟩ := @generate_restored_iff M C L api sampleToken e prompt genConfig draws ready
  rw [sampleTokens_ok_iff] at cleared returns
  constructor
  · intro restored
    exact (generateStream_restored_iff ready).1.1 restored.streaming
  · intro tolerable
    refine ⟨cleared.2 tolerable.limit, (generateStream_restored_iff ready).1.2 tolerable, fun negative => ?_⟩
    exact ⟨returns.2 tolerable.limit, sampleTokens_negative negative tolerable.limit ..⟩

/-- The answer of the small model, one token that the callback takes. -/
theorem restored_iff_hi :
    Restored countLlama (fun l _ _ _ _ => ((l.idxOf 1 : Nat) : Int)) sumEngine (str "hi") { maxTokens := 2 }
      (fun token (user : List Int) => .ok (user ++ [token.id])) 0 [] :=
  (restored_iff rfl).2 ⟨fun _ _ _ => by decide, [2], by decide +kernel⟩

/-- A callback that throws leaves the flag set in stub mode, a negative limit in backend mode. -/
theorem not_restored :
    ¬ Restored sumLlama (fun _ _ _ _ _ => 0) { backend := { config := {} }, ready := true } (str "hi") {}
        (fun _ (_ : Unit) => .error (.runtimeError (str "client gone"))) 0 () ∧
      ¬ Restored countLlama (fun _ _ _ _ _ => 0) sumEngine (str "hi") { maxTokens := -1 }
        (fun _ (_ : Unit) => .ok ()) 0 () := by
  constructor
  · intro restored
    have flag := restored.streaming
    revert flag
    decide +kernel
  · intro restored
    have flag := restored.blocking
    revert flag
    decide +kernel

end Ready
end InferenceEngine
end ModelRuntime
