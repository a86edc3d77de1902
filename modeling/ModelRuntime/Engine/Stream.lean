import ModelRuntime.Engine.Inference

/-!
# Streaming and blocking generation

`generate_stream` reports each token as it is produced, `generate` decodes the whole sequence at the
end. A callback that does not throw leaves the token loop as it is without one (`decodeLoop_reports`),
and both ways of turning tokens into text work token by token (`responseText_flatMap`); the two
together give `generate_stream_generate`.
-/

namespace ModelRuntime
open Cpp

/-- `Token`, what `on_token` is given. -/
structure Token where
  id : Int
  text : Bytes
  probability : CFloat
  isEos : Bool
  deriving DecidableEq

variable {M C L σ : Type} (api : LlamaCpp M C L)

namespace InferenceEngine

def tokenToText (e : InferenceEngine M C) (tokenId : Int) : Bytes :=
  if 0 < e.backend.vocabSize api then e.backend.detokenize api [tokenId] else e.tokenizer.decode [tokenId]

/-- The `Token` that `stream_callback` builds. -/
def streamToken (e : InferenceEngine M C) (tokenId : Int) : Token where
  id := tokenId
  text := e.tokenToText api tokenId
  probability := .finite 1
  isEos := e.backend.isEos api tokenId

/-- The loop over the placeholder response in stub mode. -/
def reportAll (streamCallback : TokenCallback σ) : List Int → σ → Except StdException σ
  | [], user => .ok user
  | tokenId :: tokens, user =>
    match streamCallback tokenId user with
    | .error x => .error x
    | .ok user => reportAll streamCallback tokens user

/-- What `on_token` makes of the caller's state, or the exception; the engine and the number of the
next draw afterwards. -/
def generateStream (sampleToken : Sampler L) (e : InferenceEngine M C) (prompt : Bytes)
    (onToken : Token → σ → Except StdException σ) (genConfig : GenerationConfig) (draws : Nat)
    (user : σ) : Except StdException σ × InferenceEngine M C × Nat :=
  if !e.ready then (.error (.runtimeError (str "Engine not ready")), e, draws)
  else
    let promptTokens := e.promptTokens api prompt
    let streamCallback : TokenCallback σ := fun tokenId user => onToken (e.streamToken api tokenId) user
    if 0 < e.backend.vocabSize api then
      let out := e.backend.generate api sampleToken promptTokens genConfig.maxTokens
        genConfig.temperature genConfig.topP genConfig.topK (some streamCallback) draws user
      match out.tokens with
      | .error x => (.error x, { e with backend := out.backend, generating := true }, out.draws)
      | .ok _ => (.ok out.user, { e with backend := out.backend, generating := false }, out.draws)
    else
      let (tokens, backend, draws) := e.sampleTokens api sampleToken promptTokens genConfig.maxTokens
        genConfig.temperature genConfig.topP genConfig.topK draws
      match tokens with
      | .error x => (.error x, { e with backend, generating := true }, draws)
      | .ok tokens =>
        match reportAll streamCallback tokens user with
        | .error x => (.error x, { e with backend, generating := true }, draws)
        | .ok user => (.ok user, { e with backend, generating := false }, draws)

end InferenceEngine

/-! ## A callback does not change what is generated -/

section Loops

variable {api} {be : LlamaBackend M C} {draw : L → Nat → Int} (report : Int → σ → σ)

/-- The run as it looks to a `generate` without a callback. -/
def GenRun.silent (run : GenRun C σ) : GenRun C Unit where
  ctx := run.ctx
  draws := run.draws
  user := ()
  decodes := run.decodes

theorem GenRun.decode_silent (run : GenRun C σ) (batch : Batch) :
    run.silent.decode api batch = ((run.decode api batch).1, (run.decode api batch).2.silent) := rfl

theorem GenRun.sample_silent (run : GenRun C σ) (i : Int) :
    run.silent.sample api draw i = ((run.sample api draw i).1, (run.sample api draw i).2.silent) := rfl

@[simp] theorem GenRun.sample_user (run : GenRun C σ) (i : Int) :
    (run.sample api draw i).2.user = run.user := rfl

variable (api) in
theorem prefill_silent (batchSize : Nat) (prompt : List Int) :
    ∀ (passes i : Nat) (run : GenRun C σ),
      LlamaBackend.prefill api batchSize prompt passes i run.silent =
          ((LlamaBackend.prefill api batchSize prompt passes i run).1,
            (LlamaBackend.prefill api batchSize prompt passes i run).2.silent) ∧
        (LlamaBackend.prefill api batchSize prompt passes i run).2.user = run.user := by
  intro passes
  induction passes with
  | zero => intro i run; exact ⟨rfl, rfl⟩
  | succ passes ih =>
    intro i run
    by_cases more : i < prompt.length
    · rw [LlamaBackend.prefill_more more, LlamaBackend.prefill_more more, GenRun.decode_silent]
      split
      · exact ⟨rfl, rfl⟩
      · obtain ⟨same, kept⟩ := ih (i + batchSize)
          (run.decode api (promptBatch batchSize prompt i)).2
        exact ⟨same, kept⟩
    · rw [LlamaBackend.prefill_end (by omega), LlamaBackend.prefill_end (by omega)]
      exact ⟨rfl, rfl⟩

variable (api) in
/-- The prefill from a cleared context, with a caller's state and without. -/
theorem prefill_start (batchSize : Nat) (prompt : List Int) (passes i : Nat) (ctx : C) (draws : Nat) (user : σ) :
    ∃ filled run, LlamaBackend.prefill api batchSize prompt passes i ({ ctx, draws, user } : GenRun C σ) =
        (filled, run) ∧
      LlamaBackend.prefill api batchSize prompt passes i ({ ctx, draws, user := () } : GenRun C Unit) =
        (filled, run.silent) ∧ run.user = user := by
  obtain ⟨same, kept⟩ := prefill_silent api batchSize prompt passes i ({ ctx, draws, user } : GenRun C σ)
  exact ⟨_, _, rfl, same, kept⟩

variable (api be draw) in
/-- **The token loop with a callback** obtains what it obtains without one, and calls it once for
each token that it pushes, in that order. -/
theorem decodeLoop_reports (promptLength : Nat) :
    ∀ (left i : Nat) (cur : Int) (generated : List Int) (run : GenRun C σ),
      ∃ new out, LlamaBackend.decodeLoop api be draw (some fun token user => .ok (report token user))
            promptLength left i cur generated run = (.ok (generated ++ new), out) ∧
        LlamaBackend.decodeLoop api be draw none promptLength left i cur generated run.silent =
            (.ok (generated ++ new), out.silent) ∧
        out.user = new.foldl (fun user token => report token user) run.user := by
  intro left
  induction left with
  | zero =>
    intro i cur generated run
    refine ⟨[], run, ?_, ?_, rfl⟩
    · rw [List.append_nil]
      rfl
    · rw [List.append_nil]
      rfl
  | succ left ih =>
    intro i cur generated run
    rw [LlamaBackend.decodeLoop, LlamaBackend.decodeLoop]
    cases eos : be.isEos api cur with
    | true =>
      refine ⟨[], run, ?_, ?_, rfl⟩
      · simp
      · simp
    | false =>
      let called : GenRun C σ := { run with user := report cur run.user }
      have callOk : run.call (some fun token user => .ok (report token user)) cur = .ok called := rfl
      have silentOk : run.silent.call (none : Option (TokenCallback Unit)) cur = .ok called.silent := rfl
      rw [if_neg (by simp), if_neg (by simp), callOk, silentOk]
      dsimp only
      rw [GenRun.decode_silent]
      by_cases fails : (called.decode api (batchOf [cur] (promptLength + i))).1 ≠ 0
      · refine ⟨[cur], (called.decode api (batchOf [cur] (promptLength + i))).2, ?_, ?_, rfl⟩
        · rw [if_pos fails]
        · rw [if_pos fails]
      · rw [if_neg fails, if_neg fails, GenRun.sample_silent]
        obtain ⟨new, out, loud, quiet, user⟩ := ih (i + 1)
          (((called.decode api (batchOf [cur] (promptLength + i))).2).sample api draw 0).1
          (generated ++ [cur])
          (((called.decode api (batchOf [cur] (promptLength + i))).2).sample api draw 0).2
        rw [List.append_assoc] at loud quiet
        exact ⟨cur :: new, out, loud, quiet, user⟩

variable (api be) in
/-- The same of `generate`; it throws only where `reserve` refuses `max_tokens`. -/
theorem LlamaBackend.generate_reports (sampleToken : Sampler L) (prompt : List Int) {maxTokens : Int}
    (bound : 0 ≤ maxTokens) (temperature topP : CFloat) (topK : Int) (draws : Nat) (user : σ) :
    let loud := be.generate api sampleToken prompt maxTokens temperature topP topK
      (some fun token user => .ok (report token user)) draws user
    let quiet := be.generate api sampleToken prompt maxTokens temperature topP topK none draws ()
    ∃ tokens, loud.tokens = .ok tokens ∧ quiet.tokens = .ok tokens ∧
      loud.user = tokens.foldl (fun user token => report token user) user ∧
      loud.backend = quiet.backend ∧ loud.draws = quiet.draws ∧ loud.decodes = quiet.decodes := by
  intro loud quiet
  dsimp only [loud, quiet]
  unfold LlamaBackend.generate
  cases be.ctx with
  | none => exact ⟨[], rfl, rfl, rfl, rfl, rfl, rfl⟩
  | some ctx =>
    dsimp only
    by_cases empty : prompt = []
    · rw [if_pos empty, if_pos empty]
      exact ⟨[], rfl, rfl, rfl, rfl, rfl, rfl⟩
    · rw [if_neg empty, if_neg empty, LlamaBackend.generateOn, LlamaBackend.generateOn,
        if_neg (by omega), if_neg (by omega)]
      obtain ⟨filled, run, loud, quiet, kept⟩ := prefill_start api (toSizeT be.config.nBatch) prompt prompt.length 0
        (api.kvCacheClear ctx) draws user
      dsimp only
      rw [loud, quiet]
      cases filled with
      | false => exact ⟨[], rfl, rfl, kept, rfl, rfl, rfl⟩
      | true =>
        dsimp only [Bool.not_true]
        rw [if_neg (by decide), if_neg (by decide), GenRun.sample_silent]
        obtain ⟨new, out, hl, hq, called⟩ := decodeLoop_reports api be
          (fun logits k => sampleToken logits temperature topP topK k) report prompt.length
          maxTokens.toNat 0 _ [] (run.sample api (fun logits k => sampleToken logits temperature topP topK k) (-1)).2
        dsimp only
        rw [hl, hq]
        refine ⟨new, rfl, rfl, ?_, rfl, rfl, rfl⟩
        rw [called, GenRun.sample_user, kept]

end Loops

/-! ## Text token by token -/

theorem Tokenizer.decode_eq (t : Tokenizer) (tokens : List Int) :
    t.decode tokens = tokens.flatMap t.tokenText := by
  rw [Tokenizer.decode, List.flatMap_eq_foldl]

theorem LlamaBackend.detokenize_eq (be : LlamaBackend M C) (tokens : List Int) :
    be.detokenize api tokens = tokens.flatMap fun token => be.detokenize api [token] := by
  unfold LlamaBackend.detokenize
  cases be.model with
  | none => simp
  | some model => simp

namespace InferenceEngine

variable {api} (e : InferenceEngine M C)

/-- **Decoding** a whole sequence is decoding its tokens one by one. -/
theorem responseText_flatMap (tokens : List Int) :
    e.responseText api tokens = tokens.flatMap (e.tokenToText api) := by
  unfold responseText tokenToText
  split
  · exact LlamaBackend.detokenize_eq api e.backend tokens
  · simp only [Tokenizer.decode_eq, List.flatMap_singleton]

/-! ## The two agree -/

theorem reportAll_ok (report : Int → σ → σ) (tokens : List Int) (user : σ) :
    reportAll (fun token user => .ok (report token user)) tokens user =
      .ok (tokens.foldl (fun user token => report token user) user) := by
  induction tokens generalizing user with
  | nil => rfl
  | cons token tokens ih => exact ih (report token user)

/-- `on_token` with a record of its calls. -/
def recorded (onToken : Token → σ → σ) (token : Token) (user : σ × List Token) :
    Except StdException (σ × List Token) :=
  .ok (onToken token user.1, user.2 ++ [token])

/-- What the calls have come to after `tokens`. -/
theorem foldl_recorded (onToken : Token → σ → σ) (tokens : List Int) (user : σ) (calls : List Token) :
    tokens.foldl (fun (user : σ × List Token) token =>
        (onToken (e.streamToken api token) user.1, user.2 ++ [e.streamToken api token])) (user, calls) =
      ((tokens.map (e.streamToken api)).foldl (fun user token => onToken token user) user,
        calls ++ tokens.map (e.streamToken api)) := by
  induction tokens generalizing user calls with
  | nil => simp
  | cons token tokens ih =>
    rw [List.foldl_cons, ih, List.map_cons, List.foldl_cons, List.append_assoc]
    rfl

/-- The texts of the calls for `tokens` are the text of `tokens`. -/
theorem calls_text (tokens : List Int) :
    (tokens.map (e.streamToken api)).flatMap Token.text = e.responseText api tokens := by
  rw [responseText_flatMap, List.flatMap_map]
  rfl

/-- Reading text out of an engine depends on its model and its tokenizer only. -/
theorem responseText_model (e' : InferenceEngine M C) (model : e'.backend.model = e.backend.model)
    (tokenizer : e'.tokenizer = e.tokenizer) (tokens : List Int) :
    e'.responseText api tokens = e.responseText api tokens := by
  unfold responseText LlamaBackend.vocabSize LlamaBackend.detokenize
  rw [model, tokenizer]

end InferenceEngine

/-- A generation changes the context only. -/
theorem LlamaBackend.generate_backend (be : LlamaBackend M C) (sampleToken : Sampler L)
    (prompt : List Int) (maxTokens : Int) (temperature topP : CFloat) (topK : Int)
    (onToken : Option (TokenCallback σ)) (draws : Nat) (user : σ) :
    ∃ ctx, (be.generate api sampleToken prompt maxTokens temperature topP topK onToken draws
      user).backend = { be with ctx } := by
  unfold LlamaBackend.generate
  split
  · exact ⟨be.ctx, rfl⟩
  · split
    · exact ⟨be.ctx, rfl⟩
    · exact ⟨_, rfl⟩

theorem LlamaBackend.generate_model (be : LlamaBackend M C) (sampleToken : Sampler L)
    (prompt : List Int) (maxTokens : Int) (temperature topP : CFloat) (topK : Int)
    (onToken : Option (TokenCallback σ)) (draws : Nat) (user : σ) :
    (be.generate api sampleToken prompt maxTokens temperature topP topK onToken draws
      user).backend.model = be.model := by
  obtain ⟨ctx, kept⟩ := LlamaBackend.generate_backend api be sampleToken prompt maxTokens temperature topP
    topK onToken draws user
  rw [kept]

namespace InferenceEngine

variable {api}

theorem sampleTokens_backend (e : InferenceEngine M C) (sampleToken : Sampler L) (prompt : List Int)
    (maxTokens : Int) (temperature topP : CFloat) (topK : Int) (draws : Nat) :
    ∃ ctx, (e.sampleTokens api sampleToken prompt maxTokens temperature topP topK draws).2.1 =
      { e.backend with ctx } := by
  rw [sampleTokens]
  split
  · exact LlamaBackend.generate_backend ..
  · exact ⟨e.backend.ctx, rfl⟩

section Ready

variable {e : InferenceEngine M C} {sampleToken : Sampler L} {prompt : Bytes}
  {genConfig : GenerationConfig} {draws draws' : Nat} {tokens : List Int} {backend : LlamaBackend M C}

theorem generate_ready (ready : e.ready = true)
    (sampled : e.sampleTokens api sampleToken (e.promptTokens api prompt) genConfig.maxTokens
      genConfig.temperature genConfig.topP genConfig.topK draws = (.ok tokens, backend, draws'))
    (model : backend.model = e.backend.model) :
    e.generate api sampleToken prompt genConfig draws =
      (.ok (e.responseText api tokens), { e with backend, generating := false }, draws') := by
  rw [generate, if_neg (by simp [ready]), sampled]
  dsimp only
  rw [responseText_model e { e with backend, generating := false } model rfl]

variable (sampleToken prompt draws) in
/-- What `generate_stream` does on an engine that is ready, in both modes. -/
theorem generateStream_ready (ready : e.ready = true) (bound : 0 ≤ genConfig.maxTokens)
    (onToken : Token → σ → σ) (user : σ) :
    ∃ tokens backend draws', e.sampleTokens api sampleToken (e.promptTokens api prompt)
          genConfig.maxTokens genConfig.temperature genConfig.topP genConfig.topK draws =
          (.ok tokens, backend, draws') ∧
      backend.model = e.backend.model ∧
      e.generateStream api sampleToken prompt (recorded onToken) genConfig draws (user, []) =
        (.ok ((tokens.map (e.streamToken api)).foldl (fun user token => onToken token user) user,
          tokens.map (e.streamToken api)), { e with backend, generating := false }, draws') := by
  unfold sampleTokens generateStream
  rw [if_neg (show ¬ (!e.ready) = true by simp [ready])]
  by_cases hb : 0 < e.backend.vocabSize api
  · obtain ⟨tokens, loud, quiet, called, backend, drawn, _⟩ := e.backend.generate_reports api
      (fun tokenId (user : σ × List Token) =>
        (onToken (e.streamToken api tokenId) user.1, user.2 ++ [e.streamToken api tokenId]))
      sampleToken (e.promptTokens api prompt) bound genConfig.temperature genConfig.topP genConfig.topK
      draws (user, [])
    rw [foldl_recorded, List.nil_append] at called
    let out := e.backend.generate api sampleToken (e.promptTokens api prompt) genConfig.maxTokens
      genConfig.temperature genConfig.topP genConfig.topK none draws ()
    refine ⟨tokens, out.backend, out.draws, ?_, LlamaBackend.generate_model .., ?_⟩
    · rw [if_pos hb]
      dsimp only [out]
      rw [quiet]
    · rw [if_pos hb]
      dsimp only [recorded]
      rw [loud, called, backend, drawn]
  · refine ⟨(e.tokenizer.encode stubResponse).take genConfig.maxTokens.toNat, e.backend, draws, ?_, rfl,
      ?_⟩
    · rw [if_neg hb]
    · rw [if_neg hb, sampleTokens, if_neg hb]
      dsimp only [recorded]
      rw [reportAll_ok, foldl_recorded, List.nil_append]

end Ready

/-- **Streaming and blocking generation agree**: on an engine that is ready both obtain the same
tokens, `on_token` is called once for each of them in order, and the texts it is given make up the
string `generate` returns; the engine and the draws are left the same. -/
theorem generate_stream_generate (sampleToken : Sampler L) (e : InferenceEngine M C) (prompt : Bytes)
    {genConfig : GenerationConfig} (bound : 0 ≤ genConfig.maxTokens) (onToken : Token → σ → σ)
    (draws : Nat) (user : σ) :
    let blocking := e.generate api sampleToken prompt genConfig draws
    let streaming := e.generateStream api sampleToken prompt (recorded onToken) genConfig draws (user, [])
    streaming.2 = blocking.2 ∧
      (e.ready = false → blocking.1 = .error (.runtimeError (str "Engine not ready")) ∧
        streaming.1 = .error (.runtimeError (str "Engine not ready"))) ∧
      (e.ready = true → ∃ (tokens : List Int) (calls : List Token),
        (e.sampleTokens api sampleToken (e.promptTokens api prompt) genConfig.maxTokens
          genConfig.temperature genConfig.topP genConfig.topK draws).1 = .ok tokens ∧
        blocking.1 = .ok (e.responseText api tokens) ∧
        streaming.1 = .ok (calls.foldl (fun user token => onToken token user) user, calls) ∧
        calls.flatMap Token.text = e.responseText api tokens ∧ calls.length = tokens.length) := by
  intro blocking streaming
  dsimp only [blocking, streaming]
  cases ready : e.ready with
  | false =>
    rw [generate, generateStream, ready]
    exact ⟨rfl, fun _ => ⟨rfl, rfl⟩, fun h => absurd h (by decide)⟩
  | true =>
    obtain ⟨tokens, backend, draws', sampled, model, streamed⟩ :=
      generateStream_ready sampleToken prompt draws ready bound onToken user
    rw [streamed, generate_ready ready sampled model, sampled]
    exact ⟨rfl, fun h => absurd h (by decide), fun _ => ⟨tokens, tokens.map (e.streamToken api), rfl,
      rfl, rfl, e.calls_text tokens, List.length_map ..⟩⟩

theorem generate_stream_generate_stub :
    let e : InferenceEngine Unit (List (Int × Int)) := { backend := { config := {} }, ready := true }
    let blocking := e.generate sumLlama (fun _ _ _ _ _ => 0) (str "hi") { maxTokens := 2 } 0
    let streaming := e.generateStream sumLlama (fun _ _ _ _ _ => 0) (str "hi")
      (recorded fun token (user : Bytes) => user ++ token.text) { maxTokens := 2 } 0 ([], [])
    streaming.2 = blocking.2 ∧
      (e.ready = false → blocking.1 = .error (.runtimeError (str "Engine not ready")) ∧
        streaming.1 = .error (.runtimeError (str "Engine not ready"))) ∧
      (e.ready = true → ∃ (tokens : List Int) (calls : List Token),
        (e.sampleTokens sumLlama (fun _ _ _ _ _ => 0) (e.promptTokens sumLlama (str "hi")) 2
          (.finite 0.7) (.finite 0.9) 50 0).1 = .ok tokens ∧
        blocking.1 = .ok (e.responseText sumLlama tokens) ∧
        streaming.1 = .ok (calls.foldl (fun user token => user ++ token.text) [], calls) ∧
        calls.flatMap Token.text = e.responseText sumLlama tokens ∧ calls.length = tokens.length) :=
  generate_stream_generate (fun _ _ _ _ _ => 0) _ (str "hi") (by decide)
    (fun token user => user ++ token.text) 0 []

end InferenceEngine
end ModelRuntime
