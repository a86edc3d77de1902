import ModelRuntime.Backend.Llama

/-!
# `LlamaBackend`

`tokenize`, `detokenize`, `is_eos` and `generate`. The user callback of `generate` acts on a state of its own and
may throw; the sampler is a parameter that also sees the number of the draw. Beside the tokens the
model records the `llama_decode` calls made, each batch with its return code.
-/

namespace ModelRuntime
open Cpp

/-- `model` and `ctx` are the objects behind `model_` and `ctx_`, `none` for the null pointers. -/
structure LlamaBackend (M C : Type) where
  config : EngineConfig
  model : Option M := none
  ctx : Option C := none
  modelLoaded : Bool := false
  seed : Int := -1
  promptTokensProcessed : Int := 0
  tokensGenerated : Int := 0

/-- `sample_token(logits, temperature, top_p, top_k)`, at the given draw. -/
abbrev Sampler (L : Type) := L → CFloat → CFloat → Int → Nat → Int

/-- `on_token`: what it makes of the caller's state, or the exception it throws. -/
abbrev TokenCallback (σ : Type) := Int → σ → Except StdException σ

/-- What a run of `generate` has changed so far. -/
structure GenRun (C σ : Type) where
  ctx : C
  draws : Nat
  user : σ
  decodes : List (Batch × Int) := []

/-- The outcome of `generate`. -/
structure Generated (M C σ : Type) where
  tokens : Except StdException (List Int)
  backend : LlamaBackend M C
  draws : Nat
  user : σ
  decodes : List (Batch × Int) := []

/-- The batch of `tokens` from position `start` on, logits wanted for the last entry. -/
def batchOf (tokens : List Int) (start : Nat) : Batch :=
  let entries := (tokens.zipIdx start).map fun (token, pos) => ({ token, pos } : BatchEntry)
  entries.modify (entries.length - 1) fun e => { e with logits := true }

variable {M C L σ : Type} (api : LlamaCpp M C L)

/-- `llama_decode(ctx_, batch)`. -/
def GenRun.decode (run : GenRun C σ) (batch : Batch) : Int × GenRun C σ :=
  let (ret, ctx) := api.decode run.ctx batch
  (ret, { run with ctx, decodes := run.decodes ++ [(batch, ret)] })

section

variable {api} {run : GenRun C σ} (batch : Batch)

@[simp] theorem GenRun.decode_draws : (run.decode api batch).2.draws = run.draws := rfl
@[simp] theorem GenRun.decode_user : (run.decode api batch).2.user = run.user := rfl
@[simp] theorem GenRun.decode_decodes :
    (run.decode api batch).2.decodes = run.decodes ++ [(batch, (run.decode api batch).1)] := rfl

end

/-- `llama_get_logits_ith(ctx_, i)` and the draw made from it. -/
def GenRun.sample (draw : L → Nat → Int) (run : GenRun C σ) (i : Int) : Int × GenRun C σ :=
  (draw (api.getLogitsIth run.ctx i) run.draws, { run with draws := run.draws + 1 })

/-- `if (on_token) on_token(token)`. -/
def GenRun.call (onToken : Option (TokenCallback σ)) (run : GenRun C σ) (token : Int) :
    Except StdException (GenRun C σ) :=
  match onToken with
  | none => .ok run
  | some f => (f token run.user).map fun user => { run with user }

/-- A callback submits nothing. -/
theorem GenRun.call_decodes {onToken : Option (TokenCallback σ)} {run after : GenRun C σ} {token : Int}
    (called : run.call onToken token = .ok after) : after.decodes = run.decodes := by
  cases onToken with
  | none =>
    cases called
    rfl
  | some f =>
    change (f token run.user).map (fun user => { run with user }) = .ok after at called
    cases answer : f token run.user with
    | error x =>
      rw [answer] at called
      cases called
    | ok user =>
      rw [answer] at called
      cases called
      rfl

/-- The prompt batch that starts at `i`. -/
def promptBatch (batchSize : Nat) (prompt : List Int) (i : Nat) : Batch :=
  batchOf ((prompt.drop i).take (min (i + batchSize) prompt.length - i)) i

namespace LlamaBackend

/-- `llama_tokenize` twice: for the count, then into a zeroed buffer of that size. -/
def tokenize (be : LlamaBackend M C) (text : Bytes) (addBos : Bool) : List Int :=
  match be.model with
  | none => []
  | some model =>
    if !be.modelLoaded then []
    else
      let nTokens := (api.tokenize model text (toInt text.length) 0 addBos true).1
      if nTokens < 0 then []
      else
        let written := (api.tokenize model text (toInt text.length) nTokens addBos true).2
        written ++ List.replicate (nTokens.toNat - written.length) 0

/-- The text of a token, as far as the 256-byte buffer of `llama_token_to_piece` holds it. -/
def piece (model : M) (token : Int) : Bytes :=
  let (n, buf) := api.tokenToPiece model token 256 0 true
  if 0 < n then buf.take n.toNat else []

def detokenize (be : LlamaBackend M C) (tokens : List Int) : Bytes :=
  match be.model with
  | none => []
  | some model => tokens.flatMap (piece api model)

def isEos (be : LlamaBackend M C) (token : Int) : Bool :=
  match be.model with
  | none => false
  | some model => api.tokenIsEog model token

def vocabSize (be : LlamaBackend M C) : Int :=
  match be.model with
  | none => 0
  | some model => api.nVocab model

/-- The prefill loop from prompt index `i`; `false` where a `llama_decode` failed. The loop makes at
most `prompt.length` passes when `batchSize` is not zero. -/
def prefill (batchSize : Nat) (prompt : List Int) :
    (passes i : Nat) → GenRun C σ → Bool × GenRun C σ
  | 0, _, run => (true, run)
  | passes + 1, i, run =>
    if i < prompt.length then
      let (ret, run) := run.decode api (promptBatch batchSize prompt i)
      if ret ≠ 0 then (false, run) else prefill batchSize prompt passes (i + batchSize) run
    else (true, run)

section

variable {api} {run : GenRun C σ} {batchSize passes i : Nat} {prompt : List Int}

theorem prefill_end (all : prompt.length ≤ i) :
    prefill api batchSize prompt passes i run = (true, run) := by
  cases passes with
  | zero => rfl
  | succ passes => rw [prefill, if_neg (by omega)]

theorem prefill_more (more : i < prompt.length) :
    prefill api batchSize prompt (passes + 1) i run =
      if (run.decode api (promptBatch batchSize prompt i)).1 ≠ 0 then
        (false, (run.decode api (promptBatch batchSize prompt i)).2)
      else prefill api batchSize prompt passes (i + batchSize)
        (run.decode api (promptBatch batchSize prompt i)).2 := by
  rw [prefill, if_pos more]

theorem prefill_draws (passes i : Nat) (run : GenRun C σ) :
    (prefill api batchSize prompt passes i run).2.draws = run.draws := by
  induction passes generalizing i run with
  | zero => rfl
  | succ passes ih =>
    by_cases more : i < prompt.length
    · rw [prefill_more more]
      split
      · rfl
      · rw [ih, GenRun.decode_draws]
    · rw [prefill_end (by omega)]

/-- The prefill looks at nothing but the context. -/
theorem prefill_ctx {τ : Type} (passes i : Nat) {run : GenRun C σ} {run' : GenRun C τ} (same : run.ctx = run'.ctx) :
    (prefill api batchSize prompt passes i run).1 = (prefill api batchSize prompt passes i run').1 ∧
      (prefill api batchSize prompt passes i run).2.ctx = (prefill api batchSize prompt passes i run').2.ctx := by
  induction passes generalizing i run run' with
  | zero => exact ⟨rfl, same⟩
  | succ passes ih =>
    by_cases more : i < prompt.length
    · have code : (run.decode api (promptBatch batchSize prompt i)).1 =
          (run'.decode api (promptBatch batchSize prompt i)).1 := by rw [GenRun.decode, GenRun.decode, same]
      have next : (run.decode api (promptBatch batchSize prompt i)).2.ctx =
          (run'.decode api (promptBatch batchSize prompt i)).2.ctx := by
        rw [GenRun.decode, GenRun.decode, same]
      rw [prefill_more more, prefill_more more, ← code]
      split
      · exact ⟨rfl, next⟩
      · exact ih (i + batchSize) next
    · rw [prefill_end (by omega), prefill_end (by omega)]
      exact ⟨rfl, same⟩

end

/-- The token loop with `left` passes left at index `i`, `cur` the token sampled last. -/
def decodeLoop (be : LlamaBackend M C) (draw : L → Nat → Int) (onToken : Option (TokenCallback σ))
    (promptLength : Nat) : (left i : Nat) → (cur : Int) → (generated : List Int) → GenRun C σ →
    Except StdException (List Int) × GenRun C σ
  | 0, _, _, generated, run => (.ok generated, run)
  | left + 1, i, cur, generated, run =>
    if be.isEos api cur then (.ok generated, run)
    else
      match run.call onToken cur with
      | .error e => (.error e, run)
      | .ok run =>
        let (ret, run) := run.decode api (batchOf [cur] (promptLength + i))
        if ret ≠ 0 then (.ok (generated ++ [cur]), run)
        else
          let (next, run) := run.sample api draw 0
          decodeLoop be draw onToken promptLength left (i + 1) next (generated ++ [cur]) run

/-- `generate` on a live context. `reserve` refuses a negative `max_tokens`, which it takes for a
`size_t`. -/
def generateOn (be : LlamaBackend M C) (draw : L → Nat → Int) (onToken : Option (TokenCallback σ))
    (prompt : List Int) (maxTokens : Int) (run : GenRun C σ) :
    Except StdException (List Int) × GenRun C σ :=
  if maxTokens < 0 then (.error (.lengthError (str "vector::reserve")), run)
  else
    let run := { run with ctx := api.kvCacheClear run.ctx }
    let (filled, run) := prefill api (toSizeT be.config.nBatch) prompt prompt.length 0 run
    if !filled then (.ok [], run)
    else
      let (cur, run) := run.sample api draw (-1)
      decodeLoop api be draw onToken prompt.length maxTokens.toNat 0 cur [] run

def generate (sampleToken : Sampler L) (be : LlamaBackend M C) (prompt : List Int) (maxTokens : Int)
    (temperature topP : CFloat) (topK : Int) (onToken : Option (TokenCallback σ)) (draws : Nat)
    (user : σ) : Generated M C σ :=
  match be.ctx with
  | none => { tokens := .ok [], backend := be, draws, user }
  | some ctx =>
    if prompt = [] then { tokens := .ok [], backend := be, draws, user }
    else
      let draw := fun logits k => sampleToken logits temperature topP topK k
      let (tokens, run) := generateOn api be draw onToken prompt maxTokens { ctx, draws, user }
      { tokens, backend := { be with ctx := some run.ctx }, draws := run.draws, user := run.user,
        decodes := run.decodes }

end LlamaBackend
end ModelRuntime
