import ModelRuntime.Backend.Sampling
import ModelRuntime.Engine.Stream
import ModelRuntime.Lib.Prog

/-!
# The engine call by call

`generate` and `generate_stream` as programs whose actions are the llama.cpp calls they make, the reads
and writes of the variables they share with other threads, and the calls of `on_token`. The pointers
`model_` and `ctx_` are read anew by every action. `generate_run` says that a program left alone does
what `InferenceEngine.generate` does.
-/

namespace ModelRuntime
open Cpp Lib

/-- A pointer, with what the object behind it holds; of a freed object, what it held last. -/
inductive Ptr (α : Type) where
  | null
  | live (a : α)
  | freed (a : α)

namespace Ptr

variable {α : Type}

def isNull : Ptr α → Bool
  | null => true
  | live _ | freed _ => false

def isFreed : Ptr α → Bool
  | freed _ => true
  | null | live _ => false

def object? : Ptr α → Option α
  | null => none
  | live a | freed a => some a

def modify (f : α → α) : Ptr α → Ptr α
  | null => null
  | live a => live (f a)
  | freed a => freed (f a)

/-- The object is freed; the pointer still points there. -/
def free : Ptr α → Ptr α
  | null => null
  | live a | freed a => freed a

def ofOption : Option α → Ptr α
  | none => null
  | some a => live a

theorem modify_isFreed (f : α → α) (p : Ptr α) : (p.modify f).isFreed = p.isFreed := by
  cases p <;> rfl

end Ptr

/-- What the threads share: the flags of server and engine, the pointers of the backend, and the number
of the next draw. -/
structure Shared (M C : Type) where
  serverRunning : Bool := true
  ready : Bool := true
  running : Bool := true
  generating : Bool := false
  modelLoaded : Bool := true
  model : Ptr M
  ctx : Ptr C
  draws : Nat := 0

/-- What the threads see when a generation has come to `run`. -/
def Shared.at {M C σ : Type} (s : Shared M C) (run : GenRun C σ) : Shared M C :=
  { s with ctx := .live run.ctx, draws := run.draws }

/-- What an action is: a read or write of a shared variable, a llama.cpp call on `model_`, one on
`ctx_`, the sampling from the logits buffer, a call of `on_token`, or one of the two frees. -/
inductive Call where
  | own
  | model
  | clear
  | decode (batch : Batch)
  | logits (i : Int)
  | sample
  | callback (tokenId : Int)
  | freeCtx
  | freeModel
  deriving DecidableEq

abbrev Calls (M C A : Type) := Prog Call (Shared M C) A

namespace Calls

variable {M C L A : Type}

def get (f : Shared M C → A) : Calls M C A := .act .own id fun s => .done (f s)

def set (f : Shared M C → Shared M C) : Calls M C Unit := .act .own f fun _ => .done ()

/-- A llama.cpp call on `model_`. -/
def onModel (f : M → A) : Calls M C A :=
  .act .model id fun s => match s.model.object? with
    | none => .stuck
    | some model => .done (f model)

/-- A llama.cpp call on `ctx_`, or the sampling from its buffer. -/
def onCtx (call : Call) (f : C → C) (g : C → A) : Calls M C A :=
  .act call (fun s => { s with ctx := s.ctx.modify f }) fun s => match s.ctx.object? with
    | none => .stuck
    | some ctx => .done (g ctx)

variable (api : LlamaCpp M C L) (sampleToken : Sampler L)

/-! ## `LlamaBackend` -/

def vocabSize : Calls M C Int := do
  let null ← get (·.model.isNull)
  if null then pure 0 else onModel api.nVocab

def isEos (token : Int) : Calls M C Bool := do
  let null ← get (·.model.isNull)
  if null then pure false else onModel fun model => api.tokenIsEog model token

def tokenize (text : Bytes) (addBos : Bool) : Calls M C (List Int) := do
  let null ← get (·.model.isNull)
  if null then pure []
  else
    let loaded ← get (·.modelLoaded)
    if !loaded then pure []
    else
      let nTokens ← onModel fun model => (api.tokenize model text (toInt text.length) 0 addBos true).1
      if nTokens < 0 then pure []
      else
        let written ← onModel fun model =>
          (api.tokenize model text (toInt text.length) nTokens addBos true).2
        pure (written ++ List.replicate (nTokens.toNat - written.length) 0)

/-- The loop over `llama_token_to_piece`. -/
def pieces : List Int → Calls M C Bytes
  | [] => pure []
  | token :: tokens => do
    let piece ← onModel fun model => LlamaBackend.piece api model token
    let rest ← pieces tokens
    pure (piece ++ rest)

def detokenize (tokens : List Int) : Calls M C Bytes := do
  let null ← get (·.model.isNull)
  if null then pure [] else pieces api tokens

def decode (batch : Batch) : Calls M C Int :=
  onCtx (.decode batch) (fun ctx => (api.decode ctx batch).2) fun ctx => (api.decode ctx batch).1

/-- The greedy sampler asks for the vocabulary's size once more. -/
def sampleSize (temperature : CFloat) : Calls M C Int := do
  let nVocab ← onModel api.nVocab
  if temperature.le (.finite 0) || temperature.lt (.finite coldBelow) then onModel api.nVocab else pure nVocab

/-- `sample_token` on the buffer `llama_get_logits_ith(ctx_, i)` gave. -/
def sample (temperature topP : CFloat) (topK : Int) (i : Int) : Calls M C Int := do
  let _ ← sampleSize api temperature
  .act .sample (fun s => { s with draws := s.draws + 1 }) fun s => match s.ctx.object? with
    | none => .stuck
    | some ctx => .done (sampleToken (api.getLogitsIth ctx i) temperature topP topK s.draws)

def prefill (batchSize : Nat) (prompt : List Int) : (passes i : Nat) → Calls M C Bool
  | 0, _ => pure true
  | passes + 1, i =>
    if i < prompt.length then do
      let ret ← decode api (promptBatch batchSize prompt i)
      if ret ≠ 0 then pure false else prefill batchSize prompt passes (i + batchSize)
    else pure true

def decodeLoop (temperature topP : CFloat) (topK : Int) (onToken : Int → Calls M C Unit)
    (promptLength : Nat) : (left i : Nat) → (cur : Int) → (generated : List Int) → Calls M C (List Int)
  | 0, _, _, generated => pure generated
  | left + 1, i, cur, generated => do
    let eos ← isEos api cur
    if eos then pure generated
    else
      onToken cur
      let ret ← decode api (batchOf [cur] (promptLength + i))
      if ret ≠ 0 then pure (generated ++ [cur])
      else
        onCtx (.logits 0) id fun _ => ()
        let next ← sample api sampleToken temperature topP topK 0
        decodeLoop temperature topP topK onToken promptLength left (i + 1) next (generated ++ [cur])

/-- `LlamaBackend::generate` from its first call on. -/
def generateOn (batchSize : Nat) (prompt : List Int) (genConfig : GenerationConfig)
    (onToken : Int → Calls M C Unit) : Calls M C (List Int) := do
  onCtx .clear api.kvCacheClear fun _ => ()
  let filled ← prefill api batchSize prompt prompt.length 0
  if !filled then pure []
  else
    onCtx (.logits (-1)) id fun _ => ()
    let _ ← onModel api.nVocab
    let cur ← sample api sampleToken genConfig.temperature genConfig.topP genConfig.topK (-1)
    decodeLoop api sampleToken genConfig.temperature genConfig.topP genConfig.topK onToken prompt.length
      genConfig.maxTokens.toNat 0 cur []

def backendGenerate (config : EngineConfig) (prompt : List Int) (genConfig : GenerationConfig)
    (onToken : Int → Calls M C Unit) : Calls M C (Except StdException (List Int)) := do
  let null ← get (·.ctx.isNull)
  if null then pure (.ok [])
  else if prompt = [] then pure (.ok [])
  else if genConfig.maxTokens < 0 then pure (.error (.lengthError (str "vector::reserve")))
  else
    let tokens ← generateOn api sampleToken (toSizeT config.nBatch) prompt genConfig onToken
    pure (.ok tokens)

/-- `LlamaBackend::reset`. -/
def reset : Calls M C Unit := do
  let null ← get (·.ctx.isNull)
  if null then pure () else onCtx .clear api.kvCacheClear fun _ => ()

/-! ## `InferenceEngine` -/

section Engine

variable (config : EngineConfig) (tokenizer : Tokenizer)

def promptTokens (prompt : Bytes) : Calls M C (List Int) := do
  let size ← vocabSize api
  if 0 < size then tokenize api prompt true else pure (tokenizer.encode prompt)

/-- What stub mode answers. -/
def stubTokens (maxTokens : Int) : Calls M C (List Int) := do
  let size ← vocabSize api
  if 0 < size then
    let tokens ← tokenize api InferenceEngine.stubResponse false
    pure (tokens.take maxTokens.toNat)
  else pure ((tokenizer.encode InferenceEngine.stubResponse).take maxTokens.toNat)

def sampleTokens (prompt : List Int) (genConfig : GenerationConfig) :
    Calls M C (Except StdException (List Int)) := do
  let size ← vocabSize api
  if 0 < size then backendGenerate api sampleToken config prompt genConfig fun _ => pure ()
  else
    let tokens ← stubTokens api tokenizer genConfig.maxTokens
    pure (.ok tokens)

def responseText (tokens : List Int) : Calls M C Bytes := do
  let size ← vocabSize api
  if 0 < size then detokenize api tokens else pure (tokenizer.decode tokens)

def generate (prompt : Bytes) (genConfig : GenerationConfig) : Calls M C (Except StdException Bytes) := do
  let ready ← get (·.ready)
  if !ready then pure (.error (.runtimeError (str "Engine not ready")))
  else
    set fun s => { s with generating := true }
    let promptTokens ← promptTokens api tokenizer prompt
    let tokens ← sampleTokens api sampleToken config tokenizer promptTokens genConfig
    match tokens with
    | .error e => pure (.error e)
    | .ok tokens =>
      set fun s => { s with generating := false }
      let text ← responseText api tokenizer tokens
      pure (.ok text)

/-- `stream_callback`: the text of the token, whether it ends the generation, and `on_token`. -/
def streamCallback (tokenId : Int) : Calls M C Unit := do
  let _ ← responseText api tokenizer [tokenId]
  let _ ← isEos api tokenId
  .act (.callback tokenId) id fun _ => .done ()

def reportAll : List Int → Calls M C Unit
  | [] => pure ()
  | tokenId :: tokens => do
    streamCallback api tokenizer tokenId
    reportAll tokens

/-- The tokens `generate_stream` comes to, each of them reported. -/
def streamTokens (prompt : List Int) (genConfig : GenerationConfig) :
    Calls M C (Except StdException (List Int)) := do
  let size ← vocabSize api
  if 0 < size then
    backendGenerate api sampleToken config prompt genConfig (streamCallback api tokenizer)
  else
    let tokens ← sampleTokens api sampleToken config tokenizer prompt genConfig
    match tokens with
    | .error e => pure (.error e)
    | .ok tokens =>
      reportAll api tokenizer tokens
      pure (.ok tokens)

def generateStream (prompt : Bytes) (genConfig : GenerationConfig) : Calls M C (Except StdException Unit) := do
  let ready ← get (·.ready)
  if !ready then pure (.error (.runtimeError (str "Engine not ready")))
  else
    set fun s => { s with generating := true }
    let promptTokens ← promptTokens api tokenizer prompt
    let tokens ← streamTokens api sampleToken config tokenizer promptTokens genConfig
    match tokens with
    | .error e => pure (.error e)
    | .ok _ =>
      set fun s => { s with generating := false }
      pure (.ok ())

def cancelGeneration : Calls M C Unit := do
  set fun s => { s with generating := false }
  reset api

end Engine

/-! ## A program left alone -/

section Alone

variable {api sampleToken} {be : LlamaBackend M C} {s : Shared M C} {model : M}

theorem run_get (f : Shared M C → A) : (get f).run s = (some (f s), s) := rfl

theorem run_set (f : Shared M C → Shared M C) : (set f).run s = (some (), f s) := rfl

theorem run_onModel (here : s.model = .live model) (f : M → A) :
    (onModel f).run s = (some (f model), s) := by
  rw [onModel, Prog.run, here]
  rfl

theorem run_vocabSize (here : s.model = .ofOption be.model) :
    (vocabSize api).run s = (some (be.vocabSize api), s) := by
  rw [vocabSize, Prog.run_bind_some (run_get _), here, LlamaBackend.vocabSize]
  cases e : be.model with
  | none => rfl
  | some model => exact run_onModel (here.trans (by rw [e]; rfl)) _

theorem run_isEos (here : s.model = .ofOption be.model) (token : Int) :
    (isEos api token).run s = (some (be.isEos api token), s) := by
  rw [isEos, Prog.run_bind_some (run_get _), here, LlamaBackend.isEos]
  cases e : be.model with
  | none => rfl
  | some model => exact run_onModel (here.trans (by rw [e]; rfl)) _

theorem run_tokenize (here : s.model = .ofOption be.model) (loaded : s.modelLoaded = be.modelLoaded)
    (text : Bytes) (addBos : Bool) :
    (tokenize api text addBos).run s = (some (be.tokenize api text addBos), s) := by
  rw [tokenize, Prog.run_bind_some (run_get _), here, LlamaBackend.tokenize]
  cases e : be.model with
  | none => rfl
  | some model =>
    have live : s.model = .live model := here.trans (by rw [e]; rfl)
    simp only [Ptr.ofOption, Ptr.isNull, Bool.false_eq_true, if_false]
    rw [Prog.run_bind_some (run_get _), loaded]
    split
    · rfl
    · rw [Prog.run_bind_some (run_onModel live _)]
      split
      · rfl
      · rw [Prog.run_bind_some (run_onModel live _)]
        rfl

theorem run_pieces (here : s.model = .live model) (tokens : List Int) :
    (pieces api tokens).run s = (some (tokens.flatMap (LlamaBackend.piece api model)), s) := by
  induction tokens with
  | nil => rfl
  | cons token tokens ih =>
    rw [pieces, Prog.run_bind_some (run_onModel here _), Prog.run_bind_some ih]
    rfl

theorem run_detokenize (here : s.model = .ofOption be.model) (tokens : List Int) :
    (detokenize api tokens).run s = (some (be.detokenize api tokens), s) := by
  rw [detokenize, Prog.run_bind_some (run_get _), here, LlamaBackend.detokenize]
  cases e : be.model with
  | none => rfl
  | some model => exact run_pieces (here.trans (by rw [e]; rfl)) tokens

section Run

variable {σ : Type} (run : GenRun C σ)

theorem run_decode (batch : Batch) :
    (decode api batch).run (s.at run) = (some (run.decode api batch).1, s.at (run.decode api batch).2) :=
  rfl

theorem run_sample (here : s.model = .live model) (temperature topP : CFloat) (topK i : Int) :
    let draw := fun logits k => sampleToken logits temperature topP topK k
    (sample api sampleToken temperature topP topK i).run (s.at run) =
      (some (run.sample api draw i).1, s.at (run.sample api draw i).2) := by
  intro draw
  have size : (sampleSize api temperature).run (s.at run) = (some (api.nVocab model), s.at run) := by
    have live : (s.at run).model = .live model := here
    rw [sampleSize, Prog.run_bind_some (run_onModel live _)]
    split
    · exact run_onModel live _
    · rfl
  rw [sample, Prog.run_bind_some size]
  rfl

theorem run_prefill (batchSize : Nat) (prompt : List Int) (passes : Nat) : ∀ (i : Nat) (run : GenRun C σ),
    (prefill api batchSize prompt passes i).run (s.at run) =
      (some (LlamaBackend.prefill api batchSize prompt passes i run).1,
        s.at (LlamaBackend.prefill api batchSize prompt passes i run).2) := by
  induction passes with
  | zero => intro i run; rfl
  | succ passes ih =>
    intro i run
    rw [prefill, LlamaBackend.prefill]
    split
    · rw [Prog.run_bind_some (run_decode run _)]
      dsimp only
      split
      · rfl
      · exact ih ..
    · rfl

variable (api sampleToken) in
theorem run_decodeLoop (here : s.model = .live model) (same : be.model = some model)
    (temperature topP : CFloat) (topK : Int) {onToken : Int → Calls M C Unit}
    (quiet : ∀ token s, s.model = .live model → (onToken token).run s = (some (), s))
    (promptLength left : Nat) : ∀ (i : Nat) (cur : Int) (generated : List Int) (run : GenRun C σ),
    ∃ tokens out, LlamaBackend.decodeLoop api be (fun l k => sampleToken l temperature topP topK k) none
          promptLength left i cur generated run = (.ok tokens, out) ∧
      (decodeLoop api sampleToken temperature topP topK onToken promptLength left i cur generated).run
          (s.at run) = (some tokens, s.at out) := by
  have model? : ∀ run : GenRun C σ, (s.at run).model = .ofOption be.model := by
    intro run
    rw [same]
    exact here
  induction left with
  | zero => intro i cur generated run; exact ⟨generated, run, rfl, rfl⟩
  | succ left ih =>
    intro i cur generated run
    rw [LlamaBackend.decodeLoop, decodeLoop, Prog.run_bind_some (run_isEos (model? run) cur)]
    cases be.isEos api cur with
    | true => exact ⟨generated, run, rfl, rfl⟩
    | false =>
      rw [if_neg (by decide), if_neg (by decide), Prog.run_bind_some (quiet cur (s.at run) here),
        Prog.run_bind_some (run_decode run _)]
      dsimp only [GenRun.call]
      split
      · exact ⟨_, _, rfl, rfl⟩
      · let next := (run.decode api (batchOf [cur] (promptLength + i))).2
        have read : (onCtx (.logits 0) id fun _ => () : Calls M C Unit).run (s.at next) =
            (some (), s.at next) := rfl
        rw [Prog.run_bind_some read, Prog.run_bind_some (run_sample next here temperature topP topK 0)]
        exact ih ..

variable (api sampleToken) in
theorem run_generateOn (here : s.model = .live model) (same : be.model = some model) (prompt : List Int)
    {genConfig : GenerationConfig} (bound : 0 ≤ genConfig.maxTokens) {onToken : Int → Calls M C Unit}
    (quiet : ∀ token s, s.model = .live model → (onToken token).run s = (some (), s)) :
    ∃ tokens out, LlamaBackend.generateOn api be (fun l k => sampleToken l genConfig.temperature
          genConfig.topP genConfig.topK k) none prompt genConfig.maxTokens run = (.ok tokens, out) ∧
      (generateOn api sampleToken (toSizeT be.config.nBatch) prompt genConfig onToken).run (s.at run) =
        (some tokens, s.at out) := by
  let clean : GenRun C σ := { run with ctx := api.kvCacheClear run.ctx }
  have clears : (onCtx .clear api.kvCacheClear fun _ => () : Calls M C Unit).run (s.at run) =
      (some (), s.at clean) := rfl
  rw [LlamaBackend.generateOn, if_neg (by omega), generateOn, Prog.run_bind_some clears,
    Prog.run_bind_some (run_prefill (toSizeT be.config.nBatch) prompt prompt.length 0 clean)]
  dsimp only
  cases LlamaBackend.prefill api (toSizeT be.config.nBatch) prompt prompt.length 0 clean with
  | mk filled run =>
    cases filled with
    | false => exact ⟨[], run, rfl, rfl⟩
    | true =>
      have read : (onCtx (.logits (-1)) id fun _ => () : Calls M C Unit).run (s.at run) =
          (some (), s.at run) := rfl
      have live : (s.at run).model = .live model := here
      rw [if_neg (by simp), if_neg (by simp), Prog.run_bind_some read,
        Prog.run_bind_some (run_onModel live _), Prog.run_bind_some (run_sample run here ..)]
      exact run_decodeLoop api sampleToken here same _ _ _ quiet prompt.length
        genConfig.maxTokens.toNat 0 _ [] _

variable (api sampleToken) in
theorem run_backendGenerate (same : be.model = some model) (here : s.model = .live model)
    (hasCtx : s.ctx = .ofOption be.ctx) (prompt : List Int) (genConfig : GenerationConfig)
    {onToken : Int → Calls M C Unit}
    (quiet : ∀ token s, s.model = .live model → (onToken token).run s = (some (), s)) :
    let out := be.generate api sampleToken prompt genConfig.maxTokens genConfig.temperature genConfig.topP
      genConfig.topK none s.draws ()
    (backendGenerate api sampleToken be.config prompt genConfig onToken).run s =
      (some out.tokens, { s with ctx := .ofOption out.backend.ctx, draws := out.draws }) := by
  intro out
  dsimp only [out]
  rw [backendGenerate, Prog.run_bind_some (run_get _), LlamaBackend.generate]
  have unchanged : { s with ctx := .ofOption be.ctx } = s := by rw [← hasCtx]
  cases ctx? : be.ctx with
  | none =>
    rw [ctx?] at hasCtx unchanged
    rw [hasCtx]
    dsimp only
    rw [ctx?, unchanged]
    rfl
  | some ctx =>
    rw [ctx?] at hasCtx unchanged
    rw [hasCtx, if_neg (by simp [Ptr.ofOption, Ptr.isNull])]
    dsimp only
    by_cases empty : prompt = []
    · rw [if_pos empty, if_pos empty]
      dsimp only
      rw [ctx?, unchanged]
      rfl
    rw [if_neg empty, if_neg empty]
    by_cases negative : genConfig.maxTokens < 0
    · rw [if_pos negative, LlamaBackend.generateOn, if_pos negative]
      dsimp only
      rw [unchanged]
      rfl
    · rw [if_neg negative]
      obtain ⟨tokens, out, generated, ran⟩ := run_generateOn api sampleToken
        ({ ctx, draws := s.draws, user := () } : GenRun C Unit) here same prompt (not_lt.1 negative) quiet
      have start : s.at ({ ctx, draws := s.draws, user := () } : GenRun C Unit) = s := unchanged
      rw [start] at ran
      rw [generated, Prog.run_bind_some ran]
      rfl

end Run

variable {e : InferenceEngine M C}

theorem run_promptTokens (here : s.model = .ofOption e.backend.model)
    (loaded : s.modelLoaded = e.backend.modelLoaded) (prompt : Bytes) :
    (promptTokens api e.tokenizer prompt).run s = (some (e.promptTokens api prompt), s) := by
  rw [promptTokens, Prog.run_bind_some (run_vocabSize here), InferenceEngine.promptTokens]
  split
  · exact run_tokenize here loaded prompt true
  · rfl

theorem run_responseText (here : s.model = .ofOption e.backend.model) (tokens : List Int) :
    (responseText api e.tokenizer tokens).run s = (some (e.responseText api tokens), s) := by
  rw [responseText, Prog.run_bind_some (run_vocabSize here), InferenceEngine.responseText]
  split
  · exact run_detokenize here tokens
  · rfl

theorem run_stubTokens (here : s.model = .ofOption e.backend.model)
    (stub : ¬ 0 < e.backend.vocabSize api) (maxTokens : Int) :
    (stubTokens api e.tokenizer maxTokens).run s =
      (some ((e.tokenizer.encode InferenceEngine.stubResponse).take maxTokens.toNat), s) := by
  rw [stubTokens, Prog.run_bind_some (run_vocabSize here), if_neg stub]
  rfl

variable (api sampleToken) in
theorem run_sampleTokens (here : s.model = .ofOption e.backend.model)
    (hasCtx : s.ctx = .ofOption e.backend.ctx) (prompt : List Int) (genConfig : GenerationConfig) :
    let out := e.sampleTokens api sampleToken prompt genConfig.maxTokens genConfig.temperature
      genConfig.topP genConfig.topK s.draws
    (sampleTokens api sampleToken e.backend.config e.tokenizer prompt genConfig).run s =
      (some out.1, { s with ctx := .ofOption out.2.1.ctx, draws := out.2.2 }) := by
  intro out
  dsimp only [out]
  rw [sampleTokens, Prog.run_bind_some (run_vocabSize here), InferenceEngine.sampleTokens]
  by_cases backend : 0 < e.backend.vocabSize api
  · rw [if_pos backend, if_pos backend]
    cases same : e.backend.model with
    | none => simp [LlamaBackend.vocabSize, same] at backend
    | some model =>
      have live : s.model = .live model := here.trans (by rw [same]; rfl)
      exact run_backendGenerate api sampleToken same live hasCtx prompt genConfig fun _ _ _ => rfl
  · rw [if_neg backend, if_neg backend, Prog.run_bind_some (run_stubTokens here backend _)]
    dsimp only
    rw [← hasCtx]
    rfl

theorem run_streamCallback (here : s.model = .ofOption e.backend.model) (tokenId : Int) :
    (streamCallback api e.tokenizer tokenId).run s = (some (), s) := by
  rw [streamCallback, Prog.run_bind_some (run_responseText here _),
    Prog.run_bind_some (run_isEos here tokenId)]
  rfl

theorem run_reportAll (here : s.model = .ofOption e.backend.model) (tokens : List Int) :
    (reportAll api e.tokenizer tokens).run s = (some (), s) := by
  induction tokens with
  | nil => rfl
  | cons tokenId tokens ih =>
    rw [reportAll, Prog.run_bind_some (run_streamCallback here tokenId)]
    exact ih

variable (api sampleToken) in
theorem run_streamTokens (here : s.model = .ofOption e.backend.model)
    (hasCtx : s.ctx = .ofOption e.backend.ctx) (prompt : List Int) (genConfig : GenerationConfig) :
    let out := e.sampleTokens api sampleToken prompt genConfig.maxTokens genConfig.temperature
      genConfig.topP genConfig.topK s.draws
    (streamTokens api sampleToken e.backend.config e.tokenizer prompt genConfig).run s =
      (some out.1, { s with ctx := .ofOption out.2.1.ctx, draws := out.2.2 }) := by
  intro out
  rw [streamTokens, Prog.run_bind_some (run_vocabSize here)]
  by_cases backend : 0 < e.backend.vocabSize api
  · rw [if_pos backend]
    dsimp only [out]
    rw [InferenceEngine.sampleTokens, if_pos backend]
    cases same : e.backend.model with
    | none => simp [LlamaBackend.vocabSize, same] at backend
    | some model =>
      have live : s.model = .live model := here.trans (by rw [same]; rfl)
      refine run_backendGenerate api sampleToken same live hasCtx prompt genConfig ?_
      intro token s here
      exact run_streamCallback (here.trans (by rw [same]; rfl)) token
  · rw [if_neg backend, Prog.run_bind_some (run_sampleTokens api sampleToken here hasCtx prompt genConfig)]
    cases out.1 with
    | error x => rfl
    | ok generated =>
      let after : Shared M C := { s with ctx := .ofOption out.2.1.ctx, draws := out.2.2 }
      have same : after.model = .ofOption e.backend.model := here
      dsimp only
      rw [Prog.run_bind_some (run_reportAll same generated)]
      rfl

end Alone

end Calls

/-! ## The engine alone -/

variable {M C L : Type} (api : LlamaCpp M C L) (sampleToken : Sampler L)

/-- An engine as its threads see it. -/
def InferenceEngine.shared (e : InferenceEngine M C) (draws : Nat) : Shared M C where
  ready := e.ready
  generating := e.generating
  modelLoaded := e.backend.modelLoaded
  model := .ofOption e.backend.model
  ctx := .ofOption e.backend.ctx
  draws

/-- **`generate` left alone** does what the model of the whole call does. -/
theorem generate_run (e : InferenceEngine M C) (prompt : Bytes) (genConfig : GenerationConfig)
    (draws : Nat) :
    let out := e.generate api sampleToken prompt genConfig draws
    (Calls.generate api sampleToken e.backend.config e.tokenizer prompt genConfig).run (e.shared draws) =
      (some out.1, out.2.1.shared out.2.2) := by
  intro out
  have unfolded : out = e.generate api sampleToken prompt genConfig draws := rfl
  rw [InferenceEngine.generate] at unfolded
  rw [Calls.generate, Prog.run_bind_some (Calls.run_get _)]
  by_cases ready : (!e.ready) = true
  · rw [if_pos ready] at unfolded
    rw [unfolded]
    have notReady : (!(e.shared draws).ready) = true := ready
    rw [if_pos notReady]
    rfl
  rw [if_neg ready] at unfolded
  let s : Shared M C := { e.shared draws with generating := true }
  have notReady : ¬ (!(e.shared draws).ready) = true := ready
  have sampled := Calls.run_sampleTokens api sampleToken (rfl : s.model = .ofOption e.backend.model)
    (rfl : s.ctx = .ofOption e.backend.ctx) (e.promptTokens api prompt) genConfig
  obtain ⟨ctx, kept⟩ := e.sampleTokens_backend sampleToken (e.promptTokens api prompt)
    genConfig.maxTokens genConfig.temperature genConfig.topP genConfig.topK draws
  rw [if_neg notReady, Prog.run_bind_some (Calls.run_set _),
    Prog.run_bind_some (Calls.run_promptTokens rfl rfl prompt), Prog.run_bind_some sampled]
  dsimp only [s, InferenceEngine.shared]
  cases h : e.sampleTokens api sampleToken (e.promptTokens api prompt) genConfig.maxTokens
    genConfig.temperature genConfig.topP genConfig.topK draws with
  | mk tokens rest =>
    rw [h] at unfolded kept
    dsimp only at unfolded kept ⊢
    cases tokens with
    | error x =>
      rw [unfolded, kept]
      rfl
    | ok tokens =>
      dsimp only at unfolded ⊢
      rw [unfolded, kept, Prog.run_bind_some (Calls.run_set _),
        Prog.run_bind_some (Calls.run_responseText (e := e) rfl tokens),
        e.responseText_model { e with backend := { e.backend with ctx }, generating := false } rfl rfl]
      rfl

/-- A callback that does nothing changes nothing. -/
theorem LlamaBackend.generate_silent (be : LlamaBackend M C) (prompt : List Int) (maxTokens : Int)
    (temperature topP : CFloat) (topK : Int) (draws : Nat) :
    let loud := be.generate api sampleToken prompt maxTokens temperature topP topK
      (some fun _ (user : Unit) => .ok user) draws ()
    let quiet := be.generate api sampleToken prompt maxTokens temperature topP topK none draws ()
    loud.tokens = quiet.tokens ∧ loud.backend = quiet.backend ∧ loud.draws = quiet.draws := by
  intro loud quiet
  by_cases bound : 0 ≤ maxTokens
  · obtain ⟨tokens, hl, hq, _, backend, drawn, _⟩ := be.generate_reports api (fun _ (user : Unit) => user)
      sampleToken prompt bound temperature topP topK draws ()
    exact ⟨hl.trans hq.symm, backend, drawn⟩
  · dsimp only [loud, quiet]
    unfold generate
    cases be.ctx with
    | none => exact ⟨rfl, rfl, rfl⟩
    | some ctx =>
      dsimp only
      split
      · exact ⟨rfl, rfl, rfl⟩
      · rw [generateOn, generateOn, if_pos (by omega), if_pos (by omega)]
        exact ⟨rfl, rfl, rfl⟩

/-- `generate_stream` with such a callback is what `sample_tokens` comes to. -/
theorem InferenceEngine.generateStream_silent (e : InferenceEngine M C) (prompt : Bytes)
    (genConfig : GenerationConfig) (draws : Nat) :
    e.generateStream api sampleToken prompt (fun _ (user : Unit) => .ok user) genConfig draws () =
      if !e.ready then (.error (.runtimeError (str "Engine not ready")), e, draws)
      else
        match e.sampleTokens api sampleToken (e.promptTokens api prompt) genConfig.maxTokens
          genConfig.temperature genConfig.topP genConfig.topK draws with
        | (.error x, backend, draws) => (.error x, { e with backend, generating := true }, draws)
        | (.ok _, backend, draws) => (.ok (), { e with backend, generating := false }, draws) := by
  rw [generateStream]
  split
  · rfl
  by_cases backend : 0 < e.backend.vocabSize api
  · obtain ⟨tokens, kept, drawn⟩ := e.backend.generate_silent api sampleToken (e.promptTokens api prompt)
      genConfig.maxTokens genConfig.temperature genConfig.topP genConfig.topK draws
    rw [if_pos backend, sampleTokens, if_pos backend]
    dsimp only
    rw [tokens, kept, drawn]
    split
    · rename_i x h
      rw [h]
    · rename_i tokens h
      rw [h]
  · rw [if_neg backend, sampleTokens, if_neg backend]
    dsimp only
    rw [reportAll_ok fun _ (user : Unit) => user]

/-- **`generate_stream` left alone** does what the model of the whole call does. -/
theorem generateStream_run (e : InferenceEngine M C) (prompt : Bytes) (genConfig : GenerationConfig)
    (draws : Nat) :
    let out := e.generateStream api sampleToken prompt (fun _ (user : Unit) => .ok user) genConfig draws ()
    (Calls.generateStream api sampleToken e.backend.config e.tokenizer prompt genConfig).run
      (e.shared draws) = (some out.1, out.2.1.shared out.2.2) := by
  dsimp only
  rw [InferenceEngine.generateStream_silent, Calls.generateStream, Prog.run_bind_some (Calls.run_get _)]
  by_cases ready : (!e.ready) = true
  · have notReady : (!(e.shared draws).ready) = true := ready
    rw [if_pos ready, if_pos notReady]
    rfl
  let s : Shared M C := { e.shared draws with generating := true }
  have notReady : ¬ (!(e.shared draws).ready) = true := ready
  have sampled := Calls.run_streamTokens api sampleToken (rfl : s.model = .ofOption e.backend.model)
    (rfl : s.ctx = .ofOption e.backend.ctx) (e.promptTokens api prompt) genConfig
  obtain ⟨ctx, kept⟩ := e.sampleTokens_backend sampleToken (e.promptTokens api prompt)
    genConfig.maxTokens genConfig.temperature genConfig.topP genConfig.topK draws
  rw [if_neg ready, if_neg notReady, Prog.run_bind_some (Calls.run_set _),
    Prog.run_bind_some (Calls.run_promptTokens rfl rfl prompt), Prog.run_bind_some sampled]
  dsimp only [s, InferenceEngine.shared]
  cases h : e.sampleTokens api sampleToken (e.promptTokens api prompt) genConfig.maxTokens
    genConfig.temperature genConfig.topP genConfig.topK draws with
  | mk tokens rest =>
    obtain ⟨backend, drawn⟩ := rest
    rw [h] at kept
    dsimp only at kept
    cases tokens with
    | error x =>
      dsimp only
      rw [kept]
      rfl
    | ok tokens =>
      dsimp only
      rw [kept]
      rfl

end ModelRuntime
