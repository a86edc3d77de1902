import ModelRuntime.Backend.Autoregressive
import ModelRuntime.Engine.Tools
import ModelRuntime.Lib.Run
import ModelRuntime.Server.OnEngine

/-!
# Token statistics

`prompt_tokens_processed_` and `tokens_generated_` beside what an engine in use really decodes and
generates. `Service` keeps the true counts; no call writes the two counters, so they are right exactly as
long as nothing is decoded and nothing generated (`counted_iff`).
-/

namespace ModelRuntime
open Cpp Lib

/-- How many prompt tokens have been decoded, and how many tokens generated. -/
structure Counts where
  prompt : Nat := 0
  generated : Nat := 0
  deriving DecidableEq

namespace Counts

def add (a b : Counts) : Counts := ⟨a.prompt + b.prompt, a.generated + b.generated⟩

def total (a : Counts) : Nat := a.prompt + a.generated

@[simp] theorem total_add (a b : Counts) : (a.add b).total = a.total + b.total := by
  simp only [total, add]
  omega

end Counts

variable {M C L σ : Type} (api : LlamaCpp M C L) (sampleToken : Sampler L)

/-- The tokens of `prompt` in the batches that were decoded. -/
def decodedTokens (prompt : List Int) (decodes : List (Batch × Int)) : Nat :=
  let decoded := decodes.filter fun d => d.2 == 0
  (decoded.flatMap fun d => d.1.filter fun e : BatchEntry => e.pos < (prompt.length : Int)).length

def Generated.counts (out : Generated M C σ) (prompt : List Int) : Counts where
  prompt := decodedTokens prompt out.decodes
  generated := match out.tokens with
    | .error _ => 0
    | .ok tokens => tokens.length

namespace InferenceEngine

variable (e : InferenceEngine M C) (prompt : Bytes) (genConfig : GenerationConfig) (draws : Nat)

/-- What stub mode generates. -/
def stubCounts : Counts where
  generated := ((e.tokenizer.encode stubResponse).take genConfig.maxTokens.toNat).length

/-- What a generation decodes and generates, with the callback it is given. -/
def generationCounts (onToken : Option (TokenCallback σ)) (user : σ) : Counts :=
  if 0 < e.backend.vocabSize api then
    let tokens := e.promptTokens api prompt
    (e.backend.generate api sampleToken tokens genConfig.maxTokens genConfig.temperature genConfig.topP
      genConfig.topK onToken draws user).counts tokens
  else e.stubCounts genConfig

/-- Such a generation decodes and generates nothing: its prompt is empty or its first batch is refused, in
stub mode it is asked for nothing or has nothing to say. -/
def Idle : Prop :=
  if 0 < e.backend.vocabSize api then
    ∀ ctx, e.backend.ctx = some ctx → e.promptTokens api prompt = [] ∨
      (api.decode (api.kvCacheClear ctx)
        (promptBatch (toSizeT e.backend.config.nBatch) (e.promptTokens api prompt) 0)).1 ≠ 0
  else genConfig.maxTokens ≤ 0 ∨ e.tokenizer.encode stubResponse = []

end InferenceEngine

/-! ## An engine in use -/

/-- The engine, the state its callbacks and tools act on, and the true counts. -/
structure Service (M C σ : Type) where
  engine : InferenceEngine M C
  draws : Nat := 0
  user : σ
  counts : Counts := {}

inductive EngineCall (σ : Type) where
  | generate (prompt : Bytes) (genConfig : GenerationConfig)
  | generateStream (prompt : Bytes) (onToken : Token → σ → Except StdException σ)
      (genConfig : GenerationConfig)
  | generateWithTools (prompt : Bytes) (onToolCall : Bytes → Bytes → σ → Except StdException Unit × σ)
      (genConfig : GenerationConfig)
  | generateAsync (prompt : Bytes) (genConfig : GenerationConfig)

namespace Service

def generate (s : Service M C σ) (prompt : Bytes) (genConfig : GenerationConfig) :
    Except StdException Bytes × Service M C σ :=
  let (text, engine, draws) := s.engine.generate api sampleToken prompt genConfig s.draws
  (text, { s with
    engine, draws, counts := s.counts.add (s.engine.generationCounts api sampleToken prompt genConfig s.draws
      (none : Option (TokenCallback Unit)) ()) })

def generateStream (s : Service M C σ) (prompt : Bytes) (onToken : Token → σ → Except StdException σ)
    (genConfig : GenerationConfig) : Except StdException Unit × Service M C σ :=
  let (out, engine, draws) := s.engine.generateStream api sampleToken prompt onToken genConfig s.draws s.user
  let streamCallback : TokenCallback σ := fun tokenId user => onToken (s.engine.streamToken api tokenId) user
  let counts := s.counts.add (s.engine.generationCounts api sampleToken prompt genConfig s.draws
    (some streamCallback) s.user)
  match out with
  | .error x => (.error x, { s with engine, draws, counts })
  | .ok user => (.ok (), { engine, draws, user, counts })

/-- `InferenceEngine.toolEnv`, with the counts. -/
def toolEnv (genConfig : GenerationConfig) (onToolCall : Bytes → Bytes → σ → Except StdException Unit × σ)
    (handlers : Bytes → Option (ToolCallHandler σ)) : ToolEnv (Service M C σ) where
  generate prompt s := s.generate api sampleToken prompt genConfig
  onToolCall name arguments s :=
    let (out, user) := onToolCall name arguments s.user
    (out, { s with user })
  handlers name := (handlers name).map fun handler call s =>
    let (result, user) := handler call s.user
    (result, { s with user })

variable (handlers : Bytes → Option (ToolCallHandler σ))

def call (s : Service M C σ) : EngineCall σ → Except StdException Unit × Service M C σ
  | .generate prompt genConfig | .generateAsync prompt genConfig =>
    let (text, s) := s.generate api sampleToken prompt genConfig
    (text.map fun _ => (), s)
  | .generateStream prompt onToken genConfig => s.generateStream api sampleToken prompt onToken genConfig
  | .generateWithTools prompt onToolCall genConfig =>
    let run := ModelRuntime.generateWithTools (toolEnv api sampleToken genConfig onToolCall handlers)
      s.engine.ready s.engine.config.maxToolCalls prompt s
    (run.output.map fun _ => (), run.world)

def step (s : Service M C σ) (c : EngineCall σ) : Service M C σ := (s.call api sampleToken handlers c).2

def Completes (s : Service M C σ) (c : EngineCall σ) : Prop := (s.call api sampleToken handlers c).1 = .ok ()

instance (s : Service M C σ) (c : EngineCall σ) : Decidable (s.Completes api sampleToken handlers c) :=
  inferInstanceAs (Decidable (_ = _))

/-- The call decodes and generates nothing. -/
def Idle (s : Service M C σ) : EngineCall σ → Prop
  | .generate prompt genConfig | .generateAsync prompt genConfig | .generateStream prompt _ genConfig =>
    s.engine.Idle api prompt genConfig
  | .generateWithTools prompt _ genConfig =>
    s.engine.config.maxToolCalls ≤ 0 ∨ s.engine.Idle api prompt genConfig

/-- The statistics are right. -/
structure Counted (s : Service M C σ) : Prop where
  generated : s.engine.backend.tokensGenerated = s.counts.generated
  total : s.engine.getTotalTokensGenerated = s.counts.generated
  health : ∀ env draws,
    (s.engine.serverEnv api sampleToken env draws).totalTokensGenerated = s.counts.generated
  prompt : s.engine.backend.promptTokensProcessed = s.counts.prompt

end Service

/-! ## Which generations are idle -/

section Generation

variable {api sampleToken} {be : LlamaBackend M C}

variable (api) in
theorem prefill_decodes (batchSize : Nat) (prompt : List Int) (passes : Nat) :
    ∀ (i : Nat) (run : GenRun C σ), ∃ more,
      (LlamaBackend.prefill api batchSize prompt passes i run).2.decodes = run.decodes ++ more := by
  induction passes with
  | zero => exact fun _ _ => ⟨[], (List.append_nil _).symm⟩
  | succ passes ih =>
    intro i run
    rw [LlamaBackend.prefill]
    split
    · dsimp only
      split
      · exact ⟨_, rfl⟩
      · obtain ⟨more, rest⟩ := ih (i + batchSize) (run.decode api (promptBatch batchSize prompt i)).2
        rw [rest, GenRun.decode_decodes, List.append_assoc]
        exact ⟨_, rfl⟩
    · exact ⟨[], (List.append_nil _).symm⟩

theorem decodeLoop_decodes (draw : L → Nat → Int) (onToken : Option (TokenCallback σ))
    (promptLength left : Nat) : ∀ (i : Nat) (cur : Int) (generated : List Int) (run : GenRun C σ), ∃ more,
      (LlamaBackend.decodeLoop api be draw onToken promptLength left i cur generated run).2.decodes =
        run.decodes ++ more := by
  induction left with
  | zero => exact fun _ _ _ _ => ⟨[], (List.append_nil _).symm⟩
  | succ left ih =>
    intro i cur generated run
    rw [LlamaBackend.decodeLoop]
    split
    · exact ⟨[], (List.append_nil _).symm⟩
    · cases called : run.call onToken cur with
      | error x => exact ⟨[], (List.append_nil _).symm⟩
      | ok after =>
        have same := GenRun.call_decodes called
        dsimp only
        split
        · exact ⟨_, by rw [GenRun.decode_decodes, same]⟩
        · obtain ⟨more, rest⟩ := ih (i + 1) _ (generated ++ [cur])
            ((after.decode api (batchOf [cur] (promptLength + i))).2.sample api draw 0).2
          rw [rest]
          show ∃ more, ((after.decode api _).2.decodes ++ _) = _
          rw [GenRun.decode_decodes, same, List.append_assoc]
          exact ⟨_, rfl⟩

theorem decodedTokens_refused (prompt : List Int) {batch : Batch} {ret : Int} (refused : ret ≠ 0) :
    decodedTokens prompt [(batch, ret)] = 0 := by
  simp [decodedTokens, refused]

/-- The first prompt batch has prompt tokens in it. -/
theorem decodedTokens_first {batchSize : Nat} (batches : 0 < batchSize) {prompt : List Int}
    (some : prompt ≠ []) (more : List (Batch × Int)) :
    0 < decodedTokens prompt ((promptBatch batchSize prompt 0, 0) :: more) := by
  have chunk : prompt.take batchSize ≠ [] := by
    rw [ne_eq, List.take_eq_nil_iff]
    rintro (none | none)
    · omega
    · exact some none
  obtain ⟨front, last, split⟩ := List.eq_nil_or_concat (prompt.take batchSize) |>.resolve_left chunk
  rw [List.concat_eq_append] at split
  have short : front.length < prompt.length := by
    have bound := List.length_take_le batchSize prompt
    have length := congrArg List.length split
    rw [List.length_append, List.length_take, List.length_singleton] at length
    omega
  have member : (⟨last, (0 + front.length : Nat), true⟩ : BatchEntry) ∈ promptBatch batchSize prompt 0 := by
    rw [promptBatch_eq batchSize (Nat.zero_le _), List.drop_zero, List.take_zero, split, batchOf_snoc]
    exact List.mem_append_right _ (List.mem_singleton_self _)
  refine List.length_pos_iff.2 (List.ne_nil_of_mem (a := ⟨last, (0 + front.length : Nat), true⟩) ?_)
  rw [List.mem_flatMap]
  refine ⟨(promptBatch batchSize prompt 0, 0), ?_, ?_⟩
  · simp
  · rw [List.mem_filter]
    refine ⟨member, ?_⟩
    simpa using short

variable (api) in
/-- The prefill of a prompt with tokens ends where its first batch is refused. -/
theorem prefill_first (batchSize : Nat) {prompt : List Int} (some : prompt ≠ []) (run : GenRun C σ) :
    let first := promptBatch batchSize prompt 0
    let out := LlamaBackend.prefill api batchSize prompt prompt.length 0 run
    ((run.decode api first).1 ≠ 0 → out = (false, (run.decode api first).2)) ∧
      ((run.decode api first).1 = 0 → ∃ more, out.2.decodes = run.decodes ++ (first, 0) :: more) := by
  intro first out
  have nonempty : 0 < prompt.length := List.length_pos_iff.2 some
  obtain ⟨passes, length⟩ := Nat.exists_eq_succ_of_ne_zero nonempty.ne'
  have out_eq : out = LlamaBackend.prefill api batchSize prompt (passes + 1) 0 run := by
    rw [← Nat.succ_eq_add_one, ← length]
  rw [LlamaBackend.prefill_more nonempty] at out_eq
  constructor
  · intro refused
    rw [out_eq, if_pos refused]
  · intro taken
    obtain ⟨more, rest⟩ := prefill_decodes api batchSize prompt passes (0 + batchSize)
      (run.decode api first).2
    rw [out_eq, if_neg (not_not.2 taken), rest, GenRun.decode_decodes, List.append_assoc, taken]
    exact ⟨more, rfl⟩

/-- What a generation on a prompt with tokens decodes: its first batch alone where that is refused. -/
theorem generateOn_decodes (draw : L → Nat → Int) (onToken : Option (TokenCallback σ)) {prompt : List Int}
    (some : prompt ≠ []) {maxTokens : Int} (bound : 0 ≤ maxTokens) (run : GenRun C σ) :
    let first := promptBatch (toSizeT be.config.nBatch) prompt 0
    let code := (api.decode (api.kvCacheClear run.ctx) first).1
    let out := LlamaBackend.generateOn api be draw onToken prompt maxTokens run
    (code ≠ 0 → out.1 = .ok [] ∧ out.2.decodes = run.decodes ++ [(first, code)]) ∧
      (code = 0 → ∃ more, out.2.decodes = run.decodes ++ (first, 0) :: more) := by
  intro first code out
  let clean : GenRun C σ := { run with ctx := api.kvCacheClear run.ctx }
  have out_eq : out = LlamaBackend.generateOn api be draw onToken prompt maxTokens run := rfl
  obtain ⟨refused, taken⟩ := prefill_first api (toSizeT be.config.nBatch) some clean
  rw [LlamaBackend.generateOn, if_neg (by omega)] at out_eq
  dsimp only at out_eq
  generalize LlamaBackend.prefill api (toSizeT be.config.nBatch) prompt prompt.length 0 clean = filled
    at refused taken out_eq
  constructor
  · intro fails
    rw [refused fails] at out_eq
    rw [out_eq]
    exact ⟨rfl, rfl⟩
  · intro ok
    obtain ⟨more, decodes⟩ := taken ok
    obtain ⟨_ | _, after⟩ := filled
    · rw [out_eq]
      exact ⟨more, decodes⟩
    · obtain ⟨later, loop⟩ := @decodeLoop_decodes M C L σ api be draw onToken prompt.length
        maxTokens.toNat 0 (after.sample api draw (-1)).1 [] (after.sample api draw (-1)).2
      rw [out_eq]
      refine ⟨more ++ later, loop.trans ?_⟩
      show after.decodes ++ later = _
      rw [show after.decodes = _ from decodes, List.append_assoc]
      rfl

/-- A generation that returns, on a prompt with tokens, decodes nothing and generates nothing where its
first batch is refused, and otherwise decodes something. -/
theorem LlamaBackend.generate_counts {ctx : C} (hasCtx : be.ctx = some ctx) {prompt : List Int}
    (some : prompt ≠ []) (batches : 0 < toSizeT be.config.nBatch) {maxTokens : Int} {temperature topP : CFloat}
    {topK : Int} {onToken : Option (TokenCallback σ)} {draws : Nat} {user : σ} {tokens : List Int}
    (returns : (be.generate api sampleToken prompt maxTokens temperature topP topK onToken draws
      user).tokens = .ok tokens) :
    ((be.generate api sampleToken prompt maxTokens temperature topP topK onToken draws user).counts
        prompt).total = 0 ↔
      (api.decode (api.kvCacheClear ctx) (promptBatch (toSizeT be.config.nBatch) prompt 0)).1 ≠ 0 := by
  rw [LlamaBackend.generate, hasCtx] at returns ⊢
  dsimp only at returns ⊢
  rw [if_neg some] at returns ⊢
  have bound : 0 ≤ maxTokens := by
    by_contra negative
    rw [generateOn, if_pos (by omega)] at returns
    cases returns
  obtain ⟨refused, taken⟩ := @generateOn_decodes M C L σ api be
    (fun logits k => sampleToken logits temperature topP topK k) onToken prompt some maxTokens bound
    { ctx, draws, user }
  dsimp only at refused taken ⊢
  constructor
  · intro none ok
    obtain ⟨more, decodes⟩ := taken ok
    have first := decodedTokens_first batches some more
    rw [Counts.total, Generated.counts] at none
    dsimp only at none
    rw [decodes, List.nil_append] at none
    omega
  · intro code
    obtain ⟨none, decodes⟩ := refused code
    rw [Counts.total, Generated.counts]
    dsimp only
    rw [decodes, none, List.nil_append, decodedTokens_refused prompt code]
    rfl

variable {e : InferenceEngine M C} {prompt : Bytes} {genConfig : GenerationConfig} {draws : Nat}

/-- **A generation that returns** decodes and generates nothing exactly when it is idle. -/
theorem InferenceEngine.generationCounts_iff (batches : 0 < toSizeT e.backend.config.nBatch)
    {onToken : Option (TokenCallback σ)} {user : σ}
    (returns : 0 < e.backend.vocabSize api → ∃ tokens, (e.backend.generate api sampleToken
      (e.promptTokens api prompt) genConfig.maxTokens genConfig.temperature genConfig.topP genConfig.topK
      onToken draws user).tokens = .ok tokens) :
    (e.generationCounts api sampleToken prompt genConfig draws onToken user).total = 0 ↔
      e.Idle api prompt genConfig := by
  rw [generationCounts, Idle]
  by_cases backend : 0 < e.backend.vocabSize api
  · rw [if_pos backend, if_pos backend]
    dsimp only
    cases hasCtx : e.backend.ctx with
    | none =>
      refine iff_of_true ?_ fun ctx h => by cases h
      rw [LlamaBackend.generate, hasCtx]
      rfl
    | some ctx =>
      obtain ⟨tokens, returns⟩ := returns backend
      by_cases empty : e.promptTokens api prompt = []
      · refine iff_of_true ?_ fun ctx _ => .inl empty
        rw [LlamaBackend.generate, hasCtx]
        dsimp only
        rw [if_pos empty]
        rfl
      · rw [LlamaBackend.generate_counts hasCtx empty batches returns]
        constructor
        · intro refused ctx' h
          cases h
          exact .inr refused
        · intro idle
          exact (idle ctx rfl).resolve_left empty
  · rw [if_neg backend, if_neg backend]
    show 0 + ((e.tokenizer.encode stubResponse).take genConfig.maxTokens.toNat).length = 0 ↔ _
    rw [List.length_take, ← List.length_eq_zero_iff]
    omega

end Generation

/-! ## What a call does to the counts -/

section Calls

variable {api sampleToken} {e : InferenceEngine M C}

theorem InferenceEngine.generate_backend (prompt : Bytes) (genConfig : GenerationConfig) (draws : Nat) :
    ∃ ctx, (e.generate api sampleToken prompt genConfig draws).2.1.backend = { e.backend with ctx } := by
  obtain ⟨ctx, kept⟩ := @e.sampleTokens_backend M C L api sampleToken (e.promptTokens api prompt)
    genConfig.maxTokens genConfig.temperature genConfig.topP genConfig.topK draws
  rw [generate]
  split
  · exact ⟨e.backend.ctx, rfl⟩
  · dsimp only
    split
    · exact ⟨ctx, kept⟩
    · exact ⟨ctx, kept⟩

theorem InferenceEngine.generateStream_backend (prompt : Bytes)
    (onToken : Token → σ → Except StdException σ) (genConfig : GenerationConfig) (draws : Nat) (user : σ) :
    ∃ ctx, (e.generateStream api sampleToken prompt onToken genConfig draws user).2.1.backend =
      { e.backend with ctx } := by
  obtain ⟨ctx, kept⟩ := @e.sampleTokens_backend M C L api sampleToken (e.promptTokens api prompt)
    genConfig.maxTokens genConfig.temperature genConfig.topP genConfig.topK draws
  rw [generateStream]
  split
  · exact ⟨e.backend.ctx, rfl⟩
  · dsimp only
    split
    · obtain ⟨ctx, kept⟩ := LlamaBackend.generate_backend api e.backend sampleToken
        (e.promptTokens api prompt) genConfig.maxTokens genConfig.temperature genConfig.topP genConfig.topK
        (some fun tokenId user => onToken (e.streamToken api tokenId) user) draws user
      split
      · exact ⟨ctx, kept⟩
      · exact ⟨ctx, kept⟩
    · split
      · exact ⟨ctx, kept⟩
      · split
        · exact ⟨ctx, kept⟩
        · exact ⟨ctx, kept⟩

/-- The backend has changed in its context only, and the counts have not gone down. -/
structure Service.Advances (s s' : Service M C σ) : Prop where
  backend : ∃ ctx, s'.engine.backend = { s.engine.backend with ctx }
  counts : s.counts.total ≤ s'.counts.total

theorem Service.Advances.refl (s : Service M C σ) : s.Advances s := ⟨⟨s.engine.backend.ctx, rfl⟩, le_rfl⟩

theorem Service.Advances.trans {s s' s'' : Service M C σ} (first : s.Advances s') (then_ : s'.Advances s'') :
    s.Advances s'' := by
  obtain ⟨ctx, same⟩ := first.backend
  obtain ⟨ctx', same'⟩ := then_.backend
  exact ⟨⟨ctx', by rw [same', same]⟩, first.counts.trans then_.counts⟩

theorem Service.generate_advances (s : Service M C σ) (prompt : Bytes) (genConfig : GenerationConfig) :
    s.Advances (s.generate api sampleToken prompt genConfig).2 := by
  refine ⟨InferenceEngine.generate_backend prompt genConfig s.draws, ?_⟩
  show s.counts.total ≤ (s.counts.add _).total
  rw [Counts.total_add]
  omega

theorem Service.generateStream_advances (s : Service M C σ) (prompt : Bytes)
    (onToken : Token → σ → Except StdException σ) (genConfig : GenerationConfig) :
    s.Advances (s.generateStream api sampleToken prompt onToken genConfig).2 := by
  have kept := @s.engine.generateStream_backend M C L σ api sampleToken prompt onToken genConfig s.draws s.user
  rw [Service.generateStream]
  dsimp only
  split
  · refine ⟨kept, ?_⟩
    dsimp only
    rw [Counts.total_add]
    omega
  · refine ⟨kept, ?_⟩
    dsimp only
    rw [Counts.total_add]
    omega

section Loop

variable {ω : Type} {env : ToolEnv ω} {R : ω → ω → Prop}

/-- What every call of the loop relates, the loop relates. -/
structure ToolEnv.Preserves (env : ToolEnv ω) (R : ω → ω → Prop) : Prop where
  refl : ∀ w, R w w
  trans : ∀ {w w' w''}, R w w' → R w' w'' → R w w''
  generate : ∀ prompt w, R w (env.generate prompt w).2
  onToolCall : ∀ toolName arguments w, R w (env.onToolCall toolName arguments w).2
  executeTool : ∀ call w, R w (executeTool env.handlers call w).2

/-- From the first answer on. -/
theorem ToolEnv.Preserves.after (h : env.Preserves R) {left : Nat}
    (rest : ∀ fullResponse currentPrompt w, R w (toolLoop env left fullResponse currentPrompt w).world)
    (fullResponse currentPrompt : Bytes) (w : ω) :
    R (env.generate currentPrompt w).2 (toolLoop env (left + 1) fullResponse currentPrompt w).world := by
  rw [toolLoop]
  split
  · rename_i asked
    rw [asked]
    exact h.refl _
  · rename_i response w' asked
    rw [asked]
    dsimp only
    split
    · exact h.refl _
    · rename_i call parsed
      have told := h.onToolCall call.toolName call.arguments w'
      split
      · rename_i refused
        rw [refused] at told
        exact told
      · rename_i w'' accepted
        rw [accepted] at told
        have executed := h.executeTool call w''
        split
        · rename_i broken
          rw [broken] at executed
          exact h.trans told executed
        · rename_i result
          rw [result] at executed
          exact h.trans told (h.trans executed (rest _ _ _))

theorem ToolEnv.Preserves.loop (h : env.Preserves R) (left : Nat) : ∀ fullResponse currentPrompt w,
    R w (toolLoop env left fullResponse currentPrompt w).world := by
  induction left with
  | zero => exact fun _ _ w => h.refl w
  | succ left ih => exact fun _ prompt w => h.trans (h.generate prompt w) (h.after ih _ _ _)

end Loop

theorem Service.toolEnv_preserves (genConfig : GenerationConfig)
    (onToolCall : Bytes → Bytes → σ → Except StdException Unit × σ)
    (handlers : Bytes → Option (ToolCallHandler σ)) :
    (toolEnv api sampleToken genConfig onToolCall handlers : ToolEnv (Service M C σ)).Preserves
      Service.Advances where
  refl := .refl
  trans := .trans
  generate prompt s := s.generate_advances prompt genConfig
  onToolCall _ _ s := ⟨⟨s.engine.backend.ctx, rfl⟩, le_rfl⟩
  executeTool call s := by
    rw [executeTool, toolEnv]
    dsimp only
    cases handlers call.toolName with
    | none => exact .refl s
    | some handler => exact ⟨⟨s.engine.backend.ctx, rfl⟩, le_rfl⟩

/-- Every call leaves the counters of the backend alone. -/
theorem Service.step_advances (handlers : Bytes → Option (ToolCallHandler σ)) (s : Service M C σ)
    (c : EngineCall σ) : s.Advances (s.step api sampleToken handlers c) := by
  cases c with
  | generate prompt genConfig => exact s.generate_advances prompt genConfig
  | generateAsync prompt genConfig => exact s.generate_advances prompt genConfig
  | generateStream prompt onToken genConfig => exact s.generateStream_advances prompt onToken genConfig
  | generateWithTools prompt onToolCall genConfig =>
    rw [step, call, ModelRuntime.generateWithTools]
    dsimp only
    split
    · exact .refl s
    · exact (toolEnv_preserves genConfig onToolCall handlers).loop _ _ _ s

/-- What a `generate` that returned has produced. -/
theorem InferenceEngine.generate_returned {prompt : Bytes} {genConfig : GenerationConfig} {draws : Nat}
    {text : Bytes} (returned : (e.generate api sampleToken prompt genConfig draws).1 = .ok text) :
    ∃ tokens, (e.sampleTokens api sampleToken (e.promptTokens api prompt) genConfig.maxTokens
        genConfig.temperature genConfig.topP genConfig.topK draws).1 = .ok tokens ∧
      (tokens = [] → text = []) := by
  rw [generate] at returned
  split at returned
  · cases returned
  · dsimp only at returned
    split at returned
    · cases returned
    · rename_i tokens sampled
      refine ⟨tokens, sampled, fun none => ?_⟩
      cases returned
      rw [none, responseText]
      split
      · rw [LlamaBackend.detokenize]
        split
        · rfl
        · rfl
      · rfl

/-- A `generate` that returned counts nothing exactly when it was idle. -/
theorem Service.generate_iff {s : Service M C σ} (batches : 0 < toSizeT s.engine.backend.config.nBatch)
    {prompt : Bytes} {genConfig : GenerationConfig} {text : Bytes}
    (returned : (s.generate api sampleToken prompt genConfig).1 = .ok text) :
    (s.generate api sampleToken prompt genConfig).2.counts.total = s.counts.total ↔
      s.engine.Idle api prompt genConfig := by
  show (s.counts.add _).total = _ ↔ _
  rw [Counts.total_add, Nat.add_eq_left]
  refine InferenceEngine.generationCounts_iff batches fun backend => ?_
  obtain ⟨tokens, sampled, _⟩ := InferenceEngine.generate_returned returned
  rw [InferenceEngine.sampleTokens, if_pos backend] at sampled
  exact ⟨tokens, sampled⟩

/-- The text of an idle `generate` is empty. -/
theorem Service.generate_idle {s : Service M C σ} {prompt : Bytes} {genConfig : GenerationConfig}
    {text : Bytes} (returned : (s.generate api sampleToken prompt genConfig).1 = .ok text)
    (none : (s.generate api sampleToken prompt genConfig).2.counts.total = s.counts.total) : text = [] := by
  obtain ⟨tokens, sampled, empty⟩ := InferenceEngine.generate_returned returned
  apply empty
  change (s.counts.add (s.engine.generationCounts api sampleToken prompt genConfig s.draws
    (Option.none : Option (TokenCallback Unit)) ())).total = s.counts.total at none
  rw [Counts.total_add, Nat.add_eq_left, InferenceEngine.generationCounts, Counts.total] at none
  rw [InferenceEngine.sampleTokens] at sampled
  by_cases backend : 0 < s.engine.backend.vocabSize api
  · rw [if_pos backend] at none sampled
    dsimp only at none sampled
    rw [Generated.counts, sampled] at none
    exact List.length_eq_zero_iff.1 (by dsimp only at none; omega)
  · rw [if_neg backend] at none sampled
    cases sampled
    exact List.length_eq_zero_iff.1 (by rw [InferenceEngine.stubCounts] at none; dsimp only at none; omega)

/-- What a `generate_stream` that returned has got from the backend. -/
theorem InferenceEngine.generateStream_returned {prompt : Bytes}
    {onToken : Token → σ → Except StdException σ} {genConfig : GenerationConfig} {draws : Nat} {user user' : σ}
    (returned : (e.generateStream api sampleToken prompt onToken genConfig draws user).1 = .ok user')
    (backend : 0 < e.backend.vocabSize api) :
    ∃ tokens, (e.backend.generate api sampleToken (e.promptTokens api prompt) genConfig.maxTokens
      genConfig.temperature genConfig.topP genConfig.topK
      (some fun tokenId user => onToken (e.streamToken api tokenId) user) draws user).tokens = .ok tokens := by
  rw [generateStream, if_pos backend] at returned
  split at returned
  · cases returned
  · dsimp only at returned
    split at returned
    · cases returned
    · rename_i tokens generated
      exact ⟨tokens, generated⟩

/-- A `generate_stream` that returned counts nothing exactly when it was idle. -/
theorem Service.generateStream_iff {s : Service M C σ}
    (batches : 0 < toSizeT s.engine.backend.config.nBatch) {prompt : Bytes}
    {onToken : Token → σ → Except StdException σ} {genConfig : GenerationConfig}
    (returned : (s.generateStream api sampleToken prompt onToken genConfig).1 = .ok ()) :
    (s.generateStream api sampleToken prompt onToken genConfig).2.counts.total = s.counts.total ↔
      s.engine.Idle api prompt genConfig := by
  have counts : (s.generateStream api sampleToken prompt onToken genConfig).2.counts =
      s.counts.add (s.engine.generationCounts api sampleToken prompt genConfig s.draws
        (some fun tokenId user => onToken (s.engine.streamToken api tokenId) user) s.user) := by
    rw [Service.generateStream]
    dsimp only
    split
    · rfl
    · rfl
  rw [counts, Counts.total_add, Nat.add_eq_left]
  refine InferenceEngine.generationCounts_iff batches fun backend => ?_
  rw [Service.generateStream] at returned
  dsimp only at returned
  split at returned
  · cases returned
  · rename_i user streamed
    exact InferenceEngine.generateStream_returned streamed backend

theorem tryParseToolCall_nil : (tryParseToolCall [] {}).1 = false := by decide +kernel

/-- The tool loop counts nothing exactly when its first generation is idle: an empty text has no tool
call in it. -/
theorem Service.toolLoop_iff {s : Service M C σ} (batches : 0 < toSizeT s.engine.backend.config.nBatch)
    (genConfig : GenerationConfig) (onToolCall : Bytes → Bytes → σ → Except StdException Unit × σ)
    (handlers : Bytes → Option (ToolCallHandler σ)) (left : Nat) {fullResponse prompt text : Bytes}
    (returned : (toolLoop (toolEnv api sampleToken genConfig onToolCall handlers) (left + 1) fullResponse
      prompt s).output = .ok text) :
    (toolLoop (toolEnv api sampleToken genConfig onToolCall handlers) (left + 1) fullResponse prompt
        s).world.counts.total = s.counts.total ↔ s.engine.Idle api prompt genConfig := by
  let env : ToolEnv (Service M C σ) := toolEnv api sampleToken genConfig onToolCall handlers
  have preserves : env.Preserves Service.Advances := toolEnv_preserves genConfig onToolCall handlers
  have first := (s.generate_advances prompt genConfig : s.Advances (env.generate prompt s).2).counts
  have later := (preserves.after (preserves.loop left) fullResponse prompt s).counts
  cases asked : env.generate prompt s with
  | mk answer after =>
    cases answer with
    | error x =>
      rw [toolLoop, asked] at returned
      cases returned
    | ok response =>
      have answered : (s.generate api sampleToken prompt genConfig).1 = .ok response :=
        congrArg Prod.fst asked
      rw [← Service.generate_iff batches answered]
      constructor
      · intro none
        exact le_antisymm (later.trans none.le) first
      · intro none
        have empty := Service.generate_idle answered none
        have stops : (tryParseToolCall response {}).1 = false := by
          rw [empty]
          exact tryParseToolCall_nil
        rw [toolLoop, asked]
        dsimp only
        split
        · rw [show after = (env.generate prompt s).2 by rw [asked]]
          exact none
        · rename_i call parsed
          rw [parsed] at stops
          cases stops

/-- **A call that completes** counts nothing exactly when it is idle. -/
theorem Service.step_iff {handlers : Bytes → Option (ToolCallHandler σ)} {s : Service M C σ}
    (batches : 0 < toSizeT s.engine.backend.config.nBatch) {c : EngineCall σ}
    (completes : s.Completes api sampleToken handlers c) :
    (s.step api sampleToken handlers c).counts.total = s.counts.total ↔ s.Idle api c := by
  have map_ok : ∀ {text : Except StdException Bytes}, text.map (fun _ => ()) = .ok () → ∃ t, text = .ok t := by
    intro text mapped
    cases text with
    | error x => cases mapped
    | ok t => exact ⟨t, rfl⟩
  cases c with
  | generate prompt genConfig | generateAsync prompt genConfig =>
    obtain ⟨text, returned⟩ := map_ok completes
    exact Service.generate_iff batches returned
  | generateStream prompt onToken genConfig => exact Service.generateStream_iff batches completes
  | generateWithTools prompt onToolCall genConfig =>
    obtain ⟨text, returned⟩ := map_ok completes
    rw [step, call, Service.Idle]
    dsimp only
    rw [ModelRuntime.generateWithTools] at returned ⊢
    split
    · rename_i notReady
      rw [if_pos notReady] at returned
      cases returned
    · rename_i ready
      rw [if_neg ready] at returned
      cases bound : s.engine.config.maxToolCalls.toNat with
      | zero =>
        refine iff_of_true rfl (.inl ?_)
        omega
      | succ left =>
        rw [bound] at returned
        rw [Service.toolLoop_iff batches genConfig onToolCall handlers left returned]
        exact ⟨.inr, fun idle => idle.resolve_left (by omega)⟩

/-- Over a run, too. -/
theorem Service.run_iff {handlers : Bytes → Option (ToolCallHandler σ)} (calls : List (EngineCall σ)) :
    ∀ (s : Service M C σ), 0 < toSizeT s.engine.backend.config.nBatch →
      Along (Service.step api sampleToken handlers) (Service.Completes api sampleToken handlers) s calls →
      s.Advances (calls.foldl (Service.step api sampleToken handlers) s) ∧
        ((calls.foldl (Service.step api sampleToken handlers) s).counts.total = s.counts.total ↔
          Along (Service.step api sampleToken handlers) (Service.Idle api) s calls) := by
  induction calls with
  | nil => exact fun s _ _ => ⟨.refl s, iff_of_true rfl trivial⟩
  | cons c calls ih =>
    intro s batches completed
    have advances := @Service.step_advances M C L σ api sampleToken handlers s c
    have nBatch : 0 < toSizeT (s.step api sampleToken handlers c).engine.backend.config.nBatch := by
      obtain ⟨ctx, kept⟩ := advances.backend
      rw [kept]
      exact batches
    obtain ⟨later, rest⟩ := ih _ nBatch completed.2
    refine ⟨advances.trans later, ?_⟩
    rw [List.foldl_cons, Along, ← Service.step_iff batches completed.1, ← rest]
    have first := advances.counts
    have then_ := later.counts
    omega

/-- **Token statistics**: after a run of calls that complete the statistics are right exactly when none
of them has decoded or generated anything. -/
theorem counted_iff (handlers : Bytes → Option (ToolCallHandler σ)) (e : InferenceEngine M C)
    (batches : 0 < toSizeT e.backend.config.nBatch) (prompt : e.backend.promptTokensProcessed = 0)
    (generated : e.backend.tokensGenerated = 0) (draws : Nat) (user : σ) (calls : List (EngineCall σ))
    (completed : Along (Service.step api sampleToken handlers) (Service.Completes api sampleToken handlers)
      { engine := e, draws, user } calls) :
    (calls.foldl (Service.step api sampleToken handlers) { engine := e, draws, user }).Counted api
        sampleToken ↔
      Along (Service.step api sampleToken handlers) (Service.Idle api) { engine := e, draws, user } calls := by
  obtain ⟨advances, iff⟩ := Service.run_iff calls { engine := e, draws, user } batches completed
  obtain ⟨ctx, kept⟩ := advances.backend
  rw [← iff]
  generalize calls.foldl (Service.step api sampleToken handlers) { engine := e, draws, user } = last at kept ⊢
  have noTokens : last.engine.backend.tokensGenerated = 0 := by
    rw [kept]
    exact generated
  have noPrompt : last.engine.backend.promptTokensProcessed = 0 := by
    rw [kept]
    exact prompt
  show _ ↔ last.counts.prompt + last.counts.generated = 0
  constructor
  · intro counted
    have tokens := counted.generated
    have prompt := counted.prompt
    omega
  · intro none
    refine ⟨?_, ?_, fun _ _ => ?_, ?_⟩
    · omega
    · show last.engine.backend.tokensGenerated = _
      omega
    · show last.engine.backend.tokensGenerated = _
      omega
    · omega

end Calls

/-! ## The tool loop with counts is the tool loop -/

section Erase

variable {ω ω' : Type} {f : ω → ω'} {env : ToolEnv ω} {env' : ToolEnv ω'}

/-- Every call of one loop is, on what `f` keeps of the world, the call of the other. -/
structure ToolEnv.Simulates (f : ω → ω') (env : ToolEnv ω) (env' : ToolEnv ω') : Prop where
  generate : ∀ prompt w, env'.generate prompt (f w) = ((env.generate prompt w).1, f (env.generate prompt w).2)
  onToolCall : ∀ toolName arguments w, env'.onToolCall toolName arguments (f w) =
    ((env.onToolCall toolName arguments w).1, f (env.onToolCall toolName arguments w).2)
  executeTool : ∀ call w, ModelRuntime.executeTool env'.handlers call (f w) =
    ((ModelRuntime.executeTool env.handlers call w).1, f (ModelRuntime.executeTool env.handlers call w).2)

def ToolRun.map (f : ω → ω') (run : ToolRun ω) : ToolRun ω' where
  output := run.output
  world := f run.world
  trace := run.trace

theorem ToolEnv.Simulates.loop (h : env.Simulates f env') (left : Nat) : ∀ fullResponse currentPrompt w,
    toolLoop env' left fullResponse currentPrompt (f w) =
      (toolLoop env left fullResponse currentPrompt w).map f := by
  induction left with
  | zero => exact fun _ _ _ => rfl
  | succ left ih =>
    intro fullResponse currentPrompt w
    rw [toolLoop, toolLoop, h.generate]
    cases env.generate currentPrompt w with
    | mk answer w =>
      cases answer with
      | error x => rfl
      | ok response =>
        dsimp only
        split
        · rfl
        · rename_i call parsed
          rw [h.onToolCall]
          cases env.onToolCall call.toolName call.arguments w with
          | mk told w =>
            cases told with
            | error x => rfl
            | ok _ =>
              dsimp only
              rw [h.executeTool]
              cases ModelRuntime.executeTool env.handlers call w with
              | mk result w =>
                cases result with
                | error x => rfl
                | ok result =>
                  dsimp only
                  rw [ih]
                  rfl

/-- Without its counts a service is an engine, its draws and the state of its callbacks. -/
def Service.erase (s : Service M C σ) : InferenceEngine M C × Nat × σ := (s.engine, s.draws, s.user)

theorem Service.toolEnv_simulates (genConfig : GenerationConfig)
    (onToolCall : Bytes → Bytes → σ → Except StdException Unit × σ)
    (handlers : Bytes → Option (ToolCallHandler σ)) :
    (toolEnv api sampleToken genConfig onToolCall handlers : ToolEnv (Service M C σ)).Simulates
      Service.erase (InferenceEngine.toolEnv api sampleToken genConfig onToolCall handlers) where
  generate _ _ := rfl
  onToolCall _ _ _ := rfl
  executeTool call s := by
    rw [executeTool, executeTool, toolEnv, InferenceEngine.toolEnv]
    dsimp only
    cases handlers call.toolName with
    | none => rfl
    | some handler => rfl

/-- `generate_with_tools` is the same with counts and without. -/
theorem Service.generateWithTools_erase (s : Service M C σ) (handlers : Bytes → Option (ToolCallHandler σ))
    (prompt : Bytes) (onToolCall : Bytes → Bytes → σ → Except StdException Unit × σ)
    (genConfig : GenerationConfig) :
    s.engine.generateWithTools api sampleToken handlers prompt onToolCall genConfig s.draws s.user =
      (ModelRuntime.generateWithTools (toolEnv api sampleToken genConfig onToolCall handlers) s.engine.ready
        s.engine.config.maxToolCalls prompt s).map Service.erase := by
  rw [InferenceEngine.generateWithTools, ModelRuntime.generateWithTools, ModelRuntime.generateWithTools]
  split
  · rfl
  · exact (toolEnv_simulates api sampleToken genConfig onToolCall handlers).loop _ [] prompt s

end Erase

/-! ## A service on the small model -/

/-- An engine on the small model, which always draws token 1. -/
def sumService : Service Unit (List (Int × Int)) Unit := { engine := sumEngine, user := () }

/-- Two tokens for the text `d`, and a tool call on an empty prompt. -/
def twoCalls : List (EngineCall Unit) :=
  [.generate (str "d") { maxTokens := 2 }, .generateWithTools [] (fun _ _ _ => (.ok (), ())) { maxTokens := 2 }]

theorem counted_iff_two :
    (twoCalls.foldl (Service.step countLlama (fun _ _ _ _ _ => 1) fun _ => none) sumService).Counted
        countLlama (fun _ _ _ _ _ => 1) ↔
      Along (Service.step countLlama (fun _ _ _ _ _ => 1) fun _ => none) (Service.Idle countLlama)
        sumService twoCalls :=
  counted_iff (fun _ => none) sumEngine (by decide) rfl rfl 0 () twoCalls
    ⟨by decide +kernel, by decide +kernel, trivial⟩

/-- The small model without a vocabulary. -/
def blankLlama : LlamaCpp Unit (List (Int × Int)) (List Int) := { sumLlama with nVocab := fun _ => 0 }

/-- Two tokens and a prompt of two are not counted; neither are those of the placeholder, which a model
without a vocabulary is answered with. -/
theorem counted_none :
    (¬ ∀ calls : List (EngineCall Unit),
      Along (Service.step countLlama (fun _ _ _ _ _ => 1) fun _ => none)
        (Service.Completes countLlama (fun _ _ _ _ _ => 1) fun _ => none) sumService calls →
      (calls.foldl (Service.step countLlama (fun _ _ _ _ _ => 1) fun _ => none) sumService).Counted
        countLlama fun _ _ _ _ _ => 1) ∧
    TokenizeContract blankLlama byteVocab ∧
    ¬ ∀ calls : List (EngineCall Unit),
      Along (Service.step blankLlama (fun _ _ _ _ _ => 1) fun _ => none)
        (Service.Completes blankLlama (fun _ _ _ _ _ => 1) fun _ => none) sumService calls →
      (calls.foldl (Service.step blankLlama (fun _ _ _ _ _ => 1) fun _ => none) sumService).Counted
        blankLlama fun _ _ _ _ _ => 1 := by
  refine ⟨fun all => ?_, fun _ _ _ _ _ => rfl, fun all => ?_⟩
  · have counted := all [.generate (str "d") { maxTokens := 2 }] ⟨by decide +kernel, trivial⟩
    have tokens := counted.generated
    revert tokens
    decide +kernel
  · have counted := all [.generate (str "d") { maxTokens := 2 }] ⟨by decide +kernel, trivial⟩
    have tokens := counted.generated
    revert tokens
    decide +kernel

end ModelRuntime
