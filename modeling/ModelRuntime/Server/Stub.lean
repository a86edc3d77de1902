import ModelRuntime.Engine.Lifecycle
import ModelRuntime.Engine.Tools
import ModelRuntime.Server.Health
import ModelRuntime.Tokenizer.NormalForm
import ModelRuntime.Tokenizer.RoundTrip

/-!
# Serving without a model

Without a model path nothing fills the engine's tokenizer, and the placeholder response goes through it: its
separators come back as they are, in front, and every other byte as `<UNK>`. That text, cut at `max_tokens`, is what
each of the engine's entry points and each of the completion routes answers to every prompt.
-/

namespace ModelRuntime
open Cpp Lib Lib.Json

/-! ## A tokenizer that nothing has been loaded into -/

namespace Tokenizer

/-- The text of an unknown token. -/
def unknownText : Bytes := str "<UNK>"

/-- There is nothing to merge. -/
theorem pieces_unloaded (word : Bytes) : ({} : Tokenizer).pieces word = single word := by
  apply whileSome_stop
  cases pass : ({} : Tokenizer).mergePass (single word) with
  | none => rfl
  | some chars =>
    obtain ⟨k, m, chosen, _⟩ := mergePass_iff.1 pass
    obtain ⟨_, _, listed⟩ := chosen.mergeable
    cases listed

theorem pieceId_unloaded (ch : Bytes) : ({} : Tokenizer).pieceId ch = 0 := by
  have prefixes : ∀ n : Nat, ({} : Tokenizer).longestPrefix ch n = 0 := by
    intro n
    induction n with
    | zero => rfl
    | succ n ih => exact ih
  exact prefixes ch.length

theorem bpeEncode_unloaded (word : Bytes) : ({} : Tokenizer).bpeEncode word = List.replicate word.length 0 := by
  rw [bpeEncode_pieces, pieces_unloaded, List.map_congr_left fun ch _ => pieceId_unloaded ch, List.map_const',
    single_length]

/-- The separators' ids, then a `0` for each other byte. -/
theorem encode_unloaded (text : Bytes) : ({} : Tokenizer).encode text =
    (text.filter isSeparator).map (fun c => (c.toNat : Int) + 256) ++
      List.replicate (text.countP (!isSeparator ·)) 0 := by
  obtain ⟨words, flat, whole⟩ := ({} : Tokenizer).encode_eq text
  have each : ∀ words : List Bytes, words.flatMap ({} : Tokenizer).bpeEncode = List.replicate words.flatten.length 0 := by
    intro words
    induction words with
    | nil => rfl
    | cons word words ih =>
      rw [List.flatMap_cons, List.flatten_cons, ih, bpeEncode_unloaded, List.length_append, List.replicate_append_replicate]
  rw [whole, each, flat, ← List.countP_eq_length_filter]
  rfl

theorem tokenText_separator (c : UInt8) : ({} : Tokenizer).tokenText ((c.toNat : Int) + 256) = [c] := by
  have byte := c.toNat_lt
  rw [tokenText, show ({} : Tokenizer).reverseVocab.lookup ((c.toNat : Int) + 256) = none from rfl]
  dsimp only
  rw [if_pos (by omega), Int.add_sub_cancel, Int.toNat_natCast, UInt8.ofNat_toNat]

/-- What the first `n` tokens of a text come back as. -/
def unloadedText (text : Bytes) (n : Nat) : Bytes :=
  (text.filter isSeparator).take n ++
    (List.replicate (min (n - (text.filter isSeparator).length) (text.countP (!isSeparator ·))) unknownText).flatten

theorem decode_take_unloaded (text : Bytes) (n : Nat) :
    ({} : Tokenizer).decode ((({} : Tokenizer).encode text).take n) = unloadedText text n := by
  rw [encode_unloaded, List.take_append, decode_append, ← List.map_take, List.length_map, List.take_replicate]
  have front : ∀ cs : Bytes, ({} : Tokenizer).decode (cs.map fun c => (c.toNat : Int) + 256) = cs := by
    intro cs
    rw [decode_eq_flatMap, List.flatMap_map]
    simp [tokenText_separator]
  have back : ∀ k : Nat, ({} : Tokenizer).decode (List.replicate k 0) = (List.replicate k unknownText).flatten := by
    intro k
    rw [decode_eq_flatMap, List.flatMap_def, List.map_replicate]
    rfl
  rw [front, back, unloadedText]

end Tokenizer

/-- What an engine without a model says, in `maxTokens` tokens. -/
def stubText (maxTokens : Int) : Bytes := Tokenizer.unloadedText InferenceEngine.stubResponse maxTokens.toNat

theorem mem_stubText {maxTokens : Int} {c : UInt8} (mem : c ∈ stubText maxTokens) : c ∈ str " ,.<UNK>" := by
  have separators : ∀ c ∈ InferenceEngine.stubResponse.filter Tokenizer.isSeparator, c ∈ str " ,.<UNK>" := by decide
  have unknown : ∀ c ∈ Tokenizer.unknownText, c ∈ str " ,.<UNK>" := by decide
  rcases List.mem_append.1 mem with mem | mem
  · exact separators c (List.mem_of_mem_take mem)
  · obtain ⟨text, same, mem⟩ := List.mem_flatten.1 mem
    rw [List.eq_of_mem_replicate same] at mem
    exact unknown c mem

theorem stubText_clean (maxTokens : Int) : Clean (stubText maxTokens) := by
  have plain : ∀ c ∈ str " ,.<UNK>", (c ≠ quote ∧ c ≠ backslash ∧ 32 ≤ c) ∧ c < 128 := by decide
  exact ⟨Ascii.utf8 fun c mem => (plain c (mem_stubText mem)).2, fun c mem => (plain c (mem_stubText mem)).1⟩

/-- The placeholder is never what is said. -/
theorem stubText_ne (maxTokens : Int) : stubText maxTokens ≠ InferenceEngine.stubResponse := by
  intro same
  have letter : 73 ∈ stubText maxTokens := by
    rw [same]
    decide
  exact absurd (mem_stubText letter) (by decide)

/-- A response with a tool call has a brace. -/
theorem openBrace_of_toolCall {output : Bytes} {result : ToolCall} (found : (tryParseToolCall output result).1 = true) :
    openBrace ∈ output := by
  rw [tryParseToolCall] at found
  split at found
  · rename_i cs hit
    obtain ⟨before, m, rest, rfl, derived⟩ := Regex.search_sound hit
    obtain ⟨name, body, isMatch, _⟩ := derives_toolPattern.1 derived
    obtain ⟨_, _, _, _, _, _, _, _, _, _, _, _, rfl⟩ := isMatch.split
    have first : openBrace ∈ str "\x7b\"tool\"" := by decide
    simp [callFront, first]
  · cases found

theorem stubText_noTool (maxTokens : Int) : (tryParseToolCall (stubText maxTokens) {}).1 = false := by
  rw [← Bool.not_eq_true]
  intro found
  exact absurd (mem_stubText (openBrace_of_toolCall found)) (by decide)

/-! ## The engine -/

/-- No model path, and so no model and no vocabulary. -/
structure EngineProcess.StubMode (s : EngineProcess) : Prop where
  path : s.config.modelPath = []
  model : s.llama.backend.model = none
  fresh : s.tokenizer = {}

namespace EngineProcess

variable {withCuda : Bool} {s : EngineProcess}

theorem StubMode.start (stub : s.StubMode) (outcome : StartOutcome) : (s.start withCuda outcome).2.StubMode := by
  obtain ⟨gpu, gpuDevice, shape⟩ := s.acquireGpu_shape withCuda outcome.devices
  have acquired : (s.acquireGpu withCuda outcome.devices).2.StubMode := by
    rw [shape]
    exact ⟨stub.path, stub.model, stub.fresh⟩
  rw [EngineProcess.start]
  generalize s.acquireGpu withCuda outcome.devices = out at acquired
  obtain ⟨_ | _, s'⟩ := out
  · exact acquired
  · dsimp only
    rw [acquireModel, if_pos acquired.path]
    dsimp only
    rw [launch]
    split
    · exact ⟨acquired.path, acquired.model, acquired.fresh⟩
    · exact ⟨acquired.path, acquired.model, acquired.fresh⟩

theorem StubMode.stop (stub : s.StubMode) : (s.stop withCuda).StubMode := by
  rw [EngineProcess.stop]
  split
  · exact stub
  · refine ⟨stub.path, ?_, stub.fresh⟩
    rw [LlamaProcess.unload]
    split
    · exact stub.model
    · rfl

theorem StubMode.step (stub : s.StubMode) (c : LifeCall) : (s.step withCuda c).StubMode := by
  cases c with
  | start outcome => exact stub.start outcome
  | stop => exact stub.stop

variable (withCuda) in
/-- **An engine without a model path** never gets a model or a vocabulary. -/
theorem run_stubMode {config : EngineConfig} (path : config.modelPath = []) (calls : List LifeCall) :
    (calls.foldl (EngineProcess.step withCuda) (.init config)).StubMode :=
  List.foldlRecOn calls _ ⟨path, rfl, rfl⟩ fun _ stub c _ => stub.step c

end EngineProcess

section Generating

variable {M C L σ : Type} {api : LlamaCpp M C L} {sampleToken : Sampler L} {e : InferenceEngine M C}

/-- A ready engine whose backend has no model and whose tokenizer is as it was made. -/
structure InferenceEngine.Stub (e : InferenceEngine M C) : Prop where
  model : e.backend.model = none
  fresh : e.tokenizer = {}
  ready : e.ready = true

namespace InferenceEngine

theorem Stub.noVocab (stub : e.Stub) : ¬ 0 < e.backend.vocabSize api := by
  rw [LlamaBackend.vocabSize, stub.model]
  exact Int.lt_irrefl 0

variable (api sampleToken) in
theorem Stub.generate (stub : e.Stub) (prompt : Bytes) (genConfig : GenerationConfig) (draws : Nat) :
    (e.generate api sampleToken prompt genConfig draws).1 = .ok (stubText genConfig.maxTokens) := by
  rw [InferenceEngine.generate, stub.ready, Bool.not_true, if_neg Bool.false_ne_true, sampleTokens,
    if_neg stub.noVocab]
  dsimp only
  rw [responseText, if_neg stub.noVocab, stub.fresh, Tokenizer.decode_take_unloaded]
  rfl

theorem reportAll_texts (text : Int → Bytes) (tokens : List Int) : ∀ said : Bytes,
    reportAll (fun id said => .ok (said ++ text id)) tokens said = .ok (said ++ tokens.flatMap text) := by
  induction tokens with
  | nil => simp [reportAll]
  | cons token tokens ih =>
    intro said
    rw [reportAll]
    dsimp only
    rw [ih, List.flatMap_cons, List.append_assoc]

variable (api sampleToken) in
/-- The texts that the callback gets. -/
theorem Stub.generateStream (stub : e.Stub) (prompt : Bytes) (genConfig : GenerationConfig) (draws : Nat) :
    (e.generateStream api sampleToken prompt (fun token said => .ok (said ++ token.text)) genConfig draws []).1 =
      .ok (stubText genConfig.maxTokens) := by
  have texts : ∀ id : Int, (e.streamToken api id).text = ({} : Tokenizer).tokenText id := by
    intro id
    rw [streamToken, tokenToText, if_neg stub.noVocab, stub.fresh, Tokenizer.decode_eq_flatMap, List.flatMap_singleton]
  rw [InferenceEngine.generateStream, stub.ready, Bool.not_true, if_neg Bool.false_ne_true, if_neg stub.noVocab,
    sampleTokens, if_neg stub.noVocab]
  dsimp only
  simp only [texts]
  rw [reportAll_texts]
  dsimp only
  rw [stub.fresh, List.nil_append, ← Tokenizer.decode_eq_flatMap, Tokenizer.decode_take_unloaded]
  rfl

variable (api sampleToken) in
/-- No tool is ever called. -/
theorem Stub.generateWithTools {υ : Type} (stub : e.Stub) (handlers : Bytes → Option (ToolCallHandler υ))
    (prompt : Bytes) (onToolCall : Bytes → Bytes → υ → Except StdException Unit × υ) (genConfig : GenerationConfig)
    (draws : Nat) (user : υ) :
    let run := e.generateWithTools api sampleToken handlers prompt onToolCall genConfig draws user
    run.output = .ok (if 0 < e.config.maxToolCalls then stubText genConfig.maxTokens else []) ∧
      ∀ event ∈ run.trace, event = .generate prompt (.ok (stubText genConfig.maxTokens)) := by
  intro run
  dsimp only [run]
  rw [InferenceEngine.generateWithTools, ModelRuntime.generateWithTools, stub.ready, Bool.not_true,
    if_neg Bool.false_ne_true]
  cases calls : e.config.maxToolCalls.toNat with
  | zero =>
    rw [if_neg (by omega), toolLoop]
    exact ⟨rfl, by simp⟩
  | succ left =>
    rw [if_pos (by omega), toolLoop]
    have answer : ((toolEnv api sampleToken genConfig onToolCall handlers).generate prompt (e, draws, user)).1 =
        .ok (stubText genConfig.maxTokens) := stub.generate api sampleToken prompt genConfig draws
    generalize (toolEnv api sampleToken genConfig onToolCall handlers).generate prompt (e, draws, user) = out at answer
    obtain ⟨response, world⟩ := out
    cases answer
    dsimp only
    have noTool := stubText_noTool genConfig.maxTokens
    generalize tryParseToolCall (stubText genConfig.maxTokens) {} = parsed at noTool
    obtain ⟨found, call⟩ := parsed
    cases noTool
    exact ⟨rfl, by simp⟩

variable (api sampleToken) in
/-- The completion routes answer with it, too. -/
theorem Stub.completion (stub : e.Stub) (env : ServerEnv) (draws : Nat) {request : HttpRequest}
    (completion : request.IsChat ∨ request.IsText) {call : GenerateCall}
    (read : readCall (e.serverEnv api sampleToken env draws) request.body = .ok call) :
    let server := e.serverEnv api sampleToken env draws
    outcome server request = .ok (call, stubText call.maxTokens) ∧
      (routeRequest server request).1.statusCode = 200 ∧ (Conveys server request ↔ Clean call.model) := by
  intro server
  have returns : generateResponse server call = .ok (stubText call.maxTokens) :=
    stub.generate api sampleToken call.prompt _ draws
  have answered : outcome server request = .ok (call, stubText call.maxTokens) := by
    rw [outcome, read]
    dsimp only [bind, Except.bind]
    rw [returns]
    rfl
  refine ⟨answered, ?_, ?_⟩
  · rcases completion with chat | text
    · rw [route_chat chat]
      exact complete_status read returns
    · rw [route_text text]
      exact complete_status read returns
  · rw [conveys_completion_iff completion, answered]
    exact and_iff_left (stubText_clean call.maxTokens)

end InferenceEngine

end Generating

/-- **An engine without a model path**, whatever starts and stops are behind it: while it is ready, each of its entry
points and each completion route answers every prompt with the same text, which no tool call is found in and which is
never the placeholder; the response shows it wherever the request's model needs no escaping. -/
theorem stub_serves {withCuda : Bool} {config : EngineConfig} (path : config.modelPath = []) (calls : List LifeCall)
    (ready : (calls.foldl (EngineProcess.step withCuda) (.init config)).ready = true) {L υ : Type}
    (api : LlamaCpp Nat Nat L) (sampleToken : Sampler L) (prompt : Bytes) (genConfig : GenerationConfig) (draws : Nat)
    (handlers : Bytes → Option (ToolCallHandler υ))
    (onToolCall : Bytes → Bytes → υ → Except StdException Unit × υ) (user : υ) (env : ServerEnv) :
    let e := (calls.foldl (EngineProcess.step withCuda) (.init config)).engine
    let server := e.serverEnv api sampleToken env draws
    let text := stubText genConfig.maxTokens
    text ≠ InferenceEngine.stubResponse ∧
      (e.generate api sampleToken prompt genConfig draws).1 = .ok text ∧
      (e.generateStream api sampleToken prompt (fun token said => .ok (said ++ token.text)) genConfig draws []).1 =
        .ok text ∧
      (e.generateWithTools api sampleToken handlers prompt onToolCall genConfig draws user).output =
        .ok (if 0 < e.config.maxToolCalls then text else []) ∧
      (∀ event ∈ (e.generateWithTools api sampleToken handlers prompt onToolCall genConfig draws user).trace,
        event = .generate prompt (.ok text)) ∧
      ∀ (request : HttpRequest) (call : GenerateCall), request.IsChat ∨ request.IsText →
        readCall server request.body = .ok call →
        outcome server request = .ok (call, stubText call.maxTokens) ∧
          (routeRequest server request).1.statusCode = 200 ∧ (Conveys server request ↔ Clean call.model) := by
  intro e server text
  have mode := EngineProcess.run_stubMode withCuda path calls
  have stub : e.Stub := ⟨mode.model, mode.fresh, ready⟩
  have tools := stub.generateWithTools api sampleToken handlers prompt onToolCall genConfig draws user
  exact ⟨stubText_ne genConfig.maxTokens, stub.generate api sampleToken prompt genConfig draws,
    stub.generateStream api sampleToken prompt genConfig draws, tools.1, tools.2,
    fun request call completion read => stub.completion api sampleToken env draws completion read⟩

/-- After a restart, with a prompt that is a tool call itself. -/
theorem stub_serves_restarted :
    let api : LlamaCpp Nat Nat Unit :=
      { tokenize := fun _ _ _ _ _ _ => (0, []), tokenToPiece := fun _ _ _ _ _ => (0, []), tokenIsEog := fun _ _ => false,
        nVocab := fun _ => 0, kvCacheClear := id, decode := fun ctx _ => (0, ctx), getLogitsIth := fun _ _ => () }
    let sampleToken : Sampler Unit := fun _ _ _ _ _ => 0
    let prompt := toolCallText (str "memory_search") (str "\x7b\"query\": \"x\"\x7d")
    let genConfig : GenerationConfig := { maxTokens := 20 }
    let handlers : Bytes → Option (ToolCallHandler Unit) := fun _ => none
    let onToolCall : Bytes → Bytes → Unit → Except StdException Unit × Unit := fun _ _ user => (.ok (), user)
    let e := ([.start {}, .stop, .start {}].foldl (EngineProcess.step false) (.init {})).engine
    let server := e.serverEnv api sampleToken plainEnv 0
    let text := stubText genConfig.maxTokens
    text ≠ InferenceEngine.stubResponse ∧
      (e.generate api sampleToken prompt genConfig 0).1 = .ok text ∧
      (e.generateStream api sampleToken prompt (fun token said => .ok (said ++ token.text)) genConfig 0 []).1 =
        .ok text ∧
      (e.generateWithTools api sampleToken handlers prompt onToolCall genConfig 0 ()).output =
        .ok (if 0 < e.config.maxToolCalls then text else []) ∧
      (∀ event ∈ (e.generateWithTools api sampleToken handlers prompt onToolCall genConfig 0 ()).trace,
        event = .generate prompt (.ok text)) ∧
      ∀ (request : HttpRequest) (call : GenerateCall), request.IsChat ∨ request.IsText →
        readCall server request.body = .ok call →
        outcome server request = .ok (call, stubText call.maxTokens) ∧
          (routeRequest server request).1.statusCode = 200 ∧ (Conveys server request ↔ Clean call.model) :=
  stub_serves rfl _ rfl _ _ _ _ _ _ _ _ _

end ModelRuntime
