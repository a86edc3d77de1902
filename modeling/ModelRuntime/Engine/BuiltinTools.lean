import ModelRuntime.Engine.Lifecycle
import ModelRuntime.Engine.Tools
import ModelRuntime.Lib.Registry
import ModelRuntime.Server.Response

/-!
# The tools of a started engine

A `start` that gets past the model registers three tools, over whatever was registered under their names; the
tools of others come and go by `register_tool`. What `execute_tool` then answers within `generate_with_tools` is
told by the registrations of the whole run.
-/

namespace ModelRuntime
open Cpp Lib Lib.Json Lib.Registry

variable {υ : Type}

/-- A handler that looks at nothing. -/
def fixedTool (text : Bytes) : ToolCallHandler υ := fun _ world => (.ok text, world)

/-- The registrations of `start`. -/
def builtinTools : List (Bytes × Bytes) := [
  (str "memory_search", str "\x7b\"status\": \"ok\", \"results\": []\x7d"),
  (str "memory_write", str "\x7b\"status\": \"ok\", \"id\": \"memory_001\"\x7d"),
  (str "code_execute", str "\x7b\"status\": \"ok\", \"output\": \"executed\"\x7d")]

/-- The engine with `handlers_`. -/
structure ToolProcess (υ : Type) where
  engine : EngineProcess
  handlers : Bytes → Option (ToolCallHandler υ) := fun _ => none

inductive ToolAction (υ : Type) where
  | registerTool (toolName : Bytes) (handler : ToolCallHandler υ)
  | life (c : LifeCall)

namespace ToolProcess

def init (config : EngineConfig) : ToolProcess υ where
  engine := .init config

variable (withCuda : Bool) (p : ToolProcess υ)

def registerTool (toolName : Bytes) (handler : ToolCallHandler υ) : ToolProcess υ :=
  { p with handlers := register p.handlers (toolName, handler) }

/-- `start` with its registrations, which stand between the model and `ready_ = true`. -/
def start (outcome : StartOutcome) : Started × ToolProcess υ :=
  match p.engine.acquireGpu withCuda outcome.devices with
  | (false, engine) => (.returned false, { p with engine })
  | (true, engine) =>
    match engine.acquireModel outcome with
    | (.error x, engine) => (.threw x, { p with engine })
    | (.ok false, engine) => (.returned false, { p with engine })
    | (.ok true, engine) =>
      let p := builtinTools.foldl (fun p tool => p.registerTool tool.1 (fixedTool tool.2)) { p with engine }
      let (started, engine) := p.engine.launch
      (started, { p with engine })

def step : ToolAction υ → ToolProcess υ
  | .registerTool toolName handler => p.registerTool toolName handler
  | .life (.start outcome) => (p.start withCuda outcome).2
  | .life .stop => { p with engine := p.engine.stop withCuda }

/-- `generate_with_tools`. -/
def generateWithTools {L : Type} (api : LlamaCpp Nat Nat L) (sampleToken : Sampler L) (prompt : Bytes)
    (onToolCall : Bytes → Bytes → υ → Except StdException Unit × υ) (genConfig : GenerationConfig)
    (draws : Nat) (user : υ) : ToolRun (InferenceEngine Nat Nat × Nat × υ) :=
  p.engine.engine.generateWithTools api sampleToken p.handlers prompt onToolCall genConfig draws user

/-! ## The registrations of a run -/

/-- What an action registers. -/
def entries : ToolAction υ → List (Bytes × ToolCallHandler υ)
  | .registerTool toolName handler => [(toolName, handler)]
  | .life (.start outcome) =>
    match (p.engine.start withCuda outcome).1 with
    | .returned true | .terminated => builtinTools.map fun tool => (tool.1, fixedTool tool.2)
    | _ => []
  | .life .stop => []

/-- What the actions of a run register, in order. -/
def registrations : ToolProcess υ → List (ToolAction υ) → List (Bytes × ToolCallHandler υ)
  | _, [] => []
  | p, a :: actions => p.entries withCuda a ++ registrations (p.step withCuda a) actions

variable {withCuda p} {outcome : StartOutcome}

theorem foldl_registerTool (tools : List (Bytes × Bytes)) : ∀ p : ToolProcess υ,
    tools.foldl (fun p tool => p.registerTool tool.1 (fixedTool tool.2)) p =
      { p with handlers := (tools.map fun tool => (tool.1, fixedTool tool.2)).foldl register p.handlers } := by
  induction tools with
  | nil => exact fun _ => rfl
  | cons tool tools ih =>
    intro p
    rw [List.foldl_cons, ih]
    rfl

theorem launch_started (s : EngineProcess) : s.launch.1 = .returned true ∨ s.launch.1 = .terminated := by
  rw [EngineProcess.launch]
  split
  · exact .inr rfl
  · exact .inl rfl

/-- **The start** is that of the engine, with the registrations of one that gets to its end. -/
theorem start_eq (outcome : StartOutcome) : p.start withCuda outcome =
    ((p.engine.start withCuda outcome).1,
      { engine := (p.engine.start withCuda outcome).2
        handlers := (p.entries withCuda (.life (.start outcome))).foldl register p.handlers }) := by
  rw [start, entries, EngineProcess.start]
  obtain ⟨_ | _, engine⟩ := p.engine.acquireGpu withCuda outcome.devices
  · rfl
  · dsimp only
    obtain ⟨_ | _ | _, engine⟩ := engine.acquireModel outcome
    · rfl
    · rfl
    · dsimp only
      rw [foldl_registerTool]
      rcases launch_started engine with launched | launched
      · rw [launched]
      · rw [launched]

theorem step_handlers (a : ToolAction υ) :
    (p.step withCuda a).handlers = (p.entries withCuda a).foldl register p.handlers := by
  rcases a with ⟨toolName, handler⟩ | outcome | _
  · rfl
  · rw [step, start_eq]
  · rfl

theorem run_handlers (actions : List (ToolAction υ)) : ∀ p : ToolProcess υ,
    (actions.foldl (step withCuda) p).handlers = (registrations withCuda p actions).foldl register p.handlers := by
  induction actions with
  | nil => exact fun _ => rfl
  | cons a actions ih =>
    intro p
    rw [List.foldl_cons, ih, step_handlers, registrations, List.foldl_append]

theorem registrations_append (front back : List (ToolAction υ)) : ∀ p : ToolProcess υ,
    registrations withCuda p (front ++ back) =
      registrations withCuda p front ++ registrations withCuda (front.foldl (step withCuda) p) back := by
  induction front with
  | nil => exact fun _ => rfl
  | cons a front ih =>
    intro p
    rw [List.cons_append, registrations, registrations, ih, List.append_assoc, List.foldl_cons]

/-! ## A ready engine has its tools -/

/-- While the engine is ready, the three names are registered. -/
def Stocked (p : ToolProcess υ) : Prop :=
  p.engine.ready = true → ∀ tool ∈ builtinTools, p.handlers tool.1 ≠ none

theorem acquireModel_ready (s : EngineProcess) (outcome : StartOutcome) :
    (s.acquireModel outcome).2.ready = s.ready := by
  rw [EngineProcess.acquireModel]
  split
  · rfl
  · obtain ⟨_ | _, llama⟩ := s.llama.loadModel s.config.modelPath outcome.load
    · rfl
    · rfl

variable (withCuda) in
/-- A start leaves `ready_` alone unless it gets to the registrations. -/
theorem start_ready (s : EngineProcess) (outcome : StartOutcome) : (s.start withCuda outcome).2.ready = s.ready ∨
    (s.start withCuda outcome).1 = .returned true ∨ (s.start withCuda outcome).1 = .terminated := by
  obtain ⟨gpu, gpuDevice, shape⟩ := s.acquireGpu_shape withCuda outcome.devices
  rw [EngineProcess.start]
  generalize s.acquireGpu withCuda outcome.devices = acquired at shape
  obtain ⟨_ | _, s'⟩ := acquired
  · subst shape
    exact .inl rfl
  · have ready : s'.ready = s.ready := by
      subst shape
      rfl
    have model := acquireModel_ready s' outcome
    dsimp only
    generalize s'.acquireModel outcome = acquired at model
    obtain ⟨_ | _ | _, s''⟩ := acquired
    · exact .inl (model.trans ready)
    · exact .inl (model.trans ready)
    · exact .inr (launch_started s'')

theorem register_ne_none {table : Bytes → Option (ToolCallHandler υ)} {name : Bytes} (there : table name ≠ none)
    (entry : Bytes × ToolCallHandler υ) : register table entry name ≠ none := by
  rw [register, Function.update_apply]
  split
  · exact Option.some_ne_none _
  · exact there

theorem foldl_register_ne_none {name : Bytes} (entries : List (Bytes × ToolCallHandler υ)) :
    ∀ table : Bytes → Option (ToolCallHandler υ), table name ≠ none ∨ name ∈ entries.map Prod.fst →
      entries.foldl register table name ≠ none := by
  induction entries with
  | nil => simp
  | cons entry entries ih =>
    intro table there
    apply ih
    rcases there with there | there
    · exact .inl (register_ne_none there entry)
    · rcases List.mem_cons.1 there with rfl | there
      · exact .inl (by simp [register])
      · exact .inr there

theorem Stocked.step (stocked : p.Stocked) (a : ToolAction υ) : (p.step withCuda a).Stocked := by
  intro ready tool mem
  rw [step_handlers]
  apply foldl_register_ne_none
  rcases a with ⟨toolName, handler⟩ | outcome | _
  · exact .inl (stocked ready tool mem)
  · have launched := start_ready withCuda p.engine outcome
    rw [ToolProcess.step, start_eq] at ready
    rcases launched with same | done
    · exact .inl (stocked (same.symm.trans ready) tool mem)
    · have registered : p.entries withCuda (.life (.start outcome)) =
          builtinTools.map fun tool => (tool.1, fixedTool tool.2) := by
        rw [entries]
        rcases done with done | done <;> rw [done]
      rw [registered, List.map_map]
      exact .inr (List.mem_map_of_mem mem)
  · refine .inl (stocked ?_ tool mem)
    rw [ToolProcess.step, EngineProcess.stop] at ready
    split at ready
    · exact ready
    · cases ready

variable (withCuda) in
theorem run_stocked (actions : List (ToolAction υ)) :
    ∀ p : ToolProcess υ, p.Stocked → (actions.foldl (step withCuda) p).Stocked := by
  induction actions with
  | nil => exact fun _ stocked => stocked
  | cons a actions ih => exact fun p stocked => ih (p.step withCuda a) (stocked.step a)

/-- The three names differ. -/
theorem builtin_of_key {tool : Bytes × Bytes} (builtin : tool ∈ builtinTools) {e : Bytes × ToolCallHandler υ}
    (mem : e ∈ builtinTools.map fun tool => (tool.1, fixedTool tool.2)) (key : e.1 = tool.1) :
    e = (tool.1, fixedTool tool.2) := by
  have apart : ∀ t ∈ builtinTools, ∀ u ∈ builtinTools, t.1 = u.1 → t = u := by decide
  obtain ⟨tool', mem', rfl⟩ := List.mem_map.1 mem
  rw [apart tool' mem' tool builtin key]

variable (withCuda) in
/-- Whoever registers nothing under the name of one of the three leaves it to the starts. -/
theorem registrations_builtin {tool : Bytes × Bytes} (builtin : tool ∈ builtinTools)
    {actions : List (ToolAction υ)} : ∀ p : ToolProcess υ, (∀ handler, .registerTool tool.1 handler ∉ actions) →
      ∀ e ∈ registrations withCuda p actions, e.1 = tool.1 → e = (tool.1, fixedTool tool.2) := by
  induction actions with
  | nil => simp [registrations]
  | cons a actions ih =>
    intro p nobody e mem key
    rw [registrations, List.mem_append] at mem
    rcases mem with mem | mem
    · rcases a with ⟨toolName, handler⟩ | outcome | _
      · obtain rfl := List.mem_singleton.1 mem
        exact absurd (by rw [← key]; exact List.mem_cons_self) (nobody handler)
      · rw [entries] at mem
        split at mem
        · exact builtin_of_key builtin mem key
        · exact builtin_of_key builtin mem key
        · cases mem
      · cases mem
    · exact ih _ (fun handler mem => nobody handler (List.mem_cons_of_mem _ mem)) e mem key

end ToolProcess

/-! ## What is executed -/

/-- The answer of `execute_tool` to an unknown tool. -/
def unknownTool (toolName : Bytes) : Bytes := errorBody (.runtimeError (str "Unknown tool: " ++ toolName))

theorem executeTool_unknown {ω : Type} {handlers : Bytes → Option (ToolCallHandler ω)} {call : ToolCall}
    (absent : handlers call.toolName = none) (world : ω) :
    executeTool handlers call world = (.ok (unknownTool call.toolName), world) := by
  have front : str "\x7b\"error\": \"Unknown tool: " = str "\x7b\"error\": \"" ++ str "Unknown tool: " := by decide
  rw [executeTool, absent, unknownTool, errorBody, StdException.what, front]
  simp only [List.append_assoc]

theorem InferenceEngine.toolEnv_handlers {M C L : Type} (api : LlamaCpp M C L) (sampleToken : Sampler L)
    (genConfig : GenerationConfig) (onToolCall : Bytes → Bytes → υ → Except StdException Unit × υ)
    (handlers : Bytes → Option (ToolCallHandler υ)) (name : Bytes) :
    (toolEnv api sampleToken genConfig onToolCall handlers).handlers name = (handlers name).map
      fun handler call world => ((handler call world.2.2).1, world.1, world.2.1, (handler call world.2.2).2) := rfl

/-- Every `execute_tool` of the loop is one with the loop's handlers. -/
theorem toolLoop_executed {ω : Type} (env : ToolEnv ω) {call : ToolCall} {result : Except StdException Bytes}
    (left : Nat) (fullResponse currentPrompt : Bytes) (world : ω)
    (executed : .executeTool call result ∈ (toolLoop env left fullResponse currentPrompt world).trace) :
    ∃ world', result = (executeTool env.handlers call world').1 := by
  obtain ⟨world', _, _, answer, _⟩ := (toolLoop_makes env left fullResponse currentPrompt world).of_mem executed
  exact ⟨world', by rw [answer]⟩

/-- No name that the pattern captures has a quote. -/
theorem toolLoop_noQuote {ω : Type} {env : ToolEnv ω} {call : ToolCall} {result : Except StdException Bytes}
    {left : Nat} {fullResponse currentPrompt : Bytes} {world : ω}
    (executed : .executeTool call result ∈ (toolLoop env left fullResponse currentPrompt world).trace) :
    quote ∉ call.toolName := by
  obtain ⟨_, dialogue, _⟩ := toolLoop_dialogue env left fullResponse currentPrompt world
  obtain ⟨before, after, split⟩ := List.append_of_mem executed
  obtain ⟨_, _, _, _, parsed⟩ := dialogue.justified before _ after split
  obtain ⟨_, name, _, isMatch, rfl⟩ := tryParseToolCall_sound parsed
  intro mem
  simpa using isMatch.noQuote quote mem

theorem stringBody_verbatim_append {a : Bytes} (verbatim : Verbatim a) (r : Bytes) :
    stringBody (a ++ r) = (stringBody r).map fun x => (a ++ x.1, x.2) := by
  induction a with
  | nil => simp
  | cons c a ih =>
    obtain ⟨hq, hb, control⟩ := verbatim c (by simp)
    rw [List.cons_append, stringBody_byte hq hb control, ih fun x hx => verbatim x (by simp [hx]), Option.map_map]
    rfl

theorem inside_append_iff {a w : Bytes} (verbatim : Verbatim a) : Inside (a ++ w) ↔ Inside w := by
  rw [Inside, Inside, List.append_assoc, stringBody_verbatim_append verbatim]
  constructor
  · rintro ⟨s, e⟩
    obtain ⟨⟨s', t⟩, read, same⟩ := Option.map_eq_some_iff.1 e
    cases same
    exact ⟨s', read⟩
  · rintro ⟨s, e⟩
    exact ⟨a ++ s, by rw [e]; rfl⟩

/-- A text without quotes goes on with no member. -/
theorem not_goesOn {w : Bytes} (noQuote : quote ∉ w) : ¬ GoesOn w := by
  rintro ⟨_, r, _, _, _, closed, _⟩
  obtain ⟨b, rfl⟩ := stringBody_closes closed
  exact noQuote (by simp)

theorem unknownTool_wellFormed_iff {toolName : Bytes} (noQuote : quote ∉ toolName) :
    WellFormed (unknownTool toolName) ↔ Utf8 toolName ∧ Inside toolName := by
  have clear : quote ∉ str "Unknown tool: " ++ toolName := by
    rw [List.mem_append]
    rintro (mem | mem)
    · exact absurd mem (by decide)
    · exact noQuote mem
  rw [unknownTool, errorBody_wellFormed_iff, StdException.what, utf8_ascii_append (by decide),
    or_iff_left (not_goesOn clear), inside_append_iff (by decide)]

/-- What a call comes to by the registrations so far. -/
inductive ToolAnswer (log : List (Bytes × ToolCallHandler υ)) (call : ToolCall) (result : Except StdException Bytes) :
    Prop where
  | registered (handler : ToolCallHandler υ) (last : LastEntry log call.toolName handler) (user : υ)
      (answer : result = (handler call user).1)
  | unknown (absent : ∀ e ∈ log, e.1 ≠ call.toolName) (notBuiltin : ∀ tool ∈ builtinTools, tool.1 ≠ call.toolName)
      (answer : result = .ok (unknownTool call.toolName))
      (json : WellFormed (unknownTool call.toolName) ↔ Utf8 call.toolName ∧ Inside call.toolName)

namespace ToolProcess

variable {withCuda : Bool}

variable (withCuda) in
theorem init_handlers (config : EngineConfig) (actions : List (ToolAction υ)) :
    (actions.foldl (step withCuda) (init config)).handlers = tableOf (registrations withCuda (init config) actions) :=
  run_handlers actions (init config)

/-- Behind a start the last handler for one of the three tools is the engine's, until someone registers the name. -/
theorem lastEntry_start {config : EngineConfig} {before after : List (ToolAction υ)} {outcome : StartOutcome}
    (started : ((before.foldl (step withCuda) (init config)).start withCuda outcome).1 = .returned true)
    {tool : Bytes × Bytes} (mem : tool ∈ builtinTools) (nobody : ∀ handler, .registerTool tool.1 handler ∉ after) :
    LastEntry (registrations withCuda (init config) (before ++ .life (.start outcome) :: after)) tool.1
      (fixedTool (υ := υ) tool.2) := by
  have later := registrations_builtin withCuda mem
    ((before.foldl (step withCuda) (init config)).step withCuda (.life (.start outcome))) nobody
  rw [start_eq] at started
  rw [registrations_append, registrations, entries, started]
  -- The start registers its tools one after another, and none of them twice.
  obtain ⟨front, back, split⟩ := List.append_of_mem
    (List.mem_map_of_mem (f := fun tool => (tool.1, fixedTool (υ := υ) tool.2)) mem)
  rw [split, List.append_assoc, List.cons_append, ← List.append_assoc]
  apply LastEntry.again
  intro e mem' key
  rcases List.mem_append.1 mem' with mem' | mem'
  · exact builtin_of_key mem (by rw [split]; simp [mem']) key
  · exact later e mem' key

/-- **The tools of an engine**: whatever is registered, started and stopped, and whatever the model answers, a call
that is executed gets the answer of the last handler registered for its name, the three of a `start` included, or
the text that it is unknown; and behind a start the three answer with their texts until someone else registers their
name, whoever had registered it before. -/
theorem run_executes {L : Type} (config : EngineConfig) (actions : List (ToolAction υ)) (api : LlamaCpp Nat Nat L)
    (sampleToken : Sampler L) (prompt : Bytes) (onToolCall : Bytes → Bytes → υ → Except StdException Unit × υ)
    (genConfig : GenerationConfig) (draws : Nat) (user : υ) {call : ToolCall} {result : Except StdException Bytes}
    (executed : .executeTool call result ∈ ((actions.foldl (step withCuda) (init config)).generateWithTools api
      sampleToken prompt onToolCall genConfig draws user).trace) :
    ToolAnswer (registrations withCuda (init config) actions) call result ∧
      ∀ before outcome after, actions = before ++ .life (.start outcome) :: after →
        ((before.foldl (step withCuda) (init config)).start withCuda outcome).1 = .returned true →
        ∀ tool ∈ builtinTools, (∀ handler, .registerTool tool.1 handler ∉ after) → call.toolName = tool.1 →
          result = .ok tool.2 := by
  have stocked := run_stocked withCuda actions (init config) (fun ready => by cases ready)
  have handlers := init_handlers withCuda config actions
  generalize actions.foldl (step withCuda) (init config) = p at executed stocked handlers
  rw [generateWithTools, InferenceEngine.generateWithTools, ModelRuntime.generateWithTools] at executed
  cases ready : p.engine.ready with
  | false =>
    rw [show p.engine.engine.ready = p.engine.ready from rfl, ready] at executed
    cases executed
  | true =>
    rw [show p.engine.engine.ready = p.engine.ready from rfl, ready, Bool.not_true, if_neg Bool.false_ne_true]
      at executed
    have noQuote := toolLoop_noQuote executed
    obtain ⟨world, answer⟩ := toolLoop_executed _ _ _ _ _ executed
    -- The loop never registers anything, so the call meets the handlers as they are.
    have lifted : ∀ handler, p.handlers call.toolName = some handler → result = (handler call world.2.2).1 := by
      intro handler found
      rw [answer, executeTool, InferenceEngine.toolEnv_handlers, found]
      rfl
    constructor
    · cases found : p.handlers call.toolName with
      | some handler =>
        rw [handlers] at found
        exact .registered handler (tableOf_some_iff.1 found) world.2.2 (lifted handler (by rw [handlers, found]))
      | none =>
        refine .unknown ?_ ?_ ?_ (unknownTool_wellFormed_iff noQuote)
        · rw [handlers] at found
          exact tableOf_none_iff.1 found
        · intro tool mem same
          exact stocked ready tool mem (by rw [same, found])
        · rw [answer, executeTool_unknown]
          rw [InferenceEngine.toolEnv_handlers, found, Option.map_none]
    · rintro before outcome after rfl started tool mem nobody same
      have last := lastEntry_start started mem nobody
      rw [← tableOf_some_iff, ← handlers, ← same] at last
      exact lifted _ last

/-- A model of one token, whose text is a call of `memory_search`. -/
def searchLlama : LlamaCpp Nat Nat Unit where
  tokenize _ _ _ _ _ _ := (1, [1])
  tokenToPiece _ _ _ _ _ :=
    let text := toolCallText (str "memory_search") (str "\x7b\"query\": \"x\"\x7d")
    ((text.length : Int), text)
  tokenIsEog _ _ := false
  nVocab _ := 2
  kvCacheClear ctx := ctx
  decode ctx _ := (0, ctx)
  getLogitsIth _ _ := ()

/-- A handler of one's own, registered before the start under a name of the engine's. -/
def searchActions : List (ToolAction Unit) :=
  [.registerTool (str "memory_search") (fixedTool (str "mine")), .life (.start {}),
    .registerTool (str "weather") (fixedTool (str "sunny"))]

theorem run_executes_search :
    let config : EngineConfig := { modelPath := str "m" }
    let call : ToolCall := { toolName := str "memory_search", arguments := str "\x7b\"query\": \"x\"\x7d" }
    let result := .ok (str "\x7b\"status\": \"ok\", \"results\": []\x7d")
    ToolAnswer (registrations false (init config) searchActions) call result ∧
      ∀ before outcome after, searchActions = before ++ .life (.start outcome) :: after →
        ((before.foldl (step false) (init config)).start false outcome).1 = .returned true →
        ∀ tool ∈ builtinTools, (∀ handler, .registerTool tool.1 handler ∉ after) → call.toolName = tool.1 →
          result = .ok tool.2 :=
  run_executes _ _ searchLlama (fun _ _ _ _ _ => 1) (str "hi") (fun _ _ user => (.ok (), user)) { maxTokens := 1 } 0 ()
    (by decide +kernel)

end ToolProcess

end ModelRuntime
