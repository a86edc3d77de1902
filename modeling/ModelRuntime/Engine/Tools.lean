import ModelRuntime.Engine.Inference
import ModelRuntime.Tools.ToolCaller

/-!
# The tool loop

`generate_with_tools` against an arbitrary model, callback and handler table, which may keep a state
of their own and throw. A run leaves a trace of the calls it made. `Dialogue` says which traces there
are, one constructor for each way a pass can end; what holds of a trace is proved by induction on it.
-/

namespace ModelRuntime
open Cpp

/-- What the loop calls, acting on a world `ω`. -/
structure ToolEnv (ω : Type) where
  generate : Bytes → ω → Except StdException Bytes × ω
  onToolCall : Bytes → Bytes → ω → Except StdException Unit × ω
  handlers : Bytes → Option (ToolCallHandler ω)

/-- A call the loop has made, with what came of it. -/
inductive ToolEvent where
  | generate (prompt : Bytes) (response : Except StdException Bytes)
  | onToolCall (toolName arguments : Bytes)
  | executeTool (call : ToolCall) (result : Except StdException Bytes)
  deriving DecidableEq

/-- The outcome of a run, the world after it and the calls in order. -/
structure ToolRun (ω : Type) where
  output : Except StdException Bytes
  world : ω
  trace : List ToolEvent

variable {ω : Type}

/-- The prompt with a tool's result. -/
def withResult (currentPrompt result : Bytes) : Bytes := currentPrompt ++ str "\n\nTool result: " ++ result

/-- The loop with `left` of the permitted iterations left. -/
def toolLoop (env : ToolEnv ω) : (left : Nat) → (fullResponse currentPrompt : Bytes) → ω → ToolRun ω
  | 0, fullResponse, _, world => { output := .ok fullResponse, world, trace := [] }
  | left + 1, fullResponse, currentPrompt, world =>
    match env.generate currentPrompt world with
    | (.error e, world) => { output := .error e, world, trace := [.generate currentPrompt (.error e)] }
    | (.ok response, world) =>
      let fullResponse := fullResponse ++ response
      let asked := ToolEvent.generate currentPrompt (.ok response)
      match tryParseToolCall response {} with
      | (false, _) => { output := .ok fullResponse, world, trace := [asked] }
      | (true, toolCall) =>
        let told := ToolEvent.onToolCall toolCall.toolName toolCall.arguments
        match env.onToolCall toolCall.toolName toolCall.arguments world with
        | (.error e, world) => { output := .error e, world, trace := [asked, told] }
        | (.ok (), world) =>
          match executeTool env.handlers toolCall world with
          | (.error e, world) =>
            { output := .error e, world, trace := [asked, told, .executeTool toolCall (.error e)] }
          | (.ok result, world) =>
            let run := toolLoop env left fullResponse (withResult currentPrompt result) world
            { run with trace := asked :: told :: .executeTool toolCall (.ok result) :: run.trace }

def generateWithTools (env : ToolEnv ω) (ready : Bool) (maxToolCalls : Int) (prompt : Bytes) (world : ω) :
    ToolRun ω :=
  if !ready then { output := .error (.runtimeError (str "Engine not ready")), world, trace := [] }
  else toolLoop env maxToolCalls.toNat [] prompt world

/-- The engine as the loop's model: its state, the number of the next draw, and the state `υ` that
callback and handlers act on. -/
def InferenceEngine.toolEnv {M C L υ : Type} (api : LlamaCpp M C L) (sampleToken : Sampler L)
    (genConfig : GenerationConfig) (onToolCall : Bytes → Bytes → υ → Except StdException Unit × υ)
    (handlers : Bytes → Option (ToolCallHandler υ)) : ToolEnv (InferenceEngine M C × Nat × υ) where
  generate prompt world :=
    let (response, e, draws) := world.1.generate api sampleToken prompt genConfig world.2.1
    (response, e, draws, world.2.2)
  onToolCall name arguments world :=
    let (out, user) := onToolCall name arguments world.2.2
    (out, world.1, world.2.1, user)
  handlers name := (handlers name).map fun handler call world =>
    let (result, user) := handler call world.2.2
    (result, world.1, world.2.1, user)

/-- `generate_with_tools` of an engine. -/
def InferenceEngine.generateWithTools {M C L υ : Type} (api : LlamaCpp M C L) (sampleToken : Sampler L)
    (e : InferenceEngine M C) (handlers : Bytes → Option (ToolCallHandler υ)) (prompt : Bytes)
    (onToolCall : Bytes → Bytes → υ → Except StdException Unit × υ) (genConfig : GenerationConfig)
    (draws : Nat) (user : υ) : ToolRun (InferenceEngine M C × Nat × υ) :=
  ModelRuntime.generateWithTools (toolEnv api sampleToken genConfig onToolCall handlers) e.ready
    e.config.maxToolCalls prompt (e, draws, user)

/-! ## The traces of the loop -/

/-- A trace from `prompt` with at most `n` iterations, and the text or the exception it comes to. -/
inductive Dialogue : Nat → Bytes → Except StdException Bytes → List ToolEvent → Prop where
  | stopped (prompt : Bytes) : Dialogue 0 prompt (.ok []) []
  | failed (n : Nat) (prompt : Bytes) (e : StdException) :
      Dialogue (n + 1) prompt (.error e) [.generate prompt (.error e)]
  | answered (n : Nat) (prompt : Bytes) {response : Bytes} (none : (tryParseToolCall response {}).1 = false) :
      Dialogue (n + 1) prompt (.ok response) [.generate prompt (.ok response)]
  | refused (n : Nat) (prompt : Bytes) (e : StdException) {response : Bytes} {call : ToolCall}
      (parsed : tryParseToolCall response {} = (true, call)) :
      Dialogue (n + 1) prompt (.error e)
        [.generate prompt (.ok response), .onToolCall call.toolName call.arguments]
  | broken (n : Nat) (prompt : Bytes) (e : StdException) {response : Bytes} {call : ToolCall}
      (parsed : tryParseToolCall response {} = (true, call)) :
      Dialogue (n + 1) prompt (.error e) [.generate prompt (.ok response),
        .onToolCall call.toolName call.arguments, .executeTool call (.error e)]
  | round (n : Nat) (prompt result : Bytes) {response : Bytes} {call : ToolCall}
      (parsed : tryParseToolCall response {} = (true, call)) {output : Except StdException Bytes}
      {trace : List ToolEvent} (rest : Dialogue n (withResult prompt result) output trace) :
      Dialogue (n + 1) prompt (output.map (response ++ ·)) (.generate prompt (.ok response) ::
        .onToolCall call.toolName call.arguments :: .executeTool call (.ok result) :: trace)

/-- **The loop's traces** are dialogues. -/
theorem toolLoop_dialogue (env : ToolEnv ω) (left : Nat) :
    ∀ (fullResponse currentPrompt : Bytes) (world : ω), ∃ output,
      Dialogue left currentPrompt output (toolLoop env left fullResponse currentPrompt world).trace ∧
        (toolLoop env left fullResponse currentPrompt world).output = output.map (fullResponse ++ ·) := by
  induction left with
  | zero =>
    intro fullResponse currentPrompt world
    refine ⟨.ok [], .stopped currentPrompt, ?_⟩
    rw [toolLoop, Except.map, List.append_nil]
  | succ left ih =>
    intro fullResponse currentPrompt world
    rw [toolLoop]
    split
    · exact ⟨_, .failed left currentPrompt _, rfl⟩
    · rename_i response world _
      dsimp only
      split
      · rename_i call parsed
        exact ⟨_, .answered left currentPrompt (by rw [parsed]), rfl⟩
      · rename_i call parsed
        split
        · exact ⟨_, .refused left currentPrompt _ parsed, rfl⟩
        · split
          · exact ⟨_, .broken left currentPrompt _ parsed, rfl⟩
          · rename_i result world _
            obtain ⟨output, dialogue, same⟩ :=
              ih (fullResponse ++ response) (withResult currentPrompt result) world
            refine ⟨_, .round left currentPrompt result parsed dialogue, ?_⟩
            dsimp only
            rw [same]
            cases output with
            | error e => rfl
            | ok s => exact congrArg Except.ok (List.append_assoc ..)

/-! ## The calls of a trace -/

/-- What the call throws, if it does. -/
def thrown {α : Type} : Except StdException α → Option StdException
  | .error e => some e
  | .ok _ => none

/-- The call of the event, made in `world`: what it throws, and the world behind it. -/
def ToolEnv.Comes (env : ToolEnv ω) (world : ω) : ToolEvent → Option StdException → ω → Prop
  | .generate prompt response, out, world' => env.generate prompt world = (response, world') ∧ out = thrown response
  | .onToolCall toolName arguments, out, world' =>
    ∃ answer, env.onToolCall toolName arguments world = (answer, world') ∧ out = thrown answer
  | .executeTool call result, out, world' =>
    executeTool env.handlers call world = (result, world') ∧ out = thrown result

/-- The calls of a trace are made one after the other, each in the world that the one before it leaves, until one
throws. -/
inductive ToolEnv.Makes (env : ToolEnv ω) : ω → List ToolEvent → Option StdException → ω → Prop
  | done (world : ω) : Makes env world [] none world
  | throws {world world' : ω} {event : ToolEvent} {e : StdException} (comes : env.Comes world event (some e) world') :
    Makes env world [event] (some e) world'
  | returns {world world' last : ω} {event : ToolEvent} {events : List ToolEvent} {out : Option StdException}
      (comes : env.Comes world event none world') (rest : Makes env world' events out last) :
    Makes env world (event :: events) out last

theorem ToolEnv.Makes.of_mem {env : ToolEnv ω} {world last : ω} {events : List ToolEvent} {out : Option StdException}
    (makes : env.Makes world events out last) {event : ToolEvent} (mem : event ∈ events) :
    ∃ before out behind, env.Comes before event out behind := by
  induction makes with
  | done => cases mem
  | throws comes =>
    rw [List.mem_singleton] at mem
    exact ⟨_, _, _, mem ▸ comes⟩
  | returns comes _ ih =>
    rcases List.mem_cons.1 mem with rfl | mem
    · exact ⟨_, _, _, comes⟩
    · exact ih mem

/-- **The trace is of the calls made**, in their order and with what came of them: the loop throws what the last of
them does, and leaves the world that they do. -/
theorem toolLoop_makes (env : ToolEnv ω) (left : Nat) : ∀ (fullResponse currentPrompt : Bytes) (world : ω),
    let run := toolLoop env left fullResponse currentPrompt world
    env.Makes world run.trace (thrown run.output) run.world := by
  induction left with
  | zero => exact fun _ _ world => .done world
  | succ left ih =>
    intro fullResponse currentPrompt world
    rw [toolLoop]
    split
    · rename_i e world' fails
      exact .throws ⟨fails, rfl⟩
    · rename_i response world₁ asked
      dsimp only
      split
      · exact .returns ⟨asked, rfl⟩ (.done world₁)
      · rename_i call _
        split
        · rename_i e world₂ refuses
          exact .returns ⟨asked, rfl⟩ (.throws ⟨_, refuses, rfl⟩)
        · rename_i world₂ told
          split
          · rename_i e world₃ breaks
            exact .returns ⟨asked, rfl⟩ (.returns ⟨_, told, rfl⟩ (.throws ⟨breaks, rfl⟩))
          · rename_i result world₃ executed
            exact .returns ⟨asked, rfl⟩ (.returns ⟨_, told, rfl⟩ (.returns ⟨executed, rfl⟩ (ih _ _ world₃)))

/-- `generate_with_tools` makes the calls of its trace, where the engine is ready, and else none. -/
theorem generateWithTools_makes (env : ToolEnv ω) (ready : Bool) (maxToolCalls : Int) (prompt : Bytes) (world : ω) :
    let run := generateWithTools env ready maxToolCalls prompt world
    if ready then env.Makes world run.trace (thrown run.output) run.world else run.trace = [] ∧ run.world = world := by
  cases ready with
  | true => exact toolLoop_makes env maxToolCalls.toNat [] prompt world
  | false => exact ⟨rfl, rfl⟩

/-! ## What holds of every trace -/

def ToolEvent.isGenerate : ToolEvent → Bool
  | .generate .. => true
  | _ => false

def ToolEvent.isExecute : ToolEvent → Bool
  | .executeTool .. => true
  | _ => false

/-- The response of a `generate` call that returned. -/
def ToolEvent.response : ToolEvent → Option Bytes
  | .generate _ (.ok response) => some response
  | _ => none

/-- The event is the one the trace before it leads to, and nothing follows a response without a
call. -/
def Justified (prompt : Bytes) (before : List ToolEvent) (event : ToolEvent) (after : List ToolEvent) :
    Prop :=
  match event with
  | .generate asked answer =>
    (before = [] ∧ asked = prompt ∨ ∃ earlier last response call result, before = earlier ++
        [.generate last (.ok response), .onToolCall call.toolName call.arguments,
          .executeTool call (.ok result)] ∧ asked = withResult last result) ∧
      ∀ response, answer = .ok response → (tryParseToolCall response {}).1 = false → after = []
  | .onToolCall toolName arguments => ∃ earlier last response call,
      before = earlier ++ [.generate last (.ok response)] ∧
        tryParseToolCall response {} = (true, call) ∧ toolName = call.toolName ∧ arguments = call.arguments
  | .executeTool call _ => ∃ earlier last response, before = earlier ++
        [.generate last (.ok response), .onToolCall call.toolName call.arguments] ∧
      tryParseToolCall response {} = (true, call)

section Traces

variable {n : Nat} {prompt : Bytes} {output : Except StdException Bytes} {trace : List ToolEvent}

theorem Dialogue.counts (h : Dialogue n prompt output trace) :
    (trace.filter ToolEvent.isGenerate).length ≤ n ∧ (trace.filter ToolEvent.isExecute).length ≤ n := by
  induction h with
  | stopped => simp
  | failed | answered | refused | broken =>
    simp [List.filter_cons, ToolEvent.isGenerate, ToolEvent.isExecute]
  | round n prompt result parsed rest ih =>
    simpa [List.filter_cons, ToolEvent.isGenerate, ToolEvent.isExecute] using ih

theorem Dialogue.concat (h : Dialogue n prompt output trace) {s : Bytes} (returned : output = .ok s) :
    s = (trace.filterMap ToolEvent.response).flatten := by
  induction h generalizing s with
  | stopped =>
    cases returned
    rfl
  | failed | refused | broken => cases returned
  | answered n prompt none =>
    cases returned
    simp [ToolEvent.response]
  | @round n prompt result response call parsed output trace rest ih =>
    cases output with
    | error e => cases returned
    | ok t =>
      cases returned
      rw [ih rfl]
      simp [List.filterMap_cons, ToolEvent.response]

/-- After one more round in front, an event is still justified. -/
theorem Justified.later {result response : Bytes} {call : ToolCall} {before after : List ToolEvent}
    {event : ToolEvent} (h : Justified (withResult prompt result) before event after) :
    Justified prompt (.generate prompt (.ok response) :: .onToolCall call.toolName call.arguments ::
      .executeTool call (.ok result) :: before) event after := by
  cases event with
  | generate asked answer =>
    obtain ⟨chain, stop⟩ := h
    refine ⟨.inr ?_, stop⟩
    rcases chain with ⟨rfl, rfl⟩ | ⟨earlier, last, response, call, result, rfl, rfl⟩
    · exact ⟨[], prompt, response, call, result, rfl, rfl⟩
    · exact ⟨_ :: _ :: _ :: earlier, last, response, call, result, rfl, rfl⟩
  | onToolCall toolName arguments =>
    obtain ⟨earlier, last, response, call, rfl, parsed⟩ := h
    exact ⟨_ :: _ :: _ :: earlier, last, response, call, rfl, parsed⟩
  | executeTool call result =>
    obtain ⟨earlier, last, response, rfl, parsed⟩ := h
    exact ⟨_ :: _ :: _ :: earlier, last, response, rfl, parsed⟩

theorem justified_asked {answer : Except StdException Bytes} {after : List ToolEvent}
    (stop : ∀ response, answer = .ok response → (tryParseToolCall response {}).1 = false → after = []) :
    Justified prompt [] (.generate prompt answer) after := ⟨.inl ⟨rfl, rfl⟩, stop⟩

section Round

variable {response : Bytes} {call : ToolCall} (parsed : tryParseToolCall response {} = (true, call))
  {after : List ToolEvent}

include parsed

theorem justified_call : Justified prompt [] (.generate prompt (.ok response)) after := by
  apply justified_asked
  rintro r same none
  cases same
  rw [parsed] at none
  cases none

theorem justified_told :
    Justified prompt [.generate prompt (.ok response)] (.onToolCall call.toolName call.arguments) after :=
  ⟨[], prompt, response, call, rfl, parsed, rfl, rfl⟩

theorem justified_executed (result : Except StdException Bytes) :
    Justified prompt [.generate prompt (.ok response), .onToolCall call.toolName call.arguments]
      (.executeTool call result) after := ⟨[], prompt, response, rfl, parsed⟩

end Round

/-- **Every event of a trace** is the one that what came before leads to. -/
theorem Dialogue.justified (h : Dialogue n prompt output trace) :
    ∀ before event after, trace = before ++ event :: after → Justified prompt before event after := by
  induction h with
  | stopped =>
    intro before event after split
    cases before <;> cases split
  | failed n prompt e =>
    intro before event after split
    rcases before with _ | ⟨_, _ | _⟩ <;> cases split
    exact justified_asked fun _ same => by cases same
  | answered n prompt none =>
    intro before event after split
    rcases before with _ | ⟨_, _ | _⟩ <;> cases split
    exact justified_asked fun _ _ _ => rfl
  | refused n prompt e parsed =>
    intro before event after split
    rcases before with _ | ⟨_, _ | ⟨_, _ | _⟩⟩ <;> cases split
    · exact justified_call parsed
    · exact justified_told parsed
  | broken n prompt e parsed =>
    intro before event after split
    rcases before with _ | ⟨_, _ | ⟨_, _ | ⟨_, _ | _⟩⟩⟩ <;> cases split
    · exact justified_call parsed
    · exact justified_told parsed
    · exact justified_executed parsed _
  | round n prompt result parsed rest ih =>
    intro before event after split
    rcases before with _ | ⟨_, _ | ⟨_, _ | ⟨_, before⟩⟩⟩
    · cases split
      exact justified_call parsed
    · cases split
      exact justified_told parsed
    · cases split
      exact justified_executed parsed _
    · simp only [List.cons_append, List.cons.injEq] at split
      obtain ⟨rfl, rfl, rfl, split⟩ := split
      exact (ih before event after split).later

end Traces

/-- No call throws. -/
structure ToolEnv.Total (env : ToolEnv ω) : Prop where
  generate : ∀ prompt world, ∃ response, (env.generate prompt world).1 = .ok response
  onToolCall : ∀ toolName arguments world, (env.onToolCall toolName arguments world).1 = .ok ()
  handlers : ∀ name handler, env.handlers name = some handler →
    ∀ call world, ∃ result, (handler call world).1 = .ok result

theorem ToolEnv.Total.executeTool {env : ToolEnv ω} (total : env.Total) (call : ToolCall) (world : ω) :
    ∃ result, (executeTool env.handlers call world).1 = .ok result := by
  rw [ModelRuntime.executeTool]
  split
  · exact ⟨_, rfl⟩
  · rename_i handler found
    exact total.handlers _ _ found call world

theorem toolLoop_returns {env : ToolEnv ω} (total : env.Total) (left : Nat) :
    ∀ (fullResponse currentPrompt : Bytes) (world : ω),
      ∃ s, (toolLoop env left fullResponse currentPrompt world).output = .ok s := by
  induction left with
  | zero => exact fun fullResponse _ _ => ⟨fullResponse, rfl⟩
  | succ left ih =>
    intro fullResponse currentPrompt world
    rw [toolLoop]
    have answered := total.generate currentPrompt world
    generalize env.generate currentPrompt world = out at answered ⊢
    obtain ⟨_ | response, world⟩ := out
    · obtain ⟨_, threw⟩ := answered
      cases threw
    · dsimp only
      obtain ⟨_ | _, call⟩ := tryParseToolCall response {}
      · exact ⟨_, rfl⟩
      · have told := total.onToolCall call.toolName call.arguments world
        dsimp only
        generalize env.onToolCall call.toolName call.arguments world = out at told ⊢
        obtain ⟨_ | _, world⟩ := out
        · cases told
        · have executed := total.executeTool call world
          dsimp only
          generalize ModelRuntime.executeTool env.handlers call world = out at executed ⊢
          obtain ⟨_ | result, world⟩ := out
          · obtain ⟨_, threw⟩ := executed
            cases threw
          · exact ih _ _ _

/-- **The trace of the tool loop.** Whatever the model answers: every call follows from the ones before
it (an `execute_tool` from its `on_tool_call` and the response these two were parsed from, a prompt
from the last prompt and result), none follows a response without a tool call, there are at most
`maxToolCalls` of `generate` and of `execute_tool` each, and the text returned is that of all
responses in order; where no call throws, one is returned. -/
theorem generateWithTools_trace (env : ToolEnv ω) (ready : Bool) (maxToolCalls : Int) (prompt : Bytes)
    (world : ω) :
    let run := generateWithTools env ready maxToolCalls prompt world
    (∀ before event after, run.trace = before ++ event :: after → Justified prompt before event after) ∧
      (run.trace.filter ToolEvent.isGenerate).length ≤ maxToolCalls.toNat ∧
      (run.trace.filter ToolEvent.isExecute).length ≤ maxToolCalls.toNat ∧
      (∀ s, run.output = .ok s → s = (run.trace.filterMap ToolEvent.response).flatten) ∧
      (ready = true → env.Total → ∃ s, run.output = .ok s) := by
  intro run
  dsimp only [run]
  cases ready with
  | false =>
    refine ⟨?_, Nat.zero_le _, Nat.zero_le _, ?_, fun h => absurd h (by decide)⟩
    · intro before event after split
      cases before <;> cases split
    · intro s returned
      cases returned
  | true =>
    obtain ⟨output, dialogue, same⟩ := toolLoop_dialogue env maxToolCalls.toNat [] prompt world
    refine ⟨dialogue.justified, dialogue.counts.1, dialogue.counts.2, ?_, ?_⟩
    · intro s returned
      cases output with
      | error e =>
        have returned := same.symm.trans returned
        cases returned
      | ok t =>
        have returned := same.symm.trans returned
        cases returned
        exact dialogue.concat rfl
    · exact fun _ total => toolLoop_returns total maxToolCalls.toNat [] prompt world

/-! ## Results that are thrown away -/

/-- The model is asked `prompt`, and each tool's result stands in the prompt of a later request. -/
def ResultsUsed (prompt : Bytes) (trace : List ToolEvent) : Prop :=
  (∃ answer rest, trace = .generate prompt answer :: rest) ∧
    ∀ before call result after, trace = before ++ .executeTool call (.ok result) :: after →
      ∃ later answer, .generate later answer ∈ after ∧ result <:+: later

/-- The prompt and the world after `n` rounds, where the model asks for a tool in each of them and
nothing throws. -/
def toolRounds (env : ToolEnv ω) : Nat → Bytes → ω → Option (Bytes × ω)
  | 0, prompt, world => some (prompt, world)
  | n + 1, prompt, world =>
    match env.generate prompt world with
    | (.error _, _) => none
    | (.ok response, world) =>
      match tryParseToolCall response {} with
      | (false, _) => none
      | (true, toolCall) =>
        match env.onToolCall toolCall.toolName toolCall.arguments world with
        | (.error _, _) => none
        | (.ok (), world) =>
          match executeTool env.handlers toolCall world with
          | (.error _, _) => none
          | (.ok result, world) => toolRounds env n (withResult prompt result) world

/-- A round in front loses nothing if what follows asks with its result and loses nothing. -/
theorem resultsUsed_round {prompt result : Bytes} {response : Bytes} {call : ToolCall}
    {trace : List ToolEvent}
    (next : trace = [] ∨ ∃ answer rest, trace = .generate (withResult prompt result) answer :: rest) :
    ResultsUsed prompt (.generate prompt (.ok response) :: .onToolCall call.toolName call.arguments ::
        .executeTool call (.ok result) :: trace) ↔ ResultsUsed (withResult prompt result) trace := by
  constructor
  · rintro ⟨_, used⟩
    obtain ⟨later, answer, mem, _⟩ := used [_, _] call result trace rfl
    rcases next with rfl | next
    · cases mem
    · refine ⟨next, fun before call' result' after split => ?_⟩
      exact used (_ :: _ :: _ :: before) call' result' after (by rw [split]; rfl)
  · rintro ⟨⟨answer, rest, start⟩, used⟩
    refine ⟨⟨_, _, rfl⟩, fun before call' result' after split => ?_⟩
    rcases before with _ | ⟨_, _ | ⟨_, _ | ⟨_, before⟩⟩⟩
    · cases split
    · cases split
    · simp only [List.cons_append, List.nil_append, List.cons.injEq, ToolEvent.executeTool.injEq,
        Except.ok.injEq] at split
      obtain ⟨_, _, ⟨_, rfl⟩, rfl⟩ := split
      exact ⟨withResult prompt result, answer, by simp [start], _, [], List.append_nil _⟩
    · simp only [List.cons_append, List.cons.injEq] at split
      obtain ⟨_, _, _, split⟩ := split
      exact used before call' result' after split

theorem toolLoop_start (env : ToolEnv ω) (left : Nat) (fullResponse currentPrompt : Bytes) (world : ω) :
    (toolLoop env left fullResponse currentPrompt world).trace = [] ∨
      ∃ answer rest, (toolLoop env left fullResponse currentPrompt world).trace =
        .generate currentPrompt answer :: rest := by
  obtain ⟨_, dialogue, _⟩ := toolLoop_dialogue env left fullResponse currentPrompt world
  generalize (toolLoop env left fullResponse currentPrompt world).trace = trace at dialogue
  cases dialogue with
  | stopped => exact .inl rfl
  | failed | answered | refused | broken | round => exact .inr ⟨_, _, rfl⟩

/-- Where no tool has given a result, none is lost. -/
theorem resultsUsed_none {prompt : Bytes} {answer : Except StdException Bytes} {rest : List ToolEvent}
    (none : ∀ call result, .executeTool call (.ok result) ∉ rest) :
    ResultsUsed prompt (.generate prompt answer :: rest) := by
  refine ⟨⟨answer, rest, rfl⟩, fun before call result after split => ?_⟩
  cases before with
  | nil => cases split
  | cons e before =>
    obtain ⟨_, rfl⟩ := List.cons.inj split
    exact absurd (by simp) (none call result)

/-- **The loop** loses no result unless it is the bound that ends it. -/
theorem toolLoop_used (env : ToolEnv ω) (left : Nat) :
    ∀ (fullResponse currentPrompt : Bytes) (world : ω),
      ResultsUsed currentPrompt (toolLoop env left fullResponse currentPrompt world).trace ↔
        toolRounds env left currentPrompt world = none := by
  induction left with
  | zero =>
    intro fullResponse currentPrompt world
    constructor
    · rintro ⟨⟨_, _, start⟩, _⟩
      cases start
    · intro none
      cases none
  | succ left ih =>
    intro fullResponse currentPrompt world
    rw [toolLoop, toolRounds]
    obtain ⟨_ | response, world⟩ := env.generate currentPrompt world
    · exact iff_of_true (resultsUsed_none (by simp)) rfl
    · dsimp only
      obtain ⟨_ | _, call⟩ := tryParseToolCall response {}
      · exact iff_of_true (resultsUsed_none (by simp)) rfl
      · dsimp only
        obtain ⟨_ | _, world⟩ := env.onToolCall call.toolName call.arguments world
        · exact iff_of_true (resultsUsed_none (by simp)) rfl
        · dsimp only
          obtain ⟨_ | result, world⟩ := executeTool env.handlers call world
          · exact iff_of_true (resultsUsed_none (by simp)) rfl
          · exact (resultsUsed_round (toolLoop_start ..)).trans (ih _ _ world)

/-- **No result is lost** exactly where the engine is ready and the bound is not used up: one of the
first `maxToolCalls` responses, each given with the results so far, has no tool call (or a call
throws). -/
theorem generateWithTools_used_iff (env : ToolEnv ω) (ready : Bool) (maxToolCalls : Int) (prompt : Bytes)
    (world : ω) :
    ResultsUsed prompt (generateWithTools env ready maxToolCalls prompt world).trace ↔
      ready = true ∧ toolRounds env maxToolCalls.toNat prompt world = none := by
  cases ready with
  | false =>
    refine iff_of_false ?_ (fun h => absurd h.1 (by decide))
    rintro ⟨⟨_, _, start⟩, _⟩
    cases start
  | true =>
    have loop := toolLoop_used env maxToolCalls.toNat [] prompt world
    exact loop.trans ⟨fun none => ⟨rfl, none⟩, fun h => h.2⟩

/-- A model that asks for the same tool whatever it is told. -/
def insistent : ToolEnv Unit where
  generate _ world := (.ok (toolCallText (str "t") (str "\x7b\"a\": 1\x7d")), world)
  onToolCall _ _ world := (.ok (), world)
  handlers _ := none

/-- With one call permitted, its result reaches no prompt. -/
theorem generateWithTools_loses :
    ¬ ∀ (env : ToolEnv Unit) (prompt : Bytes) (maxToolCalls : Int), 0 ≤ maxToolCalls →
      ResultsUsed prompt (generateWithTools env true maxToolCalls prompt ()).trace := by
  intro all
  have used := all insistent (str "hi") 1 (by decide)
  have rounds : (toolRounds insistent 1 (str "hi") ()).isSome = true := by decide +kernel
  rw [(toolLoop_used insistent 1 [] (str "hi") ()).1 used] at rounds
  cases rounds

end ModelRuntime
