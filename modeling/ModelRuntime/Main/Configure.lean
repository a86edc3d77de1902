import ModelRuntime.Cpp.Loop
import ModelRuntime.Engine.Config

/-!
# From the command line to the engine's configuration

The option loop of `main` and the environment variables that are read after it. `CommandLine` is the usage
text as a grammar; `optionLoop_iff` says that the loop accepts what can be read so and sets what the options
set, one after the other. Which of command line, environment and default decides is then a question
about the last option that sets a field.
-/

namespace ModelRuntime
open Cpp

/-- How `main` ends before it builds the engine. -/
inductive Early where
  | exit (code : Int)
  | throw (e : StdException)

/-- The variables `main` looks up, `none` where `getenv` gives a null pointer. -/
structure Environment where
  modelPath : Option Bytes := none
  runtimeMode : Option Bytes := none
  natsUrl : Option Bytes := none
  restPort : Option Bytes := none

/-- An option with an argument: `argv[++i]`, where there is one. -/
def withArgument (rest : List Bytes) (set : Bytes → Except Early EngineConfig) :
    Except Early (EngineConfig × List Bytes) :=
  match rest with
  | value :: rest => (set value).map fun config => (config, rest)
  | [] => .error (.exit 1)

/-- `std::stoi`, whose exceptions leave `main`. -/
def number (value : Bytes) (set : Int → EngineConfig) : Except Early EngineConfig :=
  match stoi value with
  | .ok n => .ok (set n)
  | .error e => .error (.throw e)

/-- One pass of the option loop at `arg`, `rest` being the arguments behind it. Nothing reads `verbose`. -/
def optionPass (config : EngineConfig) (arg : Bytes) (rest : List Bytes) :
    Except Early (EngineConfig × List Bytes) :=
  if arg = str "-h" ∨ arg = str "--help" then .error (.exit 0)
  else if arg = str "-v" ∨ arg = str "--version" then .error (.exit 0)
  else if arg = str "-m" ∨ arg = str "--model" then
    withArgument rest fun value => .ok { config with modelPath := value }
  else if arg = str "-c" ∨ arg = str "--context" then
    withArgument rest fun value => number value fun n => { config with nCtx := n }
  else if arg = str "-t" ∨ arg = str "--threads" then
    withArgument rest fun value => number value fun n => { config with nThreads := n }
  else if arg = str "--gpu-layers" then
    withArgument rest fun value => number value fun n => { config with nGpuLayers := n }
  else if arg = str "--gpu-device" then
    withArgument rest fun value => number value fun n => { config with gpuDevice := n }
  else if arg = str "--port" then
    withArgument rest fun value => number value fun n => { config with restPort := n }
  else if arg = str "--no-nats" then .ok ({ config with natsUrl := [] }, rest)
  else if arg = str "--verbose" then .ok (config, rest)
  else .error (.exit 1)

/-- The body of `for (int i = 1; i < argc; ++i)`. -/
def optionBody : EngineConfig × List Bytes → Except Early (Option (EngineConfig × List Bytes))
  | (_, []) => .ok none
  | (config, arg :: rest) => (optionPass config arg rest).map some

/-- The option loop. -/
def optionLoop (args : List Bytes) : Except Early EngineConfig :=
  (whileM optionBody args.length ({}, args)).map Prod.fst

/-- "Override with environment variables": an empty string takes the variable's value where it is set. -/
def overrideWith (env : Environment) (config : EngineConfig) : Except Early EngineConfig :=
  let config := { config with
    modelPath := if config.modelPath = [] then env.modelPath.getD [] else config.modelPath
    mode := env.runtimeMode.getD config.mode
    natsUrl := if config.natsUrl = [] then env.natsUrl.getD [] else config.natsUrl }
  match env.restPort with
  | some port => number port fun n => { config with restPort := n }
  | none => .ok config

/-- The configuration that `main` hands to the engine. -/
def configure (args : List Bytes) (env : Environment) : Except Early EngineConfig :=
  match optionLoop args with
  | .ok config => overrideWith env config
  | .error e => .error e

/-- The options of the usage text that `main` goes on from. -/
inductive CliOption where
  | model (path : Bytes)
  | context (n : Int)
  | threads (n : Int)
  | gpuLayers (n : Int)
  | gpuDevice (n : Int)
  | port (n : Int)
  | noNats
  | verbose

namespace CliOption

def names : CliOption → List Bytes
  | model _ => [str "-m", str "--model"]
  | context _ => [str "-c", str "--context"]
  | threads _ => [str "-t", str "--threads"]
  | gpuLayers _ => [str "--gpu-layers"]
  | gpuDevice _ => [str "--gpu-device"]
  | port _ => [str "--port"]
  | noNats => [str "--no-nats"]
  | verbose => [str "--verbose"]

/-- What stands behind the name. -/
def Argument : CliOption → List Bytes → Prop
  | model path, words => words = [path]
  | context n, words | threads n, words | gpuLayers n, words | gpuDevice n, words | port n, words =>
    ∃ value, words = [value] ∧ stoi value = .ok n
  | noNats, words | verbose, words => words = []

def apply (config : EngineConfig) : CliOption → EngineConfig
  | model path => { config with modelPath := path }
  | context n => { config with nCtx := n }
  | threads n => { config with nThreads := n }
  | gpuLayers n => { config with nGpuLayers := n }
  | gpuDevice n => { config with gpuDevice := n }
  | port n => { config with restPort := n }
  | noNats => { config with natsUrl := [] }
  | verbose => config

end CliOption

/-- The arguments are these options, in this order. -/
inductive CommandLine : List Bytes → List CliOption → Prop where
  | nil : CommandLine [] []
  | cons {name : Bytes} {words args : List Bytes} {opt : CliOption} {opts : List CliOption}
      (named : name ∈ opt.names) (argument : opt.Argument words) (rest : CommandLine args opts) :
      CommandLine (name :: (words ++ args)) (opt :: opts)

section Passes

variable {config config' : EngineConfig} {arg value : Bytes} {rest rest' : List Bytes}

theorem withArgument_iff {set : Bytes → Except Early EngineConfig} :
    withArgument rest set = .ok (config', rest') ↔ ∃ value, rest = value :: rest' ∧ set value = .ok config' := by
  unfold withArgument
  cases rest with
  | nil => simp
  | cons value rest =>
    cases made : set value with
    | error e => simp [made, Except.map]
    | ok config => simp [made, Except.map, and_comm, eq_comm]

theorem number_iff {set : Int → EngineConfig} :
    number value set = .ok config' ↔ ∃ n, stoi value = .ok n ∧ set n = config' := by
  unfold number
  cases stoi value with
  | error e => simp
  | ok n => simp

/-- An option whose argument is a number, once its name has been recognised. -/
theorem numbered_iff (set : Int → EngineConfig) :
    (withArgument rest fun value => number value set) = .ok (config', rest') ↔
      ∃ n words, (∃ value, words = [value] ∧ stoi value = .ok n) ∧ rest = words ++ rest' ∧ set n = config' := by
  rw [withArgument_iff]
  constructor
  · rintro ⟨value, rfl, made⟩
    obtain ⟨n, read, same⟩ := number_iff.1 made
    exact ⟨n, [value], ⟨value, rfl, read⟩, rfl, same⟩
  · rintro ⟨n, _, ⟨value, rfl, read⟩, rfl, same⟩
    exact ⟨value, rfl, number_iff.2 ⟨n, read, same⟩⟩

/-- What a pass accepts is an option. The tests are made one after the other. -/
theorem optionPass_option (pass : optionPass config arg rest = .ok (config', rest')) : ∃ opt words,
    arg ∈ CliOption.names opt ∧ opt.Argument words ∧ rest = words ++ rest' ∧ opt.apply config = config' := by
  unfold optionPass at pass
  by_cases help : arg = str "-h" ∨ arg = str "--help"
  · rw [if_pos help] at pass
    cases pass
  rw [if_neg help] at pass
  by_cases version : arg = str "-v" ∨ arg = str "--version"
  · rw [if_pos version] at pass
    cases pass
  rw [if_neg version] at pass
  by_cases model : arg = str "-m" ∨ arg = str "--model"
  · rw [if_pos model] at pass
    obtain ⟨value, rfl, made⟩ := withArgument_iff.1 pass
    exact ⟨.model value, [value], List.mem_pair.2 model, rfl, rfl, Except.ok.inj made⟩
  rw [if_neg model] at pass
  by_cases context : arg = str "-c" ∨ arg = str "--context"
  · rw [if_pos context] at pass
    obtain ⟨n, words, argument, split, same⟩ := (numbered_iff _).1 pass
    exact ⟨.context n, words, List.mem_pair.2 context, argument, split, same⟩
  rw [if_neg context] at pass
  by_cases threads : arg = str "-t" ∨ arg = str "--threads"
  · rw [if_pos threads] at pass
    obtain ⟨n, words, argument, split, same⟩ := (numbered_iff _).1 pass
    exact ⟨.threads n, words, List.mem_pair.2 threads, argument, split, same⟩
  rw [if_neg threads] at pass
  by_cases layers : arg = str "--gpu-layers"
  · rw [if_pos layers] at pass
    obtain ⟨n, words, argument, split, same⟩ := (numbered_iff _).1 pass
    exact ⟨.gpuLayers n, words, List.mem_singleton.2 layers, argument, split, same⟩
  rw [if_neg layers] at pass
  by_cases device : arg = str "--gpu-device"
  · rw [if_pos device] at pass
    obtain ⟨n, words, argument, split, same⟩ := (numbered_iff _).1 pass
    exact ⟨.gpuDevice n, words, List.mem_singleton.2 device, argument, split, same⟩
  rw [if_neg device] at pass
  by_cases port : arg = str "--port"
  · rw [if_pos port] at pass
    obtain ⟨n, words, argument, split, same⟩ := (numbered_iff _).1 pass
    exact ⟨.port n, words, List.mem_singleton.2 port, argument, split, same⟩
  rw [if_neg port] at pass
  by_cases noNats : arg = str "--no-nats"
  · rw [if_pos noNats] at pass
    cases pass
    exact ⟨.noNats, [], List.mem_singleton.2 noNats, rfl, rfl, rfl⟩
  rw [if_neg noNats] at pass
  by_cases verbose : arg = str "--verbose"
  · rw [if_pos verbose] at pass
    cases pass
    exact ⟨.verbose, [], List.mem_singleton.2 verbose, rfl, rfl, rfl⟩
  rw [if_neg verbose] at pass
  cases pass

/-- A pass accepts every option, and applies it. -/
theorem optionPass_applies {opt : CliOption} {words : List Bytes} (named : arg ∈ opt.names)
    (argument : opt.Argument words) (split : rest = words ++ rest') (same : opt.apply config = config') :
    optionPass config arg rest = .ok (config', rest') := by
  unfold CliOption.names at named
  cases opt with
  | model path =>
    obtain rfl : words = [path] := argument
    have made : withArgument rest (fun value => .ok { config with modelPath := value }) = .ok (config', rest') :=
      withArgument_iff.2 ⟨path, split, congrArg Except.ok same⟩
    rcases List.mem_pair.1 named with rfl | rfl
    · exact made
    · exact made
  | context n =>
    have made := (numbered_iff fun n => { config with nCtx := n }).2 ⟨n, words, argument, split, same⟩
    rcases List.mem_pair.1 named with rfl | rfl
    · exact made
    · exact made
  | threads n =>
    have made := (numbered_iff fun n => { config with nThreads := n }).2 ⟨n, words, argument, split, same⟩
    rcases List.mem_pair.1 named with rfl | rfl
    · exact made
    · exact made
  | gpuLayers n =>
    have made := (numbered_iff fun n => { config with nGpuLayers := n }).2 ⟨n, words, argument, split, same⟩
    obtain rfl := List.mem_singleton.1 named
    exact made
  | gpuDevice n =>
    have made := (numbered_iff fun n => { config with gpuDevice := n }).2 ⟨n, words, argument, split, same⟩
    obtain rfl := List.mem_singleton.1 named
    exact made
  | port n =>
    have made := (numbered_iff fun n => { config with restPort := n }).2 ⟨n, words, argument, split, same⟩
    obtain rfl := List.mem_singleton.1 named
    exact made
  | noNats =>
    obtain rfl : words = [] := argument
    obtain rfl := List.mem_singleton.1 named
    subst split same
    rfl
  | verbose =>
    obtain rfl : words = [] := argument
    obtain rfl := List.mem_singleton.1 named
    subst split same
    rfl

/-- What a pass of the loop accepts and what it sets. -/
theorem optionPass_iff : optionPass config arg rest = .ok (config', rest') ↔ ∃ opt words,
    arg ∈ CliOption.names opt ∧ opt.Argument words ∧ rest = words ++ rest' ∧ opt.apply config = config' :=
  ⟨optionPass_option, fun ⟨_, _, named, argument, split, same⟩ => optionPass_applies named argument split same⟩

end Passes

section Loop

variable {config config' : EngineConfig} {args rest : List Bytes}

/-- The loop at the end of the arguments. -/
theorem optionBody_end : (.ok (config, []) : Except Early (EngineConfig × List Bytes)) = .ok (config', rest) ↔
    rest = [] ∧ ∃ opts, CommandLine [] opts ∧ opts.foldl CliOption.apply config = config' := by
  constructor
  · intro same
    cases same
    exact ⟨rfl, [], .nil, rfl⟩
  · rintro ⟨rfl, opts, reads, same⟩
    cases reads
    rw [← same]
    rfl

/-- A pass and what is left to the others. -/
theorem optionPass_reads {arg : Bytes} {opts : List CliOption} (reads : CommandLine (arg :: args) opts) :
    ∃ opt opts' rest, opts = opt :: opts' ∧ CommandLine rest opts' ∧
      optionPass config arg args = .ok (opt.apply config, rest) := by
  cases reads with
  | cons named argument rest =>
    exact ⟨_, _, _, rfl, rest, optionPass_iff.2 ⟨_, _, named, argument, rfl, rfl⟩⟩

/-- The loop within enough passes: it ends with the arguments, which are options, each applied in turn. -/
theorem whileM_optionBody {n : Nat} (enough : args.length ≤ n) :
    whileM optionBody n (config, args) = .ok (config', rest) ↔
      rest = [] ∧ ∃ opts, CommandLine args opts ∧ opts.foldl CliOption.apply config = config' := by
  induction n generalizing config args with
  | zero =>
    obtain rfl : args = [] := List.length_eq_zero_iff.1 (Nat.le_zero.1 enough)
    exact optionBody_end
  | succ n ih =>
    cases args with
    | nil => exact optionBody_end
    | cons arg args =>
      rw [whileM, optionBody]
      cases pass : optionPass config arg args with
      | error e =>
        refine iff_of_false (by simp [Except.map]) ?_
        rintro ⟨_, opts, reads, _⟩
        obtain ⟨opt, opts', rest, _, _, accepted⟩ := optionPass_reads reads
        rw [pass] at accepted
        cases accepted
      | ok next =>
        obtain ⟨config₁, rest₁⟩ := next
        obtain ⟨opt, words, named, argument, rfl, applied⟩ := optionPass_iff.1 pass
        have shorter : rest₁.length ≤ n := by
          rw [List.length_cons, List.length_append] at enough
          omega
        refine (ih shorter).trans (and_congr_right fun _ => ?_)
        constructor
        · rintro ⟨opts, reads, same⟩
          refine ⟨opt :: opts, .cons named argument reads, ?_⟩
          rw [List.foldl_cons, applied]
          exact same
        · rintro ⟨opts, reads, same⟩
          obtain ⟨opt', opts', rest, rfl, reads', accepted⟩ := optionPass_reads reads
          rw [pass] at accepted
          cases accepted
          exact ⟨opts', reads', same⟩

/-- **The option loop** accepts the arguments that are options, and applies them. -/
theorem optionLoop_iff : optionLoop args = .ok config' ↔
    ∃ opts, CommandLine args opts ∧ opts.foldl CliOption.apply {} = config' := by
  have passes : ∀ rest, whileM optionBody args.length ({}, args) = .ok (config', rest) ↔
      rest = [] ∧ ∃ opts, CommandLine args opts ∧ opts.foldl CliOption.apply {} = config' :=
    fun rest => whileM_optionBody (Nat.le_refl args.length)
  unfold optionLoop
  constructor
  · intro ended
    cases final : whileM optionBody args.length (({} : EngineConfig), args) with
    | error e =>
      rw [final] at ended
      cases ended
    | ok state =>
      rw [final] at ended
      obtain rfl : state.1 = config' := Except.ok.inj ended
      exact ((passes state.2).1 final).2
  · intro read
    rw [(passes []).2 ⟨rfl, read⟩]
    rfl

end Loop

section Fields

variable {args : List Bytes} {opts : List CliOption} {env : Environment}

/-- A field that some options set has the value of the last of them. -/
theorem foldl_apply_field {β : Type} (field : EngineConfig → β) (sets : CliOption → Option β)
    (set : ∀ config opt, field (opt.apply config) = (sets opt).getD (field config)) (config : EngineConfig) :
    field (opts.foldl CliOption.apply config) = ((opts.filterMap sets).getLast?).getD (field config) := by
  induction opts generalizing config with
  | nil => rfl
  | cons opt opts ih =>
    rw [List.foldl_cons, ih, set]
    cases made : sets opt with
    | none => rw [List.filterMap_cons_none made, Option.getD_none]
    | some value =>
      rw [List.filterMap_cons_some made, List.getLast?_cons, Option.getD_some, Option.getD_some]

/-- The last value given for the model's path. -/
def lastModel (opts : List CliOption) : Option Bytes :=
  (opts.filterMap fun | .model path => some path | _ => none).getLast?

/-- The last value given for the port. -/
def lastPort (opts : List CliOption) : Option Int :=
  (opts.filterMap fun | .port n => some n | _ => none).getLast?

theorem modelPath_foldl (config : EngineConfig) :
    (opts.foldl CliOption.apply config).modelPath = (lastModel opts).getD config.modelPath := by
  apply foldl_apply_field EngineConfig.modelPath
  intro config opt
  cases opt <;> rfl

theorem restPort_foldl (config : EngineConfig) :
    (opts.foldl CliOption.apply config).restPort = (lastPort opts).getD config.restPort := by
  apply foldl_apply_field EngineConfig.restPort
  intro config opt
  cases opt <;> rfl

/-- What the environment makes of a configuration. -/
structure Overridden (env : Environment) (config config' : EngineConfig) : Prop where
  modelPath : config'.modelPath = if config.modelPath = [] then env.modelPath.getD [] else config.modelPath
  natsUrl : config'.natsUrl = if config.natsUrl = [] then env.natsUrl.getD [] else config.natsUrl
  set : ∀ value, env.restPort = some value → stoi value = .ok config'.restPort
  unset : env.restPort = none → config'.restPort = config.restPort

theorem overrideWith_overridden {config config' : EngineConfig} (done : overrideWith env config = .ok config') :
    Overridden env config config' := by
  unfold overrideWith at done
  cases port : env.restPort with
  | none =>
    rw [port] at done
    obtain rfl := Except.ok.inj done
    refine ⟨rfl, rfl, fun value set => ?_, fun _ => rfl⟩
    rw [port] at set
    cases set
  | some value =>
    rw [port] at done
    obtain ⟨n, read, rfl⟩ := number_iff.1 done
    refine ⟨rfl, rfl, fun value' set => ?_, fun unset => ?_⟩
    · rw [port] at set
      obtain rfl := Option.some.inj set
      exact read
    · rw [port] at unset
      cases unset

/-- The port's variable is not set, or is a number. -/
def Parseable (env : Environment) : Prop := ∀ value, env.restPort = some value → ∃ n, stoi value = .ok n

theorem overrideWith_total (parseable : Parseable env) (config : EngineConfig) :
    ∃ config', overrideWith env config = .ok config' := by
  unfold overrideWith
  cases port : env.restPort with
  | none => exact ⟨_, rfl⟩
  | some value =>
    obtain ⟨n, read⟩ := parseable value port
    exact ⟨_, number_iff.2 ⟨n, read, rfl⟩⟩

/-- Command line, then environment, then default, for the fields `model_path` and `rest_port`. -/
structure Precedence (env : Environment) (opts : List CliOption) (config : EngineConfig) : Prop where
  model : config.modelPath = (lastModel opts).getD (env.modelPath.getD [])
  given : ∀ n, lastPort opts = some n → config.restPort = n
  set : ∀ value, lastPort opts = none → env.restPort = some value → stoi value = .ok config.restPort
  default : lastPort opts = none → env.restPort = none → config.restPort = 8080

/-- The environment has nothing else to say where the command line has spoken: of the path only where it is
given as the empty string. -/
structure Agrees (env : Environment) (opts : List CliOption) : Prop where
  model : lastModel opts = some [] → env.modelPath.getD [] = []
  port : ∀ n value, lastPort opts = some n → env.restPort = some value → stoi value = .ok n

/-- The configuration of accepted options. -/
theorem configure_overridden (reads : CommandLine args opts) {config : EngineConfig}
    (done : configure args env = .ok config) : Overridden env (opts.foldl CliOption.apply {}) config := by
  unfold configure at done
  rw [optionLoop_iff.2 ⟨opts, reads, rfl⟩] at done
  exact overrideWith_overridden done

theorem configure_total (reads : CommandLine args opts) (parseable : Parseable env) :
    ∃ config, configure args env = .ok config := by
  unfold configure
  rw [optionLoop_iff.2 ⟨opts, reads, rfl⟩]
  exact overrideWith_total parseable _

theorem Overridden.precedence_agrees {config : EngineConfig}
    (made : Overridden env (opts.foldl CliOption.apply {}) config) : Precedence env opts config ↔ Agrees env opts := by
  have path := made.modelPath
  rw [modelPath_foldl] at path
  constructor
  · intro precedence
    constructor
    · intro empty
      have model := precedence.model
      rw [path, empty, Option.getD_some, if_pos rfl, Option.getD_some] at model
      exact model
    · intro n value last set
      have port := made.set value set
      rw [precedence.given n last] at port
      exact port
  · intro agrees
    constructor
    · rw [path]
      cases given : lastModel opts with
      | none => exact if_pos rfl
      | some path =>
        rw [Option.getD_some, Option.getD_some]
        by_cases empty : path = []
        · subst empty
          rw [if_pos rfl]
          exact agrees.model given
        · exact if_neg empty
    · intro n last
      cases port : env.restPort with
      | none =>
        rw [made.unset port, restPort_foldl, last]
        rfl
      | some value =>
        have read := (made.set value port).symm.trans (agrees.port n value last port)
        exact Except.ok.inj read
    · intro value _ set
      exact made.set value set
    · intro last unset
      rw [made.unset unset, restPort_foldl, last]
      rfl

end Fields

section Theorems

/-- **Command line beats environment beats default**, for every accepted argument vector, exactly when the
environment agrees with what the command line says of the port, and with an empty path. -/
theorem precedence_iff (args : List Bytes) {env : Environment} (parseable : Parseable env) :
    ((∃ config, optionLoop args = .ok config) ↔ ∃ opts, CommandLine args opts) ∧
      ∀ opts, CommandLine args opts → ∃ config, configure args env = .ok config ∧
        (Precedence env opts config ↔ Agrees env opts) := by
  refine ⟨⟨?_, ?_⟩, fun opts reads => ?_⟩
  · rintro ⟨config, accepted⟩
    obtain ⟨opts, reads, _⟩ := optionLoop_iff.1 accepted
    exact ⟨opts, reads⟩
  · rintro ⟨opts, reads⟩
    exact ⟨_, optionLoop_iff.2 ⟨opts, reads, rfl⟩⟩
  · obtain ⟨config, done⟩ := configure_total reads parseable
    exact ⟨config, done, (configure_overridden reads done).precedence_agrees⟩

/-- `--port 9000`. -/
theorem reads_port : CommandLine [str "--port", str "9000"] [.port 9000] := by
  have argument : (CliOption.port 9000).Argument [str "9000"] := ⟨str "9000", rfl, by decide⟩
  exact .cons List.mem_cons_self argument .nil

theorem precedence_iff_port : ∃ config, configure [str "--port", str "9000"] {} = .ok config ∧
    (Precedence {} [.port 9000] config ↔ Agrees {} [.port 9000]) :=
  (precedence_iff [str "--port", str "9000"] (show Parseable {} by intro value set; cases set)).2 _ reads_port

/-- The variable beats the port of the command line. -/
theorem port_overridden : ¬ ∀ args env opts, Parseable env → CommandLine args opts →
    ∃ config, configure args env = .ok config ∧ Precedence env opts config := by
  intro all
  have nine : stoi (str "9100") = .ok 9100 := by decide
  obtain ⟨config, done, precedence⟩ := all _ { restPort := some (str "9100") } _
    (by intro value set; cases set; exact ⟨9100, nine⟩) reads_port
  have read := (configure_overridden reads_port done).set _ rfl
  rw [precedence.given 9000 rfl, nine] at read
  exact absurd (Except.ok.inj read) (by decide)

end Theorems

end ModelRuntime
