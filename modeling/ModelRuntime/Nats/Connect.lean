import ModelRuntime.Main.Configure
import ModelRuntime.Nats.Publish

/-!
# Where the engine connects

An empty `nats_url` is `main`'s sign for `--no-nats`, and also what lets the environment speak and what
the engine's constructor replaces by the default. So the option turns nothing off (it is the one way to have
the variable heard), and without it the variable is not heard.
-/

namespace ModelRuntime
open Cpp

/-- The constructor of `NatsClient`: the URLs that it tries to connect to. -/
def NatsClient.connects (withNats : Bool) (url : Bytes) : List Bytes := if withNats then [cStr url] else []

def defaultNatsUrl : Bytes := str "nats://localhost:4222"

/-- The member `nats_` of an engine with this configuration. -/
def InferenceEngine.connects (withNats : Bool) (config : EngineConfig) : List Bytes :=
  NatsClient.connects withNats (if config.natsUrl = [] then defaultNatsUrl else config.natsUrl)

/-- With `--no-nats` no connection is attempted, and without it one to the variable's URL where it is set. -/
structure NatsAsAsked (args : List Bytes) (env : Environment) (config : EngineConfig) : Prop where
  disabled : str "--no-nats" ∈ args → InferenceEngine.connects true config = []
  connected : str "--no-nats" ∉ args → ∀ url, env.natsUrl = some url →
    InferenceEngine.connects true config = [url]

variable {args : List Bytes} {env : Environment} {config : EngineConfig} {opts : List CliOption}

theorem connects_some (config : EngineConfig) : InferenceEngine.connects true config ≠ [] := List.cons_ne_nil _ _

theorem connects_default (url : config.natsUrl = defaultNatsUrl) :
    InferenceEngine.connects true config = [defaultNatsUrl] := by
  have nonempty : defaultNatsUrl ≠ [] := by decide
  have plain : cStr defaultNatsUrl = defaultNatsUrl := by decide
  unfold InferenceEngine.connects NatsClient.connects
  rw [url, if_neg nonempty, if_pos rfl, plain]

/-- The option is read only where it is written. -/
theorem CommandLine.noNats (reads : CommandLine args opts) (option : .noNats ∈ opts) : str "--no-nats" ∈ args := by
  induction reads with
  | nil => cases option
  | cons named argument rest ih =>
    rcases List.mem_cons.1 option with rfl | later
    · rw [List.mem_singleton.1 named]
      exact List.mem_cons_self
    · exact List.mem_cons_of_mem _ (List.mem_append_right _ (ih later))

/-- Options without `--no-nats` leave the default. -/
theorem natsUrl_foldl (absent : .noNats ∉ opts) (config : EngineConfig) :
    (opts.foldl CliOption.apply config).natsUrl = config.natsUrl := by
  induction opts generalizing config with
  | nil => rfl
  | cons opt opts ih =>
    rw [List.mem_cons, not_or] at absent
    rw [List.foldl_cons, ih absent.2]
    cases opt with
    | noNats => exact absurd rfl absent.1
    | _ => rfl

/-- Accepted arguments are options. -/
theorem configure_reads (accepted : configure args env = .ok config) : ∃ opts, CommandLine args opts := by
  unfold configure at accepted
  cases read : optionLoop args with
  | error e =>
    rw [read] at accepted
    cases accepted
  | ok start =>
    obtain ⟨opts, reads, _⟩ := optionLoop_iff.1 read
    exact ⟨opts, reads⟩

/-- Without the option the variable is not heard. -/
theorem natsUrl_default (accepted : configure args env = .ok config) (absent : str "--no-nats" ∉ args) :
    config.natsUrl = defaultNatsUrl := by
  obtain ⟨opts, reads⟩ := configure_reads accepted
  have kept : (opts.foldl CliOption.apply {}).natsUrl = defaultNatsUrl :=
    natsUrl_foldl (fun option => absent (reads.noNats option)) {}
  have nonempty : defaultNatsUrl ≠ [] := by decide
  rw [(configure_overridden reads accepted).natsUrl, kept, if_neg nonempty]

/-- **The engine connects as asked** exactly without the option, where the variable is not set or is the
default. -/
theorem natsAsAsked_iff (accepted : configure args env = .ok config) : NatsAsAsked args env config ↔
    str "--no-nats" ∉ args ∧ ∀ url, env.natsUrl = some url → url = defaultNatsUrl := by
  constructor
  · intro asked
    have absent : str "--no-nats" ∉ args := fun option => connects_some config (asked.disabled option)
    refine ⟨absent, fun url set => ?_⟩
    have connected := asked.connected absent url set
    rw [connects_default (natsUrl_default accepted absent)] at connected
    exact (List.cons.inj connected).1.symm
  · rintro ⟨absent, same⟩
    refine ⟨fun option => absurd option absent, fun _ url set => ?_⟩
    rw [connects_default (natsUrl_default accepted absent), same url set]

/-- No arguments and the default in the environment. -/
theorem natsAsAsked_iff_default : NatsAsAsked [] { natsUrl := some defaultNatsUrl } {} :=
  (natsAsAsked_iff rfl).2 ⟨List.not_mem_nil, fun _ set => (Option.some.inj set).symm⟩

/-- `--no-nats` connects to the default. -/
theorem noNats_connects : ¬ ∀ args env config, configure args env = .ok config → NatsAsAsked args env config := by
  intro all
  have accepted : configure [str "--no-nats"] {} = .ok { natsUrl := [] } := rfl
  exact connects_some _ ((all _ _ _ accepted).disabled List.mem_cons_self)

end ModelRuntime
