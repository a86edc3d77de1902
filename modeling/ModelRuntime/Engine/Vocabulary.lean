import ModelRuntime.Engine.Lifecycle
import ModelRuntime.Tokenizer.VocabLine

/-!
# The vocabulary of a start

`start` reads the vocabulary beside the model without a handler: a file that `load` throws on ends it.
-/

namespace ModelRuntime
open Cpp Lib

/-- Neither `load` nor a `start` that finds the file ends with an exception. -/
structure NeverEscapes (contents : Bytes) : Prop where
  load : ∀ t : Tokenizer, ∃ opened, (t.load (some contents)).1 = .ok opened
  start : ∀ withCuda (s : EngineProcess) outcome, outcome.vocab = some contents →
    ∀ x, (s.start withCuda outcome).1 ≠ .threw x

variable {withCuda : Bool} {s : EngineProcess} {outcome : StartOutcome} {contents : Bytes}

theorem launch_returns (x : StdException) : s.launch.1 ≠ .threw x := by
  rw [EngineProcess.launch]
  split <;> simp

/-- A start throws what reading its vocabulary throws, and nothing else. -/
theorem start_threw_load {x : StdException} (threw : (s.start withCuda outcome).1 = .threw x) :
    ∃ t : Tokenizer, (t.load outcome.vocab).1 = .error x := by
  cases acquired : s.acquireGpu withCuda outcome.devices with
  | mk ok s' =>
    cases ok with
    | false =>
      rw [EngineProcess.start_refused acquired] at threw
      cases threw
    | true =>
      obtain ⟨_, stub⟩ | ⟨_, _, unloaded⟩ | ⟨_, _, ⟨y, error, escapes⟩ | launched⟩ :=
        EngineProcess.start_cases acquired
      · rw [stub] at threw
        exact absurd threw (launch_returns x)
      · rw [unloaded] at threw
        cases threw
      · rw [escapes] at threw
        cases threw
        exact ⟨s'.tokenizer, error⟩
      · rw [launched] at threw
        exact absurd threw (launch_returns x)

/-- An engine on a CPU with a model. -/
def modelEngine : EngineProcess := .init { modelPath := str "model.gguf" }

theorem modelEngine_threw {x : StdException} (throws : (({} : Tokenizer).load (some contents)).1 = .error x) :
    (modelEngine.start withCuda { vocab := some contents }).1 = .threw x := by
  have acquired : modelEngine.acquireGpu withCuda none = (true, modelEngine) := by
    rw [EngineProcess.acquireGpu]
    exact if_neg (by decide)
  have path : modelEngine.config.modelPath ≠ [] := by decide
  have threw : modelEngine.start withCuda { vocab := some contents } = (.threw x, _) :=
    EngineProcess.start_threw acquired path rfl throws
  rw [threw]

/-- No start is ended by the file exactly where the file can be read. -/
theorem startReturns_iff (contents : Bytes) :
    (∀ withCuda (s : EngineProcess) outcome, outcome.vocab = some contents →
      ∀ x, (s.start withCuda outcome).1 ≠ .threw x) ↔ Readable contents := by
  constructor
  · intro returns
    rw [← load_ok_iff {}]
    cases read : (({} : Tokenizer).load (some contents)).1 with
    | error x => exact absurd (modelEngine_threw read) (returns false _ _ rfl x)
    | ok opened => exact ⟨opened, rfl⟩
  · intro readable withCuda s outcome file x threw
    obtain ⟨t, error⟩ := start_threw_load threw
    obtain ⟨opened, read⟩ := (load_ok_iff t contents).2 readable
    rw [file, read] at error
    cases error

/-- **No exception escapes** from loading a file or from a start on it exactly where each of its lines can be
read: where a header has a number after its first colon, where a line of the other ones that starts with a
space has a number after its last one, and where the only space of a line does not end it. -/
theorem neverEscapes_iff (contents : Bytes) : NeverEscapes contents ↔ Readable contents := by
  constructor
  · exact fun never => (startReturns_iff contents).1 never.start
  · exact fun readable => ⟨fun t => (load_ok_iff t contents).2 readable, (startReturns_iff contents).2 readable⟩

/-- A token with a blank behind it has no id there, which is read all the same. -/
theorem blank_escapes : ¬ ∀ contents, NeverEscapes contents := by
  intro all
  have file : lines newline (str "a\nb \n") = [str "a", str "b "] := by decide
  have readable := (startReturns_iff _).1 (all (str "a\nb \n")).start
  rw [Readable, file] at readable
  exact (readable.2 (str "b ") (by simp)).filled (str "b") (by decide) rfl

end ModelRuntime
