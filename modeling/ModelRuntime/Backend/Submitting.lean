import ModelRuntime.Backend.Autoregressive

/-!
# What a generation submits

The `llama_decode` calls of `generate`, whatever they return and whatever the callback does. The batches are
consecutive cuts of the prompt and the tokens behind it, each position once and in order; logits are asked for
at the last entry of a batch; and the first batch that is refused is the last one submitted.
-/

namespace ModelRuntime
open Cpp

/-- The entries of the batches, one batch after the other. -/
def submitted (decodes : List (Batch × Int)) : List (Int × Int) :=
  decodes.flatMap fun d => d.1.map fun e => (e.pos, e.token)

/-- Logits are asked for at the last entry and at no other. -/
def LastWanted (batch : Batch) : Prop :=
  ∃ front last, batch = front ++ [last] ∧ last.logits = true ∧ ∀ e ∈ front, e.logits = false

/-- `tokens` have been submitted in these calls, of which those before the last one succeeded. -/
structure Cuts (tokens : List Int) (decodes : List (Batch × Int)) : Prop where
  entries : submitted decodes = positioned tokens
  wanted : ∀ d ∈ decodes, LastWanted d.1
  stops : ∀ d ∈ decodes.dropLast, d.2 = 0

theorem batchOf_lastWanted {tokens : List Int} (some : tokens ≠ []) (start : Nat) : LastWanted (batchOf tokens start) := by
  obtain ⟨front, last, rfl⟩ := List.eq_nil_or_concat tokens |>.resolve_left some
  rw [List.concat_eq_append, batchOf_snoc]
  refine ⟨_, _, rfl, rfl, fun e mem => ?_⟩
  obtain ⟨_, _, rfl⟩ := List.mem_map.1 mem
  rfl

theorem Cuts.nil : Cuts [] [] where
  entries := rfl
  wanted := fun _ mem => absurd mem List.not_mem_nil
  stops := fun _ mem => absurd mem List.not_mem_nil

variable {M C L σ : Type} {api : LlamaCpp M C L} {run : GenRun C σ} {tokens chunk : List Int}

/-- One more batch, where none has failed. -/
theorem Cuts.decode (cuts : Cuts tokens run.decodes) (codes : ∀ d ∈ run.decodes, d.2 = 0) (some : chunk ≠ []) :
    Cuts (tokens ++ chunk) (run.decode api (batchOf chunk tokens.length)).2.decodes := by
  rw [GenRun.decode_decodes]
  refine ⟨?_, fun d mem => ?_, fun d mem => ?_⟩
  · rw [submitted, List.flatMap_append, ← submitted, cuts.entries, positioned_append, ← batchOf_entries]
    simp
  · rcases List.mem_append.1 mem with before | last
    · exact cuts.wanted d before
    · rw [List.mem_singleton.1 last]
      exact batchOf_lastWanted some _
  · rw [List.dropLast_concat] at mem
    exact codes d mem

end ModelRuntime
