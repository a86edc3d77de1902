import ModelRuntime.Backend.Generate
import ModelRuntime.Lib.Unroll

/-!
# `generate` is the autoregressive loop

The specification is the sequence in which each token is drawn from the logits of the prompt and the
tokens before it (`nextToken`), unrolled and cut at the first end-of-generation token. What carries
the proof is the content of the cache: after each successful `llama_decode` it holds the sequence
submitted so far at positions `0..n-1`, so that the logits read are those of that sequence.
-/

namespace ModelRuntime
open Cpp Lib

/-- The token that follows `tokens`, the first draw being number `draws`. -/
def nextToken {L : Type} (logits : List Int → L) (draw : L → Nat → Int) (prompt : List Int)
    (draws : Nat) (tokens : List Int) : Int :=
  draw (logits (prompt ++ tokens)) (draws + tokens.length)

theorem positioned_append (a b : List Int) :
    positioned (a ++ b) = positioned a ++
      (b.zipIdx a.length).map fun (token, i) => ((i : Int), token) := by
  simp [positioned, List.zipIdx_append]

theorem modify_snoc {α : Type} (f : α → α) (xs : List α) (x : α) :
    (xs ++ [x]).modify xs.length f = xs ++ [f x] := by
  induction xs with
  | nil => rfl
  | cons y ys ih => simpa using ih

/-- Only the last entry of a batch asks for logits. -/
theorem batchOf_snoc (front : List Int) (last : Int) (start : Nat) :
    batchOf (front ++ [last]) start =
      ((front.zipIdx start).map fun (token, pos) => ({ token, pos } : BatchEntry)) ++
        [{ token := last, pos := (start + front.length : Nat), logits := true }] := by
  have last := modify_snoc (fun e : BatchEntry => { e with logits := true })
    ((front.zipIdx start).map fun (token, pos) => ({ token, pos } : BatchEntry))
    { token := last, pos := (start + front.length : Nat) }
  simpa [batchOf, List.zipIdx_append] using last

theorem batchOf_entries (tokens : List Int) (start : Nat) :
    (batchOf tokens start).map (fun e => (e.pos, e.token)) =
      (tokens.zipIdx start).map fun (token, i) => ((i : Int), token) := by
  rcases List.eq_nil_or_concat tokens with rfl | ⟨front, last, rfl⟩
  · rfl
  · rw [List.concat_eq_append, batchOf_snoc]
    simp [List.zipIdx_append]

variable {M C L σ : Type} {api : LlamaCpp M C L} {kv : C → List (Int × Int)} {logits : List Int → L}

/-- The context holds `tokens` and the logits of its last entry are to be read. -/
structure Decoded (api : LlamaCpp M C L) (kv : C → List (Int × Int)) (logits : List Int → L)
    (tokens : List Int) (ctx : C) : Prop where
  cached : (kv ctx).Perm (positioned tokens)
  last : api.getLogitsIth ctx (-1) = logits tokens

/-- A successful `llama_decode` of `chunk` at the end of what is cached. -/
theorem DecodeContract.submit (contract : DecodeContract api kv logits) {tokens chunk : List Int}
    {run : GenRun C σ} (cached : (kv run.ctx).Perm (positioned tokens)) (some : chunk ≠ [])
    (ok : (run.decode api (batchOf chunk tokens.length)).1 = 0) :
    Decoded api kv logits (tokens ++ chunk) (run.decode api (batchOf chunk tokens.length)).2.ctx ∧
      api.getLogitsIth (run.decode api (batchOf chunk tokens.length)).2.ctx
        (chunk.length - 1 : Nat) = logits (tokens ++ chunk) := by
  obtain ⟨front, last, rfl⟩ := List.eq_nil_or_concat chunk |>.resolve_left some
  rw [List.concat_eq_append] at *
  have perm : (kv (api.decode run.ctx (batchOf (front ++ [last]) tokens.length)).2).Perm
      (positioned (tokens ++ (front ++ [last]))) := by
    rw [positioned_append, ← batchOf_entries]
    exact (contract.decode _ _ ok).trans (cached.append_right _)
  rw [GenRun.decode] at ok ⊢
  dsimp only at ok ⊢
  rw [batchOf_snoc] at ok perm ⊢
  obtain ⟨hlast, hindex⟩ := contract.logits _ _ _ _ ok rfl perm
  refine ⟨⟨perm, hlast⟩, ?_⟩
  simpa using hindex

/-- The prompt batch at `i` is the chunk of the prompt that ends before the next one. -/
theorem promptBatch_eq (batchSize : Nat) {prompt : List Int} {i : Nat} (h : i ≤ prompt.length) :
    promptBatch batchSize prompt i =
      batchOf ((prompt.drop i).take batchSize) (prompt.take i).length := by
  rw [promptBatch, List.length_take, Nat.min_eq_left h]
  congr 1
  rw [List.take_eq_take_iff, List.length_drop]
  omega

section Loops

variable {be : LlamaBackend M C} {run : GenRun C σ}

/-- **The prefill loop** submits each prompt position once, in order. -/
theorem prefill_spec (contract : DecodeContract api kv logits) {batchSize : Nat} (pos : 0 < batchSize)
    (prompt : List Int) :
    ∀ (passes i : Nat) (run : GenRun C σ), prompt.length ≤ i + passes →
      (kv run.ctx).Perm (positioned (prompt.take i)) →
      (prompt.length ≤ i → Decoded api kv logits prompt run.ctx) →
      ∀ {ok out}, LlamaBackend.prefill api batchSize prompt passes i run = (ok, out) →
        out.draws = run.draws ∧ out.user = run.user ∧
          (ok = true → Decoded api kv logits prompt out.ctx) ∧
          (ok = false → ∃ d ∈ out.decodes, d.2 ≠ 0) := by
  intro passes
  induction passes with
  | zero =>
    intro i run bound _ done ok out e
    rw [LlamaBackend.prefill_end (by omega)] at e
    cases e
    exact ⟨rfl, rfl, fun _ => done (by omega), by simp⟩
  | succ passes ih =>
    intro i run bound cached done ok out e
    by_cases more : i < prompt.length
    · rw [LlamaBackend.prefill_more more] at e
      by_cases succeeds : (run.decode api (promptBatch batchSize prompt i)).1 = 0
      · rw [if_neg (by simpa using succeeds)] at e
        have chunk : (prompt.drop i).take batchSize ≠ [] := by
          rw [ne_eq, List.take_eq_nil_iff, List.drop_eq_nil_iff]
          omega
        have sub := succeeds
        rw [promptBatch_eq _ more.le] at sub
        obtain ⟨decoded, _⟩ := contract.submit cached chunk sub
        rw [← List.take_add, ← promptBatch_eq _ more.le] at decoded
        exact ih (i + batchSize) _ (by omega) decoded.cached
          (fun all => by rwa [List.take_of_length_le all] at decoded) e
      · rw [if_pos (by simpa using succeeds)] at e
        cases e
        refine ⟨rfl, rfl, by simp, fun _ => ⟨(promptBatch batchSize prompt i, _), ?_, succeeds⟩⟩
        rw [GenRun.decode_decodes]
        simp
    · rw [LlamaBackend.prefill_end (by omega)] at e
      cases e
      exact ⟨rfl, rfl, fun _ => done (by omega), by simp⟩

/-- `run` after `on_token(token)` has returned. -/
def GenRun.reported (onToken : Int → σ → σ) (run : GenRun C σ) (token : Int) : GenRun C σ :=
  { run with user := onToken token run.user }

/-- At the head of the token loop: `generated` is the sequence so far and none of it ends the
generation, the cache holds it after the prompt, and `cur` is the token drawn next. -/
structure LoopHead (api : LlamaCpp M C L) (be : LlamaBackend M C) (kv : C → List (Int × Int))
    (next : List Int → Int) (prompt : List Int) (draws : Nat) (onToken : Int → σ → σ) (user : σ)
    (i : Nat) (cur : Int) (generated : List Int) (run : GenRun C σ) : Prop where
  stage : generated = unroll next i
  count : generated.length = i
  going : ∀ x ∈ generated, be.isEos api x = false
  drawn : cur = next generated
  draws : run.draws = draws + i + 1
  cached : (kv run.ctx).Perm (positioned (prompt ++ generated))
  called : run.user = generated.foldl (fun u token => onToken token u) user

variable {draw : L → Nat → Int} {prompt : List Int} {draws : Nat} {onToken : Int → σ → σ} {user : σ}

/-- One more pass: the token is pushed and reported, decoded at its position, and the next drawn. -/
theorem LoopHead.pass (contract : DecodeContract api kv logits) {i : Nat} {cur : Int}
    {generated : List Int}
    (h : LoopHead api be kv (nextToken logits draw prompt draws) prompt draws onToken user i cur
      generated run)
    (more : be.isEos api cur = false)
    (succeeds : ((run.reported onToken cur).decode api (batchOf [cur] (prompt.length + i))).1 = 0) :
    let after := ((run.reported onToken cur).decode api (batchOf [cur] (prompt.length + i))).2
    LoopHead api be kv (nextToken logits draw prompt draws) prompt draws onToken user (i + 1)
      (after.sample api draw 0).1 (generated ++ [cur]) (after.sample api draw 0).2 := by
  have place : prompt.length + i = (prompt ++ generated).length := by simp [h.count]
  have cached : (kv (run.reported onToken cur).ctx).Perm (positioned (prompt ++ generated)) := h.cached
  rw [place] at succeeds ⊢
  obtain ⟨decoded, index⟩ := contract.submit cached (by simp) succeeds
  refine ⟨?_, by simp [h.count], ?_, ?_, ?_, ?_, ?_⟩
  · rw [unroll, ← h.stage, ← h.drawn]
  · intro x hx
    rcases List.mem_append.1 hx with hx | hx
    · exact h.going x hx
    · rw [List.mem_singleton.1 hx]
      exact more
  · have index : api.getLogitsIth _ 0 = _ := index
    have count : (generated ++ [cur]).length = i + 1 := by simp [h.count]
    rw [GenRun.sample, index, nextToken, GenRun.decode_draws, count, List.append_assoc]
    dsimp only [GenRun.reported]
    rw [h.draws]
    rfl
  · dsimp only [GenRun.sample, GenRun.decode_draws, GenRun.reported]
    rw [h.draws]
    omega
  · rw [← List.append_assoc]
    exact decoded.cached
  · dsimp only [GenRun.sample, GenRun.decode_user, GenRun.reported]
    rw [h.called, List.foldl_append]
    rfl

end Loops

end ModelRuntime
