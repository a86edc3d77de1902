import ModelRuntime.Backend.Sampling
import ModelRuntime.Lib.Interleave

/-!
# Requests on one context

`generate` at temperature 0 taken apart into its llama.cpp calls: the clear, each `llama_decode`, and
each read of the logits with the greedy choice made from them. `reaches_generate` says that the steps
of a request left alone compute what `generate` returns. Requests that share the context keep this as
long as no other request's call falls between two calls of theirs.
-/

namespace ModelRuntime
open Cpp Lib StateTransition

/-- What `generate` is asked for. -/
structure Request where
  prompt : List Int
  maxTokens : Int

/-- The llama.cpp call a request makes next. -/
inductive Pc where
  | clear
  | prefill (i : Nat)
  | readPrompt
  | decode (i : Nat) (cur : Int)
  | read (i : Nat)
  | finished (tokens : Except StdException (List Int))
  deriving DecidableEq

structure Thread where
  request : Request
  generated : List Int := []
  pc : Pc

variable {M C L : Type} (api : LlamaCpp M C L) (be : LlamaBackend M C) (draw : L → Int)

namespace Thread

/-- `generate` up to its first call. -/
def start (request : Request) : Thread where
  request
  pc :=
    if request.prompt = [] then .finished (.ok [])
    else if request.maxTokens < 0 then .finished (.error (.lengthError (str "vector::reserve")))
    else .clear

/-- The head of the token loop at index `i`, up to the next call. -/
def loop (t : Thread) (i : Nat) (cur : Int) : Thread :=
  if (i : Int) < t.request.maxTokens then
    if be.isEos api cur then { t with pc := .finished (.ok t.generated) }
    else { t with generated := t.generated ++ [cur], pc := .decode i cur }
  else { t with pc := .finished (.ok t.generated) }

/-- One call and what follows it up to the next. -/
def step : Thread × C → Option (Thread × C)
  | (t, ctx) =>
    match t.pc with
    | .clear => some ({ t with pc := .prefill 0 }, api.kvCacheClear ctx)
    | .prefill i =>
      let (ret, ctx) := api.decode ctx (promptBatch (toSizeT be.config.nBatch) t.request.prompt i)
      if ret ≠ 0 then some ({ t with pc := .finished (.ok t.generated) }, ctx)
      else if i + toSizeT be.config.nBatch < t.request.prompt.length then
        some ({ t with pc := .prefill (i + toSizeT be.config.nBatch) }, ctx)
      else some ({ t with pc := .readPrompt }, ctx)
    | .readPrompt => some (t.loop api be 0 (draw (api.getLogitsIth ctx (-1))), ctx)
    | .decode i cur =>
      let (ret, ctx) := api.decode ctx (batchOf [cur] (t.request.prompt.length + i))
      if ret ≠ 0 then some ({ t with pc := .finished (.ok t.generated) }, ctx)
      else some ({ t with pc := .read i }, ctx)
    | .read i => some (t.loop api be (i + 1) (draw (api.getLogitsIth ctx 0)), ctx)
    | .finished _ => none

/-- The next call does not depend on the context, or there is none. -/
def Idle (t : Thread) : Prop := t.pc = .clear ∨ ∃ tokens, t.pc = .finished tokens

/-- What the next calls can see of the context. -/
def Agree (kv : C → List (Int × Int)) (t : Thread) (ctx ctx' : C) : Prop :=
  match t.pc with
  | .clear | .finished _ => True
  | .prefill _ | .decode _ _ => kv ctx = kv ctx'
  | .readPrompt | .read _ => kv ctx = kv ctx' ∧ api.getLogitsIth ctx = api.getLogitsIth ctx'

variable {api be draw} {kv : C → List (Int × Int)}

theorem Agree.idle {t : Thread} (h : t.Idle) (ctx ctx' : C) : t.Agree api kv ctx ctx' := by
  rcases h with h | ⟨tokens, h⟩ <;> rw [Agree, h] <;> trivial

/-- After a read only the cache is looked at. -/
theorem Agree.loop (t : Thread) (i : Nat) (cur : Int) {ctx ctx' : C} (same : kv ctx = kv ctx') :
    (t.loop api be i cur).Agree api kv ctx ctx' := by
  rw [Thread.loop]
  split
  · split
    · trivial
    · exact same
  · trivial

/-- A request cannot tell contexts apart that agree on what its next calls see. -/
theorem indistinct (det : DecodeLocal api kv) :
    Indistinct (Thread.step api be draw) Idle (Agree api kv) where
  idle t ctx ctx' h := Agree.idle h ctx ctx'
  step t ctx ctx' h := by
    rw [Agree] at h
    rw [step, step]
    cases e : t.pc with
    | clear =>
      refine .some ⟨rfl, ?_⟩
      exact (det.clear ctx).trans (det.clear ctx').symm
    | prefill i =>
      rw [e] at h
      have code := det.code _ _ (promptBatch (toSizeT be.config.nBatch) t.request.prompt i) h
      have cached := det.cached _ _ (promptBatch (toSizeT be.config.nBatch) t.request.prompt i) h
      have logits := det.logits _ _ (promptBatch (toSizeT be.config.nBatch) t.request.prompt i) h
      dsimp only
      rw [code]
      split
      · exact .some ⟨rfl, trivial⟩
      · split
        · exact .some ⟨rfl, cached⟩
        · exact .some ⟨rfl, cached, logits⟩
    | readPrompt =>
      rw [e] at h
      obtain ⟨same, logits⟩ := h
      dsimp only
      rw [logits]
      exact .some ⟨rfl, Agree.loop t _ _ same⟩
    | decode i cur =>
      rw [e] at h
      have code := det.code _ _ (batchOf [cur] (t.request.prompt.length + i)) h
      have cached := det.cached _ _ (batchOf [cur] (t.request.prompt.length + i)) h
      have logits := det.logits _ _ (batchOf [cur] (t.request.prompt.length + i)) h
      dsimp only
      rw [code]
      split
      · exact .some ⟨rfl, trivial⟩
      · exact .some ⟨rfl, cached, logits⟩
    | read i =>
      rw [e] at h
      obtain ⟨same, logits⟩ := h
      dsimp only
      rw [logits]
      exact .some ⟨rfl, Agree.loop t _ _ same⟩
    | finished tokens => exact .none

/-! ## A request alone -/

variable {σ : Type}

/-- A request that has stopped with `tokens`. -/
def Ends (api : LlamaCpp M C L) (be : LlamaBackend M C) (draw : L → Int) (state : Thread × C)
    (tokens : Except StdException (List Int)) : Prop :=
  ∃ last, Reaches (Thread.step api be draw) state last ∧ last.1.pc = .finished tokens

theorem Ends.before {a b : Thread × C} {tokens : Except StdException (List Int)}
    (run : Reaches (Thread.step api be draw) a b) (h : Ends api be draw b tokens) :
    Ends api be draw a tokens := by
  obtain ⟨last, rest, stop⟩ := h
  exact ⟨last, run.trans rest, stop⟩

section Calls

variable {t : Thread} {ctx : C} {i : Nat}

theorem step_prefill_ok (here : t.pc = .prefill i)
    (ok : (api.decode ctx (promptBatch (toSizeT be.config.nBatch) t.request.prompt i)).1 = 0) :
    step api be draw (t, ctx) =
      some ({ t with pc := (if i + toSizeT be.config.nBatch < t.request.prompt.length then
          Pc.prefill (i + toSizeT be.config.nBatch) else .readPrompt) },
        (api.decode ctx (promptBatch (toSizeT be.config.nBatch) t.request.prompt i)).2) := by
  rw [step, here]
  dsimp only
  rw [if_neg (not_not.2 ok)]
  split <;> rfl

theorem step_prefill_fails (here : t.pc = .prefill i)
    (fails : (api.decode ctx (promptBatch (toSizeT be.config.nBatch) t.request.prompt i)).1 ≠ 0) :
    step api be draw (t, ctx) =
      some ({ t with pc := .finished (.ok t.generated) },
        (api.decode ctx (promptBatch (toSizeT be.config.nBatch) t.request.prompt i)).2) := by
  rw [step, here]
  dsimp only
  rw [if_pos fails]

theorem step_decode_ok {cur : Int} (here : t.pc = .decode i cur)
    (ok : (api.decode ctx (batchOf [cur] (t.request.prompt.length + i))).1 = 0) :
    step api be draw (t, ctx) =
      some ({ t with pc := .read i },
        (api.decode ctx (batchOf [cur] (t.request.prompt.length + i))).2) := by
  rw [step, here]
  dsimp only
  rw [if_neg (not_not.2 ok)]

theorem step_decode_fails {cur : Int} (here : t.pc = .decode i cur)
    (fails : (api.decode ctx (batchOf [cur] (t.request.prompt.length + i))).1 ≠ 0) :
    step api be draw (t, ctx) =
      some ({ t with pc := .finished (.ok t.generated) },
        (api.decode ctx (batchOf [cur] (t.request.prompt.length + i))).2) := by
  rw [step, here]
  dsimp only
  rw [if_pos fails]

theorem step_read (here : t.pc = .read i) :
    step api be draw (t, ctx) =
      some (t.loop api be (i + 1) (draw (api.getLogitsIth ctx 0)), ctx) := by
  rw [step, here]

theorem step_readPrompt (here : t.pc = .readPrompt) :
    step api be draw (t, ctx) = some (t.loop api be 0 (draw (api.getLogitsIth ctx (-1))), ctx) := by
  rw [step, here]

end Calls

/-- The token loop, call by call. -/
theorem loop_ends (left : Nat) : ∀ (i : Nat) (cur : Int) (t : Thread) (run : GenRun C σ),
    (i : Int) + left = t.request.maxTokens →
    Ends api be draw (t.loop api be i cur, run.ctx)
      (LlamaBackend.decodeLoop api be (fun l _ => draw l) none t.request.prompt.length left i cur
        t.generated run).1 := by
  induction left with
  | zero =>
    intro i cur t run h
    have stop : ¬ (i : Int) < t.request.maxTokens := by omega
    refine ⟨_, .refl, ?_⟩
    rw [Thread.loop, if_neg stop]
    rfl
  | succ left ih =>
    intro i cur t run h
    have more : (i : Int) < t.request.maxTokens := by omega
    rw [Thread.loop, if_pos more, LlamaBackend.decodeLoop]
    cases eos : be.isEos api cur with
    | true => exact ⟨_, .refl, rfl⟩
    | false =>
      simp only [Bool.false_eq_true, if_false, GenRun.call]
      by_cases ok : (run.decode api (batchOf [cur] (t.request.prompt.length + i))).1 = 0
      · rw [if_neg (not_not.2 ok)]
        refine .before (.head (step_decode_ok rfl ok) (.single (step_read rfl))) ?_
        exact ih (i + 1) _ { t with generated := t.generated ++ [cur], pc := .read i }
          ((run.decode api (batchOf [cur] (t.request.prompt.length + i))).2.sample api
            (fun l _ => draw l) 0).2 (by dsimp only; omega)
      · rw [if_pos ok]
        exact ⟨_, .single (step_decode_fails rfl ok), rfl⟩

variable (api draw) in
/-- The prefill, call by call. -/
theorem prefill_reaches (batches : 0 < toSizeT be.config.nBatch) (passes : Nat) :
    ∀ (i : Nat) (t : Thread) (run : GenRun C σ), t.pc = .prefill i → i < t.request.prompt.length →
    t.request.prompt.length ≤ i + passes →
    let out := LlamaBackend.prefill api (toSizeT be.config.nBatch) t.request.prompt passes i run
    Reaches (Thread.step api be draw) (t, run.ctx)
      ({ t with pc := if out.1 then .readPrompt else .finished (.ok t.generated) }, out.2.ctx) := by
  induction passes with
  | zero => intro i t run _ more bound; omega
  | succ passes ih =>
    intro i t run here more bound
    dsimp only
    rw [LlamaBackend.prefill_more more]
    by_cases ok : (run.decode api (promptBatch (toSizeT be.config.nBatch) t.request.prompt i)).1 = 0
    · rw [if_neg (not_not.2 ok)]
      refine .head (step_prefill_ok here ok) ?_
      by_cases rest : i + toSizeT be.config.nBatch < t.request.prompt.length
      · rw [if_pos rest]
        exact ih _ { t with pc := .prefill (i + toSizeT be.config.nBatch) }
          (run.decode api (promptBatch (toSizeT be.config.nBatch) t.request.prompt i)).2 rfl rest
          (by dsimp only; omega)
      · rw [if_neg rest, LlamaBackend.prefill_end (by omega)]
        exact .refl
    · rw [if_pos ok]
      exact .single (step_prefill_fails here ok)

/-- **A request alone** ends with the tokens `generate` returns. -/
theorem start_ends (batches : 0 < be.config.nBatch) {ctx : C} (hasCtx : be.ctx = some ctx)
    {sampler : Sampler L} {temperature topP : CFloat} {topK : Int}
    (greedy : ∀ l k, sampler l temperature topP topK k = draw l) (request : Request) (draws : Nat)
    (user : σ) :
    Ends api be draw (start request, ctx)
      (be.generate api sampler request.prompt request.maxTokens temperature topP topK none draws
        user).tokens := by
  rw [LlamaBackend.generate, hasCtx]
  dsimp only
  by_cases empty : request.prompt = []
  · rw [if_pos empty]
    exact ⟨_, .refl, by rw [start, if_pos empty]⟩
  rw [if_neg empty]
  dsimp only
  rw [LlamaBackend.generateOn]
  by_cases negative : request.maxTokens < 0
  · rw [if_pos negative]
    exact ⟨_, .refl, by rw [start, if_neg empty, if_pos negative]⟩
  rw [if_neg negative]
  have begins : Thread.step api be draw (start request, ctx) =
      some ({ request, pc := .prefill 0 }, api.kvCacheClear ctx) := by
    rw [start, if_neg empty, if_neg negative]
    rfl
  refine .before (.single begins) ?_
  have pass := prefill_reaches api draw (toSizeT_of_pos batches) request.prompt.length 0
    { request, pc := .prefill 0 } ({ ctx := api.kvCacheClear ctx, draws, user } : GenRun C σ) rfl
    (List.length_pos_iff.2 empty) (by dsimp only; omega)
  dsimp only at pass ⊢
  cases e : LlamaBackend.prefill api (toSizeT be.config.nBatch) request.prompt request.prompt.length 0
    ({ ctx := api.kvCacheClear ctx, draws, user } : GenRun C σ) with
  | mk filled run =>
    rw [e] at pass
    cases filled with
    | false => exact ⟨_, pass, rfl⟩
    | true =>
      have bound : ((0 : Nat) : Int) + request.maxTokens.toNat = request.maxTokens := by omega
      refine .before (pass.tail (step_readPrompt rfl)) ?_
      have same : (fun l k => sampler l temperature topP topK k) = fun l _ => draw l := by
        funext l k
        exact greedy l k
      rw [same]
      exact loop_ends request.maxTokens.toNat 0 (draw (api.getLogitsIth run.ctx (-1)))
        { request, pc := .readPrompt } (run.sample api (fun l _ => draw l) (-1)).2 bound

end Thread

/-! ## Requests side by side -/

section Server

variable {α ι : Type} [LT α] [DecidableLT α] [DecidableEq ι]

/-- One connection thread per request, none of which has made a call yet. -/
def accepted (ctx : C) (requests : ι → Request) : Pool ι Thread C :=
  ⟨ctx, fun r => .start (requests r), none⟩

/-- The calls of the requests in the order of `schedule`, each with the greedy choice. -/
def serve (api : LlamaCpp M C (List α)) (be : LlamaBackend M C) (ctx : C) (requests : ι → Request)
    (schedule : List ι) : Pool ι Thread C :=
  schedule.foldl (Pool.step (Thread.step api be (be.sampleGreedy api))) (accepted ctx requests)

/-- **Requests on one context.** Where every call but a clear directly follows a call of the same
request, each request that ends has obtained what it obtains alone. -/
theorem serve_owned {api : LlamaCpp M C (List α)} {be : LlamaBackend M C} {kv : C → List (Int × Int)}
    (det : DecodeLocal api kv) (batches : 0 < be.config.nBatch) {ctx : C} (hasCtx : be.ctx = some ctx)
    (requests : ι → Request) (schedule : List ι)
    (owned : Along (Pool.step (Thread.step api be (be.sampleGreedy api))) (Pool.Owned Thread.Idle)
      (accepted ctx requests) schedule)
    (stochastic : Sampler (List α)) (topP : CFloat) (topK : Int) (draws : Nat) (r : ι)
    {tokens : Except StdException (List Int)}
    (ends : ((serve api be ctx requests schedule).threads r).pc = .finished tokens) :
    tokens = (be.generate api (be.sampleToken api stochastic) (requests r).prompt
      (requests r).maxTokens (.finite 0) topP topK none draws ()).tokens := by
  obtain ⟨ctx', reaches⟩ := Pool.alone (Thread.indistinct det) schedule ctx owned ctx r
  obtain ⟨last, alone, stop⟩ := Thread.start_ends batches hasCtx
    (fun l k => be.sampleToken_zero api stochastic l topP topK k) (requests r) draws ()
  have halted : ∀ s : Thread × C, ∀ x, s.1.pc = .finished x →
      Thread.step api be (be.sampleGreedy api) s = none := by
    rintro ⟨t, c⟩ x e
    rw [Thread.step, show t.pc = .finished x from e]
  have same := reaches_halted reaches alone (halted _ _ ends) (halted _ _ stop)
  rw [← same] at stop
  exact Pc.finished.inj (ends.symm.trans stop)

/-- Two requests for one token. -/
def twoRequests (second : Bool) : Request where
  prompt := if second then [2] else [1]
  maxTokens := 1

/-- The backend on the small model. -/
def sumBackend : LlamaBackend Unit (List (Int × Int)) where
  config := {}
  model := some ()
  ctx := some []

theorem serve_owned_in_turn :
    (Except.ok [2] : Except StdException (List Int)) =
      (sumBackend.generate sumLlama (sumBackend.sampleToken sumLlama fun _ _ _ _ _ => 0) [2] 1
        (.finite 0) (.finite 1) 0 none 0 ()).tokens :=
  serve_owned sumLlama_local (by decide) rfl twoRequests
    [false, false, false, false, false, true, true, true, true, true]
    (by
      refine ⟨.inl (.inl ?_), .inr ?_, .inr ?_, .inr ?_, .inr ?_, .inl (.inl ?_), .inr ?_, .inr ?_,
        .inr ?_, .inr ?_, trivial⟩ <;> decide)
    (fun _ _ _ _ _ => 0) (.finite 1) 0 0 true (by decide +kernel)

/-- The second request clears the cache and fills it between the prefill of the first and its read:
the first obtains the token of the other prompt. -/
theorem serve_disturbed :
    ¬ ∀ (requests : Bool → Request) (schedule : List Bool) (r : Bool)
      (tokens : Except StdException (List Int)),
      ((serve sumLlama sumBackend [] requests schedule).threads r).pc = .finished tokens →
      tokens = (sumBackend.generate sumLlama (sumBackend.sampleToken sumLlama fun _ _ _ _ _ => 0)
        (requests r).prompt (requests r).maxTokens (.finite 0) (.finite 1) 0 none 0 ()).tokens := by
  intro all
  have e := all twoRequests [false, false, true, true, false, false, false] false (.ok [2]) (by decide +kernel)
  revert e
  decide

end Server
end ModelRuntime
