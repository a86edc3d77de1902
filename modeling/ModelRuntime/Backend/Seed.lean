import Mathlib.Data.List.Sort
import ModelRuntime.Backend.Sampling

/-!
# Where the randomness comes from

`sample_top_p` makes a generator of its own at every draw and seeds it from `std::random_device`: the
configured seed never reaches it. Requests one after another therefore give the same tokens in every
run exactly where none of their draws is left to the generator.
-/

namespace ModelRuntime
open Cpp

instance : LT CFloat := ⟨fun a b => a.lt b = true⟩

instance : DecidableLT CFloat := fun a b => inferInstanceAs (Decidable (a.lt b = true))

/-- What the stochastic path uses of the platform: `float` arithmetic, the two sorts of the indices by
falling logit, whose order of equal logits is left open, and the draw of a
`std::discrete_distribution<>` over `weights` from a `std::mt19937` seeded with a number. -/
structure FloatLib where
  add : CFloat → CFloat → CFloat
  sub : CFloat → CFloat → CFloat
  div : CFloat → CFloat → CFloat
  exp : CFloat → CFloat
  sort : List CFloat → List Nat
  partialSort : List CFloat → Nat → List Nat
  discrete : UInt32 → List CFloat → Nat

section Stochastic

variable (lib : FloatLib)

def applyTemperature (logits : List CFloat) (temperature : CFloat) : List CFloat :=
  logits.map (lib.div · temperature)

/-- Logits outside the `k` largest are set to minus infinity. -/
def applyTopK (logits : List CFloat) (k : Nat) : List CFloat :=
  if logits.length ≤ k then logits
  else
    let inTopK := (lib.partialSort logits k).take k
    logits.zipIdx.map fun (logit, i) => if inTopK.contains i then logit else .negInf

/-- The top-p loop from index `i`, `rest` being the probabilities from there on. Where the sum reaches
`p`, entries are cleared at `indices[j]`, not at `j`. -/
def topPFilter (p sum : CFloat) (indices : List Nat) (probs : List CFloat) :
    (i : Nat) → (cumsum : CFloat) → (rest : List CFloat) → List CFloat
  | _, _, [] => probs
  | i, cumsum, prob :: rest =>
    let cumsum := lib.add cumsum (lib.div prob sum)
    if p.le cumsum then (indices.drop (i + 1)).foldl (fun probs j => probs.set j (.finite 0)) probs
    else topPFilter p sum indices probs (i + 1) cumsum rest

/-- `sample_top_p`, `rd` being what `std::random_device` yields. -/
def sampleTopP (logits : List CFloat) (p : CFloat) (rd : UInt32) : Int :=
  let indices := lib.sort logits
  let maxLogit := logits.getD (indices.getD 0 0) .nan
  let probs := indices.map fun i => lib.exp (lib.sub (logits.getD i .nan) maxLogit)
  let sum := probs.foldl lib.add (.finite 0)
  let probs := topPFilter lib p sum indices probs 0 (.finite 0) probs
  (indices.getD (lib.discrete rd probs) 0 : Nat)

variable {M C : Type} (api : LlamaCpp M C (List CFloat)) (be : LlamaBackend M C)

/-- The path of `sample_token` that filters the logits and draws. `rd` is what `std::random_device`
yields at each draw. -/
def LlamaBackend.stochastic (rd : Nat → UInt32) : Sampler (List CFloat) :=
  fun logits temperature topP topK draw =>
    let nVocab := be.vocabSize api
    let scaled := applyTemperature lib (logits.take nVocab.toNat) temperature
    let filtered := if 0 < topK ∧ topK < nVocab then applyTopK lib scaled topK.toNat else scaled
    sampleTopP lib filtered topP (rd draw)

/-- The backend's sampler. -/
def LlamaBackend.sampler (rd : Nat → UInt32) : Sampler (List CFloat) :=
  be.sampleToken api (be.stochastic lib api rd)

end Stochastic

/-- The arguments of a `generate` call. -/
structure SampleRequest where
  prompt : List Int
  maxTokens : Int
  temperature : CFloat
  topP : CFloat
  topK : Int

section Requests

variable {M C : Type} (lib : FloatLib) (api : LlamaCpp M C (List CFloat))

/-- A fresh backend with a model and a context. -/
def LlamaBackend.fresh (config : EngineConfig) (model : M) (ctx : Option C) : LlamaBackend M C :=
  { config, model := some model, ctx, modelLoaded := true, seed := config.seed }

/-- Requests one after another. `draws` counts the calls of `sample_token`. -/
def serveInTurn (rd : Nat → UInt32) : LlamaBackend M C → (draws : Nat) → List SampleRequest →
    List (Except StdException (List Int))
  | _, _, [] => []
  | be, draws, r :: rest =>
    let run := be.generate api (be.sampler lib api rd) r.prompt r.maxTokens r.temperature r.topP r.topK none
      draws ()
    run.tokens :: serveInTurn rd run.backend run.draws rest

/-- Two runs from fresh backends return the same, whatever `std::random_device` yields in them. -/
def Reproducible (config : EngineConfig) (model : M) (requests : List SampleRequest) : Prop :=
  ∀ (ctx ctx' : C) (rd rd' : Nat → UInt32),
    serveInTurn lib api rd (.fresh config model (some ctx)) 0 requests =
      serveInTurn lib api rd' (.fresh config model (some ctx')) 0 requests

end Requests

/-! ## One request -/

section Loop

variable {M C L : Type} (api : LlamaCpp M C L) (be : LlamaBackend M C) (choose : L → UInt32 → Int)

/-- No draw of the token loop is left to the generator: whatever it yields, the token drawn from
`logits` is the same, or ends the generation. A draw with no pass left is not looked at. -/
def DrawsFixed (promptLength : Nat) : (left i : Nat) → (logits : L) → C → Prop
  | 0, _, _, _ => True
  | left + 1, i, logits, ctx =>
    (∀ v, be.isEos api (choose logits v) = true) ∨
      ∃ cur, (∀ v, choose logits v = cur) ∧ be.isEos api cur = false ∧
        let (ret, ctx) := api.decode ctx (batchOf [cur] (promptLength + i))
        ret = 0 → DrawsFixed promptLength left (i + 1) (api.getLogitsIth ctx 0) ctx

/-- The token loop, entered with the draw from `logits`. -/
def loopFrom (rd : Nat → UInt32) (promptLength left i : Nat) (logits : L) (generated : List Int)
    (run : GenRun C Unit) : Except StdException (List Int) × GenRun C Unit :=
  be.decodeLoop api (fun logits k => choose logits (rd k)) none promptLength left i
    (choose logits (rd run.draws)) generated { run with draws := run.draws + 1 }

variable {api be choose} {rd rd' : Nat → UInt32} {promptLength left i : Nat} {logits : L}
  {generated : List Int} {run run' : GenRun C Unit}

theorem loopFrom_eos (stop : be.isEos api (choose logits (rd run.draws)) = true) :
    loopFrom api be choose rd promptLength (left + 1) i logits generated run =
      (.ok generated, { run with draws := run.draws + 1 }) := by
  rw [loopFrom, LlamaBackend.decodeLoop, if_pos stop]

/-- A pass with token `cur`. -/
theorem loopFrom_pass {cur : Int} (drawn : choose logits (rd run.draws) = cur)
    (more : be.isEos api cur = false) :
    loopFrom api be choose rd promptLength (left + 1) i logits generated run =
      let (ret, ctx) := api.decode run.ctx (batchOf [cur] (promptLength + i))
      let after : GenRun C Unit :=
        ⟨ctx, run.draws + 1, (), run.decodes ++ [(batchOf [cur] (promptLength + i), ret)]⟩
      if ret ≠ 0 then (.ok (generated ++ [cur]), after)
      else loopFrom api be choose rd promptLength left (i + 1) (api.getLogitsIth ctx 0) (generated ++ [cur])
        after := by
  rw [loopFrom, drawn, LlamaBackend.decodeLoop, if_neg (by rw [more]; exact Bool.false_ne_true)]
  rfl

/-- On contexts that hold the same cache the loop gives the same for the same generator, and for every
generator where it is fixed. -/
theorem loopFrom_same {kv : C → List (Int × Int)} (det : DecodeLocal api kv) (same : kv run.ctx = kv run'.ctx)
    (draws : run.draws = run'.draws)
    (values : rd = rd' ∨ DrawsFixed api be choose promptLength left i logits run.ctx) :
    (loopFrom api be choose rd promptLength left i logits generated run).1 =
        (loopFrom api be choose rd' promptLength left i logits generated run').1 ∧
      (loopFrom api be choose rd promptLength left i logits generated run).2.draws =
        (loopFrom api be choose rd' promptLength left i logits generated run').2.draws := by
  induction left generalizing i logits generated run run' with
  | zero => exact ⟨rfl, congrArg (· + 1) draws⟩
  | succ left ih =>
    have drawn : (be.isEos api (choose logits (rd run.draws)) = true ∧
          be.isEos api (choose logits (rd' run'.draws)) = true) ∨
        ∃ cur, choose logits (rd run.draws) = cur ∧ choose logits (rd' run'.draws) = cur ∧
          be.isEos api cur = false ∧ ((api.decode run.ctx (batchOf [cur] (promptLength + i))).1 = 0 →
            rd = rd' ∨ DrawsFixed api be choose promptLength left (i + 1)
              (api.getLogitsIth (api.decode run.ctx (batchOf [cur] (promptLength + i))).2 0)
              (api.decode run.ctx (batchOf [cur] (promptLength + i))).2) := by
      rcases values with rfl | stop | ⟨cur, all, more, next⟩
      · rw [← draws]
        cases more : be.isEos api (choose logits (rd run.draws)) with
        | true => exact .inl ⟨rfl, rfl⟩
        | false => exact .inr ⟨_, rfl, rfl, more, fun _ => .inl rfl⟩
      · exact .inl ⟨stop _, stop _⟩
      · exact .inr ⟨cur, all _, all _, more, fun ok => .inr (next ok)⟩
    rcases drawn with ⟨stop, stop'⟩ | ⟨cur, drawn, drawn', more, next⟩
    · rw [loopFrom_eos stop, loopFrom_eos stop']
      exact ⟨rfl, congrArg (· + 1) draws⟩
    · have code := det.code _ _ (batchOf [cur] (promptLength + i)) same
      rw [loopFrom_pass drawn more, loopFrom_pass drawn' more]
      dsimp only
      rw [← code]
      by_cases ok : (api.decode run.ctx (batchOf [cur] (promptLength + i))).1 = 0
      · rw [if_neg (not_not.2 ok), if_neg (not_not.2 ok), ← det.logits _ _ _ same]
        apply ih
        · exact det.cached _ _ _ same
        · exact congrArg (· + 1) draws
        · exact next ok
      · rw [if_pos ok, if_pos ok]
        exact ⟨rfl, congrArg (· + 1) draws⟩

/-- What is generated already stays at the front of the result. -/
theorem loopFrom_prefix : ∃ tokens,
    (loopFrom api be choose rd promptLength left i logits generated run).1 = .ok (generated ++ tokens) := by
  induction left generalizing i logits generated run with
  | zero => exact ⟨[], by rw [List.append_nil]; rfl⟩
  | succ left ih =>
    cases more : be.isEos api (choose logits (rd run.draws)) with
    | true => exact ⟨[], by rw [loopFrom_eos more, List.append_nil]⟩
    | false =>
      rw [loopFrom_pass rfl more]
      dsimp only
      split
      · exact ⟨_, rfl⟩
      · obtain ⟨tokens, result⟩ := ih
        exact ⟨_ :: tokens, by rw [result, List.append_assoc]; rfl⟩

/-- The first token of a pass that does not end the generation. -/
theorem loopFrom_first (more : be.isEos api (choose logits (rd run.draws)) = false) : ∃ tokens,
    (loopFrom api be choose rd promptLength (left + 1) i logits generated run).1 =
      .ok (generated ++ choose logits (rd run.draws) :: tokens) := by
  rw [loopFrom_pass rfl more]
  dsimp only
  split
  · exact ⟨[], rfl⟩
  · obtain ⟨tokens, result⟩ := loopFrom_prefix
    exact ⟨tokens, by rw [result, List.append_assoc]; rfl⟩

/-- A loop that gives the same for all generators is fixed: its first draw decides the first token. -/
theorem drawsFixed_of_same (same : ∀ rd rd' : Nat → UInt32,
    (loopFrom api be choose rd promptLength left i logits generated run).1 =
      (loopFrom api be choose rd' promptLength left i logits generated run).1) :
    DrawsFixed api be choose promptLength left i logits run.ctx := by
  induction left generalizing i logits generated run with
  | zero => trivial
  | succ left ih =>
    by_cases stop : ∀ v, be.isEos api (choose logits v) = true
    · exact .inl stop
    · obtain ⟨v₀, more⟩ := not_forall.1 stop
      rw [Bool.not_eq_true] at more
      have firsts : ∀ v, be.isEos api (choose logits v) = false → ∃ tokens,
          (loopFrom api be choose (fun _ => v) promptLength (left + 1) i logits generated run).1 =
            .ok (generated ++ choose logits v :: tokens) := fun _ more => loopFrom_first more
      obtain ⟨tokens₀, first₀⟩ := firsts v₀ more
      have drawn : ∀ v, choose logits v = choose logits v₀ := by
        intro v
        have equal := same (fun _ => v) fun _ => v₀
        rw [first₀] at equal
        cases more' : be.isEos api (choose logits v) with
        | true =>
          have ended : (loopFrom api be choose (fun _ => v) promptLength (left + 1) i logits generated run).1 =
              .ok generated := congrArg Prod.fst (loopFrom_eos more')
          rw [ended, Except.ok.injEq] at equal
          exact absurd (congrArg List.length equal) (by simp)
        | false =>
          obtain ⟨tokens, first⟩ := firsts v more'
          rw [first, Except.ok.injEq] at equal
          exact (List.cons.inj (List.append_cancel_left equal)).1
      refine .inr ⟨choose logits v₀, drawn, more, fun ok => ?_⟩
      refine @ih (i + 1) _ (generated ++ [choose logits v₀])
        ⟨_, run.draws + 1, (), run.decodes ++ [(batchOf [choose logits v₀] (promptLength + i), 0)]⟩ ?_
      intro rd rd'
      have equal := same rd rd'
      rw [loopFrom_pass (drawn _) more, loopFrom_pass (drawn _) more] at equal
      dsimp only at equal
      rw [ok] at equal
      exact equal

end Loop

section Prefill

variable {M C L σ : Type} {api : LlamaCpp M C L} {batchSize : Nat} {prompt : List Int}

/-- The prefill makes the same of contexts that hold the same cache. What is read after a batch is the
same as well. -/
theorem prefill_same {kv : C → List (Int × Int)} (det : DecodeLocal api kv) (passes i : Nat)
    {run run' : GenRun C σ} (same : kv run.ctx = kv run'.ctx) :
    let out := LlamaBackend.prefill api batchSize prompt passes i run
    let out' := LlamaBackend.prefill api batchSize prompt passes i run'
    out.1 = out'.1 ∧ kv out.2.ctx = kv out'.2.ctx ∧
      (api.getLogitsIth run.ctx = api.getLogitsIth run'.ctx ∨ (i < prompt.length ∧ 0 < passes) →
        api.getLogitsIth out.2.ctx = api.getLogitsIth out'.2.ctx) := by
  induction passes generalizing i run run' with
  | zero => exact ⟨rfl, same, fun read => read.resolve_right fun h => absurd h.2 (Nat.lt_irrefl 0)⟩
  | succ passes ih =>
    by_cases more : i < prompt.length
    · have code : (run.decode api (promptBatch batchSize prompt i)).1 =
          (run'.decode api (promptBatch batchSize prompt i)).1 := det.code _ _ _ same
      have cached : kv (run.decode api (promptBatch batchSize prompt i)).2.ctx =
          kv (run'.decode api (promptBatch batchSize prompt i)).2.ctx := det.cached _ _ _ same
      have read : api.getLogitsIth (run.decode api (promptBatch batchSize prompt i)).2.ctx =
          api.getLogitsIth (run'.decode api (promptBatch batchSize prompt i)).2.ctx := det.logits _ _ _ same
      rw [LlamaBackend.prefill_more more, LlamaBackend.prefill_more more, ← code]
      split
      · exact ⟨rfl, cached, fun _ => read⟩
      · obtain ⟨filled, rest, reads⟩ := ih (i + batchSize) cached
        exact ⟨filled, rest, fun _ => reads (.inl read)⟩
    · rw [LlamaBackend.prefill_end (by omega), LlamaBackend.prefill_end (by omega)]
      exact ⟨rfl, same, fun read => read.resolve_right fun h => more h.1⟩

end Prefill

/-! ## Requests in turn -/

section Turn

variable {M C : Type} (lib : FloatLib) (api : LlamaCpp M C (List CFloat))

/-- The token a request draws from `logits` when `std::random_device` yields `v`. -/
def SampleRequest.choose (be : LlamaBackend M C) (r : SampleRequest) (logits : List CFloat) (v : UInt32) : Int :=
  be.sampler lib api (fun _ => v) logits r.temperature r.topP r.topK 0

/-- The run after the prefill of a request. -/
def SampleRequest.prefilled (be : LlamaBackend M C) (r : SampleRequest) (run : GenRun C Unit) :
    Bool × GenRun C Unit :=
  LlamaBackend.prefill api (toSizeT be.config.nBatch) r.prompt r.prompt.length 0
    { run with ctx := api.kvCacheClear run.ctx }

/-- Where a request comes to draw, no draw is left to the generator. -/
def SampleRequest.Fixed (be : LlamaBackend M C) (r : SampleRequest) : Prop :=
  ∀ ctx : C, r.prompt ≠ [] → 0 ≤ r.maxTokens →
    let (filled, after) := r.prefilled api be { ctx, draws := 0, user := () }
    filled = true → DrawsFixed api be (r.choose lib api be) r.prompt.length r.maxTokens.toNat 0
      (api.getLogitsIth after.ctx (-1)) after.ctx

variable {lib api} {config : EngineConfig} {model : M} {rd rd' : Nat → UInt32} {r : SampleRequest}

/-- What a request that decodes its prompt returns. -/
theorem generateOn_drawn (be : LlamaBackend M C) (run : GenRun C Unit) (nonneg : 0 ≤ r.maxTokens) :
    LlamaBackend.generateOn api be
        (fun logits k => be.sampler lib api rd logits r.temperature r.topP r.topK k) none r.prompt
        r.maxTokens run =
      if (r.prefilled api be run).1 then
        loopFrom api be (r.choose lib api be) rd r.prompt.length r.maxTokens.toNat 0
          (api.getLogitsIth (r.prefilled api be run).2.ctx (-1)) [] (r.prefilled api be run).2
      else (.ok [], (r.prefilled api be run).2) := by
  rw [LlamaBackend.generateOn, if_neg (by omega), SampleRequest.prefilled]
  dsimp only
  generalize LlamaBackend.prefill api (toSizeT be.config.nBatch) r.prompt r.prompt.length 0
    { run with ctx := api.kvCacheClear run.ctx } = out
  obtain ⟨filled, after⟩ := out
  cases filled <;> rfl

/-- A request, from the state its run starts in. -/
def SampleRequest.serve (lib : FloatLib) (api : LlamaCpp M C (List CFloat)) (be : LlamaBackend M C)
    (r : SampleRequest) (rd : Nat → UInt32) (run : GenRun C Unit) :
    Except StdException (List Int) × GenRun C Unit :=
  if r.prompt = [] then (.ok [], run)
  else
    LlamaBackend.generateOn api be
      (fun logits k => be.sampler lib api rd logits r.temperature r.topP r.topK k) none r.prompt r.maxTokens run

/-- The token loop does not look at `ctx_` but at the run. -/
theorem decodeLoop_ctx {L σ : Type} {api : LlamaCpp M C L} {draw : L → Nat → Int}
    {onToken : Option (TokenCallback σ)} (ctx : Option C) (promptLength left i : Nat) (cur : Int)
    (generated : List Int) (run : GenRun C σ) :
    LlamaBackend.decodeLoop api (.fresh config model ctx) draw onToken promptLength left i cur generated run =
      LlamaBackend.decodeLoop api (.fresh config model none) draw onToken promptLength left i cur generated
        run := by
  induction left generalizing i cur generated run with
  | zero => rfl
  | succ left ih =>
    rw [LlamaBackend.decodeLoop, LlamaBackend.decodeLoop]
    simp only [ih]
    rfl

theorem serveInTurn_cons (ctx : C) (draws : Nat) (rest : List SampleRequest) :
    let out := r.serve lib api (.fresh config model none) rd { ctx, draws, user := () }
    serveInTurn lib api rd (.fresh config model (some ctx)) draws (r :: rest) =
      out.1 :: serveInTurn lib api rd (.fresh config model (some out.2.ctx)) out.2.draws rest := by
  rw [serveInTurn, SampleRequest.serve, LlamaBackend.generate]
  by_cases empty : r.prompt = []
  · simp only [LlamaBackend.fresh, empty, if_true]
  · have loop : ∀ run : GenRun C Unit,
        LlamaBackend.generateOn api (.fresh config model (some ctx))
          (fun logits k => (LlamaBackend.fresh config model (some ctx)).sampler lib api rd logits r.temperature
            r.topP r.topK k) none r.prompt r.maxTokens run =
        LlamaBackend.generateOn api (.fresh config model none)
          (fun logits k => (LlamaBackend.fresh config model none).sampler lib api rd logits r.temperature
            r.topP r.topK k) none r.prompt r.maxTokens run := by
      intro run
      rw [LlamaBackend.generateOn, LlamaBackend.generateOn]
      simp only [decodeLoop_ctx (some ctx)]
      rfl
    rw [if_neg empty, ← loop]
    simp only [LlamaBackend.fresh, empty, if_false]

theorem SampleRequest.prefilled_ctx (be : LlamaBackend M C) {run run' : GenRun C Unit}
    (same : run.ctx = run'.ctx) : (r.prefilled api be run).1 = (r.prefilled api be run').1 ∧
      (r.prefilled api be run).2.ctx = (r.prefilled api be run').2.ctx := by
  rw [SampleRequest.prefilled, SampleRequest.prefilled]
  apply LlamaBackend.prefill_ctx
  rw [same]

/-- Whatever the contexts held, the prefill makes the same of them. -/
theorem SampleRequest.prefilled_same {kv : C → List (Int × Int)} (det : DecodeLocal api kv)
    (be : LlamaBackend M C) (run run' : GenRun C Unit) (empty : r.prompt ≠ []) :
    (r.prefilled api be run).1 = (r.prefilled api be run').1 ∧
      kv (r.prefilled api be run).2.ctx = kv (r.prefilled api be run').2.ctx ∧
      api.getLogitsIth (r.prefilled api be run).2.ctx = api.getLogitsIth (r.prefilled api be run').2.ctx := by
  have nonempty := List.length_pos_iff.2 empty
  have cleared : kv ({ run with ctx := api.kvCacheClear run.ctx } : GenRun C Unit).ctx =
      kv ({ run' with ctx := api.kvCacheClear run'.ctx } : GenRun C Unit).ctx := by
    rw [det.clear, det.clear]
  rw [SampleRequest.prefilled, SampleRequest.prefilled]
  obtain ⟨filled, cached, reads⟩ := prefill_same det r.prompt.length 0 cleared
  exact ⟨filled, cached, reads (.inr ⟨nonempty, nonempty⟩)⟩

/-- Where a request is fixed, it is so from every state with the context. -/
theorem SampleRequest.Fixed.draws {be : LlamaBackend M C} (fixed : r.Fixed lib api be)
    (run : GenRun C Unit) (empty : r.prompt ≠ []) (nonneg : 0 ≤ r.maxTokens)
    (full : (r.prefilled api be run).1 = true) :
    DrawsFixed api be (r.choose lib api be) r.prompt.length r.maxTokens.toNat 0
      (api.getLogitsIth (r.prefilled api be run).2.ctx (-1)) (r.prefilled api be run).2.ctx := by
  have same : (r.prefilled api be run).1 = (r.prefilled api be ⟨run.ctx, 0, (), []⟩).1 ∧
      (r.prefilled api be run).2.ctx = (r.prefilled api be ⟨run.ctx, 0, (), []⟩).2.ctx :=
    SampleRequest.prefilled_ctx be rfl
  rw [same.2]
  exact fixed run.ctx empty nonneg (same.1.symm.trans full)

/-- A request gives the same on contexts that hold whatever, for the same generator or where it is
fixed. -/
theorem SampleRequest.serve_same {kv : C → List (Int × Int)} (det : DecodeLocal api kv)
    (be : LlamaBackend M C) (run run' : GenRun C Unit) (draws : run.draws = run'.draws)
    (values : rd = rd' ∨ r.Fixed lib api be) :
    (r.serve lib api be rd run).1 = (r.serve lib api be rd' run').1 ∧
      (r.serve lib api be rd run).2.draws = (r.serve lib api be rd' run').2.draws := by
  rw [SampleRequest.serve, SampleRequest.serve]
  by_cases empty : r.prompt = []
  · rw [if_pos empty, if_pos empty]
    exact ⟨rfl, draws⟩
  rw [if_neg empty, if_neg empty]
  by_cases negative : r.maxTokens < 0
  · rw [LlamaBackend.generateOn, LlamaBackend.generateOn, if_pos negative, if_pos negative]
    exact ⟨rfl, draws⟩
  rw [generateOn_drawn _ _ (by omega), generateOn_drawn _ _ (by omega)]
  obtain ⟨filled, cached, reads⟩ := SampleRequest.prefilled_same det be run run' empty
  have drawn : (r.prefilled api be run).2.draws = (r.prefilled api be run').2.draws := by
    rw [SampleRequest.prefilled, SampleRequest.prefilled, LlamaBackend.prefill_draws,
      LlamaBackend.prefill_draws]
    exact draws
  rw [← filled, ← reads]
  cases full : (r.prefilled api be run).1 with
  | false => exact ⟨rfl, drawn⟩
  | true =>
    apply loopFrom_same det cached drawn
    exact values.imp_right fun fixed => fixed.draws run empty (by omega) full

/-- A request that gives the same for all generators is fixed. -/
theorem SampleRequest.fixed_of_same {be : LlamaBackend M C} (draws : Nat)
    (same : ∀ (ctx : C) (rd rd' : Nat → UInt32), (r.serve lib api be rd { ctx, draws, user := () }).1 =
      (r.serve lib api be rd' { ctx, draws, user := () }).1) : r.Fixed lib api be := by
  intro ctx empty nonneg
  have start : (r.prefilled api be ⟨ctx, 0, (), []⟩).1 = (r.prefilled api be ⟨ctx, draws, (), []⟩).1 ∧
      (r.prefilled api be ⟨ctx, 0, (), []⟩).2.ctx = (r.prefilled api be ⟨ctx, draws, (), []⟩).2.ctx :=
    SampleRequest.prefilled_ctx be rfl
  dsimp only
  intro full
  rw [start.2]
  refine @drawsFixed_of_same _ _ _ _ _ _ _ _ _ _ [] _ fun rd rd' => ?_
  have equal := same ctx rd rd'
  rw [SampleRequest.serve, SampleRequest.serve, if_neg empty, if_neg empty, generateOn_drawn _ _ nonneg,
    generateOn_drawn _ _ nonneg, if_pos (start.1.symm.trans full), if_pos (start.1.symm.trans full)] at equal
  exact equal

/-- Requests in turn give the same on whatever contexts, for the same generator or where each of them is
fixed. -/
theorem serveInTurn_same {kv : C → List (Int × Int)} (det : DecodeLocal api kv) (requests : List SampleRequest)
    (values : rd = rd' ∨ ∀ r ∈ requests, r.Fixed lib api (C := C) (.fresh config model none))
    (ctx ctx' : C) (draws : Nat) :
    serveInTurn lib api rd (.fresh config model (some ctx)) draws requests =
      serveInTurn lib api rd' (.fresh config model (some ctx')) draws requests := by
  induction requests generalizing ctx ctx' draws with
  | nil => rfl
  | cons r rest ih =>
    obtain ⟨tokens, count⟩ := SampleRequest.serve_same det (.fresh config model none)
      { ctx, draws, user := () } { ctx := ctx', draws, user := () } rfl
      (values.imp_right fun all => all r (by simp))
    rw [serveInTurn_cons, serveInTurn_cons, tokens, count]
    exact congrArg _ (ih (values.imp_right fun all r mem => all r (by simp [mem])) _ _ _)

/-- Requests that give the same from some count of draws on, for all generators, are fixed. -/
theorem fixed_of_reproducible {kv : C → List (Int × Int)} (det : DecodeLocal api kv)
    (requests : List SampleRequest) (draws : Nat)
    (same : ∀ (ctx ctx' : C) (rd rd' : Nat → UInt32),
      serveInTurn lib api rd (.fresh config model (some ctx)) draws requests =
        serveInTurn lib api rd' (.fresh config model (some ctx')) draws requests) :
    ∀ r ∈ requests, r.Fixed lib api (C := C) (.fresh config model none) := by
  induction requests generalizing draws with
  | nil => simp
  | cons r rest ih =>
    have first : r.Fixed lib api (C := C) (.fresh config model none) := by
      refine SampleRequest.fixed_of_same draws fun ctx rd rd' => ?_
      have equal := same ctx ctx rd rd'
      rw [serveInTurn_cons, serveInTurn_cons] at equal
      exact (List.cons.inj equal).1
    intro r' mem ctx
    rcases List.mem_cons.1 mem with rfl | mem
    · exact first ctx
    -- whatever the first request drew, the second one starts at the same draw
    let start : GenRun C Unit := { ctx, draws, user := () }
    refine ih (r.serve lib api (.fresh config model none) (fun _ => 0) start).2.draws ?_ r' mem ctx
    intro ctx₁ ctx₂ rd rd'
    have equal := same ctx ctx rd rd'
    have count : ∀ rd, (r.serve lib api (.fresh config model none) rd start).2.draws =
        (r.serve lib api (.fresh config model none) (fun _ => 0) start).2.draws :=
      fun _ => (SampleRequest.serve_same det _ _ _ rfl (.inr first)).2
    rw [serveInTurn_cons, serveInTurn_cons] at equal
    have rests := (List.cons.inj equal).2
    rw [count rd, count rd'] at rests
    exact ((serveInTurn_same det rest (.inl rfl) _ _ _).trans rests).trans
      (serveInTurn_same det rest (.inl rfl) _ _ _)

/-- **Requests from a fresh backend** give the same tokens in every run, whatever the seed, exactly where
none of their draws is left to the generator. -/
theorem reproducible_iff {kv : C → List (Int × Int)} (det : DecodeLocal api kv) (config : EngineConfig)
    (model : M) (requests : List SampleRequest) :
    Reproducible (C := C) lib api config model requests ↔
      ∀ r ∈ requests, r.Fixed lib api (C := C) (.fresh config model none) := by
  constructor
  · exact fun same => fixed_of_reproducible det requests 0 same
  · exact fun fixed ctx ctx' rd rd' => serveInTurn_same det requests (.inr fixed) ctx ctx' 0

/-- A greedy request has no draw at all. -/
theorem fixed_of_greedy {be : LlamaBackend M C}
    (cold : (r.temperature.le (.finite 0) || r.temperature.lt (.finite coldBelow)) = true) :
    r.Fixed lib api be := by
  have greedy : ∀ logits v, r.choose lib api be logits v = be.sampleGreedy api logits := by
    intro logits v
    rw [SampleRequest.choose, LlamaBackend.sampler, LlamaBackend.sampleToken, if_pos cold]
  have fixed : ∀ (left i : Nat) (logits : List CFloat) (ctx : C),
      DrawsFixed api be (r.choose lib api be) r.prompt.length left i logits ctx := by
    intro left
    induction left with
    | zero => exact fun _ _ _ => trivial
    | succ left ih =>
      intro i logits ctx
      cases more : be.isEos api (be.sampleGreedy api logits) with
      | true => exact .inl fun v => by rw [greedy, more]
      | false => exact .inr ⟨_, greedy logits, more, fun _ => ih _ _ _⟩
  exact fun ctx _ _ _ => fixed _ _ _ _

end Turn

/-- An operation on finite numbers. -/
def CFloat.map₂ (f : ℚ → ℚ → ℚ) : CFloat → CFloat → CFloat
  | .finite a, .finite b => .finite (f a b)
  | _, _ => .nan

/-- The indices by falling value, equal ones in order. -/
def fallingIndices (values : List CFloat) : List Nat :=
  (List.range values.length).insertionSort fun a b => (values.getD b .nan).le (values.getD a .nan) = true

/-- Rational arithmetic in place of the rounded one, a stable sort, and a generator that counts its seed
off over the weights. Of two equal weights the Mersenne twister draws the same for the seeds 1 and 2. -/
def exactLib : FloatLib where
  add := CFloat.map₂ (· + ·)
  sub := CFloat.map₂ (· - ·)
  div := CFloat.map₂ (· / ·)
  exp x := if x = .finite 0 then .finite 1 else .nan
  sort := fallingIndices
  partialSort logits _ := fallingIndices logits
  discrete seed weights := seed.toNat % weights.length

/-- The model that sums, with `float` logits. -/
def floatLlama : LlamaCpp Unit (List (Int × Int)) (List CFloat) :=
  { sumLlama with getLogitsIth := fun ctx i => (sumLlama.getLogitsIth ctx i).map fun n : Int => .finite n }

theorem floatLlama_local : DecodeLocal floatLlama id where
  clear _ := rfl
  code _ _ _ _ := rfl
  cached := by rintro ctx _ batch rfl; rfl
  logits := by rintro ctx _ batch rfl; rfl

/-- Three tokens after `[1, 2]`, greedily. -/
theorem reproducible_greedy :
    Reproducible (C := List (Int × Int)) exactLib floatLlama { seed := 7 } ()
      [⟨[1, 2], 3, .finite 0, .finite 1, 0⟩] := by
  refine (reproducible_iff floatLlama_local { seed := 7 } () _).2 ?_
  intro r mem
  obtain rfl := List.mem_singleton.1 mem
  exact fixed_of_greedy (by decide +kernel)

/-- A model of two tokens that prefers neither. -/
def coinLlama : LlamaCpp Unit (List (Int × Int)) (List CFloat) :=
  { sumLlama with
    nVocab := fun _ => 2
    tokenIsEog := fun _ _ => false
    getLogitsIth := fun _ _ => [.finite 0, .finite 0] }

theorem coinLlama_local : DecodeLocal coinLlama id where
  clear _ := rfl
  code _ _ _ _ := rfl
  cached := by rintro ctx _ batch rfl; rfl
  logits _ _ _ _ := rfl

/-- One token at temperature 1, drawn by a generator that was seeded with `v`. -/
theorem coin_tokens (v : UInt32) (small : v = 1 ∨ v = 2) :
    serveInTurn exactLib coinLlama (fun _ => v) (.fresh { seed := 7 } () (some [])) 0
      [⟨[1], 1, .finite 1, .finite 1, 0⟩] = [.ok [(v.toNat % 2 : Nat)]] := by
  rcases small with rfl | rfl <;> decide +kernel

theorem seed_ignored :
    ¬ ∀ (lib : FloatLib) (api : LlamaCpp Unit (List (Int × Int)) (List CFloat)), DecodeLocal api id →
      ∀ config : EngineConfig, 0 ≤ config.seed → ∀ requests : List SampleRequest,
        Reproducible lib api config () requests := by
  intro all
  have same := all exactLib coinLlama coinLlama_local { seed := 7 } (by decide)
    [⟨[1], 1, .finite 1, .finite 1, 0⟩] [] [] (fun _ => 1) fun _ => 2
  rw [coin_tokens 1 (.inl rfl), coin_tokens 2 (.inr rfl)] at same
  revert same
  decide

end ModelRuntime
