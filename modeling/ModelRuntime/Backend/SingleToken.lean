import ModelRuntime.Backend.Autoregressive
import ModelRuntime.Engine.Stream

/-!
# `generate_token`

`generate_token` submits the prompt as one batch to the cache as it is, `generate` clears the cache and submits
chunks of `n_batch`. What `generate` samples its first token on is the prompt whatever went before
(`firstSampledOn_cached`); `generate_token` samples on what was there and the prompt after it
(`sampledOn_cached`). `seesPrompt_iff` is about every state that calls of `generate`, `generate_token` and `reset`
can leave.
-/

namespace ModelRuntime
open Cpp

variable {M C L σ : Type} (api : LlamaCpp M C L) (sampleToken : Sampler L)

/-- The outcome of `generate_token`. -/
structure TokenGenerated (M C : Type) where
  token : Int
  backend : LlamaBackend M C
  draws : Nat
  decodes : List (Batch × Int) := []

namespace LlamaBackend

/-- `generate_token`; its `max_tokens` is not read. The `n_vocab` that it hands to `sample_token` besides has no
parameter to go to. -/
def generateToken (be : LlamaBackend M C) (prompt : List Int) (draws : Nat) : TokenGenerated M C :=
  match be.ctx with
  | none => { token := -1, backend := be, draws }
  | some ctx =>
    if prompt = [] then { token := -1, backend := be, draws }
    else
      let (ret, run) := ({ ctx, draws, user := () } : GenRun C Unit).decode api (batchOf prompt 0)
      if ret ≠ 0 then { token := -1, backend := { be with ctx := some run.ctx }, draws, decodes := run.decodes }
      else
        let draw := fun logits k => sampleToken logits be.config.temperature be.config.topP be.config.topK k
        let (token, run) := run.sample api draw (prompt.length - 1 : Nat)
        { token, backend := { be with ctx := some run.ctx }, draws := run.draws, decodes := run.decodes }

def reset (be : LlamaBackend M C) : LlamaBackend M C :=
  match be.ctx with
  | none => be
  | some ctx => { be with ctx := some (api.kvCacheClear ctx) }

/-- The context on which `generate_token` samples, if it gets there. -/
def sampledOn (be : LlamaBackend M C) (prompt : List Int) : Option C :=
  match be.ctx with
  | none => none
  | some ctx =>
    if prompt = [] then none
    else
      let (ret, ctx) := api.decode ctx (batchOf prompt 0)
      if ret ≠ 0 then none else some ctx

/-- The context on which `generate` samples its first token, if it gets there. -/
def firstSampledOn (be : LlamaBackend M C) (prompt : List Int) : Option C :=
  match be.ctx with
  | none => none
  | some ctx =>
    if prompt = [] then none
    else
      let (filled, run) := prefill api (toSizeT be.config.nBatch) prompt prompt.length 0
        ({ ctx := api.kvCacheClear ctx, draws := 0, user := () } : GenRun C Unit)
      if filled then some run.ctx else none

end LlamaBackend

section Observed

variable {api sampleToken} {be : LlamaBackend M C} {prompt : List Int} {ctx : C}

/-- The token of `generate_token` is drawn on that context. -/
theorem LlamaBackend.generateToken_token (draws : Nat) :
    (be.generateToken api sampleToken prompt draws).token = match be.sampledOn api prompt with
      | none => -1
      | some ctx => sampleToken (api.getLogitsIth ctx (prompt.length - 1 : Nat)) be.config.temperature
        be.config.topP be.config.topK draws := by
  rw [generateToken, sampledOn]
  cases be.ctx with
  | none => rfl
  | some ctx =>
    dsimp only [GenRun.decode]
    by_cases empty : prompt = []
    · rw [if_pos empty, if_pos empty]
    · rw [if_neg empty, if_neg empty]
      by_cases refused : (api.decode ctx (batchOf prompt 0)).1 ≠ 0
      · rw [if_pos refused, if_pos refused]
      · rw [if_neg refused, if_neg refused]
        rfl

/-- The first token of a token loop is the one drawn before it. -/
theorem decodeLoop_head (draw : L → Nat → Int) (promptLength left i : Nat) (cur : Int) (run : GenRun C Unit) :
    ∃ tokens, (LlamaBackend.decodeLoop api be draw none promptLength (left + 1) i cur [] run).1 = .ok tokens ∧
      tokens.head? = if be.isEos api cur then none else some cur := by
  rw [LlamaBackend.decodeLoop]
  by_cases eos : be.isEos api cur = true
  · rw [if_pos eos, if_pos eos]
    exact ⟨[], rfl, rfl⟩
  · rw [if_neg eos, if_neg eos, GenRun.call]
    dsimp only
    split
    · exact ⟨[cur], rfl, rfl⟩
    · obtain ⟨new, out, _, quiet, _⟩ := decodeLoop_reports api be draw (fun _ (user : Unit) => user) promptLength
        left (i + 1) ((run.decode api (batchOf [cur] (promptLength + i))).2.sample api draw 0).1 [cur]
        ((run.decode api (batchOf [cur] (promptLength + i))).2.sample api draw 0).2
      exact ⟨[cur] ++ new, congrArg Prod.fst quiet, rfl⟩

/-- How `generate_token` gets to sample. -/
theorem LlamaBackend.sampledOn_some (sampled : be.sampledOn api prompt = some ctx) :
    ∃ start, be.ctx = some start ∧ prompt ≠ [] ∧ (api.decode start (batchOf prompt 0)).1 = 0 ∧
      (api.decode start (batchOf prompt 0)).2 = ctx := by
  rw [sampledOn] at sampled
  cases hasCtx : be.ctx with
  | none =>
    rw [hasCtx] at sampled
    cases sampled
  | some start =>
    rw [hasCtx] at sampled
    dsimp only at sampled
    by_cases empty : prompt = []
    · rw [if_pos empty] at sampled
      cases sampled
    · rw [if_neg empty] at sampled
      split at sampled
      · cases sampled
      · rename_i accepted
        exact ⟨start, rfl, empty, by simpa using accepted, Option.some.inj sampled⟩

/-- How `generate` gets to sample its first token. -/
theorem LlamaBackend.firstSampledOn_some (first : be.firstSampledOn api prompt = some ctx) (draws : Nat) (user : σ) :
    ∃ start run, be.ctx = some start ∧ prompt ≠ [] ∧
      prefill api (toSizeT be.config.nBatch) prompt prompt.length 0
        ({ ctx := api.kvCacheClear start, draws, user } : GenRun C σ) = (true, run) ∧
      run.ctx = ctx ∧ run.draws = draws := by
  rw [firstSampledOn] at first
  cases hasCtx : be.ctx with
  | none =>
    rw [hasCtx] at first
    cases first
  | some start =>
    rw [hasCtx] at first
    dsimp only at first
    by_cases empty : prompt = []
    · rw [if_pos empty] at first
      cases first
    · have same : ({ ctx := api.kvCacheClear start, draws := 0, user := () } : GenRun C Unit).ctx =
          ({ ctx := api.kvCacheClear start, draws, user } : GenRun C σ).ctx := rfl
      obtain ⟨code, after⟩ := @prefill_ctx M C L Unit api (toSizeT be.config.nBatch) prompt σ prompt.length 0 _ _ same
      rw [if_neg empty, code, after] at first
      split at first
      · rename_i filled
        exact ⟨start, _, rfl, empty, Prod.ext filled rfl, Option.some.inj first, prefill_draws ..⟩
      · cases first

/-- The first token of `generate` is drawn on that context. -/
theorem LlamaBackend.generate_first (first : be.firstSampledOn api prompt = some ctx) {maxTokens : Int}
    (positive : 0 < maxTokens) (temperature topP : CFloat) (topK : Int) (draws : Nat) :
    let token := sampleToken (api.getLogitsIth ctx (-1)) temperature topP topK draws
    ∃ tokens, (be.generate api sampleToken prompt maxTokens temperature topP topK none draws ()).tokens =
        .ok tokens ∧ tokens.head? = if be.isEos api token then none else some token := by
  obtain ⟨start, run, hasCtx, some, filled, rfl, rfl⟩ := firstSampledOn_some first draws ()
  obtain ⟨left, limit⟩ : ∃ left, maxTokens.toNat = left + 1 := ⟨maxTokens.toNat - 1, by omega⟩
  rw [generate, hasCtx]
  dsimp only
  rw [if_neg some, generateOn, if_neg (by omega)]
  dsimp only
  rw [filled, limit]
  exact decodeLoop_head (fun logits k => sampleToken logits temperature topP topK k) prompt.length left 0 _ _

end Observed

/-! ## What is cached and what is submitted -/

section Cached

variable {kv : C → List (Int × Int)} {logits : List Int → L} {be : LlamaBackend M C} {prompt : List Int} {ctx : C}

variable {api}

theorem length_batchOf (tokens : List Int) (start : Nat) : (batchOf tokens start).length = tokens.length := by
  simp [batchOf]

/-- **`generate_token`** samples on what was cached before and the prompt. -/
theorem sampledOn_cached (contract : DecodeContract api kv logits) {start : C} (hasCtx : be.ctx = some start)
    (sampled : be.sampledOn api prompt = some ctx) : (kv ctx).Perm (kv start ++ positioned prompt) := by
  obtain ⟨start', hasCtx', _, accepted, rfl⟩ := LlamaBackend.sampledOn_some sampled
  obtain rfl := Option.some.inj (hasCtx.symm.trans hasCtx')
  have cached := contract.decode start (batchOf prompt 0) accepted
  rwa [batchOf_entries] at cached

/-- **`generate`** samples its first token on the prompt. -/
theorem firstSampledOn_cached (contract : DecodeContract api kv logits) (batches : 0 < be.config.nBatch)
    (first : be.firstSampledOn api prompt = some ctx) : (kv ctx).Perm (positioned prompt) := by
  obtain ⟨start, run, _, some, filled, rfl, _⟩ := LlamaBackend.firstSampledOn_some first 0 ()
  have cleared : (kv (api.kvCacheClear start)).Perm (positioned (prompt.take 0)) := by
    rw [contract.clear]
    rfl
  obtain ⟨_, _, full, _⟩ := prefill_spec contract (toSizeT_of_pos batches) prompt prompt.length 0 _ (by omega)
    cleared (fun none => absurd (List.length_eq_zero_iff.1 (by omega)) some) filled
  exact (full rfl).cached

end Cached

section Batches

variable {api sampleToken} {be : LlamaBackend M C} {run : GenRun C σ} {n : Nat}

/-- No batch of the run holds more than `n` tokens. -/
def GenRun.Within (run : GenRun C σ) (n : Nat) : Prop := ∀ d ∈ run.decodes, d.1.length ≤ n

theorem GenRun.Within.decode (within : run.Within n) {batch : Batch} (short : batch.length ≤ n) :
    (run.decode api batch).2.Within n := by
  intro d mem
  rw [GenRun.decode_decodes] at mem
  rcases List.mem_append.1 mem with before | last
  · exact within d before
  · rw [List.mem_singleton.1 last]
    exact short

variable (api) in
theorem prefill_within (prompt : List Int) :
    ∀ (passes i : Nat) (run : GenRun C σ), run.Within n →
      (LlamaBackend.prefill api n prompt passes i run).2.Within n := by
  intro passes
  induction passes with
  | zero => exact fun _ _ within => within
  | succ passes ih =>
    intro i run within
    by_cases more : i < prompt.length
    · have short : (promptBatch n prompt i).length ≤ n := by
        rw [promptBatch, length_batchOf, List.length_take]
        omega
      rw [LlamaBackend.prefill_more more]
      split
      · exact within.decode short
      · exact ih (i + n) _ (within.decode short)
    · rw [LlamaBackend.prefill_end (by omega)]
      exact within

/-- A callback submits nothing. -/
theorem GenRun.Within.call (within : run.Within n) {onToken : Option (TokenCallback σ)} {token : Int}
    {called : GenRun C σ} (returned : run.call onToken token = .ok called) : called.Within n := by
  cases onToken with
  | none =>
    cases returned
    exact within
  | some f =>
    rw [GenRun.call] at returned
    cases result : f token run.user with
    | error x =>
      rw [result] at returned
      cases returned
    | ok user =>
      rw [result] at returned
      cases returned
      exact within

theorem decodeLoop_within (pos : 0 < n) (draw : L → Nat → Int) (onToken : Option (TokenCallback σ)) (promptLength : Nat) :
    ∀ (left i : Nat) (cur : Int) (generated : List Int) (run : GenRun C σ), run.Within n →
      (LlamaBackend.decodeLoop api be draw onToken promptLength left i cur generated run).2.Within n := by
  intro left
  induction left with
  | zero => exact fun _ _ _ _ within => within
  | succ left ih =>
    intro i cur generated run within
    rw [LlamaBackend.decodeLoop]
    split
    · exact within
    · split
      · exact within
      · rename_i called returned
        have after : (called.decode api (batchOf [cur] (promptLength + i))).2.Within n :=
          (within.call returned).decode (by rw [length_batchOf]; exact pos)
        dsimp only
        split
        · exact after
        · exact ih (i + 1) _ _ _ after

/-- **No batch of a `generate`** holds more than `n_batch` tokens. -/
theorem LlamaBackend.generate_batches (batches : 0 < be.config.nBatch) (prompt : List Int) (maxTokens : Int)
    (temperature topP : CFloat) (topK : Int) (onToken : Option (TokenCallback σ)) (draws : Nat) (user : σ) :
    ∀ d ∈ (be.generate api sampleToken prompt maxTokens temperature topP topK onToken draws user).decodes,
      (d.1.length : Int) ≤ be.config.nBatch := by
  have pos := toSizeT_of_pos batches
  have none : ∀ ctx, ({ ctx, draws, user } : GenRun C σ).Within (toSizeT be.config.nBatch) :=
    fun _ _ mem => absurd mem List.not_mem_nil
  suffices within : ∀ ctx, (generateOn api be (fun logits k => sampleToken logits temperature topP topK k) onToken
      prompt maxTokens { ctx, draws, user }).2.Within (toSizeT be.config.nBatch) by
    rw [generate]
    cases be.ctx with
    | none => simp
    | some ctx =>
      dsimp only
      split
      · simp
      · intro d mem
        rw [← toSizeT_cast batches]
        exact Int.ofNat_le.2 (within ctx d mem)
  intro ctx
  rw [generateOn]
  split
  · exact none ctx
  · have filled := prefill_within api prompt prompt.length 0 _ (none (api.kvCacheClear ctx))
    dsimp only
    split
    · exact filled
    · exact decodeLoop_within pos _ onToken prompt.length maxTokens.toNat 0 _ [] _ filled

/-- The only batch of a `generate_token` is the prompt. -/
theorem LlamaBackend.generateToken_batches {prompt : List Int} {ctx : C}
    (sampled : be.sampledOn api prompt = some ctx) (draws : Nat) :
    (be.generateToken api sampleToken prompt draws).decodes = [(batchOf prompt 0, 0)] := by
  obtain ⟨start, hasCtx, some, accepted, _⟩ := sampledOn_some sampled
  rw [generateToken, hasCtx]
  dsimp only [GenRun.decode]
  rw [if_neg some, if_neg (by simpa using accepted), accepted]
  rfl

end Batches

/-! ## After any calls -/

/-- A backend between two calls. -/
structure Session (M C : Type) where
  backend : LlamaBackend M C
  draws : Nat := 0

inductive BackendCall (σ : Type) where
  | generate (prompt : List Int) (maxTokens : Int) (temperature topP : CFloat) (topK : Int)
      (onToken : Option (TokenCallback σ)) (user : σ)
  | generateToken (prompt : List Int)
  | reset

def BackendCall.step (s : Session M C) : BackendCall σ → Session M C
  | .generate prompt maxTokens temperature topP topK onToken user =>
    let out := s.backend.generate api sampleToken prompt maxTokens temperature topP topK onToken s.draws user
    ⟨out.backend, out.draws⟩
  | .generateToken prompt =>
    let out := s.backend.generateToken api sampleToken prompt s.draws
    ⟨out.backend, out.draws⟩
  | .reset => ⟨s.backend.reset api, s.draws⟩

/-- The backend after the calls. -/
def Session.after (s : Session M C) (calls : List (BackendCall σ)) : LlamaBackend M C :=
  (calls.foldl (BackendCall.step api sampleToken) s).backend

/-- Nothing is cached. -/
def LlamaBackend.CacheEmpty (kv : C → List (Int × Int)) (be : LlamaBackend M C) : Prop :=
  ∀ ctx, be.ctx = some ctx → kv ctx = []

/-- `generate_token`, which samples on `ctx`, has before it what `generate` has, which samples on `ctx'`: the prompt;
and neither submits more than `n_batch` tokens at once. -/
structure SeesPrompt (σ : Type) (kv : C → List (Int × Int)) (be : LlamaBackend M C) (prompt : List Int) (ctx ctx' : C) :
    Prop where
  same : (kv ctx).Perm (kv ctx')
  entries : (kv ctx).Perm (positioned prompt)
  single : ∀ draws, ∀ d ∈ (be.generateToken api sampleToken prompt draws).decodes,
    (d.1.length : Int) ≤ be.config.nBatch
  chunks : ∀ (maxTokens : Int) temperature topP topK (onToken : Option (TokenCallback σ)) draws user,
    ∀ d ∈ (be.generate api sampleToken prompt maxTokens temperature topP topK onToken draws user).decodes,
      (d.1.length : Int) ≤ be.config.nBatch

section Calls

variable {api sampleToken} {s : Session M C}

/-- One call of each on the same state. -/
theorem LlamaBackend.sees_iff {be : LlamaBackend M C} {kv : C → List (Int × Int)} {logits : List Int → L}
    (contract : DecodeContract api kv logits) (batches : 0 < be.config.nBatch) {prompt : List Int} {ctx ctx' : C}
    (single : be.sampledOn api prompt = some ctx) (first : be.firstSampledOn api prompt = some ctx') :
    SeesPrompt api sampleToken σ kv be prompt ctx ctx' ↔
      be.CacheEmpty kv ∧ (prompt.length : Int) ≤ be.config.nBatch := by
  obtain ⟨start, hasCtx, _⟩ := sampledOn_some single
  have cached := sampledOn_cached contract hasCtx single
  constructor
  · intro sees
    constructor
    · intro start' hasCtx'
      obtain rfl := Option.some.inj (hasCtx.symm.trans hasCtx')
      -- the entries are as many as the prompt has, so there were none before
      have lengths := (cached.symm.trans sees.entries).length_eq
      rw [List.length_append] at lengths
      exact List.length_eq_zero_iff.1 (by omega)
    · have batch := sees.single 0
      rw [generateToken_batches single, List.forall_mem_singleton, length_batchOf] at batch
      exact batch
  · rintro ⟨empty, short⟩
    rw [empty start hasCtx, List.nil_append] at cached
    have prompted := firstSampledOn_cached contract batches first
    refine ⟨cached.trans prompted.symm, cached, fun draws => ?_, ?_⟩
    · rw [generateToken_batches single, List.forall_mem_singleton, length_batchOf]
      exact short
    · exact be.generate_batches batches prompt

/-- The calls leave the configuration as it is. -/
theorem BackendCall.step_config (call : BackendCall σ) :
    (call.step api sampleToken s).backend.config = s.backend.config := by
  cases call with
  | generate prompt maxTokens temperature topP topK onToken user =>
    obtain ⟨ctx, kept⟩ := LlamaBackend.generate_backend api s.backend sampleToken prompt maxTokens temperature topP
      topK onToken s.draws user
    dsimp only [BackendCall.step]
    rw [kept]
  | generateToken prompt =>
    dsimp only [BackendCall.step]
    rw [LlamaBackend.generateToken]
    cases s.backend.ctx with
    | none => rfl
    | some ctx =>
      dsimp only
      split
      · rfl
      · split
        · rfl
        · rfl
  | reset =>
    dsimp only [BackendCall.step]
    rw [LlamaBackend.reset]
    split <;> rfl

theorem after_config (api : LlamaCpp M C L) (sampleToken : Sampler L) (s : Session M C) (calls : List (BackendCall σ)) :
    (s.after api sampleToken calls).config = s.backend.config := by
  rw [Session.after]
  induction calls generalizing s with
  | nil => rfl
  | cons call calls ih => exact (ih (call.step api sampleToken s)).trans call.step_config

/-- A `reset` empties the cache. -/
theorem cacheEmpty_reset {kv : C → List (Int × Int)} {logits : List Int → L} (contract : DecodeContract api kv logits)
    (calls : List (BackendCall σ)) : (s.after api sampleToken (calls ++ [.reset])).CacheEmpty kv := by
  rw [Session.after, List.foldl_append]
  dsimp only [List.foldl, BackendCall.step]
  rw [LlamaBackend.reset]
  intro ctx hasCtx
  split at hasCtx
  · rename_i none
    rw [none] at hasCtx
    cases hasCtx
  · obtain rfl := Option.some.inj hasCtx
    exact contract.clear _

/-- **`generate_token` has the prompt before it** as `generate` has, whatever the calls before, exactly where they
leave the cache empty and the prompt is within `n_batch`. -/
theorem seesPrompt_iff {kv : C → List (Int × Int)} {logits : List Int → L} (contract : DecodeContract api kv logits)
    (batches : 0 < s.backend.config.nBatch) (calls : List (BackendCall σ)) {prompt : List Int} {ctx ctx' : C}
    (single : (s.after api sampleToken calls).sampledOn api prompt = some ctx)
    (first : (s.after api sampleToken calls).firstSampledOn api prompt = some ctx') :
    SeesPrompt api sampleToken σ kv (s.after api sampleToken calls) prompt ctx ctx' ↔
      (s.after api sampleToken calls).CacheEmpty kv ∧ (prompt.length : Int) ≤ s.backend.config.nBatch := by
  rw [← after_config api sampleToken s calls] at batches ⊢
  exact LlamaBackend.sees_iff contract batches single first

/-- A session with the small model, two tokens to a batch. -/
def sumSession : Session Unit (List (Int × Int)) where
  backend := { config := { nBatch := 2 }, model := some (), ctx := some [], modelLoaded := true }

/-- After a `reset`, a prompt of two tokens. -/
theorem seesPrompt_iff_reset :
    SeesPrompt sumLlama (fun _ _ _ _ _ => 1) Unit id (sumSession.after sumLlama (fun _ _ _ _ _ => 1)
        ([.generateToken [3]] ++ [.reset] : List (BackendCall Unit))) [2, 3] [(0, 2), (1, 3)] [(0, 2), (1, 3)] :=
  (seesPrompt_iff sumLlama_decode (by decide) _ (by decide) (by decide)).2
    ⟨cacheEmpty_reset sumLlama_decode [.generateToken [3]], by decide⟩

/-- A second `generate_token` finds the first one's prompt in the cache, and a prompt of three tokens goes into one
batch. -/
theorem not_seesPrompt :
    (¬ ∀ (calls : List (BackendCall Unit)) ctx ctx',
        (sumSession.after sumLlama (fun _ _ _ _ _ => 1) calls).sampledOn sumLlama [2] = some ctx →
        (sumSession.after sumLlama (fun _ _ _ _ _ => 1) calls).firstSampledOn sumLlama [2] = some ctx' →
        SeesPrompt sumLlama (fun _ _ _ _ _ => 1) Unit id (sumSession.after sumLlama (fun _ _ _ _ _ => 1) calls) [2] ctx ctx') ∧
      ¬ ∀ prompt ctx ctx', sumSession.backend.sampledOn sumLlama prompt = some ctx →
        sumSession.backend.firstSampledOn sumLlama prompt = some ctx' →
        SeesPrompt sumLlama (fun _ _ _ _ _ => 1) Unit id sumSession.backend prompt ctx ctx' := by
  constructor
  · intro all
    have sees := all [.generateToken [3]] [(0, 3), (0, 2)] [(0, 2)] (by decide) (by decide)
    exact absurd sees.same.length_eq (by decide)
  · intro all
    have sees := all [1, 2, 3] [(0, 1), (1, 2), (2, 3)] [(0, 1), (1, 2), (2, 3)] (by decide) (by decide)
    have batch := sees.single 0
    revert batch
    decide

end Calls
end ModelRuntime
