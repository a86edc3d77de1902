import ModelRuntime.Engine.Calls

/-!
# Cancelling a generation

`cancel_generation` beside a `generate_stream`. It sets a flag that nothing reads and clears the cache
the generation goes on with. `Watch` records what that does: the callbacks that still come, and whether a
token is drawn from logits over a cache cleared under the generation. `Stage` says in which order a
generation makes its calls.
-/

namespace ModelRuntime
open Cpp Lib

inductive Party where
  | stream
  | cancel
  deriving DecidableEq

/-- What is seen of the two. -/
structure Watch where
  /-- `cancel_generation` has cleared the cache since the generation did. -/
  cut : Bool := false
  /-- The last `llama_decode` was over such a cache. -/
  logitsCut : Bool := false
  /-- The calls of `on_token` since `cancel_generation` returned. -/
  late : Nat := 0
  /-- A token has been sampled from such logits. -/
  fromCut : Bool := false
  deriving DecidableEq

def Watch.see (w : Watch) (returned : Bool) : Party → Call → Watch
  | .cancel, .clear => { w with cut := true }
  | .stream, .clear => { w with cut := false }
  | .stream, .decode _ => { w with logitsCut := w.cut }
  | .stream, .sample => { w with fromCut := w.fromCut || w.logitsCut }
  | .stream, .callback _ => if returned then { w with late := w.late + 1 } else w
  | _, _ => w

def Watch.Clean (w : Watch) : Prop := w.late ≤ 1 ∧ w.fromCut = false

instance (w : Watch) : Decidable w.Clean := inferInstanceAs (Decidable (_ ∧ _))

structure Watched (M C : Type) where
  pool : Pool Party (Calls M C (Except StdException Unit)) (Shared M C)
  watch : Watch := {}

def Watched.step {M C : Type} (w : Watched M C) (r : Party) : Watched M C :=
  match (w.pool.threads r).label with
  | none => w
  | some call => ⟨w.pool.step Prog.move r, w.watch.see (w.pool.threads .cancel).isDone r call⟩

section Threads

variable {M C L : Type} (api : LlamaCpp M C L) (sampleToken : Sampler L) (e : InferenceEngine M C)

def parties (prompt : Bytes) (genConfig : GenerationConfig) : Party → Calls M C (Except StdException Unit)
  | .stream => Calls.generateStream api sampleToken e.backend.config e.tokenizer prompt genConfig
  | .cancel => do
    Calls.cancelGeneration api
    pure (.ok ())

def cancelling (draws : Nat) (prompt : Bytes) (genConfig : GenerationConfig) : Watched M C :=
  ⟨⟨e.shared draws, parties api sampleToken e prompt genConfig, none⟩, {}⟩

/-- The return code `llama_decode(ctx_, batch)` would have. -/
def Shared.decodeCode (s : Shared M C) (batch : Batch) : Int :=
  match s.ctx.object? with
  | none => 0
  | some ctx => (api.decode ctx batch).1

/-- The call goes on with a generation: it begins one of more than one token, or it is a `llama_decode`
that succeeds. -/
def Shared.goesOn (s : Shared M C) (maxTokens : Int) : Option Call → Bool
  | some .clear => 1 < maxTokens
  | some (.decode batch) => s.decodeCode api batch == 0
  | _ => false

/-- The generation does not go on over a cache that has been cleared under it. -/
def Heeds (maxTokens : Int) (w : Watched M C) (r : Party) : Prop :=
  r = .stream → w.watch.cut = true →
    w.pool.shared.goesOn api maxTokens (w.pool.threads .stream).label = false

instance (maxTokens : Int) (w : Watched M C) (r : Party) : Decidable (Heeds api maxTokens w r) :=
  inferInstanceAs (Decidable (_ → _ → _))

end Threads

/-! ## The order of a generation's calls -/

/-- Where a generation stands, with how many tokens it may still report: before its clear, with all its
calls so far answered, after a report, after a `llama_decode` that failed. -/
inductive Stage where
  | before (left : Nat)
  | opened (left : Nat)
  | called (left : Nat)
  | finished

variable {M C L A : Type}

def Stage.leads (api : LlamaCpp M C L) : Stage → Call → Shared M C → Option Stage
  | q, .own, _ | q, .model, _ => some q
  | .before left, .clear, _ => some (.opened left)
  | .opened left, .logits _, _ | .opened left, .sample, _ => some (.opened left)
  | .opened (left + 1), .callback _, _ => some (.called left)
  | .opened left, .decode batch, s | .called left, .decode batch, s =>
    some (if s.decodeCode api batch = 0 then .opened left else .finished)
  | _, _, _ => none

/-- The cancel clears once, and before it returns. -/
def cancelLeads : Bool → Call → Shared M C → Option Bool
  | cleared, .own, _ => some cleared
  | false, .clear, _ => some true
  | _, _, _ => none

/-- A loaded model. -/
structure Shared.Loaded (model : M) (s : Shared M C) : Prop where
  model : s.model = .live model
  ctx : ∃ ctx, s.ctx = .live ctx

section Follows

variable {api : LlamaCpp M C L} {sampleToken : Sampler L} {model : M}

/-- The program makes no call on the context; its result is as `post` has it. -/
abbrev Stays (api : LlamaCpp M C L) (model : M) (post : A → Prop) (p : Calls M C A) : Prop :=
  ∀ q, p.Follows (Shared.Loaded model) (Stage.leads api) (fun q' a => q' = q ∧ post a) q

/-- The program follows the order from a stage, to one that `post` has. -/
abbrev From (api : LlamaCpp M C L) (model : M) (post : Stage → A → Prop) (q : Stage) (p : Calls M C A) :
    Prop :=
  p.Follows (Shared.Loaded model) (Stage.leads api) post q

theorem Stays.bind {post : A → Prop} {B : Type} {post' : Stage → B → Prop} {p : Calls M C A}
    {k : A → Calls M C B} (first : Stays api model post p) {q : Stage}
    (rest : ∀ a, post a → From api model post' q (k a)) : From api model post' q (p >>= k) := by
  refine Prog.Follows.bind (first q) ?_
  rintro q' a ⟨same, h⟩
  rw [same]
  exact rest a h

theorem Stays.any {post : A → Prop} {p : Calls M C A} (h : Stays api model post p) :
    Stays api model (fun _ => True) p :=
  fun q => (h q).mono fun _ _ same => ⟨same.1, trivial⟩

theorem stays_get (f : Shared M C → A) :
    Stays api model (fun a => ∃ s, s.Loaded model ∧ a = f s) (Calls.get f) :=
  fun q s here => ⟨here, q, rfl, rfl, s, here, rfl⟩

theorem stays_generating (b : Bool) :
    Stays api model (fun _ => True) (Calls.set fun s : Shared M C => { s with generating := b }) :=
  fun q _ here => ⟨⟨here.model, here.ctx⟩, q, rfl, rfl, trivial⟩

theorem stays_onModel (f : M → A) :
    Stays api model (· = f model) (Calls.onModel f : Calls M C A) := by
  intro q s here
  refine ⟨here, q, rfl, ?_⟩
  dsimp only
  rw [here.model]
  exact ⟨rfl, rfl⟩

theorem stays_vocabSize : Stays api model (· = api.nVocab model) (Calls.vocabSize api) := by
  intro q
  refine (stays_get _).bind fun null isNull => ?_
  obtain ⟨s, here, same⟩ := isNull
  rw [same, here.model]
  exact stays_onModel api.nVocab q

theorem stays_isEos (token : Int) : Stays api model (fun _ => True) (Calls.isEos api token) := by
  intro q
  refine (stays_get _).bind fun null isNull => ?_
  split
  · exact ⟨rfl, trivial⟩
  · exact (stays_onModel _).any q

theorem stays_tokenize (text : Bytes) (addBos : Bool) :
    let loaded : LlamaBackend M C := { config := {}, model := some model, modelLoaded := true }
    Stays api model (fun tokens => tokens = [] ∨ tokens = loaded.tokenize api text addBos)
      (Calls.tokenize api text addBos) := by
  intro loaded q
  refine (stays_get _).bind fun null isNull => ?_
  split
  · exact ⟨rfl, .inl rfl⟩
  refine (stays_get _).bind fun isLoaded _ => ?_
  split
  · exact ⟨rfl, .inl rfl⟩
  refine (stays_onModel _).bind fun nTokens count => ?_
  split
  · exact ⟨rfl, .inl rfl⟩
  · rename_i positive
    refine (stays_onModel _).bind fun written tokens => ⟨rfl, .inr ?_⟩
    rw [count] at positive
    rw [tokens, count, LlamaBackend.tokenize]
    show _ = if (!true) = true then _ else if _ then _ else _
    rw [if_neg (by decide), if_neg positive]

theorem stays_detokenize (tokens : List Int) :
    Stays api model (fun _ => True) (Calls.detokenize api tokens) := by
  have all : ∀ tokens, Stays api model (fun _ => True) (Calls.pieces api tokens) := by
    intro tokens
    induction tokens with
    | nil => exact fun q => ⟨rfl, trivial⟩
    | cons token tokens ih =>
      exact fun q => (stays_onModel _).bind fun _ _ => ih.bind fun _ _ => ⟨rfl, trivial⟩
  intro q
  refine (stays_get _).bind fun null isNull => ?_
  split
  · exact ⟨rfl, trivial⟩
  · exact all tokens q

theorem stays_responseText (tokenizer : Tokenizer) (tokens : List Int) :
    Stays api model (fun _ => True) (Calls.responseText api tokenizer tokens) := by
  intro q
  refine stays_vocabSize.bind fun size _ => ?_
  split
  · exact stays_detokenize tokens q
  · exact ⟨rfl, trivial⟩

theorem from_callback (tokenizer : Tokenizer) (left : Nat) (tokenId : Int) :
    From api model (fun q _ => q = .called left) (.opened (left + 1))
      (Calls.streamCallback api tokenizer tokenId) :=
  (stays_responseText tokenizer _).bind fun _ _ => (stays_isEos tokenId).bind fun _ _ =>
    fun _ here => ⟨here, .called left, rfl, rfl⟩

/-- A call on the context that its stage allows. -/
theorem from_onCtx {call : Call} {f : C → C} {g : C → A} {q : Stage} (q' : Shared M C → Stage)
    (leads : ∀ s, q.leads api call s = some (q' s)) {post : Stage → A → Prop}
    (after : ∀ s ctx, s.ctx = .live ctx → post (q' s) (g ctx)) :
    From api model post q (Calls.onCtx call f g : Calls M C A) := by
  intro s here
  obtain ⟨ctx, live⟩ := here.ctx
  refine ⟨⟨here.model, f ctx, by dsimp only; rw [live]; rfl⟩, q' s, leads s, ?_⟩
  dsimp only
  rw [live]
  exact after s ctx live

theorem from_decode {q : Stage} {left : Nat} (ready : q = .opened left ∨ q = .called left) (batch : Batch) :
    From api model (fun q ret => q = if ret = 0 then .opened left else .finished) q
      (Calls.decode api batch : Calls M C Int) := by
  refine from_onCtx (fun s => if s.decodeCode api batch = 0 then .opened left else .finished) ?_ ?_
  · intro s
    rcases ready with same | same
    · rw [same]
      rfl
    · rw [same]
      rfl
  · intro s ctx live
    rw [Shared.decodeCode, live]
    rfl

theorem from_logits (i : Int) (left : Nat) :
    From api model (fun q _ => q = .opened left) (.opened left)
      (Calls.onCtx (.logits i) id fun _ => () : Calls M C Unit) :=
  from_onCtx (fun _ => _) (fun _ => rfl) fun _ _ _ => rfl

theorem from_sample (temperature topP : CFloat) (topK i : Int) (left : Nat) :
    From api model (fun q _ => q = .opened left) (.opened left)
      (Calls.sample api sampleToken temperature topP topK i) := by
  have size : Stays api model (fun _ => True) (Calls.sampleSize api temperature : Calls M C Int) := by
    refine fun q => (stays_onModel _).bind fun _ _ => ?_
    split
    · exact (stays_onModel _).any q
    · exact ⟨rfl, trivial⟩
  refine size.bind fun _ _ => ?_
  intro s here
  obtain ⟨ctx, live⟩ := here.ctx
  refine ⟨⟨here.model, here.ctx⟩, .opened left, rfl, ?_⟩
  dsimp only
  rw [live]
  rfl

theorem from_prefill (batchSize : Nat) (prompt : List Int) (left passes : Nat) : ∀ i,
    From api model (fun q filled => filled = true → q = .opened left) (.opened left)
      (Calls.prefill api batchSize prompt passes i) := by
  induction passes with
  | zero => exact fun _ _ => rfl
  | succ passes ih =>
    intro i
    rw [Calls.prefill]
    split
    · refine (from_decode (.inl rfl) _).bind fun q ret after => ?_
      split
      · exact fun h => absurd h (by decide)
      · rename_i ok
        rw [after, if_pos (not_not.1 ok)]
        exact ih _
    · exact fun _ => rfl

theorem from_decodeLoop (temperature topP : CFloat) (topK : Int) {onToken : Int → Calls M C Unit}
    (callback : ∀ token left, From api model (fun q _ => q = .called left) (.opened (left + 1))
      (onToken token)) (promptLength left : Nat) : ∀ i cur generated,
    From api model (fun _ _ => True) (.opened left)
      (Calls.decodeLoop api sampleToken temperature topP topK onToken promptLength left i cur generated) := by
  induction left with
  | zero => exact fun _ _ _ => trivial
  | succ left ih =>
    intro i cur generated
    refine (stays_isEos cur).bind fun eos _ => ?_
    split
    · trivial
    refine (callback cur left).bind fun q _ called => ?_
    refine (from_decode (.inr called) _).bind fun q ret after => ?_
    split
    · trivial
    · rename_i ok
      rw [after, if_pos (not_not.1 ok)]
      refine (from_logits 0 left).bind fun q _ same => ?_
      rw [same]
      refine (from_sample temperature topP topK 0 left).bind fun q next same => ?_
      rw [same]
      exact ih _ _ _

section Generation

variable (config : EngineConfig) (tokenizer : Tokenizer) (genConfig : GenerationConfig)

theorem from_generateOn (batchSize : Nat) (prompt : List Int) {onToken : Int → Calls M C Unit}
    (callback : ∀ token left, From api model (fun q _ => q = .called left) (.opened (left + 1))
      (onToken token)) :
    From api model (fun _ _ => True) (.before genConfig.maxTokens.toNat)
      (Calls.generateOn api sampleToken batchSize prompt genConfig onToken) := by
  have clears : From api model (fun q _ => q = .opened genConfig.maxTokens.toNat)
      (.before genConfig.maxTokens.toNat) (Calls.onCtx .clear api.kvCacheClear fun _ => () : Calls M C Unit) :=
    from_onCtx (fun _ => _) (fun _ => rfl) fun _ _ _ => rfl
  refine clears.bind fun q _ same => ?_
  rw [same]
  refine (from_prefill _ prompt _ _ 0).bind fun q filled after => ?_
  split
  · trivial
  · rename_i all
    rw [after (by simpa using all)]
    refine (from_logits (-1) _).bind fun q _ same => ?_
    rw [same]
    refine (stays_onModel _).bind fun _ _ => (from_sample _ _ _ _ _).bind fun q cur same => ?_
    rw [same]
    exact from_decodeLoop _ _ _ callback _ _ _ _ _

theorem from_backendGenerate (prompt : List Int) {onToken : Int → Calls M C Unit}
    (callback : ∀ token left, From api model (fun q _ => q = .called left) (.opened (left + 1))
      (onToken token)) :
    From api model (fun _ _ => True) (.before genConfig.maxTokens.toNat)
      (Calls.backendGenerate api sampleToken config prompt genConfig onToken) := by
  refine (stays_get _).bind fun null _ => ?_
  split
  · trivial
  split
  · trivial
  split
  · trivial
  · exact (from_generateOn genConfig _ prompt callback).bind fun _ _ _ => trivial

theorem from_streamTokens (vocab : 0 < api.nVocab model) (prompt : List Int) :
    From api model (fun _ _ => True) (.before genConfig.maxTokens.toNat)
      (Calls.streamTokens api sampleToken config tokenizer prompt genConfig) := by
  refine stays_vocabSize.bind fun size same => ?_
  rw [same, if_pos vocab]
  exact from_backendGenerate config genConfig prompt fun token left => from_callback tokenizer left token

theorem stays_promptTokens (vocab : 0 < api.nVocab model) (prompt : Bytes) :
    let loaded : LlamaBackend M C := { config := {}, model := some model, modelLoaded := true }
    Stays api model (fun tokens => tokens = [] ∨ tokens = loaded.tokenize api prompt true)
      (Calls.promptTokens api tokenizer prompt) := by
  intro loaded q
  refine stays_vocabSize.bind fun size same => ?_
  rw [same, if_pos vocab]
  exact stays_tokenize prompt true q

/-- **The order of a generation's calls.** -/
theorem from_generateStream (vocab : 0 < api.nVocab model) (prompt : Bytes) :
    From api model (fun _ _ => True) (.before genConfig.maxTokens.toNat)
      (Calls.generateStream api sampleToken config tokenizer prompt genConfig) := by
  refine (stays_get _).bind fun ready _ => ?_
  split
  · trivial
  refine (stays_generating true).bind fun _ _ => ?_
  refine (stays_promptTokens tokenizer vocab prompt).bind fun tokens _ => ?_
  refine (from_streamTokens config tokenizer genConfig vocab tokens).bind fun q tokens _ => ?_
  split
  · trivial
  · exact (stays_generating false).bind fun _ _ => trivial

/-- With the two-call protocol no prompt gets tokens, and no call on the context is made. -/
theorem over_generateStream {tokens : M → Bytes → Int → Bool → List Int}
    (contract : TokenizeContract api tokens) (vocab : 0 < api.nVocab model) (prompt : Bytes) :
    From api model (fun _ _ => True) .finished
      (Calls.generateStream api sampleToken config tokenizer prompt genConfig : Calls M C _) := by
  refine (stays_get _).bind fun ready _ => ?_
  split
  · trivial
  refine (stays_generating true).bind fun _ _ => ?_
  refine (stays_promptTokens tokenizer vocab prompt).bind fun promptTokens given => ?_
  rw [LlamaBackend.tokenize_nil contract rfl, or_self] at given
  rw [given]
  have none : From api model (fun _ _ => True) .finished
      (Calls.streamTokens api sampleToken config tokenizer [] genConfig : Calls M C _) := by
    refine stays_vocabSize.bind fun size same => ?_
    rw [same, if_pos vocab]
    refine (stays_get _).bind fun null _ => ?_
    split
    · trivial
    · trivial
  refine none.bind fun q tokens _ => ?_
  split
  · trivial
  · exact (stays_generating false).bind fun _ _ => trivial

end Generation

variable (api sampleToken) in
/-- **The cancel** clears the cache before it returns. -/
theorem cancel_follows (e : InferenceEngine M C) (prompt : Bytes) (genConfig : GenerationConfig) :
    (parties api sampleToken e prompt genConfig .cancel).Follows (Shared.Loaded model) cancelLeads
      (fun cleared _ => cleared = true) false := by
  intro s here
  refine ⟨⟨here.model, here.ctx⟩, false, rfl, fun s here => ⟨here, false, rfl, ?_⟩⟩
  obtain ⟨ctx, live⟩ := here.ctx
  dsimp only [Prog.bind]
  rw [live]
  intro s here
  obtain ⟨ctx, live⟩ := here.ctx
  refine ⟨⟨here.model, api.kvCacheClear ctx, by dsimp only; rw [live]; rfl⟩, true, rfl, ?_⟩
  dsimp only [Prog.bind]
  rw [live]
  rfl

end Follows

/-! ## A cancel that is heeded -/

section Heeded

variable {api : LlamaCpp M C L} {sampleToken : Sampler L} {model : M} {maxTokens : Int}

/-- What has been seen by the time the generation stands at a stage, the cancel having cleared the
cache. -/
def Stage.Allows (w : Watch) : Stage → Prop
  | .before _ => w.cut = true ∧ w.late = 0 ∧ w.logitsCut = false
  | .opened left => (w.cut = true → w.late = 0) ∧ (w.cut = false → w.late + left ≤ 1) ∧ w.logitsCut = false
  | .called left => (w.cut = true → w.late ≤ 1) ∧ (w.cut = false → w.late + left ≤ 1)
  | .finished => w.late ≤ 1

/-- Before the cancel has cleared the cache there is nothing to see. -/
structure Watch.Untouched (w : Watch) : Prop where
  cut : w.cut = false
  logitsCut : w.logitsCut = false
  late : w.late = 0

/-- The generation stands at `q` and the cancel has or has not cleared the cache. -/
structure Watched.Stands (api : LlamaCpp M C L) (model : M) (maxTokens : Int) (q : Stage) (cleared : Bool)
    (w : Watched M C) : Prop where
  stream : From api model (fun _ _ => True) q (w.pool.threads .stream)
  left : ∀ left, q = .before left → left = maxTokens.toNat
  cancel : (w.pool.threads .cancel).Follows (Shared.Loaded model) cancelLeads
    (fun cleared _ => cleared = true) cleared
  loaded : w.pool.shared.Loaded model
  untouched : cleared = false → w.watch.Untouched
  allows : cleared = true → q.Allows w.watch
  fromCut : w.watch.fromCut = false

variable {w : Watched M C} {q : Stage} {cleared : Bool}

theorem Watched.Stands.clean (h : w.Stands api model maxTokens q cleared) : w.watch.Clean := by
  refine ⟨?_, h.fromCut⟩
  cases cleared with
  | false =>
    have none := (h.untouched rfl).late
    omega
  | true =>
    have allows := h.allows rfl
    cases q with
    | before left => have none := allows.2.1; omega
    | opened left =>
      cases cut : w.watch.cut with
      | true => have none := allows.1 cut; omega
      | false => have some := allows.2.1 cut; omega
    | called left =>
      cases cut : w.watch.cut with
      | true => exact allows.1 cut
      | false => have some := allows.2 cut; omega
    | finished => exact allows

theorem Watched.step_act {r : Party} {call : Call} {effect : Shared M C → Shared M C}
    {next : Shared M C → Calls M C (Except StdException Unit)}
    (here : w.pool.threads r = .act call effect next) :
    w.step r = ⟨w.pool.step Prog.move r, w.watch.see (w.pool.threads .cancel).isDone r call⟩ := by
  rw [Watched.step, here]
  rfl

theorem Watch.Untouched.see {w : Watch} (h : w.Untouched) (call : Call) :
    (w.see false .stream call).Untouched := by
  cases call with
  | clear => exact ⟨rfl, h.logitsCut, h.late⟩
  | decode batch => exact ⟨h.cut, h.cut, h.late⟩
  | _ => exact ⟨h.cut, h.logitsCut, h.late⟩

theorem Watch.fromCut_see {w : Watch} (h : w.fromCut = false) {call : Call}
    (sample : call = .sample → w.logitsCut = false) (returned : Bool) :
    (w.see returned .stream call).fromCut = false := by
  cases call with
  | sample =>
    show (w.fromCut || w.logitsCut) = false
    rw [h, sample rfl]
    rfl
  | callback tokenId => cases returned <;> exact h
  | _ => exact h

theorem Stage.leads_own (q : Stage) (s : Shared M C) : q.leads api .own s = some q := by
  cases q <;> rfl

theorem Stage.leads_model (q : Stage) (s : Shared M C) : q.leads api .model s = some q := by
  cases q <;> rfl

/-- No call leads back to the beginning. -/
theorem Stage.leads_before {q : Stage} {call : Call} {s : Shared M C} {left : Nat}
    (h : q.leads api call s = some (.before left)) : q = .before left := by
  cases call with
  | own => exact Option.some.inj (q.leads_own s ▸ h)
  | model => exact Option.some.inj (q.leads_model s ▸ h)
  | decode batch =>
    cases q with
    | opened | called =>
      have h := Option.some.inj h
      split at h <;> cases h
    | before | finished => cases h
  | callback tokenId =>
    cases q with
    | opened left => cases left <;> cases h
    | before | called | finished => cases h
  | _ => cases q <;> cases h

/-- After a `llama_decode`, which over a cut cache fails. -/
theorem Stage.allows_decode {w : Watch} {left : Nat} (cut : w.cut = true → w.late ≤ 1)
    (uncut : w.cut = false → w.late + left ≤ 1) {code : Int} (fails : w.cut = true → code ≠ 0) :
    (if code = 0 then Stage.opened left else .finished).Allows { w with logitsCut := w.cut } := by
  cases h : w.cut with
  | true =>
    rw [if_neg (fails h)]
    exact cut h
  | false =>
    have some := uncut h
    split
    · exact ⟨fun cut => absurd cut (by simp), fun _ => some, rfl⟩
    · show w.late ≤ 1
      omega

/-- After a report, which is at most one more than there were. -/
theorem Stage.allows_callback {w : Watch} {left : Nat} (h : (Stage.opened (left + 1)).Allows w)
    (returned : Bool) (tokenId : Int) :
    (Stage.called left).Allows (w.see returned .stream (.callback tokenId)) := by
  obtain ⟨cut, uncut, _⟩ := h
  cases returned with
  | true =>
    refine ⟨fun h => ?_, fun h => ?_⟩
    · have none := cut h
      show w.late + 1 ≤ 1
      omega
    · have some := uncut h
      show w.late + 1 + left ≤ 1
      omega
  | false =>
    refine ⟨fun h => ?_, fun h => ?_⟩
    · have none := cut h
      show w.late ≤ 1
      omega
    · have some := uncut h
      show w.late + left ≤ 1
      omega

/-- The generation's next call, the cancel having cleared the cache. -/
theorem Stage.Allows.see {w : Watch} {q q' : Stage} {call : Call} {s : Shared M C} (h : q.Allows w)
    (leads : q.leads api call s = some q') (left : ∀ left, q = .before left → left = maxTokens.toNat)
    (begins : w.cut = true → call = .clear → maxTokens ≤ 1)
    (decodes : w.cut = true → ∀ batch, call = .decode batch → s.decodeCode api batch ≠ 0)
    (returned : Bool) : q'.Allows (w.see returned .stream call) := by
  cases call with
  | own =>
    rw [leads_own] at leads
    cases leads
    exact h
  | model =>
    rw [leads_model] at leads
    cases leads
    exact h
  | clear =>
    cases q with
    | before tokens =>
      cases leads
      obtain ⟨cut, none, logits⟩ := h
      have bound := begins cut rfl
      have same := left tokens rfl
      refine ⟨fun h => absurd h (by simp [Watch.see]), fun _ => ?_, logits⟩
      show w.late + tokens ≤ 1
      omega
    | opened | called | finished => cases leads
  | decode batch =>
    cases q with
    | before | finished => cases leads
    | opened tokens =>
      cases leads
      refine allows_decode (fun cut => ?_) h.2.1 fun cut => decodes cut batch rfl
      have none := h.1 cut
      omega
    | called tokens =>
      cases leads
      exact allows_decode h.1 h.2 fun cut => decodes cut batch rfl
  | logits i =>
    cases q with
    | opened tokens =>
      cases leads
      exact h
    | before | called | finished => cases leads
  | sample =>
    cases q with
    | opened tokens =>
      cases leads
      exact h
    | before | called | finished => cases leads
  | callback tokenId =>
    cases q with
    | opened tokens =>
      cases tokens with
      | zero => cases leads
      | succ tokens =>
        cases leads
        exact allows_callback h returned tokenId
    | before | called | finished => cases leads
  | freeCtx | freeModel => cases q <;> cases leads

/-- A step of the cancel. -/
theorem Watched.Stands.cancel_step (h : w.Stands api model maxTokens q cleared) {call : Call}
    {effect : Shared M C → Shared M C} {next : Shared M C → Calls M C (Except StdException Unit)}
    (here : w.pool.threads .cancel = .act call effect next) :
    ∃ cleared, (w.step .cancel).Stands api model maxTokens q cleared := by
  have follows := h.cancel
  rw [here] at follows
  obtain ⟨loaded, cleared', leads, rest⟩ := follows _ h.loaded
  have stream : ((w.pool.step Prog.move .cancel).threads .stream) = w.pool.threads .stream :=
    Prog.step_other here (by decide)
  rw [Watched.step_act here]
  have clears : call = .own ∧ cleared' = cleared ∨ call = .clear ∧ cleared = false ∧ cleared' = true := by
    cases call with
    | own => exact .inl ⟨rfl, by cases cleared <;> cases leads <;> rfl⟩
    | clear => exact .inr ⟨rfl, by cases cleared <;> cases leads; exact ⟨rfl, rfl⟩⟩
    | _ => cases cleared <;> cases leads
  refine ⟨cleared', stream ▸ h.stream, h.left, (Prog.step_self here).symm ▸ rest,
    (Prog.step_shared here).symm ▸ loaded, ?_, ?_, ?_⟩
  · rcases clears with ⟨own, same⟩ | ⟨_, _, same⟩
    · rw [same, own]
      exact h.untouched
    · rw [same]
      exact fun h => absurd h (by decide)
  · rcases clears with ⟨own, same⟩ | ⟨clear, before, _⟩
    · rw [same, own]
      exact h.allows
    · intro _
      obtain ⟨cut, logits, late⟩ := h.untouched before
      rw [clear]
      cases q with
      | before left => exact ⟨rfl, late, logits⟩
      | opened left => exact ⟨fun _ => late, fun h => absurd h (by simp [Watch.see]), logits⟩
      | called left => exact ⟨fun _ => late.trans_le (by decide), fun h => absurd h (by simp [Watch.see])⟩
      | finished => exact late.trans_le (by decide)
  · rcases clears with ⟨own, _⟩ | ⟨clear, _⟩
    · rw [own]
      exact h.fromCut
    · rw [clear]
      exact h.fromCut

/-- A step of the generation. -/
theorem Watched.Stands.stream_step (h : w.Stands api model maxTokens q cleared) {call : Call}
    {effect : Shared M C → Shared M C} {next : Shared M C → Calls M C (Except StdException Unit)}
    (here : w.pool.threads .stream = .act call effect next) (heeds : Heeds api maxTokens w .stream) :
    ∃ q', q.leads api call w.pool.shared = some q' ∧
      (w.step .stream).Stands api model maxTokens q' cleared := by
  have follows := h.stream
  rw [From, here] at follows
  obtain ⟨loaded, q', leads, rest⟩ := follows _ h.loaded
  have cancel : ((w.pool.step Prog.move .stream).threads .cancel) = w.pool.threads .cancel :=
    Prog.step_other here (by decide)
  rw [Heeds, here] at heeds
  have notReturned : cleared = false → (w.pool.threads .cancel).isDone = false := by
    intro before
    have cancel := h.cancel
    cases at? : w.pool.threads .cancel with
    | done a =>
      rw [at?, before] at cancel
      cases cancel
    | stuck | act => rfl
  have logits : call = .sample → w.watch.logitsCut = false := by
    intro sample
    cases cleared with
    | false => exact (h.untouched rfl).logitsCut
    | true =>
      have allows := h.allows rfl
      rw [sample] at leads
      cases q with
      | opened left => exact allows.2.2
      | before | called | finished => cases leads
  rw [Watched.step_act here]
  refine ⟨q', leads, (Prog.step_self here).symm ▸ rest, ?_, cancel ▸ h.cancel,
    (Prog.step_shared here).symm ▸ loaded, fun before => ?_, fun after => ?_,
    Watch.fromCut_see h.fromCut logits _⟩
  · exact fun left before => h.left left (Stage.leads_before (leads.trans (congrArg some before)))
  · rw [notReturned before]
    exact (h.untouched before).see call
  · refine (h.allows after).see leads h.left ?_ ?_ _
    · intro cut clear
      rw [clear] at heeds
      exact not_lt.1 (of_decide_eq_false (heeds rfl cut))
    · intro cut batch decode
      rw [decode] at heeds
      exact ne_of_beq_false (heeds rfl cut)

theorem Watched.step_halted {r : Party} (here : (w.pool.threads r).label = none) : w.step r = w := by
  rw [Watched.step, here]

theorem Watched.Stands.step (h : w.Stands api model maxTokens q cleared) (r : Party)
    (heeds : Heeds api maxTokens w r) :
    ∃ q' cleared, (q = .finished → q' = .finished) ∧ (w.step r).Stands api model maxTokens q' cleared := by
  cases here : w.pool.threads r with
  | done a => exact ⟨q, cleared, id, by rwa [Watched.step_halted (by rw [here]; rfl)]⟩
  | stuck => exact ⟨q, cleared, id, by rwa [Watched.step_halted (by rw [here]; rfl)]⟩
  | act call effect next =>
    cases r with
    | stream =>
      obtain ⟨q', leads, stands⟩ := h.stream_step here heeds
      refine ⟨q', cleared, fun finished => ?_, stands⟩
      rw [finished] at leads
      cases call <;> cases leads
      · rfl
      · rfl
    | cancel =>
      obtain ⟨cleared, stands⟩ := h.cancel_step here
      exact ⟨q, cleared, id, stands⟩

/-- A generation that makes no call on the context has nothing to heed. -/
theorem Watched.Stands.heeds (h : w.Stands api model maxTokens .finished cleared) (r : Party) :
    Heeds api maxTokens w r := by
  intro _ _
  have follows := h.stream
  cases here : w.pool.threads .stream with
  | done a => rfl
  | stuck => rfl
  | act call effect next =>
    rw [From, here] at follows
    obtain ⟨_, q', leads, _⟩ := follows _ h.loaded
    cases call <;> cases leads
    · rfl
    · rfl

end Heeded

section Run

variable (api : LlamaCpp M C L) (sampleToken : Sampler L) {e : InferenceEngine M C} {model : M} {ctx : C}
  (hasModel : e.backend.model = some model) (hasCtx : e.backend.ctx = some ctx)
  (vocab : 0 < api.nVocab model) (draws : Nat) (prompt : Bytes) (genConfig : GenerationConfig)

include hasModel hasCtx in
theorem cancelling_stands {q : Stage} (before : ∀ left, q = .before left → left = genConfig.maxTokens.toNat)
    (stream : From api model (fun _ _ => True) q
      (Calls.generateStream api sampleToken e.backend.config e.tokenizer prompt genConfig)) :
    (cancelling api sampleToken e draws prompt genConfig).Stands api model genConfig.maxTokens q false where
  stream := stream
  left := before
  cancel := cancel_follows api sampleToken e prompt genConfig
  loaded := ⟨congrArg Ptr.ofOption hasModel, ctx, congrArg Ptr.ofOption hasCtx⟩
  untouched _ := ⟨rfl, rfl, rfl⟩
  allows h := absurd h (by decide)
  fromCut := rfl

include hasModel hasCtx vocab in
/-- **Cancelling a generation**: in a run in which the generation does not go on over the cleared cache,
at most one callback comes after `cancel_generation` has returned, and no token is sampled from logits
over a cache it has cleared. -/
theorem cancel_clean (schedule : List Party)
    (heeds : Along Watched.step (Heeds api genConfig.maxTokens)
      (cancelling api sampleToken e draws prompt genConfig) schedule) :
    Along Watched.step (fun w r => (w.step r).watch.Clean)
      (cancelling api sampleToken e draws prompt genConfig) schedule := by
  have keep : ∀ (w : Watched M C) (r : Party), (∃ q cleared, w.Stands api model genConfig.maxTokens q cleared) →
      Heeds api genConfig.maxTokens w r →
      ∃ q cleared, (w.step r).Stands api model genConfig.maxTokens q cleared := by
    rintro w r ⟨q, cleared, stands⟩ heeds
    obtain ⟨q, cleared, _, stands⟩ := stands.step r heeds
    exact ⟨q, cleared, stands⟩
  refine along_imp (fun w r h heeds => ?_) keep schedule _ ⟨.before genConfig.maxTokens.toNat, false, ?_⟩ heeds
  · obtain ⟨q, cleared, stands⟩ := keep w r h heeds
    exact stands.clean
  · exact cancelling_stands api sampleToken hasModel hasCtx draws prompt genConfig
      (fun _ h => (Stage.before.inj h).symm) (from_generateStream _ _ genConfig vocab prompt)

include hasModel hasCtx vocab in
/-- With the two-call protocol of `llama_tokenize` every run is such a run: no prompt gets tokens. -/
theorem heeds_of_contract {tokens : M → Bytes → Int → Bool → List Int}
    (contract : TokenizeContract api tokens) (schedule : List Party) :
    Along Watched.step (Heeds api genConfig.maxTokens)
      (cancelling api sampleToken e draws prompt genConfig) schedule := by
  refine along_always (fun w r (h : ∃ cleared, w.Stands api model genConfig.maxTokens .finished cleared) => ?_)
    (fun w r h => ?_) schedule _ ⟨false, ?_⟩
  · obtain ⟨cleared, stands⟩ := h
    exact stands.heeds r
  · obtain ⟨cleared, stands⟩ := h
    obtain ⟨q, cleared, finished, stands⟩ := stands.step r (stands.heeds r)
    exact ⟨cleared, finished rfl ▸ stands⟩
  · exact cancelling_stands api sampleToken hasModel hasCtx draws prompt genConfig (fun _ h => by cases h)
      (over_generateStream _ _ genConfig contract vocab prompt)

end Run

/-- The small model as one that refuses a batch which does not continue the cache. -/
def strictLlama : LlamaCpp Unit (List (Int × Int)) (List Int) :=
  { countLlama with
    decode := fun ctx batch =>
      if (batch.head?.map fun e => e.pos) = some (ctx.length : Int) then countLlama.decode ctx batch
      else (1, ctx) }

def greedySampler : Sampler (List Int) := sumEngine.backend.sampleToken countLlama fun _ _ _ _ _ => 0

/-- The cancel comes right after the first callback. -/
def cancelledAfterOne (rest : Nat) : List Party :=
  List.replicate 27 .stream ++ List.replicate 3 .cancel ++ List.replicate rest .stream

theorem cancel_clean_strict :
    Along Watched.step (fun w r => (w.step r).watch.Clean)
      (cancelling strictLlama greedySampler sumEngine 0 (str "d") { maxTokens := 4, temperature := .finite 0 })
      (cancelledAfterOne 2) :=
  cancel_clean strictLlama greedySampler rfl rfl (by decide) 0 (str "d")
    { maxTokens := 4, temperature := .finite 0 } (cancelledAfterOne 2) (by decide +kernel)

/-- Where `llama_decode` takes the batch, the generation samples from logits over what is left of the
cache and calls back twice more. -/
theorem cancel_late :
    ¬ ∀ schedule : List Party, Along Watched.step (fun w r => (w.step r).watch.Clean)
      (cancelling countLlama greedySampler sumEngine 0 (str "d") { maxTokens := 4, temperature := .finite 0 })
      schedule := by
  intro all
  have run := all (cancelledAfterOne 28)
  revert run
  decide +kernel

end ModelRuntime
