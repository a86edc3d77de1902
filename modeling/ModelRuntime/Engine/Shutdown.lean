import ModelRuntime.Engine.Calls

/-!
# Shutting down under load

`RestApiServer::stop` and `InferenceEngine::stop` beside connection threads that nothing waits for.
`ready_` is tested once per generation, so the two frees of `unload` are safe only when no generation
has passed that test and still has a llama.cpp call to make.
-/

namespace ModelRuntime
open Cpp Lib

/-- The action frees an object. -/
def Call.isFree : Call → Bool
  | .freeCtx | .freeModel => true
  | _ => false

/-- The action is a llama.cpp call on `ctx_`. -/
def Call.isCtx : Call → Bool
  | .clear | .decode _ | .logits _ => true
  | _ => false

namespace Calls

variable {M C L A : Type}

/-! ## The shutdown -/

/-- `RestApiServer::stop`. The accept loop ends; the threads it has detached go on. -/
def stopServer : Calls M C Unit := do
  let running ← get (·.serverRunning)
  if !running then pure () else set fun s => { s with serverRunning := false }

def freeCtx : Calls M C Unit := .act .freeCtx (fun s => { s with ctx := s.ctx.free }) fun _ => .done ()

def freeModel : Calls M C Unit :=
  .act .freeModel (fun s => { s with model := s.model.free }) fun _ => .done ()

def unloadCtx : Calls M C Unit := do
  let null ← get (·.ctx.isNull)
  if null then pure ()
  else
    freeCtx
    set fun s => { s with ctx := .null }

def unloadModel : Calls M C Unit := do
  let null ← get (·.model.isNull)
  if null then pure ()
  else
    freeModel
    set fun s => { s with model := .null }

/-- `LlamaBackend::unload`. -/
def unload : Calls M C Unit := do
  let loaded ← get (·.modelLoaded)
  if !loaded then pure ()
  else
    unloadCtx
    unloadModel
    set fun s => { s with modelLoaded := false }

/-- `InferenceEngine::stop`; the worker it joins has an empty queue. -/
def stop : Calls M C Unit := do
  let running ← get (·.running)
  if !running then pure ()
  else
    set fun s => { s with running := false }
    set fun s => { s with ready := false }
    unload

def shutdown : Calls M C Unit := do
  stopServer
  stop

end Calls

/-! ## Connections and shutdown side by side -/

section Threads

variable {M C L ι : Type} (api : LlamaCpp M C L) (sampleToken : Sampler L) (e : InferenceEngine M C)

/-- A connection thread for each request; the main thread shuts down. -/
def connections (requests : ι → Bytes × GenerationConfig) :
    Option ι → Calls M C (Except StdException Bytes)
  | none => do
    Calls.shutdown
    pure (.ok [])
  | some i => Calls.generate api sampleToken e.backend.config e.tokenizer (requests i).1 (requests i).2

abbrev Serving (M C ι : Type) := Pool (Option ι) (Calls M C (Except StdException Bytes)) (Shared M C)

def serving (draws : Nat) (requests : ι → Bytes × GenerationConfig) : Serving M C ι :=
  ⟨e.shared draws, connections api sampleToken e requests, none⟩

/-- The step is a llama.cpp call on an object that has been freed. -/
def usesFreed (p : Serving M C ι) (r : Option ι) : Bool :=
  match (p.threads r).label with
  | none => false
  | some call => call == .model && p.shared.model.isFreed || call.isCtx && p.shared.ctx.isFreed

/-- The program makes no llama.cpp call. -/
def CallFree (p : Calls M C (Except StdException Bytes)) : Prop :=
  p.Every fun call _ => call ≠ .model ∧ call.isCtx = false

/-- A free comes only when every connection is before its test of `ready_` or past its last llama.cpp
call. -/
def Drained (requests : ι → Bytes × GenerationConfig) (p : Serving M C ι) (r : Option ι) : Prop :=
  (p.threads r).label.any Call.isFree = true → ∀ i,
    p.threads (some i) = connections api sampleToken e requests (some i) ∨ CallFree (p.threads (some i))

end Threads

/-! ## What a generation leaves alone -/

/-- Nothing has been freed. -/
structure Shared.Whole {M C : Type} (s : Shared M C) : Prop where
  model : s.model.isFreed = false
  ctx : s.ctx.isFreed = false

/-- The action is one of those `allowed`, does not set `ready_`, and frees nothing unless it is a
free. -/
structure Keeps {M C : Type} (allowed : Call → Bool) (call : Call) (effect : Shared M C → Shared M C) :
    Prop where
  allowed : allowed call = true
  ready : ∀ s, s.ready = false → (effect s).ready = false
  whole : call.isFree = false → ∀ s, s.Whole → (effect s).Whole

/-- What a connection does, and what the shutdown does. -/
def Call.ofConnection (call : Call) : Bool := !call.isFree

def Call.ofShutdown (call : Call) : Bool := call == .own || call.isFree

namespace Calls

variable {M C L A : Type} {api : LlamaCpp M C L} {sampleToken : Sampler L}

theorem keeps_get {allowed : Call → Bool} (own : allowed .own = true) (f : Shared M C → A) :
    (get f).Every (Keeps allowed) :=
  ⟨⟨own, fun _ h => h, fun _ _ h => h⟩, fun _ => trivial⟩

theorem keeps_set {allowed : Call → Bool} (own : allowed .own = true) {f : Shared M C → Shared M C}
    (ready : ∀ s, s.ready = false → (f s).ready = false) (whole : ∀ s, s.Whole → (f s).Whole) :
    (set f).Every (Keeps allowed) :=
  ⟨⟨own, ready, fun _ => whole⟩, fun _ => trivial⟩

theorem keeps_generating (b : Bool) :
    (set fun s => { s with generating := b } : Calls M C Unit).Every (Keeps Call.ofConnection) :=
  keeps_set rfl (fun _ h => h) fun _ h => ⟨h.model, h.ctx⟩

theorem keeps_onModel (f : M → A) : (onModel f : Calls M C A).Every (Keeps Call.ofConnection) := by
  refine ⟨⟨rfl, fun _ h => h, fun _ _ h => h⟩, fun s => ?_⟩
  dsimp only
  split
  · trivial
  · trivial

theorem keeps_onCtx {call : Call} (allowed : call.ofConnection = true) (f : C → C) (g : C → A) :
    (onCtx call f g : Calls M C A).Every (Keeps Call.ofConnection) := by
  refine ⟨⟨allowed, fun _ h => h, fun _ s h => ?_⟩, fun s => ?_⟩
  · exact ⟨h.model, (s.ctx.modify_isFreed f).trans h.ctx⟩
  · dsimp only
    split
    · trivial
    · trivial

theorem keeps_vocabSize : (vocabSize api : Calls M C Int).Every (Keeps Call.ofConnection) := by
  refine .bind (keeps_get rfl _) fun null => ?_
  split
  · trivial
  · exact keeps_onModel _

theorem keeps_isEos (token : Int) : (isEos api token : Calls M C Bool).Every (Keeps Call.ofConnection) := by
  refine .bind (keeps_get rfl _) fun null => ?_
  split
  · trivial
  · exact keeps_onModel _

theorem keeps_tokenize (text : Bytes) (addBos : Bool) :
    (tokenize api text addBos : Calls M C (List Int)).Every (Keeps Call.ofConnection) := by
  refine .bind (keeps_get rfl _) fun null => ?_
  split
  · trivial
  refine .bind (keeps_get rfl _) fun loaded => ?_
  split
  · trivial
  refine .bind (keeps_onModel _) fun nTokens => ?_
  split
  · trivial
  · exact .bind (keeps_onModel _) fun _ => trivial

theorem keeps_detokenize (tokens : List Int) : (detokenize api tokens : Calls M C Bytes).Every (Keeps Call.ofConnection) := by
  have all : ∀ tokens, (pieces api tokens : Calls M C Bytes).Every (Keeps Call.ofConnection) := by
    intro tokens
    induction tokens with
    | nil => trivial
    | cons token tokens ih => exact .bind (keeps_onModel _) fun _ => .bind ih fun _ => trivial
  refine .bind (keeps_get rfl _) fun null => ?_
  split
  · trivial
  · exact all tokens

theorem keeps_sample (temperature topP : CFloat) (topK i : Int) :
    (sample api sampleToken temperature topP topK i : Calls M C Int).Every (Keeps Call.ofConnection) := by
  refine .bind (.bind (keeps_onModel _) fun _ => ?_) fun _ => ?_
  · split
    · exact keeps_onModel _
    · trivial
  · refine ⟨⟨rfl, fun _ h => h, fun _ _ h => ⟨h.model, h.ctx⟩⟩, fun s => ?_⟩
    dsimp only
    split
    · trivial
    · trivial

theorem keeps_prefill (batchSize : Nat) (prompt : List Int) (passes : Nat) :
    ∀ i, (prefill api batchSize prompt passes i : Calls M C Bool).Every (Keeps Call.ofConnection) := by
  induction passes with
  | zero => intro i; trivial
  | succ passes ih =>
    intro i
    rw [prefill]
    split
    · refine .bind (keeps_onCtx rfl _ _) fun ret => ?_
      split
      · trivial
      · exact ih _
    · trivial

theorem keeps_decodeLoop (temperature topP : CFloat) (topK : Int) {onToken : Int → Calls M C Unit}
    (callback : ∀ token, (onToken token).Every (Keeps Call.ofConnection)) (promptLength left : Nat) :
    ∀ i cur generated, (decodeLoop api sampleToken temperature topP topK onToken promptLength left i cur
      generated).Every (Keeps Call.ofConnection) := by
  induction left with
  | zero => intro i cur generated; trivial
  | succ left ih =>
    intro i cur generated
    refine .bind (keeps_isEos cur) fun eos => ?_
    split
    · trivial
    refine .bind (callback cur) fun _ => .bind (keeps_onCtx rfl _ _) fun ret => ?_
    split
    · trivial
    · exact .bind (keeps_onCtx rfl _ _) fun _ => .bind (keeps_sample ..) fun next => ih _ _ _

theorem keeps_backendGenerate (config : EngineConfig) (prompt : List Int) (genConfig : GenerationConfig)
    {onToken : Int → Calls M C Unit} (callback : ∀ token, (onToken token).Every (Keeps Call.ofConnection)) :
    (backendGenerate api sampleToken config prompt genConfig onToken).Every (Keeps Call.ofConnection) := by
  refine .bind (keeps_get rfl _) fun null => ?_
  split
  · trivial
  split
  · trivial
  split
  · trivial
  refine .bind (.bind (keeps_onCtx rfl _ _) fun _ => .bind (keeps_prefill ..) fun filled => ?_) fun _ =>
    trivial
  split
  · trivial
  · exact .bind (keeps_onCtx rfl _ _) fun _ => .bind (keeps_onModel _) fun _ =>
      .bind (keeps_sample ..) fun cur => keeps_decodeLoop _ _ _ callback _ _ _ _ _

theorem keeps_generate (config : EngineConfig) (tokenizer : Tokenizer) (prompt : Bytes)
    (genConfig : GenerationConfig) :
    (generate api sampleToken config tokenizer prompt genConfig : Calls M C _).Every (Keeps Call.ofConnection) := by
  refine .bind (keeps_get rfl _) fun ready => ?_
  split
  · trivial
  refine .bind (keeps_generating true) fun _ => .bind ?_ fun promptTokens => .bind ?_ fun tokens => ?_
  · refine .bind keeps_vocabSize fun size => ?_
    split
    · exact keeps_tokenize ..
    · trivial
  · refine .bind keeps_vocabSize fun size => ?_
    split
    · exact keeps_backendGenerate config _ _ fun _ => trivial
    · refine .bind (.bind keeps_vocabSize fun size => ?_) fun _ => trivial
      split
      · exact .bind (keeps_tokenize ..) fun _ => trivial
      · trivial
  · split
    · trivial
    · refine .bind (keeps_generating false) fun _ => .bind (.bind keeps_vocabSize fun size => ?_) fun _ =>
        trivial
      split
      · exact keeps_detokenize _
      · trivial

theorem keeps_unloadCtx : (unloadCtx : Calls M C Unit).Every (Keeps Call.ofShutdown) := by
  refine .bind (keeps_get rfl _) fun null => ?_
  split
  · trivial
  refine .bind ⟨⟨rfl, fun _ h => h, fun noFree => ?_⟩, fun _ => trivial⟩ fun _ => ?_
  · cases noFree
  · exact keeps_set rfl (fun _ h => h) fun _ h => ⟨h.model, rfl⟩

theorem keeps_unloadModel : (unloadModel : Calls M C Unit).Every (Keeps Call.ofShutdown) := by
  refine .bind (keeps_get rfl _) fun null => ?_
  split
  · trivial
  refine .bind ⟨⟨rfl, fun _ h => h, fun noFree => ?_⟩, fun _ => trivial⟩ fun _ => ?_
  · cases noFree
  · exact keeps_set rfl (fun _ h => h) fun _ h => ⟨rfl, h.ctx⟩

theorem keeps_shutdown : (shutdown : Calls M C Unit).Every (Keeps Call.ofShutdown) := by
  refine .bind (.bind (keeps_get rfl _) fun running => ?_) fun _ => .bind (keeps_get rfl _) fun running => ?_
  · split
    · trivial
    · exact keeps_set rfl (fun _ h => h) fun _ h => ⟨h.model, h.ctx⟩
  split
  · trivial
  refine .bind (keeps_set rfl (fun _ h => h) fun _ h => ⟨h.model, h.ctx⟩) fun _ =>
    .bind (keeps_set rfl (fun _ _ => rfl) fun _ h => ⟨h.model, h.ctx⟩) fun _ =>
    .bind (keeps_get rfl _) fun loaded => ?_
  split
  · trivial
  · exact .bind keeps_unloadCtx fun _ => .bind keeps_unloadModel fun _ =>
      keeps_set rfl (fun _ h => h) fun _ h => ⟨h.model, h.ctx⟩

/-- The frees of the shutdown come after `ready_` is false. -/
def ClosesFirst (p : Calls M C A) : Prop :=
  p.Until (fun call _ => call.isFree = false) fun _ effect => ∀ s, (effect s).ready = false

theorem shutdown_closesFirst : (shutdown : Calls M C Unit).ClosesFirst := by
  refine .bind (.bind (.inr ⟨rfl, fun _ => trivial⟩) fun running => ?_) fun _ =>
    .bind (.inr ⟨rfl, fun _ => trivial⟩) fun running => ?_
  · split
    · trivial
    · exact .inr ⟨rfl, fun _ => trivial⟩
  · split
    · trivial
    · exact .inr ⟨rfl, fun _ => .inl fun _ => rfl⟩

end Calls

/-! ## No use after a free -/

section Safety

variable {M C L ι : Type} {api : LlamaCpp M C L} {sampleToken : Sampler L} {e : InferenceEngine M C}
  {requests : ι → Bytes × GenerationConfig} {p : Serving M C ι}

/-- What is true of a connection once an object has been freed. -/
def Settled (api : LlamaCpp M C L) (sampleToken : Sampler L) (e : InferenceEngine M C)
    (requests : ι → Bytes × GenerationConfig) (p : Serving M C ι) (i : ι) : Prop :=
  p.threads (some i) = connections api sampleToken e requests (some i) ∨ CallFree (p.threads (some i))

/-- Until the first free nothing is freed; from then on no generation begins and none makes a call. -/
structure Orderly (api : LlamaCpp M C L) (sampleToken : Sampler L) (e : InferenceEngine M C)
    (requests : ι → Bytes × GenerationConfig) (p : Serving M C ι) : Prop where
  main : (p.threads none).Every (Keeps Call.ofShutdown)
  connections : ∀ i, (p.threads (some i)).Every (Keeps Call.ofConnection)
  closing : Calls.ClosesFirst (p.threads none) ∨ p.shared.ready = false
  safe : p.shared.Whole ∨ p.shared.ready = false ∧ ∀ i, Settled api sampleToken e requests p i

theorem orderly_serving (e : InferenceEngine M C) (draws : Nat) (requests : ι → Bytes × GenerationConfig) :
    Orderly api sampleToken e requests (serving api sampleToken e draws requests) where
  main := .bind Calls.keeps_shutdown fun _ => trivial
  connections _ := Calls.keeps_generate ..
  closing := .inl (.bind Calls.shutdown_closesFirst fun _ => trivial)
  safe := by
    have whole : ∀ {α : Type} (a : Option α), (Ptr.ofOption a).isFreed = false := by
      intro α a
      cases a <;> rfl
    exact .inl ⟨whole _, whole _⟩

/-- A connection that begins when `ready_` is false makes no call. -/
theorem begun_callFree {i : ι} {call : Call} {effect : Shared M C → Shared M C}
    {next : Shared M C → Calls M C (Except StdException Bytes)}
    (begins : Prog.act call effect next = connections api sampleToken e requests (some i))
    {s : Shared M C} (closed : s.ready = false) : call = .own ∧ CallFree (next s) := by
  rw [connections, Calls.generate] at begins
  cases begins
  refine ⟨rfl, ?_⟩
  dsimp only [Prog.bind]
  rw [closed]
  trivial

/-- What a connection is settled on depends on its program only. -/
theorem Settled.of_eq {p' : Serving M C ι} {i : ι} (h : Settled api sampleToken e requests p i)
    (same : p'.threads (some i) = p.threads (some i)) : Settled api sampleToken e requests p' i := by
  rw [Settled, same]
  exact h

theorem Settled.step {i : ι} (h : Settled api sampleToken e requests p i) (closed : p.shared.ready = false)
    {call : Call} {effect : Shared M C → Shared M C}
    {next : Shared M C → Calls M C (Except StdException Bytes)}
    (here : p.threads (some i) = .act call effect next) :
    (call ≠ .model ∧ call.isCtx = false) ∧ CallFree (next p.shared) := by
  rcases h with start | callFree
  · obtain ⟨own, rest⟩ := begun_callFree (here.symm.trans start) closed
    exact ⟨⟨by rw [own]; decide, by rw [own]; rfl⟩, rest⟩
  · rw [CallFree, here] at callFree
    exact ⟨callFree.1, callFree.2 p.shared⟩

variable [DecidableEq ι]

/-- A step of the main thread. -/
theorem Orderly.main_step (h : Orderly api sampleToken e requests p)
    (drained : Drained api sampleToken e requests p none) {call : Call}
    {effect : Shared M C → Shared M C} {next : Shared M C → Calls M C (Except StdException Bytes)}
    (here : p.threads none = .act call effect next) :
    Orderly api sampleToken e requests (p.step Prog.move none) := by
  have main := h.main
  have closing := h.closing
  rw [here] at main closing
  have others : ∀ i, (p.step Prog.move none).threads (some i) = p.threads (some i) :=
    fun i => Prog.step_other here (by simp)
  refine ⟨?_, ?_, ?_, ?_⟩
  · rw [Prog.step_self here]
    exact main.2 _
  · intro i
    rw [others]
    exact h.connections i
  · rw [Prog.step_self here, Prog.step_shared here]
    rcases closing with (sets | ⟨_, later⟩) | closed
    · exact .inr (sets _)
    · exact .inl (later _)
    · exact .inr (main.1.ready _ closed)
  · rw [Prog.step_shared here]
    cases free : call.isFree with
    | false =>
      rcases h.safe with whole | ⟨closed, all⟩
      · exact .inl (main.1.whole free _ whole)
      · exact .inr ⟨main.1.ready _ closed, fun i => (all i).of_eq (others i)⟩
    | true =>
      have all : ∀ i, Settled api sampleToken e requests p i :=
        drained (by rw [here]; exact free)
      refine .inr ⟨?_, fun i => (all i).of_eq (others i)⟩
      rcases closing with (sets | ⟨noFree, _⟩) | closed
      · exact sets _
      · rw [free] at noFree
        cases noFree
      · exact main.1.ready _ closed

/-- A step of a connection, which frees nothing. -/
theorem Orderly.connection_step (h : Orderly api sampleToken e requests p) {i : ι} {call : Call}
    {effect : Shared M C → Shared M C} {next : Shared M C → Calls M C (Except StdException Bytes)}
    (here : p.threads (some i) = .act call effect next) :
    Orderly api sampleToken e requests (p.step Prog.move (some i)) := by
  have keeps := h.connections i
  rw [here] at keeps
  have main : (p.step Prog.move (some i)).threads none = p.threads none :=
    Prog.step_other here (by simp)
  have noFree : call.isFree = false := by simpa [Call.ofConnection] using keeps.1.allowed
  refine ⟨?_, ?_, ?_, ?_⟩
  · rw [main]
    exact h.main
  · intro j
    by_cases same : j = i
    · rw [same, Prog.step_self here]
      exact keeps.2 _
    · rw [Prog.step_other here (by simpa using same)]
      exact h.connections j
  · rw [main, Prog.step_shared here]
    exact h.closing.imp_right (keeps.1.ready _)
  · rw [Prog.step_shared here]
    rcases h.safe with whole | ⟨closed, all⟩
    · exact .inl (keeps.1.whole noFree _ whole)
    · refine .inr ⟨keeps.1.ready _ closed, fun j => ?_⟩
      by_cases same : j = i
      · rw [Settled, same, Prog.step_self here]
        exact .inr ((all i).step closed here).2
      · exact (all j).of_eq (Prog.step_other here (by simpa using same))

theorem Orderly.step (h : Orderly api sampleToken e requests p) (r : Option ι)
    (drained : Drained api sampleToken e requests p r) :
    Orderly api sampleToken e requests (p.step Prog.move r) := by
  cases here : p.threads r with
  | done a => rwa [Prog.step_halted (by rw [here]; rfl)]
  | stuck => rwa [Prog.step_halted (by rw [here]; rfl)]
  | act call effect next =>
    cases r with
    | none => exact h.main_step drained here
    | some i => exact h.connection_step here

omit [DecidableEq ι] in
/-- Where nothing is freed, or no call is left, no freed object is used. -/
theorem Orderly.usesFreed (h : Orderly api sampleToken e requests p) (r : Option ι) :
    ModelRuntime.usesFreed p r = false := by
  rw [ModelRuntime.usesFreed]
  cases here : p.threads r with
  | done a => rfl
  | stuck => rfl
  | act call effect next =>
    show (call == .model && p.shared.model.isFreed || call.isCtx && p.shared.ctx.isFreed) = false
    rcases h.safe with whole | ⟨closed, all⟩
    · rw [whole.model, whole.ctx, Bool.and_false, Bool.and_false, Bool.or_false]
    have noCall : call ≠ .model ∧ call.isCtx = false := by
      cases r with
      | none =>
        have main := h.main
        rw [here] at main
        have allowed := main.1.allowed
        revert allowed
        cases call <;> simp [Call.ofShutdown, Call.isFree, Call.isCtx]
      | some i => exact ((all i).step closed here).1
    simp [noCall.1, noCall.2]

/-- **No use after a free**: in a run in which every free comes when each connection is before its test
of `ready_` or past its last llama.cpp call, no call is made on a freed object. -/
theorem shutdown_noUse (api : LlamaCpp M C L) (sampleToken : Sampler L) (e : InferenceEngine M C)
    (draws : Nat) (requests : ι → Bytes × GenerationConfig) (schedule : List (Option ι))
    (drained : Along (Pool.step Prog.move) (Drained api sampleToken e requests)
      (serving api sampleToken e draws requests) schedule) :
    Along (Pool.step Prog.move) (fun p r => usesFreed p r = false)
      (serving api sampleToken e draws requests) schedule :=
  along_imp (fun _ r (h : Orderly api sampleToken e requests _) _ => h.usesFreed r)
    (fun _ r h drained => h.step r drained) schedule _ (orderly_serving e draws requests) drained

end Safety

/-- A request for the text `hi`, from each of two connections. -/
def hiRequests (_ : Bool) : Bytes × GenerationConfig := (str "hi", {})

/-- One request is served, then the server shuts down, then the other request comes. -/
theorem shutdown_noUse_served :
    let schedule := List.replicate 14 (some false) ++ List.replicate 13 none ++ [some true]
    Along (Pool.step Prog.move) (fun p r => usesFreed p r = false)
      (serving sumLlama (fun _ _ _ _ _ => 0) sumEngine 0 hiRequests) schedule := by
  intro schedule
  refine shutdown_noUse sumLlama (fun _ _ _ _ _ => 0) sumEngine 0 hiRequests schedule ?_
  iterate 21 refine ⟨fun free => absurd free (by decide +kernel), ?_⟩
  refine ⟨fun _ i => ?_, ?_⟩
  · cases i with
    | false => exact .inr trivial
    | true => exact .inl rfl
  iterate 2 refine ⟨fun free => absurd free (by decide +kernel), ?_⟩
  refine ⟨fun _ i => ?_, ?_⟩
  · cases i with
    | false => exact .inr trivial
    | true => exact .inl rfl
  iterate 3 refine ⟨fun free => absurd free (by decide +kernel), ?_⟩
  trivial

/-- A generation has passed the test of `ready_`; then the main thread runs up to the free of the model,
whose pointer the generation still finds set, and `llama_n_vocab` is called on the freed model. -/
theorem generation_usesFreed :
    ¬ ∀ schedule : List (Option Bool), Along (Pool.step Prog.move) (fun p r => usesFreed p r = false)
      (serving sumLlama (fun _ _ _ _ _ => 0) sumEngine 0 hiRequests) schedule := by
  intro all
  have run := all (List.replicate 2 (some false) ++ List.replicate 11 none ++ List.replicate 2 (some false))
  revert run
  decide +kernel

end ModelRuntime
