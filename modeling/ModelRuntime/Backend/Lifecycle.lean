import ModelRuntime.Backend.Generate
import ModelRuntime.Lib.Heap
import ModelRuntime.Lib.Run

/-!
# Loading and unloading

`load_model` and `unload` on the objects of llama.cpp: a model and a context have an identity each, and
`model_` and `ctx_` hold identities. A load made on a backend without a model is atomic (`Settled.load`);
one made over a model loses it whatever its outcome is (`Settled.reload_leaks`).
-/

namespace ModelRuntime
open Cpp Lib

/-- Whether `llama_model_load_from_file` and `llama_init_from_model` succeed. -/
structure LoadOutcome where
  model : Bool
  context : Bool
  deriving DecidableEq

/-- A backend and the objects it has created: models by their path, contexts by their model. -/
structure LlamaProcess where
  backend : LlamaBackend Nat Nat
  models : Heap Bytes := {}
  contexts : Heap Nat := {}

inductive LlamaCall where
  | loadModel (modelPath : Bytes) (outcome : LoadOutcome)
  | unload

namespace LlamaProcess

/-- The constructor. -/
def init (config : EngineConfig) : LlamaProcess where
  backend := { config, seed := config.seed }

def loadModel (p : LlamaProcess) (modelPath : Bytes) (outcome : LoadOutcome) : Bool × LlamaProcess :=
  if modelPath = [] then (false, p)
  else if !outcome.model then (false, { p with backend := { p.backend with model := none } })
  else
    let (model, models) := p.models.create modelPath
    if !outcome.context then
      (false, { p with
        backend := { p.backend with model := none, ctx := none }
        models := models.free model })
    else
      let (ctx, contexts) := p.contexts.create model
      (true, {
        backend := { p.backend with model := some model, ctx := some ctx, modelLoaded := true }
        models
        contexts })

def unload (p : LlamaProcess) : LlamaProcess :=
  if !p.backend.modelLoaded then p
  else
    { backend := { p.backend with model := none, ctx := none, modelLoaded := false }
      models := p.models.freeAt p.backend.model
      contexts := p.contexts.freeAt p.backend.ctx }

/-- What the call returns, `unload` nothing. -/
def call (p : LlamaProcess) : LlamaCall → Option Bool × LlamaProcess
  | .loadModel modelPath outcome =>
    let (loaded, p) := p.loadModel modelPath outcome
    (some loaded, p)
  | .unload => (none, p.unload)

def step (p : LlamaProcess) (c : LlamaCall) : LlamaProcess := (p.call c).2

/-- The live objects are the ones the pointers point to, both or none of them. -/
structure Owns (p : LlamaProcess) : Prop where
  models : p.models.ids = p.backend.model.toList
  contexts : p.contexts.ids = p.backend.ctx.toList
  created : ∀ object ∈ p.contexts.live, p.backend.model = some object.2
  loaded : p.backend.modelLoaded = true → p.backend.model.isSome ∧ p.backend.ctx.isSome
  unloaded : p.backend.modelLoaded = false → p.backend.model = none ∧ p.backend.ctx = none

/-- After the call the objects are owned, and a load that failed has changed nothing. -/
structure Atomic (p : LlamaProcess) (c : LlamaCall) : Prop where
  owns : (p.step c).Owns
  failed : (p.call c).1 = some false → (p.step c).backend = p.backend

/-- A load that gets as far as llama.cpp finds no model loaded. -/
def OnUnloaded (p : LlamaProcess) : LlamaCall → Prop
  | .loadModel modelPath _ => modelPath ≠ [] → p.backend.modelLoaded = false
  | .unload => True

/-- Identities are handed out once, and the pointers point to live objects. -/
structure Points (p : LlamaProcess) : Prop where
  freshModels : p.models.Fresh
  freshContexts : p.contexts.Fresh
  model : ∀ id, p.backend.model = some id → id ∈ p.models.ids
  ctx : ∀ id, p.backend.ctx = some id → id ∈ p.contexts.ids

structure Settled (p : LlamaProcess) : Prop extends Owns p, Points p

/-- Some model is live that the backend does not point to. -/
def Leaks (p : LlamaProcess) : Prop := ∃ id ∈ p.models.ids, p.backend.model ≠ some id

variable {p : LlamaProcess} {modelPath : Bytes} {outcome : LoadOutcome}

/-! ## The outcomes of a load -/

theorem loadModel_empty : p.loadModel [] outcome = (false, p) := rfl

theorem loadModel_noModel (path : modelPath ≠ []) (fails : outcome.model = false) :
    p.loadModel modelPath outcome = (false, { p with backend := { p.backend with model := none } }) := by
  rw [loadModel, if_neg path, fails]
  rfl

theorem loadModel_noContext (path : modelPath ≠ []) (found : outcome.model = true)
    (fails : outcome.context = false) :
    p.loadModel modelPath outcome = (false, { p with
      backend := { p.backend with model := none, ctx := none }
      models := (p.models.create modelPath).2.free p.models.next }) := by
  rw [loadModel, if_neg path, found, fails]
  rfl

theorem loadModel_loaded (path : modelPath ≠ []) (found : outcome.model = true)
    (made : outcome.context = true) :
    p.loadModel modelPath outcome = (true, {
      backend := { p.backend with model := some p.models.next, ctx := some p.contexts.next, modelLoaded := true }
      models := (p.models.create modelPath).2
      contexts := (p.contexts.create p.models.next).2 }) := by
  rw [loadModel, if_neg path, found, made]
  rfl

/-- The four ways `load_model` goes. -/
theorem loadModel_cases (modelPath : Bytes) (outcome : LoadOutcome) :
    modelPath = [] ∨ modelPath ≠ [] ∧ (outcome.model = false ∨ outcome.model = true ∧
      (outcome.context = false ∨ outcome.context = true)) := by
  by_cases path : modelPath = []
  · exact .inl path
  · refine .inr ⟨path, ?_⟩
    rcases outcome with ⟨_ | _, _ | _⟩
    · exact .inl rfl
    · exact .inl rfl
    · exact .inr ⟨rfl, .inl rfl⟩
    · exact .inr ⟨rfl, .inr rfl⟩

theorem loadModel_fst (path : modelPath ≠ []) :
    (p.loadModel modelPath outcome).1 = true ↔ outcome = ⟨true, true⟩ := by
  rw [loadModel, if_neg path]
  rcases outcome with ⟨_ | _, _ | _⟩
  · exact ⟨nofun, nofun⟩
  · exact ⟨nofun, nofun⟩
  · exact ⟨nofun, nofun⟩
  · exact ⟨fun _ => rfl, fun _ => rfl⟩

theorem loadModel_fails (fails : outcome ≠ ⟨true, true⟩) : (p.loadModel modelPath outcome).1 = false := by
  by_cases path : modelPath = []
  · rw [path, loadModel_empty]
  · rw [← Bool.not_eq_true, loadModel_fst path]
    exact fails

theorem unload_modelLoaded (p : LlamaProcess) : p.unload.backend.modelLoaded = false := by
  rw [unload]
  split
  · rename_i notLoaded
    simpa using notLoaded
  · rfl

/-! ## Every run -/

theorem Points.init (config : EngineConfig) : (init config).Points :=
  ⟨.empty, .empty, fun _ => nofun, fun _ => nofun⟩

theorem Points.loadModel (points : p.Points) : (p.loadModel modelPath outcome).2.Points := by
  rcases loadModel_cases modelPath outcome with rfl | ⟨path, fails | ⟨found, fails | made⟩⟩
  · exact points
  · rw [loadModel_noModel path fails]
    exact ⟨points.freshModels, points.freshContexts, fun _ => nofun, points.ctx⟩
  · rw [loadModel_noContext path found fails]
    exact ⟨(points.freshModels.create modelPath).free _, points.freshContexts, fun _ => nofun,
      fun _ => nofun⟩
  · rw [loadModel_loaded path found made]
    refine ⟨points.freshModels.create modelPath, points.freshContexts.create _, ?_, ?_⟩
    · intro id new
      cases new
      exact List.mem_cons_self
    · intro id new
      cases new
      exact List.mem_cons_self

theorem Points.unload (points : p.Points) : p.unload.Points := by
  rw [LlamaProcess.unload]
  split
  · exact points
  · exact ⟨points.freshModels.freeAt _, points.freshContexts.freeAt _, fun _ => nofun,
      fun _ => nofun⟩

/-- **No pointer dangles**, and so nothing is freed twice, whatever is called. -/
theorem run_points (config : EngineConfig) (calls : List LlamaCall) :
    (calls.foldl step (init config)).Points := by
  refine List.foldlRecOn calls step (motive := Points) (.init config) fun p points c _ => ?_
  cases c with
  | loadModel modelPath outcome => exact points.loadModel
  | unload => exact points.unload

/-! ## A load on a backend without a model -/

theorem Settled.init (config : EngineConfig) : (init config).Settled where
  toPoints := .init config
  models := rfl
  contexts := rfl
  created := nofun
  loaded := nofun
  unloaded _ := ⟨rfl, rfl⟩

theorem Settled.unload (settled : p.Settled) : p.unload.Settled := by
  have points := settled.toPoints.unload
  rw [LlamaProcess.unload] at points ⊢
  split
  · exact settled
  · rename_i loaded
    rw [if_neg loaded] at points
    have noContexts := Heap.freeAt_owner settled.contexts
    have noContext : (p.contexts.freeAt p.backend.ctx).live = [] := List.map_eq_nil_iff.1 noContexts
    refine ⟨⟨Heap.freeAt_owner settled.models, noContexts, ?_, nofun, fun _ => ⟨rfl, rfl⟩⟩, points⟩
    intro object live
    dsimp only at live
    rw [noContext] at live
    cases live

/-- A load made on a backend without a model is atomic. -/
theorem Settled.load (settled : p.Settled) (free : modelPath ≠ [] → p.backend.modelLoaded = false) :
    (p.loadModel modelPath outcome).2.Settled ∧
      ((p.loadModel modelPath outcome).1 = false → (p.loadModel modelPath outcome).2.backend = p.backend) := by
  have points : (p.loadModel modelPath outcome).2.Points := settled.toPoints.loadModel
  rcases loadModel_cases modelPath outcome with rfl | ⟨path, rest⟩
  · exact ⟨settled, fun _ => rfl⟩
  · obtain ⟨noModel, noCtx⟩ := settled.unloaded (free path)
    rcases rest with fails | ⟨found, fails | made⟩
    · rw [loadModel_noModel path fails]
      have same : { p.backend with model := none } = p.backend := by rw [← noModel]
      rw [same]
      exact ⟨settled, fun _ => rfl⟩
    · rw [loadModel_noContext path found fails] at points ⊢
      have same : { p.backend with model := none, ctx := none } = p.backend :=
        calc { p.backend with model := none, ctx := none }
            = { p.backend with model := p.backend.model, ctx := p.backend.ctx } := by rw [noModel, noCtx]
          _ = p.backend := rfl
      rw [same] at points ⊢
      have live := settled.freshModels.free_create modelPath
      refine ⟨⟨⟨?_, settled.contexts, settled.created, settled.loaded, settled.unloaded⟩, points⟩, fun _ => rfl⟩
      show ((p.models.create modelPath).2.free p.models.next).live.map Prod.fst = p.backend.model.toList
      rw [live]
      exact settled.models
    · rw [loadModel_loaded path found made] at points ⊢
      have noModels : p.models.ids = [] := by rw [settled.models, noModel, Option.toList_none]
      have noContexts : p.contexts.ids = [] := by rw [settled.contexts, noCtx, Option.toList_none]
      refine ⟨⟨⟨?_, ?_, ?_, fun _ => ⟨rfl, rfl⟩, nofun⟩, points⟩, nofun⟩
      · rw [Heap.create_ids, noModels]
        rfl
      · rw [Heap.create_ids, noContexts]
        rfl
      · intro object live
        rw [Heap.create_live, List.map_eq_nil_iff.1 noContexts, List.mem_singleton] at live
        rw [live]

/-! ## A load over a model -/

theorem Owns.noLeak (owns : p.Owns) : ¬ p.Leaks := by
  rintro ⟨id, live, lost⟩
  rw [owns.models, Option.mem_toList] at live
  exact lost live

/-- A load lets go of every model that was live before it, without freeing it. -/
theorem Points.load_loses (points : p.Points) (path : modelPath ≠ []) {id : Nat} (live : id ∈ p.models.ids) :
    id ∈ (p.loadModel modelPath outcome).2.models.ids ∧
      (p.loadModel modelPath outcome).2.backend.model ≠ some id := by
  have old : p.models.next ≠ id := (points.freshModels id live).ne'
  rcases loadModel_cases modelPath outcome with empty | ⟨_, fails | ⟨found, fails | made⟩⟩
  · exact absurd empty path
  · rw [loadModel_noModel path fails]
    exact ⟨live, nofun⟩
  · rw [loadModel_noContext path found fails]
    exact ⟨Heap.mem_free.2 ⟨List.mem_cons_of_mem _ live, old.symm⟩, nofun⟩
  · rw [loadModel_loaded path found made]
    exact ⟨List.mem_cons_of_mem _ live, fun same => old (Option.some.inj same)⟩

/-- A load made over a model leaks it, whether it succeeds or fails. -/
theorem Settled.reload_leaks (settled : p.Settled) (loaded : p.backend.modelLoaded = true)
    (path : modelPath ≠ []) : (p.loadModel modelPath outcome).2.Leaks := by
  obtain ⟨id, hasModel⟩ := Option.isSome_iff_exists.1 (settled.loaded loaded).1
  exact ⟨id, settled.toPoints.load_loses path (settled.model id hasModel)⟩

/-- What has leaked is never freed. -/
theorem Leaks.load (leaks : p.Leaks) (points : p.Points) : (p.loadModel modelPath outcome).2.Leaks := by
  obtain ⟨id, live, lost⟩ := leaks
  by_cases path : modelPath = []
  · rw [path]
    exact ⟨id, live, lost⟩
  · exact ⟨id, points.load_loses path live⟩

theorem Leaks.unload (leaks : p.Leaks) : p.unload.Leaks := by
  obtain ⟨id, live, lost⟩ := leaks
  rw [LlamaProcess.unload]
  split
  · exact ⟨id, live, lost⟩
  · exact ⟨id, Heap.mem_freeAt.2 ⟨live, lost⟩, nofun⟩

/-! ## Exactly the loads on a backend without a model are atomic -/

theorem Settled.step (settled : p.Settled) {c : LlamaCall} (free : p.OnUnloaded c) : (p.step c).Settled := by
  cases c with
  | loadModel modelPath outcome => exact (settled.load free).1
  | unload => exact settled.unload

theorem Settled.atomic_call (settled : p.Settled) (c : LlamaCall) : p.Atomic c ↔ p.OnUnloaded c := by
  constructor
  · intro atomic
    cases c with
    | unload => trivial
    | loadModel modelPath outcome =>
      intro path
      by_contra loaded
      rw [Bool.not_eq_false] at loaded
      exact atomic.owns.noLeak (settled.reload_leaks loaded path)
  · intro free
    refine ⟨(settled.step free).toOwns, ?_⟩
    cases c with
    | unload => exact nofun
    | loadModel modelPath outcome =>
      intro failed
      exact (settled.load free).2 (Option.some.inj failed)

/-- **Loading is atomic** and leaks nothing in exactly the runs that never load over a model. -/
theorem atomic_iff (config : EngineConfig) (calls : List LlamaCall) :
    Along step Atomic (init config) calls ↔ Along step OnUnloaded (init config) calls := by
  have same : ∀ p c, Settled p → (Atomic p c ↔ OnUnloaded p c) := fun _ c settled => settled.atomic_call c
  have keep : ∀ p c, Settled p → OnUnloaded p c → Settled (step p c) := fun _ _ settled => settled.step
  exact along_iff same keep calls _ (.init config)

/-- A second load that fails to find its model has let go of the first. -/
theorem load_notAtomic :
    ¬ ∀ (config : EngineConfig) (calls : List LlamaCall), Along step Atomic (init config) calls := by
  intro all
  obtain ⟨_, second, _⟩ := all {} [.loadModel (str "a") ⟨true, true⟩, .loadModel (str "b") ⟨false, true⟩]
  have kept := congrArg LlamaBackend.model (second.failed (by decide +kernel))
  revert kept
  decide +kernel

end LlamaProcess

end ModelRuntime
