import ModelRuntime.Backend.Lifecycle
import ModelRuntime.Engine.Inference
import ModelRuntime.Gpu.Manager
import ModelRuntime.Tokenizer.Load

/-!
# Starting and stopping the engine

`start` takes a GPU, a model, a vocabulary and a thread one after the other, `stop` gives them back behind
`running_`. What the world makes of a start is given to it: the GPUs that are found, how loading goes, the
vocabulary file. `Steady` is kept by the starts that are made on a stopped engine and that, past the first
thing taken, do not fail (`Sound`).
-/

namespace ModelRuntime
open Cpp Lib

/-- The GPUs, the outcome of `load_model` and the vocabulary file, `none` where it cannot be opened. -/
structure StartOutcome where
  devices : Option (List Int) := none
  load : LoadOutcome := ⟨true, true⟩
  vocab : Option Bytes := none

/-- How a `start` ends; giving a joinable thread another one terminates the program. -/
inductive Started where
  | returned (started : Bool)
  | threw (x : StdException)
  | terminated
  deriving DecidableEq

inductive LifeCall where
  | start (outcome : StartOutcome)
  | stop

/-- The engine with the objects of its backend, its thread and the GPU manager. -/
structure EngineProcess where
  config : EngineConfig
  llama : LlamaProcess
  tokenizer : Tokenizer := {}
  gpu : GpuManager := {}
  ready : Bool := false
  running : Bool := false
  /-- `worker_.joinable()`. -/
  joinable : Bool := false

namespace EngineProcess

variable (withCuda : Bool) (s : EngineProcess)

/-- The constructor. -/
def init (config : EngineConfig) : EngineProcess where
  config
  llama := .init config

def CudaMode : Prop := s.config.mode = str "cuda"

instance : Decidable s.CudaMode := inferInstanceAs (Decidable (_ = _))

/-- `start`, up to the choice of a device. -/
def acquireGpu (devices : Option (List Int)) : Bool × EngineProcess :=
  if s.CudaMode then
    match s.gpu.initializeGpu withCuda devices with
    | (false, gpu) => (false, { s with gpu })
    | (true, gpu) =>
      if s.config.gpuDevice < 0 then
        let gpuDevice := gpu.selectBestDevice withCuda
        (!decide (gpuDevice < 0), { s with gpu, config := { s.config with gpuDevice } })
      else (true, { s with gpu })
  else (true, s)

/-- `start`, from the model to the vocabulary. -/
def acquireModel (outcome : StartOutcome) : Except StdException Bool × EngineProcess :=
  if s.config.modelPath = [] then (.ok true, s)
  else
    match s.llama.loadModel s.config.modelPath outcome.load with
    | (false, llama) => (.ok false, { s with llama })
    | (true, llama) =>
      let (read, tokenizer) := s.tokenizer.load outcome.vocab
      (read.map fun _ => true, { s with llama, tokenizer })

/-- `start`, from `ready_ = true` on. -/
def launch : Started × EngineProcess :=
  let s := { s with ready := true, running := true }
  if s.joinable then (.terminated, s) else (.returned true, { s with joinable := true })

def start (outcome : StartOutcome) : Started × EngineProcess :=
  match s.acquireGpu withCuda outcome.devices with
  | (false, s) => (.returned false, s)
  | (true, s) =>
    match s.acquireModel outcome with
    | (.error x, s) => (.threw x, s)
    | (.ok false, s) => (.returned false, s)
    | (.ok true, s) => s.launch

def stop : EngineProcess :=
  if !s.running then s
  else
    { s with
      running := false
      ready := false
      joinable := false
      llama := s.llama.unload
      gpu := if s.CudaMode then s.gpu.shutdown withCuda else s.gpu }

/-- How a `start` ends, and the engine after the call. -/
def call : LifeCall → Option Started × EngineProcess
  | .start outcome =>
    let (started, s) := s.start withCuda outcome
    (some started, s)
  | .stop => (none, s.stop withCuda)

def step (c : LifeCall) : EngineProcess := (s.call withCuda c).2

/-- The engine as the generations see it. -/
def engine : InferenceEngine Nat Nat where
  config := s.config
  backend := s.llama.backend
  tokenizer := s.tokenizer
  ready := s.ready

structure HoldsNothing : Prop where
  pointers : s.llama.backend.model = none ∧ s.llama.backend.ctx = none
  models : s.llama.models.ids = []
  contexts : s.llama.contexts.ids = []
  gpu : s.CudaMode → s.gpu.initialized = false

/-- The call gives no joinable thread another one and leaves the engine ready when it runs and empty-handed
when it does not. -/
structure Keeps (c : LifeCall) : Prop where
  assigns : (s.call withCuda c).1 ≠ some .terminated
  ready : (s.step withCuda c).ready = (s.step withCuda c).running
  stopped : (s.step withCuda c).running = false → (s.step withCuda c).HoldsNothing

/-- A start finds a device: in a build with CUDA when there is one, in another when one is configured. -/
def FindsDevice (outcome : StartOutcome) : Prop :=
  s.CudaMode → if withCuda then GpuManager.Found outcome.devices else 0 ≤ s.config.gpuDevice

/-- The engine is stopped; and where the start gets as far as a model, it loads if a GPU has been
initialised for it, and if it loads the vocabulary beside it can be read. -/
structure SoundStart (outcome : StartOutcome) : Prop where
  stopped : s.running = false
  loads : withCuda = true → s.CudaMode → s.FindsDevice withCuda outcome → s.config.modelPath ≠ [] →
    outcome.load = ⟨true, true⟩
  vocab : s.FindsDevice withCuda outcome → s.config.modelPath ≠ [] → outcome.load = ⟨true, true⟩ →
    ∀ x, (s.tokenizer.load outcome.vocab).1 ≠ .error x

def Sound : LifeCall → Prop
  | .start outcome => s.SoundStart withCuda outcome
  | .stop => True

structure Steady : Prop where
  llama : s.llama.Settled
  ready : s.ready = s.running
  joinable : s.joinable = s.running
  gpu : s.CudaMode → s.gpu.initialized = (withCuda && s.running)
  device : s.running = true → s.CudaMode → 0 ≤ s.config.gpuDevice
  loaded : s.running = true → s.config.modelPath ≠ [] → s.llama.backend.modelLoaded = true
  unloaded : s.running = false → s.llama.backend.modelLoaded = false

/-- A running engine with a model that nothing points to. -/
structure Leaky : Prop where
  running : s.running = true
  joinable : s.joinable = true
  points : s.llama.Points
  leaks : s.llama.Leaks

variable {withCuda s} {s' : EngineProcess} {outcome : StartOutcome}

/-! ## The GPU -/

variable (withCuda s) in
theorem acquireGpu_shape (devices : Option (List Int)) : ∃ gpu gpuDevice,
    (s.acquireGpu withCuda devices).2 = { s with gpu, config := { s.config with gpuDevice } } := by
  rw [acquireGpu]
  split
  · split
    · exact ⟨_, s.config.gpuDevice, rfl⟩
    · split
      · exact ⟨_, _, rfl⟩
      · exact ⟨_, s.config.gpuDevice, rfl⟩
  · exact ⟨s.gpu, s.config.gpuDevice, rfl⟩

/-- A running engine has its GPU. -/
theorem Steady.acquireGpu (steady : s.Steady withCuda) (running : s.running = true)
    (devices : Option (List Int)) : s.acquireGpu withCuda devices = (true, s) := by
  rw [EngineProcess.acquireGpu]
  by_cases cuda : s.CudaMode
  · have device := steady.device running cuda
    have initialized := steady.gpu cuda
    have again : s.gpu.initializeGpu withCuda devices = (true, s.gpu) := by
      cases withCuda with
      | false => exact GpuManager.initializeGpu_stub
      | true =>
        rw [running] at initialized
        exact GpuManager.initializeGpu_again initialized
    rw [if_pos cuda, again]
    dsimp only
    rw [if_neg (by omega)]
  · rw [if_neg cuda]

/-- What a start on a stopped engine makes of the GPUs. -/
structure Acquired (withCuda : Bool) (s : EngineProcess) (outcome : StartOutcome) (ok : Bool)
    (s' : EngineProcess) : Prop where
  finds : ok = true ↔ s.FindsDevice withCuda outcome
  initialized : s.CudaMode → s'.gpu.initialized = (withCuda && ok)
  device : ok = true → s.CudaMode → 0 ≤ s'.config.gpuDevice
  shape : ∃ gpu gpuDevice, s' = { s with gpu, config := { s.config with gpuDevice } }

theorem findsDevice_iff (cuda : s.CudaMode) : s.FindsDevice withCuda outcome ↔
    if withCuda then GpuManager.Found outcome.devices else 0 ≤ s.config.gpuDevice :=
  ⟨fun finds => finds cuda, fun device _ => device⟩

theorem acquireGpu_cpu (cpu : ¬ s.CudaMode) (outcome : StartOutcome) :
    Acquired withCuda s outcome (s.acquireGpu withCuda outcome.devices).1
      (s.acquireGpu withCuda outcome.devices).2 := by
  refine ⟨?_, fun cuda => absurd cuda cpu, fun _ cuda => absurd cuda cpu, acquireGpu_shape ..⟩
  unfold acquireGpu
  rw [if_neg cpu]
  exact iff_of_true rfl fun cuda => absurd cuda cpu

/-- A build without CUDA selects no device. -/
theorem acquireGpu_withoutCuda (cuda : s.CudaMode) (idle : s.gpu.initialized = false)
    (outcome : StartOutcome) :
    Acquired false s outcome (s.acquireGpu false outcome.devices).1
      (s.acquireGpu false outcome.devices).2 := by
  suffices h : ((s.acquireGpu false outcome.devices).1 = true ↔ 0 ≤ s.config.gpuDevice) ∧
      (s.acquireGpu false outcome.devices).2.gpu.initialized = false ∧
      ((s.acquireGpu false outcome.devices).1 = true →
        0 ≤ (s.acquireGpu false outcome.devices).2.config.gpuDevice) from
    ⟨h.1.trans (by rw [findsDevice_iff cuda, if_neg Bool.false_ne_true]), fun _ => h.2.1,
      fun ok _ => h.2.2 ok, acquireGpu_shape ..⟩
  unfold acquireGpu
  rw [if_pos cuda, GpuManager.initializeGpu_stub]
  dsimp only
  split
  · rename_i none
    exact ⟨iff_of_false nofun (by omega), idle, nofun⟩
  · rename_i configured
    exact ⟨iff_of_true rfl (by omega), idle, fun _ => not_lt.1 configured⟩

/-- A build with CUDA selects a device as soon as there is one. -/
theorem acquireGpu_withCuda (cuda : s.CudaMode) (idle : s.gpu.initialized = false)
    (outcome : StartOutcome) :
    Acquired true s outcome (s.acquireGpu true outcome.devices).1 (s.acquireGpu true outcome.devices).2 := by
  suffices h : ((s.acquireGpu true outcome.devices).1 = true ↔ GpuManager.Found outcome.devices) ∧
      (s.acquireGpu true outcome.devices).2.gpu.initialized = (s.acquireGpu true outcome.devices).1 ∧
      ((s.acquireGpu true outcome.devices).1 = true →
        0 ≤ (s.acquireGpu true outcome.devices).2.config.gpuDevice) from
    ⟨h.1.trans (by rw [findsDevice_iff cuda, if_pos rfl]), fun _ => h.2.1, fun ok _ => h.2.2 ok,
      acquireGpu_shape ..⟩
  obtain ⟨found, none⟩ := GpuManager.initializeGpu_first idle outcome.devices
  unfold acquireGpu
  rw [if_pos cuda]
  by_cases devices : GpuManager.Found outcome.devices
  · obtain ⟨ok, listed⟩ := found devices
    generalize s.gpu.initializeGpu true outcome.devices = made at ok listed
    obtain ⟨_, gpu⟩ := made
    cases ok
    dsimp only
    split
    · have chosen : ¬ gpu.selectBestDevice true < 0 := not_lt.2 listed.selectBestDevice
      rw [decide_eq_false chosen]
      exact ⟨iff_of_true rfl devices, listed.1, fun _ => listed.selectBestDevice⟩
    · rename_i configured
      exact ⟨iff_of_true rfl devices, listed.1, fun _ => not_lt.1 configured⟩
  · rw [none devices]
    exact ⟨iff_of_false nofun devices, idle, nofun⟩

theorem acquireGpu_stopped (idle : s.CudaMode → s.gpu.initialized = false) (outcome : StartOutcome) :
    Acquired withCuda s outcome (s.acquireGpu withCuda outcome.devices).1
      (s.acquireGpu withCuda outcome.devices).2 := by
  by_cases cuda : s.CudaMode
  · cases withCuda with
    | false => exact acquireGpu_withoutCuda cuda (idle cuda) outcome
    | true => exact acquireGpu_withCuda cuda (idle cuda) outcome
  · exact acquireGpu_cpu cuda outcome

/-! ## The outcomes of a start -/

theorem start_refused (acquired : s.acquireGpu withCuda outcome.devices = (false, s')) :
    s.start withCuda outcome = (.returned false, s') := by
  rw [start, acquired]

theorem start_stub (acquired : s.acquireGpu withCuda outcome.devices = (true, s'))
    (stub : s'.config.modelPath = []) : s.start withCuda outcome = s'.launch := by
  rw [start, acquired]
  dsimp only
  rw [acquireModel, if_pos stub]

/-- The engine with what `load_model` leaves. -/
def loaded (s : EngineProcess) (outcome : StartOutcome) : EngineProcess :=
  { s with llama := (s.llama.loadModel s.config.modelPath outcome.load).2 }

/-- The engine with what the vocabulary file leaves, too. -/
def read (s : EngineProcess) (outcome : StartOutcome) : EngineProcess :=
  { s.loaded outcome with tokenizer := (s.tokenizer.load outcome.vocab).2 }

theorem start_unloaded (acquired : s.acquireGpu withCuda outcome.devices = (true, s'))
    (path : s'.config.modelPath ≠ []) (fails : outcome.load ≠ ⟨true, true⟩) :
    s.start withCuda outcome = (.returned false, s'.loaded outcome) := by
  have notLoaded : (s'.llama.loadModel s'.config.modelPath outcome.load).1 = false := by
    rw [← Bool.not_eq_true]
    exact fun done => fails ((LlamaProcess.loadModel_fst path).1 done)
  rw [start, acquired]
  dsimp only
  rw [acquireModel, if_neg path, loaded]
  generalize s'.llama.loadModel s'.config.modelPath outcome.load = result at notLoaded
  obtain ⟨_, llama⟩ := result
  cases notLoaded
  rfl

theorem acquireModel_loaded (path : s'.config.modelPath ≠ []) (loads : outcome.load = ⟨true, true⟩) :
    s'.acquireModel outcome = ((s'.tokenizer.load outcome.vocab).1.map fun _ => true, s'.read outcome) := by
  have done : (s'.llama.loadModel s'.config.modelPath outcome.load).1 = true :=
    (LlamaProcess.loadModel_fst path).2 loads
  rw [acquireModel, if_neg path, read, loaded]
  generalize s'.llama.loadModel s'.config.modelPath outcome.load = result at done
  obtain ⟨_, llama⟩ := result
  cases done
  rfl

theorem start_threw (acquired : s.acquireGpu withCuda outcome.devices = (true, s'))
    (path : s'.config.modelPath ≠ []) (loads : outcome.load = ⟨true, true⟩) {x : StdException}
    (throws : (s'.tokenizer.load outcome.vocab).1 = .error x) :
    s.start withCuda outcome = (.threw x, s'.read outcome) := by
  rw [start, acquired]
  dsimp only
  rw [acquireModel_loaded path loads, throws]
  rfl

theorem start_loaded (acquired : s.acquireGpu withCuda outcome.devices = (true, s'))
    (path : s'.config.modelPath ≠ []) (loads : outcome.load = ⟨true, true⟩) {found : Bool}
    (reads : (s'.tokenizer.load outcome.vocab).1 = .ok found) :
    s.start withCuda outcome = (s'.read outcome).launch := by
  rw [start, acquired]
  dsimp only
  rw [acquireModel_loaded path loads, reads]
  rfl

theorem launch_joinable (joinable : s.joinable = true) : s.launch.1 = .terminated := by
  rw [launch, if_pos joinable]

theorem launch_free (free : s.joinable = false) :
    s.launch = (.returned true, { s with ready := true, running := true, joinable := true }) := by
  rw [launch]
  exact if_neg (by simp [free])

/-- The ways a start goes that has its device. -/
theorem start_cases (acquired : s.acquireGpu withCuda outcome.devices = (true, s')) :
    (s'.config.modelPath = [] ∧ s.start withCuda outcome = s'.launch) ∨
    (s'.config.modelPath ≠ [] ∧ outcome.load ≠ ⟨true, true⟩ ∧
      s.start withCuda outcome = (.returned false, s'.loaded outcome)) ∨
    (s'.config.modelPath ≠ [] ∧ outcome.load = ⟨true, true⟩ ∧
      ((∃ x, (s'.tokenizer.load outcome.vocab).1 = .error x ∧
          s.start withCuda outcome = (.threw x, s'.read outcome)) ∨
        s.start withCuda outcome = (s'.read outcome).launch)) := by
  by_cases path : s'.config.modelPath = []
  · exact .inl ⟨path, start_stub acquired path⟩
  · by_cases loads : outcome.load = ⟨true, true⟩
    · cases reads : (s'.tokenizer.load outcome.vocab).1 with
      | error x => exact .inr (.inr ⟨path, loads, .inl ⟨x, rfl, start_threw acquired path loads reads⟩⟩)
      | ok found => exact .inr (.inr ⟨path, loads, .inr (start_loaded acquired path loads reads)⟩)
    · exact .inr (.inl ⟨path, loads, start_unloaded acquired path loads⟩)

/-! ## Steady engines -/

theorem Steady.init (config : EngineConfig) : (init config).Steady withCuda where
  llama := .init config
  ready := rfl
  joinable := rfl
  gpu _ := (Bool.and_false _).symm
  device := nofun
  loaded := nofun
  unloaded _ := rfl

theorem Steady.stop (steady : s.Steady withCuda) : (s.stop withCuda).Steady withCuda := by
  rw [EngineProcess.stop]
  split
  · exact steady
  · refine ⟨steady.llama.unload, rfl, rfl, fun cuda => ?_, nofun, nofun, fun _ => ?_⟩
    · have initialized := steady.gpu cuda
      change (if s.CudaMode then s.gpu.shutdown withCuda else s.gpu).initialized = (withCuda && false)
      rw [if_pos (show s.CudaMode from cuda)]
      cases withCuda with
      | false => exact initialized
      | true => rfl
    · exact s.llama.unload_modelLoaded

theorem launch_steady (llama : s.llama.Settled) (free : s.joinable = false)
    (gpu : s.CudaMode → s.gpu.initialized = withCuda) (device : s.CudaMode → 0 ≤ s.config.gpuDevice)
    (loaded : s.config.modelPath ≠ [] → s.llama.backend.modelLoaded = true) :
    s.launch.1 ≠ .terminated ∧ s.launch.2.Steady withCuda := by
  rw [launch_free free]
  refine ⟨nofun, llama, rfl, rfl, fun cuda => ?_, fun _ => device, fun _ => loaded, nofun⟩
  rw [Bool.and_true]
  exact gpu cuda

theorem Steady.idle (steady : s.Steady withCuda) (stopped : s.running = false) (cuda : s.CudaMode) :
    s.gpu.initialized = false := by
  rw [steady.gpu cuda, stopped, Bool.and_false]

/-- **A sound start** keeps the engine steady. -/
theorem Steady.start (steady : s.Steady withCuda) (sound : s.SoundStart withCuda outcome) :
    (s.start withCuda outcome).1 ≠ .terminated ∧ (s.start withCuda outcome).2.Steady withCuda := by
  have stopped := sound.stopped
  have notLoaded := steady.unloaded stopped
  have free : s.joinable = false := steady.joinable.trans stopped
  have running : ∀ {P : Prop}, s.running = true → P := fun running => by
    rw [stopped] at running
    cases running
  have acquisition := @acquireGpu_stopped withCuda s (steady.idle stopped) outcome
  cases acquired : s.acquireGpu withCuda outcome.devices with
  | mk ok s' =>
    rw [acquired] at acquisition
    obtain ⟨finds, initialized, device, gpu, gpuDevice, rfl⟩ := acquisition
    cases ok with
    | false =>
      rw [start_refused acquired]
      refine ⟨nofun, steady.llama, steady.ready, steady.joinable, fun cuda => ?_, running, steady.loaded,
        steady.unloaded⟩
      rw [initialized cuda]
      exact congrArg _ stopped.symm
    | true =>
      have finds := finds.1 rfl
      have device := device rfl
      have initialized := fun cuda => (initialized cuda).trans (Bool.and_true withCuda)
      have settled := fun load => @LlamaProcess.Settled.load s.llama s.config.modelPath load steady.llama
        fun _ => notLoaded
      rcases start_cases acquired with ⟨stub, ends⟩ | ⟨path, fails, ends⟩ | ⟨path, loads, ⟨x, throws, _⟩ | ends⟩
      · rw [ends]
        exact launch_steady steady.llama free initialized device fun path => absurd stub path
      · rw [ends]
        obtain ⟨owned, same⟩ := settled outcome.load
        have failed := same (LlamaProcess.loadModel_fails fails)
        refine ⟨nofun, owned, steady.ready, steady.joinable, fun cuda => ?_, running, running, fun _ => ?_⟩
        · have noCuda : withCuda = false := by
            by_contra build
            rw [Bool.not_eq_false] at build
            exact fails (sound.loads build cuda finds path)
          have same := initialized cuda
          rw [noCuda] at same
          rw [noCuda]
          exact same
        · show (s.llama.loadModel s.config.modelPath outcome.load).2.backend.modelLoaded = false
          rw [failed]
          exact notLoaded
      · exact absurd throws (sound.vocab finds path loads x)
      · rw [ends]
        refine launch_steady (settled outcome.load).1 free initialized device fun _ => ?_
        show (s.llama.loadModel s.config.modelPath outcome.load).2.backend.modelLoaded = true
        rw [LlamaProcess.loadModel_loaded path (by rw [loads]) (by rw [loads])]

/-! ## Every sound run -/

theorem Steady.step (steady : s.Steady withCuda) {c : LifeCall} (sound : s.Sound withCuda c) :
    (s.step withCuda c).Steady withCuda := by
  cases c with
  | start outcome => exact (steady.start sound).2
  | stop => exact steady.stop

theorem Steady.run (calls : List LifeCall) (steady : s.Steady withCuda)
    (sound : Along (EngineProcess.step withCuda) (Sound withCuda) s calls) :
    (calls.foldl (EngineProcess.step withCuda) s).Steady withCuda := by
  have keep : ∀ s c, Steady withCuda s → Sound withCuda s c → Steady withCuda (EngineProcess.step withCuda s c) :=
    fun _ _ steady => steady.step
  exact along_inv keep calls s steady sound

theorem Steady.holdsNothing (steady : s.Steady withCuda) (stopped : s.running = false) : s.HoldsNothing := by
  have notLoaded := steady.unloaded stopped
  obtain ⟨noModel, noCtx⟩ := steady.llama.unloaded notLoaded
  refine ⟨⟨noModel, noCtx⟩, ?_, ?_, steady.idle stopped⟩
  · rw [steady.llama.models, noModel, Option.toList_none]
  · rw [steady.llama.contexts, noCtx, Option.toList_none]

theorem Steady.keeps (steady : s.Steady withCuda) {c : LifeCall} (sound : s.Sound withCuda c) :
    s.Keeps withCuda c := by
  have after := steady.step sound
  refine ⟨?_, after.ready, after.holdsNothing⟩
  cases c with
  | start outcome => exact fun same => (steady.start sound).1 (Option.some.inj same)
  | stop => exact nofun

/-! ## A start on a running engine -/

/-- A start that has its device gives a joinable thread another one, or fails over a model and leaks it. -/
theorem start_leaks (acquired : s.acquireGpu withCuda outcome.devices = (true, s'))
    (running : s'.running = true) (joinable : s'.joinable = true) (points : s'.llama.Points)
    (leaks : s'.config.modelPath ≠ [] →
      (s'.llama.loadModel s'.config.modelPath outcome.load).2.Leaks) :
    (s.start withCuda outcome).1 = .terminated ∨ (s.start withCuda outcome).2.Leaky := by
  rcases start_cases acquired with ⟨_, ends⟩ | ⟨path, _, ends⟩ | ⟨path, _, ⟨x, _, ends⟩ | ends⟩
  · rw [ends]
    exact .inl (launch_joinable joinable)
  · rw [ends]
    exact .inr ⟨running, joinable, points.loadModel, leaks path⟩
  · rw [ends]
    exact .inr ⟨running, joinable, points.loadModel, leaks path⟩
  · rw [ends]
    exact .inl (launch_joinable joinable)

theorem Steady.start_running (steady : s.Steady withCuda) (running : s.running = true)
    (outcome : StartOutcome) :
    (s.start withCuda outcome).1 = .terminated ∨ (s.start withCuda outcome).2.Leaky :=
  start_leaks (steady.acquireGpu running outcome.devices) running (steady.joinable.trans running)
    steady.llama.toPoints fun path => steady.llama.reload_leaks (steady.loaded running path) path

theorem Leaky.start (leaky : s.Leaky) (outcome : StartOutcome) :
    (s.start withCuda outcome).1 = .terminated ∨ (s.start withCuda outcome).2.Leaky := by
  obtain ⟨gpu, gpuDevice, shape⟩ := acquireGpu_shape withCuda s outcome.devices
  cases acquired : s.acquireGpu withCuda outcome.devices with
  | mk ok s' =>
    rw [acquired] at shape
    subst shape
    cases ok with
    | false =>
      rw [start_refused acquired]
      exact .inr ⟨leaky.running, leaky.joinable, leaky.points, leaky.leaks⟩
    | true =>
      exact start_leaks acquired leaky.running leaky.joinable leaky.points fun _ =>
        leaky.leaks.load leaky.points

/-- What a running engine has leaked it still holds when it has stopped. -/
theorem Leaky.notKept (leaky : s.Leaky) : ¬ s.Keeps withCuda .stop := by
  intro kept
  obtain ⟨id, live, _⟩ := leaky.leaks.unload
  have stops : s.step withCuda .stop = s.stop withCuda := rfl
  have models := kept.stopped (by rw [stops, stop, leaky.running]; rfl)
  have none := models.models
  rw [stops, stop, leaky.running] at none
  rw [show s.llama.unload.models.ids = [] from none] at live
  cases live

theorem Leaky.notAlong (calls : List LifeCall) : ∀ {s : EngineProcess}, s.Leaky →
    ¬ Along (step withCuda) (Keeps withCuda) s (calls ++ [.stop]) := by
  induction calls with
  | nil => exact fun leaky along => leaky.notKept along.1
  | cons c calls ih =>
    intro s leaky along
    cases c with
    | start outcome =>
      rcases leaky.start outcome with terminated | leaky
      · exact along.1.assigns (congrArg some terminated)
      · exact ih leaky along.2
    | stop => exact leaky.notKept along.1

/-! ## Exactly the sound runs keep the invariant -/

/-- A start on a steady engine that keeps the invariant and leaks nothing was sound. -/
theorem Steady.sound (steady : s.Steady withCuda) {outcome : StartOutcome}
    (keeps : s.Keeps withCuda (.start outcome)) (noLeak : ¬ (s.start withCuda outcome).2.Leaky) :
    s.SoundStart withCuda outcome := by
  have stopped : s.running = false := by
    by_contra running
    rw [Bool.not_eq_false] at running
    rcases steady.start_running running outcome with terminated | leaky
    · exact keeps.assigns (congrArg some terminated)
    · exact noLeak leaky
  have acquisition := @acquireGpu_stopped withCuda s (steady.idle stopped) outcome
  cases acquired : s.acquireGpu withCuda outcome.devices with
  | mk ok s' =>
    rw [acquired] at acquisition
    obtain ⟨finds, initialized, _, gpu, gpuDevice, rfl⟩ := acquisition
    have step_eq : s.step withCuda (.start outcome) = (s.start withCuda outcome).2 := rfl
    have after := keeps.stopped
    rw [step_eq] at after
    refine ⟨stopped, fun build cuda found path => ?_, fun found path loads x throws => ?_⟩
    · by_contra fails
      cases finds.2 found
      rw [start_unloaded acquired path fails] at after
      have initialized := initialized cuda
      rw [build] at initialized
      have same : true = false := initialized.symm.trans ((after stopped).gpu cuda)
      cases same
    · cases finds.2 found
      rw [start_threw acquired path loads throws] at after
      have none : (s.llama.loadModel s.config.modelPath outcome.load).2.backend.model = none :=
        (after stopped).pointers.1
      rw [LlamaProcess.loadModel_loaded path (by rw [loads]) (by rw [loads])] at none
      cases none

theorem sound_of_along (calls : List LifeCall) : ∀ {s : EngineProcess}, s.Steady withCuda →
    Along (step withCuda) (Keeps withCuda) s (calls ++ [.stop]) →
    Along (step withCuda) (Sound withCuda) s calls := by
  induction calls with
  | nil => exact fun _ _ => trivial
  | cons c calls ih =>
    intro s steady along
    have sound : s.Sound withCuda c := by
      cases c with
      | start outcome => exact steady.sound along.1 fun leaky => leaky.notAlong calls along.2
      | stop => trivial
    exact ⟨sound, ih (steady.step sound) along.2⟩

/-- **The lifecycle invariant** holds along every sound run, and along a run that ends as an engine ends, with
the `stop` of the destructor, only if it is sound. -/
theorem keeps_iff (withCuda : Bool) (config : EngineConfig) (calls : List LifeCall) :
    (Along (step withCuda) (Sound withCuda) (init config) calls →
      Along (step withCuda) (Keeps withCuda) (init config) calls) ∧
    (Along (step withCuda) (Keeps withCuda) (init config) (calls ++ [.stop]) ↔
      Along (step withCuda) (Sound withCuda) (init config) calls) := by
  have keep : ∀ s c, Steady withCuda s → Sound withCuda s c → Steady withCuda (step withCuda s c) :=
    fun _ _ steady => steady.step
  have holds : Along (step withCuda) (Sound withCuda) (init config) calls →
      Along (step withCuda) (Keeps withCuda) (init config) calls :=
    along_imp (fun _ _ steady => steady.keeps) keep calls _ (.init config)
  refine ⟨holds, sound_of_along calls (.init config), fun sound => ?_⟩
  have last := (Steady.init config).run calls sound
  rw [along_append]
  exact ⟨holds sound, last.keeps trivial, trivial⟩

/-- In a sound run an engine that is ready has the model it was configured with. -/
theorem run_serves (withCuda : Bool) (config : EngineConfig) (calls : List LifeCall)
    (sound : Along (step withCuda) (Sound withCuda) (init config) calls) :
    let s := calls.foldl (step withCuda) (init config)
    s.engine.ready = true → s.config.modelPath ≠ [] → s.engine.backend.modelLoaded = true ∧
      s.engine.backend.model.isSome ∧ s.engine.backend.ctx.isSome := by
  have last := (Steady.init config).run calls sound
  intro s ready path
  have loaded := last.loaded (last.ready.symm.trans ready) path
  exact ⟨loaded, last.llama.loaded loaded⟩

/-- An engine in CUDA mode whose model cannot be loaded leaves the GPU initialised. -/
theorem start_keepsGpu : ¬ ∀ (withCuda : Bool) (config : EngineConfig) (calls : List LifeCall),
    Along (step withCuda) (Keeps withCuda) (init config) calls := by
  intro all
  have kept := all true { modelPath := str "m", mode := str "cuda" }
    [.start { devices := some [1], load := ⟨false, false⟩ }]
  have idle := (kept.1.stopped (by decide +kernel)).gpu (by decide +kernel)
  revert idle
  decide +kernel

end EngineProcess

end ModelRuntime
