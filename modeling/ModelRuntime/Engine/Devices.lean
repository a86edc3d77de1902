import ModelRuntime.Engine.Lifecycle
import ModelRuntime.Gpu.Blocks
import ModelRuntime.Gpu.Guards

/-!
# The engine on the GPUs

What `start` and `stop` ask of the GPU manager, carried out on the CUDA runtime. The manager of
`Engine.Lifecycle` is the manager there (`Drives`), so what is known about device memory holds of an engine that
is started and stopped.
-/

namespace ModelRuntime
open Cpp Lib

/-- One of the devices is selected. -/
theorem GpuManager.selectBestDevice_listed {free : List Int} (some : free ≠ []) :
    let gpu : GpuManager := { initialized := true, devices := listed free }
    0 ≤ gpu.selectBestDevice true ∧ gpu.selectBestDevice true < free.length := by
  have nonempty : (listed free).isEmpty = false := by
    unfold listed
    cases free with
    | nil => exact absurd rfl some
    | cons => rfl
  have inside : ∀ device ∈ listed free, 0 ≤ device.deviceId ∧ device.deviceId < free.length := by
    intro device mem
    obtain ⟨⟨a, i⟩, placed, rfl⟩ := List.mem_map.1 mem
    have bound := (List.mem_zipIdx placed).2.1
    dsimp only
    omega
  dsimp only
  unfold GpuManager.selectBestDevice
  rw [nonempty]
  refine List.foldlRecOn (listed free) _
    (motive := fun best : GpuDevice => 0 ≤ best.deviceId ∧ best.deviceId < free.length) ?_ ?_
  · have length := List.length_pos_iff.2 some
    dsimp only
    omega
  · intro best chosen device member
    split
    · exact inside device member
    · exact chosen

namespace EngineProcess

variable {driver : CudaMalloc} {s : EngineProcess} {g : GpuProcess} {outcome : StartOutcome} {count : Nat}

/-- What a call asks of the GPU manager. -/
def gpuCalls (s : EngineProcess) : LifeCall → List GpuCall
  | .start outcome =>
    if s.CudaMode then
      let (ok, s') := s.acquireGpu true outcome.devices
      .initializeGpu (outcome.devices.map fun free i => free.getD i 0) ::
        if ok then [.setDevice s'.config.gpuDevice] else []
    else []
  | .stop => if s.running && decide s.CudaMode then [.shutdown] else []

/-- A call, with what it does on the GPUs. -/
def stepOn (driver : CudaMalloc) (p : EngineProcess × GpuProcess) (c : LifeCall) : EngineProcess × GpuProcess :=
  (p.1.step true c, (p.1.gpuCalls c).foldl (GpuProcess.step driver) p.2)

/-- The devices that are counted are those there are. -/
def Counts (count : Nat) : LifeCall → Prop
  | .start outcome => ∀ free, outcome.devices = some free → free.length = count
  | .stop => True

/-- Behind the choice of a device the manager is left alone. -/
theorem start_gpu (s : EngineProcess) (outcome : StartOutcome) :
    (s.start true outcome).2.gpu = (s.acquireGpu true outcome.devices).2.gpu ∧
      (s.start true outcome).2.config = (s.acquireGpu true outcome.devices).2.config := by
  cases acquired : s.acquireGpu true outcome.devices with
  | mk ok s' =>
    cases ok with
    | false =>
      rw [start_refused acquired]
      exact ⟨rfl, rfl⟩
    | true =>
      have launched : ∀ s : EngineProcess, s.launch.2.gpu = s.gpu ∧ s.launch.2.config = s.config := by
        intro s
        unfold launch
        dsimp only
        split
        · exact ⟨rfl, rfl⟩
        · exact ⟨rfl, rfl⟩
      rcases start_cases acquired with ⟨_, ends⟩ | ⟨_, _, ends⟩ | ⟨_, _, ⟨_, _, ends⟩ | ends⟩
      · rw [ends]
        exact launched s'
      · rw [ends]
        exact ⟨rfl, rfl⟩
      · rw [ends]
        exact ⟨rfl, rfl⟩
      · rw [ends]
        exact launched _

/-- What the engine has of the GPU manager is what there is on the runtime. -/
structure Drives (count : Nat) (s : EngineProcess) (g : GpuProcess) : Prop where
  sound : g.Sound
  count : g.cuda.devices = count
  outside : g.guards = []
  manager : g.manager = s.gpu

/-- What `initialize` does for the engine. -/
theorem Drives.initializeGpu (drives : s.Drives count g) {found : Option (List Int)}
    (counts : ∀ free, found = some free → free.length = count) :
    (g.initializeGpu driver (found.map fun free i => free.getD i 0)).2.manager = (s.gpu.initializeGpu true found).2 := by
  have same := (@GpuProcess.initializeGpu_manager driver g (found.map fun free i => free.getD i 0)).2
  have listed : (found.map fun (free : List Int) (i : Nat) => free.getD i 0).map
      (fun free => (List.range g.cuda.devices).map free) = found := by
    cases found with
    | none => rfl
    | some free =>
      rw [Option.map_some, Option.map_some, drives.count, ← counts free rfl]
      refine congrArg some (List.ext_getElem ?_ fun i inside _ => ?_)
      · rw [List.length_map, List.length_range]
      · rw [List.getElem_map, List.getElem_range, List.getD_eq_getElem]
  rw [listed, drives.manager] at same
  exact same

theorem acquireGpu_gpu (cuda : s.CudaMode) (found : Option (List Int)) :
    (s.acquireGpu true found).2.gpu = (s.gpu.initializeGpu true found).2 := by
  unfold acquireGpu
  rw [if_pos cuda]
  split
  · rename_i same
    rw [same]
  · rename_i same
    rw [same]
    split
    · rfl
    · rfl

/-- A stop leaves the manager as `shutdown` does. -/
theorem stop_gpu (running : s.running = true) (cuda : s.CudaMode) : (s.stop true).gpu = {} := by
  unfold stop
  rw [running]
  exact if_pos cuda

theorem stop_gpu_kept (idle : ¬ (s.running = true ∧ s.CudaMode)) : (s.stop true).gpu = s.gpu := by
  unfold stop
  split
  · rfl
  · rename_i running
    have cpu : ¬ s.CudaMode := fun cuda => idle ⟨by simpa using running, cuda⟩
    exact if_neg cpu

theorem gpuCalls_stop (s : EngineProcess) : s.gpuCalls .stop =
    if s.running = true ∧ s.CudaMode then [.shutdown] else [] := by
  unfold gpuCalls
  simp

/-- The calls of a start in CUDA mode. -/
theorem gpuCalls_start (cuda : s.CudaMode) (outcome : StartOutcome) : s.gpuCalls (.start outcome) =
    .initializeGpu (outcome.devices.map fun free i => free.getD i 0) ::
      if (s.acquireGpu true outcome.devices).1 then [.setDevice (s.acquireGpu true outcome.devices).2.config.gpuDevice]
      else [] := by
  unfold gpuCalls
  dsimp only
  rw [if_pos cuda]

theorem gpuCalls_start_cpu (cpu : ¬ s.CudaMode) (outcome : StartOutcome) : s.gpuCalls (.start outcome) = [] := by
  unfold gpuCalls
  dsimp only
  rw [if_neg cpu]

/-- **The manager of the engine** is the manager on the runtime, after every call. -/
theorem Drives.step (drives : s.Drives count g) {c : LifeCall} (counts : Counts count c) :
    (stepOn driver (s, g) c).1.Drives count (stepOn driver (s, g) c).2 := by
  have sound := @GpuProcess.Sound.run driver g drives.sound (s.gpuCalls c)
  unfold stepOn
  dsimp only
  cases c with
  | start outcome =>
    have gpu : (s.step true (.start outcome)).gpu = (s.acquireGpu true outcome.devices).2.gpu := (start_gpu s outcome).1
    by_cases cuda : s.CudaMode
    · have manager := @Drives.initializeGpu driver s g count drives outcome.devices counts
      obtain ⟨devices, _, guards⟩ := @GpuProcess.initializeGpu_current driver g drives.sound
        (outcome.devices.map fun free i => free.getD i 0)
      rw [acquireGpu_gpu cuda, ← manager] at gpu
      rw [gpuCalls_start cuda] at sound ⊢
      rw [List.foldl_cons] at sound ⊢
      split
      · rename_i ok
        rw [if_pos ok] at sound
        refine ⟨sound, ?_, ?_, gpu.symm⟩
        · exact (CudaRuntime.setDevice_devices _).trans (devices.trans drives.count)
        · exact guards.trans drives.outside
      · rename_i refused
        rw [if_neg refused] at sound
        exact ⟨sound, devices.trans drives.count, guards.trans drives.outside, gpu.symm⟩
    · have kept : s.acquireGpu true outcome.devices = (true, s) := if_neg cuda
      rw [kept] at gpu
      rw [gpuCalls_start_cpu cuda]
      exact ⟨drives.sound, drives.count, drives.outside, drives.manager.trans gpu.symm⟩
  | stop =>
    rw [gpuCalls_stop] at sound ⊢
    split
    · rename_i stops
      rw [if_pos stops] at sound
      obtain ⟨_, devices, _⟩ := drives.sound.owns.destroyAll
      exact ⟨sound, devices.trans drives.count, drives.outside, (stop_gpu stops.1 stops.2).symm⟩
    · rename_i idle
      exact ⟨drives.sound, drives.count, drives.outside, drives.manager.trans (stop_gpu_kept idle).symm⟩

/-! ## Runs -/

/-- A start takes the configured device, or one that is there. -/
theorem acquireGpu_device (cuda : s.CudaMode) (idle : s.gpu.initialized = false) {found : Option (List Int)}
    (counts : ∀ free, found = some free → free.length = count) :
    let device := (s.acquireGpu true found).2.config.gpuDevice
    device = s.config.gpuDevice ∨ 0 ≤ device ∧ device < count := by
  unfold acquireGpu GpuManager.initializeGpu
  rw [if_pos cuda, idle]
  dsimp only
  rw [if_neg (by decide), if_neg (by decide)]
  cases found with
  | none => exact .inl rfl
  | some free =>
    dsimp only
    by_cases none : free.length = 0
    · rw [if_pos none]
      exact .inl rfl
    · rw [if_neg none]
      dsimp only
      split
      · rw [← counts free rfl]
        exact .inr (GpuManager.selectBestDevice_listed fun empty => none (by rw [empty, List.length_nil]))
      · exact .inl rfl

/-- The engine between the calls of a sound run, with the GPUs. -/
structure OnGpus (count : Nat) (configured : Int) (s : EngineProcess) (g : GpuProcess) : Prop where
  steady : s.Steady true
  drives : s.Drives count g
  cpu : ¬ s.CudaMode → s.gpu.initialized = false
  selected : configured < 0 → s.config.gpuDevice < 0 ∨ 0 ≤ s.config.gpuDevice ∧ s.config.gpuDevice < count
  current : s.running = true → s.CudaMode → 0 ≤ s.config.gpuDevice → s.config.gpuDevice < count →
    g.cuda.current = s.config.gpuDevice

variable {configured : Int}

theorem OnGpus.start (on : s.OnGpus count configured g) (counts : Counts count (.start outcome))
    (sound : s.SoundStart true outcome) :
    (stepOn driver (s, g) (.start outcome)).1.OnGpus count configured (stepOn driver (s, g) (.start outcome)).2 := by
  obtain ⟨gpu, config⟩ := start_gpu s outcome
  obtain ⟨_, _, shape⟩ := acquireGpu_shape true s outcome.devices
  have mode : (s.acquireGpu true outcome.devices).2.config.mode = s.config.mode := by rw [shape]
  have same : (s.step true (.start outcome)).CudaMode ↔ s.CudaMode := by
    show (s.start true outcome).2.config.mode = _ ↔ _
    rw [config, mode]
    rfl
  have idle := on.steady.idle sound.stopped
  refine ⟨(on.steady.start sound).2, on.drives.step counts, fun cpu => ?_, fun auto => ?_, fun running cuda => ?_⟩
  · have kept : s.acquireGpu true outcome.devices = (true, s) := if_neg fun cuda => cpu (same.2 cuda)
    show (s.start true outcome).2.gpu.initialized = false
    rw [gpu, kept]
    exact on.cpu fun cuda => cpu (same.2 cuda)
  · show (s.start true outcome).2.config.gpuDevice < 0 ∨ _
    rw [show (stepOn driver (s, g) (.start outcome)).1.config = _ from config, config]
    by_cases cuda : s.CudaMode
    · rcases acquireGpu_device cuda (idle cuda) counts with kept | found
      · rw [kept]
        exact on.selected auto
      · exact .inr found
    · have kept : s.acquireGpu true outcome.devices = (true, s) := if_neg cuda
      rw [kept]
      exact on.selected auto
  · -- the start has got past the choice of a device, and has set it
    have cuda := same.1 cuda
    have ok : (s.acquireGpu true outcome.devices).1 = true := by
      by_contra refused
      have acquired : s.acquireGpu true outcome.devices = (false, (s.acquireGpu true outcome.devices).2) :=
        Prod.ext (Bool.eq_false_iff.2 refused) rfl
      have still : (s.start true outcome).2.running = false := by
        rw [start_refused acquired, shape]
        exact sound.stopped
      exact Bool.false_ne_true (still.symm.trans running)
    show 0 ≤ (s.start true outcome).2.config.gpuDevice → (s.start true outcome).2.config.gpuDevice < count →
      ((s.gpuCalls (.start outcome)).foldl (GpuProcess.step driver) g).cuda.current =
        (s.start true outcome).2.config.gpuDevice
    rw [config, gpuCalls_start cuda, if_pos ok]
    intro low high
    obtain ⟨devices, _, _⟩ := @GpuProcess.initializeGpu_current driver g on.drives.sound
      (outcome.devices.map fun free i => free.getD i 0)
    refine (CudaRuntime.setDevice_current _).trans (if_pos ⟨low, ?_⟩)
    show _ < ((GpuProcess.initializeGpu driver g _).2.cuda.devices : Int)
    rw [devices, on.drives.count]
    exact high

theorem OnGpus.stop (on : s.OnGpus count configured g) :
    (stepOn driver (s, g) .stop).1.OnGpus count configured (stepOn driver (s, g) .stop).2 := by
  have config : (s.stop true).config = s.config := by
    unfold EngineProcess.stop
    split
    · rfl
    · rfl
  have stopped : (s.stop true).running = false := by
    unfold EngineProcess.stop
    split
    · rename_i idle
      simpa using idle
    · rfl
  refine ⟨on.steady.stop, on.drives.step trivial, fun cpu => ?_, ?_, fun running => ?_⟩
  · have cpu : ¬ s.CudaMode := fun cuda => cpu ((congrArg EngineConfig.mode config).trans cuda)
    show (s.stop true).gpu.initialized = false
    rw [stop_gpu_kept fun both => cpu both.2]
    exact on.cpu cpu
  · rw [show (stepOn driver (s, g) .stop).1.config = s.config from config]
    exact on.selected
  · exact absurd (stopped.symm.trans running) Bool.false_ne_true

theorem OnGpus.run (calls : List LifeCall) : ∀ {s : EngineProcess} {g : GpuProcess}, s.OnGpus count configured g →
    (∀ c ∈ calls, Counts count c) → Along (EngineProcess.step true) (Sound true) s calls →
      (calls.foldl (stepOn driver) (s, g)).1.OnGpus count configured (calls.foldl (stepOn driver) (s, g)).2 := by
  induction calls with
  | nil => exact fun on _ _ => on
  | cons c calls ih =>
    intro s g on counts sound
    have counted := counts c List.mem_cons_self
    have next : (stepOn driver (s, g) c).1.OnGpus count configured (stepOn driver (s, g) c).2 := by
      cases c with
      | start outcome => exact on.start counted sound.1
      | stop => exact on.stop
    exact ih next (fun c mem => counts c (List.mem_cons_of_mem _ mem)) sound.2

/-- What the engine has of the GPUs: nothing unless it runs in CUDA mode, and then a pool for each device, and the
device it is on current if there is such a device, as there is where it was left to the engine to choose. -/
structure HasGpus (count : Nat) (configured : Int) (s : EngineProcess) (g : GpuProcess) : Prop where
  accounted : g.Accounted
  idle : ¬ (s.running = true ∧ s.CudaMode) → g.cuda.live = []
  pooled : s.running = true → s.CudaMode → g.pools.map DevicePool.device = (List.range count).map fun i : Nat => (i : Int)
  current : s.running = true → s.CudaMode → 0 ≤ s.config.gpuDevice → s.config.gpuDevice < count →
    g.cuda.current = s.config.gpuDevice
  selected : s.running = true → s.CudaMode → configured < 0 → 0 ≤ s.config.gpuDevice ∧ s.config.gpuDevice < count

theorem OnGpus.hasGpus (on : s.OnGpus count configured g) : s.HasGpus count configured g where
  accounted := on.drives.sound.accounted
  idle := by
    intro idle
    refine (on.drives.sound.accounted.settled ?_).1
    rw [on.drives.manager]
    by_cases cuda : s.CudaMode
    · have stopped : s.running = false := Bool.eq_false_iff.2 fun running => idle ⟨running, cuda⟩
      exact on.steady.idle stopped cuda
    · exact on.cpu cuda
  pooled := by
    intro running cuda
    have ready : g.manager.initialized = true := by
      rw [on.drives.manager, on.steady.gpu cuda, running]
      rfl
    rw [← on.drives.count]
    exact on.drives.sound.pooled ready
  current := on.current
  selected := by
    intro running cuda auto
    have device := on.steady.device running cuda
    rcases on.selected auto with negative | found
    · omega
    · exact found

/-- **An engine that is started and stopped** has the GPUs it should have, in every sound run, whatever
`cudaMalloc` gives. -/
theorem run_hasGpus (driver : CudaMalloc) (config : EngineConfig) (count : Nat) (calls : List LifeCall)
    (counts : ∀ c ∈ calls, Counts count c) (sound : Along (step true) (Sound true) (init config) calls) :
    let p := calls.foldl (stepOn driver) (init config, .init count)
    p.1.HasGpus count config.gpuDevice p.2 := by
  have start : (init config).OnGpus count config.gpuDevice (.init count) := by
    refine ⟨.init config, ⟨.init count, rfl, rfl, rfl⟩, fun _ => rfl, fun auto => .inl auto, ?_⟩
    intro running
    cases running
  exact (start.run calls counts sound).hasGpus

/-- Two devices, the second of which is chosen twice. -/
theorem run_hasGpus_two :
    let calls : List LifeCall := [.start { devices := some [100, 200] }, .stop, .start { devices := some [100, 200] }]
    let p := calls.foldl (stepOn GpuProcess.roomy) (init { mode := str "cuda" }, .init 2)
    p.1.HasGpus 2 (-1) p.2 := by
  have two : ∀ free : List Int, some [100, 200] = some free → free.length = 2 := by
    intro free same
    rw [← Option.some.inj same]
    rfl
  refine run_hasGpus GpuProcess.roomy { mode := str "cuda" } 2 _ ?_ ⟨⟨rfl, ?_, ?_⟩, trivial, ⟨by decide +kernel, ?_, ?_⟩, trivial⟩
  · intro c mem
    rcases List.mem_cons.1 mem with rfl | mem
    · exact two
    · rcases List.mem_cons.1 mem with rfl | mem
      · trivial
      · rw [List.mem_singleton.1 mem]
        exact two
  · exact fun _ _ _ path => absurd rfl path
  · exact fun _ path => absurd rfl path
  · exact fun _ _ _ path => absurd (by decide +kernel) path
  · exact fun _ path => absurd (by decide +kernel) path

end EngineProcess

end ModelRuntime
