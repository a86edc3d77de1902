import ModelRuntime.Gpu.Manager

/-!
# The device with the most free memory

`initialize` in a build with CUDA. `cudaMemGetInfo` reads the memory of the calling thread's current
device, and `get_device_info` never makes the device it examines current; the pool's constructor does, but
restores the one before. So every device is reported with the memory of one and the same device
(`enumerate_current`), and the selection is right only where that makes no difference.
-/

namespace ModelRuntime

/-- The calling thread's current device and the free memory of the devices. -/
structure Cuda where
  current : Nat
  free : Nat → Nat

/-- What is up to the driver: for which devices `cudaGetDeviceProperties` succeeds, and the free memory
of the devices once a pool was allocated on one of them. -/
structure CudaDriver where
  properties : Nat → Bool
  pooled : Nat → (Nat → Nat) → Nat → Nat

/-- `static_cast<int64_t>`. -/
def toInt64 (n : Nat) : Int := (n : Int).bmod (2 ^ 64)

namespace Cuda

variable (driver : CudaDriver) (cuda : Cuda)

/-- `cudaMemGetInfo`. -/
def memGetInfo : Nat := cuda.free cuda.current

def setDevice (device : Nat) : Cuda := { cuda with current := device }

/-- The scope of a `GpuDeviceGuard`. -/
def guarded (device : Nat) (body : Cuda → Cuda) : Cuda :=
  let previous := cuda.current
  let inside := body (if previous ≠ device then cuda.setDevice device else cuda)
  if previous ≠ device then inside.setDevice previous else inside

/-- The constructor of `GpuMemoryPool`, with its `cudaMalloc`. -/
def memoryPool (device : Nat) : Cuda :=
  cuda.guarded device fun cuda => { cuda with free := driver.pooled cuda.current cuda.free }

/-- `get_device_info`. -/
def getDeviceInfo (device : Nat) : GpuDevice :=
  if driver.properties device then { deviceId := device, freeMemory := toInt64 cuda.memGetInfo }
  else { deviceId := device, freeMemory := 0 }

/-- The loop of `initialize` over the first devices. -/
def enumerate : Nat → List GpuDevice × Cuda
  | 0 => ([], cuda)
  | i + 1 =>
    let (devices, cuda) := enumerate i
    (devices ++ [cuda.getDeviceInfo driver i], cuda.memoryPool driver i)

/-- The state in which a device is examined. -/
def examined (device : Nat) : Cuda := (cuda.enumerate driver device).2

/-- `initialize` with `count` devices. -/
def initializeGpu (gpu : GpuManager) (count : Nat) : Bool × GpuManager :=
  gpu.initializeGpu true (some ((cuda.enumerate driver count).1.map GpuDevice.freeMemory))

/-- Each device is listed with its own free memory, and one with the most is selected. -/
structure Selects (count : Nat) (gpu : GpuManager) : Prop where
  reported : ∀ i < count, gpu.devices[i]? = some { deviceId := i, freeMemory := (cuda.examined driver i).free i }
  selected : ∃ best < count, gpu.selectBestDevice true = best ∧
    ∀ i < count, (cuda.examined driver i).free i ≤ (cuda.examined driver best).free best

variable {driver cuda}

theorem guarded_current {device : Nat} {body : Cuda → Cuda} (keeps : ∀ cuda, (body cuda).current = cuda.current) :
    (cuda.guarded device body).current = cuda.current := by
  unfold guarded
  dsimp only
  by_cases other : cuda.current ≠ device
  · rw [if_pos other]
    rfl
  · rw [if_neg other, if_neg other, keeps]

/-- A pool is allocated on its own device. -/
theorem memoryPool_free (device : Nat) : (cuda.memoryPool driver device).free = driver.pooled device cuda.free := by
  unfold memoryPool guarded
  dsimp only
  by_cases other : cuda.current ≠ device
  · rw [if_pos other, if_pos other]
    rfl
  · rw [if_neg other, if_neg other, not_ne_iff.1 other]

/-- The same device is current all along. -/
theorem enumerate_current (i : Nat) : (cuda.examined driver i).current = cuda.current := by
  unfold examined
  induction i with
  | zero => rfl
  | succ i ih =>
    have kept : ((cuda.enumerate driver i).2.memoryPool driver i).current = (cuda.enumerate driver i).2.current := by
      apply guarded_current
      intro inside
      rfl
    exact kept.trans ih

theorem enumerate_length (count : Nat) : (cuda.enumerate driver count).1.length = count := by
  induction count with
  | zero => rfl
  | succ count ih => rw [enumerate, List.length_append, ih, List.length_singleton]

theorem enumerate_device {count i : Nat} (bound : i < count) :
    (cuda.enumerate driver count).1[i]? = some ((cuda.examined driver i).getDeviceInfo driver i) := by
  induction count with
  | zero => omega
  | succ count ih =>
    rw [enumerate]
    by_cases last : i = count
    · subst last
      rw [List.getElem?_append_right (by rw [enumerate_length]), enumerate_length, Nat.sub_self]
      rfl
    · rw [List.getElem?_append_left (by rw [enumerate_length]; omega), ih (by omega)]

theorem initializeGpu_eq {gpu : GpuManager} (first : gpu.initialized = false) {count : Nat} (some : 0 < count) :
    cuda.initializeGpu driver gpu count = (true, {
      initialized := true
      devices := GpuManager.listed ((cuda.enumerate driver count).1.map GpuDevice.freeMemory) }) := by
  have size : ((cuda.enumerate driver count).1.map GpuDevice.freeMemory).length = count := by
    rw [List.length_map, enumerate_length]
  unfold initializeGpu GpuManager.initializeGpu
  rw [first]
  dsimp only
  rw [if_neg (by decide), if_neg (by decide), if_neg (by omega)]

/-- What `initialize` lists. -/
theorem initializeGpu_device {gpu : GpuManager} (first : gpu.initialized = false) {count i : Nat}
    (bound : i < count) : (cuda.initializeGpu driver gpu count).2.devices[i]? =
      some { deviceId := i, freeMemory := ((cuda.examined driver i).getDeviceInfo driver i).freeMemory } := by
  rw [initializeGpu_eq first (by omega)]
  unfold GpuManager.listed
  rw [List.getElem?_map, List.getElem?_zipIdx, List.getElem?_map, enumerate_device bound]
  simp

theorem initializeGpu_length {gpu : GpuManager} (first : gpu.initialized = false) {count : Nat} (some : 0 < count) :
    (cuda.initializeGpu driver gpu count).2.devices.length = count := by
  rw [initializeGpu_eq first some]
  unfold GpuManager.listed
  rw [List.length_map, List.length_zipIdx, List.length_map, enumerate_length]

end Cuda

/-- The scan keeps the first device with the most free memory. -/
theorem scan_most (devices : List GpuDevice) (start : GpuDevice) :
    let best := devices.foldl (fun best device => if best.freeMemory < device.freeMemory then device else best) start
    (best = start ∨ best ∈ devices) ∧ start.freeMemory ≤ best.freeMemory ∧
      ∀ device ∈ devices, device.freeMemory ≤ best.freeMemory := by
  induction devices generalizing start with
  | nil => exact ⟨.inl rfl, Int.le_refl _, by simp⟩
  | cons device devices ih =>
    rw [List.foldl_cons]
    by_cases better : start.freeMemory < device.freeMemory
    · rw [if_pos better]
      obtain ⟨source, least, most⟩ := ih device
      dsimp only at source least most ⊢
      refine ⟨.inr ?_, by omega, ?_⟩
      · rcases source with same | later
        · rw [same]
          exact List.mem_cons_self
        · exact List.mem_cons_of_mem _ later
      · intro other mem
        rcases List.mem_cons.1 mem with rfl | mem
        · exact least
        · exact most other mem
    · rw [if_neg better]
      obtain ⟨source, least, most⟩ := ih start
      dsimp only at source least most ⊢
      refine ⟨source.imp_right (List.mem_cons_of_mem _), least, ?_⟩
      intro other mem
      rcases List.mem_cons.1 mem with rfl | mem
      · omega
      · exact most other mem

namespace Cuda

variable {driver : CudaDriver} {cuda : Cuda} {gpu : GpuManager} {count : Nat}

/-- The selection names the device the scan keeps. -/
theorem selectBestDevice_most {listed : GpuManager} (ready : listed.initialized = true) (some : listed.devices ≠ []) :
    ∃ result : GpuDevice, listed.selectBestDevice true = result.deviceId ∧
      (result = { deviceId := 0, freeMemory := 0 } ∨ result ∈ listed.devices) ∧ 0 ≤ result.freeMemory ∧
        ∀ device ∈ listed.devices, device.freeMemory ≤ result.freeMemory := by
  refine ⟨_, ?_, scan_most listed.devices { deviceId := 0, freeMemory := 0 }⟩
  have present : listed.devices.isEmpty = false := by simpa using some
  unfold GpuManager.selectBestDevice
  rw [ready, present]
  rfl

/-- Where every device is listed with its own memory, the selection is right. -/
theorem selects_of_reported (first : gpu.initialized = false) (some : 0 < count)
    (reported : ∀ i < count, (cuda.initializeGpu driver gpu count).2.devices[i]? =
      Option.some { deviceId := i, freeMemory := (cuda.examined driver i).free i }) :
    Selects driver cuda count (cuda.initializeGpu driver gpu count).2 := by
  refine ⟨reported, ?_⟩
  have size : (cuda.initializeGpu driver gpu count).2.devices.length = count := initializeGpu_length first some
  have ready : (cuda.initializeGpu driver gpu count).2.initialized = true := by
    rw [initializeGpu_eq first some]
  generalize (cuda.initializeGpu driver gpu count).2 = listed at *
  obtain ⟨result, chosen, source, least, most⟩ := selectBestDevice_most ready (List.ne_nil_of_length_pos (by omega))
  rw [chosen]
  have below : ∀ i < count, ((cuda.examined driver i).free i : Int) ≤ result.freeMemory :=
    fun i bound => most _ (List.mem_of_getElem? (reported i bound))
  rcases source with rfl | mem
  · -- no device has any free memory
    refine ⟨0, some, rfl, fun i bound => ?_⟩
    have none := below i bound
    dsimp only at none
    omega
  · obtain ⟨j, inside, here⟩ := List.getElem_of_mem mem
    have own := reported j (by omega)
    rw [List.getElem?_eq_getElem inside, here] at own
    obtain rfl := Option.some.inj own
    refine ⟨j, by omega, rfl, fun i bound => ?_⟩
    have less := below i bound
    dsimp only at less
    omega

/-- The device is reported with its own memory: what `cudaMemGetInfo` says of the current device is, as
an `int64_t`, right for it. A device without properties has to be without memory. -/
def OwnMemory (driver : CudaDriver) (cuda : Cuda) (i : Nat) : Prop :=
  let memory := (cuda.examined driver i).free
  if driver.properties i then toInt64 (memory cuda.current) = memory i else memory i = 0

theorem ownMemory_iff {i : Nat} : OwnMemory driver cuda i ↔
    ((cuda.examined driver i).getDeviceInfo driver i).freeMemory = (cuda.examined driver i).free i := by
  unfold OwnMemory getDeviceInfo memGetInfo
  rw [enumerate_current]
  cases driver.properties i with
  | true => rw [if_pos rfl, if_pos rfl]
  | false =>
    rw [if_neg Bool.false_ne_true, if_neg Bool.false_ne_true]
    dsimp only
    omega

theorem Selects.own (first : gpu.initialized = false)
    (selects : Selects driver cuda count (cuda.initializeGpu driver gpu count).2) {i : Nat} (bound : i < count) :
    OwnMemory driver cuda i := by
  apply ownMemory_iff.2
  have listed := (initializeGpu_device first bound).symm.trans (selects.reported i bound)
  exact congrArg GpuDevice.freeMemory (Option.some.inj listed)

/-- **The selection is right**, each device being listed with its own memory, exactly when the memory of the
device that is current all along reads as that of each device when it is examined. -/
theorem selects_iff (driver : CudaDriver) (cuda : Cuda) (first : gpu.initialized = false) (some : 0 < count) :
    Selects driver cuda count (cuda.initializeGpu driver gpu count).2 ↔
      ∀ i < count, OwnMemory driver cuda i := by
  constructor
  · exact fun selects i bound => selects.own first bound
  · intro own
    apply selects_of_reported first some
    intro i bound
    rw [initializeGpu_device first bound, ownMemory_iff.1 (own i bound)]

/-- Pools that cost nothing. -/
def steadyDriver : CudaDriver where
  properties _ := true
  pooled _ free := free

/-- The first device is current and has half the memory of the second. -/
def twoDevices : Cuda where
  current := 0
  free i := 1000 * (i + 1)

theorem twoDevices_own {i : Nat} : OwnMemory steadyDriver twoDevices i ↔ i = 0 := by
  have free : ∀ n, ((twoDevices.examined steadyDriver n).free) = twoDevices.free := by
    intro n
    unfold examined
    induction n with
    | zero => rfl
    | succ n ih => exact (memoryPool_free n).trans ih
  have value : toInt64 (twoDevices.free twoDevices.current) = 1000 := by decide +kernel
  unfold OwnMemory
  rw [free]
  dsimp only
  rw [if_pos (by rfl), value]
  unfold twoDevices
  dsimp only
  omega

theorem selects_iff_single : Selects steadyDriver twoDevices 1 (twoDevices.initializeGpu steadyDriver {} 1).2 :=
  (selects_iff steadyDriver twoDevices rfl Nat.one_pos).2 fun _ bound => twoDevices_own.2 (Nat.lt_one_iff.1 bound)

/-- Both devices are listed with the memory of the first, which is selected. -/
theorem not_selects : ¬ ∀ (driver : CudaDriver) (cuda : Cuda) (count : Nat), 0 < count →
    Selects driver cuda count (cuda.initializeGpu driver {} count).2 := by
  intro all
  have own := (all steadyDriver twoDevices 2 Nat.two_pos).own rfl Nat.one_lt_two
  exact absurd (twoDevices_own.1 own) Nat.one_ne_zero

end Cuda

end ModelRuntime
