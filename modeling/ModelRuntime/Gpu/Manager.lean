import Mathlib.Algebra.Order.Ring.Int

/-!
# `GpuManager`

The static state of the class in a build with CUDA (`withCuda`) and in one without. What
`cudaGetDeviceCount` and `cudaMemGetInfo` report is given to `initialize`.
-/

namespace ModelRuntime

/-- The fields that are read. -/
structure GpuDevice where
  deviceId : Int
  freeMemory : Int

structure GpuManager where
  initialized : Bool := false
  devices : List GpuDevice := []

namespace GpuManager

variable (withCuda : Bool) (gpu : GpuManager)

/-- `devices_`, from the free memory of each device. -/
def listed (freeMemory : List Int) : List GpuDevice :=
  freeMemory.zipIdx.map fun (free, i) => { deviceId := i, freeMemory := free }

/-- `initialize`. `found` is the free memory of the devices that are counted, `none` where
`cudaGetDeviceCount` fails. -/
def initializeGpu (found : Option (List Int)) : Bool × GpuManager :=
  if !withCuda then (true, gpu)
  else if gpu.initialized then (true, gpu)
  else
    match found with
    | none => (false, gpu)
    | some freeMemory =>
      if freeMemory.length = 0 then (false, gpu)
      else (true, { initialized := true, devices := listed freeMemory })

def shutdown : GpuManager := if !withCuda then gpu else {}

/-- The device with the most free memory, device 0 where none has any. -/
def selectBestDevice : Int :=
  if !withCuda then -1
  else if !gpu.initialized || gpu.devices.isEmpty then -1
  else
    let best := gpu.devices.foldl (fun best device =>
      if best.freeMemory < device.freeMemory then device else best) { deviceId := 0, freeMemory := 0 }
    best.deviceId

/-- Some device can be initialised. -/
def Found (found : Option (List Int)) : Prop := ∃ freeMemory, found = some freeMemory ∧ freeMemory ≠ []

variable {withCuda gpu}

theorem initializeGpu_stub {found : Option (List Int)} : gpu.initializeGpu false found = (true, gpu) := rfl

theorem initializeGpu_again (again : gpu.initialized = true) {found : Option (List Int)} :
    gpu.initializeGpu true found = (true, gpu) := by
  unfold initializeGpu
  rw [again]
  rfl

/-- The devices of the manager are listed by `initialize`. -/
def Listed (gpu : GpuManager) : Prop := gpu.initialized = true ∧ ∃ free, free ≠ [] ∧ gpu.devices = listed free

/-- The first `initialize` in a build with CUDA. -/
theorem initializeGpu_first (first : gpu.initialized = false) (found : Option (List Int)) :
    (Found found → (gpu.initializeGpu true found).1 = true ∧ (gpu.initializeGpu true found).2.Listed) ∧
      (¬ Found found → gpu.initializeGpu true found = (false, gpu)) := by
  unfold initializeGpu
  rw [first]
  cases found with
  | none => exact ⟨nofun, fun _ => rfl⟩
  | some freeMemory =>
    cases freeMemory with
    | nil =>
      refine ⟨?_, fun _ => rfl⟩
      rintro ⟨freeMemory, same, nonempty⟩
      exact absurd (Option.some.inj same).symm nonempty
    | cons free rest =>
      constructor
      · intro _
        exact ⟨rfl, rfl, free :: rest, List.cons_ne_nil _ _, rfl⟩
      · intro none
        exact absurd ⟨_, rfl, List.cons_ne_nil _ _⟩ none

/-- Where there are devices one of them is selected. -/
theorem Listed.selectBestDevice (listed : gpu.Listed) : 0 ≤ gpu.selectBestDevice true := by
  obtain ⟨ready, free, some, devices⟩ := listed
  have ids : ∀ device ∈ gpu.devices, 0 ≤ device.deviceId := by
    intro device member
    rw [devices, GpuManager.listed] at member
    obtain ⟨_, _, rfl⟩ := List.mem_map.1 member
    exact Int.natCast_nonneg _
  have nonempty : gpu.devices.isEmpty = false := by
    rw [devices, GpuManager.listed]
    cases free with
    | nil => exact absurd rfl some
    | cons => rfl
  unfold GpuManager.selectBestDevice
  rw [ready, nonempty]
  refine List.foldlRecOn gpu.devices _ (motive := fun best : GpuDevice => 0 ≤ best.deviceId) le_rfl ?_
  intro best chosen device member
  split
  · exact ids device member
  · exact chosen

end GpuManager

end ModelRuntime
