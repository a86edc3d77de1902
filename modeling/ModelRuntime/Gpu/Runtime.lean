import ModelRuntime.Cpp.Bytes
import ModelRuntime.Gpu.Manager
import ModelRuntime.Gpu.MemoryPool
import ModelRuntime.Lib.Ledger

/-!
# The pools of the GPU manager

`GpuManager` with its memory pools and the `GpuDeviceGuard`s of the thread that calls it, on a CUDA runtime: a
current device, and the `cudaMalloc`s that have not been freed. What `cudaMalloc` gives is up to the driver, but
for what it promises: a range that overlaps none that is live.
-/

namespace ModelRuntime
open Cpp Lib

/-- What the `cudaMalloc` of a pool has given, and the device that was current. -/
structure Allocation where
  base : Nat
  device : Int
  deriving DecidableEq

/-- The size of a pool. -/
def poolBytes : BitVec 64 := 256 * 1024 * 1024

def Allocation.addresses (a : Allocation) : Set Nat := extent a.base poolBytes

/-- `cudaMalloc`, by the number of the call, what is live and the current device. -/
structure CudaMalloc where
  malloc : Nat → List Allocation → Int → Option Nat
  apart : ∀ {turn : Nat} {live : List Allocation} {device : Int} {base : Nat}, malloc turn live device = some base →
    ∀ a ∈ live, Disjoint (extent base poolBytes) a.addresses

/-- A `GpuMemoryPool` with the blocks it has handed out since its last reset. -/
structure DevicePool extends PoolRun where
  device : Int

/-- What the pool has got from `cudaMalloc`. -/
def DevicePool.allocation (p : DevicePool) : Option Allocation :=
  p.pool.basePtr.map fun base => { base, device := p.device }

structure CudaRuntime where
  devices : Nat
  current : Int := 0
  live : List Allocation := []
  turn : Nat := 0
  /-- The allocations that succeeded, and the calls of `cudaFree`, each with the device that was current. -/
  log : List (Entry Allocation) := []

namespace CudaRuntime

variable (driver : CudaMalloc) (cuda : CudaRuntime)

def Valid (device : Int) : Prop := 0 ≤ device ∧ device < cuda.devices

instance (device : Int) : Decidable (cuda.Valid device) := inferInstanceAs (Decidable (_ ∧ _))

/-- The device that `cudaGetDevice` leaves in a variable that is -1. -/
def getDevice : Int := if cuda.devices = 0 then -1 else cuda.current

def setDevice (device : Int) : Bool × CudaRuntime :=
  if cuda.Valid device then (true, { cuda with current := device }) else (false, cuda)

/-- The constructor of a `GpuDeviceGuard`, with its `previous_device_`. -/
def enter (device : Int) : Int × CudaRuntime :=
  let previous := cuda.getDevice
  (previous, if previous ≠ device then (cuda.setDevice device).2 else cuda)

/-- The destructor. -/
def leave (device previous : Int) : CudaRuntime :=
  if previous ≠ device then (cuda.setDevice previous).2 else cuda

def malloc : Option Nat × CudaRuntime :=
  match driver.malloc cuda.turn cuda.live cuda.current with
  | none => (none, { cuda with turn := cuda.turn + 1 })
  | some base =>
    let a : Allocation := { base, device := cuda.current }
    (some base, { cuda with turn := cuda.turn + 1, live := a :: cuda.live, log := cuda.log ++ [.acquire a] })

def free (base : Nat) : CudaRuntime :=
  { cuda with
    live := cuda.live.filter fun a => a.base ≠ base
    log := cuda.log ++ [.release { base, device := cuda.current }] }

/-- The constructor of `GpuMemoryPool::Impl`. -/
def createPool (device : Int) : DevicePool × CudaRuntime :=
  let (previous, cuda) := cuda.enter device
  let (base, cuda) := cuda.malloc driver
  ({ device, pool := .create base }, cuda.leave device previous)

/-- The destructor. -/
def destroyPool (p : DevicePool) : CudaRuntime :=
  match p.pool.basePtr with
  | none => cuda
  | some base =>
    let (previous, cuda) := cuda.enter p.device
    (cuda.free base).leave p.device previous

/-- The loop of `initialize` over the first devices. -/
def createPools : Nat → List DevicePool × CudaRuntime
  | 0 => ([], cuda)
  | i + 1 =>
    let (pools, cuda) := createPools i
    let (p, cuda) := cuda.createPool driver i
    (pools ++ [p], cuda)

end CudaRuntime

/-- A call of the manager, of one of its pools, or of a guard. -/
inductive GpuCall where
  /-- The free memory of the devices, `none` where they cannot be counted. -/
  | initializeGpu (reported : Option (Nat → Int))
  | shutdown
  | setDevice (device : Int)
  | pool (device : Int) (call : PoolCall)
  | enter (device : Int)
  /-- The innermost guard is destroyed. -/
  | leave

/-- The runtime, the manager, and `device_id_` and `previous_device_` of the open guards, the innermost first. -/
structure GpuProcess where
  cuda : CudaRuntime
  manager : GpuManager := {}
  pools : List DevicePool := []
  guards : List (Int × Int) := []

namespace GpuProcess

variable (driver : CudaMalloc) (s : GpuProcess)

def initializeGpu (reported : Option (Nat → Int)) : Bool × GpuProcess :=
  if s.manager.initialized then (true, s)
  else
    match reported with
    | none => (false, s)
    | some free =>
      if s.cuda.devices = 0 then (false, s)
      else
        let (pools, cuda) := s.cuda.createPools driver s.cuda.devices
        let devices := GpuManager.listed ((List.range s.cuda.devices).map free)
        (true, { s with cuda, pools, manager := { initialized := true, devices } })

def shutdown : GpuProcess :=
  { s with cuda := s.pools.foldl CudaRuntime.destroyPool s.cuda, pools := [], manager := {} }

/-- The index that `get_memory_pool` uses, which throws at any other. -/
def getMemoryPool (device : Int) : Except StdException Nat :=
  if device < 0 ∨ s.pools.length ≤ device then .error (.runtimeError (str "Invalid device ID"))
  else .ok device.toNat

/-- A call on the pool of a device. -/
def onPool (device : Int) (call : PoolCall) : GpuProcess :=
  match s.getMemoryPool device with
  | .error _ => s
  | .ok i => { s with pools := s.pools.modify i fun p => { p with toPoolRun := p.toPoolRun.step call } }

def step : GpuCall → GpuProcess
  | .initializeGpu reported => (s.initializeGpu driver reported).2
  | .shutdown => s.shutdown
  | .setDevice device => { s with cuda := (s.cuda.setDevice device).2 }
  | .pool device call => s.onPool device call
  | .enter device =>
    let (previous, cuda) := s.cuda.enter device
    { s with cuda, guards := (device, previous) :: s.guards }
  | .leave =>
    match s.guards with
    | [] => s
    | (device, previous) :: guards => { s with cuda := s.cuda.leave device previous, guards }

variable {driver s}

/-- What the manager lists is what `Gpu.Manager` says. -/
theorem initializeGpu_manager (reported : Option (Nat → Int)) :
    let found := reported.map fun free => (List.range s.cuda.devices).map free
    (s.initializeGpu driver reported).1 = (s.manager.initializeGpu true found).1 ∧
      (s.initializeGpu driver reported).2.manager = (s.manager.initializeGpu true found).2 := by
  unfold initializeGpu GpuManager.initializeGpu
  cases s.manager.initialized with
  | true => exact ⟨rfl, rfl⟩
  | false =>
    cases reported with
    | none => exact ⟨rfl, rfl⟩
    | some free =>
      dsimp only [Option.map_some]
      rw [List.length_map, List.length_range]
      by_cases empty : s.cuda.devices = 0
      · rw [if_neg (by decide), if_pos empty, if_neg (by decide), if_neg (by decide), if_pos empty]
        exact ⟨rfl, rfl⟩
      · rw [if_neg (by decide), if_neg empty, if_neg (by decide), if_neg (by decide), if_neg empty]
        exact ⟨rfl, rfl⟩

end GpuProcess

end ModelRuntime
