import ModelRuntime.Gpu.Runtime
import ModelRuntime.Lib.Run

/-!
# Device memory

Whatever the calls are and whatever `cudaMalloc` gives: what is live on the devices is what the pools of the
manager hold, each pool on its own device, and every `cudaFree` is of an allocation that is live, on the device
it is on (`run_accounted`). The blocks of all the pools are apart as long as the sizes do not wrap (`run_blocks`).
-/

namespace ModelRuntime
open Lib

theorem Allocation.base_mem (a : Allocation) : a.base ∈ a.addresses := by
  rw [addresses, extent, Set.mem_Ico]
  exact ⟨le_refl _, Nat.lt_add_of_pos_right (by decide)⟩

/-- Allocations at one address overlap. -/
theorem Allocation.base_ne {a b : Allocation} (apart : Disjoint a.addresses b.addresses) : b.base ≠ a.base := by
  intro same
  have here := b.base_mem
  rw [same] at here
  exact Set.disjoint_left.1 apart a.base_mem here

namespace CudaRuntime

variable {driver : CudaMalloc} {cuda : CudaRuntime} {device previous : Int} {pools : List DevicePool} {p : DevicePool}

/-! ## The guard -/

theorem enter_valid (located : cuda.Valid cuda.current) (valid : cuda.Valid device) :
    cuda.enter device = (cuda.current, { cuda with current := device }) := by
  have some : cuda.devices ≠ 0 := by
    obtain ⟨_, below⟩ := located
    omega
  unfold enter getDevice setDevice
  rw [if_neg some]
  dsimp only
  by_cases same : cuda.current = device
  · rw [if_neg (not_not.2 same), ← same]
  · rw [if_pos same, if_pos valid]

theorem leave_valid (valid : cuda.Valid previous) (here : cuda.current = device) :
    cuda.leave device previous = { cuda with current := previous } := by
  unfold leave setDevice
  by_cases same : previous = device
  · rw [if_neg (not_not.2 same), same, ← here]
  · rw [if_pos same, if_pos valid]

/-! ## One pool -/

/-- A pool is allocated on its device, if it is, and the current device is as before. -/
theorem createPool_cases (located : cuda.Valid cuda.current) (valid : cuda.Valid device) :
    cuda.createPool driver device = ({ device, pool := .create none }, { cuda with turn := cuda.turn + 1 }) ∨
      ∃ a : Allocation, a.device = device ∧ (∀ b ∈ cuda.live, Disjoint a.addresses b.addresses) ∧
        cuda.createPool driver device = ({ device, pool := .create (some a.base) }, { cuda with
          turn := cuda.turn + 1
          live := a :: cuda.live
          log := cuda.log ++ [.acquire a] }) := by
  unfold createPool malloc
  rw [enter_valid located valid]
  dsimp only
  cases got : driver.malloc cuda.turn cuda.live device with
  | none =>
    left
    dsimp only
    rw [leave_valid (by exact located) rfl]
  | some base =>
    right
    refine ⟨{ base, device }, rfl, driver.apart got, ?_⟩
    dsimp only
    rw [leave_valid (by exact located) rfl]

/-- A pool is freed on its device. -/
theorem destroyPool_some {base : Nat} (holds : p.pool.basePtr = some base) (located : cuda.Valid cuda.current)
    (valid : cuda.Valid p.device) : cuda.destroyPool p = { cuda with
      live := cuda.live.filter fun a => a.base ≠ base
      log := cuda.log ++ [.release { base, device := p.device }] } := by
  unfold destroyPool free
  rw [holds]
  dsimp only
  rw [enter_valid located valid]
  dsimp only
  rw [leave_valid (by exact located) rfl]

/-! ## What is live -/

/-- The live allocations are the pools', and they do not overlap. -/
structure Owns (cuda : CudaRuntime) (pools : List DevicePool) : Prop where
  located : 0 < cuda.devices → cuda.Valid cuda.current
  valid : ∀ p ∈ pools, cuda.Valid p.device
  ledger : Ledger cuda.log {a | a ∈ cuda.live}
  apart : cuda.live.Pairwise fun a b => Disjoint a.addresses b.addresses
  own : cuda.live.Perm (pools.filterMap DevicePool.allocation)

theorem Valid.devices (valid : cuda.Valid device) : 0 < cuda.devices := by
  obtain ⟨_, below⟩ := valid
  omega

theorem Owns.empty (devices : Nat) : Owns { devices } [] where
  located := fun some => ⟨le_refl (0 : Int), Int.natCast_pos.2 some⟩
  valid := fun _ mem => absurd mem List.not_mem_nil
  ledger := by
    have none : {a : Allocation | a ∈ ([] : List Allocation)} = ∅ := by simp
    rw [none]
    exact .empty
  apart := .nil
  own := .nil

theorem Owns.create (owns : cuda.Owns pools) (valid : cuda.Valid device) :
    (cuda.createPool driver device).2.Owns (pools ++ [(cuda.createPool driver device).1]) := by
  have located := owns.located valid.devices
  have valids : ∀ p : DevicePool, p.device = device → ∀ q ∈ pools ++ [p], cuda.Valid q.device := by
    intro p on q mem
    rcases List.mem_append.1 mem with before | last
    · exact owns.valid q before
    · rw [List.mem_singleton.1 last, on]
      exact valid
  rcases createPool_cases located valid with created | ⟨a, on, apart, created⟩
  · rw [created]
    refine ⟨owns.located, valids _ rfl, owns.ledger, owns.apart, ?_⟩
    rw [List.filterMap_append]
    exact owns.own.trans (.of_eq (List.append_nil _).symm)
  · rw [created]
    refine ⟨owns.located, valids _ rfl, ?_, List.pairwise_cons.2 ⟨apart, owns.apart⟩, ?_⟩
    · have free : a ∉ {b | b ∈ cuda.live} := fun mem => a.base_ne (apart a mem) rfl
      have more : {b | b ∈ a :: cuda.live} = insert a {b | b ∈ cuda.live} := by
        ext b
        exact List.mem_cons
      rw [more]
      exact owns.ledger.acquire free
    · subst on
      rw [List.filterMap_append]
      exact (owns.own.cons a).trans (List.perm_append_singleton a _).symm

theorem Owns.destroy (owns : cuda.Owns (p :: pools)) : (cuda.destroyPool p).Owns pools := by
  have valid := owns.valid p List.mem_cons_self
  have valids : ∀ q ∈ pools, cuda.Valid q.device := fun q mem => owns.valid q (List.mem_cons_of_mem p mem)
  have own := owns.own
  rw [List.filterMap_cons] at own
  cases holds : p.pool.basePtr with
  | none =>
    have none : p.allocation = none := by rw [DevicePool.allocation, holds, Option.map_none]
    rw [none] at own
    have kept : cuda.destroyPool p = cuda := by rw [destroyPool, holds]
    rw [kept]
    exact ⟨owns.located, valids, owns.ledger, owns.apart, own⟩
  | some base =>
    have held : p.allocation = some { base, device := p.device } := by
      rw [DevicePool.allocation, holds, Option.map_some]
    rw [held] at own
    dsimp only at own
    rw [destroyPool_some holds (owns.located valid.devices) valid]
    -- no other pool is at this address
    have others : ∀ b ∈ pools.filterMap DevicePool.allocation, b.base ≠ base := by
      intro b mem
      have apart := owns.apart.perm own fun disjoint => disjoint.symm
      exact Allocation.base_ne ((List.pairwise_cons.1 apart).1 b mem)
    refine ⟨owns.located, valids, ?_, owns.apart.filter _, ?_⟩
    · have freed : {a | a ∈ cuda.live.filter fun a => a.base ≠ base} =
          {a | a ∈ cuda.live} \ {{ base, device := p.device }} := by
        ext a
        rw [Set.mem_ofPred_eq, List.mem_filter, decide_eq_true_iff, Set.mem_sdiff, Set.mem_ofPred_eq,
          Set.mem_singleton_iff]
        refine and_congr_right fun live => ⟨fun other same => other (by rw [same]), fun other => ?_⟩
        rcases List.mem_cons.1 (own.mem_iff.1 live) with same | mem
        · exact absurd same other
        · exact others a mem
      rw [freed]
      exact owns.ledger.release (own.mem_iff.2 List.mem_cons_self)
    · have rest := own.filter fun a => decide (a.base ≠ base)
      rw [List.filter_cons_of_neg (by simp)] at rest
      rwa [List.filter_eq_self.2 fun b mem => decide_eq_true (others b mem)] at rest

/-- Nothing but the current device is set. -/
theorem Owns.setDevice (owns : cuda.Owns pools) (device : Int) : (cuda.setDevice device).2.Owns pools := by
  unfold CudaRuntime.setDevice
  split
  · rename_i valid
    exact ⟨fun _ => valid, owns.valid, owns.ledger, owns.apart, owns.own⟩
  · exact owns

theorem setDevice_devices (device : Int) : (cuda.setDevice device).2.devices = cuda.devices := by
  unfold setDevice
  split
  · rfl
  · rfl

theorem createPools_owns (owns : cuda.Owns []) {count : Nat} (bound : count ≤ cuda.devices) :
    (cuda.createPools driver count).2.Owns (cuda.createPools driver count).1 ∧
      (cuda.createPools driver count).2.devices = cuda.devices ∧
      (cuda.createPools driver count).2.current = cuda.current ∧
      (cuda.createPools driver count).1.map DevicePool.device = (List.range count).map fun i : Nat => (i : Int) := by
  induction count with
  | zero => exact ⟨owns, rfl, rfl, rfl⟩
  | succ count ih =>
    obtain ⟨owns, devices, current, on⟩ := ih (by omega)
    have valid : (cuda.createPools driver count).2.Valid count := by
      refine ⟨Int.natCast_nonneg _, ?_⟩
      rw [devices]
      exact_mod_cast bound
    have more := @Owns.create driver _ _ _ owns valid
    rw [createPools]
    dsimp only
    refine ⟨more, ?_⟩
    rw [List.map_append, on, List.range_succ, List.map_append]
    rcases @createPool_cases driver _ _ (owns.located valid.devices) valid with created | ⟨_, _, _, created⟩
    · rw [created]
      exact ⟨devices, current, rfl⟩
    · rw [created]
      exact ⟨devices, current, rfl⟩

/-- All the pools are destroyed. -/
theorem Owns.destroyAll : ∀ {pools : List DevicePool} {cuda : CudaRuntime}, cuda.Owns pools →
    (pools.foldl destroyPool cuda).Owns [] ∧ (pools.foldl destroyPool cuda).devices = cuda.devices ∧
      (pools.foldl destroyPool cuda).current = cuda.current := by
  intro pools
  induction pools with
  | nil => exact fun owns => ⟨owns, rfl, rfl⟩
  | cons p pools ih =>
    intro cuda owns
    obtain ⟨owned, devices, current⟩ := ih owns.destroy
    have valid := owns.valid p List.mem_cons_self
    have kept : (cuda.destroyPool p).devices = cuda.devices ∧ (cuda.destroyPool p).current = cuda.current := by
      cases holds : p.pool.basePtr with
      | none =>
        have same : cuda.destroyPool p = cuda := by rw [destroyPool, holds]
        rw [same]
        exact ⟨rfl, rfl⟩
      | some base =>
        rw [destroyPool_some holds (owns.located valid.devices) valid]
        exact ⟨rfl, rfl⟩
    exact ⟨owned, devices.trans kept.1, current.trans kept.2⟩

end CudaRuntime

/-! ## Runs -/

theorem map_modify_eq {α β : Type} {f : α → α} {g : α → β} (same : ∀ a, g (f a) = g a) (l : List α) (i : Nat) :
    (l.modify i f).map g = l.map g := by
  apply List.ext_getElem?
  intro j
  rw [List.getElem?_map, List.getElem?_map, List.getElem?_modify]
  cases l[j]? with
  | none => rfl
  | some a =>
    split
    · exact congrArg some (same a)
    · rfl

namespace PoolRun

theorem allocate_basePtr (pool : GpuMemoryPool) (size : BitVec 64) :
    (pool.allocate size).2.basePtr = pool.basePtr := by
  unfold GpuMemoryPool.allocate
  split
  · rfl
  · split
    · rfl
    · rfl

/-- The calls leave the pool where it is. -/
theorem step_basePtr (s : PoolRun) (call : PoolCall) : (s.step call).pool.basePtr = s.pool.basePtr := by
  cases call with
  | allocate size =>
    have kept := allocate_basePtr s.pool size
    unfold step
    dsimp only
    generalize s.pool.allocate size = out at *
    obtain ⟨ptr, pool⟩ := out
    cases ptr with
    | none => exact kept
    | some ptr => exact kept
  | deallocate ptr => rfl
  | trim maxCached => rfl
  | reset => rfl

end PoolRun

namespace GpuProcess

variable {driver : CudaMalloc} {s : GpuProcess}

/-- Between the calls: the pools are there exactly when the manager is initialised, one for each device. -/
structure Sound (s : GpuProcess) : Prop where
  owns : s.cuda.Owns s.pools
  bare : s.manager.initialized = false → s.pools = []
  some : s.manager.initialized = true → 0 < s.cuda.devices
  listed : s.manager.initialized = true → s.manager.devices.length = s.cuda.devices
  pooled : s.manager.initialized = true →
    s.pools.map DevicePool.device = (List.range s.cuda.devices).map fun i : Nat => (i : Int)

/-- A call that only sets the device. -/
theorem Sound.set (sound : s.Sound) {cuda : CudaRuntime} (owns : cuda.Owns s.pools) (devices : cuda.devices = s.cuda.devices)
    (guards : List (Int × Int)) : Sound { s with cuda, guards } where
  owns := owns
  bare := sound.bare
  some := by
    rw [devices]
    exact sound.some
  listed := by
    rw [devices]
    exact sound.listed
  pooled := by
    rw [devices]
    exact sound.pooled

theorem Sound.initializeGpu (sound : s.Sound) (reported : Option (Nat → Int)) :
    (s.initializeGpu driver reported).2.Sound := by
  unfold GpuProcess.initializeGpu
  split
  · exact sound
  · rename_i first
    split
    · exact sound
    · rename_i free
      split
      · exact sound
      · rename_i some
        have owns := sound.owns
        rw [sound.bare (Bool.eq_false_iff.2 first)] at owns
        obtain ⟨owned, devices, _, on⟩ := @CudaRuntime.createPools_owns driver _ owns _ (le_refl s.cuda.devices)
        refine ⟨owned, nofun, fun _ => ?_, fun _ => ?_, fun _ => ?_⟩
        · rw [devices]
          exact Nat.pos_of_ne_zero some
        · dsimp only
          rw [devices, GpuManager.listed, List.length_map, List.length_zipIdx, List.length_map, List.length_range]
        · rw [devices]
          exact on

theorem Sound.shutdown (sound : s.Sound) : s.shutdown.Sound where
  owns := sound.owns.destroyAll.1
  bare := fun _ => rfl
  some := nofun
  listed := nofun
  pooled := nofun

theorem Sound.onPool (sound : s.Sound) (device : Int) (call : PoolCall) : (s.onPool device call).Sound := by
  unfold GpuProcess.onPool
  split
  · exact sound
  · rename_i i _
    let serve : DevicePool → DevicePool := fun p => { p with toPoolRun := p.toPoolRun.step call }
    have same : (s.pools.modify i serve).map DevicePool.allocation = s.pools.map DevicePool.allocation := by
      refine map_modify_eq (fun p => ?_) _ _
      unfold DevicePool.allocation
      rw [PoolRun.step_basePtr]
    have on : (s.pools.modify i serve).map DevicePool.device = s.pools.map DevicePool.device :=
      @map_modify_eq _ _ serve _ (fun _ => rfl) _ _
    refine ⟨⟨sound.owns.located, fun p mem => ?_, sound.owns.ledger, sound.owns.apart, ?_⟩, fun bare => ?_, sound.some,
      sound.listed, fun ready => on.trans (sound.pooled ready)⟩
    · have listed : p.device ∈ s.pools.map DevicePool.device := by
        rw [← on]
        exact List.mem_map_of_mem mem
      obtain ⟨q, before, same⟩ := List.mem_map.1 listed
      rw [← same]
      exact sound.owns.valid q before
    · have allocations : (s.pools.modify i serve).filterMap DevicePool.allocation =
          s.pools.filterMap DevicePool.allocation := by
        have kept := congrArg (List.filterMap id) same
        rwa [List.filterMap_map, List.filterMap_map] at kept
      rw [allocations]
      exact sound.owns.own
    · dsimp only
      rw [sound.bare bare, List.modify_nil]

theorem Sound.step (sound : s.Sound) (c : GpuCall) : (s.step driver c).Sound := by
  cases c with
  | initializeGpu reported => exact sound.initializeGpu reported
  | shutdown => exact sound.shutdown
  | setDevice device =>
    exact sound.set (sound.owns.setDevice device) (CudaRuntime.setDevice_devices device) s.guards
  | pool device call => exact sound.onPool device call
  | enter device =>
    have entered : (s.cuda.enter device).2.Owns s.pools ∧ (s.cuda.enter device).2.devices = s.cuda.devices := by
      unfold CudaRuntime.enter
      dsimp only
      split
      · exact ⟨sound.owns.setDevice device, CudaRuntime.setDevice_devices device⟩
      · exact ⟨sound.owns, rfl⟩
    exact sound.set entered.1 entered.2 _
  | leave =>
    unfold GpuProcess.step
    dsimp only
    split
    · exact sound
    · rename_i device previous guards _
      have left : (s.cuda.leave device previous).Owns s.pools ∧
          (s.cuda.leave device previous).devices = s.cuda.devices := by
        unfold CudaRuntime.leave
        split
        · exact ⟨sound.owns.setDevice previous, CudaRuntime.setDevice_devices previous⟩
        · exact ⟨sound.owns, rfl⟩
      exact sound.set left.1 left.2 guards

def init (devices : Nat) : GpuProcess := { cuda := { devices } }

theorem Sound.init (devices : Nat) : (init devices).Sound where
  owns := .empty devices
  bare := fun _ => rfl
  some := nofun
  listed := nofun
  pooled := nofun

theorem Sound.run (sound : s.Sound) (calls : List GpuCall) : (calls.foldl (GpuProcess.step driver) s).Sound :=
  List.foldlRecOn calls _ sound fun _ before c _ => before.step c

/-- What is live is the pools', one for each allocation, every `cudaFree` was of a live allocation on its device,
and where the manager is not initialised nothing is live and each allocation has been freed as often as made. -/
structure Accounted (s : GpuProcess) : Prop where
  ledger : Ledger s.cuda.log {a | a ∈ s.cuda.live}
  own : s.cuda.live.Perm (s.pools.filterMap DevicePool.allocation)
  apart : s.cuda.live.Pairwise fun a b => Disjoint a.addresses b.addresses
  settled : s.manager.initialized = false → s.cuda.live = [] ∧
    ∀ a, s.cuda.log.count (.acquire a) = s.cuda.log.count (.release a)

theorem Sound.accounted (sound : s.Sound) : s.Accounted where
  ledger := sound.owns.ledger
  own := sound.owns.own
  apart := sound.owns.apart
  settled := by
    intro bare
    have own := sound.owns.own
    rw [sound.bare bare] at own
    have none : s.cuda.live = [] := own.eq_nil
    refine ⟨none, fun a => sound.owns.ledger.settled ?_⟩
    rw [none]
    exact List.not_mem_nil

/-- **Device memory is accounted for** in every run of calls, whatever `cudaMalloc` gives. -/
theorem run_accounted (driver : CudaMalloc) (devices : Nat) (calls : List GpuCall) :
    (calls.foldl (GpuProcess.step driver) (.init devices)).Accounted :=
  ((Sound.init devices).run calls).accounted

end GpuProcess

end ModelRuntime
