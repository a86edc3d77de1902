import ModelRuntime.Gpu.Memory

/-!
# The blocks of all the pools

A pool carves its blocks out of what `cudaMalloc` has given it. As long as no size wraps, the blocks of one
pool lie in its allocation and apart from each other (`Gpu.MemoryPool`); the allocations are apart, so all the
blocks that are in use are, on whatever device.
-/

namespace ModelRuntime
open Lib

/-- The addresses of a block. -/
def blockAddresses (b : Nat × BitVec 64) : Set Nat := extent b.1 b.2

/-- The blocks of a pool lie in its allocation, apart from each other. -/
structure DevicePool.Packed (p : DevicePool) : Prop where
  bare : p.pool.basePtr = none → p.blocks = []
  inv : ∀ base, p.pool.basePtr = some base → PoolRun.Inv base p.toPoolRun
  inside : ∀ base, p.pool.basePtr = some base → ∀ b ∈ p.blocks, blockAddresses b ⊆ extent base poolBytes
  apart : p.blocks.Pairwise fun b c => Disjoint (blockAddresses b) (blockAddresses c)

theorem DevicePool.Packed.create (device : Int) (base : Option Nat) :
    DevicePool.Packed { device, pool := .create base } where
  bare := fun _ => rfl
  inv := by
    intro _ got
    cases base with
    | none => cases got
    | some given =>
      cases got
      exact PoolRun.create_inv _
  inside := fun _ _ _ mem => absurd mem List.not_mem_nil
  apart := .nil

/-- A call without new blocks. -/
theorem DevicePool.Packed.same {p q : DevicePool} (packed : p.Packed) (here : q.pool.basePtr = p.pool.basePtr)
    (inv : ∀ base, p.pool.basePtr = some base → PoolRun.Inv base q.toPoolRun) (fewer : q.blocks.Sublist p.blocks) :
    q.Packed where
  bare := by
    intro none
    rw [here] at none
    rw [packed.bare none] at fewer
    exact List.sublist_nil.1 fewer
  inv := by
    rw [here]
    exact inv
  inside := by
    rw [here]
    exact fun base got b mem => packed.inside base got b (fewer.subset mem)
  apart := packed.apart.sublist fewer

theorem DevicePool.Packed.step {p : DevicePool} (packed : p.Packed) {call : PoolCall}
    (fits : ∀ base, p.pool.basePtr = some base → p.toPoolRun.Fits call) :
    DevicePool.Packed { p with toPoolRun := p.toPoolRun.step call } := by
  have here := PoolRun.step_basePtr p.toPoolRun call
  have inv : ∀ base, p.pool.basePtr = some base → PoolRun.Inv base (p.toPoolRun.step call) :=
    fun base got => (PoolRun.step_fits (packed.inv base got) (fits base got)).2
  cases call with
  | deallocate ptr => exact packed.same here inv (.refl _)
  | trim maxCached => exact packed.same here inv (.refl _)
  | reset => exact packed.same here inv (List.nil_sublist _)
  | allocate size =>
    cases got : p.pool.basePtr with
    | none =>
      have same : p.toPoolRun.step (.allocate size) = p.toPoolRun := by
        unfold PoolRun.step GpuMemoryPool.allocate
        dsimp only
        rw [got]
      rw [same]
      exact packed
    | some base =>
      have safe := (PoolRun.step_fits (packed.inv base got) (fits base got)).1
      cases served : p.pool.allocate size with
      | mk ptr pool =>
        cases ptr with
        | none =>
          refine packed.same here inv ?_
          unfold PoolRun.step
          dsimp only
          rw [served]
        | some ptr =>
          obtain ⟨_, inside, apart⟩ := safe.block size ptr rfl (by rw [served])
          have total : p.pool.totalSize = poolBytes :=
            BitVec.eq_of_toNat_eq ((packed.inv base got).total.trans (by decide))
          rw [total] at inside
          have blocks : (p.toPoolRun.step (.allocate size)).blocks = (ptr, size) :: p.blocks := by
            unfold PoolRun.step
            dsimp only
            rw [served]
          refine ⟨fun none => ?_, ?_, ?_, ?_⟩
          · rw [here, got] at none
            cases none
          · rw [here]
            exact inv
          · rw [here, got]
            rintro _ ⟨⟩ b mem
            rw [blocks] at mem
            rcases List.mem_cons.1 mem with rfl | before
            · exact inside
            · exact packed.inside base got b before
          · rw [blocks]
            exact List.pairwise_cons.2 ⟨apart, packed.apart⟩

namespace GpuProcess

variable {driver : CudaMalloc} {s : GpuProcess}

/-- The size asked for of a pool that has memory fits beside what is in use, in 64 bits. -/
def Fits (s : GpuProcess) (c : GpuCall) : Prop :=
  ∀ device call i, c = .pool device call → s.getMemoryPool device = .ok i → ∀ p base, s.pools[i]? = some p →
    p.pool.basePtr = some base → p.toPoolRun.Fits call

def Packed (s : GpuProcess) : Prop := ∀ p ∈ s.pools, p.Packed

theorem createPools_packed {cuda : CudaRuntime} (count : Nat) :
    ∀ p ∈ (cuda.createPools driver count).1, p.Packed := by
  induction count with
  | zero => exact fun _ mem => absurd mem List.not_mem_nil
  | succ count ih =>
    intro p mem
    rw [CudaRuntime.createPools] at mem
    rcases List.mem_append.1 mem with before | last
    · exact ih p before
    · rw [List.mem_singleton.1 last]
      exact .create _ _

theorem Packed.step (packed : s.Packed) {c : GpuCall} (fits : s.Fits c) : (s.step driver c).Packed := by
  cases c with
  | initializeGpu reported =>
    unfold GpuProcess.step GpuProcess.initializeGpu
    dsimp only
    split
    · exact packed
    · split
      · exact packed
      · split
        · exact packed
        · exact createPools_packed _
  | shutdown => exact fun _ mem => absurd mem List.not_mem_nil
  | setDevice device => exact packed
  | enter device => exact packed
  | leave =>
    unfold GpuProcess.step
    dsimp only
    split
    · exact packed
    · exact packed
  | pool device call =>
    show (s.onPool device call).Packed
    unfold GpuProcess.onPool
    split
    · exact packed
    · rename_i i found
      intro q mem
      obtain ⟨j, at_j⟩ := List.getElem?_of_mem mem
      rw [List.getElem?_modify] at at_j
      obtain ⟨p, before, changed⟩ := Option.map_eq_some_iff.1 at_j
      rw [← changed]
      split
      · rename_i same
        subst same
        exact (packed p (List.mem_of_getElem? before)).step fun base => fits device call i rfl found p base before
      · exact packed p (List.mem_of_getElem? before)

/-- Each block in use lies in a live allocation of its device, and no two of them overlap. -/
structure BlocksApart (s : GpuProcess) : Prop where
  inside : ∀ p ∈ s.pools, ∀ b ∈ p.blocks, ∃ a ∈ s.cuda.live, a.device = p.device ∧ blockAddresses b ⊆ a.addresses
  apart : (s.pools.flatMap fun p => p.blocks).Pairwise fun b c => Disjoint (blockAddresses b) (blockAddresses c)

theorem Packed.block (packed : s.Packed) {p : DevicePool} (mem : p ∈ s.pools) {b : Nat × BitVec 64} (used : b ∈ p.blocks) :
    ∃ a, p.allocation = some a ∧ a.device = p.device ∧ blockAddresses b ⊆ a.addresses := by
  cases got : p.pool.basePtr with
  | none =>
    rw [(packed p mem).bare got] at used
    exact absurd used List.not_mem_nil
  | some base =>
    refine ⟨{ base, device := p.device }, ?_, rfl, (packed p mem).inside base got b used⟩
    rw [DevicePool.allocation, got, Option.map_some]

theorem Sound.blocksApart (sound : s.Sound) (packed : s.Packed) : s.BlocksApart where
  inside := by
    intro p mem b used
    obtain ⟨a, held, on, inside⟩ := packed.block mem used
    exact ⟨a, sound.owns.own.mem_iff.2 (List.mem_filterMap.2 ⟨p, mem, held⟩), on, inside⟩
  apart := by
    have apart := sound.owns.apart.perm sound.owns.own fun disjoint => disjoint.symm
    rw [List.pairwise_filterMap] at apart
    refine List.pairwise_flatMap.2 ⟨fun p mem => (packed p mem).apart, apart.imp_of_mem ?_⟩
    intro p q here there allocations b used c used'
    obtain ⟨_, held, _, inside⟩ := packed.block here used
    obtain ⟨_, held', _, inside'⟩ := packed.block there used'
    exact (allocations _ held _ held').mono inside inside'

/-- **The blocks of all the pools** lie in the live allocations of their devices and do not overlap, in every
run of calls whose sizes do not wrap. -/
theorem run_blocks (driver : CudaMalloc) (devices : Nat) (calls : List GpuCall)
    (fits : Along (GpuProcess.step driver) Fits (.init devices) calls) :
    (calls.foldl (GpuProcess.step driver) (.init devices)).BlocksApart := by
  have empty : (GpuProcess.init devices).Packed := fun _ mem => absurd mem List.not_mem_nil
  have packed := @along_inv _ _ (GpuProcess.step driver) Fits GpuProcess.Packed
    (fun _ _ before fits => Packed.step before fits) calls _ empty fits
  exact ((Sound.init devices).run calls).blocksApart packed

/-- No size from 2^63 on is asked for. -/
def Small : GpuCall → Prop
  | .pool _ (.allocate size) => size.toNat < 2 ^ 63
  | _ => True

theorem Packed.fits (packed : s.Packed) {c : GpuCall} (small : Small c) : s.Fits c := by
  rintro device call i rfl _ p base at_i got size rfl
  have bound : size.toNat < 2 ^ 63 := small
  have capacity := ((packed p (List.mem_of_getElem? at_i)).inv base got).capacity
  omega

/-- Small sizes fit, whatever has been allocated. -/
theorem Packed.fitsAlong : ∀ (calls : List GpuCall) {s : GpuProcess}, s.Packed → (∀ c ∈ calls, Small c) →
    Along (GpuProcess.step driver) Fits s calls := by
  intro calls
  induction calls with
  | nil => intro _ _ _; trivial
  | cons c calls ih =>
    intro s packed small
    have fits := packed.fits (small c List.mem_cons_self)
    exact ⟨fits, ih (packed.step fits) fun c mem => small c (List.mem_cons_of_mem _ mem)⟩

/-- An address behind everything that is live. -/
def above (live : List Allocation) : Nat := 4096 + (live.map fun a => a.base + poolBytes.toNat).sum

/-- A `cudaMalloc` that never refuses. -/
def roomy : CudaMalloc where
  malloc _ live _ := some (above live)
  apart := by
    intro _ live _ base got a mem
    obtain rfl := Option.some.inj got
    have below : a.base + poolBytes.toNat ≤ (live.map fun a => a.base + poolBytes.toNat).sum :=
      List.le_sum_of_mem (List.mem_map_of_mem mem)
    rw [above, Allocation.addresses, extent, extent, Set.Ico_disjoint_Ico]
    omega

/-- Two blocks of the first device and one of the second. -/
theorem run_blocks_three :
    (([.initializeGpu (some fun _ => 100), .pool 0 (.allocate 1000), .pool 1 (.allocate 300),
      .pool 0 (.allocate 7)] : List GpuCall).foldl (GpuProcess.step roomy) (.init 2)).BlocksApart := by
  refine run_blocks roomy 2 _ (Packed.fitsAlong _ (fun _ mem => absurd mem List.not_mem_nil) ?_)
  simp [Small]

end GpuProcess

end ModelRuntime
