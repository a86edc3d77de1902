import Mathlib
import ModelRuntime.Lib.Run

/-!
# The GPU memory pool

`GpuMemoryPool` is a bump allocator over one `cudaMalloc` block. Sizes are `size_t`, so the rounding
to 256 bytes and the capacity test wrap at 2^64. `run_safe_iff` says which allocation sizes the
pool serves correctly: the ones whose rounded size, added to what is in use, stays below 2^64.
-/

namespace ModelRuntime
open Lib

/-- `GpuMemoryPool::Impl`; `basePtr` is an address, `none` for the null pointer. -/
structure GpuMemoryPool where
  basePtr : Option Nat := none
  totalSize : BitVec 64 := 0
  usedSize : BitVec 64 := 0
  reservedSize : BitVec 64 := 0

namespace GpuMemoryPool

/-- The constructor, on what `cudaMalloc` gave for the 256 MB block. -/
def create (cudaMalloc : Option Nat) : GpuMemoryPool :=
  let total : BitVec 64 := 256 * 1024 * 1024
  match cudaMalloc with
  | some base => { basePtr := some base, totalSize := total, reservedSize := total }
  | none => { basePtr := none, totalSize := 0 }

/-- `(size + 255) & ~255`. -/
def alignedSize (size : BitVec 64) : BitVec 64 := (size + 255#64) &&& ~~~255#64

def allocate (pool : GpuMemoryPool) (size : BitVec 64) : Option Nat × GpuMemoryPool :=
  match pool.basePtr with
  | none => (none, pool)
  | some base =>
    if pool.totalSize < pool.usedSize + alignedSize size then (none, pool)
    else (some (base + pool.usedSize.toNat),
      { pool with usedSize := pool.usedSize + alignedSize size })

/-- The pool is reset all at once. -/
def deallocate (pool : GpuMemoryPool) (_ptr : Nat) : GpuMemoryPool := pool

def trim (pool : GpuMemoryPool) (_maxCached : BitVec 64) : GpuMemoryPool := pool

def reset (pool : GpuMemoryPool) : GpuMemoryPool := { pool with usedSize := 0 }

end GpuMemoryPool

/-- A call on the pool. -/
inductive PoolCall where
  | allocate (size : BitVec 64)
  | deallocate (ptr : Nat)
  | trim (maxCached : BitVec 64)
  | reset
  deriving DecidableEq

/-- The pool and the blocks handed out since the last reset, each with the size asked for. -/
structure PoolRun where
  pool : GpuMemoryPool
  blocks : List (Nat × BitVec 64) := []

/-- The addresses of a block. -/
def extent (ptr : Nat) (size : BitVec 64) : Set Nat := Set.Ico ptr (ptr + size.toNat)

namespace PoolRun
open GpuMemoryPool

def step (s : PoolRun) : PoolCall → PoolRun
  | .allocate size => match s.pool.allocate size with
    | (some ptr, pool) => ⟨pool, (ptr, size) :: s.blocks⟩
    | (none, pool) => ⟨pool, s.blocks⟩
  | .deallocate ptr => ⟨s.pool.deallocate ptr, s.blocks⟩
  | .trim maxCached => ⟨s.pool.trim maxCached, s.blocks⟩
  | .reset => ⟨s.pool.reset, []⟩

/-- A block handed out for `size`: aligned, inside the pool, apart from the others. -/
structure BlockOk (s : PoolRun) (base ptr : Nat) (size : BitVec 64) : Prop where
  aligned : ∃ k, ptr = base + 256 * k
  inside : extent ptr size ⊆ extent base s.pool.totalSize
  apart : ∀ b ∈ s.blocks, Disjoint (extent ptr size) (extent b.1 b.2)

/-- What a call must do. -/
structure StepSafe (base : Nat) (s : PoolRun) (call : PoolCall) : Prop where
  capacity : (s.step call).pool.usedSize ≤ (s.step call).pool.totalSize
  monotone : call ≠ .reset → s.pool.usedSize ≤ (s.step call).pool.usedSize
  block : ∀ size ptr, call = .allocate size → (s.pool.allocate size).1 = some ptr →
    s.BlockOk base ptr size

/-- The size asked for, rounded up to 256 bytes, fits beside what is in use in 64 bits. -/
def Fits (s : PoolRun) (call : PoolCall) : Prop :=
  ∀ size, call = .allocate size →
    s.pool.usedSize.toNat + (size.toNat + 255) / 256 * 256 < 2 ^ 64

/-- Between calls: the blocks lie in the used part of the pool, which ends on a 256-byte boundary. -/
structure Inv (base : Nat) (s : PoolRun) : Prop where
  basePtr : s.pool.basePtr = some base
  total : s.pool.totalSize.toNat = 2 ^ 28
  capacity : s.pool.usedSize.toNat ≤ 2 ^ 28
  aligned : s.pool.usedSize.toNat % 256 = 0
  used : ∀ b ∈ s.blocks, b.1 + b.2.toNat ≤ base + s.pool.usedSize.toNat

variable {base : Nat} {s : PoolRun}

theorem create_inv (base : Nat) : Inv base ⟨create (some base), []⟩ :=
  ⟨rfl, rfl, Nat.zero_le _, rfl, by simp⟩

theorem and_not_255 (x : BitVec 64) : (x &&& ~~~255#64).toNat = x.toNat / 256 * 256 := by
  have shape : x &&& ~~~255#64 = (x >>> 8) <<< 8 := by
    apply BitVec.eq_of_getLsbD_eq
    intro i hi
    have mask : (255 : Nat).testBit i = decide (i < 8) := Nat.testBit_two_pow_sub_one 8 i
    rw [BitVec.getLsbD_and, BitVec.getLsbD_not, BitVec.getLsbD_ofNat, BitVec.getLsbD_shiftLeft,
      BitVec.getLsbD_ushiftRight, mask]
    by_cases low : i < 8
    · simp [hi, low]
    · simp [hi, low, show 8 + (i - 8) = i by omega]
  rw [shape]
  have := x.isLt
  simp only [BitVec.toNat_shiftLeft, BitVec.toNat_ushiftRight, Nat.shiftLeft_eq,
    Nat.shiftRight_eq_div_pow]
  omega

theorem alignedSize_toNat (size : BitVec 64) :
    (alignedSize size).toNat = (size.toNat + 255) % 2 ^ 64 / 256 * 256 := by
  rw [alignedSize, and_not_255, BitVec.toNat_add]
  rfl

/-- `allocate` in numbers: it refuses, or bumps `usedSize` by the aligned size, modulo 2^64. -/
theorem allocate_cases (h : Inv base s) (size : BitVec 64) :
    (s.pool.allocate size = (none, s.pool) ∧
      2 ^ 28 < (s.pool.usedSize.toNat + (alignedSize size).toNat) % 2 ^ 64) ∨
    (s.pool.allocate size = (some (base + s.pool.usedSize.toNat),
        { s.pool with usedSize := s.pool.usedSize + alignedSize size }) ∧
      (s.pool.usedSize.toNat + (alignedSize size).toNat) % 2 ^ 64 ≤ 2 ^ 28) := by
  have sum : (s.pool.usedSize + alignedSize size).toNat =
      (s.pool.usedSize.toNat + (alignedSize size).toNat) % 2 ^ 64 := BitVec.toNat_add ..
  unfold allocate
  rw [h.basePtr]
  dsimp only
  by_cases full : s.pool.totalSize < s.pool.usedSize + alignedSize size
  · rw [if_pos full]
    rw [BitVec.lt_def, h.total, sum] at full
    exact Or.inl ⟨rfl, full⟩
  · rw [if_neg full]
    rw [BitVec.lt_def, h.total, sum] at full
    exact Or.inr ⟨by rw [h.basePtr], by omega⟩

/-- Where the request fits, nothing wraps. -/
theorem allocate_fits {size : BitVec 64} (fits : s.Fits (.allocate size)) :
    (alignedSize size).toNat = (size.toNat + 255) / 256 * 256 ∧
      (s.pool.usedSize + alignedSize size).toNat =
        s.pool.usedSize.toNat + (size.toNat + 255) / 256 * 256 := by
  have bound := fits size rfl
  have aligned : (alignedSize size).toNat = (size.toNat + 255) / 256 * 256 := by
    rw [alignedSize_toNat, Nat.mod_eq_of_lt]
    omega
  refine ⟨aligned, ?_⟩
  rw [BitVec.toNat_add, aligned, Nat.mod_eq_of_lt bound]

/-- Where it does not, the call hands out a block larger than the pool or takes `usedSize` back. -/
theorem allocate_wraps (h : Inv base s) {size : BitVec 64}
    (wraps : 2 ^ 64 ≤ s.pool.usedSize.toNat + (size.toNat + 255) / 256 * 256) :
    s.pool.allocate size = (some (base + s.pool.usedSize.toNat),
        { s.pool with usedSize := s.pool.usedSize + alignedSize size }) ∧
      (2 ^ 28 < size.toNat ∨
        (s.pool.usedSize + alignedSize size).toNat < s.pool.usedSize.toNat) := by
  have aligned := alignedSize_toNat size
  have capacity := h.capacity
  have lt := size.isLt
  rw [BitVec.toNat_add]
  by_cases rounding : size.toNat + 255 < 2 ^ 64
  · -- the sum with `usedSize` wraps: it lands below `usedSize`
    rw [Nat.mod_eq_of_lt rounding] at aligned
    rcases allocate_cases h size with ⟨_, full⟩ | ⟨e, _⟩
    · omega
    · exact ⟨e, Or.inr (by omega)⟩
  · -- the rounding itself wraps, to 0
    have zero : (alignedSize size).toNat = 0 := by omega
    rcases allocate_cases h size with ⟨_, full⟩ | ⟨e, _⟩
    · omega
    · exact ⟨e, Or.inl (by omega)⟩

/-- The block handed out when nothing wraps. -/
theorem block_ok (h : Inv base s) {size : BitVec 64}
    (room : s.pool.usedSize.toNat + (size.toNat + 255) / 256 * 256 ≤ 2 ^ 28) :
    s.BlockOk base (base + s.pool.usedSize.toNat) size where
  aligned := ⟨s.pool.usedSize.toNat / 256, by have := h.aligned; omega⟩
  inside := by
    apply Set.Ico_subset_Ico
    · omega
    · rw [h.total]
      omega
  apart := by
    intro b hb
    have below := h.used b hb
    rw [extent, extent, Set.Ico_disjoint_Ico]
    omega

/-- A call that fits is safe and keeps the invariant. -/
theorem step_fits (h : Inv base s) {call : PoolCall} (fits : s.Fits call) :
    StepSafe base s call ∧ Inv base (s.step call) := by
  have capacity := h.capacity
  cases call with
  | allocate size =>
    obtain ⟨aligned, sum⟩ := allocate_fits fits
    have bound := fits size rfl
    rcases allocate_cases h size with ⟨e, full⟩ | ⟨e, room⟩
    · have next : s.step (.allocate size) = ⟨s.pool, s.blocks⟩ := by simp [step, e]
      refine ⟨⟨?_, ?_, ?_⟩, ?_⟩
      · rw [next, BitVec.le_def, h.total]
        exact capacity
      · intro _
        rw [next]
        exact BitVec.le_refl _
      · rintro _ ptr ⟨⟩ hp
        rw [e] at hp
        cases hp
      · rw [next]
        exact ⟨h.basePtr, h.total, h.capacity, h.aligned, h.used⟩
    · rw [aligned, Nat.mod_eq_of_lt bound] at room
      have next : s.step (.allocate size) =
          ⟨{ s.pool with usedSize := s.pool.usedSize + alignedSize size },
            (base + s.pool.usedSize.toNat, size) :: s.blocks⟩ := by
        simp [step, e]
      refine ⟨⟨?_, ?_, ?_⟩, ?_⟩
      · rw [next, BitVec.le_def]
        dsimp only
        rw [h.total, sum]
        exact room
      · intro _
        rw [next, BitVec.le_def]
        dsimp only
        omega
      · rintro _ ptr ⟨⟩ hp
        rw [e] at hp
        cases hp
        exact block_ok h room
      · rw [next]
        refine ⟨h.basePtr, h.total, by dsimp only; omega, ?_, ?_⟩
        · have := h.aligned
          dsimp only
          omega
        · intro b hb
          dsimp only
          rcases List.mem_cons.1 hb with rfl | hb
          · dsimp only
            omega
          · have := h.used b hb
            omega
  | deallocate ptr =>
    exact ⟨⟨by rw [BitVec.le_def]; exact h.total ▸ capacity, fun _ => BitVec.le_refl _, by simp⟩, h⟩
  | trim maxCached =>
    exact ⟨⟨by rw [BitVec.le_def]; exact h.total ▸ capacity, fun _ => BitVec.le_refl _, by simp⟩, h⟩
  | reset =>
    exact ⟨⟨by rw [BitVec.le_def]; exact Nat.zero_le _, by simp, by simp⟩,
      ⟨h.basePtr, h.total, Nat.zero_le _, rfl, by simp [step]⟩⟩

/-- A call that does not fit breaks what a call must do. -/
theorem fits_of_safe (h : Inv base s) {call : PoolCall} (safe : StepSafe base s call) :
    s.Fits call := by
  rintro size rfl
  by_contra wraps
  obtain ⟨e, bad⟩ := allocate_wraps h (Nat.le_of_not_lt wraps)
  rcases bad with large | back
  · have ok := safe.block size _ rfl (by rw [e])
    have first : base + s.pool.usedSize.toNat ∈ extent (base + s.pool.usedSize.toNat) size := by
      rw [extent, Set.mem_Ico]
      omega
    have last : base + s.pool.usedSize.toNat + size.toNat - 1 ∈
        extent (base + s.pool.usedSize.toNat) size := by
      rw [extent, Set.mem_Ico]
      omega
    have inside := ok.inside last
    rw [extent, Set.mem_Ico, h.total] at inside
    omega
  · have mono := safe.monotone (by simp)
    simp only [step, e] at mono
    rw [BitVec.le_def] at mono
    omega

/-- **The pool.** On a pool whose base allocation succeeded, every call of a run does what it must
exactly when every size asked for, rounded up to 256 bytes and added to what is in use at that
moment, stays below 2^64. -/
theorem run_safe_iff (base : Nat) (calls : List PoolCall) :
    Along step (StepSafe base) ⟨create (some base), []⟩ calls ↔
      Along step Fits ⟨create (some base), []⟩ calls :=
  along_iff (fun _ _ h => ⟨fits_of_safe h, fun fits => (step_fits h fits).1⟩)
    (fun _ _ h fits => (step_fits h fits).2) calls _ (create_inv base)

/-- A size of 2^64 - 1 bytes is rounded to 0 and served. -/
theorem run_unsafe_wrap :
    ¬ ∀ (base : Nat) (calls : List PoolCall),
      Along step (StepSafe base) ⟨create (some base), []⟩ calls := by
  intro all
  obtain ⟨safe, _⟩ := all 4096 [.allocate (-1)]
  have fits := fits_of_safe (create_inv 4096) safe
  have := fits (-1) rfl
  revert this
  decide

end PoolRun
end ModelRuntime
