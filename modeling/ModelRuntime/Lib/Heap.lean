import Mathlib.Data.List.Basic

/-!
# Objects that are created and freed

A heap hands out identities and remembers, for every object that has not been freed, what it was created
with. No identity is handed out twice.
-/

namespace ModelRuntime.Lib

variable {α : Type*}

structure Heap (α : Type*) where
  next : Nat := 0
  /-- The objects created and not yet freed. -/
  live : List (Nat × α) := []

namespace Heap

variable (h : Heap α)

def ids : List Nat := h.live.map Prod.fst

def create (a : α) : Nat × Heap α := (h.next, { next := h.next + 1, live := (h.next, a) :: h.live })

def free (id : Nat) : Heap α := { h with live := h.live.filter fun object => object.1 ≠ id }

/-- The free of a pointer that may be null. -/
def freeAt : Option Nat → Heap α
  | none => h
  | some id => h.free id

/-- Every live object has an identity that has been handed out. -/
def Fresh : Prop := ∀ id ∈ h.ids, id < h.next

variable {h}

@[simp] theorem create_fst (a : α) : (h.create a).1 = h.next := rfl
@[simp] theorem create_live (a : α) : (h.create a).2.live = (h.next, a) :: h.live := rfl
@[simp] theorem create_ids (a : α) : (h.create a).2.ids = h.next :: h.ids := rfl

theorem mem_free {id k : Nat} : id ∈ (h.free k).ids ↔ id ∈ h.ids ∧ id ≠ k := by
  unfold ids free
  constructor
  · intro member
    obtain ⟨object, kept, rfl⟩ := List.mem_map.1 member
    obtain ⟨live, other⟩ := List.mem_filter.1 kept
    exact ⟨List.mem_map_of_mem live, of_decide_eq_true other⟩
  · rintro ⟨member, other⟩
    obtain ⟨object, live, rfl⟩ := List.mem_map.1 member
    exact List.mem_map_of_mem (List.mem_filter.2 ⟨live, decide_eq_true other⟩)

theorem mem_freeAt {id : Nat} {p : Option Nat} : id ∈ (h.freeAt p).ids ↔ id ∈ h.ids ∧ p ≠ some id := by
  cases p with
  | none => simp [freeAt]
  | some k =>
    rw [freeAt, mem_free, ne_eq, ne_eq, Option.some.injEq]
    exact and_congr_right fun _ => not_congr eq_comm

theorem Fresh.empty : ({} : Heap α).Fresh := fun _ member => by cases member

theorem Fresh.create (fresh : h.Fresh) (a : α) : (h.create a).2.Fresh := by
  intro id member
  rcases List.mem_cons.1 member with new | old
  · rw [new]
    exact Nat.lt_succ_self _
  · exact Nat.lt_succ_of_lt (fresh id old)

theorem Fresh.free (fresh : h.Fresh) (k : Nat) : (h.free k).Fresh :=
  fun id member => fresh id (mem_free.1 member).1

theorem Fresh.freeAt (fresh : h.Fresh) (p : Option Nat) : (h.freeAt p).Fresh := by
  cases p with
  | none => exact fresh
  | some k => exact fresh.free k

theorem Fresh.notMem (fresh : h.Fresh) : h.next ∉ h.ids := fun member => Nat.lt_irrefl _ (fresh _ member)

/-- Freeing what has just been created leaves what was live before. -/
theorem Fresh.free_create (fresh : h.Fresh) (a : α) : ((h.create a).2.free h.next).live = h.live := by
  unfold Heap.free
  dsimp only
  rw [create_live, List.filter_cons_of_neg (by simp), List.filter_eq_self]
  intro object live
  rw [decide_eq_true_iff]
  intro same
  exact fresh.notMem (same ▸ List.mem_map_of_mem live)

/-- Freeing the only live object leaves none. -/
theorem freeAt_owner {p : Option Nat} (owner : h.ids = p.toList) : (h.freeAt p).ids = [] := by
  rw [List.eq_nil_iff_forall_not_mem]
  intro id member
  obtain ⟨live, other⟩ := mem_freeAt.1 member
  rw [owner, Option.mem_toList] at live
  exact other live

end Heap

end ModelRuntime.Lib
