import Mathlib.Data.List.Induction
import Mathlib.Logic.Function.Basic

/-!
# Registries

A table that is only written by registering a value under a key, over whatever was registered there before.
What it holds is told by the list of the registrations alone: `LastEntry` is the last one for a key.
-/

namespace ModelRuntime.Lib.Registry

variable {K V : Type*}

/-- The last entry for `k` is `v`. -/
def LastEntry (entries : List (K × V)) (k : K) (v : V) : Prop :=
  ∃ front back, entries = front ++ (k, v) :: back ∧ ∀ e ∈ back, e.1 ≠ k

variable {entries front back : List (K × V)} {k : K} {v : V}

theorem LastEntry.keep (h : LastEntry front k v) (others : ∀ e ∈ back, e.1 ≠ k) : LastEntry (front ++ back) k v := by
  obtain ⟨before, after, rfl, last⟩ := h
  refine ⟨before, after ++ back, by simp, fun e mem => ?_⟩
  rcases List.mem_append.1 mem with mem | mem
  · exact last e mem
  · exact others e mem

theorem lastEntry_concat {e : K × V} : LastEntry (entries ++ [e]) k v ↔
    e = (k, v) ∨ e.1 ≠ k ∧ LastEntry entries k v := by
  constructor
  · rintro ⟨before, after, split, last⟩
    rcases List.eq_nil_or_concat after with rfl | ⟨after, e', rfl⟩
    · exact .inl (List.singleton_inj.1 (List.append_inj' split rfl).2)
    · rw [List.concat_eq_append, ← List.cons_append, ← List.append_assoc] at split
      obtain ⟨rfl, same⟩ := List.append_inj' split rfl
      obtain rfl := List.singleton_inj.1 same
      refine .inr ⟨last e (by simp), before, after, rfl, fun e mem => last e (by simp [mem])⟩
  · rintro (rfl | ⟨other, h⟩)
    · exact ⟨entries, [], rfl, by simp⟩
    · exact h.keep (by simpa using other)

/-- Behind an entry, more entries of the same value for its key change nothing. -/
theorem LastEntry.again (front : List (K × V)) (same : ∀ e ∈ back, e.1 = k → e = (k, v)) :
    LastEntry (front ++ (k, v) :: back) k v := by
  induction back using List.reverseRecOn with
  | nil => exact ⟨front, [], rfl, by simp⟩
  | append_singleton back e ih =>
    rw [← List.cons_append, ← List.append_assoc, lastEntry_concat]
    by_cases key : e.1 = k
    · exact .inl (same e (by simp) key)
    · exact .inr ⟨key, ih fun e mem => same e (by simp [mem])⟩

variable [DecidableEq K]

/-- `table[key] = value`. -/
def register (table : K → Option V) (entry : K × V) : K → Option V :=
  Function.update table entry.1 (some entry.2)

/-- The table the registrations leave behind. -/
def tableOf (entries : List (K × V)) : K → Option V := entries.foldl register fun _ => none

theorem tableOf_concat (entries : List (K × V)) (e : K × V) :
    tableOf (entries ++ [e]) = register (tableOf entries) e := by
  simp [tableOf]

/-- **The last registration wins.** -/
theorem tableOf_some_iff : tableOf entries k = some v ↔ LastEntry entries k v := by
  induction entries using List.reverseRecOn with
  | nil => simp [tableOf, LastEntry]
  | append_singleton entries e ih =>
    rw [tableOf_concat, lastEntry_concat, ← ih, register]
    obtain ⟨k', v'⟩ := e
    by_cases same : k' = k
    · subst same
      simp
    · simp [Function.update_of_ne (Ne.symm same), same]

theorem tableOf_none_iff : tableOf entries k = none ↔ ∀ e ∈ entries, e.1 ≠ k := by
  induction entries using List.reverseRecOn with
  | nil => simp [tableOf]
  | append_singleton entries e ih =>
    rw [tableOf_concat, register]
    obtain ⟨k', v'⟩ := e
    by_cases same : k' = k
    · subst same
      simp
    · rw [Function.update_of_ne (Ne.symm same), ih]
      simp only [List.mem_append, List.mem_singleton]
      constructor
      · rintro others e (mem | rfl)
        · exact others e mem
        · exact same
      · exact fun all e mem => all e (.inl mem)

end ModelRuntime.Lib.Registry
