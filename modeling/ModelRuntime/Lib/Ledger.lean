import Mathlib.Data.Set.Insert
import Mathlib.Data.List.Count

/-!
# Ledgers

A log of what is acquired and released, and what is held after it. In a ledger nothing is acquired that is
held and nothing released that is not, so what is no longer held has been released as often as acquired.
-/

namespace ModelRuntime.Lib

variable {α : Type*}

inductive Entry (α : Type*) where
  | acquire (a : α)
  | release (a : α)
  deriving DecidableEq

/-- What is held after a log. -/
inductive Ledger : List (Entry α) → Set α → Prop where
  | empty : Ledger [] ∅
  | acquire {log : List (Entry α)} {held : Set α} {a : α} : Ledger log held → a ∉ held →
      Ledger (log ++ [.acquire a]) (insert a held)
  | release {log : List (Entry α)} {held : Set α} {a : α} : Ledger log held → a ∈ held →
      Ledger (log ++ [.release a]) (held \ {a})

variable [DecidableEq α] {log : List (Entry α)} {held : Set α}

open Classical in
theorem Ledger.count (ledger : Ledger log held) (a : α) :
    log.count (.acquire a) = log.count (.release a) + if a ∈ held then 1 else 0 := by
  induction ledger with
  | empty => simp
  | acquire _ free ih =>
    rename_i b _
    rw [List.count_append, List.count_append, ih]
    by_cases same : b = a
    · subst same
      simp [free]
    · simp [same, Ne.symm same]
  | release _ holds ih =>
    rename_i b _
    rw [List.count_append, List.count_append, ih]
    by_cases same : b = a
    · subst same
      simp [holds]
    · simp [same, Ne.symm same]

/-- What is not held has been released as often as acquired. -/
theorem Ledger.settled (ledger : Ledger log held) {a : α} (free : a ∉ held) :
    log.count (.acquire a) = log.count (.release a) := by
  have counted := ledger.count a
  rwa [if_neg free, Nat.add_zero] at counted

end ModelRuntime.Lib
