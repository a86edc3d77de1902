import Mathlib.Data.List.Basic
import ModelRuntime.Cpp.Loop

/-!
# Byte-pair merging

A table ranks pairs of symbols, and `join` makes one symbol of two. Byte-pair encoding takes the
adjacent pair of lowest rank, merges its occurrences from left to right, and repeats. A loop that
merges the leftmost occurrence only and then looks again does the same where the table lists a joined
symbol's own pair before every pair the joined symbol is in.
-/

namespace ModelRuntime.Lib
open Cpp

variable {α : Type*} [DecidableEq α]

/-- The adjacent pairs, from left to right. -/
def neighbours (xs : List α) : List (α × α) := xs.zip xs.tail

/-- The adjacent pair of lowest rank: the first of the table that stands in the word. -/
def lowest (table : List (α × α)) (xs : List α) : Option (α × α) := table.find? (· ∈ neighbours xs)

/-- All non-overlapping occurrences of a pair are merged, from left to right. -/
def mergeAll (join : α → α → α) (p : α × α) : List α → List α
  | x :: y :: rest =>
    if (x, y) = p then join x y :: mergeAll join p rest else x :: mergeAll join p (y :: rest)
  | xs => xs

/-- The leftmost occurrence of a pair is merged. -/
def mergeFirst (join : α → α → α) (p : α × α) : List α → List α
  | x :: y :: rest => if (x, y) = p then join x y :: rest else x :: mergeFirst join p (y :: rest)
  | xs => xs

/-- A round of the encoding. -/
def mergeRound (join : α → α → α) (table : List (α × α)) (xs : List α) : Option (List α) :=
  (lowest table xs).map fun p => mergeAll join p xs

/-- **Byte-pair encoding**: rounds, until no adjacent pair is in the table. -/
def bytePair (join : α → α → α) (table : List (α × α)) (xs : List α) : List α :=
  whileSome (mergeRound join table) xs.length xs

/-- A pair is listed before the pairs its joined symbol is in. -/
def WellOrdered (join : α → α → α) (table : List (α × α)) : Prop :=
  ∀ (m m' : Nat) (p p' : α × α), table[m]? = some p → table[m']? = some p' →
    p.1 = join p'.1 p'.2 ∨ p.2 = join p'.1 p'.2 → m' < m

theorem wellOrdered_iff {α : Type*} {join : α → α → α} {table : List (α × α)} : WellOrdered join table ↔
    ∀ m m' : Fin table.length, table[m].1 = join table[m'].1 table[m'].2 ∨
      table[m].2 = join table[m'].1 table[m'].2 → m' < m := by
  constructor
  · intro h m m' made
    exact h m m' _ _ (List.getElem?_eq_getElem m.isLt) (List.getElem?_eq_getElem m'.isLt) made
  · intro h m m' p p' found found' made
    obtain ⟨bound, rfl⟩ := List.getElem?_eq_some_iff.1 found
    obtain ⟨bound', rfl⟩ := List.getElem?_eq_some_iff.1 found'
    exact h ⟨m, bound⟩ ⟨m', bound'⟩ made

instance (join : α → α → α) (table : List (α × α)) : Decidable (WellOrdered join table) :=
  decidable_of_iff _ wellOrdered_iff.symm

theorem neighbours_cons {α : Type*} {x y : α} {rest : List α} :
    neighbours (x :: y :: rest) = (x, y) :: neighbours (y :: rest) := rfl

theorem neighbours_length {α : Type*} (xs : List α) : (neighbours xs).length = xs.length - 1 := by
  rw [neighbours, List.length_zip, List.length_tail]
  omega

theorem neighbours_at {α : Type*} {xs : List α} {j : Nat} {p : α × α} :
    (neighbours xs)[j]? = some p ↔ xs[j]? = some p.1 ∧ xs[j + 1]? = some p.2 := by
  rw [neighbours, List.getElem?_zip_eq_some, List.getElem?_tail]

/-- The adjacent pairs of a block are among those of the whole. -/
theorem neighbours_block {α : Type*} (left block right : List α) {j : Nat} {p : α × α}
    (pair : (neighbours block)[j]? = some p) : (neighbours (left ++ block ++ right))[left.length + j]? = some p := by
  obtain ⟨first, second⟩ := neighbours_at.1 pair
  obtain ⟨inside, _⟩ := List.getElem?_eq_some_iff.1 first
  obtain ⟨inside', _⟩ := List.getElem?_eq_some_iff.1 second
  refine neighbours_at.2 ⟨?_, ?_⟩
  · rw [List.append_assoc, List.getElem?_append_right (by omega), List.getElem?_append_left (by omega),
      Nat.add_sub_cancel_left, first]
  · rw [List.append_assoc, List.getElem?_append_right (by omega), List.getElem?_append_left (by omega),
      Nat.add_assoc, Nat.add_sub_cancel_left, second]

section Merge

variable {join : α → α → α} {p q : α × α} {x y : α} {xs rest : List α}

variable (join) in
/-- Where the leftmost occurrence stands. -/
theorem mem_neighbours_split (mem : p ∈ neighbours xs) : ∃ before after,
    xs = before ++ p.1 :: p.2 :: after ∧ before.length = (neighbours xs).findIdx (· = p) ∧
      mergeFirst join p xs = before ++ join p.1 p.2 :: after := by
  induction xs with
  | nil => cases mem
  | cons x xs ih =>
    cases xs with
    | nil => cases mem
    | cons y rest =>
      rw [neighbours_cons, List.findIdx_cons]
      by_cases here : (x, y) = p
      · subst here
        exact ⟨[], rest, rfl, by simp, by rw [mergeFirst, if_pos rfl]; rfl⟩
      · rw [neighbours_cons, List.mem_cons, or_iff_right (Ne.symm here)] at mem
        obtain ⟨before, after, split, place, merged⟩ := ih mem
        refine ⟨x :: before, after, by rw [split]; rfl, ?_, ?_⟩
        · rw [List.length_cons, place, decide_eq_false here]
          rfl
        · rw [mergeFirst, if_neg here, merged]
          rfl

variable (join) in
theorem mergeFirst_length (mem : p ∈ neighbours xs) :
    (mergeFirst join p xs).length + 1 = xs.length := by
  obtain ⟨before, after, split, _, merged⟩ := mem_neighbours_split join mem
  rw [merged, split, List.length_append, List.length_append, List.length_cons, List.length_cons,
    List.length_cons]
  omega

variable (join p) in
theorem mergeAll_length_le (xs : List α) : (mergeAll join p xs).length ≤ xs.length := by
  induction xs using mergeAll.induct p with
  | case1 x y rest here ih =>
    rw [mergeAll, if_pos here, List.length_cons, List.length_cons, List.length_cons]
    omega
  | case2 x y rest other ih =>
    rw [mergeAll, if_neg other, List.length_cons, List.length_cons]
    omega
  | case3 xs short =>
    have same : mergeAll join p xs = xs := by
      rw [mergeAll]
      exact short
    exact Nat.le_of_eq (congrArg List.length same)

theorem mergeAll_length (mem : p ∈ neighbours xs) : (mergeAll join p xs).length < xs.length := by
  induction xs using mergeAll.induct p with
  | case1 x y rest here ih =>
    have bound := mergeAll_length_le join p rest
    rw [mergeAll, if_pos here, List.length_cons, List.length_cons, List.length_cons]
    omega
  | case2 x y rest other ih =>
    rw [neighbours_cons, List.mem_cons, or_iff_right (Ne.symm other)] at mem
    have bound := ih mem
    rw [mergeAll, if_neg other, List.length_cons, List.length_cons]
    omega
  | case3 xs short =>
    cases xs with
    | nil => cases mem
    | cons x rest =>
      cases rest with
      | nil => cases mem
      | cons y rest => exact absurd rfl (short x y rest)

/-- A word without the pair stays as it is. -/
theorem mergeAll_none (none : p ∉ neighbours xs) : mergeAll join p xs = xs := by
  induction xs using mergeAll.induct p with
  | case1 x y rest here ih =>
    rw [neighbours_cons] at none
    exact absurd (by rw [here]; exact List.mem_cons_self) none
  | case2 x y rest other ih =>
    rw [neighbours_cons, List.mem_cons, not_or] at none
    rw [mergeAll, if_neg other, ih none.2]
  | case3 xs short => rw [mergeAll]; exact short

/-- A symbol that does not open the pair is passed over. -/
theorem mergeAll_cons (other : x ≠ p.1) (xs : List α) :
    mergeAll join p (x :: xs) = x :: mergeAll join p xs := by
  cases xs with
  | nil => rfl
  | cons y rest => rw [mergeAll, if_neg fun here => other (congrArg Prod.fst here)]

/-- The leftmost occurrence is one of those that are merged, where the joined symbol is not in the
pair. -/
theorem mergeAll_mergeFirst (fresh : p.1 ≠ join p.1 p.2 ∧ p.2 ≠ join p.1 p.2) (xs : List α) :
    mergeAll join p (mergeFirst join p xs) = mergeAll join p xs := by
  induction xs with
  | nil => rfl
  | cons x xs ih =>
    cases xs with
    | nil => rfl
    | cons y rest =>
      by_cases here : (x, y) = p
      · subst here
        rw [mergeFirst, if_pos rfl, mergeAll, if_pos rfl, mergeAll_cons (Ne.symm fresh.1)]
      · rw [mergeFirst, if_neg here, mergeAll, if_neg here, ← ih]
        -- what stands after `x` now does not make the pair with it
        cases rest with
        | nil => exact if_neg here
        | cons z rest =>
          by_cases next : (y, z) = p
          · rw [mergeFirst, if_pos next, mergeAll, if_neg]
            intro same
            apply fresh.2
            rw [← next]
            exact (congrArg Prod.snd (same.trans next.symm)).symm
          · rw [mergeFirst, if_neg next, mergeAll, if_neg here]

/-- A merge makes no pair but those of the joined symbol. -/
theorem neighbours_mergeFirst (mem : q ∈ neighbours (mergeFirst join p xs)) :
    q ∈ neighbours xs ∨ q.1 = join p.1 p.2 ∨ q.2 = join p.1 p.2 := by
  induction xs with
  | nil => exact .inl mem
  | cons x xs ih =>
    cases xs with
    | nil => exact .inl mem
    | cons y rest =>
      by_cases here : (x, y) = p
      · subst here
        rw [mergeFirst, if_pos rfl] at mem
        cases rest with
        | nil => cases mem
        | cons z rest =>
          rw [neighbours_cons, List.mem_cons] at mem
          rcases mem with rfl | mem
          · exact .inr (.inl rfl)
          · exact .inl (List.mem_cons_of_mem _ (List.mem_cons_of_mem _ mem))
      · rw [mergeFirst, if_neg here] at mem
        have tail : q ∈ neighbours (mergeFirst join p (y :: rest)) →
            q ∈ neighbours (x :: y :: rest) ∨ q.1 = join p.1 p.2 ∨ q.2 = join p.1 p.2 :=
          fun mem => (ih mem).imp_left (List.mem_cons_of_mem _)
        cases rest with
        | nil => exact .inl mem
        | cons z rest =>
          by_cases next : (y, z) = p
          · subst next
            rw [mergeFirst, if_pos rfl, neighbours_cons, List.mem_cons] at mem
            rcases mem with rfl | mem
            · exact .inr (.inr rfl)
            · apply tail
              rwa [mergeFirst, if_pos rfl]
          · rw [mergeFirst, if_neg next, neighbours_cons, List.mem_cons] at mem
            rcases mem with rfl | mem
            · exact .inl List.mem_cons_self
            · apply tail
              rwa [mergeFirst, if_neg next]

end Merge

section Rounds

variable {join : α → α → α} {table : List (α × α)} {p q : α × α} {xs xs' : List α}

theorem lowest_eq_some_iff : lowest table xs = some p ↔ p ∈ neighbours xs ∧
    ∃ m : Nat, table[m]? = some p ∧ ∀ k < m, ∀ q, table[k]? = some q → q ∉ neighbours xs := by
  rw [lowest, List.find?_eq_some_iff_getElem, decide_eq_true_eq]
  refine and_congr_right fun _ => exists_congr fun m => ?_
  constructor
  · rintro ⟨bound, here, earlier⟩
    refine ⟨List.getElem?_eq_some_iff.2 ⟨bound, here⟩, fun k less q found => ?_⟩
    obtain ⟨_, rfl⟩ := List.getElem?_eq_some_iff.1 found
    simpa using earlier k less
  · rintro ⟨found, earlier⟩
    obtain ⟨bound, here⟩ := List.getElem?_eq_some_iff.1 found
    refine ⟨bound, here, fun k less => ?_⟩
    simpa using earlier k less _ (List.getElem?_eq_getElem (by omega))

theorem lowest_eq_none_iff : lowest table xs = none ↔ ∀ q ∈ table, q ∉ neighbours xs := by
  rw [lowest, List.find?_eq_none]
  simp

theorem lowest_mem (low : lowest table xs = some p) : p ∈ neighbours xs :=
  (lowest_eq_some_iff.1 low).1

/-- The joined symbol is not in the pair itself. -/
theorem WellOrdered.fresh (h : WellOrdered join table) (low : lowest table xs = some p) :
    p.1 ≠ join p.1 p.2 ∧ p.2 ≠ join p.1 p.2 := by
  obtain ⟨_, m, found, _⟩ := lowest_eq_some_iff.1 low
  constructor
  · intro same
    exact Nat.lt_irrefl m (h m m p p found found (.inl same))
  · intro same
    exact Nat.lt_irrefl m (h m m p p found found (.inr same))

/-- A merge brings no pair that is listed earlier: while the pair stands in the word it stays the
lowest. -/
theorem WellOrdered.lowest_mergeFirst (h : WellOrdered join table) (low : lowest table xs = some p)
    (left : p ∈ neighbours (mergeFirst join p xs)) : lowest table (mergeFirst join p xs) = some p := by
  obtain ⟨_, m, found, earlier⟩ := lowest_eq_some_iff.1 low
  refine lowest_eq_some_iff.2 ⟨left, m, found, fun k less q at_k mem => ?_⟩
  rcases neighbours_mergeFirst mem with old | new
  · exact earlier k less q at_k old
  · have later := h k m q p at_k found new
    omega

theorem mergeRound_length (round : mergeRound join table xs = some xs') : xs'.length < xs.length := by
  obtain ⟨p, low, rfl⟩ := Option.map_eq_some_iff.1 round
  exact mergeAll_length (lowest_mem low)

/-- The encoding leaves no pair of the table. -/
theorem lowest_bytePair (xs : List α) : lowest table (bytePair join table xs) = none := by
  have ended : mergeRound join table (bytePair join table xs) = none :=
    whileSome_exit List.length (fun _ _ round => mergeRound_length round) xs.length xs (Nat.le_refl _)
  exact Option.map_eq_none_iff.1 ended

theorem bytePair_none (none : lowest table xs = none) : bytePair join table xs = xs := by
  rw [bytePair]
  apply whileSome_stop
  rw [mergeRound, none, Option.map_none]

theorem bytePair_round (low : lowest table xs = some p) :
    bytePair join table xs = bytePair join table (mergeAll join p xs) := by
  have round : mergeRound join table xs = some (mergeAll join p xs) := by
    rw [mergeRound, low, Option.map_some]
  exact whileSome_step List.length (fun _ _ round => mergeRound_length round) round

/-- **One merge at a time**: to merge the leftmost occurrence first changes nothing. -/
theorem WellOrdered.bytePair_mergeFirst (h : WellOrdered join table) (low : lowest table xs = some p) :
    bytePair join table (mergeFirst join p xs) = bytePair join table xs := by
  have same := mergeAll_mergeFirst (h.fresh low) xs
  rw [bytePair_round low, ← same]
  by_cases left : p ∈ neighbours (mergeFirst join p xs)
  · exact bytePair_round (h.lowest_mergeFirst low left)
  · rw [mergeAll_none left]

end Rounds

end ModelRuntime.Lib
