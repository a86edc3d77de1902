import ModelRuntime.Backend.Nucleus

/-!
# The k best

`apply_top_k` over any linearly ordered logits with a least one for minus infinity: a partial sort of the indices,
whose order of equal logits is left open, a bitmap of the first `k` of them, and a pass that clears what is not
marked. `applyTopK_ofLogit` is the tie to the function on floats.
-/

namespace ModelRuntime
namespace Exact

variable {V : Type*}

/-- `in_top_k`, these places being set. -/
def marks (n : Nat) (places : List Nat) : List Bool :=
  places.foldl (fun marks i => marks.set i true) (List.replicate n false)

/-- `apply_top_k`, `indices` being what `std::partial_sort` leaves and `bot` minus infinity. -/
def topK (bot : V) (indices : List Nat) (logits : List V) (k : Nat) : List V :=
  if logits.length ≤ k then logits
  else List.zipWith (fun marked logit => if marked then logit else bot) (marks logits.length (indices.take k)) logits

@[simp] theorem marks_length (n : Nat) (places : List Nat) : (marks n places).length = n := by
  refine List.foldlRecOn (motive := fun marks : List Bool => marks.length = n) places _ List.length_replicate ?_
  intro marks length i _
  rwa [List.length_set]

theorem marks_at {n i : Nat} {places : List Nat} (inside : i < n) : (marks n places)[i]? = some (decide (i ∈ places)) := by
  induction places using List.reverseRecOn with
  | nil => simp [marks, inside]
  | append_singleton places j ih =>
    have length := marks_length n places
    rw [marks, List.foldl_append, List.foldl_cons, List.foldl_nil, ← marks, List.getElem?_set, ih]
    by_cases here : j = i
    · subst here
      simp [inside]
    · simp [here, Ne.symm here]

@[simp] theorem topK_length (bot : V) (indices : List Nat) (logits : List V) (k : Nat) :
    (topK bot indices logits k).length = logits.length := by
  unfold topK
  split
  · rfl
  · rw [List.length_zipWith, marks_length, Nat.min_self]

theorem topK_at {bot : V} {indices : List Nat} {logits : List V} {k i : Nat} (fewer : k < logits.length)
    (inside : i < logits.length) : (topK bot indices logits k)[i]? =
      some (if i ∈ indices.take k then logits[i] else bot) := by
  rw [topK, if_neg (by omega), List.getElem?_zipWith, marks_at inside, List.getElem?_eq_getElem inside]
  simp

/-- Other values for the logits. -/
theorem topK_map {W : Type*} (f : V → W) (bot : V) (indices : List Nat) (logits : List V) (k : Nat) :
    topK (f bot) indices (logits.map f) k = (topK bot indices logits k).map f := by
  unfold topK
  rw [List.length_map]
  split
  · rfl
  · rw [List.zipWith_map_right, List.map_zipWith]
    congr 1
    funext marked logit
    cases marked <;> rfl

/-- The function on floats is this one. -/
theorem applyTopK_eq (lib : FloatLib) (logits : List CFloat) (k : Nat) :
    applyTopK lib logits k = topK .negInf (lib.partialSort logits k) logits k := by
  by_cases fewer : logits.length ≤ k
  · rw [applyTopK, if_pos fewer, topK, if_pos fewer]
  · apply List.ext_getElem?
    intro i
    rw [applyTopK, if_neg fewer]
    by_cases inside : i < logits.length
    · rw [topK_at (by omega) inside]
      simp [inside]
    · rw [List.getElem?_eq_none (by simpa using Nat.le_of_not_lt inside),
        List.getElem?_eq_none (by simpa using Nat.le_of_not_lt inside)]

/-- On floats that are no NaN. -/
theorem applyTopK_ofLogit (lib : FloatLib) (logits : List (WithBot ℚ)) (k : Nat) :
    applyTopK lib (logits.map ofLogit) k =
      (topK ⊥ (lib.partialSort (logits.map ofLogit) k) logits k).map ofLogit := by
  rw [applyTopK_eq, ← topK_map]
  rfl

section Order

variable [LinearOrder V] [OrderBot V] {logits kept : List V} {indices : List Nat} {k : Nat}

/-- What `std::partial_sort` permits: the first `k` indices by falling logit, none behind them with a larger one. -/
structure PartiallySorted (logits : List V) (indices : List Nat) (k : Nat) : Prop where
  perm : indices.Perm (List.range logits.length)
  falling : (indices.take k).Pairwise fun i j => logits.getD j ⊥ ≤ logits.getD i ⊥
  first : ∀ i ∈ indices.take k, ∀ j ∈ indices.drop k, logits.getD j ⊥ ≤ logits.getD i ⊥

/-- These `k` logits are kept, all others are minus infinity, and none of these was larger. -/
structure KeepsBest (logits kept : List V) (k : Nat) (best : Finset Nat) : Prop where
  card : best.card = k
  inside : ∀ i ∈ best, i < logits.length
  length : kept.length = logits.length
  same : ∀ i ∈ best, kept[i]? = logits[i]?
  cleared : ∀ i < logits.length, i ∉ best → kept[i]? = some ⊥
  dominates : ∀ i ∈ best, ∀ j < logits.length, j ∉ best → logits.getD j ⊥ ≤ logits.getD i ⊥

theorem PartiallySorted.keepsBest (sorted : PartiallySorted logits indices k) (fewer : k < logits.length) :
    KeepsBest logits (topK ⊥ indices logits k) k (indices.take k).toFinset := by
  have nodup : indices.Nodup := sorted.perm.nodup_iff.2 List.nodup_range
  have length : indices.length = logits.length := sorted.perm.length_eq.trans List.length_range
  have inside : ∀ i ∈ indices.take k, i < logits.length := fun i mem =>
    List.mem_range.1 (sorted.perm.mem_iff.1 (List.mem_of_mem_take mem))
  have behind : ∀ j < logits.length, j ∉ indices.take k → j ∈ indices.drop k := by
    intro j less notFirst
    have mem := sorted.perm.mem_iff.2 (List.mem_range.2 less)
    rw [← List.take_append_drop k indices] at mem
    exact (List.mem_append.1 mem).resolve_left notFirst
  refine ⟨?_, ?_, topK_length .., ?_, ?_, ?_⟩
  · rw [List.toFinset_card_of_nodup (nodup.sublist (List.take_sublist k indices)), List.length_take]
    omega
  · exact fun i mem => inside i (List.mem_toFinset.1 mem)
  · intro i mem
    have first := List.mem_toFinset.1 mem
    rw [topK_at fewer (inside i first), if_pos first, List.getElem?_eq_getElem (inside i first)]
  · intro i less notBest
    rw [topK_at fewer less, if_neg fun first => notBest (List.mem_toFinset.2 first)]
  · intro i mem j less notBest
    apply sorted.first i (List.mem_toFinset.1 mem)
    exact behind j less fun first => notBest (List.mem_toFinset.2 first)

/-- **Top-k keeps exactly the `k` best** logits, whatever the partial sort does with equal ones. -/
theorem topK_best (logits : List V) (indices : List Nat) (k : Nat) :
    (0 < k → k < logits.length → PartiallySorted logits indices k →
      ∃ best, KeepsBest logits (topK ⊥ indices logits k) k best) ∧
      (logits.length ≤ k → topK ⊥ indices logits k = logits) := by
  constructor
  · intro _ fewer sorted
    exact ⟨_, sorted.keepsBest fewer⟩
  · intro all
    rw [topK, if_pos all]

end Order

/-- Of two equal logits the second is kept, a third one is minus infinity before and after. -/
theorem topK_best_tie : ∃ best, KeepsBest [(3 : WithBot ℚ), 3, ⊥] (topK ⊥ [1, 0, 2] [3, 3, ⊥] 1) 1 best :=
  (topK_best [(3 : WithBot ℚ), 3, ⊥] [1, 0, 2] 1).1 (by omega) (by decide)
    ⟨by decide, by decide, by decide +kernel⟩

end Exact
end ModelRuntime
