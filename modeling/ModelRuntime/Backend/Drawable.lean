import ModelRuntime.Backend.AmongBest

/-!
# When there is a token to draw

Top-k leaves weights at the first ranks only, and the top-p filter leaves them at the ids of the tokens in the nucleus
only. A weight is left by both exactly where a token of the nucleus has an id below `top_k`; elsewhere
`std::discrete_distribution` is handed zeros.
-/

namespace ModelRuntime
namespace Exact

/-- Where all that `q` holds of is in front, it is at the first places. -/
theorem countP_front {α : Type*} {q : α → Bool} {l : List α} (front : l.Pairwise fun x y => q y = true → q x = true)
    {i : Nat} (inside : i < l.length) : q l[i] = true ↔ i < l.countP q := by
  induction l generalizing i with
  | nil => exact absurd inside (Nat.not_lt_zero i)
  | cons x l ih =>
    obtain ⟨first, rest⟩ := List.pairwise_cons.1 front
    by_cases held : q x = true
    · rw [List.countP_cons_of_pos held]
      cases i with
      | zero => simp [held]
      | succ i =>
        rw [List.getElem_cons_succ, ih rest (by simpa using inside)]
        omega
    -- What `q` does not hold of at the head it holds of nowhere.
    · have none : ∀ y ∈ x :: l, ¬ q y = true := by
        intro y mem
        rcases List.mem_cons.1 mem with rfl | later
        · exact held
        · exact fun held' => held (first y later held')
      rw [List.countP_eq_zero.2 none]
      exact iff_of_false (none _ (List.getElem_mem inside)) (Nat.not_lt_zero i)

section Ranks

variable {K : Type} [LinearOrder K] {logits : List (WithBot K)} {indices : List Nat}

/-- How many logits are finite. -/
def finiteLogits (logits : List (WithBot K)) : Nat :=
  (List.range logits.length).countP fun token => decide (logits.getD token ⊥ ≠ ⊥)

theorem finiteLogits_le (logits : List (WithBot K)) : finiteLogits logits ≤ logits.length := by
  rw [finiteLogits]
  exact List.countP_le_length.trans_eq List.length_range

/-- The finite logits have the first ranks. -/
theorem Descending.finite_iff (desc : Descending logits indices) {i : Nat} (inside : i < indices.length) :
    logits.getD indices[i] ⊥ ≠ ⊥ ↔ i < finiteLogits logits := by
  have front : indices.Pairwise fun x y => decide (logits.getD y ⊥ ≠ ⊥) = true → decide (logits.getD x ⊥ ≠ ⊥) = true := by
    refine desc.falling.imp fun below finite => ?_
    rw [decide_eq_true_iff] at finite ⊢
    exact ne_bot_of_le_ne_bot finite below
  rw [finiteLogits, ← desc.perm.countP_eq, ← countP_front front inside, decide_eq_true_iff]

end Ranks

section Weights

variable {K : Type} [Field K] [LinearOrder K] {exp : WithBot K → K} {logits : List (WithBot K)} {indices : List Nat}
  {p : K} {n : Nat}

/-- A finite logit has a weight. -/
theorem Descending.probs_pos (desc : Descending logits indices) (rising : StrictMono exp) (zero : exp ⊥ = 0) {a : K}
    (some : (a : WithBot K) ∈ logits) {i : Nat} (inside : i < (probs exp logits indices).length) :
    0 < (probs exp logits indices)[i] ↔ i < finiteLogits logits := by
  obtain ⟨top, finite⟩ := desc.top_finite some
  have rank : i < indices.length := by rwa [probs_length] at inside
  have here : (probs exp logits indices)[i] = exp (sub (logits.getD indices[i] ⊥) top) := by
    rw [← finite]
    simp [probs]
  rw [here, ← desc.finite_iff rank]
  cases logits.getD indices[i] ⊥ with
  | bot =>
    have none : exp (sub ⊥ (top : WithBot K)) = 0 := zero
    simp [none]
  | coe b =>
    have positive : 0 < exp (sub (b : WithBot K) top) := zero.symm.trans_lt (rising (WithBot.bot_lt_coe (b - top)))
    simp [positive]

/-- **Some weight is left** exactly where a token of the nucleus has the id of a rank with a weight. -/
theorem Reaches.weight_iff (first : Reaches (probs exp logits indices) p n) (desc : Descending logits indices)
    (rising : StrictMono exp) (zero : exp ⊥ = 0) {a : K} (some : (a : WithBot K) ∈ logits) :
    (∃ w ∈ weights exp logits indices p, 0 < w) ↔ ∃ i ∈ nucleus indices n, i < finiteLogits logits := by
  constructor
  · rintro ⟨w, mem, positive⟩
    obtain ⟨i, at_i⟩ := List.mem_iff_getElem?.1 mem
    have inside : i < logits.length := by
      rw [← first.weights_length desc]
      exact (List.getElem?_eq_some_iff.1 at_i).1
    have inside' : i < (probs exp logits indices).length := by rwa [probs_length, desc.length]
    rw [first.weights_at desc inside, Option.some.injEq] at at_i
    split at at_i
    · rename_i front
      rw [List.getD_eq_getElem _ _ inside'] at at_i
      rw [← at_i] at positive
      exact ⟨i, front, (desc.probs_pos rising zero some inside').1 positive⟩
    · exact absurd at_i positive.ne
  · rintro ⟨i, front, few⟩
    have inside : i < logits.length := few.trans_le (finiteLogits_le logits)
    have inside' : i < (probs exp logits indices).length := by rwa [probs_length, desc.length]
    refine ⟨_, List.mem_of_getElem? (first.weights_at desc inside), ?_⟩
    rw [if_pos front, List.getD_eq_getElem _ _ inside']
    exact (desc.probs_pos rising zero some inside').2 few

end Weights

section Kept

variable {K : Type} [Field K] [LinearOrder K] {logits : List K} {temperature : K} {k : Int} {order : List Nat}

/-- Top-k leaves `k` logits. -/
theorem filtered_count (guard : 0 < k ∧ k < logits.length)
    (sorted : PartiallySorted (scale logits temperature) order k.toNat) :
    (finiteLogits (filtered logits temperature k order) : Int) = k := by
  have perm := sorted.perm
  rw [scale_length] at perm
  have nodup : order.Nodup := perm.nodup_iff.2 List.nodup_range
  have finite : ∀ token ∈ order, decide ((filtered logits temperature k order).getD token ⊥ ≠ ⊥) = true ↔
      decide (token ∈ order.take k.toNat) = true := by
    intro token mem
    have inside : token < logits.length := List.mem_range.1 (perm.mem_iff.1 mem)
    rw [decide_eq_true_iff, decide_eq_true_iff]
    refine ⟨filtered_kept guard inside, fun kept => ?_⟩
    rw [filtered, if_pos guard, List.getD_eq_getElem?_getD, topK_at (by rw [scale_length]; omega)
      (by rwa [scale_length]), if_pos kept, Option.getD_some, ← List.getD_eq_getElem _ ⊥, scale_at inside]
    exact WithBot.coe_ne_bot
  have front : (order.take k.toNat).countP (fun token => decide (token ∈ order.take k.toNat)) = k.toNat := by
    have all : ∀ token ∈ order.take k.toNat, decide (token ∈ order.take k.toNat) = true :=
      fun token mem => decide_eq_true mem
    rw [List.countP_eq_length.2 all, List.length_take, perm.length_eq, List.length_range]
    omega
  have back : (order.drop k.toNat).countP (fun token => decide (token ∈ order.take k.toNat)) = 0 := by
    refine List.countP_eq_zero.2 fun token behind kept => ?_
    exact List.disjoint_take_drop nodup le_rfl (of_decide_eq_true kept) behind
  -- The order names each token once: the first `k`, and the others.
  have count := @List.countP_append _ (fun token => decide (token ∈ order.take k.toNat)) (order.take k.toNat)
    (order.drop k.toNat)
  rw [List.take_append_drop, front, back] at count
  rw [finiteLogits, filtered_length, ← perm.countP_eq, List.countP_congr finite, count]
  omega

/-- Without top-k all are left. -/
theorem filtered_count_all (open' : ¬ (0 < k ∧ k < logits.length)) :
    finiteLogits (filtered logits temperature k order) = logits.length := by
  have finite : ∀ token ∈ List.range logits.length,
      decide ((filtered logits temperature k order).getD token ⊥ ≠ ⊥) = true := by
    intro token mem
    rw [decide_eq_true_iff, filtered, if_neg open', scale_at (List.mem_range.1 mem)]
    exact WithBot.coe_ne_bot
  rw [finiteLogits, filtered_length, List.countP_eq_length.2 finite, List.length_range]

end Kept

/-! ## The sampler on floats -/

section Floats

variable {M C : Type} (lib : FloatLib) {exp : WithBot ℚ → ℚ} {api : LlamaCpp M C (List CFloat)}
  {be : LlamaBackend M C} {logits : List ℚ} {temperature p : ℚ} {k : Int}

/-- The logits that the stochastic path hands to `sample_top_p`. -/
def handed (logits : List ℚ) (temperature : ℚ) (k : Int) : List (WithBot ℚ) :=
  filtered logits temperature k
    (lib.partialSort (applyTemperature lib (logits.map .finite) (.finite temperature)) k.toNat)

/-- The indices as `sample_top_p` sorts them. -/
def ranked (logits : List ℚ) (temperature : ℚ) (k : Int) : List Nat :=
  lib.sort ((handed lib logits temperature k).map ofLogit)

variable {lib}

/-- **When there is a token to draw**: on floats that do not round, the stochastic path hands
`std::discrete_distribution` a positive weight exactly where top-k is off or a token of the nucleus has an id below
`top_k`. -/
theorem sampler_weight_iff (floats : ExactFloats lib exp) (rising : StrictMono exp) (zero : exp ⊥ = 0)
    (sorts : Sorts lib) (nVocab : be.vocabSize api = logits.length) (ne : logits ≠ [])
    (warm : ¬ (temperature ≤ 0 ∨ temperature < coldBelow)) (pos : 0 < p) (le_one : p ≤ 1) :
    let kept := handed lib logits temperature k
    let indices := ranked lib logits temperature k
    (∀ rd draw, be.sampler lib api rd (logits.map .finite) (.finite temperature) (.finite p) k draw =
      (indices.getD (lib.discrete (rd draw) ((weights exp kept indices p).map .finite)) 0 : Nat)) ∧
      ∃ n, Reaches (probs exp kept indices) p n ∧
        ((∃ w ∈ weights exp kept indices p, 0 < w) ↔
          (0 < k ∧ k < logits.length → ∃ i ∈ nucleus indices n, (i : Int) < k)) := by
  intro kept indices
  have nonzero : temperature ≠ 0 := fun same => warm (.inl same.le)
  have ordered : PartiallySorted (scale logits temperature) _ k.toNat := sorts.scaled floats nonzero
  obtain ⟨a, some⟩ := filtered_some ne fun _ _ => ordered
  have desc : Descending kept indices := sorts.sort kept
  obtain ⟨n, first⟩ := exists_reaches (desc.sum_pos rising zero some) pos le_one
  refine ⟨fun rd draw => sampler_warm floats rising zero nVocab rfl rfl desc some warm rd draw, n, first, ?_⟩
  rw [first.weight_iff desc rising zero some]
  by_cases guard : 0 < k ∧ k < logits.length
  · have count : (finiteLogits kept : Int) = k := filtered_count guard ordered
    constructor
    · rintro ⟨i, front, few⟩ _
      exact ⟨i, front, by omega⟩
    · intro held
      obtain ⟨i, front, few⟩ := held guard
      exact ⟨i, front, by omega⟩
  · have count : finiteLogits kept = logits.length := filtered_count_all guard
    refine iff_of_true ?_ fun on => absurd on guard
    -- The first of the nucleus is a token of the vocabulary.
    have size : kept.length = logits.length := filtered_length
    have nonempty : 0 < indices.length := by
      rw [desc.length, size]
      exact List.length_pos_iff.2 ne
    refine ⟨indices[0], List.mem_take_iff_getElem.2 ⟨0, by omega, rfl⟩, ?_⟩
    rw [count, ← size]
    exact desc.mem.1 (List.getElem_mem nonempty)

end Floats

/-- With `top_k = 1` the second of four tokens is left, the nucleus is that token, and its id is 1. -/
theorem sampler_weight_iff_second :
    let kept := handed ratLib [(0 : ℚ), 5, 0, 0] 1 1
    let indices := ranked ratLib [(0 : ℚ), 5, 0, 0] 1 1
    (∀ rd draw, sumEngine.backend.sampler ratLib floatLlama rd ([(0 : ℚ), 5, 0, 0].map .finite) (.finite 1)
        (.finite (1 / 2)) 1 draw =
      (indices.getD (ratLib.discrete (rd draw) ((weights ratExp kept indices (1 / 2)).map .finite)) 0 : Nat)) ∧
      ∃ n, Reaches (probs ratExp kept indices) (1 / 2) n ∧
        ((∃ w ∈ weights ratExp kept indices (1 / 2), 0 < w) ↔
          (0 < (1 : Int) ∧ 1 < ([(0 : ℚ), 5, 0, 0].length : Int) → ∃ i ∈ nucleus indices n, (i : Int) < 1)) :=
  sampler_weight_iff ratLib_exact ratExp_strictMono rfl ratLib_sorts rfl (by decide) (by decide +kernel)
    (by decide +kernel) (by decide +kernel)

end Exact
end ModelRuntime
