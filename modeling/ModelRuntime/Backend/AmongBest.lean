import ModelRuntime.Backend.TopOne
import ModelRuntime.Engine.Inference

/-!
# No token below the k best

Whatever the temperature, `top_p` and the draw are, the token that `sample_token` returns has fewer than `top_k`
tokens above it: what top-k has cleared has no weight, and the top-p filter gives weight to nothing.
-/

namespace ModelRuntime
namespace Exact

section Draw

variable {K : Type} [Field K] [LinearOrder K] {exp : WithBot K → K} {logits : List (WithBot K)} {indices : List Nat}
  {p : K} {token : Nat}

omit [LinearOrder K] in
theorem clear_some {places : List Nat} {probs : List K} {i : Nat} {w : K} (at_i : (clear places probs)[i]? = some w) :
    probs[i]? = some w ∨ w = 0 := by
  have inside : i < probs.length := by
    have within := (List.getElem?_eq_some_iff.1 at_i).1
    rwa [clear_length] at within
  rw [clear_at inside, Option.some.injEq] at at_i
  split at at_i
  · exact .inr at_i.symm
  · left
    rw [List.getElem?_eq_getElem inside, at_i]

/-- The filter clears weights, and changes none. -/
theorem topPFilter_some {sum cumsum w : K} {probs rest : List K} {n i : Nat}
    (at_i : (topPFilter p sum indices probs n cumsum rest)[i]? = some w) : probs[i]? = some w ∨ w = 0 := by
  induction rest generalizing n cumsum with
  | nil => exact .inl at_i
  | cons prob rest ih =>
    rw [topPFilter] at at_i
    split at at_i
    · exact clear_some at_i
    · exact ih at_i

/-- What can be drawn has a finite logit. -/
theorem CanDraw.finite (draws : CanDraw exp logits indices p token) (desc : Descending logits indices)
    (zero : exp ⊥ = 0) : token < logits.length ∧ logits.getD token ⊥ ≠ ⊥ := by
  obtain ⟨i, w, at_i, positive, rfl⟩ := draws
  have held : (probs exp logits indices)[i]? = some w :=
    (topPFilter_some at_i).resolve_right positive.ne'
  rw [probs, List.getElem?_map] at held
  obtain ⟨j, at_j, weight⟩ := Option.map_eq_some_iff.1 held
  rw [List.getD_eq_getElem?_getD, at_j, Option.getD_some]
  refine ⟨desc.mem.1 (List.mem_of_getElem? at_j), fun bot => ?_⟩
  have none : w = 0 := by
    rw [← weight, bot]
    exact zero
  exact positive.ne' none

end Draw

section Best

variable {K : Type} [Field K] [LinearOrder K] [IsStrictOrderedRing K] {exp : WithBot K → K} {logits : List K}
  {temperature p : K} {k : Int} {order indices : List Nat} {token : Nat}

/-- A token of the vocabulary with fewer than `k` tokens above it, where `k` is positive. -/
structure AmongBest (logits : List K) (k : Int) (token : Nat) : Prop where
  inside : token < logits.length
  above : 0 < k → (((Finset.range logits.length).filter fun j => logits.getD token 0 < logits.getD j 0).card : Int) < k

omit [IsStrictOrderedRing K] in
/-- Tokens that are all among `k` others than this one. -/
theorem AmongBest.of_subset (inside : token < logits.length) {best : List Nat} (few : (best.length : Int) ≤ k)
    (mem : token ∈ best) (above : ∀ j < logits.length, logits.getD token 0 < logits.getD j 0 → j ∈ best) :
    AmongBest logits k token := by
  refine ⟨inside, fun _ => ?_⟩
  have subset : ((Finset.range logits.length).filter fun j => logits.getD token 0 < logits.getD j 0) ⊆
      best.toFinset.erase token := by
    intro j larger
    obtain ⟨within, larger⟩ := Finset.mem_filter.1 larger
    refine Finset.mem_erase.2 ⟨?_, List.mem_toFinset.2 (above j (Finset.mem_range.1 within) larger)⟩
    rintro rfl
    exact lt_irrefl _ larger
  have fewer := Finset.card_le_card subset
  have one := Finset.card_erase_lt_of_mem (List.mem_toFinset.2 mem)
  have all := List.toFinset_card_le best
  omega

omit [IsStrictOrderedRing K] in
/-- The largest logit has none above it. -/
theorem AmongBest.of_max (ne : logits ≠ []) (k : Int) : AmongBest logits k (maxElement logits) := by
  obtain ⟨v, at_max, most⟩ := maxElement_max ne
  refine ⟨(List.getElem?_eq_some_iff.1 at_max).1, fun positive => ?_⟩
  have none : ((Finset.range logits.length).filter fun j =>
      logits.getD (maxElement logits) 0 < logits.getD j 0) = ∅ := by
    refine Finset.filter_eq_empty_iff.2 fun j within => not_lt.2 ?_
    have inside := Finset.mem_range.1 within
    rw [List.getD_eq_getElem _ _ inside, List.getD_eq_getElem?_getD, at_max]
    exact most _ (List.getElem_mem inside)
  rw [none]
  exact positive

/-- A partial sort puts everything that is above one of the first in front, too. -/
theorem PartiallySorted.above {n j : Nat} (sorted : PartiallySorted (scale logits temperature) order n)
    (positive : 0 < temperature) (mem : token ∈ order.take n) (inside : token < logits.length)
    (within : j < logits.length) (larger : logits.getD token 0 < logits.getD j 0) : j ∈ order.take n := by
  by_contra outside
  have listed : j ∈ order := sorted.perm.mem_iff.2 (List.mem_range.2 (by rwa [scale_length]))
  rw [← List.take_append_drop n order] at listed
  have below := sorted.first token mem j ((List.mem_append.1 listed).resolve_left outside)
  rw [scale_at inside, scale_at within, WithBot.coe_le_coe] at below
  rw [List.getD_eq_getElem _ _ inside, List.getD_eq_getElem _ _ within] at larger
  exact absurd below (not_le.2 (div_lt_div_of_pos_right larger positive))

omit [LinearOrder K] [IsStrictOrderedRing K] in
/-- What top-k leaves. -/
theorem filtered_kept (guard : 0 < k ∧ k < logits.length) (inside : token < logits.length)
    (finite : (filtered logits temperature k order).getD token ⊥ ≠ ⊥) : token ∈ order.take k.toNat := by
  by_contra outside
  apply finite
  have within : token < (scale logits temperature).length := by rwa [scale_length]
  rw [filtered, if_pos guard, List.getD_eq_getElem?_getD, topK_at (by rw [scale_length]; omega) within, if_neg outside]
  rfl

/-- **Whatever `sample_token` can return is among the `k` best.** -/
theorem Returns.amongBest (returned : Returns exp logits temperature p k order indices token) (ne : logits ≠ [])
    (zero : exp ⊥ = 0) (sorted : 0 < k → k < logits.length → PartiallySorted (scale logits temperature) order k.toNat)
    (desc : Descending (filtered logits temperature k order) indices) : AmongBest logits k token := by
  rw [Returns] at returned
  split at returned
  · rw [returned]
    exact .of_max ne k
  · rename_i warm
    have positive : 0 < temperature := not_le.1 fun cold => warm (.inl cold)
    obtain ⟨inside, finite⟩ := returned.finite desc zero
    rw [filtered_length] at inside
    by_cases guard : 0 < k ∧ k < logits.length
    · have kept := filtered_kept guard inside finite
      refine .of_subset inside ?_ kept fun j within larger => ?_
      · have short := List.length_take_le k.toNat order
        omega
      · exact (sorted guard.1 guard.2).above positive kept inside within larger
    · refine ⟨inside, fun some => ?_⟩
      have few : ((List.range logits.length).length : Int) ≤ k := by
        rw [List.length_range]
        omega
      have whole := AmongBest.of_subset inside few (List.mem_range.2 inside) fun j within _ => List.mem_range.2 within
      exact whole.above some

omit [IsStrictOrderedRing K] in
/-- Some logit is finite behind top-k, too. -/
theorem filtered_some (ne : logits ≠ [])
    (sorted : 0 < k → k < logits.length → PartiallySorted (scale logits temperature) order k.toNat) :
    ∃ a : K, (a : WithBot K) ∈ filtered logits temperature k order := by
  have nonempty : 0 < logits.length := List.length_pos_iff.2 ne
  rw [filtered]
  split
  · rename_i guard
    have perm := (sorted guard.1 guard.2).perm
    cases order with
    | nil =>
      have length := perm.length_eq
      rw [List.length_range, scale_length, List.length_nil] at length
      omega
    | cons first rest =>
      have within := List.mem_range.1 (perm.mem_iff.1 List.mem_cons_self)
      have inside : first < logits.length := by rwa [scale_length] at within
      have front : first ∈ (first :: rest).take k.toNat := by
        obtain ⟨n, positive⟩ : ∃ n, k.toNat = n + 1 := Nat.exists_eq_add_one.2 (by omega)
        rw [positive]
        exact List.mem_cons_self
      refine ⟨logits[first] / temperature, List.mem_of_getElem? (i := first) ?_⟩
      rw [topK_at (by rw [scale_length]; omega) within, if_pos front, ← List.getD_eq_getElem _ ⊥ within,
        scale_at inside]
  · refine ⟨logits[0] / temperature, List.mem_of_getElem? (i := 0) ?_⟩
    rw [List.getElem?_eq_getElem (by rwa [scale_length]), ← List.getD_eq_getElem _ ⊥ (by rwa [scale_length]),
      scale_at nonempty]

end Best

/-! ## The sampler on floats -/

section Floats

variable {M C : Type} {lib : FloatLib} {exp : WithBot ℚ → ℚ} {api : LlamaCpp M C (List CFloat)}
  {be : LlamaBackend M C} {logits : List ℚ} {temperature p : ℚ} {k : Int}

/-- What `std::sort` and `std::partial_sort` promise. -/
structure Sorts (lib : FloatLib) : Prop where
  sort : ∀ logits : List (WithBot ℚ), Descending logits (lib.sort (logits.map ofLogit))
  partialSort : ∀ (logits : List (WithBot ℚ)) k, PartiallySorted logits (lib.partialSort (logits.map ofLogit) k) k

/-- What `std::partial_sort` is handed, exactly. -/
theorem Sorts.scaled (sorts : Sorts lib) (floats : ExactFloats lib exp) (nonzero : temperature ≠ 0) :
    PartiallySorted (scale logits temperature)
      (lib.partialSort (applyTemperature lib (logits.map .finite) (.finite temperature)) k.toNat) k.toNat := by
  rw [applyTemperature_exact floats nonzero]
  exact sorts.partialSort (scale logits temperature) k.toNat

/-- **The code's sampler** on floats that do not round returns a token with fewer than `top_k` tokens above it,
whatever `top_p` and the random numbers are, unless the filter has left no weight to draw with. -/
theorem sampler_best (floats : ExactFloats lib exp) (rising : StrictMono exp) (zero : exp ⊥ = 0)
    (draws : DrawsPositive lib) (sorts : Sorts lib) (nVocab : be.vocabSize api = logits.length)
    (short : logits.length < 2 ^ 31) (ne : logits ≠ [])
    (possible : let order := lib.partialSort (applyTemperature lib (logits.map .finite) (.finite temperature)) k.toNat
      ∃ token, Returns exp logits temperature p k order (lib.sort ((filtered logits temperature k order).map ofLogit)) token)
    (rd : Nat → UInt32) (draw : Nat) :
    ∃ token : Nat, be.sampler lib api rd (logits.map .finite) (.finite temperature) (.finite p) k draw = token ∧
      AmongBest logits k token := by
  by_cases cold : temperature ≤ 0 ∨ temperature < coldBelow
  · exact ⟨_, sampler_cold nVocab short cold rd draw, .of_max ne k⟩
  · have nonzero : temperature ≠ 0 := fun same => cold (.inl same.le)
    have sorted : 0 < k → k < logits.length → PartiallySorted (scale logits temperature) _ k.toNat :=
      fun _ _ => sorts.scaled floats nonzero
    obtain ⟨a, some⟩ := filtered_some ne sorted
    have desc := sorts.sort (filtered logits temperature k
      (lib.partialSort (applyTemperature lib (logits.map .finite) (.finite temperature)) k.toNat))
    obtain ⟨token, returns, returned⟩ :=
      sampler_returns floats rising zero draws nVocab short rfl rfl desc some possible rd draw
    exact ⟨token, returns, returned.amongBest ne zero sorted desc⟩

end Floats

/-! ## Floats that do not round -/

section RatLib

/-- The indices by falling logit, equal ones in order. -/
def fallingLogits (logits : List (WithBot ℚ)) : List Nat :=
  (List.range logits.length).insertionSort fun i j => logits.getD j ⊥ ≤ logits.getD i ⊥

theorem fallingLogits_descending (logits : List (WithBot ℚ)) : Descending logits (fallingLogits logits) := by
  have total : Std.Total fun i j : Nat => logits.getD j ⊥ ≤ logits.getD i ⊥ := ⟨fun _ _ => le_total _ _⟩
  have trans : IsTrans Nat fun i j => logits.getD j ⊥ ≤ logits.getD i ⊥ := ⟨fun _ _ _ first second => second.trans first⟩
  exact ⟨List.perm_insertionSort _ _, List.pairwise_insertionSort _ _⟩

/-- Whoever sorts everything sorts the first. -/
theorem Descending.partially {logits : List (WithBot ℚ)} {indices : List Nat} (desc : Descending logits indices)
    (k : Nat) : PartiallySorted logits indices k := by
  have falling := desc.falling
  rw [← List.take_append_drop k indices, List.pairwise_append] at falling
  exact ⟨desc.perm, falling.1, falling.2.2⟩

def toLogit : CFloat → WithBot ℚ
  | .finite q => (q : ℚ)
  | _ => ⊥

/-- Rational arithmetic, stable sorts, and a draw that takes the first index with a weight. -/
def ratLib : FloatLib where
  add := CFloat.map₂ (· + ·)
  sub a b := if a = .negInf then a else CFloat.map₂ (· - ·) a b
  div := CFloat.map₂ (· / ·)
  exp a := .finite (ratExp (toLogit a))
  sort values := fallingLogits (values.map toLogit)
  partialSort values _ := fallingLogits (values.map toLogit)
  discrete _ weights := weights.findIdx fun w => decide (.finite 0 < w)

theorem toLogit_ofLogit (logits : List (WithBot ℚ)) : (logits.map ofLogit).map toLogit = logits := by
  rw [List.map_map]
  refine List.map_id'' (fun a => ?_) logits
  cases a <;> rfl

theorem ratLib_exact : ExactFloats ratLib ratExp where
  add _ _ := rfl
  sub a _ := by cases a <;> rfl
  div _ _ _ := rfl
  exp a := by cases a <;> rfl

theorem ratLib_sorts : Sorts ratLib where
  sort logits := by
    show Descending logits (fallingLogits ((logits.map ofLogit).map toLogit))
    rw [toLogit_ofLogit]
    exact fallingLogits_descending logits
  partialSort logits k := by
    show PartiallySorted logits (fallingLogits ((logits.map ofLogit).map toLogit)) k
    rw [toLogit_ofLogit]
    exact (fallingLogits_descending logits).partially k

theorem ratLib_draws : DrawsPositive ratLib := by
  intro rd ws _ some
  have positive : ∀ w : ℚ, decide (CFloat.finite 0 < CFloat.finite w) = true ↔ 0 < w := by
    intro w
    rw [decide_eq_true_iff]
    exact decide_eq_true_iff
  have found : ∃ x ∈ ws.map CFloat.finite, decide (CFloat.finite 0 < x) = true := by
    obtain ⟨w, mem, pos⟩ := some
    exact ⟨.finite w, List.mem_map_of_mem mem, (positive w).2 pos⟩
  have here := List.findIdx_getElem?_eq_getElem_of_exists found
  have holds := @List.findIdx_getElem _ (fun x => decide (CFloat.finite 0 < x)) _ (List.findIdx_lt_length_of_exists found)
  rw [List.getElem_map] at holds
  refine ⟨_, ?_, (positive _).1 holds⟩
  exact List.getElem?_eq_getElem _

/-- A token of four is drawn with `top_k = 2`. -/
theorem sampler_best_two : ∃ token : Nat,
    sumEngine.backend.sampler ratLib floatLlama (fun _ => 0) ([7, 1, 5, 3].map .finite) (.finite 1) (.finite 1) 2 0 =
        token ∧
      AmongBest [(7 : ℚ), 1, 5, 3] 2 token := by
  refine sampler_best ratLib_exact ratExp_strictMono rfl ratLib_draws ratLib_sorts rfl (by decide) (by decide) ?_ _ _
  refine ⟨0, ?_⟩
  rw [Returns, if_neg (by decide +kernel)]
  exact ⟨0, 1, by decide +kernel, by decide +kernel, by decide +kernel⟩

end RatLib

end Exact
end ModelRuntime
