import Mathlib.Algebra.Order.BigOperators.Group.List
import Mathlib.Algebra.Order.Field.Basic
import Mathlib.Algebra.BigOperators.Ring.List
import Mathlib.Data.Finset.Card
import Mathlib.Data.List.GetD
import ModelRuntime.Backend.Seed

/-!
# The nucleus

`sample_top_p` in exact arithmetic over an ordered field, the exponential being any strictly increasing
function that is zero at minus infinity; `sampleTopP_exact` is the tie to the filter on floats. The
weights stand in the order of the sorted tokens, but the filter clears them at the tokens' ids: it keeps the
nucleus, and nothing else, exactly where the two agree about it.
-/

namespace ModelRuntime
namespace Exact

/-! ## The sorted tokens -/

section Sorted

variable {K : Type} [LinearOrder K] {logits : List (WithBot K)} {indices : List Nat} {k : Nat}

/-- The tokens by falling logit. -/
structure Descending (logits : List (WithBot K)) (indices : List Nat) : Prop where
  perm : indices.Perm (List.range logits.length)
  falling : indices.Pairwise fun i j => logits.getD j ⊥ ≤ logits.getD i ⊥

/-- The tokens up to rank `k`. -/
def nucleus (indices : List Nat) (k : Nat) : List Nat := indices.take (k + 1)

namespace Descending

theorem nodup (desc : Descending logits indices) : indices.Nodup := desc.perm.nodup_iff.2 List.nodup_range

theorem length (desc : Descending logits indices) : indices.length = logits.length :=
  desc.perm.length_eq.trans List.length_range

theorem mem (desc : Descending logits indices) {i : Nat} : i ∈ indices ↔ i < logits.length :=
  desc.perm.mem_iff.trans List.mem_range

/-- The first token has a finite logit. -/
theorem top_finite (desc : Descending logits indices) {a : K} (some : (a : WithBot K) ∈ logits) :
    ∃ top : K, logits.getD (indices.getD 0 0) ⊥ = top := by
  obtain ⟨i, inside, at_i⟩ := List.getElem_of_mem some
  have reads : logits.getD i ⊥ = a := by rw [List.getD_eq_getElem _ _ inside, at_i]
  have mem := desc.mem.2 inside
  have falling := desc.falling
  cases indices with
  | nil => cases mem
  | cons first rest =>
    have below : (a : WithBot K) ≤ logits.getD first ⊥ := by
      rcases List.mem_cons.1 mem with rfl | later
      · exact reads.ge
      · exact reads.ge.trans ((List.pairwise_cons.1 falling).1 i later)
    rw [List.getD_cons_zero]
    cases top : logits.getD first ⊥ with
    | bot =>
      rw [top] at below
      exact absurd below (WithBot.not_coe_le_bot a)
    | coe top' => exact ⟨top', rfl⟩

/-- A token is either in the nucleus or behind it. -/
theorem mem_drop (desc : Descending logits indices) {i : Nat} (inside : i < logits.length) :
    i ∈ indices.drop (k + 1) ↔ i ∉ nucleus indices k := by
  have split := List.take_append_drop (k + 1) indices
  have nodup := desc.nodup
  have mem := desc.mem.2 inside
  rw [← split] at nodup mem
  rw [nucleus]
  constructor
  · intro behind front
    exact (List.nodup_append.1 nodup).2.2 i front i behind rfl
  · intro behind
    exact (List.mem_append.1 mem).resolve_left behind

/-- The nucleus holds as many tokens as there are ids up to `k`. -/
theorem nucleus_ids (desc : Descending logits indices) (bound : k < logits.length) :
    (∀ i ∈ nucleus indices k, i ≤ k) ↔ ∀ i ≤ k, i ∈ nucleus indices k := by
  have distinct : (nucleus indices k).toFinset.card = (Finset.range (k + 1)).card := by
    rw [nucleus, List.toFinset_card_of_nodup (desc.nodup.sublist (List.take_sublist _ _)), List.length_take,
      desc.length, Finset.card_range]
    omega
  constructor
  · intro ids i le
    have within : (nucleus indices k).toFinset ⊆ Finset.range (k + 1) := by
      intro j mem
      exact Finset.mem_range.2 (Nat.lt_succ_of_le (ids j (List.mem_toFinset.1 mem)))
    rw [← List.mem_toFinset, Finset.eq_of_subset_of_card_le within distinct.ge]
    exact Finset.mem_range.2 (Nat.lt_succ_of_le le)
  · intro all i mem
    have within : Finset.range (k + 1) ⊆ (nucleus indices k).toFinset := by
      intro j mem
      exact List.mem_toFinset.2 (all j (Nat.le_of_lt_succ (Finset.mem_range.1 mem)))
    rw [← List.mem_toFinset, ← Finset.eq_of_subset_of_card_le within distinct.le] at mem
    exact Nat.le_of_lt_succ (Finset.mem_range.1 mem)

end Descending
end Sorted

/-! ## The sampler -/

section Sampler

variable {K : Type} [Field K]

/-- `a - b` of logits. -/
def sub (a b : WithBot K) : WithBot K := WithBot.map₂ (· - ·) a b

/-- `probs` before the filter, in the order of `indices`. -/
def probs (exp : WithBot K → K) (logits : List (WithBot K)) (indices : List Nat) : List K :=
  let maxLogit := logits.getD (indices.getD 0 0) ⊥
  indices.map fun i => exp (sub (logits.getD i ⊥) maxLogit)

/-- The weights at these places are cleared. -/
def clear (places : List Nat) (probs : List K) : List K := places.foldl (fun probs j => probs.set j 0) probs

@[simp] theorem probs_length {exp : WithBot K → K} {logits : List (WithBot K)} {indices : List Nat} :
    (probs exp logits indices).length = indices.length := List.length_map _

@[simp] theorem clear_length (places : List Nat) (probs : List K) : (clear places probs).length = probs.length := by
  unfold clear
  induction places generalizing probs with
  | nil => rfl
  | cons j places ih => rw [List.foldl_cons, ih, List.length_set]

theorem clear_at {places : List Nat} {probs : List K} {i : Nat} (inside : i < probs.length) :
    (clear places probs)[i]? = some (if i ∈ places then 0 else probs[i]) := by
  unfold clear
  induction places generalizing probs with
  | nil => simp [inside]
  | cons j places ih =>
    have inside' : i < (probs.set j 0).length := by rwa [List.length_set]
    rw [List.foldl_cons, ih inside', List.getElem_set]
    by_cases later : i ∈ places
    · rw [if_pos later, if_pos (List.mem_cons_of_mem _ later)]
    · by_cases here : j = i
      · subst here
        rw [if_neg later, if_pos rfl, if_pos List.mem_cons_self]
      · rw [if_neg later, if_neg here, if_neg]
        intro mem
        rcases List.mem_cons.1 mem with same | later'
        · exact here same.symm
        · exact later later'

/-- The sum of the first `n` normalised weights. -/
def massUpTo (probs : List K) (n : Nat) : K := ((probs.take n).map (· / probs.sum)).sum

theorem massUpTo_succ {probs : List K} {n : Nat} (inside : n < probs.length) :
    massUpTo probs (n + 1) = massUpTo probs n + probs[n] / probs.sum := by
  rw [massUpTo, massUpTo, List.take_succ_eq_append_getElem inside, List.map_append, List.sum_append]
  simp

theorem massUpTo_all {probs : List K} (mass : probs.sum ≠ 0) : massUpTo probs probs.length = 1 := by
  have factor : (probs.map (· / probs.sum)).sum = probs.sum * probs.sum⁻¹ := by
    have := List.sum_map_mul_right probs id probs.sum⁻¹
    simpa [div_eq_mul_inv] using this
  rw [massUpTo, List.take_length, factor, mul_inv_cancel₀ mass]

variable [LinearOrder K]

/-- The top-p loop from index `i`, `rest` being the probabilities from there on. -/
def topPFilter (p sum : K) (indices : List Nat) (probs : List K) : (i : Nat) → (cumsum : K) → (rest : List K) →
    List K
  | _, _, [] => probs
  | i, cumsum, prob :: rest =>
    let cumsum := cumsum + prob / sum
    if p ≤ cumsum then clear (indices.drop (i + 1)) probs
    else topPFilter p sum indices probs (i + 1) cumsum rest

/-- What `discrete_distribution` is handed. -/
def weights (exp : WithBot K → K) (logits : List (WithBot K)) (indices : List Nat) (p : K) : List K :=
  let probs := probs exp logits indices
  let sum := probs.foldl (· + ·) 0
  topPFilter p sum indices probs 0 0 probs

/-- Rank `k` is the first at which the cumulative normalised weight reaches `p`. -/
structure Reaches (probs : List K) (p : K) (k : Nat) : Prop where
  bound : k < probs.length
  reached : p ≤ massUpTo probs (k + 1)
  before : ∀ j < k, massUpTo probs (j + 1) < p

/-- The filter keeps exactly the nucleus. An index with a positive weight is one that can be drawn. -/
structure KeepsNucleus (exp : WithBot K → K) (logits : List (WithBot K)) (indices : List Nat) (p : K) (k : Nat) :
    Prop where
  kept : ∀ i < logits.length, (weights exp logits indices p)[i]? =
    some (if i ≤ k then (probs exp logits indices).getD i 0 else 0)
  positive : 0 < (weights exp logits indices p).sum
  drawn : ∀ (i : Nat) w, (weights exp logits indices p)[i]? = some w → 0 < w →
    indices.getD i 0 ∈ nucleus indices k

variable {exp : WithBot K → K} {logits : List (WithBot K)} {indices : List Nat} {p : K} {k : Nat}

/-- The loop clears behind the first rank at which the sum reaches `p`. -/
theorem topPFilter_reaches {sum cumsum : K} {probs rest : List K} {i : Nat} (bound : k < rest.length)
    (reached : p ≤ cumsum + ((rest.take (k + 1)).map (· / sum)).sum)
    (before : ∀ j < k, cumsum + ((rest.take (j + 1)).map (· / sum)).sum < p) :
    topPFilter p sum indices probs i cumsum rest = clear (indices.drop (i + k + 1)) probs := by
  induction rest generalizing i cumsum k with
  | nil => cases bound
  | cons prob rest ih =>
    rw [topPFilter]
    cases k with
    | zero =>
      rw [List.take_succ_cons, List.take_zero, List.map_cons, List.map_nil, List.sum_singleton] at reached
      rw [if_pos reached, Nat.add_zero]
    | succ k =>
      have first := before 0 (Nat.succ_pos k)
      rw [List.take_succ_cons, List.take_zero, List.map_cons, List.map_nil, List.sum_singleton] at first
      rw [if_neg (not_le.2 first), ih (Nat.lt_of_succ_lt_succ bound)]
      · congr 2
        omega
      · rw [List.take_succ_cons, List.map_cons, List.sum_cons, ← add_assoc] at reached
        exact reached
      · intro j less
        have later := before (j + 1) (Nat.succ_lt_succ less)
        rw [List.take_succ_cons, List.map_cons, List.sum_cons, ← add_assoc] at later
        exact later

/-- The weights behind the nucleus are cleared at the ids of its complement. -/
theorem Reaches.cleared (first : Reaches (probs exp logits indices) p k) :
    weights exp logits indices p = clear (indices.drop (k + 1)) (probs exp logits indices) := by
  rw [weights, ← List.sum_eq_foldl, topPFilter_reaches first.bound, Nat.zero_add]
  · rw [zero_add]
    exact first.reached
  · intro j less
    rw [zero_add]
    exact first.before j less

/-- What is left of the weights are those at the nucleus's ids. -/
theorem Reaches.weights_at (first : Reaches (probs exp logits indices) p k) (desc : Descending logits indices)
    {i : Nat} (inside : i < logits.length) : (weights exp logits indices p)[i]? =
      some (if i ∈ nucleus indices k then (probs exp logits indices).getD i 0 else 0) := by
  have inside' : i < (probs exp logits indices).length := by rwa [probs_length, desc.length]
  rw [first.cleared, clear_at inside', List.getD_eq_getElem _ _ inside']
  by_cases mem : i ∈ nucleus indices k
  · rw [if_neg fun behind => (desc.mem_drop inside).1 behind mem, if_pos mem]
  · rw [if_pos ((desc.mem_drop inside).2 mem), if_neg mem]

theorem Reaches.weights_length (first : Reaches (probs exp logits indices) p k) (desc : Descending logits indices) :
    (weights exp logits indices p).length = logits.length := by
  rw [first.cleared, clear_length, probs_length, desc.length]

theorem exp_nonneg (rising : StrictMono exp) (zero : exp ⊥ = 0) (a : WithBot K) : 0 ≤ exp a :=
  zero.symm.trans_le (rising.monotone bot_le)

theorem probs_nonneg (rising : StrictMono exp) (zero : exp ⊥ = 0) : ∀ w ∈ probs exp logits indices, 0 ≤ w := by
  intro w mem
  obtain ⟨i, _, rfl⟩ := List.mem_map.1 mem
  exact exp_nonneg rising zero _

/-- Some rank reaches `p`. -/
theorem exists_reaches {probs : List K} (mass : 0 < probs.sum) (pos : 0 < p) (le_one : p ≤ 1) :
    ∃ k, Reaches probs p k := by
  have all : p ≤ massUpTo probs probs.length := by rwa [massUpTo_all mass.ne']
  have reached : ∃ n, p ≤ massUpTo probs n := ⟨_, all⟩
  have least := fun {j} => Nat.find_min reached (m := j)
  have here := Nat.find_spec reached
  have le := Nat.find_min' reached all
  cases found : Nat.find reached with
  | zero =>
    rw [found] at here
    exact absurd here (not_le.2 pos)
  | succ k =>
    rw [found] at here le
    refine ⟨k, le, here, fun j less => not_le.1 (least ?_)⟩
    omega

variable [IsStrictOrderedRing K]

theorem sub_falling {a a' b : WithBot K} (below : a ≤ a') : sub a b ≤ sub a' b := by
  cases b with
  | bot => cases a <;> cases a' <;> exact le_refl _
  | coe b =>
    cases a with
    | bot => exact bot_le
    | coe a =>
      cases a' with
      | bot => exact absurd below (WithBot.not_coe_le_bot a)
      | coe a' => exact WithBot.coe_le_coe.2 (sub_le_sub_right (WithBot.coe_le_coe.1 below) b)

/-- The weights fall with the rank. -/
theorem Descending.weights_fall (desc : Descending logits indices) (rising : StrictMono exp) :
    (probs exp logits indices).Pairwise fun w w' => w' ≤ w :=
  List.pairwise_map.2 (desc.falling.imp fun below => rising.monotone (sub_falling below))

/-- The weights do not all vanish: the first is that of a finite logit. -/
theorem Descending.sum_pos (desc : Descending logits indices) (rising : StrictMono exp) (zero : exp ⊥ = 0) {a : K}
    (some : (a : WithBot K) ∈ logits) : 0 < (probs exp logits indices).sum := by
  obtain ⟨top, finite⟩ := desc.top_finite some
  have rest : ∀ w ∈ probs exp logits indices, 0 ≤ w := probs_nonneg rising zero
  have first : exp (sub (logits.getD (indices.getD 0 0) ⊥) (logits.getD (indices.getD 0 0) ⊥)) ∈
      probs exp logits indices := by
    obtain ⟨i, inside, -⟩ := List.getElem_of_mem some
    have mem := desc.mem.2 inside
    cases indices with
    | nil => cases mem
    | cons i rest => exact List.mem_cons_self
  rw [finite] at first
  exact (zero.symm.trans_lt (rising (WithBot.bot_lt_coe _))).trans_le (List.single_le_sum rest _ first)

/-- Every weight of the nucleus is positive: the sum would not reach `p` at `k` otherwise. -/
theorem Reaches.positive (first : Reaches (probs exp logits indices) p k) (desc : Descending logits indices)
    (rising : StrictMono exp) (mass : 0 < (probs exp logits indices).sum) (pos : 0 < p) {i : Nat} (le : i ≤ k)
    (inside : i < (probs exp logits indices).length) : 0 < (probs exp logits indices)[i] := by
  have bound := first.bound
  have below : massUpTo (probs exp logits indices) k < p := by
    cases k with
    | zero => exact pos
    | succ k => exact first.before k (Nat.lt_succ_self k)
  have jump := below.trans_le first.reached
  rw [massUpTo_succ bound] at jump
  have last : 0 < (probs exp logits indices)[k] :=
    (div_pos_iff_of_pos_right mass).1 (pos_of_lt_add_right jump)
  rcases Nat.lt_or_eq_of_le le with less | rfl
  · exact last.trans_le (List.pairwise_iff_getElem.1 (desc.weights_fall rising) i k inside bound less)
  · exact last

/-- Where the weights of the first ranks are left and no other, one of the nucleus is drawn. -/
theorem KeepsNucleus.of_kept (first : Reaches (probs exp logits indices) p k) (desc : Descending logits indices)
    (rising : StrictMono exp) (zero : exp ⊥ = 0) (mass : 0 < (probs exp logits indices).sum) (pos : 0 < p)
    (kept : ∀ i < logits.length, (weights exp logits indices p)[i]? =
      some (if i ≤ k then (probs exp logits indices).getD i 0 else 0)) :
    KeepsNucleus exp logits indices p k := by
  have same := first.weights_length desc
  have bound : k < logits.length := by
    have := first.bound
    rwa [probs_length, desc.length] at this
  have inside : ∀ i < logits.length, i < (probs exp logits indices).length := by
    intro i less
    rwa [probs_length, desc.length]
  refine ⟨kept, ?_, ?_⟩
  · have head := kept 0 (by omega)
    rw [if_pos (Nat.zero_le k), List.getD_eq_getElem _ _ (inside 0 (by omega))] at head
    have nonneg : ∀ w ∈ weights exp logits indices p, 0 ≤ w := by
      intro w mem
      obtain ⟨i, less, rfl⟩ := List.getElem_of_mem mem
      have at_i := kept i (by omega)
      rw [List.getElem?_eq_getElem less, Option.some.injEq] at at_i
      rw [at_i]
      split
      · rw [List.getD_eq_getElem _ _ (inside i (by omega))]
        exact probs_nonneg rising zero _ (List.getElem_mem _)
      · exact le_rfl
    exact (first.positive desc rising mass pos (Nat.zero_le k) (inside 0 (by omega))).trans_le
      (List.single_le_sum nonneg _ (List.mem_of_getElem? head))
  · intro i w at_i positive
    have less : i < logits.length := by
      rw [← same]
      exact (List.getElem?_eq_some_iff.1 at_i).1
    rw [kept i less, Option.some.injEq] at at_i
    by_cases le : i ≤ k
    · have less' : i < indices.length := by rwa [desc.length]
      rw [List.getD_eq_getElem _ _ less', nucleus, List.mem_take_iff_getElem]
      exact ⟨i, by omega, rfl⟩
    · rw [if_neg le] at at_i
      exact absurd positive at_i.ge.not_gt

/-- A strictly increasing function that is zero at minus infinity. -/
def ratExp : WithBot ℚ → ℚ
  | ⊥ => 0
  | (x : ℚ) => if x ≤ 0 then 1 / (1 - x) else 1 + x

theorem ratExp_strictMono : StrictMono ratExp := by
  have low : ∀ x : ℚ, x ≤ 0 → ratExp x = 1 / (1 - x) := fun x le => if_pos le
  have high : ∀ x : ℚ, 0 < x → ratExp x = 1 + x := fun x lt => if_neg (not_le.2 lt)
  intro a b less
  cases b with
  | bot => exact absurd less not_lt_bot
  | coe b =>
    cases a with
    | bot =>
      have zero : ratExp ⊥ = 0 := rfl
      rw [zero]
      rcases le_or_gt b 0 with le | gt
      · rw [low b le]
        exact one_div_pos.2 (by linarith)
      · rw [high b gt]
        linarith
    | coe a =>
      have less' := WithBot.coe_lt_coe.1 less
      rcases le_or_gt a 0 with le | gt
      · rcases le_or_gt b 0 with le' | gt'
        · rw [low a le, low b le']
          exact one_div_lt_one_div_of_lt (by linarith) (by linarith)
        · rw [low a le, high b gt']
          have one : 1 / (1 - a) ≤ 1 := (div_le_one (by linarith)).2 (by linarith)
          linarith
      · rw [high a gt, high b (gt.trans less')]
        linarith

/-- **The filter keeps the nucleus** exactly where the nucleus is the tokens with the least ids. -/
theorem keepsNucleus_iff (rising : StrictMono exp) (zero : exp ⊥ = 0) {a : K} (some : (a : WithBot K) ∈ logits)
    (pos : 0 < p) (le_one : p ≤ 1) (desc : Descending logits indices) :
    (∃ k, Reaches (probs exp logits indices) p k) ∧
      ∀ k, Reaches (probs exp logits indices) p k →
        (KeepsNucleus exp logits indices p k ↔ ∀ i ∈ nucleus indices k, i ≤ k) := by
  have mass := desc.sum_pos rising zero some
  refine ⟨exists_reaches mass pos le_one, fun k first => ?_⟩
  have bound : k < logits.length := by
    have := first.bound
    rwa [probs_length, desc.length] at this
  constructor
  · intro keeps
    rw [desc.nucleus_ids bound]
    intro i le
    have inside : i < logits.length := by omega
    have inside' : i < (probs exp logits indices).length := by rwa [probs_length, desc.length]
    have kept := keeps.kept i inside
    rw [first.weights_at desc inside, if_pos le, List.getD_eq_getElem _ _ inside', Option.some.injEq] at kept
    by_contra behind
    rw [if_neg behind] at kept
    exact absurd kept (first.positive desc rising mass pos le inside').ne
  · intro ids
    have all := (desc.nucleus_ids bound).1 ids
    apply KeepsNucleus.of_kept first desc rising zero mass pos
    intro i inside
    rw [first.weights_at desc inside, if_congr ⟨ids i, all i⟩ rfl rfl]

/-- Two tokens in falling order. -/
theorem keepsNucleus_iff_sorted :
    (∃ k, Reaches (probs ratExp [(5 : ℚ), (0 : ℚ)] [0, 1]) (1 / 2) k) ∧
      ∀ k, Reaches (probs ratExp [(5 : ℚ), (0 : ℚ)] [0, 1]) (1 / 2) k →
        (KeepsNucleus ratExp [(5 : ℚ), (0 : ℚ)] [0, 1] (1 / 2) k ↔ ∀ i ∈ nucleus [0, 1] k, i ≤ k) :=
  keepsNucleus_iff ratExp_strictMono rfl (a := 5) (by decide +kernel) (by decide +kernel) (by decide +kernel)
    ⟨by decide +kernel, by decide +kernel⟩

end Sampler

/-- The second of two tokens has the larger logit, but the weight at its rank is cleared. -/
theorem not_keepsNucleus : ¬ ∀ exp : WithBot ℚ → ℚ, StrictMono exp → exp ⊥ = 0 →
    ∀ logits indices p k, (∃ a : ℚ, (a : WithBot ℚ) ∈ logits) → 0 < p → p ≤ 1 → Descending logits indices →
      Reaches (probs exp logits indices) p k → KeepsNucleus exp logits indices p k := by
  intro all
  have keeps := all ratExp ratExp_strictMono rfl [(0 : ℚ), (5 : ℚ)] [1, 0] (1 / 2) 0 ⟨0, by decide +kernel⟩
    (by decide +kernel) (by decide +kernel) ⟨by decide +kernel, by decide +kernel⟩
    ⟨by decide +kernel, by decide +kernel, by decide +kernel⟩
  have cleared := keeps.kept 0 (by decide +kernel)
  revert cleared
  decide +kernel

/-! ## The filter on floats -/

section Floats

/-- A logit as a `float`. -/
def ofLogit : WithBot ℚ → CFloat
  | ⊥ => .negInf
  | (q : ℚ) => .finite q

/-- Float arithmetic that does not round. -/
structure ExactFloats (lib : FloatLib) (exp : WithBot ℚ → ℚ) : Prop where
  add : ∀ a b : ℚ, lib.add (.finite a) (.finite b) = .finite (a + b)
  sub : ∀ (a : WithBot ℚ) (b : ℚ), lib.sub (ofLogit a) (.finite b) = ofLogit (Exact.sub a b)
  div : ∀ a b : ℚ, b ≠ 0 → lib.div (.finite a) (.finite b) = .finite (a / b)
  exp : ∀ a, lib.exp (ofLogit a) = .finite (exp a)

variable {lib : FloatLib} {exp : WithBot ℚ → ℚ} {logits : List (WithBot ℚ)} {indices : List Nat}

theorem le_finite (a b : ℚ) : CFloat.le (.finite a) (.finite b) = true ↔ a ≤ b := by
  unfold CFloat.le CFloat.lt
  rw [le_iff_lt_or_eq]
  simp

theorem clear_finite (places : List Nat) (probs : List ℚ) :
    places.foldl (fun probs j => probs.set j (.finite 0)) (probs.map CFloat.finite) =
      (clear places probs).map CFloat.finite := by
  unfold clear
  induction places generalizing probs with
  | nil => rfl
  | cons j places ih => rw [List.foldl_cons, List.foldl_cons, ← ih, List.map_set]

theorem ExactFloats.sum (floats : ExactFloats lib exp) (probs : List ℚ) (a : ℚ) :
    (probs.map CFloat.finite).foldl lib.add (.finite a) = .finite (probs.foldl (· + ·) a) := by
  induction probs generalizing a with
  | nil => rfl
  | cons w probs ih => rw [List.map_cons, List.foldl_cons, List.foldl_cons, floats.add, ih]

theorem ExactFloats.filter (floats : ExactFloats lib exp) {p sum cumsum : ℚ} (nonzero : sum ≠ 0)
    {probs rest : List ℚ} {i : Nat} :
    ModelRuntime.topPFilter lib (.finite p) (.finite sum) indices (probs.map .finite) i (.finite cumsum)
        (rest.map .finite) = (topPFilter p sum indices probs i cumsum rest).map .finite := by
  induction rest generalizing i cumsum with
  | nil => rfl
  | cons w rest ih =>
    rw [List.map_cons, ModelRuntime.topPFilter, topPFilter, floats.div _ _ nonzero, floats.add, ih, clear_finite]
    by_cases reached : p ≤ cumsum + w / sum
    · rw [if_pos reached, if_pos ((le_finite _ _).2 reached)]
    · rw [if_neg reached, if_neg fun le => reached ((le_finite _ _).1 le)]

theorem getD_ofLogit {i : Nat} (inside : i < logits.length) :
    (logits.map ofLogit).getD i .nan = ofLogit (logits.getD i ⊥) := by
  rw [List.getD_eq_getElem _ _ inside, List.getD_eq_getElem _ _ (by rwa [List.length_map]), List.getElem_map]

theorem ExactFloats.probs (floats : ExactFloats lib exp) (desc : Descending logits indices) {a : ℚ}
    (some : (a : WithBot ℚ) ∈ logits) :
    indices.map (fun i => lib.exp (lib.sub ((logits.map ofLogit).getD i .nan)
      ((logits.map ofLogit).getD (indices.getD 0 0) .nan))) = (Exact.probs exp logits indices).map .finite := by
  obtain ⟨top, finite⟩ := desc.top_finite some
  obtain ⟨j, inside, -⟩ := List.getElem_of_mem some
  have mem := desc.mem.2 inside
  have first : indices.getD 0 0 < logits.length := by
    rw [List.getD_eq_getElem _ _ (List.length_pos_of_mem mem)]
    exact desc.mem.1 (List.getElem_mem _)
  rw [Exact.probs, List.map_map]
  apply List.map_congr_left
  intro i mem
  rw [getD_ofLogit (desc.mem.1 mem), getD_ofLogit first, finite]
  exact (congrArg lib.exp (floats.sub _ top)).trans (floats.exp _)

/-- `sample_top_p` on floats that do not round draws with the weights of the exact filter. -/
theorem sampleTopP_exact (floats : ExactFloats lib exp) (rising : StrictMono exp) (zero : exp ⊥ = 0) {a : ℚ}
    (some : (a : WithBot ℚ) ∈ logits) (desc : Descending logits (lib.sort (logits.map ofLogit))) (p : ℚ)
    (rd : UInt32) :
    let indices := lib.sort (logits.map ofLogit)
    sampleTopP lib (logits.map ofLogit) (.finite p) rd =
      (indices.getD (lib.discrete rd ((weights exp logits indices p).map .finite)) 0 : Nat) := by
  intro indices
  have mass := desc.sum_pos rising zero some
  rw [List.sum_eq_foldl] at mass
  rw [sampleTopP, weights, floats.probs desc some, floats.sum, floats.filter mass.ne']

end Floats

end Exact
end ModelRuntime
