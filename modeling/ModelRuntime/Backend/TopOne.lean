import ModelRuntime.Backend.TopK

/-!
# Sampling the best token

`sample_token` in exact arithmetic, as a relation between its arguments, what its two sorts leave and the tokens it
can return. With `top_k = 1` every logit but the largest is minus infinity, and the one weight that is not zero
stands at rank 0; the filter leaves it only where 0 is the id of that token.
-/

namespace ModelRuntime

/-! ## The largest element -/

section MaxElement

variable {α : Type} [LinearOrder α]

theorem maxElementFrom_max (front : List α) {xs : List α} {best : Nat} {top : α} (at_best : front[best]? = some top)
    (most : ∀ x ∈ front, x ≤ top) :
    ∃ v, (front ++ xs)[maxElementFrom best top front.length xs]? = some v ∧ ∀ x ∈ front ++ xs, x ≤ v := by
  induction xs generalizing front best top with
  | nil =>
    rw [maxElementFrom, List.append_nil]
    exact ⟨top, at_best, most⟩
  | cons x xs ih =>
    have length : (front ++ [x]).length = front.length + 1 := List.length_append
    have whole : front ++ x :: xs = (front ++ [x]) ++ xs := by simp
    rw [maxElementFrom, whole, ← length]
    split
    · rename_i larger
      apply ih
      · simp
      · intro y mem
        rcases List.mem_append.1 mem with old | new
        · exact (most y old).trans larger.le
        · exact (List.mem_singleton.1 new).le
    · rename_i notLarger
      apply ih
      · rw [List.getElem?_append_left (List.getElem?_eq_some_iff.1 at_best).1]
        exact at_best
      · intro y mem
        rcases List.mem_append.1 mem with old | new
        · exact most y old
        · rw [List.mem_singleton.1 new]
          exact not_lt.1 notLarger

theorem maxElement_max {xs : List α} (ne : xs ≠ []) : ∃ v, xs[maxElement xs]? = some v ∧ ∀ x ∈ xs, x ≤ v := by
  cases xs with
  | nil => exact absurd rfl ne
  | cons x xs => exact maxElementFrom_max [x] rfl fun y mem => (List.mem_singleton.1 mem).le

/-- The element that is larger than all others. -/
structure LargestAt (xs : List α) (top : Nat) : Prop where
  inside : top < xs.length
  larger : ∀ (j : Nat) x, xs[j]? = some x → j ≠ top → x < xs[top]

theorem LargestAt.maxElement {xs : List α} {top : Nat} (largest : LargestAt xs top) : maxElement xs = top := by
  obtain ⟨v, at_max, most⟩ := maxElement_max (List.ne_nil_of_length_pos (Nat.zero_lt_of_lt largest.inside))
  by_contra other
  exact absurd (most _ (List.getElem_mem largest.inside)) (not_le.2 (largest.larger _ v at_max other))

end MaxElement

theorem coldBelow_pos {K : Type} [Field K] [LinearOrder K] [IsStrictOrderedRing K] : (0 : K) < coldBelow := by
  rw [coldBelow]
  positivity

namespace Exact

/-! ## `sample_token` -/

section Sample

variable {K : Type} [Field K]

/-- `apply_temperature`. -/
def scale (logits : List K) (temperature : K) : List (WithBot K) := logits.map fun a => ((a / temperature : K) : WithBot K)

@[simp] theorem scale_length {logits : List K} {temperature : K} : (scale logits temperature).length = logits.length :=
  List.length_map _

theorem scale_at {logits : List K} {temperature : K} {i : Nat} (inside : i < logits.length) :
    (scale logits temperature).getD i ⊥ = (logits[i] / temperature : K) := by
  rw [List.getD_eq_getElem _ _ (by rwa [scale_length])]
  exact List.getElem_map _

/-- The logits `sample_top_p` is handed, `order` being what `std::partial_sort` leaves. -/
def filtered (logits : List K) (temperature : K) (k : Int) (order : List Nat) : List (WithBot K) :=
  if 0 < k ∧ k < logits.length then topK ⊥ order (scale logits temperature) k.toNat else scale logits temperature

@[simp] theorem filtered_length {logits : List K} {temperature : K} {k : Int} {order : List Nat} :
    (filtered logits temperature k order).length = logits.length := by
  unfold filtered
  split
  · rw [topK_length, scale_length]
  · exact scale_length

variable [LinearOrder K]

/-- `sample_top_p` can draw the token: an index with a positive weight is its rank. -/
def CanDraw (exp : WithBot K → K) (logits : List (WithBot K)) (indices : List Nat) (p : K) (token : Nat) : Prop :=
  ∃ (i : Nat) (w : K), (weights exp logits indices p)[i]? = some w ∧ 0 < w ∧ indices.getD i 0 = token

/-- `sample_token` can return the token, `indices` being what `std::sort` leaves. -/
def Returns (exp : WithBot K → K) (logits : List K) (temperature p : K) (k : Int) (order indices : List Nat)
    (token : Nat) : Prop :=
  if temperature ≤ 0 ∨ temperature < coldBelow then token = maxElement logits
  else CanDraw exp (filtered logits temperature k order) indices p token

/-- A token is returned, and none but the one the greedy path returns. -/
structure Greedy (exp : WithBot K → K) (logits : List K) (temperature p : K) (k : Int) (order indices : List Nat) :
    Prop where
  returns : ∃ token, Returns exp logits temperature p k order indices token
  greedy : ∀ token, Returns exp logits temperature p k order indices token →
    Returns exp logits 0 p k order indices token

end Sample

/-! ## One logit is left -/

section OneLeft

variable {K : Type} {logits : List (WithBot K)} {indices : List Nat} {top : Nat} {a : K}

/-- All logits but one are minus infinity. -/
structure OneLeft (logits : List (WithBot K)) (top : Nat) (a : K) : Prop where
  inside : top < logits.length
  finite : logits.getD top ⊥ = a
  others : ∀ i < logits.length, i ≠ top → logits.getD i ⊥ = ⊥

/-- A sort puts it first. -/
theorem OneLeft.sorted [LinearOrder K] (one : OneLeft logits top a) (desc : Descending logits indices) :
    ∃ rest, indices = top :: rest ∧ top ∉ rest ∧ ∀ i ∈ rest, logits.getD i ⊥ = ⊥ := by
  have mem := desc.mem.2 one.inside
  have nodup := desc.nodup
  cases indices with
  | nil => cases mem
  | cons first rest =>
    have same : first = top := by
      by_contra apart
      have behind : top ∈ rest := (List.mem_cons.1 mem).resolve_left (Ne.symm apart)
      have below := (List.pairwise_cons.1 desc.falling).1 top behind
      rw [one.finite, one.others first (desc.mem.1 List.mem_cons_self) apart] at below
      exact absurd below (WithBot.not_coe_le_bot a)
    subst same
    have notAgain := (List.nodup_cons.1 nodup).1
    refine ⟨rest, rfl, notAgain, fun i later => one.others i (desc.mem.1 (List.mem_cons_of_mem _ later)) ?_⟩
    rintro rfl
    exact notAgain later

variable [Field K] [LinearOrder K] {exp : WithBot K → K} {p : K}

/-- The weights: that of the finite logit at rank 0, and nothing else. -/
theorem OneLeft.probs (one : OneLeft logits top a) (desc : Descending logits indices) (zero : exp ⊥ = 0) :
    ∃ rest : List K, Exact.probs exp logits indices = exp (0 : K) :: rest ∧ ∀ w ∈ rest, w = 0 := by
  obtain ⟨rest, rfl, _, bots⟩ := one.sorted desc
  have head : sub (a : WithBot K) a = (0 : K) := congrArg WithBot.some (sub_self a)
  refine ⟨rest.map fun i => exp (sub (logits.getD i ⊥) a), ?_, ?_⟩
  · rw [Exact.probs, List.map_cons, List.getD_cons_zero, one.finite, head]
  · intro w mem
    obtain ⟨i, later, rfl⟩ := List.mem_map.1 mem
    rw [bots i later]
    exact zero

/-- The sum reaches `p` at rank 0. -/
theorem OneLeft.reaches (one : OneLeft logits top a) (desc : Descending logits indices) (rising : StrictMono exp)
    (zero : exp ⊥ = 0) (le_one : p ≤ 1) : Reaches (Exact.probs exp logits indices) p 0 := by
  obtain ⟨rest, weights, zeros⟩ := one.probs desc zero
  have positive : 0 < exp (0 : K) := zero.symm.trans_lt (rising (WithBot.bot_lt_coe 0))
  have sum : (exp (0 : K) :: rest).sum = exp (0 : K) := by
    rw [List.sum_cons, List.sum_eq_zero zeros, add_zero]
  rw [weights]
  refine ⟨Nat.succ_pos _, ?_, nofun⟩
  rw [massUpTo, sum, List.take_succ_cons, List.take_zero, List.map_cons, List.map_nil, List.sum_singleton,
    div_self positive.ne']
  exact le_one

/-- The one weight that is not zero is left where its rank is its token's id. -/
theorem OneLeft.canDraw_iff (one : OneLeft logits top a) (desc : Descending logits indices) (rising : StrictMono exp)
    (zero : exp ⊥ = 0) (le_one : p ≤ 1) {token : Nat} :
    CanDraw exp logits indices p token ↔ top = 0 ∧ token = top := by
  have first := one.reaches desc rising zero le_one
  obtain ⟨rest, probs, zeros⟩ := one.probs desc zero
  obtain ⟨ranked, rfl, notAgain, _⟩ := one.sorted desc
  have positive : 0 < exp (0 : K) := zero.symm.trans_lt (rising (WithBot.bot_lt_coe 0))
  have nucleus : nucleus (top :: ranked) 0 = [top] := rfl
  constructor
  · rintro ⟨i, w, at_i, drawn, rfl⟩
    have inside : i < logits.length := by
      rw [← first.weights_length desc]
      exact (List.getElem?_eq_some_iff.1 at_i).1
    rw [first.weights_at desc inside, nucleus, probs, Option.some.injEq] at at_i
    by_cases mem : i ∈ [top]
    · obtain rfl := List.mem_singleton.1 mem
      cases i with
      | zero => exact ⟨rfl, rfl⟩
      | succ i =>
        rw [if_pos mem, List.getD_cons_succ] at at_i
        have cleared : rest.getD i 0 = 0 := by
          rw [List.getD_eq_getElem?_getD]
          cases found : rest[i]? with
          | none => rfl
          | some v => exact zeros v (List.mem_of_getElem? found)
        rw [← at_i, cleared] at drawn
        exact absurd drawn (lt_irrefl 0)
    · rw [if_neg mem] at at_i
      exact absurd drawn at_i.ge.not_gt
  · rintro ⟨rfl, rfl⟩
    refine ⟨0, exp (0 : K), ?_, positive, rfl⟩
    rw [first.weights_at desc one.inside, nucleus, probs, if_pos List.mem_cons_self]
    rfl

end OneLeft

/-! ## The best token -/

section Best

variable {K : Type} [Field K] [LinearOrder K] [IsStrictOrderedRing K] {exp : WithBot K → K} {logits : List K}
  {temperature p : K} {order indices : List Nat} {top : Nat}

/-- A partial sort puts the largest logit first. -/
theorem PartiallySorted.first_top (sorted : PartiallySorted (scale logits temperature) order 1)
    (largest : LargestAt logits top) (positive : 0 < temperature) : order.take 1 = [top] := by
  have within : top < (scale logits temperature).length := by
    rw [scale_length]
    exact largest.inside
  have mem : top ∈ order := sorted.perm.mem_iff.2 (List.mem_range.2 within)
  cases order with
  | nil => cases mem
  | cons first rest =>
    by_contra other
    have apart : first ≠ top := by
      rintro rfl
      exact other rfl
    have inside : first < logits.length := by
      have within := List.mem_range.1 (sorted.perm.mem_iff.1 List.mem_cons_self)
      rwa [scale_length] at within
    have behind : top ∈ rest := (List.mem_cons.1 mem).resolve_left (Ne.symm apart)
    have below := sorted.first first List.mem_cons_self top behind
    rw [scale_at inside, scale_at largest.inside, WithBot.coe_le_coe] at below
    have less := largest.larger first _ (List.getElem?_eq_getElem inside) apart
    exact absurd below (not_le.2 (div_lt_div_of_pos_right less positive))

/-- Only the largest logit is left. -/
theorem filtered_oneLeft (sorted : PartiallySorted (scale logits temperature) order 1) (largest : LargestAt logits top)
    (positive : 0 < temperature) (two : 2 ≤ logits.length) :
    ∃ a, OneLeft (filtered logits temperature 1 order) top a := by
  have inside := largest.inside
  have values : ∀ i < logits.length, (filtered logits temperature 1 order).getD i ⊥ =
      if i = top then (scale logits temperature).getD i ⊥ else ⊥ := by
    intro i less
    have guard : (0 : Int) < 1 ∧ (1 : Int) < logits.length := by omega
    have one : (1 : Int).toNat = 1 := rfl
    have within : i < (scale logits temperature).length := by rwa [scale_length]
    rw [filtered, if_pos guard, one, List.getD_eq_getElem?_getD, topK_at (by rw [scale_length]; omega) within,
      sorted.first_top largest positive, Option.getD_some, ← List.getD_eq_getElem _ ⊥ within]
    exact if_congr List.mem_singleton rfl rfl
  refine ⟨logits[top] / temperature, ?_, ?_, ?_⟩
  · rwa [filtered_length]
  · rw [values top inside, if_pos rfl, scale_at inside]
  · intro i less apart
    rw [filtered_length] at less
    rw [values i less, if_neg apart]

/-- **Sampling with `top_k = 1`** returns a token, and the one the greedy path returns, exactly where the largest
logit is that of token 0. -/
theorem greedy_iff (rising : StrictMono exp) (zero : exp ⊥ = 0) (two : 2 ≤ logits.length)
    (largest : LargestAt logits top) (warm : coldBelow ≤ temperature) (le_one : p ≤ 1)
    (sorted : PartiallySorted (scale logits temperature) order 1)
    (desc : Descending (filtered logits temperature 1 order) indices) :
    Greedy exp logits temperature p 1 order indices ↔ top = 0 := by
  have positive : 0 < temperature := coldBelow_pos.trans_le warm
  have stochastic : ¬ (temperature ≤ 0 ∨ temperature < coldBelow) := not_or.2 ⟨positive.not_ge, warm.not_gt⟩
  obtain ⟨a, one⟩ := filtered_oneLeft sorted largest positive two
  have returns : ∀ token, Returns exp logits temperature p 1 order indices token ↔ top = 0 ∧ token = top := by
    intro token
    rw [Returns, if_neg stochastic]
    exact one.canDraw_iff desc rising zero le_one
  have greedy : ∀ token, Returns exp logits 0 p 1 order indices token ↔ token = top := by
    intro token
    rw [Returns, if_pos (.inl le_rfl), largest.maxElement]
  constructor
  · rintro ⟨⟨token, returned⟩, _⟩
    exact ((returns token).1 returned).1
  · intro first
    refine ⟨⟨top, (returns top).2 ⟨first, rfl⟩⟩, fun token returned => ?_⟩
    exact (greedy token).2 ((returns token).1 returned).2

end Best

/-- The first of two tokens is the best. -/
theorem greedy_iff_first : Greedy ratExp [(5 : ℚ), 0] 1 (1 / 2) 1 [0, 1] [0, 1] ↔ 0 = 0 := by
  have largest : LargestAt [(5 : ℚ), 0] 0 := by
    refine ⟨by decide, fun j x at_j apart => ?_⟩
    obtain rfl : j = 1 := by
      have inside := (List.getElem?_eq_some_iff.1 at_j).1
      simp only [List.length_cons, List.length_nil] at inside
      omega
    cases at_j
    decide +kernel
  exact greedy_iff ratExp_strictMono rfl (by decide) largest (by decide +kernel) (by decide +kernel)
    ⟨by decide, by decide +kernel, by decide +kernel⟩ ⟨by decide, by decide +kernel⟩

/-- The second of two tokens is the best, and no weight is left to draw with. -/
theorem not_greedy : ¬ ∀ exp : WithBot ℚ → ℚ, StrictMono exp → exp ⊥ = 0 → ∀ (logits : List ℚ) top temperature p order indices,
    2 ≤ logits.length → LargestAt logits top → coldBelow ≤ temperature → 0 < p → p ≤ 1 →
    PartiallySorted (scale logits temperature) order 1 → Descending (filtered logits temperature 1 order) indices →
    Greedy exp logits temperature p 1 order indices := by
  intro all
  have largest : LargestAt [(0 : ℚ), 5] 1 := by
    refine ⟨by decide, fun j x at_j apart => ?_⟩
    obtain rfl : j = 0 := by
      have inside := (List.getElem?_eq_some_iff.1 at_j).1
      simp only [List.length_cons, List.length_nil] at inside
      omega
    cases at_j
    decide +kernel
  have sorted : PartiallySorted (scale [(0 : ℚ), 5] 1) [1, 0] 1 := ⟨by decide, by decide +kernel, by decide +kernel⟩
  have desc : Descending (filtered [(0 : ℚ), 5] 1 1 [1, 0]) [1, 0] := ⟨by decide, by decide +kernel⟩
  obtain ⟨a, one⟩ := filtered_oneLeft sorted largest one_pos (by decide)
  obtain ⟨token, returned⟩ := (all ratExp ratExp_strictMono rfl [0, 5] 1 1 (1 / 2) [1, 0] [1, 0] (by decide) largest
    (by decide +kernel) (by decide +kernel) (by decide +kernel) sorted desc).returns
  rw [Returns, if_neg (by decide +kernel), one.canDraw_iff desc ratExp_strictMono rfl (by decide +kernel)] at returned
  exact absurd returned.1 (by decide)

/-! ## The sampler on floats -/

section Floats

variable {M C : Type} {lib : FloatLib} {exp : WithBot ℚ → ℚ} {api : LlamaCpp M C (List CFloat)}
  {be : LlamaBackend M C} {logits : List ℚ} {temperature p : ℚ} {k : Int}

/-- `std::discrete_distribution` draws an index with a positive weight, if there is one. -/
def DrawsPositive (lib : FloatLib) : Prop := ∀ rd (ws : List ℚ), (∀ w ∈ ws, 0 ≤ w) → (∃ w ∈ ws, 0 < w) →
  ∃ w, ws[lib.discrete rd (ws.map .finite)]? = some w ∧ 0 < w

theorem mem_clear {K : Type} [Field K] {places : List Nat} {probs : List K} {w : K} (mem : w ∈ clear places probs) :
    w ∈ probs ∨ w = 0 := by
  unfold clear at mem
  induction places generalizing probs with
  | nil => exact .inl mem
  | cons j places ih =>
    rcases ih mem with held | zero
    · exact List.mem_or_eq_of_mem_set held
    · exact .inr zero

theorem mem_topPFilter {K : Type} [Field K] [LinearOrder K] {p sum cumsum w : K} {indices : List Nat} {probs rest : List K} {i : Nat}
    (mem : w ∈ topPFilter p sum indices probs i cumsum rest) : w ∈ probs ∨ w = 0 := by
  induction rest generalizing i cumsum with
  | nil => exact .inl mem
  | cons prob rest ih =>
    rw [topPFilter] at mem
    split at mem
    · exact mem_clear mem
    · exact ih mem

theorem applyTemperature_exact (floats : ExactFloats lib exp) (nonzero : temperature ≠ 0) :
    applyTemperature lib (logits.map .finite) (.finite temperature) = (scale logits temperature).map ofLogit := by
  rw [applyTemperature, scale, List.map_map, List.map_map]
  apply List.map_congr_left
  intro a _
  exact floats.div a temperature nonzero

theorem filtered_exact (logits : List ℚ) (k : Int) (floats : ExactFloats lib exp) (nonzero : temperature ≠ 0) :
    let scaled := applyTemperature lib (logits.map .finite) (.finite temperature)
    (if 0 < k ∧ k < logits.length then applyTopK lib scaled k.toNat else scaled) =
      (filtered logits temperature k (lib.partialSort scaled k.toNat)).map ofLogit := by
  intro scaled
  have exact : scaled = (scale logits temperature).map ofLogit := applyTemperature_exact floats nonzero
  rw [filtered]
  split
  · rw [exact, applyTopK_ofLogit]
  · exact exact

theorem maxElement_finite (logits : List ℚ) : maxElement (logits.map CFloat.finite) = maxElement logits := by
  have less : ∀ a b : ℚ, (CFloat.finite a < CFloat.finite b) = (a < b) := fun a b => decide_eq_true_eq
  have scan : ∀ (xs : List ℚ) best top i,
      maxElementFrom best (CFloat.finite top) i (xs.map .finite) = maxElementFrom best top i xs := by
    intro xs
    induction xs with
    | nil => exact fun _ _ _ => rfl
    | cons x xs ih =>
      intro best top i
      rw [List.map_cons, maxElementFrom, maxElementFrom, ih, ih, if_congr (less top x).to_iff rfl rfl]
  cases logits with
  | nil => rfl
  | cons x xs => exact scan xs 0 x 1

/-- The choice between the two paths. -/
theorem cold_iff (temperature : ℚ) : ((CFloat.finite temperature).le (.finite 0) ||
    (CFloat.finite temperature).lt (.finite coldBelow)) = true ↔ temperature ≤ 0 ∨ temperature < coldBelow := by
  rw [Bool.or_eq_true, le_finite]
  exact or_congr_right decide_eq_true_iff

theorem maxElement_lt {logits : List ℚ} (short : logits.length < 2 ^ 31) : maxElement logits < 2 ^ 31 := by
  by_cases none : logits = []
  · subst none
    exact Nat.two_pow_pos 31
  · obtain ⟨v, at_max, _⟩ := maxElement_max none
    exact (List.getElem?_eq_some_iff.1 at_max).1.trans short

/-- The greedy path on floats. -/
theorem sampler_cold (nVocab : be.vocabSize api = logits.length) (short : logits.length < 2 ^ 31)
    (cold : temperature ≤ 0 ∨ temperature < coldBelow) (rd : Nat → UInt32) (draw : Nat) :
    be.sampler lib api rd (logits.map .finite) (.finite temperature) (.finite p) k draw = maxElement logits := by
  have whole : (logits.map CFloat.finite).take (be.vocabSize api).toNat = logits.map .finite := by
    rw [nVocab, Int.toNat_natCast]
    exact List.take_of_length_le (by rw [List.length_map])
  rw [LlamaBackend.sampler, LlamaBackend.sampleToken, if_pos ((cold_iff temperature).2 cold),
    LlamaBackend.sampleGreedy, whole, maxElement_finite, Cpp.toInt_of_lt (maxElement_lt short)]

/-- The stochastic path on floats that do not round. -/
theorem sampler_warm (floats : ExactFloats lib exp) (rising : StrictMono exp) (zero : exp ⊥ = 0)
    (nVocab : be.vocabSize api = logits.length) {order indices : List Nat} (ordered : order = lib.partialSort
      (applyTemperature lib (logits.map .finite) (.finite temperature)) k.toNat)
    (sorted : indices = lib.sort ((filtered logits temperature k order).map ofLogit))
    (desc : Descending (filtered logits temperature k order) indices) {a : ℚ}
    (some : (a : WithBot ℚ) ∈ filtered logits temperature k order)
    (warm : ¬ (temperature ≤ 0 ∨ temperature < coldBelow)) (rd : Nat → UInt32) (draw : Nat) :
    be.sampler lib api rd (logits.map .finite) (.finite temperature) (.finite p) k draw =
      (indices.getD (lib.discrete (rd draw)
        ((weights exp (filtered logits temperature k order) indices p).map .finite)) 0 : Nat) := by
  have whole : (logits.map CFloat.finite).take (be.vocabSize api).toNat = logits.map .finite := by
    rw [nVocab, Int.toNat_natCast]
    exact List.take_of_length_le (by rw [List.length_map])
  have nonzero : temperature ≠ 0 := fun same => warm (.inl same.le)
  have handed := filtered_exact logits k floats nonzero
  dsimp only at handed
  rw [LlamaBackend.sampler, LlamaBackend.sampleToken, if_neg fun path => warm ((cold_iff temperature).1 path),
    LlamaBackend.stochastic, whole, nVocab, handed, ← ordered]
  rw [sorted] at desc ⊢
  exact sampleTopP_exact floats rising zero some desc p (rd draw)

/-- The code's sampler on floats that do not round returns a token that can be returned, if there is one. -/
theorem sampler_returns (floats : ExactFloats lib exp) (rising : StrictMono exp) (zero : exp ⊥ = 0)
    (draws : DrawsPositive lib) (nVocab : be.vocabSize api = logits.length) (short : logits.length < 2 ^ 31)
    {order indices : List Nat} (ordered : order = lib.partialSort
      (applyTemperature lib (logits.map .finite) (.finite temperature)) k.toNat)
    (sorted : indices = lib.sort ((filtered logits temperature k order).map ofLogit))
    (desc : Descending (filtered logits temperature k order) indices) {a : ℚ}
    (some : (a : WithBot ℚ) ∈ filtered logits temperature k order)
    (possible : ∃ token, Returns exp logits temperature p k order indices token) (rd : Nat → UInt32) (draw : Nat) :
    ∃ token : Nat, be.sampler lib api rd (logits.map .finite) (.finite temperature) (.finite p) k draw = token ∧
      Returns exp logits temperature p k order indices token := by
  obtain ⟨token, returned⟩ := possible
  by_cases cold : temperature ≤ 0 ∨ temperature < coldBelow
  · refine ⟨maxElement logits, sampler_cold nVocab short cold rd draw, ?_⟩
    rw [Returns, if_pos cold]
  · rw [Returns, if_neg cold] at returned
    obtain ⟨i, w, at_i, positive, _⟩ := returned
    have nonneg : ∀ w ∈ weights exp (filtered logits temperature k order) indices p, 0 ≤ w := by
      intro w mem
      rcases mem_topPFilter mem with held | none
      · exact probs_nonneg rising zero w held
      · exact none.ge
    obtain ⟨w', drawn, positive'⟩ := draws (rd draw) _ nonneg ⟨w, List.mem_of_getElem? at_i, positive⟩
    refine ⟨_, sampler_warm floats rising zero nVocab ordered sorted desc some cold rd draw, ?_⟩
    rw [Returns, if_neg cold]
    exact ⟨_, w', drawn, positive', rfl⟩

end Floats

end Exact
end ModelRuntime
