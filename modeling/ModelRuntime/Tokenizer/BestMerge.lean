import ModelRuntime.Tokenizer.StandardBpe

/-!
# The leftmost best pair

What `find_best_merge` is to report: the first entry of the table that stands anywhere among the pieces,
and the first place where it stands. The place is reported as an `int`, so that a best pair behind 2^31
pieces is reported elsewhere.
-/

namespace ModelRuntime
open Cpp Lib

/-- Entry `m` of the table is the first that some adjacent pair is, and `pos` its first place. -/
structure LeftmostBest (merges : List (Bytes × Bytes)) (chars : List Bytes) (pos m : Nat) : Prop where
  pair : ∃ p, merges[m]? = some p ∧ (neighbours chars)[pos]? = some p
  least : ∀ m' p, merges[m']? = some p → p ∈ neighbours chars → m ≤ m'
  leftmost : ∀ k p, merges[m]? = some p → (neighbours chars)[k]? = some p → pos ≤ k

/-- What `find_best_merge` is for. -/
structure FindsBest (t : Tokenizer) (chars : List Bytes) : Prop where
  none_iff : t.findBestMerge chars = (-1, -1) ↔ ∀ p ∈ neighbours chars, p ∉ t.merges
  found : (∃ p ∈ neighbours chars, p ∈ t.merges) →
    ∃ pos m : Nat, t.findBestMerge chars = ((pos : Int), (m : Int)) ∧ LeftmostBest t.merges chars pos m

/-- Every adjacent pair of the table has one listed no later that starts at a place below 2^31. -/
def WithinReach (merges : List (Bytes × Bytes)) (chars : List Bytes) : Prop :=
  ∀ p ∈ neighbours chars, ∀ m : Nat, merges[m]? = some p →
    ∃ k < 2 ^ 31, ∃ m' ≤ m, ∃ q, (neighbours chars)[k]? = some q ∧ merges[m']? = some q

section

attribute [local irreducible] toInt

variable {t : Tokenizer} {merges : List (Bytes × Bytes)} {chars : List Bytes} {p : Bytes × Bytes}

/-- The first place of a pair. -/
theorem findIdx_leftmost (mem : p ∈ neighbours chars) :
    (neighbours chars)[(neighbours chars).findIdx (· = p)]? = some p ∧
      ∀ k, (neighbours chars)[k]? = some p → (neighbours chars).findIdx (· = p) ≤ k := by
  constructor
  · have inside := List.findIdx_lt_length_of_exists (p := (· = p)) ⟨p, mem, decide_eq_true rfl⟩
    have here := List.findIdx_getElem (w := inside)
    rw [List.getElem?_eq_getElem inside, of_decide_eq_true here]
  · intro k place
    by_contra before
    obtain ⟨inside, here⟩ := List.getElem?_eq_some_iff.1 place
    have other := List.not_of_lt_findIdx (p := (· = p)) (Nat.lt_of_not_le before)
    exact absurd here (of_decide_eq_false other)

/-- The lowest pair at its first place. -/
theorem lowest_leftmost (low : lowest merges chars = some p) {m : Nat} (rank : RankIs merges p m) :
    LeftmostBest merges chars ((neighbours chars).findIdx (· = p)) m := by
  obtain ⟨m', rank', least⟩ := rank_lowest low
  obtain rfl := rank.unique rank'
  obtain ⟨place, first⟩ := findIdx_leftmost (lowest_mem low)
  have own := rank.listed.1
  refine ⟨⟨p, own, place⟩, ?_, ?_⟩
  · exact fun m' q listed stands => least q stands m' listed
  · intro k q listed stands
    obtain rfl := Option.some.inj (own.symm.trans listed)
    exact first k stands

/-- A best place that an `int` holds is within reach. -/
theorem LeftmostBest.reach {pos m : Nat} (best : LeftmostBest merges chars pos m) (small : pos < 2 ^ 31) :
    WithinReach merges chars := by
  intro q stands m' listed
  obtain ⟨p, own, place⟩ := best.pair
  exact ⟨pos, small, m, best.least m' q listed stands, p, place, own⟩

/-- Within reach the first place is. -/
theorem LeftmostBest.place_lt {pos m : Nat} (best : LeftmostBest merges chars pos m)
    (reach : WithinReach merges chars) : pos < 2 ^ 31 := by
  obtain ⟨p, own, place⟩ := best.pair
  obtain ⟨k, small, m', le, q, stands, listed⟩ := reach p (List.mem_of_getElem? place) m own
  have least := best.least m' q listed (List.mem_of_getElem? stands)
  obtain rfl : m' = m := by omega
  have first := best.leftmost k q listed stands
  omega

/-- The reported place is an `int`. -/
theorem findBestMerge_lt (t : Tokenizer) (chars : List Bytes) : (t.findBestMerge chars).1 < 2 ^ 31 := by
  rcases t.findBestMerge_cases chars with none | ⟨before, _, _, _, _, _, place⟩
  · omega
  · rw [place]
    exact toInt_lt before.length

theorem withinReach_of_findsBest (finds : FindsBest t chars) : WithinReach t.merges chars := by
  intro p stands m listed
  obtain ⟨pos, m', search, best⟩ := finds.found ⟨p, stands, List.mem_of_getElem? listed⟩
  have small := findBestMerge_lt t chars
  rw [search] at small
  dsimp only at small
  exact best.reach (by omega) p stands m listed

theorem findsBest_of_withinReach (few : t.merges.length < 2 ^ 31) (reach : WithinReach t.merges chars) :
    FindsBest t chars := by
  cases low : lowest t.merges chars with
  | none =>
    have clean : ∀ p ∈ neighbours chars, p ∉ t.merges := fun p stands listed =>
      lowest_eq_none_iff.1 low p listed stands
    have search := Tokenizer.findBestMerge_none low
    constructor
    · rw [search]
      simpa using clean
    · rintro ⟨p, stands, listed⟩
      exact absurd listed (clean p stands)
  | some p =>
    obtain ⟨m, rank, search⟩ := Tokenizer.findBestMerge_lowest low (prioritiesFit_of_table few)
    have best := lowest_leftmost low rank
    have place := best.place_lt reach
    have own := rank.listed.1
    rw [toInt_of_lt place, toInt_of_lt (rank.small few)] at search
    constructor
    · rw [search, Prod.mk.injEq]
      constructor
      · rintro ⟨negative, _⟩
        omega
      · intro clean
        exact absurd (List.mem_of_getElem? own) (clean p (lowest_mem low))
    · exact fun _ => ⟨_, m, search, best⟩

/-- **`find_best_merge` finds the leftmost best pair** exactly where one of the best pairs starts at a place
below 2^31. -/
theorem findBestMerge_iff (t : Tokenizer) (chars : List Bytes) (few : t.merges.length < 2 ^ 31) :
    FindsBest t chars ↔ WithinReach t.merges chars :=
  ⟨withinReach_of_findsBest, findsBest_of_withinReach few⟩

/-- Few pieces are all within reach. -/
theorem withinReach_of_short (short : chars.length ≤ 2 ^ 31 + 1) : WithinReach merges chars := by
  intro p stands m listed
  obtain ⟨k, place⟩ := List.mem_iff_getElem?.1 stands
  obtain ⟨inside, _⟩ := List.getElem?_eq_some_iff.1 place
  rw [neighbours_length] at inside
  exact ⟨k, by omega, m, Nat.le_refl m, p, place, listed⟩

end

theorem findBestMerge_abc : FindsBest { merges := abcMerges } [str "b", str "a", str "b", str "a", str "b"] := by
  rw [findBestMerge_iff _ _ (Nat.le_of_ble_eq_true rfl)]
  apply withinReach_of_short
  exact Nat.le_of_ble_eq_true rfl

/-- The one pair of the table behind 2^31 other pieces is out of reach. -/
theorem lateWord_out_of_reach {n : Nat} (late : 2 ^ 31 ≤ n) :
    ¬ WithinReach abMerges ((lateWord n).map fun c => [c]) := by
  intro reach
  obtain ⟨mem, place⟩ := lateWord_place n
  obtain ⟨k, small, m, le, q, stands, listed⟩ := reach _ mem 0 rfl
  obtain rfl : m = 0 := by omega
  obtain rfl := Option.some.inj listed
  have first := (findIdx_leftmost mem).2 k stands
  omega

theorem best_out_of_reach :
    ¬ ∀ (t : Tokenizer) (chars : List Bytes), t.merges.length < 2 ^ 31 → FindsBest t chars := by
  intro all
  have finds := all { merges := abMerges } ((lateWord (2 ^ 31)).map fun c => [c])
    (Nat.le_of_ble_eq_true rfl)
  exact lateWord_out_of_reach (Nat.le_refl (2 ^ 31)) (withinReach_of_findsBest finds)

end ModelRuntime
