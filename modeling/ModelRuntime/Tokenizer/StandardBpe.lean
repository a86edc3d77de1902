import ModelRuntime.Lib.PairMerging
import ModelRuntime.Tokenizer.Merge

/-!
# The merge loop is byte-pair encoding

`find_best_merge` reports the first adjacent pair of the highest priority. While its casts to `int`
keep their values that is the leftmost occurrence of the pair of lowest rank, and the loop leaves what
byte-pair encoding leaves.
-/

namespace ModelRuntime
open Cpp Lib

/-- The standard algorithm on the pieces of a word. -/
def standardBpe (merges : List (Bytes × Bytes)) (chars : List Bytes) : List Bytes :=
  bytePair (· ++ ·) merges chars

/-- The order in which a trainer emits merges. -/
abbrev TrainerOrdered (merges : List (Bytes × Bytes)) : Prop := WellOrdered (· ++ ·) merges

attribute [local irreducible] toInt

/-- The pair's entry in the table is `m`. -/
def RankIs (merges : List (Bytes × Bytes)) (p : Bytes × Bytes) (m : Nat) : Prop :=
  merges.findIdx? (· == p) = some m

/-- `static_cast<int>(merges_.size() - m)`. -/
def mergePriority (merges : List (Bytes × Bytes)) (m : Nat) : Int := toInt (merges.length - m : Nat)

/-- What the search reports of the pieces from position `i` on: what it had, which no pair betters, or
the first of the pairs with the highest priority. -/
inductive BestMerge.Best (merges : List (Bytes × Bytes)) (i : Nat) (chars : List Bytes) (best : BestMerge) :
    BestMerge → Prop where
  | kept (rest : ∀ q ∈ neighbours chars, ∀ m, RankIs merges q m → mergePriority merges m ≤ best.priority) :
      Best merges i chars best best
  | found (p : Bytes × Bytes) (k m : Nat) (place : (neighbours chars)[k]? = some p)
      (rank : RankIs merges p m) (better : best.priority < mergePriority merges m)
      (before : ∀ j < k, ∀ q, (neighbours chars)[j]? = some q → ∀ m', RankIs merges q m' →
        mergePriority merges m' < mergePriority merges m)
      (rest : ∀ q ∈ neighbours chars, ∀ m', RankIs merges q m' → mergePriority merges m' ≤ mergePriority merges m) :
      Best merges i chars best ⟨toInt (i + k : Nat), mergePriority merges m, toInt m⟩

section Search

variable {merges : List (Bytes × Bytes)} {a b : Bytes} {best : BestMerge}

theorem RankIs.unique {p : Bytes × Bytes} {m m' : Nat} (h : RankIs merges p m) (h' : RankIs merges p m') :
    m = m' := Option.some.inj (h.symm.trans h')

/-- One position of the outer loop. -/
theorem BestMerge.improve_step (i : Nat) :
    (best.improve merges i a b = best ∧ ∀ m, RankIs merges (a, b) m → mergePriority merges m ≤ best.priority) ∨
    ∃ m, RankIs merges (a, b) m ∧ best.priority < mergePriority merges m ∧
      best.improve merges i a b = ⟨toInt i, mergePriority merges m, toInt m⟩ := by
  unfold BestMerge.improve RankIs
  cases rank : merges.findIdx? (· == (a, b)) with
  | none => exact .inl ⟨rfl, by simp⟩
  | some m =>
    dsimp only
    by_cases better : best.priority < mergePriority merges m
    · exact .inr ⟨m, rfl, better, if_pos better⟩
    · refine .inl ⟨if_neg better, ?_⟩
      intro m' same
      obtain rfl := Option.some.inj same
      omega

/-- A first pair that is no better than what is held. -/
theorem BestMerge.Best.skip {i : Nat} {rest : List Bytes} {result : BestMerge}
    (head : ∀ m, RankIs merges (a, b) m → mergePriority merges m ≤ best.priority)
    (tail : best.Best merges (i + 1) (b :: rest) result) : best.Best merges i (a :: b :: rest) result := by
  cases tail with
  | kept others =>
    refine .kept fun q mem m rank => ?_
    rcases List.mem_cons.1 mem with rfl | mem
    · exact head m rank
    · exact others q mem m rank
  | found p k m place rank better before others =>
    rw [Nat.add_assoc, Nat.add_comm 1 k]
    refine .found p (k + 1) m place rank better ?_ ?_
    · intro j less q at_j m' rank'
      cases j with
      | zero =>
        obtain rfl := Option.some.inj at_j
        have := head m' rank'
        omega
      | succ j => exact before j (by omega) q at_j m' rank'
    · intro q mem m' rank'
      rcases List.mem_cons.1 mem with rfl | mem
      · have := head m' rank'
        omega
      · exact others q mem m' rank'

/-- A first pair that is better, and that the rest is then measured by. -/
theorem BestMerge.Best.take {i m : Nat} {rest : List Bytes} {result : BestMerge}
    (rank : RankIs merges (a, b) m) (better : best.priority < mergePriority merges m)
    (tail : (⟨toInt i, mergePriority merges m, toInt m⟩ : BestMerge).Best merges (i + 1) (b :: rest) result) :
    best.Best merges i (a :: b :: rest) result := by
  cases tail with
  | kept others =>
    refine .found (a, b) 0 m rfl rank better (fun j less => by omega) ?_
    intro q mem m' rank'
    rcases List.mem_cons.1 mem with rfl | mem
    · rw [rank.unique rank']
    · exact others q mem m' rank'
  | found p k m' place rank' higher before others =>
    rw [Nat.add_assoc, Nat.add_comm 1 k]
    refine .found p (k + 1) m' place rank' (Int.lt_trans better higher) ?_ ?_
    · intro j less q at_j m'' rank''
      cases j with
      | zero =>
        obtain rfl := Option.some.inj at_j
        rw [← rank.unique rank'']
        exact higher
      | succ j => exact before j (by omega) q at_j m'' rank''
    · intro q mem m'' rank''
      rcases List.mem_cons.1 mem with rfl | mem
      · rw [← rank.unique rank'']
        exact Int.le_of_lt higher
      · exact others q mem m'' rank''

variable (merges) in
theorem findBestMergeFrom_best (chars : List Bytes) (i : Nat) (best : BestMerge) :
    best.Best merges i chars (findBestMergeFrom merges i chars best) := by
  induction chars generalizing i best with
  | nil => exact .kept (by simp [neighbours])
  | cons a rest ih =>
    cases rest with
    | nil => exact .kept (by simp [neighbours])
    | cons b rest =>
      rw [findBestMergeFrom]
      have tail := ih (i + 1) (best.improve merges i a b)
      rcases @BestMerge.improve_step merges a b best i with
        ⟨same, head⟩ | ⟨m, rank, better, now⟩
      · rw [same] at tail ⊢
        exact tail.skip head
      · rw [now] at tail ⊢
        exact tail.take rank better

theorem RankIs.listed {p : Bytes × Bytes} {m : Nat} (h : RankIs merges p m) :
    merges[m]? = some p ∧ m < merges.length := by
  obtain ⟨bound, here, _⟩ := List.findIdx?_eq_some_iff_getElem.1 h
  exact ⟨List.getElem?_eq_some_iff.2 ⟨bound, by simpa using here⟩, bound⟩

/-- The entries of a table with less than 2^31 of them are `int`s. -/
theorem RankIs.small {p : Bytes × Bytes} {m : Nat} (h : RankIs merges p m) (few : merges.length < 2 ^ 31) :
    m < 2 ^ 31 := by
  have bound := h.listed.2
  omega

/-- The rank of the lowest pair. -/
theorem rank_lowest {p : Bytes × Bytes} {chars : List Bytes} (low : lowest merges chars = some p) :
    ∃ m, RankIs merges p m ∧ ∀ q ∈ neighbours chars, ∀ m' : Nat, merges[m']? = some q → m ≤ m' := by
  obtain ⟨mem, m, found, earlier⟩ := lowest_eq_some_iff.1 low
  obtain ⟨bound, here⟩ := List.getElem?_eq_some_iff.1 found
  refine ⟨m, ?_, ?_⟩
  · refine List.findIdx?_eq_some_iff_getElem.2 ⟨bound, by simp [here], fun j less => ?_⟩
    have other := earlier j less _ (List.getElem?_eq_getElem (by omega))
    rw [beq_iff_eq]
    rintro rfl
    exact other mem
  · intro q mem' m' listed
    by_contra less
    exact earlier m' (by omega) q listed mem'

/-- The casts of the priorities keep their values. -/
def PrioritiesFit (merges : List (Bytes × Bytes)) (chars : List Bytes) : Prop :=
  ∀ q ∈ neighbours chars, ∀ m, RankIs merges q m → merges.length - m < 2 ^ 31

end Search

namespace Tokenizer

variable {t : Tokenizer} {chars : List Bytes} {p : Bytes × Bytes}

/-- While the priorities fit, the search reports the leftmost occurrence of the lowest pair. -/
theorem findBestMerge_lowest (low : lowest t.merges chars = some p) (fit : PrioritiesFit t.merges chars) :
    ∃ m, RankIs t.merges p m ∧
      t.findBestMerge chars = (toInt ((neighbours chars).findIdx (· = p) : Nat), toInt m) := by
  obtain ⟨m, rank, least⟩ := rank_lowest low
  have mem := lowest_mem low
  have value : ∀ q ∈ neighbours chars, ∀ m', RankIs t.merges q m' →
      mergePriority t.merges m' = (t.merges.length - m' : Nat) :=
    fun q mem m' rank' => toInt_of_lt (fit q mem m' rank')
  have ownBound := rank.listed.2
  have own := value p mem m rank
  have best := findBestMergeFrom_best t.merges chars 0 {}
  rw [findBestMerge]
  generalize findBestMergeFrom t.merges 0 chars {} = result at best
  refine ⟨m, rank, ?_⟩
  cases best with
  | kept others =>
    have low := others p mem m rank
    dsimp only at low
    omega
  | found q k m' place rank' better before others =>
    have memQ : q ∈ neighbours chars := List.mem_of_getElem? place
    have bound := rank'.listed.2
    have higher := others p mem m rank
    rw [own, value q memQ m' rank'] at higher
    have lower := least q memQ m' rank'.listed.1
    obtain rfl : m = m' := by omega
    obtain rfl : q = p := Option.some.inj (rank'.listed.1.symm.trans rank.listed.1)
    obtain ⟨inside, here⟩ := List.getElem?_eq_some_iff.1 place
    have first : (neighbours chars).findIdx (· = q) = k := by
      refine (List.findIdx_eq inside).2 ⟨by simp [here], fun j less => ?_⟩
      rw [decide_eq_false_iff_not]
      intro same
      have at_j : (neighbours chars)[j]? = some q := List.getElem?_eq_some_iff.2 ⟨by omega, same⟩
      exact Int.lt_irrefl _ (before j less q at_j m rank)
    rw [first, Nat.zero_add]

theorem findBestMerge_none (absent : lowest t.merges chars = none) : t.findBestMerge chars = (-1, -1) := by
  have best := findBestMergeFrom_best t.merges chars 0 {}
  rw [findBestMerge]
  generalize findBestMergeFrom t.merges 0 chars {} = result at best
  cases best with
  | kept others => rfl
  | found q k m place rank =>
    exact absurd (List.mem_of_getElem? place)
      (lowest_eq_none_iff.1 absent q (List.mem_of_getElem? rank.listed.1))

theorem mergePass_none (absent : lowest t.merges chars = none) : t.mergePass chars = none := by
  unfold mergePass
  split
  · rfl
  · rw [findBestMerge_none absent]
    rfl

theorem mergePass_eq (low : lowest t.merges chars = some p) (fit : PrioritiesFit t.merges chars) :
    ∃ m, RankIs t.merges p m ∧ t.mergePass chars =
      if 0 ≤ toInt ((neighbours chars).findIdx (· = p) : Nat) ∧ 0 ≤ toInt m then
        let i := (toInt ((neighbours chars).findIdx (· = p) : Nat)).toNat
        some ((chars.eraseIdx (i + 1)).set i (chars.getD i [] ++ chars.getD (i + 1) []))
      else none := by
  obtain ⟨m, rank, search⟩ := findBestMerge_lowest low fit
  refine ⟨m, rank, ?_⟩
  obtain ⟨before, after, split, _, _⟩ :=
    mem_neighbours_split (fun a b : Bytes => a ++ b) (lowest_mem low)
  have long : ¬ chars.length ≤ 1 := by
    rw [split, List.length_append, List.length_cons, List.length_cons]
    omega
  rw [mergePass, if_neg long, search]

/-- The lowest pair is merged where its place and its entry are `int`s. -/
theorem mergePass_lowest (low : lowest t.merges chars = some p) (fit : PrioritiesFit t.merges chars)
    (index : ∀ m, RankIs t.merges p m → m < 2 ^ 31)
    (position : (neighbours chars).findIdx (· = p) < 2 ^ 31) :
    t.mergePass chars = some (mergeFirst (· ++ ·) p chars) := by
  obtain ⟨m, rank, pass⟩ := mergePass_eq low fit
  obtain ⟨before, after, split, place, merged⟩ :=
    mem_neighbours_split (fun a b : Bytes => a ++ b) (lowest_mem low)
  have joined := erase_set_join before p.1 p.2 after
  rw [← split] at joined
  rw [pass, toInt_of_lt position, toInt_of_lt (index m rank), if_pos ⟨by omega, by omega⟩, merged,
    Int.toNat_natCast]
  dsimp only at joined ⊢
  rw [← place, joined]

/-- The place behind the lowest pair is an `int`, too. -/
theorem indicesInRange_lowest (low : lowest t.merges chars = some p) (fit : PrioritiesFit t.merges chars)
    (small : (neighbours chars).findIdx (· = p) < 2 ^ 31) :
    t.IndicesInRange chars ↔ (neighbours chars).findIdx (· = p) + 1 < 2 ^ 31 := by
  obtain ⟨m, _, search⟩ := findBestMerge_lowest low fit
  have inside := List.findIdx_lt_length_of_exists (p := (· = p)) ⟨p, lowest_mem low, decide_eq_true rfl⟩
  rw [neighbours_length] at inside
  unfold IndicesInRange
  rw [search, toInt_of_lt small]
  dsimp only
  omega

/-- A place no `int` holds ends the loop. -/
theorem mergePass_far (low : lowest t.merges chars = some p) (fit : PrioritiesFit t.merges chars)
    (position : 2 ^ 31 ≤ (neighbours chars).findIdx (· = p))
    (short : (neighbours chars).findIdx (· = p) < 2 ^ 32) : t.mergePass chars = none := by
  obtain ⟨m, rank, pass⟩ := mergePass_eq low fit
  have negative := toInt_negative position short
  rw [pass, if_neg (by omega)]

theorem mergePass_length (chars' : List Bytes) (pass : t.mergePass chars = some chars') :
    chars'.length < chars.length := by
  have := (t.mergePass_join pass).length
  omega

theorem mergeLoop_stop (ended : t.mergePass chars = none) : t.mergeLoop chars = chars :=
  whileSome_stop ended _

theorem mergeLoop_pass {chars' : List Bytes} (pass : t.mergePass chars = some chars') :
    t.mergeLoop chars = t.mergeLoop chars' :=
  whileSome_step List.length (fun _ _ pass => mergePass_length _ pass) pass

end Tokenizer

/-- No cast of `find_best_merge` loses its value while the pairs are merged one at a time, and no `pos + 1`
overflows: of each adjacent pair of the table less than 2^31 entries are left, the entry of the lowest one is
below 2^31, and so is the place behind its own. -/
inductive CastsFit (merges : List (Bytes × Bytes)) : List Bytes → Prop where
  | done {chars : List Bytes} (none : lowest merges chars = none) : CastsFit merges chars
  | round {chars : List Bytes} {p : Bytes × Bytes} (low : lowest merges chars = some p)
      (priorities : PrioritiesFit merges chars) (index : ∀ m, RankIs merges p m → m < 2 ^ 31)
      (position : (neighbours chars).findIdx (· = p) + 1 < 2 ^ 31)
      (rest : CastsFit merges (mergeFirst (· ++ ·) p chars)) : CastsFit merges chars

section Standard

variable {t : Tokenizer} {chars : List Bytes}

/-- The loop is defined and leaves what byte-pair encoding leaves. -/
structure LeavesStandard (t : Tokenizer) (chars : List Bytes) : Prop where
  defined : t.NoOverflow chars
  same : t.mergeLoop chars = standardBpe t.merges chars

theorem CastsFit.standard (h : CastsFit t.merges chars) (ordered : TrainerOrdered t.merges) :
    LeavesStandard t chars := by
  induction h with
  | done none =>
    have stopped := Tokenizer.mergePass_none none
    refine ⟨Tokenizer.noOverflow_stop stopped, ?_⟩
    rw [Tokenizer.mergeLoop_stop stopped, standardBpe, bytePair_none none]
  | round low priorities index position rest ih =>
    have small := Nat.lt_of_succ_lt position
    have pass := Tokenizer.mergePass_lowest low priorities index small
    have here := (Tokenizer.indicesInRange_lowest low priorities small).2 position
    refine ⟨(Tokenizer.noOverflow_pass pass).2 ⟨here, ih.defined⟩, ?_⟩
    rw [Tokenizer.mergeLoop_pass pass, ih.same, standardBpe, ordered.bytePair_mergeFirst low]
    rfl

/-- In a table with less than 2^31 entries only the places can be too large. -/
theorem prioritiesFit_of_table (few : t.merges.length < 2 ^ 31) : PrioritiesFit t.merges chars :=
  fun _ _ _ _ => by omega

theorem place_lt {p : Bytes × Bytes} (mem : p ∈ neighbours chars) :
    (neighbours chars).findIdx (· = p) + 1 < chars.length := by
  have inside := List.findIdx_lt_length_of_exists (p := (· = p)) ⟨p, mem, decide_eq_true rfl⟩
  rw [neighbours_length] at inside
  omega

/-- A short word of a small table fits. -/
theorem castsFit_of_short (few : t.merges.length < 2 ^ 31) (short : chars.length ≤ 2 ^ 31) :
    CastsFit t.merges chars := by
  induction size : chars.length using Nat.strong_induction_on generalizing chars with
  | _ size' ih =>
    cases low : lowest t.merges chars with
    | none => exact .done low
    | some p =>
      have mem := lowest_mem low
      have place := place_lt mem
      have less := mergeFirst_length (fun a b : Bytes => a ++ b) mem
      refine .round low (prioritiesFit_of_table few) (fun m rank => rank.small few) (by omega) (ih _ ?_ ?_ rfl)
      · omega
      · omega

/-- Where the loop gives what the standard gives, the places fit. -/
theorem castsFit_of_standard (ordered : TrainerOrdered t.merges) (few : t.merges.length < 2 ^ 31)
    (short : chars.length ≤ 2 ^ 32) (standard : LeavesStandard t chars) : CastsFit t.merges chars := by
  induction size : chars.length using Nat.strong_induction_on generalizing chars with
  | _ size' ih =>
    cases low : lowest t.merges chars with
    | none => exact .done low
    | some p =>
      obtain ⟨defined, same⟩ := standard
      have mem := lowest_mem low
      have fit : PrioritiesFit t.merges chars := prioritiesFit_of_table few
      have place := place_lt mem
      have index : ∀ m, RankIs t.merges p m → m < 2 ^ 31 := fun m rank => rank.small few
      by_cases small : (neighbours chars).findIdx (· = p) < 2 ^ 31
      · have pass := Tokenizer.mergePass_lowest low fit index small
        obtain ⟨here, later⟩ := (Tokenizer.noOverflow_pass pass).1 defined
        have position := (Tokenizer.indicesInRange_lowest low fit small).1 here
        have less := mergeFirst_length (fun a b : Bytes => a ++ b) mem
        refine .round low fit index position (ih _ ?_ ?_ ⟨later, ?_⟩ rfl)
        · omega
        · omega
        · rw [← Tokenizer.mergeLoop_pass pass, same]
          exact (ordered.bytePair_mergeFirst low).symm
      · -- the loop stops before the pair, which the standard would have merged
        have stopped := Tokenizer.mergePass_far low fit (by omega) (by omega)
        rw [Tokenizer.mergeLoop_stop stopped] at same
        have none : lowest t.merges (standardBpe t.merges chars) = none := lowest_bytePair chars
        rw [← same, low] at none
        cases none

/-- **The merge loop is byte-pair encoding** where no cast of `find_best_merge` loses its value and no `pos + 1`
overflows, and in words of at most 2^32 bytes, with less than 2^31 merges, only there. -/
theorem mergeLoop_standard (t : Tokenizer) (ordered : TrainerOrdered t.merges) (word : Bytes) :
    let chars := word.map fun c => [c]
    (CastsFit t.merges chars → LeavesStandard t chars) ∧
      (t.merges.length < 2 ^ 31 → word.length ≤ 2 ^ 32 → (LeavesStandard t chars ↔ CastsFit t.merges chars)) := by
  intro chars
  have size : chars.length = word.length := List.length_map _
  refine ⟨fun fit => fit.standard ordered, fun few short => ?_⟩
  constructor
  · exact castsFit_of_standard ordered few (by omega)
  · exact fun fit => fit.standard ordered

end Standard

/-- A table in which `c` joins what `a` and `b` were joined to. -/
def abcMerges : List (Bytes × Bytes) := [(str "a", str "b"), (str "ab", str "c")]

theorem abcMerges_standard : LeavesStandard { merges := abcMerges } ((str "abcab").map fun c => [c]) :=
  (mergeLoop_standard { merges := abcMerges } (by decide) (str "abcab")).1
    (castsFit_of_short (t := { merges := abcMerges }) (Nat.le_of_ble_eq_true rfl) (Nat.le_of_ble_eq_true rfl))

/-- A word whose only pair of the table comes late. -/
def lateWord (n : Nat) : Bytes := List.replicate n 120 ++ str "ab"

def abMerges : List (Bytes × Bytes) := [(str "a", str "b")]

/-- A piece in front that is not `a` moves the pair one place on. -/
theorem place_cons {x : Bytes} {rest : List Bytes} (other : x ≠ str "a")
    (mem : (str "a", str "b") ∈ neighbours rest) :
    (str "a", str "b") ∈ neighbours (x :: rest) ∧ (neighbours (x :: rest)).findIdx (· = (str "a", str "b")) =
      (neighbours rest).findIdx (· = (str "a", str "b")) + 1 := by
  cases rest with
  | nil => cases mem
  | cons y rest =>
    have pair : (x, y) ≠ (str "a", str "b") := fun same => other (congrArg Prod.fst same)
    rw [neighbours_cons, List.findIdx_cons, decide_eq_false pair]
    exact ⟨List.mem_cons_of_mem _ mem, rfl⟩

theorem lateWord_succ (n : Nat) :
    (lateWord (n + 1)).map (fun c => [c]) = [120] :: (lateWord n).map fun c => [c] := by
  rw [lateWord, List.replicate_succ]
  rfl

theorem lateWord_place (n : Nat) :
    let pairs := neighbours ((lateWord n).map fun c => [c])
    (str "a", str "b") ∈ pairs ∧ pairs.findIdx (· = (str "a", str "b")) = n := by
  induction n with
  | zero => exact ⟨by decide, by decide⟩
  | succ n ih =>
    have next := place_cons (x := [120]) (by decide) ih.1
    rw [lateWord_succ]
    exact ⟨next.1, next.2.trans (congrArg (· + 1) ih.2)⟩

theorem lateWord_length (n : Nat) : (lateWord n).length = n + 2 := by
  rw [lateWord, List.length_append, List.length_replicate]
  rfl

theorem lowest_ab {chars : List Bytes} (mem : (str "a", str "b") ∈ neighbours chars) :
    lowest abMerges chars = some (str "a", str "b") :=
  lowest_eq_some_iff.2 ⟨mem, 0, rfl, fun k less => by omega⟩

/-- Behind 2^31 pieces the loop leaves the pair as it is. -/
theorem lateWord_stops {n : Nat} (late : 2 ^ 31 ≤ n) (short : n < 2 ^ 32) :
    ({ merges := abMerges } : Tokenizer).mergePass ((lateWord n).map fun c => [c]) = none := by
  obtain ⟨mem, place⟩ := lateWord_place n
  have few : abMerges.length < 2 ^ 31 := Nat.le_of_ble_eq_true rfl
  apply Tokenizer.mergePass_far (lowest_ab mem) (prioritiesFit_of_table few)
  · omega
  · omega

theorem lateWord_unmerged {n : Nat} (late : 2 ^ 31 ≤ n) (short : n + 2 ≤ 2 ^ 32) :
    ({ merges := abMerges } : Tokenizer).mergeLoop ((lateWord n).map fun c => [c]) ≠
      standardBpe abMerges ((lateWord n).map fun c => [c]) := by
  intro same
  obtain ⟨mem, place⟩ := lateWord_place n
  have low := lowest_ab mem
  have ordered : TrainerOrdered abMerges := by decide
  have size : ((lateWord n).map fun c => [c]).length = n + 2 := by
    rw [List.length_map, lateWord_length]
  have defined := Tokenizer.noOverflow_stop (lateWord_stops late (by omega))
  cases castsFit_of_standard (t := { merges := abMerges }) ordered (Nat.le_of_ble_eq_true rfl)
    (by omega) ⟨defined, same⟩ with
  | done none =>
    rw [low] at none
    cases none
  | round low' _ _ position _ =>
    obtain rfl := Option.some.inj (low.symm.trans low')
    rw [place] at position
    omega

/-- One place earlier the pair is found, and `pos + 1` overflows. -/
theorem lateWord_overflows {n : Nat} (last : n + 1 = 2 ^ 31) :
    ¬ ({ merges := abMerges } : Tokenizer).NoOverflow ((lateWord n).map fun c => [c]) := by
  intro defined
  obtain ⟨mem, place⟩ := lateWord_place n
  have low : lowest ({ merges := abMerges } : Tokenizer).merges ((lateWord n).map fun c => [c]) = _ := lowest_ab mem
  have few : abMerges.length < 2 ^ 31 := Nat.le_of_ble_eq_true rfl
  have fit : PrioritiesFit ({ merges := abMerges } : Tokenizer).merges ((lateWord n).map fun c => [c]) :=
    prioritiesFit_of_table few
  have pass := Tokenizer.mergePass_lowest low fit (fun m rank => rank.small few) (by omega)
  have here := ((Tokenizer.noOverflow_pass pass).1 defined).1
  rw [Tokenizer.indicesInRange_lowest low fit (by omega), place] at here
  omega

theorem mergeLoop_late :
    ¬ ∀ (t : Tokenizer) (word : Bytes), TrainerOrdered t.merges →
      t.mergeLoop (word.map fun c => [c]) = standardBpe t.merges (word.map fun c => [c]) := by
  intro all
  exact lateWord_unmerged (Nat.le_refl (2 ^ 31)) (by omega) (all { merges := abMerges } _ (by decide))

end ModelRuntime
