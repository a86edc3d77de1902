import ModelRuntime.Tokenizer.NormalForm

/-!
# Pieces that are encoded again

A pass that joins inside a block of consecutive pieces is a pass of the block alone (`mergePass_block`):
the pair chosen of the whole is the one chosen of the block. So the run that made a final piece is,
within it, the run on the piece. What breaks this is a place that is cast to another one, from 2^32 on, or
the one behind which `pos + 1` overflows; the table may be any.
-/

namespace ModelRuntime
open Cpp Lib

attribute [local irreducible] toInt

/-- The pair chosen of a whole is chosen of the block it stands in. -/
theorem Chosen.inside {merges : List (Bytes × Bytes)} {left block right : List Bytes} {k m : Nat}
    (h : Chosen merges (left ++ block ++ right) (left.length + k) m) (bound : k + 1 < block.length) :
    Chosen merges block k m := by
  obtain ⟨p, place, rank⟩ := h.rank
  refine ⟨⟨p, ?_, rank⟩, h.counted, ?_, ?_⟩
  · obtain ⟨first, second⟩ := neighbours_at.1 place
    rw [List.append_assoc, List.getElem?_append_right (by omega), Nat.add_sub_cancel_left,
      List.getElem?_append_left (by omega)] at first
    rw [List.append_assoc, List.getElem?_append_right (by omega), Nat.add_assoc, Nat.add_sub_cancel_left,
      List.getElem?_append_left bound] at second
    exact neighbours_at.2 ⟨first, second⟩
  · intro j less q at_j
    exact h.first (left.length + j) (by omega) q (neighbours_block left block right at_j)
  · intro j q at_j
    exact h.highest (left.length + j) q (neighbours_block left block right at_j)

namespace Tokenizer

variable {t : Tokenizer} {chars chars' left block right : List Bytes} {k m : Nat}

theorem joinAt_split (inside : k + 1 < chars.length) : ∃ before a b after,
    chars = before ++ a :: b :: after ∧ before.length = k ∧ joinAt k chars = before ++ (a ++ b) :: after := by
  have split : chars = chars.take k ++ chars[k] :: chars[k + 1] :: chars.drop (k + 2) := by
    rw [← List.drop_eq_getElem_cons, ← List.drop_eq_getElem_cons, List.take_append_drop]
  have place : (chars.take k).length = k := by
    rw [List.length_take]
    omega
  refine ⟨chars.take k, chars[k], chars[k + 1], chars.drop (k + 2), split, place, ?_⟩
  have joined := erase_set_join (chars.take k) chars[k] chars[k + 1] (chars.drop (k + 2))
  rw [← split, place] at joined
  exact joined

/-- The place at which a pass joins does not wrap to another one, and is not the last `int`. -/
def PlaceKept (merges : List (Bytes × Bytes)) (chars : List Bytes) : Prop :=
  ∀ k m, Chosen merges chars k m → 0 ≤ toInt m → k < 2 ^ 32 ∧ k + 1 ≠ 2 ^ 31

theorem toInt_place (place : 0 ≤ toInt k) (short : k < 2 ^ 32) : toInt k = k ∧ k < 2 ^ 31 := by
  have small : k < 2 ^ 31 := by
    by_contra large
    have negative := toInt_negative (by omega) short
    omega
  exact ⟨toInt_of_lt small, small⟩

theorem PlaceKept.serve (kept : PlaceKept t.merges chars) (chosen : Chosen t.merges chars k m) (place : 0 ≤ toInt k)
    (entry : 0 ≤ toInt m) : toInt k = k ∧ k + 1 < 2 ^ 31 := by
  obtain ⟨short, other⟩ := kept k m chosen entry
  obtain ⟨same, small⟩ := toInt_place place short
  exact ⟨same, by omega⟩

/-- A pass, seen from a block of what it leaves. -/
theorem mergePass_block (pass : t.mergePass chars = some (left ++ block ++ right))
    (kept : PlaceKept t.merges chars) : ∃ left' block' right', chars = left' ++ block' ++ right' ∧
      (block' = block ∨ t.mergePass block' = some block ∧ t.IndicesInRange block') := by
  obtain ⟨k, m, chosen, place, entry, made⟩ := mergePass_iff.1 pass
  obtain ⟨same, small⟩ := kept.serve chosen place entry
  rw [same, Int.toNat_natCast] at made
  obtain ⟨before, a, b, after, rfl, rfl, joined⟩ := joinAt_split chosen.place_lt
  rw [joined] at made
  rcases join_in_block (a := a) (b := b) made.symm with ⟨left', right', whole⟩ | ⟨inner, outer, rfl, rfl, rfl⟩
  · exact ⟨left', block, right', whole, .inl rfl⟩
  · have whole : Chosen t.merges (left ++ (inner ++ a :: b :: outer) ++ right) (left.length + inner.length) m := by
      rw [List.length_append] at chosen
      simpa using chosen
    have own := whole.inside (by simp)
    rw [List.length_append] at small
    have value : toInt inner.length = inner.length := toInt_of_lt (by omega)
    have serve : CastsServe t.merges (inner ++ a :: b :: outer) := ⟨inner.length, m, own, by omega, by omega, entry⟩
    refine ⟨left, inner ++ a :: b :: outer, right, by simp, .inr ⟨?_, serve.indices⟩⟩
    refine mergePass_iff.2 ⟨inner.length, m, own, by omega, entry, ?_⟩
    rw [value, Int.toNat_natCast]
    exact (erase_set_join inner a b outer).symm

/-- A run, seen from a block of what it leaves that no further pass joins in. -/
theorem passes_block {n : Nat} (passes : Passes t.mergePass n chars chars')
    (kept : ∀ i s, Passes t.mergePass i chars s → PlaceKept t.merges s) (ended : t.mergePass block = none)
    (whole : chars' = left ++ block ++ right) : ∃ left' block' right', chars = left' ++ block' ++ right' ∧
      (∃ i, Passes t.mergePass i block' block) ∧ t.NoOverflow block' := by
  induction passes with
  | refl s => exact ⟨left, block, right, whole, ⟨0, .refl block⟩, noOverflow_stop ended⟩
  | pass first rest ih =>
    obtain ⟨left', block', right', rfl, ⟨i, run⟩, defined⟩ :=
      ih (fun i s later => kept (i + 1) s (.pass first later)) whole
    obtain ⟨left₀, block₀, right₀, rfl, rfl | ⟨pass, here⟩⟩ := mergePass_block first (kept 0 _ (.refl _))
    · exact ⟨left₀, block₀, right₀, rfl, ⟨i, run⟩, defined⟩
    · exact ⟨left₀, block₀, right₀, rfl, ⟨i + 1, .pass pass run⟩, (noOverflow_pass pass).2 ⟨here, defined⟩⟩

/-- A final piece is not divided when it is encoded again. -/
def StablePieces (t : Tokenizer) (word : Bytes) : Prop := ∀ p ∈ t.pieces word, t.pieces p = [p]

/-- The word is encoded, and so is each final piece, as itself. -/
structure Stable (t : Tokenizer) (word : Bytes) : Prop where
  defined : t.NoOverflow (single word)
  again : ∀ p ∈ t.pieces word, t.NoOverflow (single p)
  pieces : StablePieces t word

/-- No place wraps or overflows while `word` is encoded. -/
def PlacesKept (t : Tokenizer) (word : Bytes) : Prop :=
  ∀ n s, Passes t.mergePass n (single word) s → PlaceKept t.merges s

theorem placesKept_of_short {word : Bytes} (short : word.length ≤ 2 ^ 31) : PlacesKept t word := by
  intro n s passes k m chosen _
  have bound := chosen.place_lt
  have length := passes_length passes
  rw [single_length] at length
  omega

theorem PlacesKept.defined {word : Bytes} (kept : PlacesKept t word) : t.NoOverflow (single word) := by
  intro n s s' passes pass
  obtain ⟨k, m, chosen, place, entry, _⟩ := mergePass_iff.1 pass
  obtain ⟨same, small⟩ := (kept n s passes).serve chosen place entry
  have serve : CastsServe t.merges s := ⟨k, m, chosen, place, by omega, entry⟩
  exact serve.indices

theorem PlacesKept.piece {word p : Bytes} (kept : PlacesKept t word) (mem : p ∈ t.pieces word) :
    t.NoOverflow (single p) ∧ t.pieces p = [p] := by
  obtain ⟨n, passes⟩ := t.pieces_passes word
  obtain ⟨left, right, whole⟩ := List.append_of_mem mem
  have parts : t.pieces word = left ++ [p] ++ right := by simpa using whole
  have ended : t.mergePass [p] = none := by
    unfold mergePass
    exact if_pos (Nat.le_refl 1)
  obtain ⟨left', block', right', start, ⟨i, run⟩, defined⟩ := passes_block passes kept ended parts
  obtain ⟨front, back, rfl, first, _⟩ := List.map_eq_append_iff.1 start
  obtain ⟨before, own, rfl, _, rfl⟩ := List.map_eq_append_iff.1 first
  have flat := run.inv (fun s : List Bytes => s.flatten = own)
    (fun s s' same pass => (t.mergePass_join pass).flatten.trans same) (single_flatten own)
  obtain rfl : p = own := by simpa using flat
  have loop : t.pieces p = t.mergeLoop [p] := Passes.pieces run
  exact ⟨defined, loop.trans (mergeLoop_stop ended)⟩

theorem PlacesKept.stable {word : Bytes} (kept : PlacesKept t word) : Stable t word :=
  ⟨kept.defined, fun _ mem => (kept.piece mem).1, fun _ mem => (kept.piece mem).2⟩

/-- In a word this long the place of its last pair names the first two bytes. -/
theorem lateWord_wraps {n : Nat} (wraps : n + 2 = 2 ^ 32) (table : t.merges = abMerges) :
    [120, 120] ∈ t.pieces (lateWord (n + 2)) := by
  have fit : ∀ chars, PrioritiesFit t.merges chars := by
    intro chars
    apply prioritiesFit_of_table
    rw [table]
    exact Nat.le_of_ble_eq_true rfl
  have entry : ∀ m, RankIs t.merges (str "a", str "b") m → m = 0 := by
    intro m rank
    have bound := rank.listed.2
    rw [table] at bound
    exact Nat.lt_one_iff.1 bound
  obtain ⟨mem, place⟩ := lateWord_place (n + 2)
  obtain ⟨mem', place'⟩ := lateWord_place n
  have first : t.mergePass (single (lateWord (n + 2))) = some ([120, 120] :: single (lateWord n)) := by
    have low : lowest t.merges (single (lateWord (n + 2))) = some (str "a", str "b") := by
      rw [table]
      exact lowest_ab mem
    obtain ⟨m, rank, pass⟩ := mergePass_eq low (fit _)
    have zero : toInt ((neighbours (single (lateWord (n + 2)))).findIdx (· = (str "a", str "b")) : Nat) = 0 := by
      have value : (neighbours (single (lateWord (n + 2)))).findIdx (· = (str "a", str "b")) = 0 + 2 ^ 32 := by
        have here : (neighbours (single (lateWord (n + 2)))).findIdx (· = (str "a", str "b")) = n + 2 := place
        omega
      rw [value, toInt_add_wrap]
      exact toInt_of_lt (by decide)
    have start : toInt (0 : Nat) = 0 := toInt_of_lt (by decide)
    rw [pass, zero, entry m rank, start, if_pos ⟨Int.le_refl 0, Int.le_refl 0⟩]
    have word : single (lateWord (n + 2)) = [120] :: [120] :: single (lateWord n) :=
      (lateWord_succ (n + 1)).trans (congrArg _ (lateWord_succ n))
    rw [word]
    rfl
  have then_place := place_cons (x := [120, 120]) (by decide) mem'
  have second : t.mergePass ([120, 120] :: single (lateWord n)) = none := by
    have value : (neighbours ([120, 120] :: single (lateWord n))).findIdx (· = (str "a", str "b")) = n + 1 :=
      then_place.2.trans (congrArg (· + 1) place')
    apply mergePass_far (p := (str "a", str "b")) (by rw [table]; exact lowest_ab then_place.1) (fit _)
    · omega
    · omega
  rw [pieces, mergeLoop_pass first, mergeLoop_stop second]
  exact List.mem_cons_self

/-- The first two bytes, joined, are divided when they are encoded again. -/
theorem lateWord_unstable : ¬ StablePieces { merges := abMerges } (lateWord (2 ^ 32 - 2 + 2)) := by
  intro stable
  have alone := stable _ (lateWord_wraps (by omega) rfl)
  have left : ({ merges := abMerges } : Tokenizer).pieces [120, 120] = [[120], [120]] := by decide
  rw [left] at alone
  exact absurd alone (by decide)

/-- **Stability.** While no place wraps or overflows a final piece is its own encoding; all words of at most `N`
bytes have that property, under every table, exactly for `N` up to 2^31. -/
theorem stablePieces_of_kept (t : Tokenizer) (word : Bytes) (N : Nat) :
    (PlacesKept t word → Stable t word) ∧
      ((∀ (t : Tokenizer) (word : Bytes), word.length ≤ N → Stable t word) ↔ N ≤ 2 ^ 31) := by
  refine ⟨fun kept => kept.stable, fun all => ?_, fun bound t word short => ?_⟩
  · by_contra long
    have stable := all { merges := abMerges } (lateWord (2 ^ 31 - 1)) (by
      rw [lateWord_length]
      omega)
    exact lateWord_overflows (by omega) stable.defined
  · exact (placesKept_of_short (by omega)).stable

theorem not_stablePieces : ¬ ∀ (t : Tokenizer) (word : Bytes), StablePieces t word := by
  intro all
  exact lateWord_unstable (all _ _)

end Tokenizer
end ModelRuntime
