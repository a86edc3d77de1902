import ModelRuntime.Lib.AdjacentMerge
import ModelRuntime.Tokenizer.Model

/-!
# The merge loop

`find_best_merge` reports a position whose pair is in the table, so that a pass of `bpe_encode`'s
loop is a `MergeStep`. The reported position is an `int`: in a word of more than 2^32 pieces it may
name another pair, and only then can a pass join two pieces the table does not list. The piece to its
right is read at the `int` sum `pos + 1`, which in a word of more than 2^31 pieces may overflow
(`NoOverflow`).
-/

namespace ModelRuntime
open Cpp Lib

/-- The search has settled on a pair of the table, `chars` being the pieces from `i` on. -/
def BestMerge.Found (merges : List (Bytes × Bytes)) (chars : List Bytes) (i : Nat)
    (best : BestMerge) : Prop :=
  ∃ before a b after, chars = before ++ a :: b :: after ∧ (a, b) ∈ merges ∧
    best.pos = toInt (i + before.length : Nat)

theorem BestMerge.improve_cases (merges : List (Bytes × Bytes)) (i : Nat) (a b : Bytes)
    (best : BestMerge) :
    best.improve merges i a b = best ∨
      ((a, b) ∈ merges ∧ (best.improve merges i a b).pos = toInt i) := by
  unfold BestMerge.improve
  cases hm : merges.findIdx? (· == (a, b)) with
  | none => exact Or.inl rfl
  | some m =>
    obtain ⟨hlt, he, _⟩ := List.findIdx?_eq_some_iff_getElem.1 hm
    have e : merges[m] = (a, b) := by simpa using he
    have listed : (a, b) ∈ merges := by rw [← e]; exact List.getElem_mem hlt
    dsimp only
    by_cases better : best.priority < toInt (merges.length - m : Nat)
    · rw [if_pos better]
      exact Or.inr ⟨listed, by dsimp only⟩
    · rw [if_neg better]
      exact Or.inl rfl

theorem findBestMergeFrom_cases (merges : List (Bytes × Bytes)) :
    ∀ (chars : List Bytes) (i : Nat) (best : BestMerge),
      findBestMergeFrom merges i chars best = best ∨
        (findBestMergeFrom merges i chars best).Found merges chars i := by
  intro chars
  induction chars with
  | nil => intro i best; exact Or.inl rfl
  | cons a rest ih =>
    intro i best
    cases rest with
    | nil => exact Or.inl rfl
    | cons b rest =>
      rw [findBestMergeFrom]
      rcases ih (i + 1) (best.improve merges i a b) with same | ⟨before, x, y, after, hc, hm, hp⟩
      · rw [same]
        rcases BestMerge.improve_cases merges i a b best with kept | ⟨hm, hp⟩
        · exact Or.inl kept
        · exact Or.inr ⟨[], a, b, rest, rfl, hm, by simpa using hp⟩
      · refine Or.inr ⟨a :: before, x, y, after, by simp [hc], hm, ?_⟩
        rw [hp, List.length_cons]
        congr 2
        omega

namespace Tokenizer

variable (t : Tokenizer)

/-- What `find_best_merge` reports: nothing, or the position of a pair of the table. -/
theorem findBestMerge_cases (chars : List Bytes) :
    (t.findBestMerge chars).1 = -1 ∨
      ∃ before a b after, chars = before ++ a :: b :: after ∧ (a, b) ∈ t.merges ∧
        (t.findBestMerge chars).1 = toInt before.length := by
  unfold findBestMerge
  rcases findBestMergeFrom_cases t.merges chars 0 {} with none | ⟨before, a, b, after, hc, hm, hp⟩
  · exact Or.inl (by rw [none])
  · exact Or.inr ⟨before, a, b, after, hc, hm, by simpa using hp⟩

/-- Erasing the right piece and storing the joined one at `before.length`. -/
theorem erase_set_join (before : List Bytes) (a b : Bytes) (after : List Bytes) :
    let chars := before ++ a :: b :: after
    (chars.eraseIdx (before.length + 1)).set before.length
        (chars.getD before.length [] ++ chars.getD (before.length + 1) []) =
      before ++ (a ++ b) :: after := by
  simp [List.eraseIdx_append_of_length_le, List.getD_eq_getElem?_getD]

/-- Any two neighbours may be joined in a word too long for an `int` position. -/
def Joins (n : Nat) (a b : Bytes) : Prop := n ≤ 2 ^ 32 → (a, b) ∈ t.merges

/-- A pass of the loop joins two neighbours. -/
theorem mergePass_join {chars chars' : List Bytes} (h : t.mergePass chars = some chars') :
    MergeStep (t.Joins chars.length) chars chars' := by
  unfold mergePass at h
  split at h
  · cases h
  · dsimp only at h
    split at h
    · rename_i inRange
      obtain ⟨nonneg, _⟩ := inRange
      rcases t.findBestMerge_cases chars with none | ⟨before, a, b, after, hc, hm, hp⟩
      · omega
      · have hle := toInt_le before.length
        have hlt : before.length + 1 < chars.length := by rw [hc]; simp
        have bound : (t.findBestMerge chars).1.toNat + 1 < chars.length := by omega
        obtain ⟨before', a', b', after', hc', hlen⟩ :
            ∃ before' a' b' after', chars = before' ++ a' :: b' :: after' ∧
              before'.length = (t.findBestMerge chars).1.toNat := by
          refine ⟨chars.take (t.findBestMerge chars).1.toNat, chars[(t.findBestMerge chars).1.toNat],
            chars[(t.findBestMerge chars).1.toNat + 1], chars.drop ((t.findBestMerge chars).1.toNat + 2),
            ?_, by rw [List.length_take]; omega⟩
          rw [← List.drop_eq_getElem_cons, ← List.drop_eq_getElem_cons, List.take_append_drop]
        cases h
        rw [← hlen]
        have joined := erase_set_join before' a' b' after'
        rw [← hc'] at joined
        dsimp only at joined
        rw [joined]
        have allowed : t.Joins chars.length a' b' := by
          intro short
          -- an `int` position below 2^31 is the position itself
          have exact : before.length = before'.length := by
            rw [hlen, hp]
            rw [hp] at nonneg
            unfold toInt at nonneg ⊢
            rw [Int.bmod_def] at nonneg ⊢
            omega
          have same := hc.symm.trans hc'
          obtain ⟨_, same⟩ := List.append_inj same exact
          cases same
          exact hm
        have step := MergeStep.join before' a' b' after' allowed
        rw [← hc'] at step
        exact step
    · cases h

/-- The `int` expressions `pos` and `pos + 1` are indices of `chars`. -/
def IndicesInRange (chars : List Bytes) : Prop :=
  let pos := (t.findBestMerge chars).1
  0 ≤ pos ∧ pos + 1 < 2 ^ 31 ∧ pos.toNat + 1 < chars.length

/-- The loop on `chars` is defined: no pass overflows the `int` sum `pos + 1`. -/
def NoOverflow (chars : List Bytes) : Prop :=
  ∀ n s s', Passes t.mergePass n chars s → t.mergePass s = some s' → t.IndicesInRange s

variable {t} in
/-- The place of a pair among at most 2^31 pieces is an `int` that can be added to. -/
theorem indicesInRange_of_short {chars chars' : List Bytes} (pass : t.mergePass chars = some chars')
    (short : chars.length ≤ 2 ^ 31) : t.IndicesInRange chars := by
  unfold mergePass at pass
  split at pass
  · cases pass
  · dsimp only at pass
    split at pass
    · rename_i usable
      rcases t.findBestMerge_cases chars with none | ⟨before, a, b, after, split, _, place⟩
      · omega
      · have bound : before.length + 1 < chars.length := by
          rw [split]
          simp
        rw [toInt_of_lt (by omega)] at place
        unfold IndicesInRange
        dsimp only
        omega
    · cases pass

/-- Among at most 2^31 pieces nothing overflows. -/
theorem noOverflow_of_short {chars : List Bytes} (short : chars.length ≤ 2 ^ 31) : t.NoOverflow chars := by
  intro n s s' passes pass
  apply indicesInRange_of_short pass
  refine passes.inv (fun s : List Bytes => s.length ≤ 2 ^ 31) ?_ short
  intro s s' bound pass
  have := (t.mergePass_join pass).length
  omega

variable {t} in
theorem noOverflow_stop {chars : List Bytes} (ended : t.mergePass chars = none) : t.NoOverflow chars := by
  intro n s s' passes pass
  cases passes with
  | refl =>
    rw [ended] at pass
    cases pass
  | pass first rest =>
    rw [ended] at first
    cases first

variable {t} in
/-- One pass, then the rest of the loop. -/
theorem noOverflow_pass {chars chars' : List Bytes} (pass : t.mergePass chars = some chars') :
    t.NoOverflow chars ↔ t.IndicesInRange chars ∧ t.NoOverflow chars' := by
  constructor
  · intro defined
    exact ⟨defined 0 chars chars' (.refl chars) pass, fun n s s' later => defined (n + 1) s s' (.pass pass later)⟩
  · rintro ⟨here, later⟩ n s s' passes next
    cases passes with
    | refl => exact here
    | pass first rest =>
      obtain rfl := Option.some.inj (pass.symm.trans first)
      exact later _ s s' rest next

/-- The loop ends because no pass is left. -/
theorem mergeLoop_exit (chars : List Bytes) : t.mergePass (t.mergeLoop chars) = none := by
  apply whileSome_exit List.length _ _ _ le_rfl
  intro s s' h
  have := (t.mergePass_join h).length
  omega

/-- The loop keeps the word. -/
theorem mergeLoop_flatten (chars : List Bytes) : (t.mergeLoop chars).flatten = chars.flatten := by
  refine whileSome_inv (fun s : List Bytes => s.flatten = chars.flatten) ?_ _ _ rfl
  intro s s' same h
  exact (t.mergePass_join h).flatten.trans same

/-- In a word of at most 2^32 bytes, a property of single bytes and of every join listed in the
table holds of every final piece. -/
theorem mergeLoop_forall (P : Bytes → Prop) (joined : ∀ a b, (a, b) ∈ t.merges → P (a ++ b))
    {chars : List Bytes} (short : chars.length ≤ 2 ^ 32) (each : ∀ p ∈ chars, P p) :
    ∀ p ∈ t.mergeLoop chars, P p := by
  refine (whileSome_inv (fun s => s.length ≤ 2 ^ 32 ∧ ∀ p ∈ s, P p) ?_ _ _ ⟨short, each⟩).2
  rintro s s' ⟨short, each⟩ h
  have step := t.mergePass_join h
  exact ⟨by have := step.length; omega, step.forall (fun a b allowed => joined a b (allowed short)) each⟩

end Tokenizer
end ModelRuntime
