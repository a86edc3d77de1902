import ModelRuntime.Tokenizer.StandardBpe

/-!
# The normal form of a word

`Chosen` is the pair `find_best_merge` settles on, whatever its casts make of it, and
`mergePass_iff` says when a pass joins and where. From these: the loop of `bpe_encode` loses no byte
and ends in time, and it ends in normal form exactly when, in each of its rounds, the casts of the
chosen pair can be used as indices.
-/

namespace ModelRuntime
open Cpp Lib

/-- The adjacent pair at place `k`, the table's entry `m`, is the first of those with the highest
priority. -/
structure Chosen (merges : List (Bytes × Bytes)) (chars : List Bytes) (k m : Nat) : Prop where
  rank : ∃ p, (neighbours chars)[k]? = some p ∧ RankIs merges p m
  counted : 0 ≤ mergePriority merges m
  first : ∀ j < k, ∀ q, (neighbours chars)[j]? = some q → ∀ m', RankIs merges q m' →
    mergePriority merges m' < mergePriority merges m
  highest : ∀ (j : Nat) q, (neighbours chars)[j]? = some q → ∀ m', RankIs merges q m' →
    mergePriority merges m' ≤ mergePriority merges m

/-- Two adjacent pieces are listed in the table. -/
def Mergeable (merges : List (Bytes × Bytes)) (chars : List Bytes) : Prop := ∃ q ∈ neighbours chars, q ∈ merges

/-- The body of the `if` of the loop. -/
def joinAt (i : Nat) (chars : List Bytes) : List Bytes :=
  (chars.eraseIdx (i + 1)).set i (chars.getD i [] ++ chars.getD (i + 1) [])

attribute [local irreducible] toInt

section Chosen

variable {merges : List (Bytes × Bytes)} {chars : List Bytes} {k k' m m' : Nat}

theorem Chosen.unique (h : Chosen merges chars k m) (h' : Chosen merges chars k' m') : k = k' ∧ m = m' := by
  obtain ⟨p, place, rank⟩ := h.rank
  obtain ⟨p', place', rank'⟩ := h'.rank
  have below := h.highest k' p' place' m' rank'
  have above := h'.highest k p place m rank
  rcases Nat.lt_trichotomy k k' with less | rfl | less
  · have strict := h'.first k less p place m rank
    omega
  · obtain rfl := Option.some.inj (place.symm.trans place')
    exact ⟨rfl, rank.unique rank'⟩
  · have strict := h.first k' less p' place' m' rank'
    omega

theorem Chosen.place_lt (h : Chosen merges chars k m) : k + 1 < chars.length := by
  obtain ⟨p, place, _⟩ := h.rank
  obtain ⟨inside, _⟩ := List.getElem?_eq_some_iff.1 place
  rw [neighbours_length] at inside
  omega

theorem Chosen.mergeable (h : Chosen merges chars k m) : Mergeable merges chars := by
  obtain ⟨p, place, rank⟩ := h.rank
  exact ⟨p, List.mem_of_getElem? place, List.mem_of_getElem? rank.listed.1⟩

theorem mergeable_rank {q : Bytes × Bytes} (listed : q ∈ merges) : ∃ m, RankIs merges q m := by
  cases found : merges.findIdx? (· == q) with
  | some m => exact ⟨m, found⟩
  | none =>
    rw [List.findIdx?_eq_none_iff] at found
    have other := found q listed
    rw [beq_self_eq_true] at other
    cases other

end Chosen

namespace Tokenizer

variable {t : Tokenizer} {chars chars' : List Bytes} {k m : Nat}

/-- What `find_best_merge` gives: place and entry of the chosen pair, or nothing where no listed pair has
a priority that counts. -/
theorem findBestMerge_chosen (t : Tokenizer) (chars : List Bytes) :
    (∃ k m, Chosen t.merges chars k m ∧ t.findBestMerge chars = (toInt k, toInt m)) ∨
      ((∀ k m, ¬ Chosen t.merges chars k m) ∧ t.findBestMerge chars = (-1, -1)) := by
  have best := findBestMergeFrom_best t.merges chars 0 {}
  rw [findBestMerge]
  generalize findBestMergeFrom t.merges 0 chars {} = result at best
  cases best with
  | kept rest =>
    refine .inr ⟨fun k m chosen => ?_, rfl⟩
    obtain ⟨p, place, rank⟩ := chosen.rank
    have low := rest p (List.mem_of_getElem? place) m rank
    have counted := chosen.counted
    dsimp only at low
    omega
  | found p k m place rank better before rest =>
    refine .inl ⟨k, m, ⟨⟨p, place, rank⟩, ?_, before, ?_⟩, by rw [Nat.zero_add]⟩
    · dsimp only at better
      omega
    · exact fun j q at_j m' rank' => rest q (List.mem_of_getElem? at_j) m' rank'

/-- A pass of the loop: where it joins and when it does. -/
theorem mergePass_iff : t.mergePass chars = some chars' ↔ ∃ k m, Chosen t.merges chars k m ∧
    0 ≤ toInt k ∧ 0 ≤ toInt m ∧ chars' = joinAt (toInt k).toNat chars := by
  unfold mergePass
  rcases t.findBestMerge_chosen chars with ⟨k, m, chosen, search⟩ | ⟨none, search⟩
  · have bound := chosen.place_lt
    rw [if_neg (by omega), search]
    dsimp only
    by_cases usable : 0 ≤ toInt k ∧ 0 ≤ toInt m
    · rw [if_pos usable, Option.some.injEq]
      constructor
      · rintro rfl
        exact ⟨k, m, chosen, usable.1, usable.2, rfl⟩
      · rintro ⟨k', m', chosen', _, _, rfl⟩
        obtain ⟨rfl, rfl⟩ := chosen.unique chosen'
        rfl
    · rw [if_neg usable]
      constructor
      · intro h
        cases h
      · rintro ⟨k', m', chosen', place, entry, _⟩
        obtain ⟨rfl, rfl⟩ := chosen.unique chosen'
        exact absurd ⟨place, entry⟩ usable
  · rw [search]
    constructor
    · intro h
      split at h <;> cases h
    · rintro ⟨k, m, chosen, _⟩
      exact absurd chosen (none k m)

/-- What `bpe_encode` starts from. -/
def single (word : Bytes) : List Bytes := word.map fun c => [c]

variable (t) in
/-- What its loop leaves of a word. -/
def pieces (word : Bytes) : List Bytes := t.mergeLoop (single word)

/-- `bpe_encode` brings a word to normal form. -/
structure NormalForm (t : Tokenizer) (word : Bytes) : Prop where
  ends : ∃ n, n + 1 ≤ word.length ∧ Passes t.mergePass n (single word) (t.pieces word) ∧
    t.mergePass (t.pieces word) = none
  indices : ∀ n s s', Passes t.mergePass n (single word) s → t.mergePass s = some s' → t.IndicesInRange s
  nonempty : ∀ p ∈ t.pieces word, p ≠ []
  flatten : (t.pieces word).flatten = word
  normal : ¬ Mergeable t.merges (t.pieces word)
  ids : t.bpeEncode word = (t.pieces word).map t.pieceId ∧
    (t.bpeEncode word).length = (t.pieces word).length

/-- The casts of `find_best_merge` serve as indices: some listed pair has a priority that counts, and of
the chosen one the entry is not negative and the place is one that `pos + 1` can follow. -/
def CastsServe (merges : List (Bytes × Bytes)) (chars : List Bytes) : Prop :=
  ∃ k m, Chosen merges chars k m ∧ 0 ≤ toInt k ∧ toInt k + 1 < 2 ^ 31 ∧ 0 ≤ toInt m

theorem single_flatten (word : Bytes) : (single word).flatten = word := by
  simp [single, ← List.flatMap_def]

theorem single_length (word : Bytes) : (single word).length = word.length := List.length_map _

theorem Passes.pieces {n : Nat} {word : Bytes} {s : List Bytes}
    (passes : Passes t.mergePass n (single word) s) : t.pieces word = t.mergeLoop s :=
  passes.loop List.length fun _ _ pass => mergePass_length _ pass

/-- A pass takes one piece away. -/
theorem passes_length {n : Nat} {s s' : List Bytes} (passes : Passes t.mergePass n s s') :
    s'.length + n = s.length := by
  induction passes with
  | refl s => rfl
  | pass first rest ih =>
    have less := (t.mergePass_join first).length
    omega

theorem pieces_passes (t : Tokenizer) (word : Bytes) :
    ∃ n, Passes t.mergePass n (single word) (t.pieces word) := by
  obtain ⟨n, _, passes⟩ := whileSome_passes t.mergePass (single word).length (single word)
  exact ⟨n, passes⟩

theorem pieces_flatten (t : Tokenizer) (word : Bytes) : (t.pieces word).flatten = word :=
  (t.mergeLoop_flatten (single word)).trans (single_flatten word)

/-- An id for each piece. -/
theorem bpeEncode_pieces (t : Tokenizer) (word : Bytes) : t.bpeEncode word = (t.pieces word).map t.pieceId := by
  unfold bpeEncode
  split
  · rename_i none
    rw [none]
    rfl
  · rfl

/-- No pass makes an empty piece. -/
theorem pieces_nonempty {word : Bytes} {n : Nat} {s : List Bytes} (passes : Passes t.mergePass n (single word) s) :
    ∀ p ∈ s, p ≠ [] := by
  refine passes.inv (fun s : List Bytes => ∀ p ∈ s, p ≠ []) ?_ ?_
  · intro s s' each pass
    obtain ⟨before, a, b, after, _⟩ := t.mergePass_join pass
    intro p mem
    rcases List.mem_append.1 mem with mem | mem
    · exact each p (by simp [mem])
    · rcases List.mem_cons.1 mem with rfl | mem
      · intro none
        exact each a (by simp) (List.append_eq_nil_iff.1 none).1
      · exact each p (by simp [mem])
  · intro p mem
    obtain ⟨c, _, rfl⟩ := List.mem_map.1 mem
    exact List.cons_ne_nil _ _

/-- A pass whose casts serve has its indices in range. -/
theorem CastsServe.indices (serve : CastsServe t.merges chars) : t.IndicesInRange chars := by
  obtain ⟨k, m, chosen, place, next, entry⟩ := serve
  have bound := chosen.place_lt
  have low := toInt_le k
  unfold IndicesInRange
  rcases t.findBestMerge_chosen chars with ⟨k', m', chosen', search⟩ | ⟨none, _⟩
  · obtain ⟨rfl, rfl⟩ := chosen.unique chosen'
    rw [search]
    exact ⟨place, next, by omega⟩
  · exact absurd chosen (none k m)

theorem CastsServe.pass (serve : CastsServe t.merges chars) : ∃ chars', t.mergePass chars = some chars' := by
  obtain ⟨k, m, chosen, place, next, entry⟩ := serve
  exact ⟨_, mergePass_iff.2 ⟨k, m, chosen, place, entry, rfl⟩⟩

/-- A pass whose indices are in range is one whose casts serve. -/
theorem castsServe_of_pass (pass : t.mergePass chars = some chars') (range : t.IndicesInRange chars) :
    CastsServe t.merges chars := by
  obtain ⟨k, m, chosen, place, entry, _⟩ := mergePass_iff.1 pass
  refine ⟨k, m, chosen, place, ?_, entry⟩
  rcases t.findBestMerge_chosen chars with ⟨k', m', chosen', search⟩ | ⟨none, _⟩
  · obtain ⟨rfl, rfl⟩ := chosen.unique chosen'
    unfold IndicesInRange at range
    rw [search] at range
    exact range.2.1
  · exact absurd chosen (none k m)

/-- In a table of less than 2^31 entries and a word of at most 2^31 pieces the casts serve. -/
theorem castsServe_of_short (few : t.merges.length < 2 ^ 31) (short : chars.length ≤ 2 ^ 31)
    (mergeable : Mergeable t.merges chars) : CastsServe t.merges chars := by
  have priority : ∀ m, mergePriority t.merges m = (t.merges.length - m : Nat) := by
    intro m
    apply toInt_of_lt
    omega
  have chosen : ∃ k m, Chosen t.merges chars k m := by
    have best := findBestMergeFrom_best t.merges chars 0 {}
    generalize findBestMergeFrom t.merges 0 chars {} = result at best
    cases best with
    | kept rest =>
      obtain ⟨q, mem, listed⟩ := mergeable
      obtain ⟨m, rank⟩ := mergeable_rank listed
      have low := rest q mem m rank
      rw [priority] at low
      dsimp only at low
      omega
    | found p k m place rank better before rest =>
      refine ⟨k, m, ⟨p, place, rank⟩, ?_, before, fun j q at_j m' rank' => ?_⟩
      · rw [priority]
        omega
      · exact rest q (List.mem_of_getElem? at_j) m' rank'
  obtain ⟨k, m, chosen⟩ := chosen
  have bound := chosen.place_lt
  obtain ⟨p, _, rank⟩ := chosen.rank
  have entry := rank.listed.2
  refine ⟨k, m, chosen, ?_, ?_, ?_⟩
  · rw [toInt_of_lt (by omega)]
    omega
  · rw [toInt_of_lt (by omega)]
    omega
  · rw [toInt_of_lt (by omega)]
    omega

/-- A word in normal form: a listed pair in some round is joined there, so that its casts served. -/
theorem NormalForm.castsServe {word : Bytes} (normal : NormalForm t word) {n : Nat} {s : List Bytes}
    (passes : Passes t.mergePass n (single word) s) (mergeable : Mergeable t.merges s) : CastsServe t.merges s := by
  cases pass : t.mergePass s with
  | none =>
    -- the loop stops at `s`
    have final := Passes.pieces passes
    rw [mergeLoop_stop pass] at final
    have clean := normal.normal
    rw [final] at clean
    exact absurd mergeable clean
  | some s' => exact castsServe_of_pass pass (normal.indices n s s' passes pass)

/-- Where the casts serve in each round the word is brought to normal form. That the loop ends and loses no
byte does not depend on them. -/
theorem normalForm_of_castsServe {word : Bytes} (some : word ≠ [])
    (serve : ∀ n s, Passes t.mergePass n (single word) s → Mergeable t.merges s → CastsServe t.merges s) :
    NormalForm t word := by
  obtain ⟨n, passes⟩ := t.pieces_passes word
  have stopped : t.mergePass (t.pieces word) = none := t.mergeLoop_exit (single word)
  have flat := t.pieces_flatten word
  refine ⟨⟨n, ?_, passes, stopped⟩, ?_, pieces_nonempty passes, flat, ?_, t.bpeEncode_pieces word, ?_⟩
  · have length := passes_length passes
    rw [single_length] at length
    have left : 0 < (t.pieces word).length := by
      apply List.length_pos_of_ne_nil
      intro none
      rw [none] at flat
      exact some flat.symm
    omega
  · intro n s s' passes pass
    obtain ⟨k, m, chosen, _⟩ := mergePass_iff.1 pass
    exact (serve n s passes chosen.mergeable).indices
  · intro mergeable
    obtain ⟨s', pass⟩ := (serve n _ passes mergeable).pass
    rw [stopped] at pass
    cases pass
  · rw [t.bpeEncode_pieces, List.length_map]

/-- **Normal form.** The loop ends in normal form, with every index in range, exactly when the casts serve
in each of its rounds: they do for tables of less than 2^31 entries and words of at most 2^31 bytes. -/
theorem normalForm_iff (t : Tokenizer) {word : Bytes} (some : word ≠ []) :
    (NormalForm t word ↔
      ∀ n s, Passes t.mergePass n (single word) s → Mergeable t.merges s → CastsServe t.merges s) ∧
    (t.merges.length < 2 ^ 31 → word.length ≤ 2 ^ 31 → NormalForm t word) := by
  refine ⟨⟨fun normal n s => normal.castsServe, normalForm_of_castsServe some⟩, fun few short => ?_⟩
  apply normalForm_of_castsServe some
  intro n s passes mergeable
  have length := passes_length passes
  rw [single_length] at length
  exact castsServe_of_short few (by omega) mergeable

theorem normalForm_iff_abc : NormalForm { merges := abcMerges } (str "abcab") :=
  (normalForm_iff { merges := abcMerges } (show str "abcab" ≠ [] by decide)).2
    (Nat.le_of_ble_eq_true rfl) (Nat.le_of_ble_eq_true rfl)

/-- A pair of the table is left behind 2^31 bytes. -/
theorem lateWord_mergeable {n : Nat} (late : 2 ^ 31 ≤ n) (short : n < 2 ^ 32) :
    Mergeable abMerges (({ merges := abMerges } : Tokenizer).pieces (lateWord n)) := by
  have mem : (str "a", str "b") ∈ neighbours (single (lateWord n)) := (lateWord_place n).1
  have stopped : ({ merges := abMerges } : Tokenizer).mergePass (single (lateWord n)) = none :=
    lateWord_stops late short
  rw [pieces, mergeLoop_stop stopped]
  exact ⟨_, mem, List.mem_cons_self⟩

theorem not_normalForm : ¬ ∀ (t : Tokenizer) (word : Bytes), word ≠ [] → NormalForm t word := by
  intro all
  have some : lateWord (2 ^ 31) ≠ [] := by
    unfold lateWord
    exact List.append_ne_nil_of_right_ne_nil _ (by decide)
  exact (all { merges := abMerges } _ some).normal (lateWord_mergeable (Nat.le_refl _) (by omega))

end Tokenizer
end ModelRuntime
