import Mathlib.Algebra.Order.BigOperators.Group.List
import ModelRuntime.Tokenizer.NormalForm
import ModelRuntime.Tokenizer.RoundTrip

/-!
# A table with entries added behind

While the priorities fit an `int`, a pass under a table is a pass under the table with entries added
behind (`mergePass_extend`). The longer table's run therefore first repeats the shorter one's and then
only joins further: its segmentation is a coarser one, and no text gets more tokens.
-/

namespace ModelRuntime
open Cpp Lib

attribute [local irreducible] toInt

section Priorities

variable {merges more : List (Bytes × Bytes)} {chars : List Bytes} {k m m' : Nat} {q : Bytes × Bytes}

/-- An entry of the longer table is the one of the shorter table, or lies behind it. -/
theorem RankIs.append (rank : RankIs (merges ++ more) q m) : RankIs merges q m ∨ merges.length ≤ m := by
  unfold RankIs at rank ⊢
  rw [List.findIdx?_append] at rank
  cases found : merges.findIdx? (· == q) with
  | some m' =>
    rw [found] at rank
    exact .inl rank
  | none =>
    rw [found, Option.none_or, Option.map_eq_some_iff] at rank
    obtain ⟨m', _, rfl⟩ := rank
    exact .inr (Nat.le_add_left _ _)

theorem RankIs.extend (rank : RankIs merges q m) : RankIs (merges ++ more) q m := by
  unfold RankIs at rank ⊢
  rw [List.findIdx?_append, rank]
  rfl

/-- Behind added entries each priority is higher by their number, and positive as before. -/
theorem mergePriority_extend (fit : PrioritiesFit (merges ++ more) chars) (mem : q ∈ neighbours chars)
    (rank : RankIs merges q m) :
    0 < mergePriority merges m ∧ mergePriority (merges ++ more) m = mergePriority merges m + more.length := by
  have bound := fit q mem m rank.extend
  have entry := rank.listed.2
  have longer : (merges ++ more).length = merges.length + more.length := List.length_append
  unfold mergePriority
  rw [toInt_of_lt bound, toInt_of_lt (by omega)]
  omega

/-- The added entries have the priorities up to their number. -/
theorem mergePriority_behind (fit : PrioritiesFit (merges ++ more) chars) (mem : q ∈ neighbours chars)
    (rank : RankIs (merges ++ more) q m) (behind : merges.length ≤ m) :
    mergePriority (merges ++ more) m ≤ more.length := by
  have bound := fit q mem m rank
  have longer : (merges ++ more).length = merges.length + more.length := List.length_append
  unfold mergePriority
  rw [toInt_of_lt bound]
  omega

/-- The pair stays chosen when entries are added behind. -/
theorem Chosen.extend (h : Chosen merges chars k m) (fit : PrioritiesFit (merges ++ more) chars) :
    Chosen (merges ++ more) chars k m := by
  obtain ⟨p, place, rank⟩ := h.rank
  obtain ⟨positive, own⟩ := mergePriority_extend fit (List.mem_of_getElem? place) rank
  refine ⟨⟨p, place, rank.extend⟩, by omega, ?_, ?_⟩
  · intro j less q at_j m' rank'
    have mem := List.mem_of_getElem? at_j
    rcases rank'.append with old | new
    · have lower := h.first j less q at_j m' old
      have other := (mergePriority_extend fit mem old).2
      omega
    · have low := mergePriority_behind fit mem rank' new
      omega
  · intro j q at_j m' rank'
    have mem := List.mem_of_getElem? at_j
    rcases rank'.append with old | new
    · have lower := h.highest j q at_j m' old
      have other := (mergePriority_extend fit mem old).2
      omega
    · have low := mergePriority_behind fit mem rank' new
      omega

end Priorities

namespace Tokenizer

/-- The tokenizer with entries added behind its table. -/
def extend (t : Tokenizer) (more : List (Bytes × Bytes)) : Tokenizer := { t with merges := t.merges ++ more }

variable {t : Tokenizer} {more : List (Bytes × Bytes)} {chars chars' : List Bytes} {word text : Bytes}

theorem mergePass_extend (pass : t.mergePass chars = some chars') (fit : PrioritiesFit (t.merges ++ more) chars) :
    (t.extend more).mergePass chars = some chars' := by
  obtain ⟨k, m, chosen, place, entry, made⟩ := mergePass_iff.1 pass
  exact mergePass_iff.2 ⟨k, m, chosen.extend fit, place, entry, made⟩

/-- In each pass on `word` the priorities of the longer table fit. -/
def Repeats (t : Tokenizer) (more : List (Bytes × Bytes)) (word : Bytes) : Prop :=
  ∀ n s s', Passes t.mergePass n (single word) s → t.mergePass s = some s' →
    PrioritiesFit (t.merges ++ more) s

theorem passes_extend {n : Nat} (passes : Passes t.mergePass n chars chars')
    (fit : ∀ i s s', Passes t.mergePass i chars s → t.mergePass s = some s' →
      PrioritiesFit (t.merges ++ more) s) : Passes (t.extend more).mergePass n chars chars' :=
  passes.congr fun i s s' front pass => mergePass_extend pass (fit i s s' front pass)

/-- The longer table goes on from where the shorter one stops. -/
theorem Repeats.pieces (repeats : t.Repeats more word) :
    (t.extend more).pieces word = (t.extend more).mergeLoop (t.pieces word) := by
  obtain ⟨n, passes⟩ := t.pieces_passes word
  exact Passes.pieces (passes_extend passes repeats)

/-- What a run leaves is coarser than what it starts from. -/
theorem coarsens_mergeLoop (t : Tokenizer) (chars : List Bytes) : Coarsens chars (t.mergeLoop chars) := by
  refine whileSome_inv (Coarsens chars) ?_ _ _ (.refl chars)
  intro s s' coarser pass
  exact coarser.step (t.mergePass_join pass)

/-- The pieces under the longer table are made of whole pieces under the shorter one. -/
structure CoarserPieces (t : Tokenizer) (more : List (Bytes × Bytes)) (word : Bytes) : Prop where
  grouped : Coarsens (t.pieces word) ((t.extend more).pieces word)
  boundaries : boundaries ((t.extend more).pieces word) ⊆ boundaries (t.pieces word)

theorem Repeats.coarser (repeats : t.Repeats more word) : CoarserPieces t more word := by
  have grouped : Coarsens (t.pieces word) ((t.extend more).pieces word) := by
    rw [repeats.pieces]
    exact (t.extend more).coarsens_mergeLoop (t.pieces word)
  exact ⟨grouped, grouped.boundaries⟩

/-- A segmentation that is defined under both tables, and coarser under the longer one. -/
structure Coarser (t : Tokenizer) (more : List (Bytes × Bytes)) (word : Bytes) : Prop where
  shorter : t.NoOverflow (single word)
  longer : (t.extend more).NoOverflow (single word)
  pieces : CoarserPieces t more word

/-- Where the longer table's run is defined, the shorter one's is, which it repeats. -/
theorem Repeats.defined (repeats : t.Repeats more word) (longer : (t.extend more).NoOverflow (single word)) :
    t.NoOverflow (single word) := by
  intro n s s' passes pass
  have fit := repeats n s s' passes pass
  have again := passes_extend passes fun i u u' front next => repeats i u u' front next
  have pass' := mergePass_extend pass fit
  obtain ⟨k, m, chosen, place, entry, _⟩ := mergePass_iff.1 pass
  obtain ⟨k', m', chosen', _, next, _⟩ := castsServe_of_pass pass' (longer n s s' again pass')
  obtain ⟨rfl, rfl⟩ := (chosen.extend fit).unique chosen'
  have serve : CastsServe t.merges s := ⟨k, m, chosen, place, next, entry⟩
  exact serve.indices

theorem bpeEncode_length (t : Tokenizer) (word : Bytes) : (t.bpeEncode word).length = (t.pieces word).length := by
  rw [t.bpeEncode_pieces, List.length_map]

/-- The number of tokens of a text, word by word. -/
theorem encode_length (t : Tokenizer) (text : Bytes) : (t.encode text).length =
    (text.filter isSeparator).length + ((t.words text).map fun word => (t.pieces word).length).sum := by
  have each : (t.words text).map (fun word => (t.bpeEncode word).length) =
      (t.words text).map fun word => (t.pieces word).length :=
    List.map_congr_left fun word _ => t.bpeEncode_length word
  rw [t.encode_words, List.length_append, List.length_map, List.length_flatMap, ← each]

theorem Repeats.encode_length (repeats : ∀ word ∈ t.words text, t.Repeats more word) :
    ((t.extend more).encode text).length ≤ (t.encode text).length := by
  rw [Tokenizer.encode_length, Tokenizer.encode_length]
  apply Nat.add_le_add_left
  apply List.sum_le_sum
  intro word mem
  exact (repeats word mem).coarser.grouped.length

theorem pieces_length_le (t : Tokenizer) (word : Bytes) : (t.pieces word).length ≤ word.length := by
  obtain ⟨n, passes⟩ := t.pieces_passes word
  have length := passes_length passes
  rw [single_length] at length
  omega

/-- A text has at most a token for each byte. -/
theorem encode_length_le (t : Tokenizer) (text : Bytes) : (t.encode text).length ≤ text.length := by
  have whole : ((t.words text).map List.length).sum = (text.filter (!isSeparator ·)).length := by
    rw [← List.length_flatten, t.words_flatten]
  have each : ((t.words text).map fun word => (t.pieces word).length).sum ≤ ((t.words text).map List.length).sum :=
    List.sum_le_sum fun word _ => t.pieces_length_le word
  have separators := text.length_eq_length_filter_add isSeparator
  rw [Tokenizer.encode_length]
  omega

theorem repeats_of_few (few : (t.merges ++ more).length < 2 ^ 31) (word : Bytes) : t.Repeats more word :=
  fun _ _ _ _ _ => prioritiesFit_of_table (t := t.extend more) few

/-- The casts of `count_tokens` keep the order of what fits. -/
theorem Repeats.countTokens (repeats : ∀ word ∈ t.words text, t.Repeats more word)
    (fit : (t.encode text).length < 2 ^ 31) : (t.extend more).countTokens text ≤ t.countTokens text := by
  have fewer := Repeats.encode_length repeats
  unfold Tokenizer.countTokens
  rw [toInt_of_lt fit, toInt_of_lt (by omega)]
  omega

/-- With 2^31 entries the first one has a negative priority. -/
theorem ab_uncounted (size : more.length + 1 = 2 ^ 31) :
    (({ merges := abMerges } : Tokenizer).extend more).pieces (str "ab") = [str "a", str "b"] := by
  have pair : neighbours (single (str "ab")) = [(str "a", str "b")] := by decide
  have stopped : (({ merges := abMerges } : Tokenizer).extend more).mergePass (single (str "ab")) = none := by
    by_contra some
    obtain ⟨chars, pass⟩ := Option.ne_none_iff_exists'.1 some
    obtain ⟨k, m, chosen, _⟩ := mergePass_iff.1 pass
    obtain ⟨p, place, rank⟩ := chosen.rank
    have mem := List.mem_of_getElem? place
    rw [pair, List.mem_singleton] at mem
    subst mem
    have first : RankIs abMerges (str "a", str "b") 0 := by
      unfold RankIs
      decide
    obtain rfl := rank.unique first.extend
    have counted := chosen.counted
    have length : (abMerges ++ more).length - 0 = 2 ^ 31 := by
      rw [List.length_append, ← size]
      exact Nat.add_comm _ _
    have negative : toInt ((abMerges ++ more).length - 0 : Nat) < 0 := by
      rw [length]
      exact toInt_negative (Nat.le_refl _) (by omega)
    exact absurd counted (Int.not_le.2 negative)
  rw [pieces, mergeLoop_stop stopped]
  decide

theorem ab_divided (more : List (Bytes × Bytes)) (size : more.length + 1 = 2 ^ 31) :
    ¬ CoarserPieces { merges := abMerges } more (str "ab") := by
  intro coarser
  have fewer := coarser.grouped.length
  have whole : ({ merges := abMerges } : Tokenizer).pieces (str "ab") = [str "ab"] := by decide +kernel
  rw [ab_uncounted size, whole] at fewer
  exact absurd fewer (by decide)

/-- A text of one letter is one word. -/
theorem words_letters (t : Tokenizer) (n : Nat) :
    (List.replicate n 120).foldl t.splitByte {} = { current := List.replicate n 120 } := by
  induction n with
  | zero => rfl
  | succ n ih =>
    have letter : isSeparator 120 = false := by decide
    rw [List.replicate_succ', List.foldl_append, ih, List.foldl_cons, List.foldl_nil]
    unfold splitByte
    rw [letter]
    rfl

theorem encode_letters (t : Tokenizer) {n : Nat} (some : 0 < n) :
    (t.encode (List.replicate n 120)).length = (t.pieces (List.replicate n 120)).length := by
  have nonempty : (List.replicate n (120 : UInt8)) ≠ [] := by
    intro none
    have length := congrArg List.length none
    rw [List.length_replicate, List.length_nil] at length
    omega
  have word : t.words (List.replicate n 120) = [List.replicate n 120] := by
    unfold words
    rw [words_letters]
    unfold Split.flush
    exact if_neg nonempty
  have letters : (List.replicate n (120 : UInt8)).filter isSeparator = [] :=
    List.filter_replicate_of_neg (by decide)
  rw [Tokenizer.encode_length, word, letters, List.map_cons, List.map_nil, List.sum_singleton]
  exact Nat.zero_add _

/-- 2^31 tokens are counted as a negative number, fewer are not. -/
theorem countTokens_wraps {n : Nat} (wraps : n = 2 ^ 31) :
    let text : Bytes := List.replicate n 120
    ({} : Tokenizer).countTokens text < 0 ∧
      0 ≤ (({} : Tokenizer).extend [(str "x", str "x")]).countTokens text := by
  intro text
  have size : (single text).length = n := by
    rw [single_length, List.length_replicate]
  constructor
  · have plain : ({} : Tokenizer).mergePass (single text) = none := by
      apply mergePass_none
      rw [lowest_eq_none_iff]
      intro q listed
      cases listed
    unfold countTokens
    rw [encode_letters _ (by omega), pieces, mergeLoop_stop plain, size]
    exact toInt_negative (by omega) (by omega)
  · have mergeable : Mergeable [(str "x", str "x")] (single text) := by
      obtain ⟨m, rfl⟩ : ∃ m, n = m + 2 := ⟨n - 2, by omega⟩
      refine ⟨(str "x", str "x"), ?_, List.mem_cons_self⟩
      exact List.mem_cons_self
    have serve : CastsServe ((({} : Tokenizer).extend [(str "x", str "x")]).merges) (single text) := by
      apply castsServe_of_short _ (by omega) mergeable
      exact Nat.le_of_ble_eq_true rfl
    obtain ⟨chars, pass⟩ := serve.pass
    have less := mergePass_length _ pass
    have fewer : ((({} : Tokenizer).extend [(str "x", str "x")]).pieces text).length ≤ chars.length := by
      rw [pieces, mergeLoop_pass pass]
      exact (coarsens_mergeLoop _ chars).length
    have small : ((({} : Tokenizer).extend [(str "x", str "x")]).pieces (List.replicate n 120)).length < 2 ^ 31 :=
      Nat.lt_of_le_of_lt fewer (by omega)
    unfold countTokens
    rw [encode_letters _ (by omega), toInt_of_lt small]
    exact Int.natCast_nonneg _

/-- **Added entries only coarsen**, while the priorities of the longer table fit and its run overflows no `pos + 1`,
and then no text gets more tokens, while the tokens can be counted. For all words of at most 2^31 bytes, in which
nothing overflows, this holds of the tables of less than 2^31 entries, and for all such tables of the texts of less
than 2^31 bytes, and of no more. -/
theorem pieces_coarser (t : Tokenizer) (more : List (Bytes × Bytes)) (word text : Bytes) (N L : Nat) :
    (Repeats t more word → (extend t more).NoOverflow (single word) → Coarser t more word) ∧
      ((∀ word ∈ words t text, Repeats t more word) → (extend t more).EncodeDefined text →
        (encode t text).length < 2 ^ 31 →
        t.EncodeDefined text ∧ (extend t more).countTokens text ≤ t.countTokens text) ∧
      ((∀ t more, (merges t ++ more).length ≤ N → ∀ word : Bytes, word.length ≤ 2 ^ 31 → Coarser t more word) ↔
        N < 2 ^ 31) ∧
      ((∀ t more, (merges t ++ more).length < 2 ^ 31 → ∀ text : Bytes, text.length ≤ L →
        (extend t more).countTokens text ≤ t.countTokens text) ↔ L < 2 ^ 31) := by
  refine ⟨fun repeats longer => ⟨repeats.defined longer, longer, repeats.coarser⟩,
    fun repeats defined fit => ⟨fun word mem => (repeats word mem).defined (defined word mem), ?_⟩,
    ⟨fun all => ?_, fun bound t more few word short => ?_⟩,
    fun all => ?_, fun bound t more few text short => ?_⟩
  · exact Repeats.countTokens repeats fit
  · by_contra large
    refine ab_divided (List.replicate (2 ^ 31 - 1) ([], [])) ?_ (all _ _ ?_ _ (Nat.le_of_ble_eq_true rfl)).pieces
    · rw [List.length_replicate]
      omega
    · have one : ({ merges := abMerges } : Tokenizer).merges.length = 1 := rfl
      rw [List.length_append, List.length_replicate, one]
      omega
  · have size : (single word).length ≤ 2 ^ 31 := by rwa [single_length]
    exact ⟨t.noOverflow_of_short size, (t.extend more).noOverflow_of_short size,
      (repeats_of_few (by omega) word).coarser⟩
  · by_contra large
    obtain ⟨negative, counted⟩ := countTokens_wraps (n := 2 ^ 31) rfl
    have fewer := all {} [(str "x", str "x")] (Nat.le_of_ble_eq_true rfl) (List.replicate (2 ^ 31) 120) (by
      rw [List.length_replicate]
      omega)
    exact absurd (Int.lt_of_le_of_lt fewer negative) (Int.not_lt.2 counted)
  · have few' := encode_length_le t text
    exact Repeats.countTokens (fun word _ => repeats_of_few few word) (by omega)

theorem not_pieces_coarser : ¬ ∀ (t : Tokenizer) more word, CoarserPieces t more word := by
  intro all
  refine ab_divided (List.replicate (2 ^ 31 - 1) ([], [])) ?_ (all _ _ _)
  rw [List.length_replicate]
  omega

end Tokenizer
end ModelRuntime
