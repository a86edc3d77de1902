import ModelRuntime.Tokenizer.Coarsening
import ModelRuntime.Tokenizer.VocabLine

/-!
# Loading a file again

A second load of a file writes what the first has written and appends its merges once more (`reload_extend`).
No new pair is listed, so nothing but the priorities changes, and they keep their order while they fit an `int`.
-/

namespace ModelRuntime
open Cpp Lib

attribute [local irreducible] toInt

/-! ## The second load -/

section Again

variable {t t' : Tokenizer} {contents : Bytes}

theorem vocab_enterAll (es : List VocabLine) : (es.foldl Tokenizer.enter t).vocab =
    (es.flatMap VocabLine.writes).foldl (fun m w => m.insert w.1 w.2) t.vocab := by
  induction es generalizing t with
  | nil => rfl
  | cons entry es ih =>
    rw [List.foldl_cons, ih, List.flatMap_cons, List.foldl_append]
    cases entry <;> rfl

theorem reverseVocab_enterAll (es : List VocabLine) : (es.foldl Tokenizer.enter t).reverseVocab =
    ((es.flatMap VocabLine.writes).map Prod.swap).foldl (fun m w => m.insert w.1 w.2) t.reverseVocab := by
  induction es generalizing t with
  | nil => rfl
  | cons entry es ih =>
    rw [List.foldl_cons, ih, List.flatMap_cons, List.map_append, List.foldl_append]
    cases entry <;> rfl

/-- The merges of a file, in order. -/
def filePairs (contents : Bytes) : List (Bytes × Bytes) := (fileEntries contents).flatMap VocabLine.pairs

/-- A size once counted is not counted again. -/
theorem sized_again (size : t.vocabSize = t'.vocabSize ∨ t.vocabSize = t'.sized.vocabSize)
    (vocab : t.vocab = t'.vocab) : t.sized.vocabSize = t'.sized.vocabSize := by
  by_cases zero : t.vocabSize = 0
  · have counted : t.sized.vocabSize = toInt t.vocab.keys.card := by rw [Tokenizer.sized, if_pos zero]
    rw [counted, vocab]
    unfold Tokenizer.sized at size ⊢
    split at size
    · rename_i zero'
      rw [if_pos zero']
    · rename_i given
      rcases size with same | same <;> exact absurd (same.symm.trans zero) given
  · have kept : t.sized.vocabSize = t.vocabSize := by rw [Tokenizer.sized, if_neg zero]
    rw [kept]
    rcases size with same | same
    · rw [Tokenizer.sized, if_neg (same ▸ zero)]
      exact same
    · exact same

/-- The second load leaves what the first has left, with the merges once more. -/
theorem reload_extend (readable : Readable contents) (t : Tokenizer) :
    (((t.load (some contents)).2).load (some contents)).2 = (t.load (some contents)).2.extend (filePairs contents) := by
  rw [Tokenizer.load_readable readable t, Tokenizer.load_readable readable]
  dsimp only
  generalize once : (t.entered contents).sized = t'
  have vocab : (t'.entered contents).vocab = t'.vocab := by
    rw [← once, Tokenizer.sized_vocab, Tokenizer.entered, vocab_enterAll, Tokenizer.sized_vocab, Tokenizer.entered,
      vocab_enterAll, foldl_insert_twice]
  have reverseVocab : (t'.entered contents).reverseVocab = t'.reverseVocab := by
    rw [← once, Tokenizer.sized_reverseVocab, Tokenizer.entered, reverseVocab_enterAll,
      Tokenizer.sized_reverseVocab, Tokenizer.entered, reverseVocab_enterAll, foldl_insert_twice]
  have merges : (t'.entered contents).merges = t'.merges ++ filePairs contents := t'.entered_merges contents
  have size : (t'.entered contents).sized.vocabSize = t'.vocabSize := by
    rw [← once] at vocab ⊢
    apply sized_again _ (vocab.trans (Tokenizer.sized_vocab _))
    rw [Tokenizer.entered_vocabSize, Tokenizer.entered_vocabSize]
    cases Tokenizer.headerSize contents with
    | some n => exact .inl rfl
    | none => exact .inr rfl
  have fields : ∀ t₁ t₂ : Tokenizer, t₁.vocab = t₂.vocab → t₁.reverseVocab = t₂.reverseVocab →
      t₁.merges = t₂.merges → t₁.vocabSize = t₂.vocabSize → t₁ = t₂ := by
    rintro ⟨⟩ ⟨⟩ rfl rfl rfl rfl
    rfl
  apply fields
  · exact (Tokenizer.sized_vocab _).trans vocab
  · exact (Tokenizer.sized_reverseVocab _).trans reverseVocab
  · exact (Tokenizer.sized_merges _).trans merges
  · exact size

end Again

/-! ## The same choices -/

section Choices

variable {merges more : List (Bytes × Bytes)} {chars : List Bytes} {k m : Nat} {q : Bytes × Bytes}

/-- Of the listed pairs of neighbours the casts to `int` order the priorities in the longer table as in the
shorter one, and let the same ones count. -/
structure OrderStays (merges more : List (Bytes × Bytes)) (chars : List Bytes) : Prop where
  less : ∀ q ∈ neighbours chars, ∀ m, RankIs merges q m → ∀ q' ∈ neighbours chars, ∀ m', RankIs merges q' m' →
    (mergePriority (merges ++ more) m < mergePriority (merges ++ more) m' ↔
      mergePriority merges m < mergePriority merges m')
  counted : ∀ q ∈ neighbours chars, ∀ m, RankIs merges q m →
    (0 ≤ mergePriority (merges ++ more) m ↔ 0 ≤ mergePriority merges m)

/-- Priorities that fit are all higher by the number of the added entries. -/
theorem orderStays_of_fit (fit : PrioritiesFit (merges ++ more) chars) : OrderStays merges more chars := by
  constructor
  · intro q mem m rank q' mem' m' rank'
    have own := (mergePriority_extend fit mem rank).2
    have other := (mergePriority_extend fit mem' rank').2
    omega
  · intro q mem m rank
    obtain ⟨positive, own⟩ := mergePriority_extend fit mem rank
    omega

/-- An entry that is listed again keeps the place it has. -/
theorem rankIs_again (listed : ∀ q ∈ more, q ∈ merges) : RankIs (merges ++ more) q m ↔ RankIs merges q m := by
  constructor
  · intro rank
    have first : q ∈ merges := (List.mem_append.1 (List.mem_of_getElem? rank.listed.1)).elim id (listed q)
    obtain ⟨m', rank'⟩ := mergeable_rank first
    obtain rfl := rank.unique rank'.extend
    exact rank'
  · exact RankIs.extend

/-- Entries that are listed already choose no other pair. -/
theorem OrderStays.chosen_iff (order : OrderStays merges more chars) (listed : ∀ q ∈ more, q ∈ merges) :
    Chosen (merges ++ more) chars k m ↔ Chosen merges chars k m := by
  constructor
  · intro h
    obtain ⟨p, place, rank⟩ := h.rank
    have mem := List.mem_of_getElem? place
    have own := (rankIs_again listed).1 rank
    refine ⟨⟨p, place, own⟩, (order.counted p mem m own).1 h.counted, ?_, ?_⟩
    · intro j before q at_j m' rank'
      apply (order.less q (List.mem_of_getElem? at_j) m' rank' p mem m own).1
      exact h.first j before q at_j m' rank'.extend
    · intro j q at_j m' rank'
      rw [← not_lt, ← order.less p mem m own q (List.mem_of_getElem? at_j) m' rank', not_lt]
      exact h.highest j q at_j m' rank'.extend
  · intro h
    obtain ⟨p, place, rank⟩ := h.rank
    have mem := List.mem_of_getElem? place
    refine ⟨⟨p, place, rank.extend⟩, (order.counted p mem m rank).2 h.counted, ?_, ?_⟩
    · intro j before q at_j m' rank'
      have own := (rankIs_again listed).1 rank'
      apply (order.less q (List.mem_of_getElem? at_j) m' own p mem m rank).2
      exact h.first j before q at_j m' own
    · intro j q at_j m' rank'
      have own := (rankIs_again listed).1 rank'
      rw [← not_lt, order.less p mem m rank q (List.mem_of_getElem? at_j) m' own, not_lt]
      exact h.highest j q at_j m' own

/-- Casts that serve in the shorter table serve in the longer one. -/
theorem OrderStays.serve (order : OrderStays merges more chars) (listed : ∀ q ∈ more, q ∈ merges)
    (serve : Tokenizer.CastsServe merges chars) : Tokenizer.CastsServe (merges ++ more) chars := by
  obtain ⟨k, m, chosen, casts⟩ := serve
  exact ⟨k, m, (order.chosen_iff listed).2 chosen, casts⟩

end Choices

namespace Tokenizer

variable {t : Tokenizer} {more : List (Bytes × Bytes)} {chars : List Bytes} {word text : Bytes}

theorem mergePass_again (order : OrderStays t.merges more chars) (listed : ∀ q ∈ more, q ∈ t.merges) :
    (t.extend more).mergePass chars = t.mergePass chars := by
  apply Option.ext
  intro chars'
  rw [mergePass_iff, mergePass_iff]
  constructor
  · rintro ⟨k, m, chosen, place⟩
    exact ⟨k, m, (order.chosen_iff listed).1 chosen, place⟩
  · rintro ⟨k, m, chosen, place⟩
    exact ⟨k, m, (order.chosen_iff listed).2 chosen, place⟩

/-- On what the passes on `word` leave, the order stays when the table has these entries once more. -/
def ChoicesStay (t : Tokenizer) (more : List (Bytes × Bytes)) (word : Bytes) : Prop :=
  ∀ n s, Passes t.mergePass n (single word) s → OrderStays t.merges more s

theorem ChoicesStay.pieces (stay : t.ChoicesStay more word) (listed : ∀ q ∈ more, q ∈ t.merges) :
    (t.extend more).pieces word = t.pieces word := by
  obtain ⟨n, passes⟩ := t.pieces_passes word
  have same : ∀ i s, Passes t.mergePass i (single word) s → (t.extend more).mergePass s = t.mergePass s :=
    fun i s front => mergePass_again (stay i s front) listed
  have again : Passes (t.extend more).mergePass n (single word) (t.pieces word) := 
    passes.congr fun i s s' front pass => (same i s front).trans pass
  have ended : (t.extend more).mergePass (t.pieces word) = none := by
    rw [same n _ passes]
    exact t.mergeLoop_exit (single word)
  rw [Passes.pieces again, mergeLoop_stop ended]

/-- The longer table makes no other passes. -/
theorem passes_again {n : Nat} {chars' : List Bytes} (listed : ∀ q ∈ more, q ∈ t.merges)
    (passes : Passes (t.extend more).mergePass n chars chars')
    (stay : ∀ i s, Passes t.mergePass i chars s → OrderStays t.merges more s) : Passes t.mergePass n chars chars' := by
  induction passes with
  | refl s => exact .refl s
  | pass first rest ih =>
    rw [mergePass_again (stay 0 _ (.refl _)) listed] at first
    exact .pass first (ih fun i s later => stay (i + 1) s (.pass first later))

theorem ChoicesStay.defined (stay : t.ChoicesStay more word) (listed : ∀ q ∈ more, q ∈ t.merges)
    (defined : t.NoOverflow (single word)) : (t.extend more).NoOverflow (single word) := by
  intro n s s' passes pass
  have front := passes_again listed passes stay
  have order := stay n s front
  rw [mergePass_again order listed] at pass
  have serve : CastsServe (t.extend more).merges s :=
    order.serve listed (castsServe_of_pass pass (defined n s s' front pass))
  exact serve.indices

theorem longestPrefix_extend (ch : Bytes) (n : Nat) : (t.extend more).longestPrefix ch n = t.longestPrefix ch n := by
  induction n with
  | zero => rfl
  | succ n ih =>
    rw [longestPrefix, longestPrefix, ih]
    rfl

theorem pieceId_extend (ch : Bytes) : (t.extend more).pieceId ch = t.pieceId ch := by
  rw [pieceId, longestPrefix_extend]
  rfl

theorem ChoicesStay.encode (stay : ∀ word ∈ t.words text, t.ChoicesStay more word)
    (listed : ∀ q ∈ more, q ∈ t.merges) : (t.extend more).encode text = t.encode text := by
  have words : (t.words text).flatMap (t.extend more).bpeEncode = (t.words text).flatMap t.bpeEncode := by
    apply List.flatMap_congr
    intro word mem
    rw [bpeEncode_pieces, bpeEncode_pieces, (stay word mem).pieces listed]
    exact List.map_congr_left fun ch _ => pieceId_extend ch
  rw [encode_words, encode_words]
  exact congrArg ((text.filter isSeparator).map t.separatorId ++ ·) words

theorem ChoicesStay.encodeDefined (stay : ∀ word ∈ t.words text, t.ChoicesStay more word)
    (listed : ∀ q ∈ more, q ∈ t.merges) (defined : t.EncodeDefined text) : (t.extend more).EncodeDefined text :=
  fun word mem => (stay word mem).defined listed (defined word mem)

theorem choicesStay_of_few (few : (t.merges ++ more).length < 2 ^ 31) (word : Bytes) : t.ChoicesStay more word :=
  fun _ _ _ => orderStays_of_fit (prioritiesFit_of_table (t := t.extend more) few)

theorem pieces_of_merges (t' : Tokenizer) (same : t.merges = t'.merges) (word : Bytes) :
    t.pieces word = t'.pieces word := by
  obtain ⟨vocab, reverseVocab, merges, size⟩ := t
  subst same
  rfl

/-- One word of two letters. -/
theorem encode_ab (t : Tokenizer) : (t.encode (str "ab")).length = (t.pieces (str "ab")).length := by
  have word : t.words (str "ab") = [str "ab"] := rfl
  have none : (str "ab").filter isSeparator = [] := by decide
  rw [Tokenizer.encode_length, word, none, List.map_cons, List.map_nil, List.sum_singleton]
  exact Nat.zero_add _

end Tokenizer

/-! ## Loading twice -/

section Twice

variable {t : Tokenizer} {contents : Bytes}

/-- The tokenizer after one load of the file. -/
def loadedOnce (t : Tokenizer) (contents : Bytes) : Tokenizer := (t.load (some contents)).2

def loadedTwice (t : Tokenizer) (contents : Bytes) : Tokenizer := loadedOnce (loadedOnce t contents) contents

/-- The text is encoded after the second load, too, and as after the first. -/
structure EncodesAlike (t : Tokenizer) (contents text : Bytes) : Prop where
  defined : (loadedTwice t contents).EncodeDefined text
  same : (loadedTwice t contents).encode text = (loadedOnce t contents).encode text

/-- The second load is not observed, in texts that are encoded after the first. -/
structure ReloadsAlike (t : Tokenizer) (contents : Bytes) : Prop where
  encode : ∀ text, (loadedOnce t contents).EncodeDefined text → EncodesAlike t contents text
  decode : ∀ tokens, (loadedTwice t contents).decode tokens = (loadedOnce t contents).decode tokens
  vocabSize : (loadedTwice t contents).vocabSize = (loadedOnce t contents).vocabSize

theorem loadedTwice_extend (readable : Readable contents) :
    loadedTwice t contents = (loadedOnce t contents).extend (filePairs contents) := reload_extend readable t

theorem loadedOnce_merges (readable : Readable contents) :
    (loadedOnce t contents).merges = t.merges ++ filePairs contents := by
  rw [loadedOnce, Tokenizer.load_readable readable t]
  exact (Tokenizer.sized_merges _).trans (t.entered_merges contents)

theorem filePairs_listed (readable : Readable contents) :
    ∀ q ∈ filePairs contents, q ∈ (loadedOnce t contents).merges := by
  intro q mem
  rw [loadedOnce_merges readable]
  exact List.mem_append_right _ mem

theorem encodesAlike_of_choices (readable : Readable contents) {text : Bytes}
    (stay : ∀ word ∈ (loadedOnce t contents).words text, (loadedOnce t contents).ChoicesStay (filePairs contents) word)
    (defined : (loadedOnce t contents).EncodeDefined text) : EncodesAlike t contents text := by
  have twice := loadedTwice_extend (t := t) readable
  have listed := filePairs_listed (t := t) readable
  constructor
  · rw [twice]
    exact Tokenizer.ChoicesStay.encodeDefined stay listed defined
  · rw [twice]
    exact Tokenizer.ChoicesStay.encode stay listed

theorem reloadsAlike_of_choices (readable : Readable contents)
    (stay : ∀ word, (loadedOnce t contents).ChoicesStay (filePairs contents) word) : ReloadsAlike t contents := by
  have twice := loadedTwice_extend (t := t) readable
  refine ⟨fun text => encodesAlike_of_choices readable fun word _ => stay word, fun tokens => ?_, ?_⟩
  · rw [twice]
    rfl
  · rw [twice]
    rfl

theorem reloadsAlike_of_few (readable : Readable contents) (few : (loadedTwice t contents).merges.length < 2 ^ 31) :
    ReloadsAlike t contents := by
  rw [loadedTwice_extend readable] at few
  exact reloadsAlike_of_choices readable fun word => Tokenizer.choicesStay_of_few few word

/-- A file with one merge. -/
def xyFile : Bytes := str "vocab_size\nx y\n"

theorem xyFile_readable : Readable xyFile := (load_ok_iff {} xyFile).1 ⟨true, by decide +kernel⟩

theorem xyFile_pairs : filePairs xyFile = [(str "x", str "y")] := by decide +kernel

/-- The second load takes the table to 2^31 entries, and the first one loses its priority. -/
theorem ab_reloaded (more : List (Bytes × Bytes)) (size : more.length + 3 = 2 ^ 31) :
    ¬ ReloadsAlike { merges := abMerges ++ more } xyFile := by
  intro alike
  have once : (loadedOnce { merges := abMerges ++ more } xyFile).merges =
      abMerges ++ (more ++ [(str "x", str "y")]) := by
    rw [loadedOnce_merges xyFile_readable, xyFile_pairs, List.append_assoc]
  have twice : (loadedTwice { merges := abMerges ++ more } xyFile).merges =
      abMerges ++ (more ++ [(str "x", str "y"), (str "x", str "y")]) := by
    rw [loadedTwice_extend xyFile_readable, Tokenizer.extend, once, xyFile_pairs, List.append_assoc, List.append_assoc]
    rfl
  have short : (str "ab").length ≤ 2 ^ 31 := Nat.le_of_ble_eq_true rfl
  have same := congrArg List.length (alike.encode (str "ab") (Tokenizer.encodeDefined_of_short _ short)).same
  let front : Tokenizer := { merges := abMerges }
  rw [Tokenizer.encode_ab, Tokenizer.encode_ab, Tokenizer.pieces_of_merges (front.extend _) twice,
    Tokenizer.pieces_of_merges (front.extend _) once, Tokenizer.ab_uncounted] at same
  · have few : (front.merges ++ (more ++ [(str "x", str "y")])).length < 2 ^ 31 := by
      have one : front.merges.length = 1 := rfl
      rw [List.length_append, List.length_append, List.length_singleton, one]
      omega
    have fewer := (Tokenizer.repeats_of_few few (str "ab")).coarser.grouped.length
    have whole : front.pieces (str "ab") = [str "ab"] := by decide +kernel
    rw [whole, ← same] at fewer
    exact absurd fewer (by decide)
  · rw [List.length_append]
    exact size

theorem exists_reloaded (more : List (Bytes × Bytes)) (size : more.length + 3 = 2 ^ 31) :
    ∃ t contents, (∃ opened, (t.load (some contents)).1 = .ok opened) ∧
      (loadedTwice t contents).merges.length = 2 ^ 31 ∧ ¬ ReloadsAlike t contents := by
  refine ⟨_, _, ⟨true, ?_⟩, ?_, ab_reloaded more size⟩
  · rw [Tokenizer.load_readable xyFile_readable]
  · have one : abMerges.length = 1 := rfl
    rw [loadedTwice_extend xyFile_readable, Tokenizer.extend, loadedOnce_merges xyFile_readable, xyFile_pairs,
      List.length_append, List.length_append, List.length_append, List.length_singleton, one]
    omega

/-- **Loading a file twice** is observed as loading it once while the casts of the priorities keep their order on
what the passes on the words leave; decoding and the size are the same in any case. For all states and all files
that can be read this holds of the tables of less than 2^31 entries after the second load, and of no more. The texts
are those that are encoded after the first load without an overflow of `pos + 1`, as all of at most 2^31 bytes are. -/
theorem reload_alike (t : Tokenizer) (contents : Bytes) (N : Nat) :
    ((∃ opened, (t.load (some contents)).1 = .ok opened) →
      (∀ text, (loadedOnce t contents).EncodeDefined text →
        (∀ word ∈ (loadedOnce t contents).words text,
          (loadedOnce t contents).ChoicesStay (filePairs contents) word) → EncodesAlike t contents text) ∧
      (∀ text : Bytes, text.length ≤ 2 ^ 31 → (loadedOnce t contents).EncodeDefined text) ∧
      (∀ tokens, (loadedTwice t contents).decode tokens = (loadedOnce t contents).decode tokens) ∧
      (loadedTwice t contents).vocabSize = (loadedOnce t contents).vocabSize) ∧
    ((∀ t contents, (∃ opened, (t.load (some contents)).1 = .ok opened) →
        (loadedTwice t contents).merges.length ≤ N → ReloadsAlike t contents) ↔ N < 2 ^ 31) := by
  refine ⟨fun loads => ?_, fun all => ?_, fun bound t contents loads few => ?_⟩
  · have readable := (load_ok_iff t contents).1 loads
    refine ⟨fun text defined stay => encodesAlike_of_choices readable stay defined,
      fun text => Tokenizer.encodeDefined_of_short _, ?_⟩
    rw [loadedTwice_extend (t := t) readable]
    exact ⟨fun _ => rfl, rfl⟩
  · by_contra large
    obtain ⟨t, contents, loads, length, apart⟩ := exists_reloaded (List.replicate (2 ^ 31 - 3) ([], [])) (by
      rw [List.length_replicate]
      omega)
    exact apart (all t contents loads (by omega))
  · exact reloadsAlike_of_few ((load_ok_iff t contents).1 loads) (by omega)

theorem not_reload_alike : ¬ ∀ (t : Tokenizer) contents, (∃ opened, (t.load (some contents)).1 = .ok opened) →
    ReloadsAlike t contents := by
  intro all
  obtain ⟨t, contents, loads, _, apart⟩ := exists_reloaded (List.replicate (2 ^ 31 - 3) ([], [])) (by
    rw [List.length_replicate]
    omega)
  exact apart (all t contents loads)

end Twice

end ModelRuntime
