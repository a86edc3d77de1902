import ModelRuntime.Tokenizer.NormalForm

/-!
# Decoding an encoded text

`encode` pushes the id of a separator at once and the ids of the words only after the whole text is
split, so that `decode (encode text)` is the separators of `text` followed by its other bytes
(`decode_encode`). On a tokenizer that loses nothing on a single word this is `text` itself exactly
when no separator stands after a byte of a word.
-/

namespace ModelRuntime
open Cpp Lib

namespace Tokenizer

/-- The vocabulary knows every byte and every merge, and the two maps are inverse. -/
structure Lossless (t : Tokenizer) : Prop where
  inverse : ∀ token id, t.vocab.lookup token = some id ↔ t.reverseVocab.lookup id = some token
  bytes : ∀ c, ∃ id, t.vocab.lookup [c] = some id
  merged : ∀ l r, (l, r) ∈ t.merges → ∃ id, t.vocab.lookup (l ++ r) = some id

/-- No separator stands after a byte that is none. -/
def SeparatorsFirst (text : Bytes) : Prop :=
  text.Pairwise fun a b => isSeparator b = true → isSeparator a = true

variable {t : Tokenizer}

theorem decode_eq_flatMap (tokens : List Int) : t.decode tokens = tokens.flatMap t.tokenText := by
  have key : ∀ (tokens : List Int) (acc : Bytes),
      tokens.foldl (fun result token => result ++ t.tokenText token) acc =
        acc ++ tokens.flatMap t.tokenText := by
    intro tokens
    induction tokens with
    | nil => simp
    | cons token tokens ih => intro acc; simp [ih]
  exact key tokens []

theorem decode_append (a b : List Int) : t.decode (a ++ b) = t.decode a ++ t.decode b := by
  simp [decode_eq_flatMap]

/-- The id of a known string decodes to it. -/
theorem Lossless.tokenText (h : t.Lossless) {token : Bytes} {id : Int}
    (known : t.vocab.lookup token = some id) : t.tokenText id = token := by
  unfold Tokenizer.tokenText
  rw [(h.inverse token id).1 known]

theorem Lossless.separator (h : t.Lossless) (c : UInt8) : t.tokenText (t.separatorId c) = [c] := by
  obtain ⟨id, known⟩ := h.bytes c
  unfold separatorId
  rw [known]
  exact h.tokenText known

/-- A word of at most 2^32 bytes comes back: each final piece is a byte or a listed merge. -/
theorem Lossless.bpeEncode (h : t.Lossless) {word : Bytes} (short : word.length ≤ 2 ^ 32) :
    t.decode (t.bpeEncode word) = word := by
  unfold Tokenizer.bpeEncode
  split
  · rename_i e
    rw [e]
    rfl
  · have known : ∀ p ∈ t.mergeLoop (word.map fun c => [c]), ∃ id, t.vocab.lookup p = some id := by
      apply t.mergeLoop_forall (fun p => ∃ id, t.vocab.lookup p = some id) h.merged (by simpa using short)
      intro p hp
      obtain ⟨c, _, rfl⟩ := List.mem_map.1 hp
      exact h.bytes c
    have piece : ∀ p ∈ t.mergeLoop (word.map fun c => [c]), t.tokenText (t.pieceId p) = p := by
      intro p hp
      obtain ⟨id, hid⟩ := known p hp
      unfold pieceId
      rw [hid]
      exact h.tokenText hid
    calc t.decode ((t.mergeLoop (word.map fun c => [c])).map t.pieceId)
        = ((t.mergeLoop (word.map fun c => [c])).map fun p => t.tokenText (t.pieceId p)).flatten := by
          simp [decode_eq_flatMap, List.flatMap_def, Function.comp_def]
      _ = (t.mergeLoop (word.map fun c => [c])).flatten := by
          rw [List.map_congr_left piece, List.map_id']
      _ = word := by
          rw [t.mergeLoop_flatten]
          simp [← List.flatMap_def]

/-- What the splitting loop has made of the bytes read so far. -/
structure SplitOf (t : Tokenizer) (read : Bytes) (st : Split) : Prop where
  tokens : st.tokens = (read.filter isSeparator).map t.separatorId
  words : st.words.flatten ++ st.current = read.filter (!isSeparator ·)

theorem Split.flush_flatten (st : Split) : st.flush.flatten = st.words.flatten ++ st.current := by
  unfold flush
  split
  · rename_i e
    simp [e]
  · simp

theorem SplitOf.step {read : Bytes} {st : Split} (h : SplitOf t read st) (c : UInt8) :
    SplitOf t (read ++ [c]) (t.splitByte st c) := by
  unfold splitByte
  by_cases sep : isSeparator c = true
  · rw [if_pos sep]
    exact ⟨by simp [h.tokens, sep], by simp [st.flush_flatten, h.words, sep]⟩
  · rw [if_neg sep]
    exact ⟨by simp [h.tokens, sep], by simp [← h.words, sep]⟩

theorem SplitOf.run (text : Bytes) : SplitOf t text (text.foldl t.splitByte {}) := by
  have key : ∀ (rest read : Bytes) (st : Split), SplitOf t read st →
      SplitOf t (read ++ rest) (rest.foldl t.splitByte st) := by
    intro rest
    induction rest with
    | nil => intro read st h; simpa using h
    | cons c rest ih =>
      intro read st h
      have next := ih (read ++ [c]) (t.splitByte st c) (h.step c)
      simpa using next
  exact key text [] {} ⟨rfl, rfl⟩

/-- The words of a text. -/
def words (t : Tokenizer) (text : Bytes) : List Bytes := (text.foldl t.splitByte {}).flush

theorem words_flatten (t : Tokenizer) (text : Bytes) : (t.words text).flatten = text.filter (!isSeparator ·) := by
  have split : SplitOf t text (text.foldl t.splitByte {}) := SplitOf.run text
  unfold words
  rw [Split.flush_flatten, split.words]

/-- `encode` is defined on the text: the merge loop is on each of its words. -/
def EncodeDefined (t : Tokenizer) (text : Bytes) : Prop := ∀ word ∈ t.words text, t.NoOverflow (single word)

/-- A word is no longer than the text. -/
theorem words_length {text word : Bytes} (mem : word ∈ t.words text) : word.length ≤ text.length := by
  have sub := (List.sublist_flatten_of_mem mem).length_le
  have filtered := text.length_filter_le (!isSeparator ·)
  rw [← t.words_flatten] at filtered
  omega

theorem encodeDefined_of_short (t : Tokenizer) {text : Bytes} (short : text.length ≤ 2 ^ 31) :
    t.EncodeDefined text := by
  intro word mem
  apply t.noOverflow_of_short
  have bound := words_length mem
  rw [single_length]
  omega

/-- `encode` emits the separators of the text and then its words. -/
theorem encode_words (t : Tokenizer) (text : Bytes) : t.encode text =
    (text.filter isSeparator).map t.separatorId ++ (t.words text).flatMap t.bpeEncode := by
  unfold encode
  split
  · rename_i e
    rw [e]
    rfl
  · have h : SplitOf t text (text.foldl t.splitByte {}) := SplitOf.run text
    dsimp only
    rw [h.tokens, words]
    generalize (text.filter isSeparator).map t.separatorId = acc
    generalize (text.foldl t.splitByte {}).flush = words
    induction words generalizing acc with
    | nil => simp
    | cons word words ih => simp [ih]

theorem encode_eq (text : Bytes) :
    ∃ words : List Bytes, words.flatten = text.filter (!isSeparator ·) ∧
      t.encode text = (text.filter isSeparator).map t.separatorId ++ words.flatMap t.bpeEncode := by
  exact ⟨t.words text, t.words_flatten text, t.encode_words text⟩

/-- The separators come back first, whatever the length of the words. -/
theorem Lossless.decode_encode_prefix (h : t.Lossless) (text : Bytes) :
    ∃ rest, t.decode (t.encode text) = text.filter isSeparator ++ rest := by
  obtain ⟨words, _, e⟩ := t.encode_eq text
  refine ⟨t.decode (words.flatMap t.bpeEncode), ?_⟩
  rw [e, decode_append]
  congr 1
  induction text.filter isSeparator with
  | nil => rfl
  | cons c cs ih =>
    rw [List.map_cons, ← List.singleton_append, decode_append, ih]
    simp [decode_eq_flatMap, h.separator c]

/-- **What comes back**: the separators, then the other bytes. -/
theorem Lossless.decode_encode (h : t.Lossless) {text : Bytes} (short : text.length ≤ 2 ^ 32) :
    t.decode (t.encode text) = text.filter isSeparator ++ text.filter (!isSeparator ·) := by
  obtain ⟨words, hw, e⟩ := t.encode_eq text
  have word : ∀ w ∈ words, t.decode (t.bpeEncode w) = w := by
    intro w hw'
    apply h.bpeEncode
    have sub := (List.sublist_flatten_of_mem hw').length_le
    have filtered := text.length_filter_le (!isSeparator ·)
    rw [← hw] at filtered
    omega
  have seps : t.decode ((text.filter isSeparator).map t.separatorId) = text.filter isSeparator := by
    rw [decode_eq_flatMap, List.flatMap_map]
    simp [h.separator]
  have rest : t.decode (words.flatMap t.bpeEncode) = words.flatten := by
    rw [decode_eq_flatMap, List.flatMap_assoc]
    simp only [← decode_eq_flatMap]
    rw [List.flatMap_congr word, List.flatMap_id']
  rw [e, decode_append, seps, rest, hw]

/-- Moving the separators to the front changes nothing exactly when they are there already. -/
theorem separatorsFirst_iff (text : Bytes) :
    text.filter isSeparator ++ text.filter (!isSeparator ·) = text ↔ SeparatorsFirst text := by
  constructor
  · intro e
    unfold SeparatorsFirst
    rw [← e, List.pairwise_append]
    refine ⟨?_, ?_, ?_⟩
    · refine List.pairwise_of_forall_mem_list ?_
      intro a ha b _ _
      exact (List.mem_filter.1 ha).2
    · refine List.pairwise_of_forall_mem_list ?_
      intro a _ b hb sep
      simp [sep] at hb
    · intro a ha b _ _
      exact (List.mem_filter.1 ha).2
  · intro h
    induction text with
    | nil => rfl
    | cons c text ih =>
      obtain ⟨head, tail⟩ := List.pairwise_cons.1 h
      by_cases sep : isSeparator c = true
      · simpa [sep] using ih tail
      · have none : ∀ b ∈ text, isSeparator b = false := by
          intro b hb
          simpa [sep] using head b hb
        have noSeps : text.filter isSeparator = [] := by simpa using none
        have all : text.filter (!isSeparator ·) = text := by simpa using none
        simp [sep, noSeps, all]

/-- The text is encoded, and comes back. -/
structure ComesBack (t : Tokenizer) (text : Bytes) : Prop where
  defined : t.EncodeDefined text
  same : t.decode (t.encode text) = text

/-- **Round trip.** On a lossless tokenizer a text comes back exactly when its separators stand
first. Only the direction from right to left needs the bound, which keeps `pos + 1` from overflowing. -/
theorem decode_encode_iff (h : t.Lossless) (text : Bytes) :
    (t.ComesBack text → SeparatorsFirst text) ∧
      (text.length ≤ 2 ^ 31 → (t.ComesBack text ↔ SeparatorsFirst text)) := by
  have first : t.ComesBack text → SeparatorsFirst text := by
    rintro ⟨_, e⟩
    obtain ⟨rest, hr⟩ := h.decode_encode_prefix text
    have split : text = text.filter isSeparator ++ rest := e.symm.trans hr
    have noSeps : rest.filter isSeparator = [] := by
      have := congrArg (List.filter isSeparator) split
      rw [List.filter_append, List.filter_filter] at this
      simpa using this
    have others : text.filter (!isSeparator ·) = rest := by
      rw [split, List.filter_append, List.filter_filter]
      simpa using noSeps
    rw [← separatorsFirst_iff, others]
    exact split.symm
  refine ⟨first, fun short => ⟨first, fun front => ⟨t.encodeDefined_of_short short, ?_⟩⟩⟩
  rw [h.decode_encode (by omega)]
  exact (separatorsFirst_iff text).2 front

theorem byte_inj {n m : Nat} (hn : n < 256) (hm : m < 256) (e : UInt8.ofNat n = UInt8.ofNat m) : n = m := by
  have := congrArg UInt8.toNat e
  simp only [UInt8.toNat_ofNat'] at this
  omega

/-- The byte-level tokenizer: each byte a token, with its code as id, and no merges. -/
def byteLevel : Tokenizer where
  vocab := ⟨((List.range 256).map fun n : Nat => ⟨[UInt8.ofNat n], n⟩ : List (Sigma fun _ : Bytes => Int)), by
    rw [Multiset.coe_nodupKeys, List.NodupKeys, List.keys, List.map_map]
    refine List.Nodup.map_on ?_ List.nodup_range
    intro n hn m hm e
    exact byte_inj (List.mem_range.1 hn) (List.mem_range.1 hm) (List.cons.inj e).1⟩
  reverseVocab := ⟨((List.range 256).map fun n : Nat => ⟨n, [UInt8.ofNat n]⟩ : List (Sigma fun _ : Int => Bytes)), by
    rw [Multiset.coe_nodupKeys, List.NodupKeys, List.keys, List.map_map]
    refine List.Nodup.map_on ?_ List.nodup_range
    intro n _ m _ e
    simpa using e⟩
  vocabSize := 256

theorem byteLevel_lossless : byteLevel.Lossless where
  inverse token id := by
    rw [byteLevel, Finmap.lookup_eq_some_iff, Finmap.lookup_eq_some_iff]
    simp only [Multiset.mem_coe, List.mem_map, Sigma.mk.injEq, heq_eq_eq]
    constructor
    · rintro ⟨n, hn, rfl, rfl⟩
      exact ⟨n, hn, rfl, rfl⟩
    · rintro ⟨n, hn, rfl, rfl⟩
      exact ⟨n, hn, rfl, rfl⟩
  bytes c := by
    refine ⟨c.toNat, ?_⟩
    rw [byteLevel, Finmap.lookup_eq_some_iff]
    simp only [Multiset.mem_coe, List.mem_map, Sigma.mk.injEq, heq_eq_eq]
    exact ⟨c.toNat, List.mem_range.2 c.toNat_lt, by simp, rfl⟩
  merged l r h := by simp [byteLevel] at h

/-- The round trip at a text whose separators stand first. -/
theorem decode_encode_iff_byteLevel : byteLevel.ComesBack (str " ab") ↔ SeparatorsFirst (str " ab") :=
  (decode_encode_iff byteLevel_lossless (str " ab")).2 (by decide)

/-- `a b` comes back as ` ab`. -/
theorem decode_encode_space :
    ¬ ∀ t : Tokenizer, t.Lossless → ∀ text, t.decode (t.encode text) = text := by
  intro all
  have e := all byteLevel byteLevel_lossless (str "a b")
  revert e
  decide

end Tokenizer
end ModelRuntime
