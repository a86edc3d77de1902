import ModelRuntime.Tokenizer.NormalForm
import ModelRuntime.Tokenizer.RoundTrip

/-!
# What is not in the vocabulary

Two fallbacks of `encode`. A final piece the vocabulary does not have is given the id of its longest
known prefix, and the rest of the piece is dropped: a word comes back exactly when that is done for none of
its pieces. A separator the vocabulary does not have is given its byte plus 256, an id `decode` looks up
in the vocabulary first: the separators come back exactly when no such id is a token's.
-/

namespace ModelRuntime.Tokenizer
open Cpp Lib

/-- The two maps are inverse. -/
def MutuallyInverse (t : Tokenizer) : Prop :=
  ∀ token id, t.vocab.lookup token = some id ↔ t.reverseVocab.lookup id = some token

/-- A key of `vocab_`. -/
def Known (t : Tokenizer) (token : Bytes) : Prop := ∃ id, t.vocab.lookup token = some id

variable {t : Tokenizer}

/-- The id of a known string decodes to it. -/
theorem MutuallyInverse.tokenText (h : t.MutuallyInverse) {token : Bytes} {id : Int}
    (known : t.vocab.lookup token = some id) : t.tokenText id = token := by
  unfold Tokenizer.tokenText
  rw [(h token id).1 known]

/-- The fallback finds the longest known prefix, where there is one. -/
theorem longestPrefix_known {ch : Bytes} {n : Nat} (first : t.Known (ch.take 1)) (positive : 0 < n) :
    ∃ len ≤ n, t.vocab.lookup (ch.take len) = some (t.longestPrefix ch n) := by
  induction n with
  | zero => omega
  | succ n ih =>
    rw [longestPrefix]
    cases known : t.vocab.lookup (ch.take (n + 1)) with
    | some id => exact ⟨n + 1, Nat.le_refl _, known⟩
    | none =>
      cases n with
      | zero =>
        obtain ⟨id, known'⟩ := first
        rw [known] at known'
        cases known'
      | succ n =>
        obtain ⟨len, bound, found⟩ := ih (Nat.succ_pos n)
        exact ⟨len, by omega, found⟩

/-- The text that a piece comes back as: itself where it is known, else less. -/
theorem pieceId_text (inverse : t.MutuallyInverse) (bytes : ∀ c, t.Known [c]) {ch : Bytes} (some : ch ≠ []) :
    (t.Known ch → t.tokenText (t.pieceId ch) = ch) ∧
      (¬ t.Known ch → (t.tokenText (t.pieceId ch)).length < ch.length) := by
  constructor
  · rintro ⟨id, known⟩
    unfold pieceId
    rw [known]
    exact inverse.tokenText known
  · intro unknown
    obtain ⟨c, rest, rfl⟩ := List.exists_cons_of_ne_nil some
    have absent : t.vocab.lookup (c :: rest) = none := by
      cases known : t.vocab.lookup (c :: rest) with
      | none => rfl
      | some id => exact absurd ⟨id, known⟩ unknown
    have first : t.Known ((c :: rest).take 1) := bytes c
    obtain ⟨len, bound, found⟩ := longestPrefix_known first (Nat.succ_pos rest.length)
    have text : t.tokenText (t.pieceId (c :: rest)) = (c :: rest).take len := by
      unfold pieceId
      rw [absent]
      exact inverse.tokenText found
    have shorter : len ≠ (c :: rest).length := by
      rintro rfl
      rw [List.take_length, absent] at found
      cases found
    have size : (c :: rest).length = rest.length + 1 := List.length_cons
    rw [text, List.length_take]
    omega

theorem pieces_text (inverse : t.MutuallyInverse) (bytes : ∀ c, t.Known [c]) {pieces : List Bytes}
    (nonempty : ∀ p ∈ pieces, p ≠ []) :
    let text := t.decode (pieces.map t.pieceId)
    text.length ≤ pieces.flatten.length ∧ (text = pieces.flatten ↔ ∀ p ∈ pieces, t.Known p) := by
  induction pieces with
  | nil => exact ⟨Nat.le_refl 0, by simp [decode]⟩
  | cons p pieces ih =>
    obtain ⟨bound, same⟩ := ih fun q mem => nonempty q (List.mem_cons_of_mem _ mem)
    obtain ⟨whole, less⟩ := pieceId_text inverse bytes (nonempty p List.mem_cons_self)
    have split : t.decode ((p :: pieces).map t.pieceId) =
        t.tokenText (t.pieceId p) ++ t.decode (pieces.map t.pieceId) := by
      rw [List.map_cons, decode_eq_flatMap, List.flatMap_cons, ← decode_eq_flatMap]
    dsimp only at bound same ⊢
    rw [split, List.flatten_cons, List.length_append, List.length_append]
    by_cases known : t.Known p
    · rw [whole known, List.append_cancel_left_eq, same, List.forall_mem_cons]
      exact ⟨by omega, (and_iff_right known).symm⟩
    · have short := less known
      refine ⟨by omega, fun equal => ?_, fun all => absurd (all p List.mem_cons_self) known⟩
      have lengths := congrArg List.length equal
      rw [List.length_append, List.length_append] at lengths
      omega

/-- The word is encoded, and comes back. -/
structure WordComesBack (t : Tokenizer) (word : Bytes) : Prop where
  defined : t.NoOverflow (single word)
  same : t.decode (t.bpeEncode word) = word

/-- **A word comes back** exactly when its merge loop overflows no `pos + 1`, as it does in no word of at most 2^31
bytes, and the fallback is taken for none of its pieces. -/
theorem decode_bpeEncode_iff (inverse : t.MutuallyInverse) (bytes : ∀ c, t.Known [c]) (word : Bytes) :
    (t.WordComesBack word ↔ t.NoOverflow (single word) ∧ ∀ p ∈ t.pieces word, t.Known p) ∧
      (word.length ≤ 2 ^ 31 → t.NoOverflow (single word)) := by
  obtain ⟨n, passes⟩ := t.pieces_passes word
  have text := (pieces_text inverse bytes (pieces_nonempty passes)).2
  rw [t.pieces_flatten, ← t.bpeEncode_pieces] at text
  refine ⟨⟨fun back => ⟨back.defined, text.1 back.same⟩, fun all => ⟨all.1, text.2 all.2⟩⟩, fun short => ?_⟩
  apply t.noOverflow_of_short
  rwa [single_length]

theorem byteLevel_inverse : byteLevel.MutuallyInverse := byteLevel_lossless.inverse

theorem decode_bpeEncode_iff_byteLevel : byteLevel.WordComesBack (str "ab") ↔
    byteLevel.NoOverflow (single (str "ab")) ∧ ∀ p ∈ byteLevel.pieces (str "ab"), byteLevel.Known p :=
  (decode_bpeEncode_iff byteLevel_inverse byteLevel_lossless.bytes (str "ab")).1

/-- With a merge that is no token `ab` comes back as `a`. -/
theorem decode_bpeEncode_loses : ¬ ∀ t : Tokenizer, t.MutuallyInverse → (∀ c, t.Known [c]) → ∀ word,
    t.decode (t.bpeEncode word) = word := by
  intro all
  have back := all { byteLevel with merges := abMerges } byteLevel_inverse byteLevel_lossless.bytes (str "ab")
  revert back
  decide +kernel

/-- The id of a separator that is no token is free. -/
def SeparatorIdsFree (t : Tokenizer) (alphabet : UInt8 → Prop) : Prop :=
  ∀ c, alphabet c → ¬ t.Known [c] → t.reverseVocab.lookup ((c.toNat : Int) + 256) = none

/-- What a separator comes back as. -/
theorem separator_text (inverse : t.MutuallyInverse) (c : UInt8) :
    t.tokenText (t.separatorId c) = [c] ↔ (¬ t.Known [c] → t.reverseVocab.lookup ((c.toNat : Int) + 256) = none) := by
  unfold separatorId
  cases known : t.vocab.lookup [c] with
  | some id =>
    refine iff_of_true (inverse.tokenText known) fun unknown => ?_
    exact absurd ⟨id, known⟩ unknown
  | none =>
    have unknown : ¬ t.Known [c] := by
      rintro ⟨id, known'⟩
      rw [known] at known'
      cases known'
    unfold Tokenizer.tokenText
    dsimp only
    cases taken : t.reverseVocab.lookup ((c.toNat : Int) + 256) with
    | some text =>
      refine iff_of_false ?_ fun free => by cases free unknown
      rintro rfl
      rw [(inverse _ _).2 taken] at known
      cases known
    | none =>
      have byte := c.toNat_lt
      refine iff_of_true ?_ fun _ => rfl
      dsimp only
      rw [if_pos (by omega), Int.add_sub_cancel, Int.toNat_natCast, UInt8.ofNat_toNat]

/-- **Separators come back**, in every text over an alphabet, exactly when the ids of those that are no
tokens are free. -/
theorem decode_separators_iff (inverse : t.MutuallyInverse) (alphabet : UInt8 → Prop)
    (separators : ∀ c, alphabet c → isSeparator c = true) :
    (∀ text : Bytes, (∀ c ∈ text, alphabet c) → t.decode (t.encode text) = text) ↔
      SeparatorIdsFree t alphabet := by
  have encoded : ∀ text : Bytes, (∀ c ∈ text, alphabet c) →
      t.decode (t.encode text) = text.flatMap fun c => t.tokenText (t.separatorId c) := by
    intro text within
    obtain ⟨words, flat, whole⟩ := t.encode_eq text
    have all : text.filter isSeparator = text := by
      rw [List.filter_eq_self]
      exact fun c mem => separators c (within c mem)
    have none : text.filter (!isSeparator ·) = [] := by
      rw [List.filter_eq_nil_iff]
      intro c mem
      simp [separators c (within c mem)]
    have empty : words.flatMap t.bpeEncode = [] := by
      rw [List.flatMap_eq_nil_iff]
      intro word mem
      rw [none, List.flatten_eq_nil_iff] at flat
      rw [flat word mem]
      rfl
    rw [whole, empty, List.append_nil, all, decode_eq_flatMap, List.flatMap_map]
  constructor
  · intro back c mem
    have alone := back [c] (by simpa using mem)
    rw [encoded [c] (by simpa using mem), List.flatMap_singleton] at alone
    exact (separator_text inverse c).1 alone
  · intro free text within
    rw [encoded text within]
    have each : ∀ c ∈ text, t.tokenText (t.separatorId c) = [c] :=
      fun c mem => (separator_text inverse c).2 (free c (within c mem))
    rw [List.flatMap_congr each, List.flatMap_singleton']

theorem decode_separators_iff_byteLevel :
    (∀ text : Bytes, (∀ c ∈ text, isSeparator c = true) → byteLevel.decode (byteLevel.encode text) = text) ↔
      SeparatorIdsFree byteLevel (isSeparator · = true) :=
  decode_separators_iff byteLevel_inverse (isSeparator · = true) fun _ separator => separator

/-- A vocabulary of one word, whose id is the byte id of `!`. -/
def clashing : Tokenizer where
  vocab := Finmap.singleton (str "hi") 289
  reverseVocab := Finmap.singleton 289 (str "hi")

theorem singleton_lookup {α β : Type} [DecidableEq α] {a a' : α} {b b' : β} :
    (Finmap.singleton a b : Finmap fun _ : α => β).lookup a' = some b' ↔ a' = a ∧ b' = b := by
  rw [Finmap.lookup_eq_some_iff]
  simp [Finmap.singleton]

theorem clashing_inverse : clashing.MutuallyInverse := by
  intro token id
  unfold clashing
  rw [singleton_lookup, singleton_lookup, and_comm]

theorem clashing_nonneg {token : Bytes} {id : Int} (known : clashing.vocab.lookup token = some id) : 0 ≤ id := by
  unfold clashing at known
  rw [singleton_lookup] at known
  omega

/-- `!` comes back as `hi`. -/
theorem decode_separators_clash : ¬ ∀ t : Tokenizer, t.MutuallyInverse →
    (∀ token id, t.vocab.lookup token = some id → 0 ≤ id) →
    ∀ text : Bytes, (∀ c ∈ text, isSeparator c = true) → t.decode (t.encode text) = text := by
  intro all
  have back := all clashing clashing_inverse (fun _ _ => clashing_nonneg) (str "!") (by decide)
  revert back
  decide

end ModelRuntime.Tokenizer
