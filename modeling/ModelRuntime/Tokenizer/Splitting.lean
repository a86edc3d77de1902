import ModelRuntime.Tokenizer.Coarsening

/-!
# Texts around a separator

At a separator the pending word is pushed and a new one begun, so that what is split behind it does not
depend on what stands before it (`splitByte_shift`). The tokens of the whole are therefore those of the parts, in
another order; their number, an `int`, is the sum of the numbers only where it does not wrap.
-/

namespace ModelRuntime
open Cpp Lib

namespace Tokenizer

/-- The split with tokens and words in front. -/
def Split.shift (tokens : List Int) (words : List Bytes) (st : Split) : Split where
  tokens := tokens ++ st.tokens
  words := words ++ st.words
  current := st.current

section Shift

variable {t : Tokenizer} {tokens : List Int} {words : List Bytes} {st : Split}

theorem Split.shift_flush : (st.shift tokens words).flush = words ++ st.flush := by
  unfold Split.flush Split.shift
  dsimp only
  split
  · rfl
  · rw [List.append_assoc]

/-- A byte is split in the same way, whatever stands in front. -/
theorem splitByte_shift (c : UInt8) :
    t.splitByte (st.shift tokens words) c = (t.splitByte st c).shift tokens words := by
  unfold splitByte
  by_cases sep : isSeparator c = true
  · rw [if_pos sep, if_pos sep, Split.shift_flush]
    unfold Split.shift
    rw [List.append_assoc]
  · rw [if_neg sep, if_neg sep]
    rfl

theorem foldl_shift (text : Bytes) :
    text.foldl t.splitByte (st.shift tokens words) = (text.foldl t.splitByte st).shift tokens words := by
  induction text generalizing st with
  | nil => rfl
  | cons c text ih => rw [List.foldl_cons, List.foldl_cons, splitByte_shift, ih]

/-- Behind a separator the splitting begins anew. -/
theorem words_separator {s : UInt8} (sep : isSeparator s = true) (u v : Bytes) :
    t.words (u ++ s :: v) = t.words u ++ t.words v := by
  have anew : t.splitByte (u.foldl t.splitByte {}) s =
      ({} : Split).shift ((u.foldl t.splitByte {}).tokens ++ [t.separatorId s]) (t.words u) := by
    unfold words
    generalize u.foldl t.splitByte {} = st
    unfold splitByte Split.shift
    rw [if_pos sep, List.append_nil, List.append_nil]
  unfold words
  rw [List.foldl_append, List.foldl_cons, anew, foldl_shift, Split.shift_flush]
  rfl

end Shift

/-- Encoding is defined and splits at the separator `s`: the tokens of the whole are those of the three parts in
some order, as many as are counted for the parts, and a word, which is all that is ever merged, is of one side. -/
structure SplitsAt (t : Tokenizer) (u v : Bytes) (s : UInt8) : Prop where
  defined : t.EncodeDefined (u ++ s :: v) ∧ t.EncodeDefined u ∧ t.EncodeDefined [s] ∧ t.EncodeDefined v
  perm : (t.encode (u ++ s :: v)).Perm (t.encode u ++ t.encode [s] ++ t.encode v)
  empty : t.encode [] = []
  words : t.words (u ++ s :: v) = t.words u ++ t.words v
  sides : (t.words u).flatten = u.filter (!isSeparator ·) ∧ (t.words v).flatten = v.filter (!isSeparator ·)
  merged : ∀ word ∈ t.words (u ++ s :: v), ∀ n chars, Passes t.mergePass n (single word) chars →
    chars.flatten = word
  count : t.countTokens (u ++ s :: v) = t.countTokens u + 1 + t.countTokens v

section Separator

variable {t : Tokenizer} {s : UInt8}

theorem encode_separator (sep : isSeparator s = true) : t.encode [s] = [t.separatorId s] := by
  have only : [s].filter isSeparator = [s] := by simp [sep]
  have none : t.words [s] = [] := words_separator sep [] []
  rw [t.encode_words, only, none]
  rfl

theorem encode_perm (sep : isSeparator s = true) (u v : Bytes) :
    (t.encode (u ++ s :: v)).Perm (t.encode u ++ t.encode [s] ++ t.encode v) := by
  have front : (u ++ s :: v).filter isSeparator = u.filter isSeparator ++ s :: v.filter isSeparator := by
    rw [List.filter_append, List.filter_cons_of_pos sep]
  rw [encode_separator sep, t.encode_words, t.encode_words u, t.encode_words v, front, words_separator sep,
    List.flatMap_append, List.map_append, List.map_cons, List.perm_iff_count]
  intro id
  simp only [List.count_append, List.count_cons, List.count_nil]
  omega

theorem encode_length_separator (sep : isSeparator s = true) (u v : Bytes) :
    (t.encode (u ++ s :: v)).length = (t.encode u).length + 1 + (t.encode v).length := by
  have length := (encode_perm (t := t) sep u v).length_eq
  rw [encode_separator sep, List.length_append, List.length_append, List.length_singleton] at length
  exact length

theorem encode_length_replicate (sep : isSeparator s = true) (n : Nat) :
    (t.encode (List.replicate n s)).length = n := by
  induction n with
  | zero => rfl
  | succ n ih =>
    have first : (t.encode (List.replicate (n + 1) s)).length =
        (t.encode []).length + 1 + (t.encode (List.replicate n s)).length := encode_length_separator sep [] _
    rw [first, ih]
    exact Nat.add_comm 1 n

end Separator

/-- The numbers of tokens add up as `int`s. -/
def IntSum (n m : Nat) : Prop := -2 ^ 31 ≤ toInt n + 1 + toInt m ∧ toInt n + 1 + toInt m < 2 ^ 31

theorem toInt_sum (n m : Nat) : toInt (n + 1 + m : Nat) = toInt n + 1 + toInt m ↔ IntSum n m := by
  unfold IntSum toInt
  rw [Int.bmod_def, Int.bmod_def, Int.bmod_def]
  omega

/-- 2^31 separators are too many to count. -/
theorem separators_wrap {t : Tokenizer} {s : UInt8} (sep : isSeparator s = true) {n : Nat} (many : n + 1 = 2 ^ 31) :
    ¬ IntSum (t.encode (List.replicate n s)).length (t.encode []).length := by
  rw [encode_length_replicate sep]
  intro sum
  have none : toInt ((t.encode []).length : Nat) = 0 := toInt_of_lt (Nat.two_pow_pos 31)
  have high := sum.2
  rw [none, toInt_of_lt (by omega)] at high
  omega

/-- The whole is encoded where the sides are. -/
theorem encodeDefined_separator {t : Tokenizer} {s : UInt8} (sep : isSeparator s = true) (u v : Bytes) :
    t.EncodeDefined (u ++ s :: v) ↔ t.EncodeDefined u ∧ t.EncodeDefined v := by
  unfold EncodeDefined
  rw [words_separator sep, List.forall_mem_append]

/-- **Encoding splits at separators**, exactly where it overflows no `pos + 1` on either side and the numbers of
tokens add up as `int`s; for all texts of at most `N` bytes it does exactly for `N` below 2^31. -/
theorem splitsAt_iff (t : Tokenizer) (u v : Bytes) (N : Nat) {s : UInt8} (sep : isSeparator s = true) :
    (SplitsAt t u v s ↔ t.EncodeDefined u ∧ t.EncodeDefined v ∧ IntSum (t.encode u).length (t.encode v).length) ∧
      ((∀ t u v, (u ++ s :: v).length ≤ N → SplitsAt t u v s) ↔ N < 2 ^ 31) := by
  have iff : ∀ t u v, SplitsAt t u v s ↔
      EncodeDefined t u ∧ EncodeDefined t v ∧ IntSum (encode t u).length (encode t v).length := by
    intro t u v
    rw [← toInt_sum, ← encode_length_separator sep]
    constructor
    · exact fun splits => ⟨splits.defined.2.1, splits.defined.2.2.2, splits.count⟩
    · rintro ⟨front, back, count⟩
      have alone : t.EncodeDefined [s] := by
        have none : t.words [s] = [] := words_separator sep [] []
        intro word mem
        rw [none] at mem
        cases mem
      refine ⟨⟨(encodeDefined_separator sep u v).2 ⟨front, back⟩, front, alone, back⟩, encode_perm sep u v, rfl,
        words_separator sep u v, ⟨t.words_flatten u, t.words_flatten v⟩, ?_, count⟩
      intro word _ n chars passes
      exact passes.inv (fun chars : List Bytes => chars.flatten = word)
        (fun _ _ same pass => (t.mergePass_join pass).flatten.trans same) (single_flatten word)
  refine ⟨iff t u v, fun all => ?_, fun bound t u v short => ?_⟩
  · by_contra large
    refine separators_wrap sep (n := 2 ^ 31 - 1) (by omega) ((iff _ _ _).1 (all {} _ [] ?_)).2.2
    rw [List.length_append, List.length_replicate, List.length_singleton]
    omega
  · have front := encode_length_le t u
    have back := encode_length_le t v
    rw [List.length_append, List.length_cons] at short
    rw [iff]
    refine ⟨t.encodeDefined_of_short (by omega), t.encodeDefined_of_short (by omega), ?_⟩
    unfold IntSum
    rw [toInt_of_lt (by omega), toInt_of_lt (by omega)]
    omega

theorem splitsAt_iff_blank : SplitsAt {} (str "a") (str "b") 32 ↔
    ({} : Tokenizer).EncodeDefined (str "a") ∧ ({} : Tokenizer).EncodeDefined (str "b") ∧
      IntSum (({} : Tokenizer).encode (str "a")).length (({} : Tokenizer).encode (str "b")).length :=
  (splitsAt_iff {} (str "a") (str "b") 0 (show isSeparator 32 = true by decide)).1

/-- The blank behind 2^31 - 1 others is not counted. -/
theorem not_splitsAt : ¬ ∀ (t : Tokenizer) (u v : Bytes) (s : UInt8), isSeparator s = true →
    t.countTokens (u ++ s :: v) = t.countTokens u + 1 + t.countTokens v := by
  intro all
  have blank : isSeparator 32 = true := by decide
  have count := all {} (List.replicate (2 ^ 31 - 1) 32) [] 32 blank
  unfold countTokens at count
  rw [encode_length_separator blank, toInt_sum] at count
  exact separators_wrap blank (n := 2 ^ 31 - 1) (by omega) count

end Tokenizer
end ModelRuntime
