import ModelRuntime.Lib.Json

/-!
# What a string literal denotes

`stringBody_cases` says what the next unit of a literal can be. From it come the two facts about
quote bytes that readers ignorant of escapes run into: the first quote byte of a literal either ends
it, and then nothing was escaped or the literal is longer than the string, or it is escaped, and then
the string holds a quote before that place.
-/

namespace ModelRuntime.Lib.Json
open Cpp

/-- Bytes that stand for themselves in a literal. -/
def Verbatim (s : Bytes) : Prop := ∀ c ∈ s, c ≠ quote ∧ c ≠ backslash ∧ 32 ≤ c

instance (s : Bytes) : Decidable (Verbatim s) := inferInstanceAs (Decidable (∀ c ∈ s, _))

theorem stringFrom_eq (n : Nat) (r : Bytes) : stringFrom n r = stringBody (r.drop n) := by
  induction r generalizing n with
  | nil => cases n <;> rfl
  | cons c r ih =>
    cases n with
    | zero => rfl
    | succ n => exact ih n

theorem stringBody_quote (r : Bytes) : stringBody (quote :: r) = some ([], r) := by
  rw [stringBody, stringFrom, if_pos rfl]

theorem stringBody_byte {c : UInt8} (hq : c ≠ quote) (hb : c ≠ backslash) (control : 32 ≤ c)
    (r : Bytes) : stringBody (c :: r) = (stringBody r).map fun (s, t) => (c :: s, t) := by
  rw [stringBody, stringFrom, if_neg hq, if_neg hb, if_neg (UInt8.not_lt.2 control), stringBody]

theorem stringBody_escape {r d : Bytes} {n : Nat} (e : escape r = some (d, n)) :
    stringBody (backslash :: r) = (stringBody (r.drop n)).map fun (s, t) => (d ++ s, t) := by
  rw [stringBody, stringFrom, if_neg (by decide), if_pos rfl, e]
  dsimp only
  rw [stringFrom_eq]

/-- A verbatim string is read back, whatever follows its closing quote. -/
theorem stringBody_verbatim {s : Bytes} (h : Verbatim s) (r : Bytes) :
    stringBody (s ++ quote :: r) = some (s, r) := by
  induction s with
  | nil => exact stringBody_quote r
  | cons c s ih =>
    obtain ⟨hq, hb, control⟩ := h c (by simp)
    rw [List.cons_append, stringBody_byte hq hb control, ih fun x hx => h x (by simp [hx])]
    rfl

theorem encode_length (n : Nat) : (encode n).length ≤ 4 := by
  rw [encode, String.length_utf8EncodeChar]
  exact Char.utf8Size_le_four _

/-- A quote is not a hexadecimal digit. -/
theorem hex4_no_quote {a b c d : UInt8} {n : Nat} (e : hex4 a b c d = some n) :
    quote ∉ [a, b, c, d] := by
  have quoteDigit : hexDigit quote = none := by decide
  have digit : ∀ x m, hexDigit x = some m → quote ≠ x := by
    rintro x m hx rfl
    rw [quoteDigit] at hx
    cases hx
  simp only [hex4, Option.bind_eq_bind, Option.bind_eq_some_iff] at e
  obtain ⟨na, ha, nb, hb, nc, hc, nd, hd, _⟩ := e
  simp only [List.mem_cons, List.not_mem_nil, or_false, not_or]
  exact ⟨digit a na ha, digit b nb hb, digit c nc hc, digit d nd hd⟩

/-- A text that may stand after a backslash, and what it denotes. -/
inductive Escaped : Bytes → Bytes → Prop where
  | letter {e b : UInt8} : unescape e = some b → Escaped [e] [b]
  | unit {a b c d : UInt8} {n : Nat} : hex4 a b c d = some n → n < 0xD800 ∨ 0xE000 ≤ n →
      Escaped [117, a, b, c, d] (encode n)
  | pair {a b c d a' b' c' d' : UInt8} {n m : Nat} : hex4 a b c d = some n →
      hex4 a' b' c' d' = some m → ¬ (n < 0xD800 ∨ 0xE000 ≤ n) →
      n < 0xDC00 ∧ 0xDC00 ≤ m ∧ m < 0xE000 →
      Escaped [117, a, b, c, d, 92, 117, a', b', c', d']
        (encode (0x10000 + (n - 0xD800) * 1024 + (m - 0xDC00)))

theorem escape_iff {r d : Bytes} {n : Nat} :
    escape r = some (d, n) ↔ ∃ u t, r = u ++ t ∧ n = u.length ∧ Escaped u d := by
  constructor
  · intro e
    rw [escape.eq_def] at e
    split at e
    · cases e
    · rename_i a b c d' t
      simp only [Option.bind_eq_bind, Option.bind_eq_some_iff] at e
      obtain ⟨m, hm, e⟩ := e
      split at e
      · rename_i plain
        cases e
        exact ⟨[117, a, b, c, d'], t, rfl, rfl, .unit hm plain⟩
      · rename_i surrogate
        split at e
        · rename_i a2 b2 c2 d2 t2
          simp only [Option.bind_eq_some_iff] at e
          obtain ⟨m2, hm2, e⟩ := e
          split at e
          · rename_i both
            obtain ⟨rfl, rfl⟩ := Prod.mk.inj (Option.some.inj e)
            exact ⟨[117, a, b, c, d', 92, 117, a2, b2, c2, d2], t2, rfl, rfl,
              .pair hm hm2 surrogate both⟩
          · cases e
        · cases e
    · rename_i x t _
      obtain ⟨y, hy, e⟩ := Option.map_eq_some_iff.1 e
      cases e
      exact ⟨[x], t, rfl, rfl, .letter hy⟩
  · rintro ⟨u, t, rfl, rfl, h⟩
    cases h with
    | letter hb =>
      rename_i e b
      have other : e ≠ 117 := by
        rintro rfl
        cases hb
      rw [List.singleton_append, escape.eq_def]
      split
      · cases ‹_ = []›
      · rename_i same
        exact absurd (List.cons.inj same).1 other
      · rename_i same
        obtain ⟨rfl, rfl⟩ := List.cons.inj same
        rw [hb]
        rfl
    | unit hn plain =>
      simp only [List.cons_append, List.nil_append, escape, hn, Option.bind_eq_bind,
        Option.bind_some, if_pos plain]
      rfl
    | pair hn hm surrogate both =>
      simp only [List.cons_append, List.nil_append, escape, hn, hm, Option.bind_eq_bind,
        Option.bind_some, if_neg surrogate, if_pos both]
      rfl

/-- An escape is the quote's, or has no quote byte and is as long as what it denotes at least. -/
theorem Escaped.shape {u d : Bytes} (h : Escaped u d) :
    u = [quote] ∧ d = [quote] ∨ quote ∉ u ∧ d.length ≤ u.length := by
  have letter : quote ≠ 117 := by decide
  cases h with
  | letter hb =>
    rename_i e b
    by_cases he : e = quote
    · subst he
      cases hb
      exact .inl ⟨rfl, rfl⟩
    · exact .inr ⟨by simpa using Ne.symm he, Nat.le_refl 1⟩
  | unit hn _ =>
    refine .inr ⟨List.not_mem_cons_of_ne_of_not_mem letter (hex4_no_quote hn), ?_⟩
    apply (encode_length _).trans
    simp only [List.length_cons, List.length_nil]
    omega
  | pair hn hm _ _ =>
    have digits := hex4_no_quote hn
    have digits' := hex4_no_quote hm
    have slash : quote ≠ 92 := by decide
    refine .inr ⟨?_, ?_⟩
    · simp only [List.mem_cons, List.not_mem_nil, or_false, not_or] at digits digits' ⊢
      exact ⟨letter, digits.1, digits.2.1, digits.2.2.1, digits.2.2.2, slash, letter, digits'⟩
    · apply (encode_length _).trans
      simp only [List.length_cons, List.length_nil]
      omega

/-! ## A literal and what follows it -/

/-- A literal ends with a quote. -/
theorem stringFrom_closes {n : Nat} {r s t : Bytes} (e : stringFrom n r = some (s, t)) :
    ∃ b, r = b ++ quote :: t ∧ n ≤ b.length := by
  induction r generalizing n s with
  | nil => cases n <;> cases e
  | cons c r ih =>
    cases n with
    | succ n =>
      obtain ⟨b, rfl, le⟩ := ih e
      exact ⟨c :: b, rfl, Nat.succ_le_succ le⟩
    | zero =>
      rw [stringFrom] at e
      split at e
      · cases e
        subst c
        exact ⟨[], rfl, Nat.le_refl 0⟩
      · split at e
        · split at e
          · cases e
          · obtain ⟨⟨s', t'⟩, hs, e⟩ := Option.map_eq_some_iff.1 e
            cases e
            obtain ⟨b, rfl, _⟩ := ih hs
            exact ⟨c :: b, rfl, Nat.zero_le _⟩
        · split at e
          · cases e
          · obtain ⟨⟨s', t'⟩, hs, e⟩ := Option.map_eq_some_iff.1 e
            cases e
            obtain ⟨b, rfl, _⟩ := ih hs
            exact ⟨c :: b, rfl, Nat.zero_le _⟩

theorem escape_append {a d : Bytes} {n : Nat} (room : n ≤ a.length) (u : Bytes) :
    escape (a ++ u) = some (d, n) ↔ escape a = some (d, n) := by
  constructor
  · intro e
    obtain ⟨v, t, split, rfl, h⟩ := escape_iff.1 e
    obtain ⟨t', rfl⟩ := List.prefix_of_prefix_length_le ⟨t, split.symm⟩ (List.prefix_append a u) room
    exact escape_iff.2 ⟨v, t', rfl, rfl, h⟩
  · intro e
    obtain ⟨v, t, rfl, rfl, h⟩ := escape_iff.1 e
    exact escape_iff.2 ⟨v, t ++ u, List.append_assoc _ _ _, rfl, h⟩

/-- Whether a literal ends before some text does not depend on the text. -/
theorem stringFrom_append {n : Nat} {a u s r : Bytes} :
    stringFrom n (a ++ u) = some (s, r ++ u) ↔ stringFrom n a = some (s, r) := by
  induction a generalizing n s with
  | nil =>
    constructor
    · intro e
      obtain ⟨b, split, _⟩ := stringFrom_closes e
      have size := congrArg List.length split
      simp only [List.nil_append, List.length_append, List.length_cons] at size
      omega
    · intro e
      cases n <;> cases e
  | cons c a ih =>
    cases n with
    | succ n => exact ih
    | zero =>
      rw [List.cons_append, stringFrom, stringFrom]
      by_cases hq : c = quote
      · simp only [if_pos hq, Option.some.injEq, Prod.mk.injEq, List.append_left_inj]
      by_cases hb : c = backslash
      · simp only [if_neg hq, if_pos hb]
        constructor
        · intro e
          split at e
          · cases e
          · rename_i d k he
            obtain ⟨⟨s', t⟩, hs, e⟩ := Option.map_eq_some_iff.1 e
            obtain ⟨rfl, rfl⟩ := Prod.mk.inj e
            obtain ⟨b, split, le⟩ := stringFrom_closes hs
            have size := congrArg List.length split
            simp only [List.length_append, List.length_cons] at size
            rw [(escape_append (by omega) u).1 he]
            exact Option.map_eq_some_iff.2 ⟨_, ih.1 hs, rfl⟩
        · intro e
          split at e
          · cases e
          · rename_i d k he
            obtain ⟨⟨s', t⟩, hs, e⟩ := Option.map_eq_some_iff.1 e
            cases e
            obtain ⟨v, t', rfl, rfl, _⟩ := escape_iff.1 he
            rw [(escape_append (by simp) u).2 he]
            exact Option.map_eq_some_iff.2 ⟨_, ih.2 hs, rfl⟩
      · simp only [if_neg hq, if_neg hb]
        by_cases control : c < 32
        · simp only [if_pos control, reduceCtorEq]
        · simp only [if_neg control, Option.map_eq_some_iff, Prod.exists, Prod.mk.injEq]
          constructor
          · rintro ⟨s', t, hs, rfl, rfl⟩
            exact ⟨s', r, ih.1 hs, rfl, rfl⟩
          · rintro ⟨s', t, hs, rfl, rfl⟩
            exact ⟨s', t ++ u, ih.2 hs, rfl, rfl⟩

theorem stringBody_closes {r s t : Bytes} (e : stringBody r = some (s, t)) : ∃ b, r = b ++ quote :: t := by
  obtain ⟨b, split, _⟩ := stringFrom_closes e
  exact ⟨b, split⟩

theorem stringBody_append {a u s r : Bytes} :
    stringBody (a ++ u) = some (s, r ++ u) ↔ stringBody a = some (s, r) :=
  stringFrom_append

/-- A text before a quote and some more: it closes its literal itself, or the quote does, or the
literal ends later. -/
theorem stringBody_spliced {a u s rest : Bytes} (e : stringBody (a ++ quote :: u) = some (s, rest)) :
    (∃ r, rest = r ++ quote :: u ∧ stringBody a = some (s, r)) ∨
    rest = u ∧ stringBody (a ++ [quote]) = some (s, []) ∨ rest.length < u.length := by
  obtain ⟨b, split⟩ := stringBody_closes e
  have end' : rest <:+ a ++ quote :: u := ⟨b ++ [quote], by simp [split]⟩
  rcases Nat.lt_trichotomy rest.length u.length with less | same | more
  · exact .inr (.inr less)
  · have tail : u <:+ a ++ quote :: u := ⟨a ++ [quote], by simp⟩
    obtain rfl := List.IsSuffix.eq_of_length (List.suffix_of_suffix_length_le end' tail (by omega)) same
    refine .inr (.inl ⟨rfl, ?_⟩)
    apply (stringBody_append (r := [])).1
    rw [List.append_assoc, List.singleton_append, List.nil_append]
    exact e
  · obtain ⟨r, rfl⟩ := List.suffix_of_suffix_length_le ⟨a, rfl⟩ end'
      (by rw [List.length_cons]; omega)
    exact .inl ⟨r, rfl, stringBody_append.1 e⟩

/-- What a literal can go on with: its end, a byte that stands for itself, an escaped quote, or
another escape, which is longer than what it denotes. -/
theorem stringBody_cases {raw s rest : Bytes} (e : stringBody raw = some (s, rest)) :
    (raw = quote :: rest ∧ s = []) ∨
    (∃ c raw' s', raw = c :: raw' ∧ (c ≠ quote ∧ c ≠ backslash ∧ 32 ≤ c) ∧ s = c :: s' ∧
      stringBody raw' = some (s', rest)) ∨
    (∃ raw' s', raw = backslash :: quote :: raw' ∧ s = quote :: s' ∧
      stringBody raw' = some (s', rest)) ∨
    ∃ u d raw' s', raw = backslash :: (u ++ raw') ∧ quote ∉ u ∧ d.length ≤ u.length ∧ s = d ++ s' ∧
      stringBody raw' = some (s', rest) := by
  cases raw with
  | nil => cases e
  | cons c r =>
    by_cases hq : c = quote
    · subst hq
      rw [stringBody_quote] at e
      cases e
      exact .inl ⟨rfl, rfl⟩
    by_cases hb : c = backslash
    · subst hb
      cases he : escape r with
      | none =>
        rw [stringBody, stringFrom, if_neg hq, if_pos rfl, he] at e
        cases e
      | some x =>
        obtain ⟨d, n⟩ := x
        rw [stringBody_escape he] at e
        obtain ⟨⟨s', t⟩, hs, e⟩ := Option.map_eq_some_iff.1 e
        cases e
        obtain ⟨u, tail, rfl, rfl, escaped⟩ := escape_iff.1 he
        rcases escaped.shape with ⟨rfl, rfl⟩ | ⟨noQuote, short⟩
        · rw [List.drop_left] at hs
          exact .inr (.inr (.inl ⟨tail, s', rfl, rfl, hs⟩))
        · rw [List.drop_left] at hs
          exact .inr (.inr (.inr ⟨u, d, tail, s', rfl, noQuote, short, rfl, hs⟩))
    · by_cases control : 32 ≤ c
      · rw [stringBody_byte hq hb control] at e
        obtain ⟨⟨s', t⟩, hs, e⟩ := Option.map_eq_some_iff.1 e
        cases e
        exact .inr (.inl ⟨c, r, s', rfl, ⟨hq, hb, control⟩, rfl, hs⟩)
      · rw [stringBody, stringFrom, if_neg hq, if_neg hb, if_pos (UInt8.not_le.1 control)] at e
        cases e

/-- The first quote byte of a literal. Where it ends the literal, either nothing was escaped or the
string is shorter than the literal; where it is escaped, the string holds a quote no later. -/
theorem stringBody_first_quote {raw s rest : Bytes} (e : stringBody raw = some (s, rest)) :
    (∃ body, raw = body ++ quote :: rest ∧ quote ∉ body ∧
      (s = body ∧ Verbatim body ∨ s.length < body.length ∧ backslash ∈ body)) ∨
    ∃ a b d t, raw = a ++ backslash :: quote :: b ∧ quote ∉ a ∧ s = d ++ quote :: t ∧
      d.length ≤ a.length := by
  rcases stringBody_cases e with ⟨rfl, rfl⟩ | ⟨c, r, s', rfl, ⟨hq, hb, control⟩, rfl, e'⟩ |
      ⟨r, s', rfl, rfl, _⟩ | ⟨u, d, r, s', rfl, noQuote, short, rfl, e'⟩
  · exact .inl ⟨[], rfl, by simp, .inl ⟨rfl, fun _ h => absurd h (by simp)⟩⟩
  · rcases stringBody_first_quote e' with ⟨body, rfl, hbody, same | ⟨less, esc⟩⟩ |
        ⟨a, b, d, t, rfl, ha, rfl, hd⟩
    · obtain ⟨rfl, verbatim⟩ := same
      refine .inl ⟨c :: s', rfl, List.not_mem_cons_of_ne_of_not_mem (Ne.symm hq) hbody, .inl ⟨rfl, ?_⟩⟩
      intro x hx
      rcases List.mem_cons.1 hx with rfl | hx
      · exact ⟨hq, hb, control⟩
      · exact verbatim x hx
    · exact .inl ⟨c :: body, rfl, List.not_mem_cons_of_ne_of_not_mem (Ne.symm hq) hbody,
        .inr ⟨by simpa using less, List.mem_cons_of_mem c esc⟩⟩
    · exact .inr ⟨c :: a, b, c :: d, t, rfl, List.not_mem_cons_of_ne_of_not_mem (Ne.symm hq) ha, rfl,
        by simpa using hd⟩
  · exact .inr ⟨[], r, [], s', rfl, by simp, rfl, by simp⟩
  · have hb : quote ≠ backslash := by decide
    rcases stringBody_first_quote e' with ⟨body, rfl, hbody, same⟩ | ⟨a, b, d', t, rfl, ha, rfl, hd⟩
    · have bound : s'.length ≤ body.length := by
        rcases same with ⟨rfl, _⟩ | ⟨less, _⟩ <;> omega
      refine .inl ⟨backslash :: (u ++ body), by simp, ?_, .inr ⟨?_, by simp⟩⟩
      · simp [hb, noQuote, hbody]
      · simp only [List.length_append, List.length_cons]
        omega
    · refine .inr ⟨backslash :: (u ++ a), b, d ++ d', t, by simp, ?_, by simp, ?_⟩
      · simp [hb, noQuote, ha]
      · simp only [List.length_append, List.length_cons]
        omega
  termination_by raw.length
  decreasing_by
    · subst_vars
      simp
    · subst_vars
      simp only [List.length_cons, List.length_append]
      omega

/-- Every quote byte of a literal before its last follows a backslash. -/
theorem stringBody_quote_escaped {raw s rest x y : Bytes} (e : stringBody raw = some (s, rest))
    (h : raw = x ++ quote :: y) (inside : rest.length < y.length) : ∃ x', x = x' ++ [backslash] := by
  have hb : quote ≠ backslash := by decide
  rcases stringBody_cases e with ⟨rfl, rfl⟩ | ⟨c, r, s', rfl, ⟨hq, _, _⟩, rfl, e'⟩ |
      ⟨r, s', rfl, rfl, e'⟩ | ⟨u, d, r, s', rfl, noQuote, short, rfl, e'⟩
  · have := congrArg List.length h
    simp only [List.length_cons, List.length_append] at this
    omega
  · obtain ⟨x, rfl, hr⟩ := split_after [c] (by simpa using Ne.symm hq) h
    obtain ⟨x', rfl⟩ := stringBody_quote_escaped e' hr inside
    exact ⟨c :: x', rfl⟩
  · obtain ⟨x, rfl, hr⟩ := split_after [backslash] (by simpa using hb) h
    cases x with
    | nil => exact ⟨[], rfl⟩
    | cons c x =>
      have head : quote = c := (List.cons.inj hr).1
      have tail : r = x ++ quote :: y := (List.cons.inj hr).2
      subst head
      obtain ⟨x', rfl⟩ := stringBody_quote_escaped e' tail inside
      exact ⟨backslash :: quote :: x', rfl⟩
  · obtain ⟨x, rfl, hr⟩ := split_after (backslash :: u) (by simp [hb, noQuote]) h
    obtain ⟨x', rfl⟩ := stringBody_quote_escaped e' hr inside
    exact ⟨backslash :: u ++ x', by simp⟩
  termination_by raw.length
  decreasing_by
    all_goals subst_vars; simp only [List.length_cons, List.length_append]; omega

/-- A string spliced between two quotes is read back only if it is verbatim. -/
theorem verbatim_of_splice {s r rest : Bytes} (e : stringBody (s ++ quote :: r) = some (s, rest)) :
    Verbatim s := by
  rcases stringBody_first_quote e with ⟨body, split, clean, ⟨rfl, h⟩ | ⟨less, _⟩⟩ |
      ⟨a, b, d, t, split, clean, rfl, le⟩
  · exact h
  · obtain ⟨x, rfl, _⟩ := split_after body clean split.symm
    rw [List.length_append] at less
    omega
  · have both : quote ∉ a ++ [backslash] := by
      have other : quote ≠ backslash := by decide
      simp [clean, other]
    have place : (a ++ [backslash]) ++ (quote :: b) = d ++ quote :: (t ++ quote :: r) := by
      simpa using split.symm
    obtain ⟨x, rfl, _⟩ := split_after _ both place
    simp only [List.length_append, List.length_singleton] at le
    omega

end ModelRuntime.Lib.Json
