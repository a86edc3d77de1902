import ModelRuntime.Lib.JsonString
import ModelRuntime.Server.FlatObject

/-!
# A member with any value

`parse_json` has no notion of depth: it takes a value that is no string up to its first comma or
closing brace and goes on with what is left of it. `harmless_iff` says which values leave the other
members alone: those with no quote byte behind that place.
-/

namespace ModelRuntime
open Cpp Lib Lib.Json

/-- A member with any JSON value, and the blanks at its tokens. -/
structure AnyMember where
  key : Bytes
  text : Bytes
  beforeKey : Bytes := []
  afterKey : Bytes := []
  afterColon : Bytes := []
  afterValue : Bytes := []
  free : EscapeFree key
  isText : (ofText text).isSome = true
  blank : ∀ c ∈ beforeKey ++ afterKey ++ afterColon ++ afterValue, isWs c = true := by
    first | exact no_blanks | decide

def AnyMember.fullText (m : AnyMember) : Bytes :=
  m.beforeKey ++ quote :: (m.key ++ quote :: (m.afterKey ++ colon :: (m.afterColon ++
    (m.text ++ m.afterValue))))

/-- The object with one more member, before its member number `i`. -/
def FlatObject.insertAt (o : FlatObject) (i : Nat) (m : AnyMember) : Bytes :=
  o.before ++ openBrace :: ((o.members.take i).flatMap (·.text ++ [comma]) ++ (m.fullText ++
    ((o.members.drop i).flatMap (comma :: ·.text) ++ closeBrace :: o.after)))

/-- The new member changes no other. -/
def Unchanged (o : FlatObject) (i : Nat) (m : AnyMember) : Prop :=
  ∃ p p', parseJson o.text = .ok p ∧ parseJson (o.insertAt i m) = .ok p' ∧
    ∀ key, key ≠ m.key → p'.lookup key = p.lookup key

/-- A string, or a text with no quote behind its first comma or closing brace. -/
def Contained (text : Bytes) : Prop :=
  text.head? = some quote ∨ quote ∉ text.dropWhile (!commaBrace.contains ·)

instance (text : Bytes) : Decidable (Contained text) := inferInstanceAs (Decidable (_ ∨ _))

/-- A value that is no string with a quote in it. -/
def Plain : Json → Prop
  | .string s => quote ∉ s
  | _ => True

instance : DecidablePred Plain := fun v => by
  cases v <;> unfold Plain <;> infer_instance

/-! ## Contained values -/

section Contained

variable {t ws rest : Bytes} {c sep : UInt8}

theorem separator_tail (blank : ∀ x ∈ ws, isWs x = true) (hsep : sep ∈ commaBrace) :
    quote ∉ ws ++ [sep] := by
  simp [(no_structure blank).1, (quote_not_separator hsep).symm]

/-- A string without quotes is read to its end. -/
theorem scanValue_quoted {s : Bytes} (body : stringBody t = some (s, [])) (none : quote ∉ s)
    (blank : ∀ x ∈ ws, isWs x = true) (hsep : sep ∈ commaBrace) : ∃ value left,
      scanValue (quote :: (t ++ (ws ++ sep :: rest))) = some (value, left) ∧
        ∃ passed, quote ∉ passed ∧ skipComma left = passed ++ rest := by
  obtain ⟨b, clean, rfl⟩ : ∃ b, quote ∉ b ∧ t = b ++ [quote] := by
    rcases stringBody_first_quote body with ⟨b, rfl, clean, _⟩ | ⟨a, b, d, e, rfl, _, rfl, _⟩
    · exact ⟨b, clean, rfl⟩
    · exact absurd (by simp) none
  refine ⟨b, ws ++ sep :: rest, ?_, skipComma_gap blank (quote_not_separator hsep) rest⟩
  rw [List.append_assoc]
  exact scanValue_string clean

/-- A value with no quote behind its first comma or closing brace is read to there, and what is left
of it is passed over. -/
theorem scanValue_open (start : c ≠ quote) (none : quote ∉ (c :: t).dropWhile (!commaBrace.contains ·))
    (blank : ∀ x ∈ ws, isWs x = true) (hsep : sep ∈ commaBrace) : ∃ value left,
      scanValue (c :: (t ++ (ws ++ sep :: rest))) = some (value, left) ∧
        ∃ passed, quote ∉ passed ∧ skipComma left = passed ++ rest := by
  obtain ⟨value, d, u, found, clean⟩ : ∃ value d u,
      cut (commaBrace.contains ·) ((c :: t) ++ (ws ++ [sep])) = some (value, d, u) ∧ quote ∉ d :: u := by
    cases e : cut (commaBrace.contains ·) (c :: t) with
    | some x =>
      obtain ⟨value, d, u⟩ := x
      refine ⟨value, d, u ++ (ws ++ [sep]), cut_left e _, ?_⟩
      rw [cut_dropWhile e] at none
      have tail := separator_tail blank hsep
      simp only [List.mem_cons, List.mem_append, not_or] at none tail ⊢
      exact ⟨none.1, none.2, tail⟩
    | none =>
      have last : cut (commaBrace.contains ·) (ws ++ sep :: []) = some (ws, sep, []) :=
        cut_append (by simpa using no_separator blank) (by simpa using hsep)
      refine ⟨(c :: t) ++ ws, sep, [], ?_, ?_⟩
      · rw [cut_skip (cut_eq_none_iff.1 e), last]
        rfl
      · simpa using (quote_not_separator hsep).symm
  refine ⟨value, d :: (u ++ rest), ?_, @skipComma_append rest (d :: u) (by simp) clean⟩
  have whole : c :: (t ++ (ws ++ sep :: rest)) = ((c :: t) ++ (ws ++ [sep])) ++ rest := by simp
  rw [scanValue, if_neg start, whole, cut_left found]
  rfl

/-- The reader takes a member with a contained value off the text. -/
theorem AnyMember.members_fullText (m : AnyMember) (plain : ∀ v ∈ ofText m.text, Plain v) (h : Contained m.text)
    (hsep : sep ∈ commaBrace) (rest : Bytes) :
    ∃ value, members (m.fullText ++ sep :: rest) = (m.key, value) :: members rest := by
  have blank := m.blank
  simp only [List.mem_append, or_imp, forall_and] at blank
  obtain ⟨⟨⟨before, gap⟩, ws⟩, after⟩ := blank
  obtain ⟨v, isText⟩ := Option.isSome_iff_exists.1 m.isText
  have plain := plain v isText
  obtain ⟨c, t, split, solid, string⟩ := ofText_start isText
  have noBlank : c ∉ blanks := by
    intro mem
    rw [(isWs_iff_blanks c).2 mem] at solid
    cases solid
  obtain ⟨value, left, scan, tail⟩ : ∃ value left,
      scanValue (c :: (t ++ (m.afterValue ++ sep :: rest))) = some (value, left) ∧
        ∃ passed, quote ∉ passed ∧ skipComma left = passed ++ rest := by
    by_cases hq : c = quote
    · obtain ⟨s, rfl, body⟩ := string hq
      rw [hq]
      exact scanValue_quoted body plain after hsep
    · rw [split, Contained] at h
      rcases h with h | h
      · exact absurd (Option.some.inj h) hq
      · exact scanValue_open hq h after hsep
  have shape : m.fullText ++ sep :: rest = m.beforeKey ++ quote :: (m.key ++ quote :: (m.afterKey ++
      colon :: (m.afterColon ++ c :: (t ++ (m.afterValue ++ sep :: rest))))) := by
    simp [fullText, split]
  refine ⟨value, ?_⟩
  rw [shape]
  exact members_keyed (no_structure before).1 m.free.1 (no_structure gap).2
    (fun x hx => (isWs_iff_blanks x).1 (ws x hx)) noBlank scan tail

end Contained

/-! ## The object with the member -/

theorem members_front (ms : List FlatMember) (rest : Bytes) :
    members (ms.flatMap (·.text ++ [comma]) ++ rest) = ms.map FlatMember.entry ++ members rest :=
  members_leading (fun m _ hsep rest => m.members_text hsep rest) ms rest

/-- What follows a member starts with a separator, and the reader finds the other members behind
it. -/
theorem members_back (ms : List FlatMember) (rest : Bytes) : ∃ sep tail,
    ms.flatMap (comma :: ·.text) ++ closeBrace :: rest = sep :: tail ∧ sep ∈ commaBrace ∧
      members tail = ms.map FlatMember.entry ++ members rest :=
  members_trailing (fun m _ hsep rest => m.members_text hsep rest) ms rest

/-- In terms of the members the reader finds. -/
theorem unchanged_iff {o : FlatObject} {i : Nat} {m : AnyMember} : Unchanged o i m ↔
    ∀ key, key ≠ m.key →
      lastValue (members (o.insertAt i m)) key = lastValue (members o.text) key := by
  obtain ⟨p, hp, found⟩ := parseJson_lookup o.text
  obtain ⟨p', hp', found'⟩ := parseJson_lookup (o.insertAt i m)
  constructor
  · rintro ⟨q, q', hq, hq', same⟩ key other
    rw [hp] at hq
    rw [hp'] at hq'
    cases hq
    cases hq'
    rw [← found, ← found', same key other]
  · intro same
    refine ⟨p, p', hp, hp', fun key other => ?_⟩
    rw [found, found', same key other]

/-- A contained value changes no other member. -/
theorem unchanged_of_contained (o : FlatObject) (i : Nat) (m : AnyMember)
    (plain : ∀ v ∈ ofText m.text, Plain v) (h : Contained m.text) : Unchanged o i m := by
  have outer : ∀ c ∈ o.before ++ o.inside ++ o.after, isWs c = true := o.blank
  have noQuote := (no_structure outer).1
  simp only [List.mem_append, not_or] at noQuote
  obtain ⟨⟨before, _⟩, after⟩ := noQuote
  have start : quote ∉ o.before ++ [openBrace] := by
    have brace : quote ≠ openBrace := by decide
    simp [before, brace]
  obtain ⟨sep, tail, split, hsep, found⟩ := members_back (o.members.drop i) o.after
  obtain ⟨value, taken⟩ := m.members_fullText plain h hsep tail
  have shape : o.insertAt i m = (o.before ++ [openBrace]) ++
      ((o.members.take i).flatMap (·.text ++ [comma]) ++ (m.fullText ++ sep :: tail)) := by
    rw [FlatObject.insertAt, split]
    simp
  have all : members (o.insertAt i m) = (o.members.take i).map FlatMember.entry ++
      (m.key, value) :: (o.members.drop i).map FlatMember.entry := by
    rw [shape, members_junk start, members_front, taken, found, members_no_quote after,
      List.append_nil]
  apply unchanged_iff.2
  intro key other
  rw [all, lastValue_other other, ← List.map_append, List.take_append_drop, o.members_text]

/-! ## Values that are not contained -/

section Leaks

/-- A key that is longer than `text`. -/
def longKey (letter : UInt8) (text : Bytes) : Bytes := List.replicate (text.length + 1) letter

theorem longKey_free (letter : UInt8) (text : Bytes) (hq : letter ≠ quote) (hb : letter ≠ backslash) :
    EscapeFree (longKey letter text) := by
  constructor
  · intro mem
    exact hq (List.eq_of_mem_replicate mem).symm
  · intro mem
    exact hb (List.eq_of_mem_replicate mem).symm

/-- No text as short is such a key. -/
theorem longKey_ne {letter : UInt8} {text key : Bytes} (short : key.length ≤ text.length) :
    key ≠ longKey letter text := by
  rintro rfl
  rw [longKey, List.length_replicate] at short
  omega

/-- The object `{"bb…b":""}`. -/
def lone (text : Bytes) : FlatObject where
  members := [{ key := longKey 98 text, free := longKey_free 98 text (by decide) (by decide)
                value := .string [] (by decide) }]

/-- The value as the member `aa…a`. -/
def probe {text : Bytes} (isText : (ofText text).isSome = true) : AnyMember where
  key := longKey 97 text
  text
  free := longKey_free 97 text (by decide) (by decide)
  isText

/-- What follows the value in `lone` with the probe. -/
def afterProbe (text : Bytes) : Bytes :=
  comma :: quote :: (longKey 98 text ++ quote :: colon :: quote :: quote :: [closeBrace])

theorem members_lone (text : Bytes) : members (lone text).text = [(longKey 98 text, [])] :=
  (lone text).members_text

theorem scanValue_isSome {c : UInt8} {r : Bytes} (hq : quote ∈ r) (hb : closeBrace ∈ r) :
    ∃ value rest, scanValue (c :: r) = some (value, rest) := by
  rw [scanValue]
  split
  · obtain ⟨a, d, t, found⟩ := cut_of_mem (p := (· == quote)) hq (beq_self_eq_true quote)
    exact ⟨a, t, by rw [found]; rfl⟩
  · have hit : commaBrace.contains closeBrace = true := by decide
    obtain ⟨a, d, t, found⟩ := cut_of_mem (List.mem_cons_of_mem c hb) hit
    exact ⟨a, d :: t, by rw [found]; rfl⟩

/-- After any key the reader finds a value, if only the one of `lone`. -/
theorem scanAfterKey_isSome (x : Bytes) : ∃ value rest,
    scanAfterKey (x ++ colon :: quote :: quote :: [closeBrace]) = some (value, rest) := by
  obtain ⟨a, c, y, hcolon⟩ : ∃ a c y, cut (· == colon) (x ++ colon :: quote :: quote :: [closeBrace]) =
      some (a, c, y ++ quote :: quote :: [closeBrace]) := by
    cases e : cut (· == colon) x with
    | none => exact ⟨x, colon, [], cut_append (cut_eq_none_iff.1 e) (beq_self_eq_true colon)⟩
    | some found =>
      obtain ⟨a, c, y⟩ := found
      exact ⟨a, c, y ++ [colon], by rw [cut_left e]; simp⟩
  simp only [scanAfterKey, hcolon, Option.bind_eq_bind, Option.bind_some]
  cases e : cut (fun c => !blanks.contains c) y with
  | none =>
    have first : cut (fun c => !blanks.contains c) (y ++ quote :: quote :: [closeBrace]) =
        some (y, quote, [quote, closeBrace]) := cut_append (cut_eq_none_iff.1 e) (by decide)
    rw [first]
    exact ⟨[], [closeBrace], rfl⟩
  | some found =>
    obtain ⟨b, d, z⟩ := found
    obtain ⟨value, rest, read⟩ := @scanValue_isSome d (z ++ quote :: quote :: [closeBrace]) (by simp)
      (by simp)
    rw [cut_left e, Option.bind_some]
    exact ⟨value, skipComma rest, by rw [read]; rfl⟩

/-- The reader's first member, and what is left. -/
theorem members_probe {text : Bytes} (isText : (ofText text).isSome = true)
    (leaks : ¬ Contained text) : ∃ value u, quote ∈ u ∧ u.length < text.length ∧
      members ((lone text).insertAt 0 (probe isText)) =
        (longKey 97 text, value) :: members (u ++ afterProbe text) := by
  obtain ⟨v, isValue⟩ := Option.isSome_iff_exists.1 isText
  obtain ⟨c, t, split, solid, _⟩ := ofText_start isValue
  have noBlank : c ∉ blanks := by
    intro mem
    rw [(isWs_iff_blanks c).2 mem] at solid
    cases solid
  obtain ⟨start, mem⟩ := not_or.1 leaks
  rw [not_not] at mem
  have start : c ≠ quote := by
    rintro rfl
    rw [split] at start
    exact start rfl
  cases e : cut (commaBrace.contains ·) text with
  | none =>
    have nothing : text.dropWhile (!commaBrace.contains ·) = [] := by
      rw [List.dropWhile_eq_nil_iff]
      simpa using cut_eq_none_iff.1 e
    rw [nothing] at mem
    cases mem
  | some found =>
    obtain ⟨value, d, u⟩ := found
    obtain ⟨whole, _, hd⟩ := cut_eq_some_iff.1 e
    have separator : d ∈ commaBrace := by simpa using hd
    rw [cut_dropWhile e] at mem
    have inside : quote ∈ u := by
      rcases List.mem_cons.1 mem with same | mem
      · exact absurd same.symm (quote_not_separator separator)
      · exact mem
    have short : u.length < text.length := by
      rw [whole]
      simp only [List.length_append, List.length_cons]
      omega
    have passed := @skipComma_append (u ++ afterProbe text) [d] (by simp)
      (by simpa using (quote_not_separator separator).symm)
    have scan : scanValue (c :: (t ++ afterProbe text)) = some (value, [d] ++ (u ++ afterProbe text)) := by
      rw [scanValue, if_neg start, ← List.cons_append, ← split, cut_left e]
      rfl
    have key := longKey_free 97 text (by decide) (by decide)
    have shape : (lone text).insertAt 0 (probe isText) = [openBrace] ++ quote :: (longKey 97 text ++
        quote :: ([] ++ colon :: ([] ++ c :: (t ++ afterProbe text)))) := by
      have split' : c :: (t ++ afterProbe text) = text ++ afterProbe text := by
        rw [split]
        rfl
      rw [split']
      simp [FlatObject.insertAt, lone, AnyMember.fullText, probe, FlatMember.text, FlatValue.text,
        afterProbe]
    refine ⟨value, u, inside, short, ?_⟩
    rw [shape]
    exact members_keyed (by decide) key.1 (by simp) (by simp) noBlank scan passed

/-- A value with a quote behind its first comma or closing brace changes another member somewhere:
the text up to that quote's partner becomes a key. -/
theorem changed_of_leak {text : Bytes} (isText : (ofText text).isSome = true)
    (leaks : ¬ Contained text) : ¬ Unchanged (lone text) 0 (probe isText) := by
  intro same
  have same := unchanged_iff.1 same
  obtain ⟨value, u, mem, short, found⟩ := members_probe isText leaks
  rw [found, members_lone] at same
  obtain ⟨p, w, rfl, noQuote⟩ := List.eq_append_cons_of_mem mem
  rw [List.append_assoc, List.cons_append, members_junk noQuote] at same
  simp only [List.length_append, List.length_cons] at short
  by_cases inner : quote ∈ w
  · -- a key that ends inside the value
    obtain ⟨key, y, rfl, clean⟩ := List.eq_append_cons_of_mem inner
    simp only [List.length_append, List.length_cons] at short
    obtain ⟨read, rest, after⟩ := scanAfterKey_isSome (y ++ comma :: quote :: (longKey 98 text ++ [quote]))
    have found : scanMember (quote :: (key ++ quote :: (y ++ afterProbe text))) =
        some (key, read, rest) := by
      have tail : y ++ afterProbe text = (y ++ comma :: quote :: (longKey 98 text ++ [quote])) ++
          colon :: quote :: quote :: [closeBrace] := by simp [afterProbe]
      rw [scanMember_at clean, tail, after]
      rfl
    have other : key ≠ longKey 97 text := longKey_ne (by omega)
    have absent : key ≠ longKey 98 text := longKey_ne (by omega)
    have eq := same key other
    rw [List.append_assoc, List.cons_append, members_some found] at eq
    have present : (lastValue ((longKey 97 text, value) :: (key, read) :: members rest) key).isSome :=
      lastValue_isSome (List.mem_cons_of_mem _ List.mem_cons_self)
    rw [eq] at present
    simp [lastValue, Ne.symm absent] at present
  · -- a key that ends at the opening quote of the key of `lone`
    have swallowed : quote ∉ w ++ [comma] := by
      have other : quote ≠ comma := by decide
      simp [inner, other]
    have gap : colon ∉ longKey 98 text ++ [quote] := by
      simp [longKey, colon, quote]
    have shape : quote :: (w ++ afterProbe text) = [] ++ quote :: ((w ++ [comma]) ++ quote ::
        ((longKey 98 text ++ [quote]) ++ colon :: ([] ++ quote :: ([] ++ quote :: [closeBrace])))) := by
      simp [afterProbe]
    have only : members (quote :: (w ++ afterProbe text)) = (w ++ [comma], []) :: members [] := by
      rw [shape]
      exact members_keyed (by simp) swallowed gap (by simp) (by decide) (scanValue_string (by simp))
        ⟨[closeBrace], by decide, rfl⟩
    have other : longKey 98 text ≠ longKey 97 text := by
      simp [longKey]
    have absent : w ++ [comma] ≠ longKey 98 text := by
      apply longKey_ne
      simp only [List.length_append, List.length_singleton]
      omega
    have eq := same (longKey 98 text) other
    rw [only, members_none rfl] at eq
    simp [lastValue, Ne.symm other, absent] at eq

end Leaks

/-- **Which values are harmless.** A value that is no string with a quote in it leaves all other
members alone, whatever the object, the key, the place and the blanks, exactly when it is
contained. -/
theorem harmless_iff {text : Bytes} (isText : (ofText text).isSome = true)
    (plain : ∀ v ∈ ofText text, Plain v) :
    (∀ (o : FlatObject) (i : Nat) (m : AnyMember), m.text = text →
      m.key ∉ o.members.map FlatMember.key → Unchanged o i m) ↔ Contained text := by
  constructor
  · intro all
    by_contra leaks
    apply changed_of_leak isText leaks
    apply all _ 0 (probe isText) rfl
    simp [lone, probe, longKey]
  · rintro contained o i m rfl _
    exact unchanged_of_contained o i m plain contained

theorem harmless_iff_array :
    (∀ (o : FlatObject) (i : Nat) (m : AnyMember), m.text = str "[1,2]" →
      m.key ∉ o.members.map FlatMember.key → Unchanged o i m) ↔ Contained (str "[1,2]") :=
  harmless_iff (by decide +kernel) (by decide +kernel)

/-- A nested object whose second member is called `model`. -/
def nested : AnyMember where
  key := str "meta"
  text := str "\x7b\"x\":1,\"model\":\"evil\"\x7d"
  free := by decide
  isText := by decide +kernel

/-- It gives the request the model `evil`. -/
theorem nested_changes_model :
    ¬ ∀ (o : FlatObject) (i : Nat) (m : AnyMember), m.key ∉ o.members.map FlatMember.key →
      Unchanged o i m := by
  intro all
  obtain ⟨p, p', hp, hp', same⟩ := all { members := [] } 0 nested (by decide)
  have alone : (parseJson (FlatObject.text { members := [] })).toOption.bind (·.lookup (str "model")) =
      none := by decide +kernel
  have inserted : (parseJson (FlatObject.insertAt { members := [] } 0 nested)).toOption.bind
      (·.lookup (str "model")) = some (str "evil") := by decide +kernel
  have eq := same (str "model") (by decide)
  rw [hp] at alone
  rw [hp'] at inserted
  have changed : p'.lookup (str "model") = some (str "evil") := inserted
  rw [eq, show p.lookup (str "model") = none from alone] at changed
  cases changed

end ModelRuntime
