import ModelRuntime.Lib.JsonLiteral
import ModelRuntime.Server.ParseJson

/-!
# Flat objects

What `parse_json` reads correctly: objects of strings without escapes and of literals, with any
blanks between the tokens but none after a literal. `members_member` is the step of the proof: the
reader takes a member off the text, whatever follows its separator.
-/

namespace ModelRuntime
open Cpp Lib Lib.Json

/-- A string that is written without escapes. -/
def EscapeFree (s : Bytes) : Prop := quote ∉ s ∧ backslash ∉ s

instance (s : Bytes) : Decidable (EscapeFree s) := inferInstanceAs (Decidable (_ ∧ _))

/-- A string or a literal. -/
inductive FlatValue where
  | string (content : Bytes) (free : EscapeFree content)
  | literal (text : Bytes) (v : Json) (isText : ofText text = some v) (lit : v.IsLiteral)

namespace FlatValue

def text : FlatValue → Bytes
  | string content _ => quote :: (content ++ [quote])
  | literal text _ _ _ => text

/-- What a reader of the object is to see. -/
def content : FlatValue → Bytes
  | string content _ => content
  | literal text _ _ _ => text

end FlatValue

theorem no_blanks : ∀ c ∈ ([] : Bytes) ++ [] ++ [] ++ [], isWs c = true := by simp

/-- A member and the blanks at its tokens; none stand after a literal. -/
structure FlatMember where
  key : Bytes
  value : FlatValue
  beforeKey : Bytes := []
  afterKey : Bytes := []
  afterColon : Bytes := []
  afterValue : Bytes := []
  free : EscapeFree key
  blank : ∀ c ∈ beforeKey ++ afterKey ++ afterColon ++ afterValue, isWs c = true := by
    first | exact no_blanks | decide
  tight : ∀ text v e l, value = .literal text v e l → afterValue = [] := by simp

namespace FlatMember

def text (m : FlatMember) : Bytes :=
  m.beforeKey ++ quote :: (m.key ++ quote :: (m.afterKey ++ colon :: (m.afterColon ++
    (m.value.text ++ m.afterValue))))

def entry (m : FlatMember) : Bytes × Bytes := (m.key, m.value.content)

end FlatMember

/-- The members with commas between them. -/
def membersText : List FlatMember → Bytes
  | [] => []
  | [m] => m.text
  | m :: ms => m.text ++ comma :: membersText ms

/-- An object and the blanks around it, and in it where it is empty. -/
structure FlatObject where
  members : List FlatMember
  before : Bytes := []
  inside : Bytes := []
  after : Bytes := []
  blank : ∀ c ∈ before ++ inside ++ after, isWs c = true := by decide

def FlatObject.text (o : FlatObject) : Bytes :=
  o.before ++ openBrace :: ((if o.members = [] then o.inside else membersText o.members) ++
    closeBrace :: o.after)

/-! ## Reading them -/

theorem isWs_iff_blanks (c : UInt8) : isWs c = true ↔ c ∈ blanks := by
  simp [isWs, blanks, or_assoc]

/-- Blanks are no quotes and no colons. -/
theorem no_structure {ws : Bytes} (h : ∀ c ∈ ws, isWs c = true) : quote ∉ ws ∧ colon ∉ ws := by
  have hq : isWs quote = false := by decide
  have hc : isWs colon = false := by decide
  constructor
  · intro mem
    rw [h _ mem] at hq
    cases hq
  · intro mem
    rw [h _ mem] at hc
    cases hc

theorem quote_not_separator {sep : UInt8} (h : sep ∈ commaBrace) : sep ≠ quote := by
  rintro rfl
  exact absurd h (by decide)

/-- Blanks and one more byte are passed over. -/
theorem skipComma_gap {ws : Bytes} {sep : UInt8} (blank : ∀ c ∈ ws, isWs c = true) (hsep : sep ≠ quote)
    (rest : Bytes) : ∃ passed, quote ∉ passed ∧ skipComma (ws ++ sep :: rest) = passed ++ rest := by
  have none : quote ∉ ws ++ [sep] := by simp [(no_structure blank).1, hsep.symm]
  have passed := @skipComma_append rest (ws ++ [sep]) (by simp) none
  rwa [List.append_assoc, List.singleton_append] at passed

theorem no_separator {ws : Bytes} (blank : ∀ c ∈ ws, isWs c = true) : ∀ c ∈ ws, c ∉ commaBrace := by
  intro c mem sep
  have := blank c mem
  rcases List.mem_cons.1 sep with rfl | sep
  · exact absurd this (by decide)
  · rw [List.mem_singleton.1 sep] at this
    exact absurd this (by decide)

/-- A bare byte ends no search of the reader. -/
theorem bare_plain {c : UInt8} (h : isBare c = true) : c ≠ quote ∧ c ∉ commaBrace ∧ c ∉ blanks := by
  simp only [isBare, Bool.and_eq_true, Bool.not_eq_true', bne_iff_ne, ne_eq] at h
  obtain ⟨⟨⟨⟨⟨⟨⟨hw, hq⟩, hcomma⟩, _⟩, _⟩, _⟩, _⟩, hbrace⟩ := h
  refine ⟨hq, by simp [commaBrace, hcomma, hbrace], fun mem => ?_⟩
  rw [(isWs_iff_blanks c).2 mem] at hw
  cases hw

namespace FlatMember

variable (m : FlatMember) {sep : UInt8}

theorem blank_parts : (∀ c ∈ m.beforeKey, isWs c = true) ∧ (∀ c ∈ m.afterKey, isWs c = true) ∧
    (∀ c ∈ m.afterColon, isWs c = true) ∧ ∀ c ∈ m.afterValue, isWs c = true := by
  refine ⟨?_, ?_, ?_, ?_⟩ <;> intro c hc <;> apply m.blank <;> simp [hc]

/-- The value of a member, its separator next. -/
theorem scanValue_text (hsep : sep ∈ commaBrace) (rest : Bytes) : ∃ c r,
    m.value.text ++ (m.afterValue ++ sep :: rest) = c :: r ∧ c ∉ blanks ∧
      scanValue (c :: r) = some (m.value.content, m.afterValue ++ sep :: rest) := by
  cases e : m.value with
  | string s free =>
    refine ⟨quote, s ++ quote :: (m.afterValue ++ sep :: rest), ?_, by decide, ?_⟩
    · simp [FlatValue.text]
    · exact scanValue_string free.1
  | literal t v isText lit =>
    obtain ⟨some, bare⟩ := ofText_literal isText lit
    obtain ⟨c, t, rfl⟩ := List.exists_cons_of_ne_nil some
    obtain ⟨hq, _, hb⟩ := bare_plain (bare c (by simp))
    refine ⟨c, t ++ sep :: rest, ?_, hb, ?_⟩
    · rw [m.tight _ v isText lit e]
      rfl
    · rw [m.tight _ v isText lit e]
      apply scanValue_other hq _ hsep
      intro x hx
      exact (bare_plain (bare x hx)).2.1

/-- The reader takes a member off the text. -/
theorem members_text (hsep : sep ∈ commaBrace) (rest : Bytes) :
    members (m.text ++ sep :: rest) = m.entry :: members rest := by
  obtain ⟨before, gap, ws, after⟩ := m.blank_parts
  obtain ⟨c, r, split, hc, scan⟩ := m.scanValue_text hsep rest
  have shape : m.text ++ sep :: rest = m.beforeKey ++
      quote :: (m.key ++ quote :: (m.afterKey ++ colon :: (m.afterColon ++ c :: r))) := by
    rw [← split]
    simp [text]
  rw [shape]
  exact members_keyed (no_structure before).1 m.free.1 (no_structure gap).2
    (fun x hx => (isWs_iff_blanks x).1 (ws x hx)) hc scan
    (skipComma_gap after (quote_not_separator hsep) rest)

end FlatMember

/-! ## Several members -/

section Several

variable {α : Type} {text : α → Bytes} {entry : α → Bytes × Bytes}
  (taken : ∀ (m : α) (sep : UInt8), sep ∈ commaBrace → ∀ rest,
    members (text m ++ sep :: rest) = entry m :: members rest)

include taken

/-- Members that the reader takes off the text one by one, each ended by a comma. -/
theorem members_leading (ms : List α) (rest : Bytes) :
    members (ms.flatMap (fun m => text m ++ [comma]) ++ rest) = ms.map entry ++ members rest := by
  induction ms with
  | nil => rfl
  | cons m ms ih =>
    have step := taken m comma (by decide) (ms.flatMap (fun m => text m ++ [comma]) ++ rest)
    rw [List.flatMap_cons, List.append_assoc, List.append_assoc, List.singleton_append, step, ih]
    rfl

/-- Such members, each after a comma: the text starts with a separator, and the reader finds the
members behind it. -/
theorem members_trailing (ms : List α) (rest : Bytes) : ∃ sep tail,
    ms.flatMap (fun m => comma :: text m) ++ closeBrace :: rest = sep :: tail ∧ sep ∈ commaBrace ∧
      members tail = ms.map entry ++ members rest := by
  induction ms with
  | nil => exact ⟨closeBrace, rest, rfl, by decide, rfl⟩
  | cons m ms ih =>
    obtain ⟨sep, tail, split, hsep, found⟩ := ih
    refine ⟨comma, text m ++ sep :: tail, ?_, by decide, ?_⟩
    · rw [List.flatMap_cons, List.append_assoc, split]
      rfl
    · rw [taken m sep hsep, found]
      rfl

end Several

/-- All members of an object, whatever follows its closing brace. -/
theorem members_membersText (ms : List FlatMember) (some : ms ≠ []) (rest : Bytes) :
    members (membersText ms ++ closeBrace :: rest) = ms.map FlatMember.entry ++ members rest := by
  induction ms with
  | nil => exact absurd rfl some
  | cons m ms ih =>
    cases ms with
    | nil => exact m.members_text (by decide) rest
    | cons m' ms =>
      have step := m.members_text (show comma ∈ commaBrace by decide)
        (membersText (m' :: ms) ++ closeBrace :: rest)
      rw [membersText, List.append_assoc, List.cons_append, step, ih (by simp)]
      · rfl
      · simp

/-- The reader finds the members of a flat object. -/
theorem FlatObject.members_text (o : FlatObject) :
    ModelRuntime.members o.text = o.members.map FlatMember.entry := by
  have blank : ∀ c ∈ o.before ++ o.inside ++ o.after, isWs c = true := o.blank
  have noQuote := (no_structure blank).1
  simp only [List.mem_append, not_or] at noQuote
  obtain ⟨⟨before, inside⟩, after⟩ := noQuote
  have brace : quote ≠ openBrace ∧ quote ≠ closeBrace := by decide
  have start : quote ∉ o.before ++ [openBrace] := by simp [before, brace]
  have shape : o.text = (o.before ++ [openBrace]) ++
      ((if o.members = [] then o.inside else membersText o.members) ++ closeBrace :: o.after) := by
    simp [text]
  rw [shape, members_junk start]
  by_cases empty : o.members = []
  · rw [if_pos empty, empty]
    apply members_no_quote
    simp [inside, after, brace]
  · rw [if_neg empty, members_membersText _ empty, members_no_quote after, List.append_nil]

/-- **Flat objects** are read to the map of their members, the last of repeated keys winning. -/
theorem FlatObject.parseJson_text (o : FlatObject) :
    ∃ m, parseJson o.text = .ok m ∧
      ∀ key, m.lookup key = lastValue (o.members.map FlatMember.entry) key := by
  rw [← o.members_text]
  exact parseJson_lookup o.text

end ModelRuntime
