import ModelRuntime.Cpp.Number
import ModelRuntime.Lib.JsonRead

/-!
# Texts of values

`Reads t v` says that `t` is read as `v` before anything that cannot go on a number. It is closed
under the ways a text is put together: numbers in decimal, verbatim strings, arrays and objects.
-/

namespace ModelRuntime.Lib.Json
open Cpp

/-- What follows cannot be part of a number. -/
def Stops (rest : Bytes) : Prop :=
  ∀ c ∈ rest.head?, isDigit c = false ∧ c ≠ 46 ∧ c ≠ 101 ∧ c ≠ 69

theorem stops_nil : Stops [] := fun _ h => by cases h

theorem stops_cons {c : UInt8} (h : isDigit c = false ∧ c ≠ 46 ∧ c ≠ 101 ∧ c ≠ 69) (r : Bytes) :
    Stops (c :: r) := by
  intro d hd
  cases hd
  exact h

/-- `t` is read as `v` wherever it stands, with more fuel than it has bytes. -/
def Reads (t : Bytes) (v : Json) : Prop :=
  ∀ fuel rest, t.length < fuel → Stops rest → value fuel (t ++ rest) = some (v, rest)

theorem Reads.ofText {t : Bytes} {v : Json} (h : Reads t v) : ofText t = some v := by
  have read := h (t.length + 1) [] (by omega) stops_nil
  rw [List.append_nil] at read
  rw [Json.ofText, read]

/-! ## Numbers -/

theorem dropWhile_digits {ds rest : Bytes} (digits : ∀ c ∈ ds, isDigit c = true) (h : Stops rest) :
    (ds ++ rest).dropWhile isDigit = rest := by
  rw [List.dropWhile_append_of_pos digits]
  cases rest with
  | nil => rfl
  | cons c r => rw [List.dropWhile_cons, if_neg (by simp [(h c rfl).1])]

theorem intPart_decimal (n : Nat) {rest : Bytes} (h : Stops rest) :
    intPart (decimal n ++ rest) = some rest := by
  by_cases zero : n = 0
  · subst zero
    rfl
  · obtain ⟨c, ds, split⟩ := List.exists_cons_of_ne_nil (decimal_ne_nil n)
    have head := decimal_head zero
    have digits := decimal_digits n
    rw [split] at head digits ⊢
    have other : c ≠ 48 := by
      rintro rfl
      exact head rfl
    rw [List.cons_append, intPart, if_neg other, if_pos (digits c (by simp)),
      dropWhile_digits (fun x hx => digits x (by simp [hx])) h]

theorem afterNumber_decimalInt (n : Int) {rest : Bytes} (h : Stops rest) :
    afterNumber (decimalInt n ++ rest) = some rest := by
  have noFrac : fracPart rest = some rest := by
    cases rest with
    | nil => rfl
    | cons c r =>
      have := (h c rfl).2.1
      rw [fracPart, dropByte, if_neg (by simpa using this)]
  have noExp : expPart rest = some rest := by
    cases rest with
    | nil => rfl
    | cons c r =>
      have := (h c rfl).2.2
      rw [expPart, dropByte, if_neg (by simpa using this)]
  have sign : (dropByte (· == 45) (decimalInt n ++ rest)).getD (decimalInt n ++ rest) =
      decimal n.natAbs ++ rest := by
    unfold decimalInt
    split
    · rfl
    · obtain ⟨c, ds, split⟩ := List.exists_cons_of_ne_nil (decimal_ne_nil n.natAbs)
      have digit := decimal_digits n.natAbs c (by simp [split])
      rw [split, List.cons_append, dropByte, if_neg (by simpa using (isDigit_not_other digit).2.1)]
      rfl
  rw [afterNumber, sign, intPart_decimal _ h, Option.bind_some, noFrac, Option.bind_some, noExp]

/-- The first byte of a decimal number starts nothing else. -/
theorem decimalInt_head (n : Int) : ∃ c r, decimalInt n = c :: r ∧ c ≠ quote ∧ c ≠ 91 ∧
    c ≠ openBrace ∧ c ≠ 116 ∧ c ≠ 102 ∧ c ≠ 110 := by
  unfold decimalInt
  split
  · exact ⟨45, _, rfl, by decide⟩
  · obtain ⟨c, ds, split⟩ := List.exists_cons_of_ne_nil (decimal_ne_nil n.natAbs)
    have digit := decimal_digits n.natAbs c (by simp [split])
    refine ⟨c, ds, split, ?_⟩
    simp only [isDigit, Bool.and_eq_true, decide_eq_true_eq, UInt8.le_iff_toNat_le,
      UInt8.reduceToNat] at digit
    simp only [quote, openBrace, ne_eq, ← UInt8.toNat_inj, UInt8.reduceToNat]
    omega

theorem reads_decimalInt (n : Int) : Reads (decimalInt n) (.number (decimalInt n)) := by
  intro fuel rest more h
  obtain ⟨c, r, split, hq, hb, ho, ht, hf, hn⟩ := decimalInt_head n
  have after := afterNumber_decimalInt n h
  have notWord : ∀ d w, c ≠ d → (d :: w).isPrefixOf (c :: (r ++ rest)) = false := by
    intro d w other
    rw [List.isPrefixOf, beq_eq_false_iff_ne.2 (Ne.symm other)]
    rfl
  cases fuel with
  | zero => omega
  | succ fuel =>
    rw [split, List.cons_append] at after ⊢
    rw [value, if_neg hq, if_neg hb, if_neg ho, literal]
    rw [if_neg (by rw [show str "true" = 116 :: [114, 117, 101] from rfl, notWord _ _ ht]; simp),
      if_neg (by rw [show str "false" = 102 :: [97, 108, 115, 101] from rfl, notWord _ _ hf]; simp),
      if_neg (by rw [show str "null" = 110 :: [117, 108, 108] from rfl, notWord _ _ hn]; simp), after]
    have count : (c :: (r ++ rest)).length - rest.length = (c :: r).length := by
      simp only [List.length_cons, List.length_append]
      omega
    rw [Option.map_some, count, ← List.cons_append, List.take_left]

theorem reads_decimal (n : Nat) : Reads (decimal n) (.number (decimal n)) := reads_decimalInt n

/-! ## Strings and words -/

/-- A text between quotes. -/
def quoted (s : Bytes) : Bytes := quote :: (s ++ [quote])

/-- In front of the comma and the rest. -/
theorem quoted_append (s r : Bytes) : quoted s ++ r = quote :: (s ++ quote :: r) := by
  simp [quoted]

theorem reads_string {s : Bytes} (h : Verbatim s) : Reads (quoted s) (.string s) := by
  intro fuel rest more _
  cases fuel with
  | zero => omega
  | succ fuel =>
    rw [quoted, List.cons_append, List.append_assoc, List.singleton_append, value, if_pos rfl,
      stringBody_verbatim h]
    rfl

theorem reads_null : Reads (str "null") .null := by
  intro fuel rest more _
  cases fuel with
  | zero => omega
  | succ fuel => rfl

def boolText (b : Bool) : Bytes := if b then str "true" else str "false"

theorem reads_bool (b : Bool) : Reads (boolText b) (.bool b) := by
  intro fuel rest more _
  cases fuel with
  | zero => omega
  | succ fuel => cases b <;> rfl

/-- What is read starts with no blank. -/
theorem Reads.start {t : Bytes} {v : Json} (h : Reads t v) (r : Bytes) : skipWs (t ++ r) = t ++ r := by
  obtain ⟨c, t, rfl, solid, _⟩ := ofText_start h.ofText
  rw [skipWs, List.cons_append, List.dropWhile_cons, if_neg (by simp [solid])]

/-! ## Objects -/

theorem skipWs_blanks {ws : Bytes} (blank : ∀ c ∈ ws, isWs c = true) (t : Bytes) :
    skipWs (ws ++ t) = skipWs t := List.dropWhile_append_of_pos blank

/-- `"key":`, blanks and a value. -/
def fieldText (ws key t : Bytes) : Bytes := quote :: (key ++ quote :: colon :: (ws ++ t))

/-- `"key": ` and a value. -/
def memberText (key t : Bytes) : Bytes := quote :: (key ++ quote :: colon :: 32 :: t)

theorem fieldText_append (ws key t u : Bytes) : fieldText ws key t ++ u = fieldText ws key (t ++ u) := by
  simp [fieldText]

section Field

variable {ws : Bytes} (blank : ∀ c ∈ ws, isWs c = true) {key t r : Bytes} (hkey : Verbatim key)

include blank hkey

theorem members_fieldText (solid : skipWs t = t) (fuel : Nat) :
    members (fuel + 1) (fieldText ws key t) =
      (value fuel t).bind fun (x, r) => afterItem closeBrace (members fuel) (key, x) r := by
  have opening : dropByte (· == quote) (fieldText ws key t) = some (key ++ quote :: colon :: (ws ++ t)) := rfl
  have sep : dropByte (· == colon) (skipWs (colon :: (ws ++ t))) = some (ws ++ t) := rfl
  have start : skipWs (ws ++ t) = t := by rw [skipWs_blanks blank, solid]
  rw [members]
  simp only [opening, stringBody_verbatim hkey, sep, start, Option.bind_eq_bind, Option.bind_some]
  rfl

/-- A known member and a comma. -/
theorem members_known {v : Json} (h : Reads t v) (solid : skipWs r = r) {fuel : Nat}
    (more : t.length < fuel) :
    members (fuel + 1) (fieldText ws key t ++ comma :: r) =
      (members fuel r).map fun (ms, r) => ((key, v) :: ms, r) := by
  have next : dropByte (· == comma) (skipWs (comma :: r)) = some r := rfl
  rw [fieldText_append, members_fieldText blank hkey (h.start _),
    h fuel _ more (stops_cons (by decide) r), Option.bind_some]
  dsimp only
  rw [afterItem, next]
  dsimp only
  rw [solid]

/-- A known member and the closing brace. -/
theorem members_last {v : Json} (h : Reads t v) {fuel : Nat} (more : t.length < fuel) :
    members (fuel + 1) (fieldText ws key t ++ closeBrace :: r) = some ([(key, v)], r) := by
  rw [fieldText_append, members_fieldText blank hkey (h.start _),
    h fuel _ more (stops_cons (by decide) r)]
  rfl

end Field

/-- What is written with one blank after each colon. -/
theorem one_blank : ∀ c ∈ ([32] : Bytes), isWs c = true := by decide

theorem members_memberText {key t : Bytes} (hkey : Verbatim key) (solid : skipWs t = t) (fuel : Nat) :
    members (fuel + 1) (memberText key t) =
      (value fuel t).bind fun (x, r) => afterItem closeBrace (members fuel) (key, x) r :=
  members_fieldText one_blank hkey solid fuel

/-- Members whose values are known: key, text and value. -/
abbrev KnownMembers := List (Bytes × Bytes × Json)

/-- The members, a comma after each. -/
def fieldsText (ws : Bytes) (ms : KnownMembers) : Bytes :=
  ms.flatMap fun m => fieldText ws m.1 m.2.1 ++ [comma]

/-- The members, a comma after each. -/
def frontText (ms : KnownMembers) : Bytes := ms.flatMap fun m => memberText m.1 m.2.1 ++ [comma]

def values (ms : KnownMembers) : List (Bytes × Json) := ms.map fun m => (m.1, m.2.2)

def Known (ms : KnownMembers) : Prop := ∀ m ∈ ms, Verbatim m.1 ∧ Reads m.2.1 m.2.2

theorem known_nil : Known [] := fun m h => by cases h

theorem Known.cons {key t : Bytes} {v : Json} {ms : KnownMembers} (hkey : Verbatim key) (h : Reads t v)
    (hs : Known ms) : Known ((key, t, v) :: ms) := by
  intro m mem
  rcases List.mem_cons.1 mem with rfl | mem
  · exact ⟨hkey, h⟩
  · exact hs m mem

theorem Known.append {ms ns : KnownMembers} (h : Known ms) (k : Known ns) : Known (ms ++ ns) := by
  intro m mem
  rcases List.mem_append.1 mem with mem | mem
  · exact h m mem
  · exact k m mem

/-- The text of an object whose last member is apart. -/
def recordText (ws : Bytes) (ms : KnownMembers) (key t : Bytes) : Bytes :=
  openBrace :: (fieldsText ws ms ++ (fieldText ws key t ++ [closeBrace]))

/-- The text of an object whose last member is apart. -/
def objectText (ms : KnownMembers) (key t : Bytes) : Bytes :=
  openBrace :: (frontText ms ++ (memberText key t ++ [closeBrace]))

section Record

variable (ws : Bytes)

theorem fieldsText_length (ms : KnownMembers) :
    ms.length ≤ (fieldsText ws ms).length ∧
      ∀ m ∈ ms, m.2.1.length + ms.length ≤ (fieldsText ws ms).length := by
  induction ms with
  | nil => exact ⟨Nat.le_refl 0, fun m h => by cases h⟩
  | cons x ms ih =>
    obtain ⟨count, bound⟩ := ih
    have size : x.2.1.length + 4 + (fieldsText ws ms).length ≤ (fieldsText ws (x :: ms)).length := by
      simp only [fieldsText, List.flatMap_cons, fieldText, List.length_append, List.length_cons,
        List.length_nil]
      omega
    rw [List.length_cons]
    refine ⟨by omega, fun m h => ?_⟩
    rcases List.mem_cons.1 h with rfl | h
    · omega
    · have := bound m h
      omega

theorem fieldsText_append (ms ns : KnownMembers) :
    fieldsText ws (ms ++ ns) = fieldsText ws ms ++ fieldsText ws ns := List.flatMap_append

/-- An object's text up to its last member. -/
theorem recordText_last (ms : KnownMembers) (key t r : Bytes) :
    recordText ws ms key t ++ r =
      openBrace :: (fieldsText ws ms ++ fieldText ws key (t ++ closeBrace :: r)) := by
  rw [recordText, List.cons_append, List.append_assoc, List.append_assoc, fieldText_append,
    List.singleton_append]

/-- An object's text up to some member. -/
theorem recordText_member (front : KnownMembers) (m : Bytes × Bytes × Json) (back : KnownMembers)
    (key t r : Bytes) : ∃ tail, recordText ws (front ++ m :: back) key t ++ r =
      openBrace :: (fieldsText ws front ++ fieldText ws m.1 (m.2.1 ++ comma :: tail)) := by
  refine ⟨fieldsText ws back ++ fieldText ws key (t ++ closeBrace :: r), ?_⟩
  have next : fieldsText ws (m :: back) = fieldText ws m.1 m.2.1 ++ [comma] ++ fieldsText ws back := rfl
  rw [recordText_last, fieldsText_append, next]
  simp only [List.append_assoc, List.cons_append, List.nil_append, fieldText_append]

variable {ws} (blank : ∀ c ∈ ws, isWs c = true)

include blank

/-- Known members are read off the text, whatever follows. -/
theorem members_front {ms : KnownMembers} (known : Known ms) {r : Bytes} (solid : skipWs r = r)
    {fuel : Nat} (more : ∀ m ∈ ms, m.2.1.length < fuel) :
    members (fuel + ms.length) (fieldsText ws ms ++ r) =
      (members fuel r).map fun (out, r) => (values ms ++ out, r) := by
  induction ms with
  | nil =>
    show members fuel r = _
    cases members fuel r <;> rfl
  | cons m ms ih =>
    obtain ⟨hkey, h⟩ := known m (by simp)
    have rest := ih (fun x hx => known x (by simp [hx])) fun x hx => more x (by simp [hx])
    have next : skipWs (fieldsText ws ms ++ r) = fieldsText ws ms ++ r := by
      cases ms with
      | nil => exact solid
      | cons m' ms => rfl
    have size := more m (by simp)
    have split : fieldsText ws (m :: ms) ++ r =
        fieldText ws m.1 m.2.1 ++ comma :: (fieldsText ws ms ++ r) := by
      simp [fieldsText]
    rw [split, List.length_cons, ← Nat.add_assoc, members_known blank hkey h next (by omega), rest,
      Option.map_map]
    rfl

theorem reads_record {ms : KnownMembers} (known : Known ms) {key t : Bytes} {v : Json}
    (hkey : Verbatim key) (h : Reads t v) :
    Reads (recordText ws ms key t) (.object (values ms ++ [(key, v)])) := by
  intro fuel rest more stops
  obtain ⟨count, bound⟩ := fieldsText_length ws ms
  have size : (fieldsText ws ms).length + t.length + 5 ≤ (recordText ws ms key t).length := by
    simp only [recordText, fieldText, List.length_append, List.length_cons, List.length_nil]
    omega
  obtain ⟨g, rfl⟩ : ∃ g, fuel = (g + 1 + ms.length) + 1 := ⟨fuel - ms.length - 2, by omega⟩
  have split : recordText ws ms key t ++ rest =
      openBrace :: (fieldsText ws ms ++ (fieldText ws key t ++ closeBrace :: rest)) := by
    rw [recordText_last, fieldText_append]
  have solid : skipWs (fieldsText ws ms ++ (fieldText ws key t ++ closeBrace :: rest)) =
      fieldsText ws ms ++ (fieldText ws key t ++ closeBrace :: rest) := by
    cases ms <;> rfl
  have opens : dropByte (· == closeBrace)
      (fieldsText ws ms ++ (fieldText ws key t ++ closeBrace :: rest)) = none := by
    cases ms <;> rfl
  have inner := members_last blank hkey h (r := rest) (show t.length < g by omega)
  have read : members (g + 1 + ms.length)
      (fieldsText ws ms ++ (fieldText ws key t ++ closeBrace :: rest)) =
      some (values ms ++ [(key, v)], rest) := by
    rw [members_front blank known rfl (fun m hm => by have := bound m hm; omega), inner]
    rfl
  rw [split, value, if_neg (by decide), if_neg (by decide), if_pos rfl, solid, opens, read]
  rfl

end Record

theorem reads_object {ms : KnownMembers} (known : Known ms) {key t : Bytes} {v : Json}
    (hkey : Verbatim key) (h : Reads t v) :
    Reads (objectText ms key t) (.object (values ms ++ [(key, v)])) :=
  reads_record one_blank known hkey h

/-- An array of one value. -/
theorem reads_array {t : Bytes} {v : Json} (h : Reads t v) : Reads (91 :: (t ++ [93])) (.array [v]) := by
  intro fuel rest more _
  have size : (91 :: (t ++ [93])).length = t.length + 2 := by simp
  obtain ⟨g, rfl⟩ : ∃ g, fuel = g + 1 + 1 := ⟨fuel - 2, by omega⟩
  obtain ⟨c, r, split, solid, _⟩ := ofText_start h.ofText
  have opens : dropByte (· == 93) (t ++ 93 :: rest) = none := by
    have other : c ≠ 93 := by
      rintro rfl
      have isText := h.ofText
      rw [split, ofText_bracket] at isText
      cases isText
    rw [split, List.cons_append, dropByte, if_neg (by simpa using other)]
  have read := h g (93 :: rest) (by omega) (stops_cons (by decide) rest)
  have elems : elements (g + 1) (t ++ 93 :: rest) = some ([v], rest) := by
    rw [elements, read]
    rfl
  have whole : (91 :: (t ++ [93])) ++ rest = 91 :: (t ++ 93 :: rest) := by simp
  rw [whole, value, if_neg (by decide), if_pos rfl, h.start, opens, elems]
  rfl

theorem Reads.decode {t : Bytes} {v : Json} (h : Reads t v) : decode t = some v := by
  have solid := h.start []
  have read := h (t.length + 1) [] (by omega) stops_nil
  rw [List.append_nil] at solid read
  rw [Json.decode, solid, read]
  rfl

end ModelRuntime.Lib.Json
