import ModelRuntime.Cpp.Number

/-!
# Messages framed by a length

A start line, fields, an empty line, and a body whose length one of the fields gives; a line ends in
CR LF. The reader takes one message off the front of a stream and gives back what follows it. It never
changes its mind when more of the stream arrives (`readMessage_left`), so that no part of a message is
taken for the whole of it.
-/

namespace ModelRuntime.Lib
open Cpp

def crlf : Bytes := [carriage, newline]

structure Message where
  start : Bytes
  fields : List (Bytes × Bytes)
  body : Bytes
  deriving DecidableEq

def headerText (field : Bytes × Bytes) : Bytes := field.1 ++ colon :: 32 :: field.2

/-- The lines of the head. -/
def Message.head (m : Message) : List Bytes := m.start :: m.fields.map headerText

def Message.text (m : Message) : Bytes := m.head.flatMap (· ++ crlf) ++ (crlf ++ m.body)

/-! ## The reader -/

/-- The lines before the first empty one, and what follows it; `none` where the text ends before. -/
def readLines : Nat → Bytes → Option (List Bytes × Bytes)
  | 0, _ => none
  | fuel + 1, s =>
    match cutText crlf s with
    | none => none
    | some ([], rest) => some ([], rest)
    | some (line, rest) => (readLines fuel rest).map fun x => (line :: x.1, x.2)

/-- The name and the value, without the blanks between them. -/
def readField (line : Bytes) : Option (Bytes × Bytes) :=
  (cut (· == colon) line).map fun x => (x.1, x.2.2.dropWhile (· == 32))

/-- The start line and the fields. -/
def readHead : List Bytes → Option (Bytes × List (Bytes × Bytes))
  | [] => none
  | start :: lines => (lines.mapM readField).map (start, ·)

/-- The length a field gives. -/
def readLength (name : Bytes) (fields : List (Bytes × Bytes)) : Option Nat :=
  match fields.lookup name with
  | none => none
  | some digits => if digits ≠ [] ∧ ∀ c ∈ digits, isDigit c = true then some (digitsValue digits) else none

/-- The first message of a stream, and what follows it. The field `name` gives the length of a body. -/
def readMessage (name s : Bytes) : Option (Message × Bytes) := do
  let (lines, rest) ← readLines (s.length + 1) s
  let (start, fields) ← readHead lines
  let length ← readLength name fields
  if rest.length < length then none
  else some (⟨start, fields, rest.take length⟩, rest.drop length)

/-! ## More of the stream -/

theorem readLines_left {fuel fuel' : Nat} (more : fuel ≤ fuel') {s rest : Bytes} {lines : List Bytes}
    (read : readLines fuel s = some (lines, rest)) (t : Bytes) :
    readLines fuel' (s ++ t) = some (lines, rest ++ t) := by
  induction fuel generalizing fuel' s lines with
  | zero => cases read
  | succ fuel ih =>
    obtain ⟨fuel', rfl⟩ : ∃ k, fuel' = k + 1 := ⟨fuel' - 1, by omega⟩
    rw [readLines] at read ⊢
    cases cutting : cutText crlf s with
    | none => rw [cutting] at read; cases read
    | some parts =>
      obtain ⟨line, after⟩ := parts
      rw [cutting] at read
      rw [cutText_left cutting t]
      cases line with
      | nil =>
        cases read
        rfl
      | cons c line =>
        obtain ⟨⟨lines', rest'⟩, later, done⟩ := Option.map_eq_some_iff.1 read
        cases done
        dsimp only
        rw [ih (by omega) later, Option.map_some]

/-- **More of the stream** changes nothing about a message that has been read. -/
theorem readMessage_left {name s rest : Bytes} {m : Message} (read : readMessage name s = some (m, rest))
    (t : Bytes) : readMessage name (s ++ t) = some (m, rest ++ t) := by
  simp only [readMessage, Option.bind_eq_bind, Option.bind_eq_some_iff] at read
  obtain ⟨⟨lines, after⟩, hlines, ⟨start, fields⟩, hhead, length, hlength, done⟩ := read
  have longer : s.length + 1 ≤ (s ++ t).length + 1 := by
    rw [List.length_append]
    omega
  simp only [readMessage, Option.bind_eq_bind, readLines_left longer hlines t, Option.bind_some, hhead,
    hlength]
  by_cases short : after.length < length
  · rw [if_pos short] at done
    cases done
  · rw [if_neg short] at done
    cases done
    rw [if_neg (by rw [List.length_append]; omega), List.take_append_of_le_length (by omega),
      List.drop_append_of_le_length (by omega)]

/-! ## What is written is read -/

/-- The lines end where they should, and the field `name` has the length of the body. -/
structure Message.Framed (name : Bytes) (m : Message) : Prop where
  nonempty : m.start ≠ []
  start : carriage ∉ m.start
  fields : ∀ field ∈ m.fields, carriage ∉ field.1 ∧ colon ∉ field.1 ∧ carriage ∉ field.2 ∧
    field.2.head? ≠ some 32
  length : m.fields.lookup name = some (decimal m.body.length)

theorem cutText_crlf {line : Bytes} (plain : carriage ∉ line) (rest : Bytes) :
    cutText crlf (line ++ crlf ++ rest) = some (line, rest) := by
  have here : cutText crlf (crlf ++ rest) = some ([], rest) := by
    rw [crlf, List.cons_append, cutText, if_pos (by simp)]
    rfl
  rw [List.append_assoc]
  refine (cutText_skip (fun c mem same => plain (by rwa [← same])) _).trans ?_
  rw [show carriage :: [newline] = crlf from rfl, here, Option.map_some, List.append_nil]

theorem readLines_lines {lines : List Bytes} (plain : ∀ line ∈ lines, line ≠ [] ∧ carriage ∉ line)
    (rest : Bytes) {fuel : Nat} (enough : lines.length < fuel) :
    readLines fuel (lines.flatMap (· ++ crlf) ++ (crlf ++ rest)) = some (lines, rest) := by
  induction lines generalizing fuel with
  | nil =>
    obtain ⟨fuel, rfl⟩ : ∃ k, fuel = k + 1 := ⟨fuel - 1, by simp at enough; omega⟩
    rw [readLines, List.flatMap_nil, List.nil_append,
      show crlf ++ rest = [] ++ crlf ++ rest from rfl, cutText_crlf (by simp)]
  | cons line lines ih =>
    obtain ⟨fuel, rfl⟩ : ∃ k, fuel = k + 1 := ⟨fuel - 1, by simp at enough; omega⟩
    obtain ⟨nonempty, noCarriage⟩ := plain line List.mem_cons_self
    rw [readLines, List.flatMap_cons, List.append_assoc, cutText_crlf noCarriage]
    cases line with
    | nil => exact absurd rfl nonempty
    | cons c line =>
      dsimp only
      rw [ih (fun l mem => plain l (List.mem_cons_of_mem _ mem)) (by simpa using enough), Option.map_some]

theorem readField_text {field : Bytes × Bytes} (noColon : colon ∉ field.1)
    (noBlank : field.2.head? ≠ some 32) : readField (headerText field) = some field := by
  have value : (32 :: field.2).dropWhile (· == 32) = field.2 := by
    rw [List.dropWhile_cons, if_pos (by decide)]
    cases value : field.2 with
    | nil => rfl
    | cons c r =>
      rw [List.dropWhile_cons, if_neg]
      rw [value] at noBlank
      simpa using noBlank
  rw [readField, headerText, cut_append (no_byte noColon) (beq_self_eq_true colon), Option.map_some, value]

theorem readFields_text {fields : List (Bytes × Bytes)}
    (plain : ∀ field ∈ fields, colon ∉ field.1 ∧ field.2.head? ≠ some 32) :
    (fields.map headerText).mapM readField = some fields := by
  induction fields with
  | nil => rfl
  | cons field fields ih =>
    obtain ⟨noColon, noBlank⟩ := plain field List.mem_cons_self
    rw [List.map_cons, List.mapM_cons, readField_text noColon noBlank,
      ih fun f mem => plain f (List.mem_cons_of_mem _ mem)]
    rfl

theorem Message.Framed.head {name : Bytes} {m : Message} (h : m.Framed name) :
    ∀ line ∈ m.head, line ≠ [] ∧ carriage ∉ line := by
  intro line mem
  rcases List.mem_cons.1 mem with rfl | mem
  · exact ⟨h.nonempty, h.start⟩
  · obtain ⟨field, inside, rfl⟩ := List.mem_map.1 mem
    obtain ⟨noName, _, noValue, _⟩ := h.fields field inside
    have fixed : carriage ≠ colon ∧ carriage ≠ 32 := by decide
    constructor
    · simp [headerText]
    · simp [headerText, noName, noValue, fixed]

/-- **A framed message is read back** from the front of any stream, and the rest of the stream is left. -/
theorem Message.Framed.read {name : Bytes} {m : Message} (h : m.Framed name) (rest : Bytes) :
    readMessage name (m.text ++ rest) = some (m, rest) := by
  have enough : m.head.length < (m.text ++ rest).length + 1 := by
    have each : ∀ lines : List Bytes, lines.length ≤ (lines.flatMap (· ++ crlf)).length := by
      intro lines
      induction lines with
      | nil => exact Nat.zero_le _
      | cons line lines ih =>
        rw [List.flatMap_cons, List.length_append, List.length_append, List.length_cons]
        have two : crlf.length = 2 := rfl
        omega
    have head := each m.head
    rw [Message.text, List.length_append, List.length_append]
    omega
  have length : readLength name m.fields = some m.body.length := by
    rw [readLength, h.length]
    dsimp only
    rw [if_pos ⟨decimal_ne_nil _, decimal_digits _⟩, digitsValue_decimal]
  have lines := readLines_lines h.head (m.body ++ rest) enough
  have fields := readFields_text fun f mem => ⟨(h.fields f mem).2.1, (h.fields f mem).2.2.2⟩
  rw [← List.append_assoc, ← List.append_assoc, List.append_assoc _ crlf, ← Message.text] at lines
  simp only [readMessage, Option.bind_eq_bind, lines, Option.bind_some, Message.head, readHead, fields,
    Option.map_some, length]
  rw [if_neg (by rw [List.length_append]; omega), List.take_left, List.drop_left]

/-- **No part of a framed message** is read as a message. -/
theorem Message.Framed.incomplete {name : Bytes} {m : Message} (h : m.Framed name) {n : Nat}
    (part : n < m.text.length) : readMessage name (m.text.take n) = none := by
  cases read : readMessage name (m.text.take n) with
  | none => rfl
  | some found =>
    obtain ⟨m', rest⟩ := found
    have whole := readMessage_left read (m.text.drop n)
    have same := h.read []
    rw [List.take_append_drop] at whole
    rw [List.append_nil, whole, Option.some.injEq, Prod.mk.injEq] at same
    have left := (List.append_eq_nil_iff.1 same.2).2
    rw [List.drop_eq_nil_iff] at left
    omega

end ModelRuntime.Lib
