import ModelRuntime.Tokenizer.VocabFile

/-!
# The kinds of line

`LineShape` and `FirstKind` are the classifiers of `load` as case distinctions on the text of a line: what is
said about all lines of a file is said about their cases. Whether a file can be read does not depend on what
it is loaded into (`load_ok_iff`).
-/

namespace ModelRuntime
open Cpp Lib

/-- The four kinds of line. Two fields are cut at the first space, a line that starts with a space at the last. -/
inductive LineShape : Bytes → Prop where
  | blank : LineShape []
  | bare {line : Bytes} (ne : line ≠ []) (noSpace : 32 ∉ line) : LineShape line
  | fields {left right : Bytes} (ne : left ≠ []) (first : 32 ∉ left) : LineShape (left ++ 32 :: right)
  | lead {left right : Bytes} (head : (left ++ 32 :: right).head? = some 32) (last : 32 ∉ right) :
      LineShape (left ++ 32 :: right)

section Line

variable {line left right : Bytes} {c : UInt8} {id : Int}

theorem bind_ok {α β : Type} (x : Except StdException α) (f : α → β) : (x >>= fun a => .ok (f a)) = x.map f := by
  cases x <;> rfl

/-- A byte of a text has a last place in it. -/
theorem split_last (mem : c ∈ line) : ∃ left right, line = left ++ c :: right ∧ c ∉ right := by
  obtain ⟨left, right, split, first⟩ := split_first (List.mem_reverse.2 mem)
  refine ⟨right.reverse, left.reverse, ?_, fun again => first (List.mem_reverse.1 again)⟩
  have back := congrArg List.reverse split
  rw [List.reverse_reverse] at back
  simpa using back

theorem split_first_unique {left' right' : Bytes} (same : left ++ c :: right = left' ++ c :: right')
    (first : c ∉ left) (first' : c ∉ left') : left = left' ∧ right = right' := by
  have found := congrArg (find · c 0) same
  rw [find_first first, find_first first', Option.some.injEq] at found
  obtain ⟨lefts, rights⟩ := List.append_inj same found
  exact ⟨lefts, (List.cons.inj rights).2⟩

theorem split_last_unique {left' right' : Bytes} (same : left ++ c :: right = left' ++ c :: right')
    (last : c ∉ right) (last' : c ∉ right') : left = left' ∧ right = right' := by
  have found := congrArg (rfind · c) same
  rw [rfind_last last, rfind_last last', Option.some.injEq] at found
  obtain ⟨lefts, rights⟩ := List.append_inj same found
  exact ⟨lefts, (List.cons.inj rights).2⟩

theorem lineShape (line : Bytes) : LineShape line := by
  by_cases empty : line = []
  · subst empty
    exact .blank
  by_cases head : line.head? = some 32
  · obtain ⟨left, right, rfl, last⟩ := split_last (List.mem_of_head? head)
    exact .lead head last
  · by_cases space : 32 ∈ line
    · obtain ⟨left, right, rfl, first⟩ := split_first space
      refine .fields ?_ first
      rintro rfl
      exact head rfl
    · exact .bare empty space

theorem head_fields (ne : left ≠ []) (first : 32 ∉ left) : (left ++ 32 :: right).head? ≠ some 32 := by
  intro head
  cases left with
  | nil => exact ne rfl
  | cons c left =>
    rw [List.cons_append, List.head?_cons, Option.some.injEq] at head
    exact first (head ▸ List.mem_cons_self)

/-! ## What the loop makes of them -/

variable (id) in
theorem vocabLine_word (ne : line ≠ []) (noSpace : 32 ∉ line) :
    vocabLine id line = .ok (.token line id, toInt (id + 1)) := by
  have head : line.head? ≠ some 32 := fun head => noSpace (List.mem_of_head? head)
  rw [vocabLine, if_neg ne, if_neg head, find_absent noSpace]
  dsimp only
  rw [bareLine, rfind_absent noSpace]

variable (id right) in
theorem vocabLine_split (ne : left ≠ []) (first : 32 ∉ left) : vocabLine id (left ++ 32 :: right) =
    if idField right then (stoi right).map fun n => (.token left n, id) else .ok (.merge left right, id) := by
  have filled : left ++ 32 :: right ≠ [] := by simp
  rw [vocabLine, if_neg filled, if_neg (head_fields ne first), find_first first]
  dsimp only
  rw [substr_left, substr_right]
  change (if idField right then _ else _) = _
  by_cases field : idField right = true
  · rw [if_pos field, if_pos field]
    exact bind_ok (stoi right) fun n => (VocabLine.token left n, id)
  · rw [if_neg field, if_neg field]
    rfl

variable (id) in
theorem vocabLine_lead (head : (left ++ 32 :: right).head? = some 32) (last : 32 ∉ right) :
    vocabLine id (left ++ 32 :: right) = (stoi right).map fun n => (.token left n, id) := by
  have filled : left ++ 32 :: right ≠ [] := by simp
  rw [vocabLine, if_neg filled, if_pos head]
  dsimp only
  rw [bareLine, rfind_last last]
  dsimp only
  rw [substr_left, substr_right]
  exact bind_ok (stoi right) fun n => (VocabLine.token left n, id)

/-! ## Readable lines -/

/-- Its only space does not end the line, and where the line starts with a space a number follows the last
one. -/
structure ReadableLine (line : Bytes) : Prop where
  filled : ∀ left, 32 ∉ left → line ≠ left ++ [32]
  number : line.head? = some 32 → ∀ left right, line = left ++ 32 :: right → 32 ∉ right → IntText right

theorem intText_ne (text : IntText right) : right ≠ [] := by
  rintro rfl
  obtain ⟨n, read⟩ := stoi_ok_iff.2 text
  cases read

theorem map_ok_iff {α β : Type} {x : Except StdException α} {f : α → β} :
    (∃ b, x.map f = .ok b) ↔ ∃ a, x = .ok a := by
  cases x with
  | error e => exact iff_of_false nofun nofun
  | ok a => exact iff_of_true ⟨f a, rfl⟩ ⟨a, rfl⟩

theorem map_eq_ok {α β : Type} {x : Except StdException α} {f : α → β} {b : β} (h : x.map f = .ok b) :
    ∃ a, f a = b := by
  cases x with
  | error e => cases h
  | ok a => exact ⟨a, Except.ok.inj h⟩

theorem vocabLine_ok_iff (id : Int) (line : Bytes) :
    (∃ entry, vocabLine id line = .ok entry) ↔ ReadableLine line := by
  cases lineShape line with
  | blank =>
    refine iff_of_true ⟨_, rfl⟩ ⟨fun left _ same => ?_, nofun⟩
    simpa using congrArg List.length same
  | bare ne noSpace =>
    refine iff_of_true ⟨_, vocabLine_word id ne noSpace⟩ ⟨fun left _ same => ?_, fun head => ?_⟩
    · apply noSpace
      simp [same]
    · exact absurd (List.mem_of_head? head) noSpace
  | @fields left right ne first =>
    have readable : ReadableLine (left ++ 32 :: right) ↔ right ≠ [] := by
      constructor
      · rintro h rfl
        exact h.filled left first rfl
      · intro filled
        refine ⟨fun left' first' same => ?_, fun head => absurd head (head_fields ne first)⟩
        exact filled (split_first_unique same first first').2
    rw [readable, vocabLine_split right id ne first]
    split
    · rename_i short
      rw [map_ok_iff]
      constructor
      · rintro ⟨n, read⟩
        exact intText_ne (stoi_ok_iff.1 ⟨n, read⟩)
      · intro filled
        exact ⟨_, stoi_idField filled short⟩
    · rename_i long
      refine iff_of_true ⟨_, rfl⟩ ?_
      rintro rfl
      exact long rfl
  | @lead left right head last =>
    rw [vocabLine_lead id head last, map_ok_iff, stoi_ok_iff]
    constructor
    · intro text
      refine ⟨fun left' _ same => intText_ne text ?_, fun _ left' right' same last' => ?_⟩
      · exact (split_last_unique same last List.not_mem_nil).2
      · rwa [← (split_last_unique same last last').2]
    · intro h
      exact h.number head left right rfl last

end Line

/-! ## The first line -/

/-- `line.find("vocab_size") != npos`. -/
def IsHeader (line : Bytes) : Prop := str "vocab_size" <:+: line

theorem findText_isSome {text s : Bytes} : (findText text s).isSome = true ↔ text <:+: s := by
  rw [findText, List.findIdx?_isSome, List.any_eq_true, List.infix_iff_prefix_suffix]
  constructor
  · rintro ⟨u, mem, starts⟩
    exact ⟨u, List.isPrefixOf_iff_prefix.1 starts, (List.mem_tails ..).1 mem⟩
  · rintro ⟨u, starts, ends⟩
    exact ⟨u, (List.mem_tails ..).2 ends, List.isPrefixOf_iff_prefix.2 starts⟩

instance (line : Bytes) : Decidable (IsHeader line) := decidable_of_iff _ findText_isSome

/-- What the first line is, and what is made of it. -/
inductive FirstKind : Bytes → Except StdException (VocabLine × Int) → Prop where
  | token {line : Bytes} (noHeader : ¬ IsHeader line) : FirstKind line (.ok (.token line 0, 1))
  | title {line : Bytes} (header : IsHeader line) (noColon : colon ∉ line) : FirstKind line (.ok (.skipped, 0))
  | size {left right : Bytes} (header : IsHeader (left ++ colon :: right)) (first : colon ∉ left) :
      FirstKind (left ++ colon :: right) ((stoi right).map fun n => (.vocabSize n, 0))

theorem firstLine_kind (line : Bytes) : FirstKind line (firstLine line) := by
  by_cases header : IsHeader line
  · by_cases mem : colon ∈ line
    · obtain ⟨left, right, rfl, first⟩ := split_first mem
      have read : firstLine (left ++ colon :: right) = (stoi right).map fun n => (.vocabSize n, 0) := by
        rw [firstLine, if_pos (findText_isSome.2 header), find_first first]
        dsimp only
        rw [substr_right]
        exact bind_ok (stoi right) fun n => (VocabLine.vocabSize n, 0)
      rw [read]
      exact .size header first
    · have read : firstLine line = .ok (.skipped, 0) := by
        rw [firstLine, if_pos (findText_isSome.2 header), find_absent mem]
      rw [read]
      exact .title header mem
  · have read : firstLine line = .ok (.token line 0, 1) := by
      rw [firstLine, if_neg (fun found => header (findText_isSome.1 found))]
    rw [read]
    exact .token header

/-- A number follows the first colon of a header. -/
def ReadableHeader (line : Bytes) : Prop :=
  IsHeader line → ∀ left right, line = left ++ colon :: right → colon ∉ left → IntText right

theorem firstLine_ok_iff (line : Bytes) : (∃ entry, firstLine line = .ok entry) ↔ ReadableHeader line := by
  have kind := firstLine_kind line
  generalize firstLine line = outcome at kind
  cases kind with
  | token noHeader => exact iff_of_true ⟨_, rfl⟩ fun header => absurd header noHeader
  | title _ noColon =>
    refine iff_of_true ⟨_, rfl⟩ fun _ left right split => ?_
    rw [split] at noColon
    exact absurd (by simp) noColon
  | @size left right header first =>
    rw [map_ok_iff, stoi_ok_iff]
    constructor
    · intro text _ left' right' same first'
      rwa [← (split_first_unique same first first').2]
    · intro h
      exact h header left right rfl first

/-! ## Readable files -/

variable {contents : Bytes}

/-- The lines are all read or one of them throws, whatever they are entered into. -/
theorem loadLines_ok_iff (t : Tokenizer) (id : Int) (rest : List Bytes) :
    (t.loadLines id rest).1 = .ok () ↔ ∀ line ∈ rest, ReadableLine line := by
  induction rest generalizing t id with
  | nil => simp [Tokenizer.loadLines]
  | cons line rest ih =>
    rw [Tokenizer.loadLines, List.forall_mem_cons, ← vocabLine_ok_iff id line]
    cases vocabLine id line with
    | error e => simp
    | ok entry => exact (ih _ _).trans (and_iff_right ⟨entry, rfl⟩).symm

/-- Every line of the file can be read, the first as a header if it is one. -/
def Readable (contents : Bytes) : Prop :=
  match lines newline contents with
  | [] => True
  | first :: rest => ReadableHeader first ∧ ∀ line ∈ rest, ReadableLine line

theorem loadFile_ok_iff (t : Tokenizer) (contents : Bytes) :
    (t.loadFile contents).1 = .ok () ↔ Readable contents := by
  rw [Tokenizer.loadFile, Readable]
  cases lines newline contents with
  | nil => exact iff_of_true rfl trivial
  | cons first rest =>
    dsimp only
    rw [← firstLine_ok_iff first]
    cases firstLine first with
    | error e => simp
    | ok entry => exact (loadLines_ok_iff _ _ _).trans (and_iff_right ⟨entry, rfl⟩).symm

/-! ## What a file enters -/

namespace Tokenizer

/-- The tokenizer with all that the lines of a file enter. -/
def entered (t : Tokenizer) (contents : Bytes) : Tokenizer := (fileEntries contents).foldl enter t

/-- The size the header gives. -/
def headerSize (contents : Bytes) : Option Int :=
  match fileEntries contents with
  | .vocabSize n :: _ => some n
  | _ => none

/-- The tokenizer with the size `load` counts where none is given. -/
def sized (t : Tokenizer) : Tokenizer :=
  if t.vocabSize = 0 then { t with vocabSize := toInt t.vocab.keys.card } else t

@[simp] theorem sized_vocab (t : Tokenizer) : t.sized.vocab = t.vocab := by
  unfold sized
  split <;> rfl

@[simp] theorem sized_reverseVocab (t : Tokenizer) : t.sized.reverseVocab = t.reverseVocab := by
  unfold sized
  split <;> rfl

@[simp] theorem sized_merges (t : Tokenizer) : t.sized.merges = t.merges := by
  unfold sized
  split <;> rfl

theorem loadLines_entries (t : Tokenizer) (id : Int) (rest : List Bytes) :
    (t.loadLines id rest).2 = (entries id rest).foldl enter t := by
  induction rest generalizing t id with
  | nil => rfl
  | cons line rest ih =>
    rw [loadLines, entries]
    cases vocabLine id line with
    | error e => rfl
    | ok entry => exact ih _ _

theorem loadFile_entered (t : Tokenizer) (contents : Bytes) : (t.loadFile contents).2 = t.entered contents := by
  rw [loadFile, entered, fileEntries]
  cases lines newline contents with
  | nil => rfl
  | cons first rest =>
    dsimp only
    cases firstLine first with
    | error e => rfl
    | ok entry => exact loadLines_entries _ _ _

/-- A file that can be read is loaded whole. -/
theorem load_readable (readable : Readable contents) (t : Tokenizer) :
    t.load (some contents) = (.ok true, (t.entered contents).sized) := by
  have read := (loadFile_ok_iff t contents).2 readable
  have left := t.loadFile_entered contents
  rw [load]
  generalize t.loadFile contents = result at read left
  obtain ⟨outcome, t'⟩ := result
  subst read left
  rfl

theorem entered_merges (t : Tokenizer) (contents : Bytes) :
    (t.entered contents).merges = t.merges ++ (fileEntries contents).flatMap VocabLine.pairs :=
  merges_enterAll _

theorem enter_vocabSize {id : Int} {line : Bytes} {entry : VocabLine × Int} (read : vocabLine id line = .ok entry)
    (t : Tokenizer) : (t.enter entry.1).vocabSize = t.vocabSize := by
  cases lineShape line with
  | blank =>
    cases read
    rfl
  | bare ne noSpace =>
    rw [vocabLine_word id ne noSpace] at read
    cases read
    rfl
  | @fields left right ne first =>
    rw [vocabLine_split right id ne first] at read
    split at read
    · obtain ⟨n, same⟩ := map_eq_ok read
      cases same
      rfl
    · cases read
      rfl
  | lead head last =>
    rw [vocabLine_lead id head last] at read
    obtain ⟨n, same⟩ := map_eq_ok read
    cases same
    rfl

/-- Only a header gives a size. -/
theorem entries_vocabSize (t : Tokenizer) (id : Int) (rest : List Bytes) :
    ((entries id rest).foldl enter t).vocabSize = t.vocabSize := by
  induction rest generalizing t id with
  | nil => rfl
  | cons line rest ih =>
    rw [entries]
    cases read : vocabLine id line with
    | error e => rfl
    | ok entry => exact (ih _ _).trans (enter_vocabSize read t)

theorem entered_vocabSize (t : Tokenizer) (contents : Bytes) :
    (t.entered contents).vocabSize = (headerSize contents).getD t.vocabSize := by
  rw [entered, headerSize, fileEntries]
  cases lines newline contents with
  | nil => rfl
  | cons first rest =>
    dsimp only
    cases firstLine first with
    | error e => rfl
    | ok entry =>
      dsimp only
      rw [List.foldl_cons, entries_vocabSize]
      cases entry.1 <;> rfl

/-- The maps after a file, over those of an empty tokenizer. -/
theorem entered_written (contents : Bytes) :
    Written ((fileEntries contents).flatMap VocabLine.writes) (entered {} contents) :=
  written_nil.enterAll _

end Tokenizer

theorem load_ok_iff (t : Tokenizer) (contents : Bytes) :
    (∃ opened, (t.load (some contents)).1 = .ok opened) ↔ Readable contents := by
  rw [← loadFile_ok_iff t, Tokenizer.load]
  rcases t.loadFile contents with ⟨outcome | outcome, t'⟩
  · simp
  · simp

end ModelRuntime
