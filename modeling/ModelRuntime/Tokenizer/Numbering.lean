import ModelRuntime.Tokenizer.VocabLine

/-!
# Numbering the lines

A line without a space is counted: the loop gives it the next id. `holder` is the token an id is left with. Where the
counter does not overflow, an id that no line is counted with belongs to the line that gave it last
(`holder_outside`), and moving the count by one is seen at the counted lines only (`holders_same_iff`).
-/

namespace ModelRuntime
open Cpp Lib

attribute [local irreducible] toInt

/-- A line that is counted. -/
def IsWord (line : Bytes) : Prop := line ≠ [] ∧ 32 ∉ line

instance : DecidablePred IsWord := fun _ => inferInstanceAs (Decidable (_ ∧ _))

def wordCount (ls : List Bytes) : Nat := ls.countP fun line => IsWord line

/-- `id++`, done for each counted line, never leaves `int`. -/
def CounterFits (id : Int) (ls : List Bytes) : Prop := id + wordCount ls < 2 ^ 31

instance {id : Int} {ls : List Bytes} : Decidable (CounterFits id ls) := inferInstanceAs (Decidable (_ < _))

/-- The line gives the token the id, wherever the counting has come to. -/
def GivesId (line token : Bytes) (n : Int) : Prop := ∀ id, vocabLine id line = .ok (.token token n, id)

/-- The line gives the token an id of its own. -/
def Gives (line token : Bytes) : Prop := ∃ n, GivesId line token n

def GivesNumber (n : Int) (line : Bytes) : Prop := ∃ token, GivesId line token n

/-- The pairs the lines write when they are counted from `id`. -/
def numbered (id : Int) (rest : List Bytes) : List (Bytes × Int) := (entries id rest).flatMap VocabLine.writes

/-- The token `reverse_vocab_` has for `n` after the lines, counted from `id`. -/
def holder (id : Int) (ls : List Bytes) (n : Int) : Option Bytes :=
  (writeAll ((numbered id ls).map Prod.swap)).lookup n

/-- The last of the lines with the property. -/
def LastLine (P : Bytes → Prop) (line : Bytes) (ls : List Bytes) : Prop :=
  ∃ front back, ls = front ++ line :: back ∧ P line ∧ ∀ l ∈ back, ¬ P l

/-- The last line that gives the id gives it to the token. -/
def GivenLast (n : Int) (token : Bytes) (ls : List Bytes) : Prop :=
  ∃ line, LastLine (GivesNumber n) line ls ∧ GivesId line token n

/-! ## The part of a line -/

section Role

variable {line token left right : Bytes} {rest : List Bytes} {id next : Int} {entry : VocabLine}

/-- What a readable line does, wherever the counting has come to. -/
inductive LineRole (line : Bytes) : Prop where
  | silent (entry : VocabLine) (quiet : entry.writes = []) (read : ∀ id, vocabLine id line = .ok (entry, id))
  | word (isWord : IsWord line)
  | gives (token : Bytes) (n : Int) (read : GivesId line token n)

theorem ReadableLine.role (readable : ReadableLine line) : LineRole line := by
  obtain ⟨entry, read⟩ := (vocabLine_ok_iff 0 line).2 readable
  cases lineShape line with
  | blank => exact .silent .skipped rfl fun _ => rfl
  | bare ne noSpace => exact .word ⟨ne, noSpace⟩
  | @fields left right ne first =>
    have all := fun id => vocabLine_split right id ne first
    split at all
    · rw [all] at read
      obtain ⟨n, number⟩ := map_ok_iff.1 ⟨_, read⟩
      rw [number] at all
      exact .gives _ n all
    · exact .silent _ rfl all
  | lead head last =>
    have all := fun id => vocabLine_lead id head last
    rw [all] at read
    obtain ⟨n, number⟩ := map_ok_iff.1 ⟨_, read⟩
    rw [number] at all
    exact .gives _ n all

theorem Gives.not_word (gives : Gives line token) : ¬ IsWord line := by
  rintro ⟨ne, noSpace⟩
  obtain ⟨n, read⟩ := gives
  have other := (vocabLine_word 0 ne noSpace).symm.trans (read 0)
  rw [Except.ok.injEq, Prod.mk.injEq, Int.zero_add] at other
  exact absurd other.2 (by rw [show (1 : Int) = (1 : Nat) from rfl, toInt_of_lt (by omega)]; omega)

/-- The token is what stands before a space of the line, the first one or, if it starts the line, the last. -/
theorem Gives.cut (gives : Gives line token) :
    ∃ right, line = token ++ 32 :: right ∧ (32 ∉ token ∨ line.head? = some 32) := by
  have noWord := gives.not_word
  obtain ⟨n, read⟩ := gives
  have now := read 0
  cases lineShape line with
  | blank => cases now
  | bare ne noSpace => exact absurd ⟨ne, noSpace⟩ noWord
  | @fields left right ne first =>
    rw [vocabLine_split right 0 ne first] at now
    split at now
    · obtain ⟨m, same⟩ := map_eq_ok now
      cases same
      exact ⟨right, rfl, .inl first⟩
    · cases now
  | @lead left right head last =>
    rw [vocabLine_lead 0 head last] at now
    obtain ⟨m, same⟩ := map_eq_ok now
    cases same
    exact ⟨right, rfl, .inr head⟩

/-- A line that writes nothing is not counted and gives no id. -/
theorem not_word_of_quiet (quiet : entry.writes = []) (read : ∀ id, vocabLine id line = .ok (entry, id)) :
    ¬ IsWord line := by
  intro isWord
  have same := Except.ok.inj ((read 0).symm.trans (vocabLine_word 0 isWord.1 isWord.2))
  rw [(Prod.mk.inj same).1] at quiet
  cases quiet

theorem not_gives_of_quiet (quiet : entry.writes = []) (read : ∀ id, vocabLine id line = .ok (entry, id)) :
    ¬ Gives line token := by
  rintro ⟨n, gives⟩
  have same := Except.ok.inj ((read 0).symm.trans (gives 0))
  rw [(Prod.mk.inj same).1] at quiet
  cases quiet

theorem GivesId.unique {token' : Bytes} {n m : Int} (gives : GivesId line token n) (gives' : GivesId line token' m) :
    token = token' ∧ n = m := by
  have same := Except.ok.inj ((gives 0).symm.trans (gives' 0))
  cases same
  exact ⟨rfl, rfl⟩

theorem Gives.ne (gives : Gives line token) : line ≠ token := by
  obtain ⟨right, rfl, _⟩ := gives.cut
  intro same
  have length := congrArg List.length same
  rw [List.length_append, List.length_cons] at length
  omega

/-- Two fields are no token of another line. -/
theorem Gives.not_fields (ne : left ≠ []) (first : 32 ∉ left) : ¬ Gives line (left ++ 32 :: right) := by
  intro gives
  obtain ⟨rest, rfl, noSpace | head⟩ := gives.cut
  · exact noSpace (by simp)
  · rw [List.append_assoc, List.cons_append] at head
    exact head_fields ne first head

theorem numbered_cons (read : vocabLine id line = .ok (entry, next)) :
    numbered id (line :: rest) = entry.writes ++ numbered next rest := by
  rw [numbered, entries, read]
  exact List.flatMap_cons

theorem numbered_word (isWord : IsWord line) :
    numbered id (line :: rest) = (line, id) :: numbered (toInt (id + 1)) rest :=
  numbered_cons (vocabLine_word id isWord.1 isWord.2)

theorem toInt_one : toInt (0 + 1) = 1 := by
  rw [Int.zero_add]
  exact toInt_of_lt (n := 1) (by omega)

/-- The counting is not seen in the merges. -/
theorem entries_pairs (readable : ∀ line ∈ rest, ReadableLine line) (id next : Int) :
    (entries id rest).flatMap VocabLine.pairs = (entries next rest).flatMap VocabLine.pairs := by
  induction rest generalizing id next with
  | nil => rfl
  | cons line rest ih =>
    rw [List.forall_mem_cons] at readable
    rw [entries, entries]
    cases readable.1.role with
    | silent entry quiet read =>
      rw [read id, read next, List.flatMap_cons, List.flatMap_cons, ih readable.2]
    | word isWord =>
      rw [vocabLine_word id isWord.1 isWord.2, vocabLine_word next isWord.1 isWord.2]
      exact ih readable.2 _ _
    | gives token n read =>
      rw [read id, read next]
      exact ih readable.2 _ _

end Role

/-! ## The last line -/

section LastLine

variable {P Q : Bytes → Prop} {l line token : Bytes} {ls front back : List Bytes} {n : Int}

theorem LastLine.mem (last : LastLine P line ls) : line ∈ ls := by
  obtain ⟨front, back, rfl, _⟩ := last
  simp

theorem lastLine_cons : LastLine P line (l :: ls) ↔
    LastLine P line ls ∨ (l = line ∧ P line ∧ ∀ l' ∈ ls, ¬ P l') := by
  constructor
  · rintro ⟨front, back, split, has, none⟩
    cases front with
    | nil =>
      obtain ⟨rfl, rfl⟩ := List.cons.inj split
      exact .inr ⟨rfl, has, none⟩
    | cons _ front => exact .inl ⟨front, back, (List.cons.inj split).2, has, none⟩
  · rintro (⟨front, back, rfl, has, none⟩ | ⟨rfl, has, none⟩)
    · exact ⟨l :: front, back, rfl, has, none⟩
    · exact ⟨[], ls, rfl, has, none⟩

/-- Behind the last line with the property there is none. -/
theorem lastLine_append : LastLine P line (front ++ back) ↔
    LastLine P line back ∨ (LastLine P line front ∧ ∀ l ∈ back, ¬ P l) := by
  induction front with
  | nil => simp [LastLine]
  | cons l front ih =>
    rw [List.cons_append, lastLine_cons, ih, lastLine_cons, List.forall_mem_append]
    tauto

theorem exists_lastLine (some : ∃ l ∈ ls, P l) : ∃ line, LastLine P line ls := by
  induction ls with
  | nil => exact absurd some (by simp)
  | cons l ls ih =>
    by_cases later : ∃ l' ∈ ls, P l'
    · obtain ⟨line, last⟩ := ih later
      exact ⟨line, lastLine_cons.2 (.inl last)⟩
    · rcases List.exists_mem_cons_iff .. |>.1 some with has | has
      · exact ⟨l, lastLine_cons.2 (.inr ⟨rfl, has, fun l' mem other => later ⟨l', mem, other⟩⟩)⟩
      · exact absurd has later

theorem LastLine.congr (same : ∀ l ∈ ls, P l ↔ Q l) : LastLine P line ls ↔ LastLine Q line ls := by
  induction ls with
  | nil => simp [LastLine]
  | cons l ls ih =>
    rw [List.forall_mem_cons] at same
    rw [lastLine_cons, lastLine_cons, ih same.2]
    refine or_congr_right (and_congr_right ?_)
    rintro rfl
    exact and_congr same.1 (forall₂_congr fun l' mem => not_congr (same.2 l' mem))

/-- The last line with a property that `l` has is behind `l` or is `l`. -/
theorem lastLine_split (has : Q l) (same : ∀ l' ∈ back, Q l' ↔ P l') : LastLine Q line (front ++ l :: back) ↔
    LastLine P line back ∨ (l = line ∧ ∀ l' ∈ back, ¬ P l') := by
  rw [lastLine_append, lastLine_cons, LastLine.congr same, forall₂_congr fun l' mem => not_congr (same l' mem)]
  constructor
  · rintro ((last | ⟨rfl, _, none⟩) | ⟨_, none⟩)
    · exact .inl last
    · exact .inr ⟨rfl, none⟩
    · exact absurd has (none l List.mem_cons_self)
  · rintro (last | ⟨rfl, none⟩)
    · exact .inl (.inl last)
    · exact .inl (.inr ⟨rfl, has, none⟩)

theorem givenLast_cons : GivenLast n token (l :: ls) ↔
    GivenLast n token ls ∨ (GivesId l token n ∧ ∀ l' ∈ ls, ¬ GivesNumber n l') := by
  unfold GivenLast
  simp only [lastLine_cons]
  constructor
  · rintro ⟨line, last | ⟨rfl, _, none⟩, gives⟩
    · exact .inl ⟨line, last, gives⟩
    · exact .inr ⟨gives, none⟩
  · rintro (⟨line, last, gives⟩ | ⟨gives, none⟩)
    · exact ⟨line, .inl last, gives⟩
    · exact ⟨l, .inr ⟨rfl, ⟨token, gives⟩, none⟩, gives⟩

theorem givenLast_none : (∀ token, ¬ GivenLast n token ls) ↔ ∀ l ∈ ls, ¬ GivesNumber n l := by
  constructor
  · intro none l mem gives
    obtain ⟨line, last⟩ := exists_lastLine ⟨l, mem, gives⟩
    obtain ⟨_, _, _, ⟨token, gives⟩, _⟩ := id last
    exact none token ⟨line, last, gives⟩
  · rintro none token ⟨line, last, gives⟩
    exact none line last.mem ⟨token, gives⟩

end LastLine

/-! ## The holder of an id -/

section Holder

variable {line token word first : Bytes} {ls front back : List Bytes} {id n : Int}

theorem wordCount_word (isWord : IsWord line) : wordCount (line :: ls) = wordCount ls + 1 :=
  List.countP_cons_of_pos (decide_eq_true isWord)

theorem wordCount_other (notWord : ¬ IsWord line) : wordCount (line :: ls) = wordCount ls :=
  List.countP_cons_of_neg (by rwa [decide_eq_true_iff])

theorem wordCount_append (front back : List Bytes) : wordCount (front ++ back) = wordCount front + wordCount back :=
  List.countP_append ..

theorem wordCount_none (none : ∀ l ∈ ls, ¬ IsWord l) : wordCount ls = 0 :=
  List.countP_eq_zero.2 fun l mem => by rw [decide_eq_true_iff]; exact none l mem

/-- Every number below the count is that of a counted line. -/
theorem exists_number {k : Nat} (less : k < wordCount ls) :
    ∃ front word back, ls = front ++ word :: back ∧ IsWord word ∧ wordCount front = k := by
  induction ls generalizing k with
  | nil => exact absurd less (Nat.not_lt_zero k)
  | cons line ls ih =>
    by_cases isWord : IsWord line
    · rw [wordCount_word isWord] at less
      cases k with
      | zero => exact ⟨[], line, ls, rfl, isWord, rfl⟩
      | succ k =>
        obtain ⟨front, word, back, rfl, mem, number⟩ := ih (Nat.lt_of_succ_lt_succ less)
        exact ⟨line :: front, word, back, rfl, mem, by rw [wordCount_word isWord, number]⟩
    · rw [wordCount_other isWord] at less
      obtain ⟨front, word, back, rfl, mem, number⟩ := ih less
      exact ⟨line :: front, word, back, rfl, mem, by rw [wordCount_other isWord, number]⟩

theorem holder_word (isWord : IsWord word) (fits : -2 ^ 31 ≤ id + 1 ∧ id + 1 < 2 ^ 31) :
    holder id (word :: ls) n = (holder (id + 1) ls n).or (if id = n then some word else none) := by
  rw [holder, numbered_word isWord, toInt_of_range fits.1 fits.2, List.map_cons]
  exact lookup_writeAll_cons _ _ _ _

theorem holder_gives {m : Int} (gives : GivesId line token m) :
    holder id (line :: ls) n = (holder id ls n).or (if m = n then some token else none) := by
  rw [holder, numbered_cons (gives id), VocabLine.writes, List.singleton_append, List.map_cons]
  exact lookup_writeAll_cons _ _ _ _

theorem holder_quiet {entry : VocabLine} (quiet : entry.writes = [])
    (read : ∀ id, vocabLine id line = .ok (entry, id)) : holder id (line :: ls) n = holder id ls n := by
  rw [holder, numbered_cons (read id), quiet, List.nil_append, ← holder]

/-- The later of two runs of lines has the last word. -/
theorem holder_append (readable : ∀ line ∈ front, ReadableLine line) (low : 0 ≤ id)
    (fits : id + wordCount front < 2 ^ 31) :
    holder id (front ++ back) n = (holder (id + wordCount front) back n).or (holder id front n) := by
  induction front generalizing id with
  | nil =>
    rw [List.nil_append, show holder id [] n = none from rfl, Option.or_none]
    simp [wordCount]
  | cons line front ih =>
    rw [List.forall_mem_cons] at readable
    rw [List.cons_append]
    cases readable.1.role with
    | silent entry quiet read =>
      have notWord : ¬ IsWord line := not_word_of_quiet quiet read
      rw [wordCount_other notWord] at fits ⊢
      rw [holder_quiet quiet read, holder_quiet quiet read, ih readable.2 low fits]
    | word isWord =>
      rw [wordCount_word isWord] at fits ⊢
      rw [holder_word isWord (by omega), holder_word isWord (by omega), ih readable.2 (by omega) (by omega),
        Option.or_assoc]
      congr 2
      omega
    | gives token m gives =>
      have notWord : ¬ IsWord line := Gives.not_word ⟨m, gives⟩
      rw [wordCount_other notWord] at fits ⊢
      rw [holder_gives gives, holder_gives gives, ih readable.2 low fits, Option.or_assoc]

/-- A counted line takes its number from whoever had it. -/
theorem holder_split (readable : ∀ line ∈ front, ReadableLine line) (isWord : IsWord word) (low : 0 ≤ id)
    (fits : id + wordCount front + 1 < 2 ^ 31) : holder id (front ++ word :: back) n =
      (holder (id + wordCount front + 1) back n).or
        (if id + wordCount front = n then some word else holder id front n) := by
  rw [holder_append readable low (by omega), holder_word isWord (by omega), Option.or_assoc]
  congr 1
  by_cases own : id + wordCount front = n
  · rw [if_pos own, if_pos own, Option.some_or]
  · rw [if_neg own, if_neg own, Option.none_or]

/-- An id no line is counted with is left to the token it was given to last. -/
theorem holder_outside (readable : ∀ line ∈ ls, ReadableLine line) (low : 0 ≤ id) (fits : id + wordCount ls < 2 ^ 31)
    (outside : n < id ∨ id + wordCount ls ≤ n) : holder id ls n = some token ↔ GivenLast n token ls := by
  induction ls generalizing id token with
  | nil => exact iff_of_false nofun (by rintro ⟨line, last, _⟩; cases last.mem)
  | cons line ls ih =>
    rw [List.forall_mem_cons] at readable
    rw [givenLast_cons]
    cases readable.1.role with
    | silent entry quiet read =>
      rw [wordCount_other (not_word_of_quiet quiet read)] at fits outside
      rw [holder_quiet quiet read, ih readable.2 low fits outside]
      exact (or_iff_left fun gives => not_gives_of_quiet quiet read ⟨n, gives.1⟩).symm
    | word isWord =>
      rw [wordCount_word isWord] at fits outside
      rw [holder_word isWord (by omega), if_neg (by omega), Option.or_none,
        ih readable.2 (by omega) (by omega) (by omega)]
      exact (or_iff_left fun gives => Gives.not_word ⟨n, gives.1⟩ isWord).symm
    | gives token' m gives =>
      rw [wordCount_other (Gives.not_word ⟨m, gives⟩)] at fits outside
      have later := fun token : Bytes => (ih readable.2 low fits outside : _ = some token ↔ _)
      have given : (if m = n then some token' else none) = some token ↔ GivesId line token n := by
        constructor
        · intro held
          obtain ⟨rfl, same⟩ := Option.ite_none_right_eq_some.1 held
          exact Option.some.inj same ▸ gives
        · intro other
          obtain ⟨rfl, rfl⟩ := gives.unique other
          exact if_pos rfl
      rw [holder_gives gives, Option.or_eq_some_iff, given, later, Option.eq_none_iff_forall_ne_some,
        ← givenLast_none, and_comm]
      simp only [ne_eq, later]

theorem holder_none (readable : ∀ line ∈ ls, ReadableLine line) (low : 0 ≤ id) (fits : id + wordCount ls < 2 ^ 31)
    (outside : n < id ∨ id + wordCount ls ≤ n) : holder id ls n = none ↔ ∀ line ∈ ls, ¬ GivesNumber n line := by
  rw [Option.eq_none_iff_forall_ne_some, ← givenLast_none]
  exact forall_congr' fun token => not_congr (holder_outside readable low fits outside)

end Holder

/-! ## Counting on from one -/

/-- Of the lines behind the first one, which is not counted, each counted one finds its id with its own text, when the
lines are counted from 1, or the id is given later; the id next to the last is treated alike where they are counted
from 0; and the ids of the first line, 0 and its own, are given again. -/
structure HoldersStay (first : Bytes) (rest : List Bytes) : Prop where
  zero : ∃ line ∈ rest, GivesNumber 0 line
  number : ∀ front word back, rest = front ++ word :: back → IsWord word →
    (∀ line ∈ back, ¬ GivesNumber (wordCount front) line) →
      ∃ line, LastLine (fun l => IsWord l ∨ GivesNumber (wordCount front) l) line front ∧
        (line = word ∨ GivesId line word (wordCount front))
  next : ∀ front word back, rest = front ++ word :: back → IsWord word →
    (∀ line ∈ back, ¬ IsWord line ∧ ¬ GivesNumber (wordCount rest) line) →
      GivenLast (wordCount rest) word (first :: front)
  outside : ∀ token n, GivesId first token n → n < 0 ∨ wordCount rest < n → ∃ line ∈ rest, GivesNumber n line

section Shift

variable {first word token : Bytes} {rest front back : List Bytes} {n : Int}

/-- The id after the lines counted from 1 and a first one entered as 0. -/
def holderBehind (first : Bytes) (rest : List Bytes) (n : Int) : Option Bytes :=
  (writeAll (((first, 0) :: numbered 1 rest).map Prod.swap)).lookup n

theorem holderBehind_eq : holderBehind first rest n = (holder 1 rest n).or (if 0 = n then some first else none) :=
  lookup_writeAll_cons _ _ _ _

/-- Some counted line is the last, or there is none. -/
theorem last_word (ls : List Bytes) : (∀ l ∈ ls, ¬ IsWord l) ∨
    ∃ front word back, ls = front ++ word :: back ∧ IsWord word ∧ ∀ l ∈ back, ¬ IsWord l := by
  by_cases some : ∃ l ∈ ls, IsWord l
  · obtain ⟨word, last⟩ := exists_lastLine some
    obtain ⟨front, back, split, isWord, none⟩ := last
    exact .inr ⟨front, word, back, split, isWord, none⟩
  · exact .inl fun l mem isWord => some ⟨l, mem, isWord⟩

/-- What the id of a counted line is left with by the lines before it. -/
theorem holderBehind_front (readable : ∀ line ∈ front, ReadableLine line) (fits : 1 + wordCount front < 2 ^ 31)
    (notWord : ¬ IsWord first) (isWord : IsWord word) :
    holderBehind first front (wordCount front) = some word ↔
      ∃ line, LastLine (fun l => IsWord l ∨ GivesNumber (wordCount front) l) line front ∧
        (line = word ∨ GivesId line word (wordCount front)) := by
  rw [holderBehind_eq]
  rcases last_word front with none | ⟨before, word', between, rfl, isWord', none⟩
  · have zero := wordCount_none none
    have last : ∀ line, LastLine (fun l => IsWord l ∨ GivesNumber (wordCount front) l) line front ↔
        LastLine (GivesNumber (wordCount front)) line front :=
      fun line => LastLine.congr fun l mem => or_iff_right (none l mem)
    have apart : first ≠ word := fun same => notWord (same ▸ isWord)
    rw [Option.or_eq_some_iff, holder_outside readable (by omega) (by omega) (by omega)]
    rw [if_pos (by omega), Option.some.injEq]
    simp only [last]
    constructor
    · rintro (⟨line, final, gives⟩ | ⟨_, same⟩)
      · exact ⟨line, final, .inr gives⟩
      · exact absurd same apart
    · rintro ⟨line, final, rfl | gives⟩
      · exact absurd isWord (none line final.mem)
      · exact .inl ⟨line, final, gives⟩
  · rw [List.forall_mem_append, List.forall_mem_cons] at readable
    obtain ⟨readBefore, _, readBetween⟩ := readable
    have count : wordCount (before ++ word' :: between) = wordCount before + 1 := by
      rw [wordCount_append, wordCount_word isWord', wordCount_none none]
    have behind := wordCount_none none
    rw [count] at fits ⊢
    rw [holder_split readBefore isWord' (by omega) (by omega), if_pos (by omega), Option.or_assoc, Option.some_or,
      Option.or_eq_some_iff, holder_outside readBetween (by omega) (by omega) (by omega),
      holder_none readBetween (by omega) (by omega) (by omega), Option.some.injEq]
    have given : ∀ l ∈ between, (IsWord l ∨ GivesNumber (wordCount before + 1 : Nat) l) ↔
        GivesNumber (wordCount before + 1 : Nat) l := fun l mem => or_iff_right (none l mem)
    simp only [lastLine_split (Q := fun l => IsWord l ∨ _) (.inl isWord') given]
    constructor
    · rintro (⟨line, final, gives⟩ | ⟨notGiven, rfl⟩)
      · exact ⟨line, .inl final, .inr gives⟩
      · exact ⟨word', .inr ⟨rfl, notGiven⟩, .inl rfl⟩
    · rintro ⟨line, final | ⟨rfl, notGiven⟩, rfl | gives⟩
      · exact absurd isWord (none line final.mem)
      · exact .inl ⟨line, final, gives⟩
      · exact .inr ⟨notGiven, rfl⟩
      · exact absurd isWord' (Gives.not_word ⟨_, gives⟩)

/-- The two countings leave the number of a counted line alike. -/
theorem same_at_number (readable : ∀ line ∈ first :: (front ++ word :: back), ReadableLine line)
    (fits : 1 + wordCount (front ++ word :: back) < 2 ^ 31) (notWord : ¬ IsWord first) (isWord : IsWord word) :
    holderBehind first (front ++ word :: back) (wordCount front) =
        holder 0 (first :: (front ++ word :: back)) (wordCount front) ↔
      ((∀ line ∈ back, ¬ GivesNumber (wordCount front) line) →
        ∃ line, LastLine (fun l => IsWord l ∨ GivesNumber (wordCount front) l) line front ∧
          (line = word ∨ GivesId line word (wordCount front))) := by
  rw [wordCount_append, wordCount_word isWord] at fits
  obtain ⟨readFirst, readable⟩ := List.forall_mem_cons.1 readable
  obtain ⟨readFront, readable⟩ := List.forall_mem_append.1 readable
  obtain ⟨_, readBack⟩ := List.forall_mem_cons.1 readable
  have count : wordCount (first :: front) = wordCount front := wordCount_other notWord
  rw [← holderBehind_front readFront (by omega) notWord isWord, holderBehind_eq, holderBehind_eq, ← List.cons_append,
    holder_split readFront isWord (by omega) (by omega), Option.or_assoc,
    holder_split (List.forall_mem_cons.2 ⟨readFirst, readFront⟩) isWord (by omega) (by omega), count,
    if_neg (by omega : ¬ (1 : Int) + wordCount front = wordCount front), if_pos (Int.zero_add _)]
  have behind : holder (1 + wordCount front + 1) back (wordCount front) =
      holder (0 + wordCount front + 1) back (wordCount front) := by
    ext token
    rw [holder_outside readBack (by omega) (by omega) (by omega),
      holder_outside readBack (by omega) (by omega) (by omega)]
  rw [behind, ← holder_none (n := wordCount front) readBack (by omega : (0 : Int) ≤ 0 + wordCount front + 1) (by omega)
    (by omega)]
  cases holder (0 + wordCount front + 1) back (wordCount front) with
  | none => simp
  | some token => simp

/-- They leave the number next to the last one alike. -/
theorem same_at_next (readable : ∀ line ∈ first :: (front ++ word :: back), ReadableLine line)
    (fits : 1 + wordCount (front ++ word :: back) < 2 ^ 31) (notWord : ¬ IsWord first) (isWord : IsWord word)
    (none : ∀ line ∈ back, ¬ IsWord line) :
    holderBehind first (front ++ word :: back) (wordCount (front ++ word :: back)) =
        holder 0 (first :: (front ++ word :: back)) (wordCount (front ++ word :: back)) ↔
      ((∀ line ∈ back, ¬ GivesNumber (wordCount (front ++ word :: back)) line) →
        GivenLast (wordCount (front ++ word :: back)) word (first :: front)) := by
  have whole : wordCount (front ++ word :: back) = wordCount front + 1 := by
    rw [wordCount_append, wordCount_word isWord, wordCount_none none]
  have behind := wordCount_none none
  have count : wordCount (first :: front) = wordCount front := wordCount_other notWord
  rw [whole] at fits ⊢
  obtain ⟨readFirst, readable⟩ := List.forall_mem_cons.1 readable
  obtain ⟨readFront, readable⟩ := List.forall_mem_append.1 readable
  obtain ⟨_, readBack⟩ := List.forall_mem_cons.1 readable
  have readBoth := List.forall_mem_cons.2 ⟨readFirst, readFront⟩
  rw [holderBehind_eq, ← List.cons_append, holder_split readFront isWord (by omega) (by omega), Option.or_assoc,
    holder_split readBoth isWord (by omega) (by omega), count, if_pos (by omega),
    if_neg (by omega : ¬ (0 : Int) + wordCount front = (wordCount front + 1 : Nat)), Option.some_or]
  have same : holder (1 + wordCount front + 1) back (wordCount front + 1 : Nat) =
      holder (0 + wordCount front + 1) back (wordCount front + 1 : Nat) := by
    ext token
    rw [holder_outside readBack (by omega) (by omega) (by omega),
      holder_outside readBack (by omega) (by omega) (by omega)]
  rw [same, ← holder_none (n := (wordCount front + 1 : Nat)) readBack (by omega : (0 : Int) ≤ 0 + wordCount front + 1)
    (by omega) (by omega), ← holder_outside readBoth (Int.le_refl 0) (by omega) (.inr (by omega))]
  cases holder (0 + wordCount front + 1) back (wordCount front + 1 : Nat) with
  | none => simp [eq_comm]
  | some token => simp

/-- They leave an id with no number alike. -/
theorem same_outside (readable : ∀ line ∈ first :: rest, ReadableLine line) (fits : 1 + wordCount rest < 2 ^ 31)
    (notWord : ¬ IsWord first) (outside : n < 0 ∨ wordCount rest < n) :
    holderBehind first rest n = holder 0 (first :: rest) n ↔
      ∀ token, GivesId first token n → ∃ line ∈ rest, GivesNumber n line := by
  have count : wordCount (first :: rest) = wordCount rest := wordCount_other notWord
  obtain ⟨_, readRest⟩ := List.forall_mem_cons.1 readable
  have behind := fun token => @holder_outside token _ 1 _ readRest (by omega : (0 : Int) ≤ 1) (by omega)
    (by omega : n < 1 ∨ 1 + wordCount rest ≤ n)
  have all := fun token => @holder_outside token _ 0 _ readable (Int.le_refl 0) (by omega)
    (by omega : n < 0 ∨ 0 + wordCount (first :: rest) ≤ n)
  rw [holderBehind_eq, if_neg (by omega), Option.or_none, Option.ext_iff]
  simp only [behind, all, givenLast_cons]
  constructor
  · intro same token gives
    by_contra none
    have last := (same token).2 (.inr ⟨gives, fun line mem given => none ⟨line, mem, given⟩⟩)
    exact givenLast_none.2 (fun line mem given => none ⟨line, mem, given⟩) token last
  · intro again token
    refine ⟨.inl, ?_⟩
    rintro (last | ⟨gives, none⟩)
    · exact last
    · obtain ⟨line, mem, given⟩ := again token gives
      exact absurd given (none line mem)

/-- The first line, entered as 0, has its id given again, since nothing else leaves the id to it. -/
theorem zero_given (readable : ∀ line ∈ first :: rest, ReadableLine line) (fits : 1 + wordCount rest < 2 ^ 31)
    (notWord : ¬ IsWord first) (same : holderBehind first rest 0 = holder 0 (first :: rest) 0) :
    ∃ line ∈ rest, GivesNumber 0 line := by
  by_contra again
  have none : ∀ line ∈ rest, ¬ GivesNumber 0 line := fun line mem given => again ⟨line, mem, given⟩
  have count : wordCount (first :: rest) = wordCount rest := wordCount_other notWord
  obtain ⟨readFirst, readRest⟩ := List.forall_mem_cons.1 readable
  rw [holderBehind_eq, if_pos rfl, (holder_none readRest (by omega) (by omega) (.inl (by omega))).2 none,
    Option.none_or] at same
  rcases Nat.eq_zero_or_pos (wordCount rest) with zero | positive
  · rcases givenLast_cons.1 ((holder_outside readable (Int.le_refl 0) (by omega) (by omega)).1 same.symm) with
      later | ⟨gives, _⟩
    · exact givenLast_none.2 none first later
    · exact Gives.ne ⟨0, gives⟩ rfl
  · obtain ⟨front, word, back, rfl, isWord, zero⟩ := exists_number positive
    obtain ⟨readFront, readBack⟩ := List.forall_mem_append.1 readRest
    have front_zero : wordCount (first :: front) = 0 := (wordCount_other notWord).trans zero
    have total := wordCount_append front (word :: back)
    rw [wordCount_word isWord] at total
    rw [← List.cons_append, holder_split (List.forall_mem_cons.2 ⟨readFirst, readFront⟩) isWord (Int.le_refl 0)
      (by omega), if_pos (by omega), (holder_none (List.forall_mem_cons.1 readBack).2 (by omega) (by omega)
      (.inl (by omega))).2 fun line mem => none line (by simp [mem]), Option.none_or, Option.some.injEq] at same
    exact notWord (same ▸ isWord)

/-- Where no later line is counted, the one that gives 0 again settles it. -/
theorem same_of_zero (readable : ∀ line ∈ first :: rest, ReadableLine line) (none : wordCount rest = 0)
    (notWord : ¬ IsWord first) (again : ∃ line ∈ rest, GivesNumber 0 line) :
    holderBehind first rest 0 = holder 0 (first :: rest) 0 := by
  have count : wordCount (first :: rest) = wordCount rest := wordCount_other notWord
  obtain ⟨line, last⟩ := exists_lastLine again
  obtain ⟨_, _, _, ⟨token, gives⟩, _⟩ := id last
  have given : GivenLast 0 token rest := ⟨line, last, gives⟩
  rw [holderBehind_eq, (holder_outside (List.forall_mem_cons.1 readable).2 (by omega) (by omega) (by omega)).2 given,
    Option.some_or]
  exact ((holder_outside readable (Int.le_refl 0) (by omega) (by omega)).2 (givenLast_cons.2 (.inl given))).symm

/-- **The holders of the ids** are the same in both countings exactly where the lines say so. -/
theorem holders_same_iff (readable : ∀ line ∈ first :: rest, ReadableLine line) (counts : CounterFits 1 rest)
    (notWord : ¬ IsWord first) :
    (∀ n, holderBehind first rest n = holder 0 (first :: rest) n) ↔ HoldersStay first rest := by
  have fits : 1 + wordCount rest < 2 ^ 31 := by
    unfold CounterFits at counts
    omega
  constructor
  · intro same
    refine ⟨zero_given readable fits notWord (same 0), ?_, ?_, ?_⟩
    · rintro front word back rfl isWord
      exact (same_at_number readable fits notWord isWord).1 (same _)
    · rintro front word back rfl isWord none
      exact (same_at_next readable fits notWord isWord fun line mem => (none line mem).1).1 (same _)
        fun line mem => (none line mem).2
    · exact fun token n gives out => (same_outside readable fits notWord out).1 (same n) token gives
  · intro stay n
    by_cases outside : n < 0 ∨ wordCount rest < n
    · exact (same_outside readable fits notWord outside).2 fun token gives => stay.outside token n gives outside
    · obtain ⟨k, rfl⟩ := Int.eq_ofNat_of_zero_le (by omega : 0 ≤ n)
      rcases Nat.lt_or_ge k (wordCount rest) with less | last
      · obtain ⟨front, word, back, rfl, isWord, rfl⟩ := exists_number less
        exact (same_at_number readable fits notWord isWord).2 (stay.number front word back rfl isWord)
      · obtain rfl : k = wordCount rest := by omega
        rcases last_word rest with none | ⟨front, word, back, rfl, isWord, none⟩
        · -- no line is counted, and a later one gives the first line's 0 away
          rw [wordCount_none none] at fits ⊢
          exact same_of_zero readable (wordCount_none none) notWord stay.zero
        · refine (same_at_next readable fits notWord isWord none).2 fun given => ?_
          exact stay.next front word back rfl isWord fun line mem => ⟨none line mem, given line mem⟩

end Shift

end ModelRuntime
