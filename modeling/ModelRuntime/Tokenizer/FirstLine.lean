import ModelRuntime.Tokenizer.Numbering

/-!
# The first line

Without a header `load` takes the first line whole for the token 0, and the loop counts on from 1. Behind a
header that sets nothing the loop reads the line itself and counts from 0. A token's last line decides what
becomes of it (`Fate`): one that gives it an id settles it, one that is counted does not.
-/

namespace ModelRuntime
open Cpp Lib

attribute [local irreducible] toInt

/-- The file behind a header that has no colon and sets nothing. -/
def titled (contents : Bytes) : Bytes := str "vocab_size" ++ newline :: contents

structure SameTables (t t' : Tokenizer) : Prop where
  vocab : t.vocab = t'.vocab
  reverseVocab : t.reverseVocab = t'.reverseVocab
  merges : t.merges = t'.merges

def Given (token : Bytes) (rest : List Bytes) : Prop := ∃ line ∈ rest, Gives line token

/-- The token is counted and not given an id later. -/
def Unsettled (token : Bytes) (rest : List Bytes) : Prop :=
  IsWord token ∧ ∃ front back, rest = front ++ token :: back ∧ ¬ Given token back

/-- The later lines write over all in which the first one, entered as the token 0, differs from the loop's
reading of it: they give an id to it and to the token it gives one, each token that is counted is given an id
later, and each id is left to the same token in both countings. -/
structure NoTrace (first : Bytes) (rest : List Bytes) : Prop where
  given : Given first rest
  own : ∀ token, Gives first token → Given token rest
  counted : ∀ token, ¬ Unsettled token rest
  ids : HoldersStay first rest

/-- Neither load's counter overflows, and both leave the same tables. -/
structure FirstFollows (contents : Bytes) : Prop where
  plain : CounterFits 1 (lines newline contents).tail
  headed : CounterFits 0 (lines newline contents)
  tables : SameTables (({} : Tokenizer).load (some contents)).2 (({} : Tokenizer).load (some (titled contents))).2

/-! ## The fate of a token -/

section Fate

variable {line token : Bytes} {rest : List Bytes} {id : Int}

theorem given_cons : Given token (line :: rest) ↔ Gives line token ∨ Given token rest :=
  List.exists_mem_cons_iff ..

theorem unsettled_cons : Unsettled token (line :: rest) ↔
    (line = token ∧ IsWord token ∧ ¬ Given token rest) ∨ Unsettled token rest := by
  constructor
  · rintro ⟨isWord, front, back, split, notGiven⟩
    cases front with
    | nil =>
      obtain ⟨rfl, rfl⟩ := List.cons.inj split
      exact .inl ⟨rfl, isWord, notGiven⟩
    | cons _ front => exact .inr ⟨isWord, front, back, (List.cons.inj split).2, notGiven⟩
  · rintro (⟨rfl, isWord, notGiven⟩ | ⟨isWord, front, back, rfl, notGiven⟩)
    · exact ⟨isWord, [], rest, rfl, notGiven⟩
    · exact ⟨isWord, line :: front, back, rfl, notGiven⟩

/-- What `vocab_` holds of a token after the lines, from wherever they are counted. -/
inductive Fate (token : Bytes) (rest : List Bytes) : Prop where
  | absent (held : ∀ id, (writeAll (numbered id rest)).lookup token = none) (notGiven : ¬ Given token rest)
      (settled : ¬ Unsettled token rest)
  | given (n : Int) (held : ∀ id, (writeAll (numbered id rest)).lookup token = some n) (given : Given token rest)
      (settled : ¬ Unsettled token rest)
  | counted (k : Nat) (held : ∀ id, toInt id = id →
      (writeAll (numbered id rest)).lookup token = some (toInt (id + k))) (unsettled : Unsettled token rest)

/-- A line that writes nothing of the token leaves its fate to the later ones. -/
theorem Fate.keep (fate : Fate token rest)
    (held : ∀ id, (writeAll (numbered id (line :: rest))).lookup token = (writeAll (numbered id rest)).lookup token)
    (notGives : ¬ Gives line token) (notWord : ¬ IsWord line) : Fate token (line :: rest) := by
  have given : Given token (line :: rest) ↔ Given token rest := given_cons.trans (or_iff_right notGives)
  have unsettled : Unsettled token (line :: rest) ↔ Unsettled token rest := by
    apply unsettled_cons.trans (or_iff_right _)
    rintro ⟨rfl, isWord, _⟩
    exact notWord isWord
  cases fate with
  | absent none notGiven settled =>
    exact .absent (fun id => (held id).trans (none id)) (mt given.1 notGiven) (mt unsettled.1 settled)
  | given n some isGiven settled =>
    exact .given n (fun id => (held id).trans (some id)) (given.2 isGiven) (mt unsettled.1 settled)
  | counted k some isUnsettled =>
    exact .counted k (fun id fits => (held id).trans (some id fits)) (unsettled.2 isUnsettled)

/-- A counted line is the token's last word unless a later one is. -/
theorem Fate.word (fate : Fate token rest) (isWord : IsWord line) : Fate token (line :: rest) := by
  have notGives : ¬ Gives line token := fun gives => gives.not_word isWord
  have held : ∀ id, (writeAll (numbered id (line :: rest))).lookup token =
      ((writeAll (numbered (toInt (id + 1)) rest)).lookup token).or (if line = token then some id else none) := by
    intro id
    rw [numbered_word isWord, lookup_writeAll_cons]
  have given : Given token (line :: rest) ↔ Given token rest := given_cons.trans (or_iff_right notGives)
  cases fate with
  | absent none notGiven settled =>
    by_cases same : line = token
    · refine .counted 0 (fun id fits => ?_) (unsettled_cons.2 (.inl ⟨same, same ▸ isWord, notGiven⟩))
      rw [held, none, if_pos same, Option.none_or, Int.natCast_zero, Int.add_zero, fits]
    · refine .absent (fun id => ?_) (mt given.1 notGiven) fun unsettled => ?_
      · rw [held, none, if_neg same, Option.none_or]
      · exact (unsettled_cons.1 unsettled).elim (fun h => same h.1) settled
  | given n some isGiven settled =>
    refine .given n (fun id => ?_) (given.2 isGiven) fun unsettled => ?_
    · rw [held, some, Option.some_or]
    · exact (unsettled_cons.1 unsettled).elim (fun h => h.2.2 isGiven) settled
  | counted k some unsettled =>
    refine .counted (k + 1) (fun id _ => ?_) (unsettled_cons.2 (.inr unsettled))
    rw [held, some _ (toInt_toInt _), Option.some_or, toInt_toInt_add, Int.add_assoc, Int.natCast_succ,
      Int.add_comm 1]

/-- A line that gives the token an id settles it unless a later one counts it. -/
theorem Fate.gives (fate : Fate token rest) {n : Int} (read : ∀ id, vocabLine id line = .ok (.token token n, id)) :
    Fate token (line :: rest) := by
  have gives : Gives line token := ⟨n, read⟩
  have held : ∀ id, (writeAll (numbered id (line :: rest))).lookup token =
      ((writeAll (numbered id rest)).lookup token).or (some n) := by
    intro id
    rw [numbered_cons (read id), VocabLine.writes, List.singleton_append, lookup_writeAll_cons, if_pos rfl]
  have given : Given token (line :: rest) := given_cons.2 (.inl gives)
  have unsettled : Unsettled token (line :: rest) ↔ Unsettled token rest := by
    apply unsettled_cons.trans (or_iff_right _)
    exact fun h => gives.ne h.1
  cases fate with
  | absent none _ settled =>
    refine .given n (fun id => ?_) given (mt unsettled.1 settled)
    rw [held, none, Option.none_or]
  | given m some _ settled =>
    refine .given m (fun id => ?_) given (mt unsettled.1 settled)
    rw [held, some, Option.some_or]
  | counted k some isUnsettled =>
    refine .counted k (fun id fits => ?_) (unsettled.2 isUnsettled)
    rw [held, some id fits, Option.some_or]

theorem fate (readable : ∀ line ∈ rest, ReadableLine line) (token : Bytes) : Fate token rest := by
  induction rest with
  | nil => exact .absent (fun _ => rfl) (by simp [Given]) (by simp [Unsettled])
  | cons line rest ih =>
    rw [List.forall_mem_cons] at readable
    have later := ih readable.2
    cases readable.1.role with
    | silent entry quiet read =>
      refine later.keep (fun id => ?_) ?_ fun isWord => ?_
      · rw [numbered_cons (read id), quiet, List.nil_append]
      · exact not_gives_of_quiet quiet read
      · exact not_word_of_quiet quiet read isWord
    | word isWord => exact later.word isWord
    | gives token' n read =>
      by_cases same : token' = token
      · subst same
        exact later.gives read
      · refine later.keep (fun id => ?_) ?_ (Gives.not_word ⟨n, read⟩)
        · rw [numbered_cons (read id), VocabLine.writes, List.singleton_append, lookup_writeAll_cons,
            if_neg same, Option.or_none]
        · rintro ⟨m, other⟩
          exact same (GivesId.unique read other).1

end Fate

/-! ## The two loads -/

section Loads

variable {first token : Bytes} {rest : List Bytes} {contents : Bytes}

theorem lines_titled (contents : Bytes) :
    lines newline (titled contents) = str "vocab_size" :: lines newline contents :=
  lines_line (by decide)

theorem firstLine_title : firstLine (str "vocab_size") = .ok (.skipped, 0) := by decide

theorem fileEntries_titled (contents : Bytes) :
    fileEntries (titled contents) = .skipped :: entries 0 (lines newline contents) := by
  rw [fileEntries, lines_titled]
  dsimp only
  rw [firstLine_title]

theorem fileEntries_plain (file : lines newline contents = first :: rest) (noHeader : ¬ IsHeader first) :
    fileEntries contents = .token first 0 :: entries 1 rest := by
  have plain : firstLine first = .ok (.token first 0, 1) := by
    rw [firstLine, if_neg fun found => noHeader (findText_isSome.1 found)]
  rw [fileEntries, file]
  dsimp only
  rw [plain]

/-- What the two loads leave of the file's lines. -/
theorem sameTables_entries (plain : Readable contents) (headed : Readable (titled contents))
    (file : lines newline contents = first :: rest) (noHeader : ¬ IsHeader first) :
    SameTables (({} : Tokenizer).load (some contents)).2 (({} : Tokenizer).load (some (titled contents))).2 ↔
      writeAll ((first, 0) :: numbered 1 rest) = writeAll (numbered 0 (first :: rest)) ∧
      writeAll (((first, 0) :: numbered 1 rest).map Prod.swap) =
        writeAll ((numbered 0 (first :: rest)).map Prod.swap) ∧
      (entries 1 rest).flatMap VocabLine.pairs = (entries 0 (first :: rest)).flatMap VocabLine.pairs := by
  have own := Tokenizer.entered_written contents
  have other := Tokenizer.entered_written (titled contents)
  have merges := Tokenizer.entered_merges {} contents
  have merges' := Tokenizer.entered_merges {} (titled contents)
  rw [fileEntries_plain file noHeader] at own merges
  rw [fileEntries_titled, file] at other merges'
  rw [Tokenizer.load_readable plain, Tokenizer.load_readable headed]
  constructor
  · rintro ⟨vocab, reverseVocab, same⟩
    simp only [Tokenizer.sized_vocab, Tokenizer.sized_reverseVocab, Tokenizer.sized_merges] at vocab reverseVocab same
    rw [own.vocab, other.vocab] at vocab
    rw [own.reverseVocab, other.reverseVocab] at reverseVocab
    rw [merges, merges'] at same
    exact ⟨vocab, reverseVocab, same⟩
  · rintro ⟨vocab, reverseVocab, same⟩
    refine ⟨?_, ?_, ?_⟩
    · rw [Tokenizer.sized_vocab, Tokenizer.sized_vocab, own.vocab, other.vocab]
      exact vocab
    · rw [Tokenizer.sized_reverseVocab, Tokenizer.sized_reverseVocab, own.reverseVocab, other.reverseVocab]
      exact reverseVocab
    · rw [Tokenizer.sized_merges, Tokenizer.sized_merges, merges, merges']
      exact same

theorem writeAll_swapped : writeAll (((first, 0) :: numbered 1 rest).map Prod.swap) =
    writeAll ((numbered 0 (first :: rest)).map Prod.swap) ↔
      ∀ n, holderBehind first rest n = holder 0 (first :: rest) n :=
  ⟨fun same n => congrArg (Finmap.lookup n) same, Finmap.ext_lookup⟩

/-- What the loop makes of a first line that it does not count comes before what the later lines write. -/
theorem lookup_first (rest : List Bytes) (readable : ReadableLine first) (notWord : ¬ IsWord first) (token : Bytes) :
    ∃ own : Option Int, (own ≠ none ↔ Gives first token) ∧ ∀ id,
      (writeAll (numbered id (first :: rest))).lookup token = ((writeAll (numbered id rest)).lookup token).or own := by
  cases readable.role with
  | silent entry quiet read =>
    refine ⟨none, iff_of_false (fun some => some rfl) (not_gives_of_quiet quiet read), fun id => ?_⟩
    · rw [numbered_cons (read id), quiet, List.nil_append, Option.or_none]
  | word isWord => exact absurd isWord notWord
  | gives token' n read =>
    refine ⟨if token' = token then some n else none, ?_, fun id => ?_⟩
    · by_cases same : token' = token
      · subst same
        rw [if_pos rfl]
        exact iff_of_true nofun ⟨n, read⟩
      · rw [if_neg same]
        refine iff_of_false (fun some => some rfl) ?_
        exact fun ⟨m, other⟩ => same (GivesId.unique read other).1
    · rw [numbered_cons (read id), VocabLine.writes, List.singleton_append, lookup_writeAll_cons]

/-- Which tokens a first line that the loop does not count leaves the same id. -/
theorem vocab_iff (readable : ReadableLine first) (notWord : ¬ IsWord first)
    (later : ∀ line ∈ rest, ReadableLine line) :
    writeAll ((first, 0) :: numbered 1 rest) = writeAll (numbered 0 (first :: rest)) ↔
      Given first rest ∧ (∀ token, Gives first token → Given token rest) ∧ ∀ token, ¬ Unsettled token rest := by
  have one : toInt 1 = 1 := toInt_of_lt (n := 1) (by omega)
  have zero : toInt 0 = 0 := toInt_of_lt (n := 0) (by omega)
  constructor
  · intro same
    have held : ∀ token, ((writeAll (numbered 1 rest)).lookup token).or (if first = token then some 0 else none) =
        (writeAll (numbered 0 (first :: rest))).lookup token := by
      intro token
      rw [← same, lookup_writeAll_cons]
    have settled : ∀ token, ¬ Unsettled token rest := by
      intro token unsettled
      obtain ⟨own, _, front⟩ := lookup_first rest readable notWord token
      have both := held token
      rw [front] at both
      cases fate later token with
      | absent _ _ settled | given _ _ _ settled => exact settled unsettled
      | counted k some _ =>
        rw [some 1 one, some 0 zero, Option.some_or, Option.some_or, Option.some.injEq, Int.zero_add] at both
        exact toInt_succ_ne k both
    refine ⟨?_, fun token gives => ?_, settled⟩
    · obtain ⟨own, isOwn, front⟩ := lookup_first rest readable notWord first
      have both := held first
      rw [front] at both
      cases fate later first with
      | absent none _ _ =>
        rw [none, none, if_pos rfl, Option.none_or, Option.none_or] at both
        exact absurd rfl (isOwn.1 (by rw [← both]; nofun)).ne
      | given _ _ isGiven _ => exact isGiven
      | counted _ _ unsettled => exact absurd unsettled (settled first)
    · obtain ⟨own, isOwn, front⟩ := lookup_first rest readable notWord token
      have both := held token
      rw [front] at both
      cases fate later token with
      | absent none _ _ =>
        rw [none, none, if_neg gives.ne, Option.none_or, Option.none_or] at both
        exact absurd both.symm (isOwn.2 gives)
      | given _ _ isGiven _ => exact isGiven
      | counted _ _ unsettled => exact absurd unsettled (settled token)
  · rintro ⟨given, owns, settled⟩
    apply Finmap.ext_lookup
    intro token
    obtain ⟨own, isOwn, front⟩ := lookup_first rest readable notWord token
    rw [lookup_writeAll_cons, front]
    cases fate later token with
    | absent none notGiven _ =>
      have apart : first ≠ token := by
        rintro rfl
        exact notGiven given
      have noOwn : own = .none := by
        by_contra some
        exact notGiven (owns token (isOwn.1 some))
      rw [none, none, if_neg apart, noOwn]
    | given n some _ _ => rw [some, some, Option.some_or, Option.some_or]
    | counted _ _ unsettled => exact absurd unsettled (settled token)

/-- The lines can be counted, and the first one does what the loop would have it do, or the later ones leave no
trace of it. -/
def FirstFits : List Bytes → Prop
  | [] => True
  | first :: rest => CounterFits 1 rest ∧ (IsWord first ∨ NoTrace first rest)

/-- A line that later ones give an id is not two fields: it is empty or starts with a space. -/
theorem Given.pairs (given : Given first rest) (notWord : ¬ IsWord first) (readable : ReadableLine first) (id : Int) :
    (entries id (first :: rest)).flatMap VocabLine.pairs = (entries id rest).flatMap VocabLine.pairs := by
  obtain ⟨line, _, gives⟩ := given
  obtain ⟨entry, read⟩ := (vocabLine_ok_iff id first).2 readable
  rw [entries]
  cases lineShape first with
  | blank => rfl
  | bare ne noSpace => exact absurd ⟨ne, noSpace⟩ notWord
  | fields ne before => exact absurd gives (Gives.not_fields ne before)
  | @lead left right head last =>
    rw [vocabLine_lead id head last] at read ⊢
    obtain ⟨n, number⟩ := map_ok_iff.1 ⟨_, read⟩
    rw [number]
    rfl

theorem CounterFits.cons (fits : CounterFits 1 rest) : CounterFits 0 (first :: rest) := by
  unfold CounterFits at fits ⊢
  by_cases isWord : IsWord first
  · rw [wordCount_word isWord]
    omega
  · rw [wordCount_other isWord]
    omega

/-- **The first line** follows the rules of the others in a file without a header exactly where its lines can be
counted and the first one is not empty and has no space, or the later lines leave no trace of it. -/
theorem sameTables_iff (contents : Bytes) (noHeader : ∀ first ∈ (lines newline contents).head?, ¬ IsHeader first)
    (plain : ∃ opened, (({} : Tokenizer).load (some contents)).1 = .ok opened)
    (headed : ∃ opened, (({} : Tokenizer).load (some (titled contents))).1 = .ok opened) :
    FirstFollows contents ↔ FirstFits (lines newline contents) := by
  have readable := (load_ok_iff {} contents).1 plain
  have readable' := (load_ok_iff {} (titled contents)).1 headed
  cases file : lines newline contents with
  | nil =>
    have own : fileEntries contents = [] := by rw [fileEntries, file]
    have other : fileEntries (titled contents) = [.skipped] := by rw [fileEntries_titled, file]; rfl
    refine iff_of_true ⟨?_, ?_, ?_⟩ trivial
    · rw [file]
      decide
    · rw [file]
      decide
    · rw [Tokenizer.load_readable readable, Tokenizer.load_readable readable', Tokenizer.entered, Tokenizer.entered,
        own, other]
      exact ⟨rfl, rfl, rfl⟩
  | cons first rest =>
    rw [file] at noHeader
    rw [Readable, lines_titled, file] at readable'
    obtain ⟨_, every⟩ := readable'
    have later := (List.forall_mem_cons.1 every).2
    have notHeader := noHeader first rfl
    have tables := sameTables_entries readable ((load_ok_iff {} (titled contents)).1 headed) file notHeader
    have follows : FirstFollows contents ↔ CounterFits 1 rest ∧ SameTables (({} : Tokenizer).load (some contents)).2
        (({} : Tokenizer).load (some (titled contents))).2 := by
      constructor
      · rintro ⟨counts, _, same⟩
        rw [file] at counts
        exact ⟨counts, same⟩
      · rintro ⟨counts, same⟩
        refine ⟨?_, ?_, same⟩
        · rwa [file]
        · rw [file]
          exact counts.cons
    rw [follows, tables, FirstFits]
    refine and_congr_right fun counts => ?_
    by_cases isWord : IsWord first
    · rw [numbered_word isWord, toInt_one, entries, vocabLine_word 0 isWord.1 isWord.2]
      dsimp only
      rw [toInt_one]
      exact iff_of_true ⟨rfl, rfl, rfl⟩ (.inl isWord)
    · rw [or_iff_right isWord, vocab_iff (every first List.mem_cons_self) isWord later, writeAll_swapped,
        holders_same_iff every counts isWord]
      constructor
      · rintro ⟨⟨given, own, counted⟩, ids, _⟩
        exact ⟨given, own, counted, ids⟩
      · rintro ⟨given, own, counted, ids⟩
        refine ⟨⟨given, own, counted⟩, ids, ?_⟩
        rw [given.pairs isWord (every first List.mem_cons_self)]
        exact entries_pairs later 1 0

/-- Two tokens on lines of their own. -/
theorem sameTables_letters : FirstFollows (str "a\nb\n") := by
  have file : lines newline (str "a\nb\n") = [str "a", str "b"] := by decide
  refine (sameTables_iff (str "a\nb\n") ?_ ⟨true, by decide +kernel⟩ ⟨true, by decide +kernel⟩).2 ?_
  · rw [file]
    rintro first ⟨⟩
    decide
  · rw [file]
    exact ⟨by decide, .inl ⟨by decide, by decide⟩⟩

/-- A merge on the first line is a token there. -/
theorem firstLine_merge :
    ¬ ∀ contents : Bytes, (∀ first ∈ (lines newline contents).head?, ¬ IsHeader first) →
      (∃ opened, (({} : Tokenizer).load (some contents)).1 = .ok opened) →
      (∃ opened, (({} : Tokenizer).load (some (titled contents))).1 = .ok opened) →
      SameTables (({} : Tokenizer).load (some contents)).2 (({} : Tokenizer).load (some (titled contents))).2 := by
  intro all
  have tables := all (str "a b\n") ?_ ⟨true, by decide +kernel⟩ ⟨true, by decide +kernel⟩
  · have same := tables.merges
    revert same
    decide +kernel
  · rw [show lines newline (str "a b\n") = [str "a b"] by decide]
    rintro first ⟨⟩
    decide

end Loads

end ModelRuntime
