import ModelRuntime.Tokenizer.Load

/-!
# Vocabulary files

What `load` makes of the files that are written for it: a header, tokens one per line, and lines of
two fields. A line of two fields gives an id where the second one is a number of less than six
digits, and is a merge where it is not.
-/

namespace ModelRuntime
open Cpp Lib

/-- A token as a file can hold it. -/
structure PlainToken (token : Bytes) : Prop where
  ne : token ≠ []
  noSpace : 32 ∉ token
  noNewline : newline ∉ token

def sizeLine (n : Nat) : Bytes := str "vocab_size: " ++ decimal n

/-- `left right`. -/
def fieldsLine (p : Bytes × Bytes) : Bytes := p.1 ++ 32 :: p.2

/-- What the loader takes for an id: `is_number && right.size() < 6`. -/
def idField (right : Bytes) : Bool := right.all isDigit && right.length < 6

/-- The lines of a file: the header, `tokens` one per line, `pairs` as lines of two fields. -/
def vocabFile (n : Nat) (tokens : List Bytes) (pairs : List (Bytes × Bytes)) : List Bytes :=
  sizeLine n :: (tokens ++ pairs.map fieldsLine)

/-! ## One line -/

section Line

variable {token right : Bytes}

theorem PlainToken.head_ne (h : PlainToken token) (r : Bytes) : (token ++ r).head? ≠ some 32 := by
  obtain ⟨c, rest, rfl⟩ := List.exists_cons_of_ne_nil h.ne
  intro head
  rw [List.cons_append, List.head?_cons, Option.some.injEq] at head
  exact h.noSpace (by simp [head])

theorem vocabLine_bare (h : PlainToken token) (id : Int) :
    vocabLine id token = .ok (.token token id, toInt (id + 1)) := by
  have head := h.head_ne []
  rw [List.append_nil] at head
  rw [vocabLine, if_neg h.ne, if_neg head, find_absent h.noSpace]
  dsimp only
  rw [bareLine, rfind_absent h.noSpace]

/-- What a line of two fields enters. -/
def fieldsEntry (p : Bytes × Bytes) : VocabLine :=
  if idField p.2 then .token p.1 (digitsValue p.2) else .merge p.1 p.2

theorem stoi_idField (ne : right ≠ []) (short : idField right = true) :
    stoi right = .ok (digitsValue right) := by
  simp only [idField, Bool.and_eq_true, List.all_eq_true, decide_eq_true_eq] at short
  have value := digitsValue_lt short.1
  have power : 10 ^ right.length ≤ 10 ^ 5 := Nat.pow_le_pow_right (by omega) (by omega)
  rw [stoi_digits ne short.1, if_neg (by omega)]

/-- A line of two fields is read, whatever they are. -/
theorem vocabLine_fields (h : PlainToken token) (ne : right ≠ []) (id : Int) :
    vocabLine id (fieldsLine (token, right)) = .ok (fieldsEntry (token, right), id) := by
  have filled : fieldsLine (token, right) ≠ [] := by simp [fieldsLine]
  have head : (fieldsLine (token, right)).head? ≠ some 32 := h.head_ne _
  have place : find (fieldsLine (token, right)) 32 0 = some token.length := find_first h.noSpace
  have left : substr (fieldsLine (token, right)) 0 (some token.length) = .ok token := substr_left
  have back : substr (fieldsLine (token, right)) (token.length + 1) none = .ok right := substr_right
  rw [vocabLine, if_neg filled, if_neg head, place]
  simp only [left, back]
  rw [fieldsEntry]
  by_cases short : idField right = true
  · rw [if_pos short]
    change (if idField right then _ else _) = _
    rw [if_pos short, stoi_idField ne short]
    rfl
  · rw [if_neg short]
    change (if idField right then _ else _) = _
    rw [if_neg short]
    rfl

theorem firstLine_header (n : Nat) : firstLine (sizeLine n) =
    if 2 ^ 31 ≤ n then .error (.outOfRange (str "stoi")) else .ok (.vocabSize n, 0) := by
  have names : (findText (str "vocab_size") (sizeLine n)).isSome = true := by
    rw [findText, List.findIdx?_isSome, List.any_eq_true]
    exact ⟨sizeLine n, by simp, by rfl⟩
  have at10 : find (sizeLine n) colon 0 = some 10 := by
    have before : ∀ c ∈ str "vocab_size", (c == colon) = false := by decide
    rw [find, findIf_drop List.drop_zero, show sizeLine n = str "vocab_size" ++ colon :: 32 :: decimal n
      from rfl, cut_append before (by decide)]
    rfl
  have value : substr (sizeLine n) (10 + 1) none = .ok (32 :: decimal n) := by
    rw [substr, if_neg (by simp [sizeLine, str])]
    rfl
  rw [firstLine, if_pos names, at10]
  simp only [value]
  change (stoi (32 :: decimal n) >>= fun size => .ok (VocabLine.vocabSize size, 0)) = _
  rw [stoi_blank, stoi_digits (decimal_ne_nil n) (decimal_digits n), digitsValue_decimal]
  split <;> rfl

end Line

/-! ## The whole file -/

/-- What the tokens on lines of their own enter: their ids count on from `n`. -/
def bareEntries (n : Nat) (tokens : List Bytes) : List VocabLine :=
  (tokens.zipIdx n).map fun v => .token v.1 (toInt v.2)

/-- The merges a line enters. -/
def VocabLine.pairs : VocabLine → List (Bytes × Bytes)
  | .merge left right => [(left, right)]
  | .skipped | .vocabSize _ | .token _ _ => []

section File

variable {t : Tokenizer} {tokens : List Bytes} {pairs : List (Bytes × Bytes)}

theorem toInt_succ (n : Nat) : toInt (toInt n + 1) = toInt (n + 1 : Nat) := toInt_toInt_add n 1

theorem loadLines_bare (plain : ∀ token ∈ tokens, PlainToken token) (n : Nat) (rest : List Bytes) :
    t.loadLines (toInt n) (tokens ++ rest) =
      ((bareEntries n tokens).foldl Tokenizer.enter t).loadLines (toInt (n + tokens.length : Nat)) rest := by
  induction tokens generalizing n t with
  | nil => rfl
  | cons token tokens ih =>
    rw [List.cons_append, Tokenizer.loadLines, vocabLine_bare (plain token (by simp))]
    dsimp only
    rw [toInt_succ, ih (fun x hx => plain x (by simp [hx])), List.length_cons, Nat.add_right_comm n 1]
    rfl

theorem loadLines_fields (plain : ∀ p ∈ pairs, PlainToken p.1 ∧ p.2 ≠ []) (id : Int) :
    t.loadLines id (pairs.map fieldsLine) =
      (.ok (), (pairs.map fieldsEntry).foldl Tokenizer.enter t) := by
  induction pairs generalizing t with
  | nil => rfl
  | cons p pairs ih =>
    have first := plain p (by simp)
    rw [List.map_cons, Tokenizer.loadLines, vocabLine_fields first.1 first.2]
    exact ih fun x hx => plain x (by simp [hx])

theorem Written.enterAll {ws : List (Bytes × Int)} (h : Written ws t) (es : List VocabLine) :
    Written (ws ++ es.flatMap VocabLine.writes) (es.foldl Tokenizer.enter t) := by
  induction es generalizing ws t with
  | nil => simpa using h
  | cons entry es ih =>
    have next := ih (h.enter entry)
    rwa [List.append_assoc] at next

theorem merges_enterAll (es : List VocabLine) :
    (es.foldl Tokenizer.enter t).merges = t.merges ++ es.flatMap VocabLine.pairs := by
  induction es generalizing t with
  | nil => simp
  | cons entry es ih =>
    rw [List.foldl_cons, ih, List.flatMap_cons, ← List.append_assoc]
    cases entry with
    | merge left right => rfl
    | skipped | vocabSize | token => rw [VocabLine.pairs, List.append_nil]; rfl

/-- The pairs the tokens on lines of their own write. -/
def counted (tokens : List Bytes) : List (Bytes × Int) := tokens.zipIdx.map fun v => (v.1, toInt v.2)

/-- The pairs the lines of two fields write. -/
def given (pairs : List (Bytes × Bytes)) : List (Bytes × Int) :=
  (pairs.filter (idField ·.2)).map fun p => (p.1, digitsValue p.2)

theorem bareEntries_writes (tokens : List Bytes) :
    (bareEntries 0 tokens).flatMap VocabLine.writes = counted tokens := by
  rw [bareEntries, counted, List.flatMap_map, List.map_eq_flatMap]
  rfl

theorem bareEntries_pairs (tokens : List Bytes) :
    (bareEntries 0 tokens).flatMap VocabLine.pairs = [] := by
  rw [bareEntries, List.flatMap_map, List.flatMap_eq_nil_iff]
  exact fun _ _ => rfl

theorem fieldsEntry_writes (pairs : List (Bytes × Bytes)) :
    (pairs.map fieldsEntry).flatMap VocabLine.writes = given pairs := by
  induction pairs with
  | nil => rfl
  | cons p pairs ih =>
    rw [List.map_cons, List.flatMap_cons, ih, given, given, List.filter_cons, fieldsEntry]
    split <;> rfl

theorem fieldsEntry_pairs (pairs : List (Bytes × Bytes)) :
    (pairs.map fieldsEntry).flatMap VocabLine.pairs = pairs.filter fun p => !idField p.2 := by
  induction pairs with
  | nil => rfl
  | cons p pairs ih =>
    rw [List.map_cons, List.flatMap_cons, ih, List.filter_cons, fieldsEntry]
    cases idField p.2 <;> rfl

/-- **A vocabulary file**, its header being an `int`, is loaded: the tokens on lines of their own count
on from 0, the lines of two fields are sorted by their second one. -/
theorem load_vocabFile {n : Nat} {contents : Bytes} (size : n < 2 ^ 31)
    (file : lines newline contents = vocabFile n tokens pairs)
    (plain : ∀ token ∈ tokens, PlainToken token) (plainPairs : ∀ p ∈ pairs, PlainToken p.1 ∧ p.2 ≠ []) :
    let loaded := ({} : Tokenizer).load (some contents)
    loaded.1 = .ok true ∧ Written (counted tokens ++ given pairs) loaded.2 ∧
      loaded.2.merges = pairs.filter fun p => !idField p.2 := by
  intro loaded
  let entries := bareEntries 0 tokens ++ pairs.map fieldsEntry
  let entered := entries.foldl Tokenizer.enter (Tokenizer.enter {} (.vocabSize n))
  have header : firstLine (sizeLine n) = .ok (.vocabSize n, 0) := by
    rw [firstLine_header, if_neg (by omega)]
  have read : ({} : Tokenizer).loadFile contents = (.ok (), entered) := by
    rw [Tokenizer.loadFile, file, vocabFile]
    simp only [header]
    have bare := loadLines_bare (t := Tokenizer.enter {} (.vocabSize n)) plain 0 (pairs.map fieldsLine)
    rw [loadLines_fields plainPairs, ← List.foldl_append] at bare
    exact bare
  have written : Written (counted tokens ++ given pairs) entered := by
    have all := (written_nil.enter (.vocabSize n)).enterAll entries
    rwa [List.flatMap_append, bareEntries_writes, fieldsEntry_writes] at all
  have merged : entered.merges = pairs.filter fun p => !idField p.2 := by
    rw [merges_enterAll, List.flatMap_append, bareEntries_pairs, fieldsEntry_pairs]
    rfl
  have last : loaded = (.ok true,
      if entered.vocabSize = 0 then { entered with vocabSize := toInt entered.vocab.keys.card }
      else entered) := by
    change Tokenizer.load _ _ = _
    rw [Tokenizer.load]
    simp only [read]
  rw [last]
  refine ⟨rfl, ?_⟩
  dsimp only
  split
  · exact ⟨⟨written.vocab, written.reverseVocab⟩, merged⟩
  · exact ⟨written, merged⟩

/-- A header that no `int` holds ends the load. -/
theorem load_header {n : Nat} {contents : Bytes} (size : 2 ^ 31 ≤ n)
    (file : lines newline contents = vocabFile n tokens pairs) :
    (({} : Tokenizer).load (some contents)).1 ≠ .ok true := by
  have header : firstLine (sizeLine n) = .error (.outOfRange (str "stoi")) := by
    rw [firstLine_header, if_pos size]
  rw [Tokenizer.load, Tokenizer.loadFile, file, vocabFile]
  simp [header]

end File

/-! ## Ids in the file -/

/-- An injective finite map from tokens to ids. -/
structure VocabMap where
  ids : Finmap fun _ : Bytes => Int
  plain : ∀ token id, ids.lookup token = some id → PlainToken token ∧ 0 ≤ id ∧ id < 2 ^ 31
  injective : ∀ token token' id, ids.lookup token = some id → ids.lookup token' = some id → token = token'

/-- The entries of a map, each once, in any order. -/
structure VocabMap.Lists (m : VocabMap) (entries : List (Bytes × Int)) : Prop where
  nodup : entries.Nodup
  mem : ∀ token id, (token, id) ∈ entries ↔ m.ids.lookup token = some id

/-- `token id` of an entry. -/
def idFields (entry : Bytes × Int) : Bytes × Bytes := (entry.1, decimalInt entry.2)

/-- A load of the file gives the map, its inverse and no merges. -/
structure VocabMap.LoadedFrom (m : VocabMap) (contents : Bytes) : Prop where
  ok : (({} : Tokenizer).load (some contents)).1 = .ok true
  vocab : (({} : Tokenizer).load (some contents)).2.vocab = m.ids
  reverseVocab : ∀ id token, (({} : Tokenizer).load (some contents)).2.reverseVocab.lookup id = some token ↔
    m.ids.lookup token = some id
  merges : (({} : Tokenizer).load (some contents)).2.merges = []

section Ids

variable {m : VocabMap} {entries : List (Bytes × Int)}

theorem VocabMap.Lists.plain (h : m.Lists entries) {entry : Bytes × Int} (mem : entry ∈ entries) :
    PlainToken entry.1 ∧ 0 ≤ entry.2 ∧ entry.2 < 2 ^ 31 :=
  m.plain _ _ ((h.mem _ _).1 mem)

theorem VocabMap.Lists.nodup_tokens (h : m.Lists entries) : (entries.map Prod.fst).Nodup := by
  refine h.nodup.map_on ?_
  rintro ⟨token, id⟩ mem ⟨token', id'⟩ mem' (rfl : token = token')
  have same := ((h.mem _ _).1 mem).symm.trans ((h.mem _ _).1 mem')
  rw [Option.some.inj same]

theorem VocabMap.Lists.nodup_ids (h : m.Lists entries) : (entries.map Prod.snd).Nodup := by
  refine h.nodup.map_on ?_
  rintro ⟨token, id⟩ mem ⟨token', id'⟩ mem' (rfl : id = id')
  rw [m.injective _ _ _ ((h.mem _ _).1 mem) ((h.mem _ _).1 mem')]

/-- An id is taken for one where it has less than six digits. -/
theorem idField_decimalInt {id : Int} (nonneg : 0 ≤ id) : idField (decimalInt id) = true ↔ id < 100000 := by
  have text : decimalInt id = decimal id.natAbs := by rw [decimalInt, if_neg (by omega)]
  have digits : (decimal id.natAbs).all isDigit = true := List.all_eq_true.2 (decimal_digits _)
  have short := decimal_length_le (n := id.natAbs) (k := 5) (by omega)
  rw [text, idField, digits, Bool.true_and, decide_eq_true_eq]
  omega

theorem given_idFields (short : ∀ entry ∈ entries, 0 ≤ entry.2 ∧ entry.2 < 100000) :
    given (entries.map idFields) = entries := by
  induction entries with
  | nil => rfl
  | cons entry entries ih =>
    have first := short entry (by simp)
    have id : idField (idFields entry).2 = true := (idField_decimalInt first.1).2 first.2
    have value : (digitsValue (idFields entry).2 : Int) = entry.2 := by
      rw [idFields, decimalInt, if_neg (by omega), digitsValue_decimal]
      omega
    have rest := ih fun x hx => short x (by simp [hx])
    rw [given] at rest ⊢
    rw [List.map_cons, List.filter_cons, if_pos id, List.map_cons, rest, value]
    rfl

theorem VocabMap.Lists.plainLines (h : m.Lists entries) :
    ∀ p ∈ entries.map idFields, PlainToken p.1 ∧ p.2 ≠ [] := by
  intro p mem
  obtain ⟨entry, listed, rfl⟩ := List.mem_map.1 mem
  have plain := h.plain listed
  refine ⟨plain.1, ?_⟩
  rw [idFields, decimalInt, if_neg (by omega)]
  exact decimal_ne_nil _

theorem newline_decimal (n : Nat) : newline ∉ decimal n := by
  intro mem
  have digit := decimal_digits n _ mem
  exact absurd digit (by decide)

theorem vocabFile_lines {n : Nat} {tokens : List Bytes} {pairs : List (Bytes × Bytes)} {contents : Bytes}
    (file : HasLines newline contents (vocabFile n tokens pairs))
    (plain : ∀ token ∈ tokens, PlainToken token)
    (plainPairs : ∀ p ∈ pairs, newline ∉ p.1 ∧ newline ∉ p.2) :
    lines newline contents = vocabFile n tokens pairs := by
  have header : newline ∉ sizeLine n := by
    rw [sizeLine, List.mem_append, not_or]
    exact ⟨by decide, newline_decimal n⟩
  refine file.lines ?_ ?_
  · intro line mem
    rcases List.mem_cons.1 mem with rfl | mem
    · simp [sizeLine, str]
    rcases List.mem_append.1 mem with mem | mem
    · exact (plain line mem).ne
    · obtain ⟨p, _, rfl⟩ := List.mem_map.1 mem
      simp [fieldsLine]
  · intro line mem
    rcases List.mem_cons.1 mem with rfl | mem
    · exact header
    rcases List.mem_append.1 mem with mem | mem
    · exact (plain line mem).noNewline
    · obtain ⟨p, listed, rfl⟩ := List.mem_map.1 mem
      have clean := plainPairs p listed
      rw [fieldsLine, List.mem_append, List.mem_cons, not_or, not_or]
      exact ⟨clean.1, by decide, clean.2⟩

/-- **A file of ids** is loaded as it is exactly where its header is an `int` and no id has more than five
digits. -/
theorem loadedFrom_iff {n : Nat} {contents : Bytes} (lists : m.Lists entries)
    (file : HasLines newline contents (vocabFile n [] (entries.map idFields))) :
    m.LoadedFrom contents ↔
      n < 2 ^ 31 ∧ ∀ token id, m.ids.lookup token = some id → id < 100000 := by
  have text : lines newline contents = vocabFile n [] (entries.map idFields) := by
    refine vocabFile_lines file (by simp) ?_
    intro p mem
    obtain ⟨entry, listed, rfl⟩ := List.mem_map.1 mem
    have plain := lists.plain listed
    refine ⟨plain.1.noNewline, ?_⟩
    rw [idFields, decimalInt, if_neg (by omega)]
    exact newline_decimal _
  by_cases size : n < 2 ^ 31
  · obtain ⟨ok, written, merges⟩ := load_vocabFile size text (by simp) lists.plainLines
    rw [and_iff_right size]
    constructor
    · intro loaded token id found
      have none := List.filter_eq_nil_iff.1 (merges.symm.trans loaded.merges)
      have mem := (lists.mem token id).2 found
      have short := none _ (List.mem_map_of_mem (f := idFields) mem)
      rw [Bool.not_eq_true', Bool.not_eq_false] at short
      exact (idField_decimalInt (lists.plain mem).2.1).1 short
    · intro short
      have all : ∀ entry ∈ entries, 0 ≤ entry.2 ∧ entry.2 < 100000 := by
        intro entry mem
        exact ⟨(lists.plain mem).2.1, short _ _ ((lists.mem _ _).1 mem)⟩
      rw [given_idFields all] at written
      refine ⟨ok, ?_, ?_, ?_⟩
      · refine Finmap.ext_lookup fun token => Option.ext fun id => ?_
        rw [written.vocab]
        exact (lookup_writeAll_nodup lists.nodup_tokens).trans (lists.mem token id)
      · intro id token
        have once : ((entries.map Prod.swap).map Prod.fst).Nodup := by
          rw [List.map_map]
          exact lists.nodup_ids
        rw [written.reverseVocab]
        exact (lookup_writeAll_nodup once).trans ((List.mem_map_swap _ _ _).trans (lists.mem token id))
      · rw [merges, List.filter_eq_nil_iff]
        intro p mem
        obtain ⟨entry, listed, rfl⟩ := List.mem_map.1 mem
        have id := (idField_decimalInt (all entry listed).1).2 (all entry listed).2
        simp [idFields, id]
  · have failed := load_header (by omega) text
    exact ⟨fun loaded => absurd loaded.ok failed, fun h => absurd h.1 size⟩

end Ids

theorem singleton_lookup {a x : Bytes} {b y : Int} :
    (Finmap.singleton a b : Finmap fun _ : Bytes => Int).lookup x = some y ↔ x = a ∧ y = b := by
  by_cases same : x = a
  · subst same
    rw [Finmap.lookup_singleton_eq, Option.some.injEq, eq_comm, and_iff_right rfl]
  · have absent : (Finmap.singleton a b : Finmap fun _ : Bytes => Int).lookup x = none :=
      Finmap.lookup_eq_none.2 fun mem => same ((Finmap.mem_singleton x a b).1 mem)
    simp [absent, same]

theorem plainToken_a : PlainToken (str "a") := ⟨by decide, by decide, by decide⟩

/-- The map of one token, `a`. -/
def oneMap (id : Int) (nonneg : 0 ≤ id) (small : id < 2 ^ 31) : VocabMap where
  ids := Finmap.singleton (str "a") id
  plain := by
    intro token id' found
    obtain ⟨rfl, rfl⟩ := singleton_lookup.1 found
    exact ⟨plainToken_a, nonneg, small⟩
  injective := by
    intro token token' id' found found'
    rw [(singleton_lookup.1 found).1, (singleton_lookup.1 found').1]

theorem oneMap_lists {id : Int} (nonneg : 0 ≤ id) (small : id < 2 ^ 31) :
    (oneMap id nonneg small).Lists [(str "a", id)] where
  nodup := List.nodup_singleton _
  mem token id' := by
    rw [List.mem_singleton, Prod.mk.injEq]
    exact singleton_lookup.symm

/-- A file with an id of five digits. -/
theorem fiveDigits_loaded :
    (oneMap 99999 (by omega) (by omega)).LoadedFrom (str "vocab_size: 1\na 99999\n") :=
  (loadedFrom_iff (n := 1) (oneMap_lists (by omega) (by omega)) (.inl (by decide +kernel))).2
    ⟨by omega, fun _ _ found => by rw [(singleton_lookup.1 found).2]; omega⟩

/-- An entry whose id has six digits is entered as a merge. -/
theorem sixDigits_merge :
    ¬ ∀ (m : VocabMap) (n : Nat) (entries : List (Bytes × Int)) (contents : Bytes), m.Lists entries →
      HasLines newline contents (vocabFile n [] (entries.map idFields)) → m.LoadedFrom contents := by
  intro all
  have text : HasLines newline (str "vocab_size: 1\na 100000\n")
      (vocabFile 1 [] ([(str "a", 100000)].map idFields)) := .inl (by decide +kernel)
  have loaded := all _ 1 _ _ (@oneMap_lists 100000 (by omega) (by omega)) text
  have merges : (({} : Tokenizer).load (some (str "vocab_size: 1\na 100000\n"))).2.merges =
      [(str "a", str "100000")] := by
    decide +kernel
  rw [loaded.merges] at merges
  cases merges

/-! ## Tokens and merges in the file -/

/-- A load of the file gives each of `tokens` its place, the inverse of that, and `pairs` in order. -/
structure MergesLoaded (tokens : List Bytes) (pairs : List (Bytes × Bytes)) (contents : Bytes) : Prop where
  ok : (({} : Tokenizer).load (some contents)).1 = .ok true
  vocab : ∀ token id, (({} : Tokenizer).load (some contents)).2.vocab.lookup token = some id ↔
    ∃ i : Nat, tokens[i]? = some token ∧ id = i
  reverseVocab : ∀ id token, (({} : Tokenizer).load (some contents)).2.reverseVocab.lookup id = some token ↔
    ∃ i : Nat, tokens[i]? = some token ∧ id = i
  merges : (({} : Tokenizer).load (some contents)).2.merges = pairs

section Merges

variable {tokens : List Bytes} {pairs : List (Bytes × Bytes)} {token : Bytes} {id : Int}

theorem mem_counted : (token, id) ∈ counted tokens ↔ ∃ i : Nat, tokens[i]? = some token ∧ id = toInt i := by
  rw [counted, List.mem_map]
  constructor
  · rintro ⟨⟨token', i⟩, mem, same⟩
    obtain ⟨rfl, rfl⟩ := Prod.mk.inj same
    exact ⟨i, List.mem_zipIdx_iff_getElem?.1 mem, rfl⟩
  · rintro ⟨i, found, same⟩
    exact ⟨(token, i), List.mem_zipIdx_iff_getElem?.2 found, by simp only [same]⟩

/-- While no counter wraps, the place is the id. -/
theorem mem_counted_small (few : tokens.length ≤ 2 ^ 31) :
    (token, id) ∈ counted tokens ↔ ∃ i : Nat, tokens[i]? = some token ∧ id = i := by
  have place : ∀ i : Nat, tokens[i]? = some token → toInt i = i := by
    intro i found
    obtain ⟨bound, _⟩ := List.getElem?_eq_some_iff.1 found
    exact toInt_of_lt (by omega)
  rw [mem_counted]
  constructor
  · rintro ⟨i, found, same⟩
    exact ⟨i, found, same.trans (place i found)⟩
  · rintro ⟨i, found, same⟩
    exact ⟨i, found, same.trans (place i found).symm⟩

theorem counted_tokens (tokens : List Bytes) : (counted tokens).map Prod.fst = tokens := by
  rw [counted, List.map_map]
  exact List.zipIdx_map_fst 0 tokens

theorem counted_ids (few : tokens.length ≤ 2 ^ 31) : ((counted tokens).map Prod.snd).Nodup := by
  have ids : (counted tokens).map Prod.snd = (List.range tokens.length).map fun i : Nat => (i : Int) := by
    rw [counted, List.map_map, List.range_eq_range', ← List.zipIdx_map_snd 0 tokens, List.map_map]
    refine List.map_congr_left fun v mem => ?_
    have place := List.snd_lt_of_mem_zipIdx mem
    rw [Function.comp_apply, Function.comp_apply, toInt_of_lt (by omega)]
  rw [ids]
  exact List.nodup_range.map Int.ofNat_injective

/-- No id of the writes is too large for an `int`. -/
theorem writes_lt (mem : (token, id) ∈ counted tokens ++ given pairs) : id < 2 ^ 31 := by
  rcases List.mem_append.1 mem with mem | mem
  · obtain ⟨i, _, same⟩ := mem_counted.1 mem
    rw [same]
    exact toInt_lt i
  · obtain ⟨p, listed, same⟩ := List.mem_map.1 mem
    obtain ⟨_, rfl⟩ := Prod.mk.inj same
    have field := (List.mem_filter.1 listed).2
    simp only [idField, Bool.and_eq_true, List.all_eq_true, decide_eq_true_eq] at field
    have value := digitsValue_lt field.1
    have power : 10 ^ p.2.length ≤ 10 ^ 5 := Nat.pow_le_pow_right (by omega) (by omega)
    omega

/-- **A file of tokens and merges** is loaded as it is exactly where its header is an `int`, the ids are,
and no merge ends in a token that the loader takes for an id. -/
theorem mergesLoaded_iff {n : Nat} {contents : Bytes} (once : tokens.Nodup)
    (plain : ∀ token ∈ tokens, PlainToken token) (known : ∀ p ∈ pairs, p.1 ∈ tokens ∧ p.2 ∈ tokens)
    (file : HasLines newline contents (vocabFile n tokens pairs)) :
    MergesLoaded tokens pairs contents ↔
      n < 2 ^ 31 ∧ tokens.length ≤ 2 ^ 31 ∧ ∀ p ∈ pairs, idField p.2 = false := by
  have text : lines newline contents = vocabFile n tokens pairs :=
    vocabFile_lines file plain fun p mem =>
      ⟨(plain _ (known p mem).1).noNewline, (plain _ (known p mem).2).noNewline⟩
  by_cases size : n < 2 ^ 31
  · obtain ⟨ok, written, merges⟩ := load_vocabFile size text plain fun p mem =>
      ⟨plain _ (known p mem).1, (plain _ (known p mem).2).ne⟩
    rw [and_iff_right size]
    constructor
    · intro loaded
      constructor
      · by_contra many
        obtain ⟨token, found⟩ : ∃ token, tokens[2 ^ 31]? = some token :=
          ⟨_, List.getElem?_eq_getElem (by omega)⟩
        have held := (loaded.vocab token (2 ^ 31 : Nat)).2 ⟨_, found, rfl⟩
        rw [written.vocab] at held
        obtain ⟨x, y, split, _⟩ := lookup_writeAll.1 held
        have small := writes_lt (split ▸ List.mem_append_right x List.mem_cons_self)
        omega
      · intro p mem
        have all := List.filter_eq_self.1 (merges.symm.trans loaded.merges)
        simpa using all p mem
    · rintro ⟨few, fields⟩
      have none : given pairs = [] := by
        rw [given, List.map_eq_nil_iff, List.filter_eq_nil_iff]
        intro p mem
        simp [fields p mem]
      rw [none, List.append_nil] at written
      refine ⟨ok, ?_, ?_, ?_⟩
      · intro token id
        rw [written.vocab, ← mem_counted_small few]
        apply lookup_writeAll_nodup
        rwa [counted_tokens]
      · intro id token
        have keys : (((counted tokens).map Prod.swap).map Prod.fst).Nodup := by
          rw [List.map_map]
          exact counted_ids few
        rw [written.reverseVocab, ← mem_counted_small few]
        exact (lookup_writeAll_nodup keys).trans (List.mem_map_swap _ _ _)
      · rw [merges, List.filter_eq_self]
        intro p mem
        simp [fields p mem]
  · have failed := load_header (by omega) text
    exact ⟨fun loaded => absurd loaded.ok failed, fun h => absurd h.1 size⟩

end Merges

theorem plainToken_of_letters {tokens : List Bytes} (letters : ∀ token ∈ tokens, token ≠ [] ∧
    32 ∉ token ∧ newline ∉ token) : ∀ token ∈ tokens, PlainToken token :=
  fun token mem => ⟨(letters token mem).1, (letters token mem).2.1, (letters token mem).2.2⟩

theorem letters_loaded :
    MergesLoaded [str "a", str "b"] [(str "a", str "b")] (str "vocab_size: 2\na\nb\na b\n") :=
  (mergesLoaded_iff (n := 2) (by decide) (plainToken_of_letters (by decide)) (by decide)
    (.inl (by decide +kernel))).2 ⟨by omega, Nat.le_of_ble_eq_true rfl, by decide⟩

/-- A merge that ends in a digit token gives its first token a second id. -/
theorem digitMerge_id :
    ¬ ∀ (n : Nat) (tokens : List Bytes) (pairs : List (Bytes × Bytes)) (contents : Bytes), tokens.Nodup →
      (∀ token ∈ tokens, PlainToken token) → (∀ p ∈ pairs, p.1 ∈ tokens ∧ p.2 ∈ tokens) →
      HasLines newline contents (vocabFile n tokens pairs) → MergesLoaded tokens pairs contents := by
  intro all
  have loaded := all 2 [str "a", str "1"] [(str "a", str "1")] (str "vocab_size: 2\na\n1\na 1\n")
    (by decide) (plainToken_of_letters (by decide)) (by decide) (.inl (by decide +kernel))
  have id : (({} : Tokenizer).load (some (str "vocab_size: 2\na\n1\na 1\n"))).2.vocab.lookup (str "a") =
      some 1 := by
    decide +kernel
  obtain ⟨i, found, same⟩ := (loaded.vocab _ _).1 id
  obtain rfl : i = 1 := by omega
  revert found
  decide

end ModelRuntime
