import ModelRuntime.Lib.Run
import ModelRuntime.Tokenizer.Reload

/-!
# The size of the vocabulary

`add_token` keeps `vocab_size()` above every id. `load` takes it from the header, leaves it as it is, or counts
the tokens where it is 0, and keeps it above the ids exactly where the ids are below that number (`LoadFits`).
-/

namespace ModelRuntime
open Cpp Lib

attribute [local irreducible] toInt

/-- Every id is less than `vocab_size()`. -/
structure IdsBounded (t : Tokenizer) : Prop where
  vocab : ∀ token id, t.vocab.lookup token = some id → id < t.vocabSize
  reverseVocab : ∀ id ∈ t.reverseVocab, id < t.vocabSize

/-- What `vocab_` maps to is a key of `reverse_vocab_`. -/
def Registered (t : Tokenizer) : Prop := ∀ token id, t.vocab.lookup token = some id → id ∈ t.reverseVocab

/-- The pairs a file writes. -/
def fileWrites (contents : Bytes) : List (Bytes × Int) := (fileEntries contents).flatMap VocabLine.writes

/-- How many tokens there are after the file is entered, as an `int`. -/
def tokenCount (t : Tokenizer) (contents : Bytes) : Int :=
  toInt (t.vocab.keys ∪ ((fileWrites contents).map Prod.fst).toFinset).card

/-- The size that `load` ends with is above the ids: where the header gives one, above the old ids and those of the
file; where the old one is kept, above those of the file; and where the tokens are counted, above all. -/
structure LoadFits (t : Tokenizer) (contents : Bytes) : Prop where
  header : ∀ n ∈ Tokenizer.headerSize contents, n ≠ 0 →
    (∀ id ∈ t.reverseVocab, id < n) ∧ ∀ id ∈ (fileWrites contents).map Prod.snd, id < n
  kept : Tokenizer.headerSize contents = none → t.vocabSize ≠ 0 →
    ∀ id ∈ (fileWrites contents).map Prod.snd, id < t.vocabSize
  counted : (Tokenizer.headerSize contents).getD t.vocabSize = 0 →
    (∀ id ∈ t.reverseVocab, id < tokenCount t contents) ∧
      ∀ id ∈ (fileWrites contents).map Prod.snd, id < tokenCount t contents

/-- The call ends without an exception; the ids are `int`s whose successor is one. -/
def TokenizerCall.Accepted (t : Tokenizer) : TokenizerCall → Prop
  | .load file => ∃ opened, (t.load file).1 = .ok opened
  | .addToken _ id => -2 ^ 31 ≤ id ∧ id < 2 ^ 31 - 1

def TokenizerCall.Fits (t : Tokenizer) : TokenizerCall → Prop
  | .load (some contents) => LoadFits t contents
  | .load none | .addToken _ _ => True

section Step

variable {t : Tokenizer} {contents : Bytes} {token : Bytes} {id : Int}

theorem Registered.write (h : Registered t) (token : Bytes) (id : Int) : Registered (t.write token id) := by
  intro token' id' found
  apply Finmap.mem_insert.2
  change (t.vocab.insert token id).lookup token' = some id' at found
  by_cases same : token' = token
  · subst same
    rw [Finmap.lookup_insert, Option.some.injEq] at found
    exact .inl found.symm
  · rw [Finmap.lookup_insert_of_ne _ same] at found
    exact .inr (h token' id' found)

theorem Registered.entered (h : Registered t) (contents : Bytes) : Registered (t.entered contents) := by
  rw [Tokenizer.entered]
  refine List.foldlRecOn (motive := Registered) _ _ h ?_
  intro t registered entry _
  cases entry with
  | token text id => exact registered.write text id
  | skipped | vocabSize | merge => exact registered

theorem registered_sized : Registered t.sized ↔ Registered t := by
  rw [Registered, Registered, Tokenizer.sized_vocab, Tokenizer.sized_reverseVocab]

theorem Registered.bounded_iff (h : Registered t) : IdsBounded t ↔ ∀ id ∈ t.reverseVocab, id < t.vocabSize := by
  constructor
  · exact fun bounded => bounded.reverseVocab
  · exact fun all => ⟨fun token id found => all id (h token id found), all⟩

theorem mem_entered : id ∈ (t.entered contents).reverseVocab ↔
    id ∈ t.reverseVocab ∨ id ∈ (fileWrites contents).map Prod.snd := by
  rw [Tokenizer.entered, reverseVocab_enterAll, mem_foldl_insert, List.map_map]
  exact Iff.rfl

theorem count_entered : toInt (t.entered contents).vocab.keys.card = tokenCount t contents := by
  have keys : (t.entered contents).vocab.keys = t.vocab.keys ∪ ((fileWrites contents).map Prod.fst).toFinset := by
    ext token
    rw [Finmap.mem_keys, Tokenizer.entered, vocab_enterAll, mem_foldl_insert, Finset.mem_union, Finmap.mem_keys,
      List.mem_toFinset]
    exact Iff.rfl
  rw [keys, tokenCount]

/-- The size a load ends with. -/
theorem size_entered : (t.entered contents).sized.vocabSize =
    if (Tokenizer.headerSize contents).getD t.vocabSize = 0 then tokenCount t contents
    else (Tokenizer.headerSize contents).getD t.vocabSize := by
  rw [← count_entered, ← Tokenizer.entered_vocabSize, Tokenizer.sized]
  split <;> rfl

/-- **A load** keeps the ids below the size exactly where the file fits. -/
theorem load_bounded_iff (bounded : IdsBounded t) (registered : Registered t) (readable : Readable contents) :
    IdsBounded (t.load (some contents)).2 ↔ LoadFits t contents := by
  have after : Registered (t.entered contents).sized := registered_sized.2 (registered.entered contents)
  rw [Tokenizer.load_readable readable, after.bounded_iff, Tokenizer.sized_reverseVocab, size_entered]
  simp only [mem_entered, or_imp, forall_and]
  by_cases zero : (Tokenizer.headerSize contents).getD t.vocabSize = 0
  · rw [if_pos zero]
    refine ⟨fun all => ⟨fun n header given => ?_, fun noHeader size => ?_, fun _ => all⟩, fun fits => fits.counted zero⟩
    · rw [Option.mem_def.1 header] at zero
      exact absurd zero given
    · rw [noHeader] at zero
      exact absurd zero size
  · rw [if_neg zero]
    cases header : Tokenizer.headerSize contents with
    | some n =>
      rw [header] at zero
      refine ⟨fun all => ⟨fun m same _ => ?_, fun noHeader => ?_, fun none => absurd (header ▸ none) zero⟩,
        fun fits => fits.header n header zero⟩
      · obtain rfl := Option.some.inj (header.symm.trans same)
        exact all
      · rw [header] at noHeader
        cases noHeader
    | none =>
      rw [header] at zero
      refine ⟨fun all => ⟨fun m same => ?_, fun _ _ => all.2, fun none => absurd (header ▸ none) zero⟩,
        fun fits => ⟨bounded.reverseVocab, fits.kept header zero⟩⟩
      rw [header] at same
      cases same

/-- `add_token` raises the size above the id. -/
theorem IdsBounded.addToken (bounded : IdsBounded t) (registered : Registered t) (low : -2 ^ 31 ≤ id)
    (high : id < 2 ^ 31 - 1) : IdsBounded (t.addToken token id) := by
  have written := registered.write token id
  have old : ∀ id' ∈ (t.write token id).reverseVocab, id' = id ∨ id' < t.vocabSize := fun id' mem =>
    (Finmap.mem_insert.1 mem).imp_right (bounded.reverseVocab id')
  rw [Tokenizer.addToken]
  split
  · rename_i above
    have size : (t.write token id).vocabSize = t.vocabSize := rfl
    have raised : Registered { t.write token id with vocabSize := toInt (id + 1) } := written
    refine raised.bounded_iff.2 fun id' mem => ?_
    have next : toInt (id + 1) = id + 1 := toInt_of_range (by omega) (by omega)
    have less : id' < id + 1 := by
      rcases old id' mem with rfl | less
      · omega
      · omega
    rwa [← next] at less
  · rename_i below
    have size : (t.write token id).vocabSize = t.vocabSize := rfl
    refine written.bounded_iff.2 fun id' mem => ?_
    rcases old id' mem with rfl | less
    · omega
    · omega

end Step

/-! ## Runs -/

section Run

variable {t : Tokenizer} {call : TokenizerCall}

theorem Registered.step (h : Registered t) (call : TokenizerCall) (accepted : call.Accepted t) :
    Registered (call.step t) := by
  cases call with
  | load file =>
    cases file with
    | none => exact h
    | some contents =>
      rw [TokenizerCall.step, Tokenizer.load_readable ((load_ok_iff t contents).1 accepted)]
      exact registered_sized.2 (h.entered contents)
  | addToken token id =>
    rw [TokenizerCall.step, Tokenizer.addToken]
    split
    · exact h.write token id
    · exact h.write token id

/-- **One call** keeps the ids below the size exactly where it fits. -/
theorem step_bounded_iff (bounded : IdsBounded t) (registered : Registered t) (accepted : call.Accepted t) :
    IdsBounded (call.step t) ↔ call.Fits t := by
  cases call with
  | load file =>
    cases file with
    | none => exact iff_of_true bounded trivial
    | some contents => exact load_bounded_iff bounded registered ((load_ok_iff t contents).1 accepted)
  | addToken token id => exact iff_of_true (bounded.addToken registered accepted.1 accepted.2) trivial

theorem registered_empty : Registered {} := by
  intro token id found
  rw [show ({} : Tokenizer).vocab.lookup token = none from Finmap.lookup_empty token] at found
  cases found

theorem idsBounded_empty : IdsBounded {} :=
  registered_empty.bounded_iff.2 fun _ mem => absurd mem Finmap.notMem_empty

/-- **`vocab_size()` bounds every id** after each call of a run exactly where every load of the run fits. -/
theorem idsBounded_iff (calls : List TokenizerCall)
    (accepted : Along TokenizerCall.step TokenizerCall.Accepted {} calls) :
    (∀ front back, calls = front ++ back → IdsBounded (runCalls front)) ↔
      Along TokenizerCall.step TokenizerCall.Fits {} calls := by
  have same : ∀ t (call : TokenizerCall), IdsBounded t ∧ Registered t →
      (call.Accepted t ∧ IdsBounded (call.step t) ↔ call.Accepted t ∧ call.Fits t) :=
    fun t call inv => and_congr_right fun ok => step_bounded_iff inv.1 inv.2 ok
  have keep : ∀ t (call : TokenizerCall), IdsBounded t ∧ Registered t → call.Accepted t ∧ call.Fits t →
      IdsBounded (call.step t) ∧ Registered (call.step t) :=
    fun t call inv good => ⟨((same t call inv).2 good).2, inv.2.step call good.1⟩
  have steps := along_iff same keep calls {} ⟨idsBounded_empty, registered_empty⟩
  rw [along_and, along_and, and_iff_right accepted, and_iff_right accepted] at steps
  rw [← steps]
  exact (reached_iff calls ({} : Tokenizer)).trans (and_iff_right idsBounded_empty)

/-- A header of two tokens. -/
def twoFile : Bytes := str "vocab_size: 2\na\nb\n"

/-- A third one is added. -/
theorem idsBounded_three : IdsBounded (runCalls [.load (some twoFile), .addToken (str "c") 5]) := by
  have accepted : Along TokenizerCall.step TokenizerCall.Accepted {}
      [.load (some twoFile), .addToken (str "c") 5] :=
    ⟨⟨true, by decide +kernel⟩, ⟨by omega, by omega⟩, trivial⟩
  have header : Tokenizer.headerSize twoFile = some 2 := by decide +kernel
  have ids : ∀ id ∈ (fileWrites twoFile).map Prod.snd, id < 2 := by decide +kernel
  refine (idsBounded_iff _ accepted).2 ⟨⟨?_, ?_, ?_⟩, trivial, trivial⟩ _ [] (List.append_nil _).symm
  · intro n same _
    obtain rfl := Option.some.inj (header.symm.trans same)
    exact ⟨fun _ mem => absurd mem Finmap.notMem_empty, ids⟩
  · intro none
    rw [header] at none
    cases none
  · intro zero
    rw [header] at zero
    cases zero

/-- A file without a header that gives its only token the id 5. -/
theorem five_unbounded : ¬ ∀ calls, Along TokenizerCall.step TokenizerCall.Accepted {} calls →
    ∀ front back, calls = front ++ back → IdsBounded (runCalls front) := by
  intro all
  let five : TokenizerCall := .load (some (str "\na 5\n"))
  have bounded := all [five] ⟨⟨true, by decide +kernel⟩, trivial⟩ [five] [] rfl
  have id : (runCalls [five]).vocab.lookup (str "a") = some 5 := by decide +kernel
  have size : (runCalls [five]).vocabSize = 2 := by decide +kernel
  have less := bounded.vocab _ _ id
  omega

end Run

end ModelRuntime
