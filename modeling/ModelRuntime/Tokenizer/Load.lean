import ModelRuntime.Cpp.Lines
import ModelRuntime.Lib.PairedMaps
import ModelRuntime.Tokenizer.Model

/-!
# Loading a vocabulary

`load` and `add_token`. What a line of the file enters depends on the file alone, so that a run of
calls is a list of pairs written to `vocab_` and, turned round, to `reverse_vocab_`.
-/

namespace ModelRuntime
open Cpp Lib

/-- `s.rfind(c)`. -/
def rfind (s : Bytes) (c : UInt8) : Option Nat := (s.reverse.findIdx? (· == c)).map (s.length - 1 - ·)

theorem rfind_last {left right : Bytes} {c : UInt8} (last : c ∉ right) :
    rfind (left ++ c :: right) c = some left.length := by
  have turned : (left ++ c :: right).reverse = right.reverse ++ c :: left.reverse := by simp
  have before : c ∉ right.reverse := by simpa using last
  rw [rfind, findIdx?_cut, turned, cut_append (no_byte before) (beq_self_eq_true c), Option.map_some,
    Option.map_some, Option.some.injEq, List.length_reverse, List.length_append, List.length_cons]
  omega

theorem rfind_absent {line : Bytes} {c : UInt8} (absent : c ∉ line) : rfind line c = none := by
  have nowhere : c ∉ line.reverse := by simpa using absent
  rw [rfind, findIdx?_cut, cut_eq_none_iff.2 (no_byte nowhere)]
  rfl

/-- What a line of the file says. -/
inductive VocabLine where
  | skipped
  | vocabSize (n : Int)
  | token (text : Bytes) (id : Int)
  | merge (left right : Bytes)
  deriving DecidableEq

/-- The first line: a header, or a token with id 0. With it the next id. -/
def firstLine (line : Bytes) : Except StdException (VocabLine × Int) :=
  if (findText (str "vocab_size") line).isSome then
    match find line colon 0 with
    | none => .ok (.skipped, 0)
    | some pos => do return (.vocabSize (← stoi (← substr line (pos + 1) none)), 0)
  else .ok (.token line 0, 1)

/-- A line without a space inside: a token, with its id where it starts with a space. -/
def bareLine (id : Int) (line : Bytes) : Except StdException (VocabLine × Int) :=
  match rfind line 32 with
  | none => .ok (.token line id, toInt (id + 1))
  | some pos => do
    let token ← substr line 0 (some pos)
    return (.token token (← stoi (← substr line (pos + 1) none)), id)

/-- Any other line, `id` being the id of the next token that comes without one. -/
def vocabLine (id : Int) (line : Bytes) : Except StdException (VocabLine × Int) :=
  if line = [] then .ok (.skipped, id)
  else
    match if line.head? = some 32 then none else find line 32 0 with
    | none => bareLine id line
    | some pos => do
      let left ← substr line 0 (some pos)
      let right ← substr line (pos + 1) none
      if right.all isDigit && right.length < 6 then return (.token left (← stoi right), id)
      else return (.merge left right, id)

namespace Tokenizer

/-- Both maps are written. -/
def write (t : Tokenizer) (token : Bytes) (id : Int) : Tokenizer :=
  { t with vocab := t.vocab.insert token id, reverseVocab := t.reverseVocab.insert id token }

def enter (t : Tokenizer) : VocabLine → Tokenizer
  | .skipped => t
  | .vocabSize n => { t with vocabSize := n }
  | .token text id => t.write text id
  | .merge left right => { t with merges := t.merges ++ [(left, right)] }

/-- The loop over the lines after the first; what was entered before an exception stays. -/
def loadLines : Int → List Bytes → Tokenizer → Except StdException Unit × Tokenizer
  | _, [], t => (.ok (), t)
  | id, line :: rest, t =>
    match vocabLine id line with
    | .error e => (.error e, t)
    | .ok (entry, id) => loadLines id rest (t.enter entry)

/-- All the lines, the first read in its own way. -/
def loadFile (t : Tokenizer) (contents : Bytes) : Except StdException Unit × Tokenizer :=
  match lines newline contents with
  | [] => (.ok (), t)
  | first :: rest =>
    match firstLine first with
    | .error e => (.error e, t)
    | .ok (entry, id) => loadLines id rest (t.enter entry)

/-- `load`, `file` being the contents of the file, `none` where it cannot be opened. -/
def load (t : Tokenizer) (file : Option Bytes) : Except StdException Bool × Tokenizer :=
  match file with
  | none => (.ok false, t)
  | some contents =>
    match t.loadFile contents with
    | (.error e, t) => (.error e, t)
    | (.ok (), t) =>
      (.ok true, if t.vocabSize = 0 then { t with vocabSize := toInt t.vocab.keys.card } else t)

def addToken (t : Tokenizer) (token : Bytes) (id : Int) : Tokenizer :=
  let t := t.write token id
  if t.vocabSize ≤ id then { t with vocabSize := toInt (id + 1) } else t

end Tokenizer

/-! ## Runs -/

inductive TokenizerCall where
  | load (file : Option Bytes)
  | addToken (token : Bytes) (id : Int)

def TokenizerCall.step (t : Tokenizer) : TokenizerCall → Tokenizer
  | .load file => (t.load file).2
  | .addToken token id => t.addToken token id

def runCalls (calls : List TokenizerCall) : Tokenizer := calls.foldl TokenizerCall.step {}

/-! ## What a call writes -/

def VocabLine.writes : VocabLine → List (Bytes × Int)
  | .token text id => [(text, id)]
  | .skipped | .vocabSize _ | .merge _ _ => []

/-- What the lines enter, up to the first that throws. -/
def entries : Int → List Bytes → List VocabLine
  | _, [] => []
  | id, line :: rest =>
    match vocabLine id line with
    | .error _ => []
    | .ok (entry, id) => entry :: entries id rest

def fileEntries (contents : Bytes) : List VocabLine :=
  match lines newline contents with
  | [] => []
  | first :: rest =>
    match firstLine first with
    | .error _ => []
    | .ok (entry, id) => entry :: entries id rest

/-- The pairs a call writes, in order. They do not depend on the tokenizer. -/
def TokenizerCall.writes : TokenizerCall → List (Bytes × Int)
  | .load none => []
  | .load (some contents) => (fileEntries contents).flatMap VocabLine.writes
  | .addToken token id => [(token, id)]

/-- The two maps are what the writes `ws` have made of them. -/
structure Written (ws : List (Bytes × Int)) (t : Tokenizer) : Prop where
  vocab : t.vocab = writeAll ws
  reverseVocab : t.reverseVocab = writeAll (ws.map Prod.swap)

section Written

variable {ws : List (Bytes × Int)} {t : Tokenizer}

theorem written_nil : Written [] {} := ⟨rfl, rfl⟩

theorem Written.write (h : Written ws t) (token : Bytes) (id : Int) :
    Written (ws ++ [(token, id)]) (t.write token id) where
  vocab := by rw [writeAll_concat, ← h.vocab]; rfl
  reverseVocab := by
    rw [List.map_append, List.map_cons, List.map_nil, Prod.swap_prod_mk, writeAll_concat,
      ← h.reverseVocab]
    rfl

theorem Written.enter (h : Written ws t) (entry : VocabLine) :
    Written (ws ++ entry.writes) (t.enter entry) := by
  cases entry with
  | token text id => exact h.write text id
  | skipped | vocabSize | merge =>
    rw [VocabLine.writes, List.append_nil]
    exact ⟨h.vocab, h.reverseVocab⟩

theorem Written.loadLines (h : Written ws t) (id : Int) (rest : List Bytes) :
    Written (ws ++ (entries id rest).flatMap VocabLine.writes) (t.loadLines id rest).2 := by
  induction rest generalizing id ws t with
  | nil => simpa [entries, Tokenizer.loadLines] using h
  | cons line rest ih =>
    rw [entries, Tokenizer.loadLines]
    cases vocabLine id line with
    | error e => simpa using h
    | ok x =>
      have next := ih (h.enter x.1) x.2
      rwa [List.append_assoc] at next

theorem Written.loadFile (h : Written ws t) (contents : Bytes) :
    Written (ws ++ (fileEntries contents).flatMap VocabLine.writes) (t.loadFile contents).2 := by
  rw [fileEntries, Tokenizer.loadFile]
  cases lines newline contents with
  | nil => simpa using h
  | cons first rest =>
    dsimp only
    cases firstLine first with
    | error e => simpa using h
    | ok x =>
      have next := (h.enter x.1).loadLines x.2 rest
      rwa [List.append_assoc] at next

theorem Written.load (h : Written ws t) (file : Option Bytes) :
    Written (ws ++ (TokenizerCall.load file).writes) (t.load file).2 := by
  cases file with
  | none => simpa [TokenizerCall.writes, Tokenizer.load] using h
  | some contents =>
    have loaded := h.loadFile contents
    rw [Tokenizer.load, TokenizerCall.writes]
    generalize t.loadFile contents = result at loaded
    obtain ⟨outcome, t⟩ := result
    cases outcome with
    | error e => exact loaded
    | ok done =>
      dsimp only
      split
      · exact ⟨loaded.vocab, loaded.reverseVocab⟩
      · exact loaded

theorem Written.step (h : Written ws t) (call : TokenizerCall) :
    Written (ws ++ call.writes) (call.step t) := by
  cases call with
  | load file => exact h.load file
  | addToken token id =>
    have written := h.write token id
    rw [TokenizerCall.writes, TokenizerCall.step, Tokenizer.addToken]
    split
    · exact ⟨written.vocab, written.reverseVocab⟩
    · exact written

/-- **A run** writes what its calls write, one after the other. -/
theorem runCalls_written (calls : List TokenizerCall) :
    Written (calls.flatMap TokenizerCall.writes) (runCalls calls) := by
  induction calls using List.reverseRecOn with
  | nil => exact written_nil
  | append_singleton calls call ih =>
    rw [List.flatMap_append, List.flatMap_singleton, runCalls, List.foldl_append]
    exact ih.step call

end Written

/-- What `vocab_` maps, `reverse_vocab_` maps back, and conversely. -/
def VocabInverse (t : Tokenizer) : Prop :=
  ∀ token id, t.vocab.lookup token = some id ↔ t.reverseVocab.lookup id = some token

/-- **The vocabulary maps** of every run are mutually inverse exactly where each pair the run writes is,
after it was written last, overwritten in both maps or in neither. -/
theorem vocabInverse_iff (calls : List TokenizerCall) :
    VocabInverse (runCalls calls) ↔ OverwrittenTogether (calls.flatMap TokenizerCall.writes) := by
  have written := runCalls_written calls
  rw [VocabInverse, written.vocab, written.reverseVocab]
  exact inverse_iff

/-- A file with a token of its own id and one that the counter gives the same. -/
def collidingFile : Bytes := str "a\nb 1\nc\n"

theorem collidingFile_writes : (TokenizerCall.load (some collidingFile)).writes =
    [(str "a", 0), (str "b", 1), (str "c", 1)] := by
  decide +kernel

/-- After it is loaded, `reverse_vocab_` has forgotten a token that `vocab_` holds. -/
theorem vocab_collision :
    ¬ ∀ calls : List TokenizerCall,
      (∀ front call back, calls = front ++ call :: back → ∀ file, call = .load file →
        ∃ opened, ((runCalls front).load file).1 = .ok opened) → VocabInverse (runCalls calls) := by
  intro all
  have inverse := all [.load (some collidingFile)] ?_
  · rw [VocabInverse, (runCalls_written _).vocab, (runCalls_written _).reverseVocab, inverse_iff,
      List.flatMap_singleton, collidingFile_writes] at inverse
    have pair := inverse [(str "a", 0)] (str "b") 1 [(str "c", 1)] rfl (by decide)
    revert pair
    decide
  · intro front call back split file loads
    cases front with
    | nil =>
      obtain ⟨rfl, _⟩ := List.cons.inj split
      cases loads
      exact ⟨true, by decide +kernel⟩
    | cons _ front => cases front <;> cases split

end ModelRuntime
