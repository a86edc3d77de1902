import Mathlib.Data.Finmap
import ModelRuntime.Cpp.Loop
import ModelRuntime.Cpp.Number

/-!
# The BPE tokenizer

`Tokenizer::encode`, `decode`, `bpe_encode` and `find_best_merge`. An `unordered_map` is a `Finmap`:
nothing in the program depends on its order. The `int` positions and priorities of
`find_best_merge` are truncated as the source truncates them (`toInt`).
-/

namespace ModelRuntime
open Cpp

structure Tokenizer where
  vocab : Finmap fun _ : Bytes => Int := ∅
  reverseVocab : Finmap fun _ : Int => Bytes := ∅
  merges : List (Bytes × Bytes) := []
  vocabSize : Int := 0

/-- `best_pos`, `best_priority` and `best_merge_idx` of `find_best_merge`. -/
structure BestMerge where
  pos : Int := -1
  priority : Int := -1
  mergeIdx : Int := -1

/-- The inner loop at position `i`: the first entry that matches the pair, then `break`. -/
def BestMerge.improve (merges : List (Bytes × Bytes)) (i : Nat) (a b : Bytes) (best : BestMerge) :
    BestMerge :=
  match merges.findIdx? (· == (a, b)) with
  | none => best
  | some m =>
    -- earlier merge, higher priority
    let priority := toInt (merges.length - m : Nat)
    if best.priority < priority then ⟨toInt i, priority, toInt m⟩ else best

/-- The outer loop, `chars` being the pieces from position `i` on. -/
def findBestMergeFrom (merges : List (Bytes × Bytes)) : Nat → List Bytes → BestMerge → BestMerge
  | i, a :: b :: rest, best =>
    findBestMergeFrom merges (i + 1) (b :: rest) (best.improve merges i a b)
  | _, _, best => best

namespace Tokenizer

variable (t : Tokenizer)

def findBestMerge (chars : List Bytes) : Int × Int :=
  let best := findBestMergeFrom t.merges 0 chars {}
  (best.pos, best.mergeIdx)

/-- One pass of `bpe_encode`'s `while (changed && chars.size() > 1)`. Where the `int` sum `pos + 1` overflows
the source has no meaning: `IndicesInRange` (in Merge) is about the passes in which it does not. -/
def mergePass (chars : List Bytes) : Option (List Bytes) :=
  if chars.length ≤ 1 then none
  else
    let (pos, mergeIdx) := t.findBestMerge chars
    if 0 ≤ pos ∧ 0 ≤ mergeIdx then
      let merged := chars.getD pos.toNat [] ++ chars.getD (pos.toNat + 1) []
      some ((chars.eraseIdx (pos.toNat + 1)).set pos.toNat merged)
    else none

/-- The merge loop of `bpe_encode`. -/
def mergeLoop (chars : List Bytes) : List Bytes := whileSome t.mergePass chars.length chars

/-- The fallback over the prefixes of `ch` of length `len` down to 1; `0` is the UNK token. -/
def longestPrefix (ch : Bytes) : Nat → Int
  | 0 => 0
  | len + 1 => match t.vocab.lookup (ch.take (len + 1)) with
    | some id => id
    | none => longestPrefix ch len

/-- The id `bpe_encode` emits for one final piece. -/
def pieceId (ch : Bytes) : Int :=
  match t.vocab.lookup ch with
  | some id => id
  | none => t.longestPrefix ch ch.length

def bpeEncode (text : Bytes) : List Int :=
  if text = [] then [] else (t.mergeLoop (text.map fun c => [c])).map t.pieceId

/-- `tokens`, `words` and `current` of `encode`'s splitting loop. -/
structure Split where
  tokens : List Int := []
  words : List Bytes := []
  current : Bytes := []

/-- `words` once the pending word is pushed. -/
def Split.flush (st : Split) : List Bytes :=
  if st.current = [] then st.words else st.words ++ [st.current]

/-- `encode` treats whitespace and punctuation as tokens of their own. -/
def isSeparator (c : UInt8) : Bool := isSpace c || isPunct c

/-- The id of a separator. A separator is ASCII, so `static_cast<int>(c)` is its code. -/
def separatorId (c : UInt8) : Int :=
  match t.vocab.lookup [c] with
  | some id => id
  | none => c.toNat + 256

/-- One byte of `encode`'s splitting loop. -/
def splitByte (st : Split) (c : UInt8) : Split :=
  if isSeparator c then
    { tokens := st.tokens ++ [t.separatorId c], words := st.flush, current := [] }
  else { st with current := st.current ++ [c] }

def encode (text : Bytes) : List Int :=
  if text = [] then []
  else
    let st := text.foldl t.splitByte {}
    st.flush.foldl (fun tokens word => tokens ++ t.bpeEncode word) st.tokens

/-- What `decode` appends for one token. -/
def tokenText (token : Int) : Bytes :=
  match t.reverseVocab.lookup token with
  | some text => text
  | none =>
    if 256 ≤ token ∧ token < 512 then [UInt8.ofNat (token - 256).toNat] else str "<UNK>"

def decode (tokens : List Int) : Bytes := tokens.foldl (fun result token => result ++ t.tokenText token) []

def countTokens (text : Bytes) : Int := toInt (t.encode text).length

end Tokenizer
end ModelRuntime
