import ModelRuntime.Engine.Config

/-!
# llama.cpp as the backend sees it

The calls the program makes, as a record of functions over a model `M`, a context `C` and the logits
`L` read for one token. What the documentation promises of them is stated apart, as properties of
the record.
-/

namespace ModelRuntime
open Cpp

/-- One entry of a `llama_batch`; every entry is of sequence 0. -/
structure BatchEntry where
  token : Int
  pos : Int
  logits : Bool := false
  deriving DecidableEq

abbrev Batch := List BatchEntry

structure LlamaCpp (M C L : Type) where
  /-- `llama_tokenize(model, text, text_len, buffer, n_tokens_max, add_special, parse_special)`: the
  return value and the tokens written to the buffer. -/
  tokenize : M → Bytes → Int → Int → Bool → Bool → Int × List Int
  /-- `llama_token_to_piece(model, token, buf, length, lstrip, special)`. -/
  tokenToPiece : M → Int → Int → Int → Bool → Int × Bytes
  tokenIsEog : M → Int → Bool
  nVocab : M → Int
  kvCacheClear : C → C
  /-- The return code, and the context after the call. -/
  decode : C → Batch → Int × C
  getLogitsIth : C → Int → L

variable {M C L : Type}

/-- The cached entries of a sequence that stands at positions `0..n-1`. -/
def positioned (tokens : List Int) : List (Int × Int) :=
  tokens.zipIdx.map fun (token, i) => ((i : Int), token)

/-- What `llama_kv_cache_clear` and `llama_decode` promise of the cache `kv` of a context and of the
logits: these are a function of the cached sequence when it has no gap and no repeat. -/
structure DecodeContract (api : LlamaCpp M C L) (kv : C → List (Int × Int)) (logits : List Int → L) :
    Prop where
  clear : ∀ ctx, kv (api.kvCacheClear ctx) = []
  decode : ∀ ctx batch, (api.decode ctx batch).1 = 0 →
    (kv (api.decode ctx batch).2).Perm (kv ctx ++ batch.map fun e => (e.pos, e.token))
  logits : ∀ ctx front last tokens, (api.decode ctx (front ++ [last])).1 = 0 → last.logits = true →
    (kv (api.decode ctx (front ++ [last])).2).Perm (positioned tokens) →
    api.getLogitsIth (api.decode ctx (front ++ [last])).2 (-1) = logits tokens ∧
      api.getLogitsIth (api.decode ctx (front ++ [last])).2 front.length = logits tokens

/-- What can be seen of a `llama_decode` call is determined by the cache and the batch, and a cleared
cache is empty. -/
structure DecodeLocal (api : LlamaCpp M C L) (kv : C → List (Int × Int)) : Prop where
  clear : ∀ ctx, kv (api.kvCacheClear ctx) = []
  code : ∀ ctx ctx' batch, kv ctx = kv ctx' → (api.decode ctx batch).1 = (api.decode ctx' batch).1
  cached : ∀ ctx ctx' batch, kv ctx = kv ctx' →
    kv (api.decode ctx batch).2 = kv (api.decode ctx' batch).2
  logits : ∀ ctx ctx' batch, kv ctx = kv ctx' →
    api.getLogitsIth (api.decode ctx batch).2 = api.getLogitsIth (api.decode ctx' batch).2

/-- The two-call protocol of `llama_tokenize`, `vocab` being the model's tokenization of the first
`text_len` bytes: it writes the tokens and returns their number when they fit, and otherwise writes
nothing and returns the negated number. -/
def TokenizeContract (api : LlamaCpp M C L) (vocab : M → Bytes → Int → Bool → List Int) : Prop :=
  ∀ model text textLen nTokensMax addSpecial,
    api.tokenize model text textLen nTokensMax addSpecial true =
      let tokens := vocab model text textLen addSpecial
      if (tokens.length : Int) ≤ nTokensMax then ((tokens.length : Int), tokens)
      else (-(tokens.length : Int), [])

/-! ## A small model that keeps these promises -/

/-- A token for each byte, after token 1 when special tokens are added. -/
def byteVocab (_ : Unit) (text : Bytes) (textLen : Int) (addSpecial : Bool) : List Int :=
  (if addSpecial then [1] else []) ++ (text.take textLen.toNat).map fun c => (c.toNat : Int)

/-- Logits over four tokens that point at the sum of `tokens`. -/
def sumLogits (tokens : List Int) : List Int :=
  (List.range 4).map fun k => if tokens.sum % 4 = (k : Int) then 1 else 0

/-- A model of four tokens, token 0 ending the generation, whose context is its cache. -/
def sumLlama : LlamaCpp Unit (List (Int × Int)) (List Int) where
  tokenize model text textLen nTokensMax addSpecial _ :=
    let tokens := byteVocab model text textLen addSpecial
    if (tokens.length : Int) ≤ nTokensMax then ((tokens.length : Int), tokens)
    else (-(tokens.length : Int), [])
  tokenToPiece _ token _ _ _ := (1, [UInt8.ofNat token.toNat])
  tokenIsEog _ token := token == 0
  nVocab _ := 4
  kvCacheClear _ := []
  decode ctx batch := (0, ctx ++ batch.map fun e => (e.pos, e.token))
  getLogitsIth ctx _ := sumLogits (ctx.map Prod.snd)

/-- The small model with a `llama_tokenize` that answers a null buffer the way `LlamaBackend::tokenize`
expects it to, with the number of tokens. -/
def countLlama : LlamaCpp Unit (List (Int × Int)) (List Int) :=
  { sumLlama with
    tokenize := fun model text textLen nTokensMax addSpecial _ =>
      let tokens := byteVocab model text textLen addSpecial
      ((tokens.length : Int), tokens.take nTokensMax.toNat) }

theorem positioned_tokens (tokens : List Int) : (positioned tokens).map Prod.snd = tokens := by
  rw [positioned, List.map_map]
  exact List.zipIdx_map_fst 0 tokens

theorem sumLlama_decode : DecodeContract sumLlama id sumLogits := by
  refine ⟨fun _ => rfl, fun ctx batch _ => .refl _, ?_⟩
  intro ctx front last tokens _ _ perm
  have sums := (perm.map Prod.snd).sum_eq
  rw [positioned_tokens] at sums
  have same : ∀ i, sumLlama.getLogitsIth (sumLlama.decode ctx (front ++ [last])).2 i =
      sumLogits tokens := by
    intro i
    show sumLogits _ = _
    rw [sumLogits, sumLogits, ← sums]
    rfl
  exact ⟨same _, same _⟩

theorem sumLlama_local : DecodeLocal sumLlama id where
  clear _ := rfl
  code _ _ _ _ := rfl
  cached := by rintro ctx _ batch rfl; rfl
  logits := by rintro ctx _ batch rfl; rfl

theorem sumLlama_tokenize : TokenizeContract sumLlama byteVocab := fun _ _ _ _ _ => rfl

end ModelRuntime
