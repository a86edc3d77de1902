import ModelRuntime.Backend.Generate

/-!
# Pieces and the buffer

`llama_token_to_piece` gets a buffer of 256 bytes, and what it says of a piece that does not fit, its length
negated, is taken like the 0 of an empty piece: nothing is appended (`detokenize_fitting`). Nothing can make
up for a piece left out, since the text is then too short.
-/

namespace ModelRuntime
open Cpp

variable {M C L : Type}

/-- `pieces` are the texts of a model's tokens: `llama_token_to_piece` writes one into a buffer that holds it
and returns its length; for a smaller buffer it returns the negated length and promises nothing of the
buffer. -/
structure PieceContract (api : LlamaCpp M C L) (pieces : M → Int → Bytes) : Prop where
  fits : ∀ model token size, ((pieces model token).length : Int) ≤ size → ∃ rest,
    api.tokenToPiece model token size 0 true =
      (((pieces model token).length : Int), pieces model token ++ rest)
  refuses : ∀ model token size, size < ((pieces model token).length : Int) →
    (api.tokenToPiece model token size 0 true).1 = -((pieces model token).length : Int)

/-! ## Parts that are left out -/

section Parts

variable {α β : Type} (f : α → List β) (limit : Nat)

/-- The part, if it is not too long. -/
def fitting (x : α) : List β := if (f x).length ≤ limit then f x else []

theorem fitting_short (xs : List α) : (xs.flatMap (fitting f limit)).length ≤ (xs.flatMap f).length := by
  induction xs with
  | nil => simp
  | cons x xs ih =>
    rw [List.flatMap_cons, List.flatMap_cons, List.length_append, List.length_append, fitting]
    split
    · omega
    · rw [List.length_nil]
      omega

/-- Nothing is missing where no part is too long. -/
theorem flatMap_fitting_iff (xs : List α) :
    xs.flatMap (fitting f limit) = xs.flatMap f ↔ ∀ x ∈ xs, (f x).length ≤ limit := by
  induction xs with
  | nil => simp
  | cons x xs ih =>
    rw [List.flatMap_cons, List.flatMap_cons, List.forall_mem_cons, fitting]
    by_cases fits : (f x).length ≤ limit
    · rw [if_pos fits, List.append_cancel_left_eq, ih, and_iff_right fits]
    · rw [if_neg fits, List.nil_append]
      refine ⟨fun same => ?_, fun all => absurd all.1 fits⟩
      have short := fitting_short f limit xs
      rw [same, List.length_append] at short
      omega

end Parts

namespace LlamaBackend

variable {api : LlamaCpp M C L} {pieces : M → Int → Bytes} (contract : PieceContract api pieces)
include contract

/-- The text of a token is its piece up to the size of the buffer. -/
theorem piece_eq (model : M) (token : Int) : piece api model token = fitting (pieces model) 256 token := by
  rw [piece, fitting]
  by_cases fits : (pieces model token).length ≤ 256
  · obtain ⟨rest, written⟩ := contract.fits model token 256 (by omega)
    rw [written, if_pos fits]
    dsimp only
    rw [Int.toNat_natCast, List.take_left]
    split
    · rfl
    · exact (List.length_eq_zero_iff.1 (by omega)).symm
  · have returned := contract.refuses model token 256 (by omega)
    rw [if_neg fits]
    dsimp only
    rw [returned, if_neg (by omega)]

variable {be : LlamaBackend M C} {model : M} (hasModel : be.model = some model)
include hasModel

/-- **`detokenize`** strings together the pieces of at most 256 bytes. -/
theorem detokenize_fitting (tokens : List Int) :
    be.detokenize api tokens = tokens.flatMap (fitting (pieces model) 256) := by
  rw [detokenize, hasModel]
  dsimp only
  rw [funext (piece_eq contract model)]

/-- **Every piece in full** comes from a sequence whose pieces all have at most 256 bytes. -/
theorem detokenize_iff (tokens : List Int) :
    be.detokenize api tokens = tokens.flatMap (pieces model) ↔
      ∀ token ∈ tokens, (pieces model token).length ≤ 256 := by
  rw [detokenize_fitting contract hasModel]
  exact flatMap_fitting_iff ..

end LlamaBackend

/-! ## A vocabulary with long pieces -/

/-- The piece of token `n` is a run of `n` spaces. -/
def spaces (_ : Unit) (token : Int) : Bytes := List.replicate token.toNat 32

/-- The small model with these pieces. -/
def spacesLlama : LlamaCpp Unit (List (Int × Int)) (List Int) :=
  { sumLlama with
    tokenToPiece := fun model token size _ _ =>
      let text := spaces model token
      if (text.length : Int) ≤ size then ((text.length : Int), text) else (-(text.length : Int), []) }

theorem spacesLlama_piece : PieceContract spacesLlama spaces where
  fits model token size fits := by
    refine ⟨[], ?_⟩
    rw [List.append_nil]
    exact if_pos fits
  refuses model token size small := by
    dsimp only [spacesLlama]
    rw [if_neg (by omega)]

namespace LlamaBackend

/-- A backend on it. -/
def spacesBackend : LlamaBackend Unit (List (Int × Int)) where
  config := {}
  model := some ()
  modelLoaded := true

theorem detokenize_iff_spaces :
    spacesBackend.detokenize spacesLlama [3, 0, 256] = [3, 0, 256].flatMap (spaces ()) ↔
      ∀ token ∈ [3, 0, 256], (spaces () token).length ≤ 256 :=
  detokenize_iff spacesLlama_piece rfl [3, 0, 256]

/-- A run of 257 spaces is left out. -/
theorem not_detokenize :
    ¬ ∀ tokens, spacesBackend.detokenize spacesLlama tokens = tokens.flatMap (spaces ()) := by
  intro all
  have missing := all [257]
  rw [detokenize_fitting spacesLlama_piece rfl, flatMap_fitting_iff] at missing
  have short := missing 257 (List.mem_singleton.2 rfl)
  rw [spaces, List.length_replicate] at short
  omega

end LlamaBackend
end ModelRuntime
