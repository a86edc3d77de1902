import Mathlib.Algebra.Field.Rat
import ModelRuntime.Backend.Generate

/-!
# Sampling

The choice `sample_token` makes between the greedy sampler and the stochastic one, and the greedy
sampler, over logits of any type with a comparison.
-/

namespace ModelRuntime
open Cpp

/-- `a < b` on floats, false where one is NaN. -/
def CFloat.lt : CFloat → CFloat → Bool
  | .finite a, .finite b => a < b
  | .negInf, .finite _ | .negInf, .posInf | .finite _, .posInf => true
  | _, _ => false

/-- `a <= b` on floats. -/
def CFloat.le (a b : CFloat) : Bool := a.lt b || (a == b && a != .nan)

/-- The literal `1e-6f`, which is a little less than a millionth. -/
def coldBelow {K : Type} [Field K] : K := 8796093 / 2 ^ 43

variable {α : Type} [LT α] [DecidableLT α]

/-- The rest of `std::max_element`, the largest so far being `top` at index `best`. -/
def maxElementFrom (best : Nat) (top : α) : (i : Nat) → List α → Nat
  | _, [] => best
  | i, x :: xs => if top < x then maxElementFrom i x (i + 1) xs else maxElementFrom best top (i + 1) xs

/-- The index of the first element none is larger than. -/
def maxElement : List α → Nat
  | [] => 0
  | x :: xs => maxElementFrom 0 x 1 xs

namespace LlamaBackend

variable {M C : Type} (api : LlamaCpp M C (List α)) (be : LlamaBackend M C)

def sampleGreedy (logits : List α) : Int := toInt (maxElement (logits.take (be.vocabSize api).toNat))

/-- `stochastic` is the path that filters the logits and draws from the generator. -/
def sampleToken (stochastic : Sampler (List α)) : Sampler (List α) :=
  fun logits temperature topP topK draw =>
    if temperature.le (.finite 0) || temperature.lt (.finite coldBelow) then be.sampleGreedy api logits
    else stochastic logits temperature topP topK draw

theorem sampleToken_zero (stochastic : Sampler (List α)) (logits : List α) (topP : CFloat) (topK : Int)
    (draw : Nat) :
    be.sampleToken api stochastic logits (.finite 0) topP topK draw = be.sampleGreedy api logits := by
  have zero : CFloat.le (.finite 0) (.finite 0) = true := by decide
  rw [sampleToken, zero, Bool.true_or, if_pos rfl]

end LlamaBackend
end ModelRuntime
