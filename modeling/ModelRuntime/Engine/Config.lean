import Mathlib.Algebra.Order.Field.Rat
import ModelRuntime.Cpp.Number

/-!
# Configuration

`EngineConfig` and `GenerationConfig` with the defaults of `engine_config.hpp`. A `float` is the
number it denotes, an infinity or NaN; the program compares and passes on these, and `0.7f` stands
for the literal it is written as.
-/

namespace ModelRuntime
open Cpp

inductive CFloat where
  | finite (q : ℚ)
  | posInf
  | negInf
  | nan
  deriving DecidableEq

/-- `GenerationConfig`, the fields that are read. -/
structure GenerationConfig where
  maxTokens : Int := 1024
  temperature : CFloat := .finite 0.7
  topP : CFloat := .finite 0.9
  topK : Int := 50

/-- `EngineConfig`, the fields that are read. -/
structure EngineConfig where
  modelPath : Bytes := []
  mode : Bytes := str "cpu"
  nCtx : Int := 4096
  nBatch : Int := 512
  nThreads : Int := 4
  nGpuLayers : Int := 99
  gpuDevice : Int := -1
  temperature : CFloat := .finite 0.7
  topP : CFloat := .finite 0.9
  topK : Int := 50
  seed : Int := -1
  natsUrl : Bytes := str "nats://localhost:4222"
  restPort : Int := 8080
  maxToolCalls : Int := 5

end ModelRuntime
