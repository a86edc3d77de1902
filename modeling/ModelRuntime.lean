import ModelRuntime.Tokenizer.RoundTrip
import ModelRuntime.Gpu.MemoryPool
import ModelRuntime.Backend.Generate
import ModelRuntime.Lib.Unroll
import ModelRuntime.Backend.Autoregressive
import ModelRuntime.Backend.Sampling
import ModelRuntime.Lib.Interleave
import ModelRuntime.Backend.Interleaving
import ModelRuntime.Engine.Inference
import ModelRuntime.Lib.Json
import ModelRuntime.Server.ParseJson
import ModelRuntime.Lib.JsonString
import ModelRuntime.Lib.JsonLiteral
import ModelRuntime.Server.FlatObject
import ModelRuntime.Server.Http
import ModelRuntime.Server.Request
import ModelRuntime.Server.RequestFields
import ModelRuntime.Server.Progress
import ModelRuntime.Lib.JsonText
import ModelRuntime.Server.Completion
import ModelRuntime.Server.Segments
import ModelRuntime.Server.Chat
import ModelRuntime.Server.Escapes
import ModelRuntime.Server.Insertion
import ModelRuntime.Lib.Utf8
import ModelRuntime.Lib.JsonRead
import ModelRuntime.Lib.JsonPath
import ModelRuntime.Server.Response
import ModelRuntime.Engine.Stream
import ModelRuntime.Lib.JsonShape
import ModelRuntime.Lib.Regex
import ModelRuntime.Tools.ToolCaller
import ModelRuntime.Engine.Tools
import ModelRuntime.Tools.JsonParser
import ModelRuntime.Lib.Brackets
import ModelRuntime.Tools.Braces
import ModelRuntime.Nats.Publish
import ModelRuntime.Lib.PairedMaps
import ModelRuntime.Tokenizer.Load
import ModelRuntime.Tokenizer.VocabFile
import ModelRuntime.Lib.PairMerging
import ModelRuntime.Tokenizer.StandardBpe
import ModelRuntime.Backend.Seed
import ModelRuntime.Lib.Prog
import ModelRuntime.Engine.Calls
import ModelRuntime.Engine.Shutdown
import ModelRuntime.Engine.Cancel
import ModelRuntime.Server.OnEngine
import ModelRuntime.Server.Client
import ModelRuntime.Engine.Statistics
import ModelRuntime.Lib.Heap
import ModelRuntime.Backend.Lifecycle
import ModelRuntime.Gpu.Manager
import ModelRuntime.Engine.Lifecycle
import ModelRuntime.Engine.Vocabulary
import ModelRuntime.Engine.Generating
import ModelRuntime.Tokenizer.NormalForm
import ModelRuntime.Tokenizer.BestMerge
import ModelRuntime.Tokenizer.Stability
import ModelRuntime.Tokenizer.Coarsening
import ModelRuntime.Tokenizer.Fallback
import ModelRuntime.Tokenizer.Splitting
import ModelRuntime.Tokenizer.VocabLine
import ModelRuntime.Tokenizer.FirstLine
import ModelRuntime.Tokenizer.Reload
import ModelRuntime.Tokenizer.VocabSize
import ModelRuntime.Gpu.Selection
import ModelRuntime.Main.Configure
import ModelRuntime.Nats.Connect
import ModelRuntime.Engine.Task
import ModelRuntime.Engine.Worker
import ModelRuntime.Backend.Nucleus
import ModelRuntime.Backend.TopK
import ModelRuntime.Backend.TopOne
import ModelRuntime.Backend.Detokenize
import ModelRuntime.Backend.SingleToken
import ModelRuntime.Lib.Message
import ModelRuntime.Server.Wire
import ModelRuntime.Lib.Handles
import ModelRuntime.Server.Connections
import ModelRuntime.Server.Descriptors
import ModelRuntime.Server.Serving
import ModelRuntime.Server.EndToEnd
import ModelRuntime.Backend.AmongBest
import ModelRuntime.Backend.Submitting
import ModelRuntime.Engine.Devices
import ModelRuntime.Lib.JsonAppend
import ModelRuntime.Nats.ToolMessages
import ModelRuntime.Lib.Registry
import ModelRuntime.Engine.BuiltinTools
import ModelRuntime.Server.Health
import ModelRuntime.Server.Stub
import ModelRuntime.Lib.Drawing
import ModelRuntime.Backend.Drawable
import ModelRuntime.Backend.Law
import ModelRuntime.Main.Shutdown
