import ModelRuntime.Engine.Lifecycle
import ModelRuntime.Lib.Rounds
import ModelRuntime.Server.Serving

/-!
# The process

`main` from the constructor of the engine to the end of its destructors, among its threads and with a signal at
any time. The engine's `start` is taken as one step, before which there are no other threads; its `stop` goes
through the stages of `StopStage` and the server's calls through those of `MainStage`. The handler of a client
thread reads `ready_` in one step and answers in a later one, between which `main` may have stopped the engine.
-/

namespace ModelRuntime
open Cpp Lib

/-- What `main` finds: what the engine starts with, what `socket` returns, whether `bind` and `listen`
succeed, and whether the threads of the engine and of the accept loop can be started. -/
structure World where
  engine : StartOutcome := {}
  worker : Bool := true
  socket : Int := 3
  binds : Bool := true
  listens : Bool := true
  accepts : Bool := true

/-- How the call goes that `RestApiServer::start` makes at the stage. -/
def World.goes (world : World) : MainStage → Bool
  | .binding => world.binds
  | .listening => world.listens
  | .spawning => world.accepts
  | _ => true

/-- The server gets its listening socket. -/
structure World.Listens (world : World) : Prop where
  socket : 0 ≤ world.socket
  binds : world.binds = true
  listens : world.listens = true

/-- Where `InferenceEngine::stop` stands. -/
inductive StopStage where
  /-- Before `running_` and `ready_` are cleared. -/
  | clearing
  /-- `worker_.join()` -/
  | joining
  /-- Before the model and the GPU are given back. -/
  | unloading
  deriving DecidableEq

/-- Where `main` stands: before or in the call that gives the point its name. -/
inductive MainPoint where
  | engineStart
  | serverStart
  /-- `while (running)` -/
  | loop
  | serverStop
  | engineStop (stage : StopStage)
  /-- `main` has returned `code`, and `~RestApiServer` is next. -/
  | serverEnd (code : Int)
  /-- In the `stop` that `~InferenceEngine` calls. -/
  | engineEnd (code : Int) (stage : StopStage)
  /-- `~LlamaBackend` is next. -/
  | backendEnd (code : Int)
  | ended (code : Int)
  /-- `std::terminate` has been called. -/
  | terminated
  deriving DecidableEq

namespace EngineProcess

variable (s : EngineProcess)

/-- `running_ = false; ready_ = false` -/
def cleared : EngineProcess := { s with running := false, ready := false }

def joined : EngineProcess := { s with joinable := false }

/-- `stop`, behind the join. -/
def released (withCuda : Bool) : EngineProcess :=
  { s with
    llama := s.llama.unload
    gpu := if s.CudaMode then s.gpu.shutdown withCuda else s.gpu }

/-- The stages of a `stop` make it up. -/
theorem stop_stages (withCuda : Bool) :
    s.stop withCuda = if s.running then s.cleared.joined.released withCuda else s := by
  rw [stop]
  cases s.running <;> rfl

end EngineProcess

structure MainProcess where
  engine : EngineProcess
  server : RestApiServer := {}
  point : MainPoint := .engineStart
  /-- The global `running`. -/
  running : Bool := true
  /-- `worker_loop` has returned. -/
  workerEnded : Bool := false
  /-- What the handler of a client thread has read of `ready_`, once it has. -/
  asked : Nat → Option Bool := fun _ => none

namespace MainProcess

inductive Event where
  | main
  | signal
  /-- `worker_loop` returns. -/
  | worker
  | server (fd : Int) (starts : Bool := true)
  /-- The handler of the client thread reads `ready_`. -/
  | asks (i : Nat)
  | client (i : Nat) (arrived : Bytes) (env : ServerEnv) (taken : Nat)

variable (withCuda : Bool) (world : World) (config : EngineConfig) (p : MainProcess)

/-- The constructors. -/
def init : MainProcess where
  engine := .init config

/-- The process has ended, and its threads with it. -/
def isOver : Bool :=
  p.server.terminated ||
    match p.point with
    | .ended _ | .terminated => true
    | _ => false

/-- A step in `start` or `stop` of the server, behind which `main` is at `next`. -/
def inServer (call : RestApiServer.Call) (next : RestApiServer → MainPoint) : MainProcess :=
  let server := p.server.step (.main call world.socket (world.goes p.server.main))
  { p with server, point := if server.main = .idle then next server else p.point }

/-- A step in `stop` of the engine, whose stages `main` has at `inside`, and behind which it is at `next`. -/
def inEngineStop (stage : StopStage) (inside : StopStage → MainPoint) (next : MainPoint) : MainProcess :=
  match stage with
  | .clearing =>
    if !p.engine.running then { p with point := next }
    else { p with engine := p.engine.cleared, point := inside .joining }
  | .joining =>
    if p.engine.joinable && !p.workerEnded then p
    else { p with engine := p.engine.joined, point := inside .unloading }
  | .unloading => { p with engine := p.engine.released withCuda, point := next }

def mainStep : MainProcess :=
  match p.point with
  | .engineStart =>
    match p.engine.start withCuda world.engine with
    | (.returned true, engine) =>
      -- the thread is the last thing that `start` takes, and nobody catches what its constructor throws
      { p with engine, point := if world.worker then .serverStart else .terminated }
    | (.returned false, engine) => { p with engine, point := .engineEnd 1 .clearing }
    | (_, engine) => { p with engine, point := .terminated }
  | .serverStart => p.inServer world .start fun server => if server.running then .loop else .serverEnd 1
  | .loop => if p.running then p else { p with point := .serverStop }
  | .serverStop => p.inServer world .stop fun _ => .engineStop .clearing
  | .engineStop stage => p.inEngineStop withCuda stage .engineStop (.serverEnd 0)
  | .serverEnd code => p.inServer world .stop fun _ => .engineEnd code .clearing
  | .engineEnd code stage => p.inEngineStop withCuda stage (.engineEnd code) (.backendEnd code)
  | .backendEnd code => { p with engine := { p.engine with llama := p.engine.llama.unload }, point := .ended code }
  | .ended _ | .terminated => p

/-- The handler of the client thread is at work. -/
def handles (i : Nat) : Bool :=
  match p.server.clients[i]? with
  | some { stage := .routing _, .. } => true
  | _ => false

/-- What the handler reads of `ready_`, or has read. -/
def reads (i : Nat) : Bool := (p.asked i).getD p.engine.ready

/-- The engine as a handler finds it that has read `ready`; the rest of it is `env`. -/
def engineEnv (ready : Bool) (env : ServerEnv) : ServerEnv :=
  { env with
    isReady := ready
    generate := fun prompt genConfig =>
      if !ready then .error (.runtimeError (str "Engine not ready")) else env.generate prompt genConfig }

def step (event : Event) : MainProcess :=
  if p.isOver then p
  else
    match event with
    | .main => p.mainStep withCuda world
    | .signal => { p with running := false }
    | .worker => if p.engine.running then p else { p with workerEnded := true }
    | .server fd starts => { p with server := p.server.step (.server fd starts) }
    | .asks i => if p.handles i then { p with asked := Function.update p.asked i (some (p.reads i)) } else p
    | .client i arrived env taken =>
      { p with server := p.server.step (.client i arrived (engineEnv (p.reads i) env) taken) }

/-- A descriptor that `accept` gives out is not open. -/
def GivesClosed : Event → Prop
  | .server fd starts => p.server.GivesClosed (.server fd starts)
  | _ => True

instance GivesClosed.decidable (p : MainProcess) : ∀ event, Decidable (p.GivesClosed event)
  | .server fd starts => inferInstanceAs (Decidable (p.server.GivesClosed (.server fd starts)))
  | .main | .signal | .worker | .asks _ | .client .. => .isTrue trivial

end MainProcess

/-! ## How a start ends -/

namespace EngineProcess

variable {withCuda : Bool} {s s' : EngineProcess} {outcome : StartOutcome}

/-- The engine gets what it starts with. -/
structure Starts (withCuda : Bool) (s : EngineProcess) (outcome : StartOutcome) : Prop where
  device : s.FindsDevice withCuda outcome
  model : s.config.modelPath ≠ [] → outcome.load = ⟨true, true⟩

/-- What a `start` on a stopped engine leaves, by how it ends. -/
inductive StartEnds (withCuda : Bool) (s : EngineProcess) (outcome : StartOutcome) :
    Started × EngineProcess → Prop where
  | started {s' : EngineProcess} (starts : s.Starts withCuda outcome) (steady : s'.Steady withCuda)
      (running : s'.running = true) (mode : s'.config.mode = s.config.mode)
      (gpu : ¬ s.CudaMode → s'.gpu = s.gpu) : StartEnds withCuda s outcome (.returned true, s')
  | failed {s' : EngineProcess} (fails : ¬ s.Starts withCuda outcome) (llama : s'.llama.Settled)
      (unloaded : s'.llama.backend.modelLoaded = false) (running : s'.running = false)
      (ready : s'.ready = false) (joinable : s'.joinable = false)
      (gpu : s'.gpu.initialized = true ↔ withCuda = true ∧ s.CudaMode ∧ s.FindsDevice withCuda outcome) :
    StartEnds withCuda s outcome (.returned false, s')
  | threw {s' : EngineProcess} {x : StdException} (starts : s.Starts withCuda outcome)
      (path : s.config.modelPath ≠ []) (throws : (s.tokenizer.load outcome.vocab).1 = .error x) :
    StartEnds withCuda s outcome (.threw x, s')

/-- The GPU behind the choice of a device, where none was initialised before. -/
theorem acquireGpu_initialized (idle : s.gpu.initialized = false) {ok : Bool}
    (acquired : s.acquireGpu withCuda outcome.devices = (ok, s')) :
    (s'.gpu.initialized = true ↔ withCuda = true ∧ s.CudaMode ∧ s.FindsDevice withCuda outcome) ∧
      (¬ s.CudaMode → s'.gpu = s.gpu) := by
  have acquisition := @acquireGpu_stopped withCuda s (fun _ => idle) outcome
  rw [acquired] at acquisition
  by_cases cuda : s.CudaMode
  · refine ⟨?_, fun cpu => absurd cuda cpu⟩
    rw [acquisition.initialized cuda, Bool.and_eq_true, ← acquisition.finds]
    exact ⟨fun ⟨build, ok⟩ => ⟨build, cuda, ok⟩, fun ⟨build, _, ok⟩ => ⟨build, ok⟩⟩
  · have same : s' = s := by
      rw [acquireGpu, if_neg cuda] at acquired
      exact (Prod.ext_iff.1 acquired).2.symm
    rw [same]
    refine ⟨?_, fun _ => rfl⟩
    rw [idle]
    exact iff_of_false Bool.false_ne_true fun found => cuda found.2.1

/-- A start that gets as far as the thread. -/
theorem StartEnds.launch (starts : s.Starts withCuda outcome) (free : s'.joinable = false)
    (steady : s'.launch.2.Steady withCuda) (mode : s'.config.mode = s.config.mode)
    (gpu : ¬ s.CudaMode → s'.gpu = s.gpu) : StartEnds withCuda s outcome s'.launch := by
  rw [launch_free free] at steady ⊢
  exact .started starts steady rfl mode gpu

theorem Steady.start_ends (steady : s.Steady withCuda) (stopped : s.running = false)
    (idle : s.gpu.initialized = false) (outcome : StartOutcome) :
    StartEnds withCuda s outcome (s.start withCuda outcome) := by
  have free : s.joinable = false := steady.joinable.trans stopped
  have notReady : s.ready = false := steady.ready.trans stopped
  have notLoaded := steady.unloaded stopped
  have sound := fun loads vocab => @Steady.start withCuda s outcome steady ⟨stopped, loads, vocab⟩
  cases acquired : s.acquireGpu withCuda outcome.devices with
  | mk ok s' =>
    obtain ⟨initialized, cpu⟩ := acquireGpu_initialized idle acquired
    have acquisition := @acquireGpu_stopped withCuda s (fun _ => idle) outcome
    rw [acquired] at acquisition
    obtain ⟨finds, _, _, gpu, gpuDevice, rfl⟩ := acquisition
    cases ok with
    | false =>
      rw [start_refused acquired]
      refine .failed (fun starts => ?_) steady.llama notLoaded stopped notReady free initialized
      cases finds.2 starts.device
    | true =>
      have finds := finds.1 rfl
      rcases start_cases acquired with ⟨stub, ends⟩ | ⟨path, fails, ends⟩ | ⟨path, loads, ⟨x, throws, ends⟩ | ends⟩
      · have kept := (sound (fun _ _ _ path => absurd stub path) fun _ path => absurd stub path).2
        rw [ends] at kept ⊢
        exact .launch ⟨finds, fun path => absurd stub path⟩ free kept rfl cpu
      · rw [ends]
        obtain ⟨settled, same⟩ := @LlamaProcess.Settled.load s.llama s.config.modelPath outcome.load steady.llama
          fun _ => notLoaded
        refine .failed (fun starts => fails (starts.model path)) settled ?_ stopped notReady free initialized
        show (s.llama.loadModel s.config.modelPath outcome.load).2.backend.modelLoaded = false
        rw [same (LlamaProcess.loadModel_fails fails)]
        exact notLoaded
      · rw [ends]
        exact .threw ⟨finds, fun _ => loads⟩ path throws
      · have reads : ∀ x, (s.tokenizer.load outcome.vocab).1 ≠ .error x := by
          intro x throws
          rw [start_threw acquired path loads throws] at ends
          have thrown := congrArg Prod.fst ends
          rw [launch_free (by exact free)] at thrown
          cases thrown
        have kept := (sound (fun _ _ _ _ => loads) fun _ _ _ => reads).2
        rw [ends] at kept ⊢
        exact .launch ⟨finds, fun _ => loads⟩ free kept rfl cpu

end EngineProcess

namespace MainProcess

variable (withCuda : Bool) (world : World) (config : EngineConfig)

/-! ## The points of `main` -/

/-- The engine has been started and not been stopped since. -/
structure Up (engine : EngineProcess) : Prop where
  starts : (EngineProcess.init config).Starts withCuda world.engine
  steady : engine.Steady withCuda
  running : engine.running = true
  mode : engine.config.mode = config.mode
  gpu : config.mode ≠ str "cuda" → engine.gpu = {}

/-- The engine has nothing left, except for the GPU where the model for it could not be loaded. -/
structure Down (engine : EngineProcess) : Prop where
  running : engine.running = false
  ready : engine.ready = false
  joinable : engine.joinable = false
  llama : engine.llama.Settled
  unloaded : engine.llama.backend.modelLoaded = false
  gpu : engine.gpu.initialized = true ↔ withCuda = true ∧ config.mode = str "cuda" ∧
    (EngineProcess.init config).FindsDevice withCuda world.engine ∧
    ¬ (EngineProcess.init config).Starts withCuda world.engine

/-- The server has no threads. -/
structure Quiet (server : RestApiServer) : Prop where
  clients : server.clients = []
  thread : server.serverThread = none

/-- `main` is not in `start` or `stop` of the server, which is stopped. -/
structure Closed (server : RestApiServer) : Prop where
  idle : server.main = .idle
  stopped : server.running = false

/-- What the calls of `RestApiServer::start` have brought at its stages. -/
def Opening (server : RestApiServer) : Prop :=
  match server.main with
  | .idle => server.running = false
  | .binding => 0 ≤ world.socket
  | .listening => 0 ≤ world.socket ∧ world.binds = true
  | .setting | .spawning => world.Listens
  | _ => False

/-- The stages of `RestApiServer::stop` on a server that runs. -/
def Closing (server : RestApiServer) : Prop :=
  match server.main with
  | .idle => server.running = true
  | .clearing | .shutting | .joining => True
  | _ => False

/-- What stands behind the code that `main` returns. -/
inductive Returned (p : MainProcess) : Int → Prop where
  | stopped (starts : (EngineProcess.init config).Starts withCuda world.engine) (listens : world.Listens)
      (signalled : p.running = false) : Returned p 0
  | engineFails (fails : ¬ (EngineProcess.init config).Starts withCuda world.engine) (quiet : Quiet p.server) :
    Returned p 1
  | serverFails (fails : ¬ world.Listens) (quiet : Quiet p.server) : Returned p 1

/-- The engine at a stage of its `stop`. -/
def Stopping (engine : EngineProcess) : StopStage → Prop
  | .clearing => Up withCuda world config engine
  | .joining => ∃ up, Up withCuda world config up ∧ engine = up.cleared
  | .unloading => ∃ up, Up withCuda world config up ∧ engine = up.cleared.joined

/-- The engine, unless `main` has returned without having stopped it, when there are no client threads. -/
def Left (p : MainProcess) (stage : StopStage) : Prop :=
  Quiet p.server ∧ Stopping withCuda world config p.engine stage ∨
    stage = .clearing ∧ Down withCuda world config p.engine

def AtPoint (p : MainProcess) : Prop :=
  match p.point with
  | .engineStart => p.engine = .init config ∧ Quiet p.server ∧ Closed p.server
  | .serverStart => Up withCuda world config p.engine ∧ Quiet p.server ∧ Opening world p.server
  | .loop => Up withCuda world config p.engine ∧ world.Listens ∧ p.server.main = .idle ∧ p.server.running = true
  | .serverStop => Up withCuda world config p.engine ∧ world.Listens ∧ p.running = false ∧ Closing p.server
  | .engineStop stage =>
    Stopping withCuda world config p.engine stage ∧ world.Listens ∧ p.running = false ∧ Closed p.server
  | .serverEnd code => Closed p.server ∧ Returned withCuda world config p code ∧ Left withCuda world config p .clearing
  | .engineEnd code stage =>
    Closed p.server ∧ Returned withCuda world config p code ∧ Left withCuda world config p stage
  | .backendEnd code | .ended code =>
    Closed p.server ∧ Returned withCuda world config p code ∧ Down withCuda world config p.engine
  | .terminated => (EngineProcess.init config).Starts withCuda world.engine ∧
      (world.worker = false ∨
        config.modelPath ≠ [] ∧ ∃ x, (({} : Tokenizer).load world.engine.vocab).1 = .error x)

/-- The invariant of the process. -/
structure Sound (p : MainProcess) : Prop where
  server : p.server.Sound
  point : AtPoint withCuda world config p

variable {withCuda world config} {p p' : MainProcess}

theorem Up.stop {engine : EngineProcess} (up : Up withCuda world config engine) :
    Down withCuda world config (engine.stop withCuda) := by
  have steady := up.steady.stop
  have running : (engine.stop withCuda).running = false := by
    rw [EngineProcess.stop, up.running]
    rfl
  refine ⟨running, steady.ready.trans running, steady.joinable.trans running, steady.llama, steady.unloaded running, ?_⟩
  refine iff_of_false (fun initialized => ?_) fun left => left.2.2.2 up.starts
  have gpu : (engine.stop withCuda).gpu = if engine.CudaMode then engine.gpu.shutdown withCuda else engine.gpu := by
    rw [EngineProcess.stop, up.running]
    rfl
  by_cases cuda : engine.CudaMode
  · have idle := steady.idle running (by rw [EngineProcess.stop, up.running]; exact cuda)
    rw [idle] at initialized
    cases initialized
  · have cpu : config.mode ≠ str "cuda" := fun mode => cuda (up.mode.trans mode)
    rw [gpu, if_neg cuda, up.gpu cpu] at initialized
    cases initialized

/-- What the stages of a `stop` leave. -/
theorem Up.released {engine : EngineProcess} (up : Up withCuda world config engine) :
    Down withCuda world config (engine.cleared.joined.released withCuda) := by
  have stages := engine.stop_stages withCuda
  rw [up.running, if_pos rfl] at stages
  rw [← stages]
  exact up.stop

theorem Down.unload {engine : EngineProcess} (down : Down withCuda world config engine) :
    { engine with llama := engine.llama.unload } = engine := by
  have same : engine.llama.unload = engine.llama := by
    rw [LlamaProcess.unload, down.unloaded]
    rfl
  rw [same]

theorem Closed.started {server : RestApiServer} (closed : Closed server) : server.listens = false := by
  rw [RestApiServer.listens, closed.idle, closed.stopped]

theorem Sound.init : Sound withCuda world config (init config) :=
  ⟨RestApiServer.sound_initial, rfl, ⟨rfl, rfl⟩, rfl, rfl⟩

/-! ## Steps of the other threads -/

/-- What the server's own threads leave alone. -/
structure Aside (server server' : RestApiServer) : Prop where
  main : server'.main = server.main
  running : server'.running = server.running
  quiet : Quiet server → Quiet server'

theorem AtPoint.congr (h : AtPoint withCuda world config p) (point : p'.point = p.point)
    (engine : p'.engine = p.engine) (running : p.running = false → p'.running = false)
    (aside : Aside p.server p'.server) : AtPoint withCuda world config p' := by
  have closed : Closed p.server → Closed p'.server := fun closed =>
    ⟨aside.main.trans closed.idle, aside.running.trans closed.stopped⟩
  have returned : ∀ code, Returned withCuda world config p code → Returned withCuda world config p' code := by
    intro code returned
    cases returned with
    | stopped starts listens signalled => exact .stopped starts listens (running signalled)
    | engineFails fails quiet => exact .engineFails fails (aside.quiet quiet)
    | serverFails fails quiet => exact .serverFails fails (aside.quiet quiet)
  have left : ∀ stage, Left withCuda world config p stage → Left withCuda world config p' stage := by
    intro stage left
    rw [Left, engine]
    exact left.imp_left (And.imp_left aside.quiet)
  have main := aside.main
  have runs := aside.running
  rw [AtPoint.eq_def] at h ⊢
  rw [point, engine]
  generalize p.point = stage at h ⊢
  cases stage with
  | engineStart => exact ⟨h.1, aside.quiet h.2.1, closed h.2.2⟩
  | serverStart =>
    refine ⟨h.1, aside.quiet h.2.1, ?_⟩
    rw [Opening, main, runs]
    exact h.2.2
  | loop => exact ⟨h.1, h.2.1, main.trans h.2.2.1, runs.trans h.2.2.2⟩
  | serverStop =>
    refine ⟨h.1, h.2.1, running h.2.2.1, ?_⟩
    rw [Closing, main, runs]
    exact h.2.2.2
  | engineStop => exact ⟨h.1, h.2.1, running h.2.2.1, closed h.2.2.2⟩
  | serverEnd code => exact ⟨closed h.1, returned code h.2.1, left _ h.2.2⟩
  | engineEnd code => exact ⟨closed h.1, returned code h.2.1, left _ h.2.2⟩
  | backendEnd code => exact ⟨closed h.1, returned code h.2.1, h.2.2⟩
  | ended code => exact ⟨closed h.1, returned code h.2.1, h.2.2⟩
  | terminated => exact h

theorem acceptStep_frame (server : RestApiServer) (fd : Int) (starts : Bool) :
    (server.acceptStep fd starts).main = server.main ∧ (server.acceptStep fd starts).running = server.running := by
  rw [RestApiServer.acceptStep.eq_def]
  split
  · exact ⟨rfl, rfl⟩
  · split
    · exact ⟨rfl, rfl⟩
    · exact ⟨rfl, rfl⟩
  · rw [RestApiServer.acceptReturns]
    split
    · exact ⟨rfl, rfl⟩
    · exact ⟨rfl, rfl⟩
  · split
    · exact ⟨rfl, rfl⟩
    · exact ⟨rfl, rfl⟩
  · exact ⟨rfl, rfl⟩

theorem Aside.accept {server : RestApiServer} (alive : server.terminated = false) (fd : Int) (starts : Bool) :
    Aside server (server.step (.server fd starts)) := by
  rw [RestApiServer.step.eq_def, alive, if_neg Bool.false_ne_true]
  dsimp only
  obtain ⟨main, running⟩ := acceptStep_frame server fd starts
  refine ⟨main, running, fun quiet => ?_⟩
  rw [RestApiServer.acceptStep.eq_def, quiet.thread]
  exact quiet

theorem Aside.client {server : RestApiServer} (alive : server.terminated = false) (i : Nat) (arrived : Bytes)
    (env : ServerEnv) (taken : Nat) : Aside server (server.step (.client i arrived env taken)) := by
  rw [RestApiServer.step.eq_def, alive, if_neg Bool.false_ne_true]
  dsimp only
  cases here : server.clients[i]? with
  | none => exact ⟨rfl, rfl, id⟩
  | some thread =>
    obtain ⟨running, main, _⟩ := RestApiServer.clientStep_frame server i thread arrived env taken
    refine ⟨main, running, fun quiet => ?_⟩
    rw [quiet.clients] at here
    cases here

theorem isOver_alive (alive : p.isOver = false) : p.server.terminated = false :=
  (Bool.or_eq_false_iff.1 alive).1

/-! ## Steps of `main` -/

theorem Closed.files {server : RestApiServer} (sound : server.Sound) (closed : Closed server)
    (quiet : Quiet server) (fd : Int) : server.files fd = none := by
  apply sound.files_none closed.started
  intro thread mem
  rw [RestApiServer.threads, quiet.clients, quiet.thread] at mem
  cases mem

/-- The steps that `RestApiServer::start` still has. -/
def startRank : MainStage → Nat
  | .idle => 5
  | .binding => 4
  | .listening => 3
  | .setting => 2
  | .spawning => 1
  | _ => 0

/-- What a step of `RestApiServer::start` leads to, from the stage `before`. -/
inductive Opens (world : World) (before : MainStage) (server : RestApiServer) : Prop where
  | goesOn (inside : server.main ≠ .idle) (fewer : startRank server.main < startRank before)
      (quiet : Quiet server) (opening : Opening world server)
  | succeeds (last : before = .spawning) (idle : server.main = .idle) (runs : server.running = true)
      (listens : world.Listens)
  | fails (closed : Closed server) (quiet : Quiet server) (fails : ¬ world.Listens)
  | dies (last : before = .spawning) (inside : server.main ≠ .idle) (quiet : Quiet server)
      (opening : Opening world server) (terminated : server.terminated = true) (refused : world.accepts = false)

/-- The socket is closed again when `bind` or `listen` fails. -/
theorem Opens.fails_closing {server : RestApiServer} (quiet : Quiet server) (stopped : server.running = false)
    (fails : ¬ world.Listens) (before : MainStage) :
    Opens world before { server.close server.serverFd with main := .idle } := by
  rw [RestApiServer.close, RestApiServer.onConnection_eq]
  exact .fails ⟨rfl, stopped⟩ ⟨quiet.clients, quiet.thread⟩ fails

theorem Opening.mainStep {server : RestApiServer} (sound : server.Sound) (quiet : Quiet server)
    (opening : Opening world server) :
    Opens world server.main (server.mainStep .start world.socket (world.goes server.main)) := by
  have agrees := sound.main
  rw [RestApiServer.MainAgrees] at agrees
  rw [Opening] at opening
  rw [RestApiServer.mainStep.eq_def]
  cases stage : server.main with
  | idle =>
    rw [stage] at opening
    dsimp only
    rw [RestApiServer.start]
    split
    · exact .fails ⟨stage, opening⟩ ⟨quiet.clients, quiet.thread⟩ fun listens => by
        have socket := listens.socket
        omega
    · exact .goesOn (by simp) (show 4 < 5 by decide) ⟨quiet.clients, quiet.thread⟩ (show 0 ≤ world.socket by omega)
  | binding =>
    rw [stage] at opening agrees
    dsimp only
    split
    · rename_i fails
      exact .fails_closing quiet agrees.1 (fun all => by simp [World.goes, all.binds] at fails) _
    · rename_i binds
      exact .goesOn (by simp) (show 3 < 4 by decide) ⟨quiet.clients, quiet.thread⟩
        ⟨opening, by simpa [World.goes] using binds⟩
  | listening =>
    rw [stage] at opening agrees
    dsimp only
    split
    · rename_i fails
      exact .fails_closing quiet agrees.1 (fun all => by simp [World.goes, all.listens] at fails) _
    · rename_i listens
      exact .goesOn (by simp) (show 2 < 3 by decide) ⟨quiet.clients, quiet.thread⟩
        ⟨opening.1, opening.2, by simpa [World.goes] using listens⟩
  | setting =>
    rw [stage] at opening
    exact .goesOn (by simp) (show 1 < 2 by decide) ⟨quiet.clients, quiet.thread⟩ opening
  | spawning =>
    rw [stage] at opening agrees
    dsimp only
    split
    · rename_i refused
      exact .dies rfl (by simp) ⟨quiet.clients, quiet.thread⟩ opening rfl
        (by simpa [World.goes, quiet.thread] using refused)
    · exact .succeeds rfl rfl agrees.1 opening
  | clearing | shutting | joining =>
    rw [stage] at opening
    cases opening

/-- `RestApiServer::start`, called on a server that has no threads. -/
theorem Opening.step {server : RestApiServer} (sound : server.Sound) (alive : server.terminated = false)
    (quiet : Quiet server) (opening : Opening world server) :
    let server' := server.step (.main .start world.socket (world.goes server.main))
    server'.Sound ∧ Opens world server.main server' := by
  have stopped : server.main = .idle → server.running = false := by
    intro idle
    rw [Opening, idle] at opening
    exact opening
  have proper : server.Proper (.main .start world.socket (world.goes server.main)) :=
    ⟨fun idle _ _ => Closed.files sound ⟨idle, stopped idle⟩ quiet _, fun _ idle _ => stopped idle⟩
  refine ⟨sound.step proper, ?_⟩
  rw [RestApiServer.step.eq_def, alive, if_neg Bool.false_ne_true]
  exact opening.mainStep sound quiet

/-- The steps that the accept loop takes at most once `running_` is false. -/
def acceptRank : Option AcceptStage → Nat
  | some .calling => 4
  | some (.waiting _) => 3
  | some (.returned _) => 2
  | some .testing => 1
  | _ => 0

/-- The steps that `RestApiServer::stop` and the accept loop still have. -/
def closingRank (server : RestApiServer) : Nat :=
  (match server.main with
    | .idle => 4
    | .clearing => 3
    | .shutting => 2
    | .joining => 1
    | _ => 0) +
  if server.running then 5 else acceptRank server.serverThread

theorem acceptRank_le (thread : Option AcceptStage) : acceptRank thread ≤ 4 := by
  unfold acceptRank
  split <;> decide

/-- What a step of `RestApiServer::stop` makes of a server that runs. -/
inductive Closes (server : RestApiServer) : RestApiServer → Prop where
  | goesOn {server' : RestApiServer} (inside : server'.main ≠ .idle) (closing : Closing server')
      (fewer : closingRank server' < closingRank server) (thread : server'.serverThread = server.serverThread) :
    Closes server server'
  | waits (joins : server.main = .joining) (waits : server.serverThread ≠ some .ended) : Closes server server
  | ends {server' : RestApiServer} (positive : 0 < closingRank server) (closed : Closed server')
      (left : ∀ n, server.serverThread ≠ some (.waiting n)) : Closes server server'

/-- `RestApiServer::stop` on a server that runs. -/
theorem Closing.step {server : RestApiServer} (sound : server.Sound) (alive : server.terminated = false)
    (closing : Closing server) (fd : Int) (ok : Bool) :
    let server' := server.step (.main .stop fd ok)
    server'.Sound ∧ Closes server server' := by
  have agrees := sound.main
  rw [RestApiServer.MainAgrees] at agrees
  refine ⟨sound.step ⟨fun _ start => ?_, fun _ _ start => ?_⟩, ?_⟩
  · cases start
  · cases start
  rw [RestApiServer.step.eq_def, alive, if_neg Bool.false_ne_true]
  dsimp only
  rw [Closing] at closing
  rw [RestApiServer.mainStep.eq_def]
  cases stage : server.main with
  | idle =>
    rw [stage] at closing
    dsimp only
    rw [closing]
    refine .goesOn (by simp) trivial ?_ rfl
    rw [closingRank, closingRank, stage, closing]
    exact show 8 < 9 by decide
  | clearing =>
    rw [stage] at agrees
    refine .goesOn (by simp) trivial ?_ rfl
    rw [closingRank, closingRank, stage, agrees.1]
    exact show 2 + acceptRank server.serverThread < 8 by have few := acceptRank_le server.serverThread; omega
  | shutting =>
    rw [stage] at agrees
    dsimp only
    split
    · rw [RestApiServer.close, RestApiServer.onConnection_eq]
      refine .goesOn (by simp) trivial ?_ rfl
      rw [closingRank, closingRank, stage, agrees.1]
      exact Nat.add_lt_add_right (show 1 < 2 by decide) _
    · refine .goesOn (by simp) trivial ?_ rfl
      rw [closingRank, closingRank, stage, agrees.1]
      exact Nat.add_lt_add_right (show 1 < 2 by decide) _
  | joining =>
    rw [stage] at agrees
    have positive : 0 < closingRank server := by
      rw [closingRank, stage]
      exact Nat.add_pos_left Nat.one_pos _
    dsimp only
    split
    · rename_i none
      exact .ends positive ⟨rfl, agrees.1⟩ (by simp [none])
    · rename_i ended
      exact .ends positive ⟨rfl, agrees.1⟩ (by simp [ended])
    · rename_i thread other here
      refine .waits stage fun ended => other ?_
      rw [here] at ended
      exact Option.some.inj ended
  | binding | listening | setting | spawning =>
    rw [stage] at closing
    cases closing

/-- `RestApiServer::stop` on a server that has been stopped, as the destructor calls it. -/
theorem Closed.step {server : RestApiServer} (alive : server.terminated = false) (closed : Closed server) (fd : Int)
    (ok : Bool) : server.step (.main .stop fd ok) = server := by
  rw [RestApiServer.step.eq_def, alive, if_neg Bool.false_ne_true]
  simp only [RestApiServer.mainStep, closed.idle, closed.stopped]
  rfl

/-- What a step of `InferenceEngine::stop` makes of a process whose engine is up. -/
inductive Stops (withCuda : Bool) (world : World) (config : EngineConfig) (p : MainProcess)
    (inside : StopStage → MainPoint) (next : MainPoint) : StopStage → MainProcess → Prop where
  | clears {engine : EngineProcess} (stopping : Stopping withCuda world config engine .joining) :
    Stops withCuda world config p inside next .clearing { p with engine, point := inside .joining }
  | waits (joinable : p.engine.joinable = true) (working : p.workerEnded = false) :
    Stops withCuda world config p inside next .joining p
  | joins {engine : EngineProcess} (stopping : Stopping withCuda world config engine .unloading) :
    Stops withCuda world config p inside next .joining { p with engine, point := inside .unloading }
  | unloads {engine : EngineProcess} (down : Down withCuda world config engine) :
    Stops withCuda world config p inside next .unloading { p with engine, point := next }

/-- A step of `InferenceEngine::stop`. -/
theorem Stopping.step {stage : StopStage} (stopping : Stopping withCuda world config p.engine stage)
    (inside : StopStage → MainPoint) (next : MainPoint) :
    Stops withCuda world config p inside next stage (p.inEngineStop withCuda stage inside next) := by
  cases stage with
  | clearing =>
    rw [inEngineStop, if_neg (by rw [stopping.running]; decide)]
    exact .clears ⟨_, stopping, rfl⟩
  | joining =>
    obtain ⟨up, isUp, same⟩ := stopping
    rw [inEngineStop]
    split
    · rename_i waits
      rw [Bool.and_eq_true, Bool.not_eq_true'] at waits
      exact .waits waits.1 waits.2
    · exact .joins ⟨up, isUp, by rw [same]⟩
  | unloading =>
    obtain ⟨up, isUp, same⟩ := stopping
    rw [inEngineStop, same]
    exact .unloads isUp.released

/-- `InferenceEngine::stop` on an engine that has been stopped, as the destructor calls it. -/
theorem Down.inEngineStop (down : Down withCuda world config p.engine) (inside : StopStage → MainPoint)
    (next : MainPoint) : p.inEngineStop withCuda .clearing inside next = { p with point := next } := by
  rw [MainProcess.inEngineStop, down.running]
  rfl

theorem Returned.congr {code : Int} (returned : Returned withCuda world config p code)
    (running : p'.running = p.running) (server : p'.server = p.server) : Returned withCuda world config p' code := by
  cases returned with
  | stopped starts listens signalled => exact .stopped starts listens (running.trans signalled)
  | engineFails fails quiet => exact .engineFails fails (server ▸ quiet)
  | serverFails fails quiet => exact .serverFails fails (server ▸ quiet)

/-- `InferenceEngine::start` -/
theorem Sound.mainStep_engineStart (h : Sound withCuda world config p) (stage : p.point = .engineStart) :
    Sound withCuda world config (p.mainStep withCuda world) := by
  have point := h.point
  rw [AtPoint.eq_def, stage] at point
  obtain ⟨engine, quiet, closed⟩ := point
  have ends := (@EngineProcess.Steady.init withCuda config).start_ends rfl rfl world.engine
  rw [MainProcess.mainStep.eq_def, stage]
  dsimp only
  rw [engine]
  revert ends
  generalize (EngineProcess.init config).start withCuda world.engine = started
  intro ends
  cases ends with
  | started starts steady running mode gpu =>
    refine ⟨h.server, ?_⟩
    rw [AtPoint.eq_def]
    dsimp only
    cases worker : world.worker with
    | true =>
      refine ⟨⟨starts, steady, running, mode, gpu⟩, quiet, ?_⟩
      rw [Opening, closed.idle]
      exact closed.stopped
    | false => exact ⟨starts, .inl rfl⟩
  | failed fails llama unloaded running ready joinable gpu =>
    refine ⟨h.server, closed, .engineFails fails quiet, .inr ⟨rfl, running, ready, joinable, llama, unloaded, ?_⟩⟩
    exact gpu.trans ⟨fun ⟨build, cuda, finds⟩ => ⟨build, cuda, finds, fails⟩,
      fun ⟨build, cuda, finds, _⟩ => ⟨build, cuda, finds⟩⟩
  | threw starts path throws => exact ⟨h.server, starts, .inr ⟨path, _, throws⟩⟩

/-- `RestApiServer::start` -/
theorem Sound.mainStep_serverStart (h : Sound withCuda world config p) (alive : p.server.terminated = false)
    (stage : p.point = .serverStart) : Sound withCuda world config (p.mainStep withCuda world) := by
  have point := h.point
  rw [AtPoint.eq_def, stage] at point
  obtain ⟨up, quiet, opening⟩ := point
  obtain ⟨sound, opens⟩ := opening.step h.server alive quiet
  rw [MainProcess.mainStep.eq_def, stage]
  dsimp only [inServer]
  refine ⟨sound, ?_⟩
  rw [AtPoint.eq_def]
  dsimp only
  cases opens with
  | goesOn inside _ quiet opening | dies _ inside quiet opening =>
    rw [if_neg inside, stage]
    exact ⟨up, quiet, opening⟩
  | succeeds _ idle runs listens =>
    rw [if_pos idle, if_pos runs]
    exact ⟨up, listens, idle, runs⟩
  | fails closed quiet fails =>
    rw [if_pos closed.idle, if_neg (by rw [closed.stopped]; simp)]
    exact ⟨closed, .serverFails fails quiet, .inl ⟨quiet, up⟩⟩

/-- `RestApiServer::stop` behind the loop. -/
theorem Sound.mainStep_serverStop (h : Sound withCuda world config p) (alive : p.server.terminated = false)
    (stage : p.point = .serverStop) : Sound withCuda world config (p.mainStep withCuda world) := by
  have point := h.point
  rw [AtPoint.eq_def, stage] at point
  obtain ⟨up, listens, signalled, closing⟩ := point
  obtain ⟨sound, closes⟩ := closing.step h.server alive world.socket (world.goes p.server.main)
  rw [MainProcess.mainStep.eq_def, stage]
  dsimp only [inServer]
  refine ⟨sound, ?_⟩
  rw [AtPoint.eq_def]
  dsimp only
  generalize p.server.step _ = server' at closes
  cases closes with
  | goesOn inside closing =>
    rw [if_neg inside, stage]
    exact ⟨up, listens, signalled, closing⟩
  | waits joins =>
    rw [if_neg (by rw [joins]; simp), stage]
    exact ⟨up, listens, signalled, closing⟩
  | ends _ closed =>
    rw [if_pos closed.idle]
    exact ⟨up, listens, signalled, closed⟩

/-- `InferenceEngine::stop` behind it. -/
theorem Sound.mainStep_engineStop (h : Sound withCuda world config p) {stopStage : StopStage}
    (stage : p.point = .engineStop stopStage) : Sound withCuda world config (p.mainStep withCuda world) := by
  have point := h.point
  rw [AtPoint.eq_def, stage] at point
  obtain ⟨stopping, listens, signalled, closed⟩ := point
  have stops := stopping.step .engineStop (.serverEnd 0)
  rw [MainProcess.mainStep.eq_def, stage]
  dsimp only
  generalize p.inEngineStop withCuda stopStage .engineStop (.serverEnd 0) = p' at stops ⊢
  cases stops with
  | clears further => exact ⟨h.server, further, listens, signalled, closed⟩
  | waits => exact h
  | joins further => exact ⟨h.server, further, listens, signalled, closed⟩
  | unloads down =>
    obtain ⟨up, isUp, _⟩ := stopping
    exact ⟨h.server, closed, .stopped isUp.starts listens signalled, .inr ⟨rfl, down⟩⟩

/-- `InferenceEngine::stop` in the destructor, which has something to do only if the server has not started. -/
theorem Sound.mainStep_engineEnd (h : Sound withCuda world config p) {code : Int} {stopStage : StopStage}
    (stage : p.point = .engineEnd code stopStage) : Sound withCuda world config (p.mainStep withCuda world) := by
  have point := h.point
  rw [AtPoint.eq_def, stage] at point
  rw [MainProcess.mainStep.eq_def, stage]
  dsimp only
  obtain ⟨closed, returned, ⟨quiet, stopping⟩ | ⟨rfl, down⟩⟩ := point
  · have stops := stopping.step (.engineEnd code) (.backendEnd code)
    generalize p.inEngineStop withCuda stopStage (.engineEnd code) (.backendEnd code) = p' at stops ⊢
    cases stops with
    | clears further => exact ⟨h.server, closed, returned.congr rfl rfl, .inl ⟨quiet, further⟩⟩
    | waits => exact h
    | joins further => exact ⟨h.server, closed, returned.congr rfl rfl, .inl ⟨quiet, further⟩⟩
    | unloads down => exact ⟨h.server, closed, returned.congr rfl rfl, down⟩
  · rw [down.inEngineStop]
    exact ⟨h.server, closed, returned.congr rfl rfl, down⟩

theorem Sound.mainStep (h : Sound withCuda world config p) (alive : p.server.terminated = false) :
    Sound withCuda world config (p.mainStep withCuda world) := by
  cases stage : p.point with
  | engineStart => exact h.mainStep_engineStart stage
  | serverStart => exact h.mainStep_serverStart alive stage
  | serverStop => exact h.mainStep_serverStop alive stage
  | engineStop => exact h.mainStep_engineStop stage
  | engineEnd => exact h.mainStep_engineEnd stage
  | loop =>
    have point := h.point
    rw [AtPoint.eq_def, stage] at point
    obtain ⟨up, listens, idle, runs⟩ := point
    rw [MainProcess.mainStep.eq_def, stage]
    dsimp only
    split
    · exact h
    · rename_i signalled
      refine ⟨h.server, up, listens, by simpa using signalled, ?_⟩
      rw [Closing, idle]
      exact runs
  | serverEnd code =>
    have point := h.point
    rw [AtPoint.eq_def, stage] at point
    obtain ⟨closed, returned, left⟩ := point
    rw [MainProcess.mainStep.eq_def, stage]
    dsimp only [inServer]
    rw [closed.step alive, if_pos closed.idle]
    exact ⟨h.server, closed, returned.congr rfl rfl, left⟩
  | backendEnd code =>
    have point := h.point
    rw [AtPoint.eq_def, stage] at point
    obtain ⟨closed, returned, down⟩ := point
    rw [MainProcess.mainStep.eq_def, stage]
    dsimp only
    rw [down.unload]
    exact ⟨h.server, closed, returned.congr rfl rfl, down⟩
  | ended | terminated =>
    rw [MainProcess.mainStep.eq_def, stage]
    exact h

theorem Sound.step (h : Sound withCuda world config p) {event : Event} (closed : p.GivesClosed event) :
    Sound withCuda world config (p.step withCuda world event) := by
  rw [MainProcess.step.eq_def]
  split
  · exact h
  · rename_i going
    have alive := isOver_alive (Bool.eq_false_iff.2 going)
    cases event with
    | main => exact h.mainStep alive
    | signal => exact ⟨h.server, h.point.congr rfl rfl (fun _ => rfl) ⟨rfl, rfl, id⟩⟩
    | worker =>
      dsimp only
      split
      · exact h
      · exact ⟨h.server, h.point.congr rfl rfl id ⟨rfl, rfl, id⟩⟩
    | server fd starts =>
      have proper : p.server.Proper (.server fd starts) := ⟨closed, trivial⟩
      exact ⟨h.server.step proper, h.point.congr rfl rfl id (.accept alive fd starts)⟩
    | asks i =>
      dsimp only
      split
      · exact ⟨h.server, h.point.congr rfl rfl id ⟨rfl, rfl, id⟩⟩
      · exact h
    | client i arrived env taken =>
      have proper : p.server.Proper (.client i arrived (engineEnv (p.reads i) env) taken) := ⟨trivial, trivial⟩
      exact ⟨h.server.step proper, h.point.congr rfl rfl id (.client alive i arrived _ taken)⟩

/-! ## Whole runs -/

theorem Sound.run (schedule : List Event)
    (closed : Along (MainProcess.step withCuda world) GivesClosed (MainProcess.init config) schedule) :
    Sound withCuda world config (schedule.foldl (MainProcess.step withCuda world) (MainProcess.init config)) :=
  along_inv (fun (p : MainProcess) _ (sound : Sound withCuda world config p) closed => sound.step closed)
    schedule _ .init closed

/-- What `main` has taken is given back, but for a GPU that it could not load its model for. The client threads it
has not waited for, and their connections, are not its own. -/
structure GivenBack (withCuda : Bool) (world : World) (config : EngineConfig) (p : MainProcess) : Prop where
  joined : p.engine.joinable = false ∧ p.server.serverThread = none
  models : p.engine.llama.models.ids = []
  contexts : p.engine.llama.contexts.ids = []
  listeners : ∀ fd n, p.server.files fd ≠ some (.listener n)
  gpu : p.engine.gpu.initialized = true ↔ withCuda = true ∧ config.mode = str "cuda" ∧
    (EngineProcess.init config).FindsDevice withCuda world.engine ∧
    ¬ (EngineProcess.init config).Starts withCuda world.engine

theorem Sound.givenBack (h : Sound withCuda world config p) (closed : Closed p.server)
    (down : Down withCuda world config p.engine) : GivenBack withCuda world config p := by
  obtain ⟨noModel, noCtx⟩ := down.llama.toOwns.unloaded down.unloaded
  have agrees := h.server.main
  rw [RestApiServer.MainAgrees, closed.idle, closed.stopped] at agrees
  refine ⟨⟨down.joinable, by simpa using agrees⟩, ?_, ?_, fun fd n open_ => ?_, down.gpu⟩
  · rw [down.llama.toOwns.models, noModel, Option.toList_none]
  · rw [down.llama.toOwns.contexts, noCtx, Option.toList_none]
  · have holder := (h.server.held fd (.listener n)).1 open_
    rw [RestApiServer.holds, closed.started, if_neg (by simp)] at holder
    cases holder

/-- No thread of the server is refused. -/
def ThreadsStart (world : World) (schedule : List Event) : Prop :=
  world.accepts = true ∧ ∀ fd, Event.server fd false ∉ schedule

theorem inServer_alive (sound : p.server.Sound) (accepts : world.accepts = true) (alive : p.server.terminated = false)
    (call : RestApiServer.Call) (next : RestApiServer → MainPoint) :
    (p.inServer world call next).server.terminated = false := by
  rw [inServer, ← Bool.not_eq_true]
  dsimp only
  rw [sound.terminated_iff, RestApiServer.StartFails, alive]
  rintro (gone | ⟨stage, refused⟩)
  · cases gone
  · rw [stage, World.goes, accepts] at refused
    cases refused

theorem inEngineStop_server (stage : StopStage) (inside : StopStage → MainPoint) (next : MainPoint) :
    (p.inEngineStop withCuda stage inside next).server = p.server := by
  cases stage with
  | unloading => rfl
  | clearing | joining =>
    rw [inEngineStop]
    split <;> rfl

/-- No exception leaves a thread of the server where all threads can be started. -/
theorem Sound.alive (h : Sound withCuda world config p) (accepts : world.accepts = true)
    (alive : p.server.terminated = false) {event : Event} (starts : ∀ fd, event ≠ .server fd false) :
    (p.step withCuda world event).server.terminated = false := by
  rw [MainProcess.step.eq_def]
  split
  · exact alive
  · cases event with
    | main =>
      dsimp only
      rw [MainProcess.mainStep.eq_def]
      split
      · split <;> exact alive
      · exact inServer_alive h.server accepts alive _ _
      · split <;> exact alive
      · exact inServer_alive h.server accepts alive _ _
      · rw [inEngineStop_server]
        exact alive
      · exact inServer_alive h.server accepts alive _ _
      · rw [inEngineStop_server]
        exact alive
      all_goals exact alive
    | signal => exact alive
    | worker | asks =>
      dsimp only
      split <;> exact alive
    | server fd started =>
      dsimp only
      rw [← Bool.not_eq_true, h.server.terminated_iff, RestApiServer.StartFails, alive]
      rintro (gone | ⟨_, rfl⟩)
      · cases gone
      · exact starts fd rfl
    | client i arrived env taken =>
      dsimp only
      rw [← Bool.not_eq_true, h.server.terminated_iff, RestApiServer.StartFails, alive]
      simp

theorem Sound.run_alive (schedule : List Event) (threads : ThreadsStart world schedule)
    (closed : Along (MainProcess.step withCuda world) GivesClosed (MainProcess.init config) schedule) :
    (schedule.foldl (MainProcess.step withCuda world) (MainProcess.init config)).server.terminated = false := by
  obtain ⟨accepts, starts⟩ := threads
  have all : Along (MainProcess.step withCuda world) (fun _ event => ∀ fd, event ≠ .server fd false)
      (MainProcess.init config) schedule := by
    refine along_of_mem schedule _ fun event mem _ fd same => starts fd ?_
    rwa [← same]
  have keep : ∀ (p : MainProcess) event, (Sound withCuda world config p ∧ p.server.terminated = false) →
      (p.GivesClosed event ∧ ∀ fd, event ≠ .server fd false) →
      Sound withCuda world config (p.step withCuda world event) ∧
        (p.step withCuda world event).server.terminated = false :=
    fun p event sound goes => ⟨sound.1.step goes.1, sound.1.alive accepts sound.2 goes.2⟩
  exact (along_inv keep schedule _ ⟨.init, rfl⟩ ((along_and schedule _).2 ⟨closed, all⟩)).2

/-- **How `main` ends.** Whatever the other threads do and whenever the signal comes: `main` returns 0 exactly
when the engine and the server got what they start with, and then it was signalled; it returns 1 when one of
them did not. Behind it both threads are joined, and no model, no context and no listening socket is left, and no
GPU except where the model for it could not be loaded. It is ended by an exception only when the vocabulary
throws one or a thread cannot be started. -/
theorem main_ends (schedule : List Event)
    (closed : Along (MainProcess.step withCuda world) GivesClosed (MainProcess.init config) schedule) :
    let p := schedule.foldl (MainProcess.step withCuda world) (MainProcess.init config)
    let starts := (EngineProcess.init config).Starts withCuda world.engine
    (∀ code, p.point = .ended code → (code = 0 ∨ code = 1) ∧ (code = 0 ↔ starts ∧ world.Listens) ∧
      (code = 0 → p.running = false) ∧ GivenBack withCuda world config p) ∧
    (p.point = .terminated → starts ∧ (world.worker = false ∨
      config.modelPath ≠ [] ∧ ∃ x, (({} : Tokenizer).load world.engine.vocab).1 = .error x)) ∧
    (p.server.terminated = true → ¬ ThreadsStart world schedule) := by
  intro p starts
  have sound := Sound.run schedule closed
  have point := sound.point
  rw [AtPoint.eq_def] at point
  have one : ¬ (1 : Int) = 0 := by decide
  refine ⟨fun code ended => ?_, fun terminated => ?_, fun terminated threads => ?_⟩
  · rw [show MainProcess.point (schedule.foldl _ _) = .ended code from ended] at point
    obtain ⟨idle, returned, down⟩ := point
    have back := sound.givenBack idle down
    cases returned with
    | stopped starts listens signalled =>
      exact ⟨.inl rfl, iff_of_true rfl ⟨starts, listens⟩, fun _ => signalled, back⟩
    | engineFails fails =>
      exact ⟨.inr rfl, iff_of_false one fun all => fails all.1, fun zero => absurd zero one, back⟩
    | serverFails fails =>
      exact ⟨.inr rfl, iff_of_false one fun all => fails all.2, fun zero => absurd zero one, back⟩
  · rw [show MainProcess.point (schedule.foldl _ _) = .terminated from terminated] at point
    exact point
  · rw [Sound.run_alive schedule threads closed] at terminated
    cases terminated

end MainProcess

end ModelRuntime
