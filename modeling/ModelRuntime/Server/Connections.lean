import ModelRuntime.Lib.Handles
import ModelRuntime.Lib.Run
import ModelRuntime.Server.Client
import ModelRuntime.Server.Wire

/-!
# The threads of the server

`RestApiServer` runs in the main thread (`start` and `stop`), in the accept loop, and in one detached
thread for each connection. All of them name their sockets by descriptors, and the number of a closed one
is given out again. Whatever the order of their steps, each connection is served as if the others were not
there (`server_refines`): one receive, one answer, one close.
-/

namespace ModelRuntime
open Cpp Lib

/-- What a descriptor stands for. -/
inductive Socket where
  | listener (n : Nat)
  | connection (k : Nat)
  deriving DecidableEq

/-- What has been done with a connection. -/
structure Connection where
  /-- What the one `recv` brought. -/
  received : Option Bytes := none
  sent : List Bytes := []
  closes : Nat := 0

/-! ## The threads -/

/-- Where a client thread stands. -/
inductive ClientStage where
  | receiving
  | routing (buffer : Bytes)
  | sending (response : HttpResponse)
  | closing
  | ended

/-- A client thread, with the descriptor it was started with. -/
structure ClientThread where
  clientFd : Int
  stage : ClientStage := .receiving

/-- Where the accept loop stands. -/
inductive AcceptStage where
  /-- Before the test of `running_`. -/
  | testing
  /-- Before `accept`. -/
  | calling
  /-- In `accept`, on a listening socket. -/
  | waiting (n : Nat)
  /-- `accept` has returned a descriptor that no thread has been started for. -/
  | returned (clientFd : Int)
  | ended
  deriving DecidableEq

def AcceptStage.isWaiting : AcceptStage → Bool
  | .waiting _ => true
  | _ => false

/-- Where the main thread stands, in `start` or `stop`. -/
inductive MainStage where
  | idle
  | binding
  | listening
  | setting
  | spawning
  | clearing
  | shutting
  | joining
  deriving DecidableEq

structure RestApiServer where
  running : Bool := false
  serverFd : Int := -1
  /-- `none` where it is not joinable. -/
  serverThread : Option AcceptStage := none
  main : MainStage := .idle
  clients : List ClientThread := []
  /-- `std::terminate` has been called. -/
  terminated : Bool := false
  /-- The descriptors the kernel has given out. -/
  files : Int → Option Socket := fun _ => none
  listeners : Nat := 0
  connections : List Connection := []

namespace RestApiServer

/-! ## Calls to the kernel -/

/-- A call on a connection; nothing is done where the descriptor does not stand for one. -/
def onConnection (s : RestApiServer) (fd : Int) (f : Connection → Connection) : RestApiServer :=
  match s.files fd with
  | some (.connection k) => { s with connections := s.connections.modify k f }
  | _ => s

def close (s : RestApiServer) (fd : Int) : RestApiServer :=
  let closed := s.onConnection fd fun c => { c with closes := c.closes + 1 }
  { closed with files := Function.update s.files fd none }

/-- The result of `recv`: where there is no connection, nothing. -/
def received (s : RestApiServer) (fd : Int) (arrived : Bytes) : Bytes :=
  match s.files fd with
  | some (.connection _) => arrived.take (4096 - 1)
  | _ => []

/-! ## Steps -/

inductive Call where
  | start
  | stop
  deriving DecidableEq

/-- Who takes the next step, and what the rest of the world has to do with it. -/
inductive Event where
  /-- The main thread calls `start` or `stop`, or goes on with the call it is in: `socket` returns `fd`;
  `bind`, `listen` or the constructor of the thread succeeds where `ok`. -/
  | main (call : Call) (fd : Int) (ok : Bool)
  /-- The accept loop, where `accept` returns `fd` and a thread can be started where `starts`. -/
  | server (fd : Int) (starts : Bool := true)
  /-- A client thread: `recv` finds the bytes `arrived`, or none at an end or an error; the handlers see
  the rest of the program as `env`; `send` takes `taken` bytes. -/
  | client (i : Nat) (arrived : Bytes) (env : ServerEnv) (taken : Nat)

def start (s : RestApiServer) (fd : Int) : RestApiServer :=
  if fd < 0 then { s with serverFd := fd }
  else
    { s with
      serverFd := fd
      main := .binding
      files := Function.update s.files fd (some (.listener s.listeners))
      listeners := s.listeners + 1 }

/-- A step of `start` or `stop`. -/
def mainStep (s : RestApiServer) (call : Call) (fd : Int) (ok : Bool) : RestApiServer :=
  match s.main with
  | .idle =>
    match call with
    | .start => s.start fd
    | .stop => if !s.running then s else { s with main := .clearing }
  | .binding =>
    if !ok then { s.close s.serverFd with main := .idle } else { s with main := .listening }
  | .listening =>
    if !ok then { s.close s.serverFd with main := .idle } else { s with main := .setting }
  | .setting => { s with running := true, main := .spawning }
  | .spawning =>
    -- nobody catches what the constructor throws, and a joinable thread cannot be assigned to
    if !ok || s.serverThread.isSome then { s with terminated := true }
    else { s with serverThread := some .testing, main := .idle }
  | .clearing => { s with running := false, main := .shutting }
  | .shutting => { (if 0 ≤ s.serverFd then s.close s.serverFd else s) with main := .joining }
  | .joining =>
    match s.serverThread with
    | none => { s with main := .idle }
    | some .ended => { s with serverThread := none, main := .idle }
    | some _ => s

/-- `accept` returns. -/
def acceptReturns (s : RestApiServer) (fd : Int) : RestApiServer :=
  if fd < 0 then { s with serverThread := some .testing }
  else
    { s with
      serverThread := some (.returned fd)
      files := Function.update s.files fd (some (.connection s.connections.length))
      connections := s.connections ++ [{}] }

/-- A step of the accept loop in `handle_client`, which catches no exception. -/
def acceptStep (s : RestApiServer) (fd : Int) (starts : Bool) : RestApiServer :=
  match s.serverThread with
  | some .testing => { s with serverThread := some (if s.running then .calling else .ended) }
  | some .calling =>
    match s.files s.serverFd with
    | some (.listener n) => { s with serverThread := some (.waiting n) }
    | _ => { s with serverThread := some .testing }
  | some (.waiting _) => s.acceptReturns fd
  | some (.returned clientFd) =>
    if starts then { s with serverThread := some .testing, clients := s.clients ++ [{ clientFd }] }
    else { s with terminated := true }
  | _ => s

/-- The client thread `i` goes on to `stage`. -/
def goes (s : RestApiServer) (i : Nat) (thread : ClientThread) (stage : ClientStage) : RestApiServer :=
  { s with clients := s.clients.set i { thread with stage } }

/-- A step of a client thread in `handle_client`. -/
def clientStep (s : RestApiServer) (i : Nat) (thread : ClientThread) (arrived : Bytes) (env : ServerEnv)
    (taken : Nat) : RestApiServer :=
  match thread.stage with
  | .receiving =>
    let buffer := s.received thread.clientFd arrived
    (s.onConnection thread.clientFd fun c => { c with received := some buffer }).goes i thread
      (if buffer = [] then .closing else .routing buffer)
  | .routing buffer =>
    match parseRequest buffer with
    | .error _ => { s with terminated := true }
    | .ok request => s.goes i thread (.sending (routeRequest env request).1)
  | .sending response =>
    (s.onConnection thread.clientFd fun c => { c with sent := c.sent ++ [sendResponse taken response] }).goes
      i thread .closing
  | .closing => (s.close thread.clientFd).goes i thread .ended
  | .ended => s

def step (s : RestApiServer) (event : Event) : RestApiServer :=
  if s.terminated then s
  else
    match event with
    | .main call fd ok => s.mainStep call fd ok
    | .server fd starts => s.acceptStep fd starts
    | .client i arrived env taken =>
      match s.clients[i]? with
      | none => s
      | some thread => s.clientStep i thread arrived env taken

/-! ## What the kernel and the caller keep to -/

/-- A descriptor that the kernel gives out is not open. -/
def GivesClosed (s : RestApiServer) : Event → Prop
  | .main call fd _ => s.main = .idle → call = .start → 0 ≤ fd → s.files fd = none
  | .server fd _ => s.serverThread.any AcceptStage.isWaiting = true → 0 ≤ fd → s.files fd = none
  | .client .. => True

/-- `start` is not called while the server runs. -/
def StartsStopped (s : RestApiServer) : Event → Prop
  | .main call _ _ => s.terminated = false → s.main = .idle → call = .start → s.running = false
  | _ => True

/-- `start` is not called. -/
def StartsNever (s : RestApiServer) : Event → Prop
  | .main call _ _ => s.main = .idle → call ≠ .start
  | _ => True

instance GivesClosed.decidable (s : RestApiServer) : ∀ event, Decidable (s.GivesClosed event)
  | .main call fd _ => inferInstanceAs
      (Decidable (s.main = .idle → call = .start → 0 ≤ fd → s.files fd = none))
  | .server fd _ => inferInstanceAs
      (Decidable (s.serverThread.any AcceptStage.isWaiting = true → 0 ≤ fd → s.files fd = none))
  | .client .. => .isTrue trivial

instance StartsStopped.decidable (s : RestApiServer) : ∀ event, Decidable (s.StartsStopped event)
  | .main call _ _ => inferInstanceAs
      (Decidable (s.terminated = false → s.main = .idle → call = .start → s.running = false))
  | .server .. | .client .. => .isTrue trivial

instance StartsNever.decidable (s : RestApiServer) : ∀ event, Decidable (s.StartsNever event)
  | .main call _ _ => inferInstanceAs (Decidable (s.main = .idle → call ≠ .start))
  | .server .. | .client .. => .isTrue trivial

end RestApiServer

end ModelRuntime
