import ModelRuntime.Server.Connections

/-!
# Who holds a descriptor

The accept loop names the listening socket, and each client thread its connection, by a number that the
kernel may give out again once it is closed. `Sound` says that the numbers are held exclusively, so that a
thread that acts on a descriptor acts on its own socket.
-/

namespace ModelRuntime
open Cpp Lib

/-! ## A connection on its own -/

/-- What a client is sent for the bytes it has sent. -/
def Answered (buffer : Bytes) (sent : List Bytes) : Prop :=
  if buffer = [] then sent = []
  else ∃ request env taken, parseRequest buffer = .ok request ∧
    sent = [sendResponse taken (routeRequest env request).1]

/-- What may be done with a connection: it is received from, answered and closed, each once. -/
inductive Exchange : Connection → Connection → Prop where
  | receive {buffer : Bytes} (size : buffer.length ≤ 4095) : Exchange {} { received := some buffer }
  | answer {buffer : Bytes} {sent : List Bytes} (nonempty : buffer ≠ []) (answered : Answered buffer sent) :
    Exchange { received := some buffer } { received := some buffer, sent }
  | close {buffer : Bytes} {sent : List Bytes} (answered : Answered buffer sent) :
    Exchange { received := some buffer, sent } { received := some buffer, sent, closes := 1 }

/-- What has been done with the connection of a thread at a stage. -/
inductive ClientStage.At : ClientStage → Connection → Prop where
  | receiving : At .receiving {}
  | routing {buffer : Bytes} (nonempty : buffer ≠ []) : At (.routing buffer) { received := some buffer }
  | sending {buffer : Bytes} {request : HttpRequest} (env : ServerEnv) (nonempty : buffer ≠ [])
      (parsed : parseRequest buffer = .ok request) :
    At (.sending (routeRequest env request).1) { received := some buffer }
  | closing {buffer : Bytes} {sent : List Bytes} (answered : Answered buffer sent) :
    At .closing { received := some buffer, sent }
  | ended {buffer : Bytes} {sent : List Bytes} (answered : Answered buffer sent) :
    At .ended { received := some buffer, sent, closes := 1 }

/-- The descriptor of a thread that has not closed it. -/
def ClientThread.descriptor (thread : ClientThread) : Option Int :=
  match thread.stage with
  | .ended => none
  | _ => some thread.clientFd

namespace RestApiServer

/-! ## Holders -/

/-- The client threads, and the one that the accept loop is about to start. -/
def threads (s : RestApiServer) : List ClientThread :=
  s.clients ++
    match s.serverThread with
    | some (.returned clientFd) => [{ clientFd }]
    | _ => []

/-- The main thread has a listening socket that it has not closed. -/
def listens (s : RestApiServer) : Bool :=
  match s.main with
  | .idle => s.running
  | .joining => false
  | _ => true

def holds (s : RestApiServer) : Socket → Option Int
  | .listener n => if s.listens = true ∧ n + 1 = s.listeners then some s.serverFd else none
  | .connection k => s.threads[k]?.bind ClientThread.descriptor

/-- `running_` and `server_thread_` at each stage of `start` and `stop`. -/
def MainAgrees (s : RestApiServer) : Prop :=
  match s.main with
  | .idle => s.running = s.serverThread.isSome
  | .binding | .listening | .setting => s.running = false ∧ s.serverThread.isSome = false
  | .spawning => s.running = true ∧ s.serverThread.isSome = false
  | .clearing => s.running = true ∧ s.serverThread.isSome = true
  | .shutting | .joining => s.running = false ∧ s.serverThread.isSome = true

/-- The invariant of the server. -/
structure Sound (s : RestApiServer) : Prop where
  held : Exclusive s.files s.holds
  stands : ∀ k : Nat, Option.Rel (fun thread : ClientThread => thread.stage.At) s.threads[k]? s.connections[k]?
  main : s.MainAgrees
  opened : s.listens = true → 0 < s.listeners
  /-- No connection has got the number of the listening socket that the accept loop is about to use. -/
  calling : s.main = .joining → s.serverThread = some .calling → s.files s.serverFd = none
  valid : ∀ fd socket, s.files fd = some socket → 0 ≤ fd

variable {s s' : RestApiServer}

theorem Sound.count (h : s.Sound) : s.threads.length = s.connections.length := by
  have same : ∀ k : Nat, s.threads[k]? = none ↔ s.connections[k]? = none := by
    intro k
    have stands := h.stands k
    revert stands
    cases s.threads[k]? <;> cases s.connections[k]? <;> intro stands
    · simp
    · cases stands
    · cases stands
    · simp
  have left := same s.threads.length
  have right := same s.connections.length
  simp only [List.getElem?_eq_none_iff, le_refl, true_iff, iff_true] at left right
  omega

theorem sound_initial : Sound {} where
  held := by
    have nothing : ({} : RestApiServer).holds = fun _ => none := by
      funext socket
      cases socket <;> rfl
    rw [nothing]
    exact Exclusive.empty
  stands := fun _ => .none
  main := rfl
  opened := by
    intro on
    cases on
  calling := by
    intro joining
    cases joining
  valid := by
    intro fd socket open_
    cases open_

theorem holds_congr (threads : s'.threads = s.threads) (listens : s'.listens = s.listens)
    (listeners : s'.listeners = s.listeners) (serverFd : s.listens = true → s'.serverFd = s.serverFd) :
    s'.holds = s.holds := by
  funext socket
  cases socket with
  | connection k => rw [holds, holds, threads]
  | listener n =>
    rw [holds, holds, listens, listeners]
    by_cases on : s.listens = true ∧ n + 1 = s.listeners
    · rw [if_pos on, if_pos on, serverFd on.1]
    · rw [if_neg on, if_neg on]

/-- The listening socket is closed. -/
theorem holds_closed (threads : s'.threads = s.threads) (off : s'.listens = false) :
    s'.holds = Function.update s.holds (.listener (s.listeners - 1)) none := by
  funext socket
  cases socket with
  | connection k => rw [Function.update_of_ne (by simp), holds, holds, threads]
  | listener n =>
    rw [holds, off, if_neg (by simp)]
    by_cases last : n = s.listeners - 1
    · rw [last, Function.update_self]
    · rw [Function.update_of_ne (by simpa using last), holds, if_neg]
      rintro ⟨_, next⟩
      omega

/-- A listening socket is opened. -/
theorem holds_opened (threads : s'.threads = s.threads) (off : s.listens = false) (on : s'.listens = true)
    (listeners : s'.listeners = s.listeners + 1) :
    s'.holds = Function.update s.holds (.listener s.listeners) (some s'.serverFd) := by
  funext socket
  cases socket with
  | connection k => rw [Function.update_of_ne (by simp), holds, holds, threads]
  | listener n =>
    by_cases last : n = s.listeners
    · rw [last, Function.update_self, holds, on, listeners, if_pos ⟨rfl, rfl⟩]
    · rw [Function.update_of_ne (by simpa using last), holds, holds, off, listeners, if_neg, if_neg]
      · simp
      · rintro ⟨_, next⟩
        omega

/-- One thread goes on. -/
theorem holds_thread {i : Nat} {thread : ClientThread} (inside : i < s.threads.length)
    (threads : s'.threads = s.threads.set i thread) (listens : s'.listens = s.listens)
    (listeners : s'.listeners = s.listeners) (serverFd : s'.serverFd = s.serverFd) :
    s'.holds = Function.update s.holds (.connection i) thread.descriptor := by
  funext socket
  cases socket with
  | listener n => rw [Function.update_of_ne (by simp), holds, holds, listens, listeners, serverFd]
  | connection k =>
    rw [holds, threads, List.getElem?_set]
    by_cases same : i = k
    · subst same
      rw [if_pos rfl, if_pos inside, Function.update_self, Option.bind_some]
    · rw [if_neg same, Function.update_of_ne (by simpa using Ne.symm same), holds]

/-- The descriptor of the listening socket. -/
theorem Sound.listener (h : s.Sound) (on : s.listens = true) :
    s.files s.serverFd = some (.listener (s.listeners - 1)) := by
  have some := h.opened on
  rw [h.held, holds, if_pos ⟨on, by omega⟩]

/-! ## Steps that open and close nothing -/

theorem MainAgrees.congr (agrees : s.MainAgrees) (main : s'.main = s.main) (running : s'.running = s.running)
    (thread : s'.serverThread.isSome = s.serverThread.isSome) : s'.MainAgrees := by
  rw [MainAgrees, main, running, thread]
  exact agrees

theorem Sound.frame (h : s.Sound) (files : s'.files = s.files)
    (holds : s'.holds = s.holds) (threads : s'.threads = s.threads)
    (connections : s'.connections = s.connections) (main : s'.MainAgrees)
    (opened : s'.listens = true → 0 < s'.listeners)
    (calling : s'.main = .joining → s'.serverThread = some .calling → s'.files s'.serverFd = none) :
    s'.Sound where
  held := by
    rw [files, holds]
    exact h.held
  stands := by
    rw [threads, connections]
    exact h.stands
  main := main
  opened := opened
  calling := calling
  valid := by
    rw [files]
    exact h.valid

theorem Sound.terminates (h : s.Sound) : Sound { s with terminated := true } :=
  ⟨h.held, h.stands, h.main, h.opened, h.calling, h.valid⟩

/-- The main thread goes on with a listening socket that is open. -/
theorem Sound.moves (h : s.Sound) (on : s.listens = true)
    (files : s'.files = s.files) (threads : s'.threads = s.threads) (connections : s'.connections = s.connections)
    (listens : s'.listens = true) (listeners : s'.listeners = s.listeners) (serverFd : s'.serverFd = s.serverFd)
    (main : s'.MainAgrees) : s'.Sound := by
  refine h.frame files (holds_congr threads (listens.trans on.symm) listeners fun _ => serverFd) threads
    connections main (fun _ => ?_) fun joining => ?_
  · rw [listeners]
    exact h.opened on
  · rw [RestApiServer.listens, joining] at listens
    cases listens

/-! ## The main thread -/

theorem close_listener {fd : Int} {n : Nat} (open_ : s.files fd = some (.listener n)) :
    s.close fd = { s with files := Function.update s.files fd none } := by
  simp only [close, onConnection, open_]

theorem valid_update (valid : ∀ fd socket, s.files fd = some socket → 0 ≤ fd) {fd : Int} {new : Option Socket}
    (given : new = none ∨ 0 ≤ fd) :
    ∀ fd' socket, Function.update s.files fd new fd' = some socket → 0 ≤ fd' := by
  intro fd' socket open_
  by_cases same : fd' = fd
  · subst same
    rw [Function.update_self] at open_
    rcases given with rfl | given
    · cases open_
    · exact given
  · rw [Function.update_of_ne same] at open_
    exact valid fd' socket open_

/-- The listening socket is closed. -/
theorem Sound.closes (h : s.Sound) (on : s.listens = true)
    (files : s'.files = Function.update s.files s.serverFd none) (threads : s'.threads = s.threads)
    (connections : s'.connections = s.connections) (off : s'.listens = false)
    (serverFd : s'.serverFd = s.serverFd) (main : s'.MainAgrees) : s'.Sound where
  held := by
    have holder : s.holds (.listener (s.listeners - 1)) = some s.serverFd := (h.held _ _).1 (h.listener on)
    rw [files, holds_closed threads off]
    exact h.held.release holder
  stands := by
    rw [threads, connections]
    exact h.stands
  main := main
  opened := by
    intro on'
    rw [off] at on'
    cases on'
  calling := by
    intro _ _
    rw [files, serverFd, Function.update_self]
  valid := by
    rw [files]
    exact valid_update h.valid (.inl rfl)

/-- A listening socket is opened. -/
theorem Sound.opens (h : s.Sound) (off : s.listens = false)
    (closed : s.files s'.serverFd = none) (given : 0 ≤ s'.serverFd)
    (files : s'.files = Function.update s.files s'.serverFd (some (.listener s.listeners)))
    (threads : s'.threads = s.threads) (connections : s'.connections = s.connections)
    (on : s'.listens = true) (listeners : s'.listeners = s.listeners + 1) (main : s'.MainAgrees) :
    s'.Sound where
  held := by
    have new : s.holds (.listener s.listeners) = none := by rw [holds, off, if_neg (by simp)]
    rw [files, holds_opened threads off on listeners]
    exact h.held.give closed new
  stands := by
    rw [threads, connections]
    exact h.stands
  main := main
  opened := by
    intro _
    omega
  calling := by
    intro joining
    rw [listens, joining] at on
    cases on
  valid := by
    rw [files]
    exact valid_update h.valid (.inr given)

theorem Sound.start (h : s.Sound) (idle : s.main = .idle) (stopped : s.running = false) {fd : Int}
    (closed : 0 ≤ fd → s.files fd = none) : (s.start fd).Sound := by
  have agrees := h.main
  have off : s.listens = false := by rw [listens, idle, stopped]
  rw [MainAgrees, idle, stopped] at agrees
  rw [RestApiServer.start]
  split
  · refine h.frame rfl (holds_congr rfl rfl rfl fun on => ?_) rfl rfl ?_ h.opened fun joining => ?_
    · rw [off] at on
      cases on
    · rw [MainAgrees, idle]
      exact stopped.trans agrees
    · rw [idle] at joining
      cases joining
  · rename_i given
    have given : 0 ≤ fd := by omega
    exact h.opens off (closed given) given rfl rfl rfl rfl rfl ⟨stopped, agrees.symm⟩

theorem Sound.mainStep (h : s.Sound) {call : Call} {fd : Int} {ok : Bool}
    (closed : s.GivesClosed (.main call fd ok)) (stopped : s.main = .idle → call = .start → s.running = false) :
    (s.mainStep call fd ok).Sound := by
  have agrees := h.main
  have listening : (s.main ≠ .idle ∧ s.main ≠ .joining) → s.listens = true := by
    rintro ⟨notIdle, notJoining⟩
    rw [listens]
    split
    · contradiction
    · contradiction
    · rfl
  rw [MainAgrees] at agrees
  rw [RestApiServer.mainStep.eq_def]
  cases stage : s.main with
  | idle =>
    rw [stage] at agrees
    cases call with
    | start => exact h.start stage (stopped stage rfl) (closed stage rfl)
    | stop =>
      dsimp only
      split
      · exact h
      · rename_i runs
        have runs : s.running = true := by simpa using runs
        have on : s.listens = true := by rw [listens, stage, runs]
        exact h.moves on rfl rfl rfl rfl rfl rfl ⟨runs, agrees.symm.trans runs⟩
  | binding =>
    have on := listening (by rw [stage]; decide)
    rw [stage] at agrees
    dsimp only
    split
    · rw [close_listener (h.listener on)]
      exact h.closes on rfl rfl rfl agrees.1 rfl (agrees.1.trans agrees.2.symm)
    · exact h.moves on rfl rfl rfl rfl rfl rfl agrees
  | listening =>
    have on := listening (by rw [stage]; decide)
    rw [stage] at agrees
    dsimp only
    split
    · rw [close_listener (h.listener on)]
      exact h.closes on rfl rfl rfl agrees.1 rfl (agrees.1.trans agrees.2.symm)
    · exact h.moves on rfl rfl rfl rfl rfl rfl agrees
  | setting =>
    have on := listening (by rw [stage]; decide)
    rw [stage] at agrees
    exact h.moves on rfl rfl rfl rfl rfl rfl ⟨rfl, agrees.2⟩
  | spawning =>
    have on := listening (by rw [stage]; decide)
    rw [stage] at agrees
    have none : s.serverThread = none := by simpa using agrees.2
    dsimp only
    split
    · have ends := h.terminates
      rwa [stage] at ends
    · refine h.moves on rfl ?_ rfl agrees.1 rfl rfl agrees.1
      simp only [threads, none]
  | clearing =>
    have on := listening (by rw [stage]; decide)
    rw [stage] at agrees
    exact h.moves on rfl rfl rfl rfl rfl rfl ⟨rfl, agrees.2⟩
  | shutting =>
    have on := listening (by rw [stage]; decide)
    rw [stage] at agrees
    dsimp only
    rw [if_pos (h.valid _ _ (h.listener on)), close_listener (h.listener on)]
    exact h.closes on rfl rfl rfl rfl rfl agrees
  | joining =>
    rw [stage] at agrees
    have off : s.listens = false := by rw [listens, stage]
    cases thread : s.serverThread with
    | none =>
      rw [thread] at agrees
      cases agrees.2
    | some at_ =>
      cases at_ with
      | ended =>
        have same : RestApiServer.threads { s with serverThread := none, main := .idle } = s.threads := by
          simp only [threads, thread]
        refine h.frame rfl (holds_congr same (agrees.1.trans off.symm) rfl fun _ => rfl) same rfl
          agrees.1 (fun on => ?_) fun joining => ?_
        · rw [listens, agrees.1] at on
          cases on
        · cases joining
      | _ => exact h

/-! ## The accept loop -/

/-- The accept loop goes on without opening a descriptor. -/
theorem Sound.accepts (h : s.Sound) {stage : AcceptStage} (runs : s.serverThread.isSome = true)
    (threads : RestApiServer.threads { s with serverThread := some stage } = s.threads)
    (calls : stage = .calling → s.running = true) :
    Sound { s with serverThread := some stage } := by
  refine h.frame rfl (holds_congr threads rfl rfl fun _ => rfl) threads rfl ?_ h.opened
    fun joining calling => ?_
  · exact h.main.congr rfl rfl (by rw [runs]; rfl)
  · have agrees := h.main
    rw [MainAgrees, show s.main = .joining from joining, calls (Option.some.inj calling)] at agrees
    cases agrees.1

/-- A connection is opened. -/
theorem Sound.connects (h : s.Sound) {n : Nat} (waits : s.serverThread = some (.waiting n)) {fd : Int}
    (closed : s.files fd = none) (given : 0 ≤ fd) :
    Sound { s with
      serverThread := some (.returned fd)
      files := Function.update s.files fd (some (.connection s.connections.length))
      connections := s.connections ++ [{}] } := by
  have before : s.threads = s.clients := by simp only [threads, waits, List.append_nil]
  have count := h.count
  rw [before] at count
  refine ⟨?_, ?_, ?_, h.opened, fun _ calling => ?_, valid_update h.valid (.inr given)⟩
  · have new : s.holds (.connection s.connections.length) = none := by
      rw [holds, before, ← count, List.getElem?_length]
      rfl
    convert h.held.give closed new using 1
    funext socket
    cases socket with
    | listener n =>
      rw [Function.update_of_ne (by simp)]
      rfl
    | connection k =>
      by_cases last : k = s.connections.length
      · subst last
        rw [Function.update_self, holds]
        simp only [threads, ← count, List.getElem?_concat_length]
        rfl
      · rw [Function.update_of_ne (by simpa using last), holds, holds, before]
        simp only [threads]
        rcases Nat.lt_or_gt_of_ne last with below | above
        · rw [List.getElem?_append_left (by omega)]
        · rw [List.getElem?_eq_none (by simp; omega), List.getElem?_eq_none (by omega)]
  · intro k
    have stands := h.stands k
    rw [before] at stands
    simp only [threads]
    rcases Nat.lt_trichotomy k s.connections.length with below | rfl | above
    · rw [List.getElem?_append_left (by omega), List.getElem?_append_left below]
      exact stands
    · rw [← count, List.getElem?_concat_length, count, List.getElem?_concat_length]
      exact .some .receiving
    · rw [List.getElem?_eq_none (by simp; omega), List.getElem?_eq_none (by simp; omega)]
      exact .none
  · exact h.main.congr rfl rfl (by rw [waits]; rfl)
  · cases calling

theorem Sound.acceptStep (h : s.Sound) {fd : Int} {starts : Bool} (closed : s.GivesClosed (.server fd starts)) :
    (s.acceptStep fd starts).Sound := by
  rw [RestApiServer.acceptStep.eq_def]
  cases thread : s.serverThread with
  | none => exact h
  | some stage =>
    have runs : s.serverThread.isSome = true := by rw [thread]; rfl
    have plain : ∀ {stage'}, (∀ fd, stage ≠ .returned fd) → (∀ fd, stage' ≠ .returned fd) →
        RestApiServer.threads { s with serverThread := some stage' } = s.threads := by
      intro stage' notReturned notReturned'
      simp only [threads, thread]
      cases stage <;> cases stage' <;> simp_all
    cases stage with
    | testing =>
      refine h.accepts runs (plain (by simp) fun fd => ?_) fun calling => ?_
      · split <;> simp
      · split at calling
        · assumption
        · cases calling
    | calling =>
      dsimp only
      split
      · exact h.accepts runs (plain (by simp) (by simp)) (by simp)
      · exact h.accepts runs (plain (by simp) (by simp)) (by simp)
    | waiting n =>
      dsimp only
      rw [acceptReturns]
      split
      · exact h.accepts runs (plain (by simp) (by simp)) (by simp)
      · have given : 0 ≤ fd := by omega
        exact h.connects thread (closed (by rw [thread]; rfl) given) given
    | returned clientFd =>
      dsimp only
      split
      case isFalse =>
        have ends := h.terminates
        rwa [thread] at ends
      have same : RestApiServer.threads { s with
          serverThread := some .testing, clients := s.clients ++ [{ clientFd }] } = s.threads := by
        simp only [threads, thread, List.append_nil]
      refine h.frame rfl (holds_congr same rfl rfl fun _ => rfl) same rfl ?_ h.opened
        fun _ calling => ?_
      · exact h.main.congr rfl rfl (by rw [runs]; rfl)
      · cases calling
    | ended => exact h

/-! ## The client threads -/

theorem threads_goes {i : Nat} {thread : ClientThread} (here : s.clients[i]? = some thread)
    (stage : ClientStage) : (s.goes i thread stage).threads = s.threads.set i { thread with stage } := by
  have inside : i < s.clients.length := (List.getElem?_eq_some_iff.1 here).1
  simp only [threads, goes, List.set_append_left _ _ inside]

theorem threads_client {i : Nat} {thread : ClientThread} (here : s.clients[i]? = some thread) :
    s.threads[i]? = some thread := by
  have inside : i < s.clients.length := (List.getElem?_eq_some_iff.1 here).1
  rw [threads, List.getElem?_append_left inside, here]

/-- What a client thread acts on. -/
theorem Sound.own (h : s.Sound) {i : Nat} {thread : ClientThread} (here : s.clients[i]? = some thread)
    {fd : Int} (holds : thread.descriptor = some fd) : s.files fd = some (.connection i) := by
  rw [h.held, RestApiServer.holds, threads_client here]
  exact holds

/-- Where the thread of a connection stands. -/
theorem Sound.client (h : s.Sound) {i : Nat} {thread : ClientThread} (here : s.clients[i]? = some thread) :
    ∃ connection, s.connections[i]? = some connection ∧ thread.stage.At connection := by
  have stands := h.stands i
  rw [threads_client here] at stands
  cases found : s.connections[i]? with
  | none =>
    rw [found] at stands
    cases stands
  | some connection =>
    rw [found] at stands
    cases stands with
    | some stands => exact ⟨connection, rfl, stands⟩

/-- Both lists change at the place `i`. -/
theorem stands_set {i : Nat} {thread : ClientThread} {connection : Connection}
    (stands : ∀ k : Nat, Option.Rel (fun thread : ClientThread => thread.stage.At) s.threads[k]?
      s.connections[k]?) (at_ : thread.stage.At connection) (k : Nat) :
    Option.Rel (fun thread : ClientThread => thread.stage.At) (s.threads.set i thread)[k]?
      (s.connections.set i connection)[k]? := by
  have stands := stands k
  rw [List.getElem?_set, List.getElem?_set]
  by_cases same : i = k
  · rw [if_pos same, if_pos same, same]
    cases here : s.threads[k]? with
    | none =>
      rw [here] at stands
      cases there : s.connections[k]? with
      | none =>
        rw [List.getElem?_eq_none_iff] at here there
        rw [if_neg (by omega), if_neg (by omega)]
        exact .none
      | some _ =>
        rw [there] at stands
        cases stands
    | some _ =>
      rw [here] at stands
      cases there : s.connections[k]? with
      | none =>
        rw [there] at stands
        cases stands
      | some _ =>
        rw [if_pos (List.getElem?_eq_some_iff.1 here).1, if_pos (List.getElem?_eq_some_iff.1 there).1]
        exact .some at_
  · rw [if_neg same, if_neg same]
    exact stands

/-- A call on the connection that a descriptor stands for. -/
theorem onConnection_own {fd : Int} {i : Nat} (own : s.files fd = some (.connection i)) {connection : Connection}
    (there : s.connections[i]? = some connection) (f : Connection → Connection) :
    s.onConnection fd f = { s with connections := s.connections.set i (f connection) } := by
  have changed : s.connections.modify i f = s.connections.set i (f connection) := by
    apply List.ext_getElem?
    intro k
    have inside := (List.getElem?_eq_some_iff.1 there).1
    rw [List.getElem?_modify, List.getElem?_set]
    by_cases same : i = k
    · subst same
      rw [if_pos rfl, if_pos inside, there]
      simp
    · simp [same]
  simp only [onConnection, own, changed]

/-- A client thread goes on. -/
theorem Sound.goes (h : s.Sound) {i : Nat} {thread : ClientThread} (here : s.clients[i]? = some thread)
    {stage : ClientStage} {connection : Connection} {files : Int → Option Socket} (at_ : stage.At connection)
    (held : Exclusive files
      (Function.update s.holds (.connection i) (ClientThread.descriptor { thread with stage })))
    (calling : s.files s.serverFd = none → files s.serverFd = none)
    (valid : ∀ fd socket, files fd = some socket → 0 ≤ fd) :
    RestApiServer.Sound (RestApiServer.goes
      { s with connections := s.connections.set i connection, files } i thread stage) := by
  have threads := threads_goes (s := { s with connections := s.connections.set i connection, files }) here stage
  have inside := (List.getElem?_eq_some_iff.1 (threads_client here)).1
  refine ⟨?_, ?_, h.main, h.opened, fun joining waits => calling (h.calling joining waits), valid⟩
  · rw [holds_thread (s := s) inside threads rfl rfl rfl]
    exact held
  · rw [threads]
    exact stands_set h.stands at_

/-- A client thread goes on with its connection open. -/
theorem Sound.goesOn (h : s.Sound) {i : Nat} {thread : ClientThread} (here : s.clients[i]? = some thread)
    {fd : Int} (holds : thread.descriptor = some fd) {stage : ClientStage}
    (open_ : ClientThread.descriptor { thread with stage } = some fd) {connection : Connection}
    (at_ : stage.At connection) :
    RestApiServer.Sound
      (RestApiServer.goes { s with connections := s.connections.set i connection } i thread stage) := by
  refine h.goes here at_ ?_ id h.valid
  have holder : s.holds (.connection i) = some fd := (h.held _ _).1 (h.own here holds)
  rw [open_, ← holder, Function.update_eq_self]
  exact h.held

/-- A client thread closes its connection. -/
theorem Sound.ends (h : s.Sound) {i : Nat} {thread : ClientThread} (here : s.clients[i]? = some thread)
    {fd : Int} (holds : thread.descriptor = some fd) {connection : Connection}
    (at_ : ClientStage.ended.At connection) :
    RestApiServer.Sound
      (RestApiServer.goes
        { s with
          connections := s.connections.set i connection
          files := Function.update s.files fd none } i thread .ended) := by
  refine h.goes here at_ (h.held.release ((h.held _ _).1 (h.own here holds))) (fun closed => ?_)
    (valid_update h.valid (.inl rfl))
  by_cases same : s.serverFd = fd
  · rw [same, Function.update_self]
  · rw [Function.update_of_ne same, closed]

theorem Sound.clientStep (h : s.Sound) {i : Nat} {thread : ClientThread}
    (here : s.clients[i]? = some thread) (arrived : Bytes) (env : ServerEnv) (taken : Nat) :
    (s.clientStep i thread arrived env taken).Sound ∧
      ((s.clientStep i thread arrived env taken).connections = s.connections ∨
        ∃ connection connection', s.connections[i]? = some connection ∧ Exchange connection connection' ∧
          (s.clientStep i thread arrived env taken).connections = s.connections.set i connection') := by
  obtain ⟨connection, there, at_⟩ := h.client here
  obtain ⟨clientFd, stage⟩ := thread
  have own : ∀ {fd}, ClientThread.descriptor ⟨clientFd, stage⟩ = some fd → s.files fd = some (.connection i) :=
    h.own here
  rw [RestApiServer.clientStep.eq_def]
  cases at_ with
  | receiving =>
    have received : s.received clientFd arrived = arrived.take 4095 := by rw [received, own rfl]
    have size : (arrived.take 4095).length ≤ 4095 := List.length_take_le _ _
    dsimp only
    rw [received, onConnection_own (own rfl) there]
    refine ⟨?_, .inr ⟨_, _, there, .receive size, rfl⟩⟩
    split
    · rename_i nothing
      refine h.goesOn here rfl rfl ?_
      rw [nothing]
      exact .closing (by rw [Answered, if_pos rfl])
    · rename_i something
      exact h.goesOn here rfl rfl (.routing something)
  | @routing buffer nonempty =>
    obtain ⟨request, parsed, _⟩ := parseRequest_ok buffer
    dsimp only
    rw [parsed]
    refine ⟨?_, .inl rfl⟩
    have sound := h.goesOn here rfl rfl (.sending env nonempty parsed)
    obtain ⟨inside, same⟩ := List.getElem?_eq_some_iff.1 there
    rw [← same, List.set_getElem_self inside] at sound
    exact sound
  | @sending buffer request env' nonempty parsed =>
    have answered : Answered buffer [sendResponse taken (routeRequest env' request).1] := by
      rw [Answered, if_neg nonempty]
      exact ⟨request, env', taken, parsed, rfl⟩
    dsimp only
    rw [onConnection_own (own rfl) there]
    exact ⟨h.goesOn here rfl rfl (.closing answered), .inr ⟨_, _, there, .answer nonempty answered, rfl⟩⟩
  | closing answered =>
    dsimp only
    rw [close, onConnection_own (own rfl) there]
    exact ⟨h.ends here rfl (.ended answered), .inr ⟨_, _, there, .close answered, rfl⟩⟩
  | ended answered => exact ⟨h, .inl rfl⟩

end RestApiServer

end ModelRuntime
