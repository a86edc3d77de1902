import ModelRuntime.Server.Descriptors

/-!
# Serving, from the start to the stop

What the invariant of the descriptors gives for whole runs of the server: every step acts on the socket of
the thread that takes it and does to the connections what the exchanges allow (`server_refines`); once
everything has ended each connection has been served once and nothing is left open (`served_once`); a stop
lets one more connection in at most (`stop_accepts`); and the listening sockets are those that `server_fd_`
names exactly where `start` waits for the `stop` before it (`listeners_named_iff`).
-/

namespace ModelRuntime
open Cpp Lib

namespace RestApiServer

/-- The sockets that a step acts on are those of the thread that takes it. -/
def OnOwn (s : RestApiServer) : Event → Prop
  | .main .. => s.main = .binding ∨ s.main = .listening ∨ s.main = .shutting →
      s.files s.serverFd = some (.listener (s.listeners - 1))
  | .server .. => s.serverThread = some .calling → ∀ k, s.files s.serverFd ≠ some (.connection k)
  | .client i .. => ∀ thread fd, s.clients[i]? = some thread → thread.descriptor = some fd →
      s.files fd = some (.connection i)

/-- What a step does to the connections: one more is accepted, or the exchange on one goes on. -/
inductive Serves (connections : List Connection) : Event → List Connection → Prop where
  | none (event : Event) : Serves connections event connections
  | accept (fd : Int) (starts : Bool) : Serves connections (.server fd starts) (connections ++ [({} : Connection)])
  | exchange {i : Nat} {connection connection' : Connection} (arrived : Bytes) (env : ServerEnv) (taken : Nat)
      (there : connections[i]? = some connection) (exchange : Exchange connection connection') :
    Serves connections (.client i arrived env taken) (connections.set i connection')

/-- The kernel and the caller keep to what is asked of them. -/
def Proper (s : RestApiServer) (event : Event) : Prop := s.GivesClosed event ∧ s.StartsStopped event

instance (s : RestApiServer) (event : Event) : Decidable (s.Proper event) :=
  inferInstanceAs (Decidable (_ ∧ _))

variable {s : RestApiServer}

/-! ## A step -/

theorem Sound.step (h : s.Sound) {event : Event} (proper : s.Proper event) : (s.step event).Sound := by
  obtain ⟨closed, stopped⟩ := proper
  rw [RestApiServer.step.eq_def]
  split
  · exact h
  · rename_i alive
    cases event with
    | main call fd ok => exact h.mainStep closed (stopped (by simpa using alive))
    | server fd starts => exact h.acceptStep closed
    | client i arrived env taken =>
      dsimp only
      split
      · exact h
      · rename_i thread here
        exact (h.clientStep here arrived env taken).1

theorem Sound.onOwn (h : s.Sound) (event : Event) : s.OnOwn event := by
  cases event with
  | main call fd ok =>
    intro stage
    refine h.listener ?_
    rw [listens]
    rcases stage with stage | stage | stage
    all_goals rw [stage]
  | server fd starts =>
    intro calling k open_
    by_cases on : s.listens = true
    · rw [h.listener on] at open_
      cases open_
    · have agrees := h.main
      have joining : s.main = .joining := by
        rw [MainAgrees, calling] at agrees
        rw [listens] at on
        revert agrees on
        cases s.main <;> simp_all
      rw [h.calling joining calling] at open_
      cases open_
  | client i arrived env taken => exact fun _ _ here holds => h.own here holds

theorem close_connections (h : s.Sound) (on : s.listens = true) :
    (s.close s.serverFd).connections = s.connections := by
  rw [close_listener (h.listener on)]

/-- The main thread does nothing to the connections. -/
theorem Sound.main_connections (h : s.Sound) (call : Call) (fd : Int) (ok : Bool) :
    (s.mainStep call fd ok).connections = s.connections := by
  rw [RestApiServer.mainStep.eq_def]
  cases stage : s.main with
  | idle =>
    cases call with
    | start =>
      dsimp only
      rw [RestApiServer.start]
      split <;> rfl
    | stop =>
      dsimp only
      split <;> rfl
  | binding =>
    dsimp only
    split
    · exact close_connections h (by rw [listens, stage])
    · rfl
  | listening =>
    dsimp only
    split
    · exact close_connections h (by rw [listens, stage])
    · rfl
  | shutting =>
    dsimp only
    split
    · exact close_connections h (by rw [listens, stage])
    · rfl
  | spawning =>
    dsimp only
    split <;> rfl
  | joining =>
    dsimp only
    split <;> rfl
  | _ => rfl

/-- The accept loop adds one connection or none. -/
theorem acceptStep_connections (s : RestApiServer) (fd : Int) (starts : Bool) :
    (s.acceptStep fd starts).connections = s.connections ∨
      (s.acceptStep fd starts).connections = s.connections ++ [({} : Connection)] := by
  rw [RestApiServer.acceptStep.eq_def]
  split
  · exact .inl rfl
  · split <;> exact .inl rfl
  · rw [acceptReturns]
    split
    · exact .inl rfl
    · exact .inr rfl
  · split <;> exact .inl rfl
  · exact .inl rfl

theorem Sound.serves (h : s.Sound) (event : Event) : Serves s.connections event (s.step event).connections := by
  rw [RestApiServer.step.eq_def]
  split
  · exact .none _
  · cases event with
    | main call fd ok =>
      dsimp only
      rw [h.main_connections]
      exact .none _
    | server fd starts =>
      dsimp only
      rcases acceptStep_connections s fd starts with same | more
      · rw [same]
        exact .none _
      · rw [more]
        exact .accept fd starts
    | client i arrived env taken =>
      dsimp only
      split
      · exact .none _
      · rename_i thread here
        rcases (h.clientStep here arrived env taken).2 with same | ⟨connection, connection', there, goes, set⟩
        · rw [same]
          exact .none _
        · rw [set]
          exact .exchange arrived env taken there goes

/-! ## Threads that cannot be started -/

/-- A thread cannot be started: the accept loop's, or that of a client. -/
def StartFails (s : RestApiServer) : Event → Prop
  | .main _ _ ok => s.main = .spawning ∧ ok = false
  | .server _ starts => (∃ clientFd, s.serverThread = some (.returned clientFd)) ∧ starts = false
  | .client .. => False

theorem onConnection_eq (s : RestApiServer) (fd : Int) (f : Connection → Connection) :
    s.onConnection fd f = { s with connections := (s.onConnection fd f).connections } := by
  rw [onConnection]
  split
  · rfl
  · rfl

/-- A client thread lets no exception out. -/
theorem clientStep_terminated (i : Nat) (thread : ClientThread) (arrived : Bytes) (env : ServerEnv) (taken : Nat) :
    (s.clientStep i thread arrived env taken).terminated = s.terminated := by
  rw [RestApiServer.clientStep.eq_def]
  split
  · dsimp only
    rw [onConnection_eq]
    rfl
  · rename_i buffer _
    obtain ⟨request, parsed, _⟩ := parseRequest_ok buffer
    rw [parsed]
    rfl
  · rw [onConnection_eq]
    rfl
  · rw [close, onConnection_eq]
    rfl
  · rfl

theorem mainStep_terminated (call : Call) (fd : Int) (ok : Bool) : (s.mainStep call fd ok).terminated =
    (s.terminated || (decide (s.main = .spawning) && (!ok || s.serverThread.isSome))) := by
  rw [RestApiServer.mainStep.eq_def]
  cases stage : s.main with
  | spawning =>
    dsimp only
    split
    · rename_i fails
      simp [fails]
    · rename_i fails
      simp [fails]
  | idle =>
    cases call with
    | start =>
      dsimp only
      rw [RestApiServer.start]
      split <;> simp
    | stop =>
      dsimp only
      split <;> simp
  | binding | listening | shutting =>
    dsimp only
    split
    all_goals first | (rw [close, onConnection_eq]; simp) | simp
  | joining =>
    dsimp only
    split <;> simp
  | setting | clearing => simp

theorem acceptStep_terminated (fd : Int) (starts : Bool) : (s.acceptStep fd starts).terminated = true ↔
    s.terminated = true ∨ s.StartFails (.server fd starts) := by
  rw [RestApiServer.acceptStep.eq_def, StartFails]
  cases thread : s.serverThread with
  | none => simp
  | some stage =>
    cases stage with
    | returned clientFd => cases starts <;> simp
    | calling =>
      dsimp only
      split <;> simp
    | waiting n =>
      dsimp only
      rw [acceptReturns]
      split <;> simp
    | testing | ended => simp

/-- An exception leaves a thread only where another one cannot be started. -/
theorem Sound.terminated_iff (h : s.Sound) (event : Event) :
    (s.step event).terminated = true ↔ s.terminated = true ∨ s.StartFails event := by
  rw [RestApiServer.step.eq_def]
  split
  · rename_i gone
    exact iff_of_true gone (.inl gone)
  · cases event with
    | main call fd ok =>
      have free : s.main = .spawning → s.serverThread.isSome = false := by
        intro stage
        have agrees := h.main
        rw [MainAgrees, stage] at agrees
        exact agrees.2
      dsimp only
      rw [mainStep_terminated, StartFails, Bool.or_eq_true, Bool.and_eq_true, decide_eq_true_iff]
      refine or_congr_right (and_congr_right fun stage => ?_)
      rw [free stage, Bool.or_false, Bool.not_eq_true']
    | server fd starts => exact acceptStep_terminated fd starts
    | client i arrived env taken =>
      dsimp only
      rw [StartFails, or_false]
      split
      · exact Iff.rfl
      · rw [clientStep_terminated]

/-! ## Whole runs -/

theorem Sound.run (h : s.Sound) (schedule : List Event)
    (proper : Along RestApiServer.step Proper s schedule) : (schedule.foldl RestApiServer.step s).Sound :=
  along_inv (fun _ _ sound proper => sound.step proper) schedule s h proper

/-- **The threads do not disturb each other.** Whatever the order of their steps and whichever closed
descriptors the kernel gives out again, a step acts on no other socket than its thread's, and the
connections change as by independent exchanges; an exception leaves a thread exactly where it cannot start
another. -/
theorem server_refines (schedule : List Event) (proper : Along step Proper {} schedule) :
    Along step (fun s event => s.OnOwn event ∧ Serves s.connections event (s.step event).connections ∧
      ((s.step event).terminated = true ↔ s.terminated = true ∨ s.StartFails event)) {} schedule := by
  refine along_imp (fun s event (sound : s.Sound) (proper : s.Proper event) => ?_)
    (fun _ _ sound proper => sound.step proper) schedule _ sound_initial proper
  exact ⟨sound.onOwn event, sound.serves event, sound.terminated_iff event⟩

/-- The connection has been received from, answered where there was something to answer, and closed. -/
def Served (connection : Connection) : Prop :=
  ∃ buffer sent, connection = { received := some buffer, sent, closes := 1 } ∧ Answered buffer sent

/-- The descriptors that are open belong to the main thread and to client threads that have not ended. -/
theorem Sound.files_none (h : s.Sound) (off : s.listens = false)
    (ended : ∀ thread ∈ s.threads, thread.descriptor = none) (fd : Int) : s.files fd = none := by
  refine h.held.closed fun socket holder => ?_
  cases socket with
  | listener n =>
    rw [holds, off, if_neg (by simp)] at holder
    cases holder
  | connection k =>
    rw [holds, Option.bind_eq_some_iff] at holder
    obtain ⟨thread, here, open_⟩ := holder
    rw [ended thread (List.mem_of_getElem? here)] at open_
    cases open_

theorem Sound.served (h : s.Sound) (ended : ∀ thread ∈ s.threads, thread.descriptor = none)
    {connection : Connection} (mem : connection ∈ s.connections) : Served connection := by
  obtain ⟨k, there⟩ := List.mem_iff_getElem?.1 mem
  have stands := h.stands k
  rw [there] at stands
  cases here : s.threads[k]? with
  | none =>
    rw [here] at stands
    cases stands
  | some thread =>
    rw [here] at stands
    obtain ⟨clientFd, stage⟩ := thread
    have done := ended _ (List.mem_of_getElem? here)
    cases stands with
    | some at_ =>
      dsimp only at at_
      cases at_ with
      | ended answered => exact ⟨_, _, rfl, answered⟩
      | _ => cases done

/-- **Every connection is served once and nothing is left open**: when the server has been stopped and the
client threads have closed what they were given, each connection that was accepted has had its thread, was
received from, answered if that brought anything, and closed, each once, and no descriptor is open. -/
theorem served_once (schedule : List Event) (proper : Along step Proper {} schedule)
    (idle : (schedule.foldl step {}).main = .idle) (stopped : (schedule.foldl step {}).running = false)
    (ended : ∀ thread ∈ (schedule.foldl step {}).clients, thread.descriptor = none) :
    (schedule.foldl step {}).clients.length = (schedule.foldl step {}).connections.length ∧
      (∀ connection ∈ (schedule.foldl step {}).connections, Served connection) ∧
      ∀ fd, (schedule.foldl step {}).files fd = none := by
  have sound := sound_initial.run schedule proper
  generalize schedule.foldl step {} = s at *
  have agrees := sound.main
  rw [MainAgrees, idle, stopped] at agrees
  have threads : s.threads = s.clients := by
    rw [RestApiServer.threads]
    cases thread : s.serverThread with
    | none => exact List.append_nil _
    | some _ =>
      rw [thread] at agrees
      cases agrees
  have off : s.listens = false := by rw [listens, idle, stopped]
  rw [← threads] at ended ⊢
  exact ⟨sound.count, fun _ mem => sound.served ended mem, sound.files_none off ended⟩

/-- A client asks for the health of the server. -/
def healthGet : Bytes := str "GET /health HTTP/1.1\r\n\r\n"

/-- The main thread goes on. -/
def Event.on : Event := .main .stop (-1) true

/-- The accept loop takes in a connection, from its test on. -/
def acceptRun (fd : Int) : List Event := [.server (-1), .server (-1), .server fd, .server (-1)]

/-- A client thread from its beginning to its end. -/
def clientRun (i : Nat) (arrived : Bytes) : List Event := List.replicate 4 (.client i arrived plainEnv 4096)

/-- Two clients, the second with the descriptor of the first, and the stop. -/
def healthRun : List Event :=
  .main .start 3 true :: List.replicate 4 .on ++ (acceptRun 4 ++ clientRun 0 healthGet ++
    (acceptRun 4 ++ clientRun 1 [] ++ (List.replicate 3 .on ++ [.server (-1), .on])))

theorem healthRun_proper : Along step Proper {} healthRun := by
  decide +kernel

theorem server_refines_health :
    Along step (fun s event => s.OnOwn event ∧ Serves s.connections event (s.step event).connections ∧
      ((s.step event).terminated = true ↔ s.terminated = true ∨ s.StartFails event)) {} healthRun :=
  server_refines healthRun healthRun_proper

theorem served_once_health :
    (healthRun.foldl step {}).clients.length = (healthRun.foldl step {}).connections.length ∧
      (∀ connection ∈ (healthRun.foldl step {}).connections, Served connection) ∧
      ∀ fd, (healthRun.foldl step {}).files fd = none :=
  served_once healthRun healthRun_proper (by decide +kernel) (by decide +kernel) (by decide +kernel)

/-! ## The stop -/

/-- `running_` is false and `start` is not on its way. -/
def Stopping (s : RestApiServer) : Prop :=
  s.running = false ∧ (s.main = .idle ∨ s.main = .shutting ∨ s.main = .joining)

/-- The connections that may still come in: one, when the accept loop is past its test of `running_`. -/
def coming (s : RestApiServer) : Nat :=
  match s.serverThread with
  | some .calling | some (.waiting _) => 1
  | _ => 0

/-- A client thread leaves the other threads alone. -/
theorem clientStep_frame (s : RestApiServer) (i : Nat) (thread : ClientThread) (arrived : Bytes)
    (env : ServerEnv) (taken : Nat) :
    (s.clientStep i thread arrived env taken).running = s.running ∧
      (s.clientStep i thread arrived env taken).main = s.main ∧
      (s.clientStep i thread arrived env taken).serverThread = s.serverThread := by
  rw [RestApiServer.clientStep.eq_def]
  split
  · dsimp only
    rw [onConnection_eq]
    exact ⟨rfl, rfl, rfl⟩
  · split
    · exact ⟨rfl, rfl, rfl⟩
    · exact ⟨rfl, rfl, rfl⟩
  · rw [onConnection_eq]
    exact ⟨rfl, rfl, rfl⟩
  · rw [close, onConnection_eq]
    exact ⟨rfl, rfl, rfl⟩
  · exact ⟨rfl, rfl, rfl⟩

theorem Serves.length {connections connections' : List Connection} {i : Nat} {arrived : Bytes}
    {env : ServerEnv} {taken : Nat} (h : Serves connections (.client i arrived env taken) connections') :
    connections'.length = connections.length := by
  cases h with
  | none => rfl
  | exchange => exact List.length_set

/-- A stopping server is stopped further by the main thread. -/
theorem Stopping.main (h : s.Stopping) (sound : s.Sound) {call : Call} {fd : Int} {ok : Bool}
    (never : s.StartsNever (.main call fd ok)) :
    (s.mainStep call fd ok).Stopping ∧ (s.mainStep call fd ok).coming ≤ s.coming := by
  obtain ⟨stopped, stage | stage | stage⟩ := h
  · cases call with
    | start => exact absurd rfl (never stage)
    | stop =>
      have same : s.mainStep .stop fd ok = s := by
        simp only [mainStep, stage, stopped]
        rfl
      rw [same]
      exact ⟨⟨stopped, .inl stage⟩, le_refl _⟩
  · have on : s.listens = true := by rw [listens, stage]
    have closed := close_listener (sound.listener on)
    simp only [mainStep, stage, if_pos (sound.valid _ _ (sound.listener on)), closed]
    exact ⟨⟨stopped, .inr (.inr rfl)⟩, le_refl _⟩
  · simp only [mainStep, stage]
    split
    · exact ⟨⟨stopped, .inl rfl⟩, le_refl _⟩
    · exact ⟨⟨stopped, .inl rfl⟩, Nat.zero_le _⟩
    · exact ⟨⟨stopped, .inr (.inr stage)⟩, le_refl _⟩

theorem Stopping.accept (h : s.Stopping) (fd : Int) (starts : Bool) :
    (s.acceptStep fd starts).Stopping ∧
      (s.acceptStep fd starts).connections.length + (s.acceptStep fd starts).coming ≤
        s.connections.length + s.coming := by
  rw [acceptStep.eq_def]
  cases thread : s.serverThread with
  | none => exact ⟨h, le_refl _⟩
  | some stage =>
    cases stage with
    | testing =>
      have notRuns : ¬ s.running = true := by
        rw [h.1]
        decide
      dsimp only
      rw [if_neg notRuns]
      exact ⟨⟨h.1, h.2⟩, Nat.le_add_right _ _⟩
    | calling =>
      have one : s.coming = 1 := by rw [coming, thread]
      dsimp only
      split
      · exact ⟨⟨h.1, h.2⟩, by rw [one]; exact le_refl _⟩
      · exact ⟨⟨h.1, h.2⟩, Nat.le_add_right _ _⟩
    | waiting n =>
      have one : s.coming = 1 := by rw [coming, thread]
      dsimp only
      rw [acceptReturns]
      split
      · exact ⟨⟨h.1, h.2⟩, Nat.le_add_right _ _⟩
      · refine ⟨⟨h.1, h.2⟩, ?_⟩
        rw [one]
        simp [coming]
    | returned clientFd =>
      dsimp only
      split
      · exact ⟨⟨h.1, h.2⟩, Nat.le_add_right _ _⟩
      · exact ⟨⟨h.1, h.2⟩, Nat.le_add_right _ _⟩
    | ended => exact ⟨h, le_refl _⟩

theorem Stopping.step (h : s.Stopping) (sound : s.Sound) {event : Event} (never : s.StartsNever event) :
    (s.step event).Stopping ∧
      (s.step event).connections.length + (s.step event).coming ≤ s.connections.length + s.coming := by
  have serves := sound.serves event
  revert serves
  rw [RestApiServer.step.eq_def]
  split
  · exact fun _ => ⟨h, le_refl _⟩
  intro serves
  cases event with
  | main call fd ok =>
    obtain ⟨stopping, fewer⟩ := h.main sound never
    refine ⟨stopping, ?_⟩
    dsimp only
    rw [sound.main_connections]
    omega
  | server fd starts => exact h.accept fd starts
  | client i arrived env taken =>
    have same := serves.length
    revert same
    dsimp only
    cases s.clients[i]? with
    | none => exact fun _ => ⟨h, le_refl _⟩
    | some thread =>
      intro same
      obtain ⟨running, main, serverThread⟩ := clientStep_frame s i thread arrived env taken
      refine ⟨?_, ?_⟩
      · rw [Stopping, running, main]
        exact h
      · rw [same, coming, coming, serverThread]

/-- A stopping server that will have taken in no more than `bound` connections. -/
structure Admits (bound : Nat) (s : RestApiServer) : Prop where
  sound : s.Sound
  stopping : s.Stopping
  fewer : s.connections.length + s.coming ≤ bound

theorem Admits.step {bound : Nat} (h : s.Admits bound) {event : Event}
    (steps : s.Proper event ∧ s.StartsNever event) : (s.step event).Admits bound := by
  obtain ⟨stopping, fewer⟩ := h.stopping.step h.sound steps.2
  exact ⟨h.sound.step steps.1, stopping, fewer.trans h.fewer⟩

/-- **A stop lets one more connection in at most**, however long the accept loop and the client threads go
on after `running_` is false. -/
theorem stop_accepts (front back : List Event) (proper : Along step Proper {} (front ++ back))
    (shutting : (front.foldl step {}).main = .shutting)
    (never : Along step StartsNever (front.foldl step {}) back) :
    ((front ++ back).foldl step {}).connections.length ≤ (front.foldl step {}).connections.length + 1 := by
  obtain ⟨before, after⟩ := (along_append front back _).1 proper
  have sound := sound_initial.run front before
  rw [List.foldl_append]
  generalize front.foldl step {} = s at *
  have agrees := sound.main
  rw [MainAgrees, shutting] at agrees
  have one : s.coming ≤ 1 := by
    rw [coming]
    split <;> omega
  have begins : s.Admits (s.connections.length + 1) :=
    ⟨sound, ⟨agrees.1, .inr (.inl shutting)⟩, by omega⟩
  have steps : Along step (fun s event => s.Proper event ∧ s.StartsNever event) s back :=
    (along_and back s).2 ⟨after, never⟩
  have ends := along_inv (fun (s' : RestApiServer) event (admits : s'.Admits _)
    (steps : s'.Proper event ∧ s'.StartsNever event) => admits.step steps) back s begins steps
  exact (Nat.le_add_right _ _).trans ends.fewer

/-- A client comes in while the server stops. -/
theorem stop_accepts_late :
    let front := .main .start 3 true :: List.replicate 4 .on ++ [.server (-1), .server (-1)] ++
      List.replicate 2 .on
    let back := [.on, .server 4, .server (-1), .server (-1), .on] ++ clientRun 0 healthGet
    ((front ++ back).foldl step {}).connections.length ≤ (front.foldl step {}).connections.length + 1 :=
  stop_accepts _ _ (by decide +kernel) (by decide +kernel) (by decide +kernel)

/-! ## A start while the server runs -/

/-- The listening sockets that are open have the descriptor `server_fd_`. -/
def ListenersNamed (s : RestApiServer) : Prop :=
  ∀ fd n, s.files fd = some (.listener n) → fd = s.serverFd

theorem Sound.named (h : s.Sound) : s.ListenersNamed := by
  intro fd n open_
  rw [h.held, holds] at open_
  split at open_
  · exact (Option.some.inj open_).symm
  · cases open_

/-- The listening socket of a server that is started again is left without a name. -/
theorem Sound.restart (h : s.Sound) {event : Event} (closed : s.GivesClosed event)
    (restarts : ¬ s.StartsStopped event) : ¬ (s.step event).ListenersNamed := by
  cases event with
  | server fd starts => exact absurd trivial restarts
  | client i arrived env taken => exact absurd trivial restarts
  | main call fd ok =>
    simp only [StartsStopped, not_forall] at restarts
    obtain ⟨alive, idle, rfl, runs⟩ := restarts
    have on : s.listens = true := by
      rw [listens, idle]
      simpa using runs
    have old := h.listener on
    have given := h.valid _ _ old
    intro named
    have started : s.step (.main .start fd ok) = s.start fd := by
      rw [RestApiServer.step.eq_def, alive, if_neg Bool.false_ne_true]
      dsimp only
      rw [RestApiServer.mainStep.eq_def, idle]
    rw [started, RestApiServer.start] at named
    split at named
    · have same : s.serverFd = fd := named _ _ old
      omega
    · have new := closed idle rfl (by omega)
      have other : s.serverFd ≠ fd := by
        intro same
        rw [same, new] at old
        cases old
      exact other (named _ _ ((Function.update_of_ne other _ _).trans old))

/-- **When `start` may be called**: every listening socket that is open is the one that `server_fd_` names,
so that `stop` closes it, exactly where the server never runs when `start` is called. -/
theorem listeners_named_iff (schedule : List Event) (closed : Along step GivesClosed {} schedule) :
    (∀ front back, schedule = front ++ back → (front.foldl step {}).ListenersNamed) ↔
      Along step StartsStopped {} schedule := by
  have step_iff : Along step (fun s event => s.GivesClosed event ∧ (s.step event).ListenersNamed) {} schedule ↔
      Along step Proper {} schedule := by
    refine along_iff (fun s event (sound : s.Sound) => ?_) (fun _ _ sound proper => sound.step proper) schedule _
      sound_initial
    constructor
    · rintro ⟨closed, named⟩
      refine ⟨closed, ?_⟩
      by_contra restarts
      exact sound.restart closed restarts named
    · intro proper
      exact ⟨proper.1, (sound.step proper).named⟩
  rw [reached_iff]
  constructor
  · rintro ⟨_, named⟩
    exact ((along_and schedule _).1 (step_iff.1 ((along_and schedule _).2 ⟨closed, named⟩))).2
  · intro stopped
    refine ⟨sound_initial.named, ?_⟩
    exact ((along_and schedule _).1 (step_iff.2 ((along_and schedule _).2 ⟨closed, stopped⟩))).2

theorem listeners_named_iff_health :
    (∀ front back, healthRun = front ++ back → (front.foldl step {}).ListenersNamed) ↔
      Along step StartsStopped {} healthRun :=
  listeners_named_iff healthRun (by decide +kernel)

end RestApiServer

end ModelRuntime
