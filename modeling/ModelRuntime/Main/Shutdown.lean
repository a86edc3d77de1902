import ModelRuntime.Main.Process

/-!
# Shutdown

From the signal to the end of the process. `main` waits for two threads, the accept loop and the worker of the
engine: it ends within a number of rounds in which both get on, and not before an `accept` that it waits for has
returned (`main_returns`). The client threads it does not wait for: what their handlers find of the engine is decided
by when they read `ready_` (`requests_served`).
-/

namespace ModelRuntime
open Cpp Lib

namespace MainProcess

variable {withCuda : Bool} {world : World} {config : EngineConfig} {p : MainProcess}

/-! ## The requests that find the engine stopped -/

/-- `main` has cleared `ready_`, or has returned without having had clients. -/
def Cleared (p : MainProcess) : Prop :=
  match p.point with
  | .engineStop stage => stage ≠ .clearing
  | .serverEnd _ | .engineEnd .. | .backendEnd _ | .ended _ => True
  | _ => False

instance (p : MainProcess) : Decidable p.Cleared := by
  unfold Cleared
  split <;> infer_instance

/-- The handler of the client thread reads `ready_` in the step. -/
def Asks (p : MainProcess) (i : Nat) : Event → Prop
  | .asks j | .client j .. => j = i ∧ p.isOver = false ∧ p.handles i = true ∧ p.asked i = none
  | _ => False

theorem Asks.handles {i : Nat} {event : Event} (asks : p.Asks i event) :
    p.isOver = false ∧ p.handles i = true ∧ p.asked i = none := by
  cases event with
  | asks | client => exact asks.2
  | main | signal | worker | server => exact asks.elim

theorem Quiet.idle {i : Nat} (quiet : Quiet p.server) : p.handles i = false := by
  rw [MainProcess.handles, quiet.clients]
  rfl

theorem Up.ready {engine : EngineProcess} (up : Up withCuda world config engine) : engine.ready = true :=
  up.steady.ready.trans up.running

/-- What `ready_` is while a handler is at work. -/
theorem Sound.ready (h : Sound withCuda world config p) (alive : p.isOver = false) {i : Nat}
    (works : p.handles i = true) : if p.Cleared then p.engine.ready = false
      else p.engine.ready = true ∧ (p.engine.config.modelPath ≠ [] → p.engine.llama.backend.modelLoaded = true) := by
  have point := h.point
  rw [AtPoint.eq_def] at point
  have noQuiet : ¬ Quiet p.server := by
    intro quiet
    rw [quiet.idle] at works
    cases works
  have serves : Up withCuda world config p.engine →
      p.engine.ready = true ∧ (p.engine.config.modelPath ≠ [] → p.engine.llama.backend.modelLoaded = true) :=
    fun up => ⟨up.ready, up.steady.loaded up.running⟩
  cases stage : p.point with
  | engineStart | serverStart =>
    rw [stage] at point
    exact absurd point.2.1 noQuiet
  | loop | serverStop =>
    rw [stage] at point
    rw [if_neg (by rw [Cleared, stage]; exact id)]
    exact serves point.1
  | engineStop stopStage =>
    rw [stage] at point
    cases stopStage with
    | clearing =>
      rw [if_neg (by rw [Cleared, stage]; exact fun other => other rfl)]
      exact serves point.1
    | joining | unloading =>
      rw [if_pos (by rw [Cleared, stage]; decide)]
      obtain ⟨⟨up, _, same⟩, _⟩ := point
      rw [same]
      rfl
  | serverEnd code | engineEnd code =>
    rw [stage] at point
    rw [if_pos (by rw [Cleared, stage]; trivial)]
    obtain ⟨_, _, ⟨quiet, _⟩ | ⟨_, down⟩⟩ := point
    · exact absurd quiet noQuiet
    · exact down.ready
  | backendEnd code | ended code =>
    rw [stage] at point
    rw [if_pos (by rw [Cleared, stage]; trivial)]
    exact point.2.2.ready
  | terminated =>
    rw [isOver, stage, Bool.or_true] at alive
    cases alive

/-- What `main` does to the rest of the process. -/
theorem mainStep_frame : (p.mainStep withCuda world).running = p.running ∧
    (p.mainStep withCuda world).asked = p.asked ∧ (p.mainStep withCuda world).workerEnded = p.workerEnded := by
  have stopFrame : ∀ stage inside next, (p.inEngineStop withCuda stage inside next).running = p.running ∧
      (p.inEngineStop withCuda stage inside next).asked = p.asked ∧
      (p.inEngineStop withCuda stage inside next).workerEnded = p.workerEnded := by
    intro stage inside next
    cases stage with
    | unloading => exact ⟨rfl, rfl, rfl⟩
    | clearing | joining =>
      rw [inEngineStop]
      split <;> exact ⟨rfl, rfl, rfl⟩
  rw [MainProcess.mainStep.eq_def]
  split
  · split <;> exact ⟨rfl, rfl, rfl⟩
  · exact ⟨rfl, rfl, rfl⟩
  · split <;> exact ⟨rfl, rfl, rfl⟩
  · exact ⟨rfl, rfl, rfl⟩
  · exact stopFrame _ _ _
  · exact ⟨rfl, rfl, rfl⟩
  · exact stopFrame _ _ _
  all_goals exact ⟨rfl, rfl, rfl⟩

/-- The steps that a `stop` of the engine still has, those of the worker among them. -/
def stopRank (p : MainProcess) : StopStage → Nat
  | .clearing => 4
  | .joining => if p.workerEnded then 2 else 3
  | .unloading => 1

/-- The steps of `main` and of the threads it waits for, from where it stands. -/
def stepsLeft (p : MainProcess) : Nat :=
  match p.point with
  | .engineStart => 26
  | .serverStart => 20 + startRank p.server.main
  | .loop => 20
  | .serverStop => 10 + closingRank p.server
  | .engineStop stage => 6 + p.stopRank stage
  | .serverEnd _ => 6
  | .engineEnd _ stage => 1 + p.stopRank stage
  | .backendEnd _ => 1
  | .ended _ | .terminated => 0

/-- The same until the process ends. -/
def rank (p : MainProcess) : Nat := if p.isOver then 0 else p.stepsLeft

/-- `main` waits for the accept loop. -/
def WaitsAccept (p : MainProcess) : Prop :=
  p.point = .serverStop ∧ p.server.main = .joining ∧ p.server.serverThread ≠ some .ended

/-- `main` waits for the worker. -/
def WaitsWorker (p : MainProcess) : Prop :=
  (p.point = .engineStop .joining ∨ ∃ code, p.point = .engineEnd code .joining) ∧
    p.engine.joinable = true ∧ p.workerEnded = false

/-- The step of the thread that `main` is at, or waits for. -/
def Helps (p : MainProcess) (event : Event) : Prop :=
  p.isOver = false ∧
    match event with
    | .main => ¬ p.WaitsAccept ∧ ¬ p.WaitsWorker
    | .server .. => p.WaitsAccept
    | .worker => p.WaitsWorker
    | _ => False

/-- Once `running_` is false the accept loop comes to its end, or ends the process. -/
theorem acceptStep_rank {server : RestApiServer} (stopped : server.running = false) (fd : Int) (starts : Bool) :
    (server.serverThread ≠ some .ended → server.serverThread.isSome = true →
      (server.acceptStep fd starts).terminated = false →
      acceptRank (server.acceptStep fd starts).serverThread < acceptRank server.serverThread) ∧
    (server.serverThread = some .ended → server.acceptStep fd starts = server) ∧
    acceptRank (server.acceptStep fd starts).serverThread ≤ acceptRank server.serverThread := by
  rw [RestApiServer.acceptStep.eq_def]
  cases thread : server.serverThread with
  | none => exact ⟨fun _ some => (by cases some), fun ended => (by cases ended), by rw [thread]⟩
  | some stage =>
    cases stage with
    | testing =>
      dsimp only
      rw [stopped]
      exact ⟨fun _ _ _ => (by decide), fun ended => (by cases ended), by decide⟩
    | calling =>
      dsimp only
      split
      · exact ⟨fun _ _ _ => Nat.lt_succ_self 3, fun ended => (by cases ended), Nat.le_succ 3⟩
      · exact ⟨fun _ _ _ => (show 1 < 4 by decide), fun ended => (by cases ended), show 1 ≤ 4 by decide⟩
    | waiting n =>
      dsimp only
      rw [RestApiServer.acceptReturns]
      split
      · exact ⟨fun _ _ _ => (show 1 < 3 by decide), fun ended => (by cases ended), show 1 ≤ 3 by decide⟩
      · exact ⟨fun _ _ _ => (show 2 < 3 by decide), fun ended => (by cases ended), show 2 ≤ 3 by decide⟩
    | returned clientFd =>
      cases starts with
      | true => exact ⟨fun _ _ _ => (show 1 < 2 by decide), fun ended => (by cases ended), show 1 ≤ 2 by decide⟩
      | false => exact ⟨fun _ _ alive => (by cases alive), fun ended => (by cases ended), by simp⟩
    | ended => exact ⟨fun other => absurd rfl other, fun _ => rfl, by rw [thread]⟩

theorem rank_alive (alive : p.isOver = false) : p.rank = p.stepsLeft := by
  rw [rank, alive, if_neg Bool.false_ne_true]

theorem rank_over (gone : p.isOver = true) : p.rank = 0 := by
  rw [rank, if_pos gone]

theorem stopRank_pos (p : MainProcess) (stage : StopStage) : 0 < p.stopRank stage := by
  cases stage with
  | joining =>
    rw [stopRank]
    split <;> decide
  | clearing => exact Nat.succ_pos 3
  | unloading => exact Nat.one_pos

/-- Where the rank is spent the process has ended. -/
theorem isOver_of_rank (zero : p.rank = 0) : p.isOver = true := by
  by_contra going
  rw [rank_alive (Bool.eq_false_iff.2 going), stepsLeft] at zero
  rw [isOver] at going
  split at zero <;> first | omega | simp_all

/-- A step of the `stop` of the engine gets on, except where it waits for the worker. -/
theorem inEngineStop_rank {stage : StopStage} (stopping : Stopping withCuda world config p.engine stage)
    (inside : StopStage → MainPoint) (next : MainPoint) {p' : MainProcess}
    (stops : Stops withCuda world config p inside next stage p') :
    p' = p ∧ stage = .joining ∧ p.engine.joinable = true ∧ p.workerEnded = false ∨
      (∃ stage', p'.point = inside stage' ∧ p'.stopRank stage' < p.stopRank stage) ∨ p'.point = next := by
  cases stops with
  | clears =>
    refine .inr (.inl ⟨.joining, rfl, ?_⟩)
    simp only [stopRank]
    split <;> decide
  | waits joinable working => exact .inl ⟨rfl, rfl, joinable, working⟩
  | joins =>
    refine .inr (.inl ⟨.unloading, rfl, ?_⟩)
    simp only [stopRank]
    split <;> decide
  | unloads => exact .inr (.inr rfl)

theorem step_over (ended : p.isOver = true) (event : Event) : p.step withCuda world event = p := by
  rw [MainProcess.step.eq_def, if_pos ended]

theorem step_main (alive : p.isOver = false) : p.step withCuda world .main = p.mainStep withCuda world := by
  rw [MainProcess.step.eq_def, alive, if_neg Bool.false_ne_true]

theorem rank_pos (alive : p.isOver = false) : 0 < p.rank := by
  refine Nat.pos_of_ne_zero fun zero => ?_
  rw [isOver_of_rank zero] at alive
  cases alive

theorem Sound.engineStart_rank (h : Sound withCuda world config p) (alive : p.isOver = false)
    (stage : p.point = .engineStart) (going : (p.mainStep withCuda world).isOver = false) :
    (p.mainStep withCuda world).rank < p.rank := by
  have point := h.point
  rw [AtPoint.eq_def, stage] at point
  rw [rank_alive going, rank_alive alive, stepsLeft.eq_def p, stage, MainProcess.mainStep.eq_def, stage]
  dsimp only
  split
  · cases world.worker with
    | true =>
      show 20 + startRank p.server.main < 26
      rw [point.2.2.idle]
      decide
    | false => exact show 0 < 26 by decide
  · exact show 1 + 4 < 26 by decide
  · exact show 0 < 26 by decide

theorem Sound.serverStart_rank (h : Sound withCuda world config p) (alive : p.isOver = false)
    (stage : p.point = .serverStart) (going : (p.mainStep withCuda world).isOver = false) :
    (p.mainStep withCuda world).rank < p.rank := by
  have point := h.point
  rw [AtPoint.eq_def, stage] at point
  obtain ⟨up, quiet, opening⟩ := point
  have opens := (opening.step h.server (isOver_alive alive) quiet).2
  have safe := isOver_alive going
  rw [rank_alive going, rank_alive alive, stepsLeft.eq_def p, stage]
  rw [MainProcess.mainStep.eq_def, stage] at safe ⊢
  dsimp only [inServer] at safe ⊢
  cases opens with
  | goesOn inside fewer =>
    rw [if_neg inside, stage]
    exact Nat.add_lt_add_left fewer 20
  | succeeds last idle runs =>
    rw [if_pos idle, if_pos runs, last]
    exact show 20 < 20 + 1 by decide
  | fails closed =>
    rw [if_pos closed.idle, if_neg (by rw [closed.stopped]; simp)]
    exact show 6 < 20 + _ by omega
  | dies _ _ _ _ terminated =>
    rw [terminated] at safe
    cases safe

theorem Sound.serverStop_rank (h : Sound withCuda world config p) (alive : p.isOver = false)
    (stage : p.point = .serverStop) (going : (p.mainStep withCuda world).isOver = false)
    (goes : ¬ p.WaitsAccept) : (p.mainStep withCuda world).rank < p.rank := by
  have point := h.point
  rw [AtPoint.eq_def, stage] at point
  obtain ⟨up, listens, _, closing⟩ := point
  have closes := (closing.step h.server (isOver_alive alive) world.socket (world.goes p.server.main)).2
  rw [rank_alive going, rank_alive alive, stepsLeft.eq_def p, stage, MainProcess.mainStep.eq_def, stage]
  dsimp only [inServer]
  generalize p.server.step _ = server' at closes ⊢
  cases closes with
  | goesOn inside _ fewer =>
    rw [if_neg inside, stage]
    exact Nat.add_lt_add_left fewer 10
  | waits joins waits => exact absurd ⟨stage, joins, waits⟩ goes
  | ends positive closed =>
    rw [if_pos closed.idle]
    exact show 6 + 4 < 10 + _ by omega

theorem Sound.engineStop_rank (h : Sound withCuda world config p) (alive : p.isOver = false)
    {stopStage : StopStage} (stage : p.point = .engineStop stopStage)
    (going : (p.mainStep withCuda world).isOver = false) (goes : ¬ p.WaitsWorker) :
    (p.mainStep withCuda world).rank < p.rank := by
  have point := h.point
  rw [AtPoint.eq_def, stage] at point
  rw [rank_alive going, rank_alive alive, stepsLeft.eq_def p, stage, MainProcess.mainStep.eq_def, stage]
  dsimp only
  rcases inEngineStop_rank point.1 .engineStop (.serverEnd 0) (point.1.step .engineStop (.serverEnd 0)) with
    ⟨_, rfl, joinable, working⟩ | ⟨stage', at_, fewer⟩ | at_
  · exact absurd ⟨.inl stage, joinable, working⟩ goes
  · rw [stepsLeft, at_]
    exact Nat.add_lt_add_left fewer 6
  · rw [stepsLeft, at_]
    exact Nat.lt_add_of_pos_right (stopRank_pos p stopStage)

theorem Sound.engineEnd_rank (h : Sound withCuda world config p) (alive : p.isOver = false) {code : Int}
    {stopStage : StopStage} (stage : p.point = .engineEnd code stopStage)
    (going : (p.mainStep withCuda world).isOver = false) (goes : ¬ p.WaitsWorker) :
    (p.mainStep withCuda world).rank < p.rank := by
  have point := h.point
  rw [AtPoint.eq_def, stage] at point
  rw [rank_alive going, rank_alive alive, stepsLeft.eq_def p, stage, MainProcess.mainStep.eq_def, stage]
  dsimp only
  obtain ⟨_, _, ⟨_, stopping⟩ | ⟨rfl, down⟩⟩ := point
  · rcases inEngineStop_rank stopping (.engineEnd code) (.backendEnd code)
      (stopping.step (.engineEnd code) (.backendEnd code)) with
      ⟨_, rfl, joinable, working⟩ | ⟨stage', at_, fewer⟩ | at_
    · exact absurd ⟨.inr ⟨code, stage⟩, joinable, working⟩ goes
    · rw [stepsLeft, at_]
      exact Nat.add_lt_add_left fewer 1
    · rw [stepsLeft, at_]
      exact Nat.lt_add_of_pos_right (stopRank_pos p stopStage)
  · rw [down.inEngineStop]
    exact show 1 < 1 + 4 by decide

/-- `main` gets on, except where it waits for another thread. -/
theorem mainStep_rank (h : Sound withCuda world config p) (signalled : p.running = false) (alive : p.isOver = false)
    (goes : ¬ p.WaitsAccept ∧ ¬ p.WaitsWorker) : (p.mainStep withCuda world).rank < p.rank := by
  cases going : (p.mainStep withCuda world).isOver with
  | true =>
    rw [rank_over going]
    exact rank_pos alive
  | false =>
    cases stage : p.point with
    | engineStart => exact h.engineStart_rank alive stage going
    | serverStart => exact h.serverStart_rank alive stage going
    | serverStop => exact h.serverStop_rank alive stage going goes.1
    | engineStop => exact h.engineStop_rank alive stage going goes.2
    | engineEnd => exact h.engineEnd_rank alive stage going goes.2
    | loop =>
      have point := h.point
      rw [AtPoint.eq_def, stage] at point
      rw [rank_alive going, rank_alive alive, stepsLeft.eq_def p, stage, MainProcess.mainStep.eq_def, stage]
      dsimp only
      rw [signalled, if_neg (by simp)]
      show 10 + closingRank p.server < 20
      rw [closingRank, point.2.2.1, point.2.2.2]
      exact show 19 < 20 by decide
    | serverEnd code =>
      have point := h.point
      rw [AtPoint.eq_def, stage] at point
      rw [rank_alive going, rank_alive alive, stepsLeft.eq_def p, stage, MainProcess.mainStep.eq_def, stage]
      dsimp only [inServer]
      rw [point.1.step (isOver_alive alive), if_pos point.1.idle]
      exact show 1 + 4 < 6 by decide
    | backendEnd code =>
      rw [rank_alive going, rank_alive alive, stepsLeft.eq_def p, stage, MainProcess.mainStep.eq_def, stage]
      exact show 0 < 1 by decide
    | ended | terminated =>
      rw [isOver, stage, Bool.or_true] at alive
      cases alive

/-- `main` does nothing while it waits. -/
theorem Sound.waitsAccept (h : Sound withCuda world config p) (alive : p.isOver = false) (waits : p.WaitsAccept) :
    p.mainStep withCuda world = p := by
  obtain ⟨point, joins, waits⟩ := waits
  have agrees := h.server.main
  rw [RestApiServer.MainAgrees, joins] at agrees
  have same : p.server.step (.main .stop world.socket (world.goes p.server.main)) = p.server := by
    rw [RestApiServer.step.eq_def, isOver_alive alive, if_neg Bool.false_ne_true]
    dsimp only
    rw [RestApiServer.mainStep.eq_def, joins]
    dsimp only
    split
    · rename_i none
      rw [none] at agrees
      cases agrees.2
    · rename_i ended
      exact absurd ended waits
    · rfl
  rw [MainProcess.mainStep.eq_def, point]
  dsimp only [inServer]
  rw [same, if_neg (by rw [joins]; simp)]

theorem waitsWorker (waits : p.WaitsWorker) : p.mainStep withCuda world = p := by
  obtain ⟨point | ⟨code, point⟩, joinable, working⟩ := waits
  all_goals
    rw [MainProcess.mainStep.eq_def, point]
    dsimp only
    rw [inEngineStop, joinable, working]
    rfl

/-- What the step of another thread than `main` changes. -/
structure Elsewhere (p p' : MainProcess) : Prop where
  point : p'.point = p.point
  engine : p'.engine = p.engine
  running : p.running = false → p'.running = false
  aside : Aside p.server p'.server
  worker : p'.workerEnded = false → p.workerEnded = false
  ended : p.server.serverThread = some .ended → p'.server.serverThread = some .ended
  fewer : p.server.running = false → acceptRank p'.server.serverThread ≤ acceptRank p.server.serverThread

theorem client_thread (alive : p.isOver = false) (i : Nat) (arrived : Bytes) (env : ServerEnv)
    (taken : Nat) : (p.server.step (.client i arrived env taken)).serverThread = p.server.serverThread := by
  rw [RestApiServer.step.eq_def, isOver_alive alive, if_neg Bool.false_ne_true]
  dsimp only
  cases p.server.clients[i]? with
  | none => rfl
  | some thread => exact (RestApiServer.clientStep_frame p.server i thread arrived env taken).2.2

/-- What stage the accept loop is at is left alone by all but `main` and the accept loop. -/
theorem step_thread (alive : p.isOver = false) {event : Event} (main : event ≠ .main)
    (server : ∀ fd starts, event ≠ .server fd starts) :
    (p.step withCuda world event).server.serverThread = p.server.serverThread := by
  rw [MainProcess.step.eq_def, alive, if_neg Bool.false_ne_true]
  cases event with
  | main => exact absurd rfl main
  | server fd starts => exact absurd rfl (server fd starts)
  | signal => rfl
  | worker | asks =>
    dsimp only
    split <;> rfl
  | client i arrived env taken => exact client_thread alive i arrived _ taken

theorem Elsewhere.refl (p : MainProcess) : Elsewhere p p :=
  ⟨rfl, rfl, id, ⟨rfl, rfl, id⟩, id, id, fun _ => Nat.le_refl _⟩

theorem elsewhere (alive : p.isOver = false) {event : Event} (other : event ≠ .main) :
    Elsewhere p (p.step withCuda world event) := by
  rw [MainProcess.step.eq_def, alive, if_neg Bool.false_ne_true]
  cases event with
  | main => exact absurd rfl other
  | signal => exact ⟨rfl, rfl, fun _ => rfl, ⟨rfl, rfl, id⟩, id, id, fun _ => Nat.le_refl _⟩
  | worker =>
    dsimp only
    split
    · exact .refl p
    · exact ⟨rfl, rfl, id, ⟨rfl, rfl, id⟩, fun working => absurd working (by simp), id, fun _ => Nat.le_refl _⟩
  | asks i =>
    dsimp only
    split
    · exact ⟨rfl, rfl, id, ⟨rfl, rfl, id⟩, id, id, fun _ => Nat.le_refl _⟩
    · exact .refl p
  | server fd starts =>
    have made : p.server.step (.server fd starts) = p.server.acceptStep fd starts := by
      rw [RestApiServer.step.eq_def, isOver_alive alive, if_neg Bool.false_ne_true]
    refine ⟨rfl, rfl, id, .accept (isOver_alive alive) fd starts, id, fun ended => ?_, fun stopped => ?_⟩
    · dsimp only
      rw [made, RestApiServer.acceptStep.eq_def, ended]
      exact ended
    · dsimp only
      rw [made]
      exact (acceptStep_rank stopped fd starts).2.2
  | client i arrived env taken =>
    have thread := client_thread alive i arrived (engineEnv (p.reads i) env) taken
    exact ⟨rfl, rfl, id, .client (isOver_alive alive) i arrived _ taken, id, thread.trans,
      fun _ => Nat.le_of_eq (congrArg acceptRank thread)⟩

theorem Elsewhere.stopRank {p' : MainProcess} (e : Elsewhere p p') (stage : StopStage) :
    p'.stopRank stage ≤ p.stopRank stage := by
  cases stage with
  | joining =>
    rw [MainProcess.stopRank, MainProcess.stopRank]
    cases worked : p'.workerEnded with
    | true =>
      rw [if_pos rfl]
      split <;> omega
    | false => rw [e.worker worked]
  | clearing | unloading => exact Nat.le_refl _

theorem Elsewhere.rank {p' : MainProcess} (e : Elsewhere p p') (alive : p.isOver = false) : p'.rank ≤ p.rank := by
  by_cases gone : p'.isOver = true
  · rw [rank_over gone]
    exact Nat.zero_le _
  rw [rank_alive (Bool.eq_false_iff.2 gone), rank_alive alive, stepsLeft, stepsLeft, e.point, e.aside.main]
  cases p.point with
  | serverStop =>
    dsimp only
    rw [closingRank, closingRank, e.aside.main, e.aside.running]
    apply Nat.add_le_add_left
    apply Nat.add_le_add_left
    split
    · exact Nat.le_refl _
    · rename_i stopped
      exact e.fewer (by simpa using stopped)
  | engineStop stage => exact Nat.add_le_add_left (e.stopRank stage) 6
  | engineEnd code stage => exact Nat.add_le_add_left (e.stopRank stage) 1
  | _ => exact Nat.le_refl _

/-- The accept loop that `main` waits for gets on. -/
theorem Sound.accept_rank (h : Sound withCuda world config p) (alive : p.isOver = false) (waits : p.WaitsAccept)
    (fd : Int) (starts : Bool) : (p.step withCuda world (.server fd starts)).rank < p.rank := by
  by_cases gone : (p.step withCuda world (.server fd starts)).isOver = true
  · rw [rank_over gone]
    exact rank_pos alive
  have going := Bool.eq_false_iff.2 gone
  obtain ⟨point, joins, waits⟩ := waits
  have agrees := h.server.main
  rw [RestApiServer.MainAgrees, joins] at agrees
  have made : p.step withCuda world (.server fd starts) = { p with server := p.server.acceptStep fd starts } := by
    rw [MainProcess.step.eq_def, alive, if_neg Bool.false_ne_true]
    dsimp only
    rw [RestApiServer.step.eq_def, isOver_alive alive, if_neg Bool.false_ne_true]
  rw [made] at going ⊢
  have lower := (acceptStep_rank agrees.1 fd starts).1 waits agrees.2 (isOver_alive going)
  obtain ⟨main, running⟩ := acceptStep_frame p.server fd starts
  rw [rank_alive going, rank_alive alive, stepsLeft, stepsLeft, point]
  dsimp only
  rw [closingRank, closingRank, main, running, joins, agrees.1]
  exact Nat.add_lt_add_left (Nat.add_lt_add_left lower 1) 10

/-- The worker that `main` waits for ends. -/
theorem Sound.worker_rank (h : Sound withCuda world config p) (alive : p.isOver = false) (waits : p.WaitsWorker) :
    (p.step withCuda world .worker).rank < p.rank := by
  obtain ⟨point, _, working⟩ := waits
  have stopped : p.engine.running = false := by
    have at_ := h.point
    rw [AtPoint.eq_def] at at_
    rcases point with point | ⟨code, point⟩
    · rw [point] at at_
      obtain ⟨⟨up, _, same⟩, _⟩ := at_
      rw [same]
      rfl
    · rw [point] at at_
      obtain ⟨_, _, ⟨_, up, _, same⟩ | ⟨other, _⟩⟩ := at_
      · rw [same]
        rfl
      · cases other
  have made : p.step withCuda world .worker = { p with workerEnded := true } := by
    rw [MainProcess.step.eq_def, alive, if_neg Bool.false_ne_true]
    dsimp only
    rw [stopped, if_neg Bool.false_ne_true]
  have going : MainProcess.isOver { p with workerEnded := true } = false := alive
  rw [made, rank_alive going, rank_alive alive, stepsLeft, stepsLeft]
  rcases point with point | ⟨code, point⟩
  · rw [point]
    dsimp only
    rw [stopRank, stopRank, working]
    exact show 6 + 2 < 6 + 3 by decide
  · rw [point]
    dsimp only
    rw [stopRank, stopRank, working]
    exact show 1 + 2 < 1 + 3 by decide

/-! ## The end -/

/-- A process that has been signalled. -/
structure Signalled (withCuda : Bool) (world : World) (config : EngineConfig) (p : MainProcess) : Prop where
  sound : Sound withCuda world config p
  signalled : p.running = false

theorem Signalled.step (h : Signalled withCuda world config p) {event : Event} (closed : p.GivesClosed event) :
    Signalled withCuda world config (p.step withCuda world event) := by
  refine ⟨h.sound.step closed, ?_⟩
  cases alive : p.isOver with
  | true =>
    rw [step_over alive]
    exact h.signalled
  | false =>
    by_cases main : event = .main
    · rw [main, step_main alive]
      exact mainStep_frame.1.trans h.signalled
    · exact (elsewhere alive main).running h.signalled

/-- `main` and the threads it waits for go on being the ones that the end waits for. -/
theorem Elsewhere.waitsAccept {p' : MainProcess} (e : Elsewhere p p') : p'.WaitsAccept → p.WaitsAccept := by
  rintro ⟨point, joins, waits⟩
  exact ⟨e.point.symm.trans point, e.aside.main.symm.trans joins, fun ended => waits (e.ended ended)⟩

theorem Elsewhere.waitsWorker {p' : MainProcess} (e : Elsewhere p p') : p'.WaitsWorker → p.WaitsWorker := by
  rintro ⟨point, joinable, working⟩
  rw [e.point] at point
  exact ⟨point, e.engine ▸ joinable, e.worker working⟩

/-- `main` waits for the accept loop until that takes a step. -/
theorem Sound.still_waitsAccept (h : Sound withCuda world config p) (alive : p.isOver = false)
    (waits : p.WaitsAccept) {event : Event} (other : ∀ fd starts, event ≠ .server fd starts) :
    (p.step withCuda world event).WaitsAccept := by
  by_cases main : event = .main
  · rw [main, step_main alive, h.waitsAccept alive waits]
    exact waits
  · have frame : Elsewhere p (p.step withCuda world event) := elsewhere alive main
    obtain ⟨point, joins, waits⟩ := waits
    refine ⟨frame.point.trans point, frame.aside.main.trans joins, ?_⟩
    rw [step_thread alive main other]
    exact waits

/-- `main` waits for the worker until that takes a step. -/
theorem still_waitsWorker (alive : p.isOver = false) (waits : p.WaitsWorker) {event : Event}
    (other : event ≠ .worker) : (p.step withCuda world event).WaitsWorker := by
  by_cases main : event = .main
  · rw [main, step_main alive, MainProcess.waitsWorker waits]
    exact waits
  · have frame : Elsewhere p (p.step withCuda world event) := elsewhere alive main
    obtain ⟨point, joinable, working⟩ := waits
    refine ⟨by rwa [frame.point], by rwa [frame.engine], ?_⟩
    rw [MainProcess.step.eq_def, alive, if_neg Bool.false_ne_true]
    cases event with
    | worker => exact absurd rfl other
    | main => exact absurd rfl main
    | signal | server | client => exact working
    | asks i =>
      dsimp only
      split <;> exact working

theorem ranked : Ranked (MainProcess.step withCuda world) GivesClosed (Signalled withCuda world config)
    (fun p => p.isOver = true) Helps rank where
  keep := fun _ _ signalled closed => signalled.step closed
  done := fun p event ended => by rw [step_over ended]; exact ended
  zero := fun _ _ zero => isOver_of_rank zero
  le := by
    intro p event signalled closed
    cases alive : p.isOver with
    | true => rw [step_over alive]
    | false =>
      by_cases main : event = .main
      · rw [main, step_main alive]
        by_cases accept : p.WaitsAccept
        · rw [signalled.sound.waitsAccept alive accept]
        by_cases worker : p.WaitsWorker
        · rw [MainProcess.waitsWorker worker]
        · exact Nat.le_of_lt (mainStep_rank signalled.sound signalled.signalled alive ⟨accept, worker⟩)
      · exact (elsewhere alive main).rank alive
  lt := by
    rintro p event signalled closed ⟨alive, helps⟩
    cases event with
    | main =>
      rw [step_main alive]
      exact mainStep_rank signalled.sound signalled.signalled alive helps
    | server fd starts => exact signalled.sound.accept_rank alive helps fd starts
    | worker => exact signalled.sound.worker_rank alive helps
    | signal | asks | client => exact helps.elim
  stays := by
    rintro p event helper signalled closed ⟨alive, helps⟩
    have h := signalled.sound
    by_cases gone : (p.step withCuda world event).isOver = true
    · rw [rank_over gone]
      exact .inl (rank_pos alive)
    have going := Bool.eq_false_iff.2 gone
    cases helper with
    | main =>
      by_cases main : event = .main
      · rw [main, step_main alive]
        exact .inl (mainStep_rank h signalled.signalled alive helps)
      · have frame : Elsewhere p (p.step withCuda world event) := elsewhere alive main
        exact .inr ⟨going, fun waits => helps.1 (frame.waitsAccept waits),
          fun waits => helps.2 (frame.waitsWorker waits)⟩
    | server fd starts =>
      by_cases accept : ∃ fd starts, event = .server fd starts
      · obtain ⟨fd, starts, rfl⟩ := accept
        exact .inl (h.accept_rank alive helps fd starts)
      · exact .inr ⟨going, h.still_waitsAccept alive helps fun fd starts same => accept ⟨fd, starts, same⟩⟩
    | worker =>
      by_cases worker : event = .worker
      · rw [worker]
        exact .inl (h.worker_rank alive helps)
      · exact .inr ⟨going, still_waitsWorker alive helps worker⟩
    | signal | asks | client => exact helps.elim

theorem closingRank_le (server : RestApiServer) : closingRank server ≤ 9 := by
  have accept := acceptRank_le server.serverThread
  rw [closingRank]
  split <;> split <;> omega

theorem rank_le (p : MainProcess) : p.rank ≤ 26 := by
  have start : startRank p.server.main ≤ 5 := by cases p.server.main <;> decide
  have closing := closingRank_le p.server
  have stop : ∀ stage, p.stopRank stage ≤ 4 := by
    intro stage
    cases stage with
    | joining =>
      rw [stopRank]
      split <;> decide
    | clearing => exact Nat.le_refl 4
    | unloading => exact Nat.le_of_ble_eq_true rfl
  rw [rank]
  split
  · omega
  · rw [stepsLeft]
    split <;> first | omega | exact Nat.le_trans (Nat.add_le_add_left (stop _) _) (by decide)

/-! ## An `accept` that does not return -/

/-- The accept loop is in `accept`. -/
def InAccept (p : MainProcess) : Prop :=
  ∃ n, p.server.serverThread = some (.waiting n)

/-- While there is an accept loop that has not ended, `main` is in its own loop or in `stop`. -/
theorem Sound.inAccept_point (h : Sound withCuda world config p) (alive : p.isOver = false) (inside : p.InAccept) :
    p.point = .loop ∨ p.point = .serverStop := by
  obtain ⟨n, waiting⟩ := inside
  have point := h.point
  have noQuiet : ¬ Quiet p.server := by
    intro quiet
    rw [quiet.thread] at waiting
    cases waiting
  have noClosed : ¬ Closed p.server := by
    intro closed
    have agrees := h.server.main
    rw [RestApiServer.MainAgrees, closed.idle, closed.stopped, waiting] at agrees
    simp at agrees
  rw [AtPoint.eq_def] at point
  cases stage : p.point with
  | loop => exact .inl rfl
  | serverStop => exact .inr rfl
  | engineStart | serverStart =>
    rw [stage] at point
    exact absurd point.2.1 noQuiet
  | engineStop =>
    rw [stage] at point
    exact absurd point.2.2.2 noClosed
  | serverEnd | engineEnd | backendEnd =>
    rw [stage] at point
    exact absurd point.1 noClosed
  | ended | terminated =>
    rw [isOver, stage, Bool.or_true] at alive
    cases alive

theorem Sound.mainStep_inAccept (h : Sound withCuda world config p) (alive : p.isOver = false)
    (inside : p.InAccept) :
    (p.mainStep withCuda world).InAccept ∧ (p.mainStep withCuda world).isOver = false := by
  have point := h.point
  rw [AtPoint.eq_def] at point
  rw [MainProcess.mainStep.eq_def]
  rcases h.inAccept_point alive inside with stage | stage
  · rw [stage]
    dsimp only
    split
    · exact ⟨inside, alive⟩
    · refine ⟨inside, ?_⟩
      rw [isOver, isOver_alive alive]
      rfl
  · rw [stage] at point
    obtain ⟨_, _, _, closing⟩ := point
    rw [stage]
    have closes := (closing.step h.server (isOver_alive alive) world.socket (world.goes p.server.main)).2
    have going := h.server.terminated_iff (.main .stop world.socket (world.goes p.server.main))
    have safe : (p.server.step (.main .stop world.socket (world.goes p.server.main))).terminated = false := by
      rw [← Bool.not_eq_true, going, isOver_alive alive, RestApiServer.StartFails]
      rintro (gone | ⟨spawning, _⟩)
      · cases gone
      · rw [Closing, spawning] at closing
        exact closing
    dsimp only [inServer]
    generalize p.server.step _ = server' at closes safe ⊢
    obtain ⟨n, waiting⟩ := inside
    cases closes with
    | goesOn inside _ _ thread =>
      rw [if_neg inside, stage]
      refine ⟨⟨n, thread.trans waiting⟩, ?_⟩
      rw [isOver, safe]
      rfl
    | waits joins =>
      rw [if_neg (by rw [joins]; simp), stage]
      refine ⟨⟨n, waiting⟩, ?_⟩
      rw [isOver, safe]
      rfl
    | ends _ _ left => exact absurd waiting (left n)

/-- The process goes on as long as an `accept` does not return. -/
theorem Sound.still_inAccept (h : Sound withCuda world config p) (alive : p.isOver = false) (inside : p.InAccept)
    {event : Event} (other : ∀ fd starts, event ≠ .server fd starts) :
    (p.step withCuda world event).InAccept ∧ (p.step withCuda world event).isOver = false := by
  by_cases main : event = .main
  · rw [main, step_main alive]
    exact h.mainStep_inAccept alive inside
  · have frame : Elsewhere p (p.step withCuda world event) := elsewhere alive main
    obtain ⟨n, waiting⟩ := inside
    refine ⟨⟨n, (step_thread alive main other).trans waiting⟩, ?_⟩
    have safe : (p.step withCuda world event).server.terminated = p.server.terminated := by
      rw [MainProcess.step.eq_def, alive, if_neg Bool.false_ne_true]
      cases event with
      | main => exact absurd rfl main
      | server fd starts => exact absurd rfl (other fd starts)
      | signal => rfl
      | worker | asks =>
        dsimp only
        split <;> rfl
      | client i arrived env taken =>
        have going := h.server.terminated_iff (.client i arrived (engineEnv (p.reads i) env) taken)
        rw [RestApiServer.StartFails, or_false] at going
        exact Bool.eq_iff_iff.2 going
    rw [isOver, safe, frame.point]
    exact alive

/-- **The process ends** once it has been signalled, when the two threads that `main` waits for get on: after 26
rounds in which `main`, the accept loop and the worker take a step each, whatever the client threads do and in
whatever order. While an `accept` is pending that does not return it does not end. -/
theorem main_returns (front : List Event)
    (before : Along (MainProcess.step withCuda world) GivesClosed (MainProcess.init config) front)
    (signalled : (front.foldl (MainProcess.step withCuda world) (MainProcess.init config)).running = false) :
    let p := front.foldl (MainProcess.step withCuda world) (MainProcess.init config)
    (∀ rounds : List (List Event), Along (MainProcess.step withCuda world) GivesClosed p rounds.flatten →
      ThreadsStart world (front ++ rounds.flatten) → world.worker = true →
      (∀ x, (({} : Tokenizer).load world.engine.vocab).1 ≠ .error x) →
      (∀ round ∈ rounds, .main ∈ round ∧ .worker ∈ round ∧ ∃ fd, .server fd ∈ round) → 26 ≤ rounds.length →
      ∃ code, (rounds.flatten.foldl (MainProcess.step withCuda world) p).point = .ended code) ∧
    ∀ back : List Event, Along (MainProcess.step withCuda world) GivesClosed p back →
      p.isOver = false → p.InAccept → (∀ fd starts, .server fd starts ∉ back) →
      (back.foldl (MainProcess.step withCuda world) p).isOver = false := by
  intro p
  have sound := Sound.run front before
  constructor
  · intro rounds after threads worker reads fair enough
    have whole := (along_append front rounds.flatten _).2 ⟨before, after⟩
    generalize last : rounds.flatten.foldl (MainProcess.step withCuda world) p = q
    have ends : q.isOver = true := by
      rw [← last]
      refine ranked.rounds rounds (fun round mem s signalled going => ?_) _ ⟨sound, signalled⟩ after
        (Nat.le_trans (rank_le _) enough)
      obtain ⟨main, worker, fd, server⟩ := fair round mem
      have alive : s.isOver = false := by simpa using going
      by_cases accept : s.WaitsAccept
      · exact ⟨_, server, alive, accept⟩
      by_cases work : s.WaitsWorker
      · exact ⟨_, worker, alive, work⟩
      · exact ⟨_, main, alive, accept, work⟩
    have point := (Sound.run _ whole).point
    have safe := Sound.run_alive _ threads whole
    rw [List.foldl_append, show rounds.flatten.foldl _ (front.foldl _ _) = q from last] at point safe
    rw [isOver, safe, Bool.false_or] at ends
    rw [AtPoint.eq_def] at point
    split at ends
    · rename_i code stage
      exact ⟨code, stage⟩
    · rename_i stage
      rw [stage] at point
      obtain ⟨_, refused | ⟨_, x, throws⟩⟩ := point
      · rw [refused] at worker
        cases worker
      · exact absurd throws (reads x)
    · cases ends
  · intro back after alive inside quiet
    have keep : ∀ (q : MainProcess) event,
        (Sound withCuda world config q ∧ q.InAccept ∧ q.isOver = false) →
        (q.GivesClosed event ∧ ∀ fd starts, event ≠ .server fd starts) →
        Sound withCuda world config (q.step withCuda world event) ∧ (q.step withCuda world event).InAccept ∧
          (q.step withCuda world event).isOver = false :=
      fun q event h goes => ⟨h.1.step goes.1, h.1.still_inAccept h.2.2 h.2.1 goes.2⟩
    have all : Along (MainProcess.step withCuda world) (fun _ event => ∀ fd starts, event ≠ .server fd starts)
        p back :=
      along_of_mem back _ fun event mem _ fd starts same => quiet fd starts (same ▸ mem)
    exact (along_inv keep back _ ⟨sound, inside, alive⟩ ((along_and back _).2 ⟨after, all⟩)).2.2

/-! ## A run -/

/-- `main` starts, a client has sent a request, and the signal comes while the next `accept` is pending. -/
def lateFront : List Event :=
  List.replicate 7 .main ++ [.server (-1), .server (-1), .server 4, .server (-1), .server (-1), .server (-1)] ++
    [.client 0 RestApiServer.healthGet plainEnv 4096, .signal]

def lateRound : List Event := [.main, .worker, .server (-1)]

/-- The handler reads `ready_` before the engine is stopped and answers behind it. -/
def lateRounds : List (List Event) :=
  [lateRound ++ [.asks 0]] ++ List.replicate 12 lateRound ++
    [lateRound ++ [.client 0 [] plainEnv 4096, .client 0 [] plainEnv 4096]] ++ List.replicate 12 lateRound

theorem lateFront_closed : Along (MainProcess.step true {}) GivesClosed (MainProcess.init {}) lateFront := by
  decide +kernel

theorem lateRounds_closed :
    Along (MainProcess.step true {}) GivesClosed (lateFront.foldl (MainProcess.step true {}) (MainProcess.init {}))
      lateRounds.flatten := by
  decide +kernel

theorem late_closed : Along (MainProcess.step true {}) GivesClosed (MainProcess.init {})
    (lateFront ++ lateRounds.flatten) :=
  (along_append lateFront lateRounds.flatten _).2 ⟨lateFront_closed, lateRounds_closed⟩

/-- No `accept` returns. -/
def lateBack : List Event := List.replicate 40 .main ++ [.worker]

theorem lateBack_mem {event : Event} (mem : event ∈ lateBack) : event = .main ∨ event = .worker := by
  rw [lateBack, List.mem_append, List.mem_replicate, List.mem_singleton] at mem
  exact mem.imp_left And.right

theorem late_signalled :
    (lateFront.foldl (MainProcess.step true {}) (MainProcess.init {})).running = false := by
  decide +kernel

theorem late_inAccept :
    (lateFront.foldl (MainProcess.step true {}) (MainProcess.init {})).isOver = false ∧
      (lateFront.foldl (MainProcess.step true {}) (MainProcess.init {})).InAccept :=
  ⟨by decide +kernel, 0, by decide +kernel⟩

theorem late_threads : ThreadsStart {} (lateFront ++ lateRounds.flatten) := by
  refine ⟨rfl, fun fd refused => ?_⟩
  simp [lateFront, lateRounds, lateRound] at refused

theorem late_fair : ∀ round ∈ lateRounds, .main ∈ round ∧ .worker ∈ round ∧ ∃ fd, .server fd ∈ round := by
  intro round mem
  simp only [lateRounds, List.mem_append, List.mem_replicate, List.mem_singleton] at mem
  rcases mem with ((rfl | ⟨_, rfl⟩) | rfl) | ⟨_, rfl⟩
  all_goals exact ⟨by simp [lateRound], by simp [lateRound], -1, by simp [lateRound]⟩

theorem main_ends_late :
    let p := (lateFront ++ lateRounds.flatten).foldl (MainProcess.step true {}) (MainProcess.init {})
    let starts := (EngineProcess.init {}).Starts true ({} : World).engine
    (∀ code, p.point = .ended code → (code = 0 ∨ code = 1) ∧ (code = 0 ↔ starts ∧ ({} : World).Listens) ∧
      (code = 0 → p.running = false) ∧ GivenBack true {} {} p) ∧
    (p.point = .terminated → starts ∧ (({} : World).worker = false ∨
      ({} : EngineConfig).modelPath ≠ [] ∧ ∃ x, (({} : Tokenizer).load ({} : World).engine.vocab).1 = .error x)) ∧
    (p.server.terminated = true → ¬ ThreadsStart {} (lateFront ++ lateRounds.flatten)) :=
  main_ends _ late_closed

theorem main_returns_late :
    let p := lateFront.foldl (MainProcess.step true {}) (MainProcess.init {})
    (∃ code, (lateRounds.flatten.foldl (MainProcess.step true {}) p).point = .ended code) ∧
      (lateBack.foldl (MainProcess.step true {}) p).isOver = false := by
  intro p
  obtain ⟨ends, waits⟩ := main_returns lateFront lateFront_closed late_signalled
  refine ⟨ends lateRounds lateRounds_closed late_threads rfl (fun x throws => by cases throws) late_fair (by decide),
    waits lateBack (along_of_mem lateBack p fun event mem q => ?_) late_inAccept.1 late_inAccept.2 ?_⟩
  · rcases lateBack_mem mem with rfl | rfl
    all_goals exact trivial
  · intro fd starts mem
    cases lateBack_mem mem with
    | inl other | inr other => cases other

end MainProcess

end ModelRuntime
