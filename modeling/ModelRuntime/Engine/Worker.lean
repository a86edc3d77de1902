import ModelRuntime.Engine.Task
import ModelRuntime.Lib.Run

/-!
# The worker thread and the task queue

`worker_loop` beside `InferenceEngine::stop`, one shared read or write a step. The loop leaves the queue
alone once `running_` is false, wherever it stands, and `generate` throws once `ready_` is false: so
`stop` drains the queue only where it finds it drained. What nothing in a run changes is stated by
`Account`: the tasks that are done, at work and queued are the tasks there were, in their order.
-/

namespace ModelRuntime
open Cpp Lib

variable {M C L σ : Type} (api : LlamaCpp M C L) (sampleToken : Sampler L) (connected : Bool)

/-- Where the worker stands. -/
inductive WorkerPhase (σ : Type) where
  /-- At `while (running_)`. -/
  | test
  /-- In the scope of the lock, at or behind `wait_for`. -/
  | waiting
  /-- Before the test of `ready_` with which `generate` and `generate_stream` begin. -/
  | popped (task : InferenceTask σ)
  /-- Behind it. -/
  | processing (task : InferenceTask σ)
  | exited
  /-- An exception has left `process_task`, and with it the thread. -/
  | crashed (x : StdException)

/-- The task the worker has taken. -/
def WorkerPhase.inFlight : WorkerPhase σ → List (InferenceTask σ)
  | .popped task | .processing task => [task]
  | _ => []

/-- Where `stop` stands. -/
inductive StopPhase where
  | guard
  | clearRunning
  | clearReady
  | join
  | returned
  deriving DecidableEq

/-- `ready_` is a field of the engine. -/
structure WorkerRun (M C σ : Type) where
  serving : TaskContext M C σ
  running : Bool := true
  queue : List (InferenceTask σ)
  phase : WorkerPhase σ := .test
  stop : StopPhase := .guard
  processed : List (InferenceTask σ) := []

inductive WorkerAction where
  | worker
  | stop

namespace WorkerRun

variable (s : WorkerRun M C σ)

/-- A step of the worker. `wait_for` may give up at any time, so that the worker can always go on. -/
def workerStep : WorkerRun M C σ :=
  match s.phase with
  | .test => { s with phase := if s.running then .waiting else .exited }
  | .waiting =>
    match s.queue with
    | [] => { s with phase := if s.running then .test else .exited }
    | task :: queue => { s with queue, phase := .popped task }
  | .popped task =>
    if s.serving.engine.ready then { s with phase := .processing task }
    else
      match processTask api sampleToken connected task s.serving with
      | (.ok _, serving) => { s with serving, phase := .test, processed := s.processed ++ [task] }
      | (.error x, serving) => { s with serving, phase := .crashed x }
  | .processing task =>
    -- the test of `ready_` was passed before
    match processTask api sampleToken connected task (s.serving.setReady true) with
    | (.ok _, serving) =>
      { s with
        serving := serving.setReady s.serving.engine.ready
        phase := .test
        processed := s.processed ++ [task] }
    | (.error x, serving) =>
      { s with serving := serving.setReady s.serving.engine.ready, phase := .crashed x }
  | .exited | .crashed _ => s

/-- A step of `stop`. Behind the join it unloads what the worker no longer uses. -/
def stopStep : WorkerRun M C σ :=
  match s.stop with
  | .guard => { s with stop := if s.running then .clearRunning else .returned }
  | .clearRunning => { s with running := false, stop := .clearReady }
  | .clearReady => { s with serving := s.serving.setReady false, stop := .join }
  | .join =>
    match s.phase with
    | .exited => { s with stop := .returned }
    | _ => s
  | .returned => s

def step (a : WorkerAction) : WorkerRun M C σ :=
  match a with
  | .worker => s.workerStep api sampleToken connected
  | .stop => s.stopStep

/-- When `stop` is called: the worker stands anywhere in its loop. -/
structure Called (tasks : List (InferenceTask σ)) : Prop where
  running : s.running = true
  ready : s.serving.engine.ready = true
  stop : s.stop = .guard
  alive : s.phase ≠ .exited ∧ ∀ x, s.phase ≠ .crashed x
  fresh : s.processed = []
  tasks : s.phase.inFlight ++ s.queue = tasks

/-- The queue is drained: no exception has left `process_task`, the tasks are processed once and in their
order, and all of them before the worker exits. -/
structure Drains (tasks : List (InferenceTask σ)) : Prop where
  alive : ∀ x, s.phase ≠ .crashed x
  fifo : s.processed ++ s.phase.inFlight ++ s.queue = tasks
  drained : s.phase = .exited → s.processed = tasks

/-- The worker has ended, one way or the other. -/
def Ended : Prop := s.phase = .exited ∨ ∃ x, s.phase = .crashed x

/-- `running_` is cleared with nothing queued, or one task that the worker is about to pop; `ready_` with
nothing queued and no task that has still to find it set; and the callback of the task at work does not
throw. -/
def Harmless (a : WorkerAction) : Prop :=
  match a with
  | .stop =>
    (s.stop = .clearRunning → s.queue = [] ∨ s.phase = .waiting ∧ s.queue.length = 1) ∧
      (s.stop = .clearReady → s.queue = [] ∧ ∀ task, s.phase ≠ .popped task)
  | .worker => ∀ task, s.phase = .processing task → task.CallbackReturns api s.serving

/-- The state after some steps of the two threads. -/
def run (actions : List WorkerAction) : WorkerRun M C σ :=
  actions.foldl (WorkerRun.step api sampleToken connected) s

/-- Every step of the run is harmless. -/
def HarmlessRun (actions : List WorkerAction) : Prop :=
  Along (WorkerRun.step api sampleToken connected) (Harmless api) s actions

/-- What holds while every step is harmless. -/
structure Account (tasks : List (InferenceTask σ)) : Prop where
  alive : ∀ x, s.phase ≠ .crashed x
  fifo : s.processed ++ s.phase.inFlight ++ s.queue = tasks
  stopped : s.running = false → s.queue = [] ∨ s.phase = .waiting ∧ s.queue.length = 1
  unready : s.serving.engine.ready = false → s.queue = [] ∧ ∀ task, s.phase ≠ .popped task
  exited : s.phase = .exited → s.queue = []
  order : s.stop = .clearReady → s.running = false

section Steps

variable {api sampleToken connected} {s : WorkerRun M C σ} {task : InferenceTask σ} {queue : List (InferenceTask σ)}

theorem workerStep_test (phase : s.phase = .test) : s.workerStep api sampleToken connected =
    { s with phase := if s.running then .waiting else .exited } := by
  unfold workerStep
  rw [phase]

theorem workerStep_idle (phase : s.phase = .waiting) (empty : s.queue = []) :
    s.workerStep api sampleToken connected = { s with phase := if s.running then .test else .exited } := by
  unfold workerStep
  rw [phase]
  dsimp only
  rw [empty]

theorem workerStep_pop (phase : s.phase = .waiting) (front : s.queue = task :: queue) :
    s.workerStep api sampleToken connected = { s with queue, phase := .popped task } := by
  unfold workerStep
  rw [phase]
  dsimp only
  rw [front]

theorem workerStep_ready (phase : s.phase = .popped task) (ready : s.serving.engine.ready = true) :
    s.workerStep api sampleToken connected = { s with phase := .processing task } := by
  unfold workerStep
  rw [phase]
  dsimp only
  rw [if_pos ready]

/-- A task that finds the engine not ready takes the thread with it. -/
theorem workerStep_notReady (phase : s.phase = .popped task) (notReady : s.serving.engine.ready = false) :
    ∃ x, (s.workerStep api sampleToken connected).phase = .crashed x := by
  unfold workerStep
  rw [phase]
  dsimp only
  have thrown : (processTask api sampleToken connected task s.serving).1 = _ :=
    processTask_notReady api sampleToken connected notReady
  rw [if_neg (by rw [notReady]; exact Bool.false_ne_true)]
  split
  · rename_i made
    rw [made] at thrown
    cases thrown
  · exact ⟨_, rfl⟩

theorem workerStep_done (phase : s.phase = .processing task)
    (done : (processTask api sampleToken connected task (s.serving.setReady true)).1 = .ok ()) :
    ∃ serving : TaskContext M C σ, serving.engine.ready = s.serving.engine.ready ∧
      s.workerStep api sampleToken connected =
        { s with serving, phase := .test, processed := s.processed ++ [task] } := by
  unfold workerStep
  rw [phase]
  dsimp only
  split
  · exact ⟨_, TaskContext.setReady_ready _ _, rfl⟩
  · rename_i made
    rw [made] at done
    cases done

theorem workerStep_thrown (phase : s.phase = .processing task)
    (thrown : (processTask api sampleToken connected task (s.serving.setReady true)).1 ≠ .ok ()) :
    ∃ x, (s.workerStep api sampleToken connected).phase = .crashed x := by
  unfold workerStep
  rw [phase]
  dsimp only
  split
  · rename_i made
    rw [made] at thrown
    exact absurd rfl thrown
  · exact ⟨_, rfl⟩

theorem stopStep_join (stop : s.stop = .join) : s.stopStep = s ∨ s.stopStep = { s with stop := .returned } := by
  unfold stopStep
  rw [stop]
  dsimp only
  split
  · exact .inr rfl
  · exact .inl rfl

theorem workerStep_ended (ended : s.Ended) : s.workerStep api sampleToken connected = s := by
  unfold workerStep
  rcases ended with exited | ⟨x, crashed⟩
  · rw [exited]
  · rw [crashed]

end Steps

section Account

variable {api sampleToken connected} {s : WorkerRun M C σ} {tasks : List (InferenceTask σ)}
  {vocab : M → Bytes → Int → Bool → List Int}

theorem Called.account (called : s.Called tasks) : s.Account tasks where
  alive := called.alive.2
  fifo := by
    rw [called.fresh]
    exact called.tasks
  stopped stopped := by
    rw [called.running] at stopped
    cases stopped
  unready unready := by
    rw [called.ready] at unready
    cases unready
  exited exited := absurd exited called.alive.1
  order order := by
    rw [called.stop] at order
    cases order

theorem Account.drains (h : s.Account tasks) : s.Drains tasks where
  alive := h.alive
  fifo := h.fifo
  drained exited := by
    have fifo := h.fifo
    rw [exited, h.exited exited, List.append_nil] at fifo
    unfold WorkerPhase.inFlight at fifo
    rwa [List.append_nil] at fifo

/-- Once `running_` is cleared, a worker that is not about to pop has nothing left to pop. -/
theorem Account.nothingQueued (h : s.Account tasks) (stopped : s.running = false) (other : s.phase ≠ .waiting) :
    s.queue = [] :=
  (h.stopped stopped).resolve_right fun waiting => other waiting.1

/-- Only the phase changes, and not the task at work. -/
theorem Account.move (h : s.Account tasks) {phase : WorkerPhase σ} (alive : ∀ x, phase ≠ .crashed x)
    (flight : phase.inFlight = s.phase.inFlight)
    (stopped : s.running = false → s.queue = [] ∨ phase = .waiting ∧ s.queue.length = 1)
    (unready : s.serving.engine.ready = false → ∀ task, phase ≠ .popped task)
    (exited : phase = .exited → s.queue = []) : ({ s with phase } : WorkerRun M C σ).Account tasks where
  alive := alive
  fifo := by
    rw [← h.fifo, ← flight]
  stopped := stopped
  unready notReady := ⟨(h.unready notReady).1, unready notReady⟩
  exited := exited
  order := h.order

theorem Account.workerStep (contract : TokenizeContract api vocab) (h : s.Account tasks)
    (harmless : s.Harmless api .worker) :
    (s.workerStep api sampleToken connected).Account tasks := by
  have fifo := h.fifo
  cases phase : s.phase with
  | test =>
    rw [workerStep_test phase]
    by_cases running : s.running = true
    · rw [if_pos running]
      apply h.move
      · simp
      · rw [phase]
        rfl
      · simp [running]
      · simp
      · simp
    · have empty := h.nothingQueued (Bool.eq_false_of_not_eq_true running) (by simp [phase])
      rw [if_neg running]
      apply h.move
      · simp
      · rw [phase]
        rfl
      · exact fun _ => .inl empty
      · simp
      · exact fun _ => empty
  | waiting =>
    cases queue : s.queue with
    | nil =>
      rw [workerStep_idle phase queue]
      apply h.move
      · intro x
        split <;> simp
      · rw [phase]
        split <;> rfl
      · exact fun _ => .inl queue
      · intro _ task
        split <;> simp
      · exact fun _ => queue
    | cons task rest =>
      rw [workerStep_pop phase queue]
      rw [phase, queue] at fifo
      refine ⟨by simp, by simpa [WorkerPhase.inFlight] using fifo, ?_, ?_, by simp, h.order⟩
      · intro stopped
        rcases h.stopped stopped with empty | ⟨_, single⟩
        · rw [queue] at empty
          cases empty
        · rw [queue, List.length_cons] at single
          have none : rest = [] := List.length_eq_zero_iff.1 (by omega)
          exact .inl none
      · intro unready
        have empty := (h.unready unready).1
        rw [queue] at empty
        cases empty
  | popped task =>
    have ready : s.serving.engine.ready = true := by
      by_contra notReady
      exact (h.unready (Bool.eq_false_of_not_eq_true notReady)).2 task phase
    rw [workerStep_ready phase ready]
    apply h.move
    · simp
    · rw [phase]
      rfl
    · exact fun stopped => .inl (h.nothingQueued stopped (by simp [phase]))
    · simp
    · simp
  | processing task =>
    obtain ⟨serving, same, done⟩ := workerStep_done phase
      ((processTask_returns sampleToken connected contract rfl).2 (harmless task phase))
    rw [done]
    rw [phase] at fifo
    refine ⟨by simp, by simpa [WorkerPhase.inFlight] using fifo, ?_, ?_, by simp, h.order⟩
    · exact fun stopped => .inl (h.nothingQueued stopped (by simp [phase]))
    · intro unready
      exact ⟨(h.unready (same.symm.trans unready)).1, by simp⟩
  | exited =>
    rw [workerStep_ended (.inl phase)]
    exact h
  | crashed x => exact absurd phase (h.alive x)

theorem Account.stopStep (h : s.Account tasks) (harmless : s.Harmless api .stop) :
    s.stopStep.Account tasks := by
  cases stop : s.stop with
  | guard =>
    unfold WorkerRun.stopStep
    rw [stop]
    refine ⟨h.alive, h.fifo, h.stopped, h.unready, h.exited, fun order => ?_⟩
    dsimp only at order
    split at order <;> cases order
  | clearRunning =>
    unfold WorkerRun.stopStep
    rw [stop]
    exact ⟨h.alive, h.fifo, fun _ => harmless.1 stop, h.unready, h.exited, fun _ => rfl⟩
  | clearReady =>
    unfold WorkerRun.stopStep
    rw [stop]
    refine ⟨h.alive, h.fifo, h.stopped, fun _ => harmless.2 stop, h.exited, fun order => ?_⟩
    cases order
  | join =>
    rcases stopStep_join stop with blocked | joined
    · rw [blocked]
      exact h
    · rw [joined]
      refine ⟨h.alive, h.fifo, h.stopped, h.unready, h.exited, fun order => ?_⟩
      cases order
  | returned =>
    unfold WorkerRun.stopStep
    rw [stop]
    exact h

theorem Account.step (contract : TokenizeContract api vocab) (h : s.Account tasks) {a : WorkerAction}
    (harmless : s.Harmless api a) : (s.step api sampleToken connected a).Account tasks := by
  cases a with
  | worker => exact h.workerStep contract harmless
  | stop => exact h.stopStep harmless

end Account

/-- Some task will not be processed: it is left in the queue, or is going to find the engine not ready. -/
inductive Doomed : WorkerRun M C σ → Prop where
  | crashed {s : WorkerRun M C σ} {x : StdException} (crashed : s.phase = .crashed x) : Doomed s
  | left {s : WorkerRun M C σ} (stopped : s.running = false) (some : s.queue ≠ [])
      (more : s.phase ≠ .waiting ∨ 2 ≤ s.queue.length) : Doomed s
  | refused {s : WorkerRun M C σ} {task : InferenceTask σ} (unready : s.serving.engine.ready = false)
      (popped : s.phase = .popped task) : Doomed s
  | late {s : WorkerRun M C σ} (stopped : s.running = false) (unready : s.serving.engine.ready = false)
      (waiting : s.phase = .waiting) (some : s.queue ≠ []) : Doomed s

section Doomed

variable {api sampleToken connected} {s : WorkerRun M C σ} {tasks : List (InferenceTask σ)}

theorem Doomed.not_drains (doomed : s.Doomed) (ended : s.Ended) : ¬ s.Drains tasks := by
  intro drains
  rcases ended with exited | ⟨x, crashed⟩
  · have fifo := drains.fifo
    rw [drains.drained exited, List.append_assoc, List.append_right_eq_self, List.append_eq_nil_iff] at fifo
    cases doomed with
    | crashed crashed =>
      rw [exited] at crashed
      cases crashed
    | left _ some _ => exact some fifo.2
    | refused _ popped =>
      rw [exited] at popped
      cases popped
    | late _ _ waiting _ =>
      rw [exited] at waiting
      cases waiting
  · exact drains.alive x crashed

theorem Doomed.workerStep (doomed : s.Doomed) : (s.workerStep api sampleToken connected).Doomed := by
  cases doomed with
  | crashed crashed =>
    rw [workerStep_ended (.inr ⟨_, crashed⟩)]
    exact .crashed crashed
  | left stopped some more =>
    cases phase : s.phase with
    | test =>
      rw [workerStep_test phase, if_neg (by rw [stopped]; exact Bool.false_ne_true)]
      exact .left stopped some (.inl (by simp))
    | waiting =>
      -- the task behind the one that is popped is left
      have two : 2 ≤ s.queue.length := more.resolve_left fun other => other phase
      obtain ⟨task, rest, front⟩ := List.exists_cons_of_ne_nil some
      rw [workerStep_pop phase front]
      refine .left stopped ?_ (.inl (by simp))
      rintro rfl
      rw [front, List.length_singleton] at two
      omega
    | popped task =>
      by_cases ready : s.serving.engine.ready = true
      · rw [workerStep_ready phase ready]
        exact .left stopped some (.inl (by simp))
      · obtain ⟨x, crashed⟩ := @workerStep_notReady _ _ _ _ api sampleToken connected _ _ phase
          (Bool.eq_false_of_not_eq_true ready)
        exact .crashed crashed
    | processing task =>
      by_cases done : (processTask api sampleToken connected task (s.serving.setReady true)).1 = .ok ()
      · obtain ⟨serving, _, made⟩ := workerStep_done phase done
        rw [made]
        exact .left stopped some (.inl (by simp))
      · obtain ⟨x, crashed⟩ := workerStep_thrown phase done
        exact .crashed crashed
    | exited =>
      rw [workerStep_ended (.inl phase)]
      exact .left stopped some more
    | crashed x =>
      rw [workerStep_ended (.inr ⟨x, phase⟩)]
      exact .crashed phase
  | refused unready popped =>
    obtain ⟨x, crashed⟩ := @workerStep_notReady _ _ _ _ api sampleToken connected _ _ popped unready
    exact .crashed crashed
  | late stopped unready waiting some =>
    obtain ⟨task, rest, front⟩ := List.exists_cons_of_ne_nil some
    rw [workerStep_pop waiting front]
    exact .refused unready rfl

/-- `stop` only clears what is clear already. -/
theorem stopStep_clears (s : WorkerRun M C σ) : s.stopStep.phase = s.phase ∧ s.stopStep.queue = s.queue ∧
    (s.running = false → s.stopStep.running = false) ∧
      (s.serving.engine.ready = false → s.stopStep.serving.engine.ready = false) := by
  cases stop : s.stop with
  | join =>
    rcases stopStep_join stop with same | same
    · rw [same]
      exact ⟨rfl, rfl, id, id⟩
    · rw [same]
      exact ⟨rfl, rfl, id, id⟩
  | _ =>
    unfold WorkerRun.stopStep
    rw [stop]
    exact ⟨rfl, rfl, fun stopped => by first | exact stopped | rfl, fun unready => by first | exact unready | rfl⟩

theorem Doomed.stopStep (doomed : s.Doomed) : s.stopStep.Doomed := by
  obtain ⟨phase, queue, running, ready⟩ := stopStep_clears s
  cases doomed with
  | crashed crashed => exact .crashed (phase.trans crashed)
  | left stopped some more =>
    apply Doomed.left (running stopped)
    · rw [queue]
      exact some
    · rw [phase, queue]
      exact more
  | refused unready popped => exact .refused (ready unready) (phase.trans popped)
  | late stopped unready waiting some =>
    apply Doomed.late (running stopped) (ready unready) (phase.trans waiting)
    rw [queue]
    exact some

theorem Doomed.step (doomed : s.Doomed) (a : WorkerAction) : (s.step api sampleToken connected a).Doomed := by
  cases a with
  | worker => exact doomed.workerStep
  | stop => exact doomed.stopStep

/-- `running_` is cleared with tasks that the worker will not come to. -/
theorem doomed_clearRunning (stop : s.stop = .clearRunning)
    (harm : ¬ (s.queue = [] ∨ s.phase = .waiting ∧ s.queue.length = 1)) : s.stopStep.Doomed := by
  obtain ⟨phase, queue, -, -⟩ := stopStep_clears s
  have some : s.queue ≠ [] := fun empty => harm (.inl empty)
  have stopped : s.stopStep.running = false := by
    unfold WorkerRun.stopStep
    rw [stop]
  apply Doomed.left stopped
  · rw [queue]
    exact some
  · rw [phase, queue]
    by_cases waiting : s.phase = .waiting
    · right
      by_contra single
      have length := List.length_pos_of_ne_nil some
      exact harm (.inr ⟨waiting, by omega⟩)
    · exact .inl waiting

/-- `ready_` is cleared with a task that has still to find it set. -/
theorem Account.doomed_clearReady (h : s.Account tasks) (stop : s.stop = .clearReady)
    (harm : ¬ (s.queue = [] ∧ ∀ task, s.phase ≠ .popped task)) : s.stopStep.Doomed := by
  obtain ⟨phase, queue, running, -⟩ := stopStep_clears s
  have stopped := h.order stop
  have unready : s.stopStep.serving.engine.ready = false := by
    unfold WorkerRun.stopStep
    rw [stop]
    rfl
  by_cases empty : s.queue = []
  · have popped : ∃ task, s.phase = .popped task := by
      by_contra none
      exact harm ⟨empty, not_exists.1 none⟩
    obtain ⟨task, popped⟩ := popped
    exact .refused unready (phase.trans popped)
  · obtain ⟨waiting, _⟩ := (h.stopped stopped).resolve_left empty
    apply Doomed.late (running stopped) unready (phase.trans waiting)
    rw [queue]
    exact empty

/-- A step that is not harmless dooms a task. -/
theorem Account.doomed {vocab : M → Bytes → Int → Bool → List Int} (contract : TokenizeContract api vocab)
    (h : s.Account tasks) {a : WorkerAction} (harm : ¬ s.Harmless api a) :
    (s.step api sampleToken connected a).Doomed := by
  unfold Harmless at harm
  cases a with
  | worker =>
    obtain ⟨task, harm⟩ := not_forall.1 harm
    obtain ⟨phase, throws⟩ := Classical.not_imp.1 harm
    have ready : (s.serving.setReady true).engine.ready = true := rfl
    obtain ⟨x, crashed⟩ := workerStep_thrown phase fun returned =>
      throws ((processTask_returns sampleToken connected contract ready).1 returned)
    exact .crashed crashed
  | stop =>
    rcases not_and_or.1 harm with harm | harm
    · obtain ⟨stop, harm⟩ := Classical.not_imp.1 harm
      exact doomed_clearRunning stop harm
    · obtain ⟨stop, harm⟩ := Classical.not_imp.1 harm
      exact h.doomed_clearReady stop harm

end Doomed

/-- **Stopping drains the queue** in every run whose steps are harmless, and a run in which the worker has
ended has drained it only so. -/
theorem drains_iff {api : LlamaCpp M C L} {vocab : M → Bytes → Int → Bool → List Int}
    (contract : TokenizeContract api vocab) (sampleToken : Sampler L) (connected : Bool) {s : WorkerRun M C σ}
    {tasks : List (InferenceTask σ)} (called : s.Called tasks) (actions : List WorkerAction) :
    (s.HarmlessRun api sampleToken connected actions → (s.run api sampleToken connected actions).Drains tasks) ∧
      ((s.run api sampleToken connected actions).Ended →
        ((s.run api sampleToken connected actions).Drains tasks ↔
          s.HarmlessRun api sampleToken connected actions)) := by
  have keeps : ∀ (s : WorkerRun M C σ) a, s.Account tasks → s.Harmless api a →
      (s.step api sampleToken connected a).Account tasks := fun _ _ account harmless => account.step contract harmless
  have falls : ∀ (s : WorkerRun M C σ) a, s.Account tasks → ¬ s.Harmless api a →
      (s.step api sampleToken connected a).Doomed := fun _ _ account harm => account.doomed contract harm
  have drained : s.HarmlessRun api sampleToken connected actions →
      (s.run api sampleToken connected actions).Drains tasks :=
    fun harmless => (along_inv keeps actions s called.account harmless).drains
  refine ⟨drained, fun ended => ⟨fun drains => ?_, drained⟩⟩
  rcases along_or_trapped keeps falls (fun _ a doomed => doomed.step a) actions s called.account with
    harmless | doomed
  · exact harmless
  · exact absurd drains (doomed.not_drains ended)

def stubTask : InferenceTask Unit where
  requestId := str "r1"
  prompt := str "hi"

/-- The worker of an engine in stub mode, with two tasks, one of them at work. -/
def stubRun (queue : List (InferenceTask Unit)) : WorkerRun Unit (List (Int × Int)) Unit where
  serving := { engine := { backend := { config := {} }, ready := true }, user := () }
  queue := queue
  phase := .processing stubTask

/-- `stop` is called while the worker is at work on the only task. -/
theorem drains_iff_busy :
    ((stubRun []).HarmlessRun sumLlama (fun _ _ _ _ _ => 0) false [.stop, .stop, .stop, .worker, .worker] →
      ((stubRun []).run sumLlama (fun _ _ _ _ _ => 0) false [.stop, .stop, .stop, .worker, .worker]).Drains
        [stubTask]) ∧
    (((stubRun []).run sumLlama (fun _ _ _ _ _ => 0) false [.stop, .stop, .stop, .worker, .worker]).Ended →
      (((stubRun []).run sumLlama (fun _ _ _ _ _ => 0) false [.stop, .stop, .stop, .worker, .worker]).Drains
          [stubTask] ↔
        (stubRun []).HarmlessRun sumLlama (fun _ _ _ _ _ => 0) false [.stop, .stop, .stop, .worker, .worker])) :=
  drains_iff sumLlama_tokenize _ false ⟨rfl, rfl, rfl, ⟨by simp [stubRun], by simp [stubRun]⟩, rfl, rfl⟩ _

/-- The worker exits from its loop with a task in the queue. -/
theorem stop_leaves_task : ¬ ∀ (s : WorkerRun Unit (List (Int × Int)) Unit) tasks, s.Called tasks →
    ∀ actions, (s.run sumLlama (fun _ _ _ _ _ => 0) false actions).Drains tasks := by
  intro all
  have called : ({ stubRun [stubTask] with phase := .test } : WorkerRun Unit (List (Int × Int)) Unit).Called
      [stubTask] := ⟨rfl, rfl, rfl, ⟨by simp, by simp⟩, rfl, rfl⟩
  have drained := (all _ _ called [.stop, .stop, .worker]).drained rfl
  cases drained

end WorkerRun
end ModelRuntime
