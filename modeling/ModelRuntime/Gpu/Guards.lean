import ModelRuntime.Gpu.Memory

/-!
# The current device

`GpuDeviceGuard` remembers the device it finds and puts it back. With `set_device` called outside the guards
only, the thread is always on the device of the innermost guard whose device there is, and outside the guards on
the one that was set last: whatever the manager does between, the pools' constructors and destructors with
guards of their own, leaves no trace.
-/

namespace ModelRuntime
open Lib

namespace CudaRuntime

variable {cuda : CudaRuntime}

theorem setDevice_current (device : Int) : (cuda.setDevice device).2.current =
    if 0 ≤ device ∧ device < cuda.devices then device else cuda.current := by
  unfold setDevice
  by_cases valid : 0 ≤ device ∧ device < cuda.devices
  · rw [if_pos valid, if_pos (show cuda.Valid device from valid)]
  · rw [if_neg valid, if_neg (show ¬ cuda.Valid device from valid)]

theorem enter_current (some : 0 < cuda.devices) (device : Int) : (cuda.enter device).1 = cuda.current ∧
    (cuda.enter device).2.current = if 0 ≤ device ∧ device < cuda.devices then device else cuda.current := by
  unfold enter getDevice
  rw [if_neg (by omega)]
  refine ⟨rfl, ?_⟩
  dsimp only
  by_cases same : cuda.current = device
  · rw [if_neg (not_not.2 same), same, ite_self]
  · rw [if_pos same, setDevice_current]

theorem enter_devices (device : Int) : (cuda.enter device).2.devices = cuda.devices := by
  unfold enter
  dsimp only
  split
  · exact setDevice_devices device
  · rfl

/-- The device of before is put back, unless it is the guard's own. -/
theorem leave_current {previous : Int} (valid : 0 ≤ previous ∧ previous < cuda.devices) (device : Int) :
    (cuda.leave device previous).current = if previous = device then cuda.current else previous := by
  unfold leave
  by_cases same : previous = device
  · rw [if_neg (not_not.2 same), if_pos same]
  · rw [if_pos same, if_neg same, setDevice_current, if_pos valid]

theorem leave_devices (device previous : Int) : (cuda.leave device previous).devices = cuda.devices := by
  unfold leave
  split
  · exact setDevice_devices previous
  · rfl

end CudaRuntime

namespace GpuProcess

variable {driver : CudaMalloc} {s : GpuProcess}

/-- The device of a thread in these guards, the innermost first, that was on `home` outside them. -/
def onDevice (devices : Nat) (home : Int) : List (Int × Int) → Int
  | [] => home
  | (device, _) :: guards => if 0 ≤ device ∧ device < devices then device else onDevice devices home guards

/-- Each guard remembers the device it has found. -/
def Nested (devices : Nat) (home : Int) : List (Int × Int) → Prop
  | [] => True
  | (_, previous) :: guards => previous = onDevice devices home guards ∧ Nested devices home guards

/-- The device a thread without guards has set. -/
def homeAfter (devices : Nat) (home : Int) : GpuCall → Int
  | .setDevice device => if 0 ≤ device ∧ device < devices then device else home
  | _ => home

/-- `set_device` is not called inside a guard. -/
def SetsOutside (s : GpuProcess) : GpuCall → Prop
  | .setDevice _ => s.guards = []
  | _ => True

instance (s : GpuProcess) (c : GpuCall) : Decidable (s.SetsOutside c) :=
  match c with
  | .setDevice _ => inferInstanceAs (Decidable (s.guards = []))
  | .initializeGpu _ | .shutdown | .pool _ _ | .enter _ | .leave => .isTrue trivial

structure Located (devices : Nat) (home : Int) (s : GpuProcess) : Prop where
  sound : s.Sound
  count : s.cuda.devices = devices
  some : 0 < devices
  valid : 0 ≤ home ∧ home < devices
  current : s.cuda.current = onDevice devices home s.guards
  nested : Nested devices home s.guards

variable {devices : Nat} {home : Int}

theorem onDevice_valid (valid : 0 ≤ home ∧ home < devices) (guards : List (Int × Int)) :
    0 ≤ onDevice devices home guards ∧ onDevice devices home guards < devices := by
  induction guards with
  | nil => exact valid
  | cons guard guards ih =>
    unfold onDevice
    split
    · assumption
    · exact ih

/-- A call that neither sets the device nor makes or destroys a guard. -/
theorem Located.kept (located : s.Located devices home) {s' : GpuProcess} (sound : s'.Sound)
    (same : s'.cuda.devices = s.cuda.devices) (current : s'.cuda.current = s.cuda.current)
    (guards : s'.guards = s.guards) : s'.Located devices home where
  sound := sound
  count := same.trans located.count
  some := located.some
  valid := located.valid
  current := by
    rw [current, guards]
    exact located.current
  nested := by
    rw [guards]
    exact located.nested

theorem initializeGpu_current (sound : s.Sound) (reported : Option (Nat → Int)) :
    let s' := (s.initializeGpu driver reported).2
    s'.cuda.devices = s.cuda.devices ∧ s'.cuda.current = s.cuda.current ∧ s'.guards = s.guards := by
  unfold initializeGpu
  dsimp only
  split
  · exact ⟨rfl, rfl, rfl⟩
  · rename_i first
    split
    · exact ⟨rfl, rfl, rfl⟩
    · split
      · exact ⟨rfl, rfl, rfl⟩
      · have owns := sound.owns
        rw [sound.bare (Bool.eq_false_iff.2 first)] at owns
        obtain ⟨_, same, current, _⟩ := @CudaRuntime.createPools_owns driver _ owns _ (le_refl s.cuda.devices)
        exact ⟨same, current, rfl⟩

theorem Located.setDevice (located : s.Located devices home) (device : Int) (outside : s.guards = []) :
    (s.step driver (.setDevice device)).Located devices (homeAfter devices home (.setDevice device)) := by
  have sound := @Sound.step driver s located.sound (.setDevice device)
  have current := located.current
  rw [outside] at current
  refine ⟨sound, (CudaRuntime.setDevice_devices device).trans located.count, located.some, ?_, ?_, ?_⟩
  · unfold homeAfter
    dsimp only
    split
    · assumption
    · exact located.valid
  · show (s.cuda.setDevice device).2.current = onDevice devices _ s.guards
    rw [outside, CudaRuntime.setDevice_current, located.count, current]
    rfl
  · show Nested devices _ s.guards
    rw [outside]
    trivial

theorem Located.enter (located : s.Located devices home) (device : Int) :
    (s.step driver (.enter device)).Located devices home := by
  have sound := @Sound.step driver s located.sound (.enter device)
  have some : 0 < s.cuda.devices := by
    rw [located.count]
    exact located.some
  obtain ⟨found, entered⟩ := CudaRuntime.enter_current some device
  rw [located.current] at found
  rw [located.count, located.current] at entered
  exact ⟨sound, (CudaRuntime.enter_devices device).trans located.count, located.some, located.valid, entered,
    found, located.nested⟩

theorem Located.leave (located : s.Located devices home) : (s.step driver .leave).Located devices home := by
  have sound := @Sound.step driver s located.sound .leave
  cases nest : s.guards with
  | nil =>
    have same : s.step driver .leave = s := by
      unfold GpuProcess.step
      dsimp only
      rw [nest]
    rw [same]
    exact located
  | cons guard guards =>
    obtain ⟨device, previous⟩ := guard
    have next : s.step driver .leave = { s with cuda := s.cuda.leave device previous, guards } := by
      unfold GpuProcess.step
      dsimp only
      rw [nest]
    have nested := located.nested
    have current := located.current
    rw [nest] at nested current
    obtain ⟨found, nested⟩ := nested
    have valid := onDevice_valid located.valid guards
    rw [← found] at valid
    have left := @CudaRuntime.leave_current s.cuda previous (by rw [located.count]; exact valid) device
    rw [next] at sound ⊢
    refine ⟨sound, (CudaRuntime.leave_devices device previous).trans located.count, located.some, located.valid, ?_,
      nested⟩
    show (s.cuda.leave device previous).current = onDevice devices home guards
    rw [left, ← found]
    split
    · rename_i same
      rw [current, onDevice, ← same, if_pos valid]
    · rfl

theorem Located.step (located : s.Located devices home) {c : GpuCall} (outside : s.SetsOutside c) :
    (s.step driver c).Located devices (homeAfter devices home c) := by
  cases c with
  | initializeGpu reported =>
    have sound := @Sound.step driver s located.sound (.initializeGpu reported)
    obtain ⟨same, current, guards⟩ := @initializeGpu_current driver s located.sound reported
    exact located.kept sound same current guards
  | shutdown =>
    obtain ⟨_, same, current⟩ := located.sound.owns.destroyAll
    exact located.kept located.sound.shutdown same current rfl
  | setDevice device => exact located.setDevice device outside
  | pool device call =>
    have sound := @Sound.step driver s located.sound (.pool device call)
    have kept : (s.onPool device call).cuda = s.cuda ∧ (s.onPool device call).guards = s.guards := by
      unfold onPool
      split
      · exact ⟨rfl, rfl⟩
      · exact ⟨rfl, rfl⟩
    exact located.kept sound (congrArg CudaRuntime.devices kept.1) (congrArg CudaRuntime.current kept.1) kept.2
  | enter device => exact located.enter device
  | leave => exact located.leave

theorem Located.run (calls : List GpuCall) : ∀ {s : GpuProcess} {home : Int}, s.Located devices home →
    Along (GpuProcess.step driver) SetsOutside s calls →
      (calls.foldl (GpuProcess.step driver) s).Located devices (calls.foldl (homeAfter devices) home) := by
  induction calls with
  | nil => exact fun located _ => located
  | cons c calls ih =>
    intro s home located outside
    exact ih (located.step outside.1) outside.2

/-- **The current device** is that of the innermost open guard, and outside the guards the one that was set
last, in every run of calls that set the device outside the guards. -/
theorem run_current (driver : CudaMalloc) (some : 0 < devices) (calls : List GpuCall)
    (outside : Along (GpuProcess.step driver) SetsOutside (.init devices) calls) :
    let s := calls.foldl (GpuProcess.step driver) (.init devices)
    s.cuda.current = onDevice devices (calls.foldl (homeAfter devices) 0) s.guards := by
  have located : (GpuProcess.init devices).Located devices 0 :=
    ⟨.init devices, rfl, some, ⟨le_refl 0, Int.natCast_pos.2 some⟩, rfl, trivial⟩
  exact (located.run calls outside).current

/-- A guard inside a guard, on two devices with the second one set. -/
theorem run_current_nested :
    let s := ([.initializeGpu (some fun _ => 100), .setDevice 1, .enter 0, .enter 5, .leave] : List GpuCall).foldl
      (GpuProcess.step { malloc := fun _ _ _ => none, apart := nofun }) (.init 2)
    s.cuda.current = onDevice 2 (([.initializeGpu (some fun _ => 100), .setDevice 1, .enter 0, .enter 5, .leave] :
      List GpuCall).foldl (homeAfter 2) 0) s.guards :=
  run_current _ Nat.two_pos _ (by decide +kernel)

end GpuProcess

end ModelRuntime
