import Mathlib.Computability.StateTransition
import ModelRuntime.Lib.Run

/-!
# Threads over one shared state

Each thread has a state of its own and takes atomic steps on a shared one. A run is a list of thread
names. `Pool.alone` says when such a run looks to each thread like a run alone: every step is taken
by the thread that stepped last, or by one that is `idle`, that is, does not depend on what the
shared state holds.
-/

namespace ModelRuntime.Lib
open StateTransition

variable {ι T S : Type*}

/-- `last` is the thread that stepped last. -/
structure Pool (ι T S : Type*) where
  shared : S
  threads : ι → T
  last : Option ι := none

variable (move : T × S → Option (T × S))

/-- A step of thread `r`, which does nothing when it has none left. -/
def Pool.step [DecidableEq ι] (p : Pool ι T S) (r : ι) : Pool ι T S :=
  match move (p.threads r, p.shared) with
  | none => p
  | some (t, s) => { shared := s, threads := Function.update p.threads r t, last := some r }

/-- Thread `r` may step without another having come between. -/
def Pool.Owned (idle : T → Prop) (p : Pool ι T S) (r : ι) : Prop :=
  idle (p.threads r) ∨ p.last = some r

/-- `Agree t` relates shared states that thread `t` cannot tell apart, whatever it does. -/
structure Indistinct (idle : T → Prop) (Agree : T → S → S → Prop) : Prop where
  idle : ∀ t s s', idle t → Agree t s s'
  step : ∀ t s s', Agree t s s' →
    Option.Rel (fun a b => a.1 = b.1 ∧ Agree a.1 a.2 b.2) (move (t, s)) (move (t, s'))

/-- Every thread stands where some run alone from `s₀` has brought it, and the one that stepped last
sees the shared state it would see there. -/
def Pool.AsAlone (Agree : T → S → S → Prop) (start : ι → T) (s₀ : S) (p : Pool ι T S) : Prop :=
  ∀ r, ∃ s, Reaches move (start r, s₀) (p.threads r, s) ∧
    (p.last = some r → Agree (p.threads r) p.shared s)

variable {move} [DecidableEq ι] {idle : T → Prop} {Agree : T → S → S → Prop} {start : ι → T} {s₀ : S}

theorem Pool.AsAlone.step (h : Indistinct move idle Agree) {p : Pool ι T S} {r : ι}
    (inv : p.AsAlone move Agree start s₀) (owned : p.Owned idle r) :
    (p.step move r).AsAlone move Agree start s₀ := by
  obtain ⟨s, reaches, seen⟩ := inv r
  have agree : Agree (p.threads r) p.shared s := by
    rcases owned with free | last
    · exact h.idle _ _ _ free
    · exact seen last
  have steps := h.step _ _ _ agree
  rw [Pool.step]
  cases e : move (p.threads r, p.shared) with
  | none => exact inv
  | some next =>
    rw [e] at steps
    cases e' : move (p.threads r, s) with
    | none => rw [e'] at steps; cases steps
    | some next' =>
      rw [e'] at steps
      cases steps with
      | some related =>
        obtain ⟨same, agree'⟩ := related
        intro q
        by_cases hq : q = r
        · subst hq
          refine ⟨next'.2, ?_, fun _ => ?_⟩
          · dsimp only
            rw [Function.update_self, same]
            exact reaches.tail e'
          · dsimp only
            rw [Function.update_self]
            exact agree'
        · obtain ⟨sq, reachesq, _⟩ := inv q
          refine ⟨sq, ?_, fun last => absurd (Option.some.inj last).symm hq⟩
          dsimp only
          rw [Function.update_of_ne hq]
          exact reachesq

/-- In an owned run every thread reaches only states it reaches alone, from any shared state. -/
theorem Pool.alone (h : Indistinct move idle Agree) (schedule : List ι) (shared : S)
    (owned : Along (Pool.step move) (Pool.Owned idle) ⟨shared, start, none⟩ schedule) (s₀ : S) :
    ∀ r, ∃ s, Reaches move (start r, s₀)
      ((schedule.foldl (Pool.step move) ⟨shared, start, none⟩).threads r, s) := by
  intro r
  have begins : Pool.AsAlone move Agree start s₀ ⟨shared, start, none⟩ := fun q =>
    ⟨s₀, .refl, fun last => by cases last⟩
  obtain ⟨s, reaches, _⟩ :=
    along_inv (fun _ _ inv own => Pool.AsAlone.step h inv own) schedule _ begins owned r
  exact ⟨s, reaches⟩

/-- A state without a next step is the last of every run that leads to it. -/
theorem reaches_halted {σ : Type*} {f : σ → Option σ} {a b c : σ} (hb : Reaches f a b)
    (hc : Reaches f a c) (stopb : f b = none) (stopc : f c = none) : b = c := by
  have stuck : ∀ {x y}, f x = none → Reaches f x y → x = y := by
    intro x y stop run
    rcases run.cases_head with e | ⟨z, hz, _⟩
    · exact e
    · rw [Option.mem_def, stop] at hz
      cases hz
  rcases reaches_total hb hc with run | run
  · exact stuck stopb run
  · exact (stuck stopc run).symm

end ModelRuntime.Lib
