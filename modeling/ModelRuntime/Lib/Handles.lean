import Mathlib.Logic.Function.Basic

/-!
# Handles

A table says what each open handle stands for. A handle that has been released may be given out again,
for something else. Who goes on using it then acts on what is not his; nobody does where the handles are
held exclusively.
-/

namespace ModelRuntime.Lib

variable {H O : Type*}

/-- An open handle is held by what it stands for, and what holds a handle is what it stands for. -/
def Exclusive (table : H → Option O) (holds : O → Option H) : Prop :=
  ∀ h o, table h = some o ↔ holds o = some h

variable {table : H → Option O} {holds : O → Option H} {h : H} {o : O}

theorem Exclusive.empty : Exclusive (fun _ : H => (none : Option O)) fun _ => none := by
  intro h o
  simp

/-- A handle that nothing holds is closed. -/
theorem Exclusive.closed (inv : Exclusive table holds) (unheld : ∀ o, holds o ≠ some h) : table h = none := by
  cases found : table h with
  | none => rfl
  | some o => exact absurd ((inv h o).1 found) (unheld o)

/-- No handle is held twice. -/
theorem Exclusive.apart (inv : Exclusive table holds) {o' : O} (held : holds o = some h)
    (held' : holds o' = some h) : o = o' :=
  Option.some.inj (((inv h o).2 held).symm.trans ((inv h o').2 held'))

variable [DecidableEq H] [DecidableEq O]

/-- A closed handle is given to what holds none. -/
theorem Exclusive.give (inv : Exclusive table holds) (free : table h = none) (new : holds o = none) :
    Exclusive (Function.update table h (some o)) (Function.update holds o (some h)) := by
  intro h' o'
  by_cases sameHandle : h' = h
  · subst sameHandle
    rw [Function.update_self]
    by_cases same : o' = o
    · rw [same, Function.update_self]
      simp
    · rw [Function.update_of_ne same, ← inv, free]
      simp [Ne.symm same]
  · rw [Function.update_of_ne sameHandle]
    by_cases same : o' = o
    · rw [same, Function.update_self, inv, new]
      simp [Ne.symm sameHandle]
    · rw [Function.update_of_ne same, inv]

/-- What holds a handle closes it. -/
theorem Exclusive.release (inv : Exclusive table holds) (held : holds o = some h) :
    Exclusive (Function.update table h none) (Function.update holds o none) := by
  intro h' o'
  by_cases sameHandle : h' = h
  · subst sameHandle
    rw [Function.update_self]
    by_cases same : o' = o
    · rw [same, Function.update_self]
      simp
    · rw [Function.update_of_ne same]
      constructor
      · intro none
        cases none
      · intro again
        exact absurd (inv.apart again held) same
  · rw [Function.update_of_ne sameHandle]
    by_cases same : o' = o
    · rw [same, Function.update_self, inv, held]
      simp [Ne.symm sameHandle]
    · rw [Function.update_of_ne same, inv]

end ModelRuntime.Lib
