import Mathlib.Data.List.Basic

/-!
# Runs of a step function

A run is a list of actions. `Along step P s as` says that `P` holds of every step the run takes from
`s`; `along_iff` compares two such conditions under an invariant that the steps meeting the second
one preserve, and `along_inv` gives the invariant at the end.
-/

namespace ModelRuntime.Lib

variable {σ α : Type*} (step : σ → α → σ)

/-- `P` holds of every step of the run from `s`, in the state before the step. -/
def Along (P : σ → α → Prop) : σ → List α → Prop
  | _, [] => True
  | s, a :: as => P s a ∧ Along P (step s a) as

variable {step} {P Q : σ → α → Prop} {Inv : σ → Prop}

instance Along.decidable [∀ s a, Decidable (P s a)] :
    ∀ (s : σ) (as : List α), Decidable (Along step P s as)
  | _, [] => .isTrue trivial
  | s, a :: as =>
    have : Decidable (Along step P (step s a) as) := Along.decidable (step s a) as
    inferInstanceAs (Decidable (P s a ∧ Along step P (step s a) as))

theorem along_append (as bs : List α) :
    ∀ s : σ, Along step P s (as ++ bs) ↔ Along step P s as ∧ Along step P (as.foldl step s) bs := by
  induction as with
  | nil => exact fun s => (and_iff_right trivial).symm
  | cons a as ih =>
    intro s
    simp only [List.cons_append, List.foldl_cons, Along, ih, and_assoc]

theorem along_of_mem : ∀ (as : List α) (s : σ), (∀ a ∈ as, ∀ s, P s a) → Along step P s as := by
  intro as
  induction as with
  | nil => intro s _; trivial
  | cons a as ih =>
    intro s all
    exact ⟨all a List.mem_cons_self s, ih (step s a) fun b mem => all b (List.mem_cons_of_mem a mem)⟩

/-- The invariant rule for a condition on the steps. -/
theorem along_inv (keep : ∀ s a, Inv s → P s a → Inv (step s a)) :
    ∀ (as : List α) (s : σ), Inv s → Along step P s as → Inv (as.foldl step s) := by
  intro as
  induction as with
  | nil => intro s hs _; exact hs
  | cons a as ih =>
    rintro s hs ⟨ha, rest⟩
    exact ih (step s a) (keep s a hs ha) rest

/-- A condition that, under an invariant it preserves, implies another one implies it of whole runs. -/
theorem along_imp (implies : ∀ s a, Inv s → P s a → Q s a) (keep : ∀ s a, Inv s → P s a → Inv (step s a)) :
    ∀ (as : List α) (s : σ), Inv s → Along step P s as → Along step Q s as := by
  intro as
  induction as with
  | nil => intro s _ _; trivial
  | cons a as ih =>
    rintro s hs ⟨ha, rest⟩
    exact ⟨implies s a hs ha, ih (step s a) (keep s a hs ha) rest⟩

/-- What an invariant of the steps implies holds of every step. -/
theorem along_always (holds : ∀ s a, Inv s → Q s a) (keep : ∀ s a, Inv s → Inv (step s a)) :
    ∀ (as : List α) (s : σ), Inv s → Along step Q s as := by
  intro as
  induction as with
  | nil => intro s _; trivial
  | cons a as ih =>
    intro s hs
    exact ⟨holds s a hs, ih (step s a) (keep s a hs)⟩

/-- Where the first step that breaks the condition leads into a trap, a run meets the condition or ends in
the trap. -/
theorem along_or_trapped {Trap : σ → Prop} (keep : ∀ s a, Inv s → P s a → Inv (step s a))
    (falls : ∀ s a, Inv s → ¬ P s a → Trap (step s a)) (stays : ∀ s a, Trap s → Trap (step s a)) :
    ∀ (as : List α) (s : σ), Inv s → Along step P s as ∨ Trap (as.foldl step s) := by
  intro as
  induction as with
  | nil => intro s _; exact .inl trivial
  | cons a as ih =>
    intro s hs
    by_cases ha : P s a
    · rcases ih (step s a) (keep s a hs ha) with rest | trapped
      · exact .inl ⟨ha, rest⟩
      · exact .inr trapped
    · exact .inr (List.foldlRecOn as step (falls s a hs ha) fun s trapped a _ => stays s a trapped)

/-- Two conditions that agree wherever the invariant holds agree on whole runs. -/
theorem along_iff (same : ∀ s a, Inv s → (P s a ↔ Q s a))
    (keep : ∀ s a, Inv s → Q s a → Inv (step s a)) :
    ∀ (as : List α) (s : σ), Inv s → (Along step P s as ↔ Along step Q s as) := by
  intro as
  induction as with
  | nil => intro s _; exact Iff.rfl
  | cons a as ih =>
    intro s hs
    simp only [Along]
    constructor
    · rintro ⟨ha, rest⟩
      have hq := (same s a hs).1 ha
      exact ⟨hq, (ih _ (keep s a hs hq)).1 rest⟩
    · rintro ⟨ha, rest⟩
      exact ⟨(same s a hs).2 ha, (ih _ (keep s a hs ha)).2 rest⟩

theorem along_and : ∀ (as : List α) (s : σ),
    Along step (fun s a => P s a ∧ Q s a) s as ↔ Along step P s as ∧ Along step Q s as := by
  intro as
  induction as with
  | nil => exact fun s => (and_iff_left trivial).symm
  | cons a as ih =>
    intro s
    simp only [Along, ih]
    exact and_and_and_comm

/-- What holds of the states of a run holds of the first one and after every step. -/
theorem reached_iff {R : σ → Prop} : ∀ (as : List α) (s : σ),
    (∀ front back, as = front ++ back → R (front.foldl step s)) ↔ R s ∧ Along step (fun s a => R (step s a)) s as := by
  intro as
  induction as with
  | nil =>
    intro s
    constructor
    · exact fun all => ⟨all [] [] rfl, trivial⟩
    · rintro ⟨start, _⟩ front back split
      rw [(List.append_eq_nil_iff.1 split.symm).1]
      exact start
  | cons a as ih =>
    intro s
    constructor
    · intro all
      have later := (ih (step s a)).1 fun front back split => all (a :: front) back (by rw [split]; rfl)
      exact ⟨all [] (a :: as) rfl, later.1, later.2⟩
    · rintro ⟨start, next, rest⟩ front back split
      cases front with
      | nil => exact start
      | cons b front =>
        obtain ⟨rfl, tail⟩ := List.cons.inj split
        exact (ih (step s a)).2 ⟨next, rest⟩ front back tail

end ModelRuntime.Lib
