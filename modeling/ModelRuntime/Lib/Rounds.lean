import ModelRuntime.Lib.Run

/-!
# Rounds

How many rounds a run needs until it is done, when every round has an action that helps. The rank of a state
bounds it: no action raises the rank, the action that helps lowers it, and it goes on helping until it is
taken or another has lowered the rank.
-/

namespace ModelRuntime.Lib

variable {σ α : Type*} {step : σ → α → σ} {P : σ → α → Prop} {Inv Done : σ → Prop} {Helps : σ → α → Prop}
  {rank : σ → Nat}

/-- A rank that the actions that help lower. -/
structure Ranked (step : σ → α → σ) (P : σ → α → Prop) (Inv Done : σ → Prop) (Helps : σ → α → Prop)
    (rank : σ → Nat) : Prop where
  keep : ∀ s a, Inv s → P s a → Inv (step s a)
  done : ∀ s a, Done s → Done (step s a)
  zero : ∀ s, Inv s → rank s = 0 → Done s
  le : ∀ s a, Inv s → P s a → rank (step s a) ≤ rank s
  lt : ∀ s a, Inv s → P s a → Helps s a → rank (step s a) < rank s
  stays : ∀ s a b, Inv s → P s a → Helps s b → rank (step s a) < rank s ∨ Helps (step s a) b

theorem Ranked.run_done (r : Ranked step P Inv Done Helps rank) (as : List α) :
    ∀ s : σ, Done s → Done (as.foldl step s) := by
  induction as with
  | nil => exact fun _ done => done
  | cons a as ih => exact fun s done => ih _ (r.done s a done)

theorem Ranked.run_le (r : Ranked step P Inv Done Helps rank) (as : List α) :
    ∀ s : σ, Inv s → Along step P s as → rank (as.foldl step s) ≤ rank s := by
  induction as with
  | nil => exact fun _ _ _ => Nat.le_refl _
  | cons a as ih =>
    rintro s inv ⟨ha, rest⟩
    exact Nat.le_trans (ih _ (r.keep s a inv ha) rest) (r.le s a inv ha)

/-- A round with an action that helps lowers the rank. -/
theorem Ranked.run_lt (r : Ranked step P Inv Done Helps rank) {b : α} (as : List α) :
    ∀ s : σ, Inv s → Along step P s as → b ∈ as → Helps s b → rank (as.foldl step s) < rank s := by
  induction as with
  | nil => exact fun _ _ _ mem => absurd mem List.not_mem_nil
  | cons a as ih =>
    rintro s inv ⟨ha, rest⟩ mem helps
    have inv' := r.keep s a inv ha
    have lowered : rank (step s a) < rank s → rank (as.foldl step (step s a)) < rank s := fun now =>
      Nat.lt_of_le_of_lt (r.run_le as _ inv' rest) now
    rcases List.mem_cons.1 mem with rfl | mem
    · exact lowered (r.lt s _ inv ha helps)
    · rcases r.stays s a b inv ha helps with now | later
      · exact lowered now
      · exact Nat.lt_of_lt_of_le (ih _ inv' rest mem later) (r.le s a inv ha)

/-- **As many rounds as the rank** are enough. -/
theorem Ranked.rounds (r : Ranked step P Inv Done Helps rank) (rounds : List (List α))
    (fair : ∀ round ∈ rounds, ∀ s, Inv s → ¬ Done s → ∃ a ∈ round, Helps s a) :
    ∀ s : σ, Inv s → Along step P s rounds.flatten → rank s ≤ rounds.length →
      Done (rounds.flatten.foldl step s) := by
  induction rounds with
  | nil => exact fun s inv _ few => r.zero s inv (Nat.le_zero.1 few)
  | cons round rounds ih =>
    intro s inv along few
    rw [List.flatten_cons, along_append] at along
    rw [List.flatten_cons, List.foldl_append]
    by_cases done : Done s
    · exact r.run_done _ _ (r.run_done _ _ done)
    · obtain ⟨a, mem, helps⟩ := fair round List.mem_cons_self s inv done
      have lower := r.run_lt round s inv along.1 mem helps
      have inv' := along_inv r.keep round s inv along.1
      rw [List.length_cons] at few
      exact ih (fun round mem => fair round (List.mem_cons_of_mem _ mem)) _ inv' along.2 (by omega)

end ModelRuntime.Lib
