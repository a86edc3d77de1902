import Mathlib.Tactic.TypeStar

/-!
# While loops with a rank

A C++ `while` is a body `σ → Option σ`, `none` where the loop ends, iterated by `whileSome`. The
iteration count is only a bound: when a rank falls at every pass, `whileSome_exit` says that the
loop ended because the body said so, so that no result below is about a run cut short. `whileM` is
the same loop with a body that may throw.
-/

namespace ModelRuntime.Cpp

variable {σ ε : Type*}

/-- Iterate `body` at most `n` times, stopping where it gives `none`. -/
def whileSome (body : σ → Option σ) : Nat → σ → σ
  | 0, s => s
  | n + 1, s => match body s with
    | none => s
    | some s' => whileSome body n s'

/-- The same loop with a body that may throw. -/
def whileM (body : σ → Except ε (Option σ)) : Nat → σ → Except ε σ
  | 0, s => .ok s
  | n + 1, s => match body s with
    | .error e => .error e
    | .ok none => .ok s
    | .ok (some s') => whileM body n s'

/-- The invariant rule. -/
theorem whileSome_inv {body : σ → Option σ} (Inv : σ → Prop)
    (step : ∀ s s', Inv s → body s = some s' → Inv s') :
    ∀ (n : Nat) (s : σ), Inv s → Inv (whileSome body n s) := by
  intro n
  induction n with
  | zero => intro s hs; exact hs
  | succ n ih =>
    intro s hs
    rw [whileSome]
    split
    · exact hs
    · rename_i s' hb
      exact ih s' (step s s' hs hb)

/-- A falling rank ends the loop at a state where the body says so. -/
theorem whileSome_exit {body : σ → Option σ} (rank : σ → Nat)
    (falls : ∀ s s', body s = some s' → rank s' < rank s) :
    ∀ (n : Nat) (s : σ), rank s ≤ n → body (whileSome body n s) = none := by
  intro n
  induction n with
  | zero =>
    intro s hs
    rw [whileSome]
    cases hb : body s with
    | none => rfl
    | some s' => have := falls s s' hb; omega
  | succ n ih =>
    intro s hs
    rw [whileSome]
    split
    · assumption
    · rename_i s' hb
      have := falls s s' hb
      exact ih s' (by omega)

theorem whileSome_stop {body : σ → Option σ} {s : σ} (ended : body s = none) (n : Nat) :
    whileSome body n s = s := by
  cases n with
  | zero => rfl
  | succ n => rw [whileSome, ended]

/-- With a falling rank any bound that is large enough gives the same. -/
theorem whileSome_enough {body : σ → Option σ} (rank : σ → Nat)
    (falls : ∀ s s', body s = some s' → rank s' < rank s) {n m : Nat} {s : σ} (hn : rank s ≤ n)
    (hm : rank s ≤ m) : whileSome body n s = whileSome body m s := by
  induction n generalizing m s with
  | zero =>
    have ended := whileSome_exit rank falls 0 s hn
    rw [whileSome] at ended
    rw [whileSome_stop ended, whileSome_stop ended]
  | succ n ih =>
    cases hb : body s with
    | none => rw [whileSome_stop hb, whileSome_stop hb]
    | some s' =>
      have less := falls s s' hb
      cases m with
      | zero => omega
      | succ m =>
        rw [whileSome, whileSome, hb]
        exact ih (by omega) (by omega)

/-- A pass of the loop. -/
theorem whileSome_step {body : σ → Option σ} (rank : σ → Nat)
    (falls : ∀ s s', body s = some s' → rank s' < rank s) {s s' : σ} (pass : body s = some s') :
    whileSome body (rank s) s = whileSome body (rank s') s' := by
  have less := falls s s' pass
  obtain ⟨n, hn⟩ : ∃ n, rank s = n + 1 := ⟨rank s - 1, by omega⟩
  rw [hn, whileSome, pass]
  exact whileSome_enough rank falls (by omega) (Nat.le_refl _)

/-- `n` passes of the loop. -/
inductive Passes (body : σ → Option σ) : Nat → σ → σ → Prop where
  | refl (s : σ) : Passes body 0 s s
  | pass {n : Nat} {s s' s'' : σ} (first : body s = some s') (rest : Passes body n s' s'') :
      Passes body (n + 1) s s''

/-- The loop makes its passes. -/
theorem whileSome_passes (body : σ → Option σ) (n : Nat) (s : σ) :
    ∃ k ≤ n, Passes body k s (whileSome body n s) := by
  induction n generalizing s with
  | zero => exact ⟨0, Nat.le_refl 0, .refl s⟩
  | succ n ih =>
    cases first : body s with
    | none =>
      rw [whileSome_stop first]
      exact ⟨0, Nat.zero_le _, .refl s⟩
    | some s' =>
      obtain ⟨k, bound, rest⟩ := ih s'
      rw [whileSome, first]
      exact ⟨k + 1, by omega, .pass first rest⟩

/-- From where some passes lead the loop goes on as from the start. -/
theorem Passes.loop {body : σ → Option σ} (rank : σ → Nat)
    (falls : ∀ s s', body s = some s' → rank s' < rank s) {n : Nat} {s s' : σ} (passes : Passes body n s s') :
    whileSome body (rank s) s = whileSome body (rank s') s' := by
  induction passes with
  | refl s => rfl
  | pass first rest ih => exact (whileSome_step rank falls first).trans ih

/-- Passes that another body makes, too. -/
theorem Passes.congr {body body' : σ → Option σ} {n : Nat} {s s' : σ} (passes : Passes body n s s')
    (same : ∀ i u u', Passes body i s u → body u = some u' → body' u = some u') : Passes body' n s s' := by
  induction passes with
  | refl s => exact .refl s
  | pass first rest ih =>
    refine .pass (same 0 _ _ (.refl _) first) (ih ?_)
    exact fun i u u' later next => same (i + 1) u u' (.pass first later) next

/-- What every pass keeps. -/
theorem Passes.inv {body : σ → Option σ} {n : Nat} {s s' : σ} (passes : Passes body n s s') (Inv : σ → Prop)
    (step : ∀ s s', Inv s → body s = some s' → Inv s') (start : Inv s) : Inv s' := by
  induction passes with
  | refl s => exact start
  | pass first rest ih => exact ih (step _ _ start first)

/-- What every pass makes larger by `c` is larger by `c` for each of them. -/
theorem Passes.grows {body : σ → Option σ} {n : Nat} {s s' : σ} (passes : Passes body n s s') {size : σ → Nat}
    {c : Nat} (step : ∀ s s', body s = some s' → size s + c ≤ size s') : size s + c * n ≤ size s' := by
  induction passes with
  | refl s => simp
  | pass first rest ih =>
    have here := step _ _ first
    rw [Nat.mul_succ]
    omega

theorem Passes.grows_le {body : σ → Option σ} {n : Nat} {s s' : σ} (passes : Passes body n s s') {size : σ → Nat}
    {c : Nat} (step : ∀ s s', body s = some s' → size s' ≤ size s + c) : size s' ≤ size s + c * n := by
  induction passes with
  | refl s => simp
  | pass first rest ih =>
    have here := step _ _ first
    rw [Nat.mul_succ]
    omega

/-- A pass of a body that may throw, where it does not. -/
def passM (body : σ → Except ε (Option σ)) (s : σ) : Option σ := (body s).toOption.join

theorem passM_eq_some_iff {body : σ → Except ε (Option σ)} {s s' : σ} :
    passM body s = some s' ↔ body s = .ok (some s') := by
  rw [passM]
  cases body s with
  | error e => simp [Except.toOption]
  | ok next => cases next <;> simp [Except.toOption]

/-- A loop that gives a result has made its passes, and has ended unless its bound was met. -/
theorem whileM_passes {body : σ → Except ε (Option σ)} {n : Nat} {s s' : σ} (run : whileM body n s = .ok s') :
    ∃ k ≤ n, Passes (passM body) k s s' ∧ (k < n → body s' = .ok none) := by
  induction n generalizing s with
  | zero =>
    cases run
    exact ⟨0, Nat.le_refl 0, .refl _, by omega⟩
  | succ n ih =>
    rw [whileM] at run
    split at run
    · cases run
    · rename_i ended
      cases run
      exact ⟨0, Nat.zero_le _, .refl _, fun _ => ended⟩
    · rename_i first
      obtain ⟨k, bound, rest, ends⟩ := ih run
      refine ⟨k + 1, by omega, .pass (passM_eq_some_iff.2 first) rest, fun less => ends (by omega)⟩

end ModelRuntime.Cpp
