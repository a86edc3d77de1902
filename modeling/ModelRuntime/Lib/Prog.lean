import ModelRuntime.Lib.Interleave

/-!
# Programs of atomic actions

A thread is a program: a tree whose nodes are actions on a shared state. An action has a label, its
effect, and what follows it, chosen by the state it found. `stuck` is a program whose next action has
no meaning. `Prog.move` is one action, so that a `Pool` of programs interleaves them; `Prog.run` takes
all of them in a row. `Prog.Every` says what all actions of a program are like, `Prog.Until`
what those before a certain one are like, and `Prog.Follows` in which order they come. All three are
proved of a program along its `bind`s.
-/

namespace ModelRuntime.Lib

inductive Prog (U S A : Type) where
  | done (a : A)
  | stuck
  | act (label : U) (effect : S → S) (next : S → Prog U S A)

namespace Prog

variable {U S A B : Type}

def bind : Prog U S A → (A → Prog U S B) → Prog U S B
  | done a, k => k a
  | stuck, _ => stuck
  | act label effect next, k => act label effect fun s => (next s).bind k

instance : Monad (Prog U S) where
  pure := done
  bind := bind

/-- All actions in a row: the result, unless the program got stuck, and the state. -/
def run : Prog U S A → S → Option A × S
  | done a, s => (some a, s)
  | stuck, s => (none, s)
  | act _ effect next, s => (next s).run (effect s)

/-- The next action. -/
def move : Prog U S A × S → Option (Prog U S A × S)
  | (done _, _) | (stuck, _) => none
  | (act _ effect next, s) => some (next s, effect s)

/-- The label of the next action. -/
def label : Prog U S A → Option U
  | done _ | stuck => none
  | act label _ _ => some label

def isDone : Prog U S A → Bool
  | done _ => true
  | stuck | act .. => false

/-- Every action of the program has the property, whatever the states it is run in. -/
def Every (P : U → (S → S) → Prop) : Prog U S A → Prop
  | done _ | stuck => True
  | act label effect next => P label effect ∧ ∀ s, (next s).Every P

/-- Every action has the one property, until one comes that has the other. -/
def Until (P Q : U → (S → S) → Prop) : Prog U S A → Prop
  | done _ | stuck => True
  | act label effect next => Q label effect ∨ P label effect ∧ ∀ s, (next s).Until P Q

/-- The program keeps `Here` and, from stage `q` on, takes only actions that lead from a stage to a
stage; it ends in a stage and with a result as `post` has them. -/
def Follows {Q : Type} (Here : S → Prop) (leads : Q → U → S → Option Q) (post : Q → A → Prop) :
    Q → Prog U S A → Prop
  | q, done a => post q a
  | _, stuck => True
  | q, act label effect next => ∀ s, Here s → Here (effect s) ∧ ∃ q', leads q label s = some q' ∧
      (next s).Follows Here leads post q'

@[simp] theorem bind_done (a : A) (k : A → Prog U S B) : (done a : Prog U S A) >>= k = k a := rfl

@[simp] theorem bind_act (label : U) (effect : S → S) (next : S → Prog U S A) (k : A → Prog U S B) :
    act label effect next >>= k = act label effect fun s => next s >>= k := rfl

@[simp] theorem pure_eq (a : A) : (pure a : Prog U S A) = done a := rfl

theorem run_bind (p : Prog U S A) (k : A → Prog U S B) (s : S) :
    (p >>= k).run s =
      match p.run s with
      | (some a, s) => (k a).run s
      | (none, s) => (none, s) := by
  induction p generalizing s with
  | done a => rfl
  | stuck => rfl
  | act label effect next ih => exact ih s (effect s)

/-- A program that comes to its end goes on with what follows it. -/
theorem run_bind_some {p : Prog U S A} {s s' : S} {a : A} (ends : p.run s = (some a, s'))
    (k : A → Prog U S B) : (p >>= k).run s = (k a).run s' := by
  rw [run_bind, ends]

section Step

variable {ι : Type} [DecidableEq ι] {p : Pool ι (Prog U S A) S} {r : ι}

theorem step_act {label : U} {effect : S → S} {next : S → Prog U S A}
    (here : p.threads r = act label effect next) :
    p.step move r = ⟨effect p.shared, Function.update p.threads r (next p.shared), some r⟩ := by
  rw [Pool.step, here]
  rfl

theorem step_shared {label : U} {effect : S → S} {next : S → Prog U S A}
    (here : p.threads r = act label effect next) : (p.step move r).shared = effect p.shared := by
  rw [step_act here]

theorem step_self {label : U} {effect : S → S} {next : S → Prog U S A}
    (here : p.threads r = act label effect next) : (p.step move r).threads r = next p.shared := by
  rw [step_act here]
  exact Function.update_self ..

theorem step_other {label : U} {effect : S → S} {next : S → Prog U S A}
    (here : p.threads r = act label effect next) {j : ι} (other : j ≠ r) :
    (p.step move r).threads j = p.threads j := by
  rw [step_act here]
  exact Function.update_of_ne other ..

theorem step_halted (here : (p.threads r).label = none) : p.step move r = p := by
  rw [Pool.step]
  cases e : p.threads r with
  | done a => rfl
  | stuck => rfl
  | act label effect next =>
    rw [e] at here
    cases here

end Step

section Every

variable {P Q : U → (S → S) → Prop}

theorem Every.bind {p : Prog U S A} {k : A → Prog U S B} (first : p.Every P) (rest : ∀ a, (k a).Every P) :
    (p >>= k).Every P := by
  induction p with
  | done a => exact rest a
  | stuck => trivial
  | act label effect next ih => exact ⟨first.1, fun s => ih s (first.2 s)⟩

theorem Until.bind {p : Prog U S A} {k : A → Prog U S B} (first : p.Until P Q)
    (rest : ∀ a, (k a).Until P Q) : (p >>= k).Until P Q := by
  induction p with
  | done a => exact rest a
  | stuck => trivial
  | act label effect next ih => exact first.imp_right fun h => ⟨h.1, fun s => ih s (h.2 s)⟩

end Every

section Follows

variable {Q : Type} {Here : S → Prop} {leads : Q → U → S → Option Q} {mid : Q → A → Prop}
  {post : Q → B → Prop}

theorem Follows.mono {post' : Q → B → Prop} {p : Prog U S B} {q : Q} (h : p.Follows Here leads post q)
    (weaker : ∀ q b, post q b → post' q b) : p.Follows Here leads post' q := by
  induction p generalizing q with
  | done b => exact weaker q b h
  | stuck => trivial
  | act label effect next ih =>
    intro s here
    obtain ⟨kept, q', leads, follows⟩ := h s here
    exact ⟨kept, q', leads, ih s follows⟩

/-- The rule of sequencing. -/
theorem Follows.bind {p : Prog U S A} {k : A → Prog U S B} {q : Q} (first : p.Follows Here leads mid q)
    (rest : ∀ q a, mid q a → (k a).Follows Here leads post q) : (p >>= k).Follows Here leads post q := by
  induction p generalizing q with
  | done a => exact rest q a first
  | stuck => trivial
  | act label effect next ih =>
    intro s here
    obtain ⟨kept, q', leads, follows⟩ := first s here
    exact ⟨kept, q', leads, ih s follows⟩

end Follows

end Prog
end ModelRuntime.Lib
