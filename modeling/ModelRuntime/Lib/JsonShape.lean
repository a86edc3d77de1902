import ModelRuntime.Lib.JsonRead

/-!
# The first and the last byte of an object

A reader leaves an end of its text, and the reader of an array or an object one that its closing
byte precedes. So the text of an object stands between its braces.
-/

namespace ModelRuntime.Lib.Json
open Cpp

theorem skipWs_suffix (r : Bytes) : skipWs r <:+ r := List.dropWhile_suffix _

section Readers

variable {α : Type}

/-- What is left is an end of the text. -/
def Leaves (read : Bytes → Option (α × Bytes)) : Prop := ∀ r x rest, read r = some (x, rest) → rest <:+ r

/-- What is left is an end of the text that `close` precedes. -/
def Closes (close : UInt8) (read : Bytes → Option (α × Bytes)) : Prop :=
  ∀ r x rest, read r = some (x, rest) → close :: rest <:+ r

variable {close : UInt8} {r rest : Bytes}

theorem afterItem_closes (other : close ≠ comma) {next : Bytes → Option (List α × Bytes)}
    (h : Closes close next) {x : α} {xs : List α} (e : afterItem close next x r = some (xs, rest)) :
    close :: rest <:+ r := by
  rcases (afterItem_iff other).1 e with ⟨r', ys, sep, hy, _⟩ | ⟨shut, _⟩
  · have inner := (h _ _ _ hy).trans (skipWs_suffix r')
    have after := skipWs_suffix r
    rw [sep] at after
    exact inner.trans ((List.suffix_cons comma r').trans after)
  · rw [← shut]
    exact skipWs_suffix r

theorem container_closes {items : Bytes → Option (List α × Bytes)} (h : Closes close items)
    {wrap : List α → Json} {v : Json} (e : container close items wrap r = some (v, rest)) :
    close :: rest <:+ r := by
  rcases container_iff.1 e with ⟨shut, _⟩ | ⟨_, xs, _, hx⟩
  · rw [← shut]
    exact skipWs_suffix r
  · exact (h _ _ _ hx).trans (skipWs_suffix r)

end Readers

theorem value_leaves {fuel : Nat} (elems : Closes 93 (elements fuel))
    (mems : Closes closeBrace (members fuel)) : Leaves (value (fuel + 1)) := by
  intro r v rest e
  cases r with
  | nil =>
    rw [value] at e
    · cases e
    · exact Nat.succ_ne_zero fuel
  | cons c r =>
    rcases value_cases c r with rfl | rfl | rfl | lit
    · rw [value_string] at e
      obtain ⟨⟨s, t⟩, hs, e'⟩ := Option.map_eq_some_iff.1 e
      obtain ⟨_, rfl⟩ := Prod.mk.inj e'
      obtain ⟨b, rfl⟩ := stringBody_closes hs
      exact ⟨quote :: (b ++ [quote]), by simp⟩
    · rw [value_array] at e
      have inner := container_closes elems e
      exact (List.suffix_cons 93 rest).trans (inner.trans (List.suffix_cons 91 r))
    · rw [value_object] at e
      have inner := container_closes mems e
      exact (List.suffix_cons closeBrace rest).trans (inner.trans (List.suffix_cons openBrace r))
    · rw [lit] at e
      obtain ⟨⟨t, split, _⟩, _⟩ := eats_literal e
      exact ⟨t, split.symm⟩

theorem elements_closes {fuel : Nat} (values : Leaves (value fuel)) (elems : Closes 93 (elements fuel)) :
    Closes 93 (elements (fuel + 1)) := by
  intro r xs rest e
  obtain ⟨x, r', hx, e⟩ := elements_iff.1 e
  exact (afterItem_closes (by decide) elems e).trans (values _ _ _ hx)

theorem members_closes {fuel : Nat} (values : Leaves (value fuel))
    (mems : Closes closeBrace (members fuel)) : Closes closeBrace (members (fuel + 1)) := by
  intro r ms rest e
  obtain ⟨r₁, key, r₂, r₃, x, r₄, rfl, hkey, sep, hx, after⟩ := members_iff.1 e
  obtain ⟨b, rfl⟩ := stringBody_closes hkey
  have inner := (afterItem_closes (by decide) mems after).trans ((values _ _ _ hx).trans (skipWs_suffix r₃))
  have blanks := skipWs_suffix r₂
  rw [sep] at blanks
  have value := inner.trans ((List.suffix_cons colon r₃).trans blanks)
  exact value.trans ⟨quote :: (b ++ [quote]), by simp⟩

theorem reads_ends (fuel : Nat) :
    Leaves (value fuel) ∧ Closes 93 (elements fuel) ∧ Closes closeBrace (members fuel) := by
  induction fuel with
  | zero =>
    refine ⟨fun r x rest e => ?_, fun r x rest e => ?_, fun r x rest e => ?_⟩
    · rw [value] at e
      cases e
    · rw [elements] at e
      cases e
    · rw [members] at e
      cases e
  | succ fuel ih =>
    obtain ⟨values, elems, mems⟩ := ih
    exact ⟨value_leaves elems mems, elements_closes values elems, members_closes values mems⟩

theorem literal_isLiteral {r rest : Bytes} {v : Json} (e : literal r = some (v, rest)) : v.IsLiteral := by
  rw [literal] at e
  split at e
  · cases e
    trivial
  · split at e
    · cases e
      trivial
    · split at e
      · cases e
        trivial
      · obtain ⟨t, _, e⟩ := Option.map_eq_some_iff.1 e
        cases e
        trivial

/-- The text of a JSON object. -/
def ObjectText (t : Bytes) : Prop := ∃ ms, ofText t = some (.object ms)

/-- **An object's text** starts with its opening brace and ends with the closing one. -/
theorem ObjectText.braces {t : Bytes} (h : ObjectText t) :
    ∃ body, t = openBrace :: (body ++ [closeBrace]) := by
  obtain ⟨ms, e⟩ := h
  rw [ofText] at e
  split at e
  · rename_i v read
    cases e
    cases t with
    | nil => cases read
    | cons c r =>
      rcases value_cases c r with rfl | rfl | rfl | lit
      · rw [value_string] at read
        obtain ⟨_, _, same⟩ := Option.map_eq_some_iff.1 read
        cases same
      · rw [value_array] at read
        rcases container_iff.1 read with ⟨_, same⟩ | ⟨_, _, same, _⟩ <;> cases same
      · rw [value_object] at read
        obtain ⟨body, split⟩ := container_closes (reads_ends _).2.2 read
        exact ⟨body, by rw [split]⟩
      · rw [lit] at read
        exact absurd (literal_isLiteral read) (by simp [IsLiteral])
  · cases e

end ModelRuntime.Lib.Json
