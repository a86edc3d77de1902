import ModelRuntime.Lib.JsonLiteral
import ModelRuntime.Lib.JsonString

/-!
# What a reader has done

One inversion lemma for each reader, and from them the fact about the fuel: a value that is read at
all is read the same with any fuel above the number of its bytes.
-/

namespace ModelRuntime.Lib.Json
open Cpp

theorem skipWs_length (r : Bytes) : (skipWs r).length ≤ r.length := (List.dropWhile_suffix _).length_le

/-- After an item of an array or object: a comma and the next items, or the closing byte. -/
def afterItem {α : Type} (close : UInt8) (next : Bytes → Option (List α × Bytes)) (x : α) (r : Bytes) :
    Option (List α × Bytes) :=
  match dropByte (· == comma) (skipWs r) with
  | some r => (next (skipWs r)).map fun (xs, r) => (x :: xs, r)
  | none => (dropByte (· == close) (skipWs r)).map fun r => ([x], r)

theorem dropByte_beq {c : UInt8} {r rest : Bytes} :
    dropByte (· == c) r = some rest ↔ r = c :: rest := by
  rw [dropByte_eq_some]
  constructor
  · rintro ⟨d, rfl, hd⟩
    rw [beq_iff_eq.1 hd]
  · rintro rfl
    exact ⟨c, rfl, beq_self_eq_true c⟩

section Readers

variable {α : Type} {fuel : Nat} {r rest : Bytes}

theorem afterItem_iff {close : UInt8} (other : close ≠ comma) {next : Bytes → Option (List α × Bytes)}
    {x : α} {xs : List α} :
    afterItem close next x r = some (xs, rest) ↔
      (∃ r' ys, skipWs r = comma :: r' ∧ next (skipWs r') = some (ys, rest) ∧ xs = x :: ys) ∨
      skipWs r = close :: rest ∧ xs = [x] := by
  unfold afterItem
  cases sep : dropByte (· == comma) (skipWs r) with
  | some r' =>
    rw [dropByte_beq] at sep
    rw [sep]
    simp only [Option.map_eq_some_iff, Prod.exists, Prod.mk.injEq, List.cons.injEq, true_and]
    constructor
    · rintro ⟨ys, t, h, rfl, rfl⟩
      exact .inl ⟨r', ys, rfl, h, rfl⟩
    · rintro (⟨r'', ys, rfl, h, rfl⟩ | ⟨⟨same, _⟩, _⟩)
      · exact ⟨ys, rest, h, rfl, rfl⟩
      · exact absurd same.symm other
  | none =>
    have noComma : ∀ t, skipWs r ≠ comma :: t := by
      intro t h
      rw [dropByte_beq.2 h] at sep
      cases sep
    simp only [Option.map_eq_some_iff, dropByte_beq, Prod.mk.injEq]
    constructor
    · rintro ⟨t, h, rfl, rfl⟩
      exact .inr ⟨h, rfl⟩
    · rintro (⟨t, _, h, _⟩ | ⟨h, rfl⟩)
      · exact absurd h (noComma t)
      · exact ⟨rest, h, rfl, rfl⟩

theorem elements_iff {xs : List Json} :
    elements (fuel + 1) r = some (xs, rest) ↔
      ∃ x r', value fuel r = some (x, r') ∧
        afterItem 93 (elements fuel) x r' = some (xs, rest) := by
  rw [elements]
  simp only [Option.bind_eq_bind, Option.bind_eq_some_iff, Prod.exists]
  rfl

theorem members_iff {ms : List (Bytes × Json)} :
    members (fuel + 1) r = some (ms, rest) ↔
      ∃ r₁ key r₂ r₃ x r₄, r = quote :: r₁ ∧ stringBody r₁ = some (key, r₂) ∧ skipWs r₂ = colon :: r₃ ∧
        value fuel (skipWs r₃) = some (x, r₄) ∧
        afterItem closeBrace (members fuel) (key, x) r₄ = some (ms, rest) := by
  rw [members]
  simp only [Option.bind_eq_bind, Option.bind_eq_some_iff, Prod.exists, dropByte_beq]
  constructor
  · rintro ⟨r₁, rfl, key, r₂, hkey, r₃, sep, x, r₄, hx, e⟩
    exact ⟨r₁, key, r₂, r₃, x, r₄, rfl, hkey, sep, hx, e⟩
  · rintro ⟨r₁, key, r₂, r₃, x, r₄, rfl, hkey, sep, hx, e⟩
    exact ⟨r₁, rfl, key, r₂, hkey, r₃, sep, x, r₄, hx, e⟩

/-- After the opening byte of an array or object. -/
def container (close : UInt8) (items : Bytes → Option (List α × Bytes)) (wrap : List α → Json)
    (r : Bytes) : Option (Json × Bytes) :=
  match dropByte (· == close) (skipWs r) with
  | some r => some (wrap [], r)
  | none => (items (skipWs r)).map fun (xs, r) => (wrap xs, r)

theorem container_iff {close : UInt8} {items : Bytes → Option (List α × Bytes)}
    {wrap : List α → Json} {v : Json} :
    container close items wrap r = some (v, rest) ↔
      (skipWs r = close :: rest ∧ v = wrap []) ∨
      (∀ t, skipWs r ≠ close :: t) ∧ ∃ xs, v = wrap xs ∧ items (skipWs r) = some (xs, rest) := by
  unfold container
  cases shut : dropByte (· == close) (skipWs r) with
  | some r' =>
    rw [dropByte_beq] at shut
    rw [shut]
    simp only [Option.some.injEq, Prod.mk.injEq, List.cons.injEq, true_and]
    constructor
    · rintro ⟨rfl, rfl⟩
      exact .inl ⟨rfl, rfl⟩
    · rintro (⟨rfl, rfl⟩ | ⟨never, _⟩)
      · exact ⟨rfl, rfl⟩
      · exact absurd rfl (never r')
  | none =>
    have never : ∀ t, skipWs r ≠ close :: t := by
      intro t h
      rw [dropByte_beq.2 h] at shut
      cases shut
    simp only [Option.map_eq_some_iff, Prod.exists, Prod.mk.injEq]
    constructor
    · rintro ⟨xs, t, h, rfl, rfl⟩
      exact .inr ⟨never, xs, rfl, h⟩
    · rintro (⟨h, _⟩ | ⟨_, xs, rfl, h⟩)
      · exact absurd h (never rest)
      · exact ⟨xs, rest, h, rfl, rfl⟩

theorem value_string : value (fuel + 1) (quote :: r) = (stringBody r).map fun (s, r) => (.string s, r) := by
  rw [value, if_pos rfl]

theorem value_array : value (fuel + 1) (91 :: r) = container 93 (elements fuel) .array r := by
  rw [value, if_neg (by decide), if_pos rfl]
  rfl

theorem value_object :
    value (fuel + 1) (openBrace :: r) = container closeBrace (members fuel) .object r := by
  rw [value, if_neg (by decide), if_neg (by decide), if_pos rfl]
  rfl

/-- The first byte of a value decides who reads it. -/
theorem value_cases (c : UInt8) (r : Bytes) :
    c = quote ∨ c = 91 ∨ c = openBrace ∨ ∀ g, value (g + 1) (c :: r) = literal (c :: r) := by
  by_cases hq : c = quote
  · exact .inl hq
  by_cases hb : c = 91
  · exact .inr (.inl hb)
  by_cases ho : c = openBrace
  · exact .inr (.inr (.inl ho))
  · refine .inr (.inr (.inr fun g => ?_))
    rw [value, if_neg hq, if_neg hb, if_neg ho]

end Readers

/-! ## The fuel -/

/-- A reader that always leaves less than it was given and does as well with any fuel above the
number of bytes it has read. -/
def Settled {α : Type} (read : Nat → Bytes → Option (α × Bytes)) (fuel : Nat) : Prop :=
  ∀ r x rest, read fuel r = some (x, rest) →
    rest.length < r.length ∧ ∀ g, r.length < g + rest.length → read g r = some (x, rest)

theorem afterItem_settled {α : Type} {read : Nat → Bytes → Option (List α × Bytes)} {fuel : Nat}
    {close : UInt8} (other : close ≠ comma) (h : Settled read fuel) {x : α} {r rest : Bytes}
    {xs : List α} (e : afterItem close (read fuel) x r = some (xs, rest)) :
    rest.length < r.length ∧ ∀ g, r.length ≤ g + rest.length →
      afterItem close (read g) x r = some (xs, rest) := by
  have blanks := skipWs_length r
  rcases (afterItem_iff other).1 e with ⟨r', ys, sep, hy, rfl⟩ | ⟨shut, rfl⟩
  · have blanks' := skipWs_length r'
    obtain ⟨less, again⟩ := h _ _ _ hy
    rw [sep, List.length_cons] at blanks
    refine ⟨by omega, fun g more => ?_⟩
    exact (afterItem_iff other).2 (.inl ⟨r', ys, sep, again g (by omega), rfl⟩)
  · rw [shut, List.length_cons] at blanks
    refine ⟨by omega, fun g _ => ?_⟩
    exact (afterItem_iff other).2 (.inr ⟨shut, rfl⟩)

theorem container_settled {α : Type} {items : Nat → Bytes → Option (List α × Bytes)} {fuel : Nat}
    {close : UInt8} (h : Settled items fuel) {wrap : List α → Json} {r rest : Bytes} {v : Json}
    (e : container close (items fuel) wrap r = some (v, rest)) :
    rest.length < r.length ∧ ∀ g, r.length < g + rest.length →
      container close (items g) wrap r = some (v, rest) := by
  have blanks := skipWs_length r
  rcases container_iff.1 e with ⟨shut, rfl⟩ | ⟨never, xs, rfl, hx⟩
  · rw [shut, List.length_cons] at blanks
    refine ⟨by omega, fun g _ => ?_⟩
    exact container_iff.2 (.inl ⟨shut, rfl⟩)
  · obtain ⟨less, again⟩ := h _ _ _ hx
    refine ⟨by omega, fun g more => ?_⟩
    exact container_iff.2 (.inr ⟨never, xs, rfl, again g (by omega)⟩)

theorem value_settled {fuel : Nat} (elems : Settled elements fuel) (mems : Settled members fuel) :
    Settled value (fuel + 1) := by
  intro r v rest e
  cases r with
  | nil =>
    rw [value] at e
    · cases e
    · exact Nat.succ_ne_zero fuel
  | cons c r =>
    have more : ∀ {g}, (c :: r).length < g + rest.length → rest.length ≤ r.length →
        ∃ g', g = g' + 1 ∧ r.length < g' + rest.length := by
      intro g h le
      rw [List.length_cons] at h
      exact ⟨g - 1, by omega, by omega⟩
    rw [List.length_cons]
    rcases value_cases c r with rfl | rfl | rfl | lit
    · rw [value_string] at e
      obtain ⟨⟨s, t⟩, hs, e'⟩ := Option.map_eq_some_iff.1 e
      obtain ⟨_, rfl⟩ := Prod.mk.inj e'
      obtain ⟨b, rfl⟩ := stringBody_closes hs
      refine ⟨by simp; omega, fun g hg => ?_⟩
      obtain ⟨g, rfl, _⟩ := more hg (by simp; omega)
      exact e
    · rw [value_array] at e
      obtain ⟨less, again⟩ := container_settled elems e
      refine ⟨by omega, fun g hg => ?_⟩
      obtain ⟨g, rfl, hg'⟩ := more hg (by omega)
      rw [value_array, again g hg']
    · rw [value_object] at e
      obtain ⟨less, again⟩ := container_settled mems e
      refine ⟨by omega, fun g hg => ?_⟩
      obtain ⟨g, rfl, hg'⟩ := more hg (by omega)
      rw [value_object, again g hg']
    · rw [lit] at e
      have less := (eats_literal e).2
      rw [List.length_cons] at less
      refine ⟨less, fun g hg => ?_⟩
      obtain ⟨g, rfl, _⟩ := more hg (by omega)
      rw [lit, e]

theorem elements_settled {fuel : Nat} (values : Settled value fuel) (elems : Settled elements fuel) :
    Settled elements (fuel + 1) := by
  intro r xs rest e
  obtain ⟨x, r', hx, e⟩ := elements_iff.1 e
  obtain ⟨less, again⟩ := values _ _ _ hx
  obtain ⟨less', again'⟩ := afterItem_settled (by decide) elems e
  refine ⟨by omega, fun g more => ?_⟩
  cases g with
  | zero => omega
  | succ g => exact elements_iff.2 ⟨x, r', again g (by omega), again' g (by omega)⟩

theorem members_settled {fuel : Nat} (values : Settled value fuel) (mems : Settled members fuel) :
    Settled members (fuel + 1) := by
  intro r ms rest e
  obtain ⟨r₁, key, r₂, r₃, x, r₄, rfl, hkey, sep, hx, e⟩ := members_iff.1 e
  obtain ⟨b, hb⟩ := stringBody_closes hkey
  obtain ⟨less, again⟩ := values _ _ _ hx
  obtain ⟨less', again'⟩ := afterItem_settled (by decide) mems e
  have blanks := skipWs_length r₂
  have blanks' := skipWs_length r₃
  have size := congrArg List.length hb
  rw [sep, List.length_cons] at blanks
  rw [List.length_append, List.length_cons] at size
  rw [List.length_cons]
  refine ⟨by omega, fun g more => ?_⟩
  cases g with
  | zero => omega
  | succ g =>
    exact members_iff.2
      ⟨r₁, key, r₂, r₃, x, r₄, rfl, hkey, sep, again g (by omega), again' g (by omega)⟩

theorem settled (fuel : Nat) : Settled value fuel ∧ Settled elements fuel ∧ Settled members fuel := by
  induction fuel with
  | zero =>
    refine ⟨fun r x rest e => ?_, fun r x rest e => ?_, fun r x rest e => ?_⟩
    · rw [value] at e
      cases e
    · rw [elements] at e
      cases e
    · rw [members] at e
      cases e
  | succ fuel ih =>
    obtain ⟨values, elems, mems⟩ := ih
    exact ⟨value_settled elems mems, elements_settled values elems, members_settled values mems⟩

/-- **Fuel** above the number of bytes is never what a value is refused for. -/
theorem value_fuel {f : Nat} {r rest : Bytes} {v : Json} (e : value f r = some (v, rest)) {g : Nat}
    (more : r.length < g + rest.length) : value g r = some (v, rest) :=
  ((settled f).1 _ _ _ e).2 g more

theorem decode_iff {bs : Bytes} {v : Json} :
    decode bs = some v ↔ ∃ fuel rest, value fuel (skipWs bs) = some (v, rest) ∧ skipWs rest = [] := by
  rw [decode]
  constructor
  · intro e
    split at e
    · rename_i w rest h
      split at e
      · rename_i blank
        cases e
        exact ⟨_, rest, h, blank⟩
      · cases e
    · cases e
  · rintro ⟨fuel, rest, h, blank⟩
    have blanks := skipWs_length bs
    rw [value_fuel h (show (skipWs bs).length < bs.length + 1 + rest.length by omega)]
    exact if_pos blank

end ModelRuntime.Lib.Json
