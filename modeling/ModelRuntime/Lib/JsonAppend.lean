import ModelRuntime.Lib.JsonText

/-!
# A value's text anywhere

What a reader makes of a text does not depend on what stands behind it, but that a number goes on as long as
there is more of it. So the text of a value is read as that value wherever it is spliced in.
-/

namespace ModelRuntime.Lib.Json
open Cpp

/-- The next text does not go on with what has been read: something is left, or the text behind does not. -/
def Parts (rest u : Bytes) : Prop := rest ≠ [] ∨ Stops u

/-! ## Numbers -/

section Numbers

variable {r rest u : Bytes}

theorem Stops.notDigit (stops : Stops u) : u.dropWhile isDigit = u := by
  cases u with
  | nil => rfl
  | cons c u => rw [List.dropWhile_cons_of_neg (by simp [(stops c rfl).1])]

theorem dropWhile_parts (parts : Parts (r.dropWhile isDigit) u) :
    (r ++ u).dropWhile isDigit = r.dropWhile isDigit ++ u := by
  rw [List.dropWhile_append]
  split
  · rename_i none
    rw [List.isEmpty_iff] at none
    rw [none] at parts ⊢
    exact (parts.resolve_left fun other => other rfl).notDigit
  · rfl

theorem digits1_append (e : digits1 r = some rest) (parts : Parts rest u) :
    digits1 (r ++ u) = some (rest ++ u) := by
  cases r with
  | nil => cases e
  | cons c r =>
    rw [digits1] at e
    rw [List.cons_append, digits1]
    split at e
    · rename_i digit
      cases e
      rw [if_pos digit, dropWhile_parts parts]
    · cases e

theorem intPart_append (e : intPart r = some rest) (parts : Parts rest u) :
    intPart (r ++ u) = some (rest ++ u) := by
  cases r with
  | nil => cases e
  | cons c r =>
    rw [intPart] at e
    rw [List.cons_append, intPart]
    split at e
    · rename_i zero
      cases e
      rw [if_pos zero]
    · rename_i notZero
      rw [if_neg notZero]
      split at e
      · rename_i digit
        cases e
        rw [if_pos digit, dropWhile_parts parts]
      · cases e

/-- The next byte, where there is one. -/
theorem dropByte_append (p : UInt8 → Bool) (some : r ≠ []) :
    dropByte p (r ++ u) = (dropByte p r).map (· ++ u) := by
  cases r with
  | nil => exact absurd rfl some
  | cons c r =>
    rw [List.cons_append, dropByte, dropByte]
    split
    · rfl
    · rfl

theorem fracPart_append (e : fracPart r = some rest) (parts : Parts rest u) :
    fracPart (r ++ u) = some (rest ++ u) := by
  cases r with
  | nil =>
    cases e
    have stops := parts.resolve_left fun other => other rfl
    cases u with
    | nil => rfl
    | cons c u =>
      rw [List.nil_append, fracPart, dropByte, if_neg (by simpa using (stops c rfl).2.1)]
  | cons c r =>
    rw [fracPart] at e ⊢
    rw [dropByte_append _ (List.cons_ne_nil c r)]
    cases point : dropByte (· == 46) (c :: r) with
    | none =>
      rw [point] at e
      cases e
      rfl
    | some digits =>
      rw [point] at e
      exact digits1_append e parts

theorem expPart_append (e : expPart r = some rest) (parts : Parts rest u) :
    expPart (r ++ u) = some (rest ++ u) := by
  cases r with
  | nil =>
    cases e
    have stops := parts.resolve_left fun other => other rfl
    cases u with
    | nil => rfl
    | cons c u =>
      rw [List.nil_append, expPart, dropByte, if_neg (by simpa using (stops c rfl).2.2)]
  | cons c r =>
    rw [expPart] at e ⊢
    rw [dropByte_append _ (List.cons_ne_nil c r)]
    cases letter : dropByte (fun c => c == 101 || c == 69) (c :: r) with
    | none =>
      rw [letter] at e
      cases e
      rfl
    | some signed =>
      rw [letter] at e
      dsimp only [Option.map_some] at e ⊢
      have some : signed ≠ [] := by
        rintro rfl
        cases e
      rw [dropByte_append _ some]
      cases sign : dropByte (fun c => c == 43 || c == 45) signed with
      | none =>
        rw [sign] at e
        exact digits1_append e parts
      | some digits =>
        rw [sign] at e
        exact digits1_append e parts

theorem Parts.earlier {rest' : Bytes} (eats : Eats rest rest') (parts : Parts rest' u) : Parts rest u := by
  rcases parts with some | stops
  · left
    rintro rfl
    obtain ⟨t, split, _⟩ := eats
    exact some (List.append_eq_nil_iff.1 split.symm).2
  · exact .inr stops

theorem afterNumber_append (e : afterNumber r = some rest) (parts : Parts rest u) :
    afterNumber (r ++ u) = some (rest ++ u) := by
  obtain ⟨r₂, e₂, last⟩ := Option.bind_eq_some_iff.1 e
  obtain ⟨r₁, whole, frac⟩ := Option.bind_eq_some_iff.1 e₂
  have parts₂ := parts.earlier (eats_expPart last)
  have parts₁ := parts₂.earlier (eats_fracPart frac)
  have some : r ≠ [] := by
    rintro rfl
    cases whole
  have signed : (dropByte (· == 45) (r ++ u)).getD (r ++ u) = (dropByte (· == 45) r).getD r ++ u := by
    rw [dropByte_append _ some]
    cases dropByte (· == 45) r with
    | none => rfl
    | some digits => rfl
  rw [afterNumber, signed, intPart_append whole parts₁, Option.bind_some, fracPart_append frac parts₂, Option.bind_some,
    expPart_append last parts]

end Numbers

/-! ## Words -/

section Literals

variable {r rest u : Bytes} {v : Json}

/-- A word that a longer text starts with, it starts with, or with another byte. -/
theorem isPrefixOf_append {w : Bytes} {d : UInt8} {t : Bytes} (word : w = d :: t) {c : UInt8}
    (starts : w.isPrefixOf (c :: r) = true) : c = d := by
  rw [word, List.isPrefixOf, Bool.and_eq_true, beq_iff_eq] at starts
  exact starts.1.symm

theorem drop_word {w : Bytes} (starts : w.isPrefixOf r = true) :
    w.isPrefixOf (r ++ u) = true ∧ (r ++ u).drop w.length = r.drop w.length ++ u := by
  obtain ⟨t, rfl⟩ := List.isPrefixOf_iff_prefix.1 starts
  rw [List.append_assoc, List.drop_left, List.drop_left]
  exact ⟨List.isPrefixOf_iff_prefix.2 (List.prefix_append _ _), rfl⟩

theorem literal_append (e : literal r = some (v, rest)) (parts : Parts rest u) :
    literal (r ++ u) = some (v, rest ++ u) := by
  have isTrue : str "true" = 116 :: str "rue" := by decide
  have isFalse : str "false" = 102 :: str "alse" := by decide
  have isNull : str "null" = 110 :: str "ull" := by decide
  cases r with
  | nil => cases e
  | cons c r =>
    have other : ∀ {w : Bytes} {d : UInt8} {t : Bytes}, w = d :: t → c ≠ d → ¬ w.isPrefixOf (c :: r ++ u) = true :=
      fun word no starts => no (isPrefixOf_append word starts)
    rw [literal] at e ⊢
    split at e
    · rename_i starts
      obtain ⟨starts', left⟩ := @drop_word _ u _ starts
      cases e
      rw [if_pos starts']
      exact congrArg (fun t => some (Json.bool true, t)) left
    · split at e
      · rename_i starts
        obtain ⟨starts', left⟩ := @drop_word _ u _ starts
        have first := isPrefixOf_append isFalse starts
        cases e
        rw [if_neg (other isTrue (by rw [first]; decide)), if_pos starts']
        exact congrArg (fun t => some (Json.bool false, t)) left
      · split at e
        · rename_i starts
          obtain ⟨starts', left⟩ := @drop_word _ u _ starts
          have first := isPrefixOf_append isNull starts
          cases e
          rw [if_neg (other isTrue (by rw [first]; decide)), if_neg (other isFalse (by rw [first]; decide)),
            if_pos starts']
          exact congrArg (fun t => some (Json.null, t)) left
        · obtain ⟨left, number, same⟩ := Option.map_eq_some_iff.1 e
          obtain ⟨rfl, rfl⟩ := Prod.mk.inj same
          -- a number starts with none of the words' bytes
          have noWord : ∀ d : UInt8, (∀ t, afterNumber (d :: t) = none) → c ≠ d := by
            rintro d none rfl
            rw [none] at number
            cases number
          rw [if_neg (other isTrue (noWord 116 fun _ => rfl)), if_neg (other isFalse (noWord 102 fun _ => rfl)),
            if_neg (other isNull (noWord 110 fun _ => rfl)), afterNumber_append number parts, Option.map_some,
            List.length_append, List.length_append, Nat.add_sub_add_right, List.take_append_of_le_length (Nat.sub_le _ _)]

end Literals

/-! ## Values -/

/-- A reader that reads the same before any text that parts from what it has read. -/
def Local {α : Type} (read : Bytes → Option (α × Bytes)) : Prop :=
  ∀ {r rest u : Bytes} {x : α}, read r = some (x, rest) → Parts rest u → read (r ++ u) = some (x, rest ++ u)

/-- A reader that ends with a byte of its own. -/
structure Bracketed {α : Type} (read : Bytes → Option (α × Bytes)) : Prop where
  empty : read [] = none
  append : ∀ {r rest : Bytes} {x : α}, read r = some (x, rest) → ∀ u, read (r ++ u) = some (x, rest ++ u)

section Readers

variable {α : Type} {close : UInt8} {r rest u : Bytes}

theorem skipWs_left (some : skipWs r ≠ []) (u : Bytes) : skipWs (r ++ u) = skipWs r ++ u := by
  rw [skipWs, List.dropWhile_append, if_neg]
  · rfl
  · rw [List.isEmpty_iff]
    exact some

theorem Bracketed.nonempty {next : Bytes → Option (α × Bytes)} (items : Bracketed next) {x : α}
    (e : next r = some (x, rest)) : r ≠ [] := by
  rintro rfl
  rw [items.empty] at e
  cases e

theorem skipWs_starts {c : UInt8} {t : Bytes} (e : skipWs r = c :: t) (u : Bytes) :
    r ≠ [] ∧ skipWs (r ++ u) = c :: (t ++ u) := by
  have some : skipWs r ≠ [] := by
    rw [e]
    exact List.cons_ne_nil _ _
  refine ⟨fun none => some (by rw [none]; rfl), ?_⟩
  rw [skipWs_left some, e, List.cons_append]

theorem afterItem_append (other : close ≠ comma) {next : Bytes → Option (List α × Bytes)} (items : Bracketed next)
    {x : α} {xs : List α} (e : afterItem close next x r = some (xs, rest)) (u : Bytes) :
    r ≠ [] ∧ afterItem close next x (r ++ u) = some (xs, rest ++ u) := by
  rcases (afterItem_iff other).1 e with ⟨r', ys, sep, hy, rfl⟩ | ⟨shut, rfl⟩
  · obtain ⟨some, sep'⟩ := skipWs_starts sep u
    refine ⟨some, (afterItem_iff other).2 (.inl ⟨r' ++ u, ys, sep', ?_, rfl⟩)⟩
    rw [skipWs_left (items.nonempty hy)]
    exact items.append hy u
  · obtain ⟨some, shut'⟩ := skipWs_starts shut u
    exact ⟨some, (afterItem_iff other).2 (.inr ⟨shut', rfl⟩)⟩

theorem container_append {items : Bytes → Option (List α × Bytes)} (bracketed : Bracketed items)
    {wrap : List α → Json} {v : Json} (e : container close items wrap r = some (v, rest)) (u : Bytes) :
    container close items wrap (r ++ u) = some (v, rest ++ u) := by
  rcases container_iff.1 e with ⟨shut, same⟩ | ⟨never, xs, same, hx⟩
  · exact container_iff.2 (.inl ⟨(skipWs_starts shut u).2, same⟩)
  · have some := bracketed.nonempty hx
    refine container_iff.2 (.inr ⟨fun t shut => ?_, xs, same, ?_⟩)
    · cases start : skipWs r with
      | nil => exact some start
      | cons c t' =>
        rw [(skipWs_starts start u).2] at shut
        obtain ⟨rfl, _⟩ := List.cons.inj shut
        exact never t' start
    · rw [skipWs_left some]
      exact bracketed.append hx u

end Readers

theorem value_local {fuel : Nat} (elems : Bracketed (elements fuel)) (mems : Bracketed (members fuel)) :
    Local (value (fuel + 1)) := by
  intro r rest u v e parts
  cases r with
  | nil =>
    rw [value] at e
    · cases e
    · exact Nat.succ_ne_zero fuel
  | cons c r =>
    rw [List.cons_append]
    by_cases string : c = quote
    · subst string
      rw [value_string] at e ⊢
      obtain ⟨⟨s, t⟩, hs, same⟩ := Option.map_eq_some_iff.1 e
      cases same
      rw [stringBody_append.2 hs, Option.map_some]
    by_cases array : c = 91
    · subst array
      rw [value_array] at e ⊢
      exact container_append elems e u
    by_cases object : c = openBrace
    · subst object
      rw [value_object] at e ⊢
      exact container_append mems e u
    · rw [value, if_neg string, if_neg array, if_neg object] at e ⊢
      exact literal_append e parts

theorem elements_bracketed {fuel : Nat} (values : Local (value fuel)) (elems : Bracketed (elements fuel)) :
    Bracketed (elements (fuel + 1)) where
  empty := by
    rw [elements]
    cases fuel with
    | zero => rfl
    | succ fuel => rfl
  append := by
    intro r rest xs e u
    obtain ⟨x, r', hx, after⟩ := elements_iff.1 e
    obtain ⟨some, after'⟩ := afterItem_append (by decide) elems after u
    exact elements_iff.2 ⟨x, r' ++ u, values hx (.inl some), after'⟩

theorem members_bracketed {fuel : Nat} (values : Local (value fuel)) (mems : Bracketed (members fuel)) :
    Bracketed (members (fuel + 1)) where
  empty := rfl
  append := by
    intro r rest ms e u
    obtain ⟨r₁, key, r₂, r₃, x, r₄, rfl, hkey, sep, hx, after⟩ := members_iff.1 e
    obtain ⟨some, after'⟩ := afterItem_append (by decide) mems after u
    have starts : skipWs r₃ ≠ [] := by
      intro none
      rw [none] at hx
      cases fuel with
      | zero => cases hx
      | succ fuel => cases hx
    refine members_iff.2 ⟨r₁ ++ u, key, r₂ ++ u, r₃ ++ u, x, r₄ ++ u, rfl, stringBody_append.2 hkey,
      (skipWs_starts sep u).2, ?_, after'⟩
    rw [skipWs_left starts]
    exact values hx (.inl some)

theorem readers_append (fuel : Nat) :
    Local (value fuel) ∧ Bracketed (elements fuel) ∧ Bracketed (members fuel) := by
  induction fuel with
  | zero =>
    refine ⟨fun e => ?_, ⟨?_, fun e => ?_⟩, ⟨?_, fun e => ?_⟩⟩
    · rw [value] at e
      cases e
    · rw [elements]
    · rw [elements] at e
      cases e
    · rw [members]
    · rw [members] at e
      cases e
  | succ fuel ih =>
    obtain ⟨values, elems, mems⟩ := ih
    exact ⟨value_local elems mems, elements_bracketed values elems, members_bracketed values mems⟩

/-- **The text of a value** is read as that value wherever it stands. -/
theorem reads_ofText {t : Bytes} {v : Json} (e : ofText t = some v) : Reads t v := by
  intro fuel rest more stops
  rw [ofText] at e
  split at e
  · rename_i read
    cases e
    have whole := (readers_append fuel).1 (value_fuel read (g := fuel) (by rw [List.length_nil]; omega)) (.inr stops)
    rwa [List.nil_append] at whole
  · cases e

end ModelRuntime.Lib.Json
