import ModelRuntime.Lib.Json

/-!
# Literals and numbers

The bytes a value that is no string, array or object is written with, which no structural byte of
the format is among.
-/

namespace ModelRuntime.Lib.Json
open Cpp

/-- A byte that is neither structural nor blank nor a quote. -/
def isBare (c : UInt8) : Bool :=
  !isWs c && c != quote && c != comma && c != colon && c != 91 && c != 93 && c != openBrace &&
    c != closeBrace

/-- `null`, `true`, `false` and the numbers. -/
def IsLiteral : Json → Prop
  | .null | .bool _ | .number _ => True
  | _ => False

/-- What is left after some bare bytes. -/
def Eats (r rest : Bytes) : Prop := ∃ t, r = t ++ rest ∧ ∀ c ∈ t, isBare c = true

theorem Eats.refl (r : Bytes) : Eats r r := ⟨[], rfl, by simp⟩

theorem Eats.trans {a b c : Bytes} (h : Eats a b) (k : Eats b c) : Eats a c := by
  obtain ⟨t, rfl, ht⟩ := h
  obtain ⟨u, rfl, hu⟩ := k
  refine ⟨t ++ u, by simp, fun x hx => ?_⟩
  rcases List.mem_append.1 hx with hx | hx
  · exact ht x hx
  · exact hu x hx

theorem Eats.cons {c : UInt8} {r rest : Bytes} (bare : isBare c = true) (h : Eats r rest) :
    Eats (c :: r) rest := by
  obtain ⟨t, rfl, ht⟩ := h
  exact ⟨c :: t, rfl, by simpa [bare] using ht⟩

theorem Eats.length {r rest : Bytes} (h : Eats r rest) : rest.length ≤ r.length := by
  obtain ⟨t, rfl, _⟩ := h
  simp

theorem isDigit_bare {c : UInt8} (h : isDigit c = true) : isBare c = true := by
  simp only [isDigit, Bool.and_eq_true, decide_eq_true_eq, UInt8.le_iff_toNat_le,
    UInt8.reduceToNat] at h
  simp only [isBare, isWs, quote, comma, colon, openBrace, closeBrace, Bool.and_eq_true,
    Bool.not_eq_true', Bool.or_eq_false_iff, beq_eq_false_iff_ne, bne_iff_ne, ne_eq, ← UInt8.toNat_inj,
    UInt8.reduceToNat]
  omega

theorem dropByte_eq_some {p : UInt8 → Bool} {r rest : Bytes} :
    dropByte p r = some rest ↔ ∃ c, r = c :: rest ∧ p c = true := by
  cases r with
  | nil => simp [dropByte]
  | cons c r =>
    rw [dropByte]
    split <;> simp_all

theorem eats_digits (r : Bytes) : Eats r (r.dropWhile isDigit) :=
  ⟨r.takeWhile isDigit, List.takeWhile_append_dropWhile.symm, fun _ h =>
    isDigit_bare (List.mem_takeWhile_imp h)⟩

theorem eats_digits1 {r rest : Bytes} (e : digits1 r = some rest) : Eats r rest := by
  cases r with
  | nil => cases e
  | cons c r =>
    rw [digits1] at e
    split at e
    · rename_i digit
      cases e
      exact .cons (isDigit_bare digit) (eats_digits r)
    · cases e

theorem eats_intPart {r rest : Bytes} (e : intPart r = some rest) :
    Eats r rest ∧ rest.length < r.length := by
  cases r with
  | nil => cases e
  | cons c r =>
    rw [intPart] at e
    split at e
    · rename_i zero
      rw [← Option.some.inj e, zero]
      exact ⟨.cons (by decide) (.refl r), by simp⟩
    · split at e
      · rename_i digit
        cases e
        have shorter := (eats_digits r).length
        exact ⟨.cons (isDigit_bare digit) (eats_digits r), by rw [List.length_cons]; omega⟩
      · cases e

/-- An optional sign. -/
theorem eats_optional {p : UInt8 → Bool} (bare : ∀ c, p c = true → isBare c = true) (r : Bytes) :
    Eats r ((dropByte p r).getD r) := by
  cases e : dropByte p r with
  | none => exact .refl r
  | some rest =>
    obtain ⟨c, rfl, hc⟩ := dropByte_eq_some.1 e
    exact .cons (bare c hc) (.refl rest)

theorem eats_fracPart {r rest : Bytes} (e : fracPart r = some rest) : Eats r rest := by
  rw [fracPart] at e
  split at e
  · cases e
    exact .refl r
  · rename_i t ht
    obtain ⟨c, rfl, hc⟩ := dropByte_eq_some.1 ht
    rw [beq_iff_eq.1 hc]
    exact .cons (by decide) (eats_digits1 e)

theorem eats_expPart {r rest : Bytes} (e : expPart r = some rest) : Eats r rest := by
  have sign : ∀ c : UInt8, (c == 43 || c == 45) = true → isBare c = true := by
    intro c h
    rcases Bool.or_eq_true_iff.1 h with h | h <;> rw [beq_iff_eq.1 h] <;> decide
  rw [expPart] at e
  split at e
  · cases e
    exact .refl r
  · rename_i t ht
    obtain ⟨c, rfl, hc⟩ := dropByte_eq_some.1 ht
    have bare : isBare c = true := by
      rcases Bool.or_eq_true_iff.1 hc with hc | hc <;> rw [beq_iff_eq.1 hc] <;> decide
    exact .cons bare ((eats_optional sign t).trans (eats_digits1 e))

theorem eats_afterNumber {r rest : Bytes} (e : afterNumber r = some rest) :
    Eats r rest ∧ rest.length < r.length := by
  have minus : ∀ c : UInt8, (c == 45) = true → isBare c = true := by
    intro c h
    rw [beq_iff_eq.1 h]
    decide
  obtain ⟨r2, e2, e3⟩ := Option.bind_eq_some_iff.1 e
  obtain ⟨r1, e1, e2⟩ := Option.bind_eq_some_iff.1 e2
  obtain ⟨first, less⟩ := eats_intPart e1
  have start := eats_optional minus r
  have rest := (eats_fracPart e2).trans (eats_expPart e3)
  have l1 := start.length
  have l2 := rest.length
  exact ⟨start.trans (first.trans rest), by omega⟩

theorem eats_word {w : String} {r : Bytes} (starts : (str w).isPrefixOf r = true)
    (bare : ∀ c ∈ str w, isBare c = true) : Eats r (r.drop (str w).length) := by
  obtain ⟨t, rfl⟩ := List.isPrefixOf_iff_prefix.1 starts
  rw [List.drop_left]
  exact ⟨str w, rfl, bare⟩

/-- What stands before the text left is made of bare bytes. -/
theorem eats_literal {r rest : Bytes} {v : Json} (e : literal r = some (v, rest)) :
    Eats r rest ∧ rest.length < r.length := by
  have word : ∀ w : String, (str w).isPrefixOf r = true → (∀ c ∈ str w, isBare c = true) →
      str w ≠ [] → Eats r (r.drop (str w).length) ∧ (r.drop (str w).length).length < r.length := by
    intro w starts bare some
    have room := (List.isPrefixOf_iff_prefix.1 starts).length_le
    have pos := List.length_pos_iff.2 some
    refine ⟨eats_word starts bare, ?_⟩
    rw [List.length_drop]
    omega
  rw [literal] at e
  split at e
  · rename_i starts
    cases e
    exact word "true" starts (by decide) (by decide)
  · split at e
    · rename_i starts
      cases e
      exact word "false" starts (by decide) (by decide)
    · split at e
      · rename_i starts
        cases e
        exact word "null" starts (by decide) (by decide)
      · obtain ⟨t, ht, e⟩ := Option.map_eq_some_iff.1 e
        cases e
        exact eats_afterNumber ht

/-- The text of a literal is made of bare bytes. -/
theorem ofText_literal {t : Bytes} {v : Json} (e : ofText t = some v) (lit : v.IsLiteral) :
    t ≠ [] ∧ ∀ c ∈ t, isBare c = true := by
  cases t with
  | nil => cases e
  | cons c r =>
    have structured : ∀ {α : Type} {o : Option (α × Bytes)} {f : α → Json},
        o.map (fun (a, r) => (f a, r)) = some (v, []) → ∃ a, v = f a := by
      intro α o f h
      obtain ⟨⟨a, t⟩, _, hx⟩ := Option.map_eq_some_iff.1 h
      exact ⟨a, (Prod.mk.inj hx).1.symm⟩
    have plain : literal (c :: r) = some (v, []) := by
      rw [ofText] at e
      split at e
      · rename_i w hw
        cases e
        rw [value] at hw
        split at hw
        · obtain ⟨s, rfl⟩ := structured hw
          exact lit.elim
        · split at hw
          · split at hw
            · cases hw
              exact lit.elim
            · obtain ⟨xs, rfl⟩ := structured hw
              exact lit.elim
          · split at hw
            · split at hw
              · cases hw
                exact lit.elim
              · obtain ⟨ms, rfl⟩ := structured hw
                exact lit.elim
            · exact hw
      · cases e
    obtain ⟨⟨t, ht, bare⟩, _⟩ := eats_literal plain
    rw [List.append_nil] at ht
    exact ⟨by simp, ht ▸ bare⟩

/-- No literal starts with another byte. -/
theorem literal_not_bare {c : UInt8} (h : isBare c = false) (r : Bytes) : literal (c :: r) = none := by
  cases lit : literal (c :: r) with
  | none => rfl
  | some x =>
    obtain ⟨w, rest⟩ := x
    obtain ⟨⟨t, split, bare⟩, less⟩ := eats_literal lit
    cases t with
    | nil =>
      rw [List.nil_append] at split
      rw [split] at less
      omega
    | cons d t =>
      rw [List.cons_append] at split
      obtain ⟨rfl, _⟩ := List.cons.inj split
      have := bare c (by simp)
      rw [h] at this
      cases this

/-- No value starts with the closing bracket of an array. -/
theorem ofText_bracket (r : Bytes) : ofText (93 :: r) = none := by
  rw [ofText, value, if_neg (by decide), if_neg (by decide), if_neg (by decide),
    literal_not_bare (by decide)]

/-- What the text of a value starts with. -/
theorem ofText_start {t : Bytes} {v : Json} (e : ofText t = some v) : ∃ c r, t = c :: r ∧
    isWs c = false ∧ (c = quote → ∃ s, v = .string s ∧ stringBody r = some (s, [])) := by
  cases t with
  | nil => cases e
  | cons c r =>
    refine ⟨c, r, rfl, ?_, ?_⟩
    · by_contra blank
      rw [Bool.not_eq_false] at blank
      have other : ∀ d, isWs d = false → c ≠ d := by
        rintro d hd rfl
        rw [blank] at hd
        cases hd
      have notBare : isBare c = false := by simp [isBare, blank]
      rw [ofText, value, if_neg (other quote (by decide)), if_neg (other 91 (by decide)),
        if_neg (other openBrace (by decide)), literal_not_bare notBare] at e
      cases e
    · rintro rfl
      rw [ofText, value, if_pos rfl] at e
      cases body : stringBody r with
      | none =>
        rw [body] at e
        cases e
      | some x =>
        obtain ⟨s, rest⟩ := x
        rw [body] at e
        cases rest with
        | nil =>
          cases e
          exact ⟨s, rfl, rfl⟩
        | cons d rest => cases e

end ModelRuntime.Lib.Json
