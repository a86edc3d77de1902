import ModelRuntime.Cpp.Bytes

/-!
# UTF-8

The core library's predicate, over byte lists. An ASCII byte is a character by itself, so a text can
be cut at one.
-/

namespace ModelRuntime.Lib
open Cpp

/-- Valid UTF-8. -/
def Utf8 (bs : Bytes) : Prop := bs.toByteArray.IsValidUTF8

theorem utf8_iff_chars {bs : Bytes} :
    Utf8 bs ↔ ∃ cs : List Char, bs = cs.flatMap String.utf8EncodeChar := by
  constructor
  · rintro ⟨cs, h⟩
    refine ⟨cs, ?_⟩
    have lists := congrArg (·.data.toList) h
    simpa [List.utf8Encode] using lists
  · rintro ⟨cs, rfl⟩
    exact ⟨cs, rfl⟩

theorem utf8_nil : Utf8 [] := utf8_iff_chars.2 ⟨[], rfl⟩

theorem Utf8.append {a b : Bytes} (h : Utf8 a) (k : Utf8 b) : Utf8 (a ++ b) := by
  obtain ⟨cs, rfl⟩ := utf8_iff_chars.1 h
  obtain ⟨ds, rfl⟩ := utf8_iff_chars.1 k
  apply utf8_iff_chars.2
  exact ⟨cs ++ ds, List.flatMap_append.symm⟩

/-- An ASCII byte is in no encoding but its own. -/
theorem encode_ascii {x : Char} {c : UInt8} (mem : c ∈ String.utf8EncodeChar x) (ascii : c < 128) :
    String.utf8EncodeChar x = [c] := by
  have small : c.toNat < 128 := by simpa using UInt8.lt_iff_toNat_lt.1 ascii
  -- every byte of a longer encoding has its high bit set
  have high : ∀ n d : Nat, 128 ≤ d → n + d < 256 → c ≠ UInt8.ofNat (n + d) := by
    rintro n d hd hn rfl
    rw [UInt8.toNat_ofNat', Nat.mod_eq_of_lt hn] at small
    omega
  revert mem
  fun_cases String.utf8EncodeChar x
  · intro mem
    rw [List.mem_singleton.1 mem]
  all_goals
    intro mem
    exfalso
    simp only [List.mem_cons, List.not_mem_nil, or_false] at mem
  · rcases mem with e | e <;> exact high _ _ (by omega) (by omega) e
  · rcases mem with e | e | e <;> exact high _ _ (by omega) (by omega) e
  · rcases mem with e | e | e | e <;> exact high _ _ (by omega) (by omega) e

theorem utf8_ascii {c : UInt8} (ascii : c < 128) : Utf8 [c] := by
  have small : c.toNat < 128 := by simpa using UInt8.lt_iff_toNat_lt.1 ascii
  apply utf8_iff_chars.2
  refine ⟨[Char.ofUInt8 c], ?_⟩
  have size : (Char.ofUInt8 c).utf8Size = 1 := by
    rw [Char.utf8Size_eq_one_iff, UInt32.le_iff_toNat_le]
    show c.toUInt32.toNat ≤ 127
    rw [UInt8.toNat_toUInt32]
    omega
  rw [List.flatMap_singleton, String.utf8EncodeChar_eq_singleton size]
  show [c] = [c.toUInt32.toUInt8]
  rw [UInt8.toUInt8_toUInt32]

/-- An ASCII byte starts a character and ends it. -/
theorem utf8_cut {a b : Bytes} {c : UInt8} (ascii : c < 128) :
    Utf8 (a ++ c :: b) ↔ Utf8 a ∧ Utf8 b := by
  constructor
  · intro h
    replace h := utf8_iff_chars.1 h
    obtain ⟨cs, h⟩ := h
    induction cs generalizing a with
    | nil => cases a <;> cases h
    | cons x cs ih =>
      have tail : Utf8 (cs.flatMap String.utf8EncodeChar) := utf8_iff_chars.2 ⟨cs, rfl⟩
      have head : Utf8 (String.utf8EncodeChar x) := utf8_iff_chars.2 ⟨[x], by simp⟩
      rw [List.flatMap_cons] at h
      by_cases start : a = [] ∧ c ∈ String.utf8EncodeChar x
      · obtain ⟨rfl, mem⟩ := start
        rw [encode_ascii mem ascii] at h
        obtain ⟨_, rfl⟩ := List.cons.inj h
        exact ⟨utf8_nil, tail⟩
      · obtain ⟨a', rfl, rest⟩ : ∃ a', a = String.utf8EncodeChar x ++ a' ∧
            cs.flatMap String.utf8EncodeChar = a' ++ c :: b := by
          by_cases mem : c ∈ String.utf8EncodeChar x
          · rw [encode_ascii mem ascii] at h ⊢
            obtain ⟨y, a, rfl⟩ := List.exists_cons_of_ne_nil fun nil => start ⟨nil, mem⟩
            obtain ⟨rfl, rest⟩ := List.cons.inj h
            exact ⟨a, rfl, rest.symm⟩
          · exact split_after _ mem h.symm
        obtain ⟨ha, hb⟩ := ih rest.symm
        exact ⟨head.append ha, hb⟩
  · rintro ⟨ha, hb⟩
    exact ha.append ((utf8_ascii ascii).append hb)

/-! ## ASCII texts -/

def Ascii (a : Bytes) : Prop := ∀ c ∈ a, c < 128

instance (a : Bytes) : Decidable (Ascii a) := inferInstanceAs (Decidable (∀ c ∈ a, _))

theorem Ascii.append {a b : Bytes} (h : Ascii a) (k : Ascii b) : Ascii (a ++ b) := by
  intro c mem
  rcases List.mem_append.1 mem with mem | mem
  · exact h c mem
  · exact k c mem

/-- An ASCII text in front changes nothing. -/
theorem utf8_ascii_append {a : Bytes} (ascii : Ascii a) (b : Bytes) : Utf8 (a ++ b) ↔ Utf8 b := by
  induction a with
  | nil => rfl
  | cons c a ih =>
    have rest := ih fun x hx => ascii x (by simp [hx])
    have cut : Utf8 ([] ++ c :: (a ++ b)) ↔ Utf8 [] ∧ Utf8 (a ++ b) := utf8_cut (ascii c (by simp))
    rw [List.cons_append, ← rest]
    exact cut.trans ⟨fun h => h.2, fun h => ⟨utf8_nil, h⟩⟩

theorem Ascii.utf8 {a : Bytes} (ascii : Ascii a) : Utf8 a := by
  have whole := (utf8_ascii_append ascii []).2 utf8_nil
  rwa [List.append_nil] at whole

end ModelRuntime.Lib
