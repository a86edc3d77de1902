import Mathlib.Data.Nat.Digits.Defs
import Mathlib.Data.Nat.Digits.Lemmas
import ModelRuntime.Cpp.Bytes

/-!
# Integer conversions

`static_cast` between the integer types the program uses, `std::stoi`, and the decimal text an
`ostream` or `std::to_string` writes. `stoi_decimalInt` is the round trip on the 32-bit range.
-/

namespace ModelRuntime.Cpp

/-- `static_cast<int>`: the low 32 bits, as a signed number. -/
def toInt (n : Int) : Int := n.bmod (2 ^ 32)

/-- The conversion of an `int` to `size_t`: a negative one wraps. -/
def toSizeT (n : Int) : Nat := if n < 0 then (2 ^ 64 + n).toNat else n.toNat

/-- The number a run of digits writes. -/
def digitsValue (ds : Bytes) : Nat := ds.foldl (fun n c => n * 10 + (c.toNat - 48)) 0

/-- `std::stoi` in base 10: blanks, a sign, digits; anything after the digits is ignored. -/
def stoi (s : Bytes) : Except StdException Int :=
  let t := s.dropWhile isSpace
  let (negative, u) := match t with
    | 45 :: u => (true, u)
    | 43 :: u => (false, u)
    | u => (false, u)
  let digits := u.takeWhile isDigit
  if digits = [] then .error (.invalidArgument (str "stoi"))
  else
    let v : Int := if negative then -digitsValue digits else digitsValue digits
    if v < -2 ^ 31 ∨ 2 ^ 31 ≤ v then .error (.outOfRange (str "stoi")) else .ok v

/-- The decimal text of a natural number. -/
def decimal (n : Nat) : Bytes :=
  if n = 0 then [48] else (Nat.digits 10 n).reverse.map fun d => UInt8.ofNat (48 + d)

/-- The decimal text of an integer. -/
def decimalInt (n : Int) : Bytes := if n < 0 then 45 :: decimal n.natAbs else decimal n.natAbs

/-- A truncated position is negative or no larger than the position. -/
theorem toInt_le (n : Nat) : toInt n ≤ n := by
  unfold toInt
  rw [Int.bmod_def]
  omega

theorem toInt_of_lt {n : Nat} (small : n < 2 ^ 31) : toInt n = n := by
  unfold toInt
  rw [Int.bmod_def]
  omega

theorem toInt_of_range {n : Int} (low : -2 ^ 31 ≤ n) (high : n < 2 ^ 31) : toInt n = n := by
  unfold toInt
  rw [Int.bmod_def]
  omega

theorem toInt_negative {n : Nat} (low : 2 ^ 31 ≤ n) (high : n < 2 ^ 32) : toInt n < 0 := by
  unfold toInt
  rw [Int.bmod_def]
  omega

theorem toInt_lt (n : Nat) : toInt n < 2 ^ 31 := by
  unfold toInt
  rw [Int.bmod_def]
  omega

theorem toInt_add_wrap (n : Nat) : toInt (n + 2 ^ 32 : Nat) = toInt n := by
  unfold toInt
  rw [Int.bmod_def, Int.bmod_def]
  omega

theorem toInt_eq_zero_iff {n : Int} : toInt n = 0 ↔ (2 : Int) ^ 32 ∣ n := by
  rw [toInt, Int.bmod_def]
  omega

theorem toInt_toInt_add (a b : Int) : toInt (toInt a + b) = toInt (a + b) := Int.bmod_add_bmod

theorem toInt_toInt_sub (a b : Int) : toInt (toInt a - b) = toInt (a - b) := Int.bmod_sub_bmod

theorem toInt_toInt (n : Int) : toInt (toInt n) = toInt n := Int.bmod_bmod

theorem toInt_succ_ne (n : Int) : toInt (1 + n) ≠ toInt n := by
  unfold toInt
  rw [Int.bmod_def, Int.bmod_def]
  omega

theorem toSizeT_of_pos {n : Int} (h : 0 < n) : 0 < toSizeT n := by
  unfold toSizeT
  split <;> omega

theorem toSizeT_cast {n : Int} (h : 0 < n) : (toSizeT n : Int) = n := by
  unfold toSizeT
  split <;> omega

theorem digit_byte {d : Nat} (h : d < 10) :
    isDigit (UInt8.ofNat (48 + d)) = true ∧ (UInt8.ofNat (48 + d)).toNat - 48 = d := by
  have key : ∀ d < 10, isDigit (UInt8.ofNat (48 + d)) = true ∧ (UInt8.ofNat (48 + d)).toNat - 48 = d := by
    decide
  exact key d h

theorem decimal_ne_nil (n : Nat) : decimal n ≠ [] := by
  unfold decimal
  split
  · simp
  · rename_i h
    simp [Nat.digits_eq_nil_iff_eq_zero, h]

theorem decimal_digits (n : Nat) : ∀ c ∈ decimal n, isDigit c = true := by
  unfold decimal
  split
  · decide
  · intro c hc
    obtain ⟨d, hd, rfl⟩ := List.mem_map.1 hc
    exact (digit_byte (Nat.digits_lt_base (by omega) (List.mem_reverse.1 hd))).1

/-- Only zero is written with a leading `0`. -/
theorem decimal_head {n : Nat} (h : n ≠ 0) : (decimal n).head? ≠ some 48 := by
  have hd : Nat.digits 10 n ≠ [] := by simpa [Nat.digits_eq_nil_iff_eq_zero] using h
  have last := Nat.getLast_digit_ne_zero 10 h
  have bound := Nat.digits_lt_base (b := 10) (by omega) (List.getLast_mem hd)
  unfold decimal
  rw [if_neg h, List.head?_map, List.head?_reverse, List.getLast?_eq_some_getLast hd]
  intro e
  have e := congrArg (fun c : UInt8 => c.toNat - 48) (Option.some.inj e)
  rw [show ((UInt8.ofNat (48 + (Nat.digits 10 n).getLast hd)).toNat - 48 = _) from (digit_byte bound).2] at e
  exact last e

theorem digitsValue_lt {ds : Bytes} (digits : ∀ c ∈ ds, isDigit c = true) :
    digitsValue ds < 10 ^ ds.length := by
  induction ds using List.reverseRecOn with
  | nil => exact Nat.one_pos
  | append_singleton ds c ih =>
    have front := ih fun x hx => digits x (by simp [hx])
    have last := digits c (by simp)
    have small : c.toNat - 48 < 10 := by
      simp only [isDigit, Bool.and_eq_true, decide_eq_true_eq, UInt8.le_iff_toNat_le] at last
      have := last.2
      simp only [UInt8.reduceToNat] at this
      omega
    rw [digitsValue, List.foldl_append, ← digitsValue, List.foldl_cons, List.foldl_nil,
      List.length_append, List.length_singleton, Nat.pow_succ]
    omega

/-- How many digits a number has. -/
theorem decimal_length_le {n k : Nat} (pos : 0 < k) : (decimal n).length ≤ k ↔ n < 10 ^ k := by
  unfold decimal
  split
  · rename_i zero
    subst zero
    simpa using Nat.succ_le_of_lt pos
  · rw [List.length_map, List.length_reverse, Nat.digits_length_le_iff (by omega)]

theorem digitsValue_map (ds : List Nat) (h : ∀ d ∈ ds, d < 10) :
    digitsValue (ds.reverse.map fun d => UInt8.ofNat (48 + d)) = Nat.ofDigits 10 ds := by
  induction ds with
  | nil => rfl
  | cons d ds ih =>
    have hd := (digit_byte (h d (by simp))).2
    have hds := ih fun x hx => h x (by simp [hx])
    rw [List.reverse_cons, List.map_append, digitsValue, List.foldl_append, ← digitsValue, hds,
      Nat.ofDigits_cons]
    simp only [List.map_cons, List.map_nil, List.foldl_cons, List.foldl_nil, hd]
    omega

theorem digitsValue_decimal (n : Nat) : digitsValue (decimal n) = n := by
  unfold decimal
  split
  · rename_i h
    subst h
    rfl
  · rw [digitsValue_map _ fun d hd => Nat.digits_lt_base (by omega) hd, Nat.ofDigits_digits]

/-- A digit is neither a blank nor a sign. -/
theorem isDigit_not_other {c : UInt8} (h : isDigit c = true) :
    isSpace c = false ∧ c ≠ 45 ∧ c ≠ 43 := by
  have key : ∀ c : UInt8, isDigit c = true → isSpace c = false ∧ c ≠ 45 ∧ c ≠ 43 := by
    intro c
    simp only [isDigit, isSpace, Bool.and_eq_true, decide_eq_true_eq, UInt8.le_iff_toNat_le,
      Bool.or_eq_false_iff, Bool.and_eq_false_iff, decide_eq_false_iff_not, beq_eq_false_iff_ne, ne_eq,
      ← UInt8.toNat_inj]
    simp only [UInt8.reduceToNat]
    omega
  exact key c h

/-- `std::stoi` of digits alone: their number, where an `int` holds it. -/
theorem stoi_digits {ds : Bytes} (ne : ds ≠ []) (digits : ∀ c ∈ ds, isDigit c = true) :
    stoi ds = if 2 ^ 31 ≤ digitsValue ds then .error (.outOfRange (str "stoi"))
      else .ok (digitsValue ds) := by
  obtain ⟨c, r, hc⟩ := List.exists_cons_of_ne_nil ne
  obtain ⟨hs, hm, hp⟩ := isDigit_not_other (digits c (by simp [hc]))
  have noBlank : ds.dropWhile isSpace = ds := by
    rw [hc, List.dropWhile_cons, hs]
    rfl
  have all : ds.takeWhile isDigit = ds := List.takeWhile_eq_self_iff.2 digits
  simp only [stoi, noBlank]
  rw [hc]
  split
  · rename_i e
    exact absurd (List.cons.inj e).1 hm
  · rename_i e
    exact absurd (List.cons.inj e).1 hp
  · rw [← hc, all, if_neg ne]
    simp only [Bool.false_eq_true, if_false]
    split <;> split <;> first | rfl | omega

theorem stoi_blank (s : Bytes) : stoi (32 :: s) = stoi s := by
  have blank : isSpace 32 = true := by decide
  simp only [stoi, List.dropWhile_cons, blank, if_true]

/-- `std::stoi` reads back what `std::to_string` wrote. -/
theorem stoi_decimalInt {n : Int} (lo : -2 ^ 31 ≤ n) (hi : n < 2 ^ 31) :
    stoi (decimalInt n) = .ok n := by
  unfold decimalInt
  split
  · rename_i neg
    have digits : (decimal n.natAbs).takeWhile isDigit = decimal n.natAbs :=
      List.takeWhile_eq_self_iff.2 (decimal_digits _)
    have hv : (-(n.natAbs : Int)) = n := by omega
    have notSpace : isSpace 45 = false := by decide
    simp only [stoi, List.dropWhile_cons, notSpace, Bool.false_eq_true, if_false, digits,
      decimal_ne_nil, if_true, digitsValue_decimal, hv]
    rw [if_neg (by omega)]
  · rename_i neg
    have hv : (n.natAbs : Int) = n := by omega
    rw [stoi_digits (decimal_ne_nil _) (decimal_digits _), digitsValue_decimal, hv, if_neg (by omega)]

/-! ## What `std::stoi` reads -/

/-- Blanks, a sign or none, digits, and anything else. -/
structure StoiParts (s blanks sign digits rest : Bytes) : Prop where
  split : s = blanks ++ (sign ++ (digits ++ rest))
  blanks : ∀ c ∈ blanks, isSpace c = true
  sign : sign = [] ∨ sign = [43] ∨ sign = [45]
  ne : digits ≠ []
  digits : ∀ c ∈ digits, isDigit c = true
  ends : ∀ c ∈ rest.head?, isDigit c = false

/-- The text starts with a number that an `int` holds. -/
def IntText (s : Bytes) : Prop := ∃ blanks sign digits rest, StoiParts s blanks sign digits rest ∧
  if sign = [45] then digitsValue digits ≤ 2 ^ 31 else digitsValue digits < 2 ^ 31

section Stoi

variable {s blanks sign digits rest : Bytes}

theorem dropWhile_front {p : UInt8 → Bool} {front back : Bytes} (all : ∀ c ∈ front, p c = true)
    (ends : ∀ c ∈ back.head?, p c = false) : (front ++ back).dropWhile p = back := by
  rw [List.dropWhile_append_of_pos all]
  cases back with
  | nil => rfl
  | cons c back =>
    rw [List.dropWhile_cons, ends c rfl]
    rfl

theorem takeWhile_front {p : UInt8 → Bool} {front back : Bytes} (all : ∀ c ∈ front, p c = true)
    (ends : ∀ c ∈ back.head?, p c = false) : (front ++ back).takeWhile p = front := by
  rw [List.takeWhile_append_of_pos all]
  cases back with
  | nil => exact List.append_nil front
  | cons c back =>
    rw [List.takeWhile_cons, ends c rfl]
    exact List.append_nil front

theorem stoi_parts (h : StoiParts s blanks sign digits rest) : stoi s =
    let v : Int := if sign = [45] then -digitsValue digits else digitsValue digits
    if v < -2 ^ 31 ∨ 2 ^ 31 ≤ v then .error (.outOfRange (str "stoi")) else .ok v := by
  obtain ⟨rfl, isBlank, isSign, ne, isDigits, ends⟩ := h
  obtain ⟨d, ds, rfl⟩ := List.exists_cons_of_ne_nil ne
  obtain ⟨space, minus, plus⟩ := isDigit_not_other (isDigits d (by simp))
  have number : (d :: (ds ++ rest)).takeWhile isDigit = d :: ds := takeWhile_front isDigits ends
  have start : ∀ c ∈ (sign ++ (d :: ds ++ rest)).head?, isSpace c = false := by
    rcases isSign with rfl | rfl | rfl
    · rintro c ⟨⟩
      exact space
    · rintro c ⟨⟩
      decide
    · rintro c ⟨⟩
      decide
  simp only [stoi]
  rw [dropWhile_front isBlank start]
  rcases isSign with rfl | rfl | rfl
  · rw [List.nil_append, List.cons_append]
    split
    · rename_i e
      exact absurd (List.cons.inj e).1 minus
    · rename_i e
      exact absurd (List.cons.inj e).1 plus
    · simp [number]
  · simp [number]
  · simp [number]

theorem exists_parts {n : Int} (read : stoi s = .ok n) :
    ∃ blanks sign digits rest, StoiParts s blanks sign digits rest := by
  have blank : ∀ c ∈ s.takeWhile isSpace, isSpace c = true := fun c mem => List.mem_takeWhile_imp mem
  have ends : ∀ u : Bytes, ∀ c ∈ (u.dropWhile isDigit).head?, isDigit c = false := by
    intro u c head
    have not := List.head?_dropWhile_not isDigit u
    rw [Option.mem_def.1 head] at not
    exact not
  have cut : s = s.takeWhile isSpace ++ s.dropWhile isSpace := List.takeWhile_append_dropWhile.symm
  generalize s.takeWhile isSpace = blanks at blank cut
  have parts : ∀ sign u, s.dropWhile isSpace = sign ++ u → (sign = [] ∨ sign = [43] ∨ sign = [45]) →
      u.takeWhile isDigit ≠ [] → StoiParts s blanks sign (u.takeWhile isDigit) (u.dropWhile isDigit) := by
    intro sign u tail isSign ne
    refine ⟨?_, blank, isSign, ne, fun c mem => List.mem_takeWhile_imp mem, ends u⟩
    rw [List.takeWhile_append_dropWhile, ← tail]
    exact cut
  simp only [stoi] at read
  split at read
  · rename_i u tail
    refine ⟨_, [45], _, _, parts [45] u tail (.inr (.inr rfl)) fun none => ?_⟩
    rw [if_pos none] at read
    cases read
  · rename_i u tail
    refine ⟨_, [43], _, _, parts [43] u tail (.inr (.inl rfl)) fun none => ?_⟩
    rw [if_pos none] at read
    cases read
  · refine ⟨_, [], _, _, parts [] _ rfl (.inl rfl) fun none => ?_⟩
    rw [if_pos none] at read
    cases read

theorem stoi_ok_iff : (∃ n, stoi s = .ok n) ↔ IntText s := by
  constructor
  · rintro ⟨n, read⟩
    obtain ⟨blanks, sign, digits, rest, parts⟩ := exists_parts read
    refine ⟨blanks, sign, digits, rest, parts, ?_⟩
    have range := stoi_parts parts
    by_contra out
    by_cases minus : sign = [45]
    · rw [if_pos minus] at range out
      rw [range, if_pos (by omega)] at read
      cases read
    · rw [if_neg minus] at range out
      rw [range, if_pos (by omega)] at read
      cases read
  · rintro ⟨blanks, sign, digits, rest, parts, range⟩
    refine ⟨_, (stoi_parts parts).trans (if_neg ?_)⟩
    by_cases minus : sign = [45]
    · rw [if_pos minus] at range ⊢
      omega
    · rw [if_neg minus] at range ⊢
      omega

end Stoi

end ModelRuntime.Cpp
