import Mathlib.Data.List.Basic
import Mathlib.Data.List.DropRight

/-!
# `std::string` as a list of bytes

The searches of `std::string` over a byte list: `find`, `find_first_of`, `find_first_not_of` and
`find_last_not_of` give a position or `none` for `npos`; `substr` and `erase` throw where the
library does. `cut` is what a search says about the text itself, and `findIf_drop` relates the two,
so that proofs follow the text and not the positions. `cutText` and `findText_eq` do the same for a
text that is looked for.
-/

namespace ModelRuntime.Cpp

/-- A `std::string`: any bytes, NUL and the high half included. -/
abbrev Bytes := List UInt8

/-- What holds of all bytes of a string is decided along the string, not over the 256 bytes there
are. -/
instance (p : UInt8 → Prop) [DecidablePred p] (s : Bytes) : Decidable (∀ c ∈ s, p c) :=
  List.decidableBAll p s

/-- The bytes of an ASCII literal. -/
def str (s : String) : Bytes := s.toList.map fun c => UInt8.ofNat c.toNat

/-- The library exceptions the program can meet, each with its `what()`. -/
inductive StdException where
  | outOfRange (what : Bytes)
  | invalidArgument (what : Bytes)
  | lengthError (what : Bytes)
  | runtimeError (what : Bytes)
  | other (what : Bytes)
  deriving DecidableEq

/-- `e.what()`. -/
def StdException.what : StdException → Bytes
  | .outOfRange w | .invalidArgument w | .lengthError w | .runtimeError w | .other w => w

def quote : UInt8 := 34
def backslash : UInt8 := 92
def newline : UInt8 := 10
def carriage : UInt8 := 13
def colon : UInt8 := 58
def comma : UInt8 := 44
def openBrace : UInt8 := 123
def closeBrace : UInt8 := 125

/-- `isspace` in the C locale: blank, TAB, LF, VT, FF, CR. -/
def isSpace (c : UInt8) : Bool := c == 32 || (9 ≤ c && c ≤ 13)

/-- `ispunct` in the C locale: the printing characters that are neither blank nor alphanumeric. -/
def isPunct (c : UInt8) : Bool :=
  (33 ≤ c && c ≤ 47) || (58 ≤ c && c ≤ 64) || (91 ≤ c && c ≤ 96) || (123 ≤ c && c ≤ 126)

/-- `isdigit`. -/
def isDigit (c : UInt8) : Bool := 48 ≤ c && c ≤ 57

section Searches

variable (p : UInt8 → Bool) (s : Bytes)

/-- The first position from `pos` on whose byte satisfies `p`. -/
def findIf (pos : Nat) : Option Nat := ((s.drop pos).findIdx? p).map (pos + ·)

/-- `s.find(c, pos)`. -/
def find (c : UInt8) (pos : Nat) : Option Nat := findIf (· == c) s pos

/-- `s.find_first_of(set, pos)`. -/
def findFirstOf (set : Bytes) (pos : Nat) : Option Nat := findIf (set.contains ·) s pos

/-- `s.find_first_not_of(set, pos)`. -/
def findFirstNotOf (set : Bytes) (pos : Nat) : Option Nat := findIf (fun c => !set.contains c) s pos

/-- `s.find_last_not_of(set)`. -/
def findLastNotOf (set : Bytes) : Option Nat :=
  (s.reverse.findIdx? fun c => !set.contains c).map (s.length - 1 - ·)

/-- `s.substr(pos, count)`; `none` for the default `count = npos`. -/
def substr (pos : Nat) (count : Option Nat) : Except StdException Bytes :=
  if s.length < pos then .error (.outOfRange (str "basic_string::substr"))
  else .ok (match count with
    | none => s.drop pos
    | some n => (s.drop pos).take n)

/-- `s.erase(pos, count)`; `none` for `npos`. -/
def erase (pos : Nat) (count : Option Nat) : Except StdException Bytes :=
  if s.length < pos then .error (.outOfRange (str "basic_string::erase"))
  else .ok (match count with
    | none => s.take pos
    | some n => s.take pos ++ s.drop (pos + n))

/-- Split at the first byte satisfying `p`: what is before it, the byte, what is after it. -/
def cut : Bytes → Option (Bytes × UInt8 × Bytes)
  | [] => none
  | c :: r => if p c then some ([], c, r) else (cut r).map fun (a, d, t) => (c :: a, d, t)

/-- `s.find(text)`. -/
def findText (text s : Bytes) : Option Nat := s.tails.findIdx? (text.isPrefixOf ·)

/-- Cut out `text` where it first stands: what is before it and what is after it. -/
def cutText (text : Bytes) : Bytes → Option (Bytes × Bytes)
  | [] => if text.isPrefixOf [] then some ([], []) else none
  | c :: r =>
    if text.isPrefixOf (c :: r) then some ([], (c :: r).drop text.length)
    else (cutText text r).map fun (a, t) => (c :: a, t)

end Searches

variable {p : UInt8 → Bool} {s a r : Bytes} {c : UInt8}

theorem cut_append (before : ∀ x ∈ a, p x = false) (hit : p c = true) :
    cut p (a ++ c :: r) = some (a, c, r) := by
  induction a with
  | nil => simp [cut, hit]
  | cons x a ih =>
    have hx := before x (by simp)
    have ha := ih fun y hy => before y (by simp [hy])
    simp [cut, hx, ha]

/-- A cut passes over what holds no hit. -/
theorem cut_skip (before : ∀ x ∈ a, p x = false) :
    cut p (a ++ s) = (cut p s).map fun x => (a ++ x.1, x.2) := by
  induction a with
  | nil => simp
  | cons x a ih =>
    have hx := before x (by simp)
    rw [List.cons_append, cut, if_neg (by simp [hx]), ih fun y hy => before y (by simp [hy]),
      Option.map_map]
    rfl

/-- A cut of a front part is a cut of the whole. -/
theorem cut_left (h : cut p s = some (a, c, r)) (t : Bytes) : cut p (s ++ t) = some (a, c, r ++ t) := by
  induction s generalizing a with
  | nil => cases h
  | cons x s ih =>
    rw [cut] at h
    rw [List.cons_append, cut]
    split at h
    · rename_i hx
      cases h
      rw [if_pos hx]
    · rename_i hx
      obtain ⟨⟨a', d, u⟩, ht, he⟩ := Option.map_eq_some_iff.1 h
      cases he
      rw [if_neg hx, ih ht]
      rfl

theorem cut_eq_some_iff :
    cut p s = some (a, c, r) ↔ s = a ++ c :: r ∧ (∀ x ∈ a, p x = false) ∧ p c = true := by
  constructor
  · intro h
    induction s generalizing a with
    | nil => cases h
    | cons x s ih =>
      rw [cut] at h
      split at h
      · rename_i hx
        cases h
        exact ⟨rfl, by simp, hx⟩
      · rename_i hx
        obtain ⟨⟨a', d, t⟩, ht, he⟩ := Option.map_eq_some_iff.1 h
        cases he
        obtain ⟨rfl, before, hit⟩ := ih ht
        refine ⟨rfl, ?_, hit⟩
        intro y hy
        rcases List.mem_cons.1 hy with rfl | hy
        · simpa using hx
        · exact before y hy
  · rintro ⟨rfl, before, hit⟩
    exact cut_append before hit

theorem cut_dropWhile (h : cut p s = some (a, c, r)) : s.dropWhile (!p ·) = c :: r := by
  obtain ⟨rfl, before, hit⟩ := cut_eq_some_iff.1 h
  rw [List.dropWhile_append_of_pos (by simpa using before), List.dropWhile_cons, if_neg (by simp [hit])]

theorem cut_eq_none_iff : cut p s = none ↔ ∀ x ∈ s, p x = false := by
  induction s with
  | nil => simp [cut]
  | cons x s ih =>
    rw [cut]
    split
    · rename_i hx
      simp [hx]
    · rename_i hx
      simp [ih, hx]

theorem cut_of_mem {x : UInt8} (mem : x ∈ s) (hit : p x = true) : ∃ a c r, cut p s = some (a, c, r) := by
  cases e : cut p s with
  | none =>
    rw [cut_eq_none_iff.1 e x mem] at hit
    cases hit
  | some y => exact ⟨y.1, y.2.1, y.2.2, rfl⟩

theorem findIdx?_cut (p : UInt8 → Bool) (s : Bytes) : s.findIdx? p = (cut p s).map fun x => x.1.length := by
  induction s with
  | nil => rfl
  | cons x s ih =>
    rw [List.findIdx?_cons, cut]
    split
    · rfl
    · rw [ih, Option.map_map, Option.map_map]
      rfl

/-- A search from inside the text is a cut of what is left of it. -/
theorem findIf_drop {pos : Nat} (hs : s.drop pos = r) :
    findIf p s pos = (cut p r).map fun x => pos + x.1.length := by
  subst hs
  unfold findIf
  rw [findIdx?_cut, Option.map_map]
  rfl

/-! ## A text in a text -/

theorem findText_eq (text s : Bytes) : findText text s = (cutText text s).map fun x => x.1.length := by
  unfold findText
  induction s with
  | nil =>
    rw [List.tails, List.findIdx?_cons, cutText]
    split <;> rfl
  | cons c r ih =>
    rw [List.tails, List.findIdx?_cons, cutText]
    split
    · rfl
    · rw [ih, Option.map_map, Option.map_map]
      rfl

/-- A text first stands right here, or further on. -/
theorem cutText_cases {text s a r : Bytes} (h : cutText text s = some (a, r)) :
    (a = [] ∧ s = text ++ r) ∨
      ∃ c s' a', s = c :: s' ∧ a = c :: a' ∧ ¬ text.isPrefixOf s = true ∧ cutText text s' = some (a', r) := by
  cases s with
  | nil =>
    rw [cutText] at h
    split at h
    · rename_i starts
      cases h
      obtain rfl : text = [] := List.prefix_nil.1 (List.isPrefixOf_iff_prefix.1 starts)
      exact .inl ⟨rfl, rfl⟩
    · cases h
  | cons c s =>
    rw [cutText] at h
    split at h
    · rename_i starts
      cases h
      obtain ⟨u, hu⟩ := List.isPrefixOf_iff_prefix.1 starts
      refine .inl ⟨rfl, ?_⟩
      rw [← hu, List.drop_left]
    · rename_i starts
      obtain ⟨⟨a', t⟩, later, he⟩ := Option.map_eq_some_iff.1 h
      cases he
      exact .inr ⟨c, s, a', rfl, rfl, starts, later⟩

theorem cutText_some {text s a r : Bytes} (h : cutText text s = some (a, r)) : s = a ++ (text ++ r) := by
  induction a generalizing s with
  | nil =>
    obtain ⟨-, here⟩ | ⟨c, s', a', -, empty, -⟩ := cutText_cases h
    · exact here
    · cases empty
  | cons c a ih =>
    obtain ⟨empty, -⟩ | ⟨_, s', _, rfl, same, -, later⟩ := cutText_cases h
    · cases empty
    · cases same
      rw [ih later]
      rfl

/-- No text starts inside what does not hold its first byte. -/
theorem cutText_skip {q : UInt8} {text u : Bytes} (none : ∀ c ∈ u, c ≠ q) (s : Bytes) :
    cutText (q :: text) (u ++ s) = (cutText (q :: text) s).map fun x => (u ++ x.1, x.2) := by
  induction u with
  | nil => simp
  | cons c u ih =>
    have other : (q :: text).isPrefixOf (c :: (u ++ s)) = false := by
      rw [List.isPrefixOf, beq_eq_false_iff_ne.2 (Ne.symm (none c (by simp)))]
      rfl
    rw [List.cons_append, cutText, other, if_neg Bool.false_ne_true, ih fun x hx => none x (by simp [hx]),
      Option.map_map]
    rfl

/-- The first place of a text stays the first when something is appended. -/
theorem cutText_left {text s a r : Bytes} (h : cutText text s = some (a, r)) (t : Bytes) :
    cutText text (s ++ t) = some (a, r ++ t) := by
  induction s generalizing a with
  | nil =>
    obtain ⟨rfl, none⟩ | ⟨_, _, _, split, -⟩ := cutText_cases h
    · obtain ⟨rfl, rfl⟩ := List.append_eq_nil_iff.1 none.symm
      cases t <;> rfl
    · cases split
  | cons c s ih =>
    obtain ⟨rfl, here⟩ | ⟨_, _, a', split, rfl, starts, later⟩ := cutText_cases h
    · have more : text.isPrefixOf (c :: s ++ t) = true := by
        rw [List.isPrefixOf_iff_prefix, here, List.append_assoc]
        exact List.prefix_append text (r ++ t)
      rw [List.cons_append, cutText, ← List.cons_append, if_pos more, here, List.append_assoc, List.drop_left]
    · cases split
      have still : ¬ text.isPrefixOf (c :: s ++ t) = true := by
        intro more
        have long : text.length ≤ (c :: s).length := by
          rw [cutText_some later]
          simp only [List.length_cons, List.length_append]
          omega
        rw [List.isPrefixOf_iff_prefix] at more starts
        exact starts (List.prefix_of_prefix_length_le more (List.prefix_append (c :: s) t) long)
      rw [List.cons_append, cutText, ← List.cons_append, if_neg still, ih later, Option.map_some]

/-! ## Before and after a byte -/

theorem no_byte (none : c ∉ s) : ∀ x ∈ s, (x == c) = false := by
  intro x hx
  rw [beq_eq_false_iff_ne]
  rintro rfl
  exact none hx

theorem find_first (first : c ∉ a) : find (a ++ c :: r) c 0 = some a.length := by
  rw [find, findIf_drop List.drop_zero, cut_append (no_byte first) (beq_self_eq_true c), Option.map_some,
    Nat.zero_add]

theorem find_absent (absent : c ∉ s) : find s c 0 = none := by
  rw [find, findIf_drop List.drop_zero, cut_eq_none_iff.2 (no_byte absent)]
  rfl

/-- A byte of a text has a first place in it. -/
theorem split_first (mem : c ∈ s) : ∃ left right, s = left ++ c :: right ∧ c ∉ left := by
  obtain ⟨left, x, right, found⟩ := cut_of_mem (p := (· == c)) mem (beq_self_eq_true c)
  obtain ⟨split, before, hit⟩ := cut_eq_some_iff.1 found
  obtain rfl : x = c := eq_of_beq hit
  refine ⟨left, right, split, fun again => ?_⟩
  have other := before x again
  rw [beq_self_eq_true] at other
  cases other

theorem takeWhile_absent (absent : c ∉ s) : s.takeWhile (· != c) = s := by
  rw [List.takeWhile_eq_self_iff]
  intro x mem
  rw [bne, no_byte absent x mem]
  rfl

theorem takeWhile_first (first : c ∉ a) : (a ++ c :: r).takeWhile (· != c) = a := by
  have before : ∀ x ∈ a, (x != c) = true := List.takeWhile_eq_self_iff.1 (takeWhile_absent first)
  rw [List.takeWhile_append_of_pos before, List.takeWhile_cons, bne_self_eq_false, if_neg Bool.false_ne_true,
    List.append_nil]

theorem substr_left : substr (a ++ c :: r) 0 (some a.length) = .ok a := by
  rw [substr, if_neg (by omega), List.drop_zero, List.take_left]

theorem substr_right : substr (a ++ c :: r) (a.length + 1) none = .ok r := by
  rw [substr, if_neg (by simp), ← List.drop_drop, List.drop_left]
  rfl

/-! ## Trimming -/

/-- Erasing up to the first byte outside `set` drops the bytes of `set` in front. -/
theorem erase_front (set s : Bytes) :
    erase s 0 (findFirstNotOf s set 0) = .ok (s.dropWhile (set.contains ·)) := by
  unfold erase
  rw [if_neg (by omega), findFirstNotOf, findIf_drop List.drop_zero]
  cases e : cut (fun c => !set.contains c) s with
  | none =>
    have all : ∀ c ∈ s, set.contains c = true := by simpa using cut_eq_none_iff.1 e
    rw [Option.map_none, List.take_zero, List.dropWhile_eq_nil_iff.2 all]
  | some x =>
    obtain ⟨a, c, r⟩ := x
    obtain ⟨split, _, _⟩ := cut_eq_some_iff.1 e
    have left := cut_dropWhile e
    simp only [Bool.not_not] at left
    rw [left, split]
    simp

/-- Erasing after the last byte outside `set` drops the bytes of `set` at the end. -/
theorem erase_back (set s : Bytes) :
    erase s ((findLastNotOf s set).elim 0 (· + 1)) none = .ok (s.rdropWhile (set.contains ·)) := by
  rw [findLastNotOf, findIdx?_cut, List.rdropWhile]
  cases e : cut (fun c => !set.contains c) s.reverse with
  | none =>
    have all : ∀ c ∈ s.reverse, set.contains c = true := by simpa using cut_eq_none_iff.1 e
    rw [List.dropWhile_eq_nil_iff.2 all]
    simp [erase]
  | some x =>
    obtain ⟨a, c, r⟩ := x
    obtain ⟨split, _, _⟩ := cut_eq_some_iff.1 e
    have left := cut_dropWhile e
    simp only [Bool.not_not] at left
    have back : s = (c :: r).reverse ++ a.reverse := by
      rw [← List.reverse_append, ← split, List.reverse_reverse]
    have place : s.length - 1 - a.length + 1 = (c :: r).reverse.length := by
      rw [back]
      simp only [List.length_append, List.length_reverse, List.length_cons]
      omega
    rw [left, Option.map_some, Option.map_some, Option.elim_some, place, erase, if_neg (by rw [back]; simp)]
    rw [back, List.take_left]

/-- What is dropped in front of a byte that stays. -/
theorem dropWhile_stop (stop : ¬ p c = true) : (a ++ c :: r).dropWhile p = a.dropWhile p ++ c :: r := by
  rw [List.dropWhile_append, List.dropWhile_cons, if_neg stop]
  split
  · rename_i all
    rw [List.isEmpty_iff.1 all, List.nil_append]
  · rfl

theorem rdropWhile_congr {q : UInt8 → Bool} (same : ∀ c ∈ s, p c = q c) : s.rdropWhile p = s.rdropWhile q := by
  induction s using List.reverseRecOn with
  | nil => rfl
  | append_singleton s c ih =>
    rw [List.rdropWhile_concat, List.rdropWhile_concat, same c (by simp), ih fun x mem => same x (by simp [mem])]

/-! ## No exception inside the text -/

theorem findIf_lt {pos i : Nat} (h : findIf p s pos = some i) : i < s.length := by
  obtain ⟨k, hk, rfl⟩ := Option.map_eq_some_iff.1 h
  have bound := (List.findIdx?_eq_some_iff_findIdx_eq.1 hk).1
  rw [List.length_drop] at bound
  omega

theorem findLastNotOf_lt {set : Bytes} {i : Nat} (h : findLastNotOf s set = some i) :
    i < s.length := by
  obtain ⟨k, hk, rfl⟩ := Option.map_eq_some_iff.1 h
  have bound := (List.findIdx?_eq_some_iff_findIdx_eq.1 hk).1
  rw [List.length_reverse] at bound
  omega

/-- `substr` has a result exactly where its position is within the string. -/
theorem substr_ok_iff {pos : Nat} {count : Option Nat} : (∃ t, substr s pos count = .ok t) ↔ pos ≤ s.length := by
  unfold substr
  split
  · simp
    omega
  · simp
    omega

theorem erase_ok_iff {pos : Nat} {count : Option Nat} : (∃ t, erase s pos count = .ok t) ↔ pos ≤ s.length := by
  unfold erase
  split
  · simp
    omega
  · simp
    omega

theorem substr_ok {pos : Nat} (h : pos ≤ s.length) (count : Option Nat) :
    ∃ t, substr s pos count = .ok t := substr_ok_iff.2 h

theorem erase_ok {pos : Nat} (h : pos ≤ s.length) (count : Option Nat) :
    ∃ t, erase s pos count = .ok t := erase_ok_iff.2 h

/-- A byte that is not in `u` stands after it. -/
theorem split_after {q : UInt8} (u : Bytes) {r x y : Bytes} (none : q ∉ u) (h : u ++ r = x ++ q :: y) :
    ∃ x', x = u ++ x' ∧ r = x' ++ q :: y := by
  rcases List.append_eq_append_iff.1 h with ⟨x', hx, hr⟩ | ⟨x', hu, hq⟩
  · exact ⟨x', hx, hr⟩
  · cases x' with
    | nil => exact ⟨[], by simpa using hu.symm, by simpa using hq.symm⟩
    | cons c x' =>
      obtain ⟨rfl, _⟩ := List.cons.inj hq
      exact absurd (by simp [hu]) none

end ModelRuntime.Cpp
