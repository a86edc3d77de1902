import Mathlib.Data.List.TakeWhile

/-!
# Regular expressions with captures

The expressions without alternation in which only a class of bytes repeats. `Derives r m cs` says
that `r` describes the text `m` with the captures `cs`; `attempts` lists the ways a backtracking
matcher finds at the start of a text, the preferred one first, and `search` is the leftmost one.
`mem_attempts` relates the two: whatever is found is derived, and whatever is derived is found.
-/

namespace ModelRuntime.Lib

variable {α : Type*}

inductive Regex (α : Type*) where
  | empty
  | one (p : α → Bool)
  /-- The greedy `[p]*`. -/
  | many (p : α → Bool)
  /-- The greedy `[p]+`. -/
  | many1 (p : α → Bool)
  | seq (a b : Regex α)
  | group (r : Regex α)

namespace Regex

/-- One symbol after the other. -/
def text [DecidableEq α] (cs : List α) : Regex α :=
  cs.foldr (fun c r => .seq (.one (· == c)) r) .empty

def all (rs : List (Regex α)) : Regex α := rs.foldr .seq .empty

/-- `m` is described, and its captures are `cs` in the order of their opening parentheses. -/
inductive Derives : Regex α → List α → List (List α) → Prop where
  | empty : Derives .empty [] []
  | one {p : α → Bool} {c : α} (hit : p c = true) : Derives (.one p) [c] []
  | many {p : α → Bool} {m : List α} (hits : ∀ c ∈ m, p c = true) : Derives (.many p) m []
  | many1 {p : α → Bool} {m : List α} (hits : ∀ c ∈ m, p c = true) (some : m ≠ []) :
      Derives (.many1 p) m []
  | seq {a b : Regex α} {m m' : List α} {cs cs' : List (List α)} (left : Derives a m cs)
      (right : Derives b m' cs') : Derives (.seq a b) (m ++ m') (cs ++ cs')
  | group {r : Regex α} {m : List α} {cs : List (List α)} (inner : Derives r m cs) :
      Derives (.group r) m (m :: cs)

/-- The matched text, its captures and what follows it. -/
abbrev Attempt (α : Type*) := List α × List (List α) × List α

/-- The first `n` symbols of a text, and all shorter beginnings of at least `least` symbols. -/
def beginnings (s : List α) (least : Nat) : Nat → List (Attempt α)
  | 0 => if least = 0 then [([], [], s)] else []
  | n + 1 => if n + 1 < least then [] else (s.take (n + 1), [], s.drop (n + 1)) :: beginnings s least n

/-- The matches at the start of `s`, in the order in which backtracking comes to them. -/
def attempts : Regex α → List α → List (Attempt α)
  | .empty, s => [([], [], s)]
  | .one _, [] => []
  | .one p, c :: rest => if p c then [([c], [], rest)] else []
  | .many p, s => beginnings s 0 (s.takeWhile p).length
  | .many1 p, s => beginnings s 1 (s.takeWhile p).length
  | .seq a b, s => (attempts a s).flatMap fun (m, cs, rest) =>
      (attempts b rest).map fun (m', cs', rest) => (m ++ m', cs ++ cs', rest)
  | .group r, s => (attempts r s).map fun (m, cs, rest) => (m, m :: cs, rest)

/-- `regex_search`: the leftmost match, with the captures. -/
def search (r : Regex α) : List α → Option (List (List α))
  | [] => (attempts r []).head?.map fun a => a.2.1
  | c :: s =>
    match (attempts r (c :: s)).head? with
    | some a => some a.2.1
    | none => search r s

/-! ## Inversion -/

section Inversion

variable {m : List α} {cs : List (List α)} {p : α → Bool}

theorem derives_empty : Derives .empty m cs ↔ m = [] ∧ cs = [] := by
  constructor
  · intro h
    cases h with
    | empty => exact ⟨rfl, rfl⟩
  · rintro ⟨rfl, rfl⟩
    exact .empty

theorem derives_one : Derives (.one p) m cs ↔ ∃ c, p c = true ∧ m = [c] ∧ cs = [] := by
  constructor
  · intro h
    cases h with
    | one hit => exact ⟨_, hit, rfl, rfl⟩
  · rintro ⟨c, hit, rfl, rfl⟩
    exact .one hit

theorem derives_many : Derives (.many p) m cs ↔ (∀ c ∈ m, p c = true) ∧ cs = [] := by
  constructor
  · intro h
    cases h with
    | many hits => exact ⟨hits, rfl⟩
  · rintro ⟨hits, rfl⟩
    exact .many hits

theorem derives_many1 : Derives (.many1 p) m cs ↔ (∀ c ∈ m, p c = true) ∧ m ≠ [] ∧ cs = [] := by
  constructor
  · intro h
    cases h with
    | many1 hits more => exact ⟨hits, more, rfl⟩
  · rintro ⟨hits, more, rfl⟩
    exact .many1 hits more

theorem derives_seq {a b : Regex α} : Derives (.seq a b) m cs ↔
    ∃ m₁ cs₁ m₂ cs₂, Derives a m₁ cs₁ ∧ Derives b m₂ cs₂ ∧ m = m₁ ++ m₂ ∧ cs = cs₁ ++ cs₂ := by
  constructor
  · intro h
    cases h with
    | seq left right => exact ⟨_, _, _, _, left, right, rfl, rfl⟩
  · rintro ⟨m₁, cs₁, m₂, cs₂, left, right, rfl, rfl⟩
    exact .seq left right

theorem derives_group {r : Regex α} :
    Derives (.group r) m cs ↔ ∃ inner, Derives r m inner ∧ cs = m :: inner := by
  constructor
  · intro h
    cases h with
    | group inner => exact ⟨_, inner, rfl⟩
  · rintro ⟨inner, h, rfl⟩
    exact .group h

theorem derives_text [DecidableEq α] {t : List α} : Derives (text t) m cs ↔ m = t ∧ cs = [] := by
  induction t generalizing m cs with
  | nil => exact derives_empty
  | cons c t ih =>
    rw [text, List.foldr_cons, ← text, derives_seq]
    constructor
    · rintro ⟨m₁, cs₁, m₂, cs₂, left, right, rfl, rfl⟩
      obtain ⟨d, hit, rfl, rfl⟩ := derives_one.1 left
      obtain ⟨rfl, rfl⟩ := ih.1 right
      rw [beq_iff_eq.1 hit]
      exact ⟨rfl, rfl⟩
    · rintro ⟨rfl, rfl⟩
      exact ⟨[c], [], t, [], derives_one.2 ⟨c, beq_self_eq_true c, rfl, rfl⟩, ih.2 ⟨rfl, rfl⟩, rfl, rfl⟩

/-! A sequence from its first part on. -/

variable {r : Regex α}

theorem derives_text_seq [DecidableEq α] {t : List α} :
    Derives (.seq (text t) r) m cs ↔ ∃ m', Derives r m' cs ∧ m = t ++ m' := by
  rw [derives_seq]
  constructor
  · rintro ⟨m₁, cs₁, m₂, cs₂, left, right, rfl, rfl⟩
    obtain ⟨rfl, rfl⟩ := derives_text.1 left
    exact ⟨m₂, right, rfl⟩
  · rintro ⟨m', right, rfl⟩
    exact ⟨t, [], m', cs, derives_text.2 ⟨rfl, rfl⟩, right, rfl, rfl⟩

theorem derives_many_seq :
    Derives (.seq (.many p) r) m cs ↔ ∃ w, (∀ c ∈ w, p c = true) ∧ ∃ m', Derives r m' cs ∧ m = w ++ m' := by
  rw [derives_seq]
  constructor
  · rintro ⟨m₁, cs₁, m₂, cs₂, left, right, rfl, rfl⟩
    obtain ⟨hits, rfl⟩ := derives_many.1 left
    exact ⟨m₁, hits, m₂, right, rfl⟩
  · rintro ⟨w, hits, m', right, rfl⟩
    exact ⟨w, [], m', cs, derives_many.2 ⟨hits, rfl⟩, right, rfl, rfl⟩

theorem derives_many1_seq :
    Derives (.seq (.many1 p) r) m cs ↔
      ∃ w, ((∀ c ∈ w, p c = true) ∧ w ≠ []) ∧ ∃ m', Derives r m' cs ∧ m = w ++ m' := by
  rw [derives_seq]
  constructor
  · rintro ⟨m₁, cs₁, m₂, cs₂, left, right, rfl, rfl⟩
    obtain ⟨hits, more, rfl⟩ := derives_many1.1 left
    exact ⟨m₁, ⟨hits, more⟩, m₂, right, rfl⟩
  · rintro ⟨w, ⟨hits, more⟩, m', right, rfl⟩
    exact ⟨w, [], m', cs, derives_many1.2 ⟨hits, more, rfl⟩, right, rfl, rfl⟩

theorem derives_group_seq {a : Regex α} :
    Derives (.seq (.group a) r) m cs ↔
      ∃ w inner, Derives a w inner ∧ ∃ m' cs', Derives r m' cs' ∧ m = w ++ m' ∧ cs = w :: (inner ++ cs') := by
  rw [derives_seq]
  constructor
  · rintro ⟨m₁, cs₁, m₂, cs₂, left, right, rfl, rfl⟩
    obtain ⟨inner, h, rfl⟩ := derives_group.1 left
    exact ⟨m₁, inner, h, m₂, cs₂, right, rfl, rfl⟩
  · rintro ⟨w, inner, h, m', cs', right, rfl, rfl⟩
    exact ⟨w, w :: inner, m', cs', derives_group.2 ⟨inner, h, rfl⟩, right, rfl, rfl⟩

end Inversion

/-! ## The matcher finds what is derived -/

theorem mem_beginnings {s : List α} {least : Nat} {x : Attempt α} :
    ∀ {n : Nat}, x ∈ beginnings s least n ↔
      ∃ k, least ≤ k ∧ k ≤ n ∧ x = (s.take k, [], s.drop k) := by
  intro n
  induction n with
  | zero =>
    rw [beginnings]
    split
    · rename_i zero
      rw [List.mem_singleton]
      constructor
      · rintro rfl
        exact ⟨0, by omega, Nat.le_refl 0, rfl⟩
      · rintro ⟨k, _, le, rfl⟩
        rw [Nat.le_zero.1 le]
        rfl
    · rename_i pos
      constructor
      · intro h
        cases h
      · rintro ⟨k, lo, hi, _⟩
        omega
  | succ n ih =>
    rw [beginnings]
    split
    · rename_i short
      constructor
      · intro h
        cases h
      · rintro ⟨k, lo, hi, _⟩
        omega
    · rename_i enough
      rw [List.mem_cons, ih]
      constructor
      · rintro (rfl | ⟨k, lo, hi, rfl⟩)
        · exact ⟨n + 1, by omega, Nat.le_refl _, rfl⟩
        · exact ⟨k, lo, by omega, rfl⟩
      · rintro ⟨k, lo, hi, rfl⟩
        rcases Nat.lt_or_ge n k with above | below
        · obtain rfl : k = n + 1 := by omega
          exact .inl rfl
        · exact .inr ⟨k, lo, below, rfl⟩

/-- The beginnings that a class repeats over. -/
theorem mem_repeats {p : α → Bool} {s m rest : List α} {cs : List (List α)} {least : Nat} :
    (m, cs, rest) ∈ beginnings s least (s.takeWhile p).length ↔
      (∀ c ∈ m, p c = true) ∧ least ≤ m.length ∧ cs = [] ∧ s = m ++ rest := by
  rw [mem_beginnings]
  constructor
  · rintro ⟨k, lo, hi, same⟩
    obtain ⟨rfl, rfl, rfl⟩ := same
    have bound := (List.takeWhile_prefix p (l := s)).length_le
    refine ⟨fun c hc => ?_, by rw [List.length_take]; omega, rfl, (List.take_append_drop k s).symm⟩
    have inside : s.take k <+: s.takeWhile p :=
      List.prefix_of_prefix_length_le (List.take_prefix k s) (List.takeWhile_prefix p)
        (by rw [List.length_take]; omega)
    exact List.mem_takeWhile_imp (inside.subset hc)
  · rintro ⟨hits, lo, rfl, rfl⟩
    refine ⟨m.length, lo, ?_, ?_⟩
    · rw [List.takeWhile_append_of_pos hits, List.length_append]
      omega
    · rw [List.take_left, List.drop_left]

theorem mem_attempts {r : Regex α} {s m rest : List α} {cs : List (List α)} :
    (m, cs, rest) ∈ attempts r s ↔ Derives r m cs ∧ s = m ++ rest := by
  induction r generalizing s m rest cs with
  | empty =>
    rw [attempts, List.mem_singleton, derives_empty]
    constructor
    · intro same
      cases same
      exact ⟨⟨rfl, rfl⟩, rfl⟩
    · rintro ⟨⟨rfl, rfl⟩, rfl⟩
      rfl
  | one p =>
    rw [derives_one]
    constructor
    · intro h
      cases s with
      | nil => cases h
      | cons c s =>
        rw [attempts] at h
        split at h
        · rename_i hit
          cases List.mem_singleton.1 h
          exact ⟨⟨c, hit, rfl, rfl⟩, rfl⟩
        · cases h
    · rintro ⟨⟨c, hit, rfl, rfl⟩, rfl⟩
      simp [attempts, hit]
  | many p =>
    rw [attempts, mem_repeats, derives_many]
    constructor
    · rintro ⟨hits, _, rfl, rfl⟩
      exact ⟨⟨hits, rfl⟩, rfl⟩
    · rintro ⟨⟨hits, rfl⟩, rfl⟩
      exact ⟨hits, Nat.zero_le _, rfl, rfl⟩
  | many1 p =>
    rw [attempts, mem_repeats, derives_many1]
    constructor
    · rintro ⟨hits, lo, rfl, rfl⟩
      exact ⟨⟨hits, List.ne_nil_of_length_pos lo, rfl⟩, rfl⟩
    · rintro ⟨⟨hits, more, rfl⟩, rfl⟩
      exact ⟨hits, List.length_pos_iff.2 more, rfl, rfl⟩
  | seq a b iha ihb =>
    rw [derives_seq]
    simp only [attempts, List.mem_flatMap, List.mem_map, Prod.exists, Prod.mk.injEq]
    constructor
    · rintro ⟨m₁, cs₁, rest₁, left, m₂, cs₂, rest₂, right, rfl, rfl, rfl⟩
      obtain ⟨hl, rfl⟩ := iha.1 left
      obtain ⟨hr, rfl⟩ := ihb.1 right
      exact ⟨⟨m₁, cs₁, m₂, cs₂, hl, hr, rfl, rfl⟩, by rw [List.append_assoc]⟩
    · rintro ⟨⟨m₁, cs₁, m₂, cs₂, hl, hr, rfl, rfl⟩, rfl⟩
      exact ⟨m₁, cs₁, m₂ ++ rest, iha.2 ⟨hl, List.append_assoc ..⟩, m₂, cs₂, rest, ihb.2 ⟨hr, rfl⟩,
        rfl, rfl, rfl⟩
  | group r ih =>
    rw [derives_group]
    simp only [attempts, List.mem_map, Prod.exists, Prod.mk.injEq]
    constructor
    · rintro ⟨m, cs, rest, inner, rfl, rfl, rfl⟩
      obtain ⟨hi, rfl⟩ := ih.1 inner
      exact ⟨⟨cs, hi, rfl⟩, rfl⟩
    · rintro ⟨⟨inner, hi, rfl⟩, rfl⟩
      exact ⟨m, inner, rest, ih.2 ⟨hi, rfl⟩, rfl, rfl, rfl⟩

/-! ## Searching -/

/-- What is found is derived somewhere in the text. -/
theorem search_sound {r : Regex α} {s : List α} {cs : List (List α)} (found : search r s = some cs) :
    ∃ before m rest, s = before ++ (m ++ rest) ∧ Derives r m cs := by
  induction s with
  | nil =>
    obtain ⟨⟨m, cs, rest⟩, first, rfl⟩ := Option.map_eq_some_iff.1 found
    obtain ⟨derived, split⟩ := mem_attempts.1 (List.mem_of_head? first)
    exact ⟨[], m, rest, split, derived⟩
  | cons c s ih =>
    rw [search] at found
    split at found
    · rename_i a first
      obtain ⟨m, cs, rest⟩ := a
      cases found
      obtain ⟨derived, split⟩ := mem_attempts.1 (List.mem_of_head? first)
      exact ⟨[], m, rest, split, derived⟩
    · obtain ⟨before, m, rest, rfl, derived⟩ := ih found
      exact ⟨c :: before, m, rest, rfl, derived⟩

/-- **The leftmost match**: where nothing before `s` starts a match and all matches that start at
`s` have the captures `cs`, these are found. -/
theorem search_leftmost {r : Regex α} {before s m rest : List α} {cs : List (List α)}
    (derived : Derives r m cs) (split : s = m ++ rest)
    (only : ∀ m' cs' rest', Derives r m' cs' → s = m' ++ rest' → cs' = cs)
    (later : ∀ a b m' cs' rest', before = a ++ b → b ≠ [] → Derives r m' cs' → b ++ s ≠ m' ++ rest') :
    search r (before ++ s) = some cs := by
  induction before with
  | nil =>
    have here : (m, cs, rest) ∈ attempts r s := mem_attempts.2 ⟨derived, split⟩
    obtain ⟨a, first⟩ := Option.isSome_iff_exists.1 (List.isSome_head?.2 (List.ne_nil_of_mem here))
    have same : a.2.1 = cs := by
      obtain ⟨hd, hs⟩ := mem_attempts.1 (List.mem_of_head? first)
      exact only _ _ _ hd hs
    cases s with
    | nil => rw [List.nil_append, search, first, Option.map_some, same]
    | cons c s =>
      rw [List.nil_append, search, first]
      exact congrArg some same
  | cons c before ih =>
    have none : attempts r (c :: (before ++ s)) = [] := by
      rw [List.eq_nil_iff_forall_not_mem]
      rintro ⟨m', cs', rest'⟩ mem
      obtain ⟨hd, hs⟩ := mem_attempts.1 mem
      exact later [] (c :: before) m' cs' rest' rfl (by simp) hd hs
    rw [List.cons_append, search, none]
    exact ih fun a b m' cs' rest' e hb hd => later (c :: a) b m' cs' rest' (by rw [e]; rfl) hb hd

end Regex
end ModelRuntime.Lib
