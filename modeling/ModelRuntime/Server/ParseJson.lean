import Mathlib.Data.Finmap
import ModelRuntime.Cpp.Bytes
import ModelRuntime.Cpp.Loop

/-!
# `parse_json`

The reader of the REST handlers, by positions as in the source. `parseJson_eq` takes the positions
out: a pass of the loop is `scanMember` on the text left, so that what the reader returns is the map
of the list `members`, later members on top. No `substr` in it is ever out of range.
-/

namespace ModelRuntime
open Cpp

/-- The `unordered_map<string, string>` the handlers read. -/
abbrev Params := Finmap fun _ : Bytes => Bytes

/-- `" \\t\\n\\r"`. -/
def blanks : Bytes := [32, 9, 10, 13]

/-- `",}"`. -/
def commaBrace : Bytes := [comma, closeBrace]

/-- The value that starts at `valueStart` and the position after it. -/
def readValue (json : Bytes) (valueStart : Nat) : Except StdException (Option (Bytes × Nat)) :=
  if json.getD valueStart 0 = quote then
    match find json quote (valueStart + 1) with
    | none => .ok none
    | some valueEnd => do
      let value ← substr json (valueStart + 1) (some (valueEnd - valueStart - 1))
      return some (value, valueEnd + 1)
  else
    match findFirstOf json commaBrace valueStart with
    | none => .ok none
    | some valueEnd => do
      let value ← substr json valueStart (some (valueEnd - valueStart))
      return some (value, valueEnd)

/-- One pass of the `while`, at `pos` with the result so far. -/
def parseJsonStep (json : Bytes) : Nat × Params → Except StdException (Option (Nat × Params))
  | (pos, result) =>
    if json.length ≤ pos then .ok none
    else
      match find json quote pos with
      | none => .ok none
      | some keyStart =>
        match find json quote (keyStart + 1) with
        | none => .ok none
        | some keyEnd => do
          let key ← substr json (keyStart + 1) (some (keyEnd - keyStart - 1))
          match find json colon (keyEnd + 1) with
          | none => return none
          | some colonPos =>
            match findFirstNotOf json blanks (colonPos + 1) with
            | none => return none
            | some valueStart =>
              match ← readValue json valueStart with
              | none => return none
              | some (value, pos) =>
                let pos := if pos < json.length ∧ json.getD pos 0 = comma then pos + 1 else pos
                return some (pos, result.insert key value)

/-- `parse_json`. Every pass moves on, so the bound is never reached. -/
def parseJson (json : Bytes) : Except StdException Params :=
  (whileM (parseJsonStep json) (json.length + 1) (0, ∅)).map Prod.snd

/-! ## The same without positions -/

/-- What is left after a comma that stands next. -/
def skipComma : Bytes → Bytes
  | [] => []
  | c :: r => if c = comma then r else c :: r

/-- The value that stands next and the text after it. -/
def scanValue : Bytes → Option (Bytes × Bytes)
  | [] => none
  | c :: r =>
    if c = quote then (cut (· == quote) r).map fun (value, _, r) => (value, r)
    else (cut (commaBrace.contains ·) (c :: r)).map fun (value, d, r) => (value, d :: r)

/-- After the closing quote of a key: the value and the text left. -/
def scanAfterKey (r : Bytes) : Option (Bytes × Bytes) := do
  let (_, _, r) ← cut (· == colon) r
  let (_, c, r) ← cut (fun c => !blanks.contains c) r
  let (value, r) ← scanValue (c :: r)
  return (value, skipComma r)

/-- The next member as the reader finds it: its key, its value and the text left. -/
def scanMember (r : Bytes) : Option (Bytes × Bytes × Bytes) := do
  let (_, _, r) ← cut (· == quote) r
  let (key, _, r) ← cut (· == quote) r
  let (value, r) ← scanAfterKey r
  return (key, value, r)

section Positions

variable {json r : Bytes}

/-- Where what is left starts. -/
def posOf (json r : Bytes) : Nat := json.length - r.length

theorem drop_posOf (h : r <:+ json) : json.drop (posOf json r) = r := by
  obtain ⟨front, rfl⟩ := h
  simp [posOf]

theorem posOf_cons {c : UInt8} (h : c :: r <:+ json) : posOf json r = posOf json (c :: r) + 1 := by
  have := h.length_le
  simp only [posOf, List.length_cons] at this ⊢
  omega

theorem posOf_append {a : Bytes} (h : a ++ r <:+ json) :
    posOf json r = posOf json (a ++ r) + a.length := by
  have := h.length_le
  simp only [posOf, List.length_append] at this ⊢
  omega

theorem getD_posOf {c : UInt8} (h : c :: r <:+ json) : json.getD (posOf json (c :: r)) 0 = c := by
  obtain ⟨front, rfl⟩ := h
  simp [posOf]

/-- A search from what is left is a cut of it. -/
theorem findIf_posOf {p : UInt8 → Bool} (h : r <:+ json) :
    findIf p json (posOf json r) = (cut p r).map fun x => posOf json (x.2.1 :: x.2.2) := by
  rw [findIf_drop (drop_posOf h)]
  cases e : cut p r with
  | none => rfl
  | some x =>
    obtain ⟨a, c, r'⟩ := x
    obtain ⟨rfl, _, _⟩ := cut_eq_some_iff.1 e
    simp only [Option.map_some, posOf_append h]

theorem cut_suffix {p : UInt8 → Bool} (h : r <:+ json) {a : Bytes} {c : UInt8} {r' : Bytes}
    (e : cut p r = some (a, c, r')) : c :: r' <:+ json ∧ r' <:+ json := by
  obtain ⟨rfl, _, _⟩ := cut_eq_some_iff.1 e
  have tail := (List.suffix_append a (c :: r')).trans h
  exact ⟨tail, (List.suffix_cons c r').trans tail⟩

/-- The `substr` between two places that were found. -/
theorem substr_posOf {a : Bytes} (h : a ++ r <:+ json) :
    substr json (posOf json (a ++ r)) (some (posOf json r - posOf json (a ++ r))) = .ok a := by
  have room : ¬ json.length < posOf json (a ++ r) := by
    rw [posOf]
    omega
  rw [substr, if_neg room, drop_posOf h, posOf_append h]
  simp

theorem readValue_eq {c : UInt8} (h : c :: r <:+ json) :
    readValue json (posOf json (c :: r)) =
      .ok ((scanValue (c :: r)).map fun (value, rest) => (value, posOf json rest)) := by
  have tail := (List.suffix_cons c r).trans h
  rw [readValue, getD_posOf h, scanValue]
  by_cases string : c = quote
  · rw [if_pos string, if_pos string, ← posOf_cons h, find, findIf_posOf tail]
    cases e : cut (· == quote) r with
    | none => rfl
    | some x =>
      obtain ⟨value, d, rest⟩ := x
      obtain ⟨rfl, _, _⟩ := cut_eq_some_iff.1 e
      have after := (cut_suffix tail e).1
      have count : posOf json (d :: rest) - posOf json (c :: (value ++ d :: rest)) - 1 =
          posOf json (d :: rest) - posOf json (value ++ d :: rest) := by
        rw [posOf_cons h]
        omega
      simp only [Option.map_some, count, substr_posOf tail, posOf_cons after]
      rfl
  · rw [if_neg string, if_neg string, findFirstOf, findIf_posOf h]
    cases e : cut (commaBrace.contains ·) (c :: r) with
    | none => rfl
    | some x =>
      obtain ⟨value, d, rest⟩ := x
      obtain ⟨split, _, _⟩ := cut_eq_some_iff.1 e
      rw [split] at h ⊢
      simp only [Option.map_some, substr_posOf h]
      rfl

theorem skipComma_suffix (r : Bytes) : skipComma r <:+ r := by
  cases r with
  | nil => exact List.suffix_rfl
  | cons c r =>
    rw [skipComma]
    split
    · exact List.suffix_cons c r
    · exact List.suffix_rfl

/-- The position after a comma that stands at the position. -/
theorem posOf_skipComma (h : r <:+ json) :
    (if posOf json r < json.length ∧ json.getD (posOf json r) 0 = comma then posOf json r + 1
      else posOf json r) = posOf json (skipComma r) := by
  cases r with
  | nil =>
    rw [if_neg (by simp [posOf])]
    rfl
  | cons c r =>
    have room : posOf json (c :: r) < json.length := by
      have := h.length_le
      simp only [posOf, List.length_cons] at this ⊢
      omega
    rw [getD_posOf h, skipComma]
    by_cases hc : c = comma
    · rw [if_pos ⟨room, hc⟩, if_pos hc, posOf_cons h]
    · rw [if_neg fun both => hc both.2, if_neg hc]

/-- The value stands in the text, and what is left stands after it. -/
theorem scanValue_split {value rest : Bytes} (e : scanValue r = some (value, rest)) :
    ∃ before tail, r = before ++ (value ++ tail) ∧ rest <:+ tail := by
  cases r with
  | nil => cases e
  | cons c r =>
    rw [scanValue] at e
    split at e
    · obtain ⟨⟨v, d, u⟩, hx, he⟩ := Option.map_eq_some_iff.1 e
      cases he
      obtain ⟨rfl, _, _⟩ := cut_eq_some_iff.1 hx
      exact ⟨[c], d :: rest, rfl, List.suffix_cons d rest⟩
    · obtain ⟨⟨v, d, u⟩, hx, he⟩ := Option.map_eq_some_iff.1 e
      cases he
      obtain ⟨split, _, _⟩ := cut_eq_some_iff.1 hx
      exact ⟨[], d :: u, split, List.suffix_rfl⟩

theorem scanValue_suffix {value rest : Bytes} (e : scanValue r = some (value, rest)) : rest <:+ r := by
  obtain ⟨before, tail, rfl, left⟩ := scanValue_split e
  exact left.trans ⟨before ++ value, by simp⟩

/-- After a key there is at least its colon before the value. -/
theorem scanAfterKey_split {value rest : Bytes} (e : scanAfterKey r = some (value, rest)) :
    ∃ before tail, r = before ++ (value ++ tail) ∧ before ≠ [] ∧ rest <:+ tail := by
  simp only [scanAfterKey, Option.bind_eq_bind, Option.bind_eq_some_iff, Prod.exists] at e
  obtain ⟨gap, d, r1, e1, ws, c, r2, e2, v, r3, e3, e4⟩ := e
  cases e4
  obtain ⟨rfl, _, _⟩ := cut_eq_some_iff.1 e1
  obtain ⟨rfl, _, _⟩ := cut_eq_some_iff.1 e2
  obtain ⟨before, tail, whole, left⟩ := scanValue_split e3
  refine ⟨gap ++ d :: (ws ++ before), tail, ?_, by simp, (skipComma_suffix r3).trans left⟩
  rw [whole]
  simp

theorem scanAfterKey_suffix {value rest : Bytes} (e : scanAfterKey r = some (value, rest)) :
    rest <:+ r := by
  obtain ⟨before, tail, rfl, _, left⟩ := scanAfterKey_split e
  exact left.trans ⟨before ++ value, by simp⟩

/-- Where a member was found. -/
theorem scanMember_split {key value rest : Bytes} (e : scanMember r = some (key, value, rest)) :
    ∃ junk after, r = junk ++ quote :: (key ++ quote :: after) ∧ quote ∉ key ∧
      scanAfterKey after = some (value, rest) := by
  simp only [scanMember, Option.bind_eq_bind, Option.bind_eq_some_iff, Prod.exists] at e
  obtain ⟨junk, q, r1, e1, k, q', r2, e2, v, r3, e3, e4⟩ := e
  cases e4
  obtain ⟨rfl, _, hq⟩ := cut_eq_some_iff.1 e1
  obtain ⟨rfl, clean, hq'⟩ := cut_eq_some_iff.1 e2
  refine ⟨junk, r2, ?_, ?_, e3⟩
  · rw [beq_iff_eq.1 hq, beq_iff_eq.1 hq']
  · intro mem
    exact absurd (clean _ mem) (by decide)

theorem scanMember_suffix {key value rest : Bytes} (e : scanMember r = some (key, value, rest)) :
    rest <:+ r ∧ rest.length < r.length := by
  obtain ⟨junk, after, rfl, _, found⟩ := scanMember_split e
  have inside := scanAfterKey_suffix found
  have shorter := inside.length_le
  refine ⟨inside.trans ⟨junk ++ quote :: (key ++ [quote]), by simp⟩, ?_⟩
  simp only [List.length_append, List.length_cons]
  omega

/-- A pass of the loop is a member scan of what is left. -/
theorem parseJsonStep_eq (h : r <:+ json) (result : Params) :
    parseJsonStep json (posOf json r, result) =
      .ok ((scanMember r).map fun (key, value, rest) =>
        (posOf json rest, result.insert key value)) := by
  rw [parseJsonStep]
  by_cases all : json.length ≤ posOf json r
  · have none : r = [] := by
      have := h.length_le
      rw [posOf] at all
      exact List.length_eq_zero_iff.1 (by omega)
    rw [if_pos all, none]
    rfl
  rw [if_neg all, scanMember, find, findIf_posOf h]
  simp only [scanAfterKey, bind, Except.bind, Option.bind, pure, Except.pure]
  cases e1 : cut (· == quote) r with
  | none => rfl
  | some x1 =>
  obtain ⟨_, q, r1⟩ := x1
  obtain ⟨s0, s1⟩ := cut_suffix h e1
  simp only [Option.map_some, ← posOf_cons s0, find, findIf_posOf s1]
  cases e2 : cut (· == quote) r1 with
  | none => rfl
  | some x2 =>
  obtain ⟨key, q', r2⟩ := x2
  obtain ⟨s2, s3⟩ := cut_suffix s1 e2
  obtain ⟨split, _, _⟩ := cut_eq_some_iff.1 e2
  have count : posOf json (q' :: r2) - posOf json (q :: r1) - 1 =
      posOf json (q' :: r2) - posOf json r1 := by
    rw [posOf_cons s0]
    omega
  have between : substr json (posOf json r1) (some (posOf json (q' :: r2) - posOf json r1)) =
      .ok key := by
    rw [split] at s1 ⊢
    exact substr_posOf s1
  simp only [Option.map_some, count, between, ← posOf_cons s2, findIf_posOf s3]
  cases e3 : cut (· == colon) r2 with
  | none => rfl
  | some x3 =>
  obtain ⟨_, d, r3⟩ := x3
  obtain ⟨s4, s5⟩ := cut_suffix s3 e3
  simp only [Option.map_some, findFirstNotOf, ← posOf_cons s4, findIf_posOf s5]
  cases e4 : cut (fun c => !blanks.contains c) r3 with
  | none => rfl
  | some x4 =>
  obtain ⟨_, c, r4⟩ := x4
  obtain ⟨s6, _⟩ := cut_suffix s5 e4
  simp only [Option.map_some, readValue_eq s6]
  cases e5 : scanValue (c :: r4) with
  | none => rfl
  | some x5 =>
  obtain ⟨value, r5⟩ := x5
  simp only [Option.map_some, posOf_skipComma ((scanValue_suffix e5).trans s6)]

/-- The members the reader finds, in order. -/
def members (r : Bytes) : List (Bytes × Bytes) :=
  match _e : scanMember r with
  | none => []
  | some (key, value, rest) => (key, value) :: members rest
  termination_by r.length
  decreasing_by exact (scanMember_suffix (by assumption)).2

theorem members_none (e : scanMember r = none) : members r = [] := by
  rw [members]
  split
  · rfl
  · rename_i e'
    rw [e] at e'
    cases e'

theorem members_some {key value rest : Bytes} (e : scanMember r = some (key, value, rest)) :
    members r = (key, value) :: members rest := by
  rw [members]
  split
  · rename_i e'
    rw [e] at e'
    cases e'
  · rename_i e'
    rw [e] at e'
    cases e'
    rfl

/-- A member was found in some part of the text. -/
theorem mem_members {key value : Bytes} (r : Bytes) (mem : (key, value) ∈ members r) :
    ∃ part rest, part <:+ r ∧ scanMember part = some (key, value, rest) := by
  cases e : scanMember r with
  | none =>
    rw [members_none e] at mem
    cases mem
  | some x =>
    obtain ⟨k, v, rest⟩ := x
    rw [members_some e] at mem
    obtain ⟨suffix, less⟩ := scanMember_suffix e
    rcases List.mem_cons.1 mem with same | mem
    · cases same
      exact ⟨r, rest, List.suffix_rfl, e⟩
    · obtain ⟨part, rest', inside, found⟩ := mem_members rest mem
      exact ⟨part, rest', inside.trans suffix, found⟩
  termination_by r.length

/-- The map of a list of members, later ones on top. -/
def memberMap (ms : List (Bytes × Bytes)) (m : Params) : Params :=
  ms.foldl (fun m (key, value) => m.insert key value) m

theorem parseJson_loop : ∀ (n : Nat) (r : Bytes) (result : Params), r <:+ json → r.length ≤ n →
    ∃ pos, whileM (parseJsonStep json) n (posOf json r, result) =
      .ok (pos, memberMap (members r) result) := by
  intro n
  induction n with
  | zero =>
    intro r result _ short
    have none : r = [] := List.length_eq_zero_iff.1 (by omega)
    exact ⟨posOf json r, by rw [none, members_none rfl]; rfl⟩
  | succ n ih =>
    intro r result h short
    rw [whileM, parseJsonStep_eq h]
    cases e : scanMember r with
    | none => exact ⟨posOf json r, by rw [members_none e]; rfl⟩
    | some x =>
      obtain ⟨key, value, rest⟩ := x
      obtain ⟨suffix, less⟩ := scanMember_suffix e
      obtain ⟨pos, run⟩ := ih rest (result.insert key value) (suffix.trans h) (by omega)
      exact ⟨pos, by rw [members_some e]; exact run⟩

/-- **`parse_json`** throws nothing and returns the map of the members it finds. -/
theorem parseJson_eq (json : Bytes) : parseJson json = .ok (memberMap (members json) ∅) := by
  have start : posOf json json = 0 := by simp [posOf]
  obtain ⟨pos, run⟩ := parseJson_loop (json.length + 1) json ∅ List.suffix_rfl (by omega)
  rw [start] at run
  rw [parseJson, run]
  rfl

end Positions

/-- The value of the last member with that key. -/
def lastValue (ms : List (Bytes × Bytes)) (key : Bytes) : Option Bytes :=
  ((ms.filter (·.1 == key)).getLast?).map Prod.snd

theorem lastValue_mem {ms : List (Bytes × Bytes)} {key value : Bytes}
    (h : lastValue ms key = some value) : (key, value) ∈ ms := by
  obtain ⟨⟨k, v⟩, last, rfl⟩ := Option.map_eq_some_iff.1 h
  have mem := List.mem_of_getLast? last
  rw [List.mem_filter] at mem
  rw [← beq_iff_eq.1 mem.2]
  exact mem.1

theorem lastValue_isSome {ms : List (Bytes × Bytes)} {key value : Bytes} (mem : (key, value) ∈ ms) :
    (lastValue ms key).isSome := by
  have found : (key, value) ∈ ms.filter (·.1 == key) := List.mem_filter.2 ⟨mem, beq_self_eq_true key⟩
  rw [lastValue, Option.isSome_map, List.getLast?_isSome]
  exact List.ne_nil_of_mem found

/-- Members say nothing about other keys. -/
theorem lastValue_skip {front mid back : List (Bytes × Bytes)} {key : Bytes}
    (other : ∀ x ∈ mid, key ≠ x.1) :
    lastValue (front ++ (mid ++ back)) key = lastValue (front ++ back) key := by
  have none : mid.filter (·.1 == key) = [] := by
    rw [List.filter_eq_nil_iff]
    intro x mem
    simpa using (other x mem).symm
  rw [lastValue, lastValue, List.filter_append, List.filter_append, List.filter_append, none,
    List.nil_append]

theorem lastValue_other {front back : List (Bytes × Bytes)} {x : Bytes × Bytes} {key : Bytes}
    (other : key ≠ x.1) : lastValue (front ++ x :: back) key = lastValue (front ++ back) key :=
  @lastValue_skip front [x] back key (by simpa using other)

theorem memberMap_lookup (ms : List (Bytes × Bytes)) (m : Params) (key : Bytes) :
    (memberMap ms m).lookup key = (lastValue ms key).or (m.lookup key) := by
  induction ms generalizing m with
  | nil => rfl
  | cons x ms ih =>
    obtain ⟨k, v⟩ := x
    rw [memberMap, List.foldl_cons, ← memberMap, ih]
    by_cases hk : k = key
    · subst hk
      rw [Finmap.lookup_insert]
      cases e : (ms.filter (·.1 == k)).getLast? <;> simp [lastValue, e, List.getLast?_cons]
    · rw [Finmap.lookup_insert_of_ne _ (Ne.symm hk)]
      simp [lastValue, hk]

/-- What a key is read as: the value of the last member with it. -/
theorem parseJson_lookup (json : Bytes) :
    ∃ params, parseJson json = .ok params ∧
      ∀ key, params.lookup key = lastValue (members json) key := by
  refine ⟨_, parseJson_eq json, fun key => ?_⟩
  rw [memberMap_lookup, Finmap.lookup_empty, Option.or_none]

/-! ## Scanning known text -/

section Scan

variable {junk key gap ws r : Bytes} {c d : UInt8}

/-- The reader passes over what holds no quote. -/
theorem scanMember_junk (none : quote ∉ junk) : scanMember (junk ++ r) = scanMember r := by
  rw [scanMember, scanMember, cut_skip (no_byte none)]
  cases cut (· == quote) r <;> rfl

theorem members_junk (none : quote ∉ junk) : members (junk ++ r) = members r := by
  cases e : scanMember r with
  | none => rw [members_none e, members_none (by rw [scanMember_junk none, e])]
  | some x =>
    obtain ⟨key, value, rest⟩ := x
    rw [members_some e, members_some (by rw [scanMember_junk none, e])]

theorem members_no_quote (none : quote ∉ junk) : members junk = [] := by
  rw [← List.append_nil junk, members_junk none, members_none rfl]

/-- From a key on. -/
theorem scanMember_at (hkey : quote ∉ key) : scanMember (quote :: (key ++ quote :: r)) =
    (scanAfterKey r).map fun (value, rest) => (key, value, rest) := by
  have start : cut (· == quote) (quote :: (key ++ quote :: r)) =
      some ([], quote, key ++ quote :: r) := rfl
  have close : cut (· == quote) (key ++ quote :: r) = some (key, quote, r) :=
    cut_append (no_byte hkey) (beq_self_eq_true quote)
  simp only [scanMember, start, close, Option.bind_eq_bind, Option.bind_some]
  cases scanAfterKey r <;> rfl

/-- The value is what stands after the first colon that follows the key, blanks aside. -/
theorem scanMember_key (hkey : quote ∉ key) (hgap : colon ∉ gap) (hws : ∀ x ∈ ws, x ∈ blanks)
    (hc : c ∉ blanks) :
    scanMember (quote :: (key ++ quote :: (gap ++ colon :: (ws ++ c :: r)))) =
      (scanValue (c :: r)).map fun (value, rest) => (key, value, skipComma rest) := by
  have sep : cut (· == colon) (gap ++ colon :: (ws ++ c :: r)) = some (gap, colon, ws ++ c :: r) :=
    cut_append (no_byte hgap) (beq_self_eq_true colon)
  have skip : cut (fun c => !blanks.contains c) (ws ++ c :: r) = some (ws, c, r) := by
    refine cut_append (fun x hx => ?_) ?_
    · simpa using hws x hx
    · simpa using hc
  rw [scanMember_at hkey]
  simp only [scanAfterKey, sep, skip, Option.bind_eq_bind, Option.bind_some]
  cases scanValue (c :: r) <;> rfl

theorem scanValue_string {s : Bytes} (none : quote ∉ s) :
    scanValue (quote :: (s ++ quote :: r)) = some (s, r) := by
  have close := @cut_append _ _ r _ (no_byte none) (beq_self_eq_true quote)
  rw [scanValue, if_pos rfl, close]
  rfl

theorem scanValue_other {t : Bytes} (hc : c ≠ quote) (none : ∀ x ∈ c :: t, x ∉ commaBrace)
    (hd : d ∈ commaBrace) : scanValue (c :: (t ++ d :: r)) = some (c :: t, d :: r) := by
  have close : cut (commaBrace.contains ·) ((c :: t) ++ d :: r) = some (c :: t, d, r) := by
    refine cut_append (fun x hx => ?_) ?_
    · simpa using none x hx
    · simpa using hd
  rw [scanValue, if_neg hc, ← List.cons_append, close]
  rfl

/-- What is left after a comma has been passed over holds the text after it. -/
theorem skipComma_append {g : Bytes} (some : g ≠ []) (none : quote ∉ g) :
    ∃ junk, quote ∉ junk ∧ skipComma (g ++ r) = junk ++ r := by
  obtain ⟨c, g, rfl⟩ := List.exists_cons_of_ne_nil some
  rw [List.cons_append, skipComma]
  split
  · exact ⟨g, fun h => none (List.mem_cons_of_mem c h), rfl⟩
  · exact ⟨c :: g, none, rfl⟩

/-- The reader takes a member off the text and passes over what it leaves of the value. -/
theorem members_keyed {value left rest : Bytes} (hjunk : quote ∉ junk) (hkey : quote ∉ key)
    (hgap : colon ∉ gap) (hws : ∀ x ∈ ws, x ∈ blanks) (hc : c ∉ blanks)
    (scan : scanValue (c :: r) = some (value, left))
    (tail : ∃ passed, quote ∉ passed ∧ skipComma left = passed ++ rest) :
    members (junk ++ quote :: (key ++ quote :: (gap ++ colon :: (ws ++ c :: r)))) =
      (key, value) :: members rest := by
  obtain ⟨passed, none, tail⟩ := tail
  have found : scanMember (quote :: (key ++ quote :: (gap ++ colon :: (ws ++ c :: r)))) =
      some (key, value, passed ++ rest) := by
    rw [scanMember_key hkey hgap hws hc, scan, ← tail]
    rfl
  rw [members_junk hjunk, members_some found, members_junk none]

end Scan

end ModelRuntime
