import ModelRuntime.Lib.JsonText

/-!
# What stands at a path

The converse of putting a text together: where a whole text is read, so is each part of it whose
place is known, and the part is what a client finds at its path.
-/

namespace ModelRuntime.Lib.Json
open Cpp

/-- Only one member has the name, and it is the one that is there. -/
theorem member_of_mem {ms : List (Bytes × Json)} {key : Bytes} {x w : Json} (mem : (key, x) ∈ ms)
    (found : member key (.object ms) = some w) : w = x := by
  have named : (key, x) ∈ ms.filter (·.1 == key) := List.mem_filter.2 ⟨mem, beq_self_eq_true key⟩
  rw [member] at found
  split at found
  · rename_i k v only
    cases found
    rw [only] at named
    exact (Prod.mk.inj (List.mem_singleton.1 named)).2.symm
  · cases found

/-- `t` is read where it stands, and only its value can be what the path gives. -/
def Stands (t : Bytes) (path : Json → Option Json) (v : Json) : Prop :=
  ∃ fuel x rest, value fuel t = some (x, rest) ∧ ∀ w, path v = some w → w = x

theorem Stands.trans {t u : Bytes} {p q : Json → Option Json} {v : Json} (h : Stands t p v)
    (k : ∀ fuel x rest, value fuel t = some (x, rest) → Stands u q x) :
    Stands u (fun v => (p v).bind q) v := by
  obtain ⟨fuel, x, rest, read, only⟩ := h
  obtain ⟨g, y, rest', read', only'⟩ := k fuel x rest read
  refine ⟨g, y, rest', read', fun w found => ?_⟩
  obtain ⟨x', hp, hq⟩ := Option.bind_eq_some_iff.1 found
  rw [only x' hp] at hq
  exact only' w hq

/-- A member behind known ones. -/
theorem stands_member {ws : Bytes} (blank : ∀ c ∈ ws, isWs c = true) {ms : KnownMembers}
    (known : Known ms) {key : Bytes} (hkey : Verbatim key) {t : Bytes} (solid : skipWs t = t)
    {fuel : Nat} {v : Json} {rest : Bytes}
    (e : value fuel (openBrace :: (fieldsText ws ms ++ fieldText ws key t)) = some (v, rest)) :
    Stands t (member key) v := by
  obtain ⟨count, bound⟩ := fieldsText_length ws ms
  have start : skipWs (fieldsText ws ms ++ fieldText ws key t) = fieldsText ws ms ++ fieldText ws key t := by
    cases ms <;> rfl
  -- fuel enough for each known member, as the text is read with any that is above its length
  obtain ⟨g, hg⟩ : ∃ g, g = (fieldsText ws ms ++ fieldText ws key t).length + 1 := ⟨_, rfl⟩
  have read := value_fuel e (g := (g + 1 + ms.length) + 1) (by rw [List.length_cons]; omega)
  rw [value_object] at read
  rcases container_iff.1 read with ⟨shut, _⟩ | ⟨_, out, rfl, inner⟩
  · rw [start] at shut
    cases ms <;> cases shut
  · rw [start, members_front blank known rfl fun m hm => by
        have := bound m hm; rw [List.length_append] at hg; omega,
      members_fieldText blank hkey solid] at inner
    obtain ⟨⟨tail, rest'⟩, last, e'⟩ := Option.map_eq_some_iff.1 inner
    obtain ⟨rfl, _⟩ := Prod.mk.inj e'
    obtain ⟨⟨x, r⟩, hx, after⟩ := Option.bind_eq_some_iff.1 last
    refine ⟨g, x, r, hx, fun w found => member_of_mem ?_ found⟩
    rcases (afterItem_iff (by decide)).1 after with ⟨_, _, _, _, rfl⟩ | ⟨_, rfl⟩ <;> simp

/-- The first element of an array. -/
theorem stands_element {t : Bytes} (solid : skipWs t = t) (more : ∀ r, t ≠ 93 :: r) {fuel : Nat}
    {v : Json} {rest : Bytes} (e : value fuel (91 :: t) = some (v, rest)) :
    Stands t (element 0) v := by
  have read := value_fuel e (g := (t.length + 1 + 1) + 1) (by rw [List.length_cons]; omega)
  rw [value_array] at read
  rcases container_iff.1 read with ⟨shut, _⟩ | ⟨_, xs, rfl, inner⟩
  · rw [solid] at shut
    exact absurd shut (more rest)
  · rw [solid] at inner
    obtain ⟨x, r, hx, after⟩ := elements_iff.1 inner
    refine ⟨_, x, r, hx, fun w found => ?_⟩
    rcases (afterItem_iff (by decide)).1 after with ⟨_, _, _, _, rfl⟩ | ⟨_, rfl⟩ <;>
      exact (Option.some.inj found).symm

/-! ## Down a document -/

theorem Stands.document {t : Bytes} {v : Json} (solid : skipWs t = t) (e : decode t = some v) :
    Stands (t ++ []) some v := by
  obtain ⟨fuel, rest, read, _⟩ := decode_iff.1 e
  rw [solid] at read
  refine ⟨fuel, v, rest, by rwa [List.append_nil], fun w found => ?_⟩
  exact (Option.some.inj found).symm

section Down

variable {path : Json → Option Json} {v : Json} {t r : Bytes}

/-- A member before the last. -/
theorem Stands.field {ws : Bytes} (blank : ∀ c ∈ ws, isWs c = true) (front : KnownMembers)
    (known : Known front) {m : Bytes × Bytes × Json} (hkey : Verbatim m.1)
    (solid : ∀ u, skipWs (m.2.1 ++ u) = m.2.1 ++ u) {back : KnownMembers} {key : Bytes}
    (h : Stands (recordText ws (front ++ m :: back) key t ++ r) path v) :
    ∃ tail, Stands (m.2.1 ++ comma :: tail) (fun v => (path v).bind (member m.1)) v := by
  obtain ⟨tail, split⟩ := recordText_member ws front m back key t r
  rw [split] at h
  exact ⟨tail, h.trans fun _ _ _ e => stands_member blank known hkey (solid _) e⟩

/-- The last member. -/
theorem Stands.lastField {ws : Bytes} (blank : ∀ c ∈ ws, isWs c = true) {ms : KnownMembers}
    (known : Known ms) {key : Bytes} (hkey : Verbatim key) (solid : ∀ u, skipWs (t ++ u) = t ++ u)
    (h : Stands (recordText ws ms key t ++ r) path v) :
    Stands (t ++ closeBrace :: r) (fun v => (path v).bind (member key)) v := by
  rw [recordText_last] at h
  exact h.trans fun _ _ _ e => stands_member blank known hkey (solid _) e

theorem Stands.inner {front : KnownMembers} (known : Known front) {m : Bytes × Bytes × Json}
    (hkey : Verbatim m.1) (solid : ∀ u, skipWs (m.2.1 ++ u) = m.2.1 ++ u) {back : KnownMembers}
    {key : Bytes} (h : Stands (objectText (front ++ m :: back) key t ++ r) path v) :
    ∃ tail, Stands (m.2.1 ++ comma :: tail) (fun v => (path v).bind (member m.1)) v :=
  Stands.field one_blank front known hkey solid h

theorem Stands.last {ms : KnownMembers} (known : Known ms) {key : Bytes} (hkey : Verbatim key)
    (solid : ∀ u, skipWs (t ++ u) = t ++ u) (h : Stands (objectText ms key t ++ r) path v) :
    Stands (t ++ closeBrace :: r) (fun v => (path v).bind (member key)) v :=
  Stands.lastField one_blank known hkey solid h

theorem Stands.first (solid : ∀ u, skipWs (t ++ u) = t ++ u) (more : ∀ u w, t ++ u ≠ 93 :: w)
    (h : Stands (91 :: (t ++ r)) path v) : Stands (t ++ r) (fun v => (path v).bind (element 0)) v :=
  h.trans fun _ _ _ e => stands_element (solid r) (more r) e

end Down

/-- A spliced string that is found as it was is verbatim. -/
theorem Stands.verbatim {s r : Bytes} {path : Json → Option Json} {v : Json}
    (h : Stands (quote :: (s ++ quote :: r)) path v) (found : path v = some (.string s)) :
    Verbatim s := by
  obtain ⟨fuel, x, rest, read, only⟩ := h
  cases fuel with
  | zero =>
    rw [value] at read
    cases read
  | succ fuel =>
    rw [value_string] at read
    obtain ⟨⟨s', t⟩, body, e⟩ := Option.map_eq_some_iff.1 read
    obtain ⟨rfl, _⟩ := Prod.mk.inj e
    cases only _ found
    exact verbatim_of_splice body

/-! ## A text spliced as the last string of an object -/

/-- The inside of one literal: quotes and backslashes belong to escapes, and no byte is a control. -/
def Inside (w : Bytes) : Prop := ∃ s, stringBody (w ++ [quote]) = some (s, [])

/-- The text ends its literal itself and goes on with members, the last of which is a string that
still lacks its closing quote. -/
def GoesOn (w : Bytes) : Prop :=
  ∃ s r r' m ms, stringBody w = some (s, r) ∧ skipWs r = comma :: r' ∧
    decode (openBrace :: (r' ++ [quote, closeBrace])) = some (.object (m :: ms))

theorem Verbatim.inside {w : Bytes} (h : Verbatim w) : Inside w := ⟨w, stringBody_verbatim h []⟩

theorem skipWs_append {c : UInt8} (solid : isWs c = false) (a t : Bytes) :
    skipWs (a ++ c :: t) = skipWs a ++ c :: t := by
  induction a with
  | nil => rw [List.nil_append, skipWs, List.dropWhile_cons, if_neg (by simp [solid])]; rfl
  | cons x a ih =>
    by_cases blank : isWs x = true
    · rw [List.cons_append, skipWs, List.dropWhile_cons_of_pos blank, ← skipWs, ih, skipWs, skipWs,
        List.dropWhile_cons_of_pos blank]
    · rw [List.cons_append, skipWs, List.dropWhile_cons_of_neg blank, skipWs,
        List.dropWhile_cons_of_neg blank]
      rfl

theorem members_head {fuel : Nat} {r rest : Bytes} {ms : List (Bytes × Json)}
    (e : members fuel r = some (ms, rest)) :
    (∃ g, fuel = g + 1) ∧ (∃ t, r = quote :: t) ∧ ∃ m ns, ms = m :: ns := by
  cases fuel with
  | zero =>
    rw [members] at e
    cases e
  | succ g =>
    obtain ⟨r₁, key, r₂, r₃, x, r₄, rfl, _, _, _, after⟩ := members_iff.1 e
    refine ⟨⟨g, rfl⟩, ⟨r₁, rfl⟩, ?_⟩
    rcases (afterItem_iff (by decide)).1 after with ⟨_, ns, _, _, rfl⟩ | ⟨_, rfl⟩
    · exact ⟨_, ns, rfl⟩
    · exact ⟨_, [], rfl⟩

/-- An object that is read has members, or is empty. -/
theorem decode_object_iff {t : Bytes} {m : Bytes × Json} {ms : List (Bytes × Json)} :
    decode (openBrace :: t) = some (.object (m :: ms)) ↔
      ∃ fuel rest, members fuel (skipWs t) = some (m :: ms, rest) ∧ skipWs rest = [] := by
  have solid : skipWs (openBrace :: t) = openBrace :: t := rfl
  rw [decode_iff, solid]
  constructor
  · rintro ⟨fuel, rest, e, blank⟩
    cases fuel with
    | zero =>
      rw [value] at e
      cases e
    | succ fuel =>
      rw [value_object] at e
      rcases container_iff.1 e with ⟨_, same⟩ | ⟨_, xs, same, inner⟩
      · cases same
      · cases same
        exact ⟨fuel, rest, inner, blank⟩
  · rintro ⟨fuel, rest, inner, blank⟩
    obtain ⟨_, ⟨u, start⟩, _⟩ := members_head inner
    refine ⟨fuel + 1, rest, ?_, blank⟩
    rw [value_object]
    refine container_iff.2 (.inr ⟨fun x h => ?_, _, rfl, inner⟩)
    rw [start] at h
    cases h

/-- A text that starts a member is read as an object with one at least. -/
theorem decode_memberText {key t : Bytes} {v : Json}
    (e : decode (openBrace :: memberText key t) = some v) : ∃ m ms, v = .object (m :: ms) := by
  have solid : skipWs (openBrace :: memberText key t) = openBrace :: memberText key t := rfl
  obtain ⟨fuel, rest, e, _⟩ := decode_iff.1 e
  rw [solid] at e
  cases fuel with
  | zero =>
    rw [value] at e
    cases e
  | succ fuel =>
    rw [value_object] at e
    rcases container_iff.1 e with ⟨shut, _⟩ | ⟨_, ms, rfl, inner⟩
    · cases shut
    · obtain ⟨_, _, m, ns, rfl⟩ := members_head inner
      exact ⟨m, ns, rfl⟩

theorem decode_string_member {key t : Bytes} (hkey : Verbatim key) {m : Bytes × Json}
    {ms : List (Bytes × Json)} :
    decode (openBrace :: memberText key (quote :: t)) = some (.object (m :: ms)) ↔
      ∃ fuel s r rest, stringBody t = some (s, r) ∧
        afterItem closeBrace (members fuel) (key, .string s) r = some (m :: ms, rest) ∧
        skipWs rest = [] := by
  have solid : skipWs (memberText key (quote :: t)) = memberText key (quote :: t) := rfl
  have start : ∀ fuel, members (fuel + 1 + 1) (memberText key (quote :: t)) =
      (stringBody t).bind fun x => afterItem closeBrace (members (fuel + 1)) (key, .string x.1) x.2 := by
    intro fuel
    rw [members_memberText hkey rfl, value_string]
    cases stringBody t <;> rfl
  rw [decode_object_iff, solid]
  constructor
  · rintro ⟨fuel, rest, inner, blank⟩
    obtain ⟨⟨fuel, rfl⟩, _, _⟩ := members_head inner
    cases fuel with
    | zero =>
      rw [members_memberText hkey rfl, value] at inner
      cases inner
    | succ fuel =>
      rw [start] at inner
      obtain ⟨⟨s, r⟩, body, after⟩ := Option.bind_eq_some_iff.1 inner
      exact ⟨_, s, r, rest, body, after, blank⟩
  · rintro ⟨fuel, s, r, rest, body, after, blank⟩
    obtain ⟨_, again⟩ := afterItem_settled (by decide) (settled fuel).2.2 after
    refine ⟨r.length + 1 + 1, rest, ?_, blank⟩
    rw [start, body, Option.bind_some]
    exact again _ (by omega)

/-- The object with the one member `"key": "w"` is a document where `w` is the inside of a literal,
or ends it and goes on. -/
theorem spliced_iff {key w : Bytes} (hkey : Verbatim key) :
    (∃ v, decode (openBrace :: memberText key (quote :: (w ++ [quote, closeBrace]))) = some v) ↔
      Inside w ∨ GoesOn w := by
  have solid : isWs quote = false := rfl
  constructor
  · rintro ⟨v, e⟩
    obtain ⟨m, ms, rfl⟩ := decode_memberText e
    obtain ⟨fuel, s, r₁, rest, body, after, blank⟩ := (decode_string_member hkey).1 e
    rcases stringBody_spliced body with ⟨r, rfl, own⟩ | ⟨_, own⟩ | short
    · rw [afterItem_iff (by decide), skipWs_append solid] at after
      rcases after with ⟨r', ns, sep, inner, same⟩ | ⟨shut, _⟩
      · cases blanks : skipWs r with
        | nil =>
          rw [blanks] at sep
          cases sep
        | cons c r'' =>
          rw [blanks] at sep
          obtain ⟨rfl, rfl⟩ := List.cons.inj sep
          obtain ⟨_, _, m', ns', rfl⟩ := members_head inner
          exact .inr ⟨s, r, r'', m', ns', own, blanks, decode_object_iff.2 ⟨_, rest, inner, blank⟩⟩
      · -- a closing brace inside leaves at least the last two bytes unread
        cases blanks : skipWs r with
        | nil =>
          rw [blanks] at shut
          cases shut
        | cons c r'' =>
          rw [blanks] at shut
          obtain ⟨_, rfl⟩ := List.cons.inj shut
          rw [List.append_eq, skipWs_append solid] at blank
          simp at blank
    · exact .inl ⟨s, own⟩
    · rw [List.length_singleton, Nat.lt_one_iff, List.length_eq_zero_iff] at short
      subst short
      cases after
  · rintro (⟨s, own⟩ | ⟨s, r, r', m, ms, own, sep, goesOn⟩)
    · have body : stringBody (w ++ [quote, closeBrace]) = some (s, [closeBrace]) := by
        have longer := (stringBody_append (u := [closeBrace])).2 own
        rwa [List.append_assoc] at longer
      exact ⟨_, (decode_string_member hkey).2 ⟨0, s, [closeBrace], [], body, rfl, rfl⟩⟩
    · obtain ⟨fuel, rest, inner, blank⟩ := decode_object_iff.1 goesOn
      refine ⟨.object ((key, .string s) :: m :: ms), (decode_string_member hkey).2
        ⟨fuel, s, r ++ [quote, closeBrace], rest, stringBody_append.2 own, ?_, blank⟩⟩
      rw [afterItem_iff (by decide), skipWs_append solid, sep]
      exact .inl ⟨r' ++ [quote, closeBrace], m :: ms, rfl, inner, rfl⟩

end ModelRuntime.Lib.Json
