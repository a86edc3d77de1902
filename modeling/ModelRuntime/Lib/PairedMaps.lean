import Mathlib.Data.Finmap

/-!
# Two maps written together

Pairs written in turn into a map and, turned round, into a second one. The two are mutually inverse
exactly where each pair, after it is written last, is overwritten in both of them or in neither.
-/

namespace ModelRuntime.Lib

variable {α β : Type*}

/-- Where a pair stands in a list with one more at its end. -/
theorem concat_split {ws x y : List α} {w c : α} :
    ws ++ [w] = x ++ c :: y ↔ (y = [] ∧ x = ws ∧ c = w) ∨ ∃ y', y = y' ++ [w] ∧ ws = x ++ c :: y' := by
  constructor
  · intro split
    rcases List.eq_nil_or_concat y with rfl | ⟨y', w', rfl⟩
    · obtain ⟨rfl, same⟩ := List.append_inj' split rfl
      exact .inl ⟨rfl, rfl, (List.cons.inj same).1.symm⟩
    · rw [List.concat_eq_append, ← List.cons_append, ← List.append_assoc] at split
      obtain ⟨rfl, same⟩ := List.append_inj' split rfl
      obtain rfl := (List.cons.inj same).1
      exact .inr ⟨y', List.concat_eq_append, rfl⟩
  · rintro (⟨rfl, rfl, rfl⟩ | ⟨y', rfl, rfl⟩)
    · rfl
    · simp

/-- Only one place is the last one. -/
theorem last_unique {x y x' y' : List α} {c : α} (split : x ++ c :: y = x' ++ c :: y') (last : c ∉ y)
    (last' : c ∉ y') : y = y' := by
  rcases List.append_eq_append_iff.1 split with ⟨z, _, hz⟩ | ⟨z, _, hz⟩
  · cases z with
    | nil => exact (List.cons.inj hz).2
    | cons d z =>
      obtain ⟨_, rfl⟩ := List.cons.inj hz
      exact absurd (by simp) last
  · cases z with
    | nil => exact (List.cons.inj hz).2.symm
    | cons d z =>
      obtain ⟨_, rfl⟩ := List.cons.inj hz
      exact absurd (by simp) last'

section Write

variable [DecidableEq α]

/-- The map after the writes `ws`. -/
def writeAll (ws : List (α × β)) : Finmap fun _ : α => β := ws.foldl (fun m w => m.insert w.1 w.2) ∅

theorem writeAll_concat (ws : List (α × β)) (a : α) (b : β) :
    writeAll (ws ++ [(a, b)]) = (writeAll ws).insert a b := by
  rw [writeAll, List.foldl_append]
  rfl

/-- What a key holds is what was written to it last. -/
theorem lookup_writeAll {ws : List (α × β)} {a : α} {b : β} :
    (writeAll ws).lookup a = some b ↔ ∃ x y, ws = x ++ (a, b) :: y ∧ a ∉ y.map Prod.fst := by
  induction ws using List.reverseRecOn with
  | nil => simp [writeAll]
  | append_singleton ws w ih =>
    obtain ⟨a', b'⟩ := w
    rw [writeAll_concat]
    by_cases same : a = a'
    · subst same
      rw [Finmap.lookup_insert, Option.some.injEq]
      constructor
      · rintro rfl
        exact ⟨ws, [], rfl, by simp⟩
      · rintro ⟨x, y, split, last⟩
        rcases concat_split.1 split with ⟨_, _, same⟩ | ⟨y', rfl, _⟩
        · exact (Prod.mk.inj same).2.symm
        · exact absurd (by simp) last
    · rw [Finmap.lookup_insert_of_ne _ same, ih]
      constructor
      · rintro ⟨x, y, rfl, last⟩
        exact ⟨x, y ++ [(a', b')], by simp, by simp [last, same]⟩
      · rintro ⟨x, y, split, last⟩
        rcases concat_split.1 split with ⟨_, _, same'⟩ | ⟨y', rfl, rfl⟩
        · exact absurd (Prod.mk.inj same').1 same
        · refine ⟨x, y', rfl, fun mem => last ?_⟩
          rw [List.map_append]
          exact List.mem_append_left _ mem

/-- What a map holds after more writes. -/
theorem lookup_foldl_insert (ws : List (α × β)) (m : Finmap fun _ : α => β) (a : α) :
    (ws.foldl (fun m w => m.insert w.1 w.2) m).lookup a = ((writeAll ws).lookup a).or (m.lookup a) := by
  induction ws using List.reverseRecOn with
  | nil => simp [writeAll]
  | append_singleton ws w ih =>
    obtain ⟨a', b'⟩ := w
    rw [List.foldl_append, writeAll_concat, List.foldl_cons, List.foldl_nil]
    by_cases same : a = a'
    · subst same
      rw [Finmap.lookup_insert, Finmap.lookup_insert, Option.some_or]
    · rw [Finmap.lookup_insert_of_ne _ same, Finmap.lookup_insert_of_ne _ same, ih]

theorem mem_foldl_insert {ws : List (α × β)} {m : Finmap fun _ : α => β} {a : α} :
    a ∈ ws.foldl (fun m w => m.insert w.1 w.2) m ↔ a ∈ m ∨ a ∈ ws.map Prod.fst := by
  induction ws generalizing m with
  | nil => simp
  | cons w ws ih =>
    rw [List.foldl_cons, ih, Finmap.mem_insert, List.map_cons, List.mem_cons]
    tauto

theorem foldl_insert_twice (ws : List (α × β)) (m : Finmap fun _ : α => β) :
    ws.foldl (fun m w => m.insert w.1 w.2) (ws.foldl (fun m w => m.insert w.1 w.2) m) =
      ws.foldl (fun m w => m.insert w.1 w.2) m := by
  apply Finmap.ext_lookup
  intro a
  rw [lookup_foldl_insert, lookup_foldl_insert]
  cases (writeAll ws).lookup a <;> rfl

theorem lookup_writeAll_cons (ws : List (α × β)) (a' a : α) (b : β) :
    (writeAll ((a', b) :: ws)).lookup a = ((writeAll ws).lookup a).or (if a' = a then some b else none) := by
  have one : (writeAll [(a', b)]).lookup a = if a' = a then some b else none := by
    rw [← List.nil_append [(a', b)], writeAll_concat]
    by_cases same : a' = a
    · subst same
      rw [Finmap.lookup_insert, if_pos rfl]
    · rw [Finmap.lookup_insert_of_ne _ (Ne.symm same), if_neg same]
      rfl
  rw [← List.singleton_append, writeAll, List.foldl_append, lookup_foldl_insert]
  exact congrArg (((writeAll ws).lookup a).or ·) one

/-- Keys written once each hold what was written to them. -/
theorem lookup_writeAll_nodup {ws : List (α × β)} (once : (ws.map Prod.fst).Nodup) {a : α} {b : β} :
    (writeAll ws).lookup a = some b ↔ (a, b) ∈ ws := by
  rw [lookup_writeAll]
  constructor
  · rintro ⟨x, y, rfl, _⟩
    simp
  · intro mem
    obtain ⟨x, y, rfl⟩ := List.append_of_mem mem
    rw [List.map_append, List.map_cons] at once
    exact ⟨x, y, rfl, (List.nodup_cons.1 once.of_append_right).1⟩

end Write

/-- A pair is overwritten in both maps or in neither: after its last write, a later write of its first
component comes if and only if one of its second does. -/
def OverwrittenTogether (ws : List (α × β)) : Prop :=
  ∀ x a b y, ws = x ++ (a, b) :: y → (a, b) ∉ y → (a ∈ y.map Prod.fst ↔ b ∈ y.map Prod.snd)

/-- The same of the pairs turned round. -/
theorem OverwrittenTogether.swap {ws : List (α × β)} (h : OverwrittenTogether ws) :
    OverwrittenTogether (ws.map Prod.swap) := by
  intro x b a y split last
  have back := congrArg (List.map Prod.swap) split
  rw [List.map_map, Prod.swap_swap_eq, List.map_id, List.map_append, List.map_cons] at back
  have later := h _ _ _ _ back fun mem => last ((List.mem_map_swap b a y).1 mem)
  rw [List.map_map, List.map_map] at later
  exact later.symm

section Inverse

variable [DecidableEq α]

/-- Of a pair's last write the first map tells whether its key was written again. -/
theorem lookup_last {x y : List (α × β)} {a : α} {b : β} (last : (a, b) ∉ y) :
    (writeAll (x ++ (a, b) :: y)).lookup a = some b ↔ a ∉ y.map Prod.fst := by
  rw [lookup_writeAll]
  constructor
  · rintro ⟨x', y', split, last'⟩
    have lastPair : (a, b) ∉ y' := fun mem => last' (List.mem_map_of_mem (f := Prod.fst) mem)
    rw [last_unique split last lastPair]
    exact last'
  · exact fun last' => ⟨x, y, rfl, last'⟩

variable [DecidableEq β]

/-- What the first map holds, the second holds turned round. -/
theorem OverwrittenTogether.lookup_swap {ws : List (α × β)} (h : OverwrittenTogether ws) {a : α} {b : β}
    (found : (writeAll ws).lookup a = some b) : (writeAll (ws.map Prod.swap)).lookup b = some a := by
  obtain ⟨x, y, rfl, last⟩ := lookup_writeAll.1 found
  have lastPair : (a, b) ∉ y := fun mem => last (List.mem_map_of_mem (f := Prod.fst) mem)
  have kept := (not_congr (h x a b y rfl lastPair)).1 last
  refine lookup_writeAll.2 ⟨x.map Prod.swap, y.map Prod.swap, by simp, ?_⟩
  rw [List.map_map]
  exact kept

/-- **Two maps written together** are mutually inverse exactly where every pair is overwritten in both
or in neither. -/
theorem inverse_iff {ws : List (α × β)} :
    (∀ a b, (writeAll ws).lookup a = some b ↔ (writeAll (ws.map Prod.swap)).lookup b = some a) ↔
      OverwrittenTogether ws := by
  constructor
  · rintro inverse x a b y rfl last
    have lastSwap : (b, a) ∉ y.map Prod.swap := fun mem => last ((List.mem_map_swap a b y).1 mem)
    have forward := lookup_last (x := x) last
    have backward := lookup_last (x := x.map Prod.swap) lastSwap
    have both := inverse a b
    rw [List.map_append, List.map_cons] at both
    rw [List.map_map] at backward
    exact not_iff_not.1 (forward.symm.trans (both.trans backward))
  · intro h a b
    constructor
    · exact h.lookup_swap
    · intro found
      have back := h.swap.lookup_swap found
      rwa [List.map_map, Prod.swap_swap_eq, List.map_id] at back

end Inverse

end ModelRuntime.Lib
