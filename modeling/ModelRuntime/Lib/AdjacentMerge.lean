import Mathlib.Data.List.Basic
import Mathlib.Data.List.Infix

/-!
# Merging adjacent pieces of a segmentation

A segmentation of a word is a list of pieces; one step joins two neighbours that a relation `R`
allows. What any such rewriting keeps: the word itself, and every property of pieces that a
permitted join has. `Coarsens` compares two segmentations, and `join_in_block` follows a run of
consecutive pieces back over a join.
-/

namespace ModelRuntime.Lib

variable {α : Type*} {R : List α → List α → Prop} {pieces pieces' : List (List α)}

/-- Two neighbours that `R` allows are joined. -/
inductive MergeStep (R : List α → List α → Prop) : List (List α) → List (List α) → Prop where
  | join (before : List (List α)) (a b : List α) (after : List (List α)) (allowed : R a b) :
      MergeStep R (before ++ a :: b :: after) (before ++ (a ++ b) :: after)

/-- A join keeps the word. -/
theorem MergeStep.flatten (h : MergeStep R pieces pieces') : pieces'.flatten = pieces.flatten := by
  obtain ⟨before, a, b, after, _⟩ := h
  simp

/-- A join takes one piece away. -/
theorem MergeStep.length (h : MergeStep R pieces pieces') : pieces'.length + 1 = pieces.length := by
  obtain ⟨before, a, b, after, _⟩ := h
  simp
  omega

/-- A property of pieces survives when every permitted join has it. -/
theorem MergeStep.forall {P : List α → Prop} (h : MergeStep R pieces pieces')
    (joined : ∀ a b, R a b → P (a ++ b)) (each : ∀ p ∈ pieces, P p) : ∀ p ∈ pieces', P p := by
  obtain ⟨before, a, b, after, allowed⟩ := h
  intro p hp
  rcases List.mem_append.1 hp with hp | hp
  · exact each p (by simp [hp])
  · rcases List.mem_cons.1 hp with rfl | hp
    · exact joined a b allowed
    · exact each p (by simp [hp])

/-- The segments of `coarse` are made of whole consecutive segments of `fine`. -/
def Coarsens (fine coarse : List (List α)) : Prop :=
  ∃ groups : List (List (List α)), (∀ g ∈ groups, g ≠ []) ∧ groups.flatten = fine ∧ groups.map List.flatten = coarse

/-- Where the segments end: the lengths of the segmentation's initial parts. -/
def boundaries (pieces : List (List α)) : List Nat := pieces.inits.map fun part => part.flatten.length

section Coarsens

variable {fine middle coarse : List (List α)}

theorem Coarsens.refl (pieces : List (List α)) : Coarsens pieces pieces := by
  refine ⟨pieces.map fun p => [p], ?_, ?_, ?_⟩
  · simp
  · simp [← List.flatMap_def]
  · simp [Function.comp_def]

/-- A join coarsens further. -/
theorem Coarsens.step (h : Coarsens fine middle) (joined : MergeStep R middle coarse) : Coarsens fine coarse := by
  obtain ⟨groups, some, whole, same⟩ := h
  obtain ⟨before, a, b, after, _⟩ := joined
  obtain ⟨front, back, rfl, rfl, tail⟩ := List.map_eq_append_iff.1 same
  obtain ⟨g, back, rfl, rfl, next⟩ := List.map_eq_cons_iff.1 tail
  obtain ⟨g', rest, rfl, rfl, rfl⟩ := List.map_eq_cons_iff.1 next
  refine ⟨front ++ (g ++ g') :: rest, ?_, ?_, ?_⟩
  · intro x mem
    rcases List.mem_append.1 mem with mem | mem
    · exact some x (by simp [mem])
    · rcases List.mem_cons.1 mem with rfl | mem
      · exact List.append_ne_nil_of_left_ne_nil (some g (by simp)) _
      · exact some x (by simp [mem])
  · rw [← whole]
    simp
  · simp

theorem Coarsens.length (h : Coarsens fine coarse) : coarse.length ≤ fine.length := by
  obtain ⟨groups, some, rfl, rfl⟩ := h
  induction groups with
  | nil => exact Nat.le_refl 0
  | cons g groups ih =>
    have first : 0 < g.length := List.length_pos_of_ne_nil (some g List.mem_cons_self)
    have rest := ih fun x mem => some x (List.mem_cons_of_mem _ mem)
    rw [List.map_cons, List.length_cons, List.flatten_cons, List.length_append]
    omega

/-- The coarser segments end where finer ones do. -/
theorem Coarsens.boundaries (h : Coarsens fine coarse) : Lib.boundaries coarse ⊆ Lib.boundaries fine := by
  obtain ⟨groups, _, rfl, rfl⟩ := h
  intro n mem
  obtain ⟨part, initial, rfl⟩ := List.mem_map.1 mem
  obtain ⟨rest, whole⟩ := (List.mem_inits _ _).1 initial
  obtain ⟨front, back, rfl, rfl, _⟩ := List.map_eq_append_iff.1 whole.symm
  refine List.mem_map.2 ⟨front.flatten, (List.mem_inits _ _).2 ⟨back.flatten, by simp⟩, ?_⟩
  rw [← List.flatten_flatten]

end Coarsens

section Blocks

variable {β : Type*} {before after left block right : List β} {a b joined : β}

theorem append_cons_cases (made : before ++ joined :: after = left ++ right) :
    (∃ rest, left = before ++ joined :: rest ∧ after = rest ++ right) ∨
      ∃ rest, before = left ++ rest ∧ right = rest ++ joined :: after := by
  rcases List.append_eq_append_iff.1 made with ⟨rest, whole, tail⟩ | ⟨rest, whole, tail⟩
  · cases rest with
    | nil => exact .inr ⟨[], by simpa using whole.symm, tail.symm⟩
    | cons first rest =>
      obtain ⟨rfl, rfl⟩ := List.cons.inj tail
      exact .inl ⟨rest, whole, rfl⟩
  · exact .inr ⟨rest, whole, tail⟩

/-- Where a join stands to a block of the pieces it leaves: the block is untouched, or the join is made
inside it. -/
theorem join_in_block (made : before ++ joined :: after = left ++ block ++ right) :
    (∃ left' right', before ++ a :: b :: after = left' ++ block ++ right') ∨
      ∃ inner outer, block = inner ++ joined :: outer ∧ before = left ++ inner ∧ after = outer ++ right := by
  rw [List.append_assoc] at made
  rcases append_cons_cases made with ⟨rest, _, rfl⟩ | ⟨rest, rfl, tail⟩
  · exact .inl ⟨before ++ a :: b :: rest, right, by simp⟩
  · rcases append_cons_cases tail.symm with ⟨outer, rfl, rfl⟩ | ⟨inner, rfl, rfl⟩
    · exact .inr ⟨rest, outer, rfl, rfl, rfl⟩
    · exact .inl ⟨left, inner ++ a :: b :: after, by simp⟩

end Blocks

end ModelRuntime.Lib
