import ModelRuntime.Cpp.Bytes

/-!
# Lines

What a loop over `getline` sees of a stream: the text before each delimiter, and what is left after
the last one unless it is empty.
-/

namespace ModelRuntime
open Cpp

/-- The pieces successive `getline(stream, line, delim)` calls give. -/
def lines (delim : UInt8) : Bytes → List Bytes
  | [] => []
  | c :: r =>
    if c = delim then [] :: lines delim r
    else
      match lines delim r with
      | [] => [[c]]
      | line :: rest => (c :: line) :: rest

variable {delim : UInt8} {line r : Bytes}

theorem lines_line (none : delim ∉ line) : lines delim (line ++ delim :: r) = line :: lines delim r := by
  induction line with
  | nil => rw [List.nil_append, lines, if_pos rfl]
  | cons c line ih =>
    simp only [List.mem_cons, not_or] at none
    rw [List.cons_append, lines, if_neg (Ne.symm none.1), ih none.2]

theorem lines_single (ne : line ≠ []) (none : delim ∉ line) : lines delim line = [line] := by
  induction line with
  | nil => exact absurd rfl ne
  | cons c line ih =>
    simp only [List.mem_cons, not_or] at none
    rw [lines, if_neg (Ne.symm none.1)]
    cases line with
    | nil => rfl
    | cons d line => rw [ih (by simp) none.2]

/-- The text of these lines, each ended. -/
def unlines (delim : UInt8) (ls : List Bytes) : Bytes := ls.flatMap (· ++ [delim])

theorem lines_unlines {ls : List Bytes} (none : ∀ line ∈ ls, delim ∉ line) (r : Bytes) :
    lines delim (unlines delim ls ++ r) = ls ++ lines delim r := by
  induction ls with
  | nil => rfl
  | cons line ls ih =>
    rw [unlines, List.flatMap_cons, List.append_assoc, List.append_assoc, List.singleton_append,
      lines_line (none line (by simp)), ← unlines, ih fun x hx => none x (by simp [hx])]
    rfl

/-- A text of these lines. The last one may go without its end. -/
def HasLines (delim : UInt8) (text : Bytes) (ls : List Bytes) : Prop :=
  text = unlines delim ls ∨ text ++ [delim] = unlines delim ls

theorem HasLines.lines {text : Bytes} {ls : List Bytes} (h : HasLines delim text ls)
    (ne : ∀ line ∈ ls, line ≠ []) (none : ∀ line ∈ ls, delim ∉ line) : lines delim text = ls := by
  rcases h with rfl | h
  · have ended := lines_unlines none []
    rwa [List.append_nil, ModelRuntime.lines, List.append_nil] at ended
  · rcases List.eq_nil_or_concat ls with rfl | ⟨front, last, rfl⟩
    · cases text <;> cases h
    · simp only [List.concat_eq_append, List.forall_mem_append] at ne none h ⊢
      rw [unlines, List.flatMap_append, List.flatMap_singleton, ← unlines, ← List.append_assoc] at h
      rw [List.append_cancel_right h, lines_unlines none.1,
        lines_single (ne.2 last (by simp)) (none.2 last (by simp))]

/-- A text joined at the delimiter is its pieces, the last one without its end. -/
theorem unlines_intercalate {ls : List Bytes} (ne : ls ≠ []) :
    List.intercalate [delim] ls ++ [delim] = unlines delim ls := by
  induction ls with
  | nil => exact absurd rfl ne
  | cons line ls ih =>
    cases ls with
    | nil => simp [unlines]
    | cons next ls =>
      rw [List.intercalate_cons_cons, List.append_assoc, List.append_assoc, ih (by simp)]
      simp [unlines]

theorem mem_intercalate {sep : Bytes} {ls : List Bytes} {c : UInt8} (mem : c ∈ List.intercalate sep ls) :
    c ∈ sep ∨ ∃ line ∈ ls, c ∈ line := by
  induction ls with
  | nil => simp at mem
  | cons line ls ih =>
    cases ls with
    | nil => exact .inr ⟨line, by simp, by simpa using mem⟩
    | cons next ls =>
      rw [List.intercalate_cons_cons, List.append_assoc, List.mem_append, List.mem_append] at mem
      rcases mem with mem | mem | mem
      · exact .inr ⟨line, by simp, mem⟩
      · exact .inl mem
      · rcases ih mem with h | ⟨piece, here, h⟩
        · exact .inl h
        · exact .inr ⟨piece, by simp [here], h⟩

theorem lines_cons_ne_nil (c : UInt8) : lines delim (c :: r) ≠ [] := by
  rw [lines]
  split
  · simp
  · split <;> simp

/-- The lines, each ended, are the text, ended if it was not. -/
theorem lines_text (r : Bytes) :
    (lines delim r).flatMap (· ++ [delim]) =
      r ++ if r = [] ∨ r.getLast? = some delim then [] else [delim] := by
  induction r with
  | nil => rfl
  | cons c r ih =>
    cases r with
    | nil =>
      rw [lines]
      by_cases same : c = delim
      · subst same
        simp [lines]
      · simp [lines, same]
    | cons d r =>
      have last : (c :: d :: r = [] ∨ (c :: d :: r).getLast? = some delim) ↔
          (d :: r = [] ∨ (d :: r).getLast? = some delim) := by simp
      rw [if_congr last rfl rfl, List.cons_append, ← ih, lines]
      split
      · rename_i same
        rw [List.flatMap_cons, same]
        rfl
      · cases e : lines delim (d :: r) with
        | nil => exact absurd e (lines_cons_ne_nil d)
        | cons line rest => rfl

end ModelRuntime
