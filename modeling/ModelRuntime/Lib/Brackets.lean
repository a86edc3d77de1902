import Mathlib.Data.List.Basic

/-!
# The shortest balanced block

An opening and a closing symbol among others. The block of a text that starts with an opening symbol is
the shortest non-empty front part with as many closing as opening symbols: there is one, or every front
part has more opening symbols than closing ones.
-/

namespace ModelRuntime.Lib

variable {α : Type*} [DecidableEq α]

/-- The bracket opened first is still open: every non-empty front part has more opening symbols. -/
def Opened (o c : α) (p : List α) : Prop := ∀ q, q <+: p → q ≠ [] → q.count c < q.count o

/-- The first balanced front part `p` of `s`. -/
structure Block (o c : α) (s p : List α) : Prop where
  inside : p <+: s
  nonempty : p ≠ []
  balanced : p.count c = p.count o
  opened : ∀ q, q <+: p → q ≠ [] → q ≠ p → q.count c < q.count o

section

variable {o c x : α} {s p q t : List α}

theorem count_concat (y : α) : (p ++ [x]).count y = p.count y + if x = y then 1 else 0 := by
  rw [List.count_append, List.count_singleton]
  simp

theorem Opened.front (h : Opened o c p) (front : q <+: p) : Opened o c q :=
  fun r inside nonempty => h r (inside.trans front) nonempty

theorem opened_concat (h : Opened o c p) (more : (p ++ [x]).count c < (p ++ [x]).count o) :
    Opened o c (p ++ [x]) := by
  intro q inside nonempty
  rcases List.prefix_concat_iff.1 inside with rfl | inside
  · exact more
  · exact h q inside nonempty

theorem opened_single (other : o ≠ c) : Opened o c [o] := by
  have first : Opened o c ([] ++ [o]) := by
    apply opened_concat
    · intro q inside nonempty
      exact absurd (List.prefix_nil.1 inside) nonempty
    · simp [other]
  exact first

/-- What is shorter than the block is open. -/
theorem Block.front (h : Block o c s p) (front : q <+: p) (shorter : q ≠ p) : Opened o c q := by
  intro r inside nonempty
  refine h.opened r (inside.trans front) nonempty ?_
  rintro rfl
  exact shorter (front.eq_of_length_le inside.length_le)

/-- A text has one block at most. -/
theorem Block.unique (h : Block o c s p) (h' : Block o c s q) : p = q := by
  have own := h.balanced
  have own' := h'.balanced
  by_contra differ
  rcases List.prefix_or_prefix_of_prefix h.inside h'.inside with front | front
  · have := h'.opened p front h.nonempty differ
    omega
  · have := h.opened q front h'.nonempty (Ne.symm differ)
    omega

theorem Opened.no_block (h : Opened o c s) : ¬ Block o c s p := by
  intro block
  have more := h p block.inside block.nonempty
  have same := block.balanced
  omega

/-- A symbol behind an open part leaves it open or closes it. -/
theorem Opened.next (h : Opened o c p) (nonempty : p ≠ []) (inside : p ++ [x] <+: s) :
    Opened o c (p ++ [x]) ∨ Block o c s (p ++ [x]) := by
  have more := h p List.prefix_rfl nonempty
  by_cases still : (p ++ [x]).count c < (p ++ [x]).count o
  · exact .inl (opened_concat h still)
  · refine .inr ⟨inside, by simp, ?_, ?_⟩
    · rw [count_concat, count_concat] at still ⊢
      by_cases closes : x = c
      · rw [if_pos closes] at still ⊢
        omega
      · rw [if_neg closes] at still
        omega
    · intro q front filled shorter
      rcases List.prefix_concat_iff.1 front with rfl | front
      · exact absurd rfl shorter
      · exact h q front filled

/-- **A text that starts with an opening symbol** has a block or is open. -/
theorem block_or_opened (other : o ≠ c) (t : List α) : (∃ p, Block o c (o :: t) p) ∨ Opened o c (o :: t) := by
  have go : ∀ rest front : List α, front ≠ [] → Opened o c front → front ++ rest = o :: t →
      (∃ p, Block o c (o :: t) p) ∨ Opened o c (o :: t) := by
    intro rest
    induction rest with
    | nil =>
      intro front _ isOpen whole
      rw [List.append_nil] at whole
      rw [← whole]
      exact .inr isOpen
    | cons x rest ih =>
      intro front nonempty isOpen whole
      have inside : front ++ [x] <+: o :: t := ⟨rest, by simp [← whole]⟩
      rcases isOpen.next nonempty inside with isOpen | block
      · exact ih (front ++ [x]) (by simp) isOpen (by simp [← whole])
      · exact .inl ⟨_, block⟩
  exact go t [o] (by simp) (opened_single other) rfl

/-- The block of a text that starts with an opening symbol ends in a closing one. -/
theorem Block.last (other : o ≠ c) (h : Block o c (o :: t) p) : ∃ q, p = q ++ [c] := by
  obtain ⟨q, x, rfl⟩ := (List.eq_nil_or_concat' p).resolve_left h.nonempty
  have same := h.balanced
  rw [count_concat, count_concat] at same
  by_cases closes : x = c
  · exact ⟨q, by rw [closes]⟩
  · rw [if_neg closes] at same
    by_cases empty : q = []
    · subst empty
      obtain ⟨r, whole⟩ := h.inside
      obtain rfl : x = o := (List.cons.inj whole).1
      simp at same
    · have more := h.front (List.prefix_append q [x]) (by simp) q List.prefix_rfl empty
      omega

end

end ModelRuntime.Lib
