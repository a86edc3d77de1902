import ModelRuntime.Lib.Brackets
import ModelRuntime.Tools.JsonParser

/-!
# The block of the arguments

What the brace loop of `parse_tool_call` takes off the text: the shortest block, or nothing where the
braces stay open. The depth is an `int`, so that it is taken for zero at every multiple of 2^32.
-/

namespace ModelRuntime
open Cpp Lib

namespace JsonParser

/-- The arguments are the one block of `s`, and empty where there is none. -/
structure TakesBlock (s arguments : Bytes) : Prop where
  block : ∀ p, Block openBrace closeBrace s p → arguments = p
  unique : ∀ p q, Block openBrace closeBrace s p → Block openBrace closeBrace s q → p = q
  empty : arguments = [] ↔ ¬ ∃ p, Block openBrace closeBrace s p

/-- While the braces are open, no closing one leaves a multiple of 2^32 of them. -/
def NoWrap (s : Bytes) : Prop :=
  ∀ p, p ++ [closeBrace] <+: s → Opened openBrace closeBrace (p ++ [closeBrace]) →
    ¬ (2 : Int) ^ 32 ∣ depthOf (p ++ [closeBrace])

section

variable {s p t : Bytes} {i : Nat}

theorem depthOf_eq (s : Bytes) : depthOf s = (s.count openBrace : Int) - s.count closeBrace := by
  induction s with
  | nil => simp [depthOf]
  | cons c s ih =>
    rw [depthOf_cons, ih, weight, List.count_cons, List.count_cons]
    split
    · rename_i opens
      subst opens
      simp [openBrace, closeBrace]
      omega
    · split
      · rename_i closes
        subst closes
        simp [openBrace, closeBrace]
        omega
      · rename_i notOpen notClose
        simp [notOpen, notClose]

/-! ## The loop -/

/-- A closing brace that brings the depth to zero, or one before it, ends the loop. -/
theorem closesAt_of_zero (front : p ++ [closeBrace] <+: s) (zero : toInt (depthOf (p ++ [closeBrace])) = 0) :
    ∃ j, ClosesAt 0 s i j := by
  induction size : p.length using Nat.strong_induction_on generalizing p with
  | _ n ih =>
    by_cases first : ∀ q t, p = q ++ closeBrace :: t → toInt (0 + depthOf (q ++ [closeBrace])) ≠ 0
    · obtain ⟨r, whole⟩ := front
      refine ⟨_, p, r, ?_, rfl, by rwa [zero_add], first⟩
      rw [← whole]
      simp
    · push Not at first
      obtain ⟨q, t, rfl, zero'⟩ := first
      rw [zero_add] at zero'
      refine ih q.length ?_ (List.IsPrefix.trans ?_ front) zero' rfl
      · rw [← size, List.length_append, List.length_cons]
        omega
      · exact ⟨t ++ [closeBrace], by simp⟩

/-- What is taken: nothing where no closing brace brings the depth to zero, else up to the first that
does. -/
theorem taken_cases (i : Nat) (s : Bytes) :
    (s.take ((scanBraces i 0 s).getD i - i) = [] ∧
      ∀ p, p ++ [closeBrace] <+: s → ¬ (2 : Int) ^ 32 ∣ depthOf (p ++ [closeBrace])) ∨
    ∃ p, s.take ((scanBraces i 0 s).getD i - i) = p ++ [closeBrace] ∧ p ++ [closeBrace] <+: s ∧
      (2 : Int) ^ 32 ∣ depthOf (p ++ [closeBrace]) ∧
        ∀ q, q ++ [closeBrace] <+: p → ¬ (2 : Int) ^ 32 ∣ depthOf (q ++ [closeBrace]) := by
  have start : (0 : Int) = toInt 0 := by decide
  cases e : scanBraces i 0 s with
  | none =>
    refine .inl ⟨by simp, fun p front zero => ?_⟩
    obtain ⟨j, closes⟩ := closesAt_of_zero (i := i) front (toInt_eq_zero_iff.2 zero)
    rw [start, scanBraces_iff.2 closes] at e
    cases e
  | some j =>
    rw [start, scanBraces_iff] at e
    obtain ⟨p, r, rfl, rfl, zero, first⟩ := e
    rw [zero_add, toInt_eq_zero_iff] at zero
    refine .inr ⟨p, ?_, ⟨r, by simp⟩, zero, ?_⟩
    · have size : i + p.length + 1 - i = (p ++ [closeBrace]).length := by
        rw [List.length_append, List.length_singleton]
        omega
      have split : p ++ closeBrace :: r = p ++ [closeBrace] ++ r := by simp
      rw [Option.getD_some, size, split, List.take_left]
    · rintro q ⟨t, rfl⟩ zero'
      apply first q t (by simp)
      rwa [zero_add, toInt_eq_zero_iff]

/-! ## The block -/

theorem opened_depth (isOpen : Opened openBrace closeBrace p) (nonempty : p ≠ []) : 0 < depthOf p := by
  have more := isOpen p List.prefix_rfl nonempty
  rw [depthOf_eq]
  omega

theorem block_depth (block : Block openBrace closeBrace s p) : depthOf p = 0 := by
  rw [depthOf_eq, block.balanced]
  omega

/-- Of two front parts that end in a closing brace, one ends before the other. -/
theorem close_compare {q : Bytes} (front : p ++ [closeBrace] <+: s) (front' : q ++ [closeBrace] <+: s) :
    p ++ [closeBrace] <+: q ++ [closeBrace] ∨ q ++ [closeBrace] <+: p := by
  rcases List.prefix_or_prefix_of_prefix front front' with before | after
  · exact .inl before
  · rcases List.prefix_concat_iff.1 after with same | after
    · exact .inl (by rw [same])
    · exact .inr after

theorem noWrap_of_takesBlock (takes : TakesBlock (openBrace :: t)
    ((openBrace :: t).take ((scanBraces i 0 (openBrace :: t)).getD i - i))) : NoWrap (openBrace :: t) := by
  intro p front isOpen wraps
  rcases taken_cases i (openBrace :: t) with ⟨_, never⟩ | ⟨q, taken, front', _, first⟩
  · exact never p front wraps
  · -- the loop stopped at `q`, where the braces were open
    rw [taken] at takes
    have openAt : Opened openBrace closeBrace (q ++ [closeBrace]) := by
      rcases close_compare front' front with before | after
      · exact isOpen.front before
      · exact absurd wraps (first p after)
    have filled : q ++ [closeBrace] ≠ [] := by simp
    obtain ⟨block, found⟩ : ∃ p, Block openBrace closeBrace (openBrace :: t) p := by
      by_contra none
      exact filled (takes.empty.2 none)
    have deep := opened_depth openAt filled
    rw [takes.block block found, block_depth found] at deep
    omega

/-- The block is taken, and no more and no less. -/
theorem taken_block (noWrap : NoWrap (openBrace :: t)) (found : Block openBrace closeBrace (openBrace :: t) p) :
    (openBrace :: t).take ((scanBraces i 0 (openBrace :: t)).getD i - i) = p := by
  have zero : (2 : Int) ^ 32 ∣ depthOf p := by
    rw [block_depth found]
    exact dvd_zero _
  obtain ⟨q, rfl⟩ := found.last (by decide)
  rcases taken_cases i (openBrace :: t) with ⟨_, never⟩ | ⟨p, taken, front, wraps, first⟩
  · exact absurd zero (never q found.inside)
  · rw [taken]
    by_contra differ
    rcases close_compare front found.inside with before | after
    · exact noWrap p front (found.front before differ) wraps
    · exact first q after zero

/-- Of braces that stay open nothing is taken. -/
theorem taken_opened (noWrap : NoWrap s) (isOpen : Opened openBrace closeBrace s) :
    s.take ((scanBraces i 0 s).getD i - i) = [] := by
  rcases taken_cases i s with ⟨none, _⟩ | ⟨p, _, front, wraps, _⟩
  · exact none
  · exact absurd wraps (noWrap p front (isOpen.front front))

/-- **The loop takes the block** exactly where the depth does not wrap. -/
theorem takesBlock_iff (i : Nat) (t : Bytes) :
    TakesBlock (openBrace :: t) ((openBrace :: t).take ((scanBraces i 0 (openBrace :: t)).getD i - i)) ↔
      NoWrap (openBrace :: t) := by
  refine ⟨noWrap_of_takesBlock, fun noWrap => ?_⟩
  refine ⟨fun p found => taken_block noWrap found, fun p q own own' => own.unique own', ?_⟩
  rcases block_or_opened (show openBrace ≠ closeBrace by decide) t with ⟨p, found⟩ | isOpen
  · rw [taken_block noWrap found]
    simp only [found.nonempty, false_iff, not_not]
    exact ⟨p, found⟩
  · simp only [taken_opened noWrap isOpen, true_iff]
    rintro ⟨p, found⟩
    exact isOpen.no_block found

/-- Fewer than 2^32 opening braces do not wrap. -/
theorem noWrap_of_few (few : s.count openBrace < 2 ^ 32) : NoWrap s := by
  intro p front isOpen wraps
  have deep := opened_depth isOpen (by simp)
  have bound := front.sublist.count_le openBrace
  have depth := depthOf_eq (p ++ [closeBrace])
  omega

end

/-! ## The arguments of a call -/

theorem parseToolCall_arguments {json : Bytes} {call : ParsedToolCall}
    (parsed : parseToolCall json = .ok (some call)) : argumentsFrom json = .ok call.arguments := by
  unfold parseToolCall at parsed
  split at parsed
  · cases parsed
  · rename_i namePos _
    rw [quotedFrom_eq rfl] at parsed
    cases name : quotedAfterColon (json.drop namePos) with
    | none =>
      rw [name] at parsed
      cases parsed
    | some text =>
      rw [name] at parsed
      cases arguments : argumentsFrom json with
      | error e =>
        rw [arguments] at parsed
        cases parsed
      | ok args =>
        rw [arguments] at parsed
        cases parsed
        rfl

/-- The text from the brace on. -/
theorem drop_brace {json : Bytes} {pos b : Nat} (brace : find json openBrace pos = some b) :
    ∃ t, json.drop b = openBrace :: t := by
  rw [find, findIf_drop rfl] at brace
  obtain ⟨⟨a, c, t⟩, found, rfl⟩ := Option.map_eq_some_iff.1 brace
  obtain ⟨split, _, hit⟩ := cut_eq_some_iff.1 found
  refine ⟨t, ?_⟩
  rw [← List.drop_drop, split, List.drop_left, beq_iff_eq.1 hit]

section

variable {json : Bytes} {call : ParsedToolCall} {argsPos b : Nat}
  (parsed : parseToolCall json = .ok (some call))
  (key : (findText (str "\"arguments\"") json).or (findText (str "\"parameters\"") json) = some argsPos)
  (brace : find json openBrace argsPos = some b)

include parsed key brace

theorem arguments_taken : call.arguments = (json.drop b).take ((scanBraces b 0 (json.drop b)).getD b - b) :=
  Except.ok.inj ((parseToolCall_arguments parsed).symm.trans (argumentsFrom_brace key brace))

/-- **The arguments of a parsed call** are the shortest balanced block from their first brace on, exactly where
the depth of the braces does not wrap. -/
theorem parseToolCall_block_iff : TakesBlock (json.drop b) call.arguments ↔ NoWrap (json.drop b) := by
  obtain ⟨t, start⟩ := drop_brace brace
  rw [arguments_taken parsed key brace, start]
  exact takesBlock_iff b t

end

/-- A call with an object in its arguments and a brace behind them. -/
def nestedCall : Bytes := str "\x7b\"name\": \"f\", \"arguments\": \x7b\"a\": \x7b\x7d\x7d\x7d"

theorem parseToolCall_block_iff_nested : TakesBlock (nestedCall.drop 27) (str "\x7b\"a\": \x7b\x7d\x7d") := by
  rw [parseToolCall_block_iff
    (show parseToolCall nestedCall = .ok (some ⟨str "f", str "\x7b\"a\": \x7b\x7d\x7d"⟩) by decide +kernel)
    (show _ = some 14 by decide +kernel) (show _ = some 27 by decide +kernel)]
  apply noWrap_of_few
  decide +kernel

/-! ## Braces without end -/

theorem opened_replicate (n : Nat) : Opened openBrace closeBrace (List.replicate (n + 1) openBrace) := by
  induction n with
  | zero => exact opened_single (by decide)
  | succ n ih =>
    rw [List.replicate_succ']
    apply opened_concat ih
    rw [← List.replicate_succ', List.count_replicate_self, List.count_replicate, if_neg (by decide)]
    omega

/-- A multiple of 2^32 braces is left open by the last byte. -/
theorem deep_wraps {n : Nat} (deep : 0 < n) (multiple : 2 ^ 32 ∣ n) :
    ¬ NoWrap (openBrace :: (List.replicate n openBrace ++ [closeBrace])) := by
  intro noWrap
  have shape : openBrace :: (List.replicate n openBrace ++ [closeBrace]) =
      List.replicate (n + 1) openBrace ++ [closeBrace] := rfl
  rw [shape] at noWrap
  have opens : (List.replicate (n + 1) openBrace ++ [closeBrace]).count openBrace = n + 1 := by
    rw [count_concat, List.count_replicate_self, if_neg (by decide)]
  have closes : (List.replicate (n + 1) openBrace ++ [closeBrace]).count closeBrace = 1 := by
    rw [count_concat, List.count_replicate, if_neg (by decide), if_pos rfl]
  refine noWrap (List.replicate (n + 1) openBrace) List.prefix_rfl ?_ ?_
  · apply opened_concat (opened_replicate n)
    omega
  · rw [depthOf_eq, opens, closes]
    omega

/-- A call whose arguments are opening braces only. -/
def deepCall (n : Nat) : Bytes := renderCall (str "name") (str "x") (List.replicate (n + 1) openBrace)

theorem deepCall_parsed (n : Nat) : ∃ call argsPos b, parseToolCall (deepCall n) = .ok (some call) ∧
    (findText (str "\"arguments\"") (deepCall n)).or (findText (str "\"parameters\"") (deepCall n)) =
      some argsPos ∧
    find (deepCall n) openBrace argsPos = some b ∧
    (deepCall n).drop b = openBrace :: (List.replicate n openBrace ++ [closeBrace]) := by
  obtain ⟨before, a, key, noBrace⟩ := arguments_found (show quote ∉ str "name" by decide) (by decide)
    (show quote ∉ str "x" by decide) (List.replicate (n + 1) openBrace)
  obtain ⟨b, brace, start⟩ := find_brace (t := List.replicate n openBrace ++ [closeBrace]) key
    (cut_append noBrace rfl)
  have found : (findText (str "\"arguments\"") (deepCall n)).or (findText (str "\"parameters\"") (deepCall n)) =
      some before.length := by
    rw [deepCall, findText_eq, key]
    rfl
  have parsed := @parseToolCall_name (str "x") (List.replicate (n + 1) openBrace) (by decide)
  rw [← deepCall, argumentsFrom_brace found brace, Except.map] at parsed
  exact ⟨_, before.length, b, parsed, found, brace, start⟩

/-- Behind 2^32 braces that stay open one closing brace ends the arguments. -/
theorem not_takesBlock : ¬ ∀ (json : Bytes) (call : ParsedToolCall) (argsPos b : Nat),
    parseToolCall json = .ok (some call) →
    (findText (str "\"arguments\"") json).or (findText (str "\"parameters\"") json) = some argsPos →
    find json openBrace argsPos = some b → TakesBlock (json.drop b) call.arguments := by
  intro all
  obtain ⟨call, argsPos, b, parsed, key, brace, start⟩ := deepCall_parsed (2 ^ 32)
  have takes := all _ call argsPos b parsed key brace
  rw [arguments_taken parsed key brace, start] at takes
  exact deep_wraps (Nat.two_pow_pos 32) (Nat.dvd_refl _) (noWrap_of_takesBlock takes)

end JsonParser
end ModelRuntime
