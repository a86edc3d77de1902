import ModelRuntime.Cpp.Number
import ModelRuntime.Tools.ToolCaller

/-!
# `JsonParser`

`parse_tool_call` looks its keys up anywhere in the text and balances braces without regard to
strings. What it finds is said by cuts of the text (`quotedAfterColon`, `scanBraces_iff`), and the two
renderings of a call come back whole exactly where neither the name's key nor the closing brace is
found in the wrong place.
-/

namespace ModelRuntime
open Cpp Lib Lib.Json

structure ParsedToolCall where
  name : Bytes
  arguments : Bytes := []
  deriving DecidableEq

namespace JsonParser

/-- The text in quotes that follows the first colon from `pos` on. -/
def quotedFrom (json : Bytes) (pos : Nat) : Except StdException (Option Bytes) :=
  match find json colon pos with
  | none => .ok none
  | some colonPos =>
    match find json quote (colonPos + 1) with
    | none => .ok none
    | some quoteStart =>
      match find json quote (quoteStart + 1) with
      | none => .ok none
      | some quoteEnd =>
        (substr json (quoteStart + 1) (some (quoteEnd - quoteStart - 1))).map some

/-- The loop over the braces from position `i` on, `r` being what is left: the end of the arguments.
`depth` is an `int`. -/
def scanBraces : (i : Nat) → (depth : Int) → (r : Bytes) → Option Nat
  | _, _, [] => none
  | i, depth, c :: r =>
    if c = openBrace then scanBraces (i + 1) (toInt (depth + 1)) r
    else if c = closeBrace then
      if toInt (depth - 1) = 0 then some (i + 1) else scanBraces (i + 1) (toInt (depth - 1)) r
    else scanBraces (i + 1) depth r

/-- `result.arguments`. -/
def argumentsFrom (json : Bytes) : Except StdException Bytes :=
  match (findText (str "\"arguments\"") json).or (findText (str "\"parameters\"") json) with
  | none => .ok []
  | some argsPos =>
    match find json openBrace argsPos with
    | none => .ok []
    | some bracePos =>
      let last := (scanBraces bracePos 0 (json.drop bracePos)).getD bracePos
      substr json bracePos (some (last - bracePos))

def parseToolCall (json : Bytes) : Except StdException (Option ParsedToolCall) :=
  match (findText (str "\"name\"") json).or (findText (str "\"tool\"") json) with
  | none => .ok none
  | some namePos => do
    match ← quotedFrom json namePos with
    | none => return none
    | some name => return some { name, arguments := ← argumentsFrom json }

/-! ## The name -/

/-- Between the first two quotes after the first colon. -/
def quotedAfterColon (r : Bytes) : Option Bytes := do
  let (_, _, r) ← cut (· == colon) r
  let (_, _, r) ← cut (· == quote) r
  let (s, _, _) ← cut (· == quote) r
  return s

/-- What is left behind a cut. -/
theorem drop_cut {json r a t : Bytes} {c : UInt8} {p : UInt8 → Bool} {pos : Nat} (drop : json.drop pos = r)
    (h : cut p r = some (a, c, t)) :
    json.drop (pos + a.length + 1) = t ∧ pos + a.length + 1 ≤ json.length := by
  obtain ⟨rfl, _, _⟩ := cut_eq_some_iff.1 h
  have size := congrArg List.length drop
  rw [List.length_drop, List.length_append, List.length_cons] at size
  refine ⟨?_, by omega⟩
  rw [Nat.add_assoc, ← List.drop_drop, drop, ← List.drop_drop, List.drop_left]
  rfl

theorem quotedFrom_eq {json r : Bytes} {pos : Nat} (drop : json.drop pos = r) :
    quotedFrom json pos = .ok (quotedAfterColon r) := by
  unfold quotedFrom quotedAfterColon find
  rw [findIf_drop drop]
  cases h₁ : cut (· == colon) r with
  | none => rfl
  | some x =>
    obtain ⟨a, c, r₁⟩ := x
    obtain ⟨drop₁, _⟩ := drop_cut drop h₁
    simp only [Option.map_some, Option.bind_eq_bind, Option.bind_some]
    rw [findIf_drop drop₁]
    cases h₂ : cut (· == quote) r₁ with
    | none => rfl
    | some x =>
      obtain ⟨b, d, r₂⟩ := x
      obtain ⟨drop₂, room⟩ := drop_cut drop₁ h₂
      simp only [Option.map_some, Option.bind_some]
      rw [findIf_drop drop₂]
      cases h₃ : cut (· == quote) r₂ with
      | none => rfl
      | some x =>
        obtain ⟨s, e, r₃⟩ := x
        obtain ⟨split, _, _⟩ := cut_eq_some_iff.1 h₃
        simp only [Option.map_some, Option.bind_some]
        have count : pos + a.length + 1 + b.length + 1 + s.length - (pos + a.length + 1 + b.length) - 1 =
            s.length := by omega
        rw [substr, if_neg (by omega), count, drop₂, split, List.take_left]
        rfl

/-! ## The arguments -/

/-- What a byte adds to the depth. -/
def weight (c : UInt8) : Int := if c = openBrace then 1 else if c = closeBrace then -1 else 0

/-- The braces opened and not closed, whether in strings or not. -/
def depthOf (s : Bytes) : Int := (s.map weight).sum

@[simp] theorem depthOf_cons (c : UInt8) (s : Bytes) : depthOf (c :: s) = weight c + depthOf s := by
  simp [depthOf]

/-- The depth, as an `int`, is back at zero at the last closing brace of `args` and at none before. -/
def Balanced (args : Bytes) : Prop :=
  ∀ p r, args = p ++ closeBrace :: r → (toInt (depthOf (p ++ [closeBrace])) = 0 ↔ r = [])

/-- From position `i` and depth `depth` on, the first closing brace that brings the depth back to zero
ends at `j`. -/
def ClosesAt (depth : Int) (s : Bytes) (i j : Nat) : Prop :=
  ∃ p r, s = p ++ closeBrace :: r ∧ j = i + p.length + 1 ∧
    toInt (depth + depthOf (p ++ [closeBrace])) = 0 ∧
    ∀ q t, p = q ++ closeBrace :: t → toInt (depth + depthOf (q ++ [closeBrace])) ≠ 0

section Braces

variable {c : UInt8} {s : Bytes} {i j : Nat} {depth : Int}

/-- A byte that does not end the loop moves the depth on. -/
theorem closesAt_cons (goesOn : c = closeBrace → toInt (depth + weight c) ≠ 0) :
    ClosesAt depth (c :: s) i j ↔ ClosesAt (depth + weight c) s (i + 1) j := by
  constructor
  · rintro ⟨p, r, split, rfl, zero, first⟩
    cases p with
    | nil =>
      obtain ⟨same, _⟩ := List.cons.inj split
      have other := goesOn same
      rw [same] at other
      exact absurd (by simpa [depthOf] using zero) other
    | cons d p =>
      obtain ⟨rfl, rfl⟩ := List.cons.inj split
      refine ⟨p, r, rfl, by simp; omega, by simpa [add_assoc] using zero, ?_⟩
      rintro q t rfl
      simpa [add_assoc] using first (c :: q) t rfl
  · rintro ⟨p, r, rfl, rfl, zero, first⟩
    refine ⟨c :: p, r, rfl, by simp; omega, by simpa [add_assoc] using zero, ?_⟩
    intro q t split
    cases q with
    | nil =>
      obtain ⟨same, _⟩ := List.cons.inj split
      have other := goesOn same
      rw [same] at other
      simpa [depthOf] using other
    | cons d q =>
      obtain ⟨rfl, inner⟩ := List.cons.inj split
      simpa [add_assoc] using first q t inner

/-- A closing brace that brings the depth back to zero is the one. -/
theorem closesAt_here (zero : toInt (depth + depthOf [closeBrace]) = 0) :
    ClosesAt depth (closeBrace :: s) i j ↔ i + 1 = j := by
  constructor
  · rintro ⟨p, r, split, rfl, _, first⟩
    cases p with
    | nil => rfl
    | cons d p =>
      obtain ⟨rfl, _⟩ := List.cons.inj split
      exact absurd zero (first [] p rfl)
  · rintro rfl
    exact ⟨[], s, rfl, rfl, zero, by simp⟩

/-- **The loop** stops at the first closing brace where the depth is back at zero. -/
theorem scanBraces_iff : scanBraces i (toInt depth) s = some j ↔ ClosesAt depth s i j := by
  induction s generalizing i depth with
  | nil =>
    rw [scanBraces]
    constructor
    · intro none
      cases none
    · rintro ⟨p, r, split, _⟩
      cases p <;> cases split
  | cons c s ih =>
    rw [scanBraces]
    split
    · rename_i opens
      have step : toInt (toInt depth + 1) = toInt (depth + weight c) := by
        rw [toInt_toInt_add, weight, if_pos opens]
      rw [step, ih, closesAt_cons]
      intro closes
      rw [opens] at closes
      cases closes
    · rename_i notOpen
      split
      · rename_i closes
        have step : toInt (toInt depth - 1) = toInt (depth + weight c) := by
          rw [toInt_toInt_sub, weight, if_neg notOpen, if_pos closes]
          rfl
        rw [step]
        split
        · rename_i zero
          subst closes
          rw [closesAt_here (by simpa [depthOf] using zero), Option.some_inj]
        · rename_i nonzero
          rw [ih, closesAt_cons fun _ => nonzero]
      · rename_i notClose
        have step : toInt depth = toInt (depth + weight c) := by
          rw [weight, if_neg notOpen, if_neg notClose, add_zero]
        rw [step, ih, closesAt_cons]
        intro closes
        exact absurd closes notClose

end Braces

theorem balanced_iff {b : Bytes} : Balanced (b ++ [closeBrace]) ↔
    toInt (depthOf (b ++ [closeBrace])) = 0 ∧
      ∀ q t, b = q ++ closeBrace :: t → toInt (depthOf (q ++ [closeBrace])) ≠ 0 := by
  constructor
  · intro balanced
    refine ⟨(balanced b [] rfl).2 rfl, ?_⟩
    rintro q t rfl zero
    have last := (balanced q (t ++ [closeBrace]) (by simp)).1 zero
    simp at last
  · rintro ⟨zero, first⟩ p r split
    constructor
    · intro zero'
      rcases List.eq_nil_or_concat r with rfl | ⟨t, d, rfl⟩
      · rfl
      · rw [List.concat_eq_append, ← List.cons_append, ← List.append_assoc] at split
        exact absurd zero' (first p t (List.append_inj' split rfl).1)
    · rintro rfl
      rw [← split]
      exact zero

/-- In front of one more brace the loop stops at the end of what is balanced. -/
theorem scanBraces_last {b : Bytes} {i : Nat} :
    scanBraces i 0 (b ++ [closeBrace, closeBrace]) = some (i + b.length + 1) ↔
      Balanced (b ++ [closeBrace]) := by
  have start : (0 : Int) = toInt 0 := by decide
  rw [start, scanBraces_iff, balanced_iff, ClosesAt]
  simp only [zero_add]
  constructor
  · rintro ⟨p, r, split, size, zero, first⟩
    obtain ⟨rfl, _⟩ := List.append_inj split (by omega)
    exact ⟨zero, first⟩
  · rintro ⟨zero, first⟩
    exact ⟨b, [closeBrace], rfl, rfl, zero, first⟩

/-- What the loop takes of the text from its brace on. -/
theorem argumentsFrom_brace {json : Bytes} {argsPos b : Nat}
    (key : (findText (str "\"arguments\"") json).or (findText (str "\"parameters\"") json) = some argsPos)
    (brace : find json openBrace argsPos = some b) :
    argumentsFrom json = .ok ((json.drop b).take ((scanBraces b 0 (json.drop b)).getD b - b)) := by
  have inside := findIf_lt brace
  rw [argumentsFrom, key]
  dsimp only
  rw [brace]
  dsimp only
  rw [substr, if_neg (by omega)]

/-- The brace behind the first `"arguments"`. -/
theorem find_brace {json before r a t : Bytes}
    (key : cutText (str "\"arguments\"") json = some (before, r))
    (opens : cut (· == openBrace) r = some (a, openBrace, t)) :
    ∃ b, find json openBrace before.length = some b ∧ json.drop b = openBrace :: t := by
  obtain rfl := cutText_some key
  have drop : (before ++ (str "\"arguments\"" ++ r)).drop before.length = str "\"arguments\"" ++ r :=
    List.drop_left
  have whole : cut (· == openBrace) (str "\"arguments\"" ++ r) =
      some (str "\"arguments\"" ++ a, openBrace, t) := by
    rw [cut_skip (by decide), opens]
    rfl
  obtain ⟨split, _, _⟩ := cut_eq_some_iff.1 whole
  refine ⟨before.length + (str "\"arguments\"" ++ a).length, ?_, ?_⟩
  · rw [find, findIf_drop drop, whole]
    rfl
  · rw [← List.drop_drop, drop, split, List.drop_left]

/-- The arguments are looked up behind the first `"arguments"`, from the next brace on. -/
theorem argumentsFrom_eq {json before r a t : Bytes}
    (key : cutText (str "\"arguments\"") json = some (before, r))
    (opens : cut (· == openBrace) r = some (a, openBrace, t)) :
    ∃ i, argumentsFrom json =
      .ok ((openBrace :: t).take ((scanBraces i 0 (openBrace :: t)).getD i - i)) := by
  obtain ⟨b, brace, start⟩ := find_brace key opens
  have found : (findText (str "\"arguments\"") json).or (findText (str "\"parameters\"") json) =
      some before.length := by
    rw [findText_eq, key]
    rfl
  exact ⟨b, by rw [argumentsFrom_brace found brace, start]⟩

/-- What the loop takes off `args` and one more brace is `args` where they are balanced. -/
theorem taken_iff {b : Bytes} {i : Nat} :
    (b ++ [closeBrace, closeBrace]).take
        ((scanBraces i 0 (b ++ [closeBrace, closeBrace])).getD i - i) = b ++ [closeBrace] ↔
      Balanced (b ++ [closeBrace]) := by
  rw [← scanBraces_last (i := i)]
  constructor
  · intro same
    cases e : scanBraces i 0 (b ++ [closeBrace, closeBrace]) with
    | none =>
      rw [e] at same
      simp at same
    | some j =>
      rw [e] at same
      have size := congrArg List.length same
      have start : (0 : Int) = toInt 0 := by decide
      rw [start, scanBraces_iff] at e
      obtain ⟨p, r, split, rfl, _⟩ := e
      have room := congrArg List.length split
      simp only [Option.getD_some, List.length_take, List.length_append, List.length_cons,
        List.length_nil] at size room
      congr 1
      omega
  · intro e
    rw [e, Option.getD_some, show i + b.length + 1 - i = (b ++ [closeBrace]).length by simp; omega]
    rw [show b ++ [closeBrace, closeBrace] = b ++ [closeBrace] ++ [closeBrace] by simp, List.take_left]

/-! ## Keys between quotes -/

section Quoted

variable {key w : Bytes} (s : Bytes)

theorem cutText_quoted_hit : cutText (quoted key) (quote :: (key ++ quote :: s)) = some ([], s) := by
  have split : quote :: (key ++ quote :: s) = quoted key ++ s := by simp [quoted]
  rw [cutText, split, if_pos (List.isPrefixOf_iff_prefix.2 (List.prefix_append ..)), List.drop_left]

/-- Other text between quotes is passed, its closing quote being tried next. -/
theorem cutText_quoted_pass (noQuote : quote ∉ w) (keyNoQuote : quote ∉ key) (other : w ≠ key) :
    cutText (quoted key) (quote :: (w ++ quote :: s)) =
      (cutText (quoted key) (quote :: s)).map fun x => (quote :: (w ++ x.1), x.2) := by
  have plain : ∀ {t : Bytes}, quote ∉ t → ∀ c ∈ t, (c != quote) = true := by
    intro t none c mem
    rw [bne_iff_ne]
    rintro rfl
    exact none mem
  have miss : ¬ (quoted key).isPrefixOf (quote :: (w ++ quote :: s)) = true := by
    rw [List.isPrefixOf_iff_prefix]
    rintro ⟨u, hu⟩
    have inner : key ++ quote :: u = w ++ quote :: s := by simpa [quoted] using hu
    exact other (run_unique (plain keyNoQuote) (plain noQuote) (by decide) (by decide) inner).1.symm
  have solid : ∀ c ∈ w, c ≠ quote := fun c mem => by simpa using plain noQuote c mem
  have skip : cutText (quote :: (key ++ [quote])) (w ++ quote :: s) = _ := cutText_skip solid (quote :: s)
  rw [cutText, if_neg miss, quoted, skip, Option.map_map]
  rfl

end Quoted

/-- `{"key": "name", "arguments": args}`. -/
def renderCall (key name args : Bytes) : Bytes :=
  str "\x7b\"" ++ key ++ str "\": \"" ++ name ++ str "\", \"arguments\": " ++ args ++ [closeBrace]

/-- What follows a key of the rendered call: the name and the arguments. -/
def afterKey (name args : Bytes) : Bytes :=
  str "\"" ++ name ++ str "\", \"arguments\": " ++ args ++ [closeBrace]

/-- Quote by quote. -/
theorem renderCall_eq (key name args : Bytes) : renderCall key name args =
    [openBrace] ++ quote :: (key ++ quote :: (str ": " ++ afterKey name args)) := by
  have colon : str "\": \"" = quote :: (str ": " ++ str "\"") := by decide
  rw [renderCall, afterKey, colon]
  simp only [List.append_assoc, List.cons_append]
  rfl

theorem afterKey_eq (name args : Bytes) : afterKey name args =
    quote :: (name ++ quote :: (str ", " ++ quote :: (str "arguments" ++ quote ::
      (str ": " ++ (args ++ [closeBrace]))))) := by
  have middle : str "\", \"arguments\": " =
      quote :: (str ", " ++ quote :: (str "arguments" ++ quote :: str ": ")) := by decide
  rw [afterKey, middle]
  simp only [List.append_assoc, List.cons_append]
  rfl

/-- The search for a quoted text passes the key of a rendered call. -/
theorem cutText_key {key : Bytes} (keyNoQuote : quote ∉ key) {k : Bytes} (kNoQuote : quote ∉ k)
    (other : k ≠ key) (noColon : str ": " ≠ key) (name args : Bytes) :
    cutText (quoted key) (renderCall k name args) =
      (cutText (quoted key) (afterKey name args)).map fun x =>
        ([openBrace] ++ quote :: (k ++ quote :: (str ": " ++ x.1)), x.2) := by
  rw [renderCall_eq, afterKey_eq]
  rw [show quoted key = quote :: (key ++ [quote]) from rfl, cutText_skip (by decide), ← quoted,
    cutText_quoted_pass _ kNoQuote keyNoQuote other,
    cutText_quoted_pass _ (by decide) keyNoQuote noColon, Option.map_map, Option.map_map]
  rfl

/-- In a rendered call the arguments are looked up where they stand, whatever the name is. -/
theorem arguments_found {k name : Bytes} (kNoQuote : quote ∉ k) (other : k ≠ str "arguments")
    (noQuote : quote ∉ name) (args : Bytes) : ∃ before a,
      cutText (str "\"arguments\"") (renderCall k name args) = some (before, a ++ (args ++ [closeBrace])) ∧
        ∀ c ∈ a, (c == openBrace) = false := by
  have word : str "\"arguments\"" = quoted (str "arguments") := by decide
  rw [word, cutText_key (by decide) kNoQuote other (by decide), afterKey_eq]
  by_cases same : name = str "arguments"
  · -- the name itself is taken for the key
    rw [same, cutText_quoted_hit, Option.map_some]
    refine ⟨_, str ", \"arguments\": ", congrArg some (Prod.ext rfl ?_), by decide⟩
    rfl
  · rw [cutText_quoted_pass _ noQuote (by decide) same,
      cutText_quoted_pass _ (by decide) (by decide) (by decide), cutText_quoted_hit]
    exact ⟨_, str ": ", rfl, by decide⟩

/-- The arguments of a rendered call come back whole exactly where they are balanced. -/
theorem argumentsFrom_iff {k name args : Bytes} (kNoQuote : quote ∉ k) (other : k ≠ str "arguments")
    (noQuote : quote ∉ name) (object : ObjectText args) :
    ∃ arguments, argumentsFrom (renderCall k name args) = .ok arguments ∧
      (arguments = args ↔ Balanced args) := by
  obtain ⟨body, rfl⟩ := object.braces
  obtain ⟨before, a, key, noBrace⟩ :=
    arguments_found kNoQuote other noQuote (openBrace :: (body ++ [closeBrace]))
  have shape : openBrace :: (body ++ [closeBrace]) ++ [closeBrace] =
      openBrace :: body ++ [closeBrace, closeBrace] := by simp
  obtain ⟨i, e⟩ := argumentsFrom_eq key (a := a) (t := body ++ [closeBrace, closeBrace])
    (by rw [shape]; exact cut_append noBrace rfl)
  exact ⟨_, e, taken_iff (b := openBrace :: body) (i := i)⟩

/-- What is parsed once the name's key is found. -/
theorem parseToolCall_eq {json before key after : Bytes} (split : json = before ++ (key ++ after))
    (noColon : ∀ c ∈ key, (c == colon) = false)
    (found : (findText (str "\"name\"") json).or (findText (str "\"tool\"") json) = some before.length) :
    parseToolCall json = match quotedAfterColon after with
      | none => .ok none
      | some name => (argumentsFrom json).map fun arguments => some { name, arguments } := by
  have drop : json.drop before.length = key ++ after := by rw [split, List.drop_left]
  have skip : quotedAfterColon (key ++ after) = quotedAfterColon after := by
    unfold quotedAfterColon
    rw [cut_skip noColon]
    cases cut (· == colon) after <;> rfl
  rw [parseToolCall, found]
  dsimp only
  rw [quotedFrom_eq drop, skip]
  cases quotedAfterColon after with
  | none => rfl
  | some name =>
    cases argumentsFrom json <;> rfl

/-- Behind the right key stands the name. -/
theorem quotedAfterColon_afterKey {name : Bytes} (noQuote : quote ∉ name) (args : Bytes) :
    quotedAfterColon (str ": " ++ afterKey name args) = some name := by
  have plain := no_byte noQuote
  have inner := cut_append (p := (· == quote)) (c := quote) (r := str ", " ++ quote :: (str "arguments" ++ quote ::
      (str ": " ++ (args ++ [closeBrace])))) plain rfl
  have colon : cut (· == colon) (str ": " ++ afterKey name args) = some ([], colon, 32 :: afterKey name args) := rfl
  have opening : cut (· == quote) (32 :: afterKey name args) = some ([32], quote, name ++ quote ::
      (str ", " ++ quote :: (str "arguments" ++ quote :: (str ": " ++ (args ++ [closeBrace]))))) := by
    rw [afterKey_eq]
    rfl
  simp only [quotedAfterColon, colon, opening, inner, Option.bind_eq_bind, Option.bind_some]
  rfl

/-- Where `"name"` is found behind the key `"tool"`, the text quoted after the next colon is the
name. -/
def NameFirst (name args : Bytes) : Prop :=
  ∀ before after, cutText (str "\"name\"") (afterKey name args) = some (before, after) →
    quotedAfterColon after = some name

section Forms

variable {name args : Bytes} (noQuote : quote ∉ name)

/-- The key of a rendered call is the first text in quotes. -/
theorem cutText_own (key : Bytes) :
    cutText (quoted key) (renderCall key name args) = some ([openBrace], str ": " ++ afterKey name args) := by
  rw [renderCall_eq, show quoted key = quote :: (key ++ [quote]) from rfl, cutText_skip (by decide),
    ← quoted, cutText_quoted_hit]
  rfl

include noQuote

/-- The name is right where its own key is the one that is found. -/
theorem parseToolCall_own {key : Bytes} (noColon : ∀ c ∈ quoted key, (c == colon) = false)
    (found : (findText (str "\"name\"") (renderCall key name args)).or
      (findText (str "\"tool\"") (renderCall key name args)) = some 1) :
    parseToolCall (renderCall key name args) =
      (argumentsFrom (renderCall key name args)).map fun arguments => some { name, arguments } := by
  have split := cutText_some (@cutText_own name args key)
  rw [parseToolCall_eq split noColon found, quotedAfterColon_afterKey noQuote]

theorem parseToolCall_name : parseToolCall (renderCall (str "name") name args) =
    (argumentsFrom (renderCall (str "name") name args)).map fun arguments => some { name, arguments } := by
  apply parseToolCall_own noQuote (by decide)
  rw [show str "\"name\"" = quoted (str "name") by decide, findText_eq, cutText_own]
  rfl

theorem parseToolCall_tool : parseToolCall (renderCall (str "tool") name args) =
    match cutText (str "\"name\"") (afterKey name args) with
    | none => (argumentsFrom (renderCall (str "tool") name args)).map fun arguments => some { name, arguments }
    | some (_, after) => match quotedAfterColon after with
      | none => .ok none
      | some found => (argumentsFrom (renderCall (str "tool") name args)).map fun arguments =>
          some { name := found, arguments } := by
  have word : str "\"name\"" = quoted (str "name") := by decide
  have pass := cutText_key (show quote ∉ str "name" by decide) (show quote ∉ str "tool" by decide)
    (by decide) (by decide) name args
  rw [← word] at pass
  cases e : cutText (str "\"name\"") (afterKey name args) with
  | none =>
    rw [e] at pass
    apply parseToolCall_own noQuote (by decide)
    rw [findText_eq, pass, show str "\"tool\"" = quoted (str "tool") by decide, findText_eq, cutText_own]
    rfl
  | some x =>
    obtain ⟨before, after⟩ := x
    rw [e] at pass
    exact parseToolCall_eq (cutText_some pass) (by decide) (by rw [findText_eq, pass]; rfl)

/-- **Parsing inverts rendering**, in both forms, exactly where the arguments' braces, those in strings
included, are balanced for the first time at their last byte and no `"name"` behind the key `"tool"`
leads to another name. -/
theorem parseToolCall_iff (object : ObjectText args) :
    (parseToolCall (renderCall (str "tool") name args) = .ok (some { name, arguments := args }) ∧
        parseToolCall (renderCall (str "name") name args) = .ok (some { name, arguments := args })) ↔
      Balanced args ∧ NameFirst name args := by
  obtain ⟨inTool, foundTool, wholeTool⟩ := argumentsFrom_iff (k := str "tool") (by decide) (by decide)
    noQuote object
  obtain ⟨inName, foundName, wholeName⟩ := argumentsFrom_iff (k := str "name") (by decide) (by decide)
    noQuote object
  rw [parseToolCall_name noQuote, parseToolCall_tool noQuote, foundTool, foundName]
  have inverts : ∀ {n arguments : Bytes},
      (Except.ok arguments : Except StdException Bytes).map (fun arguments => some ({ name := n, arguments } : ParsedToolCall)) =
        .ok (some { name, arguments := args }) ↔ n = name ∧ arguments = args := by
    intro n arguments
    simp [Except.map]
  rw [inverts, wholeName]
  cases e : cutText (str "\"name\"") (afterKey name args) with
  | none =>
    dsimp only
    rw [inverts, wholeTool]
    constructor
    · rintro ⟨_, _, balanced⟩
      refine ⟨balanced, fun before after found => ?_⟩
      rw [e] at found
      cases found
    · rintro ⟨balanced, _⟩
      exact ⟨⟨rfl, balanced⟩, rfl, balanced⟩
  | some x =>
    obtain ⟨before, after⟩ := x
    dsimp only
    have first : NameFirst name args ↔ quotedAfterColon after = some name := by
      constructor
      · exact fun h => h before after e
      · intro h before' after' found
        rw [e] at found
        cases found
        exact h
    rw [first]
    cases quotedAfterColon after with
    | none => simp
    | some n =>
      dsimp only
      rw [inverts, wholeTool, Option.some.injEq]
      constructor
      · rintro ⟨⟨same, balanced⟩, _⟩
        exact ⟨balanced, same⟩
      · rintro ⟨balanced, same⟩
        exact ⟨⟨same, balanced⟩, rfl, balanced⟩

end Forms

theorem parseToolCall_iff_search :
    (parseToolCall (renderCall (str "tool") (str "memory_search") (str "\x7b\"query\": \"x\"\x7d")) =
        .ok (some { name := str "memory_search", arguments := str "\x7b\"query\": \"x\"\x7d" }) ∧
      parseToolCall (renderCall (str "name") (str "memory_search") (str "\x7b\"query\": \"x\"\x7d")) =
        .ok (some { name := str "memory_search", arguments := str "\x7b\"query\": \"x\"\x7d" })) ↔
      Balanced (str "\x7b\"query\": \"x\"\x7d") ∧
        NameFirst (str "memory_search") (str "\x7b\"query\": \"x\"\x7d") :=
  parseToolCall_iff (by decide) objectText_query

theorem objectText_name : ObjectText (str "\x7b\"name\": \"x\"\x7d") :=
  ⟨_, (reads_object known_nil (show Verbatim (str "name") by decide)
    (reads_string (show Verbatim (str "x") by decide))).ofText⟩

/-- An argument called `name` is taken for the tool's. -/
theorem parseToolCall_wrong_name :
    ¬ ∀ name args : Bytes, quote ∉ name → backslash ∉ name → ObjectText args →
      parseToolCall (renderCall (str "tool") name args) = .ok (some { name, arguments := args }) ∧
        parseToolCall (renderCall (str "name") name args) = .ok (some { name, arguments := args }) := by
  intro all
  have parsed := (all (str "memory_search") (str "\x7b\"name\": \"x\"\x7d") (by decide) (by decide)
    objectText_name).1
  revert parsed
  decide +kernel

end JsonParser
end ModelRuntime
