import ModelRuntime.Lib.JsonShape
import ModelRuntime.Lib.JsonText
import ModelRuntime.Lib.Regex

/-!
# `ToolCaller`

A tool call is recognised in a response by one regular expression. `derives_toolPattern` says which
texts it describes; the body of the arguments is `[^}]+`, so that a call comes back whole exactly when
its arguments are not empty and close no brace before their last byte.
-/

namespace ModelRuntime
open Cpp Lib Lib.Json

structure ToolCall where
  toolName : Bytes := []
  arguments : Bytes := []
  requestId : Bytes := []
  deriving DecidableEq

/-- A handler may throw, and acts on the state of the world it is run in. -/
abbrev ToolCallHandler (ω : Type) := ToolCall → ω → Except StdException Bytes × ω

/-- `tool_pattern`. -/
def toolPattern : Regex UInt8 := .all [
  .text (str "\x7b\"tool\""), .many isSpace, .text [colon], .many isSpace, .text [quote],
  .group (.many1 (· != quote)), .text [quote], .many isSpace, .text [comma], .many isSpace,
  .text (str "\"arguments\""), .many isSpace, .text [colon], .many isSpace,
  .group (.all [.text [openBrace], .many1 (· != closeBrace), .text [closeBrace]]), .text [closeBrace]]

/-- `try_parse_tool_call`: the return value, and `result` as it leaves it. -/
def tryParseToolCall (output : Bytes) (result : ToolCall) : Bool × ToolCall :=
  match toolPattern.search output with
  | some found => (true, { result with toolName := found.getD 0 [], arguments := found.getD 1 [] })
  | none => (false, result)

/-- `execute_tool` with the table `handlers_`. -/
def executeTool {ω : Type} (handlers : Bytes → Option (ToolCallHandler ω)) (call : ToolCall) (world : ω) :
    Except StdException Bytes × ω :=
  match handlers call.toolName with
  | none => (.ok (str "\x7b\"error\": \"Unknown tool: " ++ call.toolName ++ str "\"\x7d"), world)
  | some handler => handler call world

/-- `{"tool": "name", "arguments": args}`. -/
def toolCallText (name args : Bytes) : Bytes :=
  str "\x7b\"tool\": \"" ++ name ++ str "\", \"arguments\": " ++ args ++ [closeBrace]

/-! ## What the pattern describes -/

def Spaces (ws : Bytes) : Prop := ∀ c ∈ ws, isSpace c = true

theorem spaces_nil : Spaces [] := by simp [Spaces]

theorem spaces_blank : Spaces [32] := by simp [Spaces, isSpace]

/-- A call up to its arguments, with blanks at the six places where the pattern allows them. -/
def callFront (w₁ w₂ w₃ w₄ w₅ w₆ name rest : Bytes) : Bytes :=
  str "\x7b\"tool\"" ++ (w₁ ++ colon :: (w₂ ++ quote :: (name ++ quote :: (w₃ ++ comma :: (w₄ ++
    quote :: (str "arguments\"" ++ (w₅ ++ colon :: (w₆ ++ rest))))))))

theorem toolCallText_eq (name args : Bytes) :
    toolCallText name args = callFront [] [32] [] [32] [] [32] name (args ++ [closeBrace]) := by
  have front : str "\x7b\"tool\": \"" = str "\x7b\"tool\"" ++ [colon, 32, quote] := by decide
  have middle : str "\", \"arguments\": " =
      [quote, comma, 32, quote] ++ str "arguments\"" ++ [colon, 32] := by decide
  rw [toolCallText, callFront, front, middle]
  simp

/-- The parts of a text that the pattern describes. -/
structure ToolMatch (m name body : Bytes) : Prop where
  name_ne : name ≠ []
  noQuote : ∀ c ∈ name, (c != quote) = true
  body_ne : body ≠ []
  noClose : ∀ c ∈ body, (c != closeBrace) = true
  split : ∃ w₁ w₂ w₃ w₄ w₅ w₆, Spaces w₁ ∧ Spaces w₂ ∧ Spaces w₃ ∧ Spaces w₄ ∧ Spaces w₅ ∧ Spaces w₆ ∧
    m = callFront w₁ w₂ w₃ w₄ w₅ w₆ name (openBrace :: (body ++ [closeBrace, closeBrace]))

open Regex in
theorem derives_toolPattern {m : Bytes} {cs : List Bytes} :
    toolPattern.Derives m cs ↔
      ∃ name body, ToolMatch m name body ∧ cs = [name, openBrace :: (body ++ [closeBrace])] := by
  constructor
  · intro h₀
    obtain ⟨_, h₁, rfl⟩ := derives_text_seq.1 h₀
    obtain ⟨w₁, s₁, _, h₂, rfl⟩ := derives_many_seq.1 h₁
    obtain ⟨_, h₃, rfl⟩ := derives_text_seq.1 h₂
    obtain ⟨w₂, s₂, _, h₄, rfl⟩ := derives_many_seq.1 h₃
    obtain ⟨_, h₅, rfl⟩ := derives_text_seq.1 h₄
    obtain ⟨name, _, hname, _, _, h₆, rfl, rfl⟩ := derives_group_seq.1 h₅
    obtain ⟨noQuote, name_ne, rfl⟩ := derives_many1.1 hname
    obtain ⟨_, h₇, rfl⟩ := derives_text_seq.1 h₆
    obtain ⟨w₃, s₃, _, h₈, rfl⟩ := derives_many_seq.1 h₇
    obtain ⟨_, h₉, rfl⟩ := derives_text_seq.1 h₈
    obtain ⟨w₄, s₄, _, h₁₀, rfl⟩ := derives_many_seq.1 h₉
    obtain ⟨_, h₁₁, rfl⟩ := derives_text_seq.1 h₁₀
    obtain ⟨w₅, s₅, _, h₁₂, rfl⟩ := derives_many_seq.1 h₁₁
    obtain ⟨_, h₁₃, rfl⟩ := derives_text_seq.1 h₁₂
    obtain ⟨w₆, s₆, _, h₁₄, rfl⟩ := derives_many_seq.1 h₁₃
    obtain ⟨args, _, hargs, _, _, h₁₅, rfl, rfl⟩ := derives_group_seq.1 h₁₄
    obtain ⟨_, h₁₆, rfl⟩ := derives_text_seq.1 h₁₅
    obtain ⟨rfl, rfl⟩ := derives_empty.1 h₁₆
    -- the arguments' own group
    obtain ⟨_, h₁₇, rfl⟩ := derives_text_seq.1 hargs
    obtain ⟨body, ⟨noClose, body_ne⟩, _, h₁₈, rfl⟩ := derives_many1_seq.1 h₁₇
    obtain ⟨_, h₁₉, rfl⟩ := derives_text_seq.1 h₁₈
    obtain ⟨rfl, rfl⟩ := derives_empty.1 h₁₉
    have whole : str "\"arguments\"" = quote :: str "arguments\"" := by decide
    exact ⟨name, body, ⟨name_ne, noQuote, body_ne, noClose, w₁, w₂, w₃, w₄, w₅, w₆, s₁, s₂, s₃, s₄, s₅,
      s₆, by simp [callFront, whole]⟩, by simp⟩
  · rintro ⟨name, body, ⟨name_ne, noQuote, body_ne, noClose, w₁, w₂, w₃, w₄, w₅, w₆, s₁, s₂, s₃, s₄, s₅,
      s₆, rfl⟩, rfl⟩
    refine derives_text_seq.2 ⟨_, ?_, rfl⟩
    refine derives_many_seq.2 ⟨w₁, s₁, _, ?_, rfl⟩
    refine derives_text_seq.2 ⟨_, ?_, rfl⟩
    refine derives_many_seq.2 ⟨w₂, s₂, _, ?_, rfl⟩
    refine derives_text_seq.2 ⟨_, ?_, rfl⟩
    refine derives_group_seq.2 ⟨name, [], derives_many1.2 ⟨noQuote, name_ne, rfl⟩, _, _, ?_, rfl, rfl⟩
    refine derives_text_seq.2 ⟨_, ?_, rfl⟩
    refine derives_many_seq.2 ⟨w₃, s₃, _, ?_, rfl⟩
    refine derives_text_seq.2 ⟨_, ?_, rfl⟩
    refine derives_many_seq.2 ⟨w₄, s₄, _, ?_, rfl⟩
    refine derives_text_seq.2 ⟨_, ?_, rfl⟩
    refine derives_many_seq.2 ⟨w₅, s₅, _, ?_, rfl⟩
    refine derives_text_seq.2 ⟨_, ?_, rfl⟩
    refine derives_many_seq.2 ⟨w₆, s₆, _, ?_, rfl⟩
    refine derives_group_seq.2 ⟨openBrace :: (body ++ [closeBrace]), [], ?_, [closeBrace], [], ?_,
      by simp, rfl⟩
    · refine derives_text_seq.2 ⟨body ++ [closeBrace], ?_, rfl⟩
      refine derives_many1_seq.2 ⟨body, ⟨noClose, body_ne⟩, [closeBrace], ?_, rfl⟩
      exact derives_text_seq.2 ⟨[], derives_empty.2 ⟨rfl, rfl⟩, rfl⟩
    · exact derives_text_seq.2 ⟨[], derives_empty.2 ⟨rfl, rfl⟩, rfl⟩

/-- What is captured is what was parsed. -/
theorem tryParseToolCall_sound {output : Bytes} {result call : ToolCall}
    (found : tryParseToolCall output result = (true, call)) :
    ∃ m name body, ToolMatch m name body ∧
      call = { result with toolName := name, arguments := openBrace :: (body ++ [closeBrace]) } := by
  rw [tryParseToolCall] at found
  split at found
  · rename_i cs hit
    obtain ⟨_, m, _, _, derived⟩ := Regex.search_sound hit
    obtain ⟨name, body, isMatch, rfl⟩ := derives_toolPattern.1 derived
    cases found
    exact ⟨m, name, body, isMatch, rfl⟩
  · cases found

/-- Two ways to read a run of a class before a byte outside it are one. -/
theorem run_unique {p : UInt8 → Bool} {u w r t : Bytes} {c d : UInt8} (hu : ∀ x ∈ u, p x = true)
    (hw : ∀ x ∈ w, p x = true) (hc : p c = false) (hd : p d = false) (h : u ++ c :: r = w ++ d :: t) :
    u = w ∧ c = d ∧ r = t := by
  have left := cut_append (p := fun x => !p x) (a := u) (r := r) (by simpa using hu) (by simpa using hc)
  have right := cut_append (p := fun x => !p x) (a := w) (r := t) (by simpa using hw) (by simpa using hd)
  rw [h, right] at left
  cases left
  exact ⟨rfl, rfl, rfl⟩

/-- Spaces before a byte that is none. -/
theorem spaces_unique {u w r t : Bytes} {c d : UInt8} (hu : Spaces u) (hw : Spaces w)
    (hc : isSpace c = false) (hd : isSpace d = false) (h : u ++ c :: r = w ++ d :: t) :
    u = w ∧ c = d ∧ r = t := run_unique hu hw hc hd h

/-- The rendered call can be matched in one way only. -/
theorem ToolMatch.unique {m name body name' args after rest : Bytes} (h : ToolMatch m name body)
    (plain : ∀ c ∈ name', (c != quote) = true)
    (split : toolCallText name' (openBrace :: args) ++ after = m ++ rest) :
    name = name' ∧ args ++ closeBrace :: after = body ++ closeBrace :: closeBrace :: rest := by
  obtain ⟨_, noQuote, _, _, w₁, w₂, w₃, w₄, w₅, w₆, s₁, s₂, s₃, s₄, s₅, s₆, rfl⟩ := h
  rw [toolCallText_eq, callFront, callFront] at split
  simp only [List.append_assoc, List.cons_append] at split
  have tail := List.append_cancel_left split
  obtain ⟨_, _, tail⟩ := spaces_unique spaces_nil s₁ (by decide) (by decide) tail
  obtain ⟨_, _, tail⟩ := spaces_unique spaces_blank s₂ (by decide) (by decide) tail
  obtain ⟨same, _, tail⟩ := run_unique plain noQuote (by decide) (by decide) tail
  obtain ⟨_, _, tail⟩ := spaces_unique spaces_nil s₃ (by decide) (by decide) tail
  obtain ⟨_, _, tail⟩ := spaces_unique spaces_blank s₄ (by decide) (by decide) tail
  have tail := List.append_cancel_left tail
  obtain ⟨_, _, tail⟩ := spaces_unique spaces_nil s₅ (by decide) (by decide) tail
  obtain ⟨_, _, tail⟩ := spaces_unique spaces_blank s₆ (by decide) (by decide) tail
  exact ⟨same.symm, by simpa using tail⟩

/-- The rendered call is matched where its arguments' body closes no brace. -/
theorem toolMatch_text {name body : Bytes} (name_ne : name ≠ [])
    (plain : ∀ c ∈ name, (c != quote) = true) (body_ne : body ≠ [])
    (noClose : ∀ c ∈ body, (c != closeBrace) = true) :
    ToolMatch (toolCallText name (openBrace :: (body ++ [closeBrace]))) name body where
  name_ne := name_ne
  noQuote := plain
  body_ne := body_ne
  noClose := noClose
  split := by
    refine ⟨[], [32], [], [32], [], [32], spaces_nil, spaces_blank, spaces_nil, spaces_blank, spaces_nil,
      spaces_blank, ?_⟩
    rw [toolCallText_eq, List.cons_append, List.append_assoc]
    rfl

/-! ## Recognised calls -/

/-- A call that comes back whole has arguments of one pair of braces, with something between. -/
theorem recognised_shape {output name args : Bytes} {result : ToolCall}
    (found : tryParseToolCall output result = (true, { result with toolName := name, arguments := args })) :
    args ≠ [openBrace, closeBrace] ∧ closeBrace ∉ args.dropLast := by
  obtain ⟨m, name', body, isMatch, same⟩ := tryParseToolCall_sound found
  obtain ⟨rfl, rfl⟩ : name = name' ∧ args = openBrace :: (body ++ [closeBrace]) := by
    cases same
    exact ⟨rfl, rfl⟩
  constructor
  · intro empty
    exact isMatch.body_ne (by simpa using empty)
  · rw [← List.cons_append, List.dropLast_concat, List.mem_cons]
    rintro (brace | mem)
    · exact absurd brace (by decide)
    · exact absurd (isMatch.noClose _ mem) (by decide)

/-- **Recognition.** A rendered call in a text without other braces comes back with its exact
arguments if and only if these are not empty and their only closing brace is their last byte. -/
theorem tryParseToolCall_iff {name args before after : Bytes} (name_ne : name ≠ [])
    (noQuote : quote ∉ name) (object : ObjectText args)
    (clear : ∀ c ∈ before ++ after, c ≠ openBrace ∧ c ≠ closeBrace) (result : ToolCall) :
    tryParseToolCall (before ++ (toolCallText name args ++ after)) result =
        (true, { result with toolName := name, arguments := args }) ↔
      args ≠ [openBrace, closeBrace] ∧ closeBrace ∉ args.dropLast := by
  constructor
  · exact recognised_shape
  · rintro ⟨full, single⟩
    obtain ⟨body, rfl⟩ := object.braces
    rw [← List.cons_append, List.dropLast_concat, List.mem_cons, not_or] at single
    have plain : ∀ c ∈ name, (c != quote) = true := by
      intro c mem
      rw [bne_iff_ne]
      rintro rfl
      exact noQuote mem
    have noClose : ∀ c ∈ body, (c != closeBrace) = true := by
      intro c mem
      rw [bne_iff_ne]
      rintro rfl
      exact single.2 mem
    have body_ne : body ≠ [] := by
      rintro rfl
      exact full rfl
    have derived := derives_toolPattern.2
      ⟨name, body, toolMatch_text name_ne plain body_ne noClose, rfl⟩
    have found := @Regex.search_leftmost _ _ before _ _ after _ derived rfl ?_ ?_
    · rw [tryParseToolCall, found]
      rfl
    · intro m cs rest derived' split
      obtain ⟨name', body', isMatch, rfl⟩ := derives_toolPattern.1 derived'
      obtain ⟨rfl, tail⟩ := isMatch.unique plain split
      rw [List.append_assoc] at tail
      obtain ⟨rfl, _⟩ := run_unique noClose isMatch.noClose (by decide) (by decide) tail
      rfl
    · rintro a b m cs rest rfl b_ne derived' split
      obtain ⟨c, b, rfl⟩ := List.exists_cons_of_ne_nil b_ne
      obtain ⟨_, _, isMatch, _⟩ := derives_toolPattern.1 derived'
      obtain ⟨_, _, _, _, _, _, _, _, _, _, _, _, _, _, _, rfl⟩ := isMatch.split
      have brace : c = openBrace := (List.cons.inj split).1
      exact (clear c (by simp)).1 brace

theorem objectText_query : ObjectText (str "\x7b\"query\": \"x\"\x7d") :=
  ⟨_, (reads_object known_nil (show Verbatim (str "query") by decide)
    (reads_string (show Verbatim (str "x") by decide))).ofText⟩

theorem tryParseToolCall_iff_search :
    tryParseToolCall (str "Let me look. " ++
        (toolCallText (str "memory_search") (str "\x7b\"query\": \"x\"\x7d") ++ str "\n")) {} =
        (true, { toolName := str "memory_search", arguments := str "\x7b\"query\": \"x\"\x7d" }) ↔
      str "\x7b\"query\": \"x\"\x7d" ≠ [openBrace, closeBrace] ∧
        closeBrace ∉ (str "\x7b\"query\": \"x\"\x7d").dropLast :=
  tryParseToolCall_iff (by decide) (by decide) objectText_query (by decide) {}

theorem objectText_empty : ObjectText [openBrace, closeBrace] := ⟨[], rfl⟩

/-- A call without arguments is not recognised. -/
theorem not_recognised_empty :
    ¬ ∀ name args before after : Bytes, name ≠ [] → quote ∉ name → backslash ∉ name → ObjectText args →
      (∀ c ∈ before ++ after, c ≠ openBrace ∧ c ≠ closeBrace) → ∀ result : ToolCall,
        tryParseToolCall (before ++ (toolCallText name args ++ after)) result =
          (true, { result with toolName := name, arguments := args }) := by
  intro all
  have found := all (str "memory_search") [openBrace, closeBrace] [] [] (by decide) (by decide)
    (by decide) objectText_empty (by simp) {}
  exact (recognised_shape found).1 rfl

end ModelRuntime
