import ModelRuntime.Lib.JsonAppend
import ModelRuntime.Nats.Publish

/-!
# Tool messages

A tool call that is published and the result that answers it are written alike: an identifier and a name
spliced between quotes, and a text of JSON spliced as it is. Both come back exactly where the two texts are
verbatim, whatever value is spliced behind them; and the repository's own `parse_tool_call` finds the call again
as long as no other name and no other brace comes first.
-/

namespace ModelRuntime
open Cpp Lib Lib.Json

/-- `{"request_id":"..","toolKey":"..","valueKey":..}`. -/
def toolMessage (toolKey valueKey requestId tool value : Bytes) : Bytes :=
  str "\x7b\"request_id\":\"" ++ requestId ++ str "\",\"" ++ toolKey ++ str "\":\"" ++ tool ++ str "\",\"" ++
    valueKey ++ str "\":" ++ value ++ str "\x7d"

/-- The payload of `publish_tool_call`. -/
def toolCallJson (requestId toolName arguments : Bytes) : Bytes :=
  toolMessage (str "tool") (str "arguments") requestId toolName arguments

/-- `publish_tool_call` in a build with NATS. -/
def publishToolCall (connected : Bool) (requestId toolName arguments : Bytes) : List Published :=
  if !connected then []
  else [{ subject := cStr (str "inference.tool_calls." ++ toolName), data := toolCallJson requestId toolName arguments }]

def JsonParser.serializeToolResult (requestId toolName result : Bytes) : Bytes :=
  toolMessage (str "tool_name") (str "result") requestId toolName result

/-- `wait_for_tool_result` in a build with NATS; `natsConnectionRequest` gives the answer to a subject, if one
comes in time. -/
def waitForToolResult (connected : Bool) (natsConnectionRequest : Bytes → Option Bytes) (requestId : Bytes) : Bytes :=
  if !connected then str "\x7b\x7d"
  else (natsConnectionRequest (cStr (str "inference.tool_results." ++ requestId))).getD (str "\x7b\x7d")

/-- What a tool message says. -/
def toolFields (toolKey valueKey requestId tool : Bytes) (v : Json) : List (Bytes × Json) :=
  [(str "request_id", .string requestId), (toolKey, .string tool), (valueKey, v)]

/-- Keys that are three and are verbatim. -/
structure ToolKeys (toolKey valueKey : Bytes) : Prop where
  tool : Verbatim toolKey
  value : Verbatim valueKey
  apart : toolKey ≠ str "request_id" ∧ valueKey ≠ str "request_id" ∧ valueKey ≠ toolKey

theorem toolKeys_call : ToolKeys (str "tool") (str "arguments") := ⟨by decide, by decide, by decide⟩

theorem toolKeys_result : ToolKeys (str "tool_name") (str "result") := ⟨by decide, by decide, by decide⟩

section Messages

variable {toolKey valueKey requestId tool value : Bytes} {v : Json}

def toolMember (toolKey tool : Bytes) : Bytes × Bytes × Json := (toolKey, quoted tool, .string tool)

theorem toolMessage_text : toolMessage toolKey valueKey requestId tool value =
    recordText [] [idMember requestId, toolMember toolKey tool] valueKey value := by
  have first : str "\x7b\"request_id\":\"" = openBrace :: quote :: (str "request_id" ++ [quote, colon, quote]) := by
    decide
  have next : str "\",\"" = [quote, comma, quote] := by decide
  have middle : str "\":\"" = [quote, colon, quote] := by decide
  have last : str "\":" = [quote, colon] := by decide
  have shut : str "\x7d" = [closeBrace] := by decide
  rw [toolMessage, first, next, middle, last, shut]
  simp only [recordText, fieldsText, fieldText, idMember, toolMember, quoted, List.flatMap_cons, List.flatMap_nil,
    List.append_assoc, List.cons_append, List.nil_append, List.append_nil]

theorem toolMessage_utf8 (keys : Utf8 toolKey ∧ Utf8 valueKey) (id : Utf8 requestId) (name : Utf8 tool)
    (text : Utf8 value) : Utf8 (toolMessage toolKey valueKey requestId tool value) := by
  obtain ⟨toolKey, valueKey⟩ := keys
  unfold toolMessage
  repeat' apply Utf8.append
  all_goals first
    | assumption
    | exact Ascii.utf8 (by decide)

/-- **A tool message** says what was to be said exactly where the identifier and the name are verbatim. -/
theorem toolMessage_iff (keys : ToolKeys toolKey valueKey) (utf8 : Utf8 toolKey ∧ Utf8 valueKey) (id : Utf8 requestId)
    (name : Utf8 tool) (text : Utf8 value) (isValue : ofText value = some v) :
    Decodes (toolMessage toolKey valueKey requestId tool value) (toolFields toolKey valueKey requestId tool v) ↔
      Verbatim requestId ∧ Verbatim tool := by
  constructor
  · rintro ⟨_, w, read, found⟩
    rw [toolMessage_text] at read
    obtain ⟨_, first⟩ := (Stands.document rfl read).field no_blank [] known_nil
      (show Verbatim (str "request_id") by decide) (fun _ => rfl)
    rw [idMember, quoted_append] at first
    have hid := first.verbatim (found (str "request_id", .string requestId) List.mem_cons_self)
    obtain ⟨_, second⟩ := (Stands.document rfl read).field no_blank [idMember requestId] (known_id hid)
      (m := toolMember toolKey tool) keys.tool (fun _ => rfl)
    rw [toolMember, quoted_append] at second
    exact ⟨hid, second.verbatim (found (toolKey, .string tool) (List.mem_cons_of_mem _ List.mem_cons_self))⟩
  · rintro ⟨hid, htool⟩
    refine ⟨toolMessage_utf8 utf8 id name text, ?_⟩
    have front : Known [idMember requestId, toolMember toolKey tool] :=
      .cons (by decide) (reads_string hid) <| .cons keys.tool (reads_string htool) known_nil
    have body := reads_record no_blank front keys.value (reads_ofText isValue)
    rw [← toolMessage_text] at body
    obtain ⟨other, other', other''⟩ := keys.apart
    refine ⟨_, body.decode, fun f mem => ?_⟩
    simp only [toolFields, List.mem_cons, List.not_mem_nil, or_false] at mem
    rcases mem with rfl | rfl | rfl
    · simp [member, values, idMember, toolMember, other, other']
    · simp [member, values, idMember, toolMember, other.symm, other'']
    · simp [member, values, idMember, toolMember, other'.symm, other''.symm]

end Messages

section Exchange

variable {requestId toolName arguments result : Bytes} {args v : Json}

/-- **An exchange**: the call that is published, and the result that `serialize_tool_result` writes and
`wait_for_tool_result` gets, both say what was to be said exactly where identifier and name need no escaping. -/
theorem toolExchange_iff (id : Utf8 requestId) (name : Utf8 toolName) (utf8 : Utf8 arguments ∧ Utf8 result)
    (isArgs : ofText arguments = some args) (isResult : ofText result = some v)
    {natsConnectionRequest : Bytes → Option Bytes}
    (answers : natsConnectionRequest (cStr (str "inference.tool_results." ++ requestId)) =
      some (JsonParser.serializeToolResult requestId toolName result)) :
    ((∀ m ∈ publishToolCall true requestId toolName arguments,
        Decodes m.data (toolFields (str "tool") (str "arguments") requestId toolName args)) ∧
      Decodes (waitForToolResult true natsConnectionRequest requestId)
        (toolFields (str "tool_name") (str "result") requestId toolName v)) ↔
      Verbatim requestId ∧ Verbatim toolName := by
  have ascii : ∀ s : Bytes, Ascii s → Utf8 s := fun _ ascii => ascii.utf8
  have call := toolMessage_iff toolKeys_call ⟨ascii _ (by decide), ascii _ (by decide)⟩ id name utf8.1 isArgs
  have back := toolMessage_iff toolKeys_result ⟨ascii _ (by decide), ascii _ (by decide)⟩ id name utf8.2 isResult
  have sent : (∀ m ∈ publishToolCall true requestId toolName arguments,
      Decodes m.data (toolFields (str "tool") (str "arguments") requestId toolName args)) ↔
      Decodes (toolCallJson requestId toolName arguments)
        (toolFields (str "tool") (str "arguments") requestId toolName args) := by
    rw [publishToolCall, Bool.not_true, if_neg Bool.false_ne_true]
    simp
  rw [sent, waitForToolResult, Bool.not_true, if_neg Bool.false_ne_true, answers, Option.getD_some]
  constructor
  · exact fun both => call.1 both.1
  · exact fun plain => ⟨call.2 plain, back.2 plain⟩

theorem toolExchange_iff_search :
    let args := objectText [] (str "query") (quoted (str "x"))
    let answer := JsonParser.serializeToolResult (str "r1") (str "memory_search") (decimalInt 5)
    ((∀ m ∈ publishToolCall true (str "r1") (str "memory_search") args, Decodes m.data
        (toolFields (str "tool") (str "arguments") (str "r1") (str "memory_search")
          (.object [(str "query", .string (str "x"))]))) ∧
      Decodes (waitForToolResult true (fun _ => some answer) (str "r1"))
        (toolFields (str "tool_name") (str "result") (str "r1") (str "memory_search") (.number (decimalInt 5)))) ↔
      Verbatim (str "r1") ∧ Verbatim (str "memory_search") :=
  toolExchange_iff (Ascii.utf8 (by decide)) (Ascii.utf8 (by decide)) ⟨Ascii.utf8 (by decide), Ascii.utf8 (by decide)⟩
    (reads_object known_nil (show Verbatim (str "query") by decide)
      (reads_string (show Verbatim (str "x") by decide))).ofText (reads_decimalInt 5).ofText rfl

end Exchange

/-! ## The repository's own reader -/

namespace JsonParser

variable {requestId name args : Bytes}

/-- From the name's quote on. -/
def afterTool (name args : Bytes) : Bytes :=
  quote :: (name ++ quote :: ([comma] ++ quote :: (str "arguments" ++ quote :: ([colon] ++ (args ++ [closeBrace])))))

/-- Quote by quote. -/
theorem toolCallJson_eq (requestId name args : Bytes) : toolCallJson requestId name args =
    [openBrace] ++ quote :: (str "request_id" ++ quote :: ([colon] ++ quote :: (requestId ++ quote :: ([comma] ++
      quote :: (str "tool" ++ quote :: ([colon] ++ afterTool name args)))))) := by
  rw [toolCallJson, toolMessage_text]
  simp only [recordText, fieldsText, fieldText, idMember, toolMember, quoted, afterTool, List.flatMap_cons,
    List.flatMap_nil, List.append_assoc, List.cons_append, List.nil_append, List.append_nil]

/-- The search for a quoted word passes what stands before the identifier. -/
theorem cutText_start {key : Bytes} (noQuote : quote ∉ key) (other : str "request_id" ≠ key) (noColon : [colon] ≠ key)
    (name args : Bytes) : cutText (quoted key) (toolCallJson requestId name args) =
      (cutText (quoted key) (quote :: (requestId ++ quote :: ([comma] ++ quote :: (str "tool" ++ quote ::
        ([colon] ++ afterTool name args)))))).map fun x =>
          ([openBrace] ++ quote :: (str "request_id" ++ quote :: ([colon] ++ x.1)), x.2) := by
  rw [toolCallJson_eq, show quoted key = quote :: (key ++ [quote]) from rfl, cutText_skip (by decide), ← quoted,
    cutText_quoted_pass _ (by decide) noQuote other, cutText_quoted_pass _ (by decide) noQuote noColon,
    Option.map_map, Option.map_map]
  rfl

/-- Behind the identifier it passes the key of the name, too. -/
theorem cutText_tool {key : Bytes} (noQuote : quote ∉ key) (noQuoteId : quote ∉ requestId) (other : requestId ≠ key)
    (noComma : [comma] ≠ key) (noTool : str "tool" ≠ key) (noColon : [colon] ≠ key) (name args : Bytes) :
    cutText (quoted key) (quote :: (requestId ++ quote :: ([comma] ++ quote :: (str "tool" ++ quote ::
        ([colon] ++ afterTool name args))))) =
      (cutText (quoted key) (afterTool name args)).map fun x =>
        (quote :: (requestId ++ quote :: ([comma] ++ quote :: (str "tool" ++ quote :: ([colon] ++ x.1)))), x.2) := by
  have start : afterTool name args = quote :: (name ++ quote :: ([comma] ++ quote :: (str "arguments" ++ quote ::
      ([colon] ++ (args ++ [closeBrace]))))) := rfl
  rw [start, cutText_quoted_pass _ noQuoteId noQuote other, cutText_quoted_pass _ (by decide) noQuote noComma,
    cutText_quoted_pass _ (by decide) noQuote noTool, cutText_quoted_pass _ (by decide) noQuote noColon,
    Option.map_map, Option.map_map, Option.map_map]
  rfl

/-- The arguments are looked up where they stand, unless the identifier is taken for their key and the name has
a brace. -/
theorem message_arguments (noQuoteId : quote ∉ requestId) (noQuote : quote ∉ name)
    (clear : requestId = str "arguments" → openBrace ∉ name) (args : Bytes) : ∃ before a,
      cutText (str "\"arguments\"") (toolCallJson requestId name args) = some (before, a ++ (args ++ [closeBrace])) ∧
        ∀ c ∈ a, (c == openBrace) = false := by
  have word : str "\"arguments\"" = quoted (str "arguments") := by decide
  rw [word, cutText_start (by decide) (by decide) (by decide)]
  by_cases taken : requestId = str "arguments"
  · have noBrace := clear taken
    subst taken
    rw [cutText_quoted_hit, Option.map_some]
    refine ⟨_, [comma] ++ quote :: (str "tool" ++ quote :: ([colon] ++ quote :: (name ++ quote :: ([comma] ++
      quote :: (str "arguments" ++ quote :: [colon]))))), congrArg some (Prod.ext rfl ?_), fun c mem => ?_⟩
    · simp only [afterTool, List.append_assoc, List.cons_append, List.nil_append]
    · rw [beq_eq_false_iff_ne]
      rintro rfl
      simp only [List.mem_append, List.mem_cons, List.not_mem_nil, or_false] at mem
      rcases mem with mem | mem | mem | mem | mem | mem | mem | mem | mem | mem | mem | mem | mem
      all_goals first
        | exact noBrace mem
        | exact absurd mem (by decide)
  · rw [cutText_tool (by decide) noQuoteId taken (by decide) (by decide) (by decide), afterTool]
    by_cases same : name = str "arguments"
    · rw [same, cutText_quoted_hit, Option.map_some, Option.map_some]
      refine ⟨_, [comma] ++ quote :: (str "arguments" ++ quote :: [colon]), congrArg some (Prod.ext rfl ?_), by decide⟩
      simp only [List.append_assoc, List.cons_append, List.nil_append]
    · rw [cutText_quoted_pass _ noQuote (by decide) same, cutText_quoted_pass _ (by decide) (by decide) (by decide),
        cutText_quoted_hit]
      exact ⟨_, [colon], rfl, by decide⟩

/-- The arguments of a published call come back whole exactly where they are balanced. -/
theorem message_argumentsFrom (noQuoteId : quote ∉ requestId) (noQuote : quote ∉ name)
    (clear : requestId = str "arguments" → openBrace ∉ name) (object : ObjectText args) :
    ∃ arguments, argumentsFrom (toolCallJson requestId name args) = .ok arguments ∧
      (arguments = args ↔ Balanced args) := by
  obtain ⟨body, rfl⟩ := object.braces
  obtain ⟨before, a, key, noBrace⟩ := message_arguments noQuoteId noQuote clear (openBrace :: (body ++ [closeBrace]))
  have shape : openBrace :: (body ++ [closeBrace]) ++ [closeBrace] =
      openBrace :: body ++ [closeBrace, closeBrace] := by simp
  obtain ⟨i, e⟩ := argumentsFrom_eq key (a := a) (t := body ++ [closeBrace, closeBrace])
    (by rw [shape]; exact cut_append noBrace rfl)
  exact ⟨_, e, taken_iff (b := openBrace :: body) (i := i)⟩

/-- Behind its key stands the name. -/
theorem quotedAfterColon_afterTool (noQuote : quote ∉ name) (args : Bytes) :
    quotedAfterColon ([colon] ++ afterTool name args) = some name := by
  have colon : cut (· == colon) ([colon] ++ afterTool name args) = some ([], colon, afterTool name args) := rfl
  have opening : cut (· == quote) (afterTool name args) = some ([], quote, name ++ quote :: ([comma] ++
      quote :: (str "arguments" ++ quote :: ([Cpp.colon] ++ (args ++ [closeBrace]))))) := rfl
  have inner := cut_append (p := (· == quote)) (c := quote) (r := [comma] ++ quote :: (str "arguments" ++
    quote :: ([Cpp.colon] ++ (args ++ [closeBrace])))) (no_byte noQuote) rfl
  simp only [quotedAfterColon, colon, opening, inner, Option.bind_eq_bind, Option.bind_some]
  rfl

/-- The first `"tool"` leads to the name, be it the key or the identifier. -/
theorem message_tool (noQuoteId : quote ∉ requestId) (noQuote : quote ∉ name) (args : Bytes) : ∃ before after,
    cutText (str "\"tool\"") (toolCallJson requestId name args) = some (before, after) ∧
      quotedAfterColon after = some name := by
  have word : str "\"tool\"" = quoted (str "tool") := by decide
  rw [word, cutText_start (by decide) (by decide) (by decide)]
  by_cases taken : requestId = str "tool"
  · subst taken
    rw [cutText_quoted_hit, Option.map_some]
    refine ⟨_, _, rfl, ?_⟩
    have split : [comma] ++ quote :: (str "tool" ++ quote :: ([colon] ++ afterTool name args)) =
        ([comma] ++ quoted (str "tool")) ++ ([colon] ++ afterTool name args) := by
      simp only [quoted, List.append_assoc, List.cons_append, List.nil_append]
    have skip : quotedAfterColon (([comma] ++ quoted (str "tool")) ++ ([colon] ++ afterTool name args)) =
        quotedAfterColon ([colon] ++ afterTool name args) := by
      unfold quotedAfterColon
      rw [cut_skip (by decide)]
      rfl
    rw [split, skip]
    exact quotedAfterColon_afterTool noQuote args
  · rw [cutText_quoted_pass _ noQuoteId (by decide) taken, cutText_quoted_pass _ (by decide) (by decide) (by decide),
      cutText_quoted_hit]
    exact ⟨_, _, rfl, quotedAfterColon_afterTool noQuote args⟩

/-- Where `"name"` is found, the text quoted after the next colon is the name. -/
def NamedFirst (requestId name args : Bytes) : Prop :=
  ∀ before after, cutText (str "\"name\"") (toolCallJson requestId name args) = some (before, after) →
    quotedAfterColon after = some name

/-- **The repository's reader** gets the published call back exactly where the arguments' braces, those in strings
included, are balanced for the first time at their last byte and no `"name"` leads to another name. -/
theorem parseToolCall_message_iff (noQuoteId : quote ∉ requestId) (noQuote : quote ∉ name)
    (clear : requestId = str "arguments" → openBrace ∉ name) (object : ObjectText args) :
    (∀ m ∈ publishToolCall true requestId name args,
        parseToolCall m.data = .ok (some { name, arguments := args })) ↔
      Balanced args ∧ NamedFirst requestId name args := by
  have sent : (∀ m ∈ publishToolCall true requestId name args,
      parseToolCall m.data = .ok (some { name, arguments := args })) ↔
      parseToolCall (toolCallJson requestId name args) = .ok (some { name, arguments := args }) := by
    rw [publishToolCall, Bool.not_true, if_neg Bool.false_ne_true]
    simp
  rw [sent]
  obtain ⟨arguments, found, whole⟩ := message_argumentsFrom noQuoteId noQuote clear object
  have inverts : ∀ {n : Bytes},
      (Except.ok arguments : Except StdException Bytes).map (fun arguments => some ({ name := n, arguments } : ParsedToolCall)) =
        .ok (some { name, arguments := args }) ↔ n = name ∧ arguments = args := by
    intro n
    simp [Except.map]
  cases e : cutText (str "\"name\"") (toolCallJson requestId name args) with
  | none =>
    -- Without a `"name"` the parser falls back to `"tool"`, which the message has.
    obtain ⟨before, after, tool, reads⟩ := message_tool noQuoteId noQuote args
    rw [parseToolCall_eq (cutText_some tool) (by decide) (by rw [findText_eq, e, findText_eq, tool]; rfl), reads]
    dsimp only
    rw [found, inverts, whole]
    constructor
    · rintro ⟨_, balanced⟩
      refine ⟨balanced, fun before after first => ?_⟩
      rw [e] at first
      cases first
    · rintro ⟨balanced, _⟩
      exact ⟨rfl, balanced⟩
  | some x =>
    obtain ⟨before, after⟩ := x
    -- What stands behind the first `"name"` is taken for the name, wherever that is.
    have first : NamedFirst requestId name args ↔ quotedAfterColon after = some name := by
      constructor
      · exact fun h => h before after e
      · intro h before' after' first
        rw [e] at first
        cases first
        exact h
    rw [parseToolCall_eq (cutText_some e) (by decide) (by rw [findText_eq, e]; rfl), first]
    cases quotedAfterColon after with
    | none => simp
    | some n =>
      dsimp only
      rw [found, inverts, whole, Option.some.injEq]
      exact and_comm

theorem parseToolCall_message_search :
    (∀ m ∈ publishToolCall true (str "r1") (str "memory_search") (str "\x7b\"query\": \"x\"\x7d"),
        parseToolCall m.data =
          .ok (some { name := str "memory_search", arguments := str "\x7b\"query\": \"x\"\x7d" })) ↔
      Balanced (str "\x7b\"query\": \"x\"\x7d") ∧
        NamedFirst (str "r1") (str "memory_search") (str "\x7b\"query\": \"x\"\x7d") :=
  parseToolCall_message_iff (by decide) (by decide) (by decide) objectText_query

end JsonParser

end ModelRuntime
