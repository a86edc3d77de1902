import ModelRuntime.Lib.JsonPath
import ModelRuntime.Lib.Utf8
import ModelRuntime.Server.Handlers

/-!
# The JSON of the responses

The bodies are spliced together with nothing escaped. Each is read member by member up to a spliced
text, which comes back as it was only if it is verbatim; with verbatim texts the whole body is a
known text.
-/

namespace ModelRuntime
open Cpp Lib Lib.Json

/-- A JSON document. -/
def WellFormed (body : Bytes) : Prop := Utf8 body ∧ ∃ v, decode body = some v

/-- Valid UTF-8 without quotes, backslashes and control bytes. -/
def Clean (s : Bytes) : Prop := Utf8 s ∧ Verbatim s

/-- What a handler has once it can answer: the request's parameters and the engine's result. -/
def outcome (env : ServerEnv) (request : HttpRequest) : Except StdException (GenerateCall × Bytes) := do
  let call ← readCall env request.body
  let result ← generateResponse env call
  return (call, result)

theorem complete_body (env : ServerEnv) (render : Int → GenerateCall → Bytes → Bytes)
    (request : HttpRequest) :
    (complete env render request).1.body =
      match outcome env request with
      | .error e => errorBody e
      | .ok (call, result) => render env.time call result := by
  unfold complete outcome
  cases readCall env request.body with
  | error e => rfl
  | ok call =>
    simp only [bind, Except.bind]
    cases generateResponse env call <;> rfl

/-! ## A body with two spliced texts -/

/-- A body that shows the model and, at the path `answer`, the result. -/
structure Shows (render : Int → GenerateCall → Bytes → Bytes) (answer : Json → Option Json) : Prop where
  /-- Around the two texts everything is ASCII. -/
  spliced : ∀ time call result, ∃ pre mid post, Ascii pre ∧ Ascii mid ∧ Ascii post ∧
    render time call result = pre ++ (call.model ++ quote :: (mid ++ (result ++ quote :: post)))
  model : ∀ {time call result v}, decode (render time call result) = some v →
    ∃ tail, Stands (quote :: (call.model ++ quote :: tail)) (member (str "model")) v
  result : ∀ {time call result v}, decode (render time call result) = some v → Verbatim call.model →
    ∃ tail, Stands (quote :: (result ++ quote :: tail)) answer v
  verbatim : ∀ {time call result}, Verbatim call.model → Verbatim result →
    ∃ v, decode (render time call result) = some v ∧ answer v = some (.string result) ∧
      member (str "model") v = some (.string call.model)

variable {render : Int → GenerateCall → Bytes → Bytes} {answer : Json → Option Json}

theorem Shows.utf8_iff (shows : Shows render answer) (time : Int) (call : GenerateCall) (result : Bytes) :
    Utf8 (render time call result) ↔ Utf8 call.model ∧ Utf8 result := by
  obtain ⟨pre, mid, post, hpre, hmid, hpost, split⟩ := shows.spliced time call result
  have ascii : quote < 128 := by decide
  rw [split, utf8_ascii_append hpre, utf8_cut ascii, utf8_ascii_append hmid, utf8_cut ascii]
  constructor
  · rintro ⟨hm, hr, _⟩
    exact ⟨hm, hr⟩
  · rintro ⟨hm, hr⟩
    exact ⟨hm, hr, hpost.utf8⟩

/-- A body shows what was spliced exactly when both texts are clean. -/
theorem Shows.clean_iff (shows : Shows render answer) (time : Int) (call : GenerateCall)
    (result : Bytes) :
    (Utf8 (render time call result) ∧ ∃ v, decode (render time call result) = some v ∧
      answer v = some (.string result) ∧ member (str "model") v = some (.string call.model)) ↔
    Clean call.model ∧ Clean result := by
  rw [shows.utf8_iff]
  constructor
  · rintro ⟨⟨utf8Model, utf8Result⟩, v, read, hresult, hmodel⟩
    obtain ⟨_, standsModel⟩ := shows.model read
    have verbatim := standsModel.verbatim hmodel
    obtain ⟨_, standsResult⟩ := shows.result read verbatim
    exact ⟨⟨utf8Model, verbatim⟩, utf8Result, standsResult.verbatim hresult⟩
  · rintro ⟨⟨utf8Model, hmodel⟩, utf8Result, hresult⟩
    exact ⟨⟨utf8Model, utf8Result⟩, shows.verbatim hmodel hresult⟩

/-! ## The parts of the bodies -/

theorem ascii_decimal (n : Nat) : Ascii (decimal n) := by
  intro c mem
  have digit := decimal_digits n c mem
  simp only [isDigit, Bool.and_eq_true, decide_eq_true_eq] at digit
  exact UInt8.lt_of_le_of_lt digit.2 (by decide)

theorem ascii_decimalInt (n : Int) : Ascii (decimalInt n) := by
  have minus : Ascii [45] := by decide
  unfold decimalInt
  split
  · exact minus.append (ascii_decimal n.natAbs)
  · exact ascii_decimal n.natAbs

theorem ascii_usage (prompt result : Bytes) : Ascii (usageBody prompt result) := by
  unfold usageBody
  repeat' apply Ascii.append
  all_goals first | exact ascii_decimal _ | decide

section Members

variable (time : Int) (call : GenerateCall) (result : Bytes)

/-- The members up to `model`. -/
def headMembers (id object : Bytes) : KnownMembers :=
  [(str "id", quoted id, .string id), (str "object", quoted object, .string object),
   (str "created", decimalInt time, .number (decimalInt time))]

theorem known_head {id object : Bytes} (hid : Verbatim id) (hobject : Verbatim object) :
    Known (headMembers time id object) :=
  .cons (by decide) (reads_string hid) <| .cons (by decide) (reads_string hobject) <|
    .cons (by decide) (reads_decimalInt time) known_nil

/-- The counts of `usage` up to the total. -/
def usageMembers : KnownMembers :=
  [(str "prompt_tokens", decimal (call.prompt.length / 4), .number (decimal (call.prompt.length / 4))),
   (str "completion_tokens", decimal (result.length / 4), .number (decimal (result.length / 4)))]

def usageText : Bytes :=
  objectText (usageMembers call result) (str "total_tokens")
    (decimal ((call.prompt.length + result.length) / 4))

def usageValue : Json :=
  .object (values (usageMembers call result) ++
    [(str "total_tokens", .number (decimal ((call.prompt.length + result.length) / 4)))])

theorem reads_usage : Reads (usageText call result) (usageValue call result) :=
  reads_object (.cons (by decide) (reads_decimal _) <| .cons (by decide) (reads_decimal _) known_nil)
    (by decide) (reads_decimal _)

def modelMember : Bytes × Bytes × Json := (str "model", quoted call.model, .string call.model)

def usageMember : Bytes × Bytes × Json := (str "usage", usageText call result, usageValue call result)

end Members

/-! ## The chat response -/

section Chat

variable (time : Int) (call : GenerateCall) (result : Bytes)

def chatContent (v : Json) : Option Json :=
  (((member (str "choices") v).bind (element 0)).bind (member (str "message"))).bind
    (member (str "content"))

def chatHead : KnownMembers := headMembers time (str "chatcmpl-123") (str "chat.completion")

theorem known_chatHead : Known (chatHead time) := known_head time (by decide) (by decide)

def roleMember : Bytes × Bytes × Json :=
  (str "role", quoted (str "assistant"), .string (str "assistant"))

theorem known_role : Known [roleMember] := .cons (by decide) (reads_string (by decide)) known_nil

/-- The members before `choices`. -/
def chatFront : KnownMembers := chatHead time ++ [modelMember call, usageMember call result]

variable {call} in
theorem known_chatFront (hmodel : Verbatim call.model) : Known (chatFront time call result) :=
  (known_chatHead time).append <|
    .cons (by decide) (reads_string hmodel) <| .cons (by decide) (reads_usage call result) known_nil

def messageText : Bytes := objectText [roleMember] (str "content") (quoted result)

def messageValue : Json := .object (values [roleMember] ++ [(str "content", .string result)])

def chatChoice : KnownMembers :=
  [(str "message", messageText result, messageValue result),
   (str "finish_reason", quoted (str "stop"), .string (str "stop"))]

set_option maxRecDepth 4000 in
theorem chatBody_text : chatBody time call result =
    objectText (chatFront time call result) (str "choices")
      (91 :: (objectText (chatChoice result) (str "index") (decimalInt 0) ++ [93])) := by
  have zero : decimalInt 0 = [48] := by decide
  simp only [chatBody, usageBody, chatFront, chatHead, headMembers, modelMember, usageMember, usageText,
    usageMembers, chatChoice, messageText, roleMember, zero, objectText, frontText, memberText, quoted,
    List.flatMap_cons, List.flatMap_nil, List.append_assoc, List.cons_append, List.nil_append,
    List.append_nil]
  rfl

end Chat

theorem chat_shows : Shows chatBody chatContent where
  spliced := by
    intro time call result
    refine ⟨str "\x7b\"id\": \"chatcmpl-123\",\"object\": \"chat.completion\",\"created\": " ++
        (decimalInt time ++ str ",\"model\": \""),
      str "," ++ (usageBody call.prompt result ++
        str ",\"choices\": [\x7b\"message\": \x7b\"role\": \"assistant\",\"content\": \""),
      str "\x7d,\"finish_reason\": \"stop\",\"index\": 0\x7d]\x7d", ?_, ?_, by decide, ?_⟩
    · exact .append (by decide) (.append (ascii_decimalInt time) (by decide))
    · exact .append (by decide) (.append (ascii_usage call.prompt result) (by decide))
    · simp only [chatBody, List.append_assoc]
      rfl
  model := by
    intro time call result v read
    rw [chatBody_text] at read
    obtain ⟨_, model⟩ := (Stands.document rfl read).inner (known_chatHead time)
      (show Verbatim (str "model") by decide) (fun _ => rfl)
    rw [modelMember, quoted_append] at model
    exact ⟨_, model⟩
  result := by
    intro time call result v read hmodel
    rw [chatBody_text] at read
    have choices := (Stands.document rfl read).last (known_chatFront time result hmodel) (by decide)
      (fun _ => rfl)
    rw [List.cons_append, List.append_assoc] at choices
    have choice := choices.first (fun _ => rfl) (fun _ _ h => by cases h)
    obtain ⟨_, message⟩ := choice.inner known_nil (show Verbatim (str "message") by decide)
      (fun _ => rfl)
    have content := message.last known_role (by decide) (fun _ => rfl)
    rw [quoted_append] at content
    exact ⟨_, content⟩
  verbatim := by
    intro time call result hmodel hresult
    have message : Reads (messageText result) (messageValue result) :=
      reads_object known_role (by decide) (reads_string hresult)
    have choice := reads_object
      (show Known (chatChoice result) from
        .cons (by decide) message <| .cons (by decide) (reads_string (by decide)) known_nil)
      (show Verbatim (str "index") by decide) (reads_decimalInt 0)
    have body := reads_object (known_chatFront time result hmodel)
      (show Verbatim (str "choices") by decide) (reads_array choice)
    rw [← chatBody_text] at body
    exact ⟨_, body.decode, rfl, rfl⟩

/-! ## The completion response -/

section Completion

variable (time : Int) (call : GenerateCall) (result : Bytes)

def completionText (v : Json) : Option Json :=
  ((member (str "choices") v).bind (element 0)).bind (member (str "text"))

def completionHead : KnownMembers := headMembers time (str "cmpl-123") (str "text_completion")

theorem known_completionHead : Known (completionHead time) := known_head time (by decide) (by decide)

/-- The members before `choices`. -/
def completionFront : KnownMembers := completionHead time ++ [modelMember call]

variable {call} in
theorem known_completionFront (hmodel : Verbatim call.model) : Known (completionFront time call) :=
  (known_completionHead time).append (.cons (by decide) (reads_string hmodel) known_nil)

def completionChoice : KnownMembers :=
  [(str "text", quoted result, .string result),
   (str "index", decimalInt 0, .number (decimalInt 0)), (str "logprobs", str "null", .null)]

def choicesMember : Bytes × Bytes × Json :=
  (str "choices",
    91 :: (objectText (completionChoice result) (str "finish_reason") (quoted (str "stop")) ++ [93]),
    .array [.object (values (completionChoice result) ++
      [(str "finish_reason", .string (str "stop"))])])

set_option maxRecDepth 4000 in
theorem completionBody_text : completionBody time call result =
    objectText (completionFront time call ++ [choicesMember result]) (str "usage")
      (usageText call result) := by
  have zero : decimalInt 0 = [48] := by decide
  simp only [completionBody, usageBody, completionFront, completionHead, headMembers, modelMember, choicesMember,
    completionChoice, usageText, usageMembers, zero, objectText, frontText, memberText, quoted,
    List.flatMap_cons, List.flatMap_nil, List.append_assoc, List.cons_append, List.nil_append,
    List.append_nil]
  rfl

end Completion

theorem completion_shows : Shows completionBody completionText where
  spliced := by
    intro time call result
    refine ⟨str "\x7b\"id\": \"cmpl-123\",\"object\": \"text_completion\",\"created\": " ++
        (decimalInt time ++ str ",\"model\": \""),
      str ",\"choices\": [\x7b\"text\": \"",
      str ",\"index\": 0,\"logprobs\": null,\"finish_reason\": \"stop\"\x7d]," ++
        (usageBody call.prompt result ++ str "\x7d"), ?_, by decide, ?_, ?_⟩
    · exact .append (by decide) (.append (ascii_decimalInt time) (by decide))
    · exact .append (by decide) (.append (ascii_usage call.prompt result) (by decide))
    · simp only [completionBody, List.append_assoc]
      rfl
  model := by
    intro time call result v read
    rw [completionBody_text, completionFront, List.append_assoc] at read
    obtain ⟨_, model⟩ := (Stands.document rfl read).inner (known_completionHead time)
      (show Verbatim (str "model") by decide) (fun _ => rfl)
    rw [modelMember, quoted_append] at model
    exact ⟨_, model⟩
  result := by
    intro time call result v read hmodel
    rw [completionBody_text] at read
    obtain ⟨_, choices⟩ := (Stands.document rfl read).inner (known_completionFront time hmodel)
      (show Verbatim (str "choices") by decide) (fun _ => rfl)
    rw [choicesMember, List.cons_append, List.append_assoc] at choices
    have choice := choices.first (fun _ => rfl) (fun _ _ h => by cases h)
    obtain ⟨_, text⟩ := choice.inner known_nil (show Verbatim (str "text") by decide) (fun _ => rfl)
    rw [quoted_append] at text
    exact ⟨_, text⟩
  verbatim := by
    intro time call result hmodel hresult
    have parts : Known (completionChoice result) :=
      .cons (by decide) (reads_string hresult) <| .cons (by decide) (reads_decimalInt 0) <|
        .cons (by decide) reads_null known_nil
    have choice := reads_object parts (show Verbatim (str "finish_reason") by decide)
      (reads_string (show Verbatim (str "stop") by decide))
    have known : Known (completionFront time call ++ [choicesMember result]) :=
      (known_completionFront time hmodel).append (.cons (by decide) (reads_array choice) known_nil)
    have body := reads_object known (show Verbatim (str "usage") by decide) (reads_usage call result)
    rw [← completionBody_text] at body
    exact ⟨_, body.decode, rfl, rfl⟩

/-! ## The responses -/

theorem errorBody_text (e : StdException) :
    errorBody e = openBrace :: memberText (str "error") (quote :: (e.what ++ [quote, closeBrace])) := by
  unfold errorBody memberText
  rw [List.append_assoc]
  rfl

theorem errorBody_wellFormed_iff (e : StdException) :
    WellFormed (errorBody e) ↔ Utf8 e.what ∧ (Inside e.what ∨ GoesOn e.what) := by
  have start : Ascii (str "\x7b\"error\": \"") := by decide
  have ending : Utf8 [closeBrace] := utf8_ascii (by decide)
  have split : errorBody e = str "\x7b\"error\": \"" ++ (e.what ++ quote :: [closeBrace]) := by
    unfold errorBody
    rw [List.append_assoc]
    rfl
  have utf8 : Utf8 (errorBody e) ↔ Utf8 e.what := by
    rw [split, utf8_ascii_append start, utf8_cut (by decide)]
    exact ⟨fun h => h.1, fun h => ⟨h, ending⟩⟩
  rw [WellFormed, utf8, errorBody_text, spliced_iff (by decide)]

/-- What is asked of the body of a response: to be JSON, and after a success to hold the result at
the path `answer` and the model. -/
def Carries (answer : Json → Option Json) (outcome : Except StdException (GenerateCall × Bytes))
    (body : Bytes) : Prop :=
  match outcome with
  | .error _ => WellFormed body
  | .ok (call, result) => WellFormed body ∧ ∃ v, decode body = some v ∧
      answer v = some (.string result) ∧ member (str "model") v = some (.string call.model)

/-- The texts that are spliced need no escaping. -/
def NeedsNoEscape : Except StdException (GenerateCall × Bytes) → Prop
  | .error e => Utf8 e.what ∧ (Inside e.what ∨ GoesOn e.what)
  | .ok (call, result) => Clean call.model ∧ Clean result

theorem Shows.carries_iff (shows : Shows render answer) (env : ServerEnv) (request : HttpRequest) :
    Carries answer (outcome env request) (complete env render request).1.body ↔
      NeedsNoEscape (outcome env request) := by
  rw [complete_body]
  cases outcome env request with
  | error e => exact errorBody_wellFormed_iff e
  | ok x =>
    obtain ⟨call, result⟩ := x
    refine Iff.trans ?_ (shows.clean_iff env.time call result)
    constructor
    · rintro ⟨⟨utf8, _⟩, v, read, found⟩
      exact ⟨utf8, v, read, found⟩
    · rintro ⟨utf8, v, read, found⟩
      exact ⟨⟨utf8, v, read⟩, v, read, found⟩

/-- **The responses** are JSON that carries the output exactly when nothing in it needs escaping. -/
theorem responses_carry_iff (env : ServerEnv) (request : HttpRequest) :
    (Carries chatContent (outcome env request) (handleChatCompletions env request).1.body ↔
      NeedsNoEscape (outcome env request)) ∧
    (Carries completionText (outcome env request) (handleCompletions env request).1.body ↔
      NeedsNoEscape (outcome env request)) :=
  ⟨chat_shows.carries_iff env request, completion_shows.carries_iff env request⟩

/-- A result of two lines is not carried. -/
theorem responses_two_lines :
    ¬ ∀ (env : ServerEnv) (request : HttpRequest),
      Carries chatContent (outcome env request) (handleChatCompletions env request).1.body ∧
      Carries completionText (outcome env request) (handleCompletions env request).1.body := by
  intro all
  let env : ServerEnv :=
    { generate := fun _ _ => .ok (str "a\nb"), stof := fun _ => .ok (.finite 1) }
  let request : HttpRequest :=
    { method := str "POST", path := str "/v1/completions", body := str "\x7b\"prompt\":\"hi\"\x7d",
      headers := ∅ }
  have answered : outcome env request =
      .ok (⟨str "sovalune-model", str "hi", 1024, .finite 0.7⟩, str "a\nb") := by
    decide +kernel
  have clean := (chat_shows.carries_iff env request).1 (all env request).1
  rw [answered] at clean
  exact absurd clean.2.2 (by decide)

end ModelRuntime
