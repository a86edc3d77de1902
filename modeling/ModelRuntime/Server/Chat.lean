import ModelRuntime.Server.FlatObject
import ModelRuntime.Server.Handlers

/-!
# Chat messages

`handle_chat_completions` reads the members that `handle_completions` reads, and no `messages`. The
reader meets the array as the start of a value and, inside it, members called `role` and `content`:
none of them is the prompt, which is the member of that name beside the messages or empty.
-/

namespace ModelRuntime
open Cpp Lib Lib.Json

/-! ## The body of a chat request -/

/-- The blanks at the tokens of a member. -/
structure Gaps where
  beforeKey : Bytes := []
  afterKey : Bytes := []
  afterColon : Bytes := []
  afterValue : Bytes := []
  blank : ∀ c ∈ beforeKey ++ afterKey ++ afterColon ++ afterValue, isWs c = true := by
    first | exact no_blanks | decide

/-- A member with a string or a literal, and any blanks. -/
structure ChatMember where
  key : Bytes
  value : FlatValue
  gaps : Gaps := {}
  free : EscapeFree key

namespace ChatMember

def text (m : ChatMember) : Bytes :=
  m.gaps.beforeKey ++ quote :: (m.key ++ quote :: (m.gaps.afterKey ++ colon :: (m.gaps.afterColon ++
    (m.value.text ++ m.gaps.afterValue))))

/-- What the reader sees of it: a literal and the blanks after it are one value. -/
def entry (m : ChatMember) : Bytes × Bytes :=
  (m.key, match m.value with
    | .string s _ => s
    | .literal t _ _ _ => t ++ m.gaps.afterValue)

end ChatMember

/-- An element of `messages`. -/
structure ChatMessage where
  role : Bytes
  content : Bytes
  roleFree : EscapeFree role
  contentFree : EscapeFree content
  roleGaps : Gaps := {}
  contentGaps : Gaps := {}
  before : Bytes := []
  after : Bytes := []
  blank : ∀ c ∈ before ++ after, isWs c = true := by decide

namespace ChatMessage

variable (m : ChatMessage)

def roleMember : ChatMember where
  key := str "role"
  value := .string m.role m.roleFree
  gaps := m.roleGaps
  free := by decide

def contentMember : ChatMember where
  key := str "content"
  value := .string m.content m.contentFree
  gaps := m.contentGaps
  free := by decide

def text : Bytes :=
  m.before ++ openBrace :: (m.roleMember.text ++ comma :: (m.contentMember.text ++ closeBrace :: m.after))

end ChatMessage

/-- The body of a chat request: an object with `messages`, at least one, between other members. -/
structure ChatBody where
  front : List ChatMember
  gaps : Gaps := {}
  first : ChatMessage
  others : List ChatMessage
  back : List ChatMember
  before : Bytes := []
  after : Bytes := []
  blank : ∀ c ∈ before ++ after, isWs c = true := by decide

namespace ChatBody

variable (b : ChatBody)

/-- The member `messages`, up to the end of its first message. -/
def messagesStart : Bytes :=
  b.gaps.beforeKey ++ quote :: (str "messages" ++ quote :: (b.gaps.afterKey ++ colon ::
    (b.gaps.afterColon ++ 91 :: b.first.text)))

def text : Bytes :=
  b.before ++ openBrace :: (b.front.flatMap (·.text ++ [comma]) ++ (b.messagesStart ++
    (b.others.flatMap (comma :: ·.text) ++ 93 :: (b.gaps.afterValue ++
      (b.back.flatMap (comma :: ·.text) ++ closeBrace :: b.after)))))

/-- The texts of the messages. -/
def contents : List Bytes := (b.first :: b.others).map ChatMessage.content

/-- What the body says under `key` beside its messages. -/
def field (key : Bytes) : Option Bytes := lastValue ((b.front ++ b.back).map ChatMember.entry) key

end ChatBody

/-! ## Reading it -/

theorem Gaps.parts (g : Gaps) : (∀ c ∈ g.beforeKey, isWs c = true) ∧ (∀ c ∈ g.afterKey, isWs c = true) ∧
    (∀ c ∈ g.afterColon, isWs c = true) ∧ ∀ c ∈ g.afterValue, isWs c = true := by
  refine ⟨?_, ?_, ?_, ?_⟩ <;> intro c hc <;> apply g.blank <;> simp [hc]

namespace ChatMember

variable (m : ChatMember) {sep : UInt8}

/-- The value of a member, its separator next. -/
theorem scanValue_text (hsep : sep ∈ commaBrace) (rest : Bytes) : ∃ c r left,
    m.value.text ++ (m.gaps.afterValue ++ sep :: rest) = c :: r ∧ c ∉ blanks ∧
      scanValue (c :: r) = some (m.entry.2, left) ∧
      ∃ passed, quote ∉ passed ∧ skipComma left = passed ++ rest := by
  have after := m.gaps.parts.2.2.2
  rw [entry]
  cases m.value with
  | string s free =>
    refine ⟨quote, s ++ quote :: (m.gaps.afterValue ++ sep :: rest), m.gaps.afterValue ++ sep :: rest,
      ?_, by decide, scanValue_string free.1, skipComma_gap after (quote_not_separator hsep) rest⟩
    simp [FlatValue.text]
  | literal t v isText lit =>
    obtain ⟨some, bare⟩ := ofText_literal isText lit
    obtain ⟨c, t, rfl⟩ := List.exists_cons_of_ne_nil some
    obtain ⟨hq, _, hb⟩ := bare_plain (bare c (by simp))
    have plain : ∀ x ∈ c :: (t ++ m.gaps.afterValue), x ∉ commaBrace := by
      intro x mem
      rw [← List.cons_append, List.mem_append] at mem
      rcases mem with mem | mem
      · exact (bare_plain (bare x mem)).2.1
      · exact no_separator after x mem
    refine ⟨c, (t ++ m.gaps.afterValue) ++ sep :: rest, sep :: rest, ?_, hb,
      scanValue_other hq plain hsep, ?_⟩
    · simp [FlatValue.text]
    · exact skipComma_gap (fun _ h => absurd h List.not_mem_nil) (quote_not_separator hsep) rest

/-- The reader takes a member off the text. -/
theorem members_text (hsep : sep ∈ commaBrace) (rest : Bytes) :
    members (m.text ++ sep :: rest) = m.entry :: members rest := by
  obtain ⟨before, gap, ws, _⟩ := m.gaps.parts
  obtain ⟨c, r, left, split, hc, scan, tail⟩ := m.scanValue_text hsep rest
  have shape : m.text ++ sep :: rest = m.gaps.beforeKey ++
      quote :: (m.key ++ quote :: (m.gaps.afterKey ++ colon :: (m.gaps.afterColon ++ c :: r))) := by
    rw [← split]
    simp [text]
  rw [shape]
  exact members_keyed (no_structure before).1 m.free.1 (no_structure gap).2
    (fun x hx => (isWs_iff_blanks x).1 (ws x hx)) hc scan tail

end ChatMember

namespace ChatMessage

variable (m : ChatMessage)

theorem parts : (∀ c ∈ m.before, isWs c = true) ∧ ∀ c ∈ m.after, isWs c = true := by
  refine ⟨?_, ?_⟩ <;> intro c hc <;> apply m.blank <;> simp [hc]

/-- A message that is met between two members gives two. -/
theorem members_text (rest : Bytes) :
    members (comma :: m.text ++ rest) =
      (str "role", m.role) :: (str "content", m.content) :: members rest := by
  obtain ⟨before, after⟩ := m.parts
  have fixed : quote ≠ comma ∧ quote ≠ openBrace := by decide
  have opening : quote ∉ comma :: (m.before ++ [openBrace]) := by
    simp [(no_structure before).1, fixed]
  have shape : comma :: m.text ++ rest = (comma :: (m.before ++ [openBrace])) ++
      (m.roleMember.text ++ comma :: (m.contentMember.text ++ closeBrace :: (m.after ++ rest))) := by
    simp [text]
  rw [shape, members_junk opening, m.roleMember.members_text (by decide),
    m.contentMember.members_text (by decide), members_junk (no_structure after).1]
  rfl

theorem members_others (ms : List ChatMessage) (rest : Bytes) :
    members (ms.flatMap (comma :: ·.text) ++ rest) =
      ms.flatMap (fun m => [(str "role", m.role), (str "content", m.content)]) ++ members rest := by
  induction ms with
  | nil => rfl
  | cons m ms ih =>
    rw [List.flatMap_cons, List.append_assoc, members_text, ih]
    rfl

/-- Behind the quote that ends the role, its own member cut short, the reader takes what stands
between two strings for a key. -/
theorem members_afterRole (rest : Bytes) :
    members (quote :: (m.roleGaps.afterValue ++ comma :: (m.contentMember.text ++ closeBrace :: rest))) =
      (m.roleGaps.afterValue ++ comma :: m.contentGaps.beforeKey, m.content) :: members rest := by
  obtain ⟨before, gap, ws, after⟩ := m.contentGaps.parts
  have fixed : quote ≠ comma := by decide
  have key : quote ∉ m.roleGaps.afterValue ++ comma :: m.contentGaps.beforeKey := by
    simp [(no_structure m.roleGaps.parts.2.2.2).1, (no_structure before).1, fixed]
  have noColon : colon ∉ str "content" ++ quote :: m.contentGaps.afterKey := by
    have name : colon ∉ str "content" ∧ colon ≠ quote := by decide
    simp [name, (no_structure gap).2]
  have shape : quote :: (m.roleGaps.afterValue ++ comma :: (m.contentMember.text ++ closeBrace :: rest)) =
      [] ++ quote :: ((m.roleGaps.afterValue ++ comma :: m.contentGaps.beforeKey) ++ quote ::
        ((str "content" ++ quote :: m.contentGaps.afterKey) ++ colon :: (m.contentGaps.afterColon ++
          quote :: (m.content ++ quote :: (m.contentGaps.afterValue ++ closeBrace :: rest))))) := by
    simp [ChatMember.text, contentMember, FlatValue.text]
  rw [shape]
  exact members_keyed List.not_mem_nil key noColon (fun x hx => (isWs_iff_blanks x).1 (ws x hx))
    (by decide) (scanValue_string m.contentFree.1) (skipComma_gap after (by decide) rest)

end ChatMessage

/-- The array up to the role of its first message. -/
def ChatMessage.opening (m : ChatMessage) : Bytes :=
  m.before ++ openBrace :: (m.roleGaps.beforeKey ++ quote :: (str "role" ++ quote ::
    (m.roleGaps.afterKey ++ colon :: (m.roleGaps.afterColon ++ [quote]))))

theorem ChatMessage.opening_plain (m : ChatMessage) : ∀ c ∈ 91 :: m.opening, c ∉ commaBrace := by
  obtain ⟨key, gap, ws, _⟩ := m.roleGaps.parts
  have name : ∀ c ∈ str "role", c ∉ commaBrace := by decide
  simp only [opening, List.forall_mem_cons, List.forall_mem_append]
  refine ⟨by decide, no_separator m.parts.1, by decide, no_separator key, by decide, name, by decide,
    no_separator gap, by decide, no_separator ws, by decide, ?_⟩
  simp

/-- The array behind its bracket, with the text `rest` after its first message. -/
def ChatMessage.arrayText (m : ChatMessage) (rest : Bytes) : Bytes :=
  m.opening ++ (m.role ++ quote :: (m.roleGaps.afterValue ++ comma ::
    (m.contentMember.text ++ closeBrace :: (m.after ++ rest))))

/-- The array is taken for a value that ends at the first separator from the role on. -/
theorem ChatMessage.scan_opening (m : ChatMessage) {x y : Bytes} {sep : UInt8}
    (plain : ∀ c ∈ x, c ∉ commaBrace) (hsep : sep ∈ commaBrace) :
    scanValue (91 :: (m.opening ++ (x ++ sep :: y))) = some (91 :: (m.opening ++ x), sep :: y) := by
  have whole : ∀ c ∈ 91 :: (m.opening ++ x), c ∉ commaBrace := by
    intro c mem
    rw [← List.cons_append, List.mem_append] at mem
    rcases mem with mem | mem
    · exact m.opening_plain c mem
    · exact plain c mem
  rw [← List.append_assoc]
  exact scanValue_other (by decide) whole hsep

/-- The reader goes on behind the value. -/
theorem ChatBody.members_array (b : ChatBody) {found left rest rest' : Bytes}
    (scan : scanValue (91 :: b.first.arrayText rest) = some (found, left))
    (tail : ∃ passed, quote ∉ passed ∧ skipComma left = passed ++ rest') :
    members (b.messagesStart ++ rest) = (str "messages", found) :: members rest' := by
  obtain ⟨before, gap, ws, _⟩ := b.gaps.parts
  have shape : b.messagesStart ++ rest = b.gaps.beforeKey ++ quote :: (str "messages" ++ quote ::
      (b.gaps.afterKey ++ colon :: (b.gaps.afterColon ++ 91 :: b.first.arrayText rest))) := by
    simp [messagesStart, ChatMessage.text, ChatMessage.roleMember, ChatMember.text, FlatValue.text,
      ChatMessage.arrayText, ChatMessage.opening]
  rw [shape]
  exact members_keyed (no_structure before).1 (by decide) (no_structure gap).2
    (fun x hx => (isWs_iff_blanks x).1 (ws x hx)) (by decide) scan tail

/-- What the reader finds in place of the members of the first message has other keys than the
handler's. -/
theorem ChatBody.members_messages (b : ChatBody) (rest : Bytes) : ∃ value key,
    members (b.messagesStart ++ rest) =
        (str "messages", value) :: (key, b.first.content) :: members rest ∧
      (key = str "content" ∨ comma ∈ key) := by
  have after : members (b.first.after ++ rest) = members rest :=
    members_junk (no_structure b.first.parts.2).1
  cases e : cut (commaBrace.contains ·) b.first.role with
  | none =>
    -- the value ends at the comma behind the role
    have plain : ∀ c ∈ b.first.role ++ quote :: b.first.roleGaps.afterValue, c ∉ commaBrace := by
      have role : ∀ c ∈ b.first.role, c ∉ commaBrace := by simpa using cut_eq_none_iff.1 e
      rw [List.forall_mem_append, List.forall_mem_cons]
      exact ⟨role, by decide, no_separator b.first.roleGaps.parts.2.2.2⟩
    have shape : b.first.arrayText rest = b.first.opening ++
        ((b.first.role ++ quote :: b.first.roleGaps.afterValue) ++ comma ::
          (b.first.contentMember.text ++ closeBrace :: (b.first.after ++ rest))) := by
      simp [ChatMessage.arrayText]
    have scan := @ChatMessage.scan_opening b.first _ (b.first.contentMember.text ++ closeBrace ::
      (b.first.after ++ rest)) comma plain (by decide)
    rw [← shape] at scan
    have whole := b.members_array scan (@skipComma_gap [] comma (by simp) (by decide) _)
    rw [b.first.contentMember.members_text (by decide), after] at whole
    exact ⟨_, _, whole, .inl rfl⟩
  | some x =>
    -- the value ends inside the role, whose closing quote then opens a key
    obtain ⟨a, sep, u⟩ := x
    obtain ⟨role, front, hit⟩ := cut_eq_some_iff.1 e
    have shape : b.first.arrayText rest = b.first.opening ++ (a ++ sep :: (u ++ quote ::
        (b.first.roleGaps.afterValue ++ comma ::
          (b.first.contentMember.text ++ closeBrace :: (b.first.after ++ rest))))) := by
      simp [ChatMessage.arrayText, role]
    have noQuote : quote ∉ sep :: u := by
      have free := b.first.roleFree.1
      rw [role, List.mem_append, not_or] at free
      exact free.2
    have scan := @ChatMessage.scan_opening b.first a (u ++ quote :: (b.first.roleGaps.afterValue ++
      comma :: (b.first.contentMember.text ++ closeBrace :: (b.first.after ++ rest)))) sep
      (by simpa using front) (by simpa using hit)
    rw [← shape] at scan
    have whole := b.members_array scan (@skipComma_append _ (sep :: u) (by simp) noQuote)
    rw [b.first.members_afterRole, after] at whole
    exact ⟨_, _, whole, .inr (by simp)⟩

/-! ## The call -/

/-- `parts` stand in `text` one behind the other. -/
def InOrder : List Bytes → Bytes → Prop
  | [], _ => True
  | part :: parts, text => ∃ before after, text = before ++ (part ++ after) ∧ InOrder parts after

/-- Nothing but empty parts stands in the empty text. -/
theorem inOrder_nil {parts : List Bytes} : InOrder parts [] ↔ ∀ part ∈ parts, part = [] := by
  induction parts with
  | nil => simp [InOrder]
  | cons part parts ih =>
    rw [InOrder, List.forall_mem_cons, ← ih]
    constructor
    · rintro ⟨before, after, split, rest⟩
      obtain ⟨_, empty, rfl⟩ : before = [] ∧ part = [] ∧ after = [] := by simpa using split.symm
      exact ⟨empty, rest⟩
    · rintro ⟨rfl, rest⟩
      exact ⟨[], [], rfl, rest⟩

namespace ChatBody

variable (b : ChatBody)

/-- The keys the reader finds in the messages. -/
theorem members_text : ∃ mid, members b.text =
      b.front.map ChatMember.entry ++ (mid ++ b.back.map ChatMember.entry) ∧
    ∀ x ∈ mid, x.1 ∈ [str "messages", str "role", str "content"] ∨ comma ∈ x.1 := by
  have blank : (∀ c ∈ b.before, isWs c = true) ∧ ∀ c ∈ b.after, isWs c = true := by
    constructor <;> intro c hc <;> apply b.blank <;> simp [hc]
  have fixed : quote ≠ openBrace ∧ quote ≠ 93 := by decide
  have start : quote ∉ b.before ++ [openBrace] := by simp [(no_structure blank.1).1, fixed]
  have stop : quote ∉ 93 :: b.gaps.afterValue := by
    simp [(no_structure b.gaps.parts.2.2.2).1, fixed]
  obtain ⟨sep, tail, split, hsep, found⟩ := members_trailing
    (fun (m : ChatMember) _ hsep rest => m.members_text hsep rest) b.back b.after
  obtain ⟨value, key, array, hkey⟩ := b.members_messages
    (b.others.flatMap (comma :: ·.text) ++ 93 :: (b.gaps.afterValue ++ sep :: tail))
  have separator : members (sep :: tail) = members tail := by
    have none : quote ∉ [sep] := by simpa using (quote_not_separator hsep).symm
    exact members_junk none
  have rest : members (93 :: (b.gaps.afterValue ++ sep :: tail)) = b.back.map ChatMember.entry := by
    rw [← List.cons_append, members_junk stop, separator, found, members_no_quote (no_structure blank.2).1,
      List.append_nil]
  have shape : b.text = (b.before ++ [openBrace]) ++ (b.front.flatMap (·.text ++ [comma]) ++
      (b.messagesStart ++ (b.others.flatMap (comma :: ·.text) ++
        93 :: (b.gaps.afterValue ++ sep :: tail)))) := by
    rw [← split]
    simp [text]
  refine ⟨(str "messages", value) :: (key, b.first.content) ::
    b.others.flatMap (fun m => [(str "role", m.role), (str "content", m.content)]), ?_, ?_⟩
  · rw [shape, members_junk start,
      members_leading (fun (m : ChatMember) _ hsep rest => m.members_text hsep rest), array,
      ChatMessage.members_others, rest]
    rfl
  · intro x mem
    rw [List.mem_cons, List.mem_cons, List.mem_flatMap] at mem
    rcases mem with rfl | rfl | ⟨m, _, mem⟩
    · exact .inl (by simp)
    · exact hkey.imp (fun same => by simp [same]) id
    · rcases List.mem_cons.1 mem with rfl | mem
      · exact .inl (by simp)
      · rw [List.mem_singleton.1 mem]
        exact .inl (by simp)

/-- The parameters of the handler are what the body says beside its messages. -/
theorem lookup_text : ∃ params, parseJson b.text = .ok params ∧
    ∀ key ∈ [str "model", str "prompt", str "max_tokens", str "temperature"],
      params.lookup key = b.field key := by
  obtain ⟨params, parsed, found⟩ := parseJson_lookup b.text
  obtain ⟨mid, members, keys⟩ := b.members_text
  refine ⟨params, parsed, fun key mem => ?_⟩
  have other : key ∉ [str "messages", str "role", str "content"] ∧ comma ∉ key := by
    revert key
    decide
  rw [found, members, field, List.map_append]
  apply lastValue_skip
  rintro x hx rfl
  exact (keys x hx).elim other.1 other.2

end ChatBody

/-- **The prompt of a chat request** that leads to a call contains the texts of the messages in order
exactly where the member `prompt` beside the messages does, and is empty where there is none; a call
is made where the numbers are read. -/
theorem chat_prompt_iff (env : ServerEnv) (b : ChatBody) {request : HttpRequest}
    (body : request.body = b.text) :
    (∃ call, (handleChatCompletions env request).2 = [call] ∧ InOrder b.contents call.prompt) ↔
      InOrder b.contents ((b.field (str "prompt")).getD []) ∧
        (∀ text ∈ b.field (str "max_tokens"), ∃ n, stoi text = .ok n) ∧
        ∀ text ∈ b.field (str "temperature"), ∃ x, env.stof text = .ok x := by
  obtain ⟨params, parsed, found⟩ := b.lookup_text
  have model := found (str "model") (by simp)
  have prompt := found (str "prompt") (by simp)
  have maxTokens := found (str "max_tokens") (by simp)
  have temperature := found (str "temperature") (by simp)
  simp only [handleChatCompletions, complete_call_iff, body, readCall, parsed, bind, Except.bind, model,
    prompt, maxTokens, temperature]
  cases b.field (str "max_tokens") with
  | none =>
    cases b.field (str "temperature") with
    | none => simp [pure, Except.pure]
    | some t =>
      cases ht : env.stof t with
      | error e => simp [pure, Except.pure, ht]
      | ok x => simp [pure, Except.pure, ht]
  | some n =>
    cases hn : stoi n with
    | error e => simp [hn]
    | ok k =>
      cases b.field (str "temperature") with
      | none => simp [pure, Except.pure, hn]
      | some t =>
        cases ht : env.stof t with
        | error e => simp [ht, hn]
        | ok x => simp [pure, Except.pure, ht, hn]

/-- The documented form: a model, the messages, a number of tokens and what follows. -/
structure ChatBody.Documented (b : ChatBody) : Prop where
  model : ∃ m, b.front = [m] ∧ m.key = str "model" ∧ ∃ name free, m.value = .string name free
  maxTokens : ∃ m more, b.back = m :: more ∧ m.key = str "max_tokens" ∧ ∃ k, m.value.text = decimalInt k

theorem modelKey_free : EscapeFree (str "model") := by decide

theorem maxTokensKey_free : EscapeFree (str "max_tokens") := by decide

/-- The example of the README. -/
def readmeBody : ChatBody where
  front :=
    [{ key := str "model", value := .string (str "sovalune-model") (by decide), free := modelKey_free,
       gaps := { beforeKey := str "\n    ", afterColon := [32] } }]
  gaps := { beforeKey := str "\n    ", afterColon := [32] }
  first :=
    { role := str "user", content := str "Hello!", roleFree := by decide, contentFree := by decide,
      roleGaps := { afterColon := [32] }, contentGaps := { beforeKey := [32], afterColon := [32] } }
  others := []
  back :=
    [{ key := str "max_tokens", free := maxTokensKey_free,
       value := .literal (str "100") (.number (str "100")) rfl trivial,
       gaps := { beforeKey := str "\n    ", afterColon := [32] } },
     { key := str "temperature", free := by decide,
       value := .literal (str "0.7") (.number (str "0.7")) rfl trivial,
       gaps := { beforeKey := str "\n    ", afterColon := [32], afterValue := str "\n  " } }]

example : readmeBody.text = str ("\x7b\n    \"model\": \"sovalune-model\",\n    " ++
    "\"messages\": [\x7b\"role\": \"user\", \"content\": \"Hello!\"\x7d],\n    " ++
    "\"max_tokens\": 100,\n    \"temperature\": 0.7\n  \x7d") := by
  decide +kernel

/-- A server whose engine repeats the prompt. -/
def echoEnv : ServerEnv where
  generate prompt _ := .ok prompt
  stof _ := .ok (.finite 0.7)

theorem chat_prompt_iff_readme :
    (∃ call, (handleChatCompletions echoEnv { body := readmeBody.text }).2 = [call] ∧
        InOrder readmeBody.contents call.prompt) ↔
      InOrder readmeBody.contents ((readmeBody.field (str "prompt")).getD []) ∧
        (∀ text ∈ readmeBody.field (str "max_tokens"), ∃ n, stoi text = .ok n) ∧
        ∀ text ∈ readmeBody.field (str "temperature"), ∃ x, echoEnv.stof text = .ok x :=
  chat_prompt_iff echoEnv readmeBody rfl

/-- The README's own request reaches the engine with an empty prompt. -/
theorem readme_prompt_empty :
    ¬ ∀ (env : ServerEnv) (b : ChatBody), b.Documented →
      (∀ content ∈ b.contents, ∀ c ∈ content, c ∉ str ",:[]\x7b\x7d") →
      ∀ request : HttpRequest, request.body = b.text →
        ∃ call, (handleChatCompletions env request).2 = [call] ∧ InOrder b.contents call.prompt := by
  intro all
  have documented : readmeBody.Documented := by
    constructor
    · exact ⟨_, rfl, rfl, _, _, rfl⟩
    · exact ⟨_, _, rfl, rfl, 100, by decide⟩
  obtain ⟨call, made, inOrder⟩ := all echoEnv readmeBody documented (by decide) { body := readmeBody.text } rfl
  have empty : (handleChatCompletions echoEnv { body := readmeBody.text }).2 =
      [⟨str "sovalune-model", [], 100, .finite 0.7⟩] := by
    decide +kernel
  rw [empty] at made
  cases made
  have content := inOrder_nil.1 inOrder (str "Hello!") (by decide)
  revert content
  decide

end ModelRuntime
