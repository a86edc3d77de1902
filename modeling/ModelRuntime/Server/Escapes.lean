import ModelRuntime.Lib.JsonString
import ModelRuntime.Server.Completion

/-!
# Escapes in a prompt

The reader takes a string up to its next quote byte and undoes no escape. What a literal with an
escape then comes to is settled by its first quote byte: where it ends the literal, the prompt is
longer than the string that was meant; where it is escaped, the prompt is a text without quotes,
and the string that was meant has one.
-/

namespace ModelRuntime
open Cpp Lib Lib.Json

/-- What follows the prompt's literal in the request. -/
def afterPrompt : Bytes := str ", \"max_tokens\": 5\x7d"

/-- The request whose prompt is the literal `raw`, closing quote included. -/
def promptRequest (raw : Bytes) : Bytes := str "\x7b\"prompt\": \"" ++ (raw ++ afterPrompt)

/-- The request is understood as one for the prompt `s`. -/
structure Understood (raw s : Bytes) : Prop where
  params : ∃ params, parseJson (promptRequest raw) = .ok params ∧
    params.lookup (str "prompt") = some s ∧ params.lookup (str "max_tokens") = some (str "5")
  calls : ∀ env request, request.body = promptRequest raw →
    (handleCompletions env request).2 = [⟨str "sovalune-model", s, 5, .finite 0.7⟩]

section Reader

variable {a r : Bytes}

/-- The reader's first member: the prompt up to the next quote. -/
theorem members_prompt (none : quote ∉ a) :
    members (str "\x7b\"prompt\": \"" ++ (a ++ quote :: r)) =
      (str "prompt", a) :: members (skipComma r) := by
  have shape : str "\x7b\"prompt\": \"" ++ (a ++ quote :: r) =
      [openBrace] ++ quote :: (str "prompt" ++ quote :: ([] ++ colon :: ([32] ++
        quote :: (a ++ quote :: r)))) := rfl
  rw [shape]
  exact members_keyed (by decide) (by decide) (by decide) (by decide) (by decide) (scanValue_string none)
    ⟨[], by simp, rfl⟩

theorem members_afterPrompt : members (skipComma afterPrompt) = [(str "max_tokens", str "5")] := by
  have found : scanMember (skipComma afterPrompt) =
      some (str "max_tokens", str "5", [closeBrace]) := by decide
  rw [members_some found, members_no_quote (by decide)]

/-- After a key that ends in the literal's last quote or later, the value is `5`. -/
theorem scanAfterKey_afterPrompt {value rest : Bytes} (h : r = afterPrompt ∨ quote :: r <:+ afterPrompt)
    (e : scanAfterKey r = some (value, rest)) : value = str "5" := by
  have all : ∀ t ∈ afterPrompt :: afterPrompt.tails.filterMap (fun t =>
      if t.head? = some quote then some t.tail else none),
      (scanAfterKey t).map Prod.fst = some (str "5") := by decide
  have here : r ∈ afterPrompt :: afterPrompt.tails.filterMap (fun t =>
      if t.head? = some quote then some t.tail else none) := by
    rcases h with rfl | h
    · simp
    · apply List.mem_cons_of_mem
      rw [List.mem_filterMap]
      exact ⟨quote :: r, (List.mem_tails _ _).2 h, rfl⟩
  have five := all r here
  rw [e] at five
  exact Option.some.inj five

/-- A prompt that is found again behind the literal's first quote is `5`. -/
theorem prompt_again {raw s value : Bytes} (e : stringBody raw = some (s, []))
    (inside : r <:+ raw ++ afterPrompt) (mem : (str "prompt", value) ∈ members r) :
    value = str "5" := by
  obtain ⟨part, rest, suffix, found⟩ := mem_members r mem
  obtain ⟨junk, after, split, _, value⟩ := scanMember_split found
  obtain ⟨front, whole⟩ := suffix.trans inside
  have place : raw ++ afterPrompt =
      (front ++ junk ++ quote :: str "prompt") ++ quote :: after := by
    rw [← whole, split]
    simp
  apply scanAfterKey_afterPrompt _ value
  rcases List.append_eq_append_iff.1 place with ⟨z, _, tail⟩ | ⟨z, start, tail⟩
  · exact .inr ⟨z, tail.symm⟩
  · cases z with
    | nil =>
      have other : quote :: after = afterPrompt := tail
      exact absurd (List.cons.inj other).1 (by decide)
    | cons c z =>
      obtain ⟨rfl, rest⟩ := List.cons.inj tail
      cases z with
      | nil => exact .inl rest
      | cons d z =>
        -- a quote inside the literal follows a backslash, and this one ends the word `prompt`
        obtain ⟨x, ends⟩ := stringBody_quote_escaped e start (by simp)
        have last := congrArg List.getLast? ends
        rw [List.getLast?_append, List.getLast?_append] at last
        exact absurd last (by simp [str, backslash])

/-- The last prompt the reader finds. -/
theorem lookup_prompt {raw : Bytes} {params : Params} (parsed : parseJson (promptRequest raw) = .ok params)
    (key : Bytes) : params.lookup key = lastValue (members (promptRequest raw)) key := by
  obtain ⟨found, parsed', lookup⟩ := parseJson_lookup (promptRequest raw)
  rw [parsed] at parsed'
  cases parsed'
  exact lookup key

end Reader

variable {raw s : Bytes}

/-- A literal without escapes is understood. -/
theorem understood_of_free (e : stringBody raw = some (s, [])) (free : backslash ∉ raw) :
    Understood raw s := by
  obtain ⟨noQuote, rfl⟩ : quote ∉ s ∧ raw = s ++ [quote] := by
    rcases stringBody_first_quote e with ⟨body, rfl, none, ⟨rfl, _⟩ | ⟨_, esc⟩⟩ |
        ⟨a, b, _, _, rfl, _, _, _⟩
    · exact ⟨none, rfl⟩
    · exact absurd (by simp [esc]) free
    · exact absurd (by simp) free
  have found : members (promptRequest (s ++ [quote])) =
      [(str "prompt", s), (str "max_tokens", str "5")] := by
    rw [promptRequest, List.append_assoc, List.singleton_append, members_prompt noQuote,
      members_afterPrompt]
  obtain ⟨params, parsed, lookup⟩ := parseJson_lookup (promptRequest (s ++ [quote]))
  rw [found] at lookup
  have prompt : params.lookup (str "prompt") = some s := lookup _
  have maxTokens : params.lookup (str "max_tokens") = some (str "5") := lookup _
  have model : params.lookup (str "model") = none := lookup _
  have temperature : params.lookup (str "temperature") = none := lookup _
  refine ⟨⟨params, parsed, prompt, maxTokens⟩, fun env request body => ?_⟩
  have five : stoi (str "5") = .ok 5 := by decide
  have call : readCall env request.body = .ok ⟨str "sovalune-model", s, 5, .finite 0.7⟩ := by
    rw [body]
    simp only [readCall, parsed, bind, Except.bind, prompt, maxTokens, model, temperature, five]
    rfl
  obtain ⟨response, handled⟩ : ∃ response, complete env completionBody request = (response, [_]) :=
    complete_calls call
  rw [handleCompletions, handled]

/-- A literal that is understood has no escapes. -/
theorem free_of_understood (e : stringBody raw = some (s, [])) (h : Understood raw s) :
    backslash ∉ raw := by
  obtain ⟨params, parsed, prompt, _⟩ := h.params
  rw [lookup_prompt parsed] at prompt
  have mem := lastValue_mem prompt
  rcases stringBody_first_quote e with ⟨body, rfl, none, same⟩ | ⟨a, b, d, t, rfl, none, rfl, _⟩
  · have shape : promptRequest (body ++ [quote]) =
        str "\x7b\"prompt\": \"" ++ (body ++ quote :: afterPrompt) := by
      simp [promptRequest]
    rw [shape, members_prompt none, members_afterPrompt] at mem
    have literal : s = body := by
      rcases List.mem_cons.1 mem with same | mem
      · exact (Prod.mk.inj same).2
      · exact absurd (Prod.mk.inj (List.mem_singleton.1 mem)).1 (by decide)
    rcases same with ⟨_, verbatim⟩ | ⟨less, _⟩
    · intro esc
      rcases List.mem_append.1 esc with esc | esc
      · exact (verbatim _ esc).2.1 rfl
      · exact absurd esc (by decide)
    · rw [literal] at less
      omega
  · -- the prompt has no quote, and the string that was meant has one
    have shape : promptRequest (a ++ backslash :: quote :: b) =
        str "\x7b\"prompt\": \"" ++ ((a ++ [backslash]) ++ quote :: (b ++ afterPrompt)) := by
      simp [promptRequest]
    have cutOff : quote ∉ a ++ [backslash] := by
      have other : quote ≠ backslash := by decide
      simp [none, other]
    rw [shape, members_prompt cutOff] at mem
    rcases List.mem_cons.1 mem with same | mem
    · rw [← (Prod.mk.inj same).2] at cutOff
      exact absurd (by simp) cutOff
    · have inside : skipComma (b ++ afterPrompt) <:+ (a ++ backslash :: quote :: b) ++ afterPrompt :=
        (skipComma_suffix _).trans ⟨a ++ [backslash, quote], by simp⟩
      have five := prompt_again e inside mem
      have quoted : quote ∈ str "5" := by
        rw [← five]
        simp
      exact absurd quoted (by decide)

/-- **Escapes** are not undone: a prompt is understood exactly when its literal has none. -/
theorem understood_iff (e : stringBody raw = some (s, [])) : Understood raw s ↔ backslash ∉ raw :=
  ⟨free_of_understood e, understood_of_free e⟩

theorem understood_iff_hi : Understood (str "hi\"") (str "hi") ↔ backslash ∉ str "hi\"" :=
  understood_iff (by decide)

/-- The literal `a\"b` is not understood. -/
theorem not_understood_quote :
    ¬ ∀ raw s : Bytes, stringBody raw = some (s, []) → Understood raw s := by
  intro all
  have literal : stringBody (str "a\\\"b\"") = some (str "a\"b", []) := by decide
  exact absurd (free_of_understood literal (all _ _ literal)) (by decide)

end ModelRuntime
