import ModelRuntime.Server.Completion
import ModelRuntime.Server.OnEngine
import ModelRuntime.Server.Response
import ModelRuntime.Server.Wire

/-!
# A completion, end to end

From the prompt that a client posts to the text that it reads in the body of the response, behind either of
the two completion routes: the request arrives as it was written, the engine is asked for it once, and the
text comes back as the engine returned it exactly where nothing in it needs escaping.
-/

namespace ModelRuntime
open Cpp Lib Lib.Json

section

variable (chat : Bool)

def completionPath : Bytes := if chat then str "/v1/chat/completions" else str "/v1/completions"

def completionRender : Int → GenerateCall → Bytes → Bytes := if chat then chatBody else completionBody

/-- Where a client finds the text. -/
def completionAnswer : Json → Option Json := if chat then chatContent else completionText

theorem completion_renders : Shows (completionRender chat) (completionAnswer chat) := by
  cases chat
  · exact completion_shows
  · exact chat_shows

theorem completionPath_plain :
    completionPath chat ≠ [] ∧ (∀ x ∈ completionPath chat, isSpace x = false) ∧ 63 ∉ completionPath chat := by
  cases chat <;> decide

theorem routeRequest_completion (env : ServerEnv) {request : HttpRequest} (method : request.method = str "POST")
    (path : request.path = completionPath chat) :
    routeRequest env request = complete env (completionRender chat) request := by
  rw [routeRequest, method, path]
  cases chat
  · rw [if_neg (by decide), if_neg (by decide), if_neg (by decide), if_pos (by decide)]
    rfl
  · rw [if_neg (by decide), if_neg (by decide), if_pos (by decide)]
    rfl

end

theorem completionRequestText_end (m p : Bytes) (n : Int) :
    completionRequestText m p n ≠ [] ∧ (completionRequestText m p n).getLast? ≠ some newline := by
  have last : str "\x7d" = [closeBrace] := by decide
  have ends : (completionRequestText m p n).getLast? = some closeBrace := by
    simp [completionRequestText, last, List.getLast?_append]
  refine ⟨fun empty => ?_, ?_⟩
  · rw [empty] at ends
    cases ends
  · rw [ends]
    decide

/-- What a client posts. -/
def completionPost (chat : Bool) (version : Bytes) (headers : List (Bytes × Bytes)) (m p : Bytes) (n : Int) :
    Bytes :=
  postText (completionPath chat) version headers (completionRequestText m p n)

section

variable {chat : Bool} {env : ServerEnv} {m p version result : Bytes} {n : Int} {headers : List (Bytes × Bytes)}

/-- The client thread answers with what the engine returns for the prompt. -/
theorem handleClient_post (hm : EscapeFree m) (hp : EscapeFree p) (lo : -2 ^ 31 ≤ n) (hi : n < 2 ^ 31)
    (hversion : newline ∉ version) (oneLine : ∀ h ∈ headers, newline ∉ h.1 ∧ newline ∉ h.2)
    (fits : (completionPost chat version headers m p n).length ≤ 4095)
    (generates : env.generate p { maxTokens := n, temperature := .finite 0.7 } = .ok result) :
    let call : GenerateCall := ⟨m, p, n, .finite 0.7⟩
    handleClient env (completionPost chat version headers m p n) =
      .ok (some { body := completionRender chat env.time call result }, [call]) := by
  intro call
  obtain ⟨nonempty, solid, noQuery⟩ := completionPath_plain chat
  obtain ⟨written, ends⟩ := completionRequestText_end m p n
  obtain ⟨request, parsed, method, path, body⟩ :=
    parseRequest_post nonempty solid noQuery hversion oneLine written ends
  have read := readCall_completionRequest env hm hp lo hi
  rw [← body] at read
  have done : complete env (completionRender chat) request =
      ({ body := completionRender chat env.time call result }, [call]) := by
    have returns : generateResponse env call = .ok result := generates
    rw [complete, read]
    dsimp only
    rw [returns]
  have whole := List.take_of_length_le fits
  have sent : completionPost chat version headers m p n ≠ [] := by
    simp [completionPost, postText, str]
  have parsed : parseRequest (completionPost chat version headers m p n) = .ok request := parsed
  rw [← whole] at parsed
  rw [handleClient_received env sent parsed, routeRequest_completion chat env method path, done]

/-- **A completion, end to end.** A client posts a model and a prompt, free of quotes and backslashes, in a
request of at most 4095 bytes. The engine is asked for that prompt, once; the response that is sent reads
back with status 200; and its body is JSON that holds the engine's text and the model exactly where both are
valid UTF-8 without quotes, backslashes and control bytes. -/
theorem completion_endToEnd (hm : EscapeFree m) (hp : EscapeFree p) (lo : -2 ^ 31 ≤ n) (hi : n < 2 ^ 31)
    (hversion : newline ∉ version) (oneLine : ∀ h ∈ headers, newline ∉ h.1 ∧ newline ∉ h.2)
    (fits : (completionPost chat version headers m p n).length ≤ 4095)
    (generates : env.generate p { maxTokens := n, temperature := .finite 0.7 } = .ok result) :
    ∃ response, handleClient env (completionPost chat version headers m p n) =
        .ok (some response, [⟨m, p, n, .finite 0.7⟩]) ∧
      readResponse (rawResponse response) = some (response, []) ∧ response.statusCode = 200 ∧
      ((Utf8 response.body ∧ ∃ v, decode response.body = some v ∧
          completionAnswer chat v = some (.string result) ∧ member (str "model") v = some (.string m)) ↔
        Clean m ∧ Clean result) := by
  have handled := handleClient_post hm hp lo hi hversion oneLine fits generates
  have status : StatusLines { body := completionRender chat env.time ⟨m, p, n, .finite 0.7⟩ result } :=
    List.mem_of_mem_head? rfl
  have reads := readResponse_raw status.sendable []
  rw [List.append_nil] at reads
  exact ⟨_, handled, reads, rfl,
    (completion_renders chat).clean_iff env.time ⟨m, p, n, .finite 0.7⟩ result⟩

end

/-- A client asks an engine that repeats its prompt for `hi`. -/
theorem completion_endToEnd_hi :
    let env : ServerEnv := { generate := fun prompt _ => .ok prompt, stof := fun _ => .ok (.finite 1) }
    ∃ response, handleClient env
          (completionPost true (str "HTTP/1.1") [(str "Host", str " x")] (str "m") (str "hi") 5) =
        .ok (some response, [⟨str "m", str "hi", 5, .finite 0.7⟩]) ∧
      readResponse (rawResponse response) = some (response, []) ∧ response.statusCode = 200 ∧
      ((Utf8 response.body ∧ ∃ v, decode response.body = some v ∧
          completionAnswer true v = some (.string (str "hi")) ∧
          member (str "model") v = some (.string (str "m"))) ↔
        Clean (str "m") ∧ Clean (str "hi")) :=
  completion_endToEnd (by decide) (by decide) (by decide) (by decide) (by decide) (by decide) (by decide) rfl

end ModelRuntime
