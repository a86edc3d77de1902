import ModelRuntime.Lib.JsonText
import ModelRuntime.Server.FlatObject
import ModelRuntime.Server.Handlers
import ModelRuntime.Server.Request

/-!
# A completion request, from the socket to the engine

The four layers in turn: the head is cut off at its first empty line, the body comes back with one
more newline, the route is the completions handler, and the reader gives it the members that were
written.
-/

namespace ModelRuntime
open Cpp Lib Lib.Json

/-! ## The request -/

/-- `POST` to a path, as a client sends it. -/
def postText (path version : Bytes) (headers : List (Bytes × Bytes)) (body : Bytes) : Bytes :=
  str "POST " ++ (path ++ (32 :: (version ++ carriage :: newline ::
    (headers.flatMap (fun h => h.1 ++ colon :: (h.2 ++ [carriage, newline])) ++
      carriage :: newline :: body))))

theorem postText_eq (path version : Bytes) (headers : List (Bytes × Bytes)) (body : Bytes) :
    postText path version headers body = requestText (str "POST") path version headers body := rfl

/-- **`parse_request`** gives back the method, the path and, with one more newline, the body. -/
theorem parseRequest_post {path version body : Bytes} {headers : List (Bytes × Bytes)}
    (hpath : path ≠ []) (solid : ∀ x ∈ path, isSpace x = false) (noQuery : 63 ∉ path)
    (hversion : newline ∉ version) (oneLine : ∀ h ∈ headers, newline ∉ h.1 ∧ newline ∉ h.2)
    (hbody : body ≠ []) (ends : body.getLast? ≠ some newline) :
    ∃ request, parseRequest (postText path version headers body) = .ok request ∧
      request.method = str "POST" ∧ request.path = path ∧ request.body = body ++ [newline] := by
  obtain ⟨request, parsed, isMethod, isPath, isBody⟩ := parseRequest_text
    (show Solid (str "POST") by decide) ⟨hpath, solid⟩ hversion oneLine body
  rw [takeWhile_absent noQuery] at isPath
  rw [if_neg (by simp [hbody, ends])] at isBody
  exact ⟨request, postText_eq path version headers body ▸ parsed, isMethod, isPath, isBody⟩

/-! ## The body -/

/-- The body of a completion request as a flat object, as it arrives. -/
def completionRequest (m p : Bytes) (n : Int) (hm : EscapeFree m) (hp : EscapeFree p) :
    FlatObject where
  members :=
    [{ key := str "model", value := .string m hm, free := by decide },
     { key := str "prompt", value := .string p hp, free := by decide },
     { key := str "max_tokens", free := by decide
       value := .literal (decimalInt n) _ (reads_decimalInt n).ofText trivial }]
  after := [newline]

/-- The body as the client writes it. -/
def completionRequestText (m p : Bytes) (n : Int) : Bytes :=
  str "\x7b\"model\":\"" ++ (m ++ (str "\",\"prompt\":\"" ++ (p ++ (str "\",\"max_tokens\":" ++
    (decimalInt n ++ str "\x7d")))))

theorem completionRequest_text {m p : Bytes} (n : Int) (hm : EscapeFree m) (hp : EscapeFree p) :
    completionRequestText m p n ++ [newline] = (completionRequest m p n hm hp).text := by
  simp only [completionRequestText, FlatObject.text, completionRequest, membersText, FlatMember.text,
    FlatValue.text, reduceCtorEq, if_false, List.append_assoc, List.nil_append, List.append_nil,
    List.cons_append]
  rfl

/-- The handler's parameters are those of the request. -/
theorem readCall_completionRequest (env : ServerEnv) {m p : Bytes} {n : Int} (hm : EscapeFree m)
    (hp : EscapeFree p) (lo : -2 ^ 31 ≤ n) (hi : n < 2 ^ 31) :
    readCall env (completionRequestText m p n ++ [newline]) =
      .ok { model := m, prompt := p, maxTokens := n, temperature := .finite 0.7 } := by
  obtain ⟨params, parsed, found⟩ := parseJson_lookup (completionRequestText m p n ++ [newline])
  rw [completionRequest_text n hm hp, FlatObject.members_text] at found
  have model : params.lookup (str "model") = some m := found _
  have prompt : params.lookup (str "prompt") = some p := found _
  have maxTokens : params.lookup (str "max_tokens") = some (decimalInt n) := found _
  have temperature : params.lookup (str "temperature") = none := found _
  simp only [readCall, parsed, bind, Except.bind, model, prompt, maxTokens, temperature,
    stoi_decimalInt lo hi]
  rfl

/-- **A plain completion request** of at most 4095 bytes that is there at the one `recv` makes one
call, for the prompt and the number of tokens that were written. -/
theorem handleClient_completion (env : ServerEnv) {m p version : Bytes} {n : Int}
    {headers : List (Bytes × Bytes)} (hm : EscapeFree m) (hp : EscapeFree p) (lo : -2 ^ 31 ≤ n)
    (hi : n < 2 ^ 31) (hversion : newline ∉ version)
    (oneLine : ∀ h ∈ headers, newline ∉ h.1 ∧ newline ∉ h.2)
    (fits : (postText (str "/v1/completions") version headers (completionRequestText m p n)).length ≤
      4095) :
    ∃ response,
      handleClient env
          (postText (str "/v1/completions") version headers (completionRequestText m p n)) =
        .ok (some response, [{ model := m, prompt := p, maxTokens := n, temperature := .finite 0.7 }]) := by
  have ends : (completionRequestText m p n).getLast? = some closeBrace := by
    have last : str "\x7d" = [closeBrace] := by decide
    simp [completionRequestText, last, List.getLast?_append]
  obtain ⟨request, parsed, method, path, body⟩ := parseRequest_post
    (show str "/v1/completions" ≠ [] by decide) (by decide) (by decide) hversion oneLine
    (show completionRequestText m p n ≠ [] by intro e; rw [e] at ends; cases ends)
    (by rw [ends]; decide)
  have route : routeRequest env request = handleCompletions env request := by
    rw [routeRequest, method, path, if_neg (by decide), if_neg (by decide), if_neg (by decide),
      if_pos (by decide)]
  have call := readCall_completionRequest env hm hp lo hi
  rw [← body] at call
  obtain ⟨response, handled⟩ : ∃ response, complete env completionBody request = (response, [_]) :=
    complete_calls call
  refine ⟨response, ?_⟩
  have whole := List.take_of_length_le fits
  have nonempty : postText (str "/v1/completions") version headers (completionRequestText m p n) ≠ [] := by
    simp [postText, str]
  rw [← whole] at parsed
  rw [handleClient_received env nonempty parsed, route, handleCompletions, handled]

theorem handleClient_completion_hello :
    ∃ response,
      handleClient { generate := fun prompt _ => .ok prompt, stof := fun _ => .ok (.finite 1) }
          (postText (str "/v1/completions") (str "HTTP/1.1") [(str "Host", str " x")]
            (completionRequestText (str "m") (str "a,\n:\x7b") 5)) =
        .ok (some response, [⟨str "m", str "a,\n:\x7b", 5, .finite 0.7⟩]) :=
  handleClient_completion _ (by decide) (by decide) (by decide) (by decide) (by decide) (by decide)
    (by decide)

end ModelRuntime
