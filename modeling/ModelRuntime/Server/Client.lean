import ModelRuntime.Server.OnEngine

/-!
# The client thread

A detached thread must let no exception out. Nothing that `parse_request` and `parse_json` do throws,
and what the two completion handlers call inside their `try` comes out as a response with status 500:
a number that does not convert and whatever the engine throws.
-/

namespace ModelRuntime
open Cpp

/-- A number in the body is one that `std::stoi` or `std::stof` refuses. -/
def ConversionFails (env : ServerEnv) (body : Bytes) : Prop :=
  ∃ params, parseJson body = .ok params ∧
    ((∃ text e, params.lookup (str "max_tokens") = some text ∧ stoi text = .error e) ∨
      ∃ text e, params.lookup (str "temperature") = some text ∧ env.stof text = .error e)

/-- The engine throws on a call that the handler makes. -/
def EngineFails (env : ServerEnv) (request : HttpRequest) : Prop :=
  ∃ call ∈ (routeRequest env request).2, ∃ e, generateResponse env call = .error e

section

variable {env : ServerEnv}

/-- A body is read unless a number in it does not convert. -/
theorem readCall_error_iff (body : Bytes) : (∃ e, readCall env body = .error e) ↔ ConversionFails env body := by
  have parsed := parseJson_eq body
  generalize memberMap (members body) ∅ = params at parsed
  simp only [ConversionFails, parsed, Except.ok.injEq, exists_eq_left', readCall, bind, Except.bind, pure,
    Except.pure]
  cases tokens : params.lookup (str "max_tokens") with
  | none =>
    cases warmth : params.lookup (str "temperature") with
    | none => simp
    | some text => cases converted : env.stof text <;> simp [converted]
  | some count =>
    cases number : stoi count with
    | error e => simp [number]
    | ok n =>
      cases warmth : params.lookup (str "temperature") with
      | none => simp [number]
      | some text => cases converted : env.stof text <;> simp [number, converted]

/-- A handler answers with 500 exactly where an exception reached its `catch`. -/
theorem complete_fails_iff (render : Int → GenerateCall → Bytes → Bytes) (request : HttpRequest) :
    (complete env render request).1.statusCode = 500 ↔
      (∃ e, readCall env request.body = .error e) ∨
        ∃ call ∈ (complete env render request).2, ∃ e, generateResponse env call = .error e := by
  rw [complete]
  cases read : readCall env request.body with
  | error e => simp [errorResponse]
  | ok call =>
    dsimp only
    cases generated : generateResponse env call with
    | error e => simp [errorResponse, generated]
    | ok text => simp [generated]

theorem routeRequest_fails_iff {request : HttpRequest} (completion : request.IsCompletion) :
    (routeRequest env request).1.statusCode = 500 ↔
      ConversionFails env request.body ∨ EngineFails env request := by
  obtain ⟨render, routed⟩ := completion.route env
  rw [EngineFails, routed, complete_fails_iff, readCall_error_iff]

/-- The thread ends having sent the response to what it received, or nothing. -/
theorem handleClient_ok (env : ServerEnv) (received : Bytes) :
    ∃ response calls, handleClient env received = .ok (response, calls) ∧ (received ≠ [] →
      ∃ request, parseRequest (received.take 4095) = .ok request ∧
        response = some (routeRequest env request).1) := by
  by_cases empty : received = []
  · refine ⟨none, [], ?_, fun brings => absurd empty brings⟩
    rw [empty]
    rfl
  · obtain ⟨request, parsed, _⟩ := parseRequest_ok (received.take 4095)
    exact ⟨_, _, handleClient_received env empty parsed, fun _ => ⟨request, parsed, rfl⟩⟩

end

/-- **No received bytes stop the server.** `substr` and `erase` throw outside of their string
(`substr_ok_iff`, `erase_ok_iff`), so that a result says that no position was. The engine and
`std::stof` may throw anything. -/
theorem client_survives (env : ServerEnv) (received : Bytes) :
    (∃ request, parseRequest received = .ok request) ∧ (∃ params, parseJson received = .ok params) ∧
      (∃ response calls, handleClient env received = .ok (response, calls) ∧ (received ≠ [] →
        ∃ request, parseRequest (received.take 4095) = .ok request ∧
          response = some (routeRequest env request).1)) ∧
      ∀ request : HttpRequest, request.IsCompletion →
        ((routeRequest env request).1.statusCode = 500 ↔
          ConversionFails env request.body ∨ EngineFails env request) := by
  refine ⟨?_, ⟨_, parseJson_eq received⟩, handleClient_ok env received, ?_⟩
  · obtain ⟨request, parsed, _⟩ := parseRequest_ok received
    exact ⟨request, parsed⟩
  · intro request completion
    exact routeRequest_fails_iff completion

/-- A client that asks for `many` tokens. -/
def manyPost : HttpRequest where
  method := str "POST"
  path := str "/v1/completions"
  body := str "\x7b\"max_tokens\": \"many\"\x7d"

theorem client_survives_many : (routeRequest plainEnv manyPost).1.statusCode = 500 := by
  obtain ⟨_, _, _, answers⟩ := client_survives plainEnv []
  rw [answers manyPost ⟨rfl, .inr rfl⟩]
  refine .inl ⟨_, parseJson_eq _, .inl ⟨str "many", ?_⟩⟩
  rw [memberMap_lookup]
  exact ⟨.invalidArgument (str "stoi"), by decide +kernel, by decide +kernel⟩

end ModelRuntime
