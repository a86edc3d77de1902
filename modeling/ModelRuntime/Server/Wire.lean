import ModelRuntime.Lib.Message
import ModelRuntime.Server.Handlers

/-!
# A response on the wire

`send_response` makes one `send` and does not look at what it returns, so that the client may get a part
of the response only. Whatever the handler answers, a client that goes by the length in the head gets the
response itself, or knows that it has not got the whole of it.
-/

namespace ModelRuntime
open Cpp Lib

/-- `raw_response` of `send_response`. -/
def rawResponse (response : HttpResponse) : Bytes :=
  str "HTTP/1.1 " ++ decimalInt response.statusCode ++ str " " ++ response.statusText ++ str "\r\n" ++
  str "Content-Type: application/json\r\n" ++
  str "Content-Length: " ++ decimal response.body.length ++ str "\r\n" ++
  str "Connection: close\r\n" ++
  str "\r\n" ++
  response.body

/-- What `send_response` sends where `send` takes `taken` bytes. -/
def sendResponse (taken : Nat) (response : HttpResponse) : Bytes := (rawResponse response).take taken

/-! ## A client -/

def readStatus (start : Bytes) : Option (Int × Bytes) :=
  match cutText (str "HTTP/1.1 ") start with
  | some ([], status) =>
    match cut (· == 32) status with
    | none => none
    | some (code, _, reason) => (stoi code).toOption.map (·, reason)
  | _ => none

/-- The first response of a stream, and what follows it. -/
def readResponse (s : Bytes) : Option (HttpResponse × Bytes) :=
  match readMessage (str "Content-Length") s with
  | none => none
  | some (message, rest) => (readStatus message.start).map fun status =>
      ({ statusCode := status.1, statusText := status.2, body := message.body }, rest)

/-! ## What is sent is read -/

/-- The status fits in an `int` and its text is in one line. -/
structure HttpResponse.Sendable (response : HttpResponse) : Prop where
  low : -2 ^ 31 ≤ response.statusCode
  high : response.statusCode < 2 ^ 31
  text : carriage ∉ response.statusText

def statusLine (response : HttpResponse) : Bytes :=
  str "HTTP/1.1 " ++ (decimalInt response.statusCode ++ 32 :: response.statusText)

/-- The response as a message. -/
def HttpResponse.message (response : HttpResponse) : Message where
  start := statusLine response
  fields :=
    [(str "Content-Type", str "application/json"),
     (str "Content-Length", decimal response.body.length),
     (str "Connection", str "close")]
  body := response.body

theorem rawResponse_eq (response : HttpResponse) : rawResponse response = response.message.text := by
  simp only [rawResponse, Message.text, Message.head, HttpResponse.message, statusLine, headerText,
    List.map_cons, List.map_nil, List.flatMap_cons, List.flatMap_nil, List.append_assoc, List.cons_append,
    List.append_nil]
  rfl

theorem decimalInt_bytes (n : Int) : ∀ c ∈ decimalInt n, c = 45 ∨ isDigit c = true := by
  intro c mem
  rw [decimalInt] at mem
  split at mem
  · rcases List.mem_cons.1 mem with rfl | mem
    · exact .inl rfl
    · exact .inr (decimal_digits _ c mem)
  · exact .inr (decimal_digits _ c mem)

theorem not_mem_decimalInt {c : UInt8} (other : c ≠ 45 ∧ isDigit c = false) (n : Int) : c ∉ decimalInt n := by
  intro mem
  rcases decimalInt_bytes n c mem with same | digit
  · exact other.1 same
  · rw [other.2] at digit
    cases digit

theorem readStatus_line {response : HttpResponse} (h : response.Sendable) :
    readStatus (statusLine response) = some (response.statusCode, response.statusText) := by
  have version : cutText (str "HTTP/1.1 ") (statusLine response) =
      some ([], decimalInt response.statusCode ++ 32 :: response.statusText) := rfl
  have blank := no_byte (not_mem_decimalInt (c := 32) (by decide) response.statusCode)
  rw [readStatus, version]
  dsimp only
  rw [cut_append blank (by decide)]
  dsimp only
  rw [stoi_decimalInt h.low h.high]
  rfl

theorem HttpResponse.Sendable.framed {response : HttpResponse} (h : response.Sendable) :
    response.message.Framed (str "Content-Length") where
  nonempty := by simp [message, statusLine, str]
  start := by
    have version : carriage ∉ str "HTTP/1.1 " := by decide
    have code := not_mem_decimalInt (c := carriage) (by decide) response.statusCode
    have blank : carriage ≠ 32 := by decide
    simp [message, statusLine, version, code, blank, h.text]
  fields := by
    have digits : carriage ∉ decimal response.body.length ∧
        (decimal response.body.length).head? ≠ some 32 := by
      have other : ∀ {c}, isDigit c = false → c ∉ decimal response.body.length := by
        intro c no mem
        rw [decimal_digits _ c mem] at no
        cases no
      exact ⟨other (by decide), fun first => other (by decide) (List.mem_of_head? first)⟩
    intro field mem
    simp only [message, List.mem_cons, List.not_mem_nil, or_false] at mem
    rcases mem with rfl | rfl | rfl
    · decide
    · exact ⟨show carriage ∉ str "Content-Length" by decide, show colon ∉ str "Content-Length" by decide,
        digits⟩
    · decide
  length := rfl

theorem readResponse_raw {response : HttpResponse} (h : response.Sendable) (rest : Bytes) :
    readResponse (rawResponse response ++ rest) = some (response, rest) := by
  rw [readResponse, rawResponse_eq, h.framed.read rest]
  dsimp only
  rw [HttpResponse.message, readStatus_line h]
  rfl

theorem readResponse_part {response : HttpResponse} (h : response.Sendable) {taken : Nat}
    (part : taken < (rawResponse response).length) : readResponse (sendResponse taken response) = none := by
  rw [rawResponse_eq] at part
  rw [readResponse, sendResponse, rawResponse_eq, h.framed.incomplete part]

/-! ## The responses of the server -/

/-- The status codes, each with its text. -/
def statusLines : List (Int × Bytes) :=
  [(200, str "OK"), (404, str "Not Found"), (500, str "Internal Server Error")]

def StatusLines (response : HttpResponse) : Prop := (response.statusCode, response.statusText) ∈ statusLines

theorem complete_statusLines (env : ServerEnv) (render : Int → GenerateCall → Bytes → Bytes)
    (request : HttpRequest) : StatusLines (complete env render request).1 := by
  rw [complete]
  split
  · exact List.mem_of_getLast? rfl
  · split
    · exact List.mem_of_getLast? rfl
    · exact List.mem_of_mem_head? rfl

theorem routeRequest_statusLines (env : ServerEnv) (request : HttpRequest) :
    StatusLines (routeRequest env request).1 := by
  rw [routeRequest]
  split
  · exact List.mem_of_mem_head? rfl
  split
  · exact List.mem_of_mem_head? rfl
  split
  · exact complete_statusLines env chatBody request
  split
  · exact complete_statusLines env completionBody request
  · exact List.mem_cons_of_mem _ (List.mem_of_mem_head? rfl)

theorem StatusLines.sendable {response : HttpResponse} (h : StatusLines response) : response.Sendable := by
  have all : ∀ status ∈ statusLines, -2 ^ 31 ≤ status.1 ∧ status.1 < 2 ^ 31 ∧ carriage ∉ status.2 := by
    decide
  obtain ⟨low, high, text⟩ := all _ h
  exact ⟨low, high, text⟩

/-- **A response arrives whole or is seen to be cut off.** Whatever the handler answers, a client reads it
back from the front of what is sent, to its last byte and no further, and reads nothing from a part of
it. -/
theorem response_delivered (env : ServerEnv) (request : HttpRequest) :
    (∀ rest, readResponse (rawResponse (routeRequest env request).1 ++ rest) =
      some ((routeRequest env request).1, rest)) ∧
    ∀ taken, readResponse (sendResponse taken (routeRequest env request).1) =
      if taken < (rawResponse (routeRequest env request).1).length then none
      else some ((routeRequest env request).1, []) := by
  have sendable := (routeRequest_statusLines env request).sendable
  refine ⟨readResponse_raw sendable, fun taken => ?_⟩
  split
  · rename_i part
    exact readResponse_part sendable part
  · rename_i whole
    have all := readResponse_raw sendable []
    rw [List.append_nil] at all
    rw [sendResponse, List.take_of_length_le (by omega), all]

end ModelRuntime
