import ModelRuntime.Cpp.Lines
import ModelRuntime.Server.ParseJson

/-!
# HTTP requests

`parse_request` over the lines that successive `getline` calls give. The body is put together from
the lines after the head, each with a newline: a body that does not end in one arrives with one more.
-/

namespace ModelRuntime
open Cpp

structure HttpRequest where
  method : Bytes := []
  path : Bytes := []
  body : Bytes := []
  headers : Params := ∅
  queryParams : Params := ∅

structure HttpResponse where
  statusCode : Int := 200
  statusText : Bytes := str "OK"
  body : Bytes := []

/-- `stream >> word`: the next word and the text after it. -/
def word (s : Bytes) : Bytes × Bytes :=
  let t := s.dropWhile isSpace
  (t.takeWhile (!isSpace ·), t.dropWhile (!isSpace ·))

/-- One line of the head; a line without a colon is passed over. -/
def headerLine (headers : Params) (line : Bytes) : Except StdException Params :=
  match find line colon 0 with
  | none => .ok headers
  | some colonPos => do
    let key ← substr line 0 (some colonPos)
    let value ← substr line (colonPos + 1) none
    let value ← erase value 0 (findFirstNotOf value [32, 9] 0)
    -- npos + 1 is 0
    let value ← erase value ((findLastNotOf value [32, 9, 13]).elim 0 (· + 1)) none
    return headers.insert key value

/-- The head from `lines` on, and the lines after the one that ends it. -/
def headerLines : List Bytes → Params → Except StdException (Params × List Bytes)
  | [], headers => .ok (headers, [])
  | line :: rest, headers =>
    if line = [carriage] ∨ line = [] then .ok (headers, rest)
    else do headerLines rest (← headerLine headers line)

def queryParam (params : Params) (param : Bytes) : Except StdException Params :=
  match find param 61 0 with
  | none => .ok params
  | some eqPos => do
    let key ← substr param 0 (some eqPos)
    let value ← substr param (eqPos + 1) none
    return params.insert key value

def parseRequest (rawRequest : Bytes) : Except StdException HttpRequest := do
  let all := lines newline rawRequest
  let (method, rest) := word (all.headD [])
  let (path, _) := word rest
  let (headers, rest) ← headerLines all.tail ∅
  let body := rest.flatMap (· ++ [newline])
  match find path 63 0 with
  | none => return { method, path, body, headers }
  | some queryPos => do
    let queryString ← substr path (queryPos + 1) none
    let path ← substr path 0 (some queryPos)
    let queryParams ← (lines 38 queryString).foldlM queryParam ∅
    return { method, path, body, headers, queryParams }

/-! ## The head -/

/-- No line of a head makes `parse_request` throw. -/
theorem headerLine_ok (headers : Params) (line : Bytes) : ∃ h, headerLine headers line = .ok h := by
  rw [headerLine]
  cases e : find line colon 0 with
  | none => exact ⟨headers, rfl⟩
  | some colonPos =>
    have inside := findIf_lt e
    obtain ⟨key, hkey⟩ := substr_ok (show 0 ≤ line.length by omega) (some colonPos)
    obtain ⟨value, hvalue⟩ := substr_ok (show colonPos + 1 ≤ line.length by omega) none
    obtain ⟨front, hfront⟩ := erase_ok (show 0 ≤ value.length by omega) (findFirstNotOf value [32, 9] 0)
    have back : (findLastNotOf front [32, 9, 13]).elim 0 (· + 1) ≤ front.length := by
      cases last : findLastNotOf front [32, 9, 13] with
      | none => exact Nat.zero_le _
      | some i => exact findLastNotOf_lt last
    obtain ⟨trimmed, htrimmed⟩ := erase_ok back none
    refine ⟨headers.insert key trimmed, ?_⟩
    simp only [hkey, hvalue, hfront, htrimmed, bind, Except.bind, pure, Except.pure]

/-- The lines after the first empty one. -/
def afterHead (all : List Bytes) : List Bytes :=
  (all.dropWhile fun line => !(decide (line = [carriage] ∨ line = []))).tail

/-- A head ends at its first empty line, whatever stands in it. -/
theorem headerLines_ok (all : List Bytes) (headers : Params) :
    ∃ h, headerLines all headers = .ok (h, afterHead all) := by
  induction all generalizing headers with
  | nil => exact ⟨headers, rfl⟩
  | cons line rest ih =>
    rw [headerLines, afterHead, List.dropWhile_cons]
    by_cases stop : line = [carriage] ∨ line = []
    · rw [if_pos stop, if_neg (by simp [stop])]
      exact ⟨headers, rfl⟩
    · obtain ⟨h, hline⟩ := headerLine_ok headers line
      obtain ⟨h', hrest⟩ := ih h
      rw [if_neg stop, if_pos (by simp [stop]), hline]
      exact ⟨h', hrest⟩

theorem afterHead_end {head : List Bytes} (rest : List Bytes)
    (plain : ∀ line ∈ head, line ≠ [carriage] ∧ line ≠ []) :
    afterHead (head ++ [carriage] :: rest) = rest := by
  have skip : ∀ line ∈ head, (!(decide (line = [carriage] ∨ line = []))) = true := by
    intro line mem
    simp [plain line mem]
  rw [afterHead, List.dropWhile_append_of_pos skip]
  rfl

/-! ## The query -/

theorem queryParam_ok (params : Params) (param : Bytes) : ∃ q, queryParam params param = .ok q := by
  rw [queryParam]
  cases e : find param 61 0 with
  | none => exact ⟨params, rfl⟩
  | some eqPos =>
    have inside := findIf_lt e
    obtain ⟨key, hkey⟩ := substr_ok (show 0 ≤ param.length by omega) (some eqPos)
    obtain ⟨value, hvalue⟩ := substr_ok (show eqPos + 1 ≤ param.length by omega) none
    refine ⟨params.insert key value, ?_⟩
    simp only [hkey, hvalue, bind, Except.bind, pure, Except.pure]

theorem queryParams_ok (all : List Bytes) (params : Params) :
    ∃ q, all.foldlM queryParam params = .ok q := by
  induction all generalizing params with
  | nil => exact ⟨params, rfl⟩
  | cons param all ih =>
    obtain ⟨q, hparam⟩ := queryParam_ok params param
    rw [List.foldlM_cons, hparam]
    exact ih q

/-! ## The request -/

/-- **`parse_request` never throws**: the request line gives the method and, up to a question mark,
the path; the lines after the head give the body. -/
theorem parseRequest_ok (rawRequest : Bytes) :
    ∃ request, parseRequest rawRequest = .ok request ∧
      request.method = (word ((lines newline rawRequest).headD [])).1 ∧
      request.path = (word (word ((lines newline rawRequest).headD [])).2).1.takeWhile (· != 63) ∧
      request.body = (afterHead (lines newline rawRequest).tail).flatMap (· ++ [newline]) := by
  obtain ⟨headers, head⟩ := headerLines_ok (lines newline rawRequest).tail ∅
  simp only [parseRequest, head, bind, Except.bind]
  generalize (word (word ((lines newline rawRequest).headD [])).2).1 = path
  by_cases mark : 63 ∈ path
  · obtain ⟨front, queryString, rfl, first⟩ := split_first mark
    obtain ⟨queryParams, hparams⟩ := queryParams_ok (lines 38 queryString) ∅
    rw [find_first first]
    simp only [substr_right, substr_left, hparams]
    refine ⟨_, rfl, rfl, ?_, rfl⟩
    rw [takeWhile_first first]
  · rw [find_absent mark]
    refine ⟨_, rfl, rfl, ?_, rfl⟩
    rw [takeWhile_absent mark]

end ModelRuntime
