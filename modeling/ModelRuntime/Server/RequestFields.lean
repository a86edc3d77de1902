import ModelRuntime.Server.Request

/-!
# The fields of a request

What `parse_request` makes of the query and of the header fields: two maps, in each of which the last
of several equal keys stays. A value is cut at the first delimiter before it and nowhere else, and a
header value loses the blanks around it.
-/

namespace ModelRuntime
open Cpp

/-! ## The header fields -/

/-- The blanks around a header value. -/
def isBlank (c : UInt8) : Bool := ([32, 9] : Bytes).contains c

/-- A header value without the spaces and tabs at its ends. -/
def trim (value : Bytes) : Bytes := (value.dropWhile isBlank).rdropWhile isBlank

/-- A header field as a client writes it: a name and the text after its colon. -/
structure HeaderField (h : Bytes × Bytes) : Prop where
  nonempty : h.1 ≠ []
  name : ∀ c ∈ h.1, c ≠ colon ∧ c ≠ carriage ∧ c ≠ newline
  value : ∀ c ∈ h.2, c ≠ carriage ∧ c ≠ newline

instance (h : Bytes × Bytes) : Decidable (HeaderField h) :=
  decidable_of_iff (h.1 ≠ [] ∧ (∀ c ∈ h.1, c ≠ colon ∧ c ≠ carriage ∧ c ≠ newline) ∧
    ∀ c ∈ h.2, c ≠ carriage ∧ c ≠ newline) ⟨fun h => ⟨h.1, h.2.1, h.2.2⟩, fun h => ⟨h.1, h.2, h.3⟩⟩

theorem HeaderField.oneLine {h : Bytes × Bytes} (field : HeaderField h) : newline ∉ h.1 ∧ newline ∉ h.2 :=
  ⟨fun mem => (field.name _ mem).2.2 rfl, fun mem => (field.value _ mem).2 rfl⟩

section Header

variable {name value : Bytes}

/-- The two trims of a header line, together with its carriage return. -/
theorem trim_line (oneLine : carriage ∉ value) :
    ((value ++ [carriage]).dropWhile (([32, 9] : Bytes).contains ·)).rdropWhile
      (([32, 9, 13] : Bytes).contains ·) = trim value := by
  have stop : ¬ ([32, 9] : Bytes).contains carriage = true := by decide
  have last : ([32, 9, 13] : Bytes).contains carriage = true := by decide
  have front : (value ++ [carriage]).dropWhile (([32, 9] : Bytes).contains ·) =
      value.dropWhile isBlank ++ [carriage] := dropWhile_stop stop
  have inside : ∀ c ∈ value.dropWhile isBlank, ([32, 9, 13] : Bytes).contains c = isBlank c := by
    intro c mem
    have other : c ≠ 13 := by
      rintro rfl
      exact oneLine (List.dropWhile_subset _ mem)
    simp [isBlank, other]
  rw [front, List.rdropWhile_concat_pos _ _ _ last, rdropWhile_congr inside, trim]

/-- **A line of the head**: what stands before its first colon, and the text after it trimmed. -/
theorem headerLine_field (headers : Params) (plain : colon ∉ name) (oneLine : carriage ∉ value) :
    headerLine headers (name ++ colon :: (value ++ [carriage])) =
      .ok (headers.insert name (trim value)) := by
  have at_colon : find (name ++ colon :: (value ++ [carriage])) colon 0 = some name.length :=
    find_first plain
  rw [headerLine, at_colon]
  simp only [substr_left, substr_right, erase_front, erase_back, trim_line oneLine, bind, Except.bind,
    pure, Except.pure]

/-- The head lines in order, each on top of those before it. -/
theorem headerLines_fields {fields : List (Bytes × Bytes)} (headers : Params) (rest : List Bytes)
    (written : ∀ h ∈ fields, HeaderField h) :
    headerLines (headLines fields ++ [carriage] :: rest) headers =
      .ok (memberMap (fields.map fun h => (h.1, trim h.2)) headers, rest) := by
  induction fields generalizing headers with
  | nil => rfl
  | cons h fields ih =>
    have field := written h (by simp)
    have plain := headLines_plain (h :: fields) _ List.mem_cons_self
    have here := headerLine_field headers (fun mem => (field.name _ mem).1 rfl)
      (fun mem => (field.value _ mem).1 rfl)
    rw [headLines, List.map_cons, List.cons_append, headerLines, if_neg (by simpa using plain), here]
    exact ih _ fun x mem => written x (by simp [mem])

end Header

/-! ## The query -/

/-- A query pair: neither part holds white space or `&`, and the key holds no `=`. -/
structure QueryPair (p : Bytes × Bytes) : Prop where
  key : ∀ c ∈ p.1, c ≠ 61 ∧ c ≠ 38 ∧ isSpace c = false
  value : ∀ c ∈ p.2, c ≠ 38 ∧ isSpace c = false

instance (p : Bytes × Bytes) : Decidable (QueryPair p) :=
  decidable_of_iff ((∀ c ∈ p.1, c ≠ 61 ∧ c ≠ 38 ∧ isSpace c = false) ∧
    ∀ c ∈ p.2, c ≠ 38 ∧ isSpace c = false) ⟨fun h => ⟨h.1, h.2⟩, fun h => ⟨h.1, h.2⟩⟩

/-- `key=value`. -/
def paramText (p : Bytes × Bytes) : Bytes := p.1 ++ 61 :: p.2

/-- `?k=v&k=v`, and nothing for no pairs. -/
def queryText : List (Bytes × Bytes) → Bytes
  | [] => []
  | p :: pairs => 63 :: List.intercalate [38] ((p :: pairs).map paramText)

section Query

variable {p : Bytes × Bytes} {pairs : List (Bytes × Bytes)}

theorem QueryPair.text (h : QueryPair p) : ∀ c ∈ paramText p, c ≠ 38 ∧ isSpace c = false := by
  intro c mem
  rcases List.mem_append.1 mem with mem | mem
  · exact (h.key c mem).2
  rcases List.mem_cons.1 mem with rfl | mem
  · decide
  · exact h.value c mem

theorem queryParam_pair (params : Params) (h : QueryPair p) :
    queryParam params (paramText p) = .ok (params.insert p.1 p.2) := by
  have first : find (paramText p) 61 0 = some p.1.length := find_first fun mem => (h.key _ mem).1 rfl
  rw [queryParam, first]
  simp only [paramText, substr_left, substr_right, bind, Except.bind, pure, Except.pure]

theorem queryParams_pairs (params : Params) (written : ∀ p ∈ pairs, QueryPair p) :
    (pairs.map paramText).foldlM queryParam params = .ok (memberMap pairs params) := by
  induction pairs generalizing params with
  | nil => rfl
  | cons p pairs ih =>
    rw [List.map_cons, List.foldlM_cons, queryParam_pair params (written p (by simp))]
    exact ih _ fun x mem => written x (by simp [mem])

/-- The pieces between the `&` are the pairs. -/
theorem lines_query (ne : pairs ≠ []) (written : ∀ p ∈ pairs, QueryPair p) :
    lines 38 (List.intercalate [38] (pairs.map paramText)) = pairs.map paramText := by
  have joined : HasLines 38 (List.intercalate [38] (pairs.map paramText)) (pairs.map paramText) :=
    .inr (unlines_intercalate (by simpa using ne))
  apply joined.lines
  · intro line mem
    obtain ⟨p, _, rfl⟩ := List.mem_map.1 mem
    simp [paramText]
  · intro line mem inside
    obtain ⟨p, here, rfl⟩ := List.mem_map.1 mem
    exact ((written p here).text _ inside).1 rfl

theorem queryText_solid (written : ∀ p ∈ pairs, QueryPair p) : ∀ c ∈ queryText pairs, isSpace c = false := by
  cases pairs with
  | nil => simp [queryText]
  | cons p pairs =>
    intro c mem
    rcases List.mem_cons.1 mem with rfl | mem
    · decide
    rcases mem_intercalate mem with mem | ⟨text, here, mem⟩
    · rw [List.mem_singleton.1 mem]
      decide
    · obtain ⟨q, mem', rfl⟩ := List.mem_map.1 here
      exact ((written q mem').text c mem).2

end Query

/-! ## The request -/

section Request

variable {method path version : Bytes} {pairs headers : List (Bytes × Bytes)}

/-- What a request was read as. In both maps the last of several equal keys stays. -/
structure ReadAs (request : HttpRequest) (method path : Bytes) (pairs headers : List (Bytes × Bytes)) :
    Prop where
  method : request.method = method
  path : request.path = path
  query : ∀ key, request.queryParams.lookup key = lastValue pairs key
  headers : ∀ key, request.headers.lookup key = lastValue (headers.map fun h => (h.1, trim h.2)) key

/-- The two maps of a request: the query of its target by `&`-pieces, and its head. -/
theorem parseRequest_maps {rawRequest : Bytes} {request : HttpRequest} {h : Params} {rest : List Bytes}
    (plain : 63 ∉ path) (written : ∀ p ∈ pairs, QueryPair p)
    (target : (word (word ((lines newline rawRequest).headD [])).2).1 = path ++ queryText pairs)
    (head : headerLines (lines newline rawRequest).tail ∅ = .ok (h, rest))
    (parsed : parseRequest rawRequest = .ok request) :
    request.queryParams = memberMap pairs ∅ ∧ request.headers = h := by
  simp only [parseRequest, head, target, bind, Except.bind] at parsed
  cases pairs with
  | nil =>
    rw [queryText, List.append_nil, find_absent plain] at parsed
    cases parsed
    exact ⟨rfl, rfl⟩
  | cons p pairs =>
    rw [queryText, find_first plain] at parsed
    simp only [substr_right, substr_left, lines_query (List.cons_ne_nil p pairs) written,
      queryParams_pairs ∅ written] at parsed
    cases parsed
    exact ⟨rfl, rfl⟩

theorem Solid.target (hp : Solid path) (written : ∀ p ∈ pairs, QueryPair p) :
    Solid (path ++ queryText pairs) := by
  refine ⟨by simp [hp.nonempty], ?_⟩
  intro c mem
  rcases List.mem_append.1 mem with mem | mem
  · exact hp.solid c mem
  · exact queryText_solid written c mem

/-- The path ends where the query begins. -/
theorem takeWhile_query (plain : 63 ∉ path) : (path ++ queryText pairs).takeWhile (· != 63) = path := by
  cases pairs with
  | nil => rw [queryText, List.append_nil, takeWhile_absent plain]
  | cons p pairs => exact takeWhile_first plain

/-- **`parse_request` reads a request as it was written**: the method, the path without the query, the
query pairs, and the header fields with their values trimmed, whatever the body is. -/
theorem parseRequest_reads (hm : Solid method) (hp : Solid path) (plain : 63 ∉ path)
    (asked : ∀ p ∈ pairs, QueryPair p) (written : ∀ h ∈ headers, HeaderField h)
    (hv : newline ∉ version) (body : Bytes) :
    ∃ request,
      parseRequest (requestText method (path ++ queryText pairs) version headers body) = .ok request ∧
        ReadAs request method path pairs headers := by
  have oneLine : ∀ h ∈ headers, newline ∉ h.1 ∧ newline ∉ h.2 := fun h mem => (written h mem).oneLine
  have solid := hp.target asked
  have split := lines_requestText hm solid hv oneLine body
  obtain ⟨request, parsed, isMethod, isPath, _⟩ := parseRequest_text hm solid hv oneLine body
  have head := headerLines_fields ∅ (lines newline body) written
  obtain ⟨query, fields⟩ := parseRequest_maps plain asked
    (by rw [split, List.headD_cons, word_method hm, word_target solid])
    (by rw [split, List.tail_cons, head]) parsed
  refine ⟨request, parsed, isMethod, by rw [isPath, takeWhile_query plain], ?_, ?_⟩
  · intro key
    rw [query, memberMap_lookup, Finmap.lookup_empty, Option.or_none]
  · intro key
    rw [fields, memberMap_lookup, Finmap.lookup_empty, Option.or_none]

theorem parseRequest_reads_models :
    ∃ request, parseRequest (requestText (str "GET")
          (str "/v1/models" ++ queryText [(str "q", str "a=b"), ([], []), (str "q", str "?")])
          (str "HTTP/1.1") [(str "Host", str " here:80	"), (str "X", str " 	")] (str "{}")) =
        .ok request ∧
      ReadAs request (str "GET") (str "/v1/models") [(str "q", str "a=b"), ([], []), (str "q", str "?")]
        [(str "Host", str " here:80	"), (str "X", str " 	")] :=
  parseRequest_reads (by decide) (by decide) (by decide) (by decide) (by decide) (by decide) _

end Request

end ModelRuntime
