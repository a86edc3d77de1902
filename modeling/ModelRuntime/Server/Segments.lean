import ModelRuntime.Server.Handlers
import ModelRuntime.Server.Request

/-!
# A request in segments

The client thread makes one `recv`, for at most 4095 bytes, and answers what that brings. Whether the
answer is the one to the whole request is settled by what the two ask for: a route and, behind the two
completion routes, the parameters that are read from the body (`received_iff`). Of a request cut anywhere only
the method and the path up to the cut are read (`parseRequest_take`), so every cut gives the same answer where no
route is ever read, and only there.
-/

namespace ModelRuntime
open Cpp

/-- The client thread on a connection that brings the request in `segments`. -/
def handleSegments (env : ServerEnv) (segments : List Bytes) :
    Except StdException (Option HttpResponse × List GenerateCall) :=
  handleClient env (segments.headD [])

/-- What a request asks for. -/
inductive Asked where
  | health
  | models
  | notFound
  /-- The body is not understood. -/
  | failed (what : Bytes)
  | completion (chat : Bool) (call : GenerateCall)

/-- A server to read requests with, whose engine has nothing to say. -/
def silentEnv (stof : Bytes → Except StdException CFloat) : ServerEnv where
  generate _ _ := .ok []
  stof := stof

def askedBody (stof : Bytes → Except StdException CFloat) (chat : Bool) (body : Bytes) : Asked :=
  match readCall (silentEnv stof) body with
  | .error e => .failed e.what
  | .ok call => .completion chat call

def asked (stof : Bytes → Except StdException CFloat) (request : HttpRequest) : Asked :=
  if request.method = str "GET" ∧ request.path = str "/health" then .health
  else if request.method = str "GET" ∧ request.path = str "/v1/models" then .models
  else if request.method = str "POST" ∧ request.path = str "/v1/chat/completions" then
    askedBody stof true request.body
  else if request.method = str "POST" ∧ request.path = str "/v1/completions" then
    askedBody stof false request.body
  else .notFound

/-- What the bytes of a request ask for. -/
def asks (stof : Bytes → Except StdException CFloat) (rawRequest : Bytes) : Except StdException Asked := do
  return asked stof (← parseRequest rawRequest)

/-! ## The answer -/

/-- What the server says to what is asked. -/
def answer (env : ServerEnv) : Asked → HttpResponse
  | .health => handleHealth env {}
  | .models => handleModels {}
  | .notFound =>
    { statusCode := 404, statusText := str "Not Found", body := str "\x7b\"error\": \"Not found\"\x7d" }
  | .failed what => errorResponse (.other what)
  | .completion chat call =>
    match generateResponse env call with
    | .error e => errorResponse e
    | .ok result => { body := (if chat then chatBody else completionBody) env.time call result }

theorem complete_answer (env : ServerEnv) (chat : Bool) (request : HttpRequest) :
    (complete env (if chat then chatBody else completionBody) request).1 =
      answer env (askedBody env.stof chat request.body) := by
  have same : readCall (silentEnv env.stof) request.body = readCall env request.body := rfl
  rw [complete, askedBody, same]
  cases readCall env request.body with
  | error e => rfl
  | ok call =>
    dsimp only [answer]
    cases generateResponse env call with
    | error e => rfl
    | ok result => rfl

/-- The response of `route_request` is the answer to what is asked. -/
theorem routeRequest_answer (env : ServerEnv) (request : HttpRequest) :
    (routeRequest env request).1 = answer env (asked env.stof request) := by
  rw [routeRequest, asked]
  split
  · rfl
  · split
    · rfl
    · split
      · exact complete_answer env true request
      · split
        · exact complete_answer env false request
        · rfl

/-! ## Answers tell questions apart -/

section Apart

variable {stof : Bytes → Except StdException CFloat} {a b : Asked} {chat : Bool} {call call' : GenerateCall}

/-- The status and two bytes of what an engine with nothing to say answers. -/
def Asked.mark : Asked → Int × Option UInt8 × Option UInt8
  | .health => (200, some 115, some 58)
  | .models => (200, some 111, some 58)
  | .notFound => (404, some 101, some 32)
  | .failed _ => (500, some 101, some 32)
  | .completion true _ => (200, some 105, some 104)
  | .completion false _ => (200, some 105, some 109)

theorem models_mark : ((handleModels {}).body[2]?, (handleModels {}).body[9]?) = (some 111, some 58) := by
  decide +kernel

theorem mark_answer (a : Asked) :
    ((answer (silentEnv stof) a).statusCode, (answer (silentEnv stof) a).body[2]?,
      (answer (silentEnv stof) a).body[9]?) = a.mark := by
  cases a with
  | completion chat call => cases chat <;> rfl
  | models => exact congrArg (Prod.mk (200 : Int)) models_mark
  | health | notFound | failed => rfl

/-- An engine that fails on `call` alone. -/
def failsOn (stof : Bytes → Except StdException CFloat) (call : GenerateCall) : ServerEnv where
  generate prompt config :=
    if prompt = call.prompt ∧ config.maxTokens = call.maxTokens ∧ config.temperature = call.temperature then
      .error (.other [])
    else .ok []
  stof := stof

/-- It tells the arguments of two calls apart. -/
theorem failsOn_status (h : (answer (failsOn stof call) (.completion chat call')).statusCode = 500) :
    call'.prompt = call.prompt ∧ call'.maxTokens = call.maxTokens ∧
      call'.temperature = call.temperature := by
  by_contra other
  rw [answer, generateResponse, failsOn] at h
  dsimp only at h
  rw [if_neg other] at h
  cases h

theorem body_model {time : Int}
    (prompt : call'.prompt = call.prompt)
    (h : (if chat then chatBody else completionBody) time call [] =
      (if chat then chatBody else completionBody) time call' []) : call.model = call'.model := by
  cases chat with
  | true => simpa [chatBody, prompt] using h
  | false => simpa [completionBody, prompt] using h

theorem completion_apart
    (h : ∀ env : ServerEnv, env.stof = stof →
      answer env (.completion chat call) = answer env (.completion chat call')) : call = call' := by
  have fails : (answer (failsOn stof call) (.completion chat call)).statusCode = 500 := by
    rw [answer, generateResponse, failsOn]
    dsimp only
    rw [if_pos ⟨rfl, rfl, rfl⟩]
    rfl
  rw [h _ rfl] at fails
  obtain ⟨prompt, maxTokens, temperature⟩ := failsOn_status fails
  have silent := congrArg HttpResponse.body (h (silentEnv stof) rfl)
  have model := body_model prompt silent
  cases call
  cases call'
  simp_all

/-- **Answers tell questions apart**: two questions that every engine gets the same answer to are one. -/
theorem answer_eq_iff :
    (∀ env : ServerEnv, env.stof = stof → answer env a = answer env b) ↔ a = b := by
  constructor
  · intro h
    have mark : a.mark = b.mark := by
      rw [← @mark_answer stof a, ← @mark_answer stof b, h (silentEnv stof) rfl]
    cases a with
    | health | models | notFound => cases b with
      | completion chat => cases chat <;> cases mark
      | _ => first | rfl | cases mark
    | failed what => cases b with
      | failed what' =>
        have body := congrArg HttpResponse.body (h (silentEnv stof) rfl)
        have same : what = what' := by simpa [answer, errorResponse, errorBody, StdException.what] using body
        rw [same]
      | completion chat => cases chat <;> cases mark
      | _ => cases mark
    | completion chat call => cases b with
      | completion chat' call' =>
        obtain rfl : chat = chat' := by cases chat <;> cases chat' <;> first | rfl | cases mark
        rw [completion_apart h]
      | _ => cases chat <;> cases mark
  · rintro rfl env _
    rfl

end Apart

/-! ## Segments -/

/-- The response sent is the one to the whole request. -/
def AnsweredWhole (env : ServerEnv) (r : Bytes) (segments : List Bytes) : Prop :=
  ∃ request calls, parseRequest r = .ok request ∧
    handleSegments env segments = .ok (some (routeRequest env request).1, calls)

/-- The request comes in these segments. -/
structure CutInto (segments : List Bytes) (r : Bytes) : Prop where
  nonempty : ∀ s ∈ segments, s ≠ []
  whole : segments.flatten = r

/-- The methods and paths `route_request` knows. -/
def routes : List (Bytes × Bytes) :=
  [(str "GET", str "/health"), (str "GET", str "/v1/models"), (str "POST", str "/v1/chat/completions"),
    (str "POST", str "/v1/completions")]

/-- The request line up to the end of the route's path. -/
def routeText (route : Bytes × Bytes) : Bytes := route.1 ++ 32 :: route.2

/-- The request starts with the text of a route, whether its path ends there or not. -/
def StartsRoute (r : Bytes) : Prop := ∃ route ∈ routes, routeText route <+: r

/-- A request whose head tells the length of its body. -/
def Framed (r : Bytes) : Prop :=
  ∃ method path headers body, Solid method ∧ Solid path ∧
    (∀ h ∈ headers, (colon ∉ h.1 ∧ carriage ∉ h.1 ∧ newline ∉ h.1) ∧ carriage ∉ h.2 ∧ newline ∉ h.2) ∧
    (str "Content-Length", 32 :: decimal body.length) ∈ headers ∧
    r = requestText method path (str "HTTP/1.1") headers body

/-! ## Cut requests -/

section Cut

variable {env : ServerEnv} {stof : Bytes → Except StdException CFloat} {request : HttpRequest}
  {method path rest r : Bytes} {segments : List Bytes}

/-- A line is read up to the end of what came of it. -/
theorem lines_headD {line : Bytes} (ne : line ≠ []) (none : newline ∉ line) (rest : Bytes) :
    ∃ more, (lines newline (line ++ rest)).headD [] = line ++ more ∧ more <+: rest := by
  by_cases ended : newline ∈ rest
  · obtain ⟨front, back, rfl, first⟩ := split_first ended
    have clean : newline ∉ line ++ front := by
      rw [List.mem_append]
      exact not_or.2 ⟨none, first⟩
    refine ⟨front, ?_, List.prefix_append ..⟩
    rw [← List.append_assoc, lines_line clean, List.headD_cons]
  · have clean : newline ∉ line ++ rest := by
      rw [List.mem_append]
      exact not_or.2 ⟨none, ended⟩
    refine ⟨rest, ?_, List.prefix_rfl⟩
    rw [lines_single (by simp [ne]) clean, List.headD_cons]

theorem word_solid (solid : ∀ x ∈ rest, isSpace x = false) : word rest = (rest, []) := by
  have start : rest.dropWhile isSpace = rest := by
    cases rest with
    | nil => rfl
    | cons x rest => rw [List.dropWhile_cons, if_neg (by simp [solid x (by simp)])]
  have all : ∀ x ∈ rest, (!isSpace x) = true := fun x mem => by rw [solid x mem]; rfl
  unfold word
  rw [start]
  dsimp only
  rw [List.takeWhile_eq_self_iff.2 all, List.dropWhile_eq_nil_iff.2 all]

/-- **Of a request cut anywhere** the method and the path are read up to the cut. -/
theorem parseRequest_take (rest : Bytes) (hm : Solid method) (hp : Solid path) {m : Nat} (positive : 0 < m) :
    ∃ request, parseRequest ((method ++ 32 :: (path ++ 32 :: rest)).take m) = .ok request ∧
      request.method = method.take m ∧
      request.path = (path.take (m - method.length - 1)).takeWhile (· != 63) := by
  obtain ⟨request, parsed, isMethod, isPath, _⟩ := parseRequest_ok ((method ++ 32 :: (path ++ 32 :: rest)).take m)
  refine ⟨request, parsed, ?_⟩
  rw [isMethod, isPath]
  rcases Nat.lt_or_ge method.length m with past | within
  · obtain ⟨k, rfl⟩ := Nat.exists_eq_add_of_le past
    have all : method.take (method.length.succ + k) = method := List.take_of_length_le (by omega)
    have clean : newline ∉ method ++ 32 :: path.take k := by
      have fixed : newline ≠ 32 := by decide
      have inPath : newline ∉ path.take k := fun mem => hp.oneLine (List.mem_of_mem_take mem)
      simp [fixed, hm.oneLine, inPath]
    have split : (method ++ 32 :: (path ++ 32 :: rest)).take (method.length.succ + k) =
        (method ++ 32 :: path.take k) ++ (32 :: rest).take (k - path.length) := by
      rw [List.take_append, all, show method.length.succ + k - method.length = k + 1 by omega, List.take_succ_cons,
        List.take_append, List.append_assoc, List.cons_append]
    obtain ⟨more, line, rest_of⟩ := lines_headD (by simp) clean ((32 :: rest).take (k - path.length))
    rw [split, line, all, show method.length.succ + k - method.length - 1 = k by omega, List.append_assoc,
      List.cons_append, word_method hm]
    refine ⟨rfl, ?_⟩
    congr 1
    cases more with
    | nil =>
      rw [List.append_nil, word_blank (by decide), word_solid fun x mem => hp.solid x (List.mem_of_mem_take mem)]
    | cons c more =>
      -- the cut is behind the path
      cases beyond : k - path.length with
      | zero =>
        rw [beyond, List.take_zero] at rest_of
        cases List.prefix_nil.1 rest_of
      | succ n =>
        rw [beyond, List.take_succ_cons, List.cons_prefix_cons] at rest_of
        have whole : path.take k = path := List.take_of_length_le (by omega)
        rw [rest_of.1, whole, word_target hp]
  · have short : (method ++ 32 :: (path ++ 32 :: rest)).take m = method.take m :=
      List.take_append_of_le_length within
    have ne : method.take m ≠ [] := by
      rw [Ne, List.take_eq_nil_iff]
      exact not_or.2 ⟨by omega, hm.nonempty⟩
    rw [short, lines_single ne fun mem => hm.oneLine (List.mem_of_mem_take mem), List.headD_cons,
      word_solid fun x mem => hm.solid x (List.mem_of_mem_take mem), show m - method.length - 1 = 0 by omega]
    exact ⟨rfl, rfl⟩

/-- Only what is not a route is not found. -/
theorem asked_notFound_iff :
    asked stof request = .notFound ↔ ∀ route ∈ routes, ¬ (request.method = route.1 ∧ request.path = route.2) := by
  have body : ∀ chat, askedBody stof chat request.body ≠ .notFound := by
    intro chat
    rw [askedBody]
    cases readCall (silentEnv stof) request.body <;> nofun
  rw [asked]
  simp only [routes, List.forall_mem_cons, List.not_mem_nil, false_implies, implies_true, and_true]
  split
  · simp_all
  · split
    · simp_all
    · split
      · simp_all
      · split <;> simp_all

/-- The status says so. -/
theorem answer_notFound_iff {a : Asked} : (answer env a).statusCode = 404 ↔ a = .notFound := by
  have ok : ¬ (200 : Int) = 404 := by decide
  have failed : ¬ (500 : Int) = 404 := by decide
  cases a with
  | notFound => exact iff_of_true rfl rfl
  | health | models => exact iff_of_false ok nofun
  | failed what => exact iff_of_false failed nofun
  | completion chat call =>
    rw [answer]
    cases generateResponse env call with
    | error e => exact iff_of_false failed nofun
    | ok result => exact iff_of_false ok nofun

/-- A request is answered by what it asks for, as far as it was received. -/
theorem answeredWhole_iff {whole received : HttpRequest} (parsed : parseRequest r = .ok whole)
    (arrived : parseRequest ((segments.headD []).take 4095) = .ok received) (nonempty : segments.headD [] ≠ []) :
    AnsweredWhole env r segments ↔ answer env (asked env.stof received) = answer env (asked env.stof whole) := by
  have sent : handleSegments env segments = .ok (some (routeRequest env received).1, (routeRequest env received).2) :=
    handleClient_received env nonempty arrived
  rw [← routeRequest_answer, ← routeRequest_answer]
  constructor
  · rintro ⟨request, calls, parsed', same⟩
    rw [parsed] at parsed'
    cases parsed'
    rw [sent] at same
    exact Option.some.inj (congrArg Prod.fst (Except.ok.inj same))
  · intro same
    exact ⟨whole, _, parsed, by rw [sent, same]⟩

theorem routes_filled : ∀ route ∈ routes, route.2 ≠ [] := by decide

/-- Cut anywhere, a request that does not start with a route is not found. -/
theorem asked_take (stof : Bytes → Except StdException CFloat) (hm : Solid method) (hp : Solid path)
    (none : ¬ StartsRoute (method ++ 32 :: (path ++ 32 :: rest))) {m : Nat} (positive : 0 < m) :
    ∃ request, parseRequest ((method ++ 32 :: (path ++ 32 :: rest)).take m) = .ok request ∧
      asked stof request = .notFound := by
  obtain ⟨request, parsed, isMethod, isPath⟩ := parseRequest_take rest hm hp positive
  refine ⟨request, parsed, asked_notFound_iff.2 ?_⟩
  rintro route known ⟨ofMethod, ofPath⟩
  have begins : route.2 <+: path.take (m - method.length - 1) := by
    rw [← ofPath, isPath]
    exact List.takeWhile_prefix _
  have past : method.length < m := by
    by_contra within
    rw [show m - method.length - 1 = 0 by omega, List.take_zero, List.prefix_nil] at begins
    exact routes_filled route known begins
  have whole : route.1 = method := by rw [← ofMethod, isMethod, List.take_of_length_le past.le]
  refine none ⟨route, known, ?_⟩
  rw [routeText, whole, List.prefix_append_right_inj, List.cons_prefix_cons]
  exact ⟨rfl, (begins.trans (List.take_prefix _ _)).trans (List.prefix_append ..)⟩

/-- A first byte on its own is not found. -/
theorem asked_byte (stof : Bytes → Except StdException CFloat) (rest : Bytes) (hm : Solid method) (hp : Solid path) :
    ∃ request, parseRequest ((method ++ 32 :: (path ++ 32 :: rest)).take 1) = .ok request ∧
      asked stof request = .notFound := by
  obtain ⟨request, parsed, _, isPath⟩ := parseRequest_take rest hm hp Nat.one_pos
  refine ⟨request, parsed, asked_notFound_iff.2 ?_⟩
  rintro route known ⟨_, ofPath⟩
  rw [show 1 - method.length - 1 = 0 by omega] at isPath
  exact routes_filled route known (ofPath.symm.trans isPath)

/-- A route on its own is found. -/
theorem asked_route (stof : Bytes → Except StdException CFloat) {route : Bytes × Bytes} (known : route ∈ routes) :
    ∃ request, parseRequest (routeText route) = .ok request ∧ asked stof request ≠ .notFound := by
  have words : ∀ route ∈ routes, (word ((lines newline (routeText route)).headD [])).1 = route.1 ∧
      (word (word ((lines newline (routeText route)).headD [])).2).1.takeWhile (· != 63) = route.2 := by
    decide +kernel
  obtain ⟨request, parsed, isMethod, isPath, _⟩ := parseRequest_ok (routeText route)
  refine ⟨request, parsed, fun missing => ?_⟩
  rw [(words route known).1] at isMethod
  rw [(words route known).2] at isPath
  exact asked_notFound_iff.1 missing route known ⟨isMethod, isPath⟩

/-- **What is received** is answered like the whole request by every engine exactly where it asks for the same. -/
theorem received_iff (nonempty : segments.headD [] ≠ []) :
    (∀ env : ServerEnv, env.stof = stof → AnsweredWhole env r segments) ↔
      asks stof ((segments.headD []).take 4095) = asks stof r := by
  obtain ⟨received, arrived, _⟩ := parseRequest_ok ((segments.headD []).take 4095)
  obtain ⟨whole, parsed, _⟩ := parseRequest_ok r
  have both : asks stof ((segments.headD []).take 4095) = asks stof r ↔ asked stof received = asked stof whole := by
    rw [asks, asks, arrived, parsed]
    exact ⟨fun same => Except.ok.inj same, fun same => congrArg Except.ok same⟩
  rw [both, ← answer_eq_iff]
  refine forall_congr' fun env => forall_congr' ?_
  rintro rfl
  exact answeredWhole_iff parsed arrived nonempty

end Cut

section Framed

variable {r : Bytes} {segments : List Bytes}

theorem Framed.cut (framed : Framed r) : ∃ method path rest, Solid method ∧ Solid path ∧ newline ∈ rest ∧
    r = method ++ 32 :: (path ++ 32 :: rest) := by
  obtain ⟨method, path, headers, body, hm, hp, _, _, rfl⟩ := framed
  exact ⟨method, path, _, hm, hp, by simp, rfl⟩

theorem CutInto.first (cut : CutInto segments r) (ne : r ≠ []) :
    segments.headD [] ≠ [] ∧ segments.headD [] <+: r := by
  obtain ⟨nonempty, rfl⟩ := cut
  cases segments with
  | nil => exact absurd rfl ne
  | cons s rest => exact ⟨nonempty s List.mem_cons_self, List.prefix_append ..⟩

theorem cutInto_two {n : Nat} (positive : 0 < n) (inside : n < r.length) : CutInto [r.take n, r.drop n] r := by
  refine ⟨?_, by simp⟩
  have size : (r.take n).length = n := List.length_take_of_le inside.le
  have left : (r.drop n).length = r.length - n := List.length_drop
  simp only [List.forall_mem_cons, List.not_mem_nil, false_implies, implies_true, and_true]
  constructor
  · rintro none
    rw [none] at size
    exact positive.ne size
  · rintro none
    rw [none] at left
    exact absurd left (by rw [List.length_nil]; omega)

/-- **Segments do not matter** to a request exactly where it does not start with a route: one that does is not found
when its first byte comes alone, and found when its first segment ends with the route. A request that comes whole is
answered as a whole. -/
theorem handleSegments_iff (env : ServerEnv) {r : Bytes} (framed : Framed r) :
    ((∀ segments, CutInto segments r → AnsweredWhole env r segments) ↔ ¬ StartsRoute r) ∧
      ∀ segments, (segments.headD []).take 4095 = r → AnsweredWhole env r segments := by
  obtain ⟨method, path, rest, hm, hp, ended, text⟩ := framed.cut
  have ne : r ≠ [] := by
    rw [text]
    simp
  obtain ⟨whole, parsed, _⟩ := parseRequest_ok r
  constructor
  · constructor
    · rintro all ⟨route, known, begins⟩
      have size : ∀ route ∈ routes, 0 < (routeText route).length ∧ (routeText route).length ≤ 4095 ∧
          newline ∉ routeText route := by
        decide +kernel
      obtain ⟨positive, short, oneLine⟩ := size route known
      have inside : (routeText route).length < r.length := by
        refine begins.length_le.lt_of_ne fun same => oneLine ?_
        rw [begins.eq_of_length same, text]
        simp [ended]
      -- the first byte alone is not found, so the whole is not
      have one := all _ (cutInto_two Nat.one_pos (by omega))
      obtain ⟨first, arrived, missing⟩ := asked_byte env.stof rest hm hp
      rw [← text] at arrived
      have byte : ([r.take 1, r.drop 1].headD []).take 4095 = r.take 1 := by
        rw [List.headD_cons, List.take_take, Nat.min_eq_right (by omega)]
      rw [answeredWhole_iff parsed (byte ▸ arrived) ((cutInto_two Nat.one_pos (by omega)).first ne).1] at one
      have notFound := answer_notFound_iff.1 ((congrArg HttpResponse.statusCode one).symm.trans
        (answer_notFound_iff.2 missing))
      -- the route alone is found
      have two := all _ (cutInto_two positive inside)
      obtain ⟨found, arrived, isFound⟩ := asked_route env.stof known
      have front : ([r.take (routeText route).length, r.drop (routeText route).length].headD []).take 4095 =
          routeText route := by
        rw [List.headD_cons, ← List.prefix_iff_eq_take.1 begins, List.take_of_length_le short]
      rw [answeredWhole_iff parsed (front ▸ arrived) ((cutInto_two positive inside).first ne).1] at two
      exact isFound (answer_notFound_iff.1 ((congrArg HttpResponse.statusCode two).trans
        (answer_notFound_iff.2 notFound)))
    · intro none segments cut
      obtain ⟨brings, front⟩ := cut.first ne
      have size := List.length_pos_iff.2 brings
      have received : (segments.headD []).take 4095 = r.take (min 4095 (segments.headD []).length) := by
        rw [← List.take_take, ← List.prefix_iff_eq_take.1 front]
      rw [text] at none
      obtain ⟨request, arrived, missing⟩ := asked_take env.stof hm hp none
        (by omega : 0 < min 4095 (segments.headD []).length)
      obtain ⟨request', parsed', missing'⟩ := asked_take env.stof hm hp none (List.length_pos_iff.2 ne)
      rw [← text] at arrived parsed'
      rw [List.take_length] at parsed'
      exact (answeredWhole_iff parsed' (received ▸ arrived) brings).2 (by rw [missing, missing'])
  · intro segments brings
    have nonempty : segments.headD [] ≠ [] := by
      intro none
      rw [none] at brings
      exact ne brings.symm
    exact (answeredWhole_iff parsed (brings ▸ parsed) nonempty).2 rfl

end Framed

/-- The head of a completion request, which comes in a segment of its own. -/
def promptHead : Bytes :=
  requestText (str "POST") (str "/v1/completions") (str "HTTP/1.1") [(str "Content-Length", str " 14")] []

def promptBody : Bytes := str "\x7b\"prompt\":\"a\"\x7d"

theorem framed_prompt : Framed (promptHead ++ promptBody) :=
  ⟨str "POST", str "/v1/completions", [(str "Content-Length", str " 14")], promptBody, by decide,
    by decide, by decide, by decide, by decide⟩

theorem handleSegments_iff_prompt :
    ((∀ segments, CutInto segments (promptHead ++ promptBody) →
        AnsweredWhole (silentEnv fun _ => .ok (.finite 1)) (promptHead ++ promptBody) segments) ↔
          ¬ StartsRoute (promptHead ++ promptBody)) ∧
      ∀ segments, (segments.headD []).take 4095 = promptHead ++ promptBody →
        AnsweredWhole (silentEnv fun _ => .ok (.finite 1)) (promptHead ++ promptBody) segments :=
  handleSegments_iff _ framed_prompt

/-- A body in a segment of its own is not read: an engine that repeats its prompt is asked for nothing. -/
theorem body_not_received :
    ¬ ∀ (env : ServerEnv) (r : Bytes) (segments : List Bytes), Framed r → (∀ s ∈ segments, s ≠ []) →
      segments.flatten = r → ∃ request calls, parseRequest r = .ok request ∧
        handleSegments env segments = .ok (some (routeRequest env request).1, calls) := by
  intro all
  let echo : ServerEnv := { generate := fun prompt _ => .ok prompt, stof := fun _ => .ok (.finite 1) }
  obtain ⟨request, calls, parsed, sent⟩ :=
    all echo _ [promptHead, promptBody] framed_prompt (by decide) (by simp)
  have differ : (handleSegments echo [promptHead, promptBody]).toOption.bind
      (fun sent => sent.1.map HttpResponse.body) ≠
        (parseRequest (promptHead ++ promptBody)).toOption.map
          (fun request => (routeRequest echo request).1.body) := by
    decide +kernel
  rw [parsed, sent] at differ
  exact differ rfl

end ModelRuntime
