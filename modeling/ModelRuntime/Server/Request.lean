import ModelRuntime.Server.Http

/-!
# The text of a request

A request as a client writes it, and what `parse_request` makes of it: the method, the path before its
question mark, and the body. The body is put together from lines, each of which gets its newline back
whether it had one or not.
-/

namespace ModelRuntime
open Cpp

/-! ## The request line -/

/-- A word is what stands before a blank. -/
theorem word_append {w r : Bytes} {c : UInt8} (nonempty : w ≠ []) (solid : ∀ x ∈ w, isSpace x = false)
    (blank : isSpace c = true) : word (w ++ c :: r) = (w, c :: r) := by
  obtain ⟨x, w, rfl⟩ := List.exists_cons_of_ne_nil nonempty
  have all : ∀ y ∈ x :: w, (!isSpace y) = true := by
    intro y hy
    rw [solid y hy]
    rfl
  have start : ((x :: w) ++ c :: r).dropWhile isSpace = (x :: w) ++ c :: r := by
    rw [List.cons_append, List.dropWhile_cons, if_neg (by simp [solid x (by simp)])]
  unfold word
  rw [start]
  dsimp only
  rw [List.takeWhile_append_of_pos all, List.dropWhile_append_of_pos all, List.takeWhile_cons,
    List.dropWhile_cons, blank]
  simp

/-- Blanks before a word do not matter. -/
theorem word_blank {c : UInt8} (blank : isSpace c = true) (s : Bytes) : word (c :: s) = word s := by
  unfold word
  rw [List.dropWhile_cons, if_pos blank]

/-! ## The head -/

/-- A request with the header fields `headers`, each a name and the text after its colon. -/
def requestText (method path version : Bytes) (headers : List (Bytes × Bytes)) (body : Bytes) : Bytes :=
  method ++ 32 :: (path ++ 32 :: (version ++ carriage :: newline ::
    (headers.flatMap (fun h => h.1 ++ colon :: (h.2 ++ [carriage, newline])) ++
      carriage :: newline :: body)))

/-- The head lines as `getline` gives them. -/
def headLines (headers : List (Bytes × Bytes)) : List Bytes :=
  headers.map fun h => h.1 ++ colon :: (h.2 ++ [carriage])

theorem lines_head {headers : List (Bytes × Bytes)}
    (oneLine : ∀ h ∈ headers, newline ∉ h.1 ∧ newline ∉ h.2) (body : Bytes) :
    lines newline (headers.flatMap (fun h => h.1 ++ colon :: (h.2 ++ [carriage, newline])) ++
      carriage :: newline :: body) = headLines headers ++ [carriage] :: lines newline body := by
  have other : newline ≠ colon ∧ newline ≠ carriage := by decide
  induction headers with
  | nil =>
    have last : newline ∉ [carriage] := by decide
    exact lines_line last
  | cons h headers ih =>
    obtain ⟨hn, hv⟩ := oneLine h (by simp)
    have rest := ih fun x hx => oneLine x (by simp [hx])
    have whole : newline ∉ h.1 ++ colon :: (h.2 ++ [carriage]) := by
      simp [hn, hv, other]
    rw [List.flatMap_cons, headLines, List.map_cons, List.cons_append, ← headLines, ← rest,
      ← lines_line whole]
    simp

theorem headLines_plain (headers : List (Bytes × Bytes)) :
    ∀ line ∈ headLines headers, line ≠ [carriage] ∧ line ≠ [] := by
  intro line mem
  obtain ⟨h, _, rfl⟩ := List.mem_map.1 mem
  constructor
  · intro e
    have size := congrArg List.length e
    simp only [List.length_append, List.length_cons, List.length_nil] at size
    omega
  · simp

/-! ## The request -/

/-- A method or a path: some bytes, none of them white space. -/
structure Solid (w : Bytes) : Prop where
  nonempty : w ≠ []
  solid : ∀ x ∈ w, isSpace x = false

instance (w : Bytes) : Decidable (Solid w) :=
  decidable_of_iff (w ≠ [] ∧ ∀ x ∈ w, isSpace x = false) ⟨fun h => ⟨h.1, h.2⟩, fun h => ⟨h.1, h.2⟩⟩

theorem Solid.oneLine {w : Bytes} (h : Solid w) : newline ∉ w := by
  intro mem
  exact absurd (h.solid _ mem) (by decide)

section Request

variable {method path version : Bytes} {headers : List (Bytes × Bytes)}

/-- The lines of a request: its first one, the head, and the body. -/
theorem lines_requestText (hm : Solid method) (hp : Solid path) (hv : newline ∉ version)
    (oneLine : ∀ h ∈ headers, newline ∉ h.1 ∧ newline ∉ h.2) (body : Bytes) :
    lines newline (requestText method path version headers body) =
      (method ++ 32 :: (path ++ 32 :: (version ++ [carriage]))) ::
        (headLines headers ++ [carriage] :: lines newline body) := by
  have first : newline ∉ method ++ 32 :: (path ++ 32 :: (version ++ [carriage])) := by
    have fixed : newline ≠ 32 ∧ newline ≠ carriage := by decide
    simp [fixed, hm.oneLine, hp.oneLine, hv]
  rw [← lines_head oneLine, ← lines_line first]
  simp [requestText]

theorem word_method (hm : Solid method) (r : Bytes) : word (method ++ 32 :: r) = (method, 32 :: r) :=
  word_append hm.nonempty hm.solid (by decide)

theorem word_target (hp : Solid path) (r : Bytes) : word (32 :: (path ++ 32 :: r)) = (path, 32 :: r) := by
  rw [word_blank (by decide)]
  exact word_append hp.nonempty hp.solid (by decide)

/-- **`parse_request`** gives back the method, the path and the body ended by a newline. -/
theorem parseRequest_text (hm : Solid method) (hp : Solid path) (hv : newline ∉ version)
    (oneLine : ∀ h ∈ headers, newline ∉ h.1 ∧ newline ∉ h.2) (body : Bytes) :
    ∃ request, parseRequest (requestText method path version headers body) = .ok request ∧
      request.method = method ∧ request.path = path.takeWhile (· != 63) ∧
      request.body = body ++ if body = [] ∨ body.getLast? = some newline then [] else [newline] := by
  have split := lines_requestText hm hp hv oneLine body
  obtain ⟨request, parsed, isMethod, isPath, isBody⟩ :=
    parseRequest_ok (requestText method path version headers body)
  rw [split, List.headD_cons, word_method hm] at isMethod isPath
  rw [split, List.tail_cons, afterHead_end _ (headLines_plain headers), lines_text] at isBody
  rw [word_target hp] at isPath
  exact ⟨request, parsed, isMethod, isPath, isBody⟩

/-- **The body of a request** is what was sent exactly where it is empty or ends in a newline. -/
theorem parseRequest_body_iff (hm : Solid method) (hp : Solid path)
    (oneLine : ∀ h ∈ headers, newline ∉ h.1 ∧ newline ∉ h.2) (body : Bytes) :
    (∃ request, parseRequest (requestText method path (str "HTTP/1.1") headers body) = .ok request ∧
        request.body = body) ↔
      body = [] ∨ body.getLast? = some newline := by
  obtain ⟨request, parsed, _, _, isBody⟩ := parseRequest_text hm hp
    (show newline ∉ str "HTTP/1.1" by decide) oneLine body
  rw [parsed]
  constructor
  · rintro ⟨_, same, whole⟩
    cases same
    rw [isBody, List.append_right_eq_self] at whole
    by_contra open_end
    rw [if_neg open_end] at whole
    cases whole
  · intro ended
    rw [if_pos ended, List.append_nil] at isBody
    exact ⟨request, rfl, isBody⟩

theorem parseRequest_body_iff_object :
    (∃ request, parseRequest (requestText (str "POST") (str "/v1/completions") (str "HTTP/1.1")
          [(str "Host", str " x")] (str "{}
")) = .ok request ∧
        request.body = str "{}
") ↔
      str "{}
" = [] ∨ (str "{}
").getLast? = some newline :=
  parseRequest_body_iff (by decide) (by decide) (by decide) _

/-- A body without a newline at its end comes back with one. -/
theorem body_without_newline :
    ¬ ∀ (method path : Bytes) (headers : List (Bytes × Bytes)) (body : Bytes),
      (method ≠ [] ∧ ∀ x ∈ method, isSpace x = false) → (path ≠ [] ∧ ∀ x ∈ path, isSpace x = false) →
      (∀ h ∈ headers, (colon ∉ h.1 ∧ carriage ∉ h.1 ∧ newline ∉ h.1) ∧
        carriage ∉ h.2 ∧ newline ∉ h.2) →
      ∃ request, parseRequest (requestText method path (str "HTTP/1.1") headers body) = .ok request ∧
        request.body = body := by
  intro all
  obtain ⟨request, parsed, whole⟩ := all (str "POST") (str "/v1/completions") [] (str "{}")
    (by decide) (by decide) (by decide)
  obtain ⟨other, parsed', _, _, ended⟩ := parseRequest_text
    (show Solid (str "POST") by decide) (show Solid (str "/v1/completions") by decide)
    (show newline ∉ str "HTTP/1.1" by decide) (show ∀ h ∈ [], _ by simp) (str "{}")
  rw [parsed'] at parsed
  cases parsed
  rw [whole] at ended
  revert ended
  decide

end Request

end ModelRuntime
