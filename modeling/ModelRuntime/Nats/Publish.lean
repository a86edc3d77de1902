import ModelRuntime.Lib.JsonPath
import ModelRuntime.Lib.Utf8
import ModelRuntime.Tools.JsonParser

/-!
# Published responses

`publish_response` and `serialize_response` write the same message by hand, each splicing its texts
between quotes as they are. A text comes back from the JSON exactly where it is verbatim, whatever the
texts around it hold.
-/

namespace ModelRuntime
open Cpp Lib Lib.Json

structure InferenceResponse where
  requestId : Bytes
  delta : Bytes
  done : Bool := false
  messageId : Bytes := []

/-- A `natsConnection_Publish` call: the subject, which it takes as a C string, and the payload. -/
structure Published where
  subject : Bytes
  data : Bytes

/-- The bytes that `s.c_str()` shows to C. -/
def cStr (s : Bytes) : Bytes := s.takeWhile (· != 0)

/-- The payload. -/
def responseJson (response : InferenceResponse) : Bytes :=
  str "\x7b\"request_id\":\"" ++ response.requestId ++ str "\",\"delta\":\"" ++ response.delta ++
    str "\",\"done\":" ++ boolText response.done ++ str ",\"message_id\":\"" ++ response.messageId ++
    str "\"\x7d"

/-- `publish_response` in a build with NATS; `connected` where `conn_` is not null. -/
def publishResponse (connected : Bool) (response : InferenceResponse) : List Published :=
  if !connected then []
  else
    let json := responseJson response
    { subject := cStr (str "inference.responses." ++ response.requestId), data := json } ::
      if response.done then [{ subject := str "inference.completed", data := json }] else []

def JsonParser.serializeResponse (requestId content : Bytes) (done : Bool) : Bytes :=
  str "\x7b\"request_id\":\"" ++ requestId ++ str "\",\"delta\":\"" ++ content ++ str "\",\"done\":" ++
    boolText done ++ str "\x7d"

/-- A JSON document with these values at these keys. -/
def Decodes (data : Bytes) (fields : List (Bytes × Json)) : Prop :=
  Utf8 data ∧ ∃ v, decode data = some v ∧ ∀ f ∈ fields, member f.1 v = some f.2

/-- The fields both encoders write. -/
def commonFields (requestId delta : Bytes) (done : Bool) : List (Bytes × Json) :=
  [(str "request_id", .string requestId), (str "delta", .string delta), (str "done", .bool done)]

def responseFields (response : InferenceResponse) : List (Bytes × Json) :=
  commonFields response.requestId response.delta response.done ++
    [(str "message_id", .string response.messageId)]

/-! ## The texts member by member -/

theorem no_blank : ∀ c ∈ ([] : Bytes), isWs c = true := fun _ h => by cases h

def idMember (requestId : Bytes) : Bytes × Bytes × Json :=
  (str "request_id", quoted requestId, .string requestId)

def deltaMember (delta : Bytes) : Bytes × Bytes × Json := (str "delta", quoted delta, .string delta)

def doneMember (done : Bool) : Bytes × Bytes × Json := (str "done", boolText done, .bool done)

theorem responseJson_text (response : InferenceResponse) : responseJson response =
    recordText [] [idMember response.requestId, deltaMember response.delta, doneMember response.done]
      (str "message_id") (quoted response.messageId) := by
  simp only [responseJson, recordText, fieldsText, fieldText, idMember, deltaMember, doneMember, quoted,
    List.flatMap_cons, List.flatMap_nil, List.append_assoc, List.cons_append, List.nil_append,
    List.append_nil]
  rfl

theorem serializeResponse_text (requestId content : Bytes) (done : Bool) :
    JsonParser.serializeResponse requestId content done =
      recordText [] [idMember requestId, deltaMember content] (str "done") (boolText done) := by
  simp only [JsonParser.serializeResponse, recordText, fieldsText, fieldText, idMember, deltaMember,
    quoted, List.flatMap_cons, List.flatMap_nil, List.append_assoc, List.cons_append, List.nil_append,
    List.append_nil]
  rfl

section Splices

variable {requestId delta : Bytes} {done : Bool} {back : KnownMembers} {key t : Bytes} {v : Json}

theorem known_id (hid : Verbatim requestId) : Known [idMember requestId] :=
  .cons (by decide) (reads_string hid) known_nil

theorem known_common (hid : Verbatim requestId) (hdelta : Verbatim delta) :
    Known [idMember requestId, deltaMember delta] :=
  .cons (by decide) (reads_string hid) <| .cons (by decide) (reads_string hdelta) known_nil

/-- What the two encoders have in common: an identifier and a delta that are found are verbatim. -/
theorem common_verbatim
    (read : decode (recordText [] (idMember requestId :: deltaMember delta :: back) key t) = some v)
    (id : member (str "request_id") v = some (.string requestId))
    (content : member (str "delta") v = some (.string delta)) :
    Verbatim requestId ∧ Verbatim delta := by
  obtain ⟨_, first⟩ := (Stands.document rfl read).field no_blank [] known_nil
    (show Verbatim (str "request_id") by decide) (fun _ => rfl)
  rw [idMember, quoted_append] at first
  have hid := first.verbatim id
  obtain ⟨_, second⟩ := (Stands.document rfl read).field no_blank [idMember requestId]
    (known_id hid) (show Verbatim (str "delta") by decide) (fun _ => rfl)
  rw [deltaMember, quoted_append] at second
  exact ⟨hid, second.verbatim content⟩

theorem known_done (hid : Verbatim requestId) (hdelta : Verbatim delta) (done : Bool) :
    Known [idMember requestId, deltaMember delta, doneMember done] :=
  (known_common hid hdelta).append (.cons (by decide) (reads_bool done) known_nil)

end Splices

theorem ascii_boolText (b : Bool) : Ascii (boolText b) := by
  cases b <;> decide

/-! ## The two encoders -/

theorem responseJson_utf8 {response : InferenceResponse} (hid : Utf8 response.requestId)
    (hdelta : Utf8 response.delta) (hmessage : Utf8 response.messageId) : Utf8 (responseJson response) := by
  unfold responseJson
  repeat' apply Utf8.append
  all_goals first
    | assumption
    | exact (ascii_boolText _).utf8
    | exact Ascii.utf8 (by decide)

theorem serializeResponse_utf8 {requestId content : Bytes} (hid : Utf8 requestId)
    (hcontent : Utf8 content) (done : Bool) :
    Utf8 (JsonParser.serializeResponse requestId content done) := by
  unfold JsonParser.serializeResponse
  repeat' apply Utf8.append
  all_goals first
    | assumption
    | exact (ascii_boolText _).utf8
    | exact Ascii.utf8 (by decide)

/-- **The payload** decodes to the response exactly where its three texts are verbatim. -/
theorem responseJson_iff {response : InferenceResponse} (hid : Utf8 response.requestId)
    (hdelta : Utf8 response.delta) (hmessage : Utf8 response.messageId) :
    Decodes (responseJson response) (responseFields response) ↔
      Verbatim response.requestId ∧ Verbatim response.delta ∧ Verbatim response.messageId := by
  constructor
  · rintro ⟨_, v, read, found⟩
    rw [responseJson_text] at read
    obtain ⟨id, delta⟩ := common_verbatim read
      (found (str "request_id", .string response.requestId) (by simp [responseFields, commonFields]))
      (found (str "delta", .string response.delta) (by simp [responseFields, commonFields]))
    have last := (Stands.document rfl read).lastField no_blank (known_done id delta response.done)
      (by decide) (fun _ => rfl)
    rw [quoted_append] at last
    exact ⟨id, delta, last.verbatim (found (str "message_id", .string response.messageId)
      (by simp [responseFields]))⟩
  · rintro ⟨id, delta, message⟩
    refine ⟨responseJson_utf8 hid hdelta hmessage, ?_⟩
    have body := reads_record no_blank (known_done id delta response.done)
      (show Verbatim (str "message_id") by decide) (reads_string message)
    rw [← responseJson_text] at body
    refine ⟨_, body.decode, fun f mem => ?_⟩
    simp only [responseFields, commonFields, List.cons_append, List.nil_append, List.mem_cons,
      List.not_mem_nil, or_false] at mem
    rcases mem with rfl | rfl | rfl | rfl <;> rfl

/-- **The serialized response** decodes to its fields exactly where its two texts are verbatim. -/
theorem serializeResponse_iff {requestId content : Bytes} (hid : Utf8 requestId)
    (hcontent : Utf8 content) (done : Bool) :
    Decodes (JsonParser.serializeResponse requestId content done) (commonFields requestId content done) ↔
      Verbatim requestId ∧ Verbatim content := by
  constructor
  · rintro ⟨_, v, read, found⟩
    rw [serializeResponse_text] at read
    exact common_verbatim read
      (found (str "request_id", .string requestId) (by simp [commonFields]))
      (found (str "delta", .string content) (by simp [commonFields]))
  · rintro ⟨id, delta⟩
    refine ⟨serializeResponse_utf8 hid hcontent done, ?_⟩
    have body := reads_record no_blank (known_common id delta) (show Verbatim (str "done") by decide)
      (reads_bool done)
    rw [← serializeResponse_text] at body
    refine ⟨_, body.decode, fun f mem => ?_⟩
    simp only [commonFields, List.mem_cons, List.not_mem_nil, or_false] at mem
    rcases mem with rfl | rfl | rfl <;> rfl

theorem publishResponse_data {response : InferenceResponse} {p : Bytes → Prop} :
    (∀ m ∈ publishResponse true response, p m.data) ↔ p (responseJson response) := by
  rw [publishResponse, Bool.not_true, if_neg Bool.false_ne_true]
  cases response.done <;> simp

/-- **Publishing.** Everything that is published for a response, and the serialized response, decode to
its fields exactly where none of its texts needs escaping. -/
theorem published_iff {response : InferenceResponse} (hid : Utf8 response.requestId)
    (hdelta : Utf8 response.delta) (hmessage : Utf8 response.messageId) :
    ((∀ m ∈ publishResponse true response, Decodes m.data (responseFields response)) ∧
        Decodes (JsonParser.serializeResponse response.requestId response.delta response.done)
          (commonFields response.requestId response.delta response.done)) ↔
      Verbatim response.requestId ∧ Verbatim response.delta ∧ Verbatim response.messageId := by
  rw [publishResponse_data (p := fun data => Decodes data (responseFields response)),
    responseJson_iff hid hdelta hmessage, serializeResponse_iff hid hdelta]
  constructor
  · exact fun h => h.1
  · exact fun h => ⟨h, h.1, h.2.1⟩

theorem published_iff_hello :
    let response : InferenceResponse :=
      { requestId := str "r1", delta := str "hello", done := true, messageId := str "m1" }
    ((∀ m ∈ publishResponse true response, Decodes m.data (responseFields response)) ∧
        Decodes (JsonParser.serializeResponse (str "r1") (str "hello") true)
          (commonFields (str "r1") (str "hello") true)) ↔
      Verbatim (str "r1") ∧ Verbatim (str "hello") ∧ Verbatim (str "m1") :=
  published_iff (Ascii.utf8 (by decide)) (Ascii.utf8 (by decide)) (Ascii.utf8 (by decide))

/-- A delta of two lines does not come back. -/
theorem published_two_lines :
    ¬ ∀ response : InferenceResponse, Utf8 response.requestId → Utf8 response.delta →
      Utf8 response.messageId →
      (∀ m ∈ publishResponse true response, Decodes m.data (responseFields response)) ∧
        Decodes (JsonParser.serializeResponse response.requestId response.delta response.done)
          (commonFields response.requestId response.delta response.done) := by
  intro all
  have hid : Utf8 (str "r1") := Ascii.utf8 (by decide)
  have hdelta : Utf8 (str "a\nb") := Ascii.utf8 (by decide)
  obtain ⟨_, serialized⟩ := all { requestId := str "r1", delta := str "a\nb" } hid hdelta utf8_nil
  exact absurd ((serializeResponse_iff hid hdelta false).1 serialized).2 (by decide)

end ModelRuntime
