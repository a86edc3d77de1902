import ModelRuntime.Server.ParseJson

/-!
# The progress of `parse_json`

Every pass of the loop that reads a member leaves its key and its value behind it, apart from each
other, and the key's quotes and the colon besides: three bytes at least, with an empty value before a
brace as with any other.
-/

namespace ModelRuntime
open Cpp

/-- A pass from `pos` to `pos'` that reads `key` and `value`. -/
structure ReadsMember (json : Bytes) (pos pos' : Nat) (key value : Bytes) : Prop where
  moves : pos + 3 ≤ pos'
  inside : pos' ≤ json.length
  /-- Where they stand. -/
  slices : ∃ i j, pos ≤ i ∧ key <+: json.drop i ∧ i + key.length ≤ j ∧ value <+: json.drop j ∧
    j + value.length ≤ pos'

section

variable {json r : Bytes}

/-! ## One pass -/

/-- A member scan is a pass. -/
theorem scanMember_reads (h : r <:+ json) {key value rest : Bytes} (e : scanMember r = some (key, value, rest)) :
    ReadsMember json (posOf json r) (posOf json rest) key value := by
  obtain ⟨junk, after, split, _, found⟩ := scanMember_split e
  obtain ⟨before, tail, rfl, some_before, left⟩ := scanAfterKey_split found
  have colon_there : 0 < before.length := List.length_pos_iff.2 some_before
  have keyAt : key ++ quote :: (before ++ (value ++ tail)) <:+ json :=
    List.IsSuffix.trans ⟨junk ++ [quote], by simp [split]⟩ h
  have valueAt : value ++ tail <:+ json :=
    List.IsSuffix.trans ⟨key ++ quote :: before, by simp⟩ keyAt
  have room := h.length_le
  have shorter := left.length_le
  have size := congrArg List.length split
  simp only [List.length_append, List.length_cons] at size
  constructor
  · simp only [posOf]
    omega
  · simp only [posOf]
    omega
  · refine ⟨posOf json (key ++ quote :: (before ++ (value ++ tail))), posOf json (value ++ tail), ?_, ?_, ?_, ?_, ?_⟩
    · simp only [posOf, List.length_append, List.length_cons]
      omega
    · rw [drop_posOf keyAt]
      exact List.prefix_append ..
    · simp only [posOf, List.length_append, List.length_cons]
      omega
    · rw [drop_posOf valueAt]
      exact List.prefix_append ..
    · simp only [posOf, List.length_append]
      omega

/-- **Every pass** reads a key and a value in front of the place it moves to. -/
theorem parseJsonStep_reads {pos pos' : Nat} {result result' : Params}
    (pass : parseJsonStep json (pos, result) = .ok (some (pos', result'))) :
    ∃ key value, result' = result.insert key value ∧ ReadsMember json pos pos' key value := by
  by_cases inside : pos ≤ json.length
  · have here : posOf json (json.drop pos) = pos := by
      rw [posOf, List.length_drop]
      omega
    rw [← here, parseJsonStep_eq (List.drop_suffix pos json), Except.ok.injEq, Option.map_eq_some_iff] at pass
    obtain ⟨⟨key, value, rest⟩, scan, moved⟩ := pass
    cases moved
    refine ⟨key, value, rfl, ?_⟩
    rw [← here]
    exact scanMember_reads (List.drop_suffix pos json) scan
  · rw [parseJsonStep, if_pos (by omega)] at pass
    cases pass

/-! ## The loop -/

theorem keys_insert_card (m : Params) (key value : Bytes) : (m.insert key value).keys.card ≤ m.keys.card + 1 := by
  have among : (m.insert key value).keys ⊆ insert key m.keys := by
    intro k mem
    rw [Finmap.mem_keys, Finmap.mem_insert] at mem
    rw [Finset.mem_insert, Finmap.mem_keys]
    exact mem
  exact (Finset.card_le_card among).trans (Finset.card_insert_le key m.keys)

/-- Passes from the start stay inside the text, and each takes three bytes of it. -/
theorem passes_bound {n : Nat} {last : Nat × Params}
    (passes : Passes (passM (parseJsonStep json)) n (0, ∅) last) :
    3 * n ≤ json.length ∧ last.2.keys.card ≤ n := by
  have inside : last.1 ≤ json.length := by
    refine passes.inv (fun s => s.1 ≤ json.length) ?_ (Nat.zero_le _)
    intro s s' _ pass
    obtain ⟨key, value, _, reads⟩ := parseJsonStep_reads (passM_eq_some_iff.1 pass)
    exact reads.inside
  have far : 0 + 3 * n ≤ last.1 := by
    apply @Passes.grows _ _ _ _ _ passes Prod.fst
    intro s s' pass
    obtain ⟨key, value, _, reads⟩ := parseJsonStep_reads (passM_eq_some_iff.1 pass)
    exact reads.moves
  have few : last.2.keys.card ≤ 0 + 1 * n := by
    apply @Passes.grows_le _ _ _ _ _ passes fun s => s.2.keys.card
    intro s s' pass
    obtain ⟨key, value, stored, _⟩ := parseJsonStep_reads (passM_eq_some_iff.1 pass)
    rw [stored]
    exact keys_insert_card s.2 key value
  omega

/-- **`parse_json` makes progress.** Each pass moves on by three bytes or more and stores two separate
parts of what it moved over, so that after a third of the bytes at most a pass ends the loop, with as
many entries at most. -/
theorem parseJson_progress (json : Bytes) :
    (∀ pos result pos' result', parseJsonStep json (pos, result) = .ok (some (pos', result')) →
      ∃ key value, result' = result.insert key value ∧ ReadsMember json pos pos' key value) ∧
    ∃ n last, Passes (passM (parseJsonStep json)) n (0, ∅) last ∧ parseJsonStep json last = .ok none ∧
      parseJson json = .ok last.2 ∧ n ≤ json.length / 3 ∧ last.2.keys.card ≤ json.length / 3 := by
  refine ⟨fun _ _ _ _ pass => parseJsonStep_reads pass, ?_⟩
  have start : posOf json json = 0 := by simp [posOf]
  obtain ⟨pos, run⟩ := parseJson_loop (json.length + 1) json ∅ List.suffix_rfl (by omega)
  rw [start] at run
  obtain ⟨n, _, passes, ends⟩ := whileM_passes run
  obtain ⟨steps, entries⟩ := passes_bound passes
  refine ⟨n, _, passes, ends (by omega), ?_, by omega, by omega⟩
  rw [parseJson_eq]

end

end ModelRuntime
