import ModelRuntime.Backend.Drawable
import ModelRuntime.Lib.Drawing

/-!
# The law of the sampler

On floats that do not round, and with a generator that draws in proportion to the weights it is handed, the token is
drawn from the softmax of the logits that top-k has left, conditioned on an event that the top-p filter makes: not
that the token is in the nucleus, but that its rank is the id of a token in the nucleus.
-/

namespace ModelRuntime
namespace Exact

open Lib
open scoped ENNReal

/-- A weight as a measure. -/
noncomputable def mass (w : ℚ) : ℝ≥0∞ := ENNReal.ofReal (w : ℝ)

theorem mass_zero : mass 0 = 0 := by simp [mass]

theorem mass_ne_zero {w : ℚ} : mass w ≠ 0 ↔ 0 < w := by
  rw [mass, Ne, ENNReal.ofReal_eq_zero, not_le]
  exact Rat.cast_pos

/-- There is no weight behind the end of the list. -/
theorem mass_getD {ws : List ℚ} {i : Nat} (outside : ws.length ≤ i) : mass (ws.getD i 0) = 0 := by
  rw [List.getD_eq_getElem?_getD, List.getElem?_eq_none outside]
  exact mass_zero

/-- The weight of a token in the softmax, `top` being the largest logit. -/
noncomputable def softWeight (exp : WithBot ℚ → ℚ) (logits : List (WithBot ℚ)) (top : WithBot ℚ) (token : Nat) :
    ℝ≥0∞ :=
  if token < logits.length then mass (exp (sub (logits.getD token ⊥) top)) else 0

/-- The tokens whose rank is the id of a token in the nucleus. -/
def rankInNucleus (indices : List Nat) (k : Nat) : Set Nat := {token | indices.idxOf token ∈ nucleus indices k}

section Weights

variable {exp : WithBot ℚ → ℚ} {logits : List (WithBot ℚ)} {indices : List Nat} {p : ℚ} {k : Nat}

/-- The largest logit as the sort puts it. -/
def topLogit (logits : List (WithBot ℚ)) (indices : List Nat) : WithBot ℚ := logits.getD (indices.getD 0 0) ⊥

theorem softWeight_finite (top : WithBot ℚ) : tsum (softWeight exp logits top) ≠ ∞ := by
  refine tsum_ne_top_of_lt (n := logits.length) (fun token outside => if_neg (Nat.not_lt.2 outside)) fun token => ?_
  rw [softWeight]
  split
  · exact ENNReal.ofReal_ne_top
  · exact ENNReal.zero_ne_top

/-- **What a token is drawn with**: its weight in the softmax, or none. -/
theorem Reaches.token_weight (first : Reaches (probs exp logits indices) p k) (desc : Descending logits indices)
    (token : Nat) : mass ((weights exp logits indices p).getD (indices.idxOf token) 0) =
      (rankInNucleus indices k).indicator (softWeight exp logits (topLogit logits indices)) token := by
  by_cases inside : token < logits.length
  · have mem := desc.mem.2 inside
    have rank := List.idxOf_lt_length_of_mem mem
    have place : indices.idxOf token < logits.length := by rwa [← desc.length]
    have here : (probs exp logits indices).getD (indices.idxOf token) 0 =
        exp (sub (logits.getD token ⊥) (topLogit logits indices)) := by
      rw [List.getD_eq_getElem _ _ (by rwa [probs_length])]
      simp [probs, topLogit]
    rw [List.getD_eq_getElem?_getD, first.weights_at desc place, Option.getD_some, here]
    by_cases event : indices.idxOf token ∈ nucleus indices k
    · rw [if_pos event, Set.indicator_of_mem (show token ∈ rankInNucleus indices k from event), softWeight,
        if_pos inside]
    · rw [if_neg event, Set.indicator_of_notMem (show token ∉ rankInNucleus indices k from event), mass_zero]
  · have absent : token ∉ indices := fun mem => inside (desc.mem.1 mem)
    have behind : (weights exp logits indices p).length ≤ indices.idxOf token := by
      rw [List.idxOf_of_notMem absent, first.weights_length desc, desc.length]
    have clear : softWeight exp logits (topLogit logits indices) token = 0 := if_neg inside
    have empty := Set.indicator_apply_eq_zero.2 fun _ : token ∈ rankInNucleus indices k => clear
    rw [mass_getD behind, empty]

/-- Names and ranks are inverse where there is a weight. -/
theorem Reaches.token_draws (first : Reaches (probs exp logits indices) p k) (desc : Descending logits indices)
    {law : PMF Nat} (draws : DrawsBy law fun i => mass ((weights exp logits indices p).getD i 0)) :
    DrawsBy (law.map fun i => indices.getD i 0)
      ((rankInNucleus indices k).indicator (softWeight exp logits (topLogit logits indices))) := by
  have inside : ∀ i, mass ((weights exp logits indices p).getD i 0) ≠ 0 → i < indices.length := by
    intro i held
    by_contra outside
    apply held
    apply mass_getD
    rw [first.weights_length desc, ← desc.length]
    omega
  have left : ∀ i, mass ((weights exp logits indices p).getD i 0) ≠ 0 → indices.idxOf (indices.getD i 0) = i := by
    intro i held
    rw [List.getD_eq_getElem _ _ (inside i held)]
    exact desc.nodup.idxOf_getElem i (inside i held)
  have right : ∀ token, mass ((weights exp logits indices p).getD (indices.idxOf token) 0) ≠ 0 →
      indices.getD (indices.idxOf token) 0 = token := by
    intro token held
    rw [List.getD_eq_getElem _ _ (inside _ held)]
    exact List.getElem_idxOf (inside _ held)
  have mapped := draws.map (fun i => indices.getD i 0) (fun token => indices.idxOf token) left right
  have same : (fun token => mass ((weights exp logits indices p).getD (indices.idxOf token) 0)) =
      (rankInNucleus indices k).indicator (softWeight exp logits (topLogit logits indices)) :=
    funext fun token => first.token_weight desc token
  rwa [same] at mapped

/-- A token of the nucleus has a weight. -/
theorem Reaches.nucleus_weight (first : Reaches (probs exp logits indices) p k) (desc : Descending logits indices)
    (rising : StrictMono exp) (mass_pos : 0 < (probs exp logits indices).sum) (pos : 0 < p) {token : Nat}
    (mem : token ∈ nucleus indices k) : softWeight exp logits (topLogit logits indices) token ≠ 0 := by
  obtain ⟨i, inside, rfl⟩ := List.getElem_of_mem mem
  rw [nucleus, List.length_take] at inside
  have rank : i < indices.length := by omega
  have rank' : i < (probs exp logits indices).length := by rwa [probs_length]
  have positive := first.positive desc rising mass_pos pos (by omega) rank'
  have within : indices[i] < logits.length := desc.mem.1 (List.getElem_mem rank)
  have here : (nucleus indices k)[i] = indices[i] := List.getElem_take
  rw [here, softWeight, if_pos within, mass_ne_zero]
  simpa [probs, topLogit] using positive

/-- The two events are one exactly where the nucleus is the tokens with the least ids. -/
theorem Reaches.events_iff (first : Reaches (probs exp logits indices) p k) (desc : Descending logits indices)
    (rising : StrictMono exp) (mass_pos : 0 < (probs exp logits indices).sum) (pos : 0 < p) {softmax : PMF Nat}
    (soft : DrawsBy softmax (softWeight exp logits (topLogit logits indices))) :
    rankInNucleus indices k ∩ softmax.support = {token | token ∈ nucleus indices k} ∩ softmax.support ↔
      ∀ i ∈ nucleus indices k, i ≤ k := by
  have bound : k < logits.length := by
    have := first.bound
    rwa [probs_length, desc.length] at this
  constructor
  · intro same
    rw [desc.nucleus_ids bound]
    intro i le
    have rank : i < indices.length := by
      rw [desc.length]
      omega
    -- The token of rank `i` is drawn given the nucleus, hence given the other event.
    have front : indices[i] ∈ nucleus indices k := by
      refine List.mem_take_iff_getElem.2 ⟨i, by omega, rfl⟩
    have held := (soft.mem_support _).2 (first.nucleus_weight desc rising mass_pos pos front)
    have event : indices[i] ∈ rankInNucleus indices k ∩ softmax.support := by
      rw [same]
      exact ⟨front, held⟩
    have here := event.1
    rwa [rankInNucleus, Set.mem_ofPred_eq, desc.nodup.idxOf_getElem i rank] at here
  · intro ids
    have all := (desc.nucleus_ids bound).1 ids
    congr 1
    ext token
    rw [rankInNucleus, Set.mem_ofPred_eq, Set.mem_ofPred_eq]
    constructor
    · intro mem
      have rank := ids _ mem
      have listed : indices.idxOf token < indices.length := by
        rw [desc.length]
        omega
      refine List.mem_take_iff_getElem.2 ⟨indices.idxOf token, by omega, List.getElem_idxOf listed⟩
    · intro mem
      apply all
      obtain ⟨i, inside, rfl⟩ := List.mem_take_iff_getElem.1 mem
      rw [desc.nodup.idxOf_getElem i (by omega)]
      omega

end Weights

/-! ## The sampler on floats -/

/-- The law of the token is that of a draw from the softmax, given the event. -/
def GivenThat (law : PMF Int) (softmax : PMF Nat) (event : Set Nat) : Prop :=
  ∃ some : ∃ token ∈ event, token ∈ softmax.support, law = PMF.map (Nat.cast : Nat → Int) (softmax.filter event some)

/-- Two events give the same law exactly where they differ outside of what is drawn only. -/
theorem GivenThat.same {law : PMF Int} {softmax : PMF Nat} {event event' : Set Nat}
    (given : GivenThat law softmax event) : GivenThat law softmax event' ↔
      event ∩ softmax.support = event' ∩ softmax.support := by
  obtain ⟨some, rfl⟩ := given
  constructor
  · rintro ⟨some', same⟩
    have supports := congrArg PMF.support same
    rw [PMF.support_map, PMF.support_map, PMF.support_filter, PMF.support_filter] at supports
    exact Set.image_injective.2 Nat.cast_injective supports
  · intro same
    have drawn : ∃ token ∈ event', token ∈ softmax.support := by
      obtain ⟨token, mem, held⟩ := some
      have both : token ∈ event' ∩ softmax.support := by
        rw [← same]
        exact ⟨mem, held⟩
      exact ⟨token, both⟩
    exact ⟨drawn, congrArg (PMF.map _) (filter_congr some drawn same)⟩

section Floats

variable {M C : Type} (lib : FloatLib) {exp : WithBot ℚ → ℚ} {api : LlamaCpp M C (List CFloat)}
  {be : LlamaBackend M C} {logits : List ℚ} {temperature p : ℚ} {k : Int}

/-- `std::discrete_distribution` draws in proportion to the weights when the seeds have this law. -/
def Fair (seeds : PMF UInt32) (ws : List ℚ) : Prop :=
  DrawsBy (seeds.map fun rd => lib.discrete rd (ws.map .finite)) fun i => mass (ws.getD i 0)

variable {lib}

/-- **The law of the sampler**: on floats that do not round, the token is drawn from the softmax of the logits that
top-k has left, given that its rank is the id of a token in the nucleus. This is the softmax given that the token is in
the nucleus exactly where the nucleus is the tokens with the least ids. -/
theorem sampler_law (floats : ExactFloats lib exp) (rising : StrictMono exp) (zero : exp ⊥ = 0) (sorts : Sorts lib)
    (nVocab : be.vocabSize api = logits.length) (ne : logits ≠ [])
    (warm : ¬ (temperature ≤ 0 ∨ temperature < coldBelow)) (pos : 0 < p) (le_one : p ≤ 1) {seeds : PMF UInt32}
    (fair : Fair lib seeds (weights exp (handed lib logits temperature k) (ranked lib logits temperature k) p)) :
    let kept := handed lib logits temperature k
    let indices := ranked lib logits temperature k
    let law := seeds.map fun rd =>
      be.sampler lib api (fun _ => rd) (logits.map .finite) (.finite temperature) (.finite p) k 0
    ∃ softmax, DrawsBy softmax (softWeight exp kept (topLogit kept indices)) ∧
      ∃ n, Reaches (probs exp kept indices) p n ∧ GivenThat law softmax (rankInNucleus indices n) ∧
        (GivenThat law softmax {token | token ∈ nucleus indices n} ↔ ∀ i ∈ nucleus indices n, i ≤ n) := by
  intro kept indices law
  have nonzero : temperature ≠ 0 := fun same => warm (.inl same.le)
  obtain ⟨a, some⟩ := filtered_some (k := k) ne fun _ _ => sorts.scaled floats nonzero
  have desc : Descending kept indices := sorts.sort kept
  have mass_pos := desc.sum_pos rising zero some
  obtain ⟨n, first⟩ := exists_reaches mass_pos pos le_one
  -- The token is the name of the rank that is drawn.
  have drawn := first.token_draws desc fair
  have named : law = PMF.map (Nat.cast : Nat → Int) ((seeds.map fun rd =>
      lib.discrete rd ((weights exp kept indices p).map .finite)).map fun i => indices.getD i 0) := by
    rw [PMF.map_comp, PMF.map_comp]
    refine congrArg (PMF.map · seeds) (funext fun rd => ?_)
    exact sampler_warm floats rising zero nVocab rfl rfl desc some warm _ 0
  -- Some token has a weight, so there is a softmax.
  obtain ⟨token, weighed⟩ := drawn.exists_weight
  obtain ⟨mem, held⟩ := Set.indicator_apply_ne_zero.1 weighed
  obtain ⟨softmax, soft⟩ : ∃ softmax, DrawsBy softmax (softWeight exp kept (topLogit kept indices)) :=
    ⟨_, .normalize (tsum_ne_zero_of held) (softWeight_finite _)⟩
  have possible : ∃ token ∈ rankInNucleus indices n, token ∈ softmax.support :=
    ⟨token, mem, (soft.mem_support token).2 held⟩
  have given : GivenThat law softmax (rankInNucleus indices n) := by
    refine ⟨possible, ?_⟩
    rw [named, drawn.unique (soft.filter possible)]
  refine ⟨softmax, soft, n, first, given, ?_⟩
  rw [given.same]
  exact first.events_iff desc rising mass_pos pos soft

end Floats

/-- Rational arithmetic, and a draw that takes the seed for the index. -/
def seedLib : FloatLib := { ratLib with discrete := fun rd _ => rd.toNat }

/-- Whatever the weights are, some law of the seeds is fair. -/
theorem exists_fair {ws : List ℚ} (few : ws.length ≤ 2 ^ 32) {i : Nat} (some : 0 < ws.getD i 0) :
    ∃ seeds, Fair seedLib seeds ws := by
  have nonzero : (tsum fun i => mass (ws.getD i 0)) ≠ 0 := tsum_ne_zero_of (mass_ne_zero.2 some)
  have finite : (tsum fun i => mass (ws.getD i 0)) ≠ ∞ :=
    tsum_ne_top_of_lt (fun _ => mass_getD) fun _ => ENNReal.ofReal_ne_top
  have seed : ∀ i, mass (ws.getD i 0) ≠ 0 → (UInt32.ofNat i).toNat = i := by
    intro i held
    apply UInt32.toNat_ofNat_of_lt'
    by_contra outside
    exact held (mass_getD (few.trans (Nat.not_lt.1 outside)))
  refine ⟨(PMF.normalize _ nonzero finite).map UInt32.ofNat, ?_⟩
  rw [Fair, PMF.map_comp]
  exact (DrawsBy.normalize nonzero finite).map _ id seed seed

/-- The second of four tokens has the largest logit, and the nucleus is that token. -/
theorem sampler_law_second : ∃ seeds : PMF UInt32, Fair seedLib seeds [0, 1 / 6, 0, 0] ∧
    let law := seeds.map fun rd => sumEngine.backend.sampler seedLib floatLlama (fun _ => rd)
      ([(0 : ℚ), 5, 0, 0].map .finite) (.finite 1) (.finite (1 / 2)) 0 0
    ∃ softmax, DrawsBy softmax (softWeight ratExp [(0 : ℚ), (5 : ℚ), (0 : ℚ), (0 : ℚ)] (5 : ℚ)) ∧
      ∃ n, Reaches (probs ratExp [(0 : ℚ), (5 : ℚ), (0 : ℚ), (0 : ℚ)] [1, 0, 2, 3]) (1 / 2) n ∧
        GivenThat law softmax (rankInNucleus [1, 0, 2, 3] n) ∧
        (GivenThat law softmax {token | token ∈ nucleus [1, 0, 2, 3] n} ↔ ∀ i ∈ nucleus [1, 0, 2, 3] n, i ≤ n) := by
  have kept : handed seedLib [(0 : ℚ), 5, 0, 0] 1 0 = ([(0 : ℚ), (5 : ℚ), (0 : ℚ), (0 : ℚ)] : List (WithBot ℚ)) := by
    decide +kernel
  have falling : ranked seedLib [(0 : ℚ), 5, 0, 0] 1 0 = [1, 0, 2, 3] := by decide +kernel
  have left : weights ratExp [(0 : ℚ), (5 : ℚ), (0 : ℚ), (0 : ℚ)] [1, 0, 2, 3] (1 / 2) = [0, 1 / 6, 0, 0] := by
    decide +kernel
  obtain ⟨seeds, fair⟩ : ∃ seeds, Fair seedLib seeds [0, 1 / 6, 0, 0] :=
    exists_fair (by decide) (i := 1) (by decide +kernel)
  have exact : ExactFloats seedLib ratExp := ⟨ratLib_exact.add, ratLib_exact.sub, ratLib_exact.div, ratLib_exact.exp⟩
  have sorts : Sorts seedLib := ⟨ratLib_sorts.sort, ratLib_sorts.partialSort⟩
  have held := @sampler_law _ _ seedLib ratExp floatLlama sumEngine.backend [0, 5, 0, 0] 1 (1 / 2) 0 exact
    ratExp_strictMono rfl sorts rfl (by decide) (by decide +kernel) (by decide +kernel) (by decide +kernel) seeds
    (by rw [kept, falling, left]; exact fair)
  rw [kept, falling] at held
  exact ⟨seeds, fair, held⟩

end Exact
end ModelRuntime
