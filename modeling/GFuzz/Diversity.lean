import GFuzz.Similarity
import GFuzz.History
import GFuzz.Strings

/-!
# Algorithm 3: state diversity

`gfuzz_evaluate_state_diversity` scores the current snapshot against the
history: the mean similarity over every nonzero slot of the current snapshot and
every historical snapshot, mixed with the coverage ratio normalised by the
history's running bounds.  The nested loops are `similarityAccumulate`, the
coverage term is `coverageScore`, and the function is their combination.

## Results

* `gfuzzEvaluateStateDiversity_nonneg`, `gfuzzEvaluateStateDiversity_le`: every
  score lies in `[0, w_sim · maxVarSimilarity + w_cov]`, for every snapshot and
  every history.  The bound is far above `1`: a single string slot against a
  historical one already scores above `5` (`diversity_exceeds_one`).
* `history_ring_buffer`: every history reachable from
  `gfuzz_init_state_history` holds, as a multiset, the last `min n 100`
  admitted snapshots, with the oldest at `head` once full, a lower coverage bound
  of `0` and an upper one covering every admission; so the coverage denominator
  is positive and an all-zero snapshot scores `0` (energy multiplier `1`).
* `repeat_diversity_is_coverage_term`: a snapshot scored against a history of
  copies of its own states loses every similarity term, but keeps the coverage
  term `w_cov · r / (max 1 r + 0.0001)`, since the bounds stay `0` and
  `max 1 r`; an exact repeat with a high ratio clears the admission threshold
  (`exact_repeat_readmitted`).
* `gfuzzEvaluateStateDiversity_perm`: on a history that keeps the ring-buffer invariant the
  loops compute `queueDiversity` of the queue (`StateHistory.Inv.gfuzzEvaluateStateDiversity_eq`),
  a sum over the queued snapshots with `count` times the current snapshot's nonzero slots as
  comparisons; so the score sees the queue only as a multiset.
-/

namespace GFuzz

variable {K : Type*} [LinearOrderedField K]

/-! ## The evaluator -/

/-- One round of the inner loop: a nonzero slot of the current snapshot adds its similarity
and one comparison. -/
def similarityStep (current histSnap : StateSnapshot K) (acc : K × Nat)
    (v : Fin gfuzzVarMapSize) : K × Nat :=
  if current.states v ≠ 0 then
    (acc.1 + gfuzzCalculateVarSimilarity (current.states v) (histSnap.states v), acc.2 + 1)
  else acc

/-- Lines 2–21: `similarity_score` before normalisation and `comparison_count`, over
`h < count` and `v < GFUZZ_VAR_MAP_SIZE`. -/
def similarityAccumulate (current : StateSnapshot K) (history : StateHistory K) : K × Nat :=
  (List.range history.count).foldl
    (fun acc h => (List.finRange gfuzzVarMapSize).foldl
      (similarityStep current (history.snapshots.getD h StateSnapshot.zero)) acc) (0, 0)

/-- Lines 23–27: the coverage ratio, normalised by the running bounds and clamped. -/
def coverageScore (current : StateSnapshot K) (history : StateHistory K) : K :=
  let coverageRatio := coverageRatio history.totalVars current.validCount
  let score := (coverageRatio - history.minCoverage) /
    (history.maxCoverage - history.minCoverage + 0.0001)
  let score := if score < 0 then 0 else score
  if score > 1 then 1 else score

/-- `gfuzz_evaluate_state_diversity`. -/
def gfuzzEvaluateStateDiversity (current : StateSnapshot K) (history : StateHistory K) : K :=
  if history.count = 0 then 1
  else
    let acc := similarityAccumulate current history
    let similarityScore := if acc.2 > 0 then acc.1 / acc.2 else acc.1
    gfuzzWeightSimilarity * similarityScore + gfuzzWeightCoverage * coverageScore current history

/-- `gfuzz_calculate_energy_multiplier`: `1 + GFUZZ_ENERGY_COEFF · state_score`. -/
def gfuzzCalculateEnergyMultiplier (stateScore : K) : K :=
  1 + gfuzzEnergyCoeff * stateScore

/-- The bound on every diversity score. -/
def maxDiversity : K := gfuzzWeightSimilarity * maxVarSimilarity + gfuzzWeightCoverage

/-! ## Bounds -/

theorem foldl_preserves {α β : Type*} (P : β → Prop) (f : β → α → β)
    (hf : ∀ b a, P b → P (f b a)) (l : List α) {b : β} (hb : P b) : P (l.foldl f b) := by
  induction l generalizing b with
  | nil => exact hb
  | cons a l ih => exact ih (hf b a hb)

/-- The accumulator stays between `0` and `maxVarSimilarity` per comparison. -/
def AccBounded (acc : K × Nat) : Prop := 0 ≤ acc.1 ∧ acc.1 ≤ maxVarSimilarity * acc.2

theorem similarityStep_bounded (current histSnap : StateSnapshot K) (acc : K × Nat)
    (v : Fin gfuzzVarMapSize) (h : AccBounded acc) :
    AccBounded (similarityStep current histSnap acc v) := by
  unfold similarityStep
  split_ifs
  · have h0 := gfuzzCalculateVarSimilarity_nonneg (K := K) (current.states v) (histSnap.states v)
    have h1 := gfuzzCalculateVarSimilarity_le (K := K) (current.states v) (histSnap.states v)
    refine ⟨add_nonneg h.1 h0, ?_⟩
    push_cast
    linarith [h.2]
  · exact h

theorem similarityAccumulate_bounded (current : StateSnapshot K) (history : StateHistory K) :
    AccBounded (similarityAccumulate current history) :=
  foldl_preserves AccBounded _
    (fun acc _ hacc => foldl_preserves AccBounded _
      (fun acc v h => similarityStep_bounded current _ acc v h) _ hacc) _
    ⟨le_rfl, by simp⟩

theorem maxVarSimilarity_nonneg : (0 : K) ≤ maxVarSimilarity := by
  unfold maxVarSimilarity gfuzzWeightString gfuzzStringLevAlpha gfuzzStringLenBeta; norm_num

theorem coverageScore_mem (current : StateSnapshot K) (history : StateHistory K) :
    0 ≤ coverageScore current history ∧ coverageScore current history ≤ 1 := by
  unfold coverageScore
  dsimp only
  split_ifs with hneg hgt hgt
  · exact ⟨zero_le_one, le_rfl⟩
  · exact ⟨le_rfl, zero_le_one⟩
  · exact ⟨zero_le_one, le_rfl⟩
  · exact ⟨not_lt.1 hneg, not_lt.1 hgt⟩

/-- The mean similarity lies in `[0, maxVarSimilarity]`. -/
theorem similarityScore_mem (acc : K × Nat) (h : AccBounded acc) :
    0 ≤ (if acc.2 > 0 then acc.1 / acc.2 else acc.1) ∧
      (if acc.2 > 0 then acc.1 / acc.2 else acc.1) ≤ maxVarSimilarity := by
  split_ifs with hc
  · have hc' : (0 : K) < acc.2 := by exact_mod_cast hc
    exact ⟨div_nonneg h.1 hc'.le, (div_le_iff₀ hc').mpr h.2⟩
  · have : acc.2 = 0 := by omega
    have h2 := h.2
    rw [this, Nat.cast_zero, mul_zero] at h2
    exact ⟨h.1, h2.trans maxVarSimilarity_nonneg⟩

theorem one_le_maxDiversity : (1 : K) ≤ maxDiversity := by
  unfold maxDiversity maxVarSimilarity gfuzzWeightSimilarity gfuzzWeightCoverage gfuzzWeightString
    gfuzzStringLevAlpha gfuzzStringLenBeta
  norm_num

theorem gfuzzEvaluateStateDiversity_nonneg (current : StateSnapshot K) (history : StateHistory K) :
    0 ≤ gfuzzEvaluateStateDiversity current history := by
  unfold gfuzzEvaluateStateDiversity gfuzzWeightSimilarity gfuzzWeightCoverage
  split_ifs
  · exact zero_le_one
  · have hs := similarityScore_mem _ (similarityAccumulate_bounded current history)
    have hc := coverageScore_mem current history
    dsimp only
    linarith [hs.1, hc.1]

/-- **Every score is at most `w_sim · maxVarSimilarity + w_cov`.** -/
theorem gfuzzEvaluateStateDiversity_le (current : StateSnapshot K) (history : StateHistory K) :
    gfuzzEvaluateStateDiversity current history ≤ maxDiversity := by
  unfold gfuzzEvaluateStateDiversity
  split_ifs
  · exact one_le_maxDiversity
  · have hs := similarityScore_mem _ (similarityAccumulate_bounded current history)
    have hc := coverageScore_mem current history
    unfold maxDiversity
    have hw1 : (0 : K) ≤ gfuzzWeightSimilarity := by unfold gfuzzWeightSimilarity; norm_num
    have hw2 : (0 : K) ≤ gfuzzWeightCoverage := by unfold gfuzzWeightCoverage; norm_num
    dsimp only
    calc gfuzzWeightSimilarity * _ + gfuzzWeightCoverage * coverageScore current history
        ≤ gfuzzWeightSimilarity * maxVarSimilarity + gfuzzWeightCoverage * 1 := by
          gcongr
          · exact hs.2
          · exact hc.2
      _ = _ := by rw [mul_one]

/-! ## An all-zero snapshot -/

/-- A snapshot of zeros makes no comparison. -/
theorem similarityAccumulate_of_states_zero {current : StateSnapshot K}
    (hz : current.states = StateMap.zero) (history : StateHistory K) :
    similarityAccumulate current history = (0, 0) :=
  have hstep : ∀ hs acc v, similarityStep current hs acc v = acc := fun _ _ _ => by
    rw [similarityStep, if_neg (by simp [hz, StateMap.zero])]
  foldl_preserves (· = ((0 : K), 0)) _
    (fun _ _ hacc => foldl_preserves (· = ((0 : K), 0)) _
      (fun acc v h => (hstep _ acc v).trans h) _ hacc) _ rfl

/-- With the lower bound at `0`, a snapshot with no valid slot has coverage term `0`. -/
theorem coverageScore_of_validCount_zero {current : StateSnapshot K} {history : StateHistory K}
    (hv : current.validCount = 0) (hmin : history.minCoverage = 0) :
    coverageScore current history = 0 := by
  have hr : (coverageRatio history.totalVars 0 : K) = 0 := by
    unfold coverageRatio; split_ifs <;> simp
  simp [coverageScore, hv, hr, hmin]

/-- An all-zero snapshot scores `0` against every nonempty history whose lower bound is `0`. -/
theorem gfuzzEvaluateStateDiversity_of_zero {current : StateSnapshot K} {history : StateHistory K}
    (hz : current.states = StateMap.zero) (hv : current.validCount = 0) (hc : history.count ≠ 0)
    (hmin : history.minCoverage = 0) : gfuzzEvaluateStateDiversity current history = 0 := by
  rw [gfuzzEvaluateStateDiversity, if_neg hc]
  simp [similarityAccumulate_of_states_zero hz, coverageScore_of_validCount_zero hv hmin]

/-! ## Histories reachable from the initial one -/

theorem contents_gfuzzInitStateHistory (totalVars : Nat) :
    (gfuzzInitStateHistory totalVars : StateHistory K).contents = [] := rfl

/-- The queue of a history reached from the initial one: the last `100` admissions. -/
theorem contents_addAll_init (totalVars : Nat) (ss : List (StateSnapshot K)) :
    ((gfuzzInitStateHistory totalVars).addAll ss).contents =
      ss.drop (ss.length - gfuzzStateHistorySize) := by
  simpa [contents_gfuzzInitStateHistory] using (inv_gfuzzInitStateHistory totalVars).contents_addAll ss

theorem count_addAll_init (totalVars : Nat) (ss : List (StateSnapshot K)) :
    ((gfuzzInitStateHistory totalVars).addAll ss).count = min ss.length gfuzzStateHistorySize := by
  rw [← ((inv_gfuzzInitStateHistory totalVars).addAll ss).length_contents, contents_addAll_init,
    List.length_drop]
  omega

/-- **The ring buffer holds the last `min n 100` admissions.**  For every run of admissions
from `gfuzz_init_state_history`: the count, the range of `head`, the filled slots as a
multiset, the oldest at `head` once full, the coverage bounds, and what they give the
evaluator on an all-zero snapshot. -/
theorem history_ring_buffer (totalVars : Nat) (ss : List (StateSnapshot K)) :
    let h := (gfuzzInitStateHistory totalVars).addAll ss
    h.count = min ss.length gfuzzStateHistorySize ∧
      h.head < gfuzzStateHistorySize ∧
      (h.snapshots.take h.count).Perm (ss.drop (ss.length - gfuzzStateHistorySize)) ∧
      (h.count = gfuzzStateHistorySize →
        h.snapshots[h.head]? = (ss.drop (ss.length - gfuzzStateHistorySize)).head?) ∧
      h.minCoverage = 0 ∧
      (∀ s ∈ ss, (0 : K) ≤ coverageRatio totalVars s.validCount ∧
        coverageRatio totalVars s.validCount ≤ h.maxCoverage) ∧
      0 < h.maxCoverage - h.minCoverage + 0.0001 ∧
      (h.count ≠ 0 → ∀ current : StateSnapshot K, current.states = StateMap.zero →
        current.validCount = 0 →
          gfuzzEvaluateStateDiversity current h = 0 ∧
            gfuzzCalculateEnergyMultiplier (gfuzzEvaluateStateDiversity current h) = 1) := by
  intro h
  have hi : h.Inv := (inv_gfuzzInitStateHistory totalVars).addAll ss
  have hq : h.contents = _ := contents_addAll_init totalVars ss
  have hmax := StateHistory.le_maxCoverage_addAll (h := gfuzzInitStateHistory (K := K) totalVars) ss
  have hmin := hi.minCoverage_eq
  refine ⟨count_addAll_init totalVars ss, hi.head_lt, ?_, fun hfull => ?_, hmin, fun s hs => ⟨coverageRatio_nonneg _ _, ?_⟩,
    ?_, fun hc current hz hv => ?_⟩
  · -- the filled slots are the queue, rotated
    rw [← hq, StateHistory.contents]
    exact (List.rotate_perm _ _).symm
  · -- full: the queue starts at `head`
    rw [← hq, StateHistory.contents, List.head?_rotate (by simp [hfull, hi.length_snapshots, hi.head_lt]),
      List.getElem?_take_of_lt (by rw [hfull]; exact hi.head_lt)]
  · exact hmax.2 s hs
  · rw [hmin]; linarith [hi.one_le_maxCoverage]
  · have hd := gfuzzEvaluateStateDiversity_of_zero hz hv hc hmin
    refine ⟨hd, ?_⟩
    rw [hd, gfuzzCalculateEnergyMultiplier, mul_zero, add_zero]

/-! ## Repeats of one state

Against a history that has only seen snapshots of the current state map, every comparison is of
a word with itself and scores `0`; the coverage term is left.  The bounds it is normalised by
are not the observed ratio twice: the lower one stays `0` and the upper one is `max 1 r`. -/

/-- A slot below `count` holds an admitted snapshot. -/
theorem getD_mem_of_lt_count (totalVars : Nat) (ss : List (StateSnapshot K)) {i : Nat}
    (hi : i < ((gfuzzInitStateHistory totalVars).addAll ss).count) :
    ((gfuzzInitStateHistory totalVars).addAll ss).snapshots.getD i StateSnapshot.zero ∈ ss := by
  set H := (gfuzzInitStateHistory totalVars : StateHistory K).addAll ss
  have hinv : H.Inv := (inv_gfuzzInitStateHistory totalVars).addAll ss
  have hlen : i < H.snapshots.length := by rw [hinv.length_snapshots]; exact hi.trans_le hinv.count_le
  have hmem : H.snapshots.getD i StateSnapshot.zero ∈ H.contents := by
    rw [StateHistory.contents, List.mem_rotate, List.getD_eq_getElem _ _ hlen]
    exact List.mem_iff_getElem.mpr ⟨i, by simp; omega, List.getElem_take ..⟩
  rw [contents_addAll_init] at hmem
  exact List.mem_of_mem_drop hmem

/-- Comparing a snapshot with copies of its own states adds nothing.  (The invariant is stated
without a projection: the kernel would otherwise unfold the loop over the whole map.) -/
theorem similarityAccumulate_of_repeats {current : StateSnapshot K} {history : StateHistory K}
    (h : ∀ i < history.count,
      (history.snapshots.getD i StateSnapshot.zero).states = current.states) :
    ∃ n, similarityAccumulate current history = (0, n) :=
  foldl_preserves_mem (fun acc : K × Nat => ∃ n, acc = (0, n)) _
    (fun i hi _ hacc => foldl_preserves (fun acc : K × Nat => ∃ n, acc = (0, n)) _
      (fun acc v ⟨n, hn⟩ => by
        subst hn
        unfold similarityStep
        split_ifs
        · rw [h i (List.mem_range.mp hi), gfuzzCalculateVarSimilarity_self, add_zero]
          exact ⟨n + 1, rfl⟩
        · exact ⟨n, rfl⟩) _ hacc) ⟨0, rfl⟩

/-- Repeated admissions of one ratio leave the upper bound at the larger of it and the start. -/
theorem maxCoverage_addAll_of_ratio {h : StateHistory K} {ss : List (StateSnapshot K)} {r : K}
    (hr : ∀ s ∈ ss, coverageRatio h.totalVars s.validCount = r) (hne : ss ≠ []) :
    (h.addAll ss).maxCoverage = max h.maxCoverage r := by
  induction ss using List.reverseRecOn with
  | nil => exact absurd rfl hne
  | append_singleton ss s ih =>
    rw [StateHistory.addAll_append_singleton, gfuzzAddToHistory_maxCoverage,
      StateHistory.addAll_totalVars, hr s (List.mem_append_right _ (List.mem_singleton_self s))]
    rcases eq_or_ne ss [] with rfl | hss
    · rfl
    · rw [ih (fun t ht => hr t (List.mem_append_left _ ht)) hss, max_assoc, max_self]

/-- Within the bounds `[0, max]`, the coverage term is the ratio over `max + 0.0001`: neither
clamp applies. -/
theorem coverageScore_of_le_maxCoverage {current : StateSnapshot K} {history : StateHistory K}
    (hmin : history.minCoverage = 0)
    (hle : coverageRatio history.totalVars current.validCount ≤ history.maxCoverage) :
    coverageScore current history =
      coverageRatio history.totalVars current.validCount / (history.maxCoverage + 0.0001) := by
  have h0 := coverageRatio_nonneg (K := K) history.totalVars current.validCount
  have hd : 0 < history.maxCoverage + 0.0001 := by linarith
  have hx0 := div_nonneg h0 hd.le
  have hx1 := (div_le_one hd).mpr (by linarith : coverageRatio history.totalVars
    current.validCount ≤ history.maxCoverage + 0.0001)
  simp only [coverageScore, hmin, sub_zero]
  rw [if_neg (not_lt.mpr hx0), if_neg (not_lt.mpr hx1)]

/-- A snapshot against a nonempty history of snapshots of its own states: the similarity
term vanishes and the coverage term is `r / (max 1 r + 0.0001)`. -/
theorem gfuzzEvaluateStateDiversity_of_repeats (totalVars : Nat) (shm : StateMap)
    {ss : List (StateSnapshot K)} (hss : ∀ s ∈ ss, s.states = shm ∧ s.ValidCountCorrect)
    (hne : ss ≠ []) :
    gfuzzEvaluateStateDiversity (gfuzzCreateSnapshot shm) ((gfuzzInitStateHistory totalVars).addAll ss) =
      gfuzzWeightCoverage * (coverageRatio totalVars (countValid shm) /
        (max 1 (coverageRatio totalVars (countValid shm)) + 0.0001)) := by
  set H := (gfuzzInitStateHistory totalVars : StateHistory K).addAll ss
  set r : K := coverageRatio totalVars (countValid shm)
  have hinv : H.Inv := (inv_gfuzzInitStateHistory totalVars).addAll ss
  have htot : H.totalVars = totalVars := StateHistory.addAll_totalVars ss
  have hcount : H.count ≠ 0 := by
    have := List.length_pos.mpr hne
    rw [count_addAll_init]; unfold gfuzzStateHistorySize; omega
  obtain ⟨n, hsim⟩ : ∃ n, similarityAccumulate (gfuzzCreateSnapshot shm) H = (0, n) :=
    similarityAccumulate_of_repeats fun i hi => (hss _ (getD_mem_of_lt_count totalVars ss hi)).1
  have hmax : H.maxCoverage = max 1 r := by
    refine (maxCoverage_addAll_of_ratio (r := r) (fun s hs => ?_) hne).trans ?_
    · have hv : s.validCount = countValid shm := by
        rw [countValid_eq, ← (hss s hs).1]; exact (hss s hs).2
      rw [hv]; rfl
    · simp only [gfuzzInitStateHistory, gfuzzMaxCoverage]; norm_num
  have hratio : coverageRatio H.totalVars (gfuzzCreateSnapshot shm : StateSnapshot K).validCount = r := by
    rw [htot, gfuzzCreateSnapshot_validCount]
  have hcov : coverageScore (gfuzzCreateSnapshot shm) H = r / (max 1 r + 0.0001) := by
    rw [coverageScore_of_le_maxCoverage hinv.minCoverage_eq (by rw [hratio, hmax]; exact le_max_right _ _),
      hratio, hmax]
  rw [gfuzzEvaluateStateDiversity, if_neg hcount]
  simp only [hsim, zero_div, ite_self, mul_zero, zero_add, hcov]

/-- **An exact repeat is scored by its coverage alone.**  For every state map and every history
reached from `gfuzz_init_state_history` by admitting only snapshots of that map's states, the
score of the map's snapshot is `1` for the empty history and otherwise
`w_cov · r / (max 1 r + 0.0001)`, with `r` its coverage ratio. -/
theorem repeat_diversity_is_coverage_term (totalVars : Nat) (shm : StateMap)
    (ss : List (StateSnapshot K)) (hss : ∀ s ∈ ss, s.states = shm ∧ s.ValidCountCorrect) :
    let r : K := coverageRatio totalVars (countValid shm)
    let d : K :=
      gfuzzEvaluateStateDiversity (gfuzzCreateSnapshot shm) ((gfuzzInitStateHistory totalVars).addAll ss)
    (ss = [] → d = 1) ∧ (ss ≠ [] → d = gfuzzWeightCoverage * (r / (max 1 r + 0.0001))) :=
  ⟨fun hne => by subst hne; rfl, gfuzzEvaluateStateDiversity_of_repeats totalVars shm hss⟩

/-- The map with slot `0` holding `1` has one valid slot. -/
theorem countValid_update_zero {w : UInt32} (hw : w ≠ 0) :
    countValid (Function.update StateMap.zero 0 w) = 1 := by
  rw [countValid_eq, Finset.card_eq_one]
  exact ⟨0, by ext i; by_cases hi : i = 0 <;> simp [hi, hw, Function.update_noteq, StateMap.zero]⟩

/-- One admission of a one-slot snapshot, with the hypothesis discharged. -/
theorem repeat_diversity_of_one_slot :
    let shm : StateMap := Function.update StateMap.zero 0 1
    (∀ s ∈ [(gfuzzCreateSnapshot shm : StateSnapshot ℚ)], s.states = shm ∧ s.ValidCountCorrect) ∧
      let r : ℚ := coverageRatio 1 (countValid shm)
      let d : ℚ := gfuzzEvaluateStateDiversity (gfuzzCreateSnapshot shm)
        ((gfuzzInitStateHistory 1).addAll [gfuzzCreateSnapshot shm])
      ([(gfuzzCreateSnapshot shm : StateSnapshot ℚ)] = [] → d = 1) ∧
        ([(gfuzzCreateSnapshot shm : StateSnapshot ℚ)] ≠ [] →
          d = gfuzzWeightCoverage * (r / (max 1 r + 0.0001))) :=
  have hss : ∀ s ∈ [(gfuzzCreateSnapshot (Function.update StateMap.zero 0 1) : StateSnapshot ℚ)],
      s.states = Function.update StateMap.zero 0 1 ∧ s.ValidCountCorrect := fun s hs => by
    rw [List.mem_singleton.mp hs]; exact ⟨rfl, gfuzzCreateSnapshot_validCountCorrect _⟩
  ⟨hss, repeat_diversity_is_coverage_term 1 _ _ hss⟩

/-- A one-variable target whose only key variable is written: the repeat scores
`0.4 / 1.0001`, not `0`, and clears the admission threshold `0.3`. -/
theorem exact_repeat_readmitted :
    let shm : StateMap := Function.update StateMap.zero 0 1
    let d : ℚ := gfuzzEvaluateStateDiversity (gfuzzCreateSnapshot shm)
      ((gfuzzInitStateHistory 1).addAll [gfuzzCreateSnapshot shm])
    d = 0.4 / 1.0001 ∧ 0.3 < d := by
  intro shm d
  have hss : ∀ s ∈ [(gfuzzCreateSnapshot shm : StateSnapshot ℚ)], s.states = shm ∧ s.ValidCountCorrect :=
    fun s hs => by rw [List.mem_singleton.mp hs]; exact ⟨rfl, gfuzzCreateSnapshot_validCountCorrect _⟩
  have hd : d = gfuzzWeightCoverage * (coverageRatio 1 (countValid shm) /
      (max 1 (coverageRatio 1 (countValid shm)) + 0.0001)) :=
    gfuzzEvaluateStateDiversity_of_repeats 1 shm hss (List.cons_ne_nil _ _)
  rw [countValid_update_zero (by decide)] at hd
  have hd' : d = 0.4 / 1.0001 := by
    rw [hd]; simp only [coverageRatio, gfuzzWeightCoverage]; norm_num
  exact ⟨hd', by rw [hd']; norm_num⟩

/-! ## Scores above one -/

/-- The inner loop, read as a sum over the nonzero slots. -/
theorem foldl_similarityStep (current histSnap : StateSnapshot K) (l : List (Fin gfuzzVarMapSize))
    (acc : K × Nat) :
    l.foldl (similarityStep current histSnap) acc =
      (acc.1 + ((l.filter fun v => current.states v ≠ 0).map fun v =>
          gfuzzCalculateVarSimilarity (current.states v) (histSnap.states v)).sum,
        acc.2 + (l.filter fun v => current.states v ≠ 0).length) := by
  induction l generalizing acc with
  | nil => simp
  | cons a l ih =>
    by_cases ha : current.states a ≠ 0
    · rw [List.foldl_cons, similarityStep, if_pos ha, ih, List.filter_cons_of_pos (by simpa using ha)]
      simp only [List.map_cons, List.sum_cons, List.length_cons, add_assoc, Nat.add_comm 1]
    · rw [List.foldl_cons, similarityStep, if_neg ha, ih,
        List.filter_cons_of_neg (by simpa using ha)]

/-- A snapshot with one nonzero slot against a history of one snapshot: one comparison. -/
theorem similarityAccumulate_single (history : StateHistory K) (hc : history.count = 1)
    (i : Fin gfuzzVarMapSize) {w : UInt32} (hw : w ≠ 0) (current : StateSnapshot K)
    (hcur : current.states = Function.update StateMap.zero i w) :
    similarityAccumulate current history =
      (gfuzzCalculateVarSimilarity w ((history.snapshots.getD 0 StateSnapshot.zero).states i), 1) := by
  have hf : (List.finRange gfuzzVarMapSize).filter (fun v => current.states v ≠ 0) = [i] := by
    rw [List.filter_congr (q := fun v => decide (v = i)) fun v _ => by
      by_cases hv : v = i <;> simp [hcur, hv, hw, Function.update_noteq, StateMap.zero],
      List.filter_eq, List.count_eq_one_of_mem (List.nodup_finRange _) (List.mem_finRange i)]
    rfl
  rw [similarityAccumulate, hc, show List.range 1 = [0] from rfl, List.foldl_cons, List.foldl_nil,
    foldl_similarityStep, hf]
  simp [hcur]

/-- One comparison in all: the score is at least `w_sim` times its similarity. -/
theorem le_gfuzzEvaluateStateDiversity_of_single {current : StateSnapshot K}
    {history : StateHistory K} {x : K} (hc : history.count ≠ 0)
    (hacc : similarityAccumulate current history = (x, 1)) :
    gfuzzWeightSimilarity * x ≤ gfuzzEvaluateStateDiversity current history := by
  have hcov := (coverageScore_mem current history).1
  have hw : (0 : K) ≤ gfuzzWeightCoverage := by unfold gfuzzWeightCoverage; norm_num
  rw [gfuzzEvaluateStateDiversity, if_neg hc]
  simp only [hacc, gt_iff_lt, zero_lt_one, if_true, Nat.cast_one, div_one, le_add_iff_nonneg_right]
  exact mul_nonneg hw hcov

/-- `"a"` scored against a history holding only `"ab"`, in exact rational arithmetic: the
similarity term alone is `0.6 · 8.64`. -/
theorem diversity_exceeds_one :
    1 < (gfuzzEvaluateStateDiversity
      (gfuzzCreateSnapshot (Function.update StateMap.zero 0 (Runtime.stringWord [97])))
      (gfuzzAddToHistory (gfuzzInitStateHistory gfuzzMaxKeyVars)
        (gfuzzCreateSnapshot (Function.update StateMap.zero 0 (Runtime.stringWord [97, 98])))) : ℚ) := by
  obtain ⟨hc, hs⟩ := gfuzzAddToHistory_init (K := ℚ) gfuzzMaxKeyVars
    (gfuzzCreateSnapshot (Function.update StateMap.zero 0 (Runtime.stringWord [97, 98])))
  have hacc := similarityAccumulate_single _ hc 0 (by rw [stringWord_a]; decide)
    (gfuzzCreateSnapshot (Function.update StateMap.zero 0 (Runtime.stringWord [97]))) rfl
  rw [hs, gfuzzCreateSnapshot_states, Function.update_same, gfuzzCalculateVarSimilarity_a_ab] at hacc
  refine lt_of_lt_of_le ?_ (le_gfuzzEvaluateStateDiversity_of_single (by rw [hc]; exact one_ne_zero) hacc)
  unfold gfuzzWeightSimilarity
  norm_num

/-! ## The evaluator reads the queue

The nested loops walk the slots `0 … count - 1` of the ring buffer in index order, while
the history stands for the queue `contents`, read from `head` on.  Each historical snapshot
is compared on every nonzero slot of the current one, so the loops add up one similarity per
queued snapshot and `count` times as many comparisons as the current snapshot has nonzero
slots.  A sum does not see the order, so the score is a function of the queue as a multiset:
where the ring buffer's head stands, and what the slots past `count` hold, never matter. -/

/-- The current snapshot's nonzero slots, the ones the inner loop compares. -/
def nonzeroSlots (current : StateSnapshot K) : List (Fin gfuzzVarMapSize) :=
  (List.finRange gfuzzVarMapSize).filter fun v => current.states v ≠ 0

/-- The similarity of the current snapshot to one historical snapshot, summed over the
current snapshot's nonzero slots. -/
def snapshotSimilarity (current histSnap : StateSnapshot K) : K :=
  ((nonzeroSlots current).map fun v =>
    gfuzzCalculateVarSimilarity (current.states v) (histSnap.states v)).sum

/-- The score against a queue of snapshots, with the coverage data of `history`. -/
def queueDiversity (current : StateSnapshot K) (q : List (StateSnapshot K))
    (history : StateHistory K) : K :=
  if q.length = 0 then 1
  else
    let acc := ((q.map (snapshotSimilarity current)).sum, q.length * (nonzeroSlots current).length)
    let similarityScore := if acc.2 > 0 then acc.1 / acc.2 else acc.1
    gfuzzWeightSimilarity * similarityScore + gfuzzWeightCoverage * coverageScore current history

/-- One run of the inner loop adds one snapshot's similarity and one comparison per nonzero
slot. -/
theorem foldl_finRange_similarityStep (current histSnap : StateSnapshot K) (acc : K × Nat) :
    (List.finRange gfuzzVarMapSize).foldl (similarityStep current histSnap) acc =
      (acc.1 + snapshotSimilarity current histSnap, acc.2 + (nonzeroSlots current).length) :=
  foldl_similarityStep current histSnap _ acc

theorem foldl_pair_add {α : Type*} (f : α → K) (n : Nat) (l : List α) (acc : K × Nat) :
    l.foldl (fun acc a => (acc.1 + f a, acc.2 + n)) acc =
      (acc.1 + (l.map f).sum, acc.2 + l.length * n) := by
  induction l generalizing acc with
  | nil => simp
  | cons a l ih => simp only [List.foldl_cons, ih, List.map_cons, List.sum_cons, List.length_cons,
      add_assoc, Nat.succ_mul, Nat.add_comm n]

theorem map_getD_range {α : Type*} (l : List α) (d : α) {n : Nat} (hn : n ≤ l.length) :
    (List.range n).map (l.getD · d) = l.take n := by
  refine List.ext_getElem (by simp; omega) fun i h1 _ => ?_
  simp at h1
  simp [List.getElem?_eq_getElem (by omega : i < l.length)]

theorem similarityAccumulate_eq_sum (current : StateSnapshot K) {history : StateHistory K}
    (hc : history.count ≤ history.snapshots.length) :
    similarityAccumulate current history =
      (((history.snapshots.take history.count).map (snapshotSimilarity current)).sum,
        history.count * (nonzeroSlots current).length) := by
  simp only [similarityAccumulate, foldl_finRange_similarityStep]
  rw [foldl_pair_add, ← map_getD_range _ StateSnapshot.zero hc, List.map_map]
  simp [Function.comp_def]

/-- The ring buffer's evaluator is the queue's. -/
theorem StateHistory.Inv.gfuzzEvaluateStateDiversity_eq {history : StateHistory K}
    (hi : history.Inv) (current : StateSnapshot K) :
    gfuzzEvaluateStateDiversity current history = queueDiversity current history.contents history := by
  have hc : history.count ≤ history.snapshots.length := hi.length_snapshots ▸ hi.count_le
  unfold gfuzzEvaluateStateDiversity queueDiversity
  rw [hi.length_contents, similarityAccumulate_eq_sum current hc, StateHistory.contents,
    ((List.rotate_perm _ _).map _).sum_eq]

theorem queueDiversity_perm (current : StateSnapshot K) {q q' : List (StateSnapshot K)}
    (hq : q.Perm q') (history : StateHistory K) :
    queueDiversity current q history = queueDiversity current q' history := by
  unfold queueDiversity
  rw [hq.length_eq, (hq.map _).sum_eq]

/-- The coverage term reads the history's `totalVars` and bounds only. -/
theorem coverageScore_congr (current : StateSnapshot K) {history history' : StateHistory K}
    (ht : history.totalVars = history'.totalVars) (hmin : history.minCoverage = history'.minCoverage)
    (hmax : history.maxCoverage = history'.maxCoverage) :
    coverageScore current history = coverageScore current history' := by
  simp only [coverageScore, ht, hmin, hmax]

/-- **The score depends on the queue as a multiset.**  Two histories that keep the
ring-buffer invariant, queue the same snapshots in any order, and agree on `totalVars` and
the upper coverage bound, give every snapshot the same score: neither the position of
`head` nor the contents of the slots past `count` reach `gfuzz_evaluate_state_diversity`. -/
theorem gfuzzEvaluateStateDiversity_perm (current : StateSnapshot K) {history history' : StateHistory K}
    (hi : history.Inv) (hi' : history'.Inv) (hq : history.contents.Perm history'.contents)
    (ht : history.totalVars = history'.totalVars) (hmax : history.maxCoverage = history'.maxCoverage) :
    gfuzzEvaluateStateDiversity current history = gfuzzEvaluateStateDiversity current history' := by
  have hcov := coverageScore_congr current ht (hi.minCoverage_eq.trans hi'.minCoverage_eq.symm) hmax
  rw [hi.gfuzzEvaluateStateDiversity_eq, hi'.gfuzzEvaluateStateDiversity_eq,
    queueDiversity_perm current hq]
  simp only [queueDiversity, hcov]

/-- A full buffer that has wrapped (`head = 1`) against the same slots read from `0`, and two
two-snapshot queues in swapped order, one with stale snapshots past `count`: the queues differ
as lists, and each pair scores every snapshot alike. -/
theorem gfuzzEvaluateStateDiversity_perm_reordered :
    let s : StateSnapshot ℚ := ⟨Function.update StateMap.zero 0 7, 1, 0, 0, 0⟩
    let stale : StateSnapshot ℚ := ⟨Function.update StateMap.zero 1 9, 1, 0, 0, 0⟩
    let wrapped : StateHistory ℚ := ⟨s :: List.replicate 99 StateSnapshot.zero, 100, 1, 1, 0, 1⟩
    let unwrapped : StateHistory ℚ := { wrapped with head := 0 }
    let pair : StateHistory ℚ := ⟨s :: StateSnapshot.zero :: List.replicate 98 stale, 2, 0, 1, 0, 1⟩
    let swapped : StateHistory ℚ :=
      ⟨StateSnapshot.zero :: s :: List.replicate 98 StateSnapshot.zero, 2, 0, 1, 0, 1⟩
    wrapped.Inv ∧ unwrapped.Inv ∧ wrapped.contents.Perm unwrapped.contents ∧
      wrapped.contents.map (·.validCount) ≠ unwrapped.contents.map (·.validCount) ∧
      pair.Inv ∧ swapped.Inv ∧ pair.contents.Perm swapped.contents ∧
      pair.contents.map (·.validCount) ≠ swapped.contents.map (·.validCount) ∧
      ∀ current : StateSnapshot ℚ,
        gfuzzEvaluateStateDiversity current wrapped = gfuzzEvaluateStateDiversity current unwrapped ∧
        gfuzzEvaluateStateDiversity current pair = gfuzzEvaluateStateDiversity current swapped := by
  intro s stale wrapped unwrapped pair swapped
  have hw : wrapped.Inv := ⟨rfl, le_rfl, by decide, by decide, rfl, le_rfl⟩
  have hu : unwrapped.Inv := ⟨rfl, le_rfl, by decide, by decide, rfl, le_rfl⟩
  have hp : pair.Inv := ⟨rfl, by decide, by decide, fun _ => rfl, rfl, le_rfl⟩
  have hs : swapped.Inv := ⟨rfl, by decide, by decide, fun _ => rfl, rfl, le_rfl⟩
  -- the wrapped buffer's queue starts after the head
  have hcw : wrapped.contents = List.replicate 99 StateSnapshot.zero ++ [s] := by
    simp [wrapped, StateHistory.contents, List.rotate_cons_succ]
  have hcu : unwrapped.contents = s :: List.replicate 99 StateSnapshot.zero := by
    simp [unwrapped, wrapped, StateHistory.contents]
  have hq : wrapped.contents.Perm unwrapped.contents := by
    rw [hcw, hcu]; exact List.perm_append_singleton _ _
  have hq' : pair.contents.Perm swapped.contents := List.Perm.swap _ _ _
  refine ⟨hw, hu, hq, by rw [hcw, hcu]; decide, hp, hs, hq', by decide, fun current =>
    ⟨gfuzzEvaluateStateDiversity_perm current hw hu hq rfl rfl,
      gfuzzEvaluateStateDiversity_perm current hp hs hq' rfl rfl⟩⟩

end GFuzz
