import GFuzz.Config

/-!
# Algorithm 4: the adaptive weights

`gfuzz_update_adaptive_weights` moves `weight_traditional` by
`learning_rate · (coverage_gain − state_gain)`, moves `weight_state` the other
way, divides both by their sum when it is positive, clamps `weight_traditional`
to `[0.1, 0.9]`, and sets `weight_state` to the rest.  The seed score is the
mix `w_t · t + w_s · s` of `gfuzz_calculate_combined_score`.

## What the weights are

The record has five fields, but what the update keeps is one number in
`[0.1, 0.9]`: `AdaptiveWeights.Inv` says the two weights sum to `1`, the
traditional one lies in the clamp range and the learning rate is still
`GFUZZ_LEARNING_RATE`.  Under it the division is by `1`, so the update is the
one-dimensional step `clampWeight (w_t + λ · Δ)` (`Inv.update_weightTraditional`).
By induction a run of updates is that step iterated (`run_weightTraditional`),
and the score is a convex combination of its inputs (`Inv.combinedScore_mem`).
From every reachable state a run is monotone in each gain gap
(`weights_monotone_in_gains`) and moves the traditional weight by at most
`λ · Σ |cg − sg|` (`weights_drift_le`).

Arithmetic is exact: `K` is any linearly ordered field, standing for `double`
without rounding.
-/

namespace GFuzz

variable {K : Type*}

/-- `gfuzz_adaptive_weights_t`. -/
structure AdaptiveWeights (K : Type*) where
  weightTraditional : K
  weightState : K
  learningRate : K
  coverageGain : K
  stateGain : K

variable [LinearOrderedField K]

/-- `gfuzz_init_weights`. -/
def gfuzzInitWeights : AdaptiveWeights K :=
  { weightTraditional := gfuzzInitWeightTrad, weightState := gfuzzInitWeightState,
    learningRate := gfuzzLearningRate, coverageGain := 0.0, stateGain := 0.0 }

/-- The two clamps of `gfuzz_update_adaptive_weights`, in the source's order. -/
def clampWeight (x : K) : K :=
  let x := if x < 0.1 then 0.1 else x
  if x > 0.9 then 0.9 else x

/-- `gfuzz_update_adaptive_weights`. -/
def gfuzzUpdateAdaptiveWeights (w : AdaptiveWeights K) (newCovGain newStateGain : K) :
    AdaptiveWeights K :=
  let w := { w with coverageGain := newCovGain, stateGain := newStateGain }
  let lambda := w.learningRate
  let gainDiff := w.coverageGain - w.stateGain
  let w := { w with weightTraditional := w.weightTraditional + lambda * gainDiff }
  let w := { w with weightState := w.weightState + lambda * (w.stateGain - w.coverageGain) }
  let sum := w.weightTraditional + w.weightState
  let w := if sum > 0.0 then
      { w with weightTraditional := w.weightTraditional / sum, weightState := w.weightState / sum }
    else w
  let w := { w with weightTraditional := clampWeight w.weightTraditional }
  { w with weightState := 1.0 - w.weightTraditional }

/-- `gfuzz_calculate_combined_score`. -/
def gfuzzCalculateCombinedScore (traditionalScore stateDiversityScore : K)
    (weights : AdaptiveWeights K) : K :=
  weights.weightTraditional * traditionalScore + weights.weightState * stateDiversityScore

/-- A run of updates, one `(coverage_gain, state_gain)` pair each. -/
def AdaptiveWeights.run (w : AdaptiveWeights K) (gains : List (K × K)) : AdaptiveWeights K :=
  gains.foldl (fun w g => gfuzzUpdateAdaptiveWeights w g.1 g.2) w

/-! ## The clamp -/

theorem clampWeight_eq (x : K) : clampWeight x = max 0.1 (min x 0.9) := by
  have h : (0.1 : K) < 0.9 := by norm_num
  unfold clampWeight
  by_cases hlo : x < 0.1
  · rw [if_pos hlo, if_neg (not_lt.2 h.le), min_eq_left (hlo.trans h).le, max_eq_left hlo.le]
  · rw [if_neg hlo]
    by_cases hhi : x > 0.9
    · rw [if_pos hhi, min_eq_right hhi.le, max_eq_right h.le]
    · rw [if_neg hhi, min_eq_left (not_lt.1 hhi), max_eq_right (not_lt.1 hlo)]

theorem clampWeight_mem (x : K) : 0.1 ≤ clampWeight x ∧ clampWeight x ≤ 0.9 := by
  rw [clampWeight_eq]
  exact ⟨le_max_left _ _, max_le (by norm_num) (min_le_right _ _)⟩

/-! ## One update -/

namespace AdaptiveWeights

/-- What every weights state reachable from `gfuzz_init_weights` satisfies. -/
structure Inv (w : AdaptiveWeights K) : Prop where
  sum_eq_one : w.weightTraditional + w.weightState = 1
  ge_min : 0.1 ≤ w.weightTraditional
  le_max : w.weightTraditional ≤ 0.9
  learningRate_eq : w.learningRate = gfuzzLearningRate

variable {w : AdaptiveWeights K} {cg sg : K}

@[simp] theorem update_learningRate :
    (gfuzzUpdateAdaptiveWeights w cg sg).learningRate = w.learningRate := by
  unfold gfuzzUpdateAdaptiveWeights; dsimp only; split_ifs <;> rfl

theorem update_weightState :
    (gfuzzUpdateAdaptiveWeights w cg sg).weightState =
      1 - (gfuzzUpdateAdaptiveWeights w cg sg).weightTraditional := by
  unfold gfuzzUpdateAdaptiveWeights; norm_num

/-- With weights summing to `1` the two moves cancel, the division is by `1`, and the
update is the clamped step. -/
theorem update_weightTraditional_of_sum (h : w.weightTraditional + w.weightState = 1) :
    (gfuzzUpdateAdaptiveWeights w cg sg).weightTraditional =
      clampWeight (w.weightTraditional + w.learningRate * (cg - sg)) := by
  have hsum : w.weightTraditional + w.learningRate * (cg - sg) +
      (w.weightState + w.learningRate * (sg - cg)) = 1 := by linarith
  unfold gfuzzUpdateAdaptiveWeights
  dsimp only
  rw [hsum, if_pos (by norm_num), div_one]

theorem Inv.update_weightTraditional (hi : w.Inv) :
    (gfuzzUpdateAdaptiveWeights w cg sg).weightTraditional =
      clampWeight (w.weightTraditional + gfuzzLearningRate * (cg - sg)) := by
  rw [update_weightTraditional_of_sum hi.sum_eq_one, hi.learningRate_eq]

/-- **One update keeps the invariant.** -/
theorem Inv.update (hi : w.Inv) (cg sg : K) : (gfuzzUpdateAdaptiveWeights w cg sg).Inv where
  sum_eq_one := by rw [update_weightState, add_sub_cancel]
  ge_min := by rw [hi.update_weightTraditional]; exact (clampWeight_mem _).1
  le_max := by rw [hi.update_weightTraditional]; exact (clampWeight_mem _).2
  learningRate_eq := by rw [update_learningRate, hi.learningRate_eq]

theorem inv_gfuzzInitWeights : (gfuzzInitWeights : AdaptiveWeights K).Inv where
  sum_eq_one := by simp only [gfuzzInitWeights, gfuzzInitWeightTrad, gfuzzInitWeightState]; norm_num
  ge_min := by simp only [gfuzzInitWeights, gfuzzInitWeightTrad]; norm_num
  le_max := by simp only [gfuzzInitWeights, gfuzzInitWeightTrad]; norm_num
  learningRate_eq := rfl

/-- The score mixes its inputs with nonnegative weights summing to `1`. -/
theorem Inv.combinedScore_mem (hi : w.Inv) (t s : K) :
    min t s ≤ gfuzzCalculateCombinedScore t s w ∧ gfuzzCalculateCombinedScore t s w ≤ max t s := by
  have ht : 0 ≤ w.weightTraditional := by linarith [hi.ge_min]
  have hs : 0 ≤ w.weightState := by linarith [hi.sum_eq_one, hi.le_max]
  have hmix : ∀ m : K, w.weightTraditional * m + w.weightState * m = m := fun m => by
    rw [← add_mul, hi.sum_eq_one, one_mul]
  unfold gfuzzCalculateCombinedScore
  constructor
  · calc min t s = w.weightTraditional * min t s + w.weightState * min t s := (hmix _).symm
      _ ≤ w.weightTraditional * t + w.weightState * s :=
        add_le_add (mul_le_mul_of_nonneg_left (min_le_left t s) ht)
          (mul_le_mul_of_nonneg_left (min_le_right t s) hs)
  · calc w.weightTraditional * t + w.weightState * s
        ≤ w.weightTraditional * max t s + w.weightState * max t s :=
          add_le_add (mul_le_mul_of_nonneg_left (le_max_left t s) ht)
            (mul_le_mul_of_nonneg_left (le_max_right t s) hs)
      _ = max t s := hmix _

/-! ## Runs of updates -/

theorem Inv.run (hi : w.Inv) (gains : List (K × K)) : (w.run gains).Inv := by
  induction gains generalizing w with
  | nil => exact hi
  | cons g gains ih => exact ih (hi.update g.1 g.2)

/-- **The record refines the one-dimensional step.**  After any run, `weight_traditional`
is `clampWeight (x + λ · (cg − sg))` iterated from `x`. -/
theorem Inv.run_weightTraditional (hi : w.Inv) (gains : List (K × K)) :
    (w.run gains).weightTraditional =
      gains.foldl (fun x g => clampWeight (x + gfuzzLearningRate * (g.1 - g.2)))
        w.weightTraditional := by
  induction gains generalizing w with
  | nil => rfl
  | cons g gains ih =>
    rw [AdaptiveWeights.run, List.foldl_cons, ← AdaptiveWeights.run, ih (hi.update g.1 g.2),
      hi.update_weightTraditional, List.foldl_cons]

end AdaptiveWeights

/-- **The weights invariant.**  In every state reachable from `gfuzz_init_weights`: the two
weights sum to `1`, the traditional one lies in `[0.1, 0.9]`, the next update sets it to
`max 0.1 (min (w_t + λ · (cg − sg)) 0.9)`, and the combined score lies between its inputs. -/
theorem weights_invariant (gains : List (K × K)) :
    let w : AdaptiveWeights K := gfuzzInitWeights.run gains
    w.weightTraditional + w.weightState = 1 ∧
      0.1 ≤ w.weightTraditional ∧ w.weightTraditional ≤ 0.9 ∧
      (∀ cg sg : K, (gfuzzUpdateAdaptiveWeights w cg sg).weightTraditional =
        max 0.1 (min (w.weightTraditional + gfuzzLearningRate * (cg - sg)) 0.9)) ∧
      (∀ t s : K, min t s ≤ gfuzzCalculateCombinedScore t s w ∧
        gfuzzCalculateCombinedScore t s w ≤ max t s) := by
  intro w
  have hi : w.Inv := AdaptiveWeights.inv_gfuzzInitWeights.run gains
  exact ⟨hi.sum_eq_one, hi.ge_min, hi.le_max,
    fun cg sg => by rw [hi.update_weightTraditional, clampWeight_eq], hi.combinedScore_mem⟩

/-! ## Which way and how far a run moves the weight

The step `clampWeight (x + λ · Δ)` is monotone in `x` and in `Δ`, and the clamp moves no two
points apart, so a run of updates is monotone in every gain gap and moves the traditional
weight by at most `λ` per unit of gap: the adaptation is slow and goes the right way. -/

theorem clampWeight_mono {x y : K} (h : x ≤ y) : clampWeight x ≤ clampWeight y := by
  rw [clampWeight_eq, clampWeight_eq]
  exact max_le_max le_rfl (min_le_min h le_rfl)

/-- The clamp does not move two weights apart. -/
theorem abs_clampWeight_sub_le (x y : K) : |clampWeight x - clampWeight y| ≤ |x - y| := by
  rw [clampWeight_eq, clampWeight_eq]
  calc |max 0.1 (min x 0.9) - max 0.1 (min y 0.9)|
      ≤ max |(0.1 : K) - 0.1| |min x 0.9 - min y 0.9| := abs_max_sub_max_le_max _ _ _ _
    _ ≤ |x - y| := by
      rw [sub_self, abs_zero]
      refine max_le (abs_nonneg _) ((abs_min_sub_min_le_max _ _ _ _).trans ?_)
      rw [sub_self, abs_zero, max_eq_left (abs_nonneg _)]

theorem clampWeight_of_mem {x : K} (h0 : 0.1 ≤ x) (h1 : x ≤ 0.9) : clampWeight x = x := by
  rw [clampWeight_eq, min_eq_left h1, max_eq_right h0]

/-- The one-dimensional step of the traditional weight. -/
def weightStep (x : K) (g : K × K) : K := clampWeight (x + gfuzzLearningRate * (g.1 - g.2))

theorem gfuzzLearningRate_pos : (0 : K) < gfuzzLearningRate := by
  unfold gfuzzLearningRate; norm_num

/-- A run of steps is monotone in its start and in every gain difference. -/
theorem foldl_weightStep_mono {gains gains' : List (K × K)}
    (h : List.Forall₂ (fun g g' : K × K => g.1 - g.2 ≤ g'.1 - g'.2) gains gains') :
    ∀ {x y : K}, x ≤ y → gains.foldl weightStep x ≤ gains'.foldl weightStep y := by
  induction h with
  | nil => exact id
  | cons hg _ ih =>
    intro x y hxy
    refine ih (clampWeight_mono ?_)
    have := mul_le_mul_of_nonneg_left hg (gfuzzLearningRate_pos (K := K)).le
    linarith

/-- A run of steps from an unclamped weight moves it by at most `λ` per unit of gain gap. -/
theorem abs_foldl_weightStep_sub_le (gains : List (K × K)) :
    ∀ {x : K}, 0.1 ≤ x → x ≤ 0.9 →
      |gains.foldl weightStep x - x| ≤ gfuzzLearningRate * (gains.map fun g => |g.1 - g.2|).sum := by
  induction gains with
  | nil => intro x _ _; simp
  | cons g gains ih =>
    intro x h0 h1
    have hstep : |weightStep x g - x| ≤ gfuzzLearningRate * |g.1 - g.2| := by
      calc |weightStep x g - x| = |clampWeight (x + gfuzzLearningRate * (g.1 - g.2)) - clampWeight x| := by
            rw [weightStep, clampWeight_of_mem h0 h1]
        _ ≤ |x + gfuzzLearningRate * (g.1 - g.2) - x| := abs_clampWeight_sub_le _ _
        _ = gfuzzLearningRate * |g.1 - g.2| := by
            rw [add_sub_cancel_left, abs_mul, abs_of_pos gfuzzLearningRate_pos]
    have hrest := ih (x := weightStep x g) (clampWeight_mem _).1 (clampWeight_mem _).2
    rw [List.foldl_cons, List.map_cons, List.sum_cons, mul_add]
    calc |gains.foldl weightStep (weightStep x g) - x|
        ≤ |gains.foldl weightStep (weightStep x g) - weightStep x g| + |weightStep x g - x| :=
          abs_sub_le _ _ _
      _ ≤ _ := by linarith

theorem AdaptiveWeights.run_append (w : AdaptiveWeights K) (gains gains' : List (K × K)) :
    w.run (gains ++ gains') = (w.run gains).run gains' :=
  List.foldl_append _ _ _ _

/-- **The weights move the right way.**  From every reachable weights state, two runs of
updates whose coverage-minus-state gain gaps are pointwise ordered leave the traditional
weight in the same order: crediting coverage more never lowers its weight. -/
theorem weights_monotone_in_gains (pre gains gains' : List (K × K))
    (h : List.Forall₂ (fun g g' : K × K => g.1 - g.2 ≤ g'.1 - g'.2) gains gains') :
    (gfuzzInitWeights.run (pre ++ gains) : AdaptiveWeights K).weightTraditional ≤
      (gfuzzInitWeights.run (pre ++ gains')).weightTraditional := by
  have hi := (AdaptiveWeights.inv_gfuzzInitWeights (K := K)).run pre
  rw [AdaptiveWeights.run_append, AdaptiveWeights.run_append, hi.run_weightTraditional,
    hi.run_weightTraditional]
  exact foldl_weightStep_mono h le_rfl

theorem weights_monotone_in_gains_one :
    List.Forall₂ (fun g g' : ℚ × ℚ => g.1 - g.2 ≤ g'.1 - g'.2) [(1, 0)] [(2, 0)] ∧
      (gfuzzInitWeights.run ([] ++ [(1, 0)]) : AdaptiveWeights ℚ).weightTraditional ≤
        (gfuzzInitWeights.run ([] ++ [(2, 0)])).weightTraditional :=
  have h : List.Forall₂ (fun g g' : ℚ × ℚ => g.1 - g.2 ≤ g'.1 - g'.2) [(1, 0)] [(2, 0)] :=
    .cons (by norm_num) .nil
  ⟨h, weights_monotone_in_gains [] _ _ h⟩

/-- **The weights drift slowly.**  From every reachable weights state, a run of updates moves
the traditional weight by at most `λ = GFUZZ_LEARNING_RATE = 0.1` times the sum of the gain
gaps `|cg − sg|`. -/
theorem weights_drift_le (pre gains : List (K × K)) :
    |(gfuzzInitWeights.run (pre ++ gains) : AdaptiveWeights K).weightTraditional -
        (gfuzzInitWeights.run pre).weightTraditional| ≤
      gfuzzLearningRate * (gains.map fun g => |g.1 - g.2|).sum := by
  have hi := (AdaptiveWeights.inv_gfuzzInitWeights (K := K)).run pre
  rw [AdaptiveWeights.run_append, hi.run_weightTraditional]
  exact abs_foldl_weightStep_sub_le gains hi.ge_min hi.le_max

end GFuzz
