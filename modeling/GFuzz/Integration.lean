import GFuzz.Diversity
import GFuzz.Weights

/-!
# The fuzzer side: `gfuzz-integration.h`

The fuzzer keeps one global context, `gfuzz_ctx`, and one sidecar per queue
entry.  `gfuzz_init` allocates the context only when `GFUZZ_ENABLED=1`, and
attaches the state map only when `GFUZZ_SHM_ID` names a segment `shmat`
accepts; every entry point first checks the context, then its own
preconditions.  A null `gfuzz_ctx` is `none`, a null sidecar pointer is `none`,
and the shared map is not a field: its contents are whatever the last execution
left there, so each capture receives them as an argument.

Each entry point is a method of `Context` wrapped in the source's null check.
`Fuzzer` is the whole fuzzer-side state, the context and the sidecars, and
`Fuzzer.step` runs one entry point on one sidecar in any order the fuzzer
chooses; `Fuzzer.run` runs a sequence of them from `Fuzzer.init`.

## Results

* `valid_count_invariant`: in every reachable state, every snapshot of the
  history and of every sidecar has the `valid_count` of its own map.
* `energy_multiplier_bounds`: every diversity score lies in
  `[0, maxDiversity]`, and every sidecar's energy multiplier in
  `[1, 1 + γ · maxDiversity]`.
* `snapshots_from_captures`: the history is the initial one after admissions of
  snapshots of maps the run's captures were given, and every captured sidecar
  holds such a snapshot.
* `weights_follow_updates`: the context's weights are `gfuzz_init_weights`
  run on the gains of the update calls, in order, and every seed score lies
  between the traditional score and the sidecar's state score.
* `degraded_mode`: with the runtime enabled but no state map, nothing is
  captured, the history stays empty and the multiplier stays `1`, but the seed
  score is `w_t · t`, not `t`: the context still mixes the traditional score
  with a state score of `0` (`degraded_seed_score_halved`).
* `disabled_pass_through`: without `GFUZZ_ENABLED=1` the context stays null,
  so every score and multiplier is AFL's own.
-/

namespace GFuzz

variable {K : Type*}

/-! ## The state -/

/-- `gfuzz_queue_data_t`, the sidecar of one queue entry. -/
structure QueueData (K : Type*) where
  stateSnapshot : StateSnapshot K
  stateDiversityScore : K
  stateCaptured : Bool

/-- `gfuzz_context_t`. -/
structure Context (K : Type*) where
  history : StateHistory K
  weights : AdaptiveWeights K
  /-- Whether `var_state_shm` is non-null. -/
  varStateShm : Bool
  varStateShmId : Int
  totalStateEvaluations : UInt64
  totalStateUpdates : UInt64
  lastCoverageGain : K
  lastStateGain : K
  enabled : Bool
  numKeyVars : Nat

variable [LinearOrderedField K]

/-- A sidecar as `calloc` leaves it. -/
def QueueData.zero : QueueData K := ⟨StateSnapshot.zero, 0, false⟩

/-! ## The entry points -/

/-- `gfuzz_init(num_key_vars)`.  `enabledEnv` is whether `GFUZZ_ENABLED` is set and `atoi`
reads it as `1`; `shmId` is `atoi(GFUZZ_SHM_ID)` when that variable is set, and `shmatOk`
whether `shmat` accepts it.  The context starts zeroed by `calloc`. -/
def gfuzzInit (numKeyVars : Nat) (enabledEnv : Bool) (shmId : Option Int) (shmatOk : Bool) :
    Option (Context K) :=
  if ¬enabledEnv then none
  else some
    { history := gfuzzInitStateHistory numKeyVars, weights := gfuzzInitWeights,
      varStateShm := shmId.isSome && shmatOk, varStateShmId := shmId.getD 0,
      totalStateEvaluations := 0, totalStateUpdates := 0, lastCoverageGain := 0,
      lastStateGain := 0, enabled := true, numKeyVars }

/-- `gfuzz_cleanup`: the segment is detached and the context freed. -/
def gfuzzCleanup (_ctx : Option (Context K)) : Option (Context K) := none

namespace Context

/-- The body of `gfuzz_capture_state` past the null check; `shm` is what the map holds. -/
def captureState (c : Context K) (shm : StateMap) (qdata : Option (QueueData K)) :
    Context K × Option (QueueData K) :=
  if ¬c.enabled then (c, qdata)
  else if ¬c.varStateShm then (c, qdata)
  else match qdata with
    | none => (c, none)
    | some q =>
      ({ c with totalStateUpdates := c.totalStateUpdates + 1 },
        some { q with stateSnapshot := gfuzzCreateSnapshot shm, stateCaptured := true })

/-- The body of `gfuzz_evaluate_diversity` past the null check: the score, and the updated
context and sidecar.  A score above `0.3` admits the snapshot. -/
def evaluateDiversity (c : Context K) (qdata : Option (QueueData K)) :
    K × Context K × Option (QueueData K) :=
  if ¬c.enabled then (0, c, qdata)
  else match qdata with
    | none => (0, c, none)
    | some q =>
      if ¬q.stateCaptured then (0, c, some q)
      else
        let diversity := gfuzzEvaluateStateDiversity q.stateSnapshot c.history
        let q := { q with stateDiversityScore := diversity }
        let c := { c with totalStateEvaluations := c.totalStateEvaluations + 1 }
        let c := if diversity > 0.3 then { c with history := gfuzzAddToHistory c.history q.stateSnapshot }
          else c
        (diversity, c, some q)

/-- The body of `gfuzz_update_weights` past the null check. -/
def updateWeights (c : Context K) (coverageGain stateGain : K) : Context K :=
  if ¬c.enabled then c
  else { c with lastCoverageGain := coverageGain, lastStateGain := stateGain,
                weights := gfuzzUpdateAdaptiveWeights c.weights coverageGain stateGain }

variable {c : Context K} {cg sg : K}

@[simp] theorem updateWeights_history : (c.updateWeights cg sg).history = c.history := by
  unfold updateWeights; split_ifs <;> rfl

@[simp] theorem updateWeights_enabled : (c.updateWeights cg sg).enabled = c.enabled := by
  unfold updateWeights; split_ifs <;> rfl

@[simp] theorem updateWeights_varStateShm :
    (c.updateWeights cg sg).varStateShm = c.varStateShm := by
  unfold updateWeights; split_ifs <;> rfl

theorem updateWeights_weights (h : c.enabled = true) :
    (c.updateWeights cg sg).weights = gfuzzUpdateAdaptiveWeights c.weights cg sg := by
  simp [updateWeights, h]

end Context

/-- `gfuzz_capture_state(qdata)`. -/
def gfuzzCaptureState (ctx : Option (Context K)) (shm : StateMap) (qdata : Option (QueueData K)) :
    Option (Context K) × Option (QueueData K) :=
  match ctx with
  | none => (none, qdata)
  | some c => let r := c.captureState shm qdata; (some r.1, r.2)

/-- `gfuzz_evaluate_diversity(qdata)`. -/
def gfuzzEvaluateDiversity (ctx : Option (Context K)) (qdata : Option (QueueData K)) :
    K × Option (Context K) × Option (QueueData K) :=
  match ctx with
  | none => (0, none, qdata)
  | some c => let r := c.evaluateDiversity qdata; (r.1, some r.2.1, r.2.2)

/-- `gfuzz_calculate_seed_score(traditional_score, qdata)`. -/
def gfuzzCalculateSeedScore (ctx : Option (Context K)) (traditionalScore : K)
    (qdata : Option (QueueData K)) : K :=
  match ctx with
  | none => traditionalScore
  | some c =>
    if ¬c.enabled then traditionalScore
    else
      let stateScore := match qdata with
        | some q => if q.stateCaptured then q.stateDiversityScore else 0
        | none => 0
      gfuzzCalculateCombinedScore traditionalScore stateScore c.weights

/-- `gfuzz_get_energy_multiplier(qdata)`. -/
def gfuzzGetEnergyMultiplier (ctx : Option (Context K)) (qdata : Option (QueueData K)) : K :=
  match ctx with
  | none => 1
  | some c =>
    if ¬c.enabled then 1
    else match qdata with
      | none => 1
      | some q => if ¬q.stateCaptured then 1 else gfuzzCalculateEnergyMultiplier q.stateDiversityScore

/-- `gfuzz_update_weights(coverage_gain, state_gain)`. -/
def gfuzzUpdateWeights (ctx : Option (Context K)) (coverageGain stateGain : K) :
    Option (Context K) :=
  ctx.map fun c => c.updateWeights coverageGain stateGain

/-! ## The fuzzer -/

/-- The fuzzer-side state: the global context and the sidecar of every queue entry. -/
structure Fuzzer (K : Type*) where
  ctx : Option (Context K)
  queue : Nat → QueueData K

/-- One entry point, on the sidecar of entry `entry` (`none`: a null sidecar pointer). -/
inductive FuzzerCall (K : Type*) where
  | captureState (entry : Option Nat) (shm : StateMap)
  | evaluateDiversity (entry : Option Nat)
  | updateWeights (coverageGain stateGain : K)

namespace Fuzzer

/-- After `gfuzz_init`, with every sidecar fresh from `calloc`. -/
def init (numKeyVars : Nat) (enabledEnv : Bool) (shmId : Option Int) (shmatOk : Bool) :
    Fuzzer K :=
  ⟨gfuzzInit numKeyVars enabledEnv shmId shmatOk, fun _ => QueueData.zero⟩

/-- Store what an entry point left in the context and in the sidecar it was given. -/
def writeBack (F : Fuzzer K) (ctx : Option (Context K)) (entry : Option Nat)
    (qdata : Option (QueueData K)) : Fuzzer K :=
  { ctx,
    queue := match entry, qdata with
      | some i, some q => Function.update F.queue i q
      | _, _ => F.queue }

/-- One call. -/
def step (F : Fuzzer K) : FuzzerCall K → Fuzzer K
  | .captureState e shm =>
    let r := gfuzzCaptureState F.ctx shm (e.map F.queue)
    F.writeBack r.1 e r.2
  | .evaluateDiversity e =>
    let r := gfuzzEvaluateDiversity F.ctx (e.map F.queue)
    F.writeBack r.2.1 e r.2.2
  | .updateWeights cg sg => { F with ctx := gfuzzUpdateWeights F.ctx cg sg }

/-- A sequence of calls, first to last. -/
def run (F : Fuzzer K) (calls : List (FuzzerCall K)) : Fuzzer K := calls.foldl step F

theorem run_preserves (P : Fuzzer K → Prop) (hstep : ∀ F c, P F → P (F.step c)) {F : Fuzzer K}
    (hF : P F) (calls : List (FuzzerCall K)) : P (F.run calls) :=
  foldl_preserves P step hstep calls hF

omit [LinearOrderedField K] in
/-- Every sidecar after a write-back is an old one or the one written. -/
theorem writeBack_queue (F : Fuzzer K) (ctx : Option (Context K)) (e : Option Nat)
    (qdata : Option (QueueData K)) (j : Nat) :
    (F.writeBack ctx e qdata).queue j = F.queue j ∨ (F.writeBack ctx e qdata).queue j ∈ qdata := by
  unfold writeBack
  rcases e with _ | i <;> rcases qdata with _ | q
  all_goals try exact Or.inl rfl
  by_cases hj : j = i
  · subst hj; exact Or.inr (by simp)
  · exact Or.inl (Function.update_noteq hj _ _)

omit [LinearOrderedField K] in
/-- Writing back the sidecar that was read changes only the context. -/
theorem writeBack_self (F : Fuzzer K) (ctx : Option (Context K)) (e : Option Nat) :
    F.writeBack ctx e (e.map F.queue) = { F with ctx } := by
  rcases e with _ | i
  · rfl
  · simp [writeBack]

end Fuzzer

/-! ## Every snapshot counts its own slots -/

/-- What the diversity bounds give a sidecar: its snapshot counts its own slots and its
cached score lies in `[0, maxDiversity]`. -/
def QueueData.Ok (q : QueueData K) : Prop :=
  q.stateSnapshot.ValidCountCorrect ∧ 0 ≤ q.stateDiversityScore ∧
    q.stateDiversityScore ≤ maxDiversity

/-- Every snapshot of the history counts its own slots. -/
def Context.Ok (c : Context K) : Prop := ∀ s ∈ c.history.snapshots, s.ValidCountCorrect

theorem QueueData.zero_ok : (QueueData.zero : QueueData K).Ok :=
  ⟨StateSnapshot.zero_validCountCorrect, le_rfl, le_trans zero_le_one one_le_maxDiversity⟩

/-- An admission adds one snapshot to the array, in place of another. -/
theorem mem_snapshots_gfuzzAddToHistory {h : StateHistory K} {s t : StateSnapshot K}
    (ht : t ∈ (gfuzzAddToHistory h s).snapshots) : t ∈ h.snapshots ∨ t = s := by
  simp only [gfuzzAddToHistory, StateHistory.widen_snapshots, StateHistory.store] at ht
  split_ifs at ht <;> exact List.mem_or_eq_of_mem_set ht

namespace Context

variable {c : Context K} {qdata : Option (QueueData K)}

theorem Ok.captureState (hc : c.Ok) (hq : ∀ q ∈ qdata, q.Ok) (shm : StateMap) :
    (c.captureState shm qdata).1.Ok ∧ ∀ q ∈ (c.captureState shm qdata).2, q.Ok := by
  unfold Context.captureState
  split_ifs
  · -- enabled and attached: the sidecar gets the snapshot of the map
    rcases qdata with _ | q
    · exact ⟨hc, hq⟩
    · refine ⟨hc, fun q' hq' => ?_⟩
      obtain rfl := Option.some_inj.mp hq'
      have hs : (gfuzzCreateSnapshot shm : StateSnapshot K).ValidCountCorrect :=
        gfuzzCreateSnapshot_validCountCorrect shm
      exact ⟨hs, (hq q rfl).2⟩
  all_goals exact ⟨hc, hq⟩

theorem Ok.evaluateDiversity (hc : c.Ok) (hq : ∀ q ∈ qdata, q.Ok) :
    (c.evaluateDiversity qdata).2.1.Ok ∧ ∀ q ∈ (c.evaluateDiversity qdata).2.2, q.Ok := by
  unfold Context.evaluateDiversity
  split_ifs
  · rcases qdata with _ | q
    · exact ⟨hc, hq⟩
    have hq0 := hq q rfl
    have hnew : ({ q with stateDiversityScore := gfuzzEvaluateStateDiversity q.stateSnapshot c.history }
        : QueueData K).Ok :=
      ⟨hq0.1, gfuzzEvaluateStateDiversity_nonneg _ _, gfuzzEvaluateStateDiversity_le _ _⟩
    dsimp only
    split_ifs
    · -- admitted: the new snapshot of the history is the sidecar's
      exact ⟨fun t ht => (mem_snapshots_gfuzzAddToHistory ht).elim (hc t) (fun h => h ▸ hq0.1),
        fun q' hq' => Option.some_inj.mp hq' ▸ hnew⟩
    · exact ⟨hc, fun q' hq' => Option.some_inj.mp hq' ▸ hnew⟩
    · exact ⟨hc, hq⟩
  · exact ⟨hc, hq⟩

theorem Ok.updateWeights (hc : c.Ok) (cg sg : K) : (c.updateWeights cg sg).Ok := by
  rw [Context.Ok, updateWeights_history]; exact hc

end Context

namespace Fuzzer

/-- The invariant of every reachable fuzzer state. -/
structure Inv (F : Fuzzer K) : Prop where
  ctx_ok : ∀ c ∈ F.ctx, c.Ok
  queue_ok : ∀ i, (F.queue i).Ok

theorem Inv.writeBack {F : Fuzzer K} (hF : F.Inv) {ctx : Option (Context K)}
    (hc : ∀ c ∈ ctx, c.Ok) (e : Option Nat) {qdata : Option (QueueData K)}
    (hq : ∀ q ∈ qdata, q.Ok) : (F.writeBack ctx e qdata).Inv :=
  ⟨hc, fun j => (writeBack_queue F ctx e qdata j).elim (fun h => h ▸ hF.queue_ok j)
    (fun h => hq _ h)⟩

theorem Inv.entry {F : Fuzzer K} (hF : F.Inv) (e : Option Nat) : ∀ q ∈ e.map F.queue, q.Ok := by
  rcases e with _ | i
  · exact fun _ h => absurd h (Option.not_mem_none _)
  · intro q hq; obtain rfl := Option.some_inj.mp hq; exact hF.queue_ok i

theorem ok_gfuzzCaptureState {ctx : Option (Context K)} {qdata : Option (QueueData K)}
    (hc : ∀ c ∈ ctx, c.Ok) (hq : ∀ q ∈ qdata, q.Ok) (shm : StateMap) :
    (∀ c ∈ (gfuzzCaptureState ctx shm qdata).1, c.Ok) ∧
      ∀ q ∈ (gfuzzCaptureState ctx shm qdata).2, q.Ok := by
  rcases ctx with _ | c
  · exact ⟨hc, hq⟩
  · have h := (hc c rfl).captureState hq shm
    exact ⟨fun c' hc' => Option.some_inj.mp hc' ▸ h.1, h.2⟩

theorem ok_gfuzzEvaluateDiversity {ctx : Option (Context K)} {qdata : Option (QueueData K)}
    (hc : ∀ c ∈ ctx, c.Ok) (hq : ∀ q ∈ qdata, q.Ok) :
    (∀ c ∈ (gfuzzEvaluateDiversity ctx qdata).2.1, c.Ok) ∧
      ∀ q ∈ (gfuzzEvaluateDiversity ctx qdata).2.2, q.Ok := by
  rcases ctx with _ | c
  · exact ⟨hc, hq⟩
  · have h := (hc c rfl).evaluateDiversity hq
    exact ⟨fun c' hc' => Option.some_inj.mp hc' ▸ h.1, h.2⟩

/-- **Every call keeps the invariant.** -/
theorem Inv.step {F : Fuzzer K} (hF : F.Inv) (call : FuzzerCall K) : (F.step call).Inv := by
  cases call with
  | captureState e shm =>
    have h := ok_gfuzzCaptureState hF.ctx_ok (hF.entry e) shm
    exact hF.writeBack h.1 e h.2
  | evaluateDiversity e =>
    have h := ok_gfuzzEvaluateDiversity hF.ctx_ok (hF.entry e)
    exact hF.writeBack h.1 e h.2
  | updateWeights cg sg =>
    refine ⟨fun c' hc' => ?_, hF.queue_ok⟩
    obtain ⟨c, hc, rfl⟩ := Option.mem_map.mp hc'
    exact (hF.ctx_ok c hc).updateWeights cg sg

theorem inv_init (numKeyVars : Nat) (enabledEnv : Bool) (shmId : Option Int) (shmatOk : Bool) :
    (init numKeyVars enabledEnv shmId shmatOk : Fuzzer K).Inv := by
  refine ⟨fun c hc => ?_, fun _ => QueueData.zero_ok⟩
  unfold init gfuzzInit at hc
  dsimp only at hc
  split_ifs at hc
  · rw [Option.mem_def, Option.some_inj] at hc
    subst hc
    intro s hs
    obtain rfl := List.eq_of_mem_replicate hs
    exact StateSnapshot.zero_validCountCorrect
  · exact absurd hc (Option.not_mem_none _)

theorem Inv.run {F : Fuzzer K} (hF : F.Inv) (calls : List (FuzzerCall K)) : (F.run calls).Inv :=
  run_preserves Inv (fun _ c h => h.step c) hF calls

end Fuzzer

/-- **`valid_count` is right everywhere.**  In every state reachable from `gfuzz_init`, by
any captures (of any map contents), evaluations and weight updates, every snapshot of the
history and every sidecar's snapshot has the `valid_count` of its own map. -/
theorem valid_count_invariant (numKeyVars : Nat) (enabledEnv : Bool) (shmId : Option Int)
    (shmatOk : Bool) (calls : List (FuzzerCall K)) :
    let F := (Fuzzer.init numKeyVars enabledEnv shmId shmatOk : Fuzzer K).run calls
    (∀ c ∈ F.ctx, ∀ s ∈ c.history.snapshots, s.ValidCountCorrect) ∧
      ∀ i, (F.queue i).stateSnapshot.ValidCountCorrect :=
  have hF := (Fuzzer.inv_init numKeyVars enabledEnv shmId shmatOk).run calls
  ⟨hF.ctx_ok, fun i => (hF.queue_ok i).1⟩

/-! ## The energy multiplier -/

theorem gfuzzCalculateEnergyMultiplier_mem {s : K} (h0 : 0 ≤ s) (h1 : s ≤ maxDiversity) :
    1 ≤ gfuzzCalculateEnergyMultiplier s ∧
      gfuzzCalculateEnergyMultiplier s ≤ 1 + gfuzzEnergyCoeff * maxDiversity := by
  have hγ : (0 : K) ≤ gfuzzEnergyCoeff := by unfold gfuzzEnergyCoeff; norm_num
  unfold gfuzzCalculateEnergyMultiplier
  exact ⟨le_add_of_nonneg_right (mul_nonneg hγ h0), by gcongr⟩

/-- Every multiplier the fuzzer reads lies in `[1, 1 + γ · maxDiversity]`: the pass-through
branches return `1`, the others the multiplier of a cached score. -/
theorem gfuzzGetEnergyMultiplier_mem (ctx : Option (Context K)) {qdata : Option (QueueData K)}
    (hq : ∀ q ∈ qdata, q.Ok) :
    1 ≤ gfuzzGetEnergyMultiplier ctx qdata ∧
      gfuzzGetEnergyMultiplier ctx qdata ≤ 1 + gfuzzEnergyCoeff * maxDiversity := by
  have hone : (1 : K) ≤ 1 + gfuzzEnergyCoeff * maxDiversity :=
    le_add_of_nonneg_right (mul_nonneg (by unfold gfuzzEnergyCoeff; norm_num)
      (zero_le_one.trans one_le_maxDiversity))
  unfold gfuzzGetEnergyMultiplier
  rcases ctx with _ | c
  · exact ⟨le_rfl, hone⟩
  dsimp only
  split_ifs
  · rcases qdata with _ | q
    · exact ⟨le_rfl, hone⟩
    dsimp only
    split_ifs
    · exact gfuzzCalculateEnergyMultiplier_mem (hq q rfl).2.1 (hq q rfl).2.2
    · exact ⟨le_rfl, hone⟩
  · exact ⟨le_rfl, hone⟩

/-- **Diversity is bounded by `maxDiversity`, not by `1`.**  Every score lies in
`[0, maxDiversity]`, and in every reachable fuzzer state the energy multiplier of every
sidecar lies in `[1, 1 + γ · maxDiversity]`. -/
theorem energy_multiplier_bounds :
    (∀ (current : StateSnapshot K) (history : StateHistory K),
      0 ≤ gfuzzEvaluateStateDiversity current history ∧
        gfuzzEvaluateStateDiversity current history ≤ maxDiversity) ∧
    ∀ (numKeyVars : Nat) (enabledEnv : Bool) (shmId : Option Int) (shmatOk : Bool)
      (calls : List (FuzzerCall K)) (entry : Option Nat),
      let F := (Fuzzer.init numKeyVars enabledEnv shmId shmatOk : Fuzzer K).run calls
      1 ≤ gfuzzGetEnergyMultiplier F.ctx (entry.map F.queue) ∧
        gfuzzGetEnergyMultiplier F.ctx (entry.map F.queue) ≤ 1 + gfuzzEnergyCoeff * maxDiversity :=
  ⟨fun current history => ⟨gfuzzEvaluateStateDiversity_nonneg current history,
      gfuzzEvaluateStateDiversity_le current history⟩,
    fun numKeyVars enabledEnv shmId shmatOk calls entry =>
      gfuzzGetEnergyMultiplier_mem _
        (((Fuzzer.inv_init numKeyVars enabledEnv shmId shmatOk).run calls).entry entry)⟩

/-! ## Where the compared snapshots come from

`gfuzz_evaluate_diversity` refuses a sidecar whose `state_captured` flag is clear, and only
`gfuzz_capture_state` sets the flag, together with a fresh snapshot of the map.  So whatever
the history holds was captured: the invariant below is stated for any property `P` of
snapshots that every captured map has. -/

namespace Context

variable {c : Context K} {qdata : Option (QueueData K)}

theorem captureState_history (shm : StateMap) : (c.captureState shm qdata).1.history = c.history := by
  unfold captureState; split_ifs <;> (try rcases qdata with _ | q) <;> rfl

/-- A sidecar after a capture is the one given, or a captured snapshot of `shm`. -/
theorem mem_captureState (shm : StateMap) {q' : QueueData K} (hq' : q' ∈ (c.captureState shm qdata).2) :
    q' ∈ qdata ∨ q'.stateSnapshot = gfuzzCreateSnapshot shm := by
  unfold captureState at hq'
  split_ifs at hq'
  · rcases qdata with _ | q
    · exact .inl hq'
    · exact .inr (by rw [← Option.some_inj.mp hq'])
  all_goals exact .inl hq'

/-- An evaluation admits, if anything, the snapshot of a captured sidecar. -/
theorem evaluateDiversity_history (qdata : Option (QueueData K)) :
    (c.evaluateDiversity qdata).2.1.history = c.history ∨
      ∃ q ∈ qdata, q.stateCaptured = true ∧
        (c.evaluateDiversity qdata).2.1.history = gfuzzAddToHistory c.history q.stateSnapshot := by
  unfold evaluateDiversity
  split_ifs with hen
  · rcases qdata with _ | q
    · exact .inl rfl
    dsimp only
    split_ifs <;> first | exact .inl rfl | exact .inr ⟨q, rfl, by simp_all, rfl⟩
  · exact .inl rfl

/-- An evaluation caches a score and changes neither the snapshot nor the flag. -/
theorem mem_evaluateDiversity {q' : QueueData K} (hq' : q' ∈ (c.evaluateDiversity qdata).2.2) :
    ∃ q ∈ qdata, q'.stateSnapshot = q.stateSnapshot ∧ q'.stateCaptured = q.stateCaptured := by
  unfold evaluateDiversity at hq'
  split_ifs at hq'
  · rcases qdata with _ | q
    · exact absurd hq' (Option.not_mem_none _)
    dsimp only at hq'
    split_ifs at hq' <;> obtain rfl := Option.some_inj.mp hq' <;> exact ⟨q, rfl, rfl, rfl⟩
  · exact ⟨q', hq', rfl, rfl⟩

end Context

variable {qdata : Option (QueueData K)}

/-- The context after a capture is the capture's, on the context if there is one. -/
theorem gfuzzCaptureState_fst (ctx : Option (Context K)) (shm : StateMap) :
    (gfuzzCaptureState ctx shm qdata).1 = ctx.map fun c => (c.captureState shm qdata).1 := by
  cases ctx <;> rfl

/-- The context after an evaluation is the evaluation's, on the context if there is one. -/
theorem gfuzzEvaluateDiversity_ctx (ctx : Option (Context K)) :
    (gfuzzEvaluateDiversity ctx qdata).2.1 = ctx.map fun c => (c.evaluateDiversity qdata).2.1 := by
  cases ctx <;> rfl

theorem mem_gfuzzCaptureState {ctx : Option (Context K)} (shm : StateMap) {q' : QueueData K}
    (hq' : q' ∈ (gfuzzCaptureState ctx shm qdata).2) :
    q' ∈ qdata ∨ q'.stateSnapshot = gfuzzCreateSnapshot shm := by
  rcases ctx with _ | c
  · exact .inl hq'
  · exact c.mem_captureState shm hq'

theorem mem_gfuzzEvaluateDiversity {ctx : Option (Context K)} {q' : QueueData K}
    (hq' : q' ∈ (gfuzzEvaluateDiversity ctx qdata).2.2) :
    ∃ q ∈ qdata, q'.stateSnapshot = q.stateSnapshot ∧ q'.stateCaptured = q.stateCaptured := by
  rcases ctx with _ | c
  · exact ⟨q', hq', rfl, rfl⟩
  · exact c.mem_evaluateDiversity hq'

namespace Fuzzer

/-- The history is the initial one after admitting, in order, snapshots that all have `P`. -/
def Admitted (N : Nat) (P : StateSnapshot K → Prop) (c : Context K) : Prop :=
  ∃ ss : List (StateSnapshot K), (∀ s ∈ ss, P s) ∧ c.history = (gfuzzInitStateHistory N).addAll ss

/-- Every snapshot the fuzzer holds has `P`: the history is made of admissions of such
snapshots, and each captured sidecar holds one. -/
structure Holds (N : Nat) (P : StateSnapshot K → Prop) (F : Fuzzer K) : Prop where
  history : ∀ c ∈ F.ctx, Admitted N P c
  captured : ∀ i, (F.queue i).stateCaptured = true → P (F.queue i).stateSnapshot

variable {N : Nat} {P : StateSnapshot K → Prop}

theorem holds_init (numKeyVars : Nat) (enabledEnv : Bool) (shmId : Option Int) (shmatOk : Bool) :
    (init numKeyVars enabledEnv shmId shmatOk : Fuzzer K).Holds numKeyVars P := by
  refine ⟨fun c hc => ?_, fun _ h => absurd h (by simp [init, QueueData.zero])⟩
  unfold init gfuzzInit at hc
  dsimp only at hc
  split_ifs at hc
  · obtain rfl := Option.some_inj.mp hc
    exact ⟨[], fun _ h => absurd h (List.not_mem_nil _), rfl⟩
  · exact absurd hc (Option.not_mem_none _)

/-- A write-back keeps `P` when the context keeps it and the sidecar written has it. -/
theorem Holds.writeBack {F : Fuzzer K} (hF : F.Holds N P) {ctx : Option (Context K)}
    (hc : ∀ c ∈ ctx, Admitted N P c) (e : Option Nat)
    {qdata : Option (QueueData K)} (hq : ∀ q ∈ qdata, q.stateCaptured = true → P q.stateSnapshot) :
    (F.writeBack ctx e qdata).Holds N P :=
  ⟨hc, fun j hj => (writeBack_queue F ctx e qdata j).elim
    (fun h => by rw [h] at hj ⊢; exact hF.captured j hj) (fun h => hq _ h hj)⟩

/-- **One call keeps `P`**, when a capture's map has it. -/
theorem Holds.step {F : Fuzzer K} (hF : F.Holds N P) (call : FuzzerCall K)
    (hcall : ∀ e shm, call = .captureState e shm → P (gfuzzCreateSnapshot shm)) :
    (F.step call).Holds N P := by
  have hentry : ∀ e : Option Nat, ∀ q ∈ e.map F.queue, q.stateCaptured = true → P q.stateSnapshot := by
    rintro (_ | i) q hq
    · exact absurd hq (Option.not_mem_none _)
    · obtain rfl := Option.some_inj.mp hq; exact hF.captured i
  cases call with
  | captureState e shm =>
    refine hF.writeBack (fun c' hc' => ?_) e fun q' hq' hcap => ?_
    · rw [gfuzzCaptureState_fst] at hc'
      obtain ⟨c, hc, rfl⟩ := Option.mem_map.mp hc'
      obtain ⟨ss, hP, hss⟩ := hF.history c hc
      exact ⟨ss, hP, (Context.captureState_history shm).trans hss⟩
    · rcases mem_gfuzzCaptureState shm hq' with hq' | hsnap
      · exact hentry e q' hq' hcap
      · exact hsnap ▸ hcall e shm rfl
  | evaluateDiversity e =>
    refine hF.writeBack (fun c' hc' => ?_) e fun q' hq' hcap => ?_
    · rw [gfuzzEvaluateDiversity_ctx] at hc'
      obtain ⟨c, hc, rfl⟩ := Option.mem_map.mp hc'
      obtain ⟨ss, hP, hss⟩ := hF.history c hc
      rcases c.evaluateDiversity_history (e.map F.queue) with h | ⟨q, hq, hcap, h⟩
      · exact ⟨ss, hP, h.trans hss⟩
      · -- the admitted snapshot is a captured sidecar's
        refine ⟨ss ++ [q.stateSnapshot], fun s hs => ?_, by
          rw [h, hss, StateHistory.addAll_append_singleton]⟩
        rcases List.mem_append.mp hs with hs | hs
        · exact hP s hs
        · exact List.mem_singleton.mp hs ▸ hentry e q hq hcap
    · obtain ⟨q, hq, hs, hc⟩ := mem_gfuzzEvaluateDiversity hq'
      rw [hs]; exact hentry e q hq (hc ▸ hcap)
  | updateWeights cg sg =>
    refine ⟨fun c' hc' => ?_, hF.captured⟩
    obtain ⟨c, hc, rfl⟩ := Option.mem_map.mp hc'
    obtain ⟨ss, hP, hss⟩ := hF.history c hc
    exact ⟨ss, hP, Context.updateWeights_history.trans hss⟩

theorem Holds.run {F : Fuzzer K} (hF : F.Holds N P) (calls : List (FuzzerCall K))
    (hcalls : ∀ e shm, FuzzerCall.captureState e shm ∈ calls → P (gfuzzCreateSnapshot shm)) :
    (F.run calls).Holds N P := by
  induction calls generalizing F with
  | nil => exact hF
  | cons call calls ih =>
    exact ih (hF.step call fun e shm h => hcalls e shm (h ▸ List.mem_cons_self _ _))
      fun e shm h => hcalls e shm (List.mem_cons_of_mem _ h)

end Fuzzer

/-- **Only captured maps are compared.**  In every state reachable from `gfuzz_init`, the
history is `gfuzz_init_state_history` after admitting, in order, snapshots each taken by
`gfuzz_create_snapshot` of a map one of the run's captures was given, so everything proved of
such histories holds of the fuzzer's; and every captured sidecar holds such a snapshot.  A
sidecar as `calloc` left it is never evaluated, and never admitted. -/
theorem snapshots_from_captures (numKeyVars : Nat) (enabledEnv : Bool) (shmId : Option Int)
    (shmatOk : Bool) (calls : List (FuzzerCall K)) :
    let F := (Fuzzer.init numKeyVars enabledEnv shmId shmatOk : Fuzzer K).run calls
    (∀ c ∈ F.ctx, ∃ ss : List (StateSnapshot K),
      (∀ s ∈ ss, ∃ e shm, FuzzerCall.captureState e shm ∈ calls ∧ s = gfuzzCreateSnapshot shm) ∧
        c.history = (gfuzzInitStateHistory numKeyVars).addAll ss) ∧
    ∀ i, (F.queue i).stateCaptured = true →
      ∃ e shm, FuzzerCall.captureState e shm ∈ calls ∧
        (F.queue i).stateSnapshot = gfuzzCreateSnapshot shm := by
  have hF := (Fuzzer.holds_init (P := fun s => ∃ e shm, FuzzerCall.captureState e shm ∈ calls ∧
      s = gfuzzCreateSnapshot shm) numKeyVars enabledEnv shmId shmatOk).run calls
    fun e shm h => ⟨e, shm, h, rfl⟩
  exact ⟨hF.history, hF.captured⟩

/-! ## The weights follow the update calls

Only `gfuzz_update_weights` writes the weights, and it runs `gfuzz_update_adaptive_weights`
on an enabled context, which every context is.  So the fuzzer refines the weights model of
`Weights`: its weights are the run of the update calls' gains, and what `Weights` proves of
every such run holds of the fuzzer. -/

namespace Context

variable {c : Context K} {qdata : Option (QueueData K)}

/-- A capture changes neither the weights nor the enabled flag. -/
theorem captureState_weights (shm : StateMap) :
    (c.captureState shm qdata).1.weights = c.weights ∧
      (c.captureState shm qdata).1.enabled = c.enabled := by
  unfold captureState; split_ifs <;> (try rcases qdata with _ | q) <;> exact ⟨rfl, rfl⟩

/-- An evaluation changes neither the weights nor the enabled flag. -/
theorem evaluateDiversity_weights (qdata : Option (QueueData K)) :
    (c.evaluateDiversity qdata).2.1.weights = c.weights ∧
      (c.evaluateDiversity qdata).2.1.enabled = c.enabled := by
  unfold evaluateDiversity
  split_ifs
  · rcases qdata with _ | q
    · exact ⟨rfl, rfl⟩
    dsimp only
    split_ifs <;> exact ⟨rfl, rfl⟩
  · exact ⟨rfl, rfl⟩

end Context

/-- The gains an update call passes to `gfuzz_update_weights`. -/
def FuzzerCall.weightGains : FuzzerCall K → Option (K × K)
  | .updateWeights cg sg => some (cg, sg)
  | _ => none

namespace Fuzzer

/-- The context, if there is one, is enabled and holds the weights `W`. -/
def WeightsAre (W : AdaptiveWeights K) (F : Fuzzer K) : Prop :=
  ∀ c ∈ F.ctx, c.enabled = true ∧ c.weights = W

theorem WeightsAre.step {W : AdaptiveWeights K} {F : Fuzzer K} (hF : F.WeightsAre W)
    (call : FuzzerCall K) : (F.step call).WeightsAre (W.run call.weightGains.toList) := by
  intro c' hc'
  cases call with
  | captureState e shm =>
    change c' ∈ (gfuzzCaptureState F.ctx shm (e.map F.queue)).1 at hc'
    rw [gfuzzCaptureState_fst] at hc'
    obtain ⟨c, hc, rfl⟩ := Option.mem_map.mp hc'
    rw [(c.captureState_weights shm).1, (c.captureState_weights shm).2]
    exact hF c hc
  | evaluateDiversity e =>
    change c' ∈ (gfuzzEvaluateDiversity F.ctx (e.map F.queue)).2.1 at hc'
    rw [gfuzzEvaluateDiversity_ctx] at hc'
    obtain ⟨c, hc, rfl⟩ := Option.mem_map.mp hc'
    rw [(c.evaluateDiversity_weights _).1, (c.evaluateDiversity_weights _).2]
    exact hF c hc
  | updateWeights cg sg =>
    obtain ⟨c, hc, rfl⟩ := Option.mem_map.mp hc'
    obtain ⟨hen, hw⟩ := hF c hc
    rw [Context.updateWeights_enabled, Context.updateWeights_weights hen, hw]
    exact ⟨hen, rfl⟩

theorem WeightsAre.run {W : AdaptiveWeights K} {F : Fuzzer K} (hF : F.WeightsAre W)
    (calls : List (FuzzerCall K)) :
    (F.run calls).WeightsAre (W.run (calls.filterMap FuzzerCall.weightGains)) := by
  induction calls generalizing F W with
  | nil => exact hF
  | cons call calls ih =>
    have hg : (call :: calls).filterMap FuzzerCall.weightGains =
        call.weightGains.toList ++ calls.filterMap FuzzerCall.weightGains := by
      cases call <;> rfl
    rw [hg, AdaptiveWeights.run_append]
    exact ih (hF.step call)

end Fuzzer

/-- **The fuzzer's weights are the update calls' run.**  In every state reachable from
`gfuzz_init`, the context's weights are `gfuzz_init_weights` updated by the gains of the
run's `gfuzz_update_weights` calls, in order: captures and evaluations never touch them.  So
the weights invariant holds of the fuzzer, and every seed score lies between the traditional
score and the sidecar's state score (its cached score, or `0` before a capture). -/
theorem weights_follow_updates (numKeyVars : Nat) (enabledEnv : Bool) (shmId : Option Int)
    (shmatOk : Bool) (calls : List (FuzzerCall K)) :
    let F := (Fuzzer.init numKeyVars enabledEnv shmId shmatOk : Fuzzer K).run calls
    (∀ c ∈ F.ctx, c.weights = gfuzzInitWeights.run (calls.filterMap FuzzerCall.weightGains)) ∧
      ∀ (t : K) (q : QueueData K),
        let s := if q.stateCaptured then q.stateDiversityScore else 0
        min t s ≤ gfuzzCalculateSeedScore F.ctx t (some q) ∧
          gfuzzCalculateSeedScore F.ctx t (some q) ≤ max t s := by
  intro F
  have h0 : (Fuzzer.init numKeyVars enabledEnv shmId shmatOk : Fuzzer K).WeightsAre gfuzzInitWeights := by
    intro c hc
    unfold Fuzzer.init gfuzzInit at hc
    dsimp only at hc
    split_ifs at hc
    · obtain rfl := Option.some_inj.mp hc; exact ⟨rfl, rfl⟩
    · exact absurd hc (Option.not_mem_none _)
  have hF := h0.run calls
  refine ⟨fun c hc => (hF c hc).2, fun t q => ?_⟩
  rcases hctx : F.ctx with _ | c
  · exact ⟨min_le_left _ _, le_max_left _ _⟩
  · obtain ⟨hen, hw⟩ := hF c hctx
    have hi : c.weights.Inv := hw ▸ AdaptiveWeights.inv_gfuzzInitWeights.run _
    simp only [gfuzzCalculateSeedScore, hen, not_true_eq_false, if_false]
    exact hi.combinedScore_mem t _

/-! ## Degraded mode -/

namespace Context

variable {c : Context K} {qdata : Option (QueueData K)}

/-- Without a state map a capture changes nothing. -/
theorem captureState_of_not_varStateShm (h : c.varStateShm = false) (shm : StateMap) :
    c.captureState shm qdata = (c, qdata) := by
  simp [captureState, h]

/-- An uncaptured sidecar is not evaluated. -/
theorem evaluateDiversity_of_uncaptured (h : ∀ q ∈ qdata, q.stateCaptured = false) :
    c.evaluateDiversity qdata = (0, c, qdata) := by
  rcases qdata with _ | q
  · simp [evaluateDiversity]
  · simp [evaluateDiversity, h q rfl]

end Context

/-- An uncaptured sidecar gets the traditional score, scaled by `w_t`. -/
theorem gfuzzCalculateSeedScore_of_uncaptured {c : Context K} (hen : c.enabled = true)
    {qdata : Option (QueueData K)} (h : ∀ q ∈ qdata, q.stateCaptured = false) (t : K) :
    gfuzzCalculateSeedScore (some c) t qdata = c.weights.weightTraditional * t := by
  rcases qdata with _ | q
  · simp [gfuzzCalculateSeedScore, gfuzzCalculateCombinedScore, hen]
  · simp [gfuzzCalculateSeedScore, gfuzzCalculateCombinedScore, hen, h q rfl]

theorem gfuzzGetEnergyMultiplier_of_uncaptured (ctx : Option (Context K))
    {qdata : Option (QueueData K)} (h : ∀ q ∈ qdata, q.stateCaptured = false) :
    gfuzzGetEnergyMultiplier ctx qdata = 1 := by
  rcases ctx with _ | c
  · rfl
  rcases qdata with _ | q
  · simp [gfuzzGetEnergyMultiplier]
  · simp [gfuzzGetEnergyMultiplier, h q rfl]

namespace Fuzzer

/-- The fuzzer with the runtime enabled and no state map: nothing is ever captured. -/
structure Degraded (F : Fuzzer K) : Prop where
  ctx_eq : ∃ c, F.ctx = some c ∧ c.enabled = true ∧ c.varStateShm = false ∧
    c.history.count = 0 ∧ c.weights.Inv
  uncaptured : ∀ i, (F.queue i).stateCaptured = false

theorem Degraded.entry {F : Fuzzer K} (hF : F.Degraded) (e : Option Nat) :
    ∀ q ∈ e.map F.queue, q.stateCaptured = false := by
  rcases e with _ | i
  · exact fun _ h => absurd h (Option.not_mem_none _)
  · intro q hq; obtain rfl := Option.some_inj.mp hq; exact hF.uncaptured i

theorem Degraded.step {F : Fuzzer K} (hF : F.Degraded) (call : FuzzerCall K) :
    (F.step call).Degraded := by
  obtain ⟨c, hctx, hen, hshm, hcount, hw⟩ := hF.ctx_eq
  cases call with
  | captureState e shm =>
    simp only [Fuzzer.step, hctx, gfuzzCaptureState, Context.captureState_of_not_varStateShm hshm,
      writeBack_self]
    exact ⟨⟨c, rfl, hen, hshm, hcount, hw⟩, hF.uncaptured⟩
  | evaluateDiversity e =>
    simp only [Fuzzer.step, hctx, gfuzzEvaluateDiversity, Context.evaluateDiversity_of_uncaptured
      (hF.entry e), writeBack_self]
    exact ⟨⟨c, rfl, hen, hshm, hcount, hw⟩, hF.uncaptured⟩
  | updateWeights cg sg =>
    refine ⟨⟨c.updateWeights cg sg, by simp [Fuzzer.step, hctx, gfuzzUpdateWeights], ?_⟩,
      hF.uncaptured⟩
    rw [Context.updateWeights_enabled, Context.updateWeights_varStateShm,
      Context.updateWeights_history, Context.updateWeights_weights hen]
    exact ⟨hen, hshm, hcount, hw.update cg sg⟩

theorem degraded_init (numKeyVars : Nat) {shmId : Option Int} {shmatOk : Bool}
    (h : shmId = none ∨ shmatOk = false) :
    (init numKeyVars true shmId shmatOk : Fuzzer K).Degraded := by
  have hshm : (shmId.isSome && shmatOk) = false := by
    rcases h with rfl | rfl <;> simp
  refine ⟨⟨_, rfl, rfl, hshm, rfl, AdaptiveWeights.inv_gfuzzInitWeights⟩, fun _ => rfl⟩

end Fuzzer

/-- **Degraded mode.**  With `GFUZZ_ENABLED=1` and no attached state map, after any calls the
history stays empty, every evaluation returns `0` and every multiplier is `1`, but the seed
score of every sidecar is `w_t · t`, with `w_t ∈ [0.1, 0.9]` the current traditional weight. -/
theorem degraded_mode (numKeyVars : Nat) (shmId : Option Int) (shmatOk : Bool)
    (hshm : shmId = none ∨ shmatOk = false) (calls : List (FuzzerCall K)) :
    let F := (Fuzzer.init numKeyVars true shmId shmatOk : Fuzzer K).run calls
    ∃ c, F.ctx = some c ∧ c.history.count = 0 ∧
      0.1 ≤ c.weights.weightTraditional ∧ c.weights.weightTraditional ≤ 0.9 ∧
      ∀ (t : K) (entry : Option Nat),
        gfuzzCalculateSeedScore F.ctx t (entry.map F.queue) = c.weights.weightTraditional * t ∧
          gfuzzGetEnergyMultiplier F.ctx (entry.map F.queue) = 1 ∧
          (gfuzzEvaluateDiversity F.ctx (entry.map F.queue)).1 = 0 := by
  intro F
  have hF : F.Degraded :=
    Fuzzer.run_preserves Fuzzer.Degraded (fun _ c h => h.step c) (Fuzzer.degraded_init numKeyVars hshm) calls
  obtain ⟨c, hctx, hen, -, hcount, hw⟩ := hF.ctx_eq
  refine ⟨c, hctx, hcount, hw.ge_min, hw.le_max, fun t e => ⟨?_, ?_, ?_⟩⟩
  · rw [hctx, gfuzzCalculateSeedScore_of_uncaptured hen (hF.entry e)]
  · exact gfuzzGetEnergyMultiplier_of_uncaptured _ (hF.entry e)
  · simp only [hctx, gfuzzEvaluateDiversity, Context.evaluateDiversity_of_uncaptured (hF.entry e)]

/-- The case of no `GFUZZ_SHM_ID`, before any call. -/
theorem degraded_mode_without_shmId :
    ((none : Option Int) = none ∨ true = false) ∧
      let F := (Fuzzer.init gfuzzMaxKeyVars true none true : Fuzzer ℚ).run []
      ∃ c, F.ctx = some c ∧ c.history.count = 0 ∧
        0.1 ≤ c.weights.weightTraditional ∧ c.weights.weightTraditional ≤ 0.9 ∧
        ∀ (t : ℚ) (entry : Option Nat),
          gfuzzCalculateSeedScore F.ctx t (entry.map F.queue) = c.weights.weightTraditional * t ∧
            gfuzzGetEnergyMultiplier F.ctx (entry.map F.queue) = 1 ∧
            (gfuzzEvaluateDiversity F.ctx (entry.map F.queue)).1 = 0 :=
  ⟨Or.inl rfl, degraded_mode gfuzzMaxKeyVars none true (Or.inl rfl) []⟩

/-- Without a state map the seed score of a traditional score `1` is `1/2`, not `1`. -/
theorem degraded_seed_score_halved :
    gfuzzCalculateSeedScore (gfuzzInit gfuzzMaxKeyVars true none true : Option (Context ℚ)) 1
      (some QueueData.zero) = 1 / 2 := by
  simp [gfuzzCalculateSeedScore, gfuzzInit, gfuzzCalculateCombinedScore, gfuzzInitWeights,
    gfuzzInitWeightTrad, QueueData.zero]
  norm_num

/-! ## Disabled mode -/

/-- **Without `GFUZZ_ENABLED` the fuzzer is plain AFL.**  After any calls the context is still
null and every sidecar is as `calloc` left it, so every seed keeps its traditional score, every
energy multiplier is `1`, and every evaluation returns `0`. -/
theorem disabled_pass_through (numKeyVars : Nat) (shmId : Option Int) (shmatOk : Bool)
    (calls : List (FuzzerCall K)) :
    let F := (Fuzzer.init numKeyVars false shmId shmatOk : Fuzzer K).run calls
    F.ctx = none ∧ (∀ i, F.queue i = QueueData.zero) ∧
      ∀ (t : K) (qdata : Option (QueueData K)), gfuzzCalculateSeedScore F.ctx t qdata = t ∧
        gfuzzGetEnergyMultiplier F.ctx qdata = 1 ∧ (gfuzzEvaluateDiversity F.ctx qdata).1 = 0 := by
  have hstep : ∀ (F : Fuzzer K) (call : FuzzerCall K),
      F.ctx = none ∧ (∀ i, F.queue i = QueueData.zero) →
        (F.step call).ctx = none ∧ ∀ i, (F.step call).queue i = QueueData.zero := by
    rintro F (_ | _ | _) ⟨hc, hq⟩ <;>
      simp only [Fuzzer.step, hc, gfuzzCaptureState, gfuzzEvaluateDiversity, gfuzzUpdateWeights,
        Fuzzer.writeBack_self, Option.map_none', true_and] <;> exact hq
  obtain ⟨hc, hq⟩ := Fuzzer.run_preserves _ hstep (F := Fuzzer.init numKeyVars false shmId shmatOk)
    ⟨rfl, fun _ => rfl⟩ calls
  exact ⟨hc, hq, fun t q => by simp [hc, gfuzzCalculateSeedScore, gfuzzGetEnergyMultiplier,
    gfuzzEvaluateDiversity]⟩

end GFuzz
