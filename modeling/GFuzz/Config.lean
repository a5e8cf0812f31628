import Mathlib

/-!
# The tunables of `gfuzz-config.h`

Every constant the modelled code reads, under the macro's own name.  The `double`
macros are elements of an arbitrary linear ordered field `K`: the development
reasons in exact arithmetic, and `K := ℚ` or `K := ℝ` picks the reading a
statement wants.  Integer macros are natural numbers.

Left out, because no modelled function reads them: `GFUZZ_ENABLED` (the
compile-time flag; both sides read the environment variable instead),
`GFUZZ_INST_RATIO`, `GFUZZ_CRITICAL_PATH_ONLY`, `GFUZZ_DISTANCE_THRESHOLD` (the
identifier's constructor defaults to the literal `3`), and the logging switches
`GFUZZ_DEBUG`, `GFUZZ_STATS` and `GFUZZ_LOG_STATES`.
-/

namespace GFuzz

/-! ## Algorithm 1: key variable identification -/

/-- `GFUZZ_MAX_KEY_VARS`. -/
def gfuzzMaxKeyVars : Nat := 1024

/-! ## Algorithm 3: state diversity -/

section Weights

variable {K : Type*} [LinearOrderedField K]

/-- `GFUZZ_WEIGHT_NUMERIC`. -/
def gfuzzWeightNumeric : K := 1.0

/-- `GFUZZ_WEIGHT_CHAR`. -/
def gfuzzWeightChar : K := 0.8

/-- `GFUZZ_WEIGHT_STRING`. -/
def gfuzzWeightString : K := 1.2

/-- `GFUZZ_STRING_LEV_ALPHA`, the `α` of the paper. -/
def gfuzzStringLevAlpha : K := 0.6

/-- `GFUZZ_STRING_LEN_BETA`, the `β` of the paper. -/
def gfuzzStringLenBeta : K := 0.4

/-- `GFUZZ_WEIGHT_SIMILARITY`, `w_sim`. -/
def gfuzzWeightSimilarity : K := 0.6

/-- `GFUZZ_WEIGHT_COVERAGE`, `w_cov`. -/
def gfuzzWeightCoverage : K := 0.4

/-! ## Algorithm 4: adaptive scheduling -/

/-- `GFUZZ_LEARNING_RATE`, the `λ` of the paper. -/
def gfuzzLearningRate : K := 0.1

/-- `GFUZZ_ENERGY_COEFF`, the `γ` of the paper. -/
def gfuzzEnergyCoeff : K := 0.5

/-- `GFUZZ_INIT_WEIGHT_TRAD`. -/
def gfuzzInitWeightTrad : K := 0.5

/-- `GFUZZ_INIT_WEIGHT_STATE`. -/
def gfuzzInitWeightState : K := 0.5

/-- `GFUZZ_MIN_COVERAGE`, the initial lower coverage bound of a history. -/
def gfuzzMinCoverage : K := 0.0

/-- `GFUZZ_MAX_COVERAGE`, the initial upper coverage bound of a history. -/
def gfuzzMaxCoverage : K := 1.0

end Weights

/-! ## Storage -/

/-- `GFUZZ_VAR_MAP_SIZE_POW2`. -/
def gfuzzVarMapSizePow2 : Nat := 14

/-- `GFUZZ_VAR_MAP_SIZE`, `1 << GFUZZ_VAR_MAP_SIZE_POW2`. -/
def gfuzzVarMapSize : Nat := 1 <<< gfuzzVarMapSizePow2

/-- `GFUZZ_MAX_STRING_LEN`. -/
def gfuzzMaxStringLen : Nat := 256

/-- `GFUZZ_STATE_HISTORY_SIZE`. -/
def gfuzzStateHistorySize : Nat := 100

theorem gfuzzVarMapSize_eq : gfuzzVarMapSize = 16384 := rfl

instance : NeZero gfuzzVarMapSize := ⟨by decide⟩

/-- The key-variable limit fits in the state map, so a loaded id is never dropped by the
runtime's range check. -/
theorem gfuzzMaxKeyVars_le_gfuzzVarMapSize : gfuzzMaxKeyVars ≤ gfuzzVarMapSize := by
  decide

/-- The four recorder kinds, `GFUZZ_VAR_TYPE_NUMERIC` to `GFUZZ_VAR_TYPE_POINTER`.  The
macros' integer codes are left out: the instrumenter only switches on them. -/
inductive VarType where
  | numeric
  | char
  | string
  | pointer
  deriving DecidableEq, Repr

end GFuzz
