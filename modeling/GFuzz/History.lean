import GFuzz.Runtime

/-!
# Snapshots and the state history

A snapshot is a frozen copy of the state map with `valid_count`, the number of
nonzero slots, and three cached scores.  The history keeps the last
`GFUZZ_STATE_HISTORY_SIZE` admitted snapshots in a ring buffer: the first 100
admissions fill the array in order, and from then on each one overwrites slot
`head` and advances `head` modulo 100.  It also keeps the running bounds of the
coverage ratio `valid_count / total_vars` seen so far.

## The ring buffer as a queue

What the history is for is a bounded FIFO queue of snapshots, oldest first:
`boundedPush` appends and, once the queue is full, drops the oldest.  The
physical array is read as that queue by `StateHistory.contents`, the first
`count` slots rotated to start at `head`.  The invariant `StateHistory.Inv`
carries the layout facts the reading needs (the array has 100 slots, `head` is
`0` until the array fills, the lower coverage bound stays `0`), and
`contents_gfuzzAddToHistory` says that one admission is one `boundedPush` on the
queue.  By induction, `contents_addAll`: after admitting `s₁ … sₙ` the queue is
the last `min n 100` of them, in order.

Two list facts do the work: writing slot `count` of a partly filled array
extends its prefix (`take_set_succ`), and writing slot `head` of a full one
moves the oldest element to the back (`set_rotate_succ`).
-/

namespace GFuzz

/-! ## Snapshots -/

/-- `gfuzz_state_snapshot_t`. -/
structure StateSnapshot (K : Type*) where
  /-- `states[GFUZZ_VAR_MAP_SIZE]`. -/
  states : StateMap
  /-- `valid_count`, the number of nonzero states. -/
  validCount : Nat
  similarityScore : K
  coverageScore : K
  diversityScore : K

section Snapshot

variable {K : Type*} [LinearOrderedField K]

/-- The all-zero snapshot: what `memset` and `calloc` leave. -/
def StateSnapshot.zero : StateSnapshot K := ⟨StateMap.zero, 0, 0, 0, 0⟩

/-- The counting loop of `gfuzz_create_snapshot`. -/
def countValid (stateMap : StateMap) : Nat :=
  (List.finRange gfuzzVarMapSize).foldl (fun n i => if stateMap i ≠ 0 then n + 1 else n) 0

/-- `gfuzz_create_snapshot`: every field is overwritten, so the result depends on the map
alone. -/
def gfuzzCreateSnapshot (stateMap : StateMap) : StateSnapshot K :=
  { states := stateMap, validCount := countValid stateMap,
    similarityScore := 0, coverageScore := 0, diversityScore := 0 }

/-- The representation invariant of a snapshot: `valid_count` is the number of nonzero
slots. -/
def StateSnapshot.ValidCountCorrect (s : StateSnapshot K) : Prop :=
  s.validCount = (Finset.univ.filter fun i => s.states i ≠ 0).card

theorem foldl_count_eq {α : Type*} (p : α → Prop) [DecidablePred p] (l : List α) (k : Nat) :
    l.foldl (fun n i => if p i then n + 1 else n) k = k + l.countP (fun i => decide (p i)) := by
  induction l generalizing k with
  | nil => rfl
  | cons a l ih => by_cases h : p a <;> simp [ih, h, List.countP_cons]; omega

theorem countP_finRange {n : Nat} (p : Fin n → Prop) [DecidablePred p] :
    (List.finRange n).countP (fun i => decide (p i)) = (Finset.univ.filter p).card := by
  rw [Fin.univ_def, Finset.card_def, Finset.filter_val]
  simp [List.countP_eq_length_filter]

theorem countValid_eq (m : StateMap) :
    countValid m = (Finset.univ.filter fun i => m i ≠ 0).card := by
  rw [countValid, foldl_count_eq, countP_finRange, Nat.zero_add]

@[simp] theorem gfuzzCreateSnapshot_states (m : StateMap) :
    (gfuzzCreateSnapshot m : StateSnapshot K).states = m := rfl

@[simp] theorem gfuzzCreateSnapshot_validCount (m : StateMap) :
    (gfuzzCreateSnapshot m : StateSnapshot K).validCount = countValid m := by
  dsimp only [gfuzzCreateSnapshot]

theorem gfuzzCreateSnapshot_validCountCorrect (m : StateMap) :
    (gfuzzCreateSnapshot m : StateSnapshot K).ValidCountCorrect := by
  rw [StateSnapshot.ValidCountCorrect, gfuzzCreateSnapshot_validCount, gfuzzCreateSnapshot_states]
  exact countValid_eq m

theorem StateSnapshot.zero_validCountCorrect :
    (StateSnapshot.zero : StateSnapshot K).ValidCountCorrect := by
  simp [StateSnapshot.ValidCountCorrect, StateSnapshot.zero, StateMap.zero]

end Snapshot

/-! ## The history -/

/-- `gfuzz_state_history_t`; `snapshots` is the array of `GFUZZ_STATE_HISTORY_SIZE` slots. -/
structure StateHistory (K : Type*) where
  snapshots : List (StateSnapshot K)
  count : Nat
  head : Nat
  /-- `total_vars`, the number of tracked variables. -/
  totalVars : Nat
  minCoverage : K
  maxCoverage : K

section History

variable {K : Type*}

namespace StateHistory

/-- The ring-buffer half of `gfuzz_add_to_history`: append at `count` while there is room,
else overwrite `head` and advance it. -/
def store (h : StateHistory K) (s : StateSnapshot K) : StateHistory K :=
  if h.count < gfuzzStateHistorySize then
    { h with snapshots := h.snapshots.set h.count s, count := h.count + 1 }
  else
    { h with snapshots := h.snapshots.set h.head s,
             head := (h.head + 1) % gfuzzStateHistorySize }

variable {h : StateHistory K} {s : StateSnapshot K}

@[simp] theorem store_totalVars : (h.store s).totalVars = h.totalVars := by
  unfold store; split_ifs <;> rfl

@[simp] theorem store_minCoverage : (h.store s).minCoverage = h.minCoverage := by
  unfold store; split_ifs <;> rfl

@[simp] theorem store_maxCoverage : (h.store s).maxCoverage = h.maxCoverage := by
  unfold store; split_ifs <;> rfl

end StateHistory

variable [LinearOrderedField K]

/-- `gfuzz_init_state_history`: a zeroed array, and the bounds `[0, 1]`. -/
def gfuzzInitStateHistory (totalVars : Nat) : StateHistory K :=
  { snapshots := List.replicate gfuzzStateHistorySize StateSnapshot.zero, count := 0, head := 0,
    totalVars, minCoverage := gfuzzMinCoverage, maxCoverage := gfuzzMaxCoverage }

/-- `(total_vars > 0) ? ((double)valid_count / total_vars) : 0.0`, computed alike by the
evaluator and by the admission. -/
def coverageRatio (totalVars validCount : Nat) : K :=
  if totalVars > 0 then (validCount : K) / totalVars else 0

theorem coverageRatio_nonneg (totalVars validCount : Nat) :
    0 ≤ (coverageRatio totalVars validCount : K) := by
  unfold coverageRatio; split_ifs <;> positivity

namespace StateHistory

/-- The coverage-bounds half of `gfuzz_add_to_history`. -/
def widen (h : StateHistory K) (cov : K) : StateHistory K :=
  let h' := if cov < h.minCoverage then { h with minCoverage := cov } else h
  if cov > h'.maxCoverage then { h' with maxCoverage := cov } else h'

end StateHistory

/-- `gfuzz_add_to_history`: the snapshot is copied by value. -/
def gfuzzAddToHistory (h : StateHistory K) (s : StateSnapshot K) : StateHistory K :=
  let h1 := h.store s
  h1.widen (coverageRatio h1.totalVars s.validCount)

namespace StateHistory

variable {h : StateHistory K} {cov : K}

theorem widen_eq :
    h.widen cov =
      { h with minCoverage := min h.minCoverage cov, maxCoverage := max h.maxCoverage cov } := by
  unfold widen
  rcases lt_or_le cov h.minCoverage with h1 | h1 <;>
    rcases lt_or_le h.maxCoverage cov with h2 | h2 <;>
    simp [h1, h2, not_lt.mpr, min_eq_right, min_eq_left, max_eq_right, max_eq_left, le_of_lt]

@[simp] theorem widen_snapshots : (h.widen cov).snapshots = h.snapshots := by rw [widen_eq]
@[simp] theorem widen_count : (h.widen cov).count = h.count := by rw [widen_eq]
@[simp] theorem widen_head : (h.widen cov).head = h.head := by rw [widen_eq]
@[simp] theorem widen_totalVars : (h.widen cov).totalVars = h.totalVars := by rw [widen_eq]
@[simp] theorem widen_minCoverage : (h.widen cov).minCoverage = min h.minCoverage cov := by
  rw [widen_eq]
@[simp] theorem widen_maxCoverage : (h.widen cov).maxCoverage = max h.maxCoverage cov := by
  rw [widen_eq]

end StateHistory

@[simp] theorem gfuzzAddToHistory_totalVars (h : StateHistory K) (s : StateSnapshot K) :
    (gfuzzAddToHistory h s).totalVars = h.totalVars := by
  simp [gfuzzAddToHistory]

theorem gfuzzAddToHistory_maxCoverage (h : StateHistory K) (s : StateSnapshot K) :
    (gfuzzAddToHistory h s).maxCoverage =
      max h.maxCoverage (coverageRatio h.totalVars s.validCount) := by
  simp [gfuzzAddToHistory]

theorem gfuzzAddToHistory_minCoverage (h : StateHistory K) (s : StateSnapshot K) :
    (gfuzzAddToHistory h s).minCoverage =
      min h.minCoverage (coverageRatio h.totalVars s.validCount) := by
  simp [gfuzzAddToHistory]

/-- The first admission into a fresh history fills slot `0`. -/
theorem gfuzzAddToHistory_init (totalVars : Nat) (s : StateSnapshot K) :
    (gfuzzAddToHistory (gfuzzInitStateHistory totalVars) s).count = 1 ∧
      (gfuzzAddToHistory (gfuzzInitStateHistory totalVars) s).snapshots.getD 0
        StateSnapshot.zero = s := by
  simp [gfuzzAddToHistory, StateHistory.store, gfuzzInitStateHistory, gfuzzStateHistorySize]

/-! ## The ring buffer as a queue -/

/-- The abstract history: a FIFO queue of at most `GFUZZ_STATE_HISTORY_SIZE` snapshots,
oldest first.  Pushing onto a full queue drops the oldest. -/
def boundedPush {α : Type*} (q : List α) (a : α) : List α :=
  if q.length < gfuzzStateHistorySize then q ++ [a] else (q ++ [a]).tail

namespace StateHistory

/-- The queue the ring buffer stands for: the filled slots, read from `head` on. -/
def contents (h : StateHistory K) : List (StateSnapshot K) :=
  (h.snapshots.take h.count).rotate h.head

/-- The layout invariant of every reachable history. -/
structure Inv (h : StateHistory K) : Prop where
  length_snapshots : h.snapshots.length = gfuzzStateHistorySize
  count_le : h.count ≤ gfuzzStateHistorySize
  head_lt : h.head < gfuzzStateHistorySize
  head_eq_zero : h.count < gfuzzStateHistorySize → h.head = 0
  minCoverage_eq : h.minCoverage = 0
  one_le_maxCoverage : 1 ≤ h.maxCoverage

end StateHistory

theorem take_set_succ {α : Type*} (l : List α) {n : Nat} (hn : n < l.length) (a : α) :
    (l.set n a).take (n + 1) = l.take n ++ [a] := by
  rw [List.set_eq_take_append_cons_drop, if_pos hn, List.take_append_eq_append_take,
    List.length_take_of_le hn.le]
  simp

/-- Overwriting the oldest element of a full ring moves it to the back. -/
theorem set_rotate_succ {α : Type*} (l : List α) {n : Nat} (hn : n < l.length) (a : α) :
    (l.set n a).rotate (n + 1) = (l.rotate n).tail ++ [a] := by
  have hset : l.set n a = l.take n ++ a :: l.drop (n + 1) := by
    rw [List.set_eq_take_append_cons_drop, if_pos hn]
  have hlen : (l.take n).length = n := List.length_take_of_le hn.le
  rw [List.rotate_eq_drop_append_take (by simp; omega), List.rotate_eq_drop_append_take hn.le, hset,
    List.drop_append_eq_append_drop, List.take_append_eq_append_take, hlen,
    List.drop_eq_nil_of_le (by omega), List.take_take, List.drop_eq_getElem_cons hn, List.cons_append,
    List.tail_cons, Nat.add_sub_cancel_left, min_eq_right (Nat.le_succ n)]
  simp

theorem inv_gfuzzInitStateHistory (totalVars : Nat) :
    (gfuzzInitStateHistory totalVars : StateHistory K).Inv where
  length_snapshots := List.length_replicate _ _
  count_le := Nat.zero_le _
  head_lt := (by decide : 0 < gfuzzStateHistorySize)
  head_eq_zero _ := rfl
  minCoverage_eq := by simp only [gfuzzInitStateHistory, gfuzzMinCoverage]; norm_num
  one_le_maxCoverage := by simp only [gfuzzInitStateHistory, gfuzzMaxCoverage]; norm_num

namespace StateHistory

variable {h : StateHistory K} {s : StateSnapshot K}

theorem Inv.store (hi : h.Inv) (s : StateSnapshot K) :
    (h.store s).snapshots.length = gfuzzStateHistorySize ∧ (h.store s).count ≤ gfuzzStateHistorySize ∧
      (h.store s).head < gfuzzStateHistorySize ∧
      ((h.store s).count < gfuzzStateHistorySize → (h.store s).head = 0) := by
  have := hi.length_snapshots; have := hi.count_le; have := hi.head_lt; have := hi.head_eq_zero
  unfold StateHistory.store
  split_ifs with hc
  · simp only [List.length_set]; omega
  · simp only [List.length_set]
    exact ⟨by assumption, by assumption, Nat.mod_lt _ (by decide), fun h' => absurd h' hc⟩

/-- **One admission keeps the layout.** -/
theorem Inv.gfuzzAddToHistory (hi : h.Inv) (s : StateSnapshot K) :
    (GFuzz.gfuzzAddToHistory h s).Inv := by
  obtain ⟨h1, h2, h3, h4⟩ := hi.store s
  have hr := coverageRatio_nonneg (K := K) h.totalVars s.validCount
  refine ⟨?_, ?_, ?_, ?_, ?_, ?_⟩ <;>
    simp only [GFuzz.gfuzzAddToHistory, widen_snapshots, widen_count, widen_head,
      widen_minCoverage, widen_maxCoverage, store_minCoverage, store_maxCoverage, store_totalVars]
  · exact h1
  · exact h2
  · exact h3
  · exact h4
  · rw [hi.minCoverage_eq]; exact min_eq_left hr
  · exact le_max_of_le_left hi.one_le_maxCoverage

theorem Inv.length_contents (hi : h.Inv) : h.contents.length = h.count := by
  simp [contents, hi.length_snapshots, hi.count_le]

/-- **One admission is one push on the queue.** -/
theorem Inv.contents_gfuzzAddToHistory (hi : h.Inv) (s : StateSnapshot K) :
    (GFuzz.gfuzzAddToHistory h s).contents = boundedPush h.contents s := by
  have hlen := hi.length_snapshots
  have hc' := hi.length_contents
  have hsc : (GFuzz.gfuzzAddToHistory h s).contents = (h.store s).contents := by
    simp only [GFuzz.gfuzzAddToHistory, contents, widen_snapshots, widen_count, widen_head]
  rw [hsc, boundedPush, hc']
  unfold StateHistory.store
  split_ifs with hc
  · -- room left: the new snapshot goes after the filled prefix, and `head` stays `0`
    simp only [contents, hi.head_eq_zero hc, List.rotate_zero]
    exact take_set_succ _ (by omega) s
  · -- full: overwrite the oldest and advance `head`
    have hfull : h.count = gfuzzStateHistorySize := le_antisymm hi.count_le (not_lt.mp hc)
    have hne : h.contents ≠ [] := List.ne_nil_of_length_pos (by rw [hc', hfull]; decide)
    rw [List.tail_append_of_ne_nil hne]
    have hset : (h.snapshots.set h.head s).length = h.snapshots.length := List.length_set ..
    simp only [contents, hfull, ← hlen, List.take_length]
    rw [List.take_of_length_le hset.le, ← hset, List.rotate_mod,
      set_rotate_succ _ (by rw [hlen]; exact hi.head_lt)]

end StateHistory

/-- Admit `ss` one after another. -/
def StateHistory.addAll (h : StateHistory K) (ss : List (StateSnapshot K)) : StateHistory K :=
  ss.foldl gfuzzAddToHistory h

@[simp] theorem StateHistory.addAll_append_singleton (h : StateHistory K)
    (ss : List (StateSnapshot K)) (s : StateSnapshot K) :
    h.addAll (ss ++ [s]) = gfuzzAddToHistory (h.addAll ss) s := by
  simp [StateHistory.addAll]

/-- Pushing onto the last 100 elements of `l` gives the last 100 of `l ++ [a]`. -/
theorem boundedPush_drop {α : Type*} (l : List α) (a : α) :
    boundedPush (l.drop (l.length - gfuzzStateHistorySize)) a =
      (l ++ [a]).drop ((l ++ [a]).length - gfuzzStateHistorySize) := by
  unfold boundedPush
  rw [List.length_drop, List.length_append, List.length_singleton]
  split_ifs with hl
  · rw [show l.length - gfuzzStateHistorySize = 0 by omega,
      show l.length + 1 - gfuzzStateHistorySize = 0 by omega, List.drop_zero, List.drop_zero]
  · rw [← List.drop_append_of_le_length (Nat.sub_le _ _), List.tail_drop,
      show l.length + 1 - gfuzzStateHistorySize = l.length - gfuzzStateHistorySize + 1 by omega]

namespace StateHistory

variable {h : StateHistory K}

theorem Inv.addAll (hi : h.Inv) (ss : List (StateSnapshot K)) : (h.addAll ss).Inv := by
  induction ss using List.reverseRecOn with
  | nil => exact hi
  | append_singleton ss s ih => rw [addAll_append_singleton]; exact ih.gfuzzAddToHistory s

/-- **Every run of admissions.**  The queue is the last 100 of what it held and what was
admitted, in order. -/
theorem Inv.contents_addAll (hi : h.Inv) (ss : List (StateSnapshot K)) :
    (h.addAll ss).contents =
      (h.contents ++ ss).drop ((h.contents ++ ss).length - gfuzzStateHistorySize) := by
  induction ss using List.reverseRecOn with
  | nil =>
    rw [List.append_nil, hi.length_contents, Nat.sub_eq_zero_of_le hi.count_le, List.drop_zero]
    rfl
  | append_singleton ss s ih =>
    rw [addAll_append_singleton, (hi.addAll ss).contents_gfuzzAddToHistory, ih, boundedPush_drop,
      List.append_assoc]

@[simp] theorem addAll_totalVars (ss : List (StateSnapshot K)) :
    (h.addAll ss).totalVars = h.totalVars := by
  induction ss using List.reverseRecOn with
  | nil => rfl
  | append_singleton ss t ih => rw [addAll_append_singleton, gfuzzAddToHistory_totalVars, ih]

/-- The upper coverage bound never falls, and covers every admitted snapshot. -/
theorem le_maxCoverage_addAll (ss : List (StateSnapshot K)) :
    h.maxCoverage ≤ (h.addAll ss).maxCoverage ∧
      ∀ s ∈ ss, coverageRatio h.totalVars s.validCount ≤ (h.addAll ss).maxCoverage := by
  induction ss using List.reverseRecOn with
  | nil => exact ⟨le_rfl, fun s hs => absurd hs (List.not_mem_nil s)⟩
  | append_singleton ss s ih =>
    rw [addAll_append_singleton, gfuzzAddToHistory_maxCoverage, addAll_totalVars]
    refine ⟨ih.1.trans (le_max_left _ _), fun t ht => ?_⟩
    rcases List.mem_append.mp ht with ht | ht
    · exact (ih.2 t ht).trans (le_max_left _ _)
    · rw [List.mem_singleton.mp ht]; exact le_max_right _ _

end StateHistory

end History

end GFuzz
