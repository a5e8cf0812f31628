import GFuzz.Instrument
import GFuzz.Runtime

/-!
# The pipeline: identification, manifest, instrumentation, runtime

`KeyVars` identifies the key variables and writes the manifest, `Manifest` loads it into a
fresh instrumenter, `Instrument` inserts the recorder calls, and `Runtime` executes them.  Each
module proves its own pass; this one joins them.

## The two passes together

When no identified name holds a newline, the stores that get a recorder call are exactly the
stores through a named pointer whose key is read back from one of the first
`GFUZZ_MAX_KEY_VARS` records of the manifest, and each records the position of the last
record read back as its key (`identified_stores_recorded`).  A record whose names hold no
comma reads back as its own key.  A key identified from an unnamed address (a numbered local,
or a constant expression, named by its operand text) is exported and loaded, but its stores
are never instrumented.

## The inserted calls and the runtime

For any manifest, every inserted recorder call passes a constant id below
`GFUZZ_MAX_KEY_VARS` to one of the four recorders.  The runtime's bounds check
`var_id < GFUZZ_VAR_MAP_SIZE` never drops such a call: the only call it makes that the
runtime drops is a string record of a null pointer, which `__gfuzz_record_string` ignores,
and every other one stores its word in the slot of the id (`inserted_records_in_map`).
-/

namespace GFuzz

open IR

open VariableStateInstrumenter in
/-- **The identified variables are the recorded ones.**  After `identifyKeyVariables`,
`exportKeyVariables` and `loadKeyVariables`, with no name holding a newline: a record whose
names hold no comma reads back as its own key; every function is instrumented as
`instrumentFunction_eq` says; a store gets recorder code exactly when its pointer operand is
named and its key is read back from one of the first `GFUZZ_MAX_KEY_VARS` records; and the id
it records is the position of the last such record. -/
theorem identified_stores_recorded (M : Module) (threshold : Int) (targetsFile : Option Str) :
    let K := (KeyVariableIdentifier.new M threshold).identifyKeyVariables targetsFile
    (∀ e ∈ K.keyVariables.entries, '\n' ∉ e.2.function ∧ '\n' ∉ e.2.name) →
    let I := VariableStateInstrumenter.new.loadKeyVariables (some K.exportKeyVariables)
    let keys := (K.keyVariables.entries.map fun e => manifestKey e.2).take gfuzzMaxKeyVars
    (∀ e ∈ K.keyVariables.entries, ',' ∉ e.2.function → ',' ∉ e.2.name → manifestKey e.2 = e.1) ∧
    ∀ (F : Function) (val ptr : Value),
      I.instrumentFunction F =
          { F with blocks := F.blocks.map fun B => B.flatMap fun J => J :: I.inserted F.name J } ∧
        (I.inserted F.name (.store val ptr) ≠ [] ↔
          ptr.hasName = true ∧ F.name ++ "::".toList ++ ptr.name ∈ keys) ∧
        ∀ i : Nat, keys[i]? = some (F.name ++ "::".toList ++ ptr.name) →
          F.name ++ "::".toList ++ ptr.name ∉ keys.drop (i + 1) →
          (I.getVariableID F.name ptr.name).toNat = i := by
  intro K hK I keys
  obtain ⟨-, hnone, hsome⟩ := loadKeyVariables_exportKeyVariables K hK
  have hI := loadKeyVariables_idsBelow (some K.exportKeyVariables)
  refine ⟨fun e he => manifestKey_of_mem_identifyKeyVariables M threshold targetsFile he,
    fun F val ptr => ⟨instrumentFunction_eq I F, ⟨fun hJ => ?_, fun ⟨hn, hk⟩ => ?_⟩,
      fun i hi hlater => ?_⟩⟩
  · -- code only for a named pointer with a loaded key
    cases hn : ptr.hasName
    · exact absurd (I.instrumentVariableAccess_of_not_key val (.inl hn)) hJ
    · refine ⟨rfl, by_contra fun hk => hJ ?_⟩
      exact I.instrumentVariableAccess_of_not_key val (.inr (hI.getVariableID_eq_max_iff.mpr ((hnone _).mpr hk)))
  · obtain ⟨callee, casts, arg, heq, -⟩ := I.instrumentVariableAccess_of_key val hn
      (mt hI.getVariableID_eq_max_iff.mp (mt (hnone _).mp (not_not.mpr hk)))
    simp [inserted, heq]
  · -- the id is the key's position
    rw [(hI.toNat_getVariableID ((hsome _ i).mpr ⟨i, hi, rfl, hlater⟩)).1]
    rfl

open VariableStateInstrumenter in
/-- A store through `&buf[1]` beside a store into `%x`: the unnamed address gets no code, and
the store into `%x` records id `1`, the position of `tgt::x` in the manifest. -/
theorem identified_stores_recorded_beside_gep :
    let M : Module := Module.target [.store ⟨"1".toList, "1".toList, .integer 32⟩ bufElementAddress,
      .store ⟨[], "2".toList, .integer 32⟩ (Value.named "x" .pointer)]
    let K := (KeyVariableIdentifier.new M 3).identifyKeyVariables (some "tgt\n".toList)
    let I := VariableStateInstrumenter.new.loadKeyVariables (some K.exportKeyVariables)
    (∀ e ∈ K.keyVariables.entries, '\n' ∉ e.2.function ∧ '\n' ∉ e.2.name) ∧
      I.inserted "tgt".toList (.store ⟨"1".toList, "1".toList, .integer 32⟩ bufElementAddress) = [] ∧
      I.inserted "tgt".toList (.store ⟨[], "2".toList, .integer 32⟩ (Value.named "x" .pointer)) ≠ [] ∧
      (I.getVariableID "tgt".toList "x".toList).toNat = 1 :=
  have h := identified_stores_recorded _ 3 (some "tgt\n".toList) (by decide)
  ⟨by decide,
    not_not.mp (mt ((h.2 (Function.target []) _ bufElementAddress).2.1.mp) (by decide)),
    (h.2 (Function.target []) _ (Value.named "x" .pointer)).2.1.mpr ⟨rfl, by decide⟩,
    (h.2 (Function.target []) ⟨[], "2".toList, .integer 32⟩ (Value.named "x" .pointer)).2.2 1
      (by decide) (by decide)⟩

/-! ## The inserted calls at run time -/

open VariableStateInstrumenter in
/-- The calls of the runtime that a call of the inserted `callee` on the id `id` makes, one for
each value its argument can hold when it runs: the IR callee `@__gfuzz_record_*` is the C
function of that name. -/
def RecorderCall (callee : Value) (id : UInt32) : RuntimeCall → Prop
  | .recordNumeric i _ => callee = gfuzzRecordNumeric ∧ i = id
  | .recordChar i _ => callee = gfuzzRecordChar ∧ i = id
  | .recordString i _ => callee = gfuzzRecordString ∧ i = id
  | .recordPointer i _ => callee = gfuzzRecordPointer ∧ i = id
  | .resetStates => False

/-- **A recorder call with an id inside the map.**  A string record of a null pointer is
dropped, as `__gfuzz_record_string` returns on `NULL`; every other call writes a word, which an
enabled runtime stores in the slot of the id. -/
theorem RecorderCall.dropped_or_written {callee : Value} {id : UInt32} {c : RuntimeCall}
    (hc : RecorderCall callee id c) (h : id.toNat < gfuzzVarMapSize) :
    (c = .recordString id none ∧ ∀ r : Runtime, r.step c = r) ∨
      ∃ w, c.written = some (id, w) ∧ ∀ r : Runtime, r.gfuzzEnabled = true →
        (r.step c).gfuzzVarStates ⟨id.toNat, h⟩ = w := by
  have hw : ∀ {w}, c.written = some (id, w) → ∀ r : Runtime, r.gfuzzEnabled = true →
      (r.step c).gfuzzVarStates ⟨id.toNat, h⟩ = w :=
    fun hc r hr => Runtime.step_gfuzzVarStates_of_written hr hc h
  cases c with
  | recordString i v =>
    obtain ⟨-, rfl⟩ := hc
    cases v with
    | none => exact .inl ⟨rfl, fun r => Runtime.step_of_isDropped (.inl rfl)⟩
    | some s => exact .inr ⟨_, rfl, hw rfl⟩
  | resetStates => exact hc.elim
  | recordNumeric i v | recordChar i v | recordPointer i v =>
    obtain ⟨-, rfl⟩ := hc
    exact .inr ⟨_, rfl, hw rfl⟩

/-- The callee of a key store's recorder call is one of the four recorders. -/
theorem VariableStateInstrumenter.RecordsAs.callee_mem {k : VarType} {val callee : Value}
    {casts : List Instruction} {arg : Value} (h : RecordsAs k val callee casts arg) :
    callee ∈ [gfuzzRecordNumeric, gfuzzRecordChar, gfuzzRecordString, gfuzzRecordPointer] := by
  cases k <;> obtain ⟨rfl, -⟩ := h <;> simp

open VariableStateInstrumenter in
/-- **Every inserted record lands in the map.**  For every manifest file, every recorder call
the pass inserts calls one of the four recorders on an `i32` constant id below
`GFUZZ_MAX_KEY_VARS`.  The runtime's bounds check never drops it: of the calls it makes, only
a string record of a null pointer is dropped, and every other one stores its word in the slot
of the id. -/
theorem inserted_records_in_map (keyVarsFile : Option Str) (F : Function) (J : Instruction) :
    let I := VariableStateInstrumenter.new.loadKeyVariables keyVarsFile
    ∀ callee direct args, Instruction.call callee direct args ∈ I.inserted F.name J →
      ∃ id arg, args = [constInt32 id, arg] ∧ id.toNat < gfuzzMaxKeyVars ∧
        callee ∈ [gfuzzRecordNumeric, gfuzzRecordChar, gfuzzRecordString, gfuzzRecordPointer] ∧
        ∃ h : id.toNat < gfuzzVarMapSize, ∀ c, RecorderCall callee id c →
          (c = .recordString id none ∧ ∀ r : Runtime, r.step c = r) ∨
            ∃ w, c.written = some (id, w) ∧ ∀ r : Runtime, r.gfuzzEnabled = true →
              (r.step c).gfuzzVarStates ⟨id.toNat, h⟩ = w := by
  intro I callee direct args hmem
  have hI := loadKeyVariables_idsBelow keyVarsFile
  cases J with
  | store val ptr =>
    cases hn : ptr.hasName
    · rw [inserted, I.instrumentVariableAccess_of_not_key val (.inl hn)] at hmem
      exact absurd hmem (List.not_mem_nil _)
    by_cases hmax : I.getVariableID F.name ptr.name = 0xFFFFFFFF
    · rw [inserted, I.instrumentVariableAccess_of_not_key val (.inr hmax)] at hmem
      exact absurd hmem (List.not_mem_nil _)
    obtain ⟨callee', casts, arg, heq, hcasts, hrec⟩ := I.instrumentVariableAccess_of_key val hn hmax
    rw [inserted, heq, List.mem_append, List.mem_singleton] at hmem
    rcases hmem with hcast | hcall
    · obtain ⟨_, _, _, h⟩ := hcasts.isCast _ hcast
      cases h
    obtain ⟨rfl, -, rfl⟩ := Instruction.call.inj hcall
    obtain ⟨v, hv⟩ := Option.ne_none_iff_exists'.mp (mt hI.getVariableID_eq_max_iff.mpr hmax)
    obtain ⟨hid, hlt⟩ := hI.toNat_getVariableID hv
    have hlt' : (I.getVariableID F.name ptr.name).toNat < gfuzzMaxKeyVars := hid ▸ hlt
    have hmap := lt_of_lt_of_le hlt' gfuzzMaxKeyVars_le_gfuzzVarMapSize
    exact ⟨_, arg, rfl, hlt', hrec.callee_mem, hmap, fun c hc => hc.dropped_or_written hmap⟩
  | _ => exact absurd hmem (List.not_mem_nil _)

open VariableStateInstrumenter in
/-- The store of the `char *` local `%s` into the key variable `%x`: the pass inserts the string
recorder's call on id `0`, and a null `%s` is the one value whose record is dropped. -/
theorem inserted_records_in_map_string :
    let I : VariableStateInstrumenter :=
      VariableStateInstrumenter.new.loadKeyVariables (some "tgt,x,0,ptr\n".toList)
    let s := Value.named "s" .bytePointer
    Instruction.call gfuzzRecordString true [constInt32 0, s] ∈
        I.inserted "tgt".toList (.store s (Value.named "x" .pointer)) ∧
      ∃ id arg, [constInt32 0, s] = [constInt32 id, arg] ∧ id.toNat < gfuzzMaxKeyVars ∧
        gfuzzRecordString ∈ [gfuzzRecordNumeric, gfuzzRecordChar, gfuzzRecordString, gfuzzRecordPointer] ∧
        ∃ h : id.toNat < gfuzzVarMapSize, ∀ c, RecorderCall gfuzzRecordString id c →
          (c = .recordString id none ∧ ∀ r : Runtime, r.step c = r) ∨
            ∃ w, c.written = some (id, w) ∧ ∀ r : Runtime, r.gfuzzEnabled = true →
              (r.step c).gfuzzVarStates ⟨id.toNat, h⟩ = w :=
  ⟨by decide, inserted_records_in_map (some "tgt,x,0,ptr\n".toList) (Function.target [])
    (.store (Value.named "s" .bytePointer) (Value.named "x" .pointer)) gfuzzRecordString true _
    (by decide)⟩

end GFuzz
