import GFuzz.Config

/-!
# The runtime recorder of `gfuzz-runtime.c`

The library linked into the instrumented target.  Its whole state is the enable
flag and the live map `__gfuzz_var_states`; the four recorders write one slot
each, `__gfuzz_reset_states` clears the map, and `__gfuzz_get_state_snapshot`
only reads it.

The recorders share one shape --- nothing while disabled, nothing for an id
outside the map, otherwise one slot gets one word --- so they are one definition,
`Runtime.record`, applied to each recorder's own encoding.  What differs is only
the word: the value itself, the byte tagged with `0x01000000`, the DJB2
hash/length word of a string, the low half of an address.

## Last write wins

`Runtime.run` executes a sequence of calls.  Its specification, `lastWrite`,
does not execute anything: it searches the calls backwards for the last one that
decides a slot (a record for that id, or a reset) and reads off its word.
`run_gfuzzVarStates_of_enabled` says the two agree on every slot, from one step lemma
(`step_gfuzzVarStates`) and an induction over the calls.  The frame conditions
are `step_of_isDropped` (an out-of-range id or a null string changes nothing)
and `run_of_disabled` (a disabled runtime never changes).

`char` is signed, as on the x86-64 ABI the fuzzer targets: the loop's
`int c = *str++` sign-extends the byte, and `hash + c` then wraps modulo `2^32`.

## The string word

`record_string_slot`: the recorder reads the string up to index
`min (strlen s) 256` and no further (the loop reads one byte before it tests the
length bound), and the word it stores is the unbounded DJB2 value `djb2 p`
modulo `2^24` beside the capped length; the wrap-around of the `uint32_t` loop
never reaches the low 24 bits (`foldl_djb2Step_and_lowMask`).
-/

namespace GFuzz

/-- The live state map `__gfuzz_var_states`: one `uint32_t` per slot. -/
abbrev StateMap := Fin gfuzzVarMapSize → UInt32

/-- The map with every slot zero: "not written". -/
def StateMap.zero : StateMap := fun _ => 0

/-- A C string as the recorder's loop reads it: the bytes from the pointer on.  The
first zero byte ends it, and a NUL follows the last byte of the list. -/
abbrev CString := List Int8

/-- The runtime's process-wide state. -/
structure Runtime where
  /-- `gfuzz_enabled`, set once by the constructor. -/
  gfuzzEnabled : Bool
  /-- `__gfuzz_var_states`. -/
  gfuzzVarStates : StateMap

namespace Runtime

/-- `__gfuzz_init`: the constructor.  `enabledEnv` is whether `GFUZZ_ENABLED` is set
and `atoi` reads it as `1`; the map is zeroed either way. -/
def gfuzzInit (enabledEnv : Bool) : Runtime := ⟨enabledEnv, StateMap.zero⟩

/-- The shape the four recorders share: slot `varId` gets `word`, unless the runtime is
disabled or the id is outside the map. -/
def record (r : Runtime) (varId word : UInt32) : Runtime :=
  if r.gfuzzEnabled then
    if h : varId.toNat < gfuzzVarMapSize then
      { r with gfuzzVarStates := Function.update r.gfuzzVarStates ⟨varId.toNat, h⟩ word }
    else r
  else r

/-- `(uint32_t)c` for the `int c` read from a signed `char`. -/
def charToUInt32 (c : Int8) : UInt32 := ⟨c.toBitVec.signExtend 32⟩

/-- The `while` loop of `__gfuzz_record_string`: `(c = *str++) && len < GFUZZ_MAX_STRING_LEN`,
then `hash = ((hash << 5) + hash) + c` and `len++`.  Returns the final `hash` and `len`. -/
def djb2Loop : CString → UInt32 → Nat → UInt32 × Nat
  | [], hash, len => (hash, len)
  | c :: s, hash, len =>
    if c ≠ 0 ∧ len < gfuzzMaxStringLen then
      djb2Loop s ((hash <<< 5) + hash + charToUInt32 c) (len + 1)
    else (hash, len)

/-- The word `__gfuzz_record_string` stores: the hash in the low 24 bits, the length,
capped at 255, in the upper byte. -/
def stringWord (s : CString) : UInt32 :=
  let hashLen := djb2Loop s 5381 0
  let lenEncoded : UInt32 := if hashLen.2 > 255 then 255 else UInt32.ofNat hashLen.2
  (hashLen.1 &&& (0x00FFFFFF : UInt32)) ||| (lenEncoded <<< (24 : UInt32))

/-- `__gfuzz_record_numeric`. -/
def gfuzzRecordNumeric (r : Runtime) (varId value : UInt32) : Runtime :=
  r.record varId value

/-- `__gfuzz_record_char`: the byte, tagged `0x01` in the upper byte. -/
def gfuzzRecordChar (r : Runtime) (varId : UInt32) (value : UInt8) : Runtime :=
  r.record varId (value.toUInt32 ||| 0x01000000)

/-- `__gfuzz_record_string`; `none` is a null pointer, which is dropped. -/
def gfuzzRecordString (r : Runtime) (varId : UInt32) : Option CString → Runtime
  | none => r
  | some s => r.record varId (stringWord s)

/-- `__gfuzz_record_pointer`: the low 32 bits of the address. -/
def gfuzzRecordPointer (r : Runtime) (varId : UInt32) (value : UInt64) : Runtime :=
  r.record varId (value &&& 0xFFFFFFFF).toUInt32

/-- `__gfuzz_reset_states`. -/
def gfuzzResetStates (r : Runtime) : Runtime :=
  if r.gfuzzEnabled then { r with gfuzzVarStates := StateMap.zero } else r

/-- `__gfuzz_get_state_snapshot(buffer, size)`: the words it copies into `buffer`, the
first `min size GFUZZ_VAR_MAP_SIZE` slots; nothing when disabled or `buffer` is null. -/
def gfuzzGetStateSnapshot (r : Runtime) (bufferNonNull : Bool) (size : UInt32) :
    List UInt32 :=
  if r.gfuzzEnabled ∧ bufferNonNull then
    ((List.finRange gfuzzVarMapSize).map r.gfuzzVarStates).take (min size.toNat gfuzzVarMapSize)
  else []

end Runtime

/-- A call into the runtime from the instrumented target. -/
inductive RuntimeCall where
  | recordNumeric (varId value : UInt32)
  | recordChar (varId : UInt32) (value : UInt8)
  | recordString (varId : UInt32) (value : Option CString)
  | recordPointer (varId : UInt32) (value : UInt64)
  | resetStates

namespace Runtime

/-- One call. -/
def step (r : Runtime) : RuntimeCall → Runtime
  | .recordNumeric i v => r.gfuzzRecordNumeric i v
  | .recordChar i v => r.gfuzzRecordChar i v
  | .recordString i v => r.gfuzzRecordString i v
  | .recordPointer i v => r.gfuzzRecordPointer i v
  | .resetStates => r.gfuzzResetStates

/-- A sequence of calls, first to last. -/
def run (r : Runtime) (calls : List RuntimeCall) : Runtime := calls.foldl step r

@[simp] theorem run_nil (r : Runtime) : r.run [] = r := rfl

@[simp] theorem run_cons (r : Runtime) (c : RuntimeCall) (cs : List RuntimeCall) :
    r.run (c :: cs) = (r.step c).run cs := rfl

end Runtime

/-! ## The specification: last write wins -/

namespace RuntimeCall

/-- The id and the word of a call that writes a slot: the encoding of its recorder.  A null
string and a reset write no single slot. -/
def written : RuntimeCall → Option (UInt32 × UInt32)
  | .recordNumeric i v => some (i, v)
  | .recordChar i v => some (i, v.toUInt32 ||| 0x01000000)
  | .recordString i (some s) => some (i, Runtime.stringWord s)
  | .recordString _ none => none
  | .recordPointer i v => some (i, (v &&& 0xFFFFFFFF).toUInt32)
  | .resetStates => none

/-- What a call decides about slot `i`: a reset clears it, a record with id `i` writes its
word, and every other call leaves it to the calls before. -/
def slotEffect (i : Fin gfuzzVarMapSize) : RuntimeCall → Option UInt32
  | .resetStates => some 0
  | c => match c.written with
    | some (id, w) => if id.toNat = i.val then some w else none
    | none => none

/-- A call the runtime drops whole: an id outside the map, or a null string. -/
def IsDropped : RuntimeCall → Prop
  | .recordNumeric i _ | .recordChar i _ | .recordPointer i _ => gfuzzVarMapSize ≤ i.toNat
  | .recordString i v => v = none ∨ gfuzzVarMapSize ≤ i.toNat
  | .resetStates => False

end RuntimeCall

/-- Slot `i` after `calls`, read off the calls alone: the word of the last call that decides
the slot, or zero. -/
def lastWrite (calls : List RuntimeCall) (i : Fin gfuzzVarMapSize) : UInt32 :=
  (calls.reverse.findSome? (RuntimeCall.slotEffect i)).getD 0

namespace Runtime

variable {r : Runtime}

theorem record_gfuzzVarStates (h : r.gfuzzEnabled) (varId word : UInt32)
    (i : Fin gfuzzVarMapSize) :
    (r.record varId word).gfuzzVarStates i =
      if varId.toNat = i.val then word else r.gfuzzVarStates i := by
  unfold record
  by_cases hv : varId.toNat < gfuzzVarMapSize
  · by_cases hi : varId.toNat = i.val
    · simp [h, hv, hi, Fin.ext_iff]
    · simp [h, hv, hi, Function.update_apply, Fin.ext_iff, Ne.symm hi]
  · have : varId.toNat ≠ i.val := fun e => hv (e ▸ i.isLt)
    simp [h, hv, this]

@[simp] theorem record_gfuzzEnabled (varId word : UInt32) :
    (r.record varId word).gfuzzEnabled = r.gfuzzEnabled := by
  unfold record; split_ifs <;> rfl

@[simp] theorem step_gfuzzEnabled (c : RuntimeCall) :
    (r.step c).gfuzzEnabled = r.gfuzzEnabled := by
  cases c with
  | recordString i v => cases v <;> simp [step, gfuzzRecordString]
  | resetStates => unfold step gfuzzResetStates; split_ifs <;> rfl
  | _ => simp [step, gfuzzRecordNumeric, gfuzzRecordChar, gfuzzRecordPointer]

/-- **One step.**  An enabled runtime leaves slot `i` to the calls before, unless the call
decides it. -/
theorem step_gfuzzVarStates (h : r.gfuzzEnabled) (c : RuntimeCall) (i : Fin gfuzzVarMapSize) :
    (r.step c).gfuzzVarStates i = (c.slotEffect i).getD (r.gfuzzVarStates i) := by
  cases c with
  | recordString id v =>
    cases v with
    | none => rfl
    | some s =>
      simp only [step, gfuzzRecordString, record_gfuzzVarStates h, RuntimeCall.slotEffect,
        RuntimeCall.written]
      split_ifs <;> rfl
  | resetStates => simp [step, gfuzzResetStates, h, RuntimeCall.slotEffect, StateMap.zero]
  | _ =>
    simp only [step, gfuzzRecordNumeric, gfuzzRecordChar, gfuzzRecordPointer,
      record_gfuzzVarStates h, RuntimeCall.slotEffect, RuntimeCall.written]
    split_ifs <;> rfl

/-- An enabled runtime stores the word of a call that writes a slot inside the map. -/
theorem step_gfuzzVarStates_of_written (h : r.gfuzzEnabled) {c : RuntimeCall} {i w : UInt32}
    (hc : c.written = some (i, w)) (hi : i.toNat < gfuzzVarMapSize) :
    (r.step c).gfuzzVarStates ⟨i.toNat, hi⟩ = w := by
  have he : c.slotEffect ⟨i.toNat, hi⟩ = some w := by
    cases c <;> simp_all [RuntimeCall.slotEffect, RuntimeCall.written]
  rw [step_gfuzzVarStates h, he]
  rfl

theorem getD_or_getD {α : Type*} (a b : Option α) (d : α) :
    (a.or b).getD d = a.getD (b.getD d) := by
  cases a <;> rfl

/-- **Every run.**  From any enabled state, slot `i` holds the word of the last call that
decides it, or what it held before. -/
theorem run_gfuzzVarStates_of_enabled (calls : List RuntimeCall) (h : r.gfuzzEnabled)
    (i : Fin gfuzzVarMapSize) :
    (r.run calls).gfuzzVarStates i =
      (calls.reverse.findSome? (RuntimeCall.slotEffect i)).getD (r.gfuzzVarStates i) := by
  induction calls generalizing r with
  | nil => rfl
  | cons c cs ih =>
    rw [run_cons, ih (by rwa [step_gfuzzEnabled]), step_gfuzzVarStates h, List.reverse_cons,
      List.findSome?_append, getD_or_getD]
    cases hc : c.slotEffect i <;> simp [hc]

/-- A dropped call changes nothing. -/
theorem step_of_isDropped {c : RuntimeCall} (hc : c.IsDropped) : r.step c = r := by
  cases c with
  | recordString i v =>
    rcases hc with rfl | hc
    · rfl
    · cases v <;> simp [step, gfuzzRecordString, record, Nat.not_lt.mpr hc]
  | resetStates => exact hc.elim
  | _ => simp [step, gfuzzRecordNumeric, gfuzzRecordChar, gfuzzRecordPointer, record,
      Nat.not_lt.mpr hc]

/-- A disabled runtime never changes. -/
theorem step_of_disabled (h : r.gfuzzEnabled = false) (c : RuntimeCall) : r.step c = r := by
  cases c with
  | recordString i v => cases v <;> simp [step, gfuzzRecordString, record, h]
  | _ => simp [step, gfuzzRecordNumeric, gfuzzRecordChar, gfuzzRecordPointer, record,
      gfuzzResetStates, h]

theorem run_of_disabled (h : r.gfuzzEnabled = false) (calls : List RuntimeCall) :
    r.run calls = r := by
  induction calls with
  | nil => rfl
  | cons c cs ih => rw [run_cons, step_of_disabled h, ih]

/-- Two char recordings into slot 7: the second one stays. -/
example : (((gfuzzInit true).run [.recordChar 7 0x41, .recordChar 7 0x42]).gfuzzVarStates 7) =
    0x01000042 := by
  decide

end Runtime

/-- **Last write wins.**  After `__gfuzz_init` with the runtime enabled, every slot holds the
encoding of the last record call for it since the last reset, or zero; a dropped call (id out
of range, null string) changes nothing; and a disabled runtime keeps its zeroed map through
every sequence of calls. -/
theorem runtime_last_write_wins :
    (∀ (calls : List RuntimeCall) (i : Fin gfuzzVarMapSize),
      ((Runtime.gfuzzInit true).run calls).gfuzzVarStates i = lastWrite calls i) ∧
    (∀ (r : Runtime) (c : RuntimeCall), c.IsDropped → r.step c = r) ∧
    (∀ calls : List RuntimeCall, (Runtime.gfuzzInit false).run calls = Runtime.gfuzzInit false) :=
  ⟨fun calls i => Runtime.run_gfuzzVarStates_of_enabled calls rfl i,
    fun _ _ hc => Runtime.step_of_isDropped hc,
    fun calls => Runtime.run_of_disabled rfl calls⟩

/-! ## The string word

`__gfuzz_record_string` reads the string through `c = *str++`, one byte per test of the loop
condition, and the model reads it by matching the list, whose end stands for the
terminating NUL.  `djb2Loop_frame` says the loop never looks past index `min (strlen s) 256`:
strings that agree up to there give the same result.  The stored hash is computed in `uint32_t`
arithmetic, which wraps; `djb2` is the same recurrence over `Int`, and since `2^24` divides
`2^32` the low 24 bits agree (`toNat_foldl_djb2Step`). -/

/-- `strlen(s)`: the bytes before the first zero. -/
def strlen (s : CString) : Nat := (s.takeWhile (· ≠ 0)).length

theorem strlen_cons {c : Int8} (hc : c ≠ 0) (s : CString) : strlen (c :: s) = strlen s + 1 := by
  simp [strlen, List.takeWhile_cons, hc]

/-- The DJB2 recurrence over unbounded integers: `D([]) = 5381`, `D(p·c) = 33·D(p) + c`, with
`c` the signed value of the byte. -/
def djb2 (p : CString) : Int := p.foldl (fun h c => 33 * h + c.toInt) 5381

namespace Runtime

/-- `(uint32_t)c` is `c` modulo `2^32`. -/
theorem toNat_charToUInt32 (c : Int8) : ((charToUInt32 c).toNat : Int) = c.toInt % 2 ^ 32 := by
  show ((BitVec.ofInt 32 c.toBitVec.toInt).toNat : Int) = _
  rw [BitVec.toNat_ofInt, Int.toNat_of_nonneg (Int.emod_nonneg _ (by decide))]
  rfl

/-- `(hash << 5) + hash` is `33 · hash` modulo `2^32`. -/
theorem toNat_shiftLeft_five_add (h : UInt32) : ((h <<< 5) + h).toNat = h.toNat * 33 % 2 ^ 32 := by
  show ((h.toBitVec <<< ((5 : UInt32).toBitVec % 32)) + h.toBitVec).toNat =
    h.toBitVec.toNat * 33 % 2 ^ 32
  rw [BitVec.toNat_add, BitVec.shiftLeft_eq', BitVec.toNat_shiftLeft]
  simp [Nat.shiftLeft_eq]
  omega

/-- The wrapping loop agrees with `djb2` modulo `2^32`, from any pair of congruent starts. -/
theorem toNat_foldl_djb2Step (p : CString) :
    ∀ (h : UInt32) (z : Int), (h.toNat : Int) = z % 2 ^ 32 →
      ((p.foldl (fun (h : UInt32) c => (h <<< 5) + h + charToUInt32 c) h).toNat : Int) =
        p.foldl (fun h c => 33 * h + c.toInt) z % 2 ^ 32 := by
  induction p with
  | nil => exact fun _ _ hz => hz
  | cons c p ih =>
    intro h z hz
    refine ih _ _ ?_
    have hstep : ((h <<< 5) + h + charToUInt32 c).toNat =
        (((h <<< 5) + h).toNat + (charToUInt32 c).toNat) % 2 ^ 32 := rfl
    have hc := toNat_charToUInt32 c
    rw [hstep, toNat_shiftLeft_five_add]
    push_cast
    omega

/-- What the loop computes from `(hash, len)`: it hashes the bytes before the first zero, at
most `256 - len` of them, and counts them. -/
theorem djb2Loop_eq (s : CString) (hash : UInt32) (len : Nat) :
    djb2Loop s hash len =
      (((s.takeWhile (· ≠ 0)).take (gfuzzMaxStringLen - len)).foldl
          (fun (h : UInt32) c => (h <<< 5) + h + charToUInt32 c) hash,
        len + min (strlen s) (gfuzzMaxStringLen - len)) := by
  induction s generalizing hash len with
  | nil => simp [djb2Loop, strlen]
  | cons c s ih =>
    by_cases hc : c ≠ 0 ∧ len < gfuzzMaxStringLen
    · have hk : gfuzzMaxStringLen - len = gfuzzMaxStringLen - (len + 1) + 1 := by omega
      rw [djb2Loop, if_pos hc, ih, List.takeWhile_cons_of_pos (by simpa using hc.1), hk,
        List.take_succ_cons, List.foldl_cons, strlen_cons hc.1]
      simp only [Prod.mk.injEq, true_and]
      omega
    · rw [djb2Loop, if_neg hc]
      rcases not_and_or.mp hc with h0 | hlen
      · have h0 : c = 0 := not_not.mp h0
        simp [strlen, h0]
      · simp [show gfuzzMaxStringLen - len = 0 by omega]

/-- **The loop reads only `s[0 .. min (strlen s) (256 - len)]`.**  The index past the list
reads the terminating NUL. -/
theorem djb2Loop_frame (s : CString) :
    ∀ (s' : CString) (hash : UInt32) (len : Nat),
      (∀ i ≤ min (strlen s) (gfuzzMaxStringLen - len), s'.getD i 0 = s.getD i 0) →
        djb2Loop s' hash len = djb2Loop s hash len := by
  induction s with
  | nil =>
    rintro (_ | ⟨c', t'⟩) hash len h
    · rfl
    · have hc' : c' = 0 := by simpa using h 0 (Nat.zero_le _)
      simp [djb2Loop, hc']
  | cons c t ih =>
    rintro (_ | ⟨c', t'⟩) hash len h
    · have hc : c = 0 := by simpa using (h 0 (Nat.zero_le _)).symm
      simp [djb2Loop, hc]
    · obtain rfl : c' = c := by simpa using h 0 (Nat.zero_le _)
      by_cases hgo : c' ≠ 0 ∧ len < gfuzzMaxStringLen
      · rw [djb2Loop, djb2Loop, if_pos hgo, if_pos hgo]
        exact ih t' _ _ fun i hi => by simpa using h (i + 1) (by rw [strlen_cons hgo.1]; omega)
      · rw [djb2Loop, djb2Loop, if_neg hgo, if_neg hgo]

/-- The bytes the loop hashes are the prefix of length `min (strlen s) 256`. -/
theorem take_takeWhile_eq_take (s : CString) :
    (s.takeWhile (· ≠ 0)).take gfuzzMaxStringLen = s.take (min (strlen s) gfuzzMaxStringLen) := by
  rw [List.prefix_iff_eq_take.mp (List.takeWhile_prefix _), List.take_take, min_comm]
  rfl

/-- **The wrap-around never reaches the stored hash**: the low 24 bits of the `uint32_t` loop are
`D(p) mod 2^24`. -/
theorem foldl_djb2Step_and_lowMask (p : CString) :
    p.foldl (fun (h : UInt32) c => (h <<< 5) + h + charToUInt32 c) 5381 &&& 0x00FFFFFF =
      UInt32.ofNat (djb2 p % 2 ^ 24).toNat := by
  have hhash := toNat_foldl_djb2Step p 5381 5381 rfl
  apply UInt32.toNat.inj
  rw [UInt32.and_toNat, show (0x00FFFFFF : UInt32).toNat = 2 ^ 24 - 1 from rfl,
    Nat.and_pow_two_sub_one_eq_mod, UInt32.toNat_ofNat_of_lt (by unfold UInt32.size; omega)]
  unfold djb2
  omega

/-- The stored word: `D(p) mod 2^24` in the low bits and `min(|p|, 255)` in the upper byte, for
`p` the prefix of length `min (strlen s) 256`. -/
theorem stringWord_eq (s : CString) :
    stringWord s =
      UInt32.ofNat (djb2 (s.take (min (strlen s) gfuzzMaxStringLen)) % 2 ^ 24).toNat |||
        UInt32.ofNat (min (s.take (min (strlen s) gfuzzMaxStringLen)).length 255) <<< 24 := by
  have hlen : (s.take (min (strlen s) gfuzzMaxStringLen)).length = min (strlen s) gfuzzMaxStringLen := by
    have : strlen s ≤ s.length := (List.takeWhile_sublist _).length_le
    rw [List.length_take]; omega
  have hhigh : ∀ n : Nat, (if n > 255 then (255 : UInt32) else UInt32.ofNat n) =
      UInt32.ofNat (min n 255) := fun n => by
    split_ifs with h255
    · rw [min_eq_right (by omega)]; rfl
    · rw [min_eq_left (by omega)]
  rw [stringWord, djb2Loop_eq, Nat.sub_zero, take_takeWhile_eq_take, Nat.zero_add]
  generalize s.take (min (strlen s) gfuzzMaxStringLen) = p at hlen ⊢
  rw [← hlen]
  dsimp only
  rw [foldl_djb2Step_and_lowMask, hhigh]

end Runtime

/-- **The string recorder.**  With the runtime enabled and `varId` inside the map,
`__gfuzz_record_string(varId, s)` reads only `s[0 .. min (strlen s) 256]`, so strings that agree
there are recorded alike, and it sets slot `varId` to `(D(p) mod 2^24) | (min(|p|, 255) << 24)`
for `p` the prefix of `s` of length `min (strlen s) 256`. -/
theorem record_string_slot (r : Runtime) (hr : r.gfuzzEnabled = true) (varId : UInt32)
    (hid : varId.toNat < gfuzzVarMapSize) (s : CString) :
    let m := min (strlen s) gfuzzMaxStringLen
    let p := s.take m
    (∀ s' : CString, (∀ i ≤ m, s'.getD i 0 = s.getD i 0) →
      r.gfuzzRecordString varId (some s') = r.gfuzzRecordString varId (some s)) ∧
    (r.gfuzzRecordString varId (some s)).gfuzzVarStates ⟨varId.toNat, hid⟩ =
      UInt32.ofNat (djb2 p % 2 ^ 24).toNat ||| UInt32.ofNat (min p.length 255) <<< 24 := by
  intro m p
  refine ⟨fun s' hs' => ?_, ?_⟩
  · have hw : Runtime.stringWord s' = Runtime.stringWord s := by
      unfold Runtime.stringWord
      rw [Runtime.djb2Loop_frame s s' 5381 0 hs']
    simp only [Runtime.gfuzzRecordString, hw]
  · rw [Runtime.gfuzzRecordString, Runtime.record_gfuzzVarStates hr, if_pos rfl,
      Runtime.stringWord_eq]

/-- `"ab"` into slot `0` of an enabled runtime, with both hypotheses discharged. -/
theorem record_string_slot_ab :
    (Runtime.gfuzzInit true).gfuzzEnabled = true ∧ (0 : UInt32).toNat < gfuzzVarMapSize ∧
      let s : CString := [97, 98]
      let m := min (strlen s) gfuzzMaxStringLen
      let p := s.take m
      (∀ s' : CString, (∀ i ≤ m, s'.getD i 0 = s.getD i 0) →
        (Runtime.gfuzzInit true).gfuzzRecordString 0 (some s') =
          (Runtime.gfuzzInit true).gfuzzRecordString 0 (some s)) ∧
      ((Runtime.gfuzzInit true).gfuzzRecordString 0 (some s)).gfuzzVarStates
          ⟨(0 : UInt32).toNat, by decide⟩ =
        UInt32.ofNat (djb2 p % 2 ^ 24).toNat ||| UInt32.ofNat (min p.length 255) <<< 24 :=
  ⟨rfl, by decide, record_string_slot _ rfl 0 (by decide) [97, 98]⟩

end GFuzz
