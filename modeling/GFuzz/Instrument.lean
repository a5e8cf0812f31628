import GFuzz.Manifest

/-!
# Algorithm 2: inserting the recorder calls (`gfuzz-instrumentation.h`)

`VariableStateInstrumenter::instrumentFunction` walks a function, collects every store whose
pointer operand is a named key variable, and then, for each of them in turn, builds the
recording code with an `IRBuilder` placed at the store's next instruction.

## The builder

An `IRBuilder<>` folds constants: a cast of a value that already has the target type is the
value itself, a cast of a constant is a constant, and only a cast of a local value inserts an
instruction.  `createCast` returns the inserted instructions with the cast's result.  The
result of an inserted cast is an unnamed local, and the text of a folded constant is read by
nothing this model keeps, so both keep only the type the recorder call needs.

## Pointers as places

The pass holds `Instruction *`s across the insertions.  The model gives every instruction of
`F` its place, its index in `F`'s instruction order, and keeps what has been inserted after it
so far in the same `Slot`.  `instrumentFunction_eq` shows that the two loops together put,
after every instruction, exactly the code `instrumentVariableAccess` builds for it, and
nothing anywhere else.

A store is never the last instruction of a well-formed block (a block ends in its
terminator), so `I->getNextNode()` always exists and the code goes right after the store.
-/

namespace GFuzz

open IR

namespace IR

/-- `Builder.CreateCast(op, V, DestTy)`, with the instructions it inserts. -/
def createCast (op : CastOp) (v : Value) (destTy : Ty) : List Instruction × Value :=
  if v.type = destTy then ([], v)
  else if v.isConstant then ([], ⟨[], v.operandText, destTy⟩)
  else ([.cast op v destTy], ⟨[], "%".toList, destTy⟩)

/-- `ConstantInt::get(Type::getInt32Ty(C), v)`, which prints as a signed decimal. -/
def constInt32 (v : UInt32) : Value := ⟨[], (toString v.toBitVec.toInt).toList, .integer 32⟩

/-- A run of inserted casts of `v`: at most `n` instructions, each a cast, and none when `v`
is a constant. -/
structure CastRun (v : Value) (n : Nat) (casts : List Instruction) : Prop where
  length_le : casts.length ≤ n
  isCast : ∀ J ∈ casts, ∃ op u t, J = .cast op u t
  of_isConstant : v.isConstant = true → casts = []

theorem createCast_type (op : CastOp) (v : Value) (destTy : Ty) :
    (createCast op v destTy).2.type = destTy := by
  unfold createCast
  split_ifs with h <;> simp [h]

theorem createCast_isConstant {op : CastOp} {v : Value} {destTy : Ty} (h : v.isConstant = true) :
    (createCast op v destTy).2.isConstant = true := by
  unfold createCast
  split_ifs <;> simpa [Value.isConstant] using h

theorem createCast_castRun (op : CastOp) (v : Value) (destTy : Ty) :
    CastRun v 1 (createCast op v destTy).1 := by
  unfold createCast
  split_ifs with h₁ h₂
  iterate 2 exact ⟨by simp, by simp, fun _ => rfl⟩
  exact ⟨by simp, fun J hJ => ⟨op, v, destTy, List.mem_singleton.mp hJ⟩, fun h => absurd h h₂⟩

theorem CastRun.mono {v : Value} {n m : Nat} {c : List Instruction} (h : CastRun v n c)
    (hnm : n ≤ m) : CastRun v m c :=
  ⟨h.length_le.trans hnm, h.isCast, h.of_isConstant⟩

/-- Two runs in a row, the second casting a value that is a constant whenever `v` is. -/
theorem CastRun.append {v w : Value} {n m : Nat} {a b : List Instruction} (ha : CastRun v n a)
    (hb : CastRun w m b) (hw : v.isConstant = true → w.isConstant = true) :
    CastRun v (n + m) (a ++ b) where
  length_le := by have := ha.length_le; have := hb.length_le; simp; omega
  isCast J hJ := (List.mem_append.mp hJ).elim (ha.isCast J) (hb.isCast J)
  of_isConstant h := by rw [ha.of_isConstant h, hb.of_isConstant (hw h)]; rfl

/-- A cast followed by a cast of its result. -/
theorem createCast_twice_castRun (op₁ op₂ : CastOp) (v : Value) (t₁ t₂ : Ty) :
    CastRun v 2 ((createCast op₁ v t₁).1 ++ (createCast op₂ (createCast op₁ v t₁).2 t₂).1) :=
  (createCast_castRun op₁ v t₁).append (createCast_castRun _ _ _) createCast_isConstant

end IR

namespace VariableStateInstrumenter

/-! ## Normalising a value -/

/-- `extractAndNormalizeValue(Builder, V)`: the 32-bit value the numeric recorder gets, with
the casts inserted to compute it. -/
def extractAndNormalizeValue (v : Value) : List Instruction × Value :=
  match v.type with
  | .integer bits =>
    if bits = 32 then ([], v)
    else if bits < 32 then createCast .zext v (.integer 32)
    else createCast .trunc v (.integer 32)
  | .pointer | .bytePointer =>
    let ptrInt := createCast .ptrToInt v (.integer 64)
    let r := createCast .trunc ptrInt.2 (.integer 32)
    (ptrInt.1 ++ r.1, r.2)
  | .float => createCast .bitCast v (.integer 32)
  | .floatingPoint =>
    let bits := createCast .bitCast v (.integer 64)
    let r := createCast .trunc bits.2 (.integer 32)
    (bits.1 ++ r.1, r.2)
  | .aggregate | .other => ([], ⟨[], "0".toList, .integer 32⟩)

/-- **The normalised value is an `i32`**, computed by at most two casts, and by none for a
constant. -/
theorem extractAndNormalizeValue_spec (v : Value) :
    (extractAndNormalizeValue v).2.type = .integer 32 ∧ CastRun v 2 (extractAndNormalizeValue v).1 := by
  have hnone : CastRun v 2 [] := ⟨by simp, by simp, fun _ => rfl⟩
  unfold extractAndNormalizeValue
  split
  case h_1 bits hty =>
    split_ifs with h32 hlt
    · exact ⟨hty.trans (congrArg _ h32), hnone⟩
    all_goals exact ⟨createCast_type .., (createCast_castRun ..).mono (by norm_num)⟩
  case h_4 => exact ⟨createCast_type .., (createCast_castRun ..).mono (by norm_num)⟩
  all_goals first
    | exact ⟨createCast_type .., createCast_twice_castRun ..⟩
    | exact ⟨rfl, hnone⟩

/-! ## The recorder call of one store -/

/-- `getVariableTypeCategory(T)`. -/
def getVariableTypeCategory : Ty → VarType
  | .bytePointer => .string
  | .pointer => .pointer
  | .integer bits => if bits = 8 then .char else .numeric
  | _ => .numeric

/-- The callee of a call of the runtime function `name`, as `M.getOrInsertFunction` declares it. -/
def runtimeFunction (name : String) : Value := ⟨name.toList, ("@" ++ name).toList, .pointer⟩

/-- `void __gfuzz_record_numeric(uint32_t, uint32_t)`. -/
def gfuzzRecordNumeric : Value := runtimeFunction "__gfuzz_record_numeric"

/-- `void __gfuzz_record_char(uint32_t, uint8_t)`. -/
def gfuzzRecordChar : Value := runtimeFunction "__gfuzz_record_char"

/-- `void __gfuzz_record_string(uint32_t, char *)`. -/
def gfuzzRecordString : Value := runtimeFunction "__gfuzz_record_string"

/-- `void __gfuzz_record_pointer(uint32_t, void *)`. -/
def gfuzzRecordPointer : Value := runtimeFunction "__gfuzz_record_pointer"

/-- `instrumentVariableAccess(I, Var, Val, FuncName)`: the code it inserts after `I`, in order.
`Var` and `Val` are a store's operands, never null. -/
def instrumentVariableAccess (self : VariableStateInstrumenter) (var val : Value) (funcName : Str) :
    List Instruction :=
  if !var.hasName then [] else
  let varId := self.getVariableID funcName var.name
  if varId = 0xFFFFFFFF then [] else
  let valTy := val.type
  let varIdC := constInt32 varId
  match getVariableTypeCategory valTy with
  | .numeric =>
    let normVal := extractAndNormalizeValue val
    normVal.1 ++ [.call gfuzzRecordNumeric true [varIdC, normVal.2]]
  | .char =>
    if valTy = .integer 8 then [.call gfuzzRecordChar true [varIdC, val]]
    else
      let charVal := createCast .trunc val (.integer 8)
      charVal.1 ++ [.call gfuzzRecordChar true [varIdC, charVal.2]]
  | .string => if valTy.isPointerTy then [.call gfuzzRecordString true [varIdC, val]] else []
  | .pointer =>
    if valTy.isPointerTy then
      let voidPtr := createCast .bitCast val .bytePointer
      voidPtr.1 ++ [.call gfuzzRecordPointer true [varIdC, voidPtr.2]]
    else []

/-- What the recorder call for a value of each kind is: its callee, and an argument of the type
the callee's declaration gives it, computed by the casts before the call. -/
def RecordsAs : VarType → Value → Value → List Instruction → Value → Prop
  | .numeric, val, callee, casts, arg =>
    callee = gfuzzRecordNumeric ∧ arg.type = .integer 32 ∧ (casts, arg) = extractAndNormalizeValue val
  | .char, val, callee, casts, arg =>
    callee = gfuzzRecordChar ∧ val.type = .integer 8 ∧ casts = [] ∧ arg = val
  | .string, val, callee, casts, arg =>
    callee = gfuzzRecordString ∧ val.type = .bytePointer ∧ casts = [] ∧ arg = val
  | .pointer, val, callee, casts, arg =>
    callee = gfuzzRecordPointer ∧ arg.type = .bytePointer ∧ (casts, arg) = createCast .bitCast val .bytePointer

theorem instrumentVariableAccess_of_not_key (self : VariableStateInstrumenter) {var : Value}
    (val : Value) {funcName : Str}
    (h : var.hasName = false ∨ self.getVariableID funcName var.name = 0xFFFFFFFF) :
    self.instrumentVariableAccess var val funcName = [] := by
  rcases h with h | h <;> simp [instrumentVariableAccess, h]

/-- **A key store gets one recorder call.**  For a named pointer with an id, the inserted code
is a run of at most two casts and then a single call of the recorder of the value's kind, on
the id and an argument of the recorder's parameter type.  The truncation to `i8` and the
empty string and pointer branches of the source are never taken. -/
theorem instrumentVariableAccess_of_key (self : VariableStateInstrumenter) {var : Value}
    (val : Value) {funcName : Str} (hname : var.hasName = true)
    (hid : self.getVariableID funcName var.name ≠ 0xFFFFFFFF) :
    ∃ callee casts arg, self.instrumentVariableAccess var val funcName =
        casts ++ [.call callee true [constInt32 (self.getVariableID funcName var.name), arg]] ∧
      CastRun val 2 casts ∧ RecordsAs (getVariableTypeCategory val.type) val callee casts arg := by
  have hnone : CastRun val 2 [] := ⟨by simp, by simp, fun _ => rfl⟩
  simp only [instrumentVariableAccess, hname, hid, Bool.not_true, Bool.false_eq_true, if_false]
  rcases hty : val.type with bits | _ | _ | _ | _ | _ | _
  case integer =>
    by_cases h8 : bits = 8
    · subst h8
      exact ⟨_, [], val, rfl, hnone, rfl, hty, rfl, rfl⟩
    · have hcat : getVariableTypeCategory (.integer bits) = .numeric := if_neg h8
      rw [hcat]
      exact ⟨_, _, _, rfl, (extractAndNormalizeValue_spec val).2, rfl,
        (extractAndNormalizeValue_spec val).1, rfl⟩
  case pointer =>
    exact ⟨_, _, _, rfl, (createCast_castRun ..).mono (by norm_num), rfl, createCast_type .., rfl⟩
  case bytePointer => exact ⟨_, [], val, rfl, hnone, rfl, hty, rfl, rfl⟩
  all_goals exact ⟨_, _, _, rfl, (extractAndNormalizeValue_spec val).2, rfl,
    (extractAndNormalizeValue_spec val).1, rfl⟩

/-! ## The two loops of `instrumentFunction` -/

/-- An instruction of the function being instrumented: its place in the function's instruction
order, which stands for the `Instruction *` the pass holds, and the code inserted after it so
far. -/
structure Slot where
  place : Nat
  inst : Instruction
  after : List Instruction
  deriving DecidableEq

/-- The blocks `bs`, their instructions numbered from `n`, with nothing inserted yet. -/
def slotsFrom : Nat → List (List Instruction) → List (List Slot)
  | _, [] => []
  | n, B :: bs => (B.enumFrom n).map (fun p => ⟨p.1, p.2, []⟩) :: slotsFrom (n + B.length) bs

/-- An `IRBuilder` at `I->getNextNode()`, for the instruction `I` at `place`: the new code
goes right after `I`, in front of what earlier rounds put there. -/
def Slot.insertAfter (place : Nat) (new : List Instruction) (s : Slot) : Slot :=
  if s.place = place then { s with after := new ++ s.after } else s

/-- The test of the collection loop: a store whose pointer operand is named and has an id. -/
def isKeyStore (self : VariableStateInstrumenter) (funcName : Str) : Instruction → Bool
  | .store _ ptr => ptr.hasName && self.getVariableID funcName ptr.name != 0xFFFFFFFF
  | _ => false

/-- One round of the application loop: `dyn_cast<StoreInst>(I)`, then
`instrumentVariableAccess(SI, SI->getPointerOperand(), SI->getValueOperand(), FuncName)`. -/
def instrumentSlot (self : VariableStateInstrumenter) (funcName : Str) (body : List (List Slot))
    (s : Slot) : List (List Slot) :=
  match s.inst with
  | .store val ptr =>
    body.map (List.map (Slot.insertAfter s.place (self.instrumentVariableAccess ptr val funcName)))
  | _ => body

/-- `instrumentFunction(F)`: collect the key stores, then instrument each of them. -/
def instrumentFunction (self : VariableStateInstrumenter) (F : Function) : Function :=
  let funcName := F.name
  let body := slotsFrom 0 F.blocks
  let toInstrument := body.flatten.filter fun s => self.isKeyStore funcName s.inst
  let body := toInstrument.foldl (self.instrumentSlot funcName) body
  { F with blocks := body.map fun B => B.flatMap fun s => s.inst :: s.after }

/-- The code `instrumentFunction` leaves after one instruction: what `instrumentVariableAccess`
builds for a store, and nothing after any other instruction. -/
def inserted (self : VariableStateInstrumenter) (funcName : Str) : Instruction → List Instruction
  | .store val ptr => self.instrumentVariableAccess ptr val funcName
  | _ => []

theorem inserted_of_not_isKeyStore (self : VariableStateInstrumenter) {funcName : Str}
    {J : Instruction} (h : self.isKeyStore funcName J = false) : self.inserted funcName J = [] := by
  cases J with
  | store val ptr =>
    refine self.instrumentVariableAccess_of_not_key val ?_
    cases hn : ptr.hasName
    · exact .inl rfl
    · exact .inr (by simpa [isKeyStore, hn] using h)
  | _ => rfl

theorem map_place_slotsFrom (bs : List (List Instruction)) :
    ∀ n, (slotsFrom n bs).flatten.map Slot.place = List.range' n bs.flatten.length := by
  induction bs with
  | nil => intro n; rfl
  | cons B bs ih =>
    intro n
    simp only [slotsFrom, List.flatten_cons, List.map_append, List.map_map, ih, List.length_append]
    rw [show (Slot.place ∘ fun p : Nat × Instruction => (⟨p.1, p.2, []⟩ : Slot)) = Prod.fst from rfl,
      List.enumFrom_map_fst, Nat.add_comm B.length, ← List.range'_append, Nat.one_mul]

theorem map_inst_slotsFrom (bs : List (List Instruction)) :
    ∀ n, (slotsFrom n bs).map (List.map Slot.inst) = bs := by
  induction bs with
  | nil => intro n; rfl
  | cons B bs ih =>
    intro n
    simp only [slotsFrom, List.map_cons, List.map_map, ih]
    exact congrArg (· :: bs) (List.enumFrom_map_snd n B)

theorem after_of_mem_slotsFrom {bs : List (List Instruction)} :
    ∀ {n} {s : Slot}, s ∈ (slotsFrom n bs).flatten → s.after = [] := by
  induction bs with
  | nil => intro n s h; simp [slotsFrom] at h
  | cons B bs ih =>
    intro n s h
    rcases List.mem_append.mp h with h | h
    · obtain ⟨p, -, rfl⟩ := List.mem_map.mp h
      rfl
    · exact ih h

theorem Slot.insertAfter_nil (place : Nat) : Slot.insertAfter place [] = id := by
  funext s
  unfold Slot.insertAfter
  split_ifs <;> rfl

theorem instrumentSlot_eq (self : VariableStateInstrumenter) (funcName : Str)
    (body : List (List Slot)) (s : Slot) :
    self.instrumentSlot funcName body s =
      body.map (List.map (Slot.insertAfter s.place (self.inserted funcName s.inst))) := by
  unfold instrumentSlot
  split
  case h_1 val ptr h => rw [h]; rfl
  case h_2 h => rw [inserted.eq_def]; split <;> simp_all [Slot.insertAfter_nil]

/-- Rounds that each map every slot are one map of the rounds' composite. -/
theorem foldl_map_map {α β : Type*} (f : β → α → α) (L : List β) :
    ∀ body : List (List α), L.foldl (fun body e => body.map (List.map (f e))) body =
      body.map (List.map fun x => L.foldl (fun x e => f e x) x) := by
  induction L with
  | nil => intro body; simp
  | cons e L ih => intro body; simp [ih, Function.comp_def]

section Insertion

variable (ins : Instruction → List Instruction)

theorem foldl_insertAfter_of_forall_ne (L : List Slot) (x : Slot) (h : ∀ e ∈ L, e.place ≠ x.place) :
    L.foldl (fun x e => Slot.insertAfter e.place (ins e.inst) x) x = x := by
  induction L with
  | nil => rfl
  | cons e L ih =>
    rw [List.foldl_cons, Slot.insertAfter, if_neg (Ne.symm (h e (List.mem_cons_self _ _))),
      ih fun e he => h e (List.mem_cons_of_mem _ he)]

/-- **The rounds at distinct places.**  The slot `x` receives the code of the one round at its
place, if there is one, and is otherwise left as it is. -/
theorem foldl_insertAfter (L : List Slot) (hL : (L.map Slot.place).Nodup) (x : Slot)
    (hx : ∀ e ∈ L, e.place = x.place → e = x) :
    L.foldl (fun x e => Slot.insertAfter e.place (ins e.inst) x) x =
      if x ∈ L then { x with after := ins x.inst ++ x.after } else x := by
  induction L with
  | nil => rfl
  | cons e L ih =>
    rw [List.map_cons, List.nodup_cons] at hL
    rw [List.foldl_cons]
    by_cases he : e.place = x.place
    · obtain rfl := hx e (List.mem_cons_self _ _) he
      rw [Slot.insertAfter, if_pos rfl, if_pos (List.mem_cons_self _ _)]
      exact foldl_insertAfter_of_forall_ne ins L _ fun e' he' h => hL.1 (List.mem_map.mpr ⟨e', he', h⟩)
    · have hne : x ≠ e := fun h => he (h ▸ rfl)
      rw [Slot.insertAfter, if_neg (Ne.symm he), ih hL.2 fun e' he' => hx e' (List.mem_cons_of_mem _ he')]
      simp [hne]

end Insertion

/-- **`instrumentFunction` refines per-instruction insertion.**  The collection loop and the
application loop together keep every block's instructions in order and put, right after each
instruction, the code `inserted` gives it. -/
theorem instrumentFunction_eq (self : VariableStateInstrumenter) (F : Function) :
    self.instrumentFunction F =
      { F with blocks := F.blocks.map fun B => B.flatMap fun J => J :: self.inserted F.name J } := by
  set body := slotsFrom 0 F.blocks
  set L := body.flatten.filter fun s => self.isKeyStore F.name s.inst
  have hnodup : (body.flatten.map Slot.place).Nodup := by
    rw [map_place_slotsFrom]; exact List.nodup_range' _ _
  -- every slot ends up followed by the code `inserted` gives its instruction
  have hslot : ∀ x ∈ body.flatten,
      L.foldl (fun x e => Slot.insertAfter e.place (self.inserted F.name e.inst) x) x =
        { x with after := self.inserted F.name x.inst } := by
    intro x hx
    rw [foldl_insertAfter _ L ((List.filter_sublist _).map _ |>.nodup hnodup) x
      fun e he hp => List.inj_on_of_nodup_map hnodup (List.mem_filter.mp he).1 hx hp,
      after_of_mem_slotsFrom hx, List.append_nil]
    by_cases hk : self.isKeyStore F.name x.inst
    · rw [if_pos (List.mem_filter.mpr ⟨hx, hk⟩)]
    · rw [if_neg (show x ∉ L from fun h => hk (List.mem_filter.mp h).2),
        inserted_of_not_isKeyStore self (by simpa using hk), ← after_of_mem_slotsFrom hx]
  have hblock : ∀ B ∈ body, (B.map fun x => L.foldl (fun x e =>
        Slot.insertAfter e.place (self.inserted F.name e.inst) x) x).flatMap (fun s => s.inst :: s.after) =
      (B.map Slot.inst).flatMap fun J => J :: self.inserted F.name J := by
    intro B hB
    rw [List.map_congr_left fun x hx => hslot x (List.mem_flatten.mpr ⟨B, hB, hx⟩),
      List.flatMap_map, List.flatMap_map]
  have hstep : self.instrumentSlot F.name = fun body s =>
      body.map (List.map (Slot.insertAfter s.place (self.inserted F.name s.inst))) := by
    funext body s; exact instrumentSlot_eq self F.name body s
  simp only [instrumentFunction, hstep, foldl_map_map]
  congr 1
  rw [List.map_map]
  refine (List.map_congr_left hblock).trans ?_
  conv_rhs => rw [← map_inst_slotsFrom F.blocks 0]
  rw [List.map_map]
  rfl

/-! ## The instrumented function -/

/-- **Instrumenting a function.**  For every function and every loaded manifest, the
instrumented function is `F` with, right after each instruction, the code `inserted` gives it.
That code is empty except after a store whose named pointer operand is a key of the map; after
such a store it is a run of at most two casts (none for a constant) followed by exactly one
call, of the recorder of the stored value's kind, on the variable's id and an argument of the
recorder's parameter type. -/
theorem key_stores_instrumented (keyVarsFile : Option Str) (F : Function) :
    let I : VariableStateInstrumenter := VariableStateInstrumenter.new.loadKeyVariables keyVarsFile
    I.instrumentFunction F =
        { F with blocks := F.blocks.map fun B => B.flatMap fun J => J :: I.inserted F.name J } ∧
      (∀ J, I.inserted F.name J ≠ [] ↔ ∃ val ptr, J = .store val ptr ∧ ptr.hasName = true ∧
        I.keyVariables.find? (F.name ++ "::".toList ++ ptr.name) ≠ none) ∧
      (∀ val ptr, ptr.hasName = true →
        I.keyVariables.find? (F.name ++ "::".toList ++ ptr.name) ≠ none →
        ∃ callee casts arg, I.inserted F.name (.store val ptr) =
            casts ++ [.call callee true [constInt32 (I.getVariableID F.name ptr.name), arg]] ∧
          CastRun val 2 casts ∧ RecordsAs (getVariableTypeCategory val.type) val callee casts arg) := by
  intro I
  have hI := loadKeyVariables_idsBelow keyVarsFile
  have hkey : ∀ {ptr : Value}, I.keyVariables.find? (F.name ++ "::".toList ++ ptr.name) ≠ none →
      I.getVariableID F.name ptr.name ≠ 0xFFFFFFFF := fun h => mt hI.getVariableID_eq_max_iff.mp h
  refine ⟨instrumentFunction_eq I F, fun J => ⟨fun hJ => ?_, ?_⟩, fun val ptr hname hk =>
    I.instrumentVariableAccess_of_key val hname (hkey hk)⟩
  · -- only a key store gets code
    cases J with
    | store val ptr =>
      refine ⟨val, ptr, rfl, ?_, fun hk => ?_⟩
      · by_contra h
        exact hJ (I.instrumentVariableAccess_of_not_key val (.inl (by simpa using h)))
      · exact hJ (I.instrumentVariableAccess_of_not_key val (.inr (hI.getVariableID_eq_max_iff.mpr hk)))
    | _ => exact absurd rfl hJ
  · rintro ⟨val, ptr, rfl, hname, hk⟩
    obtain ⟨callee, casts, arg, heq, -⟩ := I.instrumentVariableAccess_of_key val hname (hkey hk)
    simp [inserted, heq]

/-- The store of the `i64` local `%v` into the key variable `%x` of the manifest
`tgt,x,0,ptr`: the key is loaded, and the code after the store is a run of casts and one
recorder call on the id of `tgt::x`. -/
theorem key_stores_instrumented_at_key :
    let I : VariableStateInstrumenter :=
      VariableStateInstrumenter.new.loadKeyVariables (some "tgt,x,0,ptr\n".toList)
    let val := Value.named "v" (.integer 64)
    let ptr := Value.named "x" .pointer
    ptr.hasName = true ∧ I.keyVariables.find? ("tgt".toList ++ "::".toList ++ ptr.name) ≠ none ∧
      ∃ callee casts arg, I.inserted "tgt".toList (.store val ptr) =
          casts ++ [.call callee true [constInt32 (I.getVariableID "tgt".toList ptr.name), arg]] ∧
        CastRun val 2 casts ∧ RecordsAs (getVariableTypeCategory val.type) val callee casts arg :=
  ⟨rfl, by decide, (key_stores_instrumented _ (Function.target [])).2.2 _ _ rfl (by decide)⟩

/-- A target function storing the `i64` local `%v` into the key variable `%x`: the store is
followed by a `trunc` and the numeric recorder call, so erasing the recorder calls leaves the
`trunc` behind. -/
theorem trunc_left_after_erasing_calls :
    let F : Function := Function.target [.store (Value.named "v" (.integer 64)) (Value.named "x" .pointer)]
    let G := (VariableStateInstrumenter.new.loadKeyVariables (some "tgt,x,0,ptr\n".toList)).instrumentFunction F
    G.blocks = [[.store (Value.named "v" (.integer 64)) (Value.named "x" .pointer),
        .cast .trunc (Value.named "v" (.integer 64)) (.integer 32),
        .call gfuzzRecordNumeric true [constInt32 0, ⟨[], "%".toList, .integer 32⟩]]] ∧
      G.blocks.map (List.filter fun J => !(J.calledFunction.any ("__gfuzz_record_".toList.isPrefixOf ·)))
        ≠ F.blocks := by
  decide

end VariableStateInstrumenter

end GFuzz
