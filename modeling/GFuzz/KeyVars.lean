import GFuzz.IR

/-!
# Algorithm 1: key-variable identification (`gfuzz-key-vars.cc`)

`KeyVariableIdentifier` holds the module, the target set read from
`Ftargets.txt`, the call-graph distances and the candidate map.
`identifyKeyVariables` runs its steps in order:

1. `loadTargetFunctions`: every nonempty line of the file is a target;
2. `calculateCallGraphDistances`: targets get `0`;
3. `applyDistanceStrategy`, for every defined function with a distance within
   the threshold: every pointer operand of a store or a load is a candidate,
   keyed `function::name`, the name being the operand's own or, for an unnamed
   one, what `printAsOperand` prints;
4. `applyAsanStrategy`: marks the candidates some sanitizer-relevant
   instruction names, and removes none;
5. `applySemanticStrategy`: sets `is_pointer` and `is_integer` from the
   candidate's recorded type and removes the candidates with neither.

`exportKeyVariables` writes the map in key order, one line
`function,name,distance,tag` per candidate.

## What the code computes

* The distance pass is not a search.  Its worklist is filled and never read;
  a target gets `0` and a defined function that calls a defined target
  directly gets `1`, and nothing else gets an entry
  (`find?_calculateCallGraphDistances`).  A function two calls away from a
  target is dropped whatever the threshold (`two_hops_from_target_dropped`).
* The recorded type is `ptr->getType()`, the type of the address, not of the
  value stored or loaded.  In well-typed IR every address is a pointer, so the
  semantic pass keeps every candidate and tags it `ptr`
  (`identifyKeyVariables_isPointer`); a `double` variable is kept and exported
  as a pointer (`double_variable_kept_as_ptr`).
* Together: in well-typed IR the key set is exactly the store and load
  addresses of the defined targets and of the defined functions that call a
  target directly, within the threshold (`identified_keys`).
-/

namespace GFuzz

open IR

/-! ## The state -/

/-- `struct KeyVariable`. -/
structure KeyVariable where
  name : Str
  function : Str
  /-- `Type* type`; `none` is `nullptr`. -/
  type : Option Ty
  isPointer : Bool
  isInteger : Bool
  isAsanRelated : Bool
  isParameter : Bool
  isStateVariable : Bool
  distanceToTarget : Int
  deriving DecidableEq, Repr

/-- `KeyVariable()`. -/
def KeyVariable.default : KeyVariable :=
  ⟨[], [], none, false, false, false, false, false, -1⟩

/-- `class KeyVariableIdentifier`. -/
structure KeyVariableIdentifier where
  M : Module
  targetFunctions : StrMap Unit
  functionDistances : StrMap Int
  keyVariables : StrMap KeyVariable
  distanceThreshold : Int

namespace KeyVariableIdentifier

/-- `KeyVariableIdentifier(M, threshold)`; the source's default threshold is `3`. -/
def new (M : Module) (threshold : Int) : KeyVariableIdentifier :=
  ⟨M, StrMap.empty, StrMap.empty, StrMap.empty, threshold⟩

/-! ## The steps -/

/-- `loadTargetFunctions`: the file's contents, `none` if it cannot be opened. -/
def loadTargetFunctions (self : KeyVariableIdentifier) (targetsFile : Option Str) :
    KeyVariableIdentifier :=
  match targetsFile with
  | none => self
  | some contents =>
    let targets := (getLines contents).foldl
      (fun s line => if line ≠ [] then s.insert line () else s) self.targetFunctions
    { self with targetFunctions := targets }

/-- `CI->getCalledFunction()` is a defined function that is a target. -/
def directTargetCall (self : KeyVariableIdentifier) (I : Instruction) : Bool :=
  match I.calledFunction with
  | some calleeName => self.M.isDefined calleeName && self.targetFunctions.contains calleeName
  | none => false

/-- `if (function_distances.count(fname) == 0 || function_distances[fname] > 1)
function_distances[fname] = 1`. -/
def lowerToOne (fname : Str) (d : StrMap Int) : StrMap Int :=
  match d.find? fname with
  | none => d.insert fname 1
  | some x => if x > 1 then d.insert fname 1 else d

/-- The body of the instruction loop of `calculateCallGraphDistances`, in function `fname`. -/
def callsStep (self : KeyVariableIdentifier) (fname : Str) (d : StrMap Int) (I : Instruction) :
    StrMap Int :=
  if self.directTargetCall I then lowerToOne fname d else d

/-- `calculateCallGraphDistances`.  The worklist of the source is pushed to and never
popped, so it is left out. -/
def calculateCallGraphDistances (self : KeyVariableIdentifier) : KeyVariableIdentifier :=
  let d := self.targetFunctions.entries.foldl (fun d t => d.insert t.1 0) self.functionDistances
  let d := self.M.functions.foldl
    (fun d F => if F.isDeclaration then d else F.instructions.foldl (self.callsStep F.name) d) d
  { self with functionDistances := d }

/-- `var_name`: the operand's name, or what `printAsOperand` prints for an unnamed one. -/
def varName (ptr : Value) : Str := if ptr.hasName then ptr.name else ptr.operandText

/-- The record `applyDistanceStrategy` builds for the pointer operand `ptr` in `fname`. -/
def candidate (fname : Str) (funcDist : Int) (ptr : Value) : KeyVariable :=
  { KeyVariable.default with name := varName ptr, function := fname, type := some ptr.type,
                             distanceToTarget := funcDist }

/-- One candidate of `applyDistanceStrategy`, unless its key is already taken. -/
def addCandidate (fname : Str) (funcDist : Int) (kvs : StrMap KeyVariable) (ptr : Value) :
    StrMap KeyVariable :=
  let key := fname ++ "::".toList ++ varName ptr
  if kvs.contains key then kvs else kvs.insert key (candidate fname funcDist ptr)

/-- The instruction loop of `applyDistanceStrategy`: the pointer operand of a store or a
load is a candidate. -/
def distanceStep (fname : Str) (funcDist : Int) (kvs : StrMap KeyVariable) (I : Instruction) :
    StrMap KeyVariable :=
  match I.pointerOperand with
  | some ptr => addCandidate fname funcDist kvs ptr
  | none => kvs

/-- `applyDistanceStrategy(F)`: nothing for a function without a distance or beyond the
threshold. -/
def applyDistanceStrategy (self : KeyVariableIdentifier) (F : Function) : KeyVariableIdentifier :=
  let fname := F.name
  match self.functionDistances.find? fname with
  | none => self
  | some funcDist =>
    if funcDist > self.distanceThreshold then self
    else
      let kvs := F.instructions.foldl (distanceStep fname funcDist) self.keyVariables
      { self with keyVariables := kvs }

/-- `isAsanRelated(I)`: a call of a sanitizer routine, or any memory access. -/
def isAsanRelated : Instruction → Bool
  | .call callee direct _ =>
    direct && ("__asan_".toList.isPrefixOf callee.name || "__ubsan_".toList.isPrefixOf callee.name ||
      isInfixOf "sanitizer".toList callee.name)
  | .load .. => true
  | .store .. => true
  | .getElementPtr _ => true
  | .cast .. => false
  | .other _ => false

/-- The loop body of `applyAsanStrategy` for one candidate: marked when an
ASan-related instruction of its function has an operand of its name. -/
def asanUpdate (M : Module) (kv : KeyVariable) : KeyVariable :=
  match M.getFunction kv.function with
  | none => kv
  | some F =>
    if F.instructions.any fun I => isAsanRelated I && I.operands.any fun V => V.hasName && V.name = kv.name
    then { kv with isAsanRelated := true } else kv

/-- `applyAsanStrategy`: the removal branch of the source is empty, so it only marks. -/
def applyAsanStrategy (self : KeyVariableIdentifier) : KeyVariableIdentifier :=
  { self with keyVariables := self.keyVariables.mapVal fun _ kv => asanUpdate self.M kv }

/-- The flag update of `applySemanticStrategy`, from the recorded type. -/
def semanticUpdate (kv : KeyVariable) : KeyVariable :=
  match kv.type with
  | some t => { kv with isPointer := t.isPointerTy, isInteger := t.isIntegerTy }
  | none => kv

/-- `applySemanticStrategy`: update the flags, collect the keys with neither, erase them. -/
def applySemanticStrategy (self : KeyVariableIdentifier) : KeyVariableIdentifier :=
  let kvs := self.keyVariables.mapVal fun _ kv => semanticUpdate kv
  let toRemove := kvs.entries.filterMap fun e => if !e.2.isPointer && !e.2.isInteger then some e.1 else none
  { self with keyVariables := toRemove.foldl StrMap.erase kvs }

/-- `identifyKeyVariables(targets_file)`. -/
def identifyKeyVariables (self : KeyVariableIdentifier) (targetsFile : Option Str) :
    KeyVariableIdentifier :=
  let self := self.loadTargetFunctions targetsFile
  let self := self.calculateCallGraphDistances
  let self := self.M.functions.foldl
    (fun s F => if ¬F.isDeclaration then s.applyDistanceStrategy F else s) self
  self.applyAsanStrategy.applySemanticStrategy

/-- The type tag of a manifest line. -/
def typeTag (kv : KeyVariable) : Str :=
  if kv.isPointer then "ptr".toList else if kv.isInteger then "int".toList else "other".toList

/-- One manifest line: `function,name,distance,tag` and a newline. -/
def manifestLine (kv : KeyVariable) : Str :=
  kv.function ++ [','] ++ kv.name ++ [','] ++ (toString kv.distanceToTarget).toList ++ [','] ++
    typeTag kv ++ ['\n']

/-- `exportKeyVariables`: what it writes to the file, the map in key order. -/
def exportKeyVariables (self : KeyVariableIdentifier) : Str :=
  self.keyVariables.entries.flatMap fun e => manifestLine e.2

/-! ## The distances -/

/-- Inserting `0` at every key of `l`. -/
theorem find?_foldl_insert_zero (l : List (Str × Unit)) (base : StrMap Int) (j : Str) :
    (l.foldl (fun d t => d.insert t.1 0) base).find? j =
      if l.any (fun e => e.1 = j) then some 0 else base.find? j := by
  induction l generalizing base with
  | nil => rfl
  | cons t l ih =>
    rw [List.foldl_cons, ih, StrMap.find?_insert, List.any_cons]
    by_cases h : t.1 = j
    · simp [h]
    · simp only [h, Ne.symm h, decide_False, Bool.false_or, if_false]

/-- A loop whose rounds either do nothing or apply one idempotent update. -/
theorem foldl_ite_idem {α β : Type*} (p : α → Bool) (g : β → β) (hg : ∀ b, g (g b) = g b)
    (l : List α) (b : β) :
    l.foldl (fun b a => if p a then g b else b) b = if l.any p then g b else b := by
  induction l generalizing b with
  | nil => rfl
  | cons a l ih =>
    rw [List.foldl_cons, ih, List.any_cons]
    by_cases ha : p a <;> by_cases hl : l.any p <;> simp [ha, hl, hg]

@[simp] theorem find?_lowerToOne (fname j : Str) (d : StrMap Int) :
    (lowerToOne fname d).find? j =
      if j = fname then
        (match d.find? fname with
          | none => some 1
          | some x => if x > 1 then some 1 else some x)
      else d.find? j := by
  unfold lowerToOne
  rcases h : d.find? fname with _ | x
  · rw [StrMap.find?_insert]
  · dsimp only
    by_cases hx : x > 1
    · rw [if_pos hx, if_pos hx, StrMap.find?_insert]
    · rw [if_neg hx]
      split_ifs with hj
      · rw [hj, h]
      · rfl

theorem lowerToOne_idem (fname : Str) (d : StrMap Int) :
    lowerToOne fname (lowerToOne fname d) = lowerToOne fname d := by
  conv_lhs => rw [lowerToOne, find?_lowerToOne, if_pos rfl]
  rcases h : d.find? fname with _ | x
  · rfl
  · dsimp only
    by_cases hx : x > 1
    · rw [if_pos hx]; rfl
    · rw [if_neg hx]; simp only [hx, if_false]

/-- The instruction loop of one function: `1` if it calls a defined target, else nothing. -/
theorem foldl_callsStep (self : KeyVariableIdentifier) (F : Function) (d : StrMap Int) :
    F.instructions.foldl (self.callsStep F.name) d =
      if F.instructions.any self.directTargetCall then lowerToOne F.name d else d :=
  foldl_ite_idem _ _ (lowerToOne_idem F.name) _ d

/-- What an entry of the distance map can be: `0` for a target, `1` for a function in `A`. -/
def DistancesAre (targets : StrMap Unit) (A : Str → Bool) (d : StrMap Int) : Prop :=
  ∀ j, d.find? j = if targets.contains j then some 0 else if A j then some 1 else none

/-- A defined function that calls a defined target directly. -/
def callsTargetDirectly (self : KeyVariableIdentifier) (j : Str) (F : Function) : Bool :=
  !F.isDeclaration && decide (F.name = j) && F.instructions.any self.directTargetCall

theorem distancesAre_functionLoop (self : KeyVariableIdentifier) (fs : List Function)
    {A : Str → Bool} {d : StrMap Int} (hd : DistancesAre self.targetFunctions A d) :
    DistancesAre self.targetFunctions (fun j => A j || fs.any (self.callsTargetDirectly j))
      (fs.foldl (fun d F => if F.isDeclaration then d
        else F.instructions.foldl (self.callsStep F.name) d) d) := by
  induction fs generalizing A d with
  | nil => simpa using hd
  | cons F fs ih =>
    rw [List.foldl_cons]
    have step : DistancesAre self.targetFunctions (fun j => A j || self.callsTargetDirectly j F)
        (if F.isDeclaration then d else F.instructions.foldl (self.callsStep F.name) d) := by
      intro j
      dsimp only
      rw [foldl_callsStep]
      by_cases hdecl : F.isDeclaration
      · have hF : self.callsTargetDirectly j F = false := by simp [callsTargetDirectly, hdecl]
        rw [if_pos hdecl, hF, Bool.or_false]; exact hd j
      by_cases hcall : F.instructions.any self.directTargetCall
      · rw [if_neg hdecl, if_pos hcall, find?_lowerToOne, hd F.name]
        by_cases hj : j = F.name
        · -- the caller itself: `0` stays, anything else becomes `1`
          subst hj
          have hF : self.callsTargetDirectly F.name F = true := by
            simp [callsTargetDirectly, hdecl, hcall]
          rw [if_pos rfl, hF, Bool.or_true]
          by_cases ht : self.targetFunctions.contains F.name <;> by_cases ha : A F.name <;>
            simp [ht, ha]
        · have hF : self.callsTargetDirectly j F = false := by
            simp [callsTargetDirectly, Ne.symm hj]
          rw [if_neg hj, hF, Bool.or_false]; exact hd j
      · have hF : self.callsTargetDirectly j F = false := by simp [callsTargetDirectly, hcall]
        rw [if_neg hdecl, if_neg hcall, hF, Bool.or_false]; exact hd j
    have := ih step
    intro j
    rw [this j]
    simp [Bool.or_assoc]

/-- **What `calculateCallGraphDistances` computes**, from an empty distance map: `0` for a
target, `1` for a defined function with a direct call of a defined target, and no entry for
any other function, however close to a target. -/
theorem find?_calculateCallGraphDistances (self : KeyVariableIdentifier)
    (h : self.functionDistances = StrMap.empty) (j : Str) :
    self.calculateCallGraphDistances.functionDistances.find? j =
      if self.targetFunctions.contains j then some 0
      else if self.M.functions.any (self.callsTargetDirectly j) then some 1 else none := by
  have h0 : DistancesAre self.targetFunctions (fun _ => false)
      (self.targetFunctions.entries.foldl (fun d t => d.insert t.1 0) self.functionDistances) := by
    intro j
    rw [find?_foldl_insert_zero, h, StrMap.find?_empty, StrMap.contains_eq_any]
    simp
  simpa using distancesAre_functionLoop self self.M.functions h0 j

/-! ## The targets -/

@[simp] theorem loadTargetFunctions_M (self : KeyVariableIdentifier) (f : Option Str) :
    (self.loadTargetFunctions f).M = self.M := by cases f <;> rfl

@[simp] theorem loadTargetFunctions_functionDistances (self : KeyVariableIdentifier)
    (f : Option Str) : (self.loadTargetFunctions f).functionDistances = self.functionDistances := by
  cases f <;> rfl

@[simp] theorem loadTargetFunctions_keyVariables (self : KeyVariableIdentifier) (f : Option Str) :
    (self.loadTargetFunctions f).keyVariables = self.keyVariables := by cases f <;> rfl

theorem find?_foldl_insertLines (ls : List Str) (base : StrMap Unit) (t : Str) :
    (ls.foldl (fun s line => if line ≠ [] then s.insert line () else s) base).find? t =
      if t ≠ [] ∧ t ∈ ls then some () else base.find? t := by
  induction ls generalizing base with
  | nil => simp
  | cons l ls ih =>
    rw [List.foldl_cons, ih]
    by_cases hl : l = [] <;> by_cases ht : t = l <;> simp_all

/-- The targets are the nonempty lines of the file. -/
theorem contains_loadTargetFunctions (M : Module) (threshold : Int) (f : Option Str) (t : Str) :
    ((new M threshold).loadTargetFunctions f).targetFunctions.contains t = true ↔
      t ≠ [] ∧ t ∈ (f.map getLines).getD [] := by
  cases f with
  | none => simp [loadTargetFunctions, new, StrMap.contains]
  | some contents =>
    simp only [loadTargetFunctions, StrMap.contains, find?_foldl_insertLines]
    split_ifs with h <;> simp_all [new]

/-- **The distance pass of the identifier.**  After loading the targets and computing the
distances: the targets are the file's nonempty lines, each at distance `0`; a defined function
with a direct call of a defined target, and not a target itself, is at distance `1`; every
other function has no distance, and is skipped by the distance strategy. -/
theorem call_graph_distances (M : Module) (threshold : Int) (targetsFile : Option Str) :
    let s := ((new M threshold).loadTargetFunctions targetsFile).calculateCallGraphDistances
    (∀ t, s.targetFunctions.contains t = true ↔ t ≠ [] ∧ t ∈ (targetsFile.map getLines).getD []) ∧
      ∀ f, s.functionDistances.find? f =
        if s.targetFunctions.contains f then some 0
        else if M.functions.any (s.callsTargetDirectly f) then some 1 else none := by
  intro s
  refine ⟨contains_loadTargetFunctions M threshold targetsFile, fun f => ?_⟩
  have h := find?_calculateCallGraphDistances ((new M threshold).loadTargetFunctions targetsFile)
    (by rw [loadTargetFunctions_functionDistances]; rfl) f
  rw [loadTargetFunctions_M] at h
  exact h

/-- `main` calls `mid`, which calls the target `tgt`: `main` is two calls away, within the
threshold `3`, and gets no distance. -/
theorem two_hops_from_target_dropped :
    let M : Module := ⟨[⟨"main".toList, false, [[.call ⟨"mid".toList, "@mid".toList, .pointer⟩ true []]]⟩,
      ⟨"mid".toList, false, [[.call ⟨"tgt".toList, "@tgt".toList, .pointer⟩ true []]]⟩,
      ⟨"tgt".toList, false, [[.other []]]⟩]⟩
    let s := ((new M 3).loadTargetFunctions (some "tgt\n".toList)).calculateCallGraphDistances
    s.functionDistances.find? "main".toList = none ∧ s.functionDistances.find? "mid".toList = some 1 ∧
      s.functionDistances.find? "tgt".toList = some 0 := by
  decide

/-! ## Where the candidates come from -/

/-- Every entry is the record of a store or load address of a function of `M`, under its key. -/
def FromAddresses (M : Module) (kvs : StrMap KeyVariable) : Prop :=
  ∀ e ∈ kvs.entries, ∃ F ∈ M.functions, ∃ I ∈ F.instructions, ∃ ptr d,
    I.pointerOperand = some ptr ∧ e = (F.name ++ "::".toList ++ varName ptr, candidate F.name d ptr)

theorem fromAddresses_applyDistanceStrategy {M : Module} {self : KeyVariableIdentifier}
    (h : FromAddresses M self.keyVariables) {F : Function} (hF : F ∈ M.functions) :
    FromAddresses M (self.applyDistanceStrategy F).keyVariables := by
  unfold applyDistanceStrategy
  dsimp only
  split
  · exact h
  split_ifs
  · exact h
  refine foldl_preserves_mem (FromAddresses M) _ (fun I hI kvs hk => ?_) h
  unfold distanceStep
  split
  · unfold addCandidate
    dsimp only
    split_ifs
    · exact hk
    intro e he
    rcases StrMap.mem_insertAux he with rfl | he
    · exact ⟨F, hF, I, hI, _, _, ‹_›, rfl⟩
    · exact hk e he
  · exact hk

@[simp] theorem applyDistanceStrategy_M (self : KeyVariableIdentifier) (F : Function) :
    (self.applyDistanceStrategy F).M = self.M := by
  unfold applyDistanceStrategy; dsimp only; split
  · rfl
  · split_ifs <;> rfl

/-- What survives the semantic pass has the flags of its recorded type. -/
theorem mem_applySemanticStrategy {self : KeyVariableIdentifier} {e : Str × KeyVariable}
    (he : e ∈ self.applySemanticStrategy.keyVariables.entries) :
    ∃ kv ∈ self.keyVariables.entries, e = (kv.1, semanticUpdate kv.2) := by
  have hsub : ∀ (ks : List Str) (m : StrMap KeyVariable) (x : Str × KeyVariable),
      x ∈ (ks.foldl StrMap.erase m).entries → x ∈ m.entries := by
    intro ks
    induction ks with
    | nil => exact fun _ _ h => h
    | cons k ks ih => exact fun m x h => (List.mem_filter.mp (ih _ x h)).1
  have := hsub _ _ e he
  simpa only [Prod.exists, StrMap.mapVal, List.mem_map, eq_comm] using this

/-- **Where every key variable comes from.**  Each entry the identifier keeps is the record of
the address of a store or a load in a function of the module, under the key
`function::name`, with its flags set by the two later passes. -/
theorem mem_identifyKeyVariables (M : Module) (threshold : Int) (targetsFile : Option Str)
    {e : Str × KeyVariable}
    (he : e ∈ ((new M threshold).identifyKeyVariables targetsFile).keyVariables.entries) :
    ∃ F ∈ M.functions, ∃ I ∈ F.instructions, ∃ ptr d, I.pointerOperand = some ptr ∧
      e = (F.name ++ "::".toList ++ varName ptr, semanticUpdate (asanUpdate M (candidate F.name d ptr))) := by
  obtain ⟨kv, hkv, rfl⟩ := mem_applySemanticStrategy he
  set s := ((new M threshold).loadTargetFunctions targetsFile).calculateCallGraphDistances
  have hs : s.M = M ∧ FromAddresses M s.keyVariables :=
    ⟨loadTargetFunctions_M _ _, fun e he => by simp [s, calculateCallGraphDistances, new, StrMap.empty] at he⟩
  have hrun := foldl_preserves_mem (fun t : KeyVariableIdentifier => t.M = M ∧ FromAddresses M t.keyVariables)
    (fun t F => if ¬F.isDeclaration then t.applyDistanceStrategy F else t)
    (l := s.M.functions) (fun F hF t ht => by
      dsimp only at ht ⊢
      by_cases hd : F.isDeclaration
      · rw [if_neg (not_not.mpr hd)]; exact ht
      · rw [if_pos hd]
        exact ⟨by rw [applyDistanceStrategy_M, ht.1],
          fromAddresses_applyDistanceStrategy ht.2 (hs.1 ▸ hF)⟩) hs
  obtain ⟨kv0, hkv0, rfl⟩ := List.mem_map.mp hkv
  obtain ⟨F, hF, I, hI, ptr, d, hp, rfl⟩ := hrun.2 kv0 hkv0
  exact ⟨F, hF, I, hI, ptr, d, hp, by rw [← hrun.1]⟩

@[simp] theorem asanUpdate_type (M : Module) (kv : KeyVariable) :
    (asanUpdate M kv).type = kv.type := by
  unfold asanUpdate; split
  · rfl
  · split_ifs <;> rfl

@[simp] theorem asanUpdate_function (M : Module) (kv : KeyVariable) :
    (asanUpdate M kv).function = kv.function := by
  unfold asanUpdate; split
  · rfl
  · split_ifs <;> rfl

@[simp] theorem asanUpdate_name (M : Module) (kv : KeyVariable) :
    (asanUpdate M kv).name = kv.name := by
  unfold asanUpdate; split
  · rfl
  · split_ifs <;> rfl

@[simp] theorem semanticUpdate_function (kv : KeyVariable) :
    (semanticUpdate kv).function = kv.function := by
  unfold semanticUpdate; split <;> rfl

@[simp] theorem semanticUpdate_name (kv : KeyVariable) : (semanticUpdate kv).name = kv.name := by
  unfold semanticUpdate; split <;> rfl

/-- Every key is `function::name` of its own record. -/
theorem key_eq_of_mem_identifyKeyVariables (M : Module) (threshold : Int) (targetsFile : Option Str)
    {e : Str × KeyVariable}
    (he : e ∈ ((new M threshold).identifyKeyVariables targetsFile).keyVariables.entries) :
    e.1 = e.2.function ++ "::".toList ++ e.2.name := by
  obtain ⟨F, -, I, -, ptr, d, -, rfl⟩ := mem_identifyKeyVariables M threshold targetsFile he
  simp [candidate]

/-- **With well-typed addresses every candidate is a pointer.**  The recorded type is the
address's, so every candidate that reaches the semantic pass is kept and flagged a pointer, and
its manifest line is tagged `ptr`. -/
theorem identifyKeyVariables_isPointer (M : Module) (hM : M.AddressesArePointers)
    (threshold : Int) (targetsFile : Option Str) :
    ∀ e ∈ ((new M threshold).identifyKeyVariables targetsFile).keyVariables.entries,
      e.2.isPointer = true ∧ typeTag e.2 = "ptr".toList := by
  intro e he
  obtain ⟨F, hF, I, hI, ptr, d, hp, rfl⟩ := mem_identifyKeyVariables M threshold targetsFile he
  have hptr : (semanticUpdate (asanUpdate M (candidate F.name d ptr))).isPointer = true := by
    simp [semanticUpdate, candidate, hM F hF I hI ptr hp]
  exact ⟨hptr, by rw [typeTag, if_pos hptr]⟩

/-- The store of a `double` into `%x`, whose one address is a pointer. -/
theorem identifyKeyVariables_isPointer_double :
    let M : Module := Module.target [.store ⟨[], "1.000000e+00".toList, .floatingPoint⟩ (Value.named "x" .pointer)]
    M.AddressesArePointers ∧
      ∀ e ∈ ((new M 3).identifyKeyVariables (some "tgt\n".toList)).keyVariables.entries,
        e.2.isPointer = true ∧ typeTag e.2 = "ptr".toList :=
  have hM := Module.addressesArePointers_target (by decide)
  ⟨hM, identifyKeyVariables_isPointer _ hM 3 _⟩

/-- A target function storing the `double` `1.0` into `%x`: the candidate `tgt::x` survives the
semantic pass and is exported with the tag `ptr`. -/
theorem double_variable_kept_as_ptr :
    let M : Module := Module.target [.store ⟨[], "1.000000e+00".toList, .floatingPoint⟩ (Value.named "x" .pointer)]
    let s := (new M 3).identifyKeyVariables (some "tgt\n".toList)
    s.keyVariables.entries.map (·.1) = ["tgt::x".toList] ∧
      s.exportKeyVariables = "tgt,x,0,ptr\n".toList := by
  decide

/-! ## Which keys are identified

`mem_identifyKeyVariables` says where each record comes from; this section says which keys
are there.  The function loop gives every store and load address of a defined function within
the threshold a key (a taken key keeps its first record, `contains_addCandidate`); the ASan
pass only marks; and when the module's addresses are pointers the semantic pass erases
nothing (`applySemanticStrategy_keyVariables_of_isPointer`).  With the distances of
`find?_calculateCallGraphDistances` this is a closed description of the key set. -/

/-- One round of the function loop of `identifyKeyVariables`. -/
def distanceRound (s : KeyVariableIdentifier) (F : Function) : KeyVariableIdentifier :=
  if ¬F.isDeclaration then s.applyDistanceStrategy F else s

/-- The function loop of `identifyKeyVariables`. -/
def applyDistanceLoop (self : KeyVariableIdentifier) : KeyVariableIdentifier :=
  self.M.functions.foldl distanceRound self

theorem identifyKeyVariables_eq (self : KeyVariableIdentifier) (targetsFile : Option Str) :
    self.identifyKeyVariables targetsFile =
      ((self.loadTargetFunctions targetsFile).calculateCallGraphDistances.applyDistanceLoop
        ).applyAsanStrategy.applySemanticStrategy := rfl

/-- `k` is the key of a store or load address in `F`, a defined function that the distance
map puts within the threshold. -/
def IsCandidateKey (dist : StrMap Int) (threshold : Int) (F : Function) (k : Str) : Prop :=
  F.isDeclaration = false ∧ (∃ n, dist.find? F.name = some n ∧ n ≤ threshold) ∧
    ∃ I ∈ F.instructions, ∃ ptr, I.pointerOperand = some ptr ∧ k = F.name ++ "::".toList ++ varName ptr

theorem contains_addCandidate (fname : Str) (funcDist : Int) (kvs : StrMap KeyVariable)
    (ptr : Value) (k : Str) :
    (addCandidate fname funcDist kvs ptr).contains k = true ↔
      kvs.contains k = true ∨ k = fname ++ "::".toList ++ varName ptr := by
  unfold addCandidate
  dsimp only
  split_ifs with h
  · exact ⟨.inl, fun hk => hk.elim id fun hk => hk ▸ h⟩
  · simp only [StrMap.contains, StrMap.find?_insert]
    split_ifs with hk
    · exact iff_of_true rfl (.inr hk)
    · exact (or_iff_left hk).symm

theorem contains_foldl_distanceStep (fname : Str) (funcDist : Int) (l : List Instruction) :
    ∀ (kvs : StrMap KeyVariable) (k : Str),
      (l.foldl (distanceStep fname funcDist) kvs).contains k = true ↔
        kvs.contains k = true ∨
          ∃ I ∈ l, ∃ ptr, I.pointerOperand = some ptr ∧ k = fname ++ "::".toList ++ varName ptr := by
  induction l with
  | nil => simp
  | cons I l ih =>
    intro kvs k
    rw [List.foldl_cons, ih]
    rcases hp : I.pointerOperand with _ | ptr
    · simp [distanceStep, hp]
    · simp [distanceStep, hp, contains_addCandidate, or_assoc]

@[simp] theorem applyDistanceStrategy_functionDistances (self : KeyVariableIdentifier) (F : Function) :
    (self.applyDistanceStrategy F).functionDistances = self.functionDistances := by
  unfold applyDistanceStrategy; dsimp only; split
  · rfl
  · split_ifs <;> rfl

@[simp] theorem applyDistanceStrategy_distanceThreshold (self : KeyVariableIdentifier) (F : Function) :
    (self.applyDistanceStrategy F).distanceThreshold = self.distanceThreshold := by
  unfold applyDistanceStrategy; dsimp only; split
  · rfl
  · split_ifs <;> rfl

theorem contains_applyDistanceStrategy (self : KeyVariableIdentifier) (F : Function) (k : Str) :
    (self.applyDistanceStrategy F).keyVariables.contains k = true ↔
      self.keyVariables.contains k = true ∨
        ((∃ n, self.functionDistances.find? F.name = some n ∧ n ≤ self.distanceThreshold) ∧
          ∃ I ∈ F.instructions, ∃ ptr, I.pointerOperand = some ptr ∧
            k = F.name ++ "::".toList ++ varName ptr) := by
  unfold applyDistanceStrategy
  dsimp only
  split
  · simp_all
  · rename_i n hn
    split_ifs with ht
    · simp only [hn, Option.some_inj, exists_eq_left', iff_self_or]
      rintro ⟨h, -⟩
      omega
    · rw [contains_foldl_distanceStep]
      simp only [hn, Option.some_inj, exists_eq_left']
      have : n ≤ self.distanceThreshold := by omega
      simp [this]

theorem contains_foldl_distanceRound (fs : List Function) :
    ∀ (s : KeyVariableIdentifier) (k : Str),
      (fs.foldl distanceRound s).keyVariables.contains k = true ↔
        s.keyVariables.contains k = true ∨
          ∃ F ∈ fs, IsCandidateKey s.functionDistances s.distanceThreshold F k := by
  induction fs with
  | nil => simp
  | cons F fs ih =>
    intro s k
    have hd : (distanceRound s F).functionDistances = s.functionDistances ∧
        (distanceRound s F).distanceThreshold = s.distanceThreshold := by
      unfold distanceRound; split_ifs <;> simp
    rw [List.foldl_cons, ih, hd.1, hd.2]
    unfold distanceRound IsCandidateKey
    by_cases hF : F.isDeclaration
    · simp [hF]
    · rw [if_pos hF, contains_applyDistanceStrategy]
      rw [Bool.not_eq_true] at hF
      simp only [List.mem_cons, exists_eq_or_imp, hF, true_and, or_assoc]

theorem fromAddresses_foldl_distanceRound {M : Module} {fs : List Function}
    (hfs : ∀ F ∈ fs, F ∈ M.functions) {s : KeyVariableIdentifier}
    (h : FromAddresses M s.keyVariables) : FromAddresses M (fs.foldl distanceRound s).keyVariables :=
  foldl_preserves_mem (fun t : KeyVariableIdentifier => FromAddresses M t.keyVariables) _
    (fun F hF t ht => by
      unfold distanceRound
      split_ifs <;> first | exact ht | exact fromAddresses_applyDistanceStrategy ht (hfs F hF)) h

theorem contains_mapVal {V W : Type*} (f : Str → V → W) (m : StrMap V) (k : Str) :
    (m.mapVal f).contains k = m.contains k := by
  simp [StrMap.contains]

theorem mem_mapVal {V W : Type*} {f : Str → V → W} {m : StrMap V} {e : Str × W}
    (he : e ∈ (m.mapVal f).entries) : ∃ e₀ ∈ m.entries, e = (e₀.1, f e₀.1 e₀.2) := by
  obtain ⟨e₀, he₀, rfl⟩ := List.mem_map.mp he
  exact ⟨e₀, he₀, rfl⟩

/-- When every record is flagged a pointer the semantic pass erases nothing. -/
theorem applySemanticStrategy_keyVariables_of_isPointer (self : KeyVariableIdentifier)
    (h : ∀ e ∈ self.keyVariables.entries, (semanticUpdate e.2).isPointer = true) :
    self.applySemanticStrategy.keyVariables = self.keyVariables.mapVal fun _ kv => semanticUpdate kv := by
  unfold applySemanticStrategy
  dsimp only
  rw [List.filterMap_eq_nil_iff.mpr fun e he => ?_]
  · rfl
  obtain ⟨e₀, he₀, rfl⟩ := mem_mapVal he
  simp [h e₀ he₀]

/-- A distance from the distance pass is within the threshold. -/
theorem exists_distance_le_iff (c a : Bool) (threshold : Int) :
    (∃ n, (if c then some 0 else if a then some 1 else none) = some n ∧ n ≤ threshold) ↔
      (c = true ∧ 0 ≤ threshold) ∨ (c = false ∧ a = true ∧ 1 ≤ threshold) := by
  cases c <;> cases a <;> simp

/-- **Which keys the identifier keeps.**  When the module's addresses are pointers, a key is
identified exactly when it is `F::name` for the address of a store or a load in a defined
function `F` that is a target (for any threshold from `0`), or that calls a defined target
directly (for any threshold from `1`).  A function further from every target contributes
nothing, whatever the threshold. -/
theorem identified_keys (M : Module) (hM : M.AddressesArePointers) (threshold : Int)
    (targetsFile : Option Str) (k : Str) :
    let s := ((new M threshold).loadTargetFunctions targetsFile).calculateCallGraphDistances
    ((new M threshold).identifyKeyVariables targetsFile).keyVariables.contains k = true ↔
      ∃ F ∈ M.functions, F.isDeclaration = false ∧
        ((s.targetFunctions.contains F.name = true ∧ 0 ≤ threshold) ∨
          (s.targetFunctions.contains F.name = false ∧
            M.functions.any (s.callsTargetDirectly F.name) = true ∧ 1 ≤ threshold)) ∧
        ∃ I ∈ F.instructions, ∃ ptr, I.pointerOperand = some ptr ∧
          k = F.name ++ "::".toList ++ varName ptr := by
  intro s
  have hsM : s.M = M := loadTargetFunctions_M _ _
  have hs0 : FromAddresses M s.keyVariables := fun e he => by
    simp [s, calculateCallGraphDistances, new, StrMap.empty] at he
  have hfrom : FromAddresses M s.applyDistanceLoop.keyVariables :=
    fromAddresses_foldl_distanceRound (fun F hF => hsM ▸ hF) hs0
  have hptr : ∀ e ∈ s.applyDistanceLoop.applyAsanStrategy.keyVariables.entries,
      (semanticUpdate e.2).isPointer = true := by
    intro e he
    obtain ⟨e₀, he₀, rfl⟩ := mem_mapVal he
    obtain ⟨F, hF, I, hI, ptr, d, hp, rfl⟩ := hfrom e₀ he₀
    simp [semanticUpdate, candidate, hM F hF I hI ptr hp]
  have hdist : ∀ j, s.functionDistances.find? j =
      if s.targetFunctions.contains j then some 0
      else if M.functions.any (s.callsTargetDirectly j) then some 1 else none :=
    hsM ▸ find?_calculateCallGraphDistances _ (by rw [loadTargetFunctions_functionDistances]; rfl)
  have hk0 : s.keyVariables.contains k = false := by
    simp [s, calculateCallGraphDistances, new, StrMap.contains]
  have hthr : s.distanceThreshold = threshold := by cases targetsFile <;> rfl
  rw [identifyKeyVariables_eq, applySemanticStrategy_keyVariables_of_isPointer _ hptr, contains_mapVal]
  simp only [applyAsanStrategy, contains_mapVal, applyDistanceLoop, contains_foldl_distanceRound, hk0,
    hsM, hthr, Bool.false_eq_true, false_or, IsCandidateKey, hdist, exists_distance_le_iff]

/-- The store of an `i32` into `%x` in the target: the address gets the key `tgt::x`. -/
theorem identified_keys_single :
    let M : Module := Module.target [.store ⟨[], "1".toList, .integer 32⟩ (Value.named "x" .pointer)]
    M.AddressesArePointers ∧
      ((new M 3).identifyKeyVariables (some "tgt\n".toList)).keyVariables.contains "tgt::x".toList = true :=
  have hM := Module.addressesArePointers_target (by decide)
  ⟨hM, (identified_keys _ hM 3 _ _).mpr ⟨_, List.mem_singleton_self _, rfl,
    .inl ⟨by decide, by decide⟩, _, List.mem_singleton_self _, _, rfl, rfl⟩⟩

end KeyVariableIdentifier

end GFuzz
