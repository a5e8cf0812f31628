import GFuzz.Strings

/-!
# The part of LLVM IR the passes read

`gfuzz-key-vars.cc` reads a module's functions, their instructions, and of each
value its name, its type and the text `printAsOperand` prints for it.  That is
all this model keeps:

* a `Value` has a name (empty when it has none), its operand text, and a type;
* an `Instruction` is a store, a load, a `getelementptr`, a call, a cast or
  anything else, with the operands `I.operands()` lists;
* a `Function` has a name, whether it is a declaration, and its basic blocks;
* `Module.getFunction` is `M.getFunction(name)`, the function of that name.

A call's callee is the called operand together with whether it is a function
(`direct`): `CI->getCalledFunction()` is that function when it is, and null for
an indirect call.  Whether the callee is defined is read from the module, as
`Callee->isDeclaration()` reads the callee's own body.
-/

namespace GFuzz

namespace IR

/-- The types the passes distinguish.  Pointers are typed, as `getPointerElementType` needs:
`i8*` is told apart from every other pointer. -/
inductive Ty where
  /-- `iN`. -/
  | integer (bits : Nat)
  /-- A pointer whose element type is not `i8`. -/
  | pointer
  /-- `i8*`, `Type::getInt8PtrTy(C)`. -/
  | bytePointer
  /-- `float`. -/
  | float
  /-- `double`; the other floating-point types are `other`. -/
  | floatingPoint
  | aggregate
  | other
  deriving DecidableEq, Repr

/-- `T->isPointerTy()`. -/
def Ty.isPointerTy : Ty → Bool
  | .pointer | .bytePointer => true
  | _ => false

/-- `T->isIntegerTy()`. -/
def Ty.isIntegerTy : Ty → Bool
  | .integer _ => true
  | _ => false

/-- An IR value, as the passes see it. -/
structure Value where
  /-- `V->getName()`, empty when the value has none. -/
  name : Str
  /-- What `V->printAsOperand(ss, false)` prints. -/
  operandText : Str
  type : Ty
  deriving DecidableEq, Repr

/-- `V->hasName()`. -/
def Value.hasName (v : Value) : Bool := !v.name.isEmpty

/-- `isa<Constant>(V)`.  A local value (an argument or an instruction) prints with a leading
`%`; every other value a store can hold (a literal, a global, a constant expression) is a
constant. -/
def Value.isConstant (v : Value) : Bool := v.operandText.head? != some '%'

/-- The casts `IRBuilder` creates for the instrumenter. -/
inductive CastOp where
  | zext
  | trunc
  | ptrToInt
  | bitCast
  deriving DecidableEq, Repr

/-- The instructions the passes tell apart. -/
inductive Instruction where
  /-- `store value, ptr`. -/
  | store (value ptr : Value)
  /-- `load type, ptr`. -/
  | load (ptr : Value) (type : Ty)
  | getElementPtr (operands : List Value)
  /-- A call of `callee` on `args`; `direct` when `callee` is a function. -/
  | call (callee : Value) (direct : Bool) (args : List Value)
  /-- `op value to destTy`. -/
  | cast (op : CastOp) (value : Value) (destTy : Ty)
  | other (operands : List Value)
  deriving DecidableEq, Repr

/-- `I.operands()`: a call lists its arguments, then the callee. -/
def Instruction.operands : Instruction → List Value
  | .store value ptr => [value, ptr]
  | .load ptr _ => [ptr]
  | .getElementPtr operands => operands
  | .call callee _ args => args ++ [callee]
  | .cast _ value _ => [value]
  | .other operands => operands

/-- `getPointerOperand()` of a store or a load. -/
def Instruction.pointerOperand : Instruction → Option Value
  | .store _ ptr => some ptr
  | .load ptr _ => some ptr
  | _ => none

/-- The name of `CI->getCalledFunction()`, for a direct call. -/
def Instruction.calledFunction : Instruction → Option Str
  | .call callee true _ => some callee.name
  | _ => none

/-- An IR function. -/
structure Function where
  name : Str
  isDeclaration : Bool
  blocks : List (List Instruction)
  deriving DecidableEq, Repr

/-- `for (BasicBlock &BB : F) for (Instruction &I : BB)`. -/
def Function.instructions (F : Function) : List Instruction := F.blocks.flatten

/-- An IR module. -/
structure Module where
  functions : List Function
  deriving Repr

/-- `M.getFunction(name)`. -/
def Module.getFunction (M : Module) (name : Str) : Option Function :=
  M.functions.find? fun F => F.name = name

/-- Whether `name` is a function of `M` with a body. -/
def Module.isDefined (M : Module) (name : Str) : Bool :=
  match M.getFunction name with
  | some F => !F.isDeclaration
  | none => false

/-- Every store and load address of `M` has pointer type, as the IR verifier demands. -/
def Module.AddressesArePointers (M : Module) : Prop :=
  ∀ F ∈ M.functions, ∀ I ∈ F.instructions, ∀ ptr, I.pointerOperand = some ptr → ptr.type.isPointerTy

/-! ## Small programs

The concrete programs the passes are run on below: locals named as `clang` names them, and a
function `tgt`, the one line of the target file, whose body is one block. -/

/-- The local `%n` of type `t`. -/
def Value.named (n : String) (t : Ty) : Value := ⟨n.toList, ("%" ++ n).toList, t⟩

/-- The defined function `tgt` with the one block `body`. -/
def Function.target (body : List Instruction) : Function := ⟨"tgt".toList, false, [body]⟩

/-- The module whose one function is `Function.target body`. -/
def Module.target (body : List Instruction) : Module := ⟨[Function.target body]⟩

/-- A one-block module is well typed when every store and load address of its block is a
pointer. -/
theorem Module.addressesArePointers_target {body : List Instruction}
    (h : ∀ I ∈ body, (I.pointerOperand.map fun ptr => ptr.type.isPointerTy).getD true = true) :
    (Module.target body).AddressesArePointers := by
  intro F hF I hI ptr hp
  obtain rfl := List.mem_singleton.mp hF
  simpa [hp] using h I (by simpa [Function.target, Function.instructions] using hI)

end IR

/-! ## `StringRef` tests -/

/-- `name.contains(sub)`. -/
def isInfixOf (sub : Str) : Str → Bool
  | [] => sub.isEmpty
  | c :: s => sub.isPrefixOf (c :: s) || isInfixOf sub s

end GFuzz
