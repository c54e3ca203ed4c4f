import Mathlib.Logic.Function.Basic
import Zeroscript.Instruction

/-! # Registers and the instructions that touch nothing else

`z_reg_t` is a type tag beside a 64-bit payload that is read as a `FLOAT`, as an integer or as a
pointer. The `FLOAT` arithmetic is a parameter, so that exact numbers are one instance of it. -/
namespace Zeroscript

inductive Native where
  | print
  | object
  | number
  | int
  | gc
  | assert
  | exit
  | read
  | strlen
  | startsWith
  | equals
  | substring
  | keySize
  | keyList
  deriving DecidableEq, Repr

/-- The operations the interpreter performs on the `FLOAT` view of a payload. -/
class NumOps (α : Type) where
  zero : α
  one : α
  add : α → α → α
  sub : α → α → α
  mul : α → α → α
  div : α → α → α
  fmod : α → α → α
  eq : α → α → Bool
  lt : α → α → Bool
  le : α → α → Bool
  /-- All 64 bits are zero: the test of `r0->val` in the conditional jumps. -/
  isZero : α → Bool
  /-- The payloads agree bit for bit: the test of `OP_JE_I` and `OP_JNE_I`. -/
  bitEq : α → α → Bool
  /-- The number whose bits are the given integer or address. -/
  ofRaw : ℕ → α
  /-- The number whose bits are the address of the native function. -/
  ofNative : Native → α
  /-- An `int_t` or `size_t` converted to a `FLOAT`. -/
  ofNat : ℕ → α
  /-- `(FLOAT) (int_t) x`. -/
  trunc : α → α
  /-- `(int_t) x`, when it is not negative. -/
  toIndex : α → Option ℕ
  atof : String → α
  /-- `num_to_str`. -/
  toText : α → String

inductive RegType where
  | number
  | str
  | functionRef
  | obj
  | nativeFunc
  | instanceObj
  | classRef
  deriving DecidableEq, Repr

inductive Word (α : Type) where
  | num (x : α)
  | raw (n : ℕ)
  | native (f : Native)
  deriving DecidableEq, Repr

structure Reg (α : Type) where
  type : RegType
  val : Word α
  deriving DecidableEq, Repr

section

variable {α : Type} [NumOps α]

def Word.number : Word α → α
  | .num x => x
  | .raw n => NumOps.ofRaw n
  | .native f => NumOps.ofNative f

/-- The payload as an integer is not 0. -/
def Word.truthy : Word α → Bool
  | .num x => !NumOps.isZero x
  | .raw n => n != 0
  | .native _ => true

def Reg.number (r : Reg α) : α := r.val.number

def Reg.ofNum (x : α) : Reg α := ⟨.number, .num x⟩

/-- What `memset` leaves in a register. -/
def Reg.null : Reg α := .ofNum NumOps.zero

def Reg.ofBool (b : Bool) : Reg α := .ofNum (if b then NumOps.one else NumOps.zero)

/-- The assembler's reading of the text of a `MOV_NUMBER` or of an immediate jump. -/
def literal (text : String) : α :=
  if text = "true" then NumOps.one
  else if text = "false" then NumOps.zero
  else NumOps.atof text

inductive Rel where
  | equal
  | less
  | lessOrEqual
  | greater
  | notEqual
  | greaterOrEqual
  deriving DecidableEq, Repr

def Rel.holds : Rel → α → α → Bool
  | .equal, a, b => NumOps.eq a b
  | .less, a, b => NumOps.lt a b
  | .lessOrEqual, a, b => NumOps.le a b
  | .greater, a, b => NumOps.lt b a
  | .notEqual, a, b => !NumOps.eq a b
  | .greaterOrEqual, a, b => NumOps.le b a

/-- The immediate jumps test numbers, except that equality compares the raw payloads. -/
def Rel.holdsImmediate : Rel → α → α → Bool
  | .equal, a, b => NumOps.bitEq a b
  | .notEqual, a, b => !NumOps.bitEq a b
  | rel, a, b => rel.holds a b

def Opcode.compareRel : Opcode → Option Rel
  | .CMP_EQUAL => some .equal
  | .CMP_LESS => some .less
  | .CMP_LESS_OR_EQUAL => some .lessOrEqual
  | .CMP_GREATER => some .greater
  | .CMP_N_EQUAL => some .notEqual
  | .CMP_GREATER_OR_EQUAL => some .greaterOrEqual
  | _ => none

def Opcode.jumpRel : Opcode → Option Rel
  | .JMP_EQUAL => some .equal
  | .JMP_LESS => some .less
  | .JMP_LESS_OR_EQUAL => some .lessOrEqual
  | .JMP_GREATER => some .greater
  | .JMP_N_EQUAL => some .notEqual
  | .JMP_GREATER_OR_EQUAL => some .greaterOrEqual
  | _ => none

def Opcode.immediateRel : Opcode → Option Rel
  | .JMP_EQUAL_I => some .equal
  | .JMP_LESS_I => some .less
  | .JMP_LESS_OR_EQUAL_I => some .lessOrEqual
  | .JMP_GREATER_I => some .greater
  | .JMP_N_EQUAL_I => some .notEqual
  | .JMP_GREATER_OR_EQUAL_I => some .greaterOrEqual
  | _ => none

/-- The value an arithmetic or compare instruction writes to `r2`. There is none when `OP_ADD` has
to concatenate strings, `OP_DIV` divides by zero, or `OP_MOD` meets a left operand of another type. -/
def arithmetic (opcode : Opcode) (a b : Reg α) : Option (Reg α) :=
  match opcode with
  | .ADD =>
    if a.type = .number ∧ b.type = .number then some (.ofNum (NumOps.add a.number b.number))
    else none
  | .SUB => some (.ofNum (NumOps.sub a.number b.number))
  | .DIV =>
    if NumOps.eq b.number NumOps.zero then none
    else some (.ofNum (NumOps.div a.number b.number))
  | .MUL => some (.ofNum (NumOps.mul a.number b.number))
  | .MOD => if a.type = .number then some (.ofNum (NumOps.fmod a.number b.number)) else none
  | opcode => opcode.compareRel.map fun rel => .ofBool (rel.holds a.number b.number)

inductive Control where
  | next
  | jump (label : String)
  /-- The frame is left: by a return, or by an exception that no handler of the frame takes. -/
  | leave
  deriving DecidableEq, Repr

abbrev Regs (α : Type) := ℕ → Reg α

def branch (taken : Bool) (label : Operand) : Control := if taken then .jump label.text else .next

/-- The instructions whose whole effect is on the registers of the executing frame and on the
instruction pointer; `none` for the others. -/
def execLocal (i : Instruction) (regs : Regs α) : Option (Regs α × Control) :=
  let a := regs i.r0.reg
  let b := regs i.r1.reg
  match i.opcode with
  | .MOV_NUMBER =>
    some (Function.update regs i.r0.reg (.ofNum (literal i.r1.text)), .next)
  | .MOV => some (Function.update regs i.r0.reg b, .next)
  | .INC =>
    let v : Reg α := { a with val := .num (NumOps.add a.number NumOps.one) }
    some (Function.update (Function.update regs i.r0.reg v) i.r1.reg v, .next)
  | .DEC =>
    let v : Reg α := { a with val := .num (NumOps.sub a.number NumOps.one) }
    some (Function.update (Function.update regs i.r0.reg v) i.r1.reg v, .next)
  | .MOD =>
    match arithmetic .MOD a b with
    | some v => some (Function.update regs i.r2.reg v, .next)
    | none => some (regs, .next)
  | .JMP_TRUE => some (regs, branch a.val.truthy i.r1)
  | .JMP_NOT_TRUE => some (regs, branch (!a.val.truthy) i.r1)
  | .JMP => some (regs, .jump i.r0.text)
  | .NOP | .COMMENT | .LABEL => some (regs, .next)
  | opcode =>
    match opcode.jumpRel, opcode.immediateRel with
    | some rel, _ => some (regs, branch (rel.holds a.number b.number) i.r2)
    | none, some rel =>
      some (regs, branch (rel.holdsImmediate a.number (literal i.r1.text)) i.r2)
    | none, none => (arithmetic opcode a b).map fun v => (Function.update regs i.r2.reg v, .next)

end

def Instruction.reads (i : Instruction) : List ℕ :=
  match i.opcode with
  | .MOV => [i.r1.reg]
  | .INC | .DEC | .JMP_TRUE | .JMP_NOT_TRUE | .GET_FIELD_IMMEDIATE | .CALL | .PUSH | .RETURN
  | .THROW_EXCEPTION | .JMP_LESS_I | .JMP_GREATER_I | .JMP_LESS_OR_EQUAL_I
  | .JMP_GREATER_OR_EQUAL_I | .JMP_EQUAL_I | .JMP_N_EQUAL_I => [i.r0.reg]
  | .ADD | .SUB | .DIV | .MUL | .MOD | .CMP_EQUAL | .CMP_LESS | .CMP_LESS_OR_EQUAL | .CMP_GREATER
  | .CMP_N_EQUAL | .CMP_GREATER_OR_EQUAL | .JMP_LESS | .JMP_GREATER | .JMP_LESS_OR_EQUAL
  | .JMP_GREATER_OR_EQUAL | .JMP_EQUAL | .JMP_N_EQUAL | .GET_FIELD => [i.r0.reg, i.r1.reg]
  | .SET_FIELD => [i.r0.reg, i.r1.reg, i.r2.reg]
  | _ => []

def Instruction.writes (i : Instruction) : List ℕ :=
  match i.opcode with
  | .MOV_NUMBER | .MOV_STR | .MOV | .MOV_FNC | .POP => [i.r0.reg]
  | .INC | .DEC => [i.r0.reg, i.r1.reg]
  | .ADD | .SUB | .DIV | .MUL | .MOD | .CMP_EQUAL | .CMP_LESS | .CMP_LESS_OR_EQUAL | .CMP_GREATER
  | .CMP_N_EQUAL | .CMP_GREATER_OR_EQUAL | .GET_FIELD | .GET_FIELD_IMMEDIATE => [i.r2.reg]
  | .CALL => [i.r1.reg]
  | .CREATE_THIS => [1]
  | _ => []

end Zeroscript
