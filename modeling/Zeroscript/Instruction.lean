import Mathlib.Data.List.Basic

/-! # The instruction set of `program/instruction.h` -/
namespace Zeroscript

/-- In the order of the `#define`s, so that a range test on opcodes is a list of constructors. -/
inductive Opcode where
  | MOV_NUMBER
  | MOV_STR
  | MOV
  | ADD
  | SUB
  | DIV
  | MUL
  | MOD
  | CMP_EQUAL
  | CMP_LESS
  | CMP_LESS_OR_EQUAL
  | CMP_GREATER
  | CMP_N_EQUAL
  | CMP_GREATER_OR_EQUAL
  | JMP_TRUE
  | JMP_NOT_TRUE
  | JMP
  | GET_FIELD
  | GET_FIELD_IMMEDIATE
  | SET_FIELD
  | CALL
  | PUSH
  | POP
  | RETURN
  | RETURN_I
  | NOP
  | FFRAME
  | INC
  | DEC
  | MOV_FNC
  | JMP_LESS
  | JMP_GREATER
  | JMP_LESS_OR_EQUAL
  | JMP_GREATER_OR_EQUAL
  | JMP_EQUAL
  | JMP_N_EQUAL
  | JMP_LESS_I
  | JMP_GREATER_I
  | JMP_LESS_OR_EQUAL_I
  | JMP_GREATER_OR_EQUAL_I
  | JMP_EQUAL_I
  | JMP_N_EQUAL_I
  | IMPORT_CLS
  | THROW_EXCEPTION
  | SET_CATCH
  | CLEAR_CATCH
  | CREATE_THIS
  | COMMENT
  | LABEL
  deriving DecidableEq, Repr

def Opcode.isCompare : Opcode → Bool
  | .CMP_EQUAL | .CMP_LESS | .CMP_LESS_OR_EQUAL | .CMP_GREATER | .CMP_N_EQUAL
  | .CMP_GREATER_OR_EQUAL => true
  | _ => false

/-- `opcode >= JMP_LESS && opcode <= JMP_N_EQUAL`: registers `r0`, `r1`, target `r2`. -/
def Opcode.isCompareJump : Opcode → Bool
  | .JMP_LESS | .JMP_GREATER | .JMP_LESS_OR_EQUAL | .JMP_GREATER_OR_EQUAL | .JMP_EQUAL
  | .JMP_N_EQUAL => true
  | _ => false

/-- `opcode >= JMP_LESS_I && opcode <= JMP_N_EQUAL_I`: register `r0`, constant `r1`, target `r2`. -/
def Opcode.isImmediateJump : Opcode → Bool
  | .JMP_LESS_I | .JMP_GREATER_I | .JMP_LESS_OR_EQUAL_I | .JMP_GREATER_OR_EQUAL_I
  | .JMP_EQUAL_I | .JMP_N_EQUAL_I => true
  | _ => false

/-- The name of a slot and its `isPrivate` byte; the slot at position `i` has register `i + 1`. -/
abbrev SymbolInfo := List (String × Bool)

/-- A `uint_t` operand holds a register index or count, a `char *`, or a `FunctionKind *`.
A pointer never equals a register index, so comparing operands is comparing constructors too. -/
inductive Operand where
  | num (n : ℕ)
  | str (s : String)
  | symbols (table : SymbolInfo)
  deriving DecidableEq, Repr

@[simp] def Operand.reg : Operand → ℕ
  | .num n => n
  | _ => 0

@[simp] def Operand.text : Operand → String
  | .str s => s
  | _ => ""

structure Instruction where
  opcode : Opcode
  r0 : Operand := .num 0
  r1 : Operand := .num 0
  r2 : Operand := .num 0
  deriving DecidableEq, Repr

abbrev Code := List Instruction

end Zeroscript
