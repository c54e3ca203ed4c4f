import Mathlib.Algebra.Group.Nat.Defs
import Zeroscript.InstructionShapes

/-! # Straight code

Most of what the compiler emits hands control on to the next instruction and leaves the label counter
and the waiting functions alone. -/
namespace Zeroscript.StraightCode

open Emission InstructionShapes

/-- Instructions that hand control on to the next one, if at all. -/
def Straight (i : Instruction) : Prop :=
  i.opcode ∈ [.MOV_NUMBER, .MOV_STR, .MOV_FNC, .MOV, .ADD, .SUB, .MUL, .DIV, .MOD, .CMP_EQUAL, .CMP_LESS,
    .CMP_LESS_OR_EQUAL, .CMP_GREATER, .CMP_N_EQUAL, .CMP_GREATER_OR_EQUAL, .INC, .DEC,
    .GET_FIELD_IMMEDIATE, .GET_FIELD, .SET_FIELD, .CALL, .PUSH, .POP, .THROW_EXCEPTION, .IMPORT_CLS,
    .CREATE_THIS]

def label (stem : String) (n : ℕ) : String := stem ++ toString n

/-- The text of a label that the compiler numbers is not cut off: an `int` has at most 10 digits. -/
theorem truncate_label {stem : String} {n : ℕ} (hstem : stem.length ≤ 20) (hn : n < 2 ^ 31) :
    Compiler.truncate 98 (label stem n) = label stem n := by
  have hdigits : (toString n).length ≤ 10 := (Nat.length_repr_le_iff (by omega)).mpr (by omega)
  have hlength : (label stem n).toList.length ≤ 98 := by
    rw [label, String.length_toList, String.length_append]
    omega
  rw [Compiler.truncate, List.take_of_length_le hlength, String.ofList_toList]

theorem form_straight {P : ℕ → Prop} {i : Instruction} (h : ProtectedRegisters.Form P i) :
    Straight i := by
  cases h with
  | step hop => rcases hop with rfl | rfl <;> simp [Straight]
  | @operation op opcode a b r hop => cases op <;> cases hop <;> simp [Straight]
  | number | string | lookup | push | throwing | mov | negate | setField | call => simp [Straight]

def Plain {β : Type} (m : Compile β) : Prop :=
  ∀ n functions, Emits (fun s => Tidy s ∧ s.labelCount = n ∧ s.functionsToCompile = functions)
    Straight m fun _ => True

section

variable {β γ : Type}

theorem Plain.pure (b : β) : Plain (Pure.pure b : Compile β) := fun _ _ => Emits.pure trivial

theorem Plain.bind {m : Compile β} {f : β → Compile γ} (hm : Plain m) (hf : ∀ b, Plain (f b)) :
    Plain (m >>= f) := fun n functions => (hm n functions).bind fun b _ => hf b n functions

theorem Plain.ite {p : Prop} [Decidable p] {m m' : Compile β} (h : Plain m) (h' : Plain m') :
    Plain (if p then m else m') :=
  fun n functions => Emits.ite (fun _ => h n functions) fun _ => h' n functions

theorem Plain.ok {m : Compile β} (h : Plain m) {s s' : CompilerState} {b : β} {c : Code}
    (hs : Tidy s) (hrun : m s = .ok (b, s', c)) :
    Tidy s' ∧ s'.labelCount = s.labelCount ∧ s'.functionsToCompile = s.functionsToCompile ∧
      ∀ i ∈ c, Straight i := by
  obtain ⟨⟨htidy, hcount, hfunctions⟩, hc, -⟩ := h _ _ s b s' c ⟨hs, rfl, rfl⟩ hrun
  exact ⟨htidy, hcount, hfunctions, hc⟩

theorem Plain.of {m : Compile β} (htypes : Types m)
    (h : ∀ s b s' c, Tidy s → m s = .ok (b, s', c) →
      s'.labelCount = s.labelCount ∧ s'.functionsToCompile = s.functionsToCompile ∧
        ∀ i ∈ c, Straight i) : Plain m := by
  rintro n functions s b s' c ⟨hs, rfl, rfl⟩ hrun
  obtain ⟨hcount, hfunctions, hc⟩ := h s b s' c hs hrun
  exact ⟨⟨(htypes s b s' c hs hrun).1, hcount, hfunctions⟩, hc, trivial⟩

end

theorem addInstruction_plain {opcode : Opcode} {r0 r1 r2 : Operand}
    (h : Straight ⟨opcode, r0, r1, r2⟩) : Plain (Compiler.addInstruction opcode r0 r1 r2) := by
  rintro n functions s b s' c hs hrun
  cases hrun
  refine ⟨hs, ?_, trivial⟩
  intro i hi
  obtain rfl := List.mem_singleton.mp hi
  exact h

theorem compileExpression_plain (e : Expr) (requested : ℕ) :
    Plain (Compiler.compileExpression e requested) := by
  refine Plain.of (compileExpression_emits tidy_stable statementForm_typed e requested) ?_
  intro s b s' c hs hrun
  unfold Compiler.compileExpression Compiler.onFunction at hrun
  split at hrun
  · cases hrun
  · rename_i r fk code hcompile
    cases hrun
    have hready : ProtectedRegisters.Protecting s.function.symbolTable (fun _ => False) s.function :=
      ⟨rfl, hs.function, fun _ h => h.elim⟩
    obtain ⟨-, hforms, -⟩ := ProtectedRegisters.compileExpression_forms (fun _ _ _ h => h) ⟨id, id⟩ e
      requested false id _ _ _ _ hready hcompile
    exact ⟨rfl, rfl, fun i hi => form_straight (hforms i hi)⟩

theorem getRegister_plain (ident : String) : Plain (Compiler.getRegister ident) := by
  refine Plain.of (getRegister_forms ident) ?_
  intro s b s' c _ hrun
  cases hrun
  exact ⟨rfl, rfl, by simp⟩

theorem freeRegister_plain (index : ℕ) : Plain (Compiler.freeRegister index) := by
  refine Plain.of (freeRegister_forms tidy_stable index) ?_
  intro s b s' c _ hrun
  cases hrun
  exact ⟨rfl, rfl, by simp⟩

theorem forEach_plain {γ : Type} {f : γ → Compile Unit} (hf : ∀ x, Plain (f x)) :
    ∀ xs, Plain (Compiler.forEach f xs)
  | [] => Plain.pure ()
  | x :: xs => (hf x).bind fun _ => forEach_plain hf xs

theorem freeRegister_ok {index : ℕ} {s s' : CompilerState} {u : Unit} {c : Code} (hs : Tidy s)
    (h : Compiler.freeRegister index s = .ok (u, s', c)) :
    Tidy s' ∧ s'.labelCount = s.labelCount ∧ s'.functionsToCompile = s.functionsToCompile ∧ c = [] := by
  have hforms : Types (Compiler.freeRegister index) := freeRegister_forms tidy_stable index
  have htidy := (hforms _ _ _ _ hs h).1
  cases h
  exact ⟨htidy, rfl, rfl, rfl⟩

theorem hoist_plain (stmt : Stmt) : Plain (Compiler.hoist stmt) := by
  cases stmt with
  | function =>
    refine (getRegister_plain _).bind fun _ => addInstruction_plain ?_
    simp [Straight]
  | expression | var | loop | block | conditional | tryCatch => exact Plain.pure ()

theorem compileDiscarded_plain (e : Option Expr) : Plain (Compiler.compileDiscarded e) := by
  cases e with
  | none => exact Plain.pure ()
  | some e => exact (compileExpression_plain e 0).bind fun reg => freeRegister_plain reg

end Zeroscript.StraightCode
