import Zeroscript.InstructionShapes

/-! # Registers and frames

`FFRAME` makes a frame of as many slots as the function has registers when it has been compiled. No
instruction of the function names a register that is not among them. -/
namespace Zeroscript.FrameBounds

open Emission ProtectedRegisters

/-- The number that `FFRAME` gets, at a time before the function is compiled. -/
def slots (fk : FunctionKind) : ℕ := fk.registerTable.length + fk.symbolTable.length

def Fits (n : ℕ) (i : Instruction) : Prop := ∀ r ∈ i.reads ++ i.writes, r ≤ n

instance (n : ℕ) (i : Instruction) : Decidable (Fits n i) :=
  inferInstanceAs (Decidable (∀ r ∈ i.reads ++ i.writes, r ≤ n))

theorem Fits.mono {n k : ℕ} {i : Instruction} (h : Fits n i) (hle : n ≤ k) : Fits k i := by
  intro r hr
  exact Nat.le_trans (h r hr) hle

theorem fits_of_form {n : ℕ} {i : Instruction} (h : Form (n < ·) i) : Fits n i := by
  intro r hr
  exact Nat.le_of_not_lt (h.avoids r hr)

theorem length_setRegister (table : List (ℕ × Bool)) (r : ℕ) (free : Bool) :
    table.length ≤ (FunctionKind.setRegister table r free).length := by
  unfold FunctionKind.setRegister
  split
  · rw [List.length_map]
  · rw [List.length_append]
    exact Nat.le_add_right _ _

theorem slots_getTemporary {fk fk' : FunctionKind} {r : ℕ} (h : fk.WellFormed)
    (hget : fk.getTemporary = some (r, fk')) :
    FunctionKind.Handed fk r fk' ∧ slots fk ≤ slots fk' ∧ r ≤ slots fk' ∧ r ≠ 0 := by
  obtain ⟨r', fk'', hrun, handed⟩ := FunctionKind.getTemporary_handed h
  obtain ⟨rfl, rfl⟩ : r' = r ∧ fk'' = fk' := by simpa [hrun] using hget
  have hmem : (fk''.registerTable.lookup r').isSome := by
    rw [handed.lookup, if_pos rfl]
    rfl
  have hle := (handed.wellFormed.mem_iff.mp hmem).2
  have habove := handed.above
  refine ⟨handed, ?_, by unfold slots; omega, by omega⟩
  unfold FunctionKind.getTemporary at hrun
  split at hrun
  · cases hrun
  · cases hrun
    exact Nat.add_le_add_right (length_setRegister _ _ _) _
  · cases hrun
    exact Nat.add_le_add_right (length_setRegister _ _ _) _

theorem slots_freeRegister (fk : FunctionKind) (r : ℕ) : slots fk ≤ slots (fk.freeRegister r) := by
  unfold FunctionKind.freeRegister
  split
  · split
    · exact Nat.add_le_add_right (length_setRegister _ _ _) _
    · exact Nat.le_refl _
  · exact Nat.le_refl _

def Bounded (syms : List (String × ℕ)) : Prop := ∀ x r, syms.lookup x = some r → r ≤ syms.length

structure Tables (syms : List (String × ℕ)) (fk : FunctionKind) : Prop where
  symbolTable : fk.symbolTable = syms
  wellFormed : fk.WellFormed

variable {syms : List (String × ℕ)} {n : ℕ}

theorem length_le_slots {fk : FunctionKind} (h : Tables syms fk) : syms.length ≤ slots fk := by
  rw [← h.symbolTable]
  exact Nat.le_add_left _ _

/-- The triples below: from at least `n` slots, the registers of the code and of the result are among the
slots in the end. -/
abbrev Stays (syms : List (String × ℕ)) (n : ℕ) (m : Emit ℕ) : Prop :=
  Grows (Tables syms) slots Fits n m fun k r => r ≤ k

abbrev StaysUnit (syms : List (String × ℕ)) (n : ℕ) (m : Emit Unit) : Prop :=
  Grows (Tables syms) slots Fits n m fun _ _ => True

abbrev Provides (syms : List (String × ℕ)) (n : ℕ) (m : Emit ℕ) : Prop :=
  Grows (Tables syms) slots Fits n m fun k r => r ≤ k ∧ r ≠ 0

theorem Provides.stays {m : Emit ℕ} (h : Provides syms n m) : Stays syms n m := by
  apply h.mono
  intro k r hr
  exact hr.1

section

variable {β γ : Type} {m : Emit β} {f : β → Emit γ} {S : ℕ → β → Prop} {V : ℕ → γ → Prop}

theorem bind (hm : Grows (Tables syms) slots Fits n m S)
    (hf : ∀ b k, n ≤ k → S k b → Grows (Tables syms) slots Fits k (f b) V) :
    Grows (Tables syms) slots Fits n (m >>= f) V := by
  apply Grows.bind _ hm hf
  intro k k' i hle hi
  exact hi.mono hle

end

theorem addInstruction_stays {opcode : Opcode} {r0 r1 r2 : Operand} (h : Form (n < ·) ⟨opcode, r0, r1, r2⟩) :
    StaysUnit syms n (addInstruction opcode r0 r1 r2) := by
  intro fk b fk' c hfk hn hrun
  cases hrun
  refine ⟨hfk, Nat.le_refl _, fun i hi => ?_, trivial⟩
  obtain rfl := List.mem_singleton.mp hi
  exact (fits_of_form h).mono hn

theorem getRegister_stays (hsyms : Bounded syms) (x : String) : Stays syms n (getRegister x) := by
  intro fk b fk' c hfk hn hrun
  cases hrun
  refine ⟨hfk, Nat.le_refl _, by simp, ?_⟩
  apply Nat.le_trans _ (length_le_slots hfk)
  unfold FunctionKind.getRegister
  rw [hfk.symbolTable]
  cases hl : syms.lookup x with
  | none => exact Nat.zero_le _
  | some r => exact hsyms x r hl

theorem getTemporary_provides : Provides syms n getTemporary := by
  intro fk b fk' c hfk hn hrun
  unfold getTemporary at hrun
  split at hrun
  · rename_i r fk₁ hget
    cases hrun
    obtain ⟨handed, hle, hr⟩ := slots_getTemporary hfk.wellFormed hget
    exact ⟨⟨handed.symbolTable.trans hfk.symbolTable, handed.wellFormed⟩, hle, by simp, hr⟩
  · cases hrun

theorem freeRegister_stays (r : ℕ) : StaysUnit syms n (freeRegister r) := by
  intro fk b fk' c hfk hn hrun
  cases hrun
  have freed := FunctionKind.freeRegister_freed hfk.wellFormed r
  exact ⟨⟨freed.symbolTable.trans hfk.symbolTable, freed.wellFormed⟩, slots_freeRegister fk r, by simp, trivial⟩

theorem freeRegisterIf_stays {p : Prop} [Decidable p] (r : ℕ) : StaysUnit syms n (freeRegisterIf p r) := by
  apply Grows.ite
  · intro _
    exact freeRegister_stays r
  · intro _
    exact Grows.pure fun _ _ => trivial

theorem destinationOrTemporary_provides {d : ℕ} (hd : d ≤ n) : Provides syms n (destinationOrTemporary d) := by
  apply Grows.ite
  · intro _
    exact getTemporary_provides
  · intro hzero
    exact Grows.pure fun k hk => ⟨Nat.le_trans hd hk, hzero⟩

theorem not_above {k r : ℕ} (h : r ≤ k) : ¬ k < r := Nat.not_lt.mpr h

theorem compileLiteral_provides {opcode : Opcode} {data : String} {d : ℕ}
    (hop : opcode = .MOV_NUMBER ∨ opcode = .MOV_STR) (hd : d ≤ n) :
    Provides syms n (compileLiteral opcode data d) := by
  refine bind (destinationOrTemporary_provides hd) fun reg k hk hreg => ?_
  refine bind (addInstruction_stays ?_) fun _ k' hk' _ => ?_
  · rcases hop with rfl | rfl
    · exact .number ⟨not_above hreg.1, hreg.2⟩
    · exact .string ⟨not_above hreg.1, hreg.2⟩
  · exact Grows.pure fun k'' hk'' => ⟨by omega, hreg.2⟩

theorem addOperation_stays {op : BinaryOp} {a b r : ℕ} (ha : a ≤ n) (hb : b ≤ n) (hr : r ≤ n ∧ r ≠ 0) :
    StaysUnit syms n (addOperation op a b r) := by
  apply Grows.ite
  · intro _
    exact Grows.pure fun _ _ => trivial
  · intro _
    split
    · exact addInstruction_stays (.operation ‹_› (not_above ha) (not_above hb) ⟨not_above hr.1, hr.2⟩)
    · exact Grows.fail

abbrev SubStays (syms : List (String × ℕ)) (sub : SubCompiler) : Prop :=
  ∀ n d k, d ≤ n → Stays syms n (sub d k)

section

variable (hsyms : Bounded syms)

include hsyms

theorem writeBack_stays {e : Expr} {r : ℕ} (hr : r ≤ n) : StaysUnit syms n (writeBack e r) := by
  unfold writeBack
  split
  · refine bind (getRegister_stays hsyms _) fun reg k hk _ => ?_
    apply Grows.ite
    · intro _
      refine bind getTemporary_provides fun temp k₁ hk₁ htemp => ?_
      refine bind (addInstruction_stays (.string ⟨not_above htemp.1, htemp.2⟩)) fun _ k₂ hk₂ _ => ?_
      -- `this` is below the temporary
      have hthis : 1 ≤ k₂ := by omega
      refine bind (addInstruction_stays (.setField (not_above hthis) ?_ ?_)) fun _ k₃ hk₃ _ => ?_
      · exact not_above (by omega)
      · exact not_above (by omega)
      · exact freeRegister_stays temp
    · intro _
      exact Grows.pure fun _ _ => trivial
  · exact Grows.pure fun _ _ => trivial

theorem compilePostfix_stays {e : Expr} {sub : SubCompiler} {op : PostfixOp} {d : ℕ}
    (hsub : SubStays syms sub) (hd : d ≤ n) : Stays syms n (compilePostfix e sub op d) := by
  refine bind (hsub n 0 false (Nat.zero_le _)) fun left k hk hleft => ?_
  refine bind (destinationOrTemporary_provides (by omega)) fun target k₁ hk₁ htarget => ?_
  refine bind (addInstruction_stays (.mov ⟨not_above htarget.1, htarget.2⟩ (not_above (by omega))))
    fun _ k₂ hk₂ _ => ?_
  cases op <;>
  · refine bind (addInstruction_stays (.step (by simp) (not_above (by omega)) (not_above (by omega))))
      fun _ k₃ hk₃ _ => ?_
    refine bind (writeBack_stays hsyms (by omega)) fun _ k₄ hk₄ _ => ?_
    exact Grows.pure fun k₅ hk₅ => by omega

theorem compilePrefix_stays {e : Expr} {sub : SubCompiler} {op : PrefixOp} {d : ℕ}
    (hsub : SubStays syms sub) (hd : d ≤ n) : Stays syms n (compilePrefix e sub op d) := by
  refine bind (hsub n 0 false (Nat.zero_le _)) fun left k hk hleft => ?_
  refine bind (destinationOrTemporary_provides (by omega)) fun target k₁ hk₁ htarget => ?_
  have hreused : (if d = 0 then left else d) ≤ k₁ := by
    split <;> omega
  generalize (if d = 0 then left else d) = reused at hreused ⊢
  cases op with
  | increment | decrement =>
    refine bind (addInstruction_stays (.step (by simp) (not_above (by omega)) (not_above hreused)))
      fun _ k₂ hk₂ _ => ?_
    refine bind (writeBack_stays hsyms (by omega)) fun _ k₃ hk₃ _ => ?_
    exact Grows.pure fun k₄ hk₄ => by omega
  | minus =>
    refine bind (freeRegisterIf_stays target) fun _ k₂ hk₂ _ => ?_
    refine bind (compileLiteral_provides (Or.inl rfl) (Nat.zero_le _)) fun right k₃ hk₃ hright => ?_
    refine bind (addInstruction_stays (.negate (not_above (by omega)) (not_above hright.1)
      (not_above (by omega)))) fun _ k₄ hk₄ _ => ?_
    refine bind (freeRegister_stays right) fun _ k₅ hk₅ _ => ?_
    exact Grows.pure fun k₆ hk₆ => by omega
  | throwing =>
    refine bind (freeRegisterIf_stays target) fun _ k₂ hk₂ _ => ?_
    refine bind (addInstruction_stays (.throwing (not_above (by omega)))) fun _ k₃ hk₃ _ => ?_
    exact Grows.pure fun k₄ hk₄ => by omega
  | plus | tilde | bang =>
    refine bind (writeBack_stays hsyms (by omega)) fun _ k₂ hk₂ _ => ?_
    exact Grows.pure fun k₃ hk₃ => by omega

theorem compileIdentifier_stays {x : String} {d : ℕ} (hd : d ≤ n) : Stays syms n (compileIdentifier x d) := by
  refine bind (getRegister_stays hsyms x) fun reg k hk hreg => ?_
  apply Grows.ite
  · intro _
    refine bind (destinationOrTemporary_provides (by omega)) fun temp k₁ hk₁ htemp => ?_
    refine bind (compileLiteral_provides (Or.inr rfl) (Nat.zero_le _)) fun str k₂ hk₂ hstr => ?_
    have hop : toOpcode .dot = some .GET_FIELD := rfl
    have hthis : 1 ≤ k₂ := by omega
    refine bind (addInstruction_stays (.operation hop (not_above hthis) (not_above hstr.1)
      ⟨not_above (by omega), htemp.2⟩)) fun _ k₃ hk₃ _ => ?_
    exact Grows.pure fun k₄ hk₄ => by omega
  · intro _
    exact Grows.pure fun k₁ hk₁ => by omega

theorem compileIdentifierImmediate_stays {x : String} {d : ℕ} (hd : d ≤ n) :
    Stays syms n (compileIdentifierImmediate x d) := by
  refine bind (getRegister_stays hsyms x) fun reg k hk hreg => ?_
  apply Grows.ite
  · intro _
    refine bind (destinationOrTemporary_provides (by omega)) fun temp k₁ hk₁ htemp => ?_
    have hthis : 1 ≤ k₁ := by omega
    refine bind (addInstruction_stays (.lookup (not_above hthis) ⟨not_above htemp.1, htemp.2⟩))
      fun _ k₂ hk₂ _ => ?_
    exact Grows.pure fun k₃ hk₃ => by omega
  · intro _
    exact Grows.pure fun k₁ hk₁ => by omega

theorem compileTerminal_stays {t : Terminal} {d : ℕ} {known : Bool} (hd : d ≤ n) :
    Stays syms n (compileTerminal t d known) := by
  cases t with
  | identifier data =>
    cases known with
    | false => exact compileIdentifierImmediate_stays hsyms hd
    | true =>
      refine bind (compileIdentifier_stays hsyms hd) fun _ k hk _ => ?_
      exact compileIdentifierImmediate_stays hsyms (by omega)
  | number data => exact (compileLiteral_provides (Or.inl rfl) hd).stays
  | string data => exact (compileLiteral_provides (Or.inr rfl) hd).stays

omit hsyms in
theorem compileOperands_stays {op : BinaryOp} {left right : SubCompiler} {d : ℕ} (hleft : SubStays syms left)
    (hright : SubStays syms right) (hd : d ≤ n) : Stays syms n (compileOperands op left right d) := by
  refine bind (hleft n 0 false (Nat.zero_le _)) fun a k hk ha => ?_
  have hrequested : (if op = .assign then a else 0) ≤ k := by
    split <;> omega
  refine bind (hright k _ _ hrequested) fun b k₁ hk₁ hb => ?_
  refine bind (destinationOrTemporary_provides (by omega)) fun r k₂ hk₂ hr => ?_
  refine bind (addOperation_stays (by omega) (by omega) hr) fun _ k₃ hk₃ _ => ?_
  refine bind (freeRegisterIf_stays b) fun _ k₄ hk₄ _ => ?_
  refine bind (freeRegister_stays a) fun _ k₅ hk₅ _ => ?_
  exact Grows.pure fun k₆ hk₆ => by omega

omit hsyms in
theorem compileOuterAssignment_stays {x : String} {right : SubCompiler} (hright : SubStays syms right) :
    Stays syms n (compileOuterAssignment x right) := by
  refine bind getTemporary_provides fun a k hk ha => ?_
  refine bind (addInstruction_stays (.string ⟨not_above ha.1, ha.2⟩)) fun _ k₁ hk₁ _ => ?_
  refine bind (hright k₁ 0 false (Nat.zero_le _)) fun b k₂ hk₂ hb => ?_
  have hthis : 1 ≤ k₂ := by omega
  refine bind (addInstruction_stays (.setField (not_above hthis) (not_above (by omega)) (not_above hb)))
    fun _ k₃ hk₃ _ => ?_
  exact Grows.pure fun k₄ _ => Nat.zero_le _

theorem compileBinary_stays {op : BinaryOp} {left : Expr} {l r : SubCompiler} {setField : ℕ → Emit Unit} {d : ℕ}
    (hl : SubStays syms l) (hr : SubStays syms r) (hset : ∀ n b, b ≤ n → StaysUnit syms n (setField b))
    (hd : d ≤ n) : Stays syms n (compileBinary op left l r setField d) := by
  unfold compileBinary
  split
  · refine bind (hr n 0 false (Nat.zero_le _)) fun b k hk hb => ?_
    refine bind (hset k b hb) fun _ k₁ hk₁ _ => ?_
    exact Grows.pure fun k₂ hk₂ => by omega
  · exact Grows.fail
  · refine bind (getRegister_stays hsyms _) fun reg k hk _ => ?_
    apply Grows.ite
    · intro _
      exact compileOuterAssignment_stays hr
    · intro _
      exact compileOperands_stays hl hr (by omega)
  · exact Grows.fail
  · exact compileOperands_stays hl hr hd

omit hsyms in
theorem compileMethodCall_stays {arity : ℕ} {args : ℕ → Emit ℕ} {callee : SubCompiler} {d : ℕ}
    (hargs : ∀ n r, r ≤ n → Stays syms n (args r)) (hcallee : SubStays syms callee) (hd : d ≤ n) :
    Stays syms n (compileMethodCall arity args callee d) := by
  refine bind (destinationOrTemporary_provides hd) fun result k hk hresult => ?_
  refine bind getTemporary_provides fun first k₁ hk₁ hfirst => ?_
  refine bind (hargs k₁ first hfirst.1) fun last k₂ hk₂ hlast => ?_
  refine bind (freeRegister_stays last) fun _ k₃ hk₃ _ => ?_
  refine bind (hcallee k₃ 0 false (Nat.zero_le _)) fun f k₄ hk₄ hf => ?_
  refine bind (addInstruction_stays (.call (not_above hf) ⟨not_above (by omega), hresult.2⟩))
    fun _ k₅ hk₅ _ => ?_
  refine bind (freeRegister_stays f) fun _ k₆ hk₆ _ => ?_
  exact Grows.pure fun k₇ hk₇ => by omega

end

mutual

theorem compileExpression_stays (hsyms : Bounded syms) : ∀ e : Expr, SubStays syms (compileExpression e)
  | .methodCall callee args => fun n d _ hd => by
    rw [compileExpression]
    exact compileMethodCall_stays (compileArguments_stays hsyms args) (compileExpression_stays hsyms callee) hd
  | .binary op left right => fun n d _ hd => by
    rw [compileExpression]
    exact compileBinary_stays hsyms (compileExpression_stays hsyms left) (compileExpression_stays hsyms right)
      (compileDotForSetField_stays hsyms left) hd
  | .postfixed e op => fun n d _ hd => by
    rw [compileExpression]
    exact compilePostfix_stays hsyms (compileExpression_stays hsyms e) hd
  | .prefixed op e => fun n d _ hd => by
    rw [compileExpression]
    exact compilePrefix_stays hsyms (compileExpression_stays hsyms e) hd
  | .terminal t => fun n d _ hd => by
    rw [compileExpression]
    exact compileTerminal_stays hsyms hd
  | .empty => fun n d _ _ => by
    rw [compileExpression]
    exact Grows.pure fun k _ => Nat.zero_le k

theorem compileDotForSetField_stays (hsyms : Bounded syms) :
    ∀ (e : Expr) (n r : ℕ), r ≤ n → StaysUnit syms n (compileDotForSetField e r)
  | .binary _ left right => fun n r hr => by
    rw [compileDotForSetField]
    refine bind (compileExpression_stays hsyms left n 0 false (Nat.zero_le _)) fun a k hk ha => ?_
    refine bind (compileExpression_stays hsyms right k 0 false (Nat.zero_le _)) fun b k₁ hk₁ hb => ?_
    exact addInstruction_stays (.setField (not_above (by omega)) (not_above hb) (not_above (by omega)))
  | .terminal _ | .prefixed _ _ | .postfixed _ _ | .methodCall _ _ | .empty => fun n r _ => by
    simp only [compileDotForSetField]
    exact Grows.pure fun _ _ => trivial

theorem compileArguments_stays (hsyms : Bounded syms) :
    ∀ (es : List Expr) (n r : ℕ), r ≤ n → Stays syms n (compileArguments es r)
  | [] => fun n r hr => by
    rw [compileArguments]
    exact Grows.pure fun k hk => Nat.le_trans hr hk
  | e :: es => fun n r hr => by
    rw [compileArguments]
    refine bind (compileArguments_stays hsyms es n r hr) fun later k hk hlater => ?_
    refine bind (compileExpression_stays hsyms e k later false hlater) fun reg k₁ hk₁ hreg => ?_
    refine bind (addInstruction_stays (.push (not_above hreg))) fun _ k₂ hk₂ _ => ?_
    exact Grows.pure fun k₃ hk₃ => by omega

end

open InstructionShapes in
/-- What holds while a function with these symbols is compiled. -/
structure Room (syms : List (String × ℕ)) (s : CompilerState) : Prop where
  symbolTable : s.function.symbolTable = syms
  tidy : Tidy s

theorem Room.tables {s : CompilerState} (h : Room syms s) : Tables syms s.function := ⟨h.symbolTable, h.tidy.function⟩

abbrev Keeps (syms : List (String × ℕ)) (n : ℕ) {β : Type} (m : Compile β) (R : ℕ → β → Prop) : Prop :=
  Grows (Room syms) (fun s => slots s.function) Fits n m R

abbrev KeepsUnit (syms : List (String × ℕ)) (n : ℕ) {β : Type} (m : Compile β) : Prop :=
  Keeps syms n m fun _ _ => True

section

variable {β γ : Type} {m : Compile β} {f : β → Compile γ} {S : ℕ → β → Prop} {V : ℕ → γ → Prop}

theorem Keeps.bind (hm : Keeps syms n m S) (hf : ∀ b k, n ≤ k → S k b → Keeps syms k (f b) V) :
    Keeps syms n (m >>= f) V := by
  apply Grows.bind _ hm hf
  intro k k' i hle hi
  exact hi.mono hle

theorem KeepsUnit.then {m : Compile Unit} {f : Unit → Compile γ} (hm : KeepsUnit syms n m)
    (hf : ∀ k, n ≤ k → Keeps syms k (f ()) V) : Keeps syms n (m >>= f) V :=
  Keeps.bind hm fun _ k hk _ => hf k hk

theorem onFunction_keeps {m : Emit β} (h : Grows (Tables syms) slots Fits n m S) :
    Keeps syms n (Compiler.onFunction m) S := by
  intro s b s' c hs hn hrun
  unfold Compiler.onFunction at hrun
  split at hrun
  · cases hrun
  · rename_i b' fk code hm
    cases hrun
    obtain ⟨hfk, hle, hcode, hb⟩ := h _ _ _ _ hs.tables hn hm
    exact ⟨⟨hfk.symbolTable, hfk.wellFormed, hs.tidy.kept⟩, hle, hcode, hb⟩

end

theorem emit_keeps {opcode : Opcode} {r0 r1 r2 : Operand} (h : Fits n ⟨opcode, r0, r1, r2⟩) :
    KeepsUnit syms n (Compiler.addInstruction opcode r0 r1 r2) := by
  intro s b s' c hs hn hrun
  cases hrun
  refine ⟨hs, Nat.le_refl _, fun i hi => ?_, trivial⟩
  obtain rfl := List.mem_singleton.mp hi
  exact h.mono hn

theorem fits_of_none {i : Instruction} (h : i.reads ++ i.writes = []) : Fits n i := by
  intro r hr
  rw [h] at hr
  cases hr

theorem addLabel_keeps (text : String) : KeepsUnit syms n (Compiler.addLabel text) :=
  emit_keeps (fits_of_none rfl)

theorem jump_keeps (target : String) : KeepsUnit syms n (Compiler.addInstruction .JMP (.str target) (.num 0) (.num 0)) :=
  emit_keeps (fits_of_none rfl)

theorem fits_of_single {i : Instruction} {r : ℕ} (h : i.reads ++ i.writes = [r]) (hr : r ≤ n) : Fits n i := by
  intro t ht
  rw [h] at ht
  rw [List.mem_singleton.mp ht]
  exact hr

theorem silent_keeps {β : Type} {m : Compile β} (h : ∀ s b s' c, m s = .ok (b, s', c) →
    s'.function = s.function ∧ s'.registerTables = s.registerTables ∧ c = []) : KeepsUnit syms n m := by
  intro s b s' c hs hn hrun
  obtain ⟨hfunction, htables, rfl⟩ := h s b s' c hrun
  refine ⟨⟨hfunction ▸ hs.symbolTable, hfunction ▸ hs.tidy.function, htables ▸ hs.tidy.kept⟩, ?_, by simp, trivial⟩
  exact Nat.le_of_eq (congrArg slots hfunction.symm)

theorem freshLabel_keeps (stem : String) : KeepsUnit syms n (Compiler.freshLabel stem) := by
  apply silent_keeps
  intro s b s' c hrun
  cases hrun
  exact ⟨rfl, rfl, rfl⟩

theorem getTemporary_keeps : Keeps syms n Compiler.getTemporary fun k r => r ≤ k ∧ r ≠ 0 :=
  onFunction_keeps getTemporary_provides

theorem release_keeps (r : ℕ) : KeepsUnit syms n (Compiler.freeRegister r) := onFunction_keeps (freeRegister_stays r)

theorem forEach_keeps {γ : Type} {f : γ → Compile Unit} (xs : List γ)
    (hf : ∀ x, ∀ k, n ≤ k → KeepsUnit syms k (f x)) : KeepsUnit syms n (Compiler.forEach f xs) := by
  induction xs generalizing n with
  | nil => exact Grows.pure fun _ _ => trivial
  | cons x xs ih =>
    refine (hf x n (Nat.le_refl n)).then fun k hk => ?_
    exact ih fun y k' hk' => hf y k' (Nat.le_trans hk hk')

theorem compileBreak_keeps (context : Context) : KeepsUnit syms n (Compiler.compileBreak context) := by
  unfold Compiler.compileBreak
  split
  · exact Grows.fail
  · exact jump_keeps _

section

variable (hsyms : Bounded syms)

include hsyms

theorem symbol_keeps (x : String) : Keeps syms n (Compiler.getRegister x) fun k r => r ≤ k :=
  onFunction_keeps (getRegister_stays hsyms x)

theorem value_keeps (e : Expr) {d : ℕ} (hd : d ≤ n) : Keeps syms n (Compiler.compileExpression e d) fun k r => r ≤ k :=
  onFunction_keeps (compileExpression_stays hsyms e n d false hd)

theorem hoist_keeps (stmt : Stmt) : KeepsUnit syms n (Compiler.hoist stmt) := by
  cases stmt with
  | function =>
    refine (symbol_keeps hsyms _).bind fun reg k _ hreg => ?_
    exact emit_keeps (fits_of_single rfl hreg)
  | expression | var | loop | block | conditional | tryCatch => exact Grows.pure fun _ _ => trivial

theorem compileDiscarded_keeps (e : Option Expr) : KeepsUnit syms n (Compiler.compileDiscarded e) := by
  cases e with
  | none => exact Grows.pure fun _ _ => trivial
  | some e => exact (value_keeps hsyms e (Nat.zero_le _)).bind fun reg k _ _ => release_keeps reg

theorem compileVar_keeps (identifier : String) (value : Expr) (isSynchronized : Bool) :
    KeepsUnit syms n (Compiler.compileVar identifier value isSynchronized) := by
  refine (symbol_keeps hsyms identifier).bind fun reg k _ hreg => ?_
  refine (value_keeps hsyms value hreg).bind fun valueReg k₁ hk₁ hvalue => ?_
  apply Grows.ite
  · intro _
    refine getTemporary_keeps.bind fun temp k₂ hk₂ htemp => ?_
    refine (emit_keeps (fits_of_form (.string ⟨not_above htemp.1, htemp.2⟩))).then fun k₃ hk₃ => ?_
    have hthis : 1 ≤ k₃ := by omega
    refine (emit_keeps (fits_of_form (.setField (not_above hthis) ?_ ?_))).then fun k₄ _ => ?_
    · exact not_above (by omega)
    · exact not_above (by omega)
    · exact release_keeps temp
  · intro _
    apply Grows.ite
    · intro _
      refine (emit_keeps ?_).then fun k₂ _ => release_keeps valueReg
      intro r hr
      rcases List.mem_pair.mp hr with rfl | rfl
      · exact hvalue
      · exact Nat.le_trans hreg hk₁
    · intro _
      exact Grows.pure fun _ _ => trivial

section

variable {compileStmt : Context → Stmt → Compile Unit}
  (hstmt : ∀ n context stmt, KeepsUnit syms n (compileStmt context stmt))

include hstmt

omit hsyms in
theorem compileStatements_keeps (context : Context) (i : ℕ) (body : Body) :
    KeepsUnit syms n (Compiler.compileStatements compileStmt context i body) := by
  induction body generalizing n i with
  | nil => exact Grows.pure fun _ _ => trivial
  | cons stmt rest ih => exact (hstmt n _ stmt).then fun k _ => ih (i + 1)

theorem compileBody_keeps (context : Context) (body : Body) :
    KeepsUnit syms n (Compiler.compileBody compileStmt context body) := by
  refine (forEach_keeps body fun stmt _ _ => hoist_keeps hsyms stmt).then fun k _ => ?_
  exact compileStatements_keeps hstmt context 0 body

theorem compileLoop_keeps (context : Context) (startExpr condition iterExpr : Option Expr) (body : Body) :
    KeepsUnit syms n (Compiler.compileLoop compileStmt context startExpr condition iterExpr body) := by
  refine (freshLabel_keeps _).bind fun lstart k₁ _ _ => ?_
  refine (freshLabel_keeps _).bind fun lend k₂ _ _ => ?_
  refine (freshLabel_keeps _).bind fun lcond k₃ _ _ => ?_
  refine (compileDiscarded_keeps hsyms startExpr).then fun k₄ _ => ?_
  refine (jump_keeps lcond).then fun k₅ _ => (addLabel_keeps lstart).then fun k₆ _ => ?_
  refine (compileBody_keeps hsyms hstmt _ body).then fun k₇ _ => ?_
  refine (compileDiscarded_keeps hsyms iterExpr).then fun k₈ _ => (addLabel_keeps lcond).then fun k₉ _ => ?_
  cases condition with
  | none => exact addLabel_keeps lend
  | some condition =>
    refine (value_keeps hsyms condition (Nat.zero_le _)).bind fun reg k₁₀ _ hreg => ?_
    refine (emit_keeps (fits_of_single rfl hreg)).then fun k₁₁ _ => ?_
    exact (release_keeps reg).then fun k₁₂ _ => addLabel_keeps lend

theorem compileConditional_keeps (context : Context) (condition : Expr) (body : Body) (elseBody : Option Body) :
    KeepsUnit syms n (Compiler.compileConditional compileStmt context condition body elseBody) := by
  refine (freshLabel_keeps _).bind fun ifFail k₁ _ _ => (freshLabel_keeps _).bind fun conEnd k₂ _ _ => ?_
  refine (value_keeps hsyms condition (Nat.zero_le _)).bind fun reg k₃ _ hreg => ?_
  refine (emit_keeps (fits_of_single rfl hreg)).then fun k₄ _ => (release_keeps reg).then fun k₅ _ => ?_
  refine (compileBody_keeps hsyms hstmt _ body).then fun k₆ _ => ?_
  cases elseBody with
  | none => exact (addLabel_keeps ifFail).then fun k₇ _ => addLabel_keeps conEnd
  | some elseBody =>
    refine (jump_keeps conEnd).then fun k₇ _ => (addLabel_keeps ifFail).then fun k₈ _ => ?_
    exact (compileBody_keeps hsyms hstmt _ elseBody).then fun k₉ _ => addLabel_keeps conEnd

theorem compileTryCatch_keeps (context : Context) (catchIdent : String) (tryBody catchBody : Body)
    (finallyBody : Option Body) :
    KeepsUnit syms n (Compiler.compileTryCatch compileStmt context catchIdent tryBody catchBody finallyBody) := by
  refine (freshLabel_keeps _).bind fun catchLabel k₁ _ _ => (freshLabel_keeps _).bind fun finallyLabel k₂ _ _ => ?_
  refine (emit_keeps (fits_of_none rfl)).then fun k₃ _ => ?_
  refine (compileBody_keeps hsyms hstmt _ tryBody).then fun k₄ _ => ?_
  refine (jump_keeps finallyLabel).then fun k₅ _ => (addLabel_keeps catchLabel).then fun k₆ _ => ?_
  refine (symbol_keeps hsyms catchIdent).bind fun reg k₇ _ hreg => ?_
  refine (emit_keeps (fits_of_single rfl hreg)).then fun k₈ _ => ?_
  refine (compileBody_keeps hsyms hstmt _ catchBody).then fun k₉ _ => (addLabel_keeps finallyLabel).then fun k₁₀ _ => ?_
  cases finallyBody with
  | none => exact emit_keeps (fits_of_none rfl)
  | some body => exact (compileBody_keeps hsyms hstmt _ body).then fun k₁₁ _ => emit_keeps (fits_of_none rfl)

theorem compileReturn_keeps (context : Context) {reg : ℕ} (hreg : reg ≤ n) :
    KeepsUnit syms n (Compiler.compileReturn compileStmt context reg) := by
  refine (forEach_keeps context.finallyBlocks fun block _ _ => ?_).then fun k hk => ?_
  · exact compileBody_keeps hsyms hstmt _ block.2
  · exact emit_keeps (fits_of_single rfl (Nat.le_trans hreg hk))

theorem compileExpressionStmt_keeps (context : Context) (e : Expr) (hasReturn hasBreak : Bool) :
    KeepsUnit syms n (Compiler.compileExpressionStmt compileStmt context e hasReturn hasBreak) := by
  have hvalue : ∀ n, KeepsUnit syms n (do
      let reg ← Compiler.compileExpression e 0
      if hasReturn then Compiler.compileReturn compileStmt context reg else pure ()
      Compiler.freeRegister reg) := by
    intro n
    refine (value_keeps hsyms e (Nat.zero_le _)).bind fun reg k _ hreg => ?_
    apply Grows.ite
    · intro _
      exact (compileReturn_keeps hsyms hstmt context hreg).then fun k₁ _ => release_keeps reg
    · intro _
      exact release_keeps reg
  apply Grows.ite
  · intro _
    exact (compileBreak_keeps context).then fun k _ => hvalue k
  · intro _
    exact hvalue n

end

theorem compileStmt_keeps (fuel n : ℕ) (context : Context) (stmt : Stmt) :
    KeepsUnit syms n (Compiler.compileStmt fuel context stmt) := by
  induction fuel generalizing n context stmt with
  | zero => exact Grows.fail
  | succ fuel ih =>
    cases stmt with
    | expression => exact compileExpressionStmt_keeps hsyms ih context _ _ _
    | function =>
      apply silent_keeps
      intro s b s' c hrun
      cases hrun
      exact ⟨rfl, rfl, rfl⟩
    | var => exact compileVar_keeps hsyms _ _ _
    | loop => exact compileLoop_keeps hsyms ih context _ _ _ _
    | block => exact compileBody_keeps hsyms ih context _
    | conditional => exact compileConditional_keeps hsyms ih context _ _ _
    | tryCatch => exact compileTryCatch_keeps hsyms ih context _ _ _ _

end

end Zeroscript.FrameBounds
