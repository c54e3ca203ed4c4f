import Zeroscript.ExpressionCompiler
import Zeroscript.Register
import Zeroscript.RegisterTable

/-! # Registers an expression leaves alone

A set `P` of temporaries that are in use when an expression is compiled, and that are not its
requested destination, stays in use, and no emitted instruction reads or writes a member of it.
This holds of every expression, also of those whose value goes astray. The proof goes through the
forms of the instructions that `ExpressionCompiler` emits. -/
namespace Zeroscript.ProtectedRegisters

open Emission

structure SymbolsValid (syms : List (String × ℕ)) : Prop where
  nonempty : 1 ≤ syms.length
  bound : ∀ x r, syms.lookup x = some r → 1 ≤ r ∧ r ≤ syms.length

theorem SymbolsValid.of_entries {syms : List (String × ℕ)} (hne : 1 ≤ syms.length)
    (h : ∀ entry ∈ syms, 1 ≤ entry.2 ∧ entry.2 ≤ syms.length) : SymbolsValid syms := by
  refine ⟨hne, fun x r hl => ?_⟩
  obtain ⟨l₁, l₂, rfl, -⟩ := List.lookup_eq_some_iff.mp hl
  exact h (x, r) (by simp)

structure Protecting (syms : List (String × ℕ)) (P : ℕ → Prop) (fk : FunctionKind) : Prop where
  symbolTable : fk.symbolTable = syms
  wellFormed : fk.WellFormed
  inUse : ∀ t, P t → fk.InUse t

def Avoids (P : ℕ → Prop) (i : Instruction) : Prop := ∀ t ∈ i.reads ++ i.writes, ¬ P t

/-- The instructions of `ExpressionCompiler`, with no operand in `P`. A destination is never 0. -/
inductive Form (P : ℕ → Prop) : Instruction → Prop where
  | number {r : ℕ} {text : String} (hr : ¬ P r ∧ r ≠ 0) :
      Form P ⟨.MOV_NUMBER, .num r, .str text, .num 0⟩
  | string {r : ℕ} {text : String} (hr : ¬ P r ∧ r ≠ 0) : Form P ⟨.MOV_STR, .num r, .str text, .num 0⟩
  | mov {r a : ℕ} (hr : ¬ P r ∧ r ≠ 0) (ha : ¬ P a) : Form P ⟨.MOV, .num r, .num a, .num 0⟩
  | step {opcode : Opcode} {a b : ℕ} (hop : opcode = .INC ∨ opcode = .DEC) (ha : ¬ P a)
      (hb : ¬ P b) : Form P ⟨opcode, .num a, .num b, .num 0⟩
  | negate {a b r : ℕ} (ha : ¬ P a) (hb : ¬ P b) (hr : ¬ P r) :
      Form P ⟨.MUL, .num a, .num b, .num r⟩
  | operation {op : BinaryOp} {opcode : Opcode} {a b r : ℕ} (hop : toOpcode op = some opcode)
      (ha : ¬ P a) (hb : ¬ P b) (hr : ¬ P r ∧ r ≠ 0) : Form P ⟨opcode, .num a, .num b, .num r⟩
  | lookup {text : String} {a r : ℕ} (ha : ¬ P a) (hr : ¬ P r ∧ r ≠ 0) :
      Form P ⟨.GET_FIELD_IMMEDIATE, .num a, .str text, .num r⟩
  | setField {a b r : ℕ} (ha : ¬ P a) (hb : ¬ P b) (hr : ¬ P r) :
      Form P ⟨.SET_FIELD, .num a, .num b, .num r⟩
  | call {f r arity : ℕ} (hf : ¬ P f) (hr : ¬ P r ∧ r ≠ 0) : Form P ⟨.CALL, .num f, .num r, .num arity⟩
  | push {r : ℕ} (hr : ¬ P r) : Form P ⟨.PUSH, .num r, .num 0, .num 0⟩
  | throwing {r : ℕ} (hr : ¬ P r) : Form P ⟨.THROW_EXCEPTION, .num r, .num 0, .num 0⟩

theorem Form.avoids {P : ℕ → Prop} {i : Instruction} (h : Form P i) : Avoids P i := by
  cases h with
  | number hr | string hr => simp [Avoids, Instruction.reads, Instruction.writes, hr]
  | mov hr ha => simp [Avoids, Instruction.reads, Instruction.writes, hr, ha]
  | step hop ha hb => rcases hop with rfl | rfl <;> simp [Avoids, Instruction.reads, Instruction.writes, ha, hb]
  | negate ha hb hr => simp [Avoids, Instruction.reads, Instruction.writes, ha, hb, hr]
  | @operation op opcode a b r hop ha hb hr =>
    cases op <;> cases hop <;> simp [Avoids, Instruction.reads, Instruction.writes, ha, hb, hr]
  | lookup ha hr => simp [Avoids, Instruction.reads, Instruction.writes, ha, hr]
  | setField ha hb hr => simp [Avoids, Instruction.reads, Instruction.writes, ha, hb, hr]
  | call hf hr => simp [Avoids, Instruction.reads, Instruction.writes, hf, hr]
  | push hr | throwing hr => simp [Avoids, Instruction.reads, Instruction.writes, hr]

variable {syms : List (String × ℕ)} {P : ℕ → Prop}

theorem Protecting.above {fk : FunctionKind} (h : Protecting syms P fk) {t : ℕ} (ht : P t) :
    syms.length < t :=
  h.symbolTable ▸ (h.inUse t ht).above h.wellFormed

theorem getRegister_le (hv : SymbolsValid syms) {fk : FunctionKind} (hs : fk.symbolTable = syms)
    (x : String) : fk.getRegister x ≤ syms.length := by
  unfold FunctionKind.getRegister
  rw [hs]
  cases hl : syms.lookup x with
  | none => simp
  | some r => exact (hv.bound x r hl).2

def Unnamed (syms : List (String × ℕ)) (P : ℕ → Prop) : Prop :=
  ∀ fk x, Protecting syms P fk → ¬ P (fk.getRegister x)

theorem SymbolsValid.unnamed (hv : SymbolsValid syms) : Unnamed syms P := by
  intro fk x hfk hP
  have := hfk.above hP
  have := getRegister_le hv hfk.symbolTable x
  omega

/-- The triples below: protected registers stay in use, instructions avoid them, and the register
returned is not one of them. -/
abbrev Spares (syms : List (String × ℕ)) (P : ℕ → Prop) (m : Emit ℕ) : Prop :=
  Emits (Protecting syms P) (Form P) m fun r => ¬ P r

abbrev SparesUnit (syms : List (String × ℕ)) (P : ℕ → Prop) (m : Emit Unit) : Prop :=
  Emits (Protecting syms P) (Form P) m fun _ => True

abbrev Grants (syms : List (String × ℕ)) (P : ℕ → Prop) (m : Emit ℕ) : Prop :=
  Emits (Protecting syms P) (Form P) m fun r => ¬ P r ∧ r ≠ 0

theorem Grants.spares {m : Emit ℕ} (h : Grants syms P m) : Spares syms P m :=
  h.mono fun _ hr => hr.1

theorem addInstruction_spares {opcode : Opcode} {r0 r1 r2 : Operand}
    (h : Form P ⟨opcode, r0, r1, r2⟩) : SparesUnit syms P (addInstruction opcode r0 r1 r2) := by
  intro fk b fk' c hfk hrun
  cases hrun
  exact ⟨hfk, by simpa using h, trivial⟩

theorem getRegister_spares (hs : Unnamed syms P) (x : String) : Spares syms P (getRegister x) := by
  intro fk b fk' c hfk hrun
  cases hrun
  exact ⟨hfk, by simp, hs fk x hfk⟩

theorem getTemporary_grants : Grants syms P getTemporary := by
  intro fk b fk' c hfk hrun
  obtain ⟨r, fk₁, hget, handed⟩ := FunctionKind.getTemporary_handed hfk.wellFormed
  unfold getTemporary at hrun
  rw [hget] at hrun
  cases hrun
  have hr : ¬ P b := fun hP => handed.wasNotInUse (hfk.inUse b hP)
  have habove := handed.above
  refine ⟨⟨handed.symbolTable.trans hfk.symbolTable, handed.wellFormed, fun t ht => ?_⟩,
    by simp, hr, by omega⟩
  have hne : t ≠ b := fun he => hr (he ▸ ht)
  rw [FunctionKind.InUse, handed.lookup, if_neg hne]
  exact hfk.inUse t ht

theorem freeRegister_spares {r : ℕ} (hr : ¬ P r) : SparesUnit syms P (freeRegister r) := by
  intro fk b fk' c hfk hrun
  cases hrun
  have freed := FunctionKind.freeRegister_freed hfk.wellFormed r
  refine ⟨⟨freed.symbolTable.trans hfk.symbolTable, freed.wellFormed, fun t ht => ?_⟩,
    by simp, trivial⟩
  have hne : t ≠ r := fun he => hr (he ▸ ht)
  rw [FunctionKind.InUse, freed.lookup t hne]
  exact hfk.inUse t ht

theorem freeRegisterIf_spares {p : Prop} [Decidable p] {r : ℕ} (hr : ¬ P r) :
    SparesUnit syms P (freeRegisterIf p r) :=
  Emits.ite (fun _ => freeRegister_spares hr) fun _ => Emits.pure trivial

theorem destinationOrTemporary_grants {d : ℕ} (hd : ¬ P d) :
    Grants syms P (destinationOrTemporary d) :=
  Emits.ite (fun _ => getTemporary_grants) fun h0 => Emits.pure ⟨hd, h0⟩

theorem low_spared (hv : SymbolsValid syms) {fk : FunctionKind} (hfk : Protecting syms P fk) :
    ¬ P 0 ∧ ¬ P 1 := by
  have := hv.nonempty
  constructor
  · intro hP
    have := hfk.above hP
    omega
  · intro hP
    have := hfk.above hP
    omega

theorem compileLiteral_grants {opcode : Opcode} {data : String} {d : ℕ}
    (hop : opcode = .MOV_NUMBER ∨ opcode = .MOV_STR) (hd : ¬ P d) :
    Grants syms P (compileLiteral opcode data d) := by
  refine (destinationOrTemporary_grants hd).bind fun reg hreg => ?_
  refine (addInstruction_spares ?_).bind fun _ _ => Emits.pure hreg
  rcases hop with rfl | rfl
  · exact .number hreg
  · exact .string hreg

theorem addOperation_spares {op : BinaryOp} {a b r : ℕ} (ha : ¬ P a) (hb : ¬ P b)
    (hr : ¬ P r ∧ r ≠ 0) : SparesUnit syms P (addOperation op a b r) := by
  refine Emits.ite (fun _ => Emits.pure trivial) fun _ => ?_
  split
  · exact addInstruction_spares (.operation ‹_› ha hb hr)
  · exact Emits.fail

section

variable (hlow : ¬ P 0 ∧ ¬ P 1)

include hlow

theorem writeBack_spares (hs : Unnamed syms P) {e : Expr} {r : ℕ} (hr : ¬ P r) :
    SparesUnit syms P (writeBack e r) := by
  unfold writeBack
  split
  · refine (getRegister_spares hs _).bind fun reg _ => ?_
    refine Emits.ite (fun _ => ?_) fun _ => Emits.pure trivial
    refine getTemporary_grants.bind fun temp htemp => ?_
    refine (addInstruction_spares (.string htemp)).bind fun _ _ => ?_
    exact (addInstruction_spares (.setField hlow.2 htemp.1 hr)).bind
      fun _ _ => freeRegister_spares htemp.1
  · exact Emits.pure trivial

abbrev SubSpares (syms : List (String × ℕ)) (P : ℕ → Prop) (sub : SubCompiler) : Prop :=
  ∀ d k, ¬ P d → Spares syms P (sub d k)

theorem compilePostfix_spares (hs : Unnamed syms P) {e : Expr} {sub : SubCompiler}
    {op : PostfixOp} {d : ℕ} (hsub : SubSpares syms P sub) (hd : ¬ P d) :
    Spares syms P (compilePostfix e sub op d) := by
  refine (hsub 0 false hlow.1).bind fun left hleft => ?_
  refine (destinationOrTemporary_grants hd).bind fun target htarget => ?_
  refine (addInstruction_spares (.mov htarget hleft)).bind fun _ _ => ?_
  cases op <;>
  · refine (addInstruction_spares (.step (by simp) hleft hleft)).bind fun _ _ => ?_
    exact (writeBack_spares hlow hs hleft).bind fun _ _ => Emits.pure htarget.1

theorem compilePrefix_spares (hs : Unnamed syms P) {e : Expr} {sub : SubCompiler}
    {op : PrefixOp} {d : ℕ} (hsub : SubSpares syms P sub) (hd : ¬ P d) :
    Spares syms P (compilePrefix e sub op d) := by
  refine (hsub 0 false hlow.1).bind fun left hleft => ?_
  refine (destinationOrTemporary_grants hd).bind fun target htarget => ?_
  have hreused : ¬ P (if d = 0 then left else d) := by
    split
    · exact hleft
    · exact hd
  cases op with
  | increment | decrement =>
    refine (addInstruction_spares (.step (by simp) hleft hreused)).bind fun _ _ => ?_
    exact (writeBack_spares hlow hs hleft).bind fun _ _ => Emits.pure hreused
  | minus =>
    refine (freeRegisterIf_spares htarget.1).bind fun _ _ => ?_
    refine (compileLiteral_grants (Or.inl rfl) hlow.1).bind fun right hright => ?_
    refine (addInstruction_spares (.negate hleft hright.1 hreused)).bind fun _ _ => ?_
    exact (freeRegister_spares hright.1).bind fun _ _ => Emits.pure hreused
  | throwing =>
    refine (freeRegisterIf_spares htarget.1).bind fun _ _ => ?_
    exact (addInstruction_spares (.throwing hleft)).bind fun _ _ => Emits.pure htarget.1
  | plus | tilde | bang =>
    exact (writeBack_spares hlow hs hleft).bind fun _ _ => Emits.pure htarget.1

theorem compileIdentifier_spares (hs : Unnamed syms P) {x : String} {d : ℕ} (hd : ¬ P d) :
    Spares syms P (compileIdentifier x d) := by
  refine (getRegister_spares hs x).bind fun reg hreg => ?_
  refine Emits.ite (fun _ => ?_) fun _ => Emits.pure hreg
  refine (destinationOrTemporary_grants hd).bind fun temp htemp => ?_
  refine (compileLiteral_grants (Or.inr rfl) hlow.1).bind fun str hstr => ?_
  have hop : toOpcode .dot = some .GET_FIELD := rfl
  exact (addInstruction_spares (.operation hop hlow.2 hstr.1 htemp)).bind
    fun _ _ => Emits.pure htemp.1

theorem compileIdentifierImmediate_spares (hs : Unnamed syms P) {x : String} {d : ℕ}
    (hd : ¬ P d) : Spares syms P (compileIdentifierImmediate x d) := by
  refine (getRegister_spares hs x).bind fun reg hreg => ?_
  refine Emits.ite (fun _ => ?_) fun _ => Emits.pure hreg
  refine (destinationOrTemporary_grants hd).bind fun temp htemp => ?_
  exact (addInstruction_spares (.lookup hlow.2 htemp)).bind fun _ _ => Emits.pure htemp.1

theorem compileTerminal_spares (hs : Unnamed syms P) {t : Terminal} {d : ℕ} {k : Bool}
    (hd : ¬ P d) : Spares syms P (compileTerminal t d k) := by
  cases t with
  | identifier data =>
    have himm : Spares syms P (compileIdentifierImmediate data d) :=
      compileIdentifierImmediate_spares hlow hs hd
    cases k with
    | false => exact himm
    | true => exact (compileIdentifier_spares hlow hs hd).bind fun _ _ => himm
  | number data => exact (compileLiteral_grants (Or.inl rfl) hd).spares
  | string data => exact (compileLiteral_grants (Or.inr rfl) hd).spares

theorem compileOperands_spares {op : BinaryOp} {left right : SubCompiler} {d : ℕ}
    (hleft : SubSpares syms P left) (hright : SubSpares syms P right) (hd : ¬ P d) :
    Spares syms P (compileOperands op left right d) := by
  refine (hleft 0 false hlow.1).bind fun a ha => ?_
  have hreq : ¬ P (if op = .assign then a else 0) := by
    split
    · exact ha
    · exact hlow.1
  refine (hright _ _ hreq).bind fun b hb => ?_
  refine (destinationOrTemporary_grants hd).bind fun r hr => ?_
  refine (addOperation_spares ha hb hr).bind fun _ _ => ?_
  refine (freeRegisterIf_spares hb).bind fun _ _ => ?_
  exact (freeRegister_spares ha).bind fun _ _ => Emits.pure hr.1

theorem compileOuterAssignment_spares {x : String} {right : SubCompiler}
    (hright : SubSpares syms P right) : Spares syms P (compileOuterAssignment x right) := by
  refine getTemporary_grants.bind fun a ha => ?_
  refine (addInstruction_spares (.string ha)).bind fun _ _ => ?_
  refine (hright 0 false hlow.1).bind fun b hb => ?_
  exact (addInstruction_spares (.setField hlow.2 ha.1 hb)).bind fun _ _ => Emits.pure hlow.1

theorem compileBinary_spares (hs : Unnamed syms P) {op : BinaryOp} {left : Expr}
    {l r : SubCompiler} {setField : ℕ → Emit Unit} {d : ℕ} (hl : SubSpares syms P l)
    (hr : SubSpares syms P r) (hset : ∀ b, ¬ P b → SparesUnit syms P (setField b)) (hd : ¬ P d) :
    Spares syms P (compileBinary op left l r setField d) := by
  unfold compileBinary
  split
  · exact (hr 0 false hlow.1).bind fun b hb => (hset b hb).bind fun _ _ => Emits.pure hb
  · exact Emits.fail
  · refine (getRegister_spares hs _).bind fun reg _ => ?_
    exact Emits.ite (fun _ => compileOuterAssignment_spares hlow hr)
      fun _ => compileOperands_spares hlow hl hr hd
  · exact Emits.fail
  · exact compileOperands_spares hlow hl hr hd

theorem compileMethodCall_spares {arity : ℕ} {args : ℕ → Emit ℕ} {callee : SubCompiler} {d : ℕ}
    (hargs : ∀ r, ¬ P r → Spares syms P (args r)) (hcallee : SubSpares syms P callee)
    (hd : ¬ P d) : Spares syms P (compileMethodCall arity args callee d) := by
  refine (destinationOrTemporary_grants hd).bind fun result hresult => ?_
  refine getTemporary_grants.bind fun first hfirst => ?_
  refine (hargs first hfirst.1).bind fun last hlast => ?_
  refine (freeRegister_spares hlast).bind fun _ _ => ?_
  refine (hcallee 0 false hlow.1).bind fun f hf => ?_
  refine (addInstruction_spares (.call hf hresult)).bind fun _ _ => ?_
  exact (freeRegister_spares hf).bind fun _ _ => Emits.pure hresult.1

end

mutual

theorem compileExpression_forms (hs : Unnamed syms P) (hlow : ¬ P 0 ∧ ¬ P 1) :
    ∀ e : Expr, SubSpares syms P (compileExpression e)
  | .methodCall callee args => fun d _ hd => by
    rw [compileExpression]
    exact compileMethodCall_spares hlow (compileArguments_forms hs hlow args)
      (compileExpression_forms hs hlow callee) hd
  | .binary op left right => fun d _ hd => by
    rw [compileExpression]
    exact compileBinary_spares hlow hs (compileExpression_forms hs hlow left)
      (compileExpression_forms hs hlow right) (compileDotForSetField_forms hs hlow left) hd
  | .postfixed e op => fun d _ hd => by
    rw [compileExpression]
    exact compilePostfix_spares hlow hs (compileExpression_forms hs hlow e) hd
  | .prefixed op e => fun d _ hd => by
    rw [compileExpression]
    exact compilePrefix_spares hlow hs (compileExpression_forms hs hlow e) hd
  | .terminal t => fun d _ hd => by
    rw [compileExpression]
    exact compileTerminal_spares hlow hs hd
  | .empty => fun d _ _ => by
    rw [compileExpression]
    exact Emits.pure hlow.1

theorem compileDotForSetField_forms (hs : Unnamed syms P) (hlow : ¬ P 0 ∧ ¬ P 1) :
    ∀ (e : Expr) (r : ℕ), ¬ P r → SparesUnit syms P (compileDotForSetField e r)
  | .binary _ left right => fun r hr => by
    rw [compileDotForSetField]
    refine (compileExpression_forms hs hlow left 0 false hlow.1).bind fun a ha => ?_
    refine (compileExpression_forms hs hlow right 0 false hlow.1).bind fun b hb => ?_
    exact addInstruction_spares (.setField ha hb hr)
  | .terminal _ | .prefixed _ _ | .postfixed _ _ | .methodCall _ _ | .empty => fun r _ => by
    simp only [compileDotForSetField]
    exact Emits.pure trivial

theorem compileArguments_forms (hs : Unnamed syms P) (hlow : ¬ P 0 ∧ ¬ P 1) :
    ∀ (es : List Expr) (r : ℕ), ¬ P r → Spares syms P (compileArguments es r)
  | [] => fun r hr => by
    rw [compileArguments]
    exact Emits.pure hr
  | e :: es => fun r hr => by
    rw [compileArguments]
    refine (compileArguments_forms hs hlow es r hr).bind fun later hlater => ?_
    refine (compileExpression_forms hs hlow e later false hlater).bind fun reg hreg => ?_
    exact (addInstruction_spares (.push hreg)).bind fun _ _ => Emits.pure hreg

end

theorem compileExpression_spares (hv : SymbolsValid syms) (hlow : ¬ P 0 ∧ ¬ P 1) (e : Expr) (d : ℕ)
    (k : Bool) (hd : ¬ P d) :
    Emits (Protecting syms P) (Avoids P) (compileExpression e d k) fun r => ¬ P r := by
  intro fk r fk' c hfk hrun
  obtain ⟨hfk', hforms, hr⟩ := compileExpression_forms hv.unnamed hlow e d k hd fk r fk' c hfk hrun
  exact ⟨hfk', fun i hi => (hforms i hi).avoids, hr⟩

theorem compileArguments_spares (hv : SymbolsValid syms) (hlow : ¬ P 0 ∧ ¬ P 1) (es : List Expr)
    (d : ℕ) (hd : ¬ P d) :
    Emits (Protecting syms P) (Avoids P) (compileArguments es d) fun r => ¬ P r := by
  intro fk r fk' c hfk hrun
  obtain ⟨hfk', hforms, hr⟩ := compileArguments_forms hv.unnamed hlow es d hd fk r fk' c hfk hrun
  exact ⟨hfk', fun i hi => (hforms i hi).avoids, hr⟩

end Zeroscript.ProtectedRegisters
