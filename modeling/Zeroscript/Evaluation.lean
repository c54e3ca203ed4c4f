import Zeroscript.Ast
import Zeroscript.FrameMachine

/-! # The meaning of expressions

What an expression denotes, stated on the named registers and the surroundings only: no
temporaries, no requested destinations. Operands are evaluated left to right and arguments right to
left; an operand that is a local variable stands for the variable's content at the moment the
operator is applied. -/
namespace Zeroscript

section

variable {α ω : Type} [NumOps α]

def Store.ask (env : Environment α ω) (n : ℕ) (request : Request α) (st : Store α ω) :
    Option (Reg α × Store α ω) :=
  match env.answer request st with
  | some ⟨vars, stack, world, some v, .next⟩ => some (v, ⟨named n vars, stack, world⟩)
  | _ => none

def Store.tell (env : Environment α ω) (n : ℕ) (request : Request α) (st : Store α ω) :
    Option (Store α ω) :=
  match env.answer request st with
  | some ⟨vars, stack, world, _, .next⟩ => some ⟨named n vars, stack, world⟩
  | _ => none

def Store.set (st : Store α ω) (r : ℕ) (v : Reg α) : Store α ω :=
  { st with vars := Function.update st.vars r v }

def Store.push (st : Store α ω) (v : Reg α) : Store α ω := { st with stack := v :: st.stack }

abbrev Symbols := String → ℕ

def localReg (reg : Symbols) : Expr → Option ℕ
  | .terminal (.identifier x) => if reg x = 0 then none else some (reg x)
  | _ => none

/-- The content of an operand whose evaluation gave `v`, when the operator is applied. -/
def operandValue (reg : Symbols) (e : Expr) (v : Reg α) (st : Store α ω) : Reg α :=
  match localReg reg e with
  | some r => st.vars r
  | none => v

/-- The operator that a compound assignment applies. -/
def BinaryOp.compound : BinaryOp → Option BinaryOp
  | .addAssign => some .add
  | .subAssign => some .sub
  | .mulAssign => some .mul
  | .divAssign => some .div
  | .modAssign => some .mod
  | _ => none

def applyBinary (env : Environment α ω) (n : ℕ) (op : BinaryOp) (onThis : Bool) (a b : Reg α)
    (st : Store α ω) : Option (Reg α × Store α ω) :=
  match op with
  | .dot => st.ask env n (.getField onThis a b)
  | .add =>
    match arithmetic .ADD a b with
    | some v => some (v, st)
    | none => st.ask env n (.concat a b)
  | .sub => (arithmetic .SUB a b).map (·, st)
  | .mul => (arithmetic .MUL a b).map (·, st)
  | .div => (arithmetic .DIV a b).map (·, st)
  | .mod => (arithmetic .MOD a b).map (·, st)
  | .less => (arithmetic .CMP_LESS a b).map (·, st)
  | .lessOrEqual => (arithmetic .CMP_LESS_OR_EQUAL a b).map (·, st)
  | .greater => (arithmetic .CMP_GREATER a b).map (·, st)
  | .greaterOrEqual => (arithmetic .CMP_GREATER_OR_EQUAL a b).map (·, st)
  | .equal => (arithmetic .CMP_EQUAL a b).map (·, st)
  | .notEqual => (arithmetic .CMP_N_EQUAL a b).map (·, st)
  | _ => none

def step (increment : Bool) (v : Reg α) : Reg α :=
  { v with
    val := .num (if increment then NumOps.add v.number NumOps.one
      else NumOps.sub v.number NumOps.one) }

def assignOuter (env : Environment α ω) (n : ℕ) (x : String) (v : Reg α) (st : Store α ω) :
    Option (Store α ω) := do
  let (key, st₁) ← st.ask env n (.string x)
  st₁.tell env n (.setField true (st₁.vars 1) key v)

/-- An index that is a variable of an outer scope is looked up once more, through `this`. -/
def beforeIndex (env : Environment α ω) (n : ℕ) (reg : Symbols) (e : Expr) (st : Store α ω) :
    Option (Store α ω) :=
  match e with
  | .terminal (.identifier x) =>
    if reg x = 0 then do
      let (key, st₁) ← st.ask env n (.string x)
      st₁.tell env n (.getField true (st₁.vars 1) key)
    else some st
  | _ => some st

mutual

/-- `none` when the evaluation raises, does not come back, or yields no value. -/
def eval (env : Environment α ω) (n : ℕ) (reg : Symbols) :
    Expr → Store α ω → Option (Reg α × Store α ω)
  | .terminal (.number s), st => some (.ofNum (literal s), st)
  | .terminal (.string s), st => st.ask env n (.string s)
  | .terminal (.identifier x), st =>
    if reg x = 0 then st.ask env n (.lookup true (st.vars 1) x) else some (st.vars (reg x), st)
  | .prefixed .minus e, st => do
    let (v, st₁) ← eval env n reg e st
    let w := operandValue reg e v st₁
    return (.ofNum (NumOps.mul w.number (literal "-1")), st₁)
  | .prefixed .increment e, st => evalStep env n reg true true e st
  | .prefixed .decrement e, st => evalStep env n reg false true e st
  | .prefixed .throwing e, st => do
    let (v, st₁) ← eval env n reg e st
    st₁.ask env n (.throwing (operandValue reg e v st₁))
  | .prefixed _ _, _ => none
  | .postfixed e .increment, st => evalStep env n reg true false e st
  | .postfixed e .decrement, st => evalStep env n reg false false e st
  | .methodCall callee args, st => do
    let st₁ ← evalArguments env n reg args st
    let (f, st₂) ← eval env n reg callee st₁
    st₂.ask env n (.call (operandValue reg callee f st₂) args.length)
  | .binary .assign left right, st => evalAssign env n reg left (eval env n reg right) st
  | .binary op left right, st =>
    match op.compound with
    | some plain =>
      match localReg reg left with
      | some r => do
        let (b, st₁) ← eval env n reg right st
        let (v, st₂) ← applyBinary env n plain (r == 1) (st₁.vars r) (operandValue reg right b st₁) st₁
        return (v, st₂.set r v)
      | none => none
    | none => do
      let (a, st₁) ← eval env n reg left st
      let st₂ ← if op = .dot then beforeIndex env n reg right st₁ else some st₁
      let (b, st₃) ← eval env n reg right st₂
      applyBinary env n op (localReg reg left == some 1) (operandValue reg left a st₃)
        (operandValue reg right b st₃) st₃
  | .empty, _ => none

def evalAssign (env : Environment α ω) (n : ℕ) (reg : Symbols) :
    Expr → (Store α ω → Option (Reg α × Store α ω)) → Store α ω → Option (Reg α × Store α ω)
  | .terminal (.identifier x), value, st => do
    let (v, st₁) ← value st
    if reg x = 0 then
      let st₂ ← assignOuter env n x v st₁
      return (v, st₂)
    else return (v, st₁.set (reg x) v)
  | .binary .dot object key, value, st => do
    let (v, st₁) ← value st
    let (o, st₂) ← eval env n reg object st₁
    let (k, st₃) ← eval env n reg key st₂
    let st₄ ← st₃.tell env n (.setField (localReg reg object == some 1)
      (operandValue reg object o st₃) (operandValue reg key k st₃) v)
    return (v, st₄)
  | _, _, _ => none

/-- `++` and `--` on something assignable; the new value for the prefix form, else the old one. -/
def evalStep (env : Environment α ω) (n : ℕ) (reg : Symbols) (increment isPrefix : Bool) :
    Expr → Store α ω → Option (Reg α × Store α ω)
  | .terminal (.identifier x), st =>
    if reg x = 0 then do
      let (v, st₁) ← st.ask env n (.lookup true (st.vars 1) x)
      let st₂ ← assignOuter env n x (step increment v) st₁
      return (if isPrefix then step increment v else v, st₂)
    else
      let v := st.vars (reg x)
      some (if isPrefix then step increment v else v, st.set (reg x) (step increment v))
  | .binary .dot object key, st => do
    let (o, st₁) ← eval env n reg object st
    let (k, st₂) ← eval env n reg key st₁
    let onThis := localReg reg object == some 1
    let target := operandValue reg object o st₂
    let name := operandValue reg key k st₂
    let (v, st₃) ← st₂.ask env n (.getField onThis target name)
    let st₄ ← st₃.tell env n (.setField onThis target name (step increment v))
    return (if isPrefix then step increment v else v, st₄)
  | _, _ => none

def evalArguments (env : Environment α ω) (n : ℕ) (reg : Symbols) :
    List Expr → Store α ω → Option (Store α ω)
  | [], st => some st
  | e :: es, st => do
    let st₁ ← evalArguments env n reg es st
    let (v, st₂) ← eval env n reg e st₁
    return st₂.push v

end

theorem eval_variable {env : Environment α ω} {n : ℕ} {reg : Symbols} {e : Expr} {y : ℕ}
    {st : Store α ω} (h : localReg reg e = some y) : eval env n reg e st = some (st.vars y, st) := by
  unfold localReg at h
  split at h
  · split at h
    · cases h
    · rename_i hz
      cases h
      rw [eval, if_neg hz]
  · cases h

theorem operandValue_eval {env : Environment α ω} {n : ℕ} {reg : Symbols} {e : Expr}
    {st st' : Store α ω} {v : Reg α} (h : eval env n reg e st = some (v, st')) :
    operandValue reg e v st' = v := by
  unfold operandValue
  cases hl : localReg reg e with
  | some y =>
    rw [eval_variable hl] at h
    cases h
    rfl
  | none => rfl

end

end Zeroscript
