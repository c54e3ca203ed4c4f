import Zeroscript.LocalAssignment
import Zeroscript.NativeFunctions

/-! # Trees of operators on numbers and strings

What a tree of literals, local variables and operators denotes over exact numbers, and that its code
computes it: the temporaries that the register table hands out again, and a destination that occurs in
the tree, do no harm. -/
namespace Zeroscript.TreeValues

open Emission ProtectedRegisters ExpressionInversion PlainExpressions
open LocalAssignment (sampleSymbols sampleFunction sampleFunction_ready sampleSymbols_valid)

inductive Value where
  | number (x : ℚ)
  | text (s : String)
  deriving DecidableEq

def Value.print : Value → String
  | .number x => numToStr x
  | .text s => s

inductive Outcome where
  | value (v : Value)
  | divideByZero
  deriving DecidableEq

def Outcome.number (x : ℚ) : Outcome := .value (.number x)

def Outcome.truth (p : Bool) : Outcome := .number (if p then 1 else 0)

def calculate : BinaryOp → ℚ → ℚ → Option Outcome
  | .add, a, b => some (.number (a + b))
  | .sub, a, b => some (.number (a - b))
  | .mul, a, b => some (.number (a * b))
  | .div, a, b => some (if b = 0 then .divideByZero else .number (a / b))
  | .mod, a, b => if b = 0 then none else some (.number (a - b * truncate (a / b)))
  | .less, a, b => some (.truth (decide (a < b)))
  | .lessOrEqual, a, b => some (.truth (decide (a ≤ b)))
  | .greater, a, b => some (.truth (decide (b < a)))
  | .greaterOrEqual, a, b => some (.truth (decide (b ≤ a)))
  | .equal, a, b => some (.truth (decide (a = b)))
  | .notEqual, a, b => some (.truth (!decide (a = b)))
  | _, _, _ => none

def combine (op : BinaryOp) : Value → Value → Option Outcome
  | .number a, .number b => calculate op a b
  | a, b => if op = .add then some (.value (.text (a.print ++ b.print))) else none

/-- `none` outside the domain: a variable that holds neither, or operands that an operator is not for. -/
def treeValue (vars : String → Option Value) : Expr → Option Outcome
  | .terminal (.number data) => some (.number (literal data))
  | .terminal (.string data) => some (.value (.text data))
  | .terminal (.identifier x) => (vars x).map .value
  | .binary op left right =>
    match treeValue vars left with
    | some (.value a) =>
      match treeValue vars right with
      | some (.value b) => combine op a b
      | outcome => outcome
    | outcome => outcome
  | _ => none

def isTree (reg : Symbols) : Expr → Bool
  | .terminal (.identifier x) => reg x != 0
  | .terminal _ => true
  | .binary op left right =>
    (toOpcode op).isSome && op != .dot && isTree reg left && isTree reg right
  | _ => false

theorem treeValue_mono {vars vars' : String → Option Value}
    (h : ∀ x v, vars x = some v → vars' x = some v) :
    ∀ (e : Expr) {o : Outcome}, treeValue vars e = some o → treeValue vars' e = some o
  | .terminal (.number _), _, ho => ho
  | .terminal (.string _), _, ho => ho
  | .terminal (.identifier x), o, ho => by
    rw [treeValue] at ho ⊢
    obtain ⟨v, hv, rfl⟩ := Option.map_eq_some_iff.mp ho
    rw [h x v hv]
    rfl
  | .binary op left right, o, ho => by
    rw [treeValue] at ho ⊢
    cases hleft : treeValue vars left with
    | none =>
      rw [hleft] at ho
      cases ho
    | some a =>
      rw [hleft] at ho
      rw [treeValue_mono h left hleft]
      cases a with
      | divideByZero => exact ho
      | value a =>
        cases hright : treeValue vars right with
        | none =>
          rw [hright] at ho
          cases ho
        | some b =>
          rw [hright] at ho
          rw [treeValue_mono h right hright]
          exact ho
  | .prefixed _ _, _, ho => by simp [treeValue] at ho
  | .postfixed _ _, _, ho => by simp [treeValue] at ho
  | .methodCall _ _, _, ho => by simp [treeValue] at ho
  | .empty, _, ho => by simp [treeValue] at ho

theorem treeValue_binary {vars : String → Option Value} {op : BinaryOp} {left right : Expr} {v : Value}
    (h : treeValue vars (.binary op left right) = some (.value v)) :
    ∃ a b, treeValue vars left = some (.value a) ∧ treeValue vars right = some (.value b) ∧
      combine op a b = some (.value v) := by
  rw [treeValue] at h
  split at h
  · rename_i a hleft
    split at h
    · rename_i b hright
      exact ⟨a, b, hleft, hright, h⟩
    · rename_i hnone
      exact absurd h (hnone v)
  · rename_i hnone
    exact absurd h (hnone v)

theorem treeValue_zero {vars : String → Option Value} {op : BinaryOp} {left right : Expr}
    (h : treeValue vars (.binary op left right) = some .divideByZero) :
    treeValue vars left = some .divideByZero ∨ ∃ a, treeValue vars left = some (.value a) ∧
      (treeValue vars right = some .divideByZero ∨ ∃ b, treeValue vars right = some (.value b) ∧
        combine op a b = some .divideByZero) := by
  rw [treeValue] at h
  split at h
  · rename_i a hleft
    split at h
    · rename_i b hright
      exact .inr ⟨a, hleft, .inr ⟨b, hright, h⟩⟩
    · exact .inr ⟨a, hleft, .inl h⟩
  · exact .inl h

theorem combine_zero {op : BinaryOp} {a b : Value} (h : combine op a b = some .divideByZero) :
    op = .div ∧ b = .number 0 := by
  unfold combine at h
  split at h
  · unfold calculate at h
    split at h
    case h_4 =>
      split at h
      · rename_i hzero
        exact ⟨rfl, by rw [hzero]⟩
      · cases h
    case h_5 => split at h <;> cases h
    all_goals cases h
  · split at h <;> cases h

theorem isTree_plain {reg : Symbols} : ∀ (flag : Bool) (e : Expr), isTree reg e = true → plain reg flag e = true
  | _, .terminal _, _ => by rw [plain]
  | _, .binary op left right, h => by
    rw [isTree, Bool.and_eq_true, Bool.and_eq_true, Bool.and_eq_true] at h
    obtain ⟨⟨⟨hop, -⟩, hleft⟩, hright⟩ := h
    rw [plain, hasResult, hop, isTree_plain false left hleft, isTree_plain false right hright]
    rfl
  | _, .prefixed _ _, h => by simp [isTree] at h
  | _, .postfixed _ _, h => by simp [isTree] at h
  | _, .methodCall _ _, h => by simp [isTree] at h
  | _, .empty, h => by simp [isTree] at h

/-- The data of the interpreter, and the exception that has left the frame. -/
structure Surroundings where
  data : Data ℚ
  thrown : Option String := none

/-- The requests of trees, answered as `effectOther` does. -/
def interpreter : Environment ℚ Surroundings where
  answer
    | .string text, st =>
      let (data, value) := st.world.data.newReg .str (.string text 0)
      some ⟨st.vars, st.stack, { st.world with data := data }, some value, .next⟩
    | .concat a b, st => do
      let text := (← st.world.data.toText a) ++ (← st.world.data.toText b)
      let (data, value) := st.world.data.newReg .str (.string text 0)
      return ⟨st.vars, st.stack, { st.world with data := data }, some value, .next⟩
    | .divideByZero, st =>
      some ⟨st.vars, st.stack, { st.world with thrown := some "divide by 0" }, none, .leave⟩
    | _, _ => none

/-- A number, or a string of the heap. -/
def valueOf (d : Data ℚ) (r : Reg ℚ) : Option Value :=
  match r.type with
  | .number => some (.number r.number)
  | .str =>
    match d.object r with
    | some (.string s _) => some (.text s)
    | _ => none
  | _ => none

theorem valueOf_number (d : Data ℚ) (x : ℚ) : valueOf d (.ofNum x) = some (.number x) := rfl

theorem valueOf_eq_number {d : Data ℚ} {r : Reg ℚ} {x : ℚ} (h : valueOf d r = some (.number x)) :
    r.type = .number ∧ r.number = x := by
  unfold valueOf at h
  split at h
  · rename_i htype
    cases h
    exact ⟨htype, rfl⟩
  · split at h
    · cases h
    · cases h
  · cases h

theorem valueOf_eq_text {d : Data ℚ} {r : Reg ℚ} {s : String} (h : valueOf d r = some (.text s)) :
    r.type = .str ∧ ∃ cache, d.object r = some (.string s cache) := by
  unfold valueOf at h
  split at h
  · cases h
  · rename_i htype
    split at h
    · rename_i cache hobject
      cases h
      exact ⟨htype, cache, hobject⟩
    · cases h
  · cases h

theorem toText_valueOf {d : Data ℚ} {r : Reg ℚ} {v : Value} (h : valueOf d r = some v) :
    d.toText r = some v.print := by
  cases v with
  | number x =>
    obtain ⟨htype, hnumber⟩ := valueOf_eq_number h
    unfold Data.toText
    rw [htype]
    simp only [hnumber]
    rfl
  | text s =>
    obtain ⟨htype, cache, hobject⟩ := valueOf_eq_text h
    unfold Data.toText
    rw [htype]
    simp only [hobject]
    rfl

def Grown (w w' : Surroundings) : Prop := w.data.objects <+: w'.data.objects

theorem Grown.object {w w' : Surroundings} (h : Grown w w') {r : Reg ℚ} {o : Object ℚ}
    (ho : w.data.object r = some o) : w'.data.object r = some o := by
  obtain ⟨more, hmore⟩ := h
  unfold Data.object at ho ⊢
  split at ho
  · rename_i address _
    rw [← hmore]
    exact (List.getElem?_append_left (List.getElem?_eq_some_iff.mp ho).1).trans ho
  · cases ho

theorem Grown.value {w w' : Surroundings} (h : Grown w w') {r : Reg ℚ} {v : Value}
    (hv : valueOf w.data r = some v) : valueOf w'.data r = some v := by
  cases v with
  | number x =>
    obtain ⟨htype, hnumber⟩ := valueOf_eq_number hv
    unfold valueOf
    rw [htype]
    simp only [hnumber]
  | text s =>
    obtain ⟨htype, cache, hobject⟩ := valueOf_eq_text hv
    unfold valueOf
    rw [htype]
    simp only [h.object hobject]

theorem newReg_value (d : Data ℚ) (s : String) :
    valueOf (d.newReg .str (.string s 0)).1 (d.newReg .str (.string s 0)).2 = some (.text s) := by
  unfold valueOf Data.newReg Data.alloc Data.object
  simp

section

variable {syms : List (String × ℕ)}

def localValues (syms : List (String × ℕ)) (st : Store ℚ Surroundings) (x : String) : Option Value :=
  if symbolsOf syms x = 0 then none else valueOf st.world.data (st.vars (symbolsOf syms x))

/-- A tree is evaluated without changing a variable or an object. -/
structure Follows (syms : List (String × ℕ)) (st st' : Store ℚ Surroundings) : Prop where
  vars : ∀ t, 1 ≤ t → t ≤ syms.length → st'.vars t = st.vars t
  grown : Grown st.world st'.world

theorem Follows.refl (st : Store ℚ Surroundings) : Follows syms st st :=
  ⟨fun _ _ _ => rfl, List.prefix_refl _⟩

theorem Follows.trans {st₁ st₂ st₃ : Store ℚ Surroundings} (h : Follows syms st₁ st₂)
    (h' : Follows syms st₂ st₃) : Follows syms st₁ st₃ :=
  ⟨fun t h1 hle => (h'.vars t h1 hle).trans (h.vars t h1 hle), h.grown.trans h'.grown⟩

theorem symbol_bound (hv : SymbolsValid syms) {x : String} (h : symbolsOf syms x ≠ 0) :
    1 ≤ symbolsOf syms x ∧ symbolsOf syms x ≤ syms.length :=
  localReg_bound hv (e := .ident x) (by simp [localReg, h])

theorem Follows.localValues (hv : SymbolsValid syms) {st st' : Store ℚ Surroundings}
    (h : Follows syms st st') (x : String) (v : Value) (hx : localValues syms st x = some v) :
    localValues syms st' x = some v := by
  unfold TreeValues.localValues at hx ⊢
  split at hx
  · cases hx
  · rename_i hne
    obtain ⟨h1, hle⟩ := symbol_bound hv hne
    rw [if_neg hne, h.vars _ h1 hle]
    exact h.grown.value hx

theorem ask_string (st : Store ℚ Surroundings) (s : String) :
    ∃ v st', st.ask interpreter syms.length (.string s) = some (v, st') ∧ Follows syms st st' ∧
      valueOf st'.world.data v = some (.text s) := by
  refine ⟨_, _, rfl, ⟨?_, ?_⟩, newReg_value st.world.data s⟩
  · intro t h1 hle
    exact if_pos ⟨h1, hle⟩
  · exact List.prefix_append _ _

theorem ask_concat {st : Store ℚ Surroundings} {a b : Reg ℚ} {v w : Value}
    (ha : valueOf st.world.data a = some v) (hb : valueOf st.world.data b = some w) :
    ∃ r st', st.ask interpreter syms.length (.concat a b) = some (r, st') ∧ Follows syms st st' ∧
      valueOf st'.world.data r = some (.text (v.print ++ w.print)) := by
  unfold Store.ask interpreter
  simp only [toText_valueOf ha, toText_valueOf hb]
  refine ⟨_, _, rfl, ⟨?_, ?_⟩, newReg_value st.world.data (v.print ++ w.print)⟩
  · intro t h1 hle
    exact if_pos ⟨h1, hle⟩
  · exact List.prefix_append _ _

theorem applyBinary_numbers {op : BinaryOp} (onThis : Bool) {a b : Reg ℚ} {x y : ℚ} {v : Value}
    {st : Store ℚ Surroundings} (hx : a.type = .number ∧ a.number = x)
    (hy : b.type = .number ∧ b.number = y) (h : calculate op x y = some (.value v)) :
    ∃ r, applyBinary interpreter syms.length op onThis a b st = some (r, st) ∧
      valueOf st.world.data r = some v := by
  obtain ⟨hatype, rfl⟩ := hx
  obtain ⟨hbtype, rfl⟩ := hy
  cases op with
  | add =>
    cases h
    refine ⟨_, ?_, valueOf_number _ (a.number + b.number)⟩
    simp only [applyBinary, arithmetic, hatype, hbtype, and_self, if_true]
    rfl
  | sub | mul | less | lessOrEqual | greater | greaterOrEqual | equal | notEqual =>
    cases h
    exact ⟨_, rfl, rfl⟩
  | div =>
    simp only [calculate] at h
    split at h
    · cases h
    · rename_i hzero
      cases h
      have hne : NumOps.eq b.number NumOps.zero = false := decide_eq_false hzero
      refine ⟨_, ?_, valueOf_number _ (a.number / b.number)⟩
      simp only [applyBinary, arithmetic, hne, Bool.false_eq_true, if_false, Option.map_some]
      rfl
  | mod =>
    simp only [calculate] at h
    split at h
    · cases h
    · cases h
      refine ⟨_, ?_, valueOf_number _ (a.number - b.number * truncate (a.number / b.number))⟩
      simp only [applyBinary, arithmetic, hatype, if_true, Option.map_some]
      rfl
  | _ => cases h

theorem applyBinary_combine {op : BinaryOp} (onThis : Bool) {a b : Reg ℚ} {x y v : Value}
    {st : Store ℚ Surroundings} (hx : valueOf st.world.data a = some x)
    (hy : valueOf st.world.data b = some y) (h : combine op x y = some (.value v)) :
    ∃ r st', applyBinary interpreter syms.length op onThis a b st = some (r, st') ∧
      Follows syms st st' ∧ valueOf st'.world.data r = some v := by
  have hconcat : (a.type ≠ .number ∨ b.type ≠ .number) → op = .add →
      v = .text (x.print ++ y.print) → ∃ r st',
        applyBinary interpreter syms.length op onThis a b st = some (r, st') ∧ Follows syms st st' ∧
          valueOf st'.world.data r = some v := by
    intro htypes hop hvalue
    subst hop hvalue
    have hnumbers : ¬ (a.type = .number ∧ b.type = .number) := by tauto
    simp only [applyBinary, arithmetic, if_neg hnumbers]
    exact ask_concat hx hy
  cases x with
  | number x =>
    cases y with
    | number y =>
      obtain ⟨r, hr, hvalue⟩ :=
        applyBinary_numbers onThis (valueOf_eq_number hx) (valueOf_eq_number hy) h
      exact ⟨r, st, hr, Follows.refl st, hvalue⟩
    | text s =>
      unfold combine at h
      simp only at h
      split at h
      · rename_i hop
        cases h
        exact hconcat (.inr (by simp [(valueOf_eq_text hy).1])) hop rfl
      · cases h
  | text s =>
    unfold combine at h
    simp only at h
    split at h
    · rename_i hop
      cases h
      exact hconcat (.inl (by simp [(valueOf_eq_text hx).1])) hop rfl
    · cases h

theorem operandValue_follows (hv : SymbolsValid syms) {e : Expr} {v : Reg ℚ} {w : Value}
    {st st' : Store ℚ Surroundings} (h : Follows syms st st')
    (hw : valueOf st.world.data (operandValue (symbolsOf syms) e v st) = some w) :
    valueOf st'.world.data (operandValue (symbolsOf syms) e v st') = some w := by
  unfold operandValue at hw ⊢
  cases hl : localReg (symbolsOf syms) e with
  | none =>
    rw [hl] at hw
    exact h.grown.value hw
  | some t =>
    rw [hl] at hw
    obtain ⟨h1, hle⟩ := localReg_bound hv hl
    simp only [h.vars t h1 hle]
    exact h.grown.value hw

theorem eval_tree (hv : SymbolsValid syms) : ∀ (e : Expr) (st : Store ℚ Surroundings) {v : Value},
    isTree (symbolsOf syms) e = true → treeValue (localValues syms st) e = some (.value v) →
    ∃ r st', eval interpreter syms.length (symbolsOf syms) e st = some (r, st') ∧
      Follows syms st st' ∧ valueOf st'.world.data (operandValue (symbolsOf syms) e r st') = some v
  | .terminal (.number data), st, v, _, h => by
    cases h
    exact ⟨.ofNum (literal data), st, by rw [eval], Follows.refl st, rfl⟩
  | .terminal (.string data), st, v, _, h => by
    cases h
    rw [eval]
    exact ask_string st data
  | .terminal (.identifier x), st, v, htree, h => by
    have hx : symbolsOf syms x ≠ 0 := by simpa [isTree] using htree
    obtain ⟨w, hw, heq⟩ := Option.map_eq_some_iff.mp h
    cases heq
    rw [localValues, if_neg hx] at hw
    refine ⟨st.vars (symbolsOf syms x), st, ?_, Follows.refl st, ?_⟩
    · rw [eval, if_neg hx]
    · simpa [operandValue, localReg, hx] using hw
  | .binary op left right, st, v, htree, h => by
    rw [isTree, Bool.and_eq_true, Bool.and_eq_true, Bool.and_eq_true] at htree
    obtain ⟨⟨⟨hop, hdot⟩, hleft⟩, hright⟩ := htree
    obtain ⟨opcode, hop⟩ := Option.isSome_iff_exists.mp hop
    obtain ⟨a, b, ha, hb, hcombine⟩ := treeValue_binary h
    obtain ⟨ra, st₁, heval₁, hfollows₁, hvalue₁⟩ := eval_tree hv left st hleft ha
    have hb₁ := treeValue_mono (hfollows₁.localValues hv) right hb
    obtain ⟨rb, st₂, heval₂, hfollows₂, hvalue₂⟩ := eval_tree hv right st₁ hright hb₁
    have hkept := operandValue_follows hv hfollows₂ hvalue₁
    obtain ⟨r, st₃, happly, hfollows₃, hvalue⟩ :=
      applyBinary_combine (localReg (symbolsOf syms) left == some 1) hkept hvalue₂ hcombine
    have hprepare : prepare interpreter syms.length (symbolsOf syms) (decide (op = .dot)) right st₁ =
        some st₁ := by
      have hne : op ≠ .dot := by simpa using hdot
      rw [decide_eq_false hne]
      rfl
    refine ⟨r, st₃, ?_, (hfollows₁.trans hfollows₂).trans hfollows₃, hvalue⟩
    rw [eval_binary hop, heval₁, Option.bind_some]
    simp only
    rw [hprepare, Option.bind_some, heval₂, Option.bind_some]
    exact happly
  | .prefixed _ _, _, _, htree, _ => by simp [isTree] at htree
  | .postfixed _ _, _, _, htree, _ => by simp [isTree] at htree
  | .methodCall _ _, _, _, htree, _ => by simp [isTree] at htree
  | .empty, _, _, htree, _ => by simp [isTree] at htree

theorem destinationOrTemporary_some {fk : FunctionKind} (hfk : Ready syms fk) (d : ℕ) :
    ∃ r fk', destinationOrTemporary d fk = .ok (r, fk', []) := by
  unfold destinationOrTemporary
  split
  · obtain ⟨r, fk', hget, -⟩ := FunctionKind.getTemporary_handed hfk.wellFormed
    exact ⟨r, fk', by unfold Zeroscript.getTemporary; rw [hget]⟩
  · exact ⟨d, fk, rfl⟩

theorem compileLiteral_some {fk : FunctionKind} (hfk : Ready syms fk) (opcode : Opcode) (data : String)
    (d : ℕ) : ∃ result, compileLiteral opcode data d fk = .ok result := by
  obtain ⟨r, fk', hdest⟩ := destinationOrTemporary_some hfk d
  unfold compileLiteral
  exact bind_succeeds hdest (bind_succeeds rfl ⟨_, rfl⟩)

theorem compile_tree (hv : SymbolsValid syms) : ∀ (e : Expr) (d : ℕ) (fk : FunctionKind),
    isTree (symbolsOf syms) e = true → Ready syms fk →
    ∃ result, compileExpression e d false fk = .ok result
  | .terminal (.number data), d, fk, _, hfk => by
    rw [compileExpression]
    exact compileLiteral_some hfk .MOV_NUMBER data d
  | .terminal (.string data), d, fk, _, hfk => by
    rw [compileExpression]
    exact compileLiteral_some hfk .MOV_STR data d
  | .terminal (.identifier x), d, fk, htree, hfk => by
    have hx : symbolsOf syms x ≠ 0 := by simpa [isTree] using htree
    refine ⟨(symbolsOf syms x, fk, []), ?_⟩
    rw [compileExpression]
    change compileIdentifierImmediate x d fk = _
    unfold compileIdentifierImmediate
    rw [bind_ok]
    refine ⟨_, fk, [], [], rfl, ?_, rfl⟩
    rw [hfk.getRegister, if_neg hx]
    rfl
  | .binary op left right, d, fk, htree, hfk => by
    rw [isTree, Bool.and_eq_true, Bool.and_eq_true, Bool.and_eq_true] at htree
    obtain ⟨⟨⟨hop, hdot⟩, hleft⟩, hright⟩ := htree
    obtain ⟨opcode, hop⟩ := Option.isSome_iff_exists.mp hop
    obtain ⟨⟨a, fk₁, c₁⟩, h₁⟩ := compile_tree hv left 0 fk hleft hfk
    have ready₁ := compileExpression_ready hv hfk h₁
    obtain ⟨⟨b, fk₂, c₂⟩, h₂⟩ := compile_tree hv right 0 fk₁ hright ready₁
    have ready₂ := compileExpression_ready hv ready₁ h₂
    obtain ⟨r, fk₃, h₃⟩ := destinationOrTemporary_some ready₂ d
    have hdot : op ≠ .dot := by simpa using hdot
    have hassign : op ≠ .assign := by
      rintro rfl
      cases hop
    have hfree : freeRegisterIf (b ≠ r) b fk₃ = .ok ((), if b ≠ r then fk₃.freeRegister b else fk₃, []) := by
      unfold freeRegisterIf
      split <;> rfl
    have hright : compileExpression right 0 (decide (op = .dot)) fk₁ = .ok (b, fk₂, c₂) := by
      rw [decide_eq_false hdot]
      exact h₂
    rw [compileExpression_operands hop]
    unfold compileOperands addOperation
    simp only [if_neg hassign, hop]
    apply bind_succeeds h₁
    apply bind_succeeds hright
    apply bind_succeeds h₃
    exact bind_succeeds rfl (bind_succeeds hfree (bind_succeeds rfl ⟨_, rfl⟩))
  | .prefixed _ _, _, _, htree, _ => by simp [isTree] at htree
  | .postfixed _ _, _, _, htree, _ => by simp [isTree] at htree
  | .methodCall _ _, _, _, htree, _ => by simp [isTree] at htree
  | .empty, _, _, htree, _ => by simp [isTree] at htree

def leaves (n : ℕ) : Code → Frame ℚ Surroundings → Option (Frame ℚ Surroundings)
  | [], _ => none
  | i :: code, f =>
    match exec interpreter n i f with
    | some (f', .next) => leaves n code f'
    | some (f', .leave) => some f'
    | _ => none

theorem leaves_append_left {n : ℕ} {c₁ : Code} (c₂ : Code) {f f' : Frame ℚ Surroundings}
    (h : leaves n c₁ f = some f') : leaves n (c₁ ++ c₂) f = some f' := by
  induction c₁ generalizing f with
  | nil => cases h
  | cons i c₁ ih =>
    rw [List.cons_append, leaves]
    rw [leaves] at h
    split at h
    · exact ih h
    · exact h
    · cases h

theorem leaves_append_right {n : ℕ} {c₁ c₂ : Code} {f f₁ f' : Frame ℚ Surroundings}
    (h₁ : execAll interpreter n c₁ f = some f₁) (h₂ : leaves n c₂ f₁ = some f') :
    leaves n (c₁ ++ c₂) f = some f' := by
  induction c₁ generalizing f with
  | nil =>
    cases h₁
    exact h₂
  | cons i c₁ ih =>
    rw [execAll] at h₁
    rw [List.cons_append, leaves]
    split at h₁
    · rename_i hexec
      rw [hexec]
      exact ih h₁
    · cases h₁

theorem leaves_unwritten {n : ℕ} {code : Code} {f f' : Frame ℚ Surroundings}
    (h : leaves n code f = some f') {t : ℕ} (hn : n < t) (ht : ∀ i ∈ code, t ∉ i.writes) :
    f'.regs t = f.regs t := by
  induction code generalizing f with
  | nil => cases h
  | cons i code ih =>
    rw [leaves] at h
    split at h
    · rename_i hexec
      have hfirst := exec_unwritten hexec hn (ht i List.mem_cons_self)
      exact (ih h fun j hj => ht j (List.mem_cons_of_mem i hj)).trans hfirst
    · rename_i hexec
      cases h
      exact exec_unwritten hexec hn (ht i List.mem_cons_self)
    · cases h

theorem Computed.world {e : Expr} {r : ℕ} {v : Reg ℚ} {st : Store ℚ Surroundings}
    {f' : Frame ℚ Surroundings} (h : Computed syms.length (symbolsOf syms) e r v st f') :
    f'.world = st.world := by
  have hworld := congrArg Store.world h.store
  unfold deliver at hworld
  split at hworld
  · exact hworld
  · split at hworld <;> exact hworld

theorem run_tree (hv : SymbolsValid syms) {e : Expr} (htree : isTree (symbolsOf syms) e = true)
    {d r : ℕ} {fk fk' : FunctionKind} {c : Code} (hfk : Ready syms fk)
    (hcompile : compileExpression e d false fk = .ok (r, fk', c)) {f : Frame ℚ Surroundings} {v : Value}
    (hvalue : treeValue (localValues syms (f.store syms.length)) e = some (.value v)) :
    Placed syms e d r fk' ∧ ∃ f' rv st', execAll interpreter syms.length c f = some f' ∧
      Computed syms.length (symbolsOf syms) e r rv st' f' ∧ Follows syms (f.store syms.length) st' ∧
      valueOf f'.world.data (f'.regs r) = some v := by
  have hcorrect : Correct interpreter syms false e := plain_correct hv false e (isTree_plain false e htree)
  obtain ⟨hplaced, hrun⟩ := hcorrect d false fk r fk' c hfk (by simp) (by simp) hcompile
  obtain ⟨rv, st', heval, hfollows, hval⟩ := eval_tree hv e _ htree hvalue
  obtain ⟨f', hexec, hcomputed⟩ := hrun f _ rv st' rfl heval
  refine ⟨hplaced, f', rv, st', hexec, hcomputed, hfollows, ?_⟩
  rw [hcomputed.value, Computed.world hcomputed]
  exact hval

theorem leaves_division {n a b r : ℕ} {f : Frame ℚ Surroundings} (h : (f.regs b).number = 0) :
    ∃ f', leaves n [⟨.DIV, .num a, .num b, .num r⟩] f = some f' ∧
      f'.world.thrown = some "divide by 0" := by
  have hzero : NumOps.eq (f.regs b).number NumOps.zero = true := decide_eq_true h
  have hlocal : execLocal ⟨.DIV, .num a, .num b, .num r⟩ f.regs = none := by
    simp [execLocal, Opcode.jumpRel, Opcode.immediateRel, arithmetic, Operand.reg, hzero]
  have hexec : exec interpreter n ⟨.DIV, .num a, .num b, .num r⟩ f = _ := exec_request hlocal (by simp) rfl
  rw [leaves, hexec]
  exact ⟨_, rfl, rfl⟩

theorem leaves_tree (hv : SymbolsValid syms) : ∀ (e : Expr) {d r : ℕ} {fk fk' : FunctionKind} {c : Code},
    isTree (symbolsOf syms) e = true → Ready syms fk →
    compileExpression e d false fk = .ok (r, fk', c) → ∀ f : Frame ℚ Surroundings,
      treeValue (localValues syms (f.store syms.length)) e = some .divideByZero →
      ∃ f', leaves syms.length c f = some f' ∧ f'.world.thrown = some "divide by 0"
  | .terminal (.number _), _, _, _, _, _, _, _, _, _, h => by cases h
  | .terminal (.string _), _, _, _, _, _, _, _, _, _, h => by cases h
  | .terminal (.identifier _), _, _, _, _, _, _, _, _, _, h => by
    obtain ⟨_, -, heq⟩ := Option.map_eq_some_iff.mp h
    cases heq
  | .binary op left right, d, r, fk, fk', c, htree, hfk, hcompile, f, h => by
    rw [isTree, Bool.and_eq_true, Bool.and_eq_true, Bool.and_eq_true] at htree
    obtain ⟨⟨⟨hop, hdot⟩, hleft⟩, hright⟩ := htree
    obtain ⟨opcode, hop⟩ := Option.isSome_iff_exists.mp hop
    have hne : op ≠ .dot := by simpa using hdot
    rw [compileExpression_operands hop] at hcompile
    obtain ⟨a, fk₁, c₁, b, fk₂, c₂, fk₃, c₃, h₁, h₂, h₃, -, rfl⟩ := compileOperands_ok hop hcompile
    rw [decide_eq_false hne] at h₂
    have ready₁ := compileExpression_ready hv hfk h₁
    have ready₂ := compileExpression_ready hv ready₁ h₂
    obtain rfl := (destinationOrTemporary_destination ready₂ h₃).silent
    rcases treeValue_zero h with hzero | ⟨va, ha, hrest⟩
    · obtain ⟨f', hleaves, hthrown⟩ := leaves_tree hv left hleft hfk h₁ f hzero
      exact ⟨f', leaves_append_left _ hleaves, hthrown⟩
    · obtain ⟨hplaced₁, f₁, ra, st₁, hrun₁, hcomputed₁, hfollows₁, hvalue₁⟩ := run_tree hv hleft hfk h₁ ha
      rw [← hcomputed₁.store_operand hplaced₁] at hfollows₁
      have hmono := fun o => treeValue_mono (o := o) (hfollows₁.localValues hv) right
      rcases hrest with hzero | ⟨vb, hb, hcombine⟩
      · obtain ⟨f', hleaves, hthrown⟩ := leaves_tree hv right hright ready₁ h₂ f₁ (hmono _ hzero)
        exact ⟨f', leaves_append_right hrun₁ (leaves_append_left _ hleaves), hthrown⟩
      · obtain ⟨-, f₂, rb, st₂, hrun₂, -, -, hvalue₂⟩ := run_tree hv hright ready₁ h₂ (hmono _ hb)
        obtain ⟨rfl, hzero⟩ := combine_zero hcombine
        cases hop
        rw [hzero] at hvalue₂
        obtain ⟨-, hnumber⟩ := valueOf_eq_number hvalue₂
        obtain ⟨f', hleaves, hthrown⟩ := leaves_division (n := syms.length) (a := a) (r := r) hnumber
        exact ⟨f', leaves_append_right hrun₁ (leaves_append_right hrun₂ hleaves), hthrown⟩
  | .prefixed _ _, _, _, _, _, _, htree, _, _, _, _ => by simp [isTree] at htree
  | .postfixed _ _, _, _, _, _, _, htree, _, _, _, _ => by simp [isTree] at htree
  | .methodCall _ _, _, _, _, _, _, htree, _, _, _, _ => by simp [isTree] at htree
  | .empty, _, _, _, _, _, htree, _, _, _, _ => by simp [isTree] at htree

def Kept (fk : FunctionKind) (d : ℕ) (f f' : Frame ℚ Surroundings) : Prop :=
  ∀ t, fk.InUse t → t ≠ d → f'.regs t = f.regs t

theorem compile_unwritten (hv : SymbolsValid syms) {e : Expr} {d r : ℕ} {fk fk' : FunctionKind}
    {c : Code} (hfk : Ready syms fk) (hcompile : compileExpression e d false fk = .ok (r, fk', c))
    {t : ℕ} (ht : fk.InUse t) (hne : t ≠ d) : syms.length < t ∧ ∀ i ∈ c, t ∉ i.writes := by
  have hprotecting := hfk.protecting ht
  have hlow := low_spared hv hprotecting
  have havoids := (compileExpression_spares hv hlow e d false (fun heq => hne heq.symm) fk r fk' c
    hprotecting hcompile).2.1
  exact ⟨hprotecting.above rfl, fun i hi hmem => havoids i hi t (List.mem_append_right _ hmem) rfl⟩

/-- What the code of a tree does in a frame, for the outcome that the tree denotes. -/
def Computes (fk : FunctionKind) (n : ℕ) (c : Code) (d r : ℕ) (f : Frame ℚ Surroundings) :
    Option Outcome → Prop
  | some (.value v) => ∃ f', execAll interpreter n c f = some f' ∧
      valueOf f'.world.data (f'.regs r) = some v ∧ Kept fk d f f'
  | some .divideByZero => ∃ f', leaves n c f = some f' ∧ f'.world.thrown = some "divide by 0" ∧
      Kept fk d f f'
  | none => True

/-- The code of every tree computes what the tree denotes, from every frame and for every requested
destination. -/
theorem tree_computed (hv : SymbolsValid syms) {fk : FunctionKind} (hfk : Ready syms fk) {e : Expr}
    (htree : isTree (symbolsOf syms) e = true) (d : ℕ) :
    ∃ r fk' c, compileExpression e d false fk = .ok (r, fk', c) ∧ ∀ f : Frame ℚ Surroundings,
      Computes fk syms.length c d r f (treeValue (localValues syms (f.store syms.length)) e) := by
  obtain ⟨⟨r, fk', c⟩, hcompile⟩ := compile_tree hv e d fk htree hfk
  refine ⟨r, fk', c, hcompile, ?_⟩
  intro f
  have hkept := fun t ht hne => compile_unwritten hv hfk hcompile (t := t) ht hne
  cases hvalue : treeValue (localValues syms (f.store syms.length)) e with
  | none => exact trivial
  | some outcome =>
    cases outcome with
    | value v =>
      obtain ⟨-, f', rv, st', hrun, -, -, hvalue⟩ := run_tree hv htree hfk hcompile hvalue
      refine ⟨f', hrun, hvalue, ?_⟩
      intro t ht hne
      exact execAll_unwritten hrun (hkept t ht hne).1 (hkept t ht hne).2
    | divideByZero =>
      obtain ⟨f', hleaves, hthrown⟩ := leaves_tree hv e htree hfk hcompile f hvalue
      refine ⟨f', hleaves, hthrown, ?_⟩
      intro t ht hne
      exact leaves_unwritten hleaves (hkept t ht hne).1 (hkept t ht hne).2

end

def sampleData : Data ℚ :=
  ⟨[], fun _ => {}, fun _ => ⟨"", [], 0, 0⟩, fun _ => .null, fun _ => "", fun _ _ => .null, [], [], .new,
    [], []⟩

def sampleFrame : Frame ℚ Surroundings :=
  ⟨fun t => if t = 2 then .ofNum 5 else .ofNum 7, [], { data := sampleData }⟩

/-- `x + x * y`, for the register of `x`. -/
theorem sampleTree_computed :
    ∃ r fk' c, compileExpression (.binary .add (.ident "x") (.binary .mul (.ident "x") (.ident "y"))) 2 false
        sampleFunction = .ok (r, fk', c) ∧
      Computes sampleFunction sampleSymbols.length c 2 r sampleFrame (some (.number 40)) := by
  have htree : isTree (symbolsOf sampleSymbols)
      (.binary .add (.ident "x") (.binary .mul (.ident "x") (.ident "y"))) = true := by decide
  obtain ⟨r, fk', c, hcompile, hcomputes⟩ :=
    tree_computed sampleSymbols_valid sampleFunction_ready htree 2
  have hvalue : treeValue (localValues sampleSymbols (sampleFrame.store sampleSymbols.length))
      (.binary .add (.ident "x") (.binary .mul (.ident "x") (.ident "y"))) = some (.number 40) := by
    decide +kernel
  refine ⟨r, fk', c, hcompile, ?_⟩
  rw [← hvalue]
  exact hcomputes sampleFrame

end Zeroscript.TreeValues
