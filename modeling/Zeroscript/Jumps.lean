import Zeroscript.SilentCode

/-! # `break` and `continue`

A `break` is a jump behind the loop. A `continue` is no code at all, so that the rest of the body is
skipped only where it has no code either. -/
namespace Zeroscript.Jumps

open Emission InstructionShapes StraightCode Segments LabelNumbers Loops SilentCode
open ExpressionInversion (symbolsOf)
open Relation (ReflTransGen)

/-- A place in a body, inside of loops, blocks and conditionals, with what stands before and after it in every
body. -/
inductive Spot where
  | here (before after : Body)
  | block (before after : Body) (inner : Spot)
  | loop (before after : Body) (startExpr condition iterExpr : Option Expr) (inner : Spot)
  | thenBody (before after : Body) (condition : Expr) (inner : Spot) (otherwise : Option Body)
  | elseBody (before after : Body) (condition : Expr) (body : Body) (inner : Spot)

def Spot.fill (stmt : Stmt) : Spot → Body
  | .here before after => before ++ stmt :: after
  | .block before after inner => before ++ .block (inner.fill stmt) :: after
  | .loop before after startExpr condition iterExpr inner =>
    before ++ .loop startExpr condition iterExpr (inner.fill stmt) :: after
  | .thenBody before after condition inner otherwise =>
    before ++ .conditional condition (inner.fill stmt) otherwise :: after
  | .elseBody before after condition body inner =>
    before ++ .conditional condition body (some (inner.fill stmt)) :: after

def Spot.loopFree : Spot → Bool
  | .here _ _ => true
  | .block _ _ inner | .thenBody _ _ _ inner _ | .elseBody _ _ _ _ inner => inner.loopFree
  | .loop _ _ _ _ _ _ => false

/-- What follows the place in the bodies up to the next loop. -/
def Spot.following : Spot → Body
  | .here _ after => after
  | .block _ after inner | .thenBody _ after _ inner _ | .elseBody _ after _ _ inner => inner.following ++ after
  | .loop _ _ _ _ _ inner => inner.following

/-- Code after the place: the instructions of other statements are marked, those that end the conditionals
around are not. -/
abbrev Marks := List (Bool × Instruction)

def marked (c : Code) : Marks := c.map fun i => (true, i)

def unmarked (c : Code) : Marks := c.map fun i => (false, i)

def codeOf (rest : Marks) : Code := rest.map Prod.snd

@[simp] theorem codeOf_append (rest rest' : Marks) : codeOf (rest ++ rest') = codeOf rest ++ codeOf rest' :=
  List.map_append

@[simp] theorem codeOf_marked (c : Code) : codeOf (marked c) = c := by
  simp [codeOf, marked, Function.comp_def]

@[simp] theorem codeOf_unmarked (c : Code) : codeOf (unmarked c) = c := by
  simp [codeOf, unmarked, Function.comp_def]

@[simp] theorem length_codeOf (rest : Marks) : (codeOf rest).length = rest.length := List.length_map _

@[simp] theorem length_marked (c : Code) : (marked c).length = c.length := List.length_map _

@[simp] theorem length_unmarked (c : Code) : (unmarked c).length = c.length := List.length_map _

/-- One statement is compiled. -/
structure Compilation where
  fuel : ℕ
  context : Context
  start : CompilerState
  finish : CompilerState
  code : Code

def Compilation.Of (x : Compilation) (stmt : Stmt) : Prop :=
  Compiler.compileStmt x.fuel x.context stmt x.start = .ok ((), x.finish, x.code)

def inside (context : Context) (i : ℕ) : Context := { context with path := i :: context.path }

/-- In a body that is compiled from `s` to `s'`, a statement is compiled from `s₁` to `s₂`. -/
structure Level (fuel : ℕ) (context : Context) (before after : Body) (stmt : Stmt)
    (s s₁ s₂ s' : CompilerState) (hoisted first rest : Code) : Prop where
  first : ∃ s₀, Compiler.forEach Compiler.hoist (before ++ stmt :: after) s = .ok ((), s₀, hoisted) ∧
    Compiler.compileStatements (Compiler.compileStmt fuel) context 0 before s₀ = .ok ((), s₁, first)
  rest : Compiler.compileStatements (Compiler.compileStmt fuel) context (before.length + 1) after s₂ =
    .ok ((), s', rest)

def lelse (s : CompilerState) : String := label ".else_" (s.labelCount + 1)

def lendCond (s : CompilerState) : String := label ".end_cond_" (s.labelCount + 2)

def CompiledTest (condition : Expr) (s s' : CompilerState) (test : Code) : Prop :=
  ∃ reg s₁ c, Compiler.compileExpression condition 0 { s with labelCount := s.labelCount + 2 } =
      .ok (reg, s₁, c) ∧
    Compiler.freeRegister reg s₁ = .ok ((), s', []) ∧
    test = c ++ [⟨.JMP_NOT_TRUE, .num reg, .str (lelse s), .num 0⟩]

def LoopParts.head (p : LoopParts) (s : CompilerState) : Code :=
  p.start ++ [jump (label ".lcond_" (s.labelCount + 3)), labelled (label ".lstart_" (s.labelCount + 1))]

def LoopParts.tail (p : LoopParts) (s : CompilerState) : Code :=
  p.step ++ labelled (label ".lcond_" (s.labelCount + 3)) ::
    p.test (label ".lstart_" (s.labelCount + 1)) (label ".lend_" (s.labelCount + 2))

/-- A body with a statement at a place is compiled from `s` to `s'`; its code is `before`, the code of the
statement, and `rest`. -/
inductive Around (stmt : Stmt) (x : Compilation) :
    ℕ → Spot → Context → CompilerState → CompilerState → Code → Marks → Prop where
  | here {fuel : ℕ} {before after : Body} {context : Context} {s s' : CompilerState}
      {hoisted first rest : Code} (hfuel : x.fuel = fuel) (hcontext : x.context = inside context before.length)
      (hlevel : Level fuel context before after stmt s x.start x.finish s' hoisted first rest) (hof : x.Of stmt) :
      Around stmt x fuel (.here before after) context s s' (hoisted ++ first) (marked rest)
  | block {fuel : ℕ} {before after : Body} {inner : Spot} {context : Context} {s s₁ s₂ s' : CompilerState}
      {hoisted first pre rest : Code} {marks : Marks}
      (hlevel : Level (fuel + 1) context before after (.block (inner.fill stmt)) s s₁ s₂ s' hoisted first rest)
      (h : Around stmt x fuel inner (inside context before.length) s₁ s₂ pre marks) :
      Around stmt x (fuel + 1) (.block before after inner) context s s' (hoisted ++ (first ++ pre))
        (marks ++ marked rest)
  | loop {fuel : ℕ} {before after : Body} {startExpr condition iterExpr : Option Expr} {inner : Spot}
      {context : Context} {s s₁ s₂ s₃ s₄ s' : CompilerState} {hoisted first pre rest : Code} {p : LoopParts}
      {marks : Marks}
      (hlevel : Level (fuel + 1) context before after (.loop startExpr condition iterExpr (inner.fill stmt))
        s s₁ s₂ s' hoisted first rest)
      (hparts : CompiledLoop startExpr condition iterExpr s₁ s₃ s₄ s₂ p)
      (h : Around stmt x fuel inner (loopContext (inside context before.length) s₁) s₃ s₄ pre marks) :
      Around stmt x (fuel + 1) (.loop before after startExpr condition iterExpr inner) context s s'
        (hoisted ++ (first ++ (LoopParts.head p s₁ ++ pre))) (marks ++ marked (LoopParts.tail p s₁ ++ rest))
  | thenOnly {fuel : ℕ} {before after : Body} {condition : Expr} {inner : Spot} {context : Context}
      {s s₁ s₂ s₃ s' : CompilerState} {hoisted first test pre rest : Code} {marks : Marks}
      (hlevel : Level (fuel + 1) context before after (.conditional condition (inner.fill stmt) none) s s₁ s₂ s'
        hoisted first rest)
      (htest : CompiledTest condition s₁ s₃ test)
      (h : Around stmt x fuel inner (inside (inside context before.length) 0) s₃ s₂ pre marks) :
      Around stmt x (fuel + 1) (.thenBody before after condition inner none) context s s'
        (hoisted ++ (first ++ (test ++ pre)))
        (marks ++ (unmarked [labelled (lelse s₁), labelled (lendCond s₁)] ++ marked rest))
  | thenElse {fuel : ℕ} {before after otherwise : Body} {condition : Expr} {inner : Spot} {context : Context}
      {s s₁ s₂ s₃ s₄ s' : CompilerState} {hoisted first test pre rest celse : Code} {marks : Marks}
      (hlevel : Level (fuel + 1) context before after
        (.conditional condition (inner.fill stmt) (some otherwise)) s s₁ s₂ s' hoisted first rest)
      (htest : CompiledTest condition s₁ s₃ test)
      (h : Around stmt x fuel inner (inside (inside context before.length) 0) s₃ s₄ pre marks)
      (helse : Compiler.compileBody (Compiler.compileStmt fuel) (inside (inside context before.length) 1)
        otherwise s₄ = .ok ((), s₂, celse)) :
      Around stmt x (fuel + 1) (.thenBody before after condition inner (some otherwise)) context s s'
        (hoisted ++ (first ++ (test ++ pre)))
        (marks ++ (unmarked [jump (lendCond s₁), labelled (lelse s₁)] ++ (marked celse ++
          (unmarked [labelled (lendCond s₁)] ++ marked rest))))
  | elseBody {fuel : ℕ} {before after body : Body} {condition : Expr} {inner : Spot} {context : Context}
      {s s₁ s₂ s₃ s₄ s' : CompilerState} {hoisted first test pre rest cbody : Code} {marks : Marks}
      (hlevel : Level (fuel + 1) context before after
        (.conditional condition body (some (inner.fill stmt))) s s₁ s₂ s' hoisted first rest)
      (htest : CompiledTest condition s₁ s₃ test)
      (hbody : Compiler.compileBody (Compiler.compileStmt fuel) (inside (inside context before.length) 0)
        body s₃ = .ok ((), s₄, cbody))
      (h : Around stmt x fuel inner (inside (inside context before.length) 1) s₄ s₂ pre marks) :
      Around stmt x (fuel + 1) (.elseBody before after condition body inner) context s s'
        (hoisted ++ (first ++ (test ++ (cbody ++ jump (lendCond s₁) :: labelled (lelse s₁) :: pre))))
        (marks ++ (unmarked [labelled (lendCond s₁)] ++ marked rest))

theorem Around.of {stmt : Stmt} {x : Compilation} {fuel : ℕ} {spot : Spot} {context : Context}
    {s s' : CompilerState} {before : Code} {rest : Marks} (h : Around stmt x fuel spot context s s' before rest) :
    x.Of stmt := by
  induction h with
  | here _ _ _ hof => exact hof
  | block _ _ ih => exact ih
  | loop _ _ _ ih => exact ih
  | thenOnly _ _ _ ih => exact ih
  | thenElse _ _ _ _ ih => exact ih
  | elseBody _ _ _ _ ih => exact ih

section

variable {syms : List (String × ℕ)} {fuel : ℕ} {context : Context} {stmt : Stmt} {before after : Body}
  {s s₁ s₂ s' : CompilerState} {hoisted first rest : Code}

theorem statement_keeps (fuel : ℕ) (context : Context) (stmt : Stmt) :
    Forms (InFunction syms) (fun _ => True) (Compiler.compileStmt fuel context stmt) :=
  compileStmt_forms (inFunction_stable syms) (fun _ _ => trivial) fuel context stmt

theorem body_keeps {fuel : ℕ} {context : Context} {body : Body} {c : Code} (hs : InFunction syms s)
    (h : Compiler.compileBody (Compiler.compileStmt fuel) context body s = .ok ((), s', c)) :
    InFunction syms s' :=
  (compileBody_forms (fun _ _ => trivial) (statement_keeps fuel) context body s _ s' c hs h).1

theorem expression_keeps {e : Expr} {d r : ℕ} {c : Code} (hs : InFunction syms s)
    (h : Compiler.compileExpression e d s = .ok (r, s', c)) : InFunction syms s' :=
  (compileExpression_emits (inFunction_stable syms) (fun _ _ => trivial) e d s _ s' c hs h).1

theorem free_keeps {reg : ℕ} {c : Code} (hs : InFunction syms s)
    (h : Compiler.freeRegister reg s = .ok ((), s', c)) : InFunction syms s' :=
  (freeRegister_forms (Q := fun _ => True) (inFunction_stable syms) reg s _ s' c hs h).1

theorem discarded_keeps {e : Option Expr} {c : Code} (hs : InFunction syms s)
    (h : Compiler.compileDiscarded e s = .ok ((), s', c)) : InFunction syms s' :=
  (compileDiscarded_forms (inFunction_stable syms) (fun _ _ => trivial) e s _ s' c hs h).1

theorem Level.keeps (h : Level fuel context before after stmt s s₁ s₂ s' hoisted first rest)
    (hs : InFunction syms s) : InFunction syms s₁ := by
  obtain ⟨s₀, hhoist, hbefore⟩ := h.first
  have hs₀ := (forEach_forms (hoist_forms (fun _ _ => trivial)) _ s _ s₀ hoisted hs hhoist).1
  exact (compileStatements_forms (statement_keeps fuel) context 0 before s₀ _ s₁ first hs₀ hbefore).1

theorem Level.after_keeps (h : Level fuel context before after stmt s s₁ s₂ s' hoisted first rest)
    (hs : InFunction syms s₂) : InFunction syms s' :=
  (compileStatements_forms (statement_keeps fuel) context _ after s₂ _ s' rest hs h.rest).1

theorem CompiledTest.keeps {condition : Expr} {test : Code} (h : CompiledTest condition s s' test)
    (hs : InFunction syms s) : InFunction syms s' := by
  obtain ⟨reg, s₁, c, hcondition, hfree, -⟩ := h
  exact free_keeps (expression_keeps ((inFunction_stable syms).counted s _ hs) hcondition) hfree

variable {startExpr condition iterExpr : Option Expr} {p : LoopParts}

theorem loop_keeps (h : CompiledLoop startExpr condition iterExpr s s₁ s₂ s' p)
    (hs : InFunction syms s) : InFunction syms s₁ :=
  discarded_keeps ((inFunction_stable syms).counted s _ hs) h.start

theorem loop_after_keeps (h : CompiledLoop startExpr condition iterExpr s s₁ s₂ s' p)
    (hs : InFunction syms s₂) : InFunction syms s' := by
  obtain ⟨s₃, hstep, hcondition⟩ := h.rest
  have hs₃ := discarded_keeps hs hstep
  cases condition with
  | none =>
    obtain ⟨-, rfl⟩ := hcondition
    exact hs₃
  | some e =>
    obtain ⟨reg, s₄, c, free, hexpression, hfree, -⟩ := hcondition
    exact free_keeps (expression_keeps hs₃ hexpression) hfree

end

section

variable {syms : List (String × ℕ)} {stmt : Stmt} {x : Compilation} {fuel : ℕ} {spot : Spot}
  {context : Context} {s s' : CompilerState} {before : Code} {rest : Marks}

theorem Around.keeps (h : Around stmt x fuel spot context s s' before rest) (hs : InFunction syms s) :
    InFunction syms x.start ∧ InFunction syms x.finish ∧ InFunction syms s' := by
  induction h with
  | here _ _ hlevel hof =>
    have hstart := hlevel.keeps hs
    have hfinish := (statement_keeps _ _ _ _ _ _ _ hstart hof).1
    exact ⟨hstart, hfinish, hlevel.after_keeps hfinish⟩
  | block hlevel _ ih =>
    obtain ⟨hstart, hfinish, hs₂⟩ := ih (hlevel.keeps hs)
    exact ⟨hstart, hfinish, hlevel.after_keeps hs₂⟩
  | loop hlevel hparts _ ih =>
    obtain ⟨hstart, hfinish, hs₄⟩ := ih (loop_keeps hparts (hlevel.keeps hs))
    exact ⟨hstart, hfinish, hlevel.after_keeps (loop_after_keeps hparts hs₄)⟩
  | thenOnly hlevel htest _ ih =>
    obtain ⟨hstart, hfinish, hs₂⟩ := ih (htest.keeps (hlevel.keeps hs))
    exact ⟨hstart, hfinish, hlevel.after_keeps hs₂⟩
  | thenElse hlevel htest _ helse ih =>
    obtain ⟨hstart, hfinish, hs₄⟩ := ih (htest.keeps (hlevel.keeps hs))
    exact ⟨hstart, hfinish, hlevel.after_keeps (body_keeps hs₄ helse)⟩
  | elseBody hlevel htest hbody _ ih =>
    obtain ⟨hstart, hfinish, hs₂⟩ := ih (body_keeps (htest.keeps (hlevel.keeps hs)) hbody)
    exact ⟨hstart, hfinish, hlevel.after_keeps hs₂⟩

end

/-- None of the numbers that were given out between `lo` and `hi` is in a label of the code. -/
def Clear (lo hi : ℕ) (c : Code) : Prop := ∀ text, NumberedLabel lo hi text → labelIndex c text = none

section

variable {lo hi lo' hi' k : ℕ} {c d : Code}

theorem Clear.append (h : Clear lo hi c) (h' : Clear lo hi d) : Clear lo hi (c ++ d) := by
  intro text htext
  rw [labelIndex_append, h' text htext]
  exact h text htext

theorem Clear.mono (h : Clear lo hi c) (hlo : lo ≤ lo') (hhi : hi' ≤ hi) : Clear lo' hi' c := by
  rintro text ⟨stem, k, hstem, habove, hbelow, rfl⟩
  exact h _ ⟨stem, k, hstem, by omega, by omega, rfl⟩

theorem Clear.cons_other {i : Instruction} (h : Clear lo hi c) (hi' : i.opcode ≠ .LABEL) :
    Clear lo hi (i :: c) := by
  intro text htext
  rw [labelIndex_cons_other hi', h text htext]
  rfl

theorem Clear.cons_label {stem : String} (h : Clear lo hi c) (hstem : LabelNames.IsStem stem) (hk : k ≤ lo) :
    Clear lo hi (labelled (label stem k) :: c) := by
  intro text htext
  have hne : label stem k ≠ text := by
    rintro rfl
    exact not_numbered hstem hk htext
  rw [labelIndex_cons_ne hne, h text htext]
  rfl

theorem clear_unlabelled (h : Unlabelled c) : Clear lo hi c := fun text _ => h text

theorem clear_later (h : LabelsNumbered lo' hi' c) (hle : hi ≤ lo') : Clear lo hi c := by
  rintro text ⟨stem, k, hstem, -, hk, rfl⟩
  exact labelIndex_none h (not_numbered hstem (by omega))

end

section

variable {syms : List (String × ℕ)} {fuel : ℕ} {context : Context} {stmt : Stmt} {before after : Body}
  {s s₁ s₂ s' : CompilerState} {hoisted first rest : Code}

theorem Level.before_le (h : Level fuel context before after stmt s s₁ s₂ s' hoisted first rest)
    (hs : InFunction syms s) (hn : s₁.labelCount < 2 ^ 31) : s.labelCount ≤ s₁.labelCount := by
  obtain ⟨s₀, hhoist, hbefore⟩ := h.first
  obtain ⟨hs₀, hcount, -, -⟩ := (forEach_plain hoist_plain _).ok hs.tidy hhoist
  rw [← hcount]
  exact (compileStatements_numbered hs₀ hn hbefore).1

theorem Level.after_numbered (h : Level fuel context before after stmt s s₁ s₂ s' hoisted first rest)
    (hs : InFunction syms s₂) (hn : s'.labelCount < 2 ^ 31) :
    s₂.labelCount ≤ s'.labelCount ∧ LabelsNumbered s₂.labelCount s'.labelCount rest :=
  compileStatements_numbered hs.tidy hn h.rest

theorem Level.clear (h : Level fuel context before after stmt s s₁ s₂ s' hoisted first rest)
    (hs : InFunction syms s) (hs₂ : InFunction syms s₂) (hn : s'.labelCount < 2 ^ 31)
    (hle : s₁.labelCount ≤ s₂.labelCount) :
    s.labelCount ≤ s₁.labelCount ∧ s₂.labelCount ≤ s'.labelCount ∧
      ∀ code, Clear s.labelCount s'.labelCount code → Clear s₁.labelCount s₂.labelCount (rest ++ code) := by
  obtain ⟨hafter, hnumbered⟩ := h.after_numbered hs₂ hn
  have hbefore := h.before_le hs (by omega)
  refine ⟨hbefore, hafter, ?_⟩
  intro code hcode
  exact (clear_later hnumbered (Nat.le_refl _)).append (hcode.mono hbefore hafter)

theorem CompiledTest.count {condition : Expr} {test : Code} (h : CompiledTest condition s s' test)
    (hs : InFunction syms s) : s'.labelCount = s.labelCount + 2 := by
  obtain ⟨reg, s₁, c, hcondition, hfree, -⟩ := h
  have hstart := ((inFunction_stable syms).counted s (s.labelCount + 2) hs).tidy
  obtain ⟨hs₁, hcount, -, -⟩ := (compileExpression_plain condition 0).ok hstart hcondition
  obtain ⟨-, hcount', -, -⟩ := freeRegister_ok hs₁ hfree
  rw [hcount', hcount]

variable {startExpr condition iterExpr : Option Expr} {p : LoopParts}

theorem loop_clear (h : CompiledLoop startExpr condition iterExpr s s₁ s₂ s' p)
    (hs : InFunction syms s) (hs₂ : InFunction syms s₂) :
    s.labelCount ≤ s₁.labelCount ∧ s₂.labelCount ≤ s'.labelCount ∧
      ∀ code, Clear s.labelCount s'.labelCount code →
        Clear s₁.labelCount s₂.labelCount (LoopParts.tail p s ++ code) := by
  obtain ⟨-, hcount, -⟩ := h.start_plain hs.tidy
  obtain ⟨hcount', hstep, hcondition⟩ := h.rest_plain hs₂.tidy
  refine ⟨by omega, by omega, ?_⟩
  intro code hcode
  have hcode' : Clear s₁.labelCount s₂.labelCount code := hcode.mono (by omega) (by omega)
  have hend := hcode'.cons_label (k := s.labelCount + 2) (show LabelNames.IsStem ".lend_" by decide) (by omega)
  have htest : Clear s₁.labelCount s₂.labelCount
      (p.test (label ".lstart_" (s.labelCount + 1)) (label ".lend_" (s.labelCount + 2)) ++ code) := by
    unfold LoopParts.test
    split
    · exact hend
    · rename_i c reg hc
      rw [List.append_assoc]
      exact (clear_unlabelled (straight_unlabelled (hcondition c reg hc))).append (hend.cons_other (by simp))
  have hcond := htest.cons_label (k := s.labelCount + 3) (show LabelNames.IsStem ".lcond_" by decide) (by omega)
  rw [LoopParts.tail, List.append_assoc, List.cons_append]
  exact (clear_unlabelled (straight_unlabelled hstep)).append hcond

end

section

variable {syms : List (String × ℕ)} {stmt : Stmt} {x : Compilation} {fuel : ℕ} {spot : Spot}
  {context : Context} {s s' : CompilerState} {before : Code} {rest : Marks}

theorem Around.clear (h : Around stmt x fuel spot context s s' before rest) (hs : InFunction syms s)
    (hn : s'.labelCount < 2 ^ 31) :
    s.labelCount ≤ x.start.labelCount ∧ x.start.labelCount ≤ x.finish.labelCount ∧
      x.finish.labelCount ≤ s'.labelCount ∧
      ∀ code, Clear s.labelCount s'.labelCount code →
        Clear x.start.labelCount x.finish.labelCount (codeOf rest ++ code) := by
  induction h with
  | here _ _ hlevel hof =>
    have hstart := hlevel.keeps hs
    have hfinish := (statement_keeps _ _ _ _ _ _ _ hstart hof).1
    obtain ⟨hafter, -⟩ := hlevel.after_numbered hfinish hn
    have hle := (compileStmt_numbered hstart.tidy (by omega) hof).1
    obtain ⟨hbefore, -, hclear⟩ := hlevel.clear hs hfinish hn hle
    refine ⟨hbefore, hle, hafter, ?_⟩
    intro code hcode
    rw [codeOf_marked]
    exact hclear code hcode
  | block hlevel h ih =>
    have hs₁ := hlevel.keeps hs
    have hs₂ := (h.keeps hs₁).2.2
    obtain ⟨hafter, -⟩ := hlevel.after_numbered hs₂ hn
    obtain ⟨hbefore', hle, hafter', hinner⟩ := ih hs₁ (by omega)
    obtain ⟨hbefore, -, hclear⟩ := hlevel.clear hs hs₂ hn (by omega)
    refine ⟨by omega, hle, by omega, ?_⟩
    intro code hcode
    rw [codeOf_append, codeOf_marked, List.append_assoc]
    exact hinner _ (hclear code hcode)
  | loop hlevel hparts h ih =>
    have hs₁ := hlevel.keeps hs
    have hs₃ := loop_keeps hparts hs₁
    have hs₄ := (h.keeps hs₃).2.2
    have hs₂ := loop_after_keeps hparts hs₄
    obtain ⟨hafter, -⟩ := hlevel.after_numbered hs₂ hn
    obtain ⟨hstart, hfinish, htail⟩ := loop_clear hparts hs₁ hs₄
    obtain ⟨hbefore', hle, hafter', hinner⟩ := ih hs₃ (by omega)
    obtain ⟨hbefore, -, hclear⟩ := hlevel.clear hs hs₂ hn (by omega)
    refine ⟨by omega, hle, by omega, ?_⟩
    intro code hcode
    rw [codeOf_append, codeOf_marked, List.append_assoc, List.append_assoc]
    exact hinner _ (htail _ (hclear code hcode))
  | thenOnly hlevel htest h ih =>
    have hs₁ := hlevel.keeps hs
    have hs₃ := htest.keeps hs₁
    have hs₂ := (h.keeps hs₃).2.2
    have hcount := htest.count hs₁
    obtain ⟨hafter, -⟩ := hlevel.after_numbered hs₂ hn
    obtain ⟨hbefore', hle, hafter', hinner⟩ := ih hs₃ (by omega)
    obtain ⟨hbefore, -, hclear⟩ := hlevel.clear hs hs₂ hn (by omega)
    refine ⟨by omega, hle, by omega, ?_⟩
    intro code hcode
    simp only [codeOf_append, codeOf_marked, codeOf_unmarked, List.append_assoc]
    refine hinner _ (Clear.cons_label (Clear.cons_label ?_ (by decide) (by omega)) (by decide) (by omega))
    exact (hclear code hcode).mono (by omega) (Nat.le_refl _)
  | thenElse hlevel htest h helse ih =>
    have hs₁ := hlevel.keeps hs
    have hs₃ := htest.keeps hs₁
    have hs₄ := (h.keeps hs₃).2.2
    have hs₂ := body_keeps hs₄ helse
    have hcount := htest.count hs₁
    obtain ⟨hafter, -⟩ := hlevel.after_numbered hs₂ hn
    obtain ⟨helse', hnumbered⟩ := compileBody_numbered hs₄.tidy (by omega) helse
    obtain ⟨hbefore', hle, hafter', hinner⟩ := ih hs₃ (by omega)
    obtain ⟨hbefore, -, hclear⟩ := hlevel.clear hs hs₂ hn (by omega)
    refine ⟨by omega, hle, by omega, ?_⟩
    intro code hcode
    simp only [codeOf_append, codeOf_marked, codeOf_unmarked, List.append_assoc]
    refine hinner _ (Clear.cons_other (Clear.cons_label ?_ (by decide) (by omega)) (by simp))
    refine (clear_later hnumbered (Nat.le_refl _)).append (Clear.cons_label ?_ (by decide) (by omega))
    exact (hclear code hcode).mono (by omega) (by omega)
  | elseBody hlevel htest hbody h ih =>
    have hs₁ := hlevel.keeps hs
    have hs₃ := htest.keeps hs₁
    have hs₄ := body_keeps hs₃ hbody
    have hs₂ := (h.keeps hs₄).2.2
    have hcount := htest.count hs₁
    obtain ⟨hafter, -⟩ := hlevel.after_numbered hs₂ hn
    obtain ⟨hbefore', hle, hafter', hinner⟩ := ih hs₄ (by omega)
    obtain ⟨hbody', -⟩ := compileBody_numbered hs₃.tidy (by omega) hbody
    obtain ⟨hbefore, -, hclear⟩ := hlevel.clear hs hs₂ hn (by omega)
    refine ⟨by omega, hle, by omega, ?_⟩
    intro code hcode
    simp only [codeOf_append, codeOf_marked, codeOf_unmarked, List.append_assoc]
    refine hinner _ (Clear.cons_label ?_ (by decide) (by omega))
    exact (hclear code hcode).mono (by omega) (Nat.le_refl _)

end

section

variable {α ω : Type} [NumOps α] {env : Environment α ω} {n : ℕ} {whole : Code} {stop : ℕ → Prop}

/-- A run that executes no instruction at a position to stop at. -/
abbrev Passing (env : Environment α ω) (n : ℕ) (whole : Code) (stop : ℕ → Prop) : Point α ω → Point α ω → Prop :=
  ReflTransGen fun s s' => ¬ stop s.pc ∧ stepAt env n whole s = some s'

theorem Passing.stopped {s s' : Point α ω} (h : Passing env n whole stop s s') (hs : stop s.pc) : s' = s := by
  rcases h.cases_head with rfl | ⟨s₁, ⟨hpass, -⟩, -⟩
  · rfl
  · exact absurd hs hpass

theorem Passing.ends {s s₁ s₂ : Point α ω} (h₁ : Passing env n whole stop s s₁)
    (h₂ : Passing env n whole stop s s₂) (hstop₁ : stop s₁.pc) (hstop₂ : stop s₂.pc) : s₁ = s₂ := by
  induction h₁ using ReflTransGen.head_induction_on with
  | refl => exact (Passing.stopped h₂ hstop₁).symm
  | head hstep _ ih =>
    rcases h₂.cases_head with rfl | ⟨s₃, hstep', hrest⟩
    · exact absurd hstop₂ hstep.1
    · have hsame := hstep.2.symm.trans hstep'.2
      cases hsame
      exact ih hrest

end

/-- From everywhere the code after position `o` is passed without an effect, to its end or to a position to
stop at. -/
def Goes (stop : ℕ → Prop) (whole : Code) (o length : ℕ) (last : Prop) : Prop :=
  ∀ (α ω : Type) [NumOps α] (env : Environment α ω) (n : ℕ) (f : Frame α ω), ∃ k ≤ length,
    Passing env n whole stop ⟨o, f⟩ ⟨o + k, f⟩ ∧
      (last ∧ k = length ∨ ¬ last ∧ k < length ∧ stop (o + k))

/-- The marked instructions are where to stop. -/
def StopsAt (stop : ℕ → Prop) (o : ℕ) (rest : Marks) : Prop :=
  ∀ k b i, rest[k]? = some (b, i) → (stop (o + k) ↔ b = true)

section

variable {stop : ℕ → Prop} {whole : Code} {o length length' : ℕ} {last last' : Prop}

theorem Goes.append {o' : ℕ} (h : Goes stop whole o length last) (h' : Goes stop whole o' length' last')
    (ho : o + length = o') : Goes stop whole o (length + length') (last ∧ last') := by
  subst ho
  intro α ω _ env n f
  obtain ⟨k, hk, hrun, ⟨hlast, rfl⟩ | ⟨hlast, hlt, hstop⟩⟩ := h α ω env n f
  · obtain ⟨k', hk', hrun', hend⟩ := h' α ω env n f
    rw [Nat.add_assoc] at hrun'
    refine ⟨k + k', by omega, hrun.trans hrun', ?_⟩
    rcases hend with ⟨hlast', rfl⟩ | ⟨hlast', hlt', hstop'⟩
    · exact .inl ⟨⟨hlast, hlast'⟩, rfl⟩
    · rw [Nat.add_assoc] at hstop'
      exact .inr ⟨fun hboth => hlast' hboth.2, by omega, hstop'⟩
  · exact ⟨k, by omega, hrun, .inr ⟨fun hboth => hlast hboth.1, by omega, hstop⟩⟩

theorem Goes.congr (h : Goes stop whole o length last) (hlast : last ↔ last') :
    Goes stop whole o length last' := by
  rw [← propext hlast]
  exact h

theorem StopsAt.left {rest rest' : Marks} (h : StopsAt stop o (rest ++ rest')) : StopsAt stop o rest := by
  intro k b i hi
  refine h k b i ?_
  rw [List.getElem?_append_left (List.getElem?_eq_some_iff.mp hi).1]
  exact hi

theorem StopsAt.right {rest rest' : Marks} (h : StopsAt stop o (rest ++ rest')) :
    StopsAt stop (o + rest.length) rest' := by
  intro k b i hi
  rw [Nat.add_assoc]
  refine h _ b i ?_
  rw [List.getElem?_append_right (Nat.le_add_right _ _), Nat.add_sub_cancel_left]
  exact hi

theorem goes_marked {c : Code} (hstop : StopsAt stop o (marked c)) : Goes stop whole o c.length (c = []) := by
  intro α ω _ env n f
  refine ⟨0, Nat.zero_le _, .refl, ?_⟩
  cases c with
  | nil => exact .inl ⟨rfl, rfl⟩
  | cons i c => exact .inr ⟨List.cons_ne_nil i c, Nat.succ_pos _, (hstop 0 true i rfl).mpr rfl⟩

theorem goes_label {name : String} (hi : whole[o]? = some (labelled name)) (hstop : ¬ stop o) :
    Goes stop whole o 1 True := by
  intro α ω _ env n f
  refine ⟨1, Nat.le_refl _, .single ⟨hstop, ?_⟩, .inl ⟨trivial, rfl⟩⟩
  exact stepAt_next hi (exec_labelled name f)

theorem goes_jump {name : String} {index : ℕ} (hi : whole[o]? = some (jump name))
    (hindex : labelIndex whole name = some (o + index)) (hstop : ¬ stop o) : Goes stop whole o index True := by
  intro α ω _ env n f
  refine ⟨index, Nat.le_refl _, .single ⟨hstop, ?_⟩, .inl ⟨trivial, rfl⟩⟩
  exact stepAt_jump hi (exec_jump name f) hindex

end

section

variable {stop : ℕ → Prop} {whole P A : Code}

theorem StopsAt.tail {o : ℕ} {m : Bool × Instruction} {rest : Marks} (h : StopsAt stop o (m :: rest)) :
    StopsAt stop (o + 1) rest := by
  have h' : StopsAt stop o ([m] ++ rest) := h
  exact h'.right

theorem StopsAt.head {o : ℕ} {i : Instruction} {rest : Marks} (h : StopsAt stop o ((false, i) :: rest)) :
    ¬ stop o := by
  intro ho
  cases (h 0 false i rfl).mp ho

theorem goes_labelled {o : ℕ} {rest : Marks} {name : String} (hstop : StopsAt stop o ((false, labelled name) :: rest))
    (hwhole : whole = P ++ labelled name :: A) (ho : P.length = o) : Goes stop whole o 1 True := by
  have hi : whole[o]? = some (labelled name) := by
    rw [hwhole, ← ho, List.getElem?_append_right (Nat.le_refl _), Nat.sub_self]
    rfl
  exact goes_label hi hstop.head

/-- Over the other branch of a conditional. -/
theorem goes_over {o : ℕ} {name name' : String} {other : Code} {rest : Marks}
    (hstop : StopsAt stop o (unmarked [jump name, labelled name'] ++ (marked other ++
      (unmarked [labelled name] ++ rest))))
    (hwhole : whole = P ++ (jump name :: labelled name' :: (other ++ labelled name :: A))) (ho : P.length = o)
    (hA : labelIndex A name = none) : Goes stop whole o (2 + other.length + 1) True := by
  have hi : whole[o]? = some (jump name) := by
    rw [hwhole, ← ho, List.getElem?_append_right (Nat.le_refl _), Nat.sub_self]
    rfl
  have hsplit : whole = (P ++ jump name :: labelled name' :: other) ++ labelled name :: A := by
    rw [hwhole]
    simp
  have hlength : (P ++ jump name :: labelled name' :: other).length = o + (2 + other.length) := by
    simp only [List.length_append, List.length_cons]
    omega
  have hjump : Goes stop whole o (2 + other.length) True := by
    refine goes_jump hi ?_ hstop.head
    rw [hsplit, labelIndex_last _ hA, hlength]
  have hlabel : Goes stop whole (o + 2 + (marked other).length) 1 True := by
    refine goes_labelled hstop.right.right hsplit ?_
    rw [hlength, length_marked, Nat.add_assoc]
  have hboth := hjump.append hlabel (by rw [length_marked, Nat.add_assoc])
  exact hboth.congr (and_self_iff)

variable {syms : List (String × ℕ)} {fuel : ℕ} {context : Context} {stmt : Stmt} {before after : Body}
  {s s₁ s₂ s' : CompilerState} {hoisted first rest : Code} {o : ℕ}

theorem Level.goes (h : Level fuel context before after stmt s s₁ s₂ s' hoisted first rest)
    (hs : InFunction syms s₂) (hstop : StopsAt stop o (marked rest)) :
    Goes stop whole o rest.length (silentAll (symbolsOf syms) after = true) :=
  (goes_marked hstop).congr (compileStatements_silent (fun h' => compileStmt_silent fuel h') hs h.rest)

theorem silentAll_append {reg : Symbols} (body body' : Body) :
    (silentAll reg body = true ∧ silentAll reg body' = true) ↔ silentAll reg (body ++ body') = true := by
  rw [silentAll, silentAll, silentAll, List.all_append, Bool.and_eq_true]

end

def GoesOn (syms : List (String × ℕ)) (spot : Spot) (s s' : CompilerState) (rest : Marks) : Prop :=
  ∀ {stop : ℕ → Prop} {whole P A : Code}, Clear s.labelCount s'.labelCount A → whole = P ++ (codeOf rest ++ A) →
    StopsAt stop P.length rest →
      Goes stop whole P.length rest.length (silentAll (symbolsOf syms) spot.following = true)

section

variable {syms : List (String × ℕ)} {stmt : Stmt} {x : Compilation} {fuel : ℕ} {before after : Body}
  {condition : Expr} {inner : Spot} {context : Context} {s s₁ s₂ s₃ s₄ s' : CompilerState}
  {hoisted first test pre rest : Code} {marks : Marks}

theorem block_goes
    (hlevel : Level (fuel + 1) context before after (.block (inner.fill stmt)) s s₁ s₂ s' hoisted first rest)
    (h : Around stmt x fuel inner (inside context before.length) s₁ s₂ pre marks) (hs : InFunction syms s)
    (hn : s'.labelCount < 2 ^ 31)
    (ih : InFunction syms s₁ → s₂.labelCount < 2 ^ 31 → GoesOn syms inner s₁ s₂ marks) :
    GoesOn syms (.block before after inner) s s' (marks ++ marked rest) := by
  intro stop whole P A hA hwhole hstop
  have hs₁ := hlevel.keeps hs
  have hs₂ := (h.keeps hs₁).2.2
  have hafter := hlevel.after_numbered hs₂ hn
  have hinner := h.clear hs₁ (by omega)
  have hclear := hlevel.clear hs hs₂ hn (by omega)
  have hwhole' : whole = P ++ (codeOf marks ++ (rest ++ A)) := by
    rw [hwhole, codeOf_append, codeOf_marked, List.append_assoc]
  have hfirst := ih hs₁ (by omega) (hclear.2.2 A hA) hwhole' hstop.left
  have hgoes := hfirst.append (hlevel.goes hs₂ hstop.right) rfl
  rw [List.length_append, length_marked]
  exact hgoes.congr (silentAll_append _ _)

theorem thenOnly_goes
    (hlevel : Level (fuel + 1) context before after (.conditional condition (inner.fill stmt) none) s s₁ s₂ s'
      hoisted first rest)
    (htest : CompiledTest condition s₁ s₃ test)
    (h : Around stmt x fuel inner (inside (inside context before.length) 0) s₃ s₂ pre marks)
    (hs : InFunction syms s) (hn : s'.labelCount < 2 ^ 31)
    (ih : InFunction syms s₃ → s₂.labelCount < 2 ^ 31 → GoesOn syms inner s₃ s₂ marks) :
    GoesOn syms (.thenBody before after condition inner none) s s'
      (marks ++ (unmarked [labelled (lelse s₁), labelled (lendCond s₁)] ++ marked rest)) := by
  intro stop whole P A hA hwhole hstop
  have hs₁ := hlevel.keeps hs
  have hs₃ := htest.keeps hs₁
  have hs₂ := (h.keeps hs₃).2.2
  have hcount := htest.count hs₁
  have hafter := hlevel.after_numbered hs₂ hn
  have hinner := h.clear hs₃ (by omega)
  have hclear := hlevel.clear hs hs₂ hn (by omega)
  have hwhole' : whole = P ++ (codeOf marks ++ (labelled (lelse s₁) :: labelled (lendCond s₁) :: (rest ++ A))) := by
    rw [hwhole]
    simp only [codeOf_append, codeOf_marked, codeOf_unmarked, List.append_assoc]
    rfl
  have hend : Clear s₃.labelCount s₂.labelCount
      (labelled (lelse s₁) :: labelled (lendCond s₁) :: (rest ++ A)) := by
    refine Clear.cons_label (Clear.cons_label ?_ (by decide) (by omega)) (by decide) (by omega)
    exact (hclear.2.2 A hA).mono (by omega) (Nat.le_refl _)
  have hfirst := ih hs₃ (by omega) hend hwhole' hstop.left
  have hlelse : Goes stop whole (P.length + marks.length) 1 True := by
    refine goes_labelled (P := P ++ codeOf marks) (A := labelled (lendCond s₁) :: (rest ++ A)) hstop.right ?_
      (by simp)
    rw [hwhole', List.append_assoc]
  have hlend : Goes stop whole (P.length + marks.length + 1) 1 True := by
    refine goes_labelled (P := P ++ (codeOf marks ++ [labelled (lelse s₁)])) (A := rest ++ A) hstop.right.tail ?_
      (by simp [Nat.add_assoc])
    rw [hwhole']
    simp
  have hlabels := hlelse.append hlend rfl
  have hgoes := (hfirst.append hlabels rfl).append (hlevel.goes hs₂ hstop.right.right) rfl
  rw [List.length_append, List.length_append, length_marked, length_unmarked, ← Nat.add_assoc]
  refine hgoes.congr ?_
  simp only [and_true]
  exact silentAll_append _ _

theorem thenElse_goes {otherwise : Body} {celse : Code}
    (hlevel : Level (fuel + 1) context before after (.conditional condition (inner.fill stmt) (some otherwise))
      s s₁ s₂ s' hoisted first rest)
    (htest : CompiledTest condition s₁ s₃ test)
    (h : Around stmt x fuel inner (inside (inside context before.length) 0) s₃ s₄ pre marks)
    (helse : Compiler.compileBody (Compiler.compileStmt fuel) (inside (inside context before.length) 1)
      otherwise s₄ = .ok ((), s₂, celse))
    (hs : InFunction syms s) (hn : s'.labelCount < 2 ^ 31)
    (ih : InFunction syms s₃ → s₄.labelCount < 2 ^ 31 → GoesOn syms inner s₃ s₄ marks) :
    GoesOn syms (.thenBody before after condition inner (some otherwise)) s s'
      (marks ++ (unmarked [jump (lendCond s₁), labelled (lelse s₁)] ++ (marked celse ++
        (unmarked [labelled (lendCond s₁)] ++ marked rest)))) := by
  intro stop whole P A hA hwhole hstop
  have hs₁ := hlevel.keeps hs
  have hs₃ := htest.keeps hs₁
  have hs₄ := (h.keeps hs₃).2.2
  have hs₂ := body_keeps hs₄ helse
  have hcount := htest.count hs₁
  have hafter := hlevel.after_numbered hs₂ hn
  have hotherwise := compileBody_numbered hs₄.tidy (by omega) helse
  have hinner := h.clear hs₃ (by omega)
  have hclear := hlevel.clear hs hs₂ hn (by omega)
  have hwhole' : whole = P ++ (codeOf marks ++ (jump (lendCond s₁) :: labelled (lelse s₁) :: (celse ++
      labelled (lendCond s₁) :: (rest ++ A)))) := by
    rw [hwhole]
    simp only [codeOf_append, codeOf_marked, codeOf_unmarked, List.append_assoc]
    rfl
  have hend : Clear s₃.labelCount s₄.labelCount (jump (lendCond s₁) :: labelled (lelse s₁) :: (celse ++
      labelled (lendCond s₁) :: (rest ++ A))) := by
    refine Clear.cons_other (Clear.cons_label ?_ (by decide) (by omega)) (by simp)
    refine (clear_later hotherwise.2 (Nat.le_refl _)).append (Clear.cons_label ?_ (by decide) (by omega))
    exact (hclear.2.2 A hA).mono (by omega) (by omega)
  have hfirst := ih hs₃ (by omega) hend hwhole' hstop.left
  have hnumber : NumberedLabel s₁.labelCount s₂.labelCount (lendCond s₁) :=
    ⟨".end_cond_", s₁.labelCount + 2, by decide, by omega, by omega, rfl⟩
  have hover : Goes stop whole (P.length + marks.length) (2 + celse.length + 1) True := by
    refine goes_over (P := P ++ codeOf marks) hstop.right ?_ (by simp) (hclear.2.2 A hA _ hnumber)
    rw [hwhole', List.append_assoc]
  have ho : P.length + (marks.length + (2 + celse.length + 1)) = P.length + marks.length +
      (unmarked [jump (lendCond s₁), labelled (lelse s₁)]).length + (marked celse).length +
        (unmarked [labelled (lendCond s₁)]).length := by
    simp only [length_marked, length_unmarked, List.length_cons, List.length_nil]
    omega
  have hgoes := (hfirst.append hover rfl).append (hlevel.goes hs₂ hstop.right.right.right.right) ho
  have hlength : (marks ++ (unmarked [jump (lendCond s₁), labelled (lelse s₁)] ++ (marked celse ++
      (unmarked [labelled (lendCond s₁)] ++ marked rest)))).length =
        marks.length + (2 + celse.length + 1) + rest.length := by
    simp only [List.length_append, length_marked, length_unmarked, List.length_cons, List.length_nil]
    omega
  rw [hlength]
  refine hgoes.congr ?_
  simp only [and_true]
  exact silentAll_append _ _

theorem elseBody_goes {body : Body} {cbody : Code}
    (hlevel : Level (fuel + 1) context before after (.conditional condition body (some (inner.fill stmt)))
      s s₁ s₂ s' hoisted first rest)
    (htest : CompiledTest condition s₁ s₃ test)
    (hbody : Compiler.compileBody (Compiler.compileStmt fuel) (inside (inside context before.length) 0)
      body s₃ = .ok ((), s₄, cbody))
    (h : Around stmt x fuel inner (inside (inside context before.length) 1) s₄ s₂ pre marks)
    (hs : InFunction syms s) (hn : s'.labelCount < 2 ^ 31)
    (ih : InFunction syms s₄ → s₂.labelCount < 2 ^ 31 → GoesOn syms inner s₄ s₂ marks) :
    GoesOn syms (.elseBody before after condition body inner) s s'
      (marks ++ (unmarked [labelled (lendCond s₁)] ++ marked rest)) := by
  intro stop whole P A hA hwhole hstop
  have hs₁ := hlevel.keeps hs
  have hs₃ := htest.keeps hs₁
  have hs₄ := body_keeps hs₃ hbody
  have hs₂ := (h.keeps hs₄).2.2
  have hcount := htest.count hs₁
  have hafter := hlevel.after_numbered hs₂ hn
  have hinner := h.clear hs₄ (by omega)
  have hfirstBody := compileBody_numbered hs₃.tidy (by omega) hbody
  have hclear := hlevel.clear hs hs₂ hn (by omega)
  have hwhole' : whole = P ++ (codeOf marks ++ (labelled (lendCond s₁) :: (rest ++ A))) := by
    rw [hwhole]
    simp only [codeOf_append, codeOf_marked, codeOf_unmarked, List.append_assoc]
    rfl
  have hend : Clear s₄.labelCount s₂.labelCount (labelled (lendCond s₁) :: (rest ++ A)) := by
    refine Clear.cons_label ?_ (by decide) (by omega)
    exact (hclear.2.2 A hA).mono (by omega) (Nat.le_refl _)
  have hfirst := ih hs₄ (by omega) hend hwhole' hstop.left
  have hlend : Goes stop whole (P.length + marks.length) 1 True := by
    refine goes_labelled (P := P ++ codeOf marks) (A := rest ++ A) hstop.right ?_ (by simp)
    rw [hwhole', List.append_assoc]
  have hgoes := (hfirst.append hlend rfl).append (hlevel.goes hs₂ hstop.right.right) rfl
  rw [List.length_append, List.length_append, length_marked, length_unmarked, ← Nat.add_assoc]
  refine hgoes.congr ?_
  simp only [and_true]
  exact silentAll_append _ _

end

theorem Around.goes {syms : List (String × ℕ)} {stmt : Stmt} {x : Compilation} {fuel : ℕ} {spot : Spot}
    {context : Context} {s s' : CompilerState} {before : Code} {rest : Marks}
    (h : Around stmt x fuel spot context s s' before rest) (hfree : spot.loopFree = true)
    (hs : InFunction syms s) (hn : s'.labelCount < 2 ^ 31) : GoesOn syms spot s s' rest := by
  induction h with
  | here _ _ hlevel hof =>
    intro stop whole P A _ _ hstop
    have hfinish := (statement_keeps _ _ _ _ _ _ _ (hlevel.keeps hs) hof).1
    rw [marked, List.length_map]
    exact hlevel.goes hfinish hstop
  | block hlevel h ih => exact block_goes hlevel h hs hn (ih hfree)
  | loop => cases hfree
  | thenOnly hlevel htest h ih => exact thenOnly_goes hlevel htest h hs hn (ih hfree)
  | thenElse hlevel htest h helse ih => exact thenElse_goes hlevel htest h helse hs hn (ih hfree)
  | elseBody hlevel htest hbody h ih => exact elseBody_goes hlevel htest hbody h hs hn (ih hfree)

section

variable {syms : List (String × ℕ)} {fuel : ℕ} {context : Context} {s s' : CompilerState} {c : Code}

theorem compileConditional_run {condition : Expr} {body : Body} {elseBody : Option Body}
    (hrun : Compiler.compileConditional (Compiler.compileStmt fuel) context condition body elseBody s =
      .ok ((), s', c)) :
    ∃ s₁ s₂ test code, CompiledTest condition s s₁ test ∧
      Compiler.compileBody (Compiler.compileStmt fuel) (inside context 0) body s₁ = .ok ((), s₂, code) ∧
      match elseBody with
      | none => s' = s₂ ∧ (s.labelCount + 2 < 2 ^ 31 →
          c = test ++ (code ++ [labelled (lelse s), labelled (lendCond s)]))
      | some other => ∃ celse,
          Compiler.compileBody (Compiler.compileStmt fuel) (inside context 1) other s₂ = .ok ((), s', celse) ∧
          (s.labelCount + 2 < 2 ^ 31 → c = test ++ (code ++ jump (lendCond s) :: labelled (lelse s) :: (celse ++
            [labelled (lendCond s)]))) := by
  unfold Compiler.compileConditional at hrun
  obtain ⟨ifFail, s₁, c₁, d₁, hifFail, hrun₁, rfl⟩ := bind_ok.mp hrun
  obtain ⟨conEnd, s₂, c₂, d₂, hconEnd, hrun₂, rfl⟩ := bind_ok.mp hrun₁
  obtain ⟨reg, s₃, c₃, d₃, hcondition, hrun₃, rfl⟩ := bind_ok.mp hrun₂
  obtain ⟨⟨⟩, s₄, c₄, d₄, hjump, hrun₄, rfl⟩ := bind_ok.mp hrun₃
  obtain ⟨⟨⟩, s₅, c₅, d₅, hfree, hrun₅, rfl⟩ := bind_ok.mp hrun₄
  obtain ⟨⟨⟩, s₆, c₆, d₆, hbody, hrun₆, rfl⟩ := bind_ok.mp hrun₅
  obtain ⟨rfl, rfl, rfl⟩ := freshLabel_run hifFail
  obtain ⟨rfl, rfl, rfl⟩ := freshLabel_run hconEnd
  obtain ⟨rfl, rfl⟩ := addInstruction_run hjump
  have hsilent : c₅ = [] := by
    cases hfree
    rfl
  subst hsilent
  have htruncated : s.labelCount + 2 < 2 ^ 31 → Compiler.truncate 98 (lelse s) = lelse s ∧
      Compiler.truncate 98 (lendCond s) = lendCond s := by
    intro hn
    exact ⟨truncate_label (by decide) (by omega), truncate_label (by decide) (by omega)⟩
  refine ⟨s₅, s₆, _, c₆, ⟨reg, _, c₃, hcondition, hfree, rfl⟩, hbody, ?_⟩
  cases elseBody with
  | none =>
    obtain ⟨⟨⟩, s₇, c₇, d₇, hlabel, hlabel', rfl⟩ := bind_ok.mp hrun₆
    obtain ⟨rfl, rfl⟩ := addInstruction_run hlabel
    obtain ⟨rfl, rfl⟩ := addInstruction_run hlabel'
    refine ⟨rfl, ?_⟩
    intro hn
    obtain ⟨hlelse, hlendCond⟩ := htruncated hn
    unfold lelse at hlelse ⊢
    unfold lendCond at hlendCond ⊢
    simp [hlelse, hlendCond]
  | some other =>
    obtain ⟨⟨⟩, s₇, c₇, d₇, hjump', hrun₇, rfl⟩ := bind_ok.mp hrun₆
    obtain ⟨⟨⟩, s₈, c₈, d₈, hlabel, hrun₈, rfl⟩ := bind_ok.mp hrun₇
    obtain ⟨⟨⟩, s₉, c₉, d₉, helse, hlabel', rfl⟩ := bind_ok.mp hrun₈
    obtain ⟨rfl, rfl⟩ := addInstruction_run hjump'
    obtain ⟨rfl, rfl⟩ := addInstruction_run hlabel
    obtain ⟨rfl, rfl⟩ := addInstruction_run hlabel'
    refine ⟨c₉, helse, ?_⟩
    intro hn
    obtain ⟨hlelse, hlendCond⟩ := htruncated hn
    unfold lelse at hlelse ⊢
    unfold lendCond at hlendCond ⊢
    simp [hlelse, hlendCond]

theorem statements_split {stmt : Stmt} {after : Body} : ∀ {before : Body} {i : ℕ} {s : CompilerState} {c : Code},
    Compiler.compileStatements (Compiler.compileStmt fuel) context i (before ++ stmt :: after) s =
      .ok ((), s', c) →
    ∃ s₁ s₂ first code rest,
      Compiler.compileStatements (Compiler.compileStmt fuel) context i before s = .ok ((), s₁, first) ∧
      Compiler.compileStmt fuel (inside context (i + before.length)) stmt s₁ = .ok ((), s₂, code) ∧
      Compiler.compileStatements (Compiler.compileStmt fuel) context (i + before.length + 1) after s₂ =
        .ok ((), s', rest) ∧ c = first ++ (code ++ rest)
  | [], i, s, c, h => by
    obtain ⟨⟨⟩, s₂, code, rest, hstmt, hrest, rfl⟩ := bind_ok.mp h
    exact ⟨s, s₂, [], code, rest, rfl, hstmt, hrest, rfl⟩
  | stmt' :: before, i, s, c, h => by
    obtain ⟨⟨⟩, s₀, c₀, d₀, hfirst, hrest, rfl⟩ := bind_ok.mp h
    obtain ⟨s₁, s₂, first, code, rest, hbefore, hstmt, hafter, rfl⟩ := statements_split hrest
    rw [Nat.add_right_comm i 1] at hstmt hafter
    refine ⟨s₁, s₂, c₀ ++ first, code, rest, bind_ok.mpr ⟨(), s₀, c₀, first, hfirst, hbefore, rfl⟩, hstmt, hafter, ?_⟩
    rw [List.append_assoc]

theorem body_split {stmt : Stmt} {before after : Body}
    (h : Compiler.compileBody (Compiler.compileStmt fuel) context (before ++ stmt :: after) s = .ok ((), s', c)) :
    ∃ s₁ s₂ hoisted first code rest, Level fuel context before after stmt s s₁ s₂ s' hoisted first rest ∧
      Compiler.compileStmt fuel (inside context before.length) stmt s₁ = .ok ((), s₂, code) ∧
      c = hoisted ++ (first ++ (code ++ rest)) := by
  obtain ⟨⟨⟩, s₀, hoisted, d, hhoist, hrest, rfl⟩ := bind_ok.mp h
  obtain ⟨s₁, s₂, first, code, rest, hbefore, hstmt, hafter, rfl⟩ := statements_split hrest
  rw [Nat.zero_add] at hstmt hafter
  exact ⟨s₁, s₂, hoisted, first, code, rest, ⟨⟨s₀, hhoist, hbefore⟩, hafter⟩, hstmt, rfl⟩

/-- The code of a body with a statement at a place is the code of the statement, and code around it. -/
theorem exists_around (stmt : Stmt) : ∀ (spot : Spot) {fuel : ℕ} {context : Context} {s s' : CompilerState} {c : Code},
    InFunction syms s → s'.labelCount < 2 ^ 31 →
    Compiler.compileBody (Compiler.compileStmt fuel) context (spot.fill stmt) s = .ok ((), s', c) →
    ∃ x before rest, Around stmt x fuel spot context s s' before rest ∧ c = before ++ (x.code ++ codeOf rest)
  | .here before after, fuel, context, s, s', c, hs, hn, h => by
    obtain ⟨s₁, s₂, hoisted, first, code, rest, hlevel, hstmt, rfl⟩ := body_split h
    refine ⟨⟨fuel, inside context before.length, s₁, s₂, code⟩, _, _, .here rfl rfl hlevel hstmt, ?_⟩
    rw [codeOf_marked, List.append_assoc]
  | .block before after inner, 0, context, s, s', c, hs, hn, h => by
    obtain ⟨s₁, s₂, hoisted, first, code, rest, hlevel, hstmt, rfl⟩ := body_split h
    cases hstmt
  | .block before after inner, fuel + 1, context, s, s', c, hs, hn, h => by
    obtain ⟨s₁, s₂, hoisted, first, code, rest, hlevel, hstmt, rfl⟩ := body_split h
    have hs₁ := hlevel.keeps hs
    have hs₂ := (statement_keeps _ _ _ _ _ _ _ hs₁ hstmt).1
    have hafter := hlevel.after_numbered hs₂ hn
    obtain ⟨x, pre, marks, haround, rfl⟩ := exists_around stmt inner hs₁ (by omega) hstmt
    refine ⟨x, _, _, .block hlevel haround, ?_⟩
    simp
  | .loop before after startExpr condition iterExpr inner, 0, context, s, s', c, hs, hn, h => by
    obtain ⟨s₁, s₂, hoisted, first, code, rest, hlevel, hstmt, rfl⟩ := body_split h
    cases hstmt
  | .loop before after startExpr condition iterExpr inner, fuel + 1, context, s, s', c, hs, hn, h => by
    obtain ⟨s₁, s₂, hoisted, first, code, rest, hlevel, hstmt, rfl⟩ := body_split h
    have hs₁ := hlevel.keeps hs
    have hs₂ := (statement_keeps _ _ _ _ _ _ _ hs₁ hstmt).1
    have hafter := hlevel.after_numbered hs₂ hn
    obtain ⟨s₃, s₄, p, hloop, hbody, hcode⟩ := compileLoop_run hstmt
    have hs₃ := loop_keeps hloop hs₁
    obtain ⟨-, hcount, -⟩ := hloop.start_plain hs₁.tidy
    obtain ⟨hcount', -, -⟩ := hloop.rest_plain (body_keeps hs₃ hbody).tidy
    obtain ⟨x, pre, marks, haround, heq⟩ := exists_around stmt inner hs₃ (by omega) hbody
    have hclear := haround.clear hs₃ (by omega)
    refine ⟨x, _, _, .loop hlevel hloop haround, ?_⟩
    rw [hcode (by omega)]
    simp [LoopParts.code, LoopParts.head, LoopParts.tail, heq]
  | .thenBody before after condition inner otherwise, 0, context, s, s', c, hs, hn, h => by
    obtain ⟨s₁, s₂, hoisted, first, code, rest, hlevel, hstmt, rfl⟩ := body_split h
    cases hstmt
  | .thenBody before after condition inner none, fuel + 1, context, s, s', c, hs, hn, h => by
    obtain ⟨s₁, s₂, hoisted, first, code, rest, hlevel, hstmt, rfl⟩ := body_split h
    have hconditional : Compiler.compileConditional (Compiler.compileStmt fuel) (inside context before.length)
        condition (inner.fill stmt) none s₁ = .ok ((), s₂, code) := hstmt
    have hs₁ := hlevel.keeps hs
    have hs₂ := (statement_keeps _ _ _ _ _ _ _ hs₁ hstmt).1
    have hafter := hlevel.after_numbered hs₂ hn
    obtain ⟨s₃, s₄, test, code', htest, hbody, rfl, hcode⟩ := compileConditional_run hconditional
    have hs₃ := htest.keeps hs₁
    have hcount := htest.count hs₁
    obtain ⟨x, pre, marks, haround, heq⟩ := exists_around stmt inner hs₃ (by omega) hbody
    have hclear := haround.clear hs₃ (by omega)
    refine ⟨x, _, _, .thenOnly hlevel htest haround, ?_⟩
    rw [hcode (by omega), heq]
    simp
  | .thenBody before after condition inner (some otherwise), fuel + 1, context, s, s', c, hs, hn, h => by
    obtain ⟨s₁, s₂, hoisted, first, code, rest, hlevel, hstmt, rfl⟩ := body_split h
    have hconditional : Compiler.compileConditional (Compiler.compileStmt fuel) (inside context before.length)
        condition (inner.fill stmt) (some otherwise) s₁ = .ok ((), s₂, code) := hstmt
    have hs₁ := hlevel.keeps hs
    have hs₂ := (statement_keeps _ _ _ _ _ _ _ hs₁ hstmt).1
    have hafter := hlevel.after_numbered hs₂ hn
    obtain ⟨s₃, s₄, test, code', htest, hbody, celse, helse, hcode⟩ := compileConditional_run hconditional
    have hs₃ := htest.keeps hs₁
    have hcount := htest.count hs₁
    have hotherwise := compileBody_numbered (body_keeps hs₃ hbody).tidy (by omega) helse
    obtain ⟨x, pre, marks, haround, heq⟩ := exists_around stmt inner hs₃ (by omega) hbody
    have hclear := haround.clear hs₃ (by omega)
    refine ⟨x, _, _, .thenElse hlevel htest haround helse, ?_⟩
    rw [hcode (by omega), heq]
    simp
  | .elseBody before after condition body inner, 0, context, s, s', c, hs, hn, h => by
    obtain ⟨s₁, s₂, hoisted, first, code, rest, hlevel, hstmt, rfl⟩ := body_split h
    cases hstmt
  | .elseBody before after condition body inner, fuel + 1, context, s, s', c, hs, hn, h => by
    obtain ⟨s₁, s₂, hoisted, first, code, rest, hlevel, hstmt, rfl⟩ := body_split h
    have hconditional : Compiler.compileConditional (Compiler.compileStmt fuel) (inside context before.length)
        condition body (some (inner.fill stmt)) s₁ = .ok ((), s₂, code) := hstmt
    have hs₁ := hlevel.keeps hs
    have hs₂ := (statement_keeps _ _ _ _ _ _ _ hs₁ hstmt).1
    have hafter := hlevel.after_numbered hs₂ hn
    obtain ⟨s₃, s₄, test, code', htest, hbody, celse, helse, hcode⟩ := compileConditional_run hconditional
    have hs₃ := htest.keeps hs₁
    have hs₄ := body_keeps hs₃ hbody
    have hcount := htest.count hs₁
    obtain ⟨x, pre, marks, haround, heq⟩ := exists_around stmt inner hs₄ (by omega) helse
    have hclear := haround.clear hs₄ (by omega)
    have hfirst := compileBody_numbered hs₃.tidy (by omega) hbody
    refine ⟨x, _, _, .elseBody hlevel htest hbody haround, ?_⟩
    rw [hcode (by omega), heq]
    simp

end

inductive Jump where
  | breaking
  | continuing

def Jump.written : Jump → StatementContext
  | .breaking => .breaking
  | .continuing => .continuing

/-- A statement at a place in the body of a loop, and the loop at a place in a body, with their code. -/
structure Occurrence where
  loop : Compilation
  before : Code
  after : Marks
  bodyStart : CompilerState
  bodyFinish : CompilerState
  parts : LoopParts
  jump : Compilation
  first : Code
  rest : Marks

structure Occurs (stmt : Stmt) (fuel : ℕ) (context : Context) (around : Spot)
    (startExpr condition iterExpr : Option Expr) (inner : Spot) (s s' : CompilerState) (c : Code)
    (o : Occurrence) : Prop where
  around : Around (.loop startExpr condition iterExpr (inner.fill stmt)) o.loop fuel around context s s'
    o.before o.after
  code : c = o.before ++ (o.loop.code ++ codeOf o.after)
  loop : CompiledLoop startExpr condition iterExpr o.loop.start o.bodyStart o.bodyFinish o.loop.finish o.parts
  loopCode : o.loop.code = o.parts.code (label ".lstart_" (o.loop.start.labelCount + 1))
    (label ".lend_" (o.loop.start.labelCount + 2)) (label ".lcond_" (o.loop.start.labelCount + 3))
  inner : ∃ fuel', o.loop.fuel = fuel' + 1 ∧ Around stmt o.jump fuel' inner
    (loopContext o.loop.context o.loop.start) o.bodyStart o.bodyFinish o.first o.rest
  body : o.parts.body = o.first ++ (o.jump.code ++ codeOf o.rest)

def Occurrence.position (o : Occurrence) : ℕ := o.before.length + (o.parts.start.length + 2 + o.first.length)

def Occurrence.stepPosition (o : Occurrence) : ℕ :=
  o.before.length + o.parts.position o.loop.code.length (.step 0)

def Occurrence.exit (o : Occurrence) : ℕ := o.before.length + o.parts.position o.loop.code.length .done

def Occurrence.target (o : Occurrence) : Jump → ℕ
  | .breaking => o.exit
  | .continuing => o.stepPosition

def Occurrence.stops (o : Occurrence) (pc : ℕ) : Prop :=
  (∃ k i, pc = o.position + o.jump.code.length + k ∧ o.rest[k]? = some (true, i)) ∨
    (o.stepPosition ≤ pc ∧ pc + 1 < o.exit)

/-- From the jump its target is reached with no other effect. -/
def Occurrence.Right (o : Occurrence) (jump : Jump) (c : Code) : Prop :=
  ∀ (α ω : Type) [NumOps α] (env : Environment α ω) (n : ℕ) (f : Frame α ω),
    Passing env n c o.stops ⟨o.position, f⟩ ⟨o.target jump, f⟩

theorem Around.loopEndLabels {stmt : Stmt} {x : Compilation} {fuel : ℕ} {spot : Spot} {context : Context}
    {s s' : CompilerState} {before : Code} {rest : Marks} (h : Around stmt x fuel spot context s s' before rest)
    (hfree : spot.loopFree = true) : x.context.loopEndLabels = context.loopEndLabels := by
  induction h with
  | here _ hcontext => rw [hcontext, inside]
  | block _ _ ih => exact ih hfree
  | loop => cases hfree
  | thenOnly _ _ _ ih => exact ih hfree
  | thenElse _ _ _ _ ih => exact ih hfree
  | elseBody _ _ _ _ ih => exact ih hfree

theorem breaking_code {x : Compilation} {lend : String} {ends : List String} (h : x.Of .brk)
    (hlabels : x.context.loopEndLabels = lend :: ends) : x.code = [jump lend] := by
  obtain ⟨fuel, ⟨path, addressed, labels, blocks⟩, start, finish, code⟩ := x
  cases hlabels
  cases fuel with
  | zero => cases h
  | succ fuel =>
    have hrun : Compiler.compileStmt (fuel + 1) ⟨path, addressed, lend :: ends, blocks⟩ .brk start =
      .ok ((), finish, code) := h
    cases hrun
    rfl

theorem continuing_code {x : Compilation} (h : x.Of (.expression .empty false false true)) : x.code = [] := by
  obtain ⟨fuel, context, start, finish, code⟩ := x
  cases fuel with
  | zero => cases h
  | succ fuel =>
    have hrun : Compiler.compileStmt (fuel + 1) context (.expression .empty false false true) start =
      .ok ((), finish, code) := h
    cases hrun
    rfl

theorem code_ends (p : LoopParts) (lstart lend lcond : String) :
    ∃ front, p.code lstart lend lcond = front ++ [labelled lend] := by
  unfold LoopParts.code LoopParts.test
  split
  · exact ⟨p.start ++ jump lcond :: labelled lstart :: (p.body ++ (p.step ++ [labelled lcond])), by simp⟩
  · rename_i c reg _
    exact ⟨p.start ++ jump lcond :: labelled lstart :: (p.body ++ (p.step ++ labelled lcond :: (c ++
      [⟨.JMP_TRUE, .num reg, .str lstart, .num 0⟩]))), by simp⟩

theorem code_tail (p : LoopParts) (s : CompilerState) :
    p.code (label ".lstart_" (s.labelCount + 1)) (label ".lend_" (s.labelCount + 2))
      (label ".lcond_" (s.labelCount + 3)) = LoopParts.head p s ++ (p.body ++ LoopParts.tail p s) := by
  simp [LoopParts.code, LoopParts.head, LoopParts.tail]

section

variable {syms : List (String × ℕ)} {stmt : Stmt} {fuel : ℕ} {context : Context} {around inner : Spot}
  {startExpr condition iterExpr : Option Expr} {s s' : CompilerState} {c : Code} {o : Occurrence}

def Occurrence.start (o : Occurrence) : Code :=
  o.before ++ (LoopParts.head o.parts o.loop.start ++ (o.first ++ o.jump.code))

theorem Occurs.split (h : Occurs stmt fuel context around startExpr condition iterExpr inner s s' c o) :
    c = o.start ++ (codeOf o.rest ++ (LoopParts.tail o.parts o.loop.start ++ codeOf o.after)) := by
  rw [h.code, h.loopCode, code_tail, h.body, Occurrence.start]
  simp

theorem Occurs.start_length (o : Occurrence) : o.start.length = o.position + o.jump.code.length := by
  simp only [Occurrence.start, Occurrence.position, LoopParts.head, List.length_append, List.length_cons,
    List.length_nil]
  omega

theorem Occurs.step_position (h : Occurs stmt fuel context around startExpr condition iterExpr inner s s' c o) :
    o.stepPosition = o.start.length + o.rest.length := by
  rw [Occurs.start_length]
  simp only [Occurrence.stepPosition, Occurrence.position, LoopParts.position, h.body, List.length_append,
    length_codeOf]
  omega

theorem Occurs.exit_after (h : Occurs stmt fuel context around startExpr condition iterExpr inner s s' c o) :
    o.stepPosition + 1 < o.exit := by
  have htest : 0 < (o.parts.test (label ".lstart_" (o.loop.start.labelCount + 1))
      (label ".lend_" (o.loop.start.labelCount + 2))).length := by
    unfold LoopParts.test
    split <;> simp
  simp only [Occurrence.stepPosition, Occurrence.exit, LoopParts.position, h.loopCode, LoopParts.code,
    List.length_append, List.length_cons]
  omega

theorem Occurs.stopsAt (h : Occurs stmt fuel context around startExpr condition iterExpr inner s s' c o) :
    StopsAt o.stops o.start.length o.rest := by
  intro k b i hi
  have hk := (List.getElem?_eq_some_iff.mp hi).1
  have hstep := h.step_position
  rw [Occurs.start_length] at hstep ⊢
  constructor
  · rintro (⟨k', i', heq, hi'⟩ | ⟨hle, -⟩)
    · obtain rfl : k' = k := by omega
      rw [hi] at hi'
      cases hi'
      rfl
    · omega
  · rintro rfl
    exact .inl ⟨k, i, rfl, hi⟩

theorem Occurs.goes (h : Occurs stmt fuel context around startExpr condition iterExpr inner s s' c o)
    (hinner : inner.loopFree = true) (hs : InFunction syms s) (hn : s'.labelCount < 2 ^ 31) :
    Goes o.stops c o.start.length o.rest.length (silentAll (symbolsOf syms) inner.following = true) := by
  obtain ⟨fuel', -, hjump⟩ := h.inner
  have hstart := (h.around.keeps hs).1
  have hbody := loop_keeps h.loop hstart
  have hfinish := (hjump.keeps hbody).2.2
  obtain ⟨-, -, hle, hclear⟩ := h.around.clear hs hn
  have hafter := hclear [] fun _ _ => rfl
  rw [List.append_nil] at hafter
  obtain ⟨-, hle', htail⟩ := loop_clear h.loop hstart hfinish
  exact hjump.goes hinner hbody (by omega) (htail _ hafter) h.split h.stopsAt

theorem Occurs.right_continuing
    (h : Occurs (.expression .empty false false true) fuel context around startExpr condition iterExpr inner s s' c o)
    (hinner : inner.loopFree = true) (hs : InFunction syms s) (hn : s'.labelCount < 2 ^ 31) :
    o.Right .continuing c ↔ silentAll (symbolsOf syms) inner.following = true := by
  obtain ⟨fuel', -, hjump⟩ := h.inner
  have hstart : o.start.length = o.position := by
    rw [Occurs.start_length, continuing_code hjump.of]
    rfl
  have hgoes := h.goes hinner hs hn
  have hstep := h.step_position
  rw [hstart] at hgoes hstep
  constructor
  · intro hright
    let f : Frame ℚ Unit := ⟨fun _ => .null, [], ()⟩
    obtain ⟨k, -, hrun, ⟨hsilent, -⟩ | ⟨-, hlt, hstop⟩⟩ := hgoes ℚ Unit quiet 0 f
    · exact hsilent
    · have htarget : o.stops o.stepPosition := .inr ⟨Nat.le_refl _, h.exit_after⟩
      have hsame := Passing.ends hrun (hright ℚ Unit quiet 0 f) hstop htarget
      injection hsame with hpc
      change o.position + k = o.stepPosition at hpc
      omega
  · intro hsilent α ω _ env n f
    obtain ⟨k, -, hrun, ⟨-, rfl⟩ | ⟨hloud, -⟩⟩ := hgoes α ω env n f
    · rw [← hstep] at hrun
      exact hrun
    · exact absurd hsilent hloud

def Occurrence.lend (o : Occurrence) : String := label ".lend_" (o.loop.start.labelCount + 2)

theorem Occurs.exit_label (h : Occurs stmt fuel context around startExpr condition iterExpr inner s s' c o) :
    ∃ front, c = front ++ labelled o.lend :: codeOf o.after ∧ o.exit = front.length + 1 := by
  obtain ⟨front, hfront⟩ := code_ends o.parts (label ".lstart_" (o.loop.start.labelCount + 1)) o.lend
    (label ".lcond_" (o.loop.start.labelCount + 3))
  have hloop : o.loop.code = front ++ [labelled o.lend] := h.loopCode.trans hfront
  refine ⟨o.before ++ front, ?_, ?_⟩
  · rw [h.code, hloop]
    simp
  · simp only [Occurrence.exit, LoopParts.position, hloop, List.length_append, List.length_cons, List.length_nil]
    omega

theorem Occurs.lend_clear (h : Occurs stmt fuel context around startExpr condition iterExpr inner s s' c o)
    (hs : InFunction syms s) (hn : s'.labelCount < 2 ^ 31) : labelIndex (codeOf o.after) o.lend = none := by
  obtain ⟨fuel', -, hjump⟩ := h.inner
  have hstart := (h.around.keeps hs).1
  have hbody := loop_keeps h.loop hstart
  have hfinish := (hjump.keeps hbody).2.2
  obtain ⟨-, -, hle, hclear⟩ := h.around.clear hs hn
  obtain ⟨-, hcount, -⟩ := h.loop.start_plain hstart.tidy
  obtain ⟨hcount', -, -⟩ := h.loop.rest_plain hfinish.tidy
  have hbetween := hjump.clear hbody (by omega)
  have hafter := hclear [] fun _ _ => rfl
  rw [List.append_nil] at hafter
  exact hafter _ ⟨".lend_", o.loop.start.labelCount + 2, by decide, by omega, by omega, rfl⟩

theorem Occurs.right_breaking
    (h : Occurs .brk fuel context around startExpr condition iterExpr inner s s' c o)
    (hinner : inner.loopFree = true) (hs : InFunction syms s) (hn : s'.labelCount < 2 ^ 31) :
    o.Right .breaking c := by
  obtain ⟨fuel', -, hjump⟩ := h.inner
  have hcode : o.jump.code = [jump o.lend] := breaking_code hjump.of (hjump.loopEndLabels hinner)
  have hposition : (c)[o.position]? = some (jump o.lend) := by
    have hsplit : c = (o.before ++ (LoopParts.head o.parts o.loop.start ++ o.first)) ++ jump o.lend ::
        (codeOf o.rest ++ (LoopParts.tail o.parts o.loop.start ++ codeOf o.after)) := by
      rw [h.split, Occurrence.start, hcode]
      simp
    have hlength : (o.before ++ (LoopParts.head o.parts o.loop.start ++ o.first)).length = o.position := by
      simp only [Occurrence.position, LoopParts.head, List.length_append, List.length_cons, List.length_nil]
    rw [hsplit, ← hlength, List.getElem?_append_right (Nat.le_refl _), Nat.sub_self]
    rfl
  obtain ⟨front, hlast, hexit⟩ := h.exit_label
  have hstep := h.step_position
  have hlength := Occurs.start_length o
  have hafter := h.exit_after
  rw [hcode, List.length_singleton] at hlength
  have hbefore : ¬ o.stops o.position := by
    rintro (⟨k, i, heq, -⟩ | ⟨hle, -⟩)
    · rw [hcode, List.length_singleton] at heq
      omega
    · omega
  have hend : ¬ o.stops front.length := by
    rintro (⟨k, i, heq, hi⟩ | ⟨-, hlt⟩)
    · have hk := (List.getElem?_eq_some_iff.mp hi).1
      rw [hcode, List.length_singleton] at heq
      omega
    · omega
  intro α ω _ env n f
  have hjumped : stepAt env n c ⟨o.position, f⟩ = some ⟨front.length, f⟩ := by
    refine stepAt_jump hposition (exec_jump _ f) ?_
    rw [hlast]
    exact labelIndex_last front (h.lend_clear hs hn)
  have hlabel : stepAt env n c ⟨front.length, f⟩ = some ⟨o.exit, f⟩ := by
    rw [hexit]
    refine stepAt_next ?_ (exec_labelled o.lend f)
    rw [hlast, List.getElem?_append_right (Nat.le_refl _), Nat.sub_self]
    rfl
  exact (ReflTransGen.single ⟨hbefore, hjumped⟩).tail ⟨hend, hlabel⟩

theorem exists_occurrence (hs : InFunction syms s) (hn : s'.labelCount < 2 ^ 31)
    (hrun : Compiler.compileBody (Compiler.compileStmt fuel) context
      (around.fill (.loop startExpr condition iterExpr (inner.fill stmt))) s = .ok ((), s', c)) :
    ∃ o, Occurs stmt fuel context around startExpr condition iterExpr inner s s' c o := by
  obtain ⟨⟨loopFuel, loopContext', start, finish, code⟩, before, after, haround, hcode⟩ := exists_around _ _ hs hn hrun
  obtain ⟨hstart, hfinish, -⟩ := haround.keeps hs
  have hbounds := haround.clear hs hn
  have hof := haround.of
  cases loopFuel with
  | zero => cases hof
  | succ fuel' =>
    obtain ⟨s₁, s₂, p, hloop, hbody, hloopCode⟩ := compileLoop_run hof
    have hs₁ := loop_keeps hloop hstart
    obtain ⟨-, hcount, -⟩ := hloop.start_plain hstart.tidy
    obtain ⟨hcount', -, -⟩ := hloop.rest_plain (body_keeps hs₁ hbody).tidy
    dsimp only at hbounds hcount hcount'
    obtain ⟨x, first, rest, hjump, hparts⟩ := exists_around _ _ hs₁ (by omega) hbody
    have hinner := hjump.clear hs₁ (by omega)
    exact ⟨⟨⟨fuel' + 1, loopContext', start, finish, code⟩, before, after, s₁, s₂, p, x, first, rest⟩,
      haround, hcode, hloop, hloopCode (by dsimp only; omega), ⟨fuel', rfl, hjump⟩, hparts⟩

end

/-- The jump of a statement goes where it should, from every place, if it is a `break` or no statement with code
follows. -/
theorem jumps_iff {parse : List Token → Option ExpressionContext} {again : ExpressionContext → Visit Expr}
    {jump : Jump} {g g' : AstGenerator} {stmt : Stmt} {pushed : Body} {syms : List (String × ℕ)} {fuel : ℕ}
    {context : Context} {around inner : Spot} {startExpr condition iterExpr : Option Expr}
    {s s' : CompilerState} {c : Code}
    (hvisit : AstGenerator.visitStatement parse again jump.written g = .ok ([stmt], g', pushed))
    (hinner : inner.loopFree = true) (hs : InFunction syms s) (hn : s'.labelCount < 2 ^ 31)
    (hrun : Compiler.compileBody (Compiler.compileStmt fuel) context
      (around.fill (.loop startExpr condition iterExpr (inner.fill stmt))) s = .ok ((), s', c)) :
    (∃ o, Occurs stmt fuel context around startExpr condition iterExpr inner s s' c o) ∧
      ∀ o, Occurs stmt fuel context around startExpr condition iterExpr inner s s' c o →
        (o.Right jump c ↔ jump = .breaking ∨ silentAll (symbolsOf syms) inner.following = true) := by
  refine ⟨exists_occurrence hs hn hrun, ?_⟩
  intro o ho
  cases jump with
  | breaking =>
    cases hvisit
    exact iff_of_true (ho.right_breaking hinner hs hn) (.inl rfl)
  | continuing =>
    cases hvisit
    simpa using ho.right_continuing hinner hs hn

def sampleRest : Body := [.expression (.binary .assign (.ident "x") (.terminal (.number "1"))) false false false]

def sampleCompiles (around inner : Spot) : Bool :=
  match Compiler.compileBody (Compiler.compileStmt 6) sampleContext (around.fill
      (.loop none (some (.ident "x")) none (inner.fill (.expression .empty false false true)))) sampleState with
  | .ok (_, s, _) => decide (s.labelCount < 2 ^ 31)
  | .error _ => false

theorem sample_compiles {around inner : Spot} (h : sampleCompiles around inner = true) : ∃ s c,
    Compiler.compileBody (Compiler.compileStmt 6) sampleContext (around.fill
        (.loop none (some (.ident "x")) none (inner.fill (.expression .empty false false true))))
        sampleState = .ok ((), s, c) ∧ s.labelCount < 2 ^ 31 := by
  unfold sampleCompiles at h
  split at h
  · rename_i s c hrun
    exact ⟨s, c, hrun, of_decide_eq_true h⟩
  · cases h

def sampleAround : Spot := .loop [] [] none (some (.ident "x")) none (.here [] [])

def sampleInner : Spot := .thenBody [] sampleRest (.ident "x") (.here [] []) none

/-- The place of the inner loop, and the place of the jump in its body. -/
theorem jumps_iff_while : ∃ s c,
    Compiler.compileBody (Compiler.compileStmt 6) sampleContext (sampleAround.fill
        (.loop none (some (.ident "x")) none (sampleInner.fill (.expression .empty false false true))))
        sampleState = .ok ((), s, c) ∧
      (∃ o, Occurs (.expression .empty false false true) 6 sampleContext sampleAround none (some (.ident "x")) none
        sampleInner sampleState s c o) ∧
      ∀ o, Occurs (.expression .empty false false true) 6 sampleContext sampleAround none (some (.ident "x")) none
        sampleInner sampleState s c o →
          (o.Right .continuing c ↔ Jump.continuing = .breaking ∨
            silentAll (symbolsOf sampleState.function.symbolTable) sampleInner.following = true) := by
  have hcompiles : sampleCompiles sampleAround sampleInner = true := by decide +kernel
  obtain ⟨s, c, hrun, hn⟩ := sample_compiles hcompiles
  refine ⟨s, c, hrun, ?_⟩
  exact jumps_iff (show AstGenerator.visitStatement noParser neverAgain Jump.continuing.written {} = _ from rfl) rfl
    ⟨sampleState_tidy, rfl⟩ hn hrun

/-- `while (x) { continue; x = 1; }`: the assignment behind the `continue` is executed. -/
theorem continue_runs_on : ∃ s c o,
    Compiler.compileBody (Compiler.compileStmt 6) sampleContext ((Spot.here [] []).fill
        (.loop none (some (.ident "x")) none ((Spot.here [] sampleRest).fill (.expression .empty false false true))))
        sampleState = .ok ((), s, c) ∧
      Occurs (.expression .empty false false true) 6 sampleContext (.here [] []) none (some (.ident "x")) none
        (.here [] sampleRest) sampleState s c o ∧ ¬ o.Right .continuing c := by
  have hs : InFunction sampleState.function.symbolTable sampleState := ⟨sampleState_tidy, rfl⟩
  have hcompiles : sampleCompiles (.here [] []) (.here [] sampleRest) = true := by decide +kernel
  obtain ⟨s, c, hrun, hn⟩ := sample_compiles hcompiles
  obtain ⟨o, ho⟩ := exists_occurrence hs hn hrun
  refine ⟨s, c, o, hrun, ho, ?_⟩
  rw [ho.right_continuing rfl hs hn]
  decide +kernel

end Zeroscript.Jumps
