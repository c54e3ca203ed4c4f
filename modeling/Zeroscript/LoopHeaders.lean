import Zeroscript.AppendedStatements
import Zeroscript.Jumps

/-! # Loops as they are written

The header of a `for` loop is read from the list of the expressions in it, and is misread when a part is missing
before another one. What the visit of a part appends is compiled before the loop, though it belongs to the part. -/
namespace Zeroscript.LoopHeaders

open AppendedStatements Emission InstructionShapes Loops Segments SilentCode StraightCode
open AstGenerator (visitAt visitBodyOrStatement visitExpression visitInit visitStatement)
open ExpressionInversion (symbolsOf)
open Jumps (inside statements_split)

/-- What stands in the parentheses and behind them. -/
structure LoopContext where
  init : ForInitContext
  condition : Option ExpressionContext
  step : Option ExpressionContext
  body : BodyOrStatementContext

def loopOf : StatementContext → Option LoopContext
  | .forLoop init condition step body => some ⟨init, condition, step, body⟩
  | .whileLoop condition body => some ⟨.none, condition, none, body⟩
  | _ => none

def startOf : ForInitContext → Option ExpressionContext
  | .expression e => some e
  | .none | .var _ => none

structure LoopExprs where
  start : Option Expr
  condition : Option Expr
  step : Option Expr
  body : Body

def LoopExprs.stmt (t : LoopExprs) : Stmt := .loop t.start t.condition t.step t.body

inductive Part where
  | declared
  | start
  | condition
  | step
  | body
  deriving DecidableEq

def visitOrder : StatementContext → List Part
  | .whileLoop _ _ => [.declared, .start, .condition, .body, .step]
  | _ => [.declared, .start, .body, .condition, .step]

section

variable (parse : List Token → Option ExpressionContext) (again : ExpressionContext → Visit Expr)

def MadeBy (visit : Option (Visit Expr)) (part : Option Expr) (g : AstGenerator) (appended : Body)
    (g' : AstGenerator) : Prop :=
  match visit, part with
  | none, none => appended = [] ∧ g' = g
  | some visit, some e => visit g = .ok (e, g', appended)
  | _, _ => False

def Written (w : LoopContext) (t : LoopExprs) (g : AstGenerator) (appended : Body) (g' : AstGenerator) :
    Part → Prop
  | .declared => visitInit parse again w.init g = .ok ((), g', appended)
  | .start => MadeBy ((startOf w.init).map (visitExpression parse again)) t.start g appended g'
  | .condition => MadeBy (w.condition.map (visitExpression parse again)) t.condition g appended g'
  | .step => MadeBy (w.step.map (visitExpression parse again)) t.step g appended g'
  | .body => visitBodyOrStatement parse again w.body g = .ok (t.body, g', appended)

inductive Visited (w : LoopContext) (t : LoopExprs) : List (Part × Body) → AstGenerator → AstGenerator → Prop where
  | nil {g : AstGenerator} : Visited w t [] g g
  | cons {part : Part} {appended : Body} {rest : List (Part × Body)} {g g₁ g' : AstGenerator}
      (h : Written parse again w t g appended g₁ part) (hrest : Visited w t rest g₁ g') :
      Visited w t ((part, appended) :: rest) g g'

end

/-- What the visits have appended is compiled one after the other, from statement number `i` on. -/
inductive CompiledAhead (fuel : ℕ) (context : Context) :
    ℕ → List (Part × Body) → CompilerState → List (Part × Code) → CompilerState → Prop where
  | nil {i : ℕ} {s : CompilerState} : CompiledAhead fuel context i [] s [] s
  | cons {i : ℕ} {part : Part} {appended : Body} {rest : List (Part × Body)} {s s₁ s' : CompilerState} {c : Code}
      {codes : List (Part × Code)}
      (h : Compiler.compileStatements (Compiler.compileStmt fuel) context i appended s = .ok ((), s₁, c))
      (hrest : CompiledAhead fuel context (i + appended.length) rest s₁ codes s') :
      CompiledAhead fuel context i ((part, appended) :: rest) s ((part, c) :: codes) s'

/-- All of it stands before the loop. -/
def ahead (codes : List (Part × Code)) : Code := codes.flatMap Prod.snd

def codeOf (codes : List (Part × Code)) (part : Part) : Code := (codes.lookup part).getD []

def offsetOf : List (Part × Code) → Part → ℕ
  | [], _ => 0
  | (part', c) :: codes, part => if part = part' then 0 else c.length + offsetOf codes part

/-- The loop as it is written: what the visit of a part has appended is done where the part is. -/
def written (codes : List (Part × Code)) (p : LoopParts) : LoopParts where
  start := codeOf codes .declared ++ (codeOf codes .start ++ p.start)
  body := codeOf codes .body ++ p.body
  step := codeOf codes .step ++ p.step
  condition := p.condition.map fun c => (codeOf codes .condition ++ c.1, c.2)

def displaced (offset : ℕ) (code : Code) (base k : ℕ) : ℕ :=
  if k < code.length then offset + k else base + (k - code.length)

def position (codes : List (Part × Code)) (p : LoopParts) (length : ℕ) : Place → ℕ
  | .start k => displaced 0 (codeOf codes .declared ++ codeOf codes .start) (ahead codes).length k
  | .round => (ahead codes).length + p.start.length + 1
  | .body k => displaced (offsetOf codes .body) (codeOf codes .body) ((ahead codes).length + p.start.length + 2) k
  | .step k => displaced (offsetOf codes .step) (codeOf codes .step)
      ((ahead codes).length + p.start.length + 2 + p.body.length) k
  | .condition k => displaced (offsetOf codes .condition) (codeOf codes .condition)
      ((ahead codes).length + p.start.length + 2 + p.body.length + p.step.length + 1) k
  | .done => length

/-- A loop, the tree that a visit makes of it, the statements `pushed` that the visit appends, and their code. -/
structure Reading (parse : List Token → Option ExpressionContext) (again : ExpressionContext → Visit Expr)
    (loop : StatementContext) (w : LoopContext) (t : LoopExprs) (g g' : AstGenerator) (pushed : Body) (fuel : ℕ)
    (context : Context) (i : ℕ) (s : CompilerState) (appended : List (Part × Body)) (codes : List (Part × Code))
    (p : LoopParts) : Prop where
  order : appended.map Prod.fst = visitOrder loop
  pushes : pushed = appended.flatMap Prod.snd
  visited : Visited parse again w t appended g g'
  compiled : ∃ s₁, CompiledAhead (fuel + 1) context i appended s codes s₁ ∧
    CompiledParts fuel (inside context (i + pushed.length)) t.start t.condition t.step t.body s₁ p

/-- The loop is read as it is written, and the code of what its visit makes runs it. -/
def LoopBehaves (parse : List Token → Option ExpressionContext) (again : ExpressionContext → Visit Expr)
    (loop : StatementContext) (w : LoopContext) (t : LoopExprs) (g g' : AstGenerator) (pushed : Body) (fuel : ℕ)
    (context : Context) (i : ℕ) (s : CompilerState) (code : Code) : Prop :=
  ∃ appended codes p, Reading parse again loop w t g g' pushed fuel context i s appended codes p ∧
    Simulated (written codes p) code (position codes p code.length)

section

variable {parse : List Token → Option ExpressionContext} {again : ExpressionContext → Visit Expr}
  {visit : Option (Visit Expr)} {part : Option Expr} {g g' : AstGenerator} {appended : Body}

theorem MadeBy.isSome (h : MadeBy visit part g appended g') : part.isSome = visit.isSome := by
  match visit, part with
  | none, none => rfl
  | some _, some _ => rfl
  | none, some _ => exact h.elim
  | some _, none => exact h.elim

theorem visitAt_made {expressions : List (Visit Expr)} {i : ℕ}
    (h : visitAt expressions i g = .ok (part, g', appended)) : MadeBy expressions[i]? part g appended g' := by
  unfold visitAt at h
  cases hi : expressions[i]? with
  | none =>
    rw [hi] at h
    obtain ⟨rfl, rfl, rfl⟩ := pure_ok.mp h
    exact ⟨rfl, rfl⟩
  | some visit =>
    rw [hi] at h
    obtain ⟨e, g₁, c₁, c₂, hvisit, hrest, rfl⟩ := bind_ok.mp h
    obtain ⟨rfl, rfl, rfl⟩ := pure_ok.mp hrest
    rw [List.append_nil]
    exact hvisit

structure ForVisits (parse : List Token → Option ExpressionContext) (again : ExpressionContext → Visit Expr)
    (w : LoopContext) (t : LoopExprs) (expressions : List (Visit Expr)) (k : ℕ) (g g' : AstGenerator)
    (declared start body condition step : Body) : Prop where
  visits : ∃ g₁ g₂ g₃ g₄, visitInit parse again w.init g = .ok ((), g₁, declared) ∧
    MadeBy (if k = 1 then expressions[0]? else none) t.start g₁ start g₂ ∧
    visitBodyOrStatement parse again w.body g₂ = .ok (t.body, g₃, body) ∧
    MadeBy expressions[k]? t.condition g₃ condition g₄ ∧ MadeBy expressions[k + 1]? t.step g₄ step g'

theorem loopRest_made {expressions : List (Visit Expr)} {i : ℕ} {visitBody : Visit Body} {first : Option Expr}
    {t : LoopExprs} {pushed : Body}
    (h : (do
      let body ← visitBody
      let condition ← visitAt expressions i
      let iterExpr ← visitAt expressions (i + 1)
      return [Stmt.loop first condition iterExpr body]) g = .ok ([t.stmt], g', pushed)) :
    first = t.start ∧ ∃ g₁ g₂ body condition step, visitBody g = .ok (t.body, g₁, body) ∧
      MadeBy expressions[i]? t.condition g₁ condition g₂ ∧ MadeBy expressions[i + 1]? t.step g₂ step g' ∧
      pushed = body ++ (condition ++ step) := by
  obtain ⟨b, g₁, c₁, d₁, hbody, hrest₁, rfl⟩ := bind_ok.mp h
  obtain ⟨second, g₂, c₂, d₂, hcond, hrest₂, rfl⟩ := bind_ok.mp hrest₁
  obtain ⟨third, g₃, c₃, d₃, hiter, hrest₃, rfl⟩ := bind_ok.mp hrest₂
  obtain ⟨heq, rfl, rfl⟩ := pure_ok.mp hrest₃
  cases t
  cases heq
  exact ⟨rfl, g₁, g₂, c₁, c₂, c₃, hbody, visitAt_made hcond, visitAt_made hiter, by rw [List.append_nil]⟩

theorem forLoop_made {w : LoopContext} {t : LoopExprs} {pushed : Body}
    (h : visitStatement parse again (.forLoop w.init w.condition w.step w.body) g = .ok ([t.stmt], g', pushed)) :
    ∃ expressions k declared start body condition step,
      expressions = AstGenerator.initExpression parse again w.init ++
        AstGenerator.optionExpression parse again w.condition ++ AstGenerator.optionExpression parse again w.step ∧
      k = (if AstGenerator.startsWithVar w.init then 0 else if 2 < expressions.length then 1 else 0) ∧
      ForVisits parse again w t expressions k g g' declared start body condition step ∧
      pushed = declared ++ (start ++ (body ++ (condition ++ step))) := by
  rw [visitStatement] at h
  obtain ⟨⟨⟩, g₁, declared, d₁, hinit, hrest₁, rfl⟩ := bind_ok.mp h
  clear h
  generalize AstGenerator.initExpression parse again w.init ++ AstGenerator.optionExpression parse again w.condition ++
    AstGenerator.optionExpression parse again w.step = expressions at hrest₁ ⊢
  generalize hk : (if AstGenerator.startsWithVar w.init then 0 else if 2 < expressions.length then 1 else 0) = k
    at hrest₁
  dsimp only at hrest₁
  by_cases hone : k = 1
  · rw [if_pos hone] at hrest₁
    obtain ⟨first, g₂, start, d₂, hstart, hrest₂, rfl⟩ := bind_ok.mp hrest₁
    obtain ⟨rfl, g₃, g₄, body, condition, step, hbody, hcond, hiter, rfl⟩ := loopRest_made hrest₂
    refine ⟨expressions, k, declared, start, body, condition, step, rfl, hk.symm, ⟨g₁, g₂, g₃, g₄, hinit, ?_, hbody,
      hcond, hiter⟩, rfl⟩
    rw [if_pos hone]
    exact visitAt_made hstart
  · rw [if_neg hone] at hrest₁
    obtain ⟨first, g₂, start, d₂, hstart, hrest₂, rfl⟩ := bind_ok.mp hrest₁
    obtain ⟨rfl, rfl, rfl⟩ := pure_ok.mp hstart
    obtain ⟨hfirst, g₃, g₄, body, condition, step, hbody, hcond, hiter, rfl⟩ := loopRest_made hrest₂
    refine ⟨expressions, k, declared, [], body, condition, step, rfl, hk.symm, ⟨g₁, g₁, g₃, g₄, hinit, ?_, hbody,
      hcond, hiter⟩, rfl⟩
    rw [if_neg hone, ← hfirst]
    exact ⟨rfl, rfl⟩

theorem positions_right {o c t : Option (Visit Expr)} {expressions : List (Visit Expr)} {k : ℕ}
    (hexpressions : expressions = o.toList ++ c.toList ++ t.toList)
    (hk : k = if 2 < expressions.length then 1 else 0) (hc : c.isSome = true) (ht : o.isSome = true → t.isSome = true) :
    (if k = 1 then expressions[0]? else none) = o ∧ expressions[k]? = c ∧ expressions[k + 1]? = t := by
  subst hexpressions
  match o, c, t with
  | some _, some _, some _ | none, some _, some _ | none, some _, none =>
    subst hk
    exact ⟨rfl, rfl, rfl⟩
  | some _, some _, none => cases ht rfl
  | _, none, _ => cases hc

theorem positions_only {o c t : Option (Visit Expr)} {expressions : List (Visit Expr)} {k : ℕ}
    {first second : Option Expr} (hexpressions : expressions = o.toList ++ c.toList ++ t.toList)
    (hk : k = if 2 < expressions.length then 1 else 0)
    (hfirst : first.isSome = (if k = 1 then expressions[0]? else none).isSome) (ho : first.isSome = o.isSome)
    (hc : second.isSome = c.isSome) (hsecond : second.isSome = true) :
    c.isSome = true ∧ (o.isSome = true → t.isSome = true) := by
  rw [hsecond] at hc
  refine ⟨hc.symm, fun hsome => ?_⟩
  subst hexpressions
  match o, c, t with
  | _, _, some _ => rfl
  | some _, some _, none =>
    subst hk
    rw [ho] at hfirst
    cases hfirst
  | none, _, none => cases hsome
  | _, none, none => cases hc

end

section

variable {fuel : ℕ} {context : Context} {appended : List (Part × Body)} {codes : List (Part × Code)}
  {s s' : CompilerState}

theorem compileStatements_append {rest : Body} : ∀ {body : Body} {i : ℕ} {s s' : CompilerState} {c : Code},
    Compiler.compileStatements (Compiler.compileStmt fuel) context i (body ++ rest) s = .ok ((), s', c) ↔
      ∃ s₁ c₁ c₂, Compiler.compileStatements (Compiler.compileStmt fuel) context i body s = .ok ((), s₁, c₁) ∧
        Compiler.compileStatements (Compiler.compileStmt fuel) context (i + body.length) rest s₁ =
          .ok ((), s', c₂) ∧ c = c₁ ++ c₂
  | [], i, s, s', c => by
    constructor
    · intro h
      exact ⟨s, [], c, rfl, h, rfl⟩
    · rintro ⟨s₁, c₁, c₂, hnone, hrest, rfl⟩
      obtain ⟨-, rfl, rfl⟩ := pure_ok.mp hnone
      exact hrest
  | stmt :: body, i, s, s', c => by
    constructor
    · intro h
      obtain ⟨⟨⟩, s₀, c₀, d₀, hfirst, hrest, rfl⟩ := bind_ok.mp h
      obtain ⟨s₁, c₁, c₂, hbody, hafter, rfl⟩ := compileStatements_append.mp hrest
      rw [Nat.add_right_comm i 1] at hafter
      exact ⟨s₁, c₀ ++ c₁, c₂, bind_ok.mpr ⟨(), s₀, c₀, c₁, hfirst, hbody, rfl⟩, hafter, (List.append_assoc _ _ _).symm⟩
    · rintro ⟨s₁, c₁, c₂, h, hafter, rfl⟩
      obtain ⟨⟨⟩, s₀, c₀, d₀, hfirst, hbody, rfl⟩ := bind_ok.mp h
      rw [List.length_cons, ← Nat.add_assoc, Nat.add_right_comm] at hafter
      exact bind_ok.mpr ⟨(), s₀, c₀, d₀ ++ c₂, hfirst, compileStatements_append.mpr ⟨s₁, d₀, c₂, hbody, hafter, rfl⟩,
        List.append_assoc _ _ _⟩

theorem compiledAhead_iff : ∀ {appended : List (Part × Body)} {i : ℕ} {s : CompilerState} {before : Code},
    Compiler.compileStatements (Compiler.compileStmt fuel) context i (appended.flatMap Prod.snd) s =
        .ok ((), s', before) ↔
      ∃ codes, CompiledAhead fuel context i appended s codes s' ∧ before = ahead codes
  | [], i, s, before => by
    constructor
    · intro h
      obtain ⟨-, rfl, rfl⟩ := pure_ok.mp h
      exact ⟨[], .nil, rfl⟩
    · rintro ⟨codes, h, rfl⟩
      cases h
      rfl
  | (part, statements) :: rest, i, s, before => by
    rw [List.flatMap_cons, compileStatements_append]
    constructor
    · rintro ⟨s₁, c₁, c₂, hfirst, hrest, rfl⟩
      obtain ⟨codes, hcodes, rfl⟩ := compiledAhead_iff.mp hrest
      exact ⟨(part, c₁) :: codes, .cons hfirst hcodes, rfl⟩
    · rintro ⟨codes, h, rfl⟩
      cases h with
      | @cons _ _ _ _ _ s₁ _ c codes hfirst hrest =>
        exact ⟨s₁, c, ahead codes, hfirst, compiledAhead_iff.mpr ⟨codes, hrest, rfl⟩, rfl⟩

theorem CompiledAhead.parts {i : ℕ} (h : CompiledAhead fuel context i appended s codes s') :
    codes.map Prod.fst = appended.map Prod.fst := by
  induction h with
  | nil => rfl
  | cons _ _ ih => rw [List.map_cons, List.map_cons, ih]

variable {syms : List (String × ℕ)}

theorem statements_keep {i : ℕ} {body : Body} {c : Code} (hs : InFunction syms s)
    (h : Compiler.compileStatements (Compiler.compileStmt fuel) context i body s = .ok ((), s', c)) :
    InFunction syms s' :=
  (compileStatements_forms (compileStmt_forms (inFunction_stable syms) (fun _ _ => trivial) fuel) context i body s _
    s' c hs h).1

theorem CompiledAhead.silent {i : ℕ} (h : CompiledAhead fuel context i appended s codes s') (hs : InFunction syms s) :
    List.Forall₂ (fun x y => x.1 = y.1 ∧ (y.2 = [] ↔ silentAll (symbolsOf syms) x.2 = true)) appended codes := by
  induction h with
  | nil => exact .nil
  | cons hfirst _ ih =>
    exact .cons ⟨rfl, compileStatements_silent (fun hs h => compileStmt_silent fuel hs h) hs hfirst⟩
      (ih (statements_keep hs hfirst))

/-- The statements that a visit may append: silent ones, variables, and expressions. -/
inductive Simple (reg : Symbols) : Stmt → Prop where
  | silent {stmt : Stmt} (h : silentStmt reg stmt = true) : Simple reg stmt
  | var {x : String} {value : Expr} {isPrivate isSynchronized : Bool} :
      Simple reg (.var x value isPrivate isSynchronized)
  | eval {e : Expr} : Simple reg (.eval e)

theorem simple_allowed (reg : Symbols) : Allows (Simple reg) reg True where
  silent _ h := .silent h
  var _ _ _ _ _ := .var
  pair _ _ := .eval

theorem silent_allowed (reg : Symbols) : Allows (fun stmt => silentStmt reg stmt = true) reg False where
  silent _ h := h
  var h := h.elim
  pair h := h.elim

theorem getTemporary_plain : Plain Compiler.getTemporary := by
  refine Plain.of (getTemporary_forms tidy_stable) ?_
  intro s b s' c _ hrun
  unfold Compiler.getTemporary Compiler.onFunction at hrun
  split at hrun
  · cases hrun
  · rename_i htemporary
    unfold getTemporary at htemporary
    split at htemporary
    · cases htemporary
      cases hrun
      exact ⟨rfl, rfl, by simp⟩
    · cases htemporary

theorem compileVar_plain (x : String) (value : Expr) (isSynchronized : Bool) :
    Plain (Compiler.compileVar x value isSynchronized) := by
  unfold Compiler.compileVar
  refine (getRegister_plain x).bind fun reg => (compileExpression_plain value reg).bind fun valueReg => ?_
  refine Plain.ite ?_ (Plain.ite ?_ (Plain.pure ()))
  · refine getTemporary_plain.bind fun temp => (addInstruction_plain (by simp [Straight])).bind fun _ => ?_
    exact (addInstruction_plain (by simp [Straight])).bind fun _ => freeRegister_plain temp
  · exact (addInstruction_plain (by simp [Straight])).bind fun _ => freeRegister_plain valueReg

theorem statement_straight {stmt : Stmt} {c : Code} (hs : InFunction syms s) (hstmt : Simple (symbolsOf syms) stmt)
    (h : Compiler.compileStmt (fuel + 1) context stmt s = .ok ((), s', c)) : ∀ i ∈ c, Straight i := by
  cases hstmt with
  | silent hsilent =>
    rw [(compileStmt_silent (fuel + 1) hs h).mpr hsilent]
    simp
  | var => exact ((compileVar_plain _ _ _).ok hs.tidy h).2.2.2
  | @eval e =>
    have hplain : Plain (Compiler.compileExpressionStmt (Compiler.compileStmt fuel) context e false false) := by
      change Plain (Compiler.compileExpression e 0 >>= fun reg => Compiler.freeRegister reg)
      exact (compileExpression_plain e 0).bind fun reg => freeRegister_plain reg
    exact (hplain.ok hs.tidy h).2.2.2

theorem statements_straight : ∀ {body : Body} {i : ℕ} {s s' : CompilerState} {c : Code}, InFunction syms s →
    (∀ stmt ∈ body, Simple (symbolsOf syms) stmt) →
    Compiler.compileStatements (Compiler.compileStmt (fuel + 1)) context i body s = .ok ((), s', c) →
    ∀ i ∈ c, Straight i
  | [], i, s, s', c, _, _, h => by
    obtain ⟨-, -, rfl⟩ := pure_ok.mp h
    simp
  | stmt :: body, i, s, s', c, hs, hbody, h => by
    obtain ⟨⟨⟩, s₁, c₁, c₂, hfirst, hrest, rfl⟩ := bind_ok.mp h
    obtain ⟨hstmt, hbody⟩ := List.forall_mem_cons.mp hbody
    have hs₁ := (compileStmt_forms (inFunction_stable syms) (fun _ _ => trivial) (fuel + 1) _ stmt s _ s₁ c₁ hs hfirst).1
    exact List.forall_mem_append.mpr ⟨statement_straight hs hstmt hfirst, statements_straight hs₁ hbody hrest⟩

end

def behind (before : Code) (p : LoopParts) : LoopParts := { p with start := before ++ p.start }

section

variable {codes : List (Part × Code)}

theorem offset_le (part : Part) : offsetOf codes part + (codeOf codes part).length ≤ (ahead codes).length := by
  induction codes with
  | nil => exact Nat.le_refl 0
  | cons x codes ih =>
    obtain ⟨part', c⟩ := x
    have hahead : ahead ((part', c) :: codes) = c ++ ahead codes := rfl
    rw [hahead, List.length_append, offsetOf, codeOf, List.lookup_cons]
    by_cases h : part = part'
    · simp [h]
    · have hne : (part == part') = false := beq_false_of_ne h
      rw [hne, if_neg h]
      unfold codeOf at ih
      dsimp only
      omega

theorem displaced_nil (offset base k : ℕ) : displaced offset [] base k = base + k := by
  unfold displaced
  simp

theorem displaced_front (c : Code) (k : ℕ) : displaced 0 c c.length k = k := by
  unfold displaced
  split <;> omega

theorem five_pieces {a b c d e : Part} (h : codes.map Prod.fst = [a, b, c, d, e]) :
    ∃ c₀ c₁ c₂ c₃ c₄, codes = [(a, c₀), (b, c₁), (c, c₂), (d, c₃), (e, c₄)] := by
  obtain ⟨⟨_, c₀⟩, l₀, rfl, rfl, h₀⟩ := List.map_eq_cons_iff.mp h
  obtain ⟨⟨_, c₁⟩, l₁, rfl, rfl, h₁⟩ := List.map_eq_cons_iff.mp h₀
  obtain ⟨⟨_, c₂⟩, l₂, rfl, rfl, h₂⟩ := List.map_eq_cons_iff.mp h₁
  obtain ⟨⟨_, c₃⟩, l₃, rfl, rfl, h₃⟩ := List.map_eq_cons_iff.mp h₂
  obtain ⟨⟨_, c₄⟩, l₄, rfl, rfl, h₄⟩ := List.map_eq_cons_iff.mp h₃
  obtain rfl := List.map_eq_nil_iff.mp h₄
  exact ⟨c₀, c₁, c₂, c₃, c₄, rfl⟩

theorem codes_cases {loop : StatementContext} (h : codes.map Prod.fst = visitOrder loop) :
    ∃ c₀ c₁ c₂ c₃ c₄, codes = [(.declared, c₀), (.start, c₁), (.condition, c₂), (.body, c₃), (.step, c₄)] ∨
      codes = [(.declared, c₀), (.start, c₁), (.body, c₃), (.condition, c₂), (.step, c₄)] := by
  unfold visitOrder at h
  split at h
  · obtain ⟨c₀, c₁, c₂, c₃, c₄, rfl⟩ := five_pieces h
    exact ⟨c₀, c₁, c₂, c₃, c₄, .inl rfl⟩
  · obtain ⟨c₀, c₁, c₃, c₂, c₄, rfl⟩ := five_pieces h
    exact ⟨c₀, c₁, c₂, c₃, c₄, .inr rfl⟩

theorem written_behind {loop : StatementContext} {p : LoopParts} (h : codes.map Prod.fst = visitOrder loop)
    (hbody : codeOf codes .body = []) (hcondition : codeOf codes .condition = []) (hstep : codeOf codes .step = [])
    (length : ℕ) :
    written codes p = behind (ahead codes) p ∧
      position codes p length = (behind (ahead codes) p).position length := by
  have hahead : ahead codes = codeOf codes .declared ++ codeOf codes .start := by
    obtain ⟨c₀, c₁, c₂, c₃, c₄, rfl | rfl⟩ := codes_cases h
    all_goals
      change c₃ = [] at hbody
      change c₂ = [] at hcondition
      change c₄ = [] at hstep
      subst hbody hcondition hstep
      change c₀ ++ (c₁ ++ ([] ++ ([] ++ ([] ++ [])))) = c₀ ++ c₁
      simp
  constructor
  · unfold written behind
    rw [hbody, hcondition, hstep, hahead, List.append_assoc]
    cases p
    simp
  · funext place
    cases place with
    | start k =>
      simp only [position, LoopParts.position]
      rw [hahead, displaced_front]
    | round | done => simp [position, LoopParts.position, behind]
    | body k =>
      simp only [position, LoopParts.position]
      rw [hbody, displaced_nil]
      simp [behind]
    | step k =>
      simp only [position, LoopParts.position]
      rw [hstep, displaced_nil]
      simp [behind]
    | condition k =>
      simp only [position, LoopParts.position]
      rw [hcondition, displaced_nil]
      simp [behind]

end

/-- A condition is written, and no start expression without a step. -/
def Complete (w : LoopContext) : Prop :=
  w.condition.isSome = true ∧ ((startOf w.init).isSome = true → w.step.isSome = true)

def Quiet (reg : Symbols) (w : LoopContext) : Prop :=
  w.condition.all literalFree = true ∧ w.step.all literalFree = true ∧ quietBody reg w.body = true

/-- The loop comes to the place, from some state and in some surroundings. -/
def Comes (q : LoopParts) (place : Place) : Prop :=
  ∃ (α ω : Type) (_ : NumOps α) (env : Environment α ω) (n : ℕ) (f g : Frame α ω), q.Reaches env n f place g

/-- The place from which the loop goes on to the beginning of a part, once it is inside. -/
def due (q : LoopParts) : Part → Option Place
  | .declared | .start => none
  | .body => some .round
  | .step => some (.body q.body.length)
  | .condition => some (.step q.step.length)

section

variable {parse : List Token → Option ExpressionContext} {again : ExpressionContext → Visit Expr}
  {loop : StatementContext} {w : LoopContext} {t : LoopExprs} {g g' : AstGenerator} {pushed : Body} {fuel : ℕ}
  {context : Context} {i : ℕ} {s s' : CompilerState} {code : Code} {appended : List (Part × Body)}
  {codes : List (Part × Code)} {p : LoopParts}

structure Compiled (p : LoopParts) (codes : List (Part × Code)) (code : Code) : Prop where
  straight : (∀ j ∈ ahead codes, Straight j) ∧ ∀ j ∈ p.start, Straight j
  layout : ∃ lstart lend lcond, Layout (behind (ahead codes) p) lstart lend lcond ∧
    code = (behind (ahead codes) p).code lstart lend lcond

theorem behind_code (before : Code) (lstart lend lcond : String) :
    (behind before p).code lstart lend lcond = before ++ p.code lstart lend lcond := by
  simp [behind, LoopParts.code, LoopParts.test]

theorem layout_behind {before : Code} {lstart lend lcond : String} (h : Layout p lstart lend lcond)
    (hbefore : ∀ j ∈ before, Straight j) : Layout (behind before p) lstart lend lcond where
  start := by
    intro name
    change labelIndex (before ++ p.start) name = none
    rw [labelIndex_append, h.start name]
    exact straight_unlabelled hbefore name
  step := h.step
  condition := h.condition
  body := h.body
  distinct := h.distinct

theorem loop_split (hrun : Compiler.compileStatements (Compiler.compileStmt (fuel + 1)) context i
      (pushed ++ [t.stmt]) s = .ok ((), s', code)) :
    ∃ s₁ before c, Compiler.compileStatements (Compiler.compileStmt (fuel + 1)) context i pushed s =
        .ok ((), s₁, before) ∧
      Compiler.compileLoop (Compiler.compileStmt fuel) (inside context (i + pushed.length)) t.start t.condition t.step
        t.body s₁ = .ok ((), s', c) ∧ code = before ++ c := by
  obtain ⟨s₁, s₂, before, c, rest, hbefore, hloop, hrest, rfl⟩ := statements_split hrun
  obtain ⟨-, rfl, rfl⟩ := pure_ok.mp hrest
  exact ⟨s₁, before, c, hbefore, hloop, by rw [List.append_nil]⟩

theorem Reading.code_parts
    (h : Reading parse again loop w t g g' pushed fuel context i s appended codes p) (hs : Tidy s)
    (hsimple : ∀ stmt ∈ pushed, Simple (symbolsOf s.function.symbolTable) stmt) (hn : s'.labelCount < 2 ^ 31)
    (hrun : Compiler.compileStatements (Compiler.compileStmt (fuel + 1)) context i (pushed ++ [t.stmt]) s =
      .ok ((), s', code)) : Compiled p codes code := by
  have hfunction : InFunction s.function.symbolTable s := ⟨hs, rfl⟩
  obtain ⟨s₁, before, c, hbefore, hloop, rfl⟩ := loop_split hrun
  obtain ⟨s₂, hahead, hparts⟩ := h.compiled
  have hpieces := compiledAhead_iff.mpr ⟨codes, hahead, rfl⟩
  rw [← h.pushes, hbefore] at hpieces
  cases hpieces
  have hs₁ := (statements_keep hfunction hbefore).tidy
  have hstraight := statements_straight hfunction hsimple hbefore
  obtain ⟨q, hq, hlayout, hstart, rfl⟩ := compileLoop_parts hs₁ hn hloop
  obtain rfl := hq.unique hparts
  refine ⟨⟨hstraight, hstart⟩, _, _, _, layout_behind hlayout hstraight, ?_⟩
  rw [behind_code]

theorem Reading.codeOf_nil_iff
    (h : Reading parse again loop w t g g' pushed fuel context i s appended codes p) (hs : Tidy s) {part : Part}
    {statements : Body} (hmem : (part, statements) ∈ appended) :
    codeOf codes part = [] ↔ silentAll (symbolsOf s.function.symbolTable) statements = true := by
  obtain ⟨s₁, hahead, -⟩ := h.compiled
  have hsilent := hahead.silent ⟨hs, rfl⟩
  have hnodup : (appended.map Prod.fst).Nodup := by
    rw [h.order]
    unfold visitOrder
    split <;> decide
  clear h hahead
  induction hsilent with
  | nil => cases hmem
  | @cons x y appended codes hxy hrest ih =>
    obtain ⟨part', statements'⟩ := x
    obtain ⟨part'', c⟩ := y
    obtain ⟨hparts, hiff⟩ := hxy
    dsimp only at hparts hiff
    subst hparts
    rw [List.map_cons, List.nodup_cons] at hnodup
    unfold codeOf at ih ⊢
    rw [List.lookup_cons]
    rcases List.mem_cons.mp hmem with heq | hlater
    · cases heq
      simpa using hiff
    · have hne : part ≠ part' := by
        rintro rfl
        exact hnodup.1 (List.mem_map.mpr ⟨_, hlater, rfl⟩)
      rw [beq_false_of_ne hne]
      exact ih hlater hnodup.2

theorem optionExpression_toList (e : Option ExpressionContext) :
    AstGenerator.optionExpression parse again e = (e.map (visitExpression parse again)).toList := by
  cases e <;> rfl

theorem initExpression_toList (init : ForInitContext) :
    AstGenerator.initExpression parse again init = ((startOf init).map (visitExpression parse again)).toList := by
  cases init <;> rfl

theorem startExpr_index {expressions : List (Visit Expr)} {k : ℕ}
    (hexpressions : expressions = ((startOf w.init).map (visitExpression parse again)).toList ++
      (w.condition.map (visitExpression parse again)).toList ++ (w.step.map (visitExpression parse again)).toList)
    (hk : k = if AstGenerator.startsWithVar w.init then 0 else if 2 < expressions.length then 1 else 0) :
    k = if 2 < expressions.length then 1 else 0 := by
  rw [hk]
  split
  · rename_i hvar
    have hshort : ¬ 2 < expressions.length := by
      obtain ⟨init, condition, step, body⟩ := w
      cases init with
      | none | expression e => cases hvar
      | var v =>
        rw [hexpressions]
        cases condition <;> cases step <;> simp [startOf]
    rw [if_neg hshort]
  · rfl

theorem header_complete (hloop : loopOf loop = some w)
    (hvisit : visitStatement parse again loop g = .ok ([t.stmt], g', pushed))
    (hstart : t.start.isSome = (startOf w.init).isSome) (hcondition : t.condition.isSome = w.condition.isSome)
    (hsome : t.condition.isSome = true) : Complete w := by
  cases loop with
  | forLoop init condition step body =>
    cases hloop
    obtain ⟨expressions, k, declared, start, bodyStmts, conditionStmts, stepStmts, hexpressions, hk, hvisits, -⟩ :=
      forLoop_made (w := ⟨init, condition, step, body⟩) hvisit
    rw [initExpression_toList, optionExpression_toList, optionExpression_toList] at hexpressions
    obtain ⟨g₁, g₂, g₃, g₄, -, hmade, -, -, -⟩ := hvisits
    have honly := positions_only hexpressions (startExpr_index (w := ⟨init, condition, step, body⟩) hexpressions hk)
      hmade.isSome (hstart.trans Option.isSome_map.symm) (hcondition.trans Option.isSome_map.symm) hsome
    simpa [Complete] using honly
  | whileLoop condition body =>
    cases hloop
    cases condition with
    | none => cases hvisit
    | some e => exact ⟨rfl, fun h => absurd h Bool.false_ne_true⟩
  | _ => cases hloop

theorem visited_of_complete (hloop : loopOf loop = some w)
    (hvisit : visitStatement parse again loop g = .ok ([t.stmt], g', pushed)) (hcomplete : Complete w) :
    ∃ appended, appended.map Prod.fst = visitOrder loop ∧ pushed = appended.flatMap Prod.snd ∧
      Visited parse again w t appended g g' := by
  cases loop with
  | forLoop init condition step body =>
    cases hloop
    obtain ⟨expressions, k, declared, start, bodyStmts, conditionStmts, stepStmts, hexpressions, hk, hvisits, rfl⟩ :=
      forLoop_made (w := ⟨init, condition, step, body⟩) hvisit
    rw [initExpression_toList, optionExpression_toList, optionExpression_toList] at hexpressions
    obtain ⟨g₁, g₂, g₃, g₄, hinit, hstart, hbody, hcondition, hstep⟩ := hvisits
    obtain ⟨hfirst, hsecond, hthird⟩ := positions_right hexpressions
      (startExpr_index (w := ⟨init, condition, step, body⟩) hexpressions hk) (by simpa using hcomplete.1)
      (by simpa using hcomplete.2)
    rw [hfirst] at hstart
    rw [hsecond] at hcondition
    rw [hthird] at hstep
    refine ⟨[(.declared, declared), (.start, start), (.body, bodyStmts), (.condition, conditionStmts),
      (.step, stepStmts)], rfl, by simp, ?_⟩
    exact .cons hinit (.cons hstart (.cons hbody (.cons hcondition (.cons hstep .nil))))
  | whileLoop condition body =>
    cases hloop
    cases condition with
    | none => cases hvisit
    | some e =>
      rw [visitStatement] at hvisit
      obtain ⟨e', g₁, c₁, d₁, hcondition, hrest₁, rfl⟩ := bind_ok.mp hvisit
      obtain ⟨b, g₂, c₂, d₂, hbody, hrest₂, rfl⟩ := bind_ok.mp hrest₁
      obtain ⟨heq, rfl, rfl⟩ := pure_ok.mp hrest₂
      cases t
      cases heq
      refine ⟨[(.declared, []), (.start, []), (.condition, c₁), (.body, c₂), (.step, [])], rfl, by simp, ?_⟩
      exact .cons rfl (.cons ⟨rfl, rfl⟩ (.cons hcondition (.cons hbody (.cons ⟨rfl, rfl⟩ .nil))))
  | _ => cases hloop

theorem Visited.written_of_mem (h : Visited parse again w t appended g g') {part : Part} {statements : Body}
    (hmem : (part, statements) ∈ appended) : ∃ g₁ g₂, Written parse again w t g₁ statements g₂ part := by
  induction h with
  | nil => cases hmem
  | cons hfirst _ ih =>
    rcases List.mem_cons.mp hmem with heq | hlater
    · cases heq
      exact ⟨_, _, hfirst⟩
    · exact ih hlater

theorem Reading.written_part (h : Reading parse again loop w t g g' pushed fuel context i s appended codes p)
    (part : Part) : ∃ statements g₁ g₂, (part, statements) ∈ appended ∧
      Written parse again w t g₁ statements g₂ part := by
  have hpart : part ∈ appended.map Prod.fst := by
    rw [h.order]
    unfold visitOrder
    split <;> cases part <;> decide
  obtain ⟨⟨part', statements⟩, hmem, rfl⟩ := List.mem_map.mp hpart
  obtain ⟨g₁, g₂, hwritten⟩ := h.visited.written_of_mem hmem
  exact ⟨statements, g₁, g₂, hmem, hwritten⟩

theorem pushed_simple {depth : ℕ} (hparse : ReadsCalls parse) (reg : Symbols)
    (hvisit : visitStatement parse (AstGenerator.visitDeep parse depth) loop g = .ok ([t.stmt], g', pushed)) :
    ∀ stmt ∈ pushed, Simple reg stmt :=
  (visitStatement_adds (simple_allowed reg) (operators_adds (simple_allowed reg) hparse depth) loop
    fun h => absurd trivial h).output hvisit

theorem made_silent {depth : ℕ} {e : Option ExpressionContext} {made : Option Expr} {statements : Body}
    {reg : Symbols} (hparse : ReadsCalls parse) (hquiet : e.all literalFree = true)
    (h : MadeBy (e.map (visitExpression parse (AstGenerator.visitDeep parse depth))) made g statements g') :
    silentAll reg statements = true := by
  cases e with
  | none =>
    cases made with
    | none =>
      obtain ⟨rfl, -⟩ := h
      rfl
    | some made => exact h.elim
  | some e =>
    cases made with
    | none => exact h.elim
    | some made =>
      have hadds := visitExpression_adds (silent_allowed reg) (operators_adds (silent_allowed reg) hparse depth) e
        fun _ => hquiet
      exact List.all_eq_true.mpr (hadds.output h)

theorem Reading.quiet {depth : ℕ}
    (h : Reading parse (AstGenerator.visitDeep parse depth) loop w t g g' pushed fuel context i s appended codes p)
    (hparse : ReadsCalls parse) (hs : Tidy s) (hquiet : Quiet (symbolsOf s.function.symbolTable) w) :
    codeOf codes .body = [] ∧ codeOf codes .condition = [] ∧ codeOf codes .step = [] := by
  obtain ⟨hcondition, hstep, hbody⟩ := hquiet
  refine ⟨?_, ?_, ?_⟩
  · obtain ⟨statements, g₁, g₂, hmem, hwritten⟩ := h.written_part .body
    have hallowed := silent_allowed (symbolsOf s.function.symbolTable)
    have hadds := visitBodyOrStatement_adds hallowed (operators_adds hallowed hparse depth) w.body fun _ => hbody
    exact (h.codeOf_nil_iff hs hmem).mpr (List.all_eq_true.mpr (hadds.output hwritten))
  · obtain ⟨statements, g₁, g₂, hmem, hwritten⟩ := h.written_part .condition
    exact (h.codeOf_nil_iff hs hmem).mpr (made_silent hparse hcondition hwritten)
  · obtain ⟨statements, g₁, g₂, hmem, hwritten⟩ := h.written_part .step
    exact (h.codeOf_nil_iff hs hmem).mpr (made_silent hparse hstep hwritten)

theorem parts_condition {p : LoopParts} {s₁ : CompilerState} {startExpr condition iterExpr : Option Expr} {body : Body}
    (h : CompiledParts fuel context startExpr condition iterExpr body s₁ p) : p.condition.isSome = condition.isSome := by
  obtain ⟨s₁, s₂, s₃, -, -, -, hcondition⟩ := h
  cases condition with
  | none =>
    rw [hcondition]
    rfl
  | some e =>
    obtain ⟨reg, s₄, c, -, hsome⟩ := hcondition
    rw [hsome]
    rfl

/-- The code of a quiet loop with a complete header runs it. -/
theorem Compiled.simulated (h : Compiled p codes code) (horder : codes.map Prod.fst = visitOrder loop)
    (hquiet : codeOf codes .body = [] ∧ codeOf codes .condition = [] ∧ codeOf codes .step = [])
    (hsome : p.condition.isSome = true) : Simulated (written codes p) code (position codes p code.length) := by
  obtain ⟨lstart, lend, lcond, hlayout, rfl⟩ := h.layout
  obtain ⟨hbody, hcondition, hstep⟩ := hquiet
  obtain ⟨hwritten, hposition⟩ := written_behind (p := p) horder hbody hcondition hstep
    ((behind (ahead codes) p).code lstart lend lcond).length
  rw [hwritten, hposition]
  exact hlayout.simulated hsome

/-- Control that has come to the loop does not go back to what stands before it. -/
theorem Compiled.stays {α ω : Type} [NumOps α] {env : Environment α ω} {n : ℕ} {x y : Point α ω}
    (h : Compiled p codes code) (hx : (ahead codes).length ≤ x.pc) (hrun : Run env n code x y) :
    (ahead codes).length ≤ y.pc := by
  obtain ⟨lstart, lend, lcond, -, rfl⟩ := h.layout
  rw [behind_code] at hrun
  refine Simulation.invariant_run (I := fun z : Point α ω => (ahead codes).length ≤ z.pc) ?_ hx hrun
  rintro ⟨pc, f⟩ ⟨pc', f'⟩ hpc hstep
  obtain ⟨j, control, -, -, htarget⟩ := stepAt_some.mp hstep
  dsimp only at hpc ⊢
  cases control with
  | next =>
    cases htarget
    exact Nat.le_succ_of_le hpc
  | jump text =>
    have hindex : labelIndex (ahead codes ++ p.code lstart lend lcond) text = some pc' := htarget
    rw [labelIndex_append] at hindex
    cases hrest : labelIndex (p.code lstart lend lcond) text with
    | some index =>
      rw [hrest] at hindex
      cases hindex
      exact Nat.le_add_right _ _
    | none =>
      rw [hrest] at hindex
      dsimp only at hindex
      rw [straight_unlabelled h.straight.1 text] at hindex
      cases hindex
  | leave => cases htarget

theorem Compiled.piece_nil {α ω : Type} [NumOps α] {env : Environment α ω} {n : ℕ} {f g : Frame α ω} {part : Part}
    {pc base : ℕ} (h : Compiled p codes code) (hpc : (ahead codes).length ≤ pc)
    (hrun : Run env n code ⟨pc, f⟩ ⟨displaced (offsetOf codes part) (codeOf codes part) base 0, g⟩) :
    codeOf codes part = [] := by
  by_contra hne
  have hpositive : 0 < (codeOf codes part).length := List.length_pos_iff.mpr hne
  have hstays := h.stays (x := ⟨pc, f⟩) hpc hrun
  have hbound : offsetOf codes part + (codeOf codes part).length ≤ (ahead codes).length := offset_le part
  unfold displaced at hstays
  rw [if_pos hpositive] at hstays
  dsimp only at hstays
  omega

theorem Compiled.due_nil (h : Compiled p codes code)
    (hsimulated : Simulated (written codes p) code (position codes p code.length)) {part : Part} {place : Place}
    (hdue : due (written codes p) part = some place) (hcomes : Comes (written codes p) place) :
    codeOf codes part = [] := by
  obtain ⟨α, ω, _, env, n, f, g, hreach⟩ := hcomes
  cases part with
  | declared | start => cases hdue
  | body =>
    cases hdue
    have hstep := hsimulated.acts α ω env n f g g _ _ hreach .enter
    refine h.piece_nil ?_ (Relation.ReflTransGen.single hstep)
    simp only [position]
    omega
  | step =>
    cases hdue
    have hrun := hsimulated.passes α ω env n f g _ _ hreach .bodyEnds
    refine h.piece_nil ?_ hrun
    simp only [position, written, displaced, List.length_append]
    rw [if_neg (by omega)]
    omega
  | condition =>
    cases hdue
    have hrun := hsimulated.passes α ω env n f g _ _ hreach .stepped
    refine h.piece_nil ?_ hrun
    simp only [position, written, displaced, List.length_append]
    rw [if_neg (by omega)]
    omega

theorem Compiled.has_condition (h : Compiled p codes code)
    (hsimulated : Simulated (written codes p) code (position codes p code.length)) :
    p.condition.isSome = true := by
  by_contra hsome
  rw [Bool.not_eq_true, Option.isSome_eq_false_iff, Option.isNone_iff_eq_none] at hsome
  have hnone : (written codes p).condition = none := by
    simp [written, hsome]
  have hpiece : ∀ part, ∀ j ∈ codeOf codes part, Straight j := by
    intro part j hj
    refine h.straight.1 j ?_
    unfold codeOf at hj
    cases hlookup : codes.lookup part with
    | none =>
      rw [hlookup] at hj
      cases hj
    | some c =>
      rw [hlookup] at hj
      obtain ⟨before, after, rfl, -⟩ := List.lookup_eq_some_iff.mp hlookup
      exact List.mem_flatMap.mpr ⟨(part, c), List.mem_append_right before List.mem_cons_self, hj⟩
  have hstraight : ∀ j ∈ (written codes p).start, Straight j :=
    List.forall_mem_append.mpr ⟨hpiece .declared, List.forall_mem_append.mpr ⟨hpiece .start, h.straight.2⟩⟩
  let f : Frame ℚ Unit := ⟨fun _ => .null, [], ()⟩
  obtain ⟨g, hg⟩ := start_reached hstraight f
  have hround := hsimulated.reaches (.passes (.passes hg .started) (.always hnone))
  obtain ⟨lstart, lend, lcond, hlayout, rfl⟩ := h.layout
  have hbehind : ∀ j ∈ (behind (ahead codes) p).start, Straight j :=
    List.forall_mem_append.mpr h.straight
  refine never_round hlayout hbehind hsome f g ?_
  simpa [position, behind, LoopParts.position] using hround

/-- A loop runs as it is written if no part of the header is missing before another one and nothing with code is
appended for a part inside. If it does, the header is so, and what is appended for a part that it comes to is silent. -/
theorem loop_behaves {depth : ℕ} (hparse : ReadsCalls parse) (hloop : loopOf loop = some w)
    (hvisit : visitStatement parse (AstGenerator.visitDeep parse depth) loop g = .ok ([t.stmt], g', pushed))
    (hs : Tidy s) (hn : s'.labelCount < 2 ^ 31)
    (hrun : Compiler.compileStatements (Compiler.compileStmt (fuel + 1)) context i (pushed ++ [t.stmt]) s =
      .ok ((), s', code)) :
    (Complete w ∧ Quiet (symbolsOf s.function.symbolTable) w →
      LoopBehaves parse (AstGenerator.visitDeep parse depth) loop w t g g' pushed fuel context i s code) ∧
    ∀ appended codes p,
      Reading parse (AstGenerator.visitDeep parse depth) loop w t g g' pushed fuel context i s appended codes p →
      Simulated (written codes p) code (position codes p code.length) →
      Complete w ∧ ∀ part statements, (part, statements) ∈ appended → ∀ place, due (written codes p) part = some place →
        Comes (written codes p) place → silentAll (symbolsOf s.function.symbolTable) statements = true := by
  have hsimple := pushed_simple hparse (symbolsOf s.function.symbolTable) hvisit
  constructor
  · rintro ⟨hcomplete, hquiet⟩
    obtain ⟨appended, horder, hpushes, hvisited⟩ := visited_of_complete hloop hvisit hcomplete
    obtain ⟨s₁, before, c, hbefore, hcompiled, rfl⟩ := loop_split hrun
    have hs₁ := (statements_keep ⟨hs, rfl⟩ hbefore).tidy
    obtain ⟨p, hparts, -⟩ := compileLoop_parts hs₁ hn hcompiled
    rw [hpushes] at hbefore
    obtain ⟨codes, hcodes, rfl⟩ := compiledAhead_iff.mp hbefore
    have hreading : Reading parse (AstGenerator.visitDeep parse depth) loop w t g g' pushed fuel context i s appended
        codes p := ⟨horder, hpushes, hvisited, s₁, hcodes, hparts⟩
    obtain ⟨statements, g₁, g₂, -, hwritten⟩ := hreading.written_part .condition
    have hsome : p.condition.isSome = true := by
      rw [parts_condition hparts, hwritten.isSome, Option.isSome_map]
      exact hcomplete.1
    exact ⟨appended, codes, p, hreading, (hreading.code_parts hs hsimple hn hrun).simulated
      (hcodes.parts.trans horder) (hreading.quiet hparse hs hquiet) hsome⟩
  · intro appended codes p hreading hsimulated
    have hcompiled := hreading.code_parts hs hsimple hn hrun
    obtain ⟨s₁, -, hparts⟩ := hreading.compiled
    constructor
    · obtain ⟨_, _, _, -, hstart⟩ := hreading.written_part .start
      obtain ⟨_, _, _, -, hcondition⟩ := hreading.written_part .condition
      have hsome := (parts_condition hparts).symm.trans (hcompiled.has_condition hsimulated)
      exact header_complete hloop hvisit (hstart.isSome.trans Option.isSome_map)
        (hcondition.isSome.trans Option.isSome_map) hsome
    · intro part statements hmem place hdue hcomes
      exact (hreading.codeOf_nil_iff hs hmem).mp (hcompiled.due_nil hsimulated hdue hcomes)

end

theorem noParser_reads : ReadsCalls noParser := by
  intro left right e h
  have hnone : ∀ text : List Char, (lex text).bind noParser = none := by
    intro text
    cases lex text <;> rfl
  rw [hnone, hnone] at h
  rcases h with h | h <;> cases h

/-- `while (x) {}`. -/
theorem loop_behaves_while : ∃ s code,
    Compiler.compileStatements (Compiler.compileStmt 1) sampleContext 0 [.loop none (some (.ident "x")) none []]
        sampleState = .ok ((), s, code) ∧
      LoopBehaves noParser (AstGenerator.visitDeep noParser 0) (.whileLoop (some (.identifier sampleName)) (.body []))
        ⟨.none, some (.identifier sampleName), none, .body []⟩ ⟨none, some (.ident "x"), none, []⟩ {} {} [] 0
        sampleContext 0 sampleState code := by
  refine ⟨_, _, rfl, ?_⟩
  exact (loop_behaves (t := ⟨none, some (.ident "x"), none, []⟩) noParser_reads
    (show loopOf (.whileLoop (some (.identifier sampleName)) (.body [])) = _ from rfl)
    (show visitStatement noParser _ _ {} = .ok (_, {}, []) from rfl) sampleState_tidy (by decide) rfl).1
      ⟨⟨rfl, fun h => absurd h Bool.false_ne_true⟩, rfl, rfl, rfl⟩

/-- `for (;;) {}` comes to its end. -/
theorem endless_ends : ∃ s code,
    visitStatement noParser (AstGenerator.visitDeep noParser 0) (.forLoop .none none none (.body [])) {} =
        .ok ([.loop none none none []], {}, []) ∧
      Compiler.compileStatements (Compiler.compileStmt 1) sampleContext 0 [.loop none none none []] sampleState =
        .ok ((), s, code) ∧
      ¬ LoopBehaves noParser (AstGenerator.visitDeep noParser 0) (.forLoop .none none none (.body []))
        ⟨.none, none, none, .body []⟩ ⟨none, none, none, []⟩ {} {} [] 0 sampleContext 0 sampleState code := by
  refine ⟨_, _, rfl, rfl, ?_⟩
  rintro ⟨appended, codes, p, hreading, hsimulated⟩
  have hcompiled := hreading.code_parts sampleState_tidy (by simp) (by decide) rfl
  have hsome := hcompiled.has_condition hsimulated
  obtain ⟨s₁, -, hparts⟩ := hreading.compiled
  rw [parts_condition hparts] at hsome
  cases hsome

end Zeroscript.LoopHeaders
