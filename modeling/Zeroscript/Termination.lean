import Zeroscript.CompilerSteps
import Zeroscript.InstructionShapes

/-! # Whether the compiler comes back

A `return` compiles the `finally` bodies around it, so the recursion is not on the syntax. Its depth is
bounded if no `finally` body has a `return`; otherwise the body is compiled inside itself without end. -/
namespace Zeroscript.Termination

open Emission CompilerSteps

mutual

/-- The statement has a `return` of its own function. -/
@[simp] def returns : Stmt → Bool
  | .expression _ hasReturn _ _ => hasReturn
  | .function _ _ _ _ _ _ | .var _ _ _ _ => false
  | .loop _ _ _ body | .block body | .conditional _ body none => returnsIn body
  | .conditional _ body (some elseBody) => returnsIn body || returnsIn elseBody
  | .tryCatch _ tryBody catchBody none => returnsIn tryBody || returnsIn catchBody
  | .tryCatch _ tryBody catchBody (some finallyBody) =>
    returnsIn tryBody || returnsIn catchBody || returnsIn finallyBody

@[simp] def returnsIn : Body → Bool
  | [] => false
  | stmt :: rest => returns stmt || returnsIn rest

end

mutual

/-- No `finally` body has a `return`. -/
@[simp] def regular : Stmt → Bool
  | .expression _ _ _ _ | .var _ _ _ _ => true
  | .function _ _ _ _ _ body => regularBody body
  | .loop _ _ _ body | .block body | .conditional _ body none => regularBody body
  | .conditional _ body (some elseBody) => regularBody body && regularBody elseBody
  | .tryCatch _ tryBody catchBody none => regularBody tryBody && regularBody catchBody
  | .tryCatch _ tryBody catchBody (some finallyBody) =>
    regularBody tryBody && regularBody catchBody && (regularBody finallyBody && !returnsIn finallyBody)

@[simp] def regularBody : Body → Bool
  | [] => true
  | stmt :: rest => regular stmt && regularBody rest

end

mutual

/-- How deep the recursion over a statement is, with a `finally` body below the bodies it follows. -/
@[simp] def depth : Stmt → ℕ
  | .expression _ _ _ _ | .var _ _ _ _ => 1
  | .function _ _ _ _ _ body | .loop _ _ _ body | .block body | .conditional _ body none => 1 + depthIn body
  | .conditional _ body (some elseBody) => 1 + max (depthIn body) (depthIn elseBody)
  | .tryCatch _ tryBody catchBody none => 1 + max (depthIn tryBody) (depthIn catchBody)
  | .tryCatch _ tryBody catchBody (some finallyBody) =>
    1 + (max (depthIn tryBody) (depthIn catchBody) + depthIn finallyBody)

@[simp] def depthIn : Body → ℕ
  | [] => 0
  | stmt :: rest => max (depth stmt) (depthIn rest)

end

theorem depth_pos (stmt : Stmt) : 0 < depth stmt := by
  cases stmt with
  | conditional _ _ elseBody => cases elseBody <;> rw [depth] <;> omega
  | tryCatch _ _ _ finallyBody => cases finallyBody <;> rw [depth] <;> omega
  | expression | function | var | loop | block => rw [depth]; omega

theorem depth_le {body : Body} {stmt : Stmt} (h : stmt ∈ body) : depth stmt ≤ depthIn body := by
  induction body with
  | nil => cases h
  | cons first rest ih =>
    rw [depthIn]
    rcases List.mem_cons.mp h with rfl | h
    · exact Nat.le_max_left _ _
    · exact Nat.le_trans (ih h) (Nat.le_max_right _ _)

theorem regular_mem {body : Body} (h : regularBody body = true) {stmt : Stmt} (hmem : stmt ∈ body) :
    regular stmt = true := by
  induction body with
  | nil => cases hmem
  | cons first rest ih =>
    rw [regularBody, Bool.and_eq_true] at h
    rcases List.mem_cons.mp hmem with rfl | hmem
    · exact h.1
    · exact ih h.2 hmem

theorem returns_mem {body : Body} {stmt : Stmt} (hmem : stmt ∈ body) (h : returns stmt = true) :
    returnsIn body = true := by
  induction body with
  | nil => cases hmem
  | cons first rest ih =>
    rw [returnsIn, Bool.or_eq_true]
    rcases List.mem_cons.mp hmem with rfl | hmem
    · exact .inl h
    · exact .inr (ih hmem)

abbrev AnyKind : FunctionKind → Prop := fun _ => True

abbrev Direct {β : Type} (m : Emit β) : Prop := Excludes AnyKind .outOfFuel m

theorem addInstruction_direct (opcode : Opcode) (r0 r1 r2 : Operand) : Direct (addInstruction opcode r0 r1 r2) :=
  fun _ _ => ⟨nofun, fun _ _ _ _ => trivial⟩

theorem getRegister_direct (ident : String) : Direct (getRegister ident) :=
  fun _ _ => ⟨nofun, fun _ _ _ _ => trivial⟩

theorem freeRegister_direct (index : ℕ) : Direct (freeRegister index) :=
  fun _ _ => ⟨nofun, fun _ _ _ _ => trivial⟩

theorem getTemporary_direct : Direct getTemporary := by
  intro fk _
  refine ⟨fun h => ?_, fun _ _ _ _ => trivial⟩
  unfold getTemporary at h
  split at h <;> cases h

theorem freeRegisterIf_direct (condition : Prop) [Decidable condition] (index : ℕ) :
    Direct (freeRegisterIf condition index) :=
  .ite (fun _ => freeRegister_direct index) fun _ => .pure ()

theorem destinationOrTemporary_direct (requested : ℕ) : Direct (destinationOrTemporary requested) :=
  .ite (fun _ => getTemporary_direct) fun _ => .pure requested

theorem compileLiteral_direct (opcode : Opcode) (data : String) (destination : ℕ) :
    Direct (compileLiteral opcode data destination) :=
  (destinationOrTemporary_direct _).bind fun _ => (addInstruction_direct _ _ _ _).bind fun _ => .pure _

theorem writeBack_direct (expr : Expr) (leftReg : ℕ) : Direct (writeBack expr leftReg) := by
  unfold writeBack
  split
  · refine (getRegister_direct _).bind fun reg => .ite (fun _ => ?_) fun _ => .pure ()
    refine getTemporary_direct.bind fun temp => (addInstruction_direct _ _ _ _).bind fun _ => ?_
    exact (addInstruction_direct _ _ _ _).bind fun _ => freeRegister_direct _
  · exact .pure ()

section

variable {expr : Expr} {compileExpr compileLeft compileRight : SubCompiler}

theorem compilePostfix_direct (h : ∀ d k, Direct (compileExpr d k)) (op : PostfixOp) (requested : ℕ) :
    Direct (compilePostfix expr compileExpr op requested) := by
  have hrest (leftReg target : ℕ) : Direct (do writeBack expr leftReg; return target) :=
    (writeBack_direct expr leftReg).bind fun _ => .pure target
  refine (h 0 false).bind fun leftReg => (destinationOrTemporary_direct requested).bind fun target => ?_
  refine (addInstruction_direct _ _ _ _).bind fun _ => ?_
  cases op with
  | increment | decrement => exact (addInstruction_direct _ _ _ _).bind fun _ => hrest leftReg target

theorem compilePrefix_direct (h : ∀ d k, Direct (compileExpr d k)) (op : PrefixOp) (requested : ℕ) :
    Direct (compilePrefix expr compileExpr op requested) := by
  refine (h 0 false).bind fun leftReg => (destinationOrTemporary_direct requested).bind fun target => ?_
  cases op with
  | increment | decrement =>
    exact (addInstruction_direct _ _ _ _).bind fun _ => (writeBack_direct expr leftReg).bind fun _ => .pure _
  | minus =>
    refine (freeRegisterIf_direct _ _).bind fun _ => (compileLiteral_direct _ _ _).bind fun rightReg => ?_
    exact (addInstruction_direct _ _ _ _).bind fun _ => (freeRegister_direct _).bind fun _ => .pure _
  | throwing => exact (freeRegisterIf_direct _ _).bind fun _ => (addInstruction_direct _ _ _ _).bind fun _ => .pure _
  | plus | tilde | bang => exact (writeBack_direct expr leftReg).bind fun _ => .pure _

theorem compileOperands_direct (op : BinaryOp) (hleft : ∀ d k, Direct (compileLeft d k))
    (hright : ∀ d k, Direct (compileRight d k)) (destination : ℕ) :
    Direct (compileOperands op compileLeft compileRight destination) := by
  refine (hleft 0 false).bind fun leftReg => (hright _ _).bind fun rightReg => ?_
  refine (destinationOrTemporary_direct destination).bind fun resultReg => ?_
  have hop : Direct (addOperation op leftReg rightReg resultReg) := by
    refine .ite (fun _ => .pure ()) fun _ => ?_
    split
    · exact addInstruction_direct _ _ _ _
    · exact .fail nofun
  refine hop.bind fun _ => (freeRegisterIf_direct _ _).bind fun _ => ?_
  exact (freeRegister_direct _).bind fun _ => .pure _

theorem compileBinary_direct (op : BinaryOp) (left : Expr) (hleft : ∀ d k, Direct (compileLeft d k))
    (hright : ∀ d k, Direct (compileRight d k)) {compileDot : ℕ → Emit Unit} (hdot : ∀ r, Direct (compileDot r))
    (destination : ℕ) : Direct (compileBinary op left compileLeft compileRight compileDot destination) := by
  unfold compileBinary
  split
  · exact (hright 0 false).bind fun rightReg => (hdot rightReg).bind fun _ => .pure _
  · exact .fail nofun
  · refine (getRegister_direct _).bind fun reg => .ite (fun _ => ?_) fun _ =>
      compileOperands_direct _ hleft hright destination
    refine getTemporary_direct.bind fun leftReg => (addInstruction_direct _ _ _ _).bind fun _ => ?_
    exact (hright 0 false).bind fun rightReg => (addInstruction_direct _ _ _ _).bind fun _ => .pure 0
  · exact .fail nofun
  · exact compileOperands_direct _ hleft hright destination

end

theorem compileTerminal_direct (t : Terminal) (destination : ℕ) (hasLookupObject : Bool) :
    Direct (compileTerminal t destination hasLookupObject) := by
  have himmediate (data : String) : Direct (compileIdentifierImmediate data destination) := by
    refine (getRegister_direct data).bind fun reg => .ite (fun _ => ?_) fun _ => .pure _
    exact (destinationOrTemporary_direct _).bind fun _ => (addInstruction_direct _ _ _ _).bind fun _ => .pure _
  cases t with
  | identifier data =>
    refine .ite (fun _ => ?_) fun _ => himmediate data
    refine Excludes.bind ?_ fun _ => himmediate data
    refine (getRegister_direct data).bind fun reg => .ite (fun _ => ?_) fun _ => .pure _
    refine (destinationOrTemporary_direct _).bind fun _ => (compileLiteral_direct _ _ _).bind fun _ => ?_
    exact (addInstruction_direct _ _ _ _).bind fun _ => .pure _
  | number data | string data => exact compileLiteral_direct _ _ _

mutual

theorem compileExpression_direct : ∀ (e : Expr) (requested : ℕ) (k : Bool), Direct (compileExpression e requested k)
  | .methodCall callee args, requested, _ => by
    unfold compileExpression compileMethodCall
    refine (destinationOrTemporary_direct _).bind fun resultReg => getTemporary_direct.bind fun firstReg => ?_
    refine (compileArguments_direct args firstReg).bind fun lastReg => (freeRegister_direct _).bind fun _ => ?_
    refine (compileExpression_direct callee 0 false).bind fun calleeReg => ?_
    exact (addInstruction_direct _ _ _ _).bind fun _ => (freeRegister_direct _).bind fun _ => .pure _
  | .binary op left right, requested, _ => by
    unfold compileExpression
    exact compileBinary_direct op left (compileExpression_direct left) (compileExpression_direct right)
      (compileDotForSetField_direct left) requested
  | .postfixed e op, requested, _ => by
    unfold compileExpression
    exact compilePostfix_direct (compileExpression_direct e) op requested
  | .prefixed op e, requested, _ => by
    unfold compileExpression
    exact compilePrefix_direct (compileExpression_direct e) op requested
  | .terminal t, requested, k => by
    unfold compileExpression
    exact compileTerminal_direct t requested k
  | .empty, _, _ => by
    unfold compileExpression
    exact .pure 0

theorem compileDotForSetField_direct : ∀ (e : Expr) (result : ℕ), Direct (compileDotForSetField e result)
  | .binary _ left right, result => by
    unfold compileDotForSetField
    exact (compileExpression_direct left 0 false).bind fun _ =>
      (compileExpression_direct right 0 false).bind fun _ => addInstruction_direct _ _ _ _
  | .methodCall _ _, _ | .postfixed _ _, _ | .prefixed _ _, _ | .terminal _, _ | .empty, _ => by
    unfold compileDotForSetField
    exact .pure ()

theorem compileArguments_direct : ∀ (es : List Expr) (reg : ℕ), Direct (compileArguments es reg)
  | [], _ => by
    unfold compileArguments
    exact .pure _
  | e :: es, reg => by
    unfold compileArguments
    refine (compileArguments_direct es reg).bind fun later => (compileExpression_direct e later false).bind fun _ => ?_
    exact (addInstruction_direct _ _ _ _).bind fun _ => .pure _

end

/-- The functions that wait are regular, and of a smaller depth. -/
def Waiting (n : ℕ) (s : CompilerState) : Prop :=
  ∀ node ∈ s.functionsToCompile, regularBody node.body = true ∧ depthIn node.body < n

abbrev Comes (n : ℕ) {β : Type} (m : Compile β) : Prop := Excludes (Waiting n) .outOfFuel m

def Copied (fuel n d : ℕ) (blocks : List (List ℕ × Body)) : Prop :=
  ∀ block ∈ blocks, regularBody block.2 = true ∧ returnsIn block.2 = false ∧
    d + depthIn block.2 ≤ fuel ∧ depthIn block.2 ≤ n

theorem Copied.mono {fuel fuel' n d d' : ℕ} {blocks : List (List ℕ × Body)} (h : Copied fuel n d blocks)
    (hle : d' + fuel ≤ d + fuel') : Copied fuel' n d' blocks := by
  intro block hblock
  obtain ⟨hregular, hreturns, hfuel, hn⟩ := h block hblock
  exact ⟨hregular, hreturns, by omega, hn⟩

/-- There is fuel for a body with some `finally` bodies around it. -/
structure Fits (fuel n : ℕ) (blocks : List (List ℕ × Body)) (body : Body) : Prop where
  clean : regularBody body = true
  enough : depthIn body ≤ fuel
  bounded : depthIn body ≤ n
  copied : returnsIn body = true → Copied fuel n (depthIn body) blocks

theorem Fits.mem {fuel n : ℕ} {blocks : List (List ℕ × Body)} {body : Body} (h : Fits fuel n blocks body)
    {stmt : Stmt} (hmem : stmt ∈ body) : Fits fuel n blocks [stmt] := by
  have hle := depth_le hmem
  have hdepth : depthIn [stmt] = depth stmt := Nat.max_zero (depth stmt)
  refine ⟨?_, ?_, ?_, fun hreturns => ?_⟩
  · rw [regularBody, regular_mem h.clean hmem]
    rfl
  · rw [hdepth]
    exact Nat.le_trans hle h.enough
  · rw [hdepth]
    exact Nat.le_trans hle h.bounded
  · rw [returnsIn, returnsIn, Bool.or_false] at hreturns
    refine (h.copied (returns_mem hmem hreturns)).mono ?_
    rw [hdepth]
    omega

section

variable {n : ℕ} {β γ : Type}

theorem onFunction_comes {m : Emit β} (h : Direct m) : Comes n (Compiler.onFunction m) := by
  intro s hs
  obtain ⟨hfail, -⟩ := h s.function trivial
  unfold Compiler.onFunction
  constructor
  · intro hrun
    split at hrun
    · rename_i hm
      cases hrun
      exact hfail hm
    · cases hrun
  · intro b s' c hrun
    split at hrun
    · cases hrun
    · cases hrun
      exact hs

theorem addInstruction_comes (opcode : Opcode) (r0 r1 r2 : Operand) :
    Comes n (Compiler.addInstruction opcode r0 r1 r2) := by
  intro s hs
  refine ⟨nofun, fun b s' c hrun => ?_⟩
  cases hrun
  exact hs

theorem freshLabel_comes (stem : String) : Comes n (Compiler.freshLabel stem) := by
  intro s hs
  refine ⟨nofun, fun b s' c hrun => ?_⟩
  cases hrun
  exact hs

theorem forEach_comes {f : γ → Compile Unit} {xs : List γ} (hf : ∀ x ∈ xs, Comes n (f x)) :
    Comes n (Compiler.forEach f xs) := by
  induction xs with
  | nil => exact .pure ()
  | cons x xs ih =>
    exact (hf x List.mem_cons_self).bind fun _ => ih fun x hx => hf x (List.mem_cons_of_mem _ hx)

theorem compileExpression_comes (e : Expr) (requested : ℕ) : Comes n (Compiler.compileExpression e requested) :=
  onFunction_comes (compileExpression_direct e requested false)

theorem freeRegister_comes (index : ℕ) : Comes n (Compiler.freeRegister index) :=
  onFunction_comes (freeRegister_direct index)

theorem hoist_comes (stmt : Stmt) : Comes n (Compiler.hoist stmt) := by
  cases stmt with
  | function => exact (onFunction_comes (getRegister_direct _)).bind fun _ => addInstruction_comes _ _ _ _
  | expression | var | loop | block | conditional | tryCatch => exact .pure ()

theorem compileDiscarded_comes (e : Option Expr) : Comes n (Compiler.compileDiscarded e) := by
  cases e with
  | none => exact .pure ()
  | some e => exact (compileExpression_comes e 0).bind fun reg => freeRegister_comes reg

theorem compileVar_comes (identifier : String) (value : Expr) (isSynchronized : Bool) :
    Comes n (Compiler.compileVar identifier value isSynchronized) := by
  refine (onFunction_comes (getRegister_direct _)).bind fun reg => (compileExpression_comes value reg).bind fun valueReg => ?_
  refine .ite (fun _ => ?_) fun _ => .ite (fun _ => ?_) fun _ => .pure ()
  · refine (onFunction_comes getTemporary_direct).bind fun tempReg => (addInstruction_comes _ _ _ _).bind fun _ => ?_
    exact (addInstruction_comes _ _ _ _).bind fun _ => freeRegister_comes tempReg
  · exact (addInstruction_comes _ _ _ _).bind fun _ => freeRegister_comes valueReg

theorem compileBreak_comes (context : Context) : Comes n (Compiler.compileBreak context) := by
  unfold Compiler.compileBreak
  split
  · exact .fail nofun
  · exact addInstruction_comes _ _ _ _

end

section

variable {n fuel : ℕ} {compileStmt : Context → Stmt → Compile Unit}
  (hstmt : ∀ context stmt, Fits fuel n context.finallyBlocks [stmt] → Comes n (compileStmt context stmt))

include hstmt

theorem compileStatements_comes {context : Context} {body : Body} (i : ℕ)
    (h : ∀ stmt ∈ body, Fits fuel n context.finallyBlocks [stmt]) :
    Comes n (Compiler.compileStatements compileStmt context i body) := by
  induction body generalizing i with
  | nil => exact .pure ()
  | cons stmt rest ih =>
    refine Excludes.bind (hstmt _ stmt ?_) fun _ => ?_
    · exact h stmt List.mem_cons_self
    · exact ih (i + 1) fun stmt hmem => h stmt (List.mem_cons_of_mem _ hmem)

theorem compileBody_comes {context : Context} {body : Body} (h : Fits fuel n context.finallyBlocks body) :
    Comes n (Compiler.compileBody compileStmt context body) :=
  (forEach_comes fun stmt _ => hoist_comes stmt).bind fun _ =>
    compileStatements_comes hstmt 0 fun _ hmem => h.mem hmem

theorem compileLoop_comes {context : Context} (startExpr condition iterExpr : Option Expr) {body : Body}
    (h : Fits fuel n context.finallyBlocks body) :
    Comes n (Compiler.compileLoop compileStmt context startExpr condition iterExpr body) := by
  refine (freshLabel_comes _).bind fun lstart => (freshLabel_comes _).bind fun lend => ?_
  refine (freshLabel_comes _).bind fun lcond => (compileDiscarded_comes startExpr).bind fun _ => ?_
  refine (addInstruction_comes _ _ _ _).bind fun _ => (addInstruction_comes _ _ _ _).bind fun _ => ?_
  have hbody (lend : String) : Comes n (Compiler.compileBody compileStmt
      { context with loopEndLabels := lend :: context.loopEndLabels } body) := compileBody_comes hstmt h
  refine (hbody lend).bind fun _ => ?_
  refine (compileDiscarded_comes iterExpr).bind fun _ => (addInstruction_comes _ _ _ _).bind fun _ => ?_
  cases condition with
  | none => exact addInstruction_comes _ _ _ _
  | some condition =>
    refine (compileExpression_comes condition 0).bind fun condReg => (addInstruction_comes _ _ _ _).bind fun _ => ?_
    exact (freeRegister_comes condReg).bind fun _ => addInstruction_comes _ _ _ _

theorem compileConditional_comes {context : Context} (condition : Expr) {body : Body} {elseBody : Option Body}
    (h : Fits fuel n context.finallyBlocks body) (helse : ∀ other ∈ elseBody, Fits fuel n context.finallyBlocks other) :
    Comes n (Compiler.compileConditional compileStmt context condition body elseBody) := by
  refine (freshLabel_comes _).bind fun ifFail => (freshLabel_comes _).bind fun conEnd => ?_
  refine (compileExpression_comes condition 0).bind fun condReg => (addInstruction_comes _ _ _ _).bind fun _ => ?_
  refine (freeRegister_comes condReg).bind fun _ => ?_
  have hbody (i : ℕ) {body : Body} (h : Fits fuel n context.finallyBlocks body) :
      Comes n (Compiler.compileBody compileStmt { context with path := i :: context.path } body) :=
    compileBody_comes hstmt h
  refine (hbody 0 h).bind fun _ => ?_
  cases elseBody with
  | none => exact (addInstruction_comes _ _ _ _).bind fun _ => addInstruction_comes _ _ _ _
  | some other =>
    refine (addInstruction_comes _ _ _ _).bind fun _ => (addInstruction_comes _ _ _ _).bind fun _ => ?_
    exact (hbody 1 (helse other rfl)).bind fun _ => addInstruction_comes _ _ _ _

theorem compileTryCatch_comes {context : Context} (catchIdent : String) {tryBody catchBody : Body}
    {finallyBody : Option Body} (htry : Fits fuel n (Compiler.tryContext context 0 finallyBody).finallyBlocks tryBody)
    (hcatch : Fits fuel n (Compiler.tryContext context 1 finallyBody).finallyBlocks catchBody)
    (hfinally : ∀ body ∈ finallyBody, Fits fuel n (Compiler.tryContext context 2 finallyBody).finallyBlocks body) :
    Comes n (Compiler.compileTryCatch compileStmt context catchIdent tryBody catchBody finallyBody) := by
  refine (freshLabel_comes _).bind fun catchLabel => (freshLabel_comes _).bind fun finallyLabel => ?_
  refine (addInstruction_comes _ _ _ _).bind fun _ => (compileBody_comes hstmt htry).bind fun _ => ?_
  refine (addInstruction_comes _ _ _ _).bind fun _ => (addInstruction_comes _ _ _ _).bind fun _ => ?_
  refine (onFunction_comes (getRegister_direct _)).bind fun _ => (addInstruction_comes _ _ _ _).bind fun _ => ?_
  refine (compileBody_comes hstmt hcatch).bind fun _ => (addInstruction_comes _ _ _ _).bind fun _ => ?_
  cases finallyBody with
  | none => exact addInstruction_comes _ _ _ _
  | some body => exact (compileBody_comes hstmt (hfinally body rfl)).bind fun _ => addInstruction_comes _ _ _ _

theorem compileExpressionStmt_comes {context : Context} (e : Expr) {hasReturn : Bool} (hasBreak : Bool)
    (hcopied : hasReturn = true → ∀ block ∈ context.finallyBlocks, Fits fuel n context.finallyBlocks block.2) :
    Comes n (Compiler.compileExpressionStmt compileStmt context e hasReturn hasBreak) := by
  have hrest : Comes n (do
      let reg ← Compiler.compileExpression e 0
      if hasReturn then Compiler.compileReturn compileStmt context reg else pure ()
      Compiler.freeRegister reg) := by
    refine (compileExpression_comes e 0).bind fun reg => .ite (fun hreturn => ?_) fun _ => freeRegister_comes reg
    refine Excludes.bind ?_ fun _ => freeRegister_comes reg
    refine (forEach_comes fun block hblock => ?_).bind fun _ => addInstruction_comes _ _ _ _
    exact compileBody_comes hstmt (hcopied hreturn block hblock)
  exact .ite (fun _ => (compileBreak_comes context).bind fun _ => hrest) fun _ => hrest

end

theorem depthIn_singleton (stmt : Stmt) : depthIn [stmt] = depth stmt := Nat.max_zero (depth stmt)

theorem returnsIn_singleton (stmt : Stmt) : returnsIn [stmt] = returns stmt := Bool.or_false (returns stmt)

theorem regularBody_singleton (stmt : Stmt) : regularBody [stmt] = regular stmt := Bool.and_true (regular stmt)

theorem Fits.inner {fuel n : ℕ} {blocks : List (List ℕ × Body)} {stmt : Stmt} {body : Body}
    (h : Fits (fuel + 1) n blocks [stmt]) (hregular : regularBody body = true) (hdepth : 1 + depthIn body ≤ depth stmt)
    (hreturns : returnsIn body = true → returns stmt = true) : Fits fuel n blocks body := by
  have henough := h.enough
  have hbounded := h.bounded
  rw [depthIn_singleton] at henough hbounded
  refine ⟨hregular, by omega, by omega, fun hreturn => ?_⟩
  have hcopied := h.copied (by rw [returnsIn_singleton, hreturns hreturn])
  rw [depthIn_singleton] at hcopied
  exact hcopied.mono (by omega)

theorem Fits.guarded {fuel n : ℕ} {blocks : List (List ℕ × Body)} {body finallyBody : Body} (path : List ℕ)
    (h : Fits fuel n blocks body) (hregular : regularBody finallyBody = true) (hreturns : returnsIn finallyBody = false)
    (henough : depthIn body + depthIn finallyBody ≤ fuel) (hbounded : depthIn finallyBody ≤ n) :
    Fits fuel n (blocks ++ [(path, finallyBody)]) body := by
  refine ⟨h.clean, h.enough, h.bounded, fun hreturn block hblock => ?_⟩
  rcases List.mem_append.mp hblock with hblock | hblock
  · exact h.copied hreturn block hblock
  · obtain rfl := List.mem_singleton.mp hblock
    exact ⟨hregular, hreturns, henough, hbounded⟩

section

variable {fuel n : ℕ} {blocks : List (List ℕ × Body)}

theorem Fits.loop {startExpr condition iterExpr : Option Expr} {body : Body}
    (h : Fits (fuel + 1) n blocks [.loop startExpr condition iterExpr body]) : Fits fuel n blocks body := by
  have hregular := h.clean
  rw [regularBody_singleton, regular] at hregular
  refine h.inner hregular (by rw [depth]) fun hreturn => ?_
  rwa [returns]

theorem Fits.block {body : Body} (h : Fits (fuel + 1) n blocks [.block body]) : Fits fuel n blocks body := by
  have hregular := h.clean
  rw [regularBody_singleton, regular] at hregular
  refine h.inner hregular (by rw [depth]) fun hreturn => ?_
  rwa [returns]

theorem Fits.conditional {condition : Expr} {body : Body} {elseBody : Option Body}
    (h : Fits (fuel + 1) n blocks [.conditional condition body elseBody]) :
    Fits fuel n blocks body ∧ ∀ other ∈ elseBody, Fits fuel n blocks other := by
  have hregular := h.clean
  rw [regularBody_singleton] at hregular
  cases elseBody with
  | none =>
    rw [regular] at hregular
    refine ⟨h.inner hregular (by rw [depth]) fun hreturn => ?_, fun other hother => ?_⟩
    · rwa [returns]
    · exact absurd hother (Option.not_mem_none other)
  | some elseBody =>
    rw [regular, Bool.and_eq_true] at hregular
    constructor
    · refine h.inner hregular.1 (by rw [depth]; omega) fun hreturn => ?_
      rw [returns, hreturn, Bool.true_or]
    · intro other hother
      obtain rfl := Option.mem_some.mp hother
      refine h.inner hregular.2 (by rw [depth]; omega) fun hreturn => ?_
      rw [returns, hreturn, Bool.or_true]

theorem Fits.tryCatch {catchIdent : String} {tryBody catchBody : Body}
    (h : Fits (fuel + 1) n blocks [.tryCatch catchIdent tryBody catchBody none]) :
    Fits fuel n blocks tryBody ∧ Fits fuel n blocks catchBody := by
  have hregular := h.clean
  rw [regularBody_singleton, regular, Bool.and_eq_true] at hregular
  constructor
  · refine h.inner hregular.1 (by rw [depth]; omega) fun hreturn => ?_
    rw [returns, hreturn, Bool.true_or]
  · refine h.inner hregular.2 (by rw [depth]; omega) fun hreturn => ?_
    rw [returns, hreturn, Bool.or_true]

theorem Fits.tryCatchFinally {catchIdent : String} {tryBody catchBody finallyBody : Body} (path : List ℕ)
    (h : Fits (fuel + 1) n blocks [.tryCatch catchIdent tryBody catchBody (some finallyBody)]) :
    Fits fuel n (blocks ++ [(path, finallyBody)]) tryBody ∧ Fits fuel n (blocks ++ [(path, finallyBody)]) catchBody ∧
      Fits fuel n (blocks ++ [(path, finallyBody)]) finallyBody := by
  have hregular := h.clean
  simp only [regularBody_singleton, regular, Bool.and_eq_true, Bool.not_eq_true'] at hregular
  obtain ⟨⟨hregulartry, hregularcatch⟩, hregularfinally, hreturns⟩ := hregular
  have henough := h.enough
  have hbounded := h.bounded
  rw [depthIn_singleton, depth] at henough hbounded
  have htry : Fits fuel n blocks tryBody := by
    refine h.inner hregulartry (by rw [depth]; omega) fun hreturn => ?_
    rw [returns, hreturn, Bool.true_or, Bool.true_or]
  have hcatch : Fits fuel n blocks catchBody := by
    refine h.inner hregularcatch (by rw [depth]; omega) fun hreturn => ?_
    rw [returns, hreturn, Bool.or_true, Bool.true_or]
  refine ⟨htry.guarded path hregularfinally hreturns (by omega) (by omega),
    hcatch.guarded path hregularfinally hreturns (by omega) (by omega), ?_⟩
  refine ⟨hregularfinally, by omega, by omega, fun hreturn => ?_⟩
  rw [hreturns] at hreturn
  cases hreturn

end

theorem compileStmt_comes {n : ℕ} (fuel : ℕ) (context : Context) (stmt : Stmt)
    (h : Fits fuel n context.finallyBlocks [stmt]) : Comes n (Compiler.compileStmt fuel context stmt) := by
  induction fuel generalizing context stmt with
  | zero =>
    have henough := h.enough
    have hpos := depth_pos stmt
    rw [depthIn_singleton] at henough
    omega
  | succ fuel ih =>
    cases stmt with
    | expression e hasReturn hasBreak hasContinue =>
      refine compileExpressionStmt_comes ih e hasBreak fun hreturn block hblock => ?_
      have hcopied := h.copied (by rw [returnsIn_singleton, returns, hreturn])
      obtain ⟨hregular, hreturns, henough, hbounded⟩ := hcopied block hblock
      rw [depthIn_singleton, depth] at henough
      refine ⟨hregular, by omega, hbounded, fun hreturn => ?_⟩
      rw [hreturns] at hreturn
      cases hreturn
    | function isStatic isAsync isPrivate identifier arguments body =>
      have hregular := h.clean
      have hbounded := h.bounded
      rw [regularBody_singleton, regular] at hregular
      rw [depthIn_singleton, depth] at hbounded
      have hlt : depthIn body < n := by omega
      intro s hs
      refine ⟨(fun hrun => by cases hrun), fun b s' c hrun => ?_⟩
      cases hrun
      intro node hnode
      rcases List.mem_append.mp hnode with hnode | hnode
      · exact hs node hnode
      · obtain rfl := List.mem_singleton.mp hnode
        exact ⟨hregular, hlt⟩
    | var identifier value isPrivate isSynchronized => exact compileVar_comes identifier value isSynchronized
    | loop startExpr condition iterExpr body => exact compileLoop_comes ih startExpr condition iterExpr h.loop
    | block body => exact compileBody_comes ih h.block
    | conditional condition body elseBody =>
      obtain ⟨hbody, helse⟩ := h.conditional
      exact compileConditional_comes ih condition hbody helse
    | tryCatch catchIdent tryBody catchBody finallyBody =>
      cases finallyBody with
      | none =>
        obtain ⟨htry, hcatch⟩ := h.tryCatch
        have happend : (Compiler.tryContext context 0 none).finallyBlocks = context.finallyBlocks := List.append_nil _
        rw [← happend] at htry hcatch
        exact compileTryCatch_comes ih catchIdent htry hcatch fun body hbody => absurd hbody (Option.not_mem_none body)
      | some finallyBody =>
        obtain ⟨htry, hcatch, hfinally⟩ := h.tryCatchFinally (2 :: context.path)
        refine compileTryCatch_comes ih catchIdent htry hcatch fun body hbody => ?_
        obtain rfl := Option.mem_some.mp hbody
        exact hfinally

theorem framed_comes {n : ℕ} {identifier : String} {body : Compile Unit} (h : Comes n body) :
    Comes n (Compiler.framed identifier body) := by
  intro s hs
  obtain ⟨hfail, hkept⟩ := h s hs
  unfold Compiler.framed
  constructor
  · intro hrun
    split at hrun
    · rename_i hbody
      cases hrun
      exact hfail hbody
    · cases hrun
  · intro b s' c hrun
    split at hrun
    · cases hrun
    · rename_i hbody
      cases hrun
      exact hkept _ _ _ hbody

theorem inFunction_comes {n m : ℕ} {node : FunctionNode} {body : Compile Unit} (h : Comes n body) :
    Comes m (Compiler.inFunction node body) := by
  intro s hs
  obtain ⟨hfail, -⟩ := h { s with function := Compiler.FunctionNode.kind node s, functionsToCompile := [] } nofun
  unfold Compiler.inFunction
  constructor
  · intro hrun
    split at hrun
    · rename_i hbody
      cases hrun
      exact hfail hbody
    · cases hrun
  · intro b s' c hrun
    split at hrun
    · cases hrun
    · cases hrun
      exact hs

theorem remaining_comes {n : ℕ} {f : FunctionNode → Compile Unit}
    (hf : ∀ node, regularBody node.body = true → depthIn node.body < n → Comes n (f node)) :
    Comes n (do
      let functions ← Compiler.remainingFunctions
      Compiler.forEach f functions) := by
  intro s hs
  have hall : Comes n (Compiler.forEach f s.functionsToCompile) :=
    forEach_comes fun node hnode => hf node (hs node hnode).1 (hs node hnode).2
  obtain ⟨hfail, hkept⟩ := hall s hs
  constructor
  · intro hrun
    rcases bind_error.mp hrun with hrun | ⟨functions, s₁, c, hfunctions, hrun⟩
    · cases hrun
    · cases hfunctions
      exact hfail hrun
  · intro b s' c hrun
    obtain ⟨functions, s₁, c₁, c₂, hfunctions, hrun, -⟩ := bind_ok.mp hrun
    cases hfunctions
    exact hkept b s' c₂ hrun

theorem registerStatic_comes {n : ℕ} (identifier : String) : Comes n (Compiler.registerStatic identifier) := by
  intro s hs
  refine ⟨nofun, fun b s' c hrun => ?_⟩
  cases hrun
  exact hs

theorem compileStaticPrologue_comes {n : ℕ} (importsMap : List (String × String)) :
    Comes n (Compiler.compileStaticPrologue importsMap) := by
  have hnames : Comes n Compiler.staticFunctions := by
    intro s hs
    refine ⟨nofun, fun b s' c hrun => ?_⟩
    cases hrun
    exact hs
  refine (forEach_comes fun _ _ => addInstruction_comes _ _ _ _).bind fun _ => ?_
  refine (onFunction_comes getTemporary_direct).bind fun _ => (addInstruction_comes _ _ _ _).bind fun _ => ?_
  refine (onFunction_comes getTemporary_direct).bind fun _ => (onFunction_comes getTemporary_direct).bind fun _ => ?_
  refine hnames.bind fun names => forEach_comes fun fncName _ => ?_
  exact (addInstruction_comes _ _ _ _).bind fun _ => (addInstruction_comes _ _ _ _).bind fun _ =>
    addInstruction_comes _ _ _ _

theorem compileFunction_comes {m : ℕ} (importsMap : List (String × String)) {fuel : ℕ} {node : FunctionNode}
    (hregular : regularBody node.body = true) (hfuel : depthIn node.body < fuel) :
    Comes m (Compiler.compileFunction importsMap fuel node) := by
  induction fuel generalizing node m with
  | zero => omega
  | succ fuel ih =>
    have hfits : Fits fuel (depthIn node.body) [] node.body := ⟨hregular, by omega, le_rfl, fun _ _ hblock => nomatch hblock⟩
    have hrest : Comes (depthIn node.body) (do
        Compiler.compileBody (Compiler.compileStmt fuel) (Compiler.functionContext node.path node.addressed) node.body
        Compiler.addInstruction .RETURN (.num 0) (.num 0) (.num 0)
        Compiler.addLabel ("end" ++ node.identifier)
        let functions ← Compiler.remainingFunctions
        Compiler.forEach (Compiler.compileFunction importsMap fuel) functions) := by
      refine Excludes.bind (compileBody_comes (compileStmt_comes fuel) hfits) fun _ => ?_
      refine (addInstruction_comes _ _ _ _).bind fun _ => (addInstruction_comes _ _ _ _).bind fun _ => ?_
      exact remaining_comes fun inner hinner hdepth => ih hinner (by omega)
    have hbody : Comes (depthIn node.body)
        (Compiler.compileFunctionBody importsMap fuel (Compiler.compileFunction importsMap fuel) node) := by
      refine (onFunction_comes (getRegister_direct _)).bind fun _ => (addInstruction_comes _ _ _ _).bind fun _ => ?_
      refine .ite (fun _ => (compileStaticPrologue_comes importsMap).bind fun _ => hrest) fun _ => ?_
      exact .ite (fun _ => (registerStatic_comes _).bind fun _ => hrest) fun _ => hrest
    exact inFunction_comes (framed_comes hbody)

/-- The recursion of the compiler on a class has an end. -/
def Ends (cls : ClassDeclaration) : Prop := ∃ fuel, compileClass fuel cls ≠ .error .outOfFuel

theorem regular_ends {cls : ClassDeclaration} (h : regularBody cls.body = true) : Ends cls := by
  have hfits : Fits (depthIn cls.body) (depthIn cls.body) [] cls.body := ⟨h, le_rfl, le_rfl, fun _ _ hblock => nomatch hblock⟩
  have hclass : Comes (depthIn cls.body)
      (Compiler.framed cls.identifier (Compiler.compileClassBody (depthIn cls.body) cls)) := by
    refine framed_comes ((addInstruction_comes _ _ _ _).bind fun _ => ?_)
    refine (forEach_comes fun ident _ => ?_).bind fun _ => ?_
    · exact (onFunction_comes (getRegister_direct ident)).bind fun _ => addInstruction_comes _ _ _ _
    · refine Excludes.bind (compileBody_comes (compileStmt_comes _) hfits) fun _ => ?_
      refine (addInstruction_comes _ _ _ _).bind fun _ => (addInstruction_comes _ _ _ _).bind fun _ => ?_
      exact remaining_comes fun node hnode hdepth => compileFunction_comes cls.importsMap hnode hdepth
  refine ⟨depthIn cls.body, fun hfail => ?_⟩
  obtain ⟨hnever, -⟩ := hclass { function := calculateClass cls } nofun
  unfold compileClass at hfail
  split at hfail
  · rename_i hrun
    cases hfail
    exact hnever hrun
  · cases hfail

abbrev Keeps (s s' : CompilerState) : Prop := ∀ node ∈ s.functionsToCompile, node ∈ s'.functionsToCompile

instance : AdvanceLater Keeps where
  refl _ _ h := h
  trans h h' node hnode := h' node (h node hnode)
  tables _ _ _ h := h
  counted _ _ h := h
  later _ _ _ h := List.mem_append_left _ h

/-- If a run comes back, and the functions that wait then are regular, this is the case. -/
def Reveals {β : Type} (P : Prop) (m : Compile β) : Prop :=
  ∀ s b s' c, m s = .ok (b, s', c) → (∀ node ∈ s'.functionsToCompile, regularBody node.body = true) → P

section

variable {β γ : Type} {P Q : Prop} {m : Compile β} {f : β → Compile γ}

theorem Reveals.first (h : Reveals P m) (hf : ∀ b, Advances Keeps (f b)) : Reveals P (m >>= f) := by
  intro s d s' c hrun hregular
  obtain ⟨b, s₁, c₁, c₂, h₁, h₂, -⟩ := bind_ok.mp hrun
  exact h _ _ _ _ h₁ fun node hnode => hregular node (hf b _ _ _ _ h₂ node hnode)

theorem Reveals.second (hf : ∀ b, Reveals P (f b)) : Reveals P (m >>= f) := by
  intro s d s' c hrun hregular
  obtain ⟨b, s₁, c₁, c₂, -, h₂, -⟩ := bind_ok.mp hrun
  exact hf b _ _ _ _ h₂ hregular

theorem Reveals.and (h : Reveals P m) (h' : Reveals Q m) : Reveals (P ∧ Q) m :=
  fun s b s' c hrun hregular => ⟨h s b s' c hrun hregular, h' s b s' c hrun hregular⟩

theorem Reveals.imp (h : Reveals P m) (hPQ : P → Q) : Reveals Q m :=
  fun s b s' c hrun hregular => hPQ (h s b s' c hrun hregular)

theorem Reveals.trivial (h : P) : Reveals P m := fun _ _ _ _ _ _ => h

end

/-- Some `finally` body that is copied to a `return` has a `return`. -/
def Recurs (blocks : List (List ℕ × Body)) : Prop := ∃ block ∈ blocks, returnsIn block.2 = true

/-- A body with no `return` in a `finally` body, and none at all if that would recur. -/
structure Fine (blocks : List (List ℕ × Body)) (body : Body) : Prop where
  clean : regularBody body = true
  silent : Recurs blocks → returnsIn body = false

theorem Fine.cons {blocks : List (List ℕ × Body)} {stmt : Stmt} {rest : Body} (h : Fine blocks [stmt])
    (hrest : Fine blocks rest) : Fine blocks (stmt :: rest) := by
  have hclean := h.clean
  rw [regularBody_singleton] at hclean
  refine ⟨?_, fun hrecurs => ?_⟩
  · rw [regularBody, hclean, hrest.clean]
    rfl
  · have hsilent := h.silent hrecurs
    rw [returnsIn_singleton] at hsilent
    rw [returnsIn, hsilent, hrest.silent hrecurs]
    rfl

section

variable {compileStmt : Context → Stmt → Compile Unit}
  (hkeeps : ∀ context stmt, Advances Keeps (compileStmt context stmt))
  (hstmt : ∀ context stmt, Reveals (Fine context.finallyBlocks [stmt]) (compileStmt context stmt))

include hkeeps hstmt

theorem compileStatements_reveals (context : Context) (i : ℕ) (body : Body) :
    Reveals (Fine context.finallyBlocks body) (Compiler.compileStatements compileStmt context i body) := by
  induction body generalizing i with
  | nil => exact .trivial ⟨rfl, fun _ => rfl⟩
  | cons stmt rest ih =>
    have hfirst : Reveals (Fine context.finallyBlocks [stmt])
        (Compiler.compileStatements compileStmt context i (stmt :: rest)) :=
      Reveals.first (hstmt { context with path := i :: context.path } stmt) fun _ =>
        compileStatements_advances (i + 1) rest fun _ _ _ => hkeeps _ _
    have hrest : Reveals (Fine context.finallyBlocks rest)
        (Compiler.compileStatements compileStmt context i (stmt :: rest)) :=
      Reveals.second fun _ => ih (i + 1)
    exact (hfirst.and hrest).imp fun ⟨h, hs⟩ => h.cons hs

theorem compileBody_reveals (context : Context) (body : Body) :
    Reveals (Fine context.finallyBlocks body) (Compiler.compileBody compileStmt context body) :=
  .second fun _ => compileStatements_reveals hkeeps hstmt context 0 body

theorem compileLoop_reveals (context : Context) (startExpr condition iterExpr : Option Expr) (body : Body) :
    Reveals (Fine context.finallyBlocks body)
      (Compiler.compileLoop compileStmt context startExpr condition iterExpr body) := by
  have hbody (lend : String) : Reveals (Fine context.finallyBlocks body) (Compiler.compileBody compileStmt
      { context with loopEndLabels := lend :: context.loopEndLabels } body) := compileBody_reveals hkeeps hstmt _ body
  refine .second fun lstart => .second fun lend => .second fun lcond => .second fun _ => .second fun _ => ?_
  refine .second fun _ => (hbody lend).first fun _ => ?_
  refine (compileDiscarded_advances iterExpr).bind fun _ => (addInstruction_advances _ _ _ _).bind fun _ => ?_
  cases condition with
  | none => exact addInstruction_advances _ _ _ _
  | some condition =>
    refine (onFunction_advances _).bind fun _ => (addInstruction_advances _ _ _ _).bind fun _ => ?_
    exact (onFunction_advances _).bind fun _ => addInstruction_advances _ _ _ _

theorem compileConditional_reveals (context : Context) (condition : Expr) (body : Body) (elseBody : Option Body) :
    Reveals (Fine context.finallyBlocks body ∧ ∀ other ∈ elseBody, Fine context.finallyBlocks other)
      (Compiler.compileConditional compileStmt context condition body elseBody) := by
  have hbody (i : ℕ) (body : Body) : Reveals (Fine context.finallyBlocks body) (Compiler.compileBody compileStmt
      { context with path := i :: context.path } body) := compileBody_reveals hkeeps hstmt _ body
  refine .second fun ifFail => .second fun conEnd => .second fun condReg => .second fun _ => .second fun _ => ?_
  cases elseBody with
  | none =>
    refine Reveals.imp ((hbody 0 body).first fun _ => ?_) fun h => ⟨h, nofun⟩
    exact (addInstruction_advances _ _ _ _).bind fun _ => addInstruction_advances _ _ _ _
  | some elseBody =>
    refine Reveals.imp (Reveals.and ((hbody 0 body).first fun _ => ?_) (.second fun _ => .second fun _ =>
      .second fun _ => (hbody 1 elseBody).first fun _ => addInstruction_advances _ _ _ _)) fun h => ⟨h.1, ?_⟩
    · refine (addInstruction_advances _ _ _ _).bind fun _ => (addInstruction_advances _ _ _ _).bind fun _ => ?_
      exact (compileBody_advances fun _ _ _ => hkeeps _ _).bind fun _ => addInstruction_advances _ _ _ _
    · intro other hother
      obtain rfl := Option.mem_some.mp hother
      exact h.2

theorem compileTryCatch_reveals (context : Context) (catchIdent : String) (tryBody catchBody : Body)
    (finallyBody : Option Body) :
    Reveals (Fine (Compiler.tryContext context 0 finallyBody).finallyBlocks tryBody ∧
        Fine (Compiler.tryContext context 0 finallyBody).finallyBlocks catchBody ∧
        ∀ body ∈ finallyBody, Fine (Compiler.tryContext context 0 finallyBody).finallyBlocks body)
      (Compiler.compileTryCatch compileStmt context catchIdent tryBody catchBody finallyBody) := by
  have hbody (i : ℕ) (body : Body) : Reveals (Fine (Compiler.tryContext context 0 finallyBody).finallyBlocks body)
      (Compiler.compileBody compileStmt (Compiler.tryContext context i finallyBody) body) :=
    compileBody_reveals hkeeps hstmt (Compiler.tryContext context i finallyBody) body
  have hlast := finally_advances context finallyBody fun _ _ => compileBody_advances fun _ _ _ => hkeeps _ _
  refine .second fun catchLabel => .second fun finallyLabel => .second fun _ => ?_
  refine Reveals.and ((hbody 0 tryBody).first fun _ => ?_) (Reveals.and ?_ ?_)
  · refine (addInstruction_advances _ _ _ _).bind fun _ => (addInstruction_advances _ _ _ _).bind fun _ => ?_
    refine (onFunction_advances _).bind fun _ => (addInstruction_advances _ _ _ _).bind fun _ => ?_
    exact (compileBody_advances fun _ _ _ => hkeeps _ _).bind fun _ => (addInstruction_advances _ _ _ _).bind fun _ => hlast
  · refine .second fun _ => .second fun _ => .second fun _ => .second fun _ => .second fun _ => ?_
    exact (hbody 1 catchBody).first fun _ => (addInstruction_advances _ _ _ _).bind fun _ => hlast
  · refine .second fun _ => .second fun _ => .second fun _ => .second fun _ => .second fun _ => ?_
    refine .second fun _ => .second fun _ => ?_
    cases finallyBody with
    | none => exact .trivial fun body hbody => absurd hbody (Option.not_mem_none body)
    | some finallyBody =>
      refine Reveals.imp ((hbody 2 finallyBody).first fun _ => addInstruction_advances _ _ _ _) fun h body hmem => ?_
      obtain rfl := Option.mem_some.mp hmem
      exact h

theorem compileReturn_reveals (context : Context) (reg : ℕ) :
    Reveals (¬Recurs context.finallyBlocks) (Compiler.compileReturn compileStmt context reg) := by
  have hall (blocks : List (List ℕ × Body)) : Reveals (∀ block ∈ blocks, Fine context.finallyBlocks block.2)
      (Compiler.forEach (fun block => Compiler.compileBody compileStmt
        { context with path := block.1, addressed := false } block.2) blocks) := by
    induction blocks with
    | nil => exact .trivial nofun
    | cons block blocks ih =>
      have hblock : Reveals (Fine context.finallyBlocks block.2) (Compiler.compileBody compileStmt
          { context with path := block.1, addressed := false } block.2) := compileBody_reveals hkeeps hstmt _ block.2
      have hrest : Advances Keeps (Compiler.forEach (fun block => Compiler.compileBody compileStmt
          { context with path := block.1, addressed := false } block.2) blocks) :=
        forEach_advances blocks fun _ _ => compileBody_advances fun _ _ _ => hkeeps _ _
      refine Reveals.imp ((hblock.first fun _ => hrest).and (.second fun _ => ih)) fun h => ?_
      exact List.forall_mem_cons.mpr h
  refine Reveals.imp ((hall context.finallyBlocks).first fun _ => addInstruction_advances _ _ _ _) fun h hrecurs => ?_
  obtain ⟨block, hblock, hreturns⟩ := hrecurs
  have hsilent := (h block hblock).silent ⟨block, hblock, hreturns⟩
  rw [hreturns] at hsilent
  cases hsilent

theorem compileExpressionStmt_reveals (context : Context) (e : Expr) (hasReturn hasBreak : Bool) :
    Reveals (hasReturn = true → ¬Recurs context.finallyBlocks)
      (Compiler.compileExpressionStmt compileStmt context e hasReturn hasBreak) := by
  have hrest : Reveals (hasReturn = true → ¬Recurs context.finallyBlocks) (do
      let reg ← Compiler.compileExpression e 0
      if hasReturn then Compiler.compileReturn compileStmt context reg else pure ()
      Compiler.freeRegister reg) := by
    refine .second fun reg => ?_
    cases hasReturn with
    | false => exact .trivial nofun
    | true =>
      have hreturn : Reveals (¬Recurs context.finallyBlocks) (do
          Compiler.compileReturn compileStmt context reg
          Compiler.freeRegister reg) :=
        (compileReturn_reveals hkeeps hstmt context reg).first fun _ => onFunction_advances _
      exact Reveals.imp hreturn fun h _ => h
  unfold Compiler.compileExpressionStmt
  cases hasBreak with
  | false => exact hrest
  | true => exact .second fun _ => hrest

end

theorem Fine.tryCatchFinally {blocks : List (List ℕ × Body)} {catchIdent : String} {tryBody catchBody finallyBody : Body}
    (path : List ℕ) (htry : Fine (blocks ++ [(path, finallyBody)]) tryBody)
    (hcatch : Fine (blocks ++ [(path, finallyBody)]) catchBody)
    (hfinally : Fine (blocks ++ [(path, finallyBody)]) finallyBody) :
    Fine blocks [.tryCatch catchIdent tryBody catchBody (some finallyBody)] := by
  have hreturns : returnsIn finallyBody = false := by
    by_contra hreturn
    rw [Bool.not_eq_false] at hreturn
    have hsilent := hfinally.silent ⟨(path, finallyBody), by simp, hreturn⟩
    rw [hreturn] at hsilent
    cases hsilent
  have hmore (hrecurs : Recurs blocks) : Recurs (blocks ++ [(path, finallyBody)]) := by
    obtain ⟨block, hblock, hreturn⟩ := hrecurs
    exact ⟨block, List.mem_append_left _ hblock, hreturn⟩
  refine ⟨?_, fun hrecurs => ?_⟩
  · rw [regularBody_singleton, regular, htry.clean, hcatch.clean, hfinally.clean, hreturns]
    rfl
  · rw [returnsIn_singleton, returns, htry.silent (hmore hrecurs), hcatch.silent (hmore hrecurs), hreturns]
    rfl

theorem compileStmt_reveals (fuel : ℕ) (context : Context) (stmt : Stmt) :
    Reveals (Fine context.finallyBlocks [stmt]) (Compiler.compileStmt fuel context stmt) := by
  induction fuel generalizing context stmt with
  | zero =>
    intro s b s' c hrun
    cases hrun
  | succ fuel ih =>
    have hkeeps : ∀ context stmt, Advances Keeps (Compiler.compileStmt fuel context stmt) := compileStmt_advances fuel
    have hsingle {stmt : Stmt} (hclean : regular stmt = true)
        (hsilent : Recurs context.finallyBlocks → returns stmt = false) : Fine context.finallyBlocks [stmt] := by
      refine ⟨?_, fun hrecurs => ?_⟩
      · rw [regularBody_singleton, hclean]
      · rw [returnsIn_singleton, hsilent hrecurs]
    cases stmt with
    | expression e hasReturn hasBreak hasContinue =>
      refine Reveals.imp (compileExpressionStmt_reveals hkeeps ih context e hasReturn hasBreak) fun h => ?_
      refine hsingle (by rw [regular]) fun hrecurs => ?_
      rw [returns]
      exact eq_false_of_ne_true fun hreturn => h hreturn hrecurs
    | function isStatic isAsync isPrivate identifier arguments body =>
      intro s b s' c hrun hregular
      cases hrun
      have hbody := hregular ⟨context.path, context.addressed, isStatic, isAsync, identifier, arguments, body⟩ (by simp)
      exact hsingle (by rw [regular]; exact hbody) fun _ => by rw [returns]
    | var => exact .trivial (hsingle (by rw [regular]) fun _ => by rw [returns])
    | loop startExpr condition iterExpr body =>
      refine Reveals.imp (compileLoop_reveals hkeeps ih context startExpr condition iterExpr body) fun h => ?_
      refine hsingle (by rw [regular]; exact h.clean) fun hrecurs => ?_
      rw [returns]
      exact h.silent hrecurs
    | block body =>
      refine Reveals.imp (compileBody_reveals hkeeps ih context body) fun h => ?_
      refine hsingle (by rw [regular]; exact h.clean) fun hrecurs => ?_
      rw [returns]
      exact h.silent hrecurs
    | conditional condition body elseBody =>
      refine Reveals.imp (compileConditional_reveals hkeeps ih context condition body elseBody) fun hboth => ?_
      obtain ⟨h, helse⟩ := hboth
      cases elseBody with
      | none =>
        refine hsingle (by rw [regular]; exact h.clean) fun hrecurs => ?_
        rw [returns]
        exact h.silent hrecurs
      | some elseBody =>
        have helse := helse elseBody rfl
        refine hsingle (by rw [regular, h.clean, helse.clean]; rfl) fun hrecurs => ?_
        rw [returns, h.silent hrecurs, helse.silent hrecurs]
        rfl
    | tryCatch catchIdent tryBody catchBody finallyBody =>
      refine Reveals.imp (compileTryCatch_reveals hkeeps ih context catchIdent tryBody catchBody finallyBody)
        fun hall => ?_
      obtain ⟨htry, hcatch, hfinally⟩ := hall
      cases finallyBody with
      | none =>
        have happend : (Compiler.tryContext context 0 none).finallyBlocks = context.finallyBlocks := List.append_nil _
        rw [happend] at htry hcatch
        refine hsingle (by rw [regular, htry.clean, hcatch.clean]; rfl) fun hrecurs => ?_
        rw [returns, htry.silent hrecurs, hcatch.silent hrecurs]
        rfl
      | some finallyBody => exact Fine.tryCatchFinally _ htry hcatch (hfinally finallyBody rfl)

theorem forEach_regular {f : FunctionNode → Compile Unit}
    (hf : ∀ node s b s' c, f node s = .ok (b, s', c) → regularBody node.body = true) :
    ∀ {nodes : List FunctionNode} {s s' : CompilerState} {b : Unit} {c : Code},
      Compiler.forEach f nodes s = .ok (b, s', c) → ∀ node ∈ nodes, regularBody node.body = true
  | [], _, _, _, _, _ => nofun
  | _ :: _, _, _, _, _, hrun => by
    obtain ⟨_, s₁, c₁, c₂, hfirst, hrest, -⟩ := bind_ok.mp hrun
    exact List.forall_mem_cons.mpr ⟨hf _ _ _ _ _ hfirst, forEach_regular hf hrest⟩

theorem closing_regular {fuel : ℕ} {f : FunctionNode → Compile Unit}
    (hf : ∀ node s b s' c, f node s = .ok (b, s', c) → regularBody node.body = true) {path : List ℕ} {addressed : Bool}
    {body : Body} {text : String} {s s' : CompilerState} {b : Unit} {c : Code}
    (hrun : (do
      Compiler.compileBody (Compiler.compileStmt fuel) (Compiler.functionContext path addressed) body
      Compiler.addInstruction .RETURN (.num 0) (.num 0) (.num 0)
      Compiler.addLabel text
      let functions ← Compiler.remainingFunctions
      Compiler.forEach f functions) s = .ok (b, s', c)) : regularBody body = true := by
  obtain ⟨_, s₁, c₁, d₁, hbody, hrun, -⟩ := bind_ok.mp hrun
  obtain ⟨_, s₂, c₂, d₂, hreturn, hrun, -⟩ := bind_ok.mp hrun
  obtain ⟨_, s₃, c₃, d₃, hlabel, hrun, -⟩ := bind_ok.mp hrun
  obtain ⟨functions, s₄, c₄, d₄, hfunctions, hrun, -⟩ := bind_ok.mp hrun
  cases hreturn
  cases hlabel
  cases hfunctions
  have hnodes := forEach_regular hf hrun
  exact (compileBody_reveals (compileStmt_advances fuel) (compileStmt_reveals fuel) _ body _ _ _ _ hbody hnodes).clean

theorem compileFunction_regular (importsMap : List (String × String)) (fuel : ℕ) (node : FunctionNode)
    (s : CompilerState) (b : Unit) (s' : CompilerState) (c : Code)
    (hrun : Compiler.compileFunction importsMap fuel node s = .ok (b, s', c)) : regularBody node.body = true := by
  induction fuel generalizing node s b s' c with
  | zero => cases hrun
  | succ fuel ih =>
    unfold Compiler.compileFunction Compiler.inFunction at hrun
    split at hrun
    · cases hrun
    · rename_i hframed
      unfold Compiler.framed at hframed
      split at hframed
      · cases hframed
      · rename_i hbody
        obtain ⟨reg, s₁, c₁, d₁, -, hrun₁, -⟩ := bind_ok.mp hbody
        obtain ⟨_, s₂, c₂, d₂, -, hrun₂, -⟩ := bind_ok.mp hrun₁
        dsimp only at hrun₂
        split at hrun₂
        · obtain ⟨_, s₃, c₃, d₃, -, hrun₃, -⟩ := bind_ok.mp hrun₂
          exact closing_regular ih hrun₃
        · split at hrun₂
          · obtain ⟨_, s₃, c₃, d₃, -, hrun₃, -⟩ := bind_ok.mp hrun₂
            exact closing_regular ih hrun₃
          · exact closing_regular ih hrun₂

theorem compiled_regular {fuel : ℕ} {cls : ClassDeclaration} {code : Code} (h : compileClass fuel cls = .ok code) :
    regularBody cls.body = true := by
  unfold compileClass at h
  split at h
  · cases h
  · rename_i hframed
    unfold Compiler.framed at hframed
    split at hframed
    · cases hframed
    · rename_i hbody
      obtain ⟨_, s₁, c₁, d₁, -, hrun₁, -⟩ := bind_ok.mp hbody
      obtain ⟨_, s₂, c₂, d₂, -, hrun₂, -⟩ := bind_ok.mp hrun₁
      exact closing_regular (compileFunction_regular cls.importsMap fuel) hrun₂

def Compiles (cls : ClassDeclaration) : Prop := ∃ fuel code, compileClass fuel cls = .ok code

/-- The recursion has an end if no `finally` body has a `return`, and no class with such a `return` is compiled:
its compilation has no end, unless an error in the class stops it before. -/
theorem ends_compiles (cls : ClassDeclaration) :
    (regularBody cls.body = true → Ends cls) ∧ (Compiles cls → regularBody cls.body = true) := by
  refine ⟨regular_ends, ?_⟩
  rintro ⟨fuel, code, hcompile⟩
  exact compiled_regular hcompile

def returnZero : Stmt := .ret (.num "0")

def sampleClass : ClassDeclaration := ⟨"Main", [], [.tryCatch "e" [] [] (some [returnZero])], []⟩

theorem number_compiled {s : CompilerState} (hs : s.function.WellFormed) (data : String) :
    ∃ r s₁ c, Compiler.compileExpression (.num data) 0 s = .ok (r, s₁, c) ∧ s₁.function.WellFormed := by
  obtain ⟨r, fk, htemporary, hhanded⟩ := FunctionKind.getTemporary_handed hs
  have hliteral : compileExpression (.num data) 0 false s.function =
      .ok (r, fk, [⟨.MOV_NUMBER, .num r, .str data, .num 0⟩]) := by
    unfold compileExpression compileTerminal compileLiteral
    refine bind_ok.mpr ⟨r, fk, [], [⟨.MOV_NUMBER, .num r, .str data, .num 0⟩], ?_, rfl, rfl⟩
    unfold destinationOrTemporary
    rw [if_pos rfl]
    unfold getTemporary
    rw [htemporary]
  refine ⟨r, { s with function := fk }, [⟨.MOV_NUMBER, .num r, .str data, .num 0⟩], ?_, hhanded.wellFormed⟩
  unfold Compiler.compileExpression Compiler.onFunction
  rw [hliteral]

theorem returnZero_recurs {path : List ℕ} (fuel : ℕ) {context : Context} {s : CompilerState}
    (hblocks : context.finallyBlocks = [(path, [returnZero])]) (hs : s.function.WellFormed) :
    Compiler.compileStmt fuel context returnZero s = .error .outOfFuel := by
  induction fuel generalizing context s with
  | zero => rfl
  | succ fuel ih =>
    obtain ⟨outer, addressed, loopEnds, blocks⟩ := context
    cases hblocks
    obtain ⟨r, s₁, c, hvalue, hs₁⟩ := number_compiled hs "0"
    have hinner : Compiler.compileBody (Compiler.compileStmt fuel) ⟨path, false, loopEnds, [(path, [returnZero])]⟩
        [returnZero] s₁ = .error .outOfFuel := by
      refine bind_error.mpr (.inr ⟨(), s₁, [], rfl, bind_error.mpr (.inl ?_)⟩)
      exact ih rfl hs₁
    have hreturn : Compiler.compileReturn (Compiler.compileStmt fuel)
        ⟨outer, addressed, loopEnds, [(path, [returnZero])]⟩ r s₁ = .error .outOfFuel :=
      bind_error.mpr (.inl (bind_error.mpr (.inl hinner)))
    exact bind_error.mpr (.inr ⟨r, s₁, c, hvalue, bind_error.mpr (.inl hreturn)⟩)

theorem finally_recurs {context : Context} {s : CompilerState} (hblocks : context.finallyBlocks = [])
    (hs : s.function.WellFormed) (fuel : ℕ) :
    Compiler.compileStmt fuel context (.tryCatch "e" [] [] (some [returnZero])) s = .error .outOfFuel := by
  cases fuel with
  | zero => rfl
  | succ fuel =>
    have hfinally (s₁ : CompilerState) (hs₁ : s₁.function.WellFormed) :
        Compiler.compileBody (Compiler.compileStmt fuel) (Compiler.tryContext context 2 (some [returnZero]))
          [returnZero] s₁ = .error .outOfFuel := by
      refine bind_error.mpr (.inr ⟨(), s₁, [], rfl, bind_error.mpr (.inl ?_)⟩)
      refine returnZero_recurs fuel (?_ : _ = [(2 :: context.path, [returnZero])]) hs₁
      change context.finallyBlocks ++ _ = _
      rw [hblocks]
      rfl
    -- the labels and SET_CATCH
    refine bind_error.mpr (.inr ⟨_, _, _, rfl, bind_error.mpr (.inr ⟨_, _, _, rfl, ?_⟩)⟩)
    refine bind_error.mpr (.inr ⟨_, _, _, rfl, bind_error.mpr (.inr ⟨_, _, _, rfl, ?_⟩)⟩)
    -- JMP, the label of the handler and its POP
    refine bind_error.mpr (.inr ⟨_, _, _, rfl, bind_error.mpr (.inr ⟨_, _, _, rfl, ?_⟩)⟩)
    refine bind_error.mpr (.inr ⟨_, _, _, rfl, bind_error.mpr (.inr ⟨_, _, _, rfl, ?_⟩)⟩)
    refine bind_error.mpr (.inr ⟨_, _, _, rfl, bind_error.mpr (.inr ⟨_, _, _, rfl, ?_⟩)⟩)
    exact bind_error.mpr (.inl (hfinally _ hs))

/-- The compiler never comes back from the sample. -/
theorem sampleClass_endless : ¬Ends sampleClass := by
  rintro ⟨fuel, hends⟩
  have hs : (calculateClass sampleClass).WellFormed := (InstructionShapes.tidy_class sampleClass).function
  have hbody : Compiler.compileBody (Compiler.compileStmt fuel) (Compiler.functionContext [] true) sampleClass.body
      { function := calculateClass sampleClass } = .error .outOfFuel :=
    bind_error.mpr (.inr ⟨(), _, _, rfl, bind_error.mpr (.inl (finally_recurs rfl hs fuel))⟩)
  have hclass : Compiler.compileClassBody fuel sampleClass { function := calculateClass sampleClass } =
      .error .outOfFuel :=
    bind_error.mpr (.inr ⟨_, _, _, rfl, bind_error.mpr (.inr ⟨_, _, _, rfl, bind_error.mpr (.inl hbody)⟩)⟩)
  refine hends ?_
  unfold compileClass Compiler.framed
  rw [hclass]

end Zeroscript.Termination
