import Zeroscript.Assembler
import Zeroscript.StraightCode

/-! # What the labels of a class stand for

Labels are texts in one flat map. The outline of a class lists, in the order of the code, its labels and
the operands that name one, each with what it was emitted for. -/
namespace Zeroscript.Outline

open Emission InstructionShapes
open Relation (ReflTransGen)

/-- A function of a class, by position and name; the class itself is at the empty position. A function that
an inlined `finally` body declares is compiled with every copy of the body, and remains one function. -/
abbrev FunctionId := List ℕ × String

/-- What a label is emitted for. -/
inductive Token where
  | start (f : FunctionId)
  | stop (f : FunctionId)
  | generated (stem : String) (n : ℕ)
  deriving DecidableEq

def Token.text : Token → String
  | .start f => f.2
  | .stop f => "end" ++ f.2
  | .generated stem n => StraightCode.label stem n

inductive Mark where
  | label (t : Token)
  | jump (t : Token)
  /-- The operand of `MOV_FNC`. -/
  | refer (t : Token)
  /-- The operand of `FFRAME`, which is a formatted text. -/
  | frame (t : Token)
  deriving DecidableEq

/-- What a label names, or the label that an operand names. -/
inductive Link where
  | label (text : String)
  | jump (text : String)
  | operand (text : String)
  deriving DecidableEq

def Mark.link : Mark → Link
  | .label t => .label (Compiler.truncate 98 t.text)
  | .jump t => .jump t.text
  | .refer t => .operand t.text
  | .frame t => .operand (Compiler.truncate 99 t.text)

def Mark.token : Mark → Token
  | .label t | .jump t | .refer t | .frame t => t

def target (i : Instruction) : Option String :=
  if i.opcode.isCompareJump || i.opcode.isImmediateJump then some i.r2.text
  else
    match i.opcode with
    | .JMP_NOT_TRUE | .JMP_TRUE | .MOV_FNC => some i.r1.text
    | .JMP | .SET_CATCH => some i.r0.text
    | .FFRAME => some i.r2.text
    | _ => none

def link (i : Instruction) : Option Link :=
  match i.opcode with
  | .LABEL => some (.label i.r0.text)
  | .MOV_FNC => some (.operand i.r1.text)
  | .FFRAME => some (.operand i.r2.text)
  | _ => (target i).map .jump

def links (code : Code) : List Link := code.filterMap link

@[simp] theorem links_append (c d : Code) : links (c ++ d) = links c ++ links d := List.filterMap_append

theorem links_quiet {code : Code} (h : ∀ i ∈ code, link i = none) : links code = [] := by
  unfold links
  rw [List.filterMap_eq_nil_iff]
  exact h

/-- The part of the compiler's state that decides about labels. -/
structure OutlineState where
  pending : List FunctionNode := []
  labelCount : ℕ := 0
  statics : List FunctionId := []

abbrev Outlining (β : Type) := Emitter OutlineState Failure Mark β

structure OutlineContext where
  path : List ℕ
  addressed : Bool
  loopEnds : List Token
  finallyBlocks : List (List ℕ × Body)

def FunctionNode.id (node : FunctionNode) : FunctionId := (node.path, node.identifier)

def mark (m : Mark) : Outlining Unit := fun s => .ok ((), s, [m])

def fresh (stem : String) : Outlining Token := fun s =>
  .ok (.generated stem (s.labelCount + 1), { s with labelCount := s.labelCount + 1 }, [])

def later (node : FunctionNode) : Outlining Unit := fun s =>
  .ok ((), { s with pending := s.pending ++ [node] }, [])

def registerStatic (f : FunctionId) : Outlining Unit := fun s =>
  .ok ((), { s with statics := s.statics ++ [f] }, [])

def statics : Outlining (List FunctionId) := fun s => .ok (s.statics, s, [])

def remaining : Outlining (List FunctionNode) := fun s => .ok (s.pending, s, [])

def forEach {γ : Type} (f : γ → Outlining Unit) : List γ → Outlining Unit
  | [] => pure ()
  | x :: xs => do
    f x
    forEach f xs

def hoists (path : List ℕ) : ℕ → Body → Outlining Unit
  | _, [] => pure ()
  | i, .function _ _ _ identifier _ _ :: rest => do
    mark (.refer (.start (i :: path, identifier)))
    hoists path (i + 1) rest
  | i, _ :: rest => hoists path (i + 1) rest

def outlineStatements (outlineStmt : OutlineContext → Stmt → Outlining Unit) (context : OutlineContext) :
    ℕ → Body → Outlining Unit
  | _, [] => pure ()
  | i, stmt :: rest => do
    outlineStmt { context with path := i :: context.path } stmt
    outlineStatements outlineStmt context (i + 1) rest

def outlineBody (outlineStmt : OutlineContext → Stmt → Outlining Unit) (context : OutlineContext)
    (body : Body) : Outlining Unit := do
  hoists context.path 0 body
  outlineStatements outlineStmt context 0 body

def outlineLoop (outlineStmt : OutlineContext → Stmt → Outlining Unit) (context : OutlineContext)
    (condition : Option Expr) (body : Body) : Outlining Unit := do
  let lstart ← fresh ".lstart_"
  let lend ← fresh ".lend_"
  let lcond ← fresh ".lcond_"
  mark (.jump lcond)
  mark (.label lstart)
  outlineBody outlineStmt { context with loopEnds := lend :: context.loopEnds } body
  mark (.label lcond)
  if condition.isSome then mark (.jump lstart) else pure ()
  mark (.label lend)

def outlineConditional (outlineStmt : OutlineContext → Stmt → Outlining Unit) (context : OutlineContext)
    (body : Body) (elseBody : Option Body) : Outlining Unit := do
  let ifFail ← fresh ".else_"
  let conEnd ← fresh ".end_cond_"
  mark (.jump ifFail)
  outlineBody outlineStmt { context with path := 0 :: context.path } body
  match elseBody with
  | none =>
    mark (.label ifFail)
    mark (.label conEnd)
  | some elseBody =>
    mark (.jump conEnd)
    mark (.label ifFail)
    outlineBody outlineStmt { context with path := 1 :: context.path } elseBody
    mark (.label conEnd)

def tryOutline (context : OutlineContext) (i : ℕ) (finallyBody : Option Body) : OutlineContext :=
  { context with
    path := i :: context.path
    addressed := false
    finallyBlocks := context.finallyBlocks ++
      (finallyBody.map fun body => (2 :: context.path, body)).toList }

def outlineTryCatch (outlineStmt : OutlineContext → Stmt → Outlining Unit) (context : OutlineContext)
    (tryBody catchBody : Body) (finallyBody : Option Body) : Outlining Unit := do
  let catchToken ← fresh ".catch_"
  let finallyToken ← fresh ".finally_"
  mark (.jump catchToken)
  outlineBody outlineStmt (tryOutline context 0 finallyBody) tryBody
  mark (.jump finallyToken)
  mark (.label catchToken)
  outlineBody outlineStmt (tryOutline context 1 finallyBody) catchBody
  mark (.label finallyToken)
  match finallyBody with
  | none => pure ()
  | some body => outlineBody outlineStmt (tryOutline context 2 finallyBody) body

def outlineReturn (outlineStmt : OutlineContext → Stmt → Outlining Unit) (context : OutlineContext) :
    Outlining Unit :=
  forEach (fun block => outlineBody outlineStmt { context with path := block.1, addressed := false } block.2)
    context.finallyBlocks

def outlineBreak (context : OutlineContext) : Outlining Unit :=
  match context.loopEnds with
  | [] => Emission.fail .undefinedBehaviour
  | lend :: _ => mark (.jump lend)

def outlineStmt : ℕ → OutlineContext → Stmt → Outlining Unit
  | 0, _, _ => Emission.fail .outOfFuel
  | fuel + 1, context, stmt =>
    match stmt with
    | .expression _ hasReturn hasBreak _ => do
      if hasBreak then outlineBreak context else pure ()
      if hasReturn then outlineReturn (outlineStmt fuel) context else pure ()
    | .function isStatic isAsync _ identifier arguments body =>
      later ⟨context.path, context.addressed, isStatic, isAsync, identifier, arguments, body⟩
    | .var _ _ _ _ => pure ()
    | .loop _ condition _ body => outlineLoop (outlineStmt fuel) context condition body
    | .block body => outlineBody (outlineStmt fuel) context body
    | .conditional _ body elseBody => outlineConditional (outlineStmt fuel) context body elseBody
    | .tryCatch _ tryBody catchBody finallyBody =>
      outlineTryCatch (outlineStmt fuel) context tryBody catchBody finallyBody

def outlineFramed (f : FunctionId) (body : Outlining Unit) : Outlining Unit := do
  mark (.label (.start f))
  mark (.frame (.stop f))
  body

def outlineRest (fuel : ℕ) (outlineFunction : FunctionNode → Outlining Unit) (f : FunctionId)
    (addressed : Bool) (body : Body) : Outlining Unit := do
  outlineBody (outlineStmt fuel) ⟨f.1, addressed, [], []⟩ body
  mark (.label (.stop f))
  let functions ← remaining
  forEach outlineFunction functions

def inFunction (body : Outlining Unit) : Outlining Unit := fun s =>
  match body { s with pending := [] } with
  | .error e => .error e
  | .ok (_, s', marks) => .ok ((), { s' with pending := s.pending }, marks)

def referStatics : Outlining Unit := do
  let functions ← statics
  forEach (fun f => mark (.refer (.start f))) functions

def outlineFunction : ℕ → FunctionNode → Outlining Unit
  | 0, _ => Emission.fail .outOfFuel
  | fuel + 1, node => inFunction (outlineFramed (FunctionNode.id node) do
    mark (.refer (.start (FunctionNode.id node)))
    if node.identifier = "__static__constructor__" then referStatics
    else if node.isStatic then registerStatic (FunctionNode.id node)
    else pure ()
    outlineRest fuel (outlineFunction fuel) (FunctionNode.id node) node.addressed node.body)

def outlineClass (fuel : ℕ) (cls : ClassDeclaration) : Outlining Unit :=
  outlineFramed ([], cls.identifier)
    (outlineRest fuel (outlineFunction fuel) ([], cls.identifier) true cls.body)

structure Agree (s : CompilerState) (t : OutlineState) : Prop where
  tidy : Tidy s
  pending : s.functionsToCompile = t.pending
  labelCount : s.labelCount = t.labelCount
  statics : s.compiledStaticFunctions = t.statics.map Prod.snd

/-- Every successful run of the compiler has an outline. -/
def Follows {β γ : Type} (m : Compile β) (m' : Outlining γ) (R : β → γ → Prop) : Prop :=
  ∀ s t b s' c, Agree s t → m s = .ok (b, s', c) →
    ∃ b' t' marks, m' t = .ok (b', t', marks) ∧ Agree s' t' ∧ links c = marks.map Mark.link ∧ R b b'

def Quiet {β : Type} (m : Compile β) : Prop :=
  ∀ t, Emits (fun s => Agree s t) (fun i => link i = none) m fun _ => True

section

variable {β γ δ ε : Type} {R : β → γ → Prop} {T : δ → ε → Prop}

theorem Follows.pure {b : β} {b' : γ} (h : R b b') : Follows (Pure.pure b) (Pure.pure b') R := by
  intro s t b₁ s' c hs hrun
  obtain ⟨rfl, rfl, rfl⟩ := pure_ok.mp hrun
  exact ⟨b', t, [], rfl, hs, rfl, h⟩

theorem Follows.bind {m : Compile β} {m' : Outlining γ} {f : β → Compile δ} {f' : γ → Outlining ε}
    (hm : Follows m m' R) (hf : ∀ b b', R b b' → Follows (f b) (f' b') T) :
    Follows (m >>= f) (m' >>= f') T := by
  intro s t d s' c hs hrun
  obtain ⟨b, s₁, c₁, c₂, h₁, h₂, rfl⟩ := bind_ok.mp hrun
  obtain ⟨b', t₁, marks₁, hrun₁, hs₁, hc₁, hb⟩ := hm _ _ _ _ _ hs h₁
  obtain ⟨d', t₂, marks₂, hrun₂, hs₂, hc₂, hd⟩ := hf b b' hb _ _ _ _ _ hs₁ h₂
  refine ⟨d', t₂, marks₁ ++ marks₂, bind_ok.mpr ⟨b', t₁, marks₁, marks₂, hrun₁, hrun₂, rfl⟩, hs₂, ?_, hd⟩
  rw [links_append, hc₁, hc₂, List.map_append]

theorem Follows.ite {p p' : Prop} [Decidable p] [Decidable p'] {m₁ m₂ : Compile β} {m₁' m₂' : Outlining γ}
    (hp : p ↔ p') (h₁ : Follows m₁ m₁' R) (h₂ : Follows m₂ m₂' R) :
    Follows (if p then m₁ else m₂) (if p' then m₁' else m₂') R := by
  by_cases h : p
  · rw [if_pos h, if_pos (hp.mp h)]
    exact h₁
  · rw [if_neg h, if_neg fun h' => h (hp.mpr h')]
    exact h₂

theorem Quiet.run {m : Compile β} (h : Quiet m) {s s' : CompilerState} {t : OutlineState} {b : β} {c : Code}
    (hs : Agree s t) (hrun : m s = .ok (b, s', c)) : Agree s' t ∧ links c = [] := by
  obtain ⟨hs', hc, -⟩ := h t s b s' c hs hrun
  exact ⟨hs', links_quiet hc⟩

theorem Quiet.then {m : Compile β} {f : β → Compile δ} {m' : Outlining ε} (h : Quiet m)
    (hf : ∀ b, Follows (f b) m' T) : Follows (m >>= f) m' T := by
  intro s t d s' c hs hrun
  obtain ⟨b, s₁, c₁, c₂, h₁, h₂, rfl⟩ := bind_ok.mp hrun
  obtain ⟨hs₁, hc₁⟩ := h.run hs h₁
  obtain ⟨d', t', marks, hrun', hs', hc, hd⟩ := hf b _ _ _ _ _ hs₁ h₂
  exact ⟨d', t', marks, hrun', hs', by rw [links_append, hc₁, hc, List.nil_append], hd⟩

theorem Quiet.follows {m : Compile Unit} (h : Quiet m) : Follows m (Pure.pure ()) fun _ _ => True := by
  intro s t d s' c hs hrun
  obtain ⟨hs', hc⟩ := h.run hs hrun
  exact ⟨(), t, [], rfl, hs', hc, trivial⟩

theorem Follows.then_quiet {m : Compile Unit} {f : Unit → Compile Unit} {m' : Outlining Unit}
    (hm : Follows m m' fun _ _ => True) (hf : ∀ b, Quiet (f b)) :
    Follows (m >>= f) m' fun _ _ => True := by
  intro s t d s' c hs hrun
  obtain ⟨b, s₁, c₁, c₂, h₁, h₂, rfl⟩ := bind_ok.mp hrun
  obtain ⟨b', t', marks, hrun', hs₁, hc₁, -⟩ := hm _ _ _ _ _ hs h₁
  obtain ⟨hs', hc₂⟩ := (hf b).run hs₁ h₂
  exact ⟨b', t', marks, hrun', hs', by rw [links_append, hc₁, hc₂, List.append_nil], trivial⟩

theorem Quiet.pure (b : β) : Quiet (Pure.pure b : Compile β) := fun _ => Emits.pure trivial

theorem Quiet.bind {m : Compile β} {f : β → Compile δ} (hm : Quiet m) (hf : ∀ b, Quiet (f b)) :
    Quiet (m >>= f) := fun t => (hm t).bind fun b _ => hf b t

theorem Quiet.ite {p : Prop} [Decidable p] {m₁ m₂ : Compile β} (h₁ : Quiet m₁) (h₂ : Quiet m₂) :
    Quiet (if p then m₁ else m₂) := fun t => Emits.ite (fun _ => h₁ t) fun _ => h₂ t

end

theorem link_form {P : ℕ → Prop} {i : Instruction} (h : ProtectedRegisters.Form P i) : link i = none := by
  cases h with
  | step hop => rcases hop with rfl | rfl <;> rfl
  | @operation op opcode a b r hop => cases op <;> cases hop <;> rfl
  | number | string | mov | negate | lookup | setField | call | push | throwing => rfl

theorem onFunction_quiet {β : Type} {m : Emit β}
    (h : ∀ fk b fk' c, fk.WellFormed → m fk = .ok (b, fk', c) →
      fk'.WellFormed ∧ ∀ i ∈ c, link i = none) : Quiet (Compiler.onFunction m) := by
  intro t s b s' c hs hrun
  unfold Compiler.onFunction at hrun
  split at hrun
  · cases hrun
  · rename_i b' fk code hm
    cases hrun
    obtain ⟨hfk, hcode⟩ := h _ _ _ _ hs.tidy.function hm
    exact ⟨⟨⟨hfk, hs.tidy.kept⟩, hs.pending, hs.labelCount, hs.statics⟩, hcode, trivial⟩

theorem compileExpression_quiet (e : Expr) (requested : ℕ) : Quiet (Compiler.compileExpression e requested) := by
  refine onFunction_quiet fun fk b fk' c hfk hrun => ?_
  have hready : ProtectedRegisters.Protecting fk.symbolTable (fun _ => False) fk :=
    ⟨rfl, hfk, fun _ h => h.elim⟩
  obtain ⟨hfk', hforms, -⟩ := ProtectedRegisters.compileExpression_forms (fun _ _ _ h => h) ⟨id, id⟩ e
    requested false id _ _ _ _ hready hrun
  exact ⟨hfk'.wellFormed, fun i hi => link_form (hforms i hi)⟩

theorem getRegister_quiet (ident : String) : Quiet (Compiler.getRegister ident) := by
  refine onFunction_quiet fun fk b fk' c hfk hrun => ?_
  cases hrun
  exact ⟨hfk, fun _ hi => absurd hi List.not_mem_nil⟩

theorem getTemporary_quiet : Quiet Compiler.getTemporary := by
  refine onFunction_quiet fun fk b fk' c hfk hrun => ?_
  obtain ⟨r, fk₁, hget, handed⟩ := FunctionKind.getTemporary_handed hfk
  unfold Zeroscript.getTemporary at hrun
  rw [hget] at hrun
  cases hrun
  exact ⟨handed.wellFormed, fun _ hi => absurd hi List.not_mem_nil⟩

theorem freeRegister_quiet (index : ℕ) : Quiet (Compiler.freeRegister index) := by
  refine onFunction_quiet fun fk b fk' c hfk hrun => ?_
  cases hrun
  exact ⟨(FunctionKind.freeRegister_freed hfk index).wellFormed, fun _ hi => absurd hi List.not_mem_nil⟩

theorem addInstruction_quiet {opcode : Opcode} {r0 r1 r2 : Operand} (h : link ⟨opcode, r0, r1, r2⟩ = none) :
    Quiet (Compiler.addInstruction opcode r0 r1 r2) := by
  intro t s b s' c hs hrun
  cases hrun
  exact ⟨hs, fun i hi => List.mem_singleton.mp hi ▸ h, trivial⟩

theorem addInstruction_follows {opcode : Opcode} {r0 r1 r2 : Operand} {m : Mark}
    (h : link ⟨opcode, r0, r1, r2⟩ = some m.link) :
    Follows (Compiler.addInstruction opcode r0 r1 r2) (mark m) fun _ _ => True := by
  intro s t b s' c hs hrun
  cases hrun
  exact ⟨(), t, [m], rfl, hs, by simp [links, h], trivial⟩

theorem addLabel_follows (t : Token) :
    Follows (Compiler.addLabel t.text) (mark (.label t)) fun _ _ => True :=
  addInstruction_follows rfl

theorem freshLabel_follows (stem : String) :
    Follows (Compiler.freshLabel stem) (fresh stem) fun text token => token.text = text := by
  intro s t b s' c hs hrun
  cases hrun
  refine ⟨_, _, [], rfl, ⟨⟨hs.tidy.function, hs.tidy.kept⟩, hs.pending, ?_, hs.statics⟩, rfl, ?_⟩
  · exact congrArg (· + 1) hs.labelCount
  · rw [hs.labelCount]
    rfl

theorem forEach_quiet {γ : Type} {f : γ → Compile Unit} (hf : ∀ x, Quiet (f x)) :
    ∀ xs, Quiet (Compiler.forEach f xs)
  | [] => .pure ()
  | x :: xs => (hf x).bind fun _ => forEach_quiet hf xs

theorem forEach_follows {β γ : Type} {f : β → Compile Unit} {f' : γ → Outlining Unit} {R : β → γ → Prop}
    (hf : ∀ x y, R x y → Follows (f x) (f' y) fun _ _ => True) {xs : List β} {ys : List γ}
    (h : List.Forall₂ R xs ys) :
    Follows (Compiler.forEach f xs) (forEach f' ys) fun _ _ => True := by
  induction h with
  | nil => exact .pure trivial
  | cons hxy _ ih => exact (hf _ _ hxy).bind fun _ _ _ => ih

def contextOf (o : OutlineContext) : Context :=
  ⟨o.path, o.addressed, o.loopEnds.map Token.text, o.finallyBlocks⟩

theorem hoist_follows (path : List ℕ) : ∀ i body,
    Follows (Compiler.forEach Compiler.hoist body) (hoists path i body) fun _ _ => True
  | _, [] => .pure trivial
  | i, .function isStatic isAsync isPrivate identifier arguments body :: rest => by
    have hfirst : Follows
        (Compiler.hoist (.function isStatic isAsync isPrivate identifier arguments body))
        (mark (.refer (.start (i :: path, identifier)))) fun _ _ => True :=
      (getRegister_quiet identifier).then fun _ => addInstruction_follows rfl
    exact hfirst.bind fun _ _ _ => hoist_follows path (i + 1) rest
  | i, .expression _ _ _ _ :: rest | i, .var _ _ _ _ :: rest | i, .loop _ _ _ _ :: rest
  | i, .block _ :: rest | i, .conditional _ _ _ :: rest | i, .tryCatch _ _ _ _ :: rest =>
    (Quiet.pure ()).then fun _ => hoist_follows path (i + 1) rest

theorem compileDiscarded_quiet (e : Option Expr) : Quiet (Compiler.compileDiscarded e) := by
  cases e with
  | none => exact .pure ()
  | some e => exact (compileExpression_quiet e 0).bind fun _ => freeRegister_quiet _

theorem compileVar_quiet (identifier : String) (value : Expr) (isSynchronized : Bool) :
    Quiet (Compiler.compileVar identifier value isSynchronized) := by
  refine (getRegister_quiet identifier).bind fun reg => (compileExpression_quiet value reg).bind fun v => ?_
  refine Quiet.ite ?_ (Quiet.ite ?_ (.pure ()))
  · refine getTemporary_quiet.bind fun tempReg => ?_
    exact (addInstruction_quiet rfl).bind fun _ => (addInstruction_quiet rfl).bind fun _ =>
      freeRegister_quiet _
  · exact (addInstruction_quiet rfl).bind fun _ => freeRegister_quiet _

theorem compileBreak_follows (o : OutlineContext) :
    Follows (Compiler.compileBreak (contextOf o)) (outlineBreak o) fun _ _ => True := by
  obtain ⟨path, addressed, loopEnds, finallyBlocks⟩ := o
  cases loopEnds with
  | nil =>
    intro s t b s' c hs hrun
    cases hrun
  | cons lend outer => exact addInstruction_follows rfl

section

variable {compileStmt : Context → Stmt → Compile Unit} {outlineStmt : OutlineContext → Stmt → Outlining Unit}
  (hstmt : ∀ o stmt, Follows (compileStmt (contextOf o) stmt) (outlineStmt o stmt) fun _ _ => True)

include hstmt

theorem compileStatements_follows (o : OutlineContext) : ∀ i body,
    Follows (Compiler.compileStatements compileStmt (contextOf o) i body)
      (outlineStatements outlineStmt o i body) fun _ _ => True
  | _, [] => .pure trivial
  | i, stmt :: rest =>
    (hstmt { o with path := i :: o.path } stmt).bind fun _ _ _ => compileStatements_follows o (i + 1) rest

theorem compileBody_follows (o : OutlineContext) (body : Body) :
    Follows (Compiler.compileBody compileStmt (contextOf o) body) (outlineBody outlineStmt o body)
      fun _ _ => True :=
  (hoist_follows o.path 0 body).bind fun _ _ _ => compileStatements_follows hstmt o 0 body

theorem compileLoop_follows (o : OutlineContext) (startExpr condition iterExpr : Option Expr) (body : Body) :
    Follows (Compiler.compileLoop compileStmt (contextOf o) startExpr condition iterExpr body)
      (outlineLoop outlineStmt o condition body) fun _ _ => True := by
  refine (freshLabel_follows _).bind fun _ lstart hstart => ?_
  refine (freshLabel_follows _).bind fun _ lend hend => ?_
  refine (freshLabel_follows _).bind fun _ lcond hcond => ?_
  subst hstart hend hcond
  refine (compileDiscarded_quiet startExpr).then fun _ => ?_
  refine (addInstruction_follows rfl).bind fun _ _ _ => (addLabel_follows lstart).bind fun _ _ _ => ?_
  refine (compileBody_follows hstmt { o with loopEnds := lend :: o.loopEnds } body).bind fun _ _ _ => ?_
  refine (compileDiscarded_quiet iterExpr).then fun _ => (addLabel_follows lcond).bind fun _ _ _ => ?_
  cases condition with
  | none => exact (addLabel_follows lend)
  | some condition =>
    refine (compileExpression_quiet condition 0).then fun reg => ?_
    refine (addInstruction_follows rfl).bind fun _ _ _ => ?_
    exact (freeRegister_quiet reg).then fun _ => addLabel_follows lend

theorem compileConditional_follows (o : OutlineContext) (condition : Expr) (body : Body)
    (elseBody : Option Body) :
    Follows (Compiler.compileConditional compileStmt (contextOf o) condition body elseBody)
      (outlineConditional outlineStmt o body elseBody) fun _ _ => True := by
  refine (freshLabel_follows _).bind fun _ ifFail hfail => ?_
  refine (freshLabel_follows _).bind fun _ conEnd hend => ?_
  subst hfail hend
  refine (compileExpression_quiet condition 0).then fun reg => ?_
  refine (addInstruction_follows rfl).bind fun _ _ _ => (freeRegister_quiet reg).then fun _ => ?_
  refine (compileBody_follows hstmt { o with path := 0 :: o.path } body).bind fun _ _ _ => ?_
  cases elseBody with
  | none => exact (addLabel_follows ifFail).bind fun _ _ _ => addLabel_follows conEnd
  | some elseBody =>
    refine (addInstruction_follows rfl).bind fun _ _ _ => (addLabel_follows ifFail).bind fun _ _ _ => ?_
    refine (compileBody_follows hstmt { o with path := 1 :: o.path } elseBody).bind fun _ _ _ => ?_
    exact addLabel_follows conEnd

theorem compileTryCatch_follows (o : OutlineContext) (catchIdent : String) (tryBody catchBody : Body)
    (finallyBody : Option Body) :
    Follows (Compiler.compileTryCatch compileStmt (contextOf o) catchIdent tryBody catchBody finallyBody)
      (outlineTryCatch outlineStmt o tryBody catchBody finallyBody) fun _ _ => True := by
  refine (freshLabel_follows _).bind fun _ catchToken hcatch => ?_
  refine (freshLabel_follows _).bind fun _ finallyToken hfinally => ?_
  subst hcatch hfinally
  refine (addInstruction_follows rfl).bind fun _ _ _ => ?_
  refine (compileBody_follows hstmt (tryOutline o 0 finallyBody) tryBody).bind fun _ _ _ => ?_
  refine (addInstruction_follows rfl).bind fun _ _ _ => (addLabel_follows catchToken).bind fun _ _ _ => ?_
  refine (getRegister_quiet catchIdent).then fun _ => (addInstruction_quiet rfl).then fun _ => ?_
  refine (compileBody_follows hstmt (tryOutline o 1 finallyBody) catchBody).bind fun _ _ _ => ?_
  refine (addLabel_follows finallyToken).bind fun _ _ _ => ?_
  cases finallyBody with
  | none => exact (addInstruction_quiet rfl).follows
  | some body =>
    exact (compileBody_follows hstmt (tryOutline o 2 (some body)) body).then_quiet fun _ =>
      addInstruction_quiet rfl

theorem compileReturn_follows (o : OutlineContext) (reg : ℕ) :
    Follows (Compiler.compileReturn compileStmt (contextOf o) reg) (outlineReturn outlineStmt o)
      fun _ _ => True := by
  refine Follows.then_quiet ?_ fun _ => addInstruction_quiet rfl
  refine forEach_follows (R := Eq) (fun block block' hblock => ?_) (List.forall₂_refl _)
  subst hblock
  exact compileBody_follows hstmt { o with path := block.1, addressed := false } block.2

end

theorem compileStmt_follows (fuel : ℕ) (o : OutlineContext) (stmt : Stmt) :
    Follows (Compiler.compileStmt fuel (contextOf o) stmt) (outlineStmt fuel o stmt) fun _ _ => True := by
  induction fuel generalizing o stmt with
  | zero =>
    intro s t b s' c hs hrun
    cases hrun
  | succ fuel ih =>
    cases stmt with
    | expression e hasReturn hasBreak =>
      have hrest : Follows (do
          let reg ← Compiler.compileExpression e 0
          if hasReturn then Compiler.compileReturn (Compiler.compileStmt fuel) (contextOf o) reg else pure ()
          Compiler.freeRegister reg)
          (if hasReturn then outlineReturn (outlineStmt fuel) o else pure ()) fun _ _ => True := by
        refine (compileExpression_quiet e 0).then fun reg => Follows.ite Iff.rfl ?_ ?_
        · exact (compileReturn_follows ih o reg).then_quiet fun _ => freeRegister_quiet reg
        · exact (freeRegister_quiet reg).follows
      exact Follows.ite Iff.rfl ((compileBreak_follows o).bind fun _ _ _ => hrest) hrest
    | function =>
      intro s t b s' c hs hrun
      cases hrun
      refine ⟨(), _, [], rfl, ⟨⟨hs.tidy.function, hs.tidy.kept⟩, ?_, hs.labelCount, hs.statics⟩, rfl, trivial⟩
      exact congrArg (· ++ _) hs.pending
    | var => exact (compileVar_quiet _ _ _).follows
    | loop => exact compileLoop_follows ih o _ _ _ _
    | block => exact compileBody_follows ih o _
    | conditional => exact compileConditional_follows ih o _ _ _
    | tryCatch => exact compileTryCatch_follows ih o _ _ _ _

theorem framed_follows {f : FunctionId} {body : Compile Unit} {body' : Outlining Unit}
    (h : Follows body body' fun _ _ => True) :
    Follows (Compiler.framed f.2 body) (outlineFramed f body') fun _ _ => True := by
  intro s t b s' c hs hrun
  unfold Compiler.framed at hrun
  split at hrun
  · cases hrun
  · rename_i s₁ code hbody
    cases hrun
    obtain ⟨⟨⟩, t', marks, hrun', hs', hcode, -⟩ := h _ _ _ _ _ hs hbody
    refine ⟨(), t', .label (.start f) :: .frame (.stop f) :: marks, ?_, hs', ?_, trivial⟩
    · refine bind_ok.mpr ⟨(), t, [_], _, rfl, bind_ok.mpr ⟨(), t, [_], marks, rfl, hrun', rfl⟩, rfl⟩
    · rw [List.map_cons, List.map_cons, ← hcode]
      rfl

theorem inFunction_follows {node : FunctionNode} {body : Compile Unit} {body' : Outlining Unit}
    (h : Follows body body' fun _ _ => True) :
    Follows (Compiler.inFunction node body) (inFunction body') fun _ _ => True := by
  intro s t b s' c hs hrun
  unfold Compiler.inFunction at hrun
  split at hrun
  · cases hrun
  · rename_i s₁ code hbody
    cases hrun
    have hinner : Agree { s with
        function := Compiler.FunctionNode.kind node s
        functionsToCompile := [] } { t with pending := [] } :=
      ⟨⟨kind_wellFormed hs.tidy node, hs.tidy.kept⟩, rfl, hs.labelCount, hs.statics⟩
    obtain ⟨⟨⟩, t', marks, hrun', hs', hcode, -⟩ := h _ _ _ _ _ hinner hbody
    refine ⟨(), { t' with pending := t.pending }, marks, ?_, ?_, hcode, trivial⟩
    · unfold inFunction
      rw [hrun']
    · refine ⟨⟨hs.tidy.function, fun key table hmem => ?_⟩, hs.pending, hs'.labelCount, hs'.statics⟩
      rcases List.mem_cons.mp hmem with heq | hmem
      · cases heq
        exact hs'.tidy.function
      · exact hs'.tidy.kept key table hmem

theorem compileRest_follows (fuel : ℕ) (f : FunctionId) (addressed : Bool) (body : Body)
    {compileFunction : FunctionNode → Compile Unit} {outlineFunction : FunctionNode → Outlining Unit}
    (hfunction : ∀ node, Follows (compileFunction node) (outlineFunction node) fun _ _ => True) :
    Follows (do
        Compiler.compileBody (Compiler.compileStmt fuel) (Compiler.functionContext f.1 addressed) body
        Compiler.addInstruction .RETURN (.num 0) (.num 0) (.num 0)
        Compiler.addLabel ("end" ++ f.2)
        let functions ← Compiler.remainingFunctions
        Compiler.forEach compileFunction functions)
      (outlineRest fuel outlineFunction f addressed body) fun _ _ => True := by
  refine (compileBody_follows (compileStmt_follows fuel) ⟨f.1, addressed, [], []⟩ body).bind
    fun _ _ _ => (addInstruction_quiet rfl).then fun _ => ?_
  refine (addLabel_follows (.stop f)).bind fun _ _ _ => ?_
  refine Follows.bind (R := Eq) (fun s t b s' c hs hrun => ?_) fun functions functions' heq => ?_
  · cases hrun
    exact ⟨_, t, [], rfl, hs, rfl, hs.pending⟩
  · subst heq
    refine forEach_follows (R := Eq) (fun node node' heq => ?_) (List.forall₂_refl _)
    subst heq
    exact hfunction node

theorem compileStaticPrologue_follows (importsMap : List (String × String)) :
    Follows (Compiler.compileStaticPrologue importsMap) referStatics fun _ _ => True := by
  refine (forEach_quiet (fun _ => addInstruction_quiet rfl) importsMap).then fun _ => ?_
  refine getTemporary_quiet.then fun statics => (addInstruction_quiet rfl).then fun _ => ?_
  refine getTemporary_quiet.then fun name => getTemporary_quiet.then fun ref => ?_
  refine Follows.bind (R := fun names functions => names = functions.map Prod.snd)
    (fun s t b s' c hs hrun => ?_) fun names functions hnames => ?_
  · cases hrun
    exact ⟨_, t, [], rfl, hs, rfl, hs.statics⟩
  · refine forEach_follows (R := fun name (f : FunctionId) => name = f.2) (fun name f hname => ?_) ?_
    · subst hname
      refine Follows.then_quiet (addInstruction_follows rfl) fun _ => ?_
      exact (addInstruction_quiet rfl).bind fun _ => addInstruction_quiet rfl
    · rw [hnames, List.forall₂_map_left_iff]
      exact List.forall₂_same.mpr fun _ _ => rfl

theorem compileFunction_follows (importsMap : List (String × String)) (fuel : ℕ) (node : FunctionNode) :
    Follows (Compiler.compileFunction importsMap fuel node) (outlineFunction fuel node) fun _ _ => True := by
  induction fuel generalizing node with
  | zero =>
    intro s t b s' c hs hrun
    cases hrun
  | succ fuel ih =>
    refine inFunction_follows (framed_follows (f := FunctionNode.id node) ?_)
    refine (getRegister_quiet node.identifier).then fun reg => ?_
    refine (addInstruction_follows rfl).bind fun _ _ _ => ?_
    have hrest := compileRest_follows fuel (FunctionNode.id node) node.addressed node.body ih
    refine Follows.ite Iff.rfl ?_ (Follows.ite Iff.rfl ?_ hrest)
    · exact (compileStaticPrologue_follows importsMap).bind fun _ _ _ => hrest
    · refine Follows.bind (R := fun _ _ => True) (fun s t b s' c hs hrun => ?_) fun _ _ _ => hrest
      cases hrun
      refine ⟨(), _, [], rfl, ⟨⟨hs.tidy.function, hs.tidy.kept⟩, hs.pending, hs.labelCount, ?_⟩, rfl, trivial⟩
      rw [hs.statics, List.map_append]
      rfl

/-- The links of a compiled class are the marks of its outline. -/
theorem compileClass_outline {fuel : ℕ} {cls : ClassDeclaration} {s : CompilerState} {code : Code}
    (h : Compiler.framed cls.identifier (Compiler.compileClassBody fuel cls)
      { function := calculateClass cls } = .ok ((), s, code)) :
    ∃ t marks, outlineClass fuel cls {} = .ok ((), t, marks) ∧ links code = marks.map Mark.link ∧
      t.labelCount = s.labelCount := by
  have hpops : Quiet (Compiler.forEach (fun ident => do
      let identReg ← Compiler.getRegister ident
      Compiler.addInstruction .POP (.num identReg) (.num 0) (.num 0)) cls.arguments) :=
    forEach_quiet (fun ident => (getRegister_quiet ident).bind fun _ => addInstruction_quiet rfl) _
  have hbody : Follows (Compiler.compileClassBody fuel cls)
      (outlineRest fuel (outlineFunction fuel) ([], cls.identifier) true cls.body) fun _ _ => True := by
    refine (addInstruction_quiet rfl).then fun _ => hpops.then fun _ => ?_
    exact compileRest_follows fuel ([], cls.identifier) true cls.body
      (compileFunction_follows cls.importsMap fuel)
  have hstart : Agree { function := calculateClass cls } {} := by
    refine ⟨⟨?_, nofun⟩, rfl, rfl, rfl⟩
    unfold FunctionKind.WellFormed
    rw [(calculateClass_numbered cls).2]
    rfl
  have hframed := framed_follows (f := ([], cls.identifier)) hbody
  obtain ⟨⟨⟩, t, marks, hrun, hs, hlinks, -⟩ := hframed _ _ _ _ _ hstart h
  exact ⟨t, marks, hrun, hlinks, hs.labelCount.symm⟩

end Zeroscript.Outline
