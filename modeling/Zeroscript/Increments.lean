import Zeroscript.Assignments
import Zeroscript.FieldWrites
import Zeroscript.PlainExpressions
import Zeroscript.Privacy

/-! # `++` and `--`

The code reads what stands behind the operator, steps the register that the read returned, and writes it
back only for a name without a register. A field that was read stays as it was, and so does a variable that
the read and the write of its name do not both end at. -/
namespace Zeroscript.Increments

open Emission ProtectedRegisters ExpressionInversion PlainExpressions

inductive Place where
  | location (l : Location)
  | property (address : Addr) (name : String)
  deriving DecidableEq

/-- What the operand of `++` or `--` stands for: a register of the frame, a name that is looked up through
`this`, or a field of the object in a register. -/
inductive Access where
  | register (r : ℕ)
  | outer (x : String)
  | field (object : ℕ) (name : String)

section

variable {α : Type} [NumOps α] (d : Data α) (a : Activation)

def Place.content : Place → Option (Reg α)
  | .location l => d.content l
  | .property address name => (d.propertiesAt address).bind (·.1.get name)

/-- The variable of a name: the innermost one around the frame, else the synchronized, else the static one. -/
def variableOf (name : String) : Option Location := do
  match ← d.findSlot name (a.currentContext + 1) a.currentContext with
  | some (c, index) => return .slot c index
  | none =>
    let shared := Location.synchronized (d.states a.state).synchronizedVariables name
    let static := Location.static (d.states a.state).className name
    if (d.content shared).isSome then return shared
    else if (d.content static).isSome then return static
    else none

def memberOf (address : Addr) (name : String) : Object α → Option Place
  | .classRef className => (d.typeInfo className).map fun _ => .location (.static className name)
  | .instanceObject target =>
    match d.findSlot name ((d.states target).rootContext + 1) (d.states target).rootContext with
    | some (some (c, index)) => some (.location (.slot c index))
    | _ => none
  | .json _ _ | .string _ _ => some (.property address name)
  | .functionRef .. => none

def fieldOf (object : ℕ) (name : String) : Option Place :=
  let r0 := d.regs a.currentContext object
  if object = 1 then (variableOf d a name).map .location
  else
    match r0.type, r0.val with
    | .number, _ =>
      if NumOps.eq r0.number NumOps.zero || NumOps.eq r0.number NumOps.one then
        (variableOf d a name).map .location
      else none
    | _, .raw address => (d.object r0).bind (memberOf d address name)
    | _, _ => none

def Access.place : Access → Option Place
  | .register r => some (.location (.slot a.currentContext r))
  | .outer x => (variableOf d a x).map .location
  | .field object name => fieldOf d a object name

def execCode (classes : String → Option Code) (k : ControlState) (rest : List Activation) :
    Code → Activation → Data α → Option (Activation × Data α)
  | [], a, d => some (a, d)
  | i :: code, a, d =>
    match effect classes d k a rest i with
    | some ⟨d', searched, .next⟩ =>
      execCode classes k rest code
        { a with objectToSearchOn := searched, instructionPtr := a.instructionPtr + 1 } d'
    | _ => none

end

/-- What an expression stands for, and how much of its code comes before it is read: the object and the key of a
field access are in registers then. -/
inductive Located (syms : List (String × ℕ)) (fk : FunctionKind) (d : Data ℚ) (a : Activation) :
    Expr → Access → ℕ → Prop where
  | register {x : String} (hx : symbolsOf syms x ≠ 0) :
    Located syms fk d a (.ident x) (.register (symbolsOf syms x)) 0
  | outer {x : String} (hx : symbolsOf syms x = 0) : Located syms fk d a (.ident x) (.outer x) 0
  | field {object key : Expr} {r s : ℕ} {fk₁ fk₂ : FunctionKind} {c₁ c₂ : Code} {name : String}
      (hobject : compileExpression object 0 false fk = .ok (r, fk₁, c₁))
      (hkey : compileExpression key 0 true fk₁ = .ok (s, fk₂, c₂))
      (hname : d.fieldName (d.regs a.currentContext s) = some name) :
    Located syms fk d a (.binary .dot object key) (.field r name) (c₁ ++ c₂).length

def Framed {α : Type} (syms : List (String × ℕ)) (d : Data α) (c : ContextId) : Prop :=
  ∀ name index, d.slotOf c name = some index → symbolsOf syms name = index ∧ index ≠ 0

def stepExpr (increment isPrefix : Bool) (e : Expr) : Expr :=
  if isPrefix then .prefixed (if increment then .increment else .decrement) e
  else .postfixed e (if increment then .increment else .decrement)

def stepped (increment : Bool) (x : ℚ) : ℚ := if increment then x + 1 else x - 1

/-- From where the operand is read, the code runs to its end, the new value is stored in its place, and the value
of the expression is in the register that is returned. -/
def Steps (classes : String → Option Code) (d : Data ℚ) (k : ControlState) (rest : List Activation) (a : Activation)
    (code : Code) (r : ℕ) (l : Place) (increment isPrefix : Bool) (x : ℚ) : Prop :=
  ∃ a' d', execCode classes k rest code a d = some (a', d') ∧
    l.content d' = some (.ofNum (stepped increment x)) ∧
    d'.regs a.currentContext r = .ofNum (if isPrefix then stepped increment x else x)

/-- `GET_FIELD` gives the field: no native function has its name, and it is not private to another class. -/
def Readable {α : Type} [NumOps α] (d : Data α) (a : Activation) (object : ℕ) (name : String) : Prop :=
  nativeFunctions.lookup name = none ∧
    ∀ target, object ≠ 1 → (d.regs a.currentContext object).type ≠ .number →
      d.object (d.regs a.currentContext object) = some (.instanceObject target) →
        (d.getFieldVirtual target a.state name).join.isSome

/-- Reading and writing end at the place of the operand. -/
def WritesBack (d : Data ℚ) (a : Activation) (isPrefix : Bool) (dest : ℕ) : Access → Prop
  | .register r => isPrefix = true ∨ r ≠ dest
  | .outer x => nativeFunctions.lookup x = none ∧
      ((∃ c, Encloses d a.currentContext c ∧ Declares d c x) ∨ ((d.sharedOf a.state).get x).isSome)
  -- the result of `x = ++this.x` is the field
  | .field object name => isPrefix = true ∧ fieldOf d a object name = some (.location (.slot a.currentContext dest)) ∧
      dest ≠ 0 ∧ Readable d a object name

section

variable {syms : List (String × ℕ)}

def stepOpcode (increment : Bool) : Opcode := if increment then .INC else .DEC

theorem writeBack_ok {e : Expr} {a : ℕ} {fk fk' : FunctionKind} {c : Code} {u : Unit}
    (hfk : Ready syms fk) (h : writeBack e a fk = .ok (u, fk', c)) :
    (c = [] ∧ ∀ x, e = .ident x → symbolsOf syms x ≠ 0) ∨
      ∃ x key fk₁, e = .ident x ∧ symbolsOf syms x = 0 ∧ Destination syms 0 fk key fk₁ [] ∧
        c = [⟨.MOV_STR, .num key, .str x, .num 0⟩, ⟨.SET_FIELD, .num 1, .num key, .num a⟩] := by
  unfold writeBack at h
  split at h
  · rename_i x
    obtain ⟨reg, fk₀, c₀, c₁, h₀, h₁, rfl⟩ := bind_ok.mp h
    cases h₀
    rw [hfk.getRegister] at h₁
    split at h₁
    · rename_i h0
      simp only [bind_ok] at h₁
      obtain ⟨key, fk₁, c₂, _, h₂, ⟨_, _, c₃, _, h₃, ⟨_, _, c₄, _, h₄, h₅, rfl⟩, rfl⟩, rfl⟩ := h₁
      have dest := getTemporary_destination hfk h₂
      obtain rfl := dest.silent
      obtain ⟨rfl, rfl⟩ := addInstruction_ok h₃
      obtain ⟨rfl, rfl⟩ := addInstruction_ok h₄
      obtain ⟨rfl, rfl⟩ := freeRegister_ok h₅
      exact .inr ⟨x, key, _, rfl, h0, dest, rfl⟩
    · rename_i hx
      obtain ⟨-, -, rfl⟩ := pure_ok.mp h₁
      refine .inl ⟨rfl, ?_⟩
      intro y hy
      cases hy
      exact hx
  · rename_i hnot
    obtain ⟨-, -, rfl⟩ := pure_ok.mp h
    refine .inl ⟨rfl, ?_⟩
    intro y hy
    exact absurd hy (hnot y)

theorem compilePostfix_ok {e : Expr} {sub : SubCompiler} {increment : Bool} {d r : ℕ}
    {fk fk' : FunctionKind} {c : Code}
    (hsub : ∀ a fk₁ c₁, sub 0 false fk = .ok (a, fk₁, c₁) → Ready syms fk₁)
    (h : compilePostfix e sub (if increment then .increment else .decrement) d fk = .ok (r, fk', c)) :
    ∃ a fk₁ c₁ fk₂ c₂, sub 0 false fk = .ok (a, fk₁, c₁) ∧
      destinationOrTemporary d fk₁ = .ok (r, fk₂, []) ∧ writeBack e a fk₂ = .ok ((), fk', c₂) ∧
      c = c₁ ++ (⟨.MOV, .num r, .num a, .num 0⟩ :: ⟨stepOpcode increment, .num a, .num a, .num 0⟩ :: c₂) := by
  unfold compilePostfix at h
  cases increment <;>
  · simp only [Bool.false_eq_true, if_false, if_true, bind_ok, pure_ok] at h
    obtain ⟨a, fk₁, c₁, _, h₁, ⟨target, fk₂, c₂, _, h₂, ⟨_, fk₃, c₃, _, h₃, ⟨_, fk₄, c₄, _, h₄,
      ⟨_, fk₅, c₅, _, h₅, ⟨rfl, rfl, rfl⟩, rfl⟩, rfl⟩, rfl⟩, rfl⟩, rfl⟩ := h
    have dest := destinationOrTemporary_destination (hsub _ _ _ h₁) h₂
    obtain rfl := dest.silent
    obtain ⟨rfl, rfl⟩ := addInstruction_ok h₃
    obtain ⟨rfl, rfl⟩ := addInstruction_ok h₄
    exact ⟨a, fk₁, c₁, _, c₅, h₁, h₂, h₅, by simp [stepOpcode]⟩

theorem compilePrefix_ok {e : Expr} {sub : SubCompiler} {increment : Bool} {d r : ℕ}
    {fk fk' : FunctionKind} {c : Code}
    (hsub : ∀ a fk₁ c₁, sub 0 false fk = .ok (a, fk₁, c₁) → Ready syms fk₁)
    (h : compilePrefix e sub (if increment then .increment else .decrement) d fk = .ok (r, fk', c)) :
    ∃ a fk₁ c₁ target fk₂ c₂, sub 0 false fk = .ok (a, fk₁, c₁) ∧
      destinationOrTemporary d fk₁ = .ok (target, fk₂, []) ∧ writeBack e a fk₂ = .ok ((), fk', c₂) ∧
      r = (if d = 0 then a else d) ∧
      c = c₁ ++ (⟨stepOpcode increment, .num a, .num r, .num 0⟩ :: c₂) := by
  unfold compilePrefix at h
  cases increment <;>
  · simp only [Bool.false_eq_true, if_false, if_true, bind_ok, pure_ok] at h
    obtain ⟨a, fk₁, c₁, _, h₁, ⟨target, fk₂, c₂, _, h₂, ⟨_, fk₃, c₃, _, h₃, ⟨_, fk₄, c₄, _, h₄,
      ⟨rfl, rfl, rfl⟩, rfl⟩, rfl⟩, rfl⟩, rfl⟩ := h
    have dest := destinationOrTemporary_destination (hsub _ _ _ h₁) h₂
    obtain rfl := dest.silent
    obtain ⟨rfl, rfl⟩ := addInstruction_ok h₃
    exact ⟨a, fk₁, c₁, target, _, c₄, h₁, h₂, h₄, rfl, by simp [stepOpcode]⟩

theorem stepped_ne (increment : Bool) (x : ℚ) : stepped increment x ≠ x := by
  unfold stepped
  split <;> simp

theorem ofNum_injective {x y : ℚ} (h : (Reg.ofNum x : Reg ℚ) = .ofNum y) : x = y :=
  congrArg Reg.number h

structure ResultRegister (syms : List (String × ℕ)) (isPrefix : Bool) (d a : ℕ) (fk₁ fk₂ : FunctionKind)
    (r : ℕ) : Prop where
  ready : Ready syms fk₂
  kept : ∀ t, fk₁.InUse t → fk₂.InUse t
  requested : d ≠ 0 → r = d
  operand : d = 0 → isPrefix = true → r = a
  temporary : d = 0 → isPrefix = false → syms.length < r ∧ fk₂.InUse r ∧ ¬ fk₁.InUse r

theorem destination_kept {d r : ℕ} {fk fk' : FunctionKind} {c : Code} (hfk : Ready syms fk)
    (h : destinationOrTemporary d fk = .ok (r, fk', c)) : ∀ t, fk.InUse t → fk'.InUse t := by
  intro t ht
  by_cases hd : d = 0
  · exact ((destinationOrTemporary_destination hfk h).other hd t ht).2
  · obtain ⟨-, rfl, -⟩ := destinationOrTemporary_requested hd h
    exact ht

theorem outer_operand {x : String} {a : ℕ} {fk fk₁ : FunctionKind} {c₁ : Code} (hfk : Ready syms fk)
    (hx : symbolsOf syms x = 0) (h : compileExpression (.ident x) 0 false fk = .ok (a, fk₁, c₁)) :
    Destination syms 0 fk a fk₁ [] ∧ c₁ = [⟨.GET_FIELD_IMMEDIATE, .num 1, .str x, .num a⟩] := by
  rw [compileExpression] at h
  rcases compileIdentifierImmediate_ok hfk h with ⟨hne, -⟩ | ⟨-, dest, rfl⟩
  · exact absurd hx hne
  · exact ⟨dest, rfl⟩

theorem named_operand {x : String} {a : ℕ} {fk fk₁ : FunctionKind} {c₁ : Code} (hfk : Ready syms fk)
    (hx : symbolsOf syms x ≠ 0) (h : compileExpression (.ident x) 0 false fk = .ok (a, fk₁, c₁)) :
    a = symbolsOf syms x ∧ c₁ = [] := by
  rw [compileExpression] at h
  rcases compileIdentifierImmediate_ok hfk h with ⟨-, rfl, -, rfl⟩ | ⟨h0, -⟩
  · exact ⟨rfl, rfl⟩
  · exact absurd h0 hx

def stepCode (increment isPrefix : Bool) (a r : ℕ) : Code :=
  if isPrefix then [⟨stepOpcode increment, .num a, .num r, .num 0⟩]
  else [⟨.MOV, .num r, .num a, .num 0⟩, ⟨stepOpcode increment, .num a, .num a, .num 0⟩]

theorem stepExpr_ok (hv : SymbolsValid syms) {e : Expr} {increment isPrefix flag : Bool} {d r : ℕ}
    {fk fk' : FunctionKind} {c : Code} (hfk : Ready syms fk)
    (h : compileExpression (stepExpr increment isPrefix e) d flag fk = .ok (r, fk', c)) :
    ∃ a fk₁ c₁ fk₂ c₂, compileExpression e 0 false fk = .ok (a, fk₁, c₁) ∧
      ResultRegister syms isPrefix d a fk₁ fk₂ r ∧ writeBack e a fk₂ = .ok ((), fk', c₂) ∧
      c = c₁ ++ (stepCode increment isPrefix a r ++ c₂) := by
  have hsub : ∀ a fk₁ c₁, compileExpression e 0 false fk = .ok (a, fk₁, c₁) → Ready syms fk₁ :=
    fun _ _ _ h => compileExpression_ready hv hfk h
  cases isPrefix with
  | false =>
    simp only [stepExpr, Bool.false_eq_true, if_false] at h
    rw [compileExpression] at h
    obtain ⟨a, fk₁, c₁, fk₂, c₂, h₁, h₂, hback, rfl⟩ := compilePostfix_ok hsub h
    have ready := hsub _ _ _ h₁
    have dest := destinationOrTemporary_destination ready h₂
    refine ⟨a, fk₁, c₁, fk₂, c₂, h₁,
      ⟨dest.ready, destination_kept ready h₂, dest.requested, ?_, ?_⟩, hback, by simp [stepCode]⟩
    · intro _ hpre
      cases hpre
    · intro hd _
      obtain ⟨habove, hin⟩ := dest.temporary hd
      exact ⟨habove, hin, fun hold => (dest.other hd r hold).1 rfl⟩
  | true =>
    simp only [stepExpr, if_true] at h
    rw [compileExpression] at h
    obtain ⟨a, fk₁, c₁, target, fk₂, c₂, h₁, h₂, hback, hr, rfl⟩ := compilePrefix_ok hsub h
    have ready := hsub _ _ _ h₁
    have dest := destinationOrTemporary_destination ready h₂
    refine ⟨a, fk₁, c₁, fk₂, c₂, h₁, ⟨dest.ready, destination_kept ready h₂, ?_, ?_, ?_⟩, hback,
      by simp [stepCode]⟩
    · intro hd
      exact hr.trans (if_neg hd)
    · intro hd _
      exact hr.trans (if_pos hd)
    · intro _ hpost
      cases hpost

theorem field_operand (hv : SymbolsValid syms) {object key : Expr} {a o s : ℕ}
    {fk fk₁ fk₂ fk₃ : FunctionKind} {c₁ c₂ c : Code} (hfk : Ready syms fk)
    (hobject : compileExpression object 0 false fk = .ok (o, fk₁, c₁))
    (hkey : compileExpression key 0 true fk₁ = .ok (s, fk₂, c₂))
    (h : compileExpression (.binary .dot object key) 0 false fk = .ok (a, fk₃, c)) :
    syms.length < a ∧ c = c₁ ++ c₂ ++ [⟨.GET_FIELD, .num o, .num s, .num a⟩] := by
  have hop : toOpcode .dot = some .GET_FIELD := rfl
  rw [compileExpression_operands hop] at h
  obtain ⟨o', fk₁', c₁', s', fk₂', c₂', fk₄, c₃, h₁, h₂, h₃, -, rfl⟩ := compileOperands_ok hop h
  rw [h₁] at hobject
  cases hobject
  have hkey' : Except.ok (s', fk₂', c₂') = Except.ok (s, fk₂, c₂) := h₂.symm.trans hkey
  cases hkey'
  have ready := compileExpression_ready hv (compileExpression_ready hv hfk h₁) h₂
  have dest := destinationOrTemporary_destination ready h₃
  obtain rfl := dest.silent
  exact ⟨(dest.temporary rfl).1, by simp⟩

end

section

variable {α : Type} [NumOps α] {classes : String → Option Code} {k : ControlState} {rest : List Activation}
  {d d' d₁ d₂ : Data α} {a a' : Activation}

/-- At most the registers of a frame and the heap have changed, and no object that was there. -/
structure InFrame (c : ContextId) (d d' : Data α) : Prop where
  states : d'.states = d.states
  synchronized : d'.synchronized = d.synchronized
  knownTypes : d'.knownTypes = d.knownTypes
  stringProperties : d'.stringProperties = d.stringProperties
  objects : ∃ new, d'.objects = d.objects ++ new
  scopes : SameScopes d d'
  entered : ∀ c', (d'.contexts c').locals.isSome → c' ≠ c → (d.contexts c').locals.isSome
  regs : ∀ c', c' ≠ c → d'.regs c' = d.regs c'

theorem InFrame.trans {c : ContextId} (h : InFrame c d d₁) (h' : InFrame c d₁ d₂) : InFrame c d d₂ where
  states := h'.states.trans h.states
  synchronized := h'.synchronized.trans h.synchronized
  knownTypes := h'.knownTypes.trans h.knownTypes
  stringProperties := h'.stringProperties.trans h.stringProperties
  objects := by
    obtain ⟨new, hnew⟩ := h.objects
    obtain ⟨new', hnew'⟩ := h'.objects
    exact ⟨new ++ new', by rw [hnew', hnew, List.append_assoc]⟩
  scopes := h.scopes.trans h'.scopes
  entered c' hc hne := h.entered c' (h'.entered c' hc hne) hne
  regs c' hne := (h'.regs c' hne).trans (h.regs c' hne)

theorem inFrame_setRegs (d : Data α) (c : ContextId) (regs : Regs α) : InFrame c d (d.setRegs c regs) where
  states := rfl
  synchronized := rfl
  knownTypes := rfl
  stringProperties := rfl
  objects := ⟨[], (List.append_nil _).symm⟩
  scopes := sameScopes_setRegs d c regs
  entered c' hc hne := by
    rw [Data.contexts_setRegs, if_neg hne] at hc
    exact hc
  regs c' hne := by
    unfold Data.regs
    rw [Data.contexts_setRegs, if_neg hne]

theorem inFrame_alloc (d : Data α) (c : ContextId) (o : Object α) : InFrame c d (d.alloc o).1 where
  states := rfl
  synchronized := rfl
  knownTypes := rfl
  stringProperties := rfl
  objects := ⟨[o], rfl⟩
  scopes := .of rfl
  entered _ hc _ := hc
  regs _ _ := rfl

theorem InFrame.content {c : ContextId} (h : InFrame c d d') {l : Place} {v : Reg α}
    (hv : l.content d = some v) (hl : ∀ r, l ≠ .location (.slot c r)) : l.content d' = some v := by
  cases l with
  | location l =>
    cases l with
    | slot c' index =>
      have hne : c' ≠ c := fun heq => hl index (by rw [heq])
      change some (d'.regs c' index) = some v
      rw [h.regs c' hne]
      exact hv
    | synchronized table name =>
      change (d'.synchronized.getD table .new).get name = some v
      rw [h.synchronized]
      exact hv
    | static className name =>
      change (d'.typeInfo className).bind (·.staticVariables.get name) = some v
      unfold Data.typeInfo
      rw [h.knownTypes]
      exact hv
  | property address name =>
    obtain ⟨new, hnew⟩ := h.objects
    obtain ⟨found, hfound, hget⟩ := Option.bind_eq_some_iff.mp hv
    refine Option.bind_eq_some_iff.mpr ⟨found, ?_, hget⟩
    unfold Data.propertiesAt at hfound ⊢
    cases address with
    | zero => cases hfound
    | succ index =>
      dsimp only at hfound ⊢
      cases ho : d.objects[index]? with
      | none =>
        rw [ho] at hfound
        cases hfound
      | some o =>
        rw [ho] at hfound
        have hlt := (List.getElem?_eq_some_iff.mp ho).1
        rw [hnew, List.getElem?_append_left hlt, ho, h.stringProperties]
        exact hfound

omit [NumOps α] in
theorem slotOf_of_findSlot {name : String} {bound : ℕ} {c c' : ContextId} {index : ℕ}
    (h : d.findSlot name bound c = some (some (c', index))) : d.slotOf c' name = some index := by
  induction bound generalizing c with
  | zero => cases h
  | succ bound ih =>
    rw [Data.findSlot] at h
    split at h
    · cases h
    · dsimp only at h
      split at h
      · cases h
      · split at h
        · rename_i hslot
          cases h
          exact hslot
        · exact ih h

theorem InFrame.findSlot {c : ContextId} (h : InFrame c d d') (hc : (d.contexts c).locals.isSome)
    (name : String) (bound : ℕ) (c' : ContextId) : d'.findSlot name bound c' = d.findSlot name bound c' := by
  induction bound generalizing c' with
  | zero => rfl
  | succ bound ih =>
    have hentered : (d'.contexts c').locals.isNone = (d.contexts c').locals.isNone := by
      cases hold : (d.contexts c').locals with
      | some regs =>
        have hnew := h.scopes.locals c' (by rw [hold]; rfl)
        rw [Option.isNone_eq_false_iff.mpr hnew]
        rfl
      | none =>
        cases hnew : (d'.contexts c').locals with
        | none => rfl
        | some regs =>
          have hne : c' ≠ c := by
            rintro rfl
            rw [hold] at hc
            cases hc
          have := h.entered c' (by rw [hnew]; rfl) hne
          rw [hold] at this
          cases this
    rw [Data.findSlot, Data.findSlot]
    dsimp only
    rw [hentered, h.scopes.symbols, h.scopes.parent, ih]

theorem execCode_cons {i : Instruction} {code : Code} {searched : Addr}
    (h : effect classes d k a rest i = some ⟨d', searched, .next⟩) :
    execCode classes k rest (i :: code) a d = execCode classes k rest code
      { a with objectToSearchOn := searched, instructionPtr := a.instructionPtr + 1 } d' := by
  rw [execCode, h]

theorem execCode_append (c₁ c₂ : Code) (a : Activation) (d : Data α) :
    execCode classes k rest (c₁ ++ c₂) a d =
      (execCode classes k rest c₁ a d).bind fun s => execCode classes k rest c₂ s.1 s.2 := by
  induction c₁ generalizing a d with
  | nil => rfl
  | cons i c₁ ih =>
    rw [List.cons_append, execCode, execCode]
    cases effect classes d k a rest i with
    | none => rfl
    | some e =>
      obtain ⟨d', searched, action⟩ := e
      cases action
      case next => exact ih ..
      all_goals rfl

theorem execCode_stays {code : Code} (h : execCode classes k rest code a d = some (a', d')) :
    a'.currentContext = a.currentContext ∧ a'.state = a.state := by
  induction code generalizing a d with
  | nil =>
    cases h
    exact ⟨rfl, rfl⟩
  | cons i code ih =>
    rw [execCode] at h
    split at h
    · have hrest := ih h
      exact hrest
    · cases h

theorem execCode_run {m : Machine α} {thread : ℕ} {code after : Code} {a a' : Activation} {d' : Data α}
    (hthread : m.threads[thread]? = some (a :: rest)) (hrunning : m.exited = none)
    (hcode : (m.data.states a.state).byteStream.drop a.instructionPtr = code ++ after)
    (h : execCode classes m.control rest code a m.data = some (a', d')) :
    m.run classes (List.replicate code.length thread) =
      some { m with data := d', threads := m.threads.set thread (a' :: rest) } := by
  induction code generalizing m a with
  | nil =>
    cases h
    obtain ⟨hlt, hget⟩ := List.getElem?_eq_some_iff.mp hthread
    rw [← hget, List.set_getElem_self]
    rfl
  | cons i code ih =>
    rw [execCode] at h
    split at h
    · rename_i d₁ searched he
      have hfetch : (m.data.states a.state).byteStream[a.instructionPtr]? = some i := by
        have := congrArg (·[0]?) hcode
        simpa using this
      let a₁ : Activation := { a with objectToSearchOn := searched, instructionPtr := a.instructionPtr + 1 }
      have hstep : m.step classes thread =
          some { m with data := d₁, threads := m.threads.set thread (a₁ :: rest) } := by
        simp only [Machine.step, hrunning, hthread, Option.isSome_none, Bool.false_eq_true, if_false,
          Option.bind_eq_bind, Option.bind_some, List.head?_cons, List.tail_cons, hfetch, he]
        simp only [ControlState.perform, advance, List.any_nil, Option.toList_none, List.map_nil, List.append_nil]
        rfl
      have hstates : d₁.states = m.data.states := by
        cases effect_asks he
        assumption
      rw [List.length_cons, List.replicate_succ, Machine.run, hstep]
      refine (ih (m := { m with data := d₁, threads := m.threads.set thread (a₁ :: rest) }) (a := a₁)
        ?_ hrunning ?_ h).trans ?_
      · simp [(List.getElem?_eq_some_iff.mp hthread).1]
      · change (d₁.states a.state).byteStream.drop (a.instructionPtr + 1) = code ++ after
        rw [hstates, ← List.drop_drop, hcode]
        rfl
      · rw [List.set_set]
    · cases h

theorem findField_slot {name : String} {bound : ℕ} {c c' : ContextId} {index : ℕ}
    (h : d.findSlot name bound c = some (some (c', index))) :
    ∃ flags, d.findField name bound c = some (some (d.regs c' index, flags)) := by
  induction bound generalizing c with
  | zero => cases h
  | succ bound ih =>
    rw [Data.findSlot] at h
    rw [Data.findField]
    split at h
    · cases h
    · dsimp only at h ⊢
      cases hlocals : (d.contexts c).locals with
      | none =>
        rw [hlocals] at h
        cases h
      | some regs =>
        rw [hlocals] at h
        dsimp only [Option.isNone_some, Bool.false_eq_true, if_false] at h ⊢
        unfold ZMap.get at h
        cases hslot : (buildSymbolTable (d.contexts c).symbols).getFlags name with
        | some found =>
          obtain ⟨index', flags⟩ := found
          rw [hslot] at h
          cases h
          refine ⟨flags, ?_⟩
          unfold Data.regs
          rw [hlocals]
          rfl
        | none =>
          rw [hslot] at h
          exact ih h

theorem searchThis_variable {name : String} {l : Location} {v : Reg α} (hl : variableOf d a name = some l)
    (hv : d.content l = some v) (register : ℕ) :
    searchThis d a name register = some (d.deliverTo a register v) := by
  unfold variableOf at hl
  obtain ⟨slot, hfind, hl⟩ := Option.bind_eq_some_iff.mp hl
  unfold searchThis
  rw [hfind]
  cases slot with
  | some slot =>
    cases hl
    cases hv
    rfl
  | none =>
    dsimp only at hl
    split at hl
    · cases hl
      have hvalue : (d.sharedOf a.state).get name = some v := hv
      simp only [Option.bind_eq_bind, Option.bind_some, hvalue]
      rfl
    · rename_i hshared
      split at hl
      · cases hl
        have hnone : (d.sharedOf a.state).get name = none := Option.not_isSome_iff_eq_none.mp hshared
        have hvalue : (d.typeInfo (d.states a.state).className).bind (·.staticVariables.get name) = some v := hv
        simp only [Option.bind_eq_bind, Option.bind_some, hnone, hvalue]
        rfl
      · cases hl

omit [NumOps α] in
theorem receiver_of {r : Reg α} {address : Addr} (htype : r.type ≠ .number) (hval : r.val = .raw address) :
    FieldWrites.receiver r = some address := by
  unfold FieldWrites.receiver
  split
  · exact absurd ‹_› htype
  · rename_i heq _
    rw [hval] at heq
    cases heq
    rfl
  · rename_i hraw
    exact (hraw _ hval).elim

theorem visible_member {o : ℕ} {name : String} {l : Place} {v : Reg α} {address : Addr} {object : Object α}
    (hthis : o ≠ 1) (hnative : nativeFunctions.lookup name = none)
    (hreceiver : FieldWrites.receiver (d.regs a.currentContext o) = some address)
    (hobject : d.object (d.regs a.currentContext o) = some object) (hl : memberOf d address name object = some l)
    (hv : l.content d = some v) :
    ∃ result, FieldWrites.visible d a.state address name = some result ∧
      (result = some v ∧ Readable d a o name ∨ result = none ∧ ¬ Readable d a o name) := by
  have hat := (FieldWrites.object_receiver (d := d) hreceiver).symm.trans hobject
  have hvisible : FieldWrites.visible d a.state address name =
      FieldWrites.fieldOf d a.state name object := by
    unfold FieldWrites.visible
    rw [hat]
    rfl
  have hreadable : (∀ target, object = .instanceObject target →
      (d.getFieldVirtual target a.state name).join.isSome) ↔ Readable d a o name := by
    constructor
    · intro h
      refine ⟨hnative, fun target _ _ ht => h target ?_⟩
      rw [hobject] at ht
      exact Option.some.inj ht
    · rintro ⟨-, h⟩ target rfl
      exact h target hthis (FieldWrites.receiver_some hreceiver).1 hobject
  rw [hvisible]
  unfold FieldWrites.fieldOf
  rw [hnative, ← hreadable]
  cases object with
  | classRef className =>
    obtain ⟨info, hinfo, rfl⟩ := Option.map_eq_some_iff.mp hl
    refine ⟨some v, ?_, Or.inl ⟨rfl, fun _ h => by cases h⟩⟩
    change (d.typeInfo className).bind (·.staticVariables.get name) = some v at hv
    rw [hinfo] at hv
    dsimp only
    rw [hinfo]
    exact congrArg some hv
  | instanceObject target =>
    dsimp only [memberOf] at hl ⊢
    split at hl
    · rename_i c index hfind
      cases hl
      cases hv
      obtain ⟨flags, hfield⟩ := findField_slot hfind
      have hvirtual : d.getFieldVirtual target a.state name =
          if flags.isPrivate ∧ (d.states a.state).className ≠ (d.states target).className then some none
          else some (some (d.regs c index)) := by
        unfold Data.getFieldVirtual
        dsimp only
        rw [hfield]
        rfl
      by_cases hprivate : flags.isPrivate ∧ (d.states a.state).className ≠ (d.states target).className
      · rw [if_pos hprivate] at hvirtual
        refine ⟨none, hvirtual, Or.inr ⟨rfl, fun h => ?_⟩⟩
        have hread := h target rfl
        rw [hvirtual] at hread
        cases hread
      · rw [if_neg hprivate] at hvirtual
        refine ⟨_, hvirtual, Or.inl ⟨rfl, fun target' htarget => ?_⟩⟩
        cases htarget
        rw [hvirtual]
        rfl
    · cases hl
  | json properties cache | string text cache =>
    cases hl
    obtain ⟨found, hfound, hget⟩ := Option.bind_eq_some_iff.mp hv
    rw [FieldWrites.propertiesAt_objectAt, hat] at hfound
    cases hfound
    exact ⟨some v, congrArg some hget, Or.inl ⟨rfl, fun _ h => by cases h⟩⟩
  | functionRef => cases hl

variable (classes k) in
theorem getField_place (register : ℕ) {o : ℕ} {name : String} {l : Place} {v : Reg α}
    (hl : fieldOf d a o name = some l) (hv : l.content d = some v) :
    (∃ f, nativeFunctions.lookup name = some f ∧
      getField classes d k a o name register = some (d.deliverTo a register ⟨.nativeFunc, .native f⟩)) ∨
    (Readable d a o name ∧ ∃ searched,
      getField classes d k a o name register = some ⟨d.setReg a.currentContext register v, searched, .next⟩) ∨
    ¬ Readable d a o name ∧ ∀ d' searched,
      getField classes d k a o name register ≠ some ⟨d', searched, .next⟩ := by
  cases hnative : nativeFunctions.lookup name with
  | some f =>
    refine Or.inl ⟨f, rfl, ?_⟩
    unfold getField
    rw [hnative]
  | none =>
    right
    unfold fieldOf at hl
    by_cases hthis : o = 1
    · rw [if_pos hthis] at hl
      obtain ⟨l, hvariable, rfl⟩ := Option.map_eq_some_iff.mp hl
      refine Or.inl ⟨⟨hnative, fun _ h => absurd hthis h⟩, a.objectToSearchOn, ?_⟩
      unfold getField
      simp only [hnative]
      rw [if_pos hthis]
      exact searchThis_variable hvariable hv register
    rw [if_neg hthis] at hl
    split at hl
    · rename_i htype
      split at hl
      · rename_i hclass
        obtain ⟨l, hvariable, rfl⟩ := Option.map_eq_some_iff.mp hl
        refine Or.inl ⟨⟨hnative, fun _ _ h => absurd htype h⟩, a.objectToSearchOn, ?_⟩
        unfold getField
        simp only [hnative]
        rw [if_neg hthis, htype]
        dsimp only
        rw [if_pos hclass]
        exact searchThis_variable hvariable hv register
      · cases hl
    · rename_i address hval htype
      obtain ⟨object, hobject, hmember⟩ := Option.bind_eq_some_iff.mp hl
      have hreceiver : FieldWrites.receiver (d.regs a.currentContext o) = some address :=
        receiver_of htype hval
      obtain ⟨result, hvisible, hresult⟩ := visible_member hthis hnative hreceiver hobject hmember hv
      obtain ⟨⟨data, searched, action⟩, he, hgives⟩ :
          ∃ e, getField classes d k a o name register = some e ∧ FieldWrites.Gives d a register e result :=
        FieldWrites.getField_visible hthis hreceiver hvisible
      rcases hresult with ⟨rfl, hreadable⟩ | ⟨rfl, hreadable⟩
      · obtain ⟨hdata, haction⟩ := hgives
        dsimp only at hdata haction
        subst hdata haction
        exact Or.inl ⟨hreadable, searched, he⟩
      · obtain ⟨-, message, haction⟩ := hgives
        dsimp only at haction
        subst haction
        refine Or.inr ⟨hreadable, fun d' searched' hnext => ?_⟩
        rw [he] at hnext
        cases hnext
    · cases hl

end

section

variable {classes : String → Option Code} {k : ControlState} {rest : List Activation}
  {d d' : Data ℚ} {a a' : Activation}

def bumped (increment : Bool) (v : Reg ℚ) : Reg ℚ := ⟨v.type, .num (stepped increment v.number)⟩

theorem bumped_ofNum (increment : Bool) (x : ℚ) : bumped increment (.ofNum x) = .ofNum (stepped increment x) := rfl

theorem effect_step (increment : Bool) (t r : ℕ) :
    effect classes d k a rest ⟨stepOpcode increment, .num t, .num r, .num 0⟩ =
      some ⟨d.setRegs a.currentContext (Function.update
        (Function.update (d.regs a.currentContext) t (bumped increment (d.regs a.currentContext t)))
        r (bumped increment (d.regs a.currentContext t))), a.objectToSearchOn, .next⟩ := by
  cases increment <;> rfl

theorem effect_mov (r t : ℕ) : effect classes d k a rest ⟨.MOV, .num r, .num t, .num 0⟩ =
    some ⟨d.setRegs a.currentContext (Function.update (d.regs a.currentContext) r
      (d.regs a.currentContext t)), a.objectToSearchOn, .next⟩ := rfl

theorem regs_setRegs (d : Data ℚ) (c : ContextId) (regs : Regs ℚ) : (d.setRegs c regs).regs c = regs := by
  unfold Data.regs
  rw [Data.contexts_setRegs, if_pos rfl]
  rfl

/-- The register of the operand is stepped, and the result is the new value or, in a register of its own,
the old one. -/
structure Stepped (c : ContextId) (increment isPrefix : Bool) (t r : ℕ) (d d' : Data ℚ) : Prop where
  inFrame : InFrame c d d'
  operand : d'.regs c t = bumped increment (d.regs c t)
  result : d'.regs c r = if isPrefix = true ∨ r = t then bumped increment (d.regs c t) else d.regs c t
  other : ∀ s, s ≠ t → s ≠ r → d'.regs c s = d.regs c s

variable (classes k rest) in
theorem stepCode_run (increment isPrefix : Bool) (t r : ℕ) (a : Activation) (d : Data ℚ) :
    ∃ a' d', execCode classes k rest (stepCode increment isPrefix t r) a d = some (a', d') ∧
      Stepped a.currentContext increment isPrefix t r d d' := by
  cases isPrefix with
  | true =>
    refine ⟨_, _, (execCode_cons (effect_step increment t r)).trans rfl, inFrame_setRegs .., ?_, ?_, ?_⟩
    · rw [regs_setRegs]
      by_cases hr : t = r
      · rw [hr, Function.update_self]
      · rw [Function.update_of_ne hr, Function.update_self]
    · rw [regs_setRegs, Function.update_self, if_pos (Or.inl rfl)]
    · intro s hst hsr
      rw [regs_setRegs, Function.update_of_ne hsr, Function.update_of_ne hst]
  | false =>
    refine ⟨_, _, (execCode_cons (effect_mov r t)).trans
      ((execCode_cons (effect_step increment t t)).trans rfl),
      (inFrame_setRegs ..).trans (inFrame_setRegs ..), ?_, ?_, ?_⟩
    all_goals simp only [regs_setRegs]
    · rw [Function.update_self]
      by_cases hr : t = r
      · rw [hr, Function.update_self]
      · rw [Function.update_of_ne hr]
    · by_cases hr : r = t
      · rw [if_pos (Or.inr hr), hr, Function.update_self, Function.update_self]
      · rw [if_neg (by simp [hr]), Function.update_of_ne hr, Function.update_of_ne hr, Function.update_self]
    · intro s hst hsr
      rw [Function.update_of_ne hst, Function.update_of_ne hst, Function.update_of_ne hsr]

variable (classes k rest) in
theorem writeBack_run {x : String} {t key : ℕ} {l : Location} (hkey : t ≠ key)
    (hl : d.writeLocation a x = some l) (hc : (d.contexts a.currentContext).locals.isSome) :
    ∃ a' d₁, execCode classes k rest [⟨.MOV_STR, .num key, .str x, .num 0⟩, ⟨.SET_FIELD, .num 1, .num key, .num t⟩]
        a d = some (a', d₁.write l (d.regs a.currentContext t)) ∧ InFrame a.currentContext d d₁ ∧
      ∀ s, s ≠ key → d₁.regs a.currentContext s = d.regs a.currentContext s := by
  let allocated := d.newReg .str (.string x 0)
  let d₁ := allocated.1.setReg a.currentContext key allocated.2
  have hmove : effect classes d k a rest ⟨.MOV_STR, .num key, .str x, .num 0⟩ =
      some ⟨d₁, a.objectToSearchOn, .next⟩ := rfl
  have hframe : InFrame a.currentContext d d₁ := (inFrame_alloc ..).trans (inFrame_setRegs ..)
  have hkept : ∀ s, s ≠ key → d₁.regs a.currentContext s = d.regs a.currentContext s := by
    intro s hs
    have hregs := regs_setRegs allocated.1 a.currentContext
      (Function.update (d.regs a.currentContext) key allocated.2)
    exact (congrFun hregs s).trans (Function.update_of_ne hs ..)
  have hsearch : d₁.writeLocation { a with instructionPtr := a.instructionPtr + 1 } x = some l := by
    rw [← hl]
    unfold Data.writeLocation
    dsimp only
    rw [hframe.findSlot hc, hframe.states]
  have hwrites : WritesName d₁ { a with instructionPtr := a.instructionPtr + 1 }
      ⟨.SET_FIELD, .num 1, .num key, .num t⟩ x := by
    refine ⟨rfl, rfl, ?_⟩
    have hregister : d₁.regs a.currentContext key = allocated.2 := by
      have hregs := regs_setRegs allocated.1 a.currentContext
        (Function.update (d.regs a.currentContext) key allocated.2)
      exact (congrFun hregs key).trans (Function.update_self ..)
    change d₁.fieldName (d₁.regs a.currentContext key) = some x
    rw [hregister]
    simp [allocated, d₁, Data.fieldName, Data.toText, Data.newReg, Data.alloc, Data.object, Data.setReg, Data.setRegs]
  have hset : effect classes d₁ k { a with instructionPtr := a.instructionPtr + 1 } rest
      ⟨.SET_FIELD, .num 1, .num key, .num t⟩ =
        some ⟨d₁.write l (d.regs a.currentContext t), a.objectToSearchOn, .next⟩ := by
    rw [hwrites.effect_eq, setField_location hsearch]
    exact congrArg (fun v => some (Effect.mk (d₁.write l v) a.objectToSearchOn .next)) (hkept t hkey)
  exact ⟨_, d₁, (execCode_cons hmove).trans ((execCode_cons hset).trans rfl), hframe, hkept⟩

variable {syms : List (String × ℕ)}

theorem named_register (hv : SymbolsValid syms) {x : String} (hx : symbolsOf syms x ≠ 0) :
    symbolsOf syms x ≤ syms.length :=
  (localReg_bound hv (e := .ident x) (by simp [localReg, hx])).2

theorem named_steps (hv : SymbolsValid syms) {y : String} {increment isPrefix flag : Bool} {dest r : ℕ}
    {fk fk' : FunctionKind} {c : Code} {x : ℚ} (hfk : Ready syms fk) (hy : symbolsOf syms y ≠ 0)
    (hx : d.regs a.currentContext (symbolsOf syms y) = .ofNum x)
    (h : compileExpression (stepExpr increment isPrefix (.ident y)) dest flag fk = .ok (r, fk', c)) :
    Steps classes d k rest a c r (.location (.slot a.currentContext (symbolsOf syms y))) increment isPrefix x ↔
      isPrefix = true ∨ symbolsOf syms y ≠ dest := by
  obtain ⟨t, fk₁, c₁, fk₂, c₂, h₁, result, hback, rfl⟩ := stepExpr_ok hv hfk h
  obtain ⟨rfl, rfl⟩ := named_operand hfk hy h₁
  have hc₂ : c₂ = [] := by
    rcases writeBack_ok result.ready hback with ⟨rfl, -⟩ | ⟨z, key, fk₃, hz, h0, -⟩
    · rfl
    · cases hz
      exact absurd h0 hy
  subst hc₂
  rw [List.nil_append, List.append_nil]
  obtain ⟨a', d', hrun, hstepped⟩ := stepCode_run classes k rest increment isPrefix
    (symbolsOf syms y) r a d
  have hoperand := hstepped.operand
  have hresult := hstepped.result
  rw [hx, bumped_ofNum] at hoperand hresult
  have hown : isPrefix = false → (r = symbolsOf syms y ↔ symbolsOf syms y = dest) := by
    intro hpost
    by_cases hd : dest = 0
    · have habove := (result.temporary hd hpost).1
      have hbound := named_register hv hy
      exact iff_of_false (by omega) (fun heq => hy (heq.trans hd))
    · rw [result.requested hd]
      exact eq_comm
  constructor
  · rintro ⟨b, g, hg, -, hvalue⟩
    cases hrun.symm.trans hg
    cases hpre : isPrefix with
    | true => exact Or.inl rfl
    | false =>
      refine Or.inr fun hd => ?_
      rw [hresult, if_pos (Or.inr ((hown hpre).mpr hd)), hpre, if_neg Bool.false_ne_true] at hvalue
      exact stepped_ne increment x (ofNum_injective hvalue)
  · intro hcond
    refine ⟨a', d', hrun, congrArg some hoperand, hresult.trans ?_⟩
    cases hpre : isPrefix with
    | true => rw [if_pos (Or.inl rfl), if_pos rfl]
    | false =>
      have hne : r ≠ symbolsOf syms y := by
        intro heq
        rcases hcond with htrue | hd
        · rw [hpre] at htrue
          cases htrue
        · exact hd ((hown hpre).mp heq)
      rw [if_neg (by simp [hne]), if_neg Bool.false_ne_true]

theorem variableOf_slot {name : String} {c : ContextId} {index : ℕ}
    (h : variableOf d a name = some (.slot c index)) : d.slotOf c name = some index := by
  unfold variableOf at h
  obtain ⟨slot, hfind, h⟩ := Option.bind_eq_some_iff.mp h
  cases slot with
  | some slot =>
    obtain ⟨c', index'⟩ := slot
    cases h
    exact slotOf_of_findSlot hfind
  | none =>
    dsimp only at h
    split at h
    · cases h
    · split at h <;> cases h

theorem fieldOf_slot {o : ℕ} {name : String} {c : ContextId} {index : ℕ}
    (h : fieldOf d a o name = some (.location (.slot c index))) : d.slotOf c name = some index := by
  have hvariable : (variableOf d a name).map Place.location = some (.location (.slot c index)) →
      d.slotOf c name = some index := by
    intro h
    obtain ⟨l, hl, heq⟩ := Option.map_eq_some_iff.mp h
    cases heq
    exact variableOf_slot hl
  unfold fieldOf at h
  by_cases hthis : o = 1
  · rw [if_pos hthis] at h
    exact hvariable h
  · rw [if_neg hthis] at h
    split at h
    · split at h
      · exact hvariable h
      · cases h
    · obtain ⟨object, -, h⟩ := Option.bind_eq_some_iff.mp h
      cases object with
      | classRef className =>
        obtain ⟨info, -, heq⟩ := Option.map_eq_some_iff.mp h
        cases heq
      | instanceObject target =>
        dsimp only [memberOf] at h
        split at h
        · rename_i hfind
          cases h
          exact slotOf_of_findSlot hfind
        · cases h
      | json | string | functionRef => cases h
    · cases h

/-- A field is not written back. It is stepped only as the register that the prefix form is to deliver into. -/
theorem field_steps (hv : SymbolsValid syms) (hframe : Framed syms d a.currentContext) {object key : Expr}
    {o s : ℕ} {fk₁ fk₂ : FunctionKind} {c₁ c₂ : Code} {name : String} {increment isPrefix flag : Bool}
    {dest r : ℕ} {fk fk' : FunctionKind} {c : Code} {l : Place} {x : ℚ} (hfk : Ready syms fk)
    (hobject : compileExpression object 0 false fk = .ok (o, fk₁, c₁))
    (hkey : compileExpression key 0 true fk₁ = .ok (s, fk₂, c₂))
    (hname : d.fieldName (d.regs a.currentContext s) = some name) (hl : fieldOf d a o name = some l)
    (hx : l.content d = some (.ofNum x))
    (h : compileExpression (stepExpr increment isPrefix (.binary .dot object key)) dest flag fk = .ok (r, fk', c)) :
    Steps classes d k rest a (c.drop (c₁ ++ c₂).length) r l increment isPrefix x ↔
      WritesBack d a isPrefix dest (.field o name) := by
  obtain ⟨t, fk₃, c₃, fk₄, c₄, h₁, result, hback, rfl⟩ := stepExpr_ok hv hfk h
  obtain ⟨habove, rfl⟩ := field_operand hv hfk hobject hkey h₁
  have hc₄ : c₄ = [] := by
    rcases writeBack_ok result.ready hback with ⟨rfl, -⟩ | ⟨z, key, fk₅, hz, -⟩
    · rfl
    · cases hz
  subst hc₄
  rw [List.append_nil, List.append_assoc, List.drop_left, List.singleton_append]
  have hread : effect classes d k a rest ⟨.GET_FIELD, .num o, .num s, .num t⟩ =
      getField classes d k a o name t := by
    change (d.fieldName (d.regs a.currentContext s)).bind (getField classes d k a o · t) = _
    rw [hname]
    rfl
  rcases getField_place classes k t hl hx with
    ⟨f, hf, hget⟩ | ⟨hreadable, searched, hget⟩ | ⟨hnot, hget⟩
  · -- a native function is stepped in the temporary
    obtain ⟨a', d', hrun, hstepped⟩ := stepCode_run classes k rest increment isPrefix
      t r { a with instructionPtr := a.instructionPtr + 1 } (d.setReg a.currentContext t ⟨.nativeFunc, .native f⟩)
    have hcode : execCode classes k rest (⟨.GET_FIELD, .num o, .num s, .num t⟩ :: stepCode increment isPrefix t r)
        a d = some (a', d') := (execCode_cons (hread.trans hget)).trans hrun
    refine iff_of_false ?_ ?_
    · rintro ⟨b, g, hg, -, hvalue⟩
      cases hcode.symm.trans hg
      have hresult := hstepped.result.symm.trans hvalue
      rw [Data.regs_setReg_self, Function.update_self] at hresult
      have htype := congrArg Reg.type hresult
      split at htype <;> cases htype
    · rintro ⟨-, -, -, hreadable⟩
      rw [hreadable.1] at hf
      cases hf
  · obtain ⟨a', d', hrun, hstepped⟩ := stepCode_run classes k rest increment isPrefix
      t r { a with objectToSearchOn := searched, instructionPtr := a.instructionPtr + 1 }
      (d.setReg a.currentContext t (.ofNum x))
    have hcode : execCode classes k rest (⟨.GET_FIELD, .num o, .num s, .num t⟩ :: stepCode increment isPrefix t r)
        a d = some (a', d') := (execCode_cons (hread.trans hget)).trans hrun
    have hvalue : (d.setReg a.currentContext t (.ofNum x)).regs a.currentContext t = .ofNum x := by
      rw [Data.regs_setReg_self, Function.update_self]
    have hresult := hstepped.result
    rw [hvalue, bumped_ofNum] at hresult
    have hkept : l.content d' = some (.ofNum x) →
        ¬ Steps classes d k rest a
          (⟨.GET_FIELD, .num o, .num s, .num t⟩ :: stepCode increment isPrefix t r) r l increment isPrefix x := by
      rintro hcontent ⟨b, g, hg, hnew, -⟩
      cases hcode.symm.trans hg
      exact stepped_ne increment x (ofNum_injective (Option.some.inj (hnew.symm.trans hcontent)))
    by_cases hslot : ∃ index, l = .location (.slot a.currentContext index)
    · obtain ⟨index, rfl⟩ := hslot
      obtain ⟨hindex, hpos⟩ := hframe name index (fieldOf_slot hl)
      have hbound : index ≤ syms.length := hindex ▸ named_register hv (hindex ▸ hpos)
      have hne : index ≠ t := by omega
      by_cases hr : index = r
      · subst hr
        rw [if_congr (or_iff_left hne) rfl rfl] at hresult
        cases isPrefix with
        | true =>
          have hdest : dest ≠ 0 := fun hd => hne (result.operand hd rfl)
          obtain rfl := result.requested hdest
          exact iff_of_true ⟨a', d', hcode, congrArg some hresult, hresult⟩ ⟨rfl, hl, hdest, hreadable⟩
        | false => exact iff_of_false (hkept (congrArg some hresult)) fun h => Bool.false_ne_true h.1
      · refine iff_of_false (hkept (congrArg some ?_)) ?_
        · refine (hstepped.other index hne hr).trans ?_
          rw [Data.regs_setReg_self, Function.update_of_ne hne]
          exact Option.some.inj hx
        · rintro ⟨-, hplace, hdest, -⟩
          rw [hl] at hplace
          cases hplace
          exact hr (result.requested hdest).symm
    · refine iff_of_false (hkept ?_) ?_
      · exact ((inFrame_setRegs ..).trans hstepped.inFrame).content hx fun index heq => hslot ⟨index, heq⟩
      · rintro ⟨-, hplace, -⟩
        rw [hl] at hplace
        exact hslot ⟨_, Option.some.inj hplace⟩
  · refine iff_of_false ?_ fun h => hnot h.2.2.2
    rintro ⟨b, g, hg, -⟩
    rw [execCode, hread] at hg
    split at hg
    · exact hget _ _ ‹_›
    · cases hg

theorem InFrame.sharing {c : ContextId} (h : InFrame c d d') (hd : Sharing d) : Sharing d' where
  table_lt s := by
    rw [h.states, h.synchronized]
    exact hd.table_lt s
  synchronized := by
    rw [h.synchronized]
    exact hd.synchronized
  static className info hinfo := by
    unfold Data.typeInfo at hinfo
    rw [h.knownTypes] at hinfo
    exact hd.static className info hinfo

variable (rest) in
theorem outer_run (hv : SymbolsValid syms) (hframe : Framed syms d a.currentContext)
    (hentered : (d.contexts a.currentContext).locals.isSome) {y : String} {increment isPrefix flag : Bool}
    {dest r : ℕ} {fk fk' : FunctionKind} {c : Code} (hfk : Ready syms fk)
    (hd : dest = 0 ∨ (1 ≤ dest ∧ dest ≤ syms.length) ∨ fk.InUse dest) (hy : symbolsOf syms y = 0)
    (h : compileExpression (stepExpr increment isPrefix (.ident y)) dest flag fk = .ok (r, fk', c))
    {w : Reg ℚ} (hread : ∀ register, ∃ searched, getField classes d k a 1 y register =
      some ⟨d.setReg a.currentContext register w, searched, .next⟩)
    {l : Location} (hwrite : d.writeLocation a y = some l) :
    ∃ a' d₁, execCode classes k rest c a d = some (a', d₁.write l (bumped increment w)) ∧
      InFrame a.currentContext d d₁ ∧ d₁.writeLocation a y = some l ∧
      (d₁.write l (bumped increment w)).regs a.currentContext r = if isPrefix then bumped increment w else w := by
  obtain ⟨t, fk₁, c₁, fk₂, c₂, h₁, result, hback, rfl⟩ := stepExpr_ok hv hfk h
  obtain ⟨operand, rfl⟩ := outer_operand hfk hy h₁
  obtain ⟨habove, hin⟩ := operand.temporary rfl
  rcases writeBack_ok result.ready hback with ⟨-, hne⟩ | ⟨z, key, fk₃, hz, -, keyDest, rfl⟩
  · exact absurd hy (hne y rfl)
  cases hz
  have hkeyAbove := (keyDest.temporary rfl).1
  have htkey : t ≠ key := (keyDest.other rfl t (result.kept t hin)).1
  -- the result is in a register of its own, apart from the prefix form without a request
  have hrkey : r ≠ key := by
    by_cases hd0 : dest = 0
    · cases hpre : isPrefix with
      | true => exact result.operand hd0 hpre ▸ htkey
      | false => exact (keyDest.other rfl r (result.temporary hd0 hpre).2.1).1
    · rw [result.requested hd0]
      rcases hd with hzero | hnamed | hheld
      · exact absurd hzero hd0
      · omega
      · exact (keyDest.other rfl dest (result.kept dest (operand.other rfl dest hheld).2)).1
  have hrt : isPrefix = false → r ≠ t := by
    intro hpost
    by_cases hd0 : dest = 0
    · intro heq
      exact (result.temporary hd0 hpost).2.2 (heq ▸ hin)
    · rw [result.requested hd0]
      rcases hd with hzero | hnamed | hheld
      · exact absurd hzero hd0
      · omega
      · exact (operand.other rfl dest hheld).1
  obtain ⟨searched, hget⟩ := hread t
  have hreads : effect classes d k a rest ⟨.GET_FIELD_IMMEDIATE, .num 1, .str y, .num t⟩ =
      some ⟨d.setReg a.currentContext t w, searched, .next⟩ := hget
  obtain ⟨a₂, d₂, hrun₂, hstepped⟩ := stepCode_run classes k rest increment isPrefix t r
    { a with objectToSearchOn := searched, instructionPtr := a.instructionPtr + 1 }
    (d.setReg a.currentContext t w)
  have hinFrame₂ : InFrame a.currentContext d d₂ := (inFrame_setRegs ..).trans hstepped.inFrame
  obtain ⟨hcontext, hstate⟩ := execCode_stays hrun₂
  have hvalue : (d.setReg a.currentContext t w).regs a.currentContext t = w := by
    rw [Data.regs_setReg_self, Function.update_self]
  have hsearch : d₂.writeLocation a₂ y = some l := by
    rw [← hwrite]
    unfold Data.writeLocation
    rw [hinFrame₂.findSlot hentered, hinFrame₂.states, hcontext, hstate]
  have hentered₂ : (d₂.contexts a₂.currentContext).locals.isSome := by
    rw [hcontext]
    exact hinFrame₂.scopes.locals _ hentered
  obtain ⟨a₃, d₃, hrun₃, hinFrame₃, hkept⟩ := writeBack_run classes k rest htkey
    hsearch hentered₂
  rw [hcontext] at hrun₃ hinFrame₃ hkept
  have hoperand : d₂.regs a.currentContext t = bumped increment w := hstepped.operand.trans (by rw [hvalue])
  rw [hoperand] at hrun₃
  have hinFrame : InFrame a.currentContext d d₃ := hinFrame₂.trans hinFrame₃
  refine ⟨a₃, d₃, ?_, hinFrame, ?_, ?_⟩
  · rw [List.singleton_append, execCode_cons hreads, execCode_append, hrun₂]
    exact hrun₃
  · rw [← hwrite]
    unfold Data.writeLocation
    rw [hinFrame.findSlot hentered, hinFrame.states]
  · have hother : Location.slot a.currentContext r ≠ l := by
      rintro rfl
      unfold Data.writeLocation at hwrite
      obtain ⟨slot, hfind, hslot⟩ := Option.bind_eq_some_iff.mp hwrite
      cases slot with
      | some slot =>
        obtain ⟨c', index⟩ := slot
        cases hslot
        obtain ⟨hindex, hpos⟩ := hframe y r (slotOf_of_findSlot hfind)
        exact hpos (hindex.symm.trans hy)
      | none => cases hslot
    have hunwritten := content_write_of_ne d₃ (bumped increment w) hother
    have hresult := hstepped.result
    rw [hvalue] at hresult
    refine (Option.some.inj hunwritten).trans ((hkept r hrkey).trans (hresult.trans ?_))
    cases hpre : isPrefix with
    | true => rw [if_pos (Or.inl rfl), if_pos rfl]
    | false => rw [if_neg (by simp [hrt hpre]), if_neg Bool.false_ne_true]

section

variable {m : Machine ℚ} (hm : m.Reachable classes) (ha : a ∈ m.activations)

include hm ha

theorem variable_cases {x : String} {l : Location} (hl : variableOf m.data a x = some l) :
    (m.data.writeLocation a x = some l ∧
      ((∃ c, Encloses m.data a.currentContext c ∧ Declares m.data c x) ∨ ((m.data.sharedOf a.state).get x).isSome)) ∨
    ∃ l', m.data.writeLocation a x = some l' ∧ l ≠ l' ∧ (∀ c index, l ≠ .slot c index) ∧
      ¬ ((∃ c, Encloses m.data a.currentContext c ∧ Declares m.data c x) ∨
        ((m.data.sharedOf a.state).get x).isSome) := by
  unfold variableOf at hl
  unfold Data.writeLocation
  rcases @findSlot_some _ x _ _ (reachable_scoping hm) _ (reachable_current_lt hm ha) (Nat.lt_succ_self _) with
    ⟨c, index, hfind, hinner⟩ | ⟨hfind, hnone⟩
  · rw [hfind] at hl ⊢
    cases hl
    refine Or.inl ⟨rfl, Or.inl ⟨c, hinner.encloses, ?_⟩⟩
    unfold Declares
    rw [hinner.slot]
    rfl
  · rw [hfind] at hl ⊢
    dsimp only [Option.bind_eq_bind, Option.bind_some] at hl
    split at hl
    · rename_i hshared
      cases hl
      exact Or.inl ⟨rfl, Or.inr hshared⟩
    · rename_i hshared
      split at hl
      · cases hl
        refine Or.inr ⟨_, rfl, ?_, ?_, ?_⟩
        · intro heq
          cases heq
        · intro c index heq
          cases heq
        · rintro (⟨c, hencloses, hdeclares⟩ | h)
          · exact hnone c hencloses hdeclares
          · exact hshared h
      · cases hl

theorem outer_steps (hv : SymbolsValid syms) (hframe : Framed syms m.data a.currentContext) {y : String}
    {increment isPrefix flag : Bool} {dest r : ℕ} {fk fk' : FunctionKind} {c : Code} {l : Location} {x : ℚ}
    (hfk : Ready syms fk) (hd : dest = 0 ∨ (1 ≤ dest ∧ dest ≤ syms.length) ∨ fk.InUse dest)
    (hy : symbolsOf syms y = 0) (hl : variableOf m.data a y = some l) (hx : m.data.content l = some (.ofNum x))
    (h : compileExpression (stepExpr increment isPrefix (.ident y)) dest flag fk = .ok (r, fk', c)) :
    Steps classes m.data m.control rest a c r (.location l) increment isPrefix x ↔
      WritesBack m.data a isPrefix dest (.outer y) := by
  have hentered : (m.data.contexts a.currentContext).locals.isSome :=
    (reachable_scoping hm).locals _ ((reachable_linked hm).context_pos (a.state, a.currentContext)
      (List.mem_map_of_mem ha)) (reachable_current_lt hm ha)
  have hplace : fieldOf m.data a 1 y = some (.location l) := by
    unfold fieldOf
    rw [if_pos rfl, hl]
    rfl
  have hcases := variable_cases hm ha hl
  cases hnative : nativeFunctions.lookup y with
  | some f =>
    have hread : ∀ register, ∃ searched, getField classes m.data m.control a 1 y register =
        some ⟨m.data.setReg a.currentContext register ⟨.nativeFunc, .native f⟩, searched, .next⟩ :=
      fun register => ⟨a.objectToSearchOn, Privacy.getField_native hnative register⟩
    obtain ⟨l', hwrite⟩ : ∃ l', m.data.writeLocation a y = some l' := by
      rcases hcases with ⟨hwrite, -⟩ | ⟨l', hwrite, -⟩
      · exact ⟨l, hwrite⟩
      · exact ⟨l', hwrite⟩
    obtain ⟨a', d₁, hrun, -, -, hresult⟩ :=
      outer_run rest hv hframe hentered hfk hd hy h hread hwrite
    refine iff_of_false ?_ ?_
    · rintro ⟨b, g, hg, -, hvalue⟩
      cases hrun.symm.trans hg
      have htype := congrArg Reg.type (hresult.symm.trans hvalue)
      cases isPrefix <;> cases htype
    · rintro ⟨hnone, -⟩
      rw [hnative] at hnone
      cases hnone
  | none =>
    have hread : ∀ register, ∃ searched, getField classes m.data m.control a 1 y register =
        some ⟨m.data.setReg a.currentContext register (.ofNum x), searched, .next⟩ := by
      intro register
      rcases getField_place classes m.control register hplace hx with
        ⟨f, hf, -⟩ | ⟨-, hget⟩ | ⟨hnot, -⟩
      · rw [hnative] at hf
        cases hf
      · exact hget
      · exact absurd ⟨hnative, fun _ h => absurd rfl h⟩ hnot
    rcases hcases with ⟨hwrite, hfound⟩ | ⟨l', hwrite, hne, houtside, hnot⟩
    · obtain ⟨a', d₁, hrun, hinFrame, hsearch, hresult⟩ :=
        outer_run rest hv hframe hentered hfk hd hy h hread hwrite
      refine iff_of_true ⟨a', _, hrun, ?_, ?_⟩ ⟨hnative, hfound⟩
      · exact content_write_searched (hinFrame.sharing (reachable_sharing hm)) hsearch _
      · rw [hresult, bumped_ofNum]
        exact (apply_ite Reg.ofNum ..).symm
    · obtain ⟨a', d₁, hrun, hinFrame, -, -⟩ :=
        outer_run rest hv hframe hentered hfk hd hy h hread hwrite
      refine iff_of_false ?_ fun h => hnot h.2
      rintro ⟨b, g, hg, hcontent, -⟩
      cases hrun.symm.trans hg
      have hkept : Place.content d₁ (.location l) = some (.ofNum x) :=
        hinFrame.content hx fun index heq => houtside _ index (Place.location.inj heq)
      have hunwritten := content_write_of_ne d₁ (bumped increment (.ofNum x)) hne
      have heq := (hcontent.symm.trans hunwritten).trans hkept
      exact stepped_ne increment x (ofNum_injective (Option.some.inj heq))

/-- The step is stored and the value returned exactly when reading and writing end at the place of the
operand. -/
theorem steps_iff (hv : SymbolsValid syms) (hframe : Framed syms m.data a.currentContext) {e : Expr}
    {access : Access} {w : ℕ} {increment isPrefix flag : Bool} {dest r : ℕ} {fk fk' : FunctionKind} {c : Code}
    {l : Place} {x : ℚ} (hfk : Ready syms fk)
    (hd : dest = 0 ∨ (1 ≤ dest ∧ dest ≤ syms.length) ∨ fk.InUse dest)
    (hlocated : Located syms fk m.data a e access w) (hplace : access.place m.data a = some l)
    (hx : l.content m.data = some (.ofNum x))
    (h : compileExpression (stepExpr increment isPrefix e) dest flag fk = .ok (r, fk', c)) :
    Steps classes m.data m.control rest a (c.drop w) r l increment isPrefix x ↔
      WritesBack m.data a isPrefix dest access := by
  cases hlocated with
  | register hy =>
    cases hplace
    exact named_steps hv hfk hy (Option.some.inj hx) h
  | outer hy =>
    obtain ⟨l, hl, rfl⟩ := Option.map_eq_some_iff.mp hplace
    exact outer_steps hm ha hv hframe hfk hd hy hl hx h
  | field hobject hkey hname => exact field_steps hv hframe hfk hobject hkey hname hplace hx h

end

end

theorem framed_of_symbols {fk : FunctionKind} (hnumbered : Numbered fk) (hdistinct : Distinct fk) {α : Type}
    {d : Data α} {c : ContextId} (h : (d.contexts c).symbols = fk.symbolInfo) : Framed fk.symbolTable d c := by
  intro name index hslot
  unfold Data.slotOf at hslot
  rw [h] at hslot
  obtain ⟨i, flag, -, hindex⟩ := SymbolTable.symbol_position hslot
  refine ⟨?_, by rw [hindex]; exact Nat.succ_ne_zero i⟩
  unfold ZMap.get at hslot
  rw [SymbolTable.getFlags_symbolInfo hnumbered hdistinct] at hslot
  obtain ⟨found, hfound, hfst⟩ := Option.map_eq_some_iff.mp hslot
  obtain ⟨slot, hlookup, hpair⟩ := Option.map_eq_some_iff.mp hfound
  subst hpair
  unfold symbolsOf
  rw [hlookup]
  exact hfst

/-- `class Main { var x = 1; ++x; var y = Object(); y.f = 1; y.f++; }`. -/
def sampleProgram : List ClassDeclaration :=
  [⟨"Main", [], [.var "x" (.num "1") false false, .eval (stepExpr true true (.ident "x")),
    .var "y" (.methodCall (.ident "Object") []) false false,
    .eval (.binary .assign (.binary .dot (.ident "y") (.str "f")) (.num "1")),
    .eval (stepExpr true false (.binary .dot (.ident "y") (.str "f"))),
    .function true false false "__static__constructor__" [] []], []⟩]

def sampleSymbols : FunctionKind where
  symbolTable := [("this", 1), ("x", 2), ("y", 3), ("__static__constructor__", 4)]

def sampleKind : FunctionKind := { sampleSymbols with registerTable := [(5, false), (6, true), (7, false)] }

theorem sampleKind_valid : SymbolsValid sampleKind.symbolTable := .of_entries (by decide) (by decide)

theorem sampleKind_ready : Ready sampleKind.symbolTable sampleKind := ⟨rfl, rfl, fun _ h => h.elim⟩

theorem sampleKind_framed {d : Data ℚ} {c : ContextId} (h : (d.contexts c).symbols = sampleSymbols.symbolInfo) :
    Framed sampleKind.symbolTable d c := by
  have hdistinct : (sampleSymbols.symbolTable.map Prod.fst).Nodup := by decide
  exact framed_of_symbols ⟨rfl, rfl⟩ hdistinct h

/-- `++x` steps the variable. -/
theorem steps_iff_local :
    ∃ (m : Machine ℚ) (a : Activation) (rest : List Activation), m.Reachable (imagesOf 3 sampleProgram) ∧
      m.threads[0]? = some (a :: rest) ∧ m.fetch a = some ⟨.INC, .num 2, .num 2, .num 0⟩ ∧
      Steps (imagesOf 3 sampleProgram) m.data m.control rest a [⟨.INC, .num 2, .num 2, .num 0⟩] 2
        (.location (.slot a.currentContext 2)) true true 1 := by
  have hrun : (runUpTo 3 sampleProgram 6 : Option (Machine ℚ × _)).any (fun x => decide (
      (x.1.data.contexts x.2.1.currentContext).symbols = sampleSymbols.symbolInfo ∧
      x.1.data.regs x.2.1.currentContext 2 = .ofNum 1 ∧
      x.2.2.2 = ⟨.INC, .num 2, .num 2, .num 0⟩)) = true := by decide +kernel
  obtain ⟨⟨m, a, rest, i⟩, hstate, hdecided⟩ := (Option.any_eq_true _ _).mp hrun
  obtain ⟨hsymbols, hx, rfl⟩ := of_decide_eq_true hdecided
  obtain ⟨hm, hthread, hi⟩ := runUpTo_reachable hstate
  have ha := (Assignments.runUpTo_activation hstate).2.1
  have hcompile : compileExpression (stepExpr true true (.ident "x")) 0 false sampleKind =
      .ok (2, _, [⟨.INC, .num 2, .num 2, .num 0⟩]) := rfl
  have hsteps : Steps (imagesOf 3 sampleProgram) m.data m.control rest a [⟨.INC, .num 2, .num 2, .num 0⟩] 2
      (.location (.slot a.currentContext 2)) true true 1 :=
    (steps_iff hm ha sampleKind_valid (sampleKind_framed hsymbols) sampleKind_ready (.inl rfl)
      (.register (x := "x") (by decide)) rfl (congrArg some hx) hcompile).mpr (Or.inl rfl)
  exact ⟨m, a, rest, hm, hthread, hi, hsteps⟩

abbrev sampleField : Expr := .binary .dot (.ident "y") (.str "f")

/-- `y.f++` leaves the field at 1. -/
theorem field_kept :
    ∃ (m : Machine ℚ) (a : Activation) (rest : List Activation) (l : Place) (r : ℕ) (fk : FunctionKind)
      (c after : Code), m.Reachable (imagesOf 3 sampleProgram) ∧ m.threads[0]? = some (a :: rest) ∧
      compileExpression (stepExpr true false sampleField) 0 false sampleKind = .ok (r, fk, c) ∧
      (m.data.states a.state).byteStream.drop a.instructionPtr = c.drop 1 ++ after ∧
      Located sampleKind.symbolTable sampleKind m.data a sampleField (.field 3 "f") 1 ∧
      (Access.field 3 "f").place m.data a = some l ∧ l.content m.data = some (.ofNum 1) ∧
      ¬ Steps (imagesOf 3 sampleProgram) m.data m.control rest a (c.drop 1) r l true false 1 := by
  have hrun : (runUpTo 3 sampleProgram 13 : Option (Machine ℚ × _)).any (fun x => decide (
      (x.1.data.contexts x.2.1.currentContext).symbols = sampleSymbols.symbolInfo ∧
      x.1.data.fieldName (x.1.data.regs x.2.1.currentContext 6) = some "f" ∧
      (((x.1.data.states x.2.1.state).byteStream.drop x.2.1.instructionPtr).take 3 =
        [⟨.GET_FIELD, .num 3, .num 6, .num 8⟩, ⟨.MOV, .num 6, .num 8, .num 0⟩, ⟨.INC, .num 8, .num 8, .num 0⟩]) ∧
      (fieldOf x.1.data x.2.1 3 "f").bind (·.content x.1.data) = some (.ofNum 1))) = true := by decide +kernel
  obtain ⟨⟨m, a, rest, i⟩, hstate, hdecided⟩ := (Option.any_eq_true _ _).mp hrun
  obtain ⟨hsymbols, hname, hcode, hcontent⟩ := of_decide_eq_true hdecided
  obtain ⟨hm, hthread, -⟩ := runUpTo_reachable hstate
  obtain ⟨l, hl, hx⟩ := Option.bind_eq_some_iff.mp hcontent
  have hcompile : compileExpression (stepExpr true false sampleField) 0 false sampleKind =
      .ok (6, _, [⟨.MOV_STR, .num 6, .str "f", .num 0⟩, ⟨.GET_FIELD, .num 3, .num 6, .num 8⟩,
        ⟨.MOV, .num 6, .num 8, .num 0⟩, ⟨.INC, .num 8, .num 8, .num 0⟩]) := rfl
  have hobject : compileExpression (.ident "y") 0 false sampleKind = .ok (3, sampleKind, []) := rfl
  have hkey : compileExpression (.str "f") 0 true sampleKind =
      .ok (6, _, [⟨.MOV_STR, .num 6, .str "f", .num 0⟩]) := rfl
  have hafter := List.take_append_drop 3 ((m.data.states a.state).byteStream.drop a.instructionPtr)
  dsimp only at hcode
  rw [hcode] at hafter
  refine ⟨m, a, rest, l, _, _, _, _, hm, hthread, hcompile, hafter.symm, .field hobject hkey hname, hl, hx, ?_⟩
  intro hsteps
  have hwrites := (field_steps sampleKind_valid (sampleKind_framed hsymbols) sampleKind_ready hobject hkey hname hl
    hx hcompile).mp hsteps
  exact Bool.false_ne_true hwrites.1

end Zeroscript.Increments
