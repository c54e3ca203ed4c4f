import Zeroscript.Evaluation
import Zeroscript.ProtectedRegisters

/-! # What a successful compilation did

One lemma for each member of `ExpressionCompiler` that plain expressions reach: the runs of its
sub-compilers, what became of the register table, and the instructions in order. -/
namespace Zeroscript.ExpressionInversion

open Emission ProtectedRegisters

def symbolsOf (syms : List (String × ℕ)) : Symbols := fun x => (syms.lookup x).getD 0

variable {syms : List (String × ℕ)} {fk fk' : FunctionKind} {d r : ℕ} {c : Code}

/-- The register tables of a function while its body is compiled. -/
abbrev Ready (syms : List (String × ℕ)) (fk : FunctionKind) : Prop :=
  Protecting syms (fun _ => False) fk

theorem Ready.protecting (h : Ready syms fk) {t : ℕ} (ht : fk.InUse t) :
    Protecting syms (· = t) fk :=
  ⟨h.symbolTable, h.wellFormed, fun _ he => he ▸ ht⟩

theorem Ready.getRegister (h : Ready syms fk) (x : String) : fk.getRegister x = symbolsOf syms x := by
  rw [FunctionKind.getRegister, symbolsOf, h.symbolTable]

theorem Ready.inUse_freeRegister (h : Ready syms fk) {t : ℕ} (ht : fk.InUse t) (hne : t ≠ r) :
    (fk.freeRegister r).InUse t := by
  rw [FunctionKind.InUse, (FunctionKind.freeRegister_freed h.wellFormed r).lookup t hne]
  exact ht

theorem Ready.freeRegister (h : Ready syms fk) (r : ℕ) : Ready syms (fk.freeRegister r) :=
  (freeRegister_spares (fun hf => hf) fk () (fk.freeRegister r) [] h rfl).1

structure Destination (syms : List (String × ℕ)) (d : ℕ) (fk : FunctionKind) (r : ℕ)
    (fk' : FunctionKind) (c : Code) : Prop where
  silent : c = []
  ready : Ready syms fk'
  requested : d ≠ 0 → r = d
  temporary : d = 0 → syms.length < r ∧ fk'.InUse r
  other : d = 0 → ∀ t, fk.InUse t → t ≠ r ∧ fk'.InUse t

theorem getTemporary_destination (hfk : Ready syms fk)
    (h : Zeroscript.getTemporary fk = .ok (r, fk', c)) : Destination syms 0 fk r fk' c := by
  obtain ⟨t, fk₁, hget, handed⟩ := FunctionKind.getTemporary_handed hfk.wellFormed
  have ready := (getTemporary_grants fk r fk' c hfk h).1
  unfold Zeroscript.getTemporary at h
  rw [hget] at h
  cases h
  refine ⟨rfl, ready, fun h0 => absurd rfl h0, fun _ => ⟨?_, ?_⟩, fun _ s hs => ?_⟩
  · exact hfk.symbolTable ▸ handed.above
  · rw [FunctionKind.InUse, handed.lookup, if_pos rfl]
  · have hne : s ≠ r := fun he => handed.wasNotInUse (he ▸ hs)
    refine ⟨hne, ?_⟩
    rw [FunctionKind.InUse, handed.lookup, if_neg hne]
    exact hs

theorem destinationOrTemporary_destination (hfk : Ready syms fk)
    (h : destinationOrTemporary d fk = .ok (r, fk', c)) : Destination syms d fk r fk' c := by
  unfold destinationOrTemporary at h
  split at h
  · rename_i h0
    subst h0
    exact getTemporary_destination hfk h
  · rename_i h0
    obtain ⟨rfl, rfl, rfl⟩ := pure_ok.mp h
    exact ⟨rfl, hfk, fun _ => rfl, fun he => absurd he h0, fun he => absurd he h0⟩

theorem destinationOrTemporary_requested (hd : d ≠ 0)
    (h : destinationOrTemporary d fk = .ok (r, fk', c)) : r = d ∧ fk' = fk ∧ c = [] := by
  unfold destinationOrTemporary at h
  rw [if_neg hd] at h
  obtain ⟨rfl, rfl, rfl⟩ := pure_ok.mp h
  exact ⟨rfl, rfl, rfl⟩

theorem compileExpression_ready (hv : SymbolsValid syms) {e : Expr} {k : Bool}
    (hfk : Ready syms fk) (h : compileExpression e d k fk = .ok (r, fk', c)) : Ready syms fk' :=
  (compileExpression_spares hv ⟨id, id⟩ e d k id fk r fk' c hfk h).1

theorem addInstruction_ok {opcode : Opcode} {r0 r1 r2 : Operand} {u : Unit}
    (h : addInstruction opcode r0 r1 r2 fk = .ok (u, fk', c)) :
    fk' = fk ∧ c = [⟨opcode, r0, r1, r2⟩] := by
  cases h
  exact ⟨rfl, rfl⟩

theorem freeRegister_ok {u : Unit} (h : freeRegister r fk = .ok (u, fk', c)) :
    fk' = fk.freeRegister r ∧ c = [] := by
  cases h
  exact ⟨rfl, rfl⟩

theorem freeRegisterIf_ok {p : Prop} [Decidable p] {u : Unit}
    (h : freeRegisterIf p r fk = .ok (u, fk', c)) :
    fk' = (if p then fk.freeRegister r else fk) ∧ c = [] := by
  unfold freeRegisterIf at h
  split at h
  · rw [if_pos ‹p›]
    exact freeRegister_ok h
  · rw [if_neg ‹¬p›]
    obtain ⟨_, rfl, rfl⟩ := pure_ok.mp h
    exact ⟨rfl, rfl⟩

theorem compileLiteral_ok {opcode : Opcode} {data : String} (hfk : Ready syms fk)
    (h : compileLiteral opcode data d fk = .ok (r, fk', c)) :
    Destination syms d fk r fk' [] ∧ c = [⟨opcode, .num r, .str data, .num 0⟩] := by
  unfold compileLiteral at h
  simp only [bind_ok, pure_ok] at h
  obtain ⟨t, fk₁, c₁, _, h₁, ⟨_, fk₂, c₂, _, h₂, ⟨rfl, rfl, rfl⟩, rfl⟩, rfl⟩ := h
  have dest := destinationOrTemporary_destination hfk h₁
  obtain ⟨rfl, rfl⟩ := addInstruction_ok h₂
  obtain rfl := dest.silent
  exact ⟨dest, rfl⟩

theorem compileIdentifierImmediate_ok {x : String} (hfk : Ready syms fk)
    (h : compileIdentifierImmediate x d fk = .ok (r, fk', c)) :
    (symbolsOf syms x ≠ 0 ∧ r = symbolsOf syms x ∧ fk' = fk ∧ c = []) ∨
      symbolsOf syms x = 0 ∧ Destination syms d fk r fk' [] ∧
        c = [⟨.GET_FIELD_IMMEDIATE, .num 1, .str x, .num r⟩] := by
  unfold compileIdentifierImmediate at h
  obtain ⟨t, fk₁, c₁, c₂, h₁, h₂, rfl⟩ := bind_ok.mp h
  cases h₁
  rw [hfk.getRegister] at h₂
  split at h₂
  · rename_i h0
    simp only [bind_ok, pure_ok] at h₂
    obtain ⟨t, fk₂, c₃, _, h₃, ⟨_, fk₄, c₄, _, h₄, ⟨rfl, rfl, rfl⟩, rfl⟩, rfl⟩ := h₂
    have dest := destinationOrTemporary_destination hfk h₃
    obtain ⟨rfl, rfl⟩ := addInstruction_ok h₄
    obtain rfl := dest.silent
    exact Or.inr ⟨h0, dest, rfl⟩
  · rename_i h0
    obtain ⟨rfl, rfl, rfl⟩ := pure_ok.mp h₂
    exact Or.inl ⟨h0, rfl, rfl, rfl⟩

theorem compileIdentifier_ok {x : String} (hfk : Ready syms fk)
    (h : compileIdentifier x 0 fk = .ok (r, fk', c)) :
    (symbolsOf syms x ≠ 0 ∧ r = symbolsOf syms x ∧ fk' = fk ∧ c = []) ∨
      symbolsOf syms x = 0 ∧ syms.length < r ∧ Ready syms fk' ∧ ∃ key, syms.length < key ∧
        c = [⟨.MOV_STR, .num key, .str x, .num 0⟩, ⟨.GET_FIELD, .num 1, .num key, .num r⟩] := by
  unfold compileIdentifier at h
  obtain ⟨t, fk₁, c₁, c₂, h₁, h₂, rfl⟩ := bind_ok.mp h
  cases h₁
  rw [hfk.getRegister] at h₂
  split at h₂
  · rename_i h0
    simp only [bind_ok, pure_ok] at h₂
    obtain ⟨t, fk₂, c₃, _, h₃, ⟨key, fk₃, c₄, _, h₄, ⟨_, _, c₅, _, h₅, ⟨rfl, rfl, rfl⟩, rfl⟩, rfl⟩,
      rfl⟩ := h₂
    have dest := destinationOrTemporary_destination hfk h₃
    obtain ⟨lit, rfl⟩ := compileLiteral_ok dest.ready h₄
    obtain ⟨rfl, rfl⟩ := addInstruction_ok h₅
    obtain rfl := dest.silent
    exact Or.inr ⟨h0, (dest.temporary rfl).1, lit.ready, key, (lit.temporary rfl).1, rfl⟩
  · rename_i h0
    obtain ⟨rfl, rfl, rfl⟩ := pure_ok.mp h₂
    exact Or.inl ⟨h0, rfl, rfl, rfl⟩

theorem compileOperands_ok {op : BinaryOp} {opcode : Opcode} {left right : SubCompiler}
    (hop : toOpcode op = some opcode)
    (h : compileOperands op left right d fk = .ok (r, fk', c)) :
    ∃ a fk₁ c₁ b fk₂ c₂ fk₃ c₃, left 0 false fk = .ok (a, fk₁, c₁) ∧
      right 0 (op = .dot) fk₁ = .ok (b, fk₂, c₂) ∧
      destinationOrTemporary d fk₂ = .ok (r, fk₃, c₃) ∧
      fk' = (if b ≠ r then fk₃.freeRegister b else fk₃).freeRegister a ∧
      c = c₁ ++ (c₂ ++ (c₃ ++ [⟨opcode, .num a, .num b, .num r⟩])) := by
  have hassign : op ≠ .assign := by
    rintro rfl
    cases hop
  unfold compileOperands addOperation at h
  simp only [if_neg hassign, hop, bind_ok, pure_ok] at h
  obtain ⟨a, fk₁, c₁, _, h₁, ⟨b, fk₂, c₂, _, h₂, ⟨t, fk₃, c₃, _, h₃, ⟨_, fk₄, c₄, _, h₄,
    ⟨_, fk₅, c₅, _, h₅, ⟨_, fk₆, c₆, _, h₆, ⟨rfl, rfl, rfl⟩, rfl⟩, rfl⟩, rfl⟩, rfl⟩, rfl⟩, rfl⟩ := h
  obtain ⟨rfl, rfl⟩ := addInstruction_ok h₄
  obtain ⟨rfl, rfl⟩ := freeRegisterIf_ok h₅
  obtain ⟨rfl, rfl⟩ := freeRegister_ok h₆
  exact ⟨a, fk₁, c₁, b, fk₂, c₂, fk₄, c₃, h₁, h₂, h₃, rfl, by simp⟩

/-- An operator with an opcode goes through `compileOperands`. -/
theorem compileExpression_operands {op : BinaryOp} {opcode : Opcode} (hop : toOpcode op = some opcode)
    (left right : Expr) (d : ℕ) (k : Bool) :
    compileExpression (.binary op left right) d k =
      compileOperands op (fun d k => compileExpression left d k)
        (fun d k => compileExpression right d k) d := by
  rw [compileExpression]
  unfold compileBinary
  split
  · cases hop
  · cases hop
  · cases hop
  · cases hop
  · rfl

theorem compileMethodCall_ok {arity : ℕ} {args : ℕ → Emit ℕ} {callee : SubCompiler}
    (h : compileMethodCall arity args callee d fk = .ok (r, fk', c)) :
    ∃ fk₁ c₁ first fk₂ c₂ last fk₃ c₃ f fk₄ c₄, destinationOrTemporary d fk = .ok (r, fk₁, c₁) ∧
      getTemporary fk₁ = .ok (first, fk₂, c₂) ∧ args first fk₂ = .ok (last, fk₃, c₃) ∧
      callee 0 false (fk₃.freeRegister last) = .ok (f, fk₄, c₄) ∧ fk' = fk₄.freeRegister f ∧
      c = c₁ ++ (c₂ ++ (c₃ ++ (c₄ ++ [⟨.CALL, .num f, .num r, .num arity⟩]))) := by
  unfold compileMethodCall at h
  simp only [bind_ok, pure_ok] at h
  obtain ⟨t, fk₁, c₁, _, h₁, ⟨first, fk₂, c₂, _, h₂, ⟨last, fk₃, c₃, _, h₃, ⟨_, fk₄, c₄, _, h₄,
    ⟨f, fk₅, c₅, _, h₅, ⟨_, fk₆, c₆, _, h₆, ⟨_, fk₇, c₇, _, h₇, ⟨rfl, rfl, rfl⟩, rfl⟩, rfl⟩, rfl⟩,
    rfl⟩, rfl⟩, rfl⟩, rfl⟩ := h
  obtain ⟨rfl, rfl⟩ := freeRegister_ok h₄
  obtain ⟨rfl, rfl⟩ := addInstruction_ok h₆
  obtain ⟨rfl, rfl⟩ := freeRegister_ok h₇
  exact ⟨fk₁, c₁, first, fk₂, c₂, last, fk₃, c₃, f, fk₆, c₅, h₁, h₂, h₃, h₅, rfl, by simp⟩

theorem compileMinus_ok {e : Expr} {sub : SubCompiler} (hsub : ∀ a fk₁ c₁,
    sub 0 false fk = .ok (a, fk₁, c₁) → Ready syms fk₁)
    (h : compilePrefix e sub .minus d fk = .ok (r, fk', c)) :
    ∃ a fk₁ c₁ b fk₂ fk₃, sub 0 false fk = .ok (a, fk₁, c₁) ∧ Destination syms 0 fk₂ b fk₃ [] ∧
      (∀ t, fk₁.InUse t → fk₂.InUse t) ∧ r = (if d = 0 then a else d) ∧
      fk' = fk₃.freeRegister b ∧
      c = c₁ ++ [⟨.MOV_NUMBER, .num b, .str "-1", .num 0⟩, ⟨.MUL, .num a, .num b, .num r⟩] := by
  unfold compilePrefix at h
  simp only [bind_ok, pure_ok] at h
  obtain ⟨a, fk₁, c₁, _, h₁, ⟨target, fk₂, c₂, _, h₂, ⟨_, fk₃, c₃, _, h₃, ⟨b, fk₄, c₄, _, h₄,
    ⟨_, fk₅, c₅, _, h₅, ⟨_, fk₆, c₆, _, h₆, ⟨rfl, rfl, rfl⟩, rfl⟩, rfl⟩, rfl⟩, rfl⟩, rfl⟩, rfl⟩ := h
  have ready₁ := hsub _ _ _ h₁
  have dest := destinationOrTemporary_destination ready₁ h₂
  obtain rfl := dest.silent
  obtain ⟨rfl, rfl⟩ := freeRegisterIf_ok h₃
  obtain ⟨rfl, rfl⟩ := freeRegister_ok h₆
  obtain ⟨rfl, rfl⟩ := addInstruction_ok h₅
  have ready₃ : Ready syms (if d = 0 then fk₂.freeRegister target else fk₂) := by
    split
    · exact dest.ready.freeRegister target
    · exact dest.ready
  obtain ⟨lit, rfl⟩ := compileLiteral_ok ready₃ h₄
  refine ⟨a, fk₁, c₁, b, _, _, h₁, lit, fun t ht => ?_, rfl, rfl, by simp⟩
  unfold destinationOrTemporary at h₂
  split at h₂
  · rename_i h0
    obtain ⟨hne, hin⟩ := dest.other h0 t ht
    rw [if_pos h0]
    exact dest.ready.inUse_freeRegister hin hne
  · rename_i h0
    obtain ⟨_, rfl, _⟩ := pure_ok.mp h₂
    rw [if_neg h0]
    exact ht

end Zeroscript.ExpressionInversion
