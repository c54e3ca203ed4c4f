import Zeroscript.Number
import Zeroscript.PlainExpressions

/-! # What the code of an expression writes

Without a destination, or with a temporary for one, the code of a plain expression writes temporaries
only; a variable that is the destination is the one variable written. -/
namespace Zeroscript.PlainWrites

open Emission ProtectedRegisters ExpressionInversion PlainExpressions

mutual

def simple : Expr → Bool
  | .terminal _ => true
  | .prefixed .minus e => simple e
  | .binary op left right => (toOpcode op).isSome && simple left && simple right
  | .methodCall callee args => simple callee && simpleArguments args
  | _ => false

def simpleArguments : List Expr → Bool
  | [] => true
  | e :: es => simple e && simpleArguments es

end

section

variable {syms : List (String × ℕ)} {fk fk' : FunctionKind} {d r : ℕ} {k : Bool} {c : Code}

/-- No instruction writes the register of a variable. -/
def OnlyTemporaries (syms : List (String × ℕ)) (c : Code) : Prop :=
  ∀ i ∈ c, ∀ t ∈ i.writes, syms.length < t

theorem onlyTemporaries_append {c₁ c₂ : Code} :
    OnlyTemporaries syms (c₁ ++ c₂) ↔ OnlyTemporaries syms c₁ ∧ OnlyTemporaries syms c₂ := by
  simp only [OnlyTemporaries, List.forall_mem_append]

theorem onlyTemporaries_singleton {i : Instruction} :
    OnlyTemporaries syms [i] ↔ ∀ t ∈ i.writes, syms.length < t := by
  simp [OnlyTemporaries]

theorem onlyTemporaries_nil : OnlyTemporaries syms [] := by
  intro i hi
  cases hi

theorem toOpcode_writes {op : BinaryOp} {opcode : Opcode} (hop : toOpcode op = some opcode)
    (a b r : ℕ) : Instruction.writes ⟨opcode, .num a, .num b, .num r⟩ = [r] := by
  cases op <;> cases hop <;> rfl

theorem compileBinary_operands {op : BinaryOp} {opcode : Opcode} {left right : Expr}
    (hop : toOpcode op = some opcode) :
    compileExpression (.binary op left right) d k =
      compileOperands op (fun d k => compileExpression left d k)
        (fun d k => compileExpression right d k) d := by
  rw [compileExpression]
  unfold compileBinary
  split
  · cases hop
  · cases hop
  · cases hop
  · cases hop
  · rfl

theorem compileIdentifier_onlyTemporaries {x : String} (hfk : Ready syms fk)
    (h : compileIdentifier x 0 fk = .ok (r, fk', c)) :
    Ready syms fk' ∧ OnlyTemporaries syms c := by
  rcases compileIdentifier_ok hfk h with ⟨-, -, rfl, rfl⟩ | ⟨-, ht, ready, key, hkey, rfl⟩
  · exact ⟨hfk, onlyTemporaries_nil⟩
  · exact ⟨ready, by simp [OnlyTemporaries, Instruction.writes, ht, hkey]⟩

theorem requested_written (hv : SymbolsValid syms) {e : Expr} (hs : simple e = true)
    (hfk : Ready syms fk) (hd : d ≠ 0) (hlocal : localReg (symbolsOf syms) e = none)
    (h : compileExpression e d false fk = .ok (r, fk', c)) : r = d ∧ ∃ i ∈ c, d ∈ i.writes := by
  cases e with
  | terminal t =>
    rw [compileExpression] at h
    cases t with
    | identifier x =>
      rcases compileIdentifierImmediate_ok hfk h with ⟨hx, -⟩ | ⟨-, dest, rfl⟩
      · simp [localReg, hx] at hlocal
      · obtain rfl := dest.requested hd
        exact ⟨rfl, _, List.mem_cons_self, by simp [Instruction.writes]⟩
    | number s | string s =>
      obtain ⟨dest, rfl⟩ := compileLiteral_ok hfk h
      obtain rfl := dest.requested hd
      exact ⟨rfl, _, List.mem_cons_self, by simp [Instruction.writes]⟩
  | prefixed op e =>
    cases op with
    | minus =>
      rw [compileExpression] at h
      obtain ⟨a, fk₁, c₁, b, fk₂, fk₃, -, -, -, hr, -, rfl⟩ :=
        compileMinus_ok (fun _ _ _ => compileExpression_ready hv hfk) h
      rw [if_neg hd] at hr
      subst hr
      exact ⟨rfl, ⟨.MUL, .num a, .num b, .num r⟩, by simp, by simp [Instruction.writes]⟩
    | plus | increment | decrement | tilde | bang | throwing => cases hs
  | binary op left right =>
    rw [simple, Bool.and_eq_true, Bool.and_eq_true] at hs
    obtain ⟨opcode, hop⟩ := Option.isSome_iff_exists.mp hs.1.1
    rw [compileBinary_operands hop] at h
    obtain ⟨a, fk₁, c₁, b, fk₂, c₂, fk₃, c₃, -, -, h₃, rfl, rfl⟩ := compileOperands_ok hop h
    obtain ⟨rfl, -, -⟩ := destinationOrTemporary_requested hd h₃
    refine ⟨rfl, ⟨opcode, .num a, .num b, .num r⟩, by simp, ?_⟩
    rw [toOpcode_writes hop]
    exact List.mem_cons_self
  | methodCall callee args =>
    rw [compileExpression] at h
    obtain ⟨fk₁, c₁, first, fk₂, c₂, last, fk₃, c₃, g, fk₄, c₄, h₁, -, -, -, -, rfl⟩ :=
      compileMethodCall_ok h
    obtain ⟨rfl, -, -⟩ := destinationOrTemporary_requested hd h₁
    exact ⟨rfl, ⟨.CALL, .num g, .num r, .num args.length⟩, by simp, by simp [Instruction.writes]⟩
  | postfixed e op | empty => cases hs

/-- Code compiled for a temporary, or without a destination, writes temporaries only, just when the
expression is plain. -/
def WritesTemporaries (syms : List (String × ℕ)) (e : Expr) : Prop :=
  ∀ d k fk r fk' c, Ready syms fk → (d = 0 ∨ syms.length < d) → (k = true → d = 0) →
    compileExpression e d k fk = .ok (r, fk', c) →
    (OnlyTemporaries syms c ↔ plain (symbolsOf syms) (decide (d ≠ 0)) e = true)

theorem destination_temporary {fk₁ fk₂ : FunctionKind} {c₁ : Code}
    (hd : d = 0 ∨ syms.length < d) (h : Destination syms d fk₁ r fk₂ c₁) : syms.length < r := by
  rcases hd with h0 | hd
  · exact (h.temporary h0).1
  · have hr := h.requested (by omega)
    omega

theorem terminal_writes {t : Terminal} : WritesTemporaries syms (.terminal t) := by
  intro d k fk r fk' c hfk hd hk h
  rw [compileExpression] at h
  refine iff_of_true ?_ rfl
  have himmediate : ∀ {x fk₀ c₀}, Ready syms fk₀ →
      compileIdentifierImmediate x d fk₀ = .ok (r, fk', c₀) → OnlyTemporaries syms c₀ := by
    intro x fk₀ c₀ ready h₀
    rcases compileIdentifierImmediate_ok ready h₀ with ⟨-, -, -, rfl⟩ | ⟨-, dest, rfl⟩
    · exact onlyTemporaries_nil
    · exact onlyTemporaries_singleton.mpr
        (by simpa [Instruction.writes] using destination_temporary hd dest)
  cases t with
  | identifier x =>
    cases k with
    | false => exact himmediate hfk h
    | true =>
      obtain rfl := hk rfl
      obtain ⟨t, fk₁, c₁, c₂, h₁, h₂, rfl⟩ := bind_ok.mp h
      obtain ⟨ready, honly⟩ := compileIdentifier_onlyTemporaries hfk h₁
      exact onlyTemporaries_append.mpr ⟨honly, himmediate ready h₂⟩
  | number s | string s =>
    obtain ⟨dest, rfl⟩ := compileLiteral_ok hfk h
    exact onlyTemporaries_singleton.mpr
      (by simpa [Instruction.writes] using destination_temporary hd dest)

theorem minus_writes (hv : SymbolsValid syms) {e : Expr} (he : WritesTemporaries syms e) :
    WritesTemporaries syms (.prefixed .minus e) := by
  intro d k fk r fk' c hfk hd _ h
  rw [compileExpression] at h
  obtain ⟨a, fk₁, c₁, b, fk₂, fk₃, h₁, lit, -, hr, -, rfl⟩ :=
    compileMinus_ok (fun _ _ _ => compileExpression_ready hv hfk) h
  have hb := (lit.temporary rfl).1
  have hsub := he 0 false fk a fk₁ c₁ hfk (Or.inl rfl) (by simp) h₁
  rw [onlyTemporaries_append, hsub, plain, Bool.and_eq_true]
  simp only [OnlyTemporaries, List.mem_cons, List.not_mem_nil, or_false, forall_eq_or_imp, forall_eq,
    Instruction.writes, Operand.reg, hb, true_and, Bool.or_eq_true, decide_eq_true_eq,
    Bool.not_eq_true', ne_eq, not_true_eq_false, decide_false]
  rw [and_comm]
  refine and_congr_left fun hplain => ?_
  rcases hd with rfl | hd
  · -- Without a destination the product goes to the operand's own register.
    rw [if_pos rfl] at hr
    subst hr
    have hp := (@plain_correct ℚ Unit _ quiet _ hv false e hplain 0 false fk r fk₁ c₁ hfk (by simp)
      (by simp) h₁).1
    simp only [not_true_eq_false, false_or, isLocal]
    cases hl : localReg (symbolsOf syms) e with
    | some x =>
      have hx := localReg_bound hv hl
      have hr := hp.named x hl
      simp only [Option.isSome_some, Bool.true_eq_false, iff_false]
      omega
    | none => simpa using (hp.temporary hl (Or.inl rfl)).1
  · have h0 : d ≠ 0 := by omega
    rw [if_neg h0] at hr
    subst hr
    simp [h0, hd]

theorem operands_writes (hv : SymbolsValid syms) {op : BinaryOp} {left right : Expr}
    (hop : (toOpcode op).isSome) (hl : WritesTemporaries syms left)
    (hr : WritesTemporaries syms right) : WritesTemporaries syms (.binary op left right) := by
  intro d k fk r fk' c hfk hd _ h
  obtain ⟨opcode, hopcode⟩ := Option.isSome_iff_exists.mp hop
  rw [compileBinary_operands hopcode] at h
  obtain ⟨a, fk₁, c₁, b, fk₂, c₂, fk₃, c₃, h₁, h₂, h₃, rfl, rfl⟩ := compileOperands_ok hopcode h
  have ready₁ := compileExpression_ready hv hfk h₁
  have dest := destinationOrTemporary_destination (compileExpression_ready hv ready₁ h₂) h₃
  obtain rfl := dest.silent
  have hleft := hl 0 false fk a fk₁ c₁ hfk (Or.inl rfl) (by simp) h₁
  have hright := hr 0 _ fk₁ b fk₂ c₂ ready₁ (Or.inl rfl) (by simp) h₂
  have hresult := destination_temporary hd dest
  rw [onlyTemporaries_append, onlyTemporaries_append, hleft, hright, List.nil_append,
    onlyTemporaries_singleton, toOpcode_writes hopcode, plain, hasResult, hop]
  simp [hresult]

def WritesArguments (syms : List (String × ℕ)) (es : List Expr) : Prop :=
  ∀ t fk r fk' c, Ready syms fk → syms.length < t → compileArguments es t fk = .ok (r, fk', c) →
    (OnlyTemporaries syms c ↔
      variablesFirst (symbolsOf syms) es = true ∧ plainArguments (symbolsOf syms) es = true)

theorem compileArguments_ready (hv : SymbolsValid syms) {es : List Expr} {t : ℕ}
    (hfk : Ready syms fk) (h : compileArguments es t fk = .ok (r, fk', c)) : Ready syms fk' :=
  (compileArguments_spares hv ⟨id, id⟩ es t id fk r fk' c hfk h).1

theorem variablesFirst_cons {reg : Symbols} {e : Expr} {es : List Expr} :
    variablesFirst reg (e :: es) = true ↔
      ((es.head?.bind (localReg reg)).isSome = true → isLocal reg e = true) ∧
        variablesFirst reg es = true := by
  cases es with
  | nil => simp [variablesFirst]
  | cons e' es =>
    simp only [variablesFirst, Bool.and_eq_true, Bool.or_eq_true, Bool.not_eq_true',
      List.head?_cons, Option.bind_some]
    cases h : localReg reg e' <;> simp [isLocal, h]

theorem plain_weaken {reg : Symbols} {e : Expr} (hs : simple e = true)
    (h : plain reg false e = true) : plain reg true e = true := by
  cases e with
  | prefixed op e =>
    cases op with
    | minus =>
      rw [plain, Bool.and_eq_true] at h ⊢
      exact ⟨rfl, h.2⟩
    | plus | increment | decrement | tilde | bang | throwing => cases hs
  | binary op left right =>
    rw [simple, Bool.and_eq_true, Bool.and_eq_true] at hs
    rw [plain, hasResult, hs.1.1, Bool.true_or, Bool.true_and] at h ⊢
    exact h
  | terminal t => rfl
  | methodCall callee args =>
    rw [plain] at h ⊢
    exact h
  | postfixed e op | empty => cases hs

theorem nil_writes : WritesArguments syms [] := by
  intro t fk r fk' c _ _ h
  rw [compileArguments] at h
  obtain ⟨-, -, rfl⟩ := pure_ok.mp h
  exact iff_of_true onlyTemporaries_nil ⟨rfl, rfl⟩

theorem cons_writes (hv : SymbolsValid syms) {e : Expr} {es : List Expr} (hs : simple e = true)
    (he : WritesTemporaries syms e) (hes : WritesArguments syms es) :
    WritesArguments syms (e :: es) := by
  intro t fk r fk' c hfk ht h
  rw [compileArguments] at h
  simp only [bind_ok, pure_ok] at h
  obtain ⟨later, fk₁, c₁, _, h₁, ⟨reg, fk₂, c₂, _, h₂, ⟨_, fk₃, c₃, _, h₃, ⟨rfl, rfl, rfl⟩, rfl⟩,
    rfl⟩, rfl⟩ := h
  obtain ⟨rfl, rfl⟩ := addInstruction_ok h₃
  have ready₁ := compileArguments_ready hv hfk h₁
  have hpush : OnlyTemporaries syms [⟨.PUSH, .num reg, .num 0, .num 0⟩] := by
    simp [OnlyTemporaries, Instruction.writes]
  have hargument : (plain (symbolsOf syms) true e || plain (symbolsOf syms) false e) =
      plain (symbolsOf syms) true e := by
    cases hp : plain (symbolsOf syms) true e with
    | true => rfl
    | false =>
      have hf : ¬ plain (symbolsOf syms) false e = true := fun h => by simp [plain_weaken hs h] at hp
      simpa using hf
  rw [onlyTemporaries_append, hes t fk later fk₁ c₁ hfk ht h₁, onlyTemporaries_append,
    variablesFirst_cons, plainArguments, hargument, Bool.and_eq_true]
  simp only [List.append_nil, hpush, and_true]
  suffices hkey : variablesFirst (symbolsOf syms) es = true →
      plainArguments (symbolsOf syms) es = true →
      (OnlyTemporaries syms c₂ ↔
        ((es.head?.bind (localReg (symbolsOf syms))).isSome = true →
          isLocal (symbolsOf syms) e = true) ∧ plain (symbolsOf syms) true e = true) by
    tauto
  intro hfirst hplain
  obtain ⟨-, hnamed, htemporary, -⟩ := @plainArguments_correct ℚ Unit _ quiet _ hv es hfirst hplain t
    fk later fk₁ c₁ hfk ht h₁
  cases hl : localReg (symbolsOf syms) e with
  | some x =>
    -- A variable emits nothing, whatever destination is requested.
    unfold localReg at hl
    split at hl
    · rename_i y
      split at hl
      · cases hl
      · rename_i hy
        rw [compileExpression] at h₂
        rcases compileIdentifierImmediate_ok ready₁ h₂ with ⟨-, -, -, rfl⟩ | ⟨h0, -⟩
        · exact iff_of_true onlyTemporaries_nil ⟨fun _ => by simp [isLocal, localReg, hy], rfl⟩
        · exact absurd h0 hy
    · cases hl
  | none =>
    cases hh : es.head?.bind (localReg (symbolsOf syms)) with
    | some y =>
      -- The destination is the register of the variable that follows.
      obtain ⟨e', -, hl'⟩ := Option.bind_eq_some_iff.mp hh
      have hy := localReg_bound hv hl'
      have hlater := hnamed y hh
      obtain ⟨-, i, hi, hw⟩ := requested_written hv hs ready₁ (by omega) hl h₂
      refine iff_of_false (fun honly => ?_) fun hboth => ?_
      · have := honly i hi later hw
        omega
      · simp [isLocal, hl] at hboth
    | none =>
      have hlater := htemporary hh
      have h0 : later ≠ 0 := by omega
      have hsub := he later false fk₁ reg _ c₂ ready₁ (Or.inr hlater) (by simp) h₂
      simpa [h0] using hsub

theorem methodCall_writes (hv : SymbolsValid syms) {callee : Expr} {args : List Expr}
    (hc : WritesTemporaries syms callee) (hargs : WritesArguments syms args) :
    WritesTemporaries syms (.methodCall callee args) := by
  intro d k fk r fk' c hfk hd _ h
  rw [compileExpression] at h
  obtain ⟨fk₁, c₁, first, fk₂, c₂, last, fk₃, c₃, g, fk₄, c₄, h₁, h₂, h₃, h₄, -, rfl⟩ :=
    compileMethodCall_ok h
  have result := destinationOrTemporary_destination hfk h₁
  have temp := getTemporary_destination result.ready h₂
  obtain rfl := result.silent
  obtain rfl := temp.silent
  have ready₃ := (compileArguments_ready hv temp.ready h₃).freeRegister last
  have hleft := hargs first fk₂ last fk₃ c₃ temp.ready (temp.temporary rfl).1 h₃
  have hright := hc 0 false _ g fk₄ c₄ ready₃ (Or.inl rfl) (by simp) h₄
  have hcall : OnlyTemporaries syms [⟨.CALL, .num g, .num r, .num args.length⟩] :=
    onlyTemporaries_singleton.mpr
      (by simpa [Instruction.writes] using destination_temporary hd result)
  rw [List.nil_append, List.nil_append, onlyTemporaries_append, onlyTemporaries_append, hleft, hright,
    plain, Bool.and_eq_true, Bool.and_eq_true]
  simp only [hcall, and_true, ne_eq, not_true_eq_false, decide_false]
  tauto

mutual

theorem simple_writes (hv : SymbolsValid syms) :
    ∀ e : Expr, simple e = true → WritesTemporaries syms e
  | .terminal _, _ => terminal_writes
  | .prefixed .minus e, hs => by
    rw [simple] at hs
    exact minus_writes hv (simple_writes hv e hs)
  | .binary op left right, hs => by
    rw [simple, Bool.and_eq_true, Bool.and_eq_true] at hs
    exact operands_writes hv hs.1.1 (simple_writes hv left hs.1.2) (simple_writes hv right hs.2)
  | .methodCall callee args, hs => by
    rw [simple, Bool.and_eq_true] at hs
    exact methodCall_writes hv (simple_writes hv callee hs.1) (simpleArguments_writes hv args hs.2)
  | .prefixed .plus _, hs | .prefixed .increment _, hs | .prefixed .decrement _, hs
  | .prefixed .tilde _, hs | .prefixed .bang _, hs | .prefixed .throwing _, hs
  | .postfixed _ _, hs | .empty, hs => by
    rw [simple] at hs
    · cases hs
    all_goals simp

theorem simpleArguments_writes (hv : SymbolsValid syms) :
    ∀ es : List Expr, simpleArguments es = true → WritesArguments syms es
  | [], _ => nil_writes
  | e :: es, hs => by
    rw [simpleArguments, Bool.and_eq_true] at hs
    exact cons_writes hv hs.1 (simple_writes hv e hs.1) (simpleArguments_writes hv es hs.2)

end

end

end Zeroscript.PlainWrites
