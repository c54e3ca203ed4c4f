import Zeroscript.ExpressionInversion

/-! # Plain expressions are compiled correctly

An expression is plain when every register its compiler hands on is either the register of a local
variable or a temporary that nothing else uses: no increment and no assignment to a variable stands
inside it, a negated local variable is given a destination, and in every argument list the local
variables come first. Its code computes what the expression means. -/
namespace Zeroscript.PlainExpressions

open Emission ProtectedRegisters ExpressionInversion

def isLocal (reg : Symbols) (e : Expr) : Bool := (localReg reg e).isSome

/-- Before an argument that is a local variable stand only local variables. -/
def variablesFirst (reg : Symbols) : List Expr → Bool
  | [] => true
  | [_] => true
  | e :: e' :: es => (isLocal reg e || !isLocal reg e') && variablesFirst reg (e' :: es)

def isAssignment : Expr → Bool
  | .binary .assign _ _ => true
  | _ => false

def isAccess : Expr → Bool
  | .binary .dot _ _ => true
  | _ => false

/-- An operator with an instruction of its own; or a write to a field, whose value stays where the
right-hand side left it, whatever destination is requested. -/
def hasResult (reg : Symbols) (requested : Bool) (op : BinaryOp) (left right : Expr) : Bool :=
  (toOpcode op).isSome || op == .assign && !requested && isAccess left && !isLocal reg right

mutual

/-- The flag says that the value is wanted in a given destination. -/
def plain (reg : Symbols) : Bool → Expr → Bool
  | _, .terminal _ => true
  | requested, .prefixed .minus e => (requested || !isLocal reg e) && plain reg false e
  | requested, .binary op left right =>
    hasResult reg requested op left right && plain reg false left && plain reg false right
  | _, .methodCall callee args =>
    plain reg false callee && variablesFirst reg args && plainArguments reg args
  | _, _ => false

def plainArguments (reg : Symbols) : List Expr → Bool
  | [] => true
  | e :: es => (plain reg true e || plain reg false e) && plainArguments reg es

end

section

variable {α ω : Type} [NumOps α] {env : Environment α ω} {n : ℕ}

def deliver (n r : ℕ) (v : Reg α) (st : Store α ω) : Store α ω :=
  if 1 ≤ r ∧ r ≤ n then st.set r v else st

theorem store_update (f : Frame α ω) (r : ℕ) (v : Reg α) :
    ({ f with regs := Function.update f.regs r v } : Frame α ω).store n =
      deliver n r v (f.store n) := by
  unfold deliver Frame.store Store.set
  by_cases hr : 1 ≤ r ∧ r ≤ n
  · rw [if_pos hr]
    congr 1
    funext t
    by_cases ht : t = r
    · subst ht
      simp [named, hr]
    · simp [named, Function.update_of_ne ht]
  · rw [if_neg hr]
    congr 1
    funext t
    by_cases ht : 1 ≤ t ∧ t ≤ n
    · have hne : t ≠ r := fun he => hr (he ▸ ht)
      simp [named, ht, Function.update_of_ne hne]
    · simp [named, ht]

omit [NumOps α] in
theorem deliver_temporary {r : ℕ} (hr : n < r) (v : Reg α) (st : Store α ω) :
    deliver n r v st = st := by
  unfold deliver
  exact if_neg (by omega)

theorem store_vars (f : Frame α ω) {r : ℕ} (hr : 1 ≤ r ∧ r ≤ n) : (f.store n).vars r = f.regs r := by
  simp [Frame.store, named, hr]

theorem receive_store {f : Frame α ω} {vars : Regs α} {stack : List (Reg α)} {world : ω}
    {control : Control} :
    (f.receive n none ⟨vars, stack, world, none, control⟩).store n =
      ⟨named n vars, stack, world⟩ := by
  unfold Frame.receive Frame.store
  congr 1
  funext t
  by_cases ht : 1 ≤ t ∧ t ≤ n <;> simp [named, ht]

omit [NumOps α] in
theorem receive_none {f : Frame α ω} {d : Option ℕ} {reply : Reply α ω}
    (h : d = none ∨ reply.value = none) :
    f.receive n d reply = f.receive n none ⟨reply.vars, reply.stack, reply.world, none, reply.control⟩ := by
  unfold Frame.receive
  rcases h with rfl | h
  · rfl
  · rw [h]
    cases d <;> rfl

omit [NumOps α] in
theorem receive_some {f : Frame α ω} {r : ℕ} {v : Reg α} {vars : Regs α} {stack : List (Reg α)}
    {world : ω} {control : Control} :
    f.receive n (some r) ⟨vars, stack, world, some v, control⟩ =
      let g := f.receive n none ⟨vars, stack, world, none, control⟩
      { g with regs := Function.update g.regs r v } := rfl

theorem exec_ask {i : Instruction} {f : Frame α ω} {q : Request α} {r : ℕ} {v : Reg α}
    {st : Store α ω} (hlocal : execLocal i f.regs = none) (hpush : i.opcode ≠ .PUSH)
    (hreq : i.request f.regs = (q, some r)) (h : (f.store n).ask env n q = some (v, st)) :
    ∃ f', exec env n i f = some (f', .next) ∧ f'.regs r = v ∧ f'.store n = deliver n r v st := by
  unfold Store.ask at h
  split at h
  · rename_i ha
    cases h
    refine ⟨_, by rw [exec_request hlocal hpush hreq, ha]; rfl, ?_, ?_⟩
    · simp [receive_some]
    · rw [receive_some, store_update, receive_store]
  · cases h

theorem exec_tell {i : Instruction} {f : Frame α ω} {q : Request α} {d : Option ℕ}
    {st : Store α ω} (hlocal : execLocal i f.regs = none) (hpush : i.opcode ≠ .PUSH)
    (hreq : i.request f.regs = (q, d)) (hd : ∀ r, d = some r → n < r)
    (h : (f.store n).tell env n q = some st) :
    ∃ f', exec env n i f = some (f', .next) ∧ f'.store n = st := by
  unfold Store.tell at h
  split at h
  · rename_i vars stack world value ha
    cases h
    refine ⟨_, by rw [exec_request hlocal hpush hreq, ha]; rfl, ?_⟩
    match d, value with
    | none, _ => rw [receive_none (Or.inl rfl), receive_store]
    | some r, none => rw [receive_none (Or.inr rfl), receive_store]
    | some r, some v =>
      rw [receive_some, store_update, receive_store, deliver_temporary (hd r rfl)]
  · cases h

theorem exec_arithmetic {op : BinaryOp} {opcode : Opcode} {f : Frame α ω} {a b r : ℕ} {w : Reg α}
    (hop : toOpcode op = some opcode) (hdot : op ≠ .dot)
    (hw : arithmetic opcode (f.regs a) (f.regs b) = some w) :
    exec env n ⟨opcode, .num a, .num b, .num r⟩ f =
      some ({ f with regs := Function.update f.regs r w }, .next) := by
  cases op <;> cases hop <;>
    first
    | exact absurd rfl hdot
    | simp [exec, execLocal, Opcode.jumpRel, Opcode.immediateRel, hw]

theorem applyBinary_arithmetic {op : BinaryOp} {opcode : Opcode} {onThis : Bool} {a b : Reg α}
    {st : Store α ω} (hop : toOpcode op = some opcode) (hdot : op ≠ .dot) (hadd : op ≠ .add) :
    applyBinary env n op onThis a b st = (arithmetic opcode a b).map (·, st) := by
  cases op <;> cases hop <;>
    first
    | exact absurd rfl hdot
    | exact absurd rfl hadd
    | rfl

theorem exec_operation {op : BinaryOp} {opcode : Opcode} {f : Frame α ω} {a b r : ℕ} {v : Reg α}
    {st : Store α ω} (hop : toOpcode op = some opcode)
    (h : applyBinary env n op (a == 1) (f.regs a) (f.regs b) (f.store n) = some (v, st)) :
    ∃ f', exec env n ⟨opcode, .num a, .num b, .num r⟩ f = some (f', .next) ∧ f'.regs r = v ∧
      f'.store n = deliver n r v st := by
  by_cases hdot : op = .dot
  · subst hdot
    cases hop
    exact exec_ask rfl (by simp) rfl h
  by_cases hadd : op = .add
  · subst hadd
    cases hop
    simp only [applyBinary] at h
    split at h
    · rename_i w hw
      cases h
      exact ⟨_, exec_arithmetic rfl hdot hw, by simp, store_update f r _⟩
    · rename_i hw
      refine exec_ask ?_ (by simp) rfl h
      simp [execLocal, Opcode.jumpRel, Opcode.immediateRel, hw]
  rw [applyBinary_arithmetic hop hdot hadd] at h
  obtain ⟨w, hw, hv⟩ := Option.map_eq_some_iff.mp h
  cases hv
  exact ⟨_, exec_arithmetic hop hdot hw, by simp, store_update f r _⟩

end

section

variable {α ω : Type} [NumOps α] {env : Environment α ω} {syms : List (String × ℕ)}

structure Placed (syms : List (String × ℕ)) (e : Expr) (d r : ℕ) (fk' : FunctionKind) : Prop where
  ready : Ready syms fk'
  named : ∀ x, localReg (symbolsOf syms) e = some x → r = x
  requested : localReg (symbolsOf syms) e = none → isAssignment e = false → d ≠ 0 → r = d
  temporary : localReg (symbolsOf syms) e = none → d = 0 ∨ isAssignment e = true →
    syms.length < r ∧ fk'.InUse r

theorem placed_of_destination {e : Expr} {d r : ℕ} {fk fk' : FunctionKind} {c : Code}
    (h : Destination syms d fk r fk' c) (hlocal : localReg (symbolsOf syms) e = none)
    (hassign : isAssignment e = false) : Placed syms e d r fk' := by
  refine ⟨h.ready, fun x hx => absurd (hlocal.symm.trans hx) (by simp), fun _ _ => h.requested,
    fun _ h0 => h.temporary ?_⟩
  exact h0.resolve_right (by simp [hassign])

/-- The result of running code that computes `e`: the value is in register `r`, and the store is
the one that the evaluation leaves, with the value delivered unless `e` is itself a variable. -/
structure Computed (n : ℕ) (reg : Symbols) (e : Expr) (r : ℕ) (v : Reg α) (st : Store α ω)
    (f' : Frame α ω) : Prop where
  value : f'.regs r = operandValue reg e v st
  store : f'.store n = if isLocal reg e then st else deliver n r v st

def prepare (env : Environment α ω) (n : ℕ) (reg : Symbols) (k : Bool) (e : Expr)
    (st : Store α ω) : Option (Store α ω) :=
  if k then beforeIndex env n reg e st else some st

/-- The sub-compiler of `e` is correct for every destination; the flag as in `plain`. -/
def Correct (env : Environment α ω) (syms : List (String × ℕ)) (flag : Bool) (e : Expr) : Prop :=
  ∀ d k fk r fk' c, Ready syms fk → (flag = true → d ≠ 0) → (k = true → d = 0) →
    compileExpression e d k fk = .ok (r, fk', c) →
    Placed syms e d r fk' ∧
      ∀ (f : Frame α ω) st₀ v st,
        prepare env syms.length (symbolsOf syms) k e (f.store syms.length) = some st₀ →
        eval env syms.length (symbolsOf syms) e st₀ = some (v, st) →
        ∃ f', execAll env syms.length c f = some f' ∧
          Computed syms.length (symbolsOf syms) e r v st f'

theorem execAll_singleton {n : ℕ} {i : Instruction} {f f' : Frame α ω}
    (h : exec env n i f = some (f', .next)) : execAll env n [i] f = some f' := by
  rw [execAll, h]
  rfl

theorem execAll_append_some {n : ℕ} {c₁ c₂ : Code} {f f₁ : Frame α ω}
    (h : execAll env n c₁ f = some f₁) : execAll env n (c₁ ++ c₂) f = execAll env n c₂ f₁ := by
  rw [execAll_append, h]
  rfl

theorem computed_of_nonlocal {n : ℕ} {reg : Symbols} {e : Expr} {r : ℕ} {v : Reg α}
    {st : Store α ω} {f' : Frame α ω} (he : localReg reg e = none)
    (hv : f'.regs r = v) (hst : f'.store n = deliver n r v st) : Computed n reg e r v st f' := by
  refine ⟨?_, ?_⟩
  · rw [operandValue, he]
    exact hv
  · rw [isLocal, he]
    exact hst

/-- An operand compiled without a destination leaves the store of the evaluation behind. -/
theorem Computed.store_operand {e : Expr} {r : ℕ} {fk' : FunctionKind} {v : Reg α}
    {st : Store α ω} {f' : Frame α ω}
    (h : Computed syms.length (symbolsOf syms) e r v st f') (hp : Placed syms e 0 r fk') :
    f'.store syms.length = st := by
  rw [h.store, isLocal]
  cases hl : localReg (symbolsOf syms) e with
  | some x => rfl
  | none => exact deliver_temporary (hp.temporary hl (Or.inl rfl)).1 v st

theorem localReg_bound (hv : SymbolsValid syms) {e : Expr} {x : ℕ}
    (h : localReg (symbolsOf syms) e = some x) : 1 ≤ x ∧ x ≤ syms.length := by
  unfold localReg at h
  split at h
  · rename_i y
    split at h
    · cases h
    · cases h
      unfold symbolsOf at *
      cases hl : syms.lookup y with
      | none => simp_all
      | some r => simpa using hv.bound y r hl
  · cases h

theorem operand_kept (hv : SymbolsValid syms) {e : Expr} {a : ℕ} {fk : FunctionKind}
    {v : Reg α} {st st' : Store α ω} {c : Code} {f f' : Frame α ω}
    (hp : Placed syms e 0 a fk) (hc : Computed syms.length (symbolsOf syms) e a v st f)
    (hrun : execAll env syms.length c f = some f') (hst : f'.store syms.length = st')
    (havoid : fk.InUse a → ∀ i ∈ c, Avoids (· = a) i) :
    f'.regs a = operandValue (symbolsOf syms) e v st' := by
  unfold operandValue
  cases hl : localReg (symbolsOf syms) e with
  | some x =>
    obtain rfl := hp.named x hl
    exact hst ▸ (store_vars f' (localReg_bound hv hl)).symm
  | none =>
    obtain ⟨habove, hin⟩ := hp.temporary hl (Or.inl rfl)
    have hkept := execAll_unwritten hrun habove fun i hi hw =>
      havoid hin i hi a (List.mem_append_right _ hw) rfl
    rw [hkept, hc.value, operandValue, hl]

theorem onThis_eq (hv : SymbolsValid syms) {e : Expr} {a : ℕ} {fk : FunctionKind}
    (hp : Placed syms e 0 a fk) : (a == 1) = (localReg (symbolsOf syms) e == some 1) := by
  cases hl : localReg (symbolsOf syms) e with
  | some x =>
    obtain rfl := hp.named x hl
    rfl
  | none =>
    have := (hp.temporary hl (Or.inl rfl)).1
    have := hv.nonempty
    have hne : a ≠ 1 := by omega
    simp [hne]

theorem symbolsOf_nonlocal {x : String} (h0 : symbolsOf syms x = 0) :
    localReg (symbolsOf syms) (.ident x) = none := by
  simp [localReg, h0]

theorem literal_correct {opcode : Opcode} {data : String} {e : Expr} {flag : Bool}
    (hlocal : localReg (symbolsOf syms) e = none) (hassign : isAssignment e = false)
    (hcompile : ∀ d k, compileExpression e d k = compileLiteral opcode data d)
    (hprepare : ∀ k st, prepare env syms.length (symbolsOf syms) k e st = some st)
    (heval : ∀ (f : Frame α ω) r v st,
      eval env syms.length (symbolsOf syms) e (f.store syms.length) = some (v, st) →
      ∃ f', exec env syms.length ⟨opcode, .num r, .str data, .num 0⟩ f = some (f', .next) ∧
        f'.regs r = v ∧ f'.store syms.length = deliver syms.length r v st) :
    Correct env syms flag e := by
  intro d k fk r fk' c hfk _ _ hrun
  rw [hcompile] at hrun
  obtain ⟨dest, rfl⟩ := compileLiteral_ok hfk hrun
  refine ⟨placed_of_destination dest hlocal hassign, fun f st₀ v st hprep hev => ?_⟩
  obtain rfl := Option.some.inj ((hprepare k _).symm.trans hprep)
  obtain ⟨f', hex, hval, hst⟩ := heval f r v st hev
  exact ⟨f', execAll_singleton hex, computed_of_nonlocal hlocal hval hst⟩

theorem number_correct {flag : Bool} {data : String} : Correct env syms flag (.num data) := by
  refine literal_correct rfl rfl (fun d k => by rw [compileExpression]; rfl)
    (fun k st => by cases k <;> rfl) fun f r v st hev => ?_
  rw [eval] at hev
  cases hev
  exact ⟨_, rfl, by simp, store_update f r _⟩

theorem string_correct {flag : Bool} {data : String} : Correct env syms flag (.str data) := by
  refine literal_correct rfl rfl (fun d k => by rw [compileExpression]; rfl)
    (fun k st => by cases k <;> rfl) fun f r v st hev => ?_
  rw [eval] at hev
  exact exec_ask rfl (by simp) rfl hev

theorem identifierImmediate_correct (hv : SymbolsValid syms) {x : String} {d r : ℕ}
    {fk fk' : FunctionKind} {c : Code} (hfk : Ready syms fk)
    (hrun : compileIdentifierImmediate x d fk = .ok (r, fk', c)) :
    Placed syms (.ident x) d r fk' ∧
      ∀ (f : Frame α ω) v st,
        eval env syms.length (symbolsOf syms) (.ident x) (f.store syms.length) = some (v, st) →
        ∃ f', execAll env syms.length c f = some f' ∧
          Computed syms.length (symbolsOf syms) (.ident x) r v st f' := by
  rcases compileIdentifierImmediate_ok hfk hrun with ⟨hx, rfl, rfl, rfl⟩ | ⟨h0, dest, rfl⟩
  · have hl : localReg (symbolsOf syms) (.ident x) = some (symbolsOf syms x) := by
      simp [localReg, hx]
    refine ⟨⟨hfk, fun y hy => Option.some.inj (hl.symm.trans hy), fun hn => ?_, fun hn => ?_⟩,
      fun f v st hev => ⟨f, rfl, ?_, ?_⟩⟩
    · rw [hl] at hn
      cases hn
    · rw [hl] at hn
      cases hn
    · rw [eval, if_neg hx] at hev
      cases hev
      rw [operandValue, hl]
      exact (store_vars f (localReg_bound hv hl)).symm
    · rw [eval, if_neg hx] at hev
      cases hev
      rw [isLocal, hl]
      rfl
  · refine ⟨placed_of_destination dest (symbolsOf_nonlocal h0) rfl, fun f v st hev => ?_⟩
    rw [eval, if_pos h0, store_vars f ⟨Nat.le_refl 1, hv.nonempty⟩] at hev
    obtain ⟨f', hex, hval, hst⟩ := @exec_ask _ _ _ env syms.length
      ⟨.GET_FIELD_IMMEDIATE, .num 1, .str x, .num r⟩ f _ r v st rfl (by simp) rfl hev
    exact ⟨f', execAll_singleton hex, computed_of_nonlocal (symbolsOf_nonlocal h0) hval hst⟩

theorem identifier_correct (hv : SymbolsValid syms) {flag : Bool} {x : String} :
    Correct env syms flag (.ident x) := by
  intro d k fk r fk' c hfk _ hk hrun
  rw [compileExpression, compileTerminal] at hrun
  cases k with
  | false =>
    obtain ⟨hp, hd⟩ := @identifierImmediate_correct _ _ _ env _ hv _ _ _ _ _ _ hfk hrun
    refine ⟨hp, fun f st₀ v st hprep hev => ?_⟩
    cases hprep
    exact hd f v st hev
  | true =>
    obtain rfl := hk rfl
    obtain ⟨t, fk₁, c₁, c₂, h₁, h₂, rfl⟩ := bind_ok.mp hrun
    rcases compileIdentifier_ok hfk h₁ with ⟨hx, _, rfl, rfl⟩ | ⟨h0, ht, ready, key, hkey, rfl⟩
    · obtain ⟨hp, hd⟩ := @identifierImmediate_correct _ _ _ env _ hv _ _ _ _ _ _ hfk h₂
      refine ⟨hp, fun f st₀ v st hprep hev => ?_⟩
      simp only [prepare, beforeIndex, if_neg hx, ↓reduceIte] at hprep
      cases hprep
      exact hd f v st hev
    · obtain ⟨hp, hd⟩ := @identifierImmediate_correct _ _ _ env _ hv _ _ _ _ _ _ ready h₂
      refine ⟨hp, fun f st₀ v st hprep hev => ?_⟩
      simp only [prepare, beforeIndex, if_pos h0, ↓reduceIte] at hprep
      obtain ⟨⟨w, st₁⟩, hask, htell⟩ := Option.bind_eq_some_iff.mp hprep
      obtain ⟨f₁, hex₁, hval₁, hst₁⟩ := @exec_ask _ _ _ env syms.length
        ⟨.MOV_STR, .num key, .str x, .num 0⟩ f _ key w st₁ rfl (by simp) rfl hask
      rw [deliver_temporary hkey] at hst₁
      have hthis : st₁.vars 1 = f₁.regs 1 := by
        rw [← hst₁, store_vars f₁ ⟨Nat.le_refl 1, hv.nonempty⟩]
      rw [hthis, ← hval₁, ← hst₁] at htell
      obtain ⟨f₂, hex₂, hst₂⟩ := @exec_tell _ _ _ env syms.length
        ⟨.GET_FIELD, .num 1, .num key, .num t⟩ f₁ _ (some t) st₀ rfl (by simp) rfl
        (fun r hr => Option.some.inj hr ▸ ht) htell
      obtain ⟨f', hrun', hcomp⟩ := hd f₂ v st (hst₂ ▸ hev)
      refine ⟨f', ?_, hcomp⟩
      rw [execAll_append, execAll, hex₁]
      dsimp only
      rw [execAll_singleton hex₂]
      exact hrun'

theorem minus_correct (hv : SymbolsValid syms) {flag : Bool} {e : Expr}
    (he : Correct env syms false e) (hflag : flag = false → localReg (symbolsOf syms) e = none) :
    Correct env syms flag (.prefixed .minus e) := by
  intro d k fk r fk' c hfk hd hk hrun
  rw [compileExpression] at hrun
  have hsub : ∀ a fk₁ c₁, compileExpression e 0 false fk = .ok (a, fk₁, c₁) → Ready syms fk₁ :=
    fun a fk₁ c₁ h => (he 0 false fk a fk₁ c₁ hfk (by simp) (by simp) h).1.ready
  obtain ⟨a, fk₁, c₁, b, fk₂, fk₃, h₁, lit, hkeep, hr, rfl, rfl⟩ := compileMinus_ok hsub hrun
  obtain ⟨hp, hcomp⟩ := he 0 false fk a fk₁ c₁ hfk (by simp) (by simp) h₁
  have hlocal : localReg (symbolsOf syms) (.prefixed .minus e) = none := rfl
  obtain ⟨hb, -⟩ := lit.temporary rfl
  -- Without a destination the operand's own register is overwritten, so it must be a temporary.
  have htemp : d = 0 → r = a ∧ localReg (symbolsOf syms) e = none := fun h0 => by
    refine ⟨by rw [hr, if_pos h0], hflag ?_⟩
    cases flag with
    | false => rfl
    | true => exact absurd h0 (hd rfl)
  have hne : a ≠ b := by
    cases hl : localReg (symbolsOf syms) e with
    | some x =>
      have := localReg_bound hv hl
      have := hp.named x hl
      omega
    | none => exact (lit.other rfl a (hkeep a (hp.temporary hl (Or.inl rfl)).2)).1
  refine ⟨⟨lit.ready.freeRegister b, fun x hx => absurd (hlocal.symm.trans hx) (by simp),
    fun _ _ h0 => by rw [hr, if_neg h0], fun _ h0 => ?_⟩, fun f st₀ v st hprep hev => ?_⟩
  · obtain ⟨rfl, hl⟩ := htemp (h0.resolve_right (by simp [isAssignment]))
    obtain ⟨habove, hin⟩ := hp.temporary hl (Or.inl rfl)
    obtain ⟨_, hin₃⟩ := lit.other rfl r (hkeep r hin)
    exact ⟨habove, lit.ready.inUse_freeRegister hin₃ hne⟩
  · have hst₀ : f.store syms.length = st₀ := by cases k <;> exact Option.some.inj hprep
    subst hst₀
    rw [eval] at hev
    obtain ⟨⟨w, st₁⟩, hev₁, hv₁⟩ := Option.bind_eq_some_iff.mp hev
    cases hv₁
    obtain ⟨f₁, hrun₁, hc₁⟩ := hcomp f _ w st rfl hev₁
    let f₂ : Frame α ω := { f₁ with regs := Function.update f₁.regs b (.ofNum (literal "-1")) }
    have hst₂ : f₂.store syms.length = st := by
      rw [store_update, deliver_temporary hb]
      exact hc₁.store_operand hp
    have hlit : execAll env syms.length [⟨.MOV_NUMBER, .num b, .str "-1", .num 0⟩] f₁ = some f₂ := rfl
    have hval₂ : f₂.regs a = operandValue (symbolsOf syms) e w st := by
      refine operand_kept hv hp hc₁ hlit hst₂ fun _ i hi => ?_
      cases List.mem_singleton.mp hi
      simp [Avoids, Instruction.reads, Instruction.writes, Ne.symm hne]
    have hb₂ : f₂.regs b = .ofNum (literal "-1") := by simp [f₂]
    let product : Reg α :=
      .ofNum (NumOps.mul (operandValue (symbolsOf syms) e w st).number (literal "-1"))
    have hmul : arithmetic .MUL (f₂.regs a) (f₂.regs b) = some product := by
      rw [hval₂, hb₂]
      rfl
    have hex := @exec_arithmetic _ _ _ env syms.length .mul _ f₂ a b r _ rfl (by simp) hmul
    have hpair := (execAll_append_some hlit).trans (execAll_singleton hex)
    refine ⟨_, (execAll_append_some hrun₁).trans hpair, computed_of_nonlocal hlocal ?_ ?_⟩
    · exact Function.update_self r product f₂.regs
    · rw [store_update, hst₂]

/-- The code of an expression leaves a temporary in use alone. -/
theorem temporary_avoided (hv : SymbolsValid syms) {e : Expr} {k : Bool} {fk fk' : FunctionKind}
    {a r : ℕ} {c : Code} (hfk : Ready syms fk) (ha : fk.InUse a)
    (hrun : compileExpression e 0 k fk = .ok (r, fk', c)) :
    fk'.InUse a ∧ ∀ i ∈ c, Avoids (· = a) i := by
  have hprot := hfk.protecting ha
  have hlow := low_spared hv hprot
  obtain ⟨h', havoid, -⟩ := compileExpression_spares hv hlow e 0 k hlow.1 fk r fk' c hprot hrun
  exact ⟨h'.inUse a rfl, havoid⟩

theorem eval_binary {n : ℕ} {reg : Symbols} {op : BinaryOp} {opcode : Opcode} {left right : Expr}
    {st : Store α ω} (hop : toOpcode op = some opcode) :
    eval env n reg (.binary op left right) st =
      (eval env n reg left st).bind fun (a, st₁) =>
        (prepare env n reg (op = .dot) right st₁).bind fun st₂ =>
          (eval env n reg right st₂).bind fun (b, st₃) =>
            applyBinary env n op (localReg reg left == some 1) (operandValue reg left a st₃)
              (operandValue reg right b st₃) st₃ := by
  cases op <;> cases hop <;>
  · rw [eval]
    · rfl
    · simp

theorem operands_correct (hv : SymbolsValid syms) {flag : Bool} {op : BinaryOp} {opcode : Opcode}
    {left right : Expr} (hop : toOpcode op = some opcode) (hl : Correct env syms false left)
    (hr : Correct env syms false right) : Correct env syms flag (.binary op left right) := by
  intro d k fk r fk' c hfk _ _ hrun
  rw [compileExpression_operands hop] at hrun
  obtain ⟨a, fk₁, c₁, b, fk₂, c₂, fk₃, c₃, h₁, h₂, h₃, rfl, rfl⟩ := compileOperands_ok hop hrun
  obtain ⟨hpa, hca⟩ := hl 0 false fk a fk₁ c₁ hfk (by simp) (by simp) h₁
  obtain ⟨hpb, hcb⟩ := hr 0 (op = .dot) fk₁ b fk₂ c₂ hpa.ready (by simp) (by simp) h₂
  have dest := destinationOrTemporary_destination hpb.ready h₃
  obtain rfl := dest.silent
  have hlocal : localReg (symbolsOf syms) (.binary op left right) = none := rfl
  have hassign : isAssignment (.binary op left right) = false := by
    cases op <;> first | rfl | cases hop
  have ready₄ : Ready syms (if b ≠ r then fk₃.freeRegister b else fk₃) := by
    split
    · exact dest.ready.freeRegister b
    · exact dest.ready
  refine ⟨⟨ready₄.freeRegister a, fun x hx => absurd (hlocal.symm.trans hx) (by simp),
    fun _ _ => dest.requested, fun _ h0 => ?_⟩, fun f st₀ v st hprep hev => ?_⟩
  · replace h0 : d = 0 := h0.resolve_right (by simp [hassign])
    obtain ⟨habove, hin⟩ := dest.temporary h0
    have hra : r ≠ a := by
      cases hla : localReg (symbolsOf syms) left with
      | some x =>
        have := localReg_bound hv hla
        have := hpa.named x hla
        omega
      | none =>
        have ha := (temporary_avoided hv hpa.ready (hpa.temporary hla (Or.inl rfl)).2 h₂).1
        exact (dest.other h0 a ha).1.symm
    refine ⟨habove, ready₄.inUse_freeRegister ?_ hra⟩
    split
    · rename_i hbr
      exact dest.ready.inUse_freeRegister hin (Ne.symm hbr)
    · exact hin
  · have hst₀ : f.store syms.length = st₀ := by cases k <;> exact Option.some.inj hprep
    subst hst₀
    rw [eval_binary hop] at hev
    obtain ⟨⟨va, st₁⟩, hev₁, hev⟩ := Option.bind_eq_some_iff.mp hev
    obtain ⟨st₂, hprep₂, hev⟩ := Option.bind_eq_some_iff.mp hev
    obtain ⟨⟨vb, st₃⟩, hev₃, happly⟩ := Option.bind_eq_some_iff.mp hev
    obtain ⟨f₁, hrun₁, hcomp₁⟩ := hca f _ va st₁ rfl hev₁
    rw [← hcomp₁.store_operand hpa] at hprep₂
    obtain ⟨f₂, hrun₂, hcomp₂⟩ := hcb f₁ st₂ vb st₃ hprep₂ hev₃
    have hst₂ := hcomp₂.store_operand hpb
    dsimp only at happly
    have hval_a := operand_kept hv hpa hcomp₁ hrun₂ hst₂ fun ha =>
      (temporary_avoided hv hpa.ready ha h₂).2
    rw [← onThis_eq hv hpa, ← hval_a, ← hcomp₂.value, ← hst₂] at happly
    obtain ⟨f₃, hex, hval, hst⟩ := @exec_operation _ _ _ env syms.length _ _ f₂ a b r v st hop happly
    refine ⟨f₃, ?_, computed_of_nonlocal hlocal hval hst⟩
    rw [execAll_append_some hrun₁, execAll_append_some hrun₂]
    exact execAll_singleton hex

theorem fieldAssignment_correct (hv : SymbolsValid syms) {flag : Bool} {object key value : Expr}
    (hvalue : Correct env syms false value) (hobject : Correct env syms false object)
    (hkey : Correct env syms false key) (hlocal : localReg (symbolsOf syms) value = none) :
    Correct env syms flag (.binary .assign (.binary .dot object key) value) := by
  intro d k fk r fk' c hfk _ _ hrun
  rw [compileExpression] at hrun
  unfold compileBinary at hrun
  simp only [bind_ok, pure_ok] at hrun
  obtain ⟨a, fk₁, c₁, _, h₁, ⟨_, fk₂, c₂, _, hset, ⟨rfl, rfl, rfl⟩, rfl⟩, rfl⟩ := hrun
  rw [compileDotForSetField] at hset
  simp only [bind_ok] at hset
  obtain ⟨b, fk₃, c₃, _, h₂, ⟨g, fk₄, c₄, _, h₃, hadd, rfl⟩, rfl⟩ := hset
  obtain ⟨rfl, rfl⟩ := addInstruction_ok hadd
  obtain ⟨hpa, hca⟩ := hvalue 0 false fk a fk₁ c₁ hfk (by simp) (by simp) h₁
  obtain ⟨hpb, hcb⟩ := hobject 0 false fk₁ b fk₃ c₃ hpa.ready (by simp) (by simp) h₂
  obtain ⟨hpg, hcg⟩ := hkey 0 false fk₃ g fk₂ c₄ hpb.ready (by simp) (by simp) h₃
  obtain ⟨habove, hin⟩ := hpa.temporary hlocal (Or.inl rfl)
  obtain ⟨hin₃, havoid₂⟩ := temporary_avoided hv hpa.ready hin h₂
  obtain ⟨hin₂, havoid₃⟩ := temporary_avoided hv hpb.ready hin₃ h₃
  have hnone : localReg (symbolsOf syms) (.binary .assign (.binary .dot object key) value) = none := rfl
  refine ⟨⟨hpg.ready, fun x hx => absurd (hnone.symm.trans hx) (by simp), fun _ h => (by cases h),
    fun _ _ => ⟨habove, hin₂⟩⟩, fun f st₀ v st hprep hev => ?_⟩
  have hst₀ : f.store syms.length = st₀ := by cases k <;> exact Option.some.inj hprep
  subst hst₀
  rw [eval, evalAssign] at hev
  obtain ⟨⟨v₁, st₁⟩, hev₁, hev⟩ := Option.bind_eq_some_iff.mp hev
  obtain ⟨⟨o, st₂⟩, hev₂, hev⟩ := Option.bind_eq_some_iff.mp hev
  obtain ⟨⟨key', st₃⟩, hev₃, hev⟩ := Option.bind_eq_some_iff.mp hev
  obtain ⟨st₄, htell, hev⟩ := Option.bind_eq_some_iff.mp hev
  cases hev
  obtain ⟨f₁, hrun₁, hc₁⟩ := hca f _ v st₁ rfl hev₁
  obtain ⟨f₂, hrun₂, hc₂⟩ := hcb f₁ _ o st₂ rfl (hc₁.store_operand hpa ▸ hev₂)
  obtain ⟨f₃, hrun₃, hc₃⟩ := hcg f₂ _ key' st₃ rfl (hc₂.store_operand hpb ▸ hev₃)
  have hst₃ := hc₃.store_operand hpg
  have hval_a : f₃.regs a = v := by
    have hval₁ : f₁.regs a = v := by
      have := hc₁.value
      rwa [operandValue, hlocal] at this
    have hkept : ∀ {c : Code}, (∀ i ∈ c, Avoids (· = a) i) → ∀ i ∈ c, a ∉ i.writes :=
      fun hc i hi hw => hc i hi a (List.mem_append_right _ hw) rfl
    rw [execAll_unwritten hrun₃ habove (hkept havoid₃),
      execAll_unwritten hrun₂ habove (hkept havoid₂), hval₁]
  have hval_b := operand_kept hv hpb hc₂ hrun₃ hst₃ fun hb => (temporary_avoided hv hpb.ready hb h₃).2
  rw [← onThis_eq hv hpb, ← hval_b, ← hc₃.value, ← hval_a, ← hst₃] at htell
  obtain ⟨f₄, hex, hst₄⟩ := @exec_tell _ _ _ env syms.length
    ⟨.SET_FIELD, .num b, .num g, .num a⟩ f₃ _ none st rfl (by simp) rfl (by simp) htell
  refine ⟨f₄, ?_, computed_of_nonlocal hnone ?_ ?_⟩
  · rw [execAll_append_some hrun₁, List.append_nil, execAll_append_some hrun₂,
      execAll_append_some hrun₃]
    exact execAll_singleton hex
  · rw [exec_unwritten hex habove (by simp [Instruction.writes]), hval_a]
  · rw [hst₄, deliver_temporary habove]

/-- The argument loop is correct from a temporary, and returns the register of the first argument
when that is a variable, else a temporary. -/
def CorrectArguments (env : Environment α ω) (syms : List (String × ℕ)) (es : List Expr) : Prop :=
  ∀ t fk r fk' c, Ready syms fk → syms.length < t → compileArguments es t fk = .ok (r, fk', c) →
    Ready syms fk' ∧ (∀ x, es.head?.bind (localReg (symbolsOf syms)) = some x → r = x) ∧
      (es.head?.bind (localReg (symbolsOf syms)) = none → syms.length < r) ∧
      ∀ (f : Frame α ω) st,
        evalArguments env syms.length (symbolsOf syms) es (f.store syms.length) = some st →
        ∃ f', execAll env syms.length c f = some f' ∧ f'.store syms.length = st

theorem nil_correct : CorrectArguments env syms [] := by
  intro t fk r fk' c hfk ht hrun
  rw [compileArguments] at hrun
  obtain ⟨rfl, rfl, rfl⟩ := pure_ok.mp hrun
  refine ⟨hfk, fun x hx => (by cases hx), fun _ => ht, fun f st hev => ⟨f, rfl, ?_⟩⟩
  rw [evalArguments] at hev
  exact Option.some.inj hev

theorem variablesFirst_head {reg : Symbols} {es : List Expr} {e : Expr}
    (hfirst : variablesFirst reg (e :: es) = true) (he : localReg reg e = none) :
    es.head?.bind (localReg reg) = none := by
  cases es with
  | nil => rfl
  | cons e' es =>
    simp only [variablesFirst, isLocal, he, Option.isSome_none, Bool.false_or, Bool.and_eq_true,
      Bool.not_eq_true', Option.isSome_eq_false_iff, Option.isNone_iff_eq_none] at hfirst
    exact hfirst.1

theorem cons_correct {e : Expr} {es : List Expr}
    (he : Correct env syms true e ∨ Correct env syms false e)
    (hes : CorrectArguments env syms es)
    (hfirst : variablesFirst (symbolsOf syms) (e :: es) = true) (hv : SymbolsValid syms) :
    CorrectArguments env syms (e :: es) := by
  intro t fk r fk' c hfk ht hrun
  rw [compileArguments] at hrun
  simp only [bind_ok, pure_ok] at hrun
  obtain ⟨later, fk₁, c₁, _, h₁, ⟨reg, fk₂, c₂, _, h₂, ⟨_, fk₃, c₃, _, h₃, ⟨rfl, rfl, rfl⟩, rfl⟩,
    rfl⟩, rfl⟩ := hrun
  obtain ⟨rfl, rfl⟩ := addInstruction_ok h₃
  obtain ⟨ready₁, hnamed, htemporary, hrun₁⟩ := hes t fk later fk₁ c₁ hfk ht h₁
  have hlater0 : later ≠ 0 := by
    cases hh : es.head?.bind (localReg (symbolsOf syms)) with
    | none =>
      have := htemporary hh
      omega
    | some x =>
      obtain ⟨e', _, hl⟩ := Option.bind_eq_some_iff.mp hh
      have := localReg_bound hv hl
      have := hnamed x hh
      omega
  obtain ⟨hp, hcomp⟩ := he.elim
    (fun he => he later false fk₁ reg _ c₂ ready₁ (fun _ => hlater0) (by simp) h₂)
    (fun he => he later false fk₁ reg _ c₂ ready₁ (by simp) (by simp) h₂)
  have htarget : localReg (symbolsOf syms) e = none → syms.length < reg := by
    intro hl
    cases ha : isAssignment e with
    | true => exact (hp.temporary hl (Or.inr ha)).1
    | false =>
      rw [hp.requested hl ha hlater0]
      exact htemporary (variablesFirst_head hfirst hl)
  refine ⟨hp.ready, hp.named, htarget, fun f st hev => ?_⟩
  rw [evalArguments] at hev
  obtain ⟨st₁, hev₁, hev⟩ := Option.bind_eq_some_iff.mp hev
  obtain ⟨⟨v, st₂⟩, hev₂, hpush⟩ := Option.bind_eq_some_iff.mp hev
  cases hpush
  obtain ⟨f₁, hex₁, hst₁⟩ := hrun₁ f st₁ hev₁
  obtain ⟨f₂, hex₂, hc₂⟩ := hcomp f₁ _ v st₂ rfl (hst₁ ▸ hev₂)
  have hst₂ : f₂.store syms.length = st₂ := by
    rw [hc₂.store, isLocal]
    cases hl : localReg (symbolsOf syms) e with
    | some x => rfl
    | none => exact deliver_temporary (htarget hl) v st₂
  have hval : f₂.regs reg = v := hc₂.value.trans (operandValue_eval hev₂)
  refine ⟨{ f₂ with stack := f₂.regs reg :: f₂.stack }, ?_, ?_⟩
  · rw [execAll_append_some hex₁, execAll_append_some hex₂]
    exact execAll_singleton rfl
  · rw [← hst₂, ← hval]
    rfl

theorem methodCall_correct (hv : SymbolsValid syms) {flag : Bool} {callee : Expr}
    {args : List Expr} (hc : Correct env syms false callee) (hargs : CorrectArguments env syms args) :
    Correct env syms flag (.methodCall callee args) := by
  intro d k fk r fk' c hfk _ _ hrun
  rw [compileExpression] at hrun
  obtain ⟨fk₁, c₁, first, fk₂, c₂, last, fk₃, c₃, g, fk₄, c₄, h₁, h₂, h₃, h₄, rfl, rfl⟩ :=
    compileMethodCall_ok hrun
  have result := destinationOrTemporary_destination hfk h₁
  have temp := getTemporary_destination result.ready h₂
  obtain rfl := result.silent
  obtain rfl := temp.silent
  obtain ⟨ready₃, -, -, hrun₃⟩ := hargs first fk₂ last fk₃ c₃ temp.ready (temp.temporary rfl).1 h₃
  obtain ⟨hp, hcomp⟩ := hc 0 false _ g fk₄ c₄ (ready₃.freeRegister last) (by simp) (by simp) h₄
  have hlocal : localReg (symbolsOf syms) (.methodCall callee args) = none := rfl
  refine ⟨⟨hp.ready.freeRegister g, fun x hx => absurd (hlocal.symm.trans hx) (by simp),
    fun _ _ => result.requested, fun _ h0 => ?_⟩, fun f st₀ v st hprep hev => ?_⟩
  · obtain ⟨habove, hin⟩ := result.temporary (h0.resolve_right (by simp [isAssignment]))
    obtain ⟨hne, hin₂⟩ := temp.other rfl r hin
    have prot₂ := temp.ready.protecting hin₂
    have hlow := low_spared hv prot₂
    obtain ⟨prot₃, -, hlast⟩ :=
      compileArguments_spares hv hlow args first (fun he => hne he.symm) fk₂ last fk₃ c₃ prot₂ h₃
    have hin₃ := ready₃.inUse_freeRegister (prot₃.inUse r rfl) (Ne.symm hlast)
    have prot₄ := (ready₃.freeRegister last).protecting hin₃
    obtain ⟨prot₅, -, hg⟩ := compileExpression_spares hv hlow callee 0 false hlow.1 _ g fk₄ c₄ prot₄ h₄
    exact ⟨habove, hp.ready.inUse_freeRegister (prot₅.inUse r rfl) (Ne.symm hg)⟩
  · have hst₀ : f.store syms.length = st₀ := by cases k <;> exact Option.some.inj hprep
    subst hst₀
    rw [eval] at hev
    obtain ⟨st₁, hev₁, hev⟩ := Option.bind_eq_some_iff.mp hev
    obtain ⟨⟨w, st₂⟩, hev₂, hask⟩ := Option.bind_eq_some_iff.mp hev
    obtain ⟨f₁, hex₁, hst₁⟩ := hrun₃ f st₁ hev₁
    obtain ⟨f₂, hex₂, hc₂⟩ := hcomp f₁ _ w st₂ rfl (hst₁ ▸ hev₂)
    dsimp only at hask
    rw [← hc₂.value, ← hc₂.store_operand hp] at hask
    obtain ⟨f₃, hex₃, hval, hst⟩ := @exec_ask _ _ _ env syms.length
      ⟨.CALL, .num g, .num r, .num args.length⟩ f₂ _ r v st rfl (by simp) rfl hask
    refine ⟨f₃, ?_, computed_of_nonlocal hlocal hval hst⟩
    rw [List.nil_append, List.nil_append, execAll_append_some hex₁, execAll_append_some hex₂]
    exact execAll_singleton hex₃

mutual

theorem plain_correct (hv : SymbolsValid syms) :
    ∀ (flag : Bool) (e : Expr), plain (symbolsOf syms) flag e = true → Correct env syms flag e
  | _, .terminal (.identifier _), _ => identifier_correct hv
  | _, .terminal (.number _), _ => number_correct
  | _, .terminal (.string _), _ => string_correct
  | flag, .prefixed .minus e, h => by
    rw [plain, Bool.and_eq_true, Bool.or_eq_true] at h
    refine minus_correct hv (plain_correct hv false e h.2) fun hf => ?_
    simpa [hf, isLocal] using h.1
  | flag, .binary op left right, h => by
    rw [plain, Bool.and_eq_true, Bool.and_eq_true] at h
    obtain ⟨⟨hresult, hleft⟩, hright⟩ := h
    have hr := plain_correct hv false right hright
    cases hop : toOpcode op with
    | some opcode => exact operands_correct hv hop (plain_correct hv false left hleft) hr
    | none =>
      simp only [hasResult, hop, Option.isSome_none, Bool.false_or, Bool.and_eq_true, beq_iff_eq,
        Bool.not_eq_true'] at hresult
      obtain ⟨⟨⟨rfl, -⟩, haccess⟩, hlocal⟩ := hresult
      match left, haccess, hleft with
      | .binary .dot object key, _, hleft =>
        rw [plain, Bool.and_eq_true, Bool.and_eq_true] at hleft
        exact fieldAssignment_correct hv hr (plain_correct hv false object hleft.1.2)
          (plain_correct hv false key hleft.2) (by simpa [isLocal] using hlocal)
  | flag, .methodCall callee args, h => by
    rw [plain, Bool.and_eq_true, Bool.and_eq_true] at h
    exact methodCall_correct hv (plain_correct hv false callee h.1.1)
      (plainArguments_correct hv args h.1.2 h.2)
  | _, .prefixed .plus _, h | _, .prefixed .increment _, h | _, .prefixed .decrement _, h
  | _, .prefixed .tilde _, h | _, .prefixed .bang _, h | _, .prefixed .throwing _, h
  | _, .postfixed _ _, h | _, .empty, h => by
    rw [plain] at h
    · cases h
    all_goals simp

theorem plainArguments_correct (hv : SymbolsValid syms) :
    ∀ es : List Expr, variablesFirst (symbolsOf syms) es = true →
      plainArguments (symbolsOf syms) es = true → CorrectArguments env syms es
  | [], _, _ => nil_correct
  | e :: es, hfirst, h => by
    rw [plainArguments, Bool.and_eq_true] at h
    have hrest : variablesFirst (symbolsOf syms) es = true := by
      cases es with
      | nil => rfl
      | cons e' es => exact (Bool.and_eq_true _ _ ▸ hfirst).2
    have he : Correct env syms true e ∨ Correct env syms false e := by
      rcases (Bool.or_eq_true _ _).mp h.1 with he | he
      · exact Or.inl (plain_correct hv true e he)
      · exact Or.inr (plain_correct hv false e he)
    exact cons_correct he (plainArguments_correct hv es hrest h.2) hfirst hv

end

end

end Zeroscript.PlainExpressions
