import Zeroscript.Interpreter
import Zeroscript.LocalAssignment

/-! # What operators do to local variables

A sub-compiler returns the register of a local variable itself, and a unary minus without a destination
multiplies in the register of its operand. So a negated variable is negated for good. -/
namespace Zeroscript.OperandEffects

open Emission ProtectedRegisters ExpressionInversion PlainExpressions PlainWrites
open LocalAssignment (sampleSymbols sampleFunction sampleFunction_ready)

def operatorsOnly : Expr → Bool
  | .terminal _ => true
  | .prefixed .minus e => operatorsOnly e
  | .binary op left right => (toOpcode op).isSome && operatorsOnly left && operatorsOnly right
  | _ => false

def home (reg : Symbols) : Expr → Option ℕ
  | .prefixed .minus e => home reg e
  | .terminal t => localReg reg (.terminal t)
  | _ => none

/-- For each instruction of an expression, the register that it negates in place. The flags say that
there is a destination, and that the expression stands on the right of a dot. -/
def trace (reg : Symbols) : Bool → Bool → Expr → List (Option ℕ)
  | _, onDot, .terminal (.identifier x) =>
    if reg x ≠ 0 then [] else if onDot then [none, none, none] else [none]
  | _, _, .terminal _ => [none]
  | requested, _, .prefixed .minus e =>
    trace reg false false e ++ [none, if requested then none else home reg e]
  | _, _, .binary op left right => trace reg false false left ++ (trace reg false (op = .dot) right ++ [none])
  | _, _, _ => []

section

variable {α ω : Type} [NumOps α] {env : Environment α ω} {syms : List (String × ℕ)}

def negate (v : Reg α) : Reg α := .ofNum (NumOps.mul v.number (literal "-1"))

def isQuestion : Request α → Bool
  | .string _ | .concat _ _ | .divideByZero | .lookup _ _ _ | .getField _ _ _ => true
  | _ => false

def Reading (env : Environment α ω) : Prop :=
  ∀ q st reply, isQuestion q = true → env.answer q st = some reply → reply.vars = st.vars

def Asks (i : Instruction) : Prop :=
  i.opcode = .MOV_NUMBER ∨ i.opcode = .MOV_STR ∨ i.opcode = .GET_FIELD_IMMEDIATE ∨
    ∃ op, toOpcode op = some i.opcode

theorem asks_request {i : Instruction} (h : Asks i) {regs : Regs α} (hlocal : execLocal i regs = none) :
    i.opcode ≠ .PUSH ∧ isQuestion (i.request regs).1 = true := by
  obtain ⟨opcode, r0, r1, r2⟩ := i
  rcases h with rfl | rfl | rfl | ⟨op, hop⟩
  · cases hlocal
  · exact ⟨by simp, rfl⟩
  · exact ⟨by simp, rfl⟩
  · cases op with
    | dot | add | div =>
      cases hop
      exact ⟨by simp, rfl⟩
    | mod =>
      cases hop
      unfold execLocal at hlocal
      simp only at hlocal
      split at hlocal <;> cases hlocal
    | _ => cases hop <;> cases hlocal

theorem exec_asks (henv : Reading env) {n : ℕ} {i : Instruction} (hi : Asks i) {f f' : Frame α ω}
    {control : Control} (h : exec env n i f = some (f', control)) {t : ℕ} (ht : t ∉ i.writes) :
    f'.regs t = f.regs t := by
  cases hlocal : execLocal i f.regs with
  | some result =>
    unfold exec at h
    rw [hlocal] at h
    obtain ⟨regs, control⟩ := result
    cases h
    exact execLocal_unwritten hlocal ht
  | none =>
    obtain ⟨hpush, hquestion⟩ := asks_request hi hlocal
    rcases hreq : i.request f.regs with ⟨q, d⟩
    rw [exec_request hlocal hpush hreq] at h
    rw [hreq] at hquestion
    obtain ⟨reply, hreply, heq⟩ := Option.map_eq_some_iff.mp h
    obtain ⟨hframe, -⟩ := Prod.mk.inj heq
    have hvars := henv _ _ _ hquestion hreply
    obtain ⟨vars, stack, world, value, control⟩ := reply
    obtain rfl : vars = named n f.regs := hvars
    rw [← hframe]
    have hd : (i.request f.regs).2 = d := congrArg Prod.snd hreq
    exact receive_unchanged fun heq => ht (request_destination (hd.trans heq))

theorem execAll_asks (henv : Reading env) {n : ℕ} {code : Code} (hcode : ∀ i ∈ code, Asks i)
    {f f' : Frame α ω} (h : execAll env n code f = some f') {t : ℕ}
    (ht : ∀ i ∈ code, t ∉ i.writes) : f'.regs t = f.regs t := by
  induction code generalizing f with
  | nil =>
    cases h
    rfl
  | cons i code ih =>
    rw [execAll] at h
    split at h
    · rename_i f₁ hexec
      have hfirst := exec_asks henv (hcode i List.mem_cons_self) hexec (ht i List.mem_cons_self)
      have hrest := ih (fun j hj => hcode j (List.mem_cons_of_mem i hj)) h
        fun j hj => ht j (List.mem_cons_of_mem i hj)
      exact hrest.trans hfirst
    · cases h

structure Traced (env : Environment α ω) (n t : ℕ) (marks : List (Option ℕ)) (c : Code) : Prop where
  length : marks.length = c.length
  negated : ∀ (j : ℕ) (f f' : Frame α ω), execAll env n (c.take j) f = some f' →
    f'.regs t = negate^[(marks.take j).count (some t)] (f.regs t)

theorem Traced.append {n t : ℕ} {marks₁ marks₂ : List (Option ℕ)} {c₁ c₂ : Code}
    (h₁ : Traced env n t marks₁ c₁) (h₂ : Traced env n t marks₂ c₂) :
    Traced env n t (marks₁ ++ marks₂) (c₁ ++ c₂) := by
  refine ⟨by rw [List.length_append, List.length_append, h₁.length, h₂.length], fun j f f' hrun => ?_⟩
  rw [List.take_append, execAll_append] at hrun
  obtain ⟨f₁, hrun₁, hrun₂⟩ := Option.bind_eq_some_iff.mp hrun
  rw [h₂.negated _ _ _ hrun₂, h₁.negated _ _ _ hrun₁, List.take_append, List.count_append, h₁.length,
    Nat.add_comm, Function.iterate_add_apply]

theorem traced_asks (henv : Reading env) {n t : ℕ} {marks : List (Option ℕ)} {c : Code}
    (hlength : marks.length = c.length) (hmarks : some t ∉ marks)
    (hcode : ∀ i ∈ c, Asks i) (hwrites : ∀ i ∈ c, t ∉ i.writes) : Traced env n t marks c := by
  refine ⟨hlength, fun j f f' hrun => ?_⟩
  have hcount : (marks.take j).count (some t) = 0 := by
    exact List.count_eq_zero_of_not_mem fun hmem => hmarks (List.mem_of_mem_take hmem)
  rw [hcount]
  exact execAll_asks henv (fun i hi => hcode i (List.mem_of_mem_take hi)) hrun
    fun i hi => hwrites i (List.mem_of_mem_take hi)

theorem traced_negation {n t b : ℕ} (htb : t ≠ b) :
    Traced env n t [none, some t]
      [⟨.MOV_NUMBER, .num b, .str "-1", .num 0⟩, ⟨.MUL, .num t, .num b, .num t⟩] := by
  refine ⟨rfl, fun j f f' hrun => ?_⟩
  have hkept : Function.update f.regs b (.ofNum (literal "-1")) t = f.regs t :=
    Function.update_of_ne htb _ _
  match j with
  | 0 =>
    cases hrun
    rfl
  | 1 =>
    cases hrun
    exact hkept
  | j + 2 =>
    have hproduct : execAll env n [⟨.MOV_NUMBER, .num b, .str "-1", .num 0⟩,
        ⟨.MUL, .num t, .num b, .num t⟩] f = some f' := by simpa using hrun
    have hb : Function.update f.regs b (.ofNum (literal "-1")) b = .ofNum (literal "-1") :=
      Function.update_self ..
    have hreg : f'.regs t = .ofNum (NumOps.mul
        (Function.update f.regs b (.ofNum (literal "-1")) t).number
        (Function.update f.regs b (.ofNum (literal "-1")) b).number) := by
      cases hproduct
      exact Function.update_self ..
    have hone : (([none, some t] : List (Option ℕ)).take (j + 2)).count (some t) = 1 := by simp
    rw [hreg, hkept, hb, hone]
    rfl

/-- What the code of an expression does to the local variables, when `d` is requested. -/
structure Effects (env : Environment α ω) (syms : List (String × ℕ)) (e : Expr) (d r : ℕ) (onDot : Bool)
    (fk' : FunctionKind) (c : Code) : Prop where
  ready : Ready syms fk'
  home : d = 0 → ∀ x, home (symbolsOf syms) e = some x → r = x
  temporary : d = 0 → OperandEffects.home (symbolsOf syms) e = none → syms.length < r
  asks : ∀ i ∈ c, Asks i
  writes : ∀ i ∈ c, ∀ t ∈ i.writes, 1 ≤ t → t ≤ syms.length → t ≠ d → i.opcode = .MUL
  traced : ∀ t, 1 ≤ t → t ≤ syms.length → t ≠ d →
    Traced env syms.length t (trace (symbolsOf syms) (d ≠ 0) onDot e) c

theorem effects_of_asks (henv : Reading env) {e : Expr} {d r : ℕ} {onDot : Bool} {fk' : FunctionKind}
    {c : Code} (hready : Ready syms fk') (hhome : home (symbolsOf syms) e = none)
    (hlength : (trace (symbolsOf syms) (d ≠ 0) onDot e).length = c.length)
    (hmarks : ∀ t, some t ∉ trace (symbolsOf syms) (d ≠ 0) onDot e)
    (hcode : ∀ i ∈ c, Asks i) (hdest : d = 0 → syms.length < r)
    (hwrites : ∀ i ∈ c, ∀ t ∈ i.writes, t = d ∨ syms.length < t) : Effects env syms e d r onDot fk' c := by
  refine ⟨hready, ?_, fun h0 _ => hdest h0, hcode, ?_, ?_⟩
  · intro _ x hx
    exact absurd (hhome.symm.trans hx) (by simp)
  · intro i hi t hmem _ hle hne
    rcases hwrites i hi t hmem with heq | hlt
    · exact absurd heq hne
    · omega
  · intro t _ hle hne
    refine traced_asks henv hlength (hmarks t) hcode fun i hi hmem => ?_
    rcases hwrites i hi t hmem with heq | hlt
    · exact hne heq
    · omega

theorem destination_writes {d r : ℕ} {fk fk' : FunctionKind} {c : Code}
    (h : Destination syms d fk r fk' c) : r = d ∨ syms.length < r := by
  by_cases h0 : d = 0
  · exact .inr (h.temporary h0).1
  · exact .inl (h.requested h0)

theorem literal_effects (henv : Reading env) {e : Expr} {opcode : Opcode} {data : String} {d r : ℕ}
    {onDot : Bool} {fk fk' : FunctionKind} {c : Code} (hfk : Ready syms fk)
    (hopcode : opcode = .MOV_NUMBER ∨ opcode = .MOV_STR) (hhome : home (symbolsOf syms) e = none)
    (htrace : trace (symbolsOf syms) (d ≠ 0) onDot e = [none])
    (h : compileLiteral opcode data d fk = .ok (r, fk', c)) : Effects env syms e d r onDot fk' c := by
  obtain ⟨dest, rfl⟩ := compileLiteral_ok hfk h
  apply effects_of_asks henv dest.ready hhome
  · rw [htrace]
    rfl
  · rw [htrace]
    simp
  · intro i hi
    obtain rfl := List.mem_singleton.mp hi
    rcases hopcode with rfl | rfl
    · exact .inl rfl
    · exact .inr (.inl rfl)
  · intro h0
    exact (dest.temporary h0).1
  · intro i hi t ht
    obtain rfl := List.mem_singleton.mp hi
    have heq : t = r := by
      rcases hopcode with rfl | rfl <;> exact List.mem_singleton.mp ht
    rw [heq]
    exact destination_writes dest

theorem local_effects {x : String} {d : ℕ} {onDot : Bool} {fk : FunctionKind} (hfk : Ready syms fk)
    (hx : symbolsOf syms x ≠ 0) : Effects env syms (.ident x) d (symbolsOf syms x) onDot fk [] := by
  have hhome : home (symbolsOf syms) (.ident x) = some (symbolsOf syms x) := by simp [home, localReg, hx]
  have htrace : trace (symbolsOf syms) (d ≠ 0) onDot (.ident x) = [] := by rw [trace, if_pos hx]
  refine ⟨hfk, ?_, ?_, by simp, by simp, ?_⟩
  · intro _ y hy
    exact Option.some.inj (hhome.symm.trans hy)
  · intro _ hnone
    exact absurd (hhome.symm.trans hnone) (by simp)
  · intro t _ _ _
    rw [htrace]
    refine ⟨rfl, fun j f f' hrun => ?_⟩
    rw [List.take_nil] at hrun
    cases hrun
    simp

theorem immediate_effects (henv : Reading env) {x : String} {d r : ℕ} {fk fk' : FunctionKind}
    {c : Code} (hfk : Ready syms fk) (h : compileIdentifierImmediate x d fk = .ok (r, fk', c)) :
    Effects env syms (.ident x) d r false fk' c := by
  rcases compileIdentifierImmediate_ok hfk h with ⟨hx, rfl, rfl, rfl⟩ | ⟨h0, dest, rfl⟩
  · exact local_effects hfk hx
  · have htrace : trace (symbolsOf syms) (d ≠ 0) false (.ident x) = [none] := by simp [trace, h0]
    apply effects_of_asks henv dest.ready
    · simp [home, localReg, h0]
    · rw [htrace]
      rfl
    · rw [htrace]
      simp
    · intro i hi
      obtain rfl := List.mem_singleton.mp hi
      exact .inr (.inr (.inl rfl))
    · intro hd
      exact (dest.temporary hd).1
    · intro i hi t ht
      obtain rfl := List.mem_singleton.mp hi
      obtain rfl : t = r := List.mem_singleton.mp ht
      exact destination_writes dest

theorem index_effects (henv : Reading env) {x : String} {r : ℕ} {fk fk' : FunctionKind} {c : Code}
    (hfk : Ready syms fk) (h : compileTerminal (.identifier x) 0 true fk = .ok (r, fk', c)) :
    Effects env syms (.ident x) 0 r true fk' c := by
  change (do
    let _ ← compileIdentifier x 0
    compileIdentifierImmediate x 0 : Emit ℕ) fk = .ok (r, fk', c) at h
  obtain ⟨first, fk₁, c₁, c₂, h₁, h₂, rfl⟩ := bind_ok.mp h
  rcases compileIdentifier_ok hfk h₁ with ⟨hx, rfl, rfl, rfl⟩ | ⟨h0, habove, ready, key, hkey, rfl⟩
  · rcases compileIdentifierImmediate_ok hfk h₂ with ⟨-, rfl, rfl, rfl⟩ | ⟨h0, -⟩
    · exact local_effects hfk hx
    · exact absurd h0 hx
  · rcases compileIdentifierImmediate_ok ready h₂ with ⟨hx, -⟩ | ⟨-, dest, rfl⟩
    · exact absurd h0 hx
    · have htrace : trace (symbolsOf syms) (decide ((0 : ℕ) ≠ 0)) true (.ident x) = [none, none, none] := by
        simp [trace, h0]
      apply effects_of_asks henv dest.ready
      · simp [home, localReg, h0]
      · rw [htrace]
        rfl
      · rw [htrace]
        simp
      · intro i hi
        simp only [List.cons_append, List.nil_append, List.mem_cons, List.not_mem_nil, or_false] at hi
        rcases hi with rfl | rfl | rfl
        · exact .inr (.inl rfl)
        · exact .inr (.inr (.inr ⟨.dot, rfl⟩))
        · exact .inr (.inr (.inl rfl))
      · intro _
        exact (dest.temporary rfl).1
      · intro i hi t ht
        simp only [List.cons_append, List.nil_append, List.mem_cons, List.not_mem_nil, or_false] at hi
        rcases hi with rfl | rfl | rfl
        · obtain rfl : t = key := List.mem_singleton.mp ht
          exact .inr hkey
        · obtain rfl : t = first := List.mem_singleton.mp ht
          exact .inr habove
        · obtain rfl : t = r := List.mem_singleton.mp ht
          exact destination_writes dest

/-- The sub-compiler of an expression has the effects that are counted, in every position. -/
def Counted (env : Environment α ω) (syms : List (String × ℕ)) (e : Expr) : Prop :=
  ∀ d k fk r fk' c, Ready syms fk → (k = true → d = 0) →
    compileExpression e d k fk = .ok (r, fk', c) → Effects env syms e d r k fk' c

theorem terminal_counted (henv : Reading env) (t : Terminal) : Counted env syms (.terminal t) := by
  intro d k fk r fk' c hfk hk h
  rw [compileExpression] at h
  cases t with
  | identifier x =>
    cases k with
    | true =>
      obtain rfl := hk rfl
      exact index_effects henv hfk h
    | false => exact immediate_effects henv hfk h
  | number data => exact literal_effects henv hfk (.inl rfl) rfl rfl h
  | string data => exact literal_effects henv hfk (.inr rfl) rfl rfl h

/-- The multiplication writes the operand's register when there is no destination. -/
theorem minus_counted (henv : Reading env) {e : Expr} (he : Counted env syms e) :
    Counted env syms (.prefixed .minus e) := by
  intro d k fk r fk' c hfk _ h
  rw [compileExpression] at h
  have hsub : ∀ a fk₁ c₁, compileExpression e 0 false fk = .ok (a, fk₁, c₁) → Ready syms fk₁ :=
    fun a fk₁ c₁ h => (he 0 false fk a fk₁ c₁ hfk (by simp) h).ready
  obtain ⟨a, fk₁, c₁, b, fk₂, fk₃, h₁, lit, -, hr, rfl, rfl⟩ := compileMinus_ok hsub h
  have heffects := he 0 false fk a fk₁ c₁ hfk (by simp) h₁
  obtain ⟨hb, -⟩ := lit.temporary rfl
  have hasks : ∀ i ∈ ([⟨.MOV_NUMBER, .num b, .str "-1", .num 0⟩, ⟨.MUL, .num a, .num b, .num r⟩] : Code),
      Asks i := by
    intro i hi
    simp only [List.mem_cons, List.not_mem_nil, or_false] at hi
    rcases hi with rfl | rfl
    · exact .inl rfl
    · exact .inr (.inr (.inr ⟨.mul, rfl⟩))
  refine ⟨lit.ready.freeRegister b, ?_, ?_, ?_, ?_, ?_⟩
  · intro h0 x hx
    rw [hr, if_pos h0]
    exact heffects.home rfl x hx
  · intro h0 hnone
    rw [hr, if_pos h0]
    exact heffects.temporary rfl hnone
  · intro i hi
    exact (List.mem_append.mp hi).elim (heffects.asks i) (hasks i)
  · intro i hi t hmem h1 hle hne
    rcases List.mem_append.mp hi with hi | hi
    · exact heffects.writes i hi t hmem h1 hle (by omega)
    · simp only [List.mem_cons, List.not_mem_nil, or_false] at hi
      rcases hi with rfl | rfl
      · have htb : t = b := List.mem_singleton.mp hmem
        omega
      · rfl
  · intro t h1 hle hne
    have hinner := heffects.traced t h1 hle (by omega)
    have htb : t ≠ b := by omega
    rw [trace]
    refine hinner.append ?_
    by_cases hcase : d = 0 ∧ home (symbolsOf syms) e = some t
    · obtain ⟨rfl, hhome⟩ := hcase
      obtain rfl : a = t := heffects.home rfl t hhome
      rw [if_pos rfl] at hr
      subst hr
      rw [hhome]
      exact traced_negation htb
    · have hrt : t ≠ r := by
        intro heq
        rw [hr] at heq
        by_cases h0 : d = 0
        · rw [if_pos h0] at heq
          cases hhome : home (symbolsOf syms) e with
          | some x =>
            have hax := heffects.home rfl x hhome
            exact hcase ⟨h0, by rw [hhome, heq, hax]⟩
          | none =>
            have habove := heffects.temporary rfl hhome
            omega
        · rw [if_neg h0] at heq
          exact hne heq
      have hmark : (if decide (d ≠ 0) = true then none else home (symbolsOf syms) e) ≠ some t := by
        split
        · simp
        · rename_i h0
          exact fun hhome => hcase ⟨by simpa using h0, hhome⟩
      refine traced_asks henv rfl ?_ hasks ?_
      · simpa using hmark.symm
      · intro i hi hmem
        simp only [List.mem_cons, List.not_mem_nil, or_false] at hi
        rcases hi with rfl | rfl
        · exact htb (List.mem_singleton.mp hmem)
        · exact hrt (List.mem_singleton.mp hmem)

theorem operands_counted (henv : Reading env) {op : BinaryOp} {opcode : Opcode} {left right : Expr}
    (hop : toOpcode op = some opcode) (hl : Counted env syms left) (hr : Counted env syms right) :
    Counted env syms (.binary op left right) := by
  intro d k fk r fk' c hfk _ h
  rw [compileExpression_operands hop] at h
  obtain ⟨a, fk₁, c₁, b, fk₂, c₂, fk₃, c₃, h₁, h₂, h₃, rfl, rfl⟩ := compileOperands_ok hop h
  have hleft := hl 0 false fk a fk₁ c₁ hfk (by simp) h₁
  have hright := hr 0 (op = .dot) fk₁ b fk₂ c₂ hleft.ready (by simp) h₂
  have dest := destinationOrTemporary_destination hright.ready h₃
  obtain rfl := dest.silent
  have ready₄ : Ready syms (if b ≠ r then fk₃.freeRegister b else fk₃) := by
    split
    · exact dest.ready.freeRegister b
    · exact dest.ready
  have hasks : ∀ i ∈ ([⟨opcode, .num a, .num b, .num r⟩] : Code), Asks i := by
    intro i hi
    obtain rfl := List.mem_singleton.mp hi
    exact .inr (.inr (.inr ⟨op, hop⟩))
  have hresult : ∀ t ∈ Instruction.writes ⟨opcode, .num a, .num b, .num r⟩, t ≤ syms.length → t = d := by
    intro t hmem hle
    rw [toOpcode_writes hop] at hmem
    obtain rfl := List.mem_singleton.mp hmem
    exact (destination_writes dest).resolve_right (by omega)
  refine ⟨ready₄.freeRegister a, ?_, fun h0 _ => (dest.temporary h0).1, ?_, ?_, ?_⟩
  · intro _ x hx
    cases hx
  · intro i hi
    rcases List.mem_append.mp hi with hi | hi
    · exact hleft.asks i hi
    · exact (List.mem_append.mp hi).elim (hright.asks i) (hasks i)
  · intro i hi t hmem h1 hle hne
    rcases List.mem_append.mp hi with hi | hi
    · exact hleft.writes i hi t hmem h1 hle (by omega)
    · rcases List.mem_append.mp hi with hi | hi
      · exact hright.writes i hi t hmem h1 hle (by omega)
      · obtain rfl := List.mem_singleton.mp hi
        exact absurd (hresult t hmem hle) hne
  · intro t h1 hle hne
    rw [trace]
    refine (hleft.traced t h1 hle (by omega)).append ((hright.traced t h1 hle (by omega)).append ?_)
    refine traced_asks henv rfl (by simp) hasks fun i hi hmem => ?_
    obtain rfl := List.mem_singleton.mp hi
    exact hne (hresult t hmem hle)

/-- By induction on the expression: what its code does to a local variable is to negate it. -/
theorem operatorsOnly_counted (henv : Reading env) :
    ∀ e : Expr, operatorsOnly e = true → Counted env syms e
  | .terminal t, _ => terminal_counted henv t
  | .prefixed .minus e, h => minus_counted henv (operatorsOnly_counted henv e h)
  | .binary op left right, h => by
    rw [operatorsOnly, Bool.and_eq_true, Bool.and_eq_true] at h
    obtain ⟨opcode, hop⟩ := Option.isSome_iff_exists.mp h.1.1
    exact operands_counted henv hop (operatorsOnly_counted henv left h.1.2)
      (operatorsOnly_counted henv right h.2)

def Unchanged (syms : List (String × ℕ)) (d : ℕ) (f f' : Frame α ω) : Prop :=
  ∀ t, 1 ≤ t → t ≤ syms.length → t ≠ d → f'.regs t = f.regs t

/-- Every local variable other than the destination gets its value back when it is negated as often as
the first `j` instructions negate it in place. -/
def Restored (syms : List (String × ℕ)) (e : Expr) (d j : ℕ) (onDot : Bool) (f : Frame α ω) : Prop :=
  ∀ t, 1 ≤ t → t ≤ syms.length → t ≠ d →
    negate^[((trace (symbolsOf syms) (d ≠ 0) onDot e).take j).count (some t)] (f.regs t) = f.regs t

inductive Ends (env : Environment α ω) (n : ℕ) (code : Code) (f f' : Frame α ω) : ℕ → Prop where
  | behind (hrun : execAll env n code f = some f') : Ends env n code f f' code.length
  | raised {j : ℕ} {i : Instruction} {f₁ : Frame α ω} {control : Control} (hi : code[j]? = some i)
      (hrun : execAll env n (code.take j) f = some f₁) (hraise : exec env n i f₁ = some (f', control))
      (hcontrol : control ≠ .next) : Ends env n code f f' j

/-- Local variables survive the code of an expression exactly if the negations in place that have been
executed cancel. -/
theorem unchanged_iff (henv : Reading env) {e : Expr} (he : operatorsOnly e = true) {d r : ℕ}
    {k : Bool} {fk fk' : FunctionKind} {c : Code} (hfk : Ready syms fk) (hk : k = true → d = 0)
    (hcompile : compileExpression e d k fk = .ok (r, fk', c)) {f f' : Frame α ω} {j : ℕ}
    (hrun : Ends env syms.length c f f' j) : Unchanged syms d f f' ↔ Restored syms e d j k f := by
  have heffects := operatorsOnly_counted henv e he d k fk r fk' c hfk hk hcompile
  have hregs : ∀ t, 1 ≤ t → t ≤ syms.length → t ≠ d → f'.regs t =
      negate^[((trace (symbolsOf syms) (d ≠ 0) k e).take j).count (some t)] (f.regs t) := by
    intro t h1 hle hne
    have htraced := heffects.traced t h1 hle hne
    cases hrun with
    | behind hrun => exact htraced.negated c.length f f' (by rw [List.take_length]; exact hrun)
    | @raised j i f₁ control hi hrun hraise hcontrol =>
      have hmem := List.mem_of_getElem? hi
      -- An instruction that negates a variable in place goes on.
      have hunwritten : t ∉ i.writes := by
        intro hwrites
        have hmul := heffects.writes i hmem t hwrites h1 hle hne
        obtain ⟨opcode, r0, r1, r2⟩ := i
        cases hmul
        cases hraise
        exact hcontrol rfl
      rw [exec_asks henv (heffects.asks i hmem) hraise hunwritten]
      exact htraced.negated j f f₁ hrun
  constructor
  · intro h t h1 hle hne
    rw [← hregs t h1 hle hne]
    exact h t h1 hle hne
  · intro h t h1 hle hne
    rw [hregs t h1 hle hne]
    exact h t h1 hle hne

end

section

variable {α : Type} [NumOps α] {classes : String → Option Code} {d : Data α} {k : ControlState}
  {a : Activation} {e : Effect α}

def Keeps (d : Data α) (a : Activation) (register : ℕ) (e : Effect α) : Prop :=
  ∀ t, t ≠ register → e.data.regs a.currentContext t = d.regs a.currentContext t

theorem deliverTo_keeps {d' : Data α} (register : ℕ) (v : Reg α) (a' : Activation)
    (hcontexts : d'.contexts = d.contexts) (hcontext : a'.currentContext = a.currentContext) :
    Keeps d a register (d'.deliverTo a' register v) := by
  intro t ht
  have hregs : d'.regs a.currentContext = d.regs a.currentContext := by
    unfold Data.regs
    rw [hcontexts]
  unfold Data.deliverTo
  dsimp only
  rw [hcontext, Data.regs_setReg_self, Function.update_of_ne ht, hregs]

theorem searchThis_keeps {name : String} {register : ℕ} {a' : Activation}
    (hcontext : a'.currentContext = a.currentContext) (h : searchThis d a' name register = some e) :
    Keeps d a register e := by
  unfold searchThis at h
  obtain ⟨slot, -, h⟩ := Option.bind_eq_some_iff.mp h
  dsimp only at h
  split at h
  · cases h
    exact deliverTo_keeps _ _ _ rfl hcontext
  · split at h
    · cases h
      exact deliverTo_keeps _ _ _ rfl hcontext
    · split at h <;>
      · cases h
        exact deliverTo_keeps _ _ _ rfl hcontext

theorem getField_keeps {object : ℕ} {name : String} {register : ℕ}
    (h : getField classes d k a object name register = some e)
    (hload : ∀ className path entry, e.action ≠ .load className path entry) : Keeps d a register e := by
  unfold getField at h
  dsimp only at h
  split at h
  · cases h
    exact deliverTo_keeps _ _ _ rfl rfl
  · split at h
    · exact searchThis_keeps rfl h
    · split at h
      · split at h
        · exact searchThis_keeps rfl h
        · cases h
          exact fun _ _ => rfl
      · obtain ⟨o, -, h⟩ := Option.bind_eq_some_iff.mp h
        cases o with
        | classRef className =>
          dsimp only at h
          split at h
          · split at h
            · cases h
              exact deliverTo_keeps _ _ _ rfl rfl
            · cases h
              exact fun _ _ => rfl
          · obtain ⟨own, -, h⟩ := Option.bind_eq_some_iff.mp h
            unfold loadClass at h
            dsimp only at h
            split at h
            · cases h
              exact fun _ _ => rfl
            · obtain ⟨start, -, h⟩ := Option.bind_eq_some_iff.mp h
              obtain ⟨⟨entry, symbols⟩, -, h⟩ := Option.bind_eq_some_iff.mp h
              cases h
              exact absurd rfl (hload _ _ _)
        | instanceObject target =>
          obtain ⟨value, -, h⟩ := Option.bind_eq_some_iff.mp h
          cases value with
          | none =>
            cases h
            exact fun _ _ => rfl
          | some value =>
            cases h
            exact deliverTo_keeps _ _ _ rfl rfl
        | json | string =>
          obtain ⟨properties, -, h⟩ := Option.bind_eq_some_iff.mp h
          split at h
          · cases h
            exact deliverTo_keeps _ _ _ rfl rfl
          · cases h
            exact fun _ _ => rfl
        | functionRef => cases h
      · cases h

/-- The interpreter answers as `Reading` asks for: what an instruction of an expression does not write
is as before, when it goes on and when it raises. -/
theorem effectOther_keeps {rest : List Activation} {i : Instruction} (hi : Asks i)
    (h : effectOther classes d k a rest i = some e)
    (hload : ∀ className path entry, e.action ≠ .load className path entry) {t : ℕ}
    (ht : t ∉ i.writes) : e.data.regs a.currentContext t = d.regs a.currentContext t := by
  obtain ⟨opcode, r0, r1, r2⟩ := i
  rcases hi with rfl | rfl | rfl | ⟨op, hop⟩
  · cases h
  · cases h
    exact deliverTo_keeps r0.reg _ a rfl rfl t fun heq => ht (List.mem_singleton.mpr heq)
  · exact getField_keeps h hload t fun heq => ht (List.mem_singleton.mpr heq)
  · cases op with
    | dot =>
      cases hop
      obtain ⟨name, -, h⟩ := Option.bind_eq_some_iff.mp h
      exact getField_keeps h hload t fun heq => ht (List.mem_singleton.mpr heq)
    | add =>
      cases hop
      obtain ⟨left, -, h⟩ := Option.bind_eq_some_iff.mp h
      obtain ⟨right, -, h⟩ := Option.bind_eq_some_iff.mp h
      cases h
      exact deliverTo_keeps r2.reg _ a rfl rfl t fun heq => ht (List.mem_singleton.mpr heq)
    | div =>
      cases hop
      cases h
      rfl
    | _ => cases hop <;> cases h

end

def steady : Environment ℚ Unit where
  answer
    | .divideByZero, st => some ⟨st.vars, st.stack, st.world, none, .leave⟩
    | _, st => some ⟨st.vars, st.stack, st.world, some .null, .next⟩

theorem steady_reading : Reading steady := by
  intro q st reply hquestion h
  cases q <;> cases hquestion <;> cases h <;> rfl

def sampleFrame : Frame ℚ Unit := ⟨fun t => if t = 2 then .ofNum 5 else .ofNum 7, [], ()⟩

def negation : Code :=
  [⟨.MOV_NUMBER, .num 4, .str "-1", .num 0⟩, ⟨.MUL, .num 2, .num 4, .num 3⟩]

def negated : Frame ℚ Unit :=
  ⟨Function.update (Function.update sampleFrame.regs 4 (.ofNum (literal "-1"))) 3
    (.ofNum (NumOps.mul 5 (literal "-1"))), [], ()⟩

/-- With a destination nothing else changes. -/
theorem negated_unchanged : Unchanged sampleSymbols 3 sampleFrame negated := by
  have hcompile : compileExpression (.prefixed .minus (.ident "x")) 3 false sampleFunction =
      .ok (3, { sampleFunction with registerTable := [(4, true)] }, negation) := rfl
  have hrun : Ends steady sampleSymbols.length negation sampleFrame negated 2 := .behind rfl
  exact (unchanged_iff steady_reading rfl sampleFunction_ready (by simp) hcompile hrun).mpr
    fun _ _ _ _ => rfl

def difference : Code :=
  [⟨.MOV_NUMBER, .num 4, .str "-1", .num 0⟩, ⟨.MUL, .num 2, .num 4, .num 2⟩,
    ⟨.SUB, .num 3, .num 2, .num 4⟩]

/-- It is 12, and `x` is -5 from then on. -/
theorem difference_negates :
    compileExpression (.binary .sub (.ident "y") (.prefixed .minus (.ident "x"))) 0 false sampleFunction =
        .ok (4, { sampleFunction with registerTable := [(4, false)] }, difference) ∧
      ((execAll steady sampleSymbols.length difference sampleFrame).map fun f' =>
        (f'.regs 2, f'.regs 4)) = some (.ofNum (-5), .ofNum 12) ∧
      ¬ ∃ f', execAll steady sampleSymbols.length difference sampleFrame = some f' ∧
        Unchanged sampleSymbols 0 sampleFrame f' := by
  have hvalues : ((execAll steady sampleSymbols.length difference sampleFrame).map fun f' =>
      (f'.regs 2, f'.regs 4)) = some (.ofNum (-5), .ofNum 12) := by decide +kernel
  refine ⟨rfl, hvalues, ?_⟩
  rintro ⟨f', hrun, hunchanged⟩
  have hx := hunchanged 2 (by decide) (by decide) (by decide)
  rw [hrun, Option.map_some, hx, Option.some.injEq, Prod.mk.injEq] at hvalues
  exact absurd hvalues.1 (by decide +kernel)

end Zeroscript.OperandEffects
