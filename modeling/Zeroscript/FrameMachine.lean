import Zeroscript.Register

/-! # One frame and its surroundings

The instructions of one activation run on its register file. What an instruction asks of the rest
of the interpreter (the heap, callees, the class tables) is a `Request`; an `Environment` answers
it. The environment sees the values passed to it and the registers that have a name, which
closures and by-name accesses reach, and nothing of the temporaries. -/
namespace Zeroscript

inductive Request (α : Type) where
  /-- `OP_MOV_STR`. -/
  | string (text : String)
  /-- `OP_MOV_FNC`. -/
  | function (label : String) (isAsync : ℕ)
  /-- The string branches of `OP_ADD`. -/
  | concat (a b : Reg α)
  | divideByZero
  /-- `OP_GET_FIELD_IMMEDIATE`; the object is register 1 when `onThis`. -/
  | lookup (onThis : Bool) (object : Reg α) (name : String)
  /-- `OP_GET_FIELD`. -/
  | getField (onThis : Bool) (object key : Reg α)
  /-- `OP_SET_FIELD`. -/
  | setField (onThis : Bool) (object key value : Reg α)
  | call (callee : Reg α) (arity : ℕ)
  | throwing (value : Reg α)
  | returning (value : Reg α)
  /-- The instructions that address no register: handlers, imports, frame creation, `POP`. -/
  | other (i : Instruction)
  deriving Repr

/-- The answer to a request: the named registers, the value stack and the surroundings afterwards,
the value for the destination register if one is written, and where control goes. -/
structure Reply (α ω : Type) where
  vars : Regs α
  stack : List (Reg α)
  world : ω
  value : Option (Reg α)
  control : Control

/-- The named registers of a frame, its value stack (top first) and its surroundings. -/
structure Store (α ω : Type) where
  vars : Regs α
  stack : List (Reg α)
  world : ω

/-- `none` means that no answer ever comes. -/
structure Environment (α ω : Type) where
  answer : Request α → Store α ω → Option (Reply α ω)

structure Frame (α ω : Type) where
  regs : Regs α
  stack : List (Reg α)
  world : ω

section

variable {α ω : Type} [NumOps α]

/-- Registers 1 to `n` have a name; the others are not seen from outside. -/
def named (n : ℕ) (regs : Regs α) : Regs α :=
  fun r => if 1 ≤ r ∧ r ≤ n then regs r else .null

def Frame.store (n : ℕ) (f : Frame α ω) : Store α ω := ⟨named n f.regs, f.stack, f.world⟩

/-- The request an instruction makes that is not local, and the register for the answer's value. -/
def Instruction.request (i : Instruction) (regs : Regs α) : Request α × Option ℕ :=
  let a := regs i.r0.reg
  let b := regs i.r1.reg
  match i.opcode with
  | .MOV_STR => (.string i.r1.text, some i.r0.reg)
  | .MOV_FNC => (.function i.r1.text i.r2.reg, some i.r0.reg)
  | .ADD => (.concat a b, some i.r2.reg)
  | .DIV => (.divideByZero, none)
  | .GET_FIELD_IMMEDIATE => (.lookup (i.r0.reg == 1) a i.r1.text, some i.r2.reg)
  | .GET_FIELD => (.getField (i.r0.reg == 1) a b, some i.r2.reg)
  | .SET_FIELD => (.setField (i.r0.reg == 1) a b (regs i.r2.reg), none)
  | .CALL => (.call a i.r2.reg, some i.r1.reg)
  | .THROW_EXCEPTION => (.throwing a, none)
  | .RETURN => (.returning a, none)
  | .POP => (.other i, some i.r0.reg)
  | .CREATE_THIS => (.other i, some 1)
  | _ => (.other i, none)

/-- The frame after an answer: named registers from the answer, temporaries as they were. -/
def Frame.receive (n : ℕ) (f : Frame α ω) (destination : Option ℕ) (reply : Reply α ω) :
    Frame α ω :=
  let regs : Regs α := fun r => if 1 ≤ r ∧ r ≤ n then reply.vars r else f.regs r
  { regs := match destination, reply.value with
      | some d, some v => Function.update regs d v
      | _, _ => regs
    stack := reply.stack
    world := reply.world }

/-- The argument registers that `OP_FFRAME` fills by popping `count` values: the first 3 locals are
not arguments. -/
def placeArguments (count : ℕ) (stack : List (Reg α)) : Regs α :=
  fun r => if 3 ≤ r ∧ r < count + 3 then stack.getD (r - 3) .null else .null

/-- One instruction in a frame whose symbol table has `n` entries. -/
def exec (env : Environment α ω) (n : ℕ) (i : Instruction) (f : Frame α ω) :
    Option (Frame α ω × Control) :=
  match execLocal i f.regs with
  | some (regs, control) => some ({ f with regs := regs }, control)
  | none =>
    match i.opcode with
    | .PUSH => some ({ f with stack := f.regs i.r0.reg :: f.stack }, .next)
    | _ =>
      let (request, destination) := i.request f.regs
      (env.answer request (f.store n)).map fun reply =>
        (f.receive n destination reply, reply.control)

def quiet : Environment α Unit where
  answer _ st := some ⟨st.vars, st.stack, st.world, some .null, .next⟩

def execAll (env : Environment α ω) (n : ℕ) : Code → Frame α ω → Option (Frame α ω)
  | [], f => some f
  | i :: code, f =>
    match exec env n i f with
    | some (f', .next) => execAll env n code f'
    | _ => none

theorem exec_request {env : Environment α ω} {n : ℕ} {i : Instruction} {f : Frame α ω} {q : Request α} {d : Option ℕ}
    (hlocal : execLocal i f.regs = none) (hpush : i.opcode ≠ .PUSH)
    (hreq : i.request f.regs = (q, d)) :
    exec env n i f =
      (env.answer q (f.store n)).map fun reply => (f.receive n d reply, reply.control) := by
  unfold exec
  rw [hlocal, hreq]
  dsimp only
  split
  · exact absurd ‹_› hpush
  · rfl

theorem exec_compare {env : Environment α ω} {n : ℕ} {i : Instruction} {rel : Rel} (h : i.opcode.compareRel = some rel)
    (f : Frame α ω) :
    let v : Reg α := .ofBool (rel.holds (f.regs i.r0.reg).number (f.regs i.r1.reg).number)
    exec env n i f = some ({ f with regs := Function.update f.regs i.r2.reg v }, .next) := by
  obtain ⟨opcode, r0, r1, r2⟩ := i
  cases opcode <;> cases h <;> rfl

theorem exec_compareJump {env : Environment α ω} {n : ℕ} {i : Instruction} {rel : Rel} (h : i.opcode.jumpRel = some rel)
    (f : Frame α ω) :
    exec env n i f =
      some (f, branch (rel.holds (f.regs i.r0.reg).number (f.regs i.r1.reg).number) i.r2) := by
  obtain ⟨opcode, r0, r1, r2⟩ := i
  cases opcode <;> cases h <;> rfl

theorem exec_immediateJump {env : Environment α ω} {n : ℕ} {i : Instruction} {rel : Rel} (h : i.opcode.immediateRel = some rel)
    (f : Frame α ω) :
    exec env n i f =
      some (f, branch (rel.holdsImmediate (f.regs i.r0.reg).number (literal i.r1.text)) i.r2) := by
  obtain ⟨opcode, r0, r1, r2⟩ := i
  cases opcode <;> cases h <;> rfl

theorem execAll_append (env : Environment α ω) (n : ℕ) (c d : Code) (f : Frame α ω) :
    execAll env n (c ++ d) f = (execAll env n c f).bind (execAll env n d) := by
  induction c generalizing f with
  | nil => rfl
  | cons i c ih =>
    rw [List.cons_append, execAll, execAll]
    split
    · exact ih _
    · rfl

theorem execLocal_unwritten {i : Instruction} {regs regs' : Regs α} {c : Control}
    (h : execLocal i regs = some (regs', c)) {t : ℕ} (ht : t ∉ i.writes) : regs' t = regs t := by
  obtain ⟨opcode, r0, r1, r2⟩ := i
  cases opcode <;>
    simp only [execLocal, Instruction.writes, Opcode.jumpRel, Opcode.immediateRel,
      Option.some.injEq, Prod.mk.injEq, List.mem_cons, List.not_mem_nil, or_false, not_or,
      not_false_eq_true, Option.map_eq_some_iff, arithmetic, Opcode.compareRel, Option.map_none,
      reduceCtorEq] at h ht
  case MOD =>
    split at h <;> obtain ⟨rfl, rfl⟩ := by simpa using h
    · exact Function.update_of_ne ht _ _
    · rfl
  case INC | DEC =>
    obtain ⟨rfl, rfl⟩ := h
    rw [Function.update_of_ne ht.2, Function.update_of_ne ht.1]
  case ADD | DIV =>
    obtain ⟨v, _, rfl, rfl⟩ := h
    exact Function.update_of_ne ht _ _
  case SUB | MUL | CMP_EQUAL | CMP_LESS | CMP_LESS_OR_EQUAL | CMP_GREATER | CMP_N_EQUAL
      | CMP_GREATER_OR_EQUAL =>
    obtain ⟨v, _, rfl, rfl⟩ := h
    exact Function.update_of_ne ht _ _
  case MOV_NUMBER | MOV =>
    obtain ⟨rfl, rfl⟩ := h
    exact Function.update_of_ne ht _ _
  all_goals exact congrFun h.1.symm t

omit [NumOps α] in
theorem request_destination {i : Instruction} {regs : Regs α} {d : ℕ}
    (h : (i.request regs).2 = some d) : d ∈ i.writes := by
  obtain ⟨opcode, r0, r1, r2⟩ := i
  cases opcode <;> simp_all [Instruction.request, Instruction.writes]

omit [NumOps α] in
theorem receive_unwritten {n : ℕ} {f : Frame α ω} {d : Option ℕ} {reply : Reply α ω} {t : ℕ}
    (hn : n < t) (hd : d ≠ some t) : (f.receive n d reply).regs t = f.regs t := by
  have hnamed : ¬ (1 ≤ t ∧ t ≤ n) := by omega
  unfold Frame.receive
  cases d with
  | none => simp [hnamed]
  | some d =>
    cases reply.value with
    | none => simp [hnamed]
    | some v =>
      have hne : t ≠ d := fun he => hd (he ▸ rfl)
      simp [Function.update_of_ne hne, hnamed]

theorem exec_unwritten {env : Environment α ω} {n : ℕ} {i : Instruction} {f f' : Frame α ω}
    {c : Control} (h : exec env n i f = some (f', c)) {t : ℕ} (hn : n < t) (ht : t ∉ i.writes) :
    f'.regs t = f.regs t := by
  unfold exec at h
  split at h
  · rename_i hl
    cases h
    exact execLocal_unwritten hl ht
  · split at h
    · cases h
      rfl
    · obtain ⟨reply, _, hr⟩ := Option.map_eq_some_iff.mp h
      cases hr
      exact receive_unwritten hn fun hd => ht (request_destination hd)

theorem receive_unchanged {n : ℕ} {f : Frame α ω} {d : Option ℕ} {value : Option (Reg α)}
    {stack : List (Reg α)} {world : ω} {control : Control} {t : ℕ} (hd : d ≠ some t) :
    (f.receive n d ⟨named n f.regs, stack, world, value, control⟩).regs t = f.regs t := by
  have hnamed : (if 1 ≤ t ∧ t ≤ n then named n f.regs t else f.regs t) = f.regs t := by
    unfold named
    split <;> rfl
  unfold Frame.receive
  match d, value with
  | none, _ => exact hnamed
  | some d, none => exact hnamed
  | some d, some v =>
    have hne : t ≠ d := fun he => hd (he ▸ rfl)
    simp only [Function.update_of_ne hne]
    exact hnamed

theorem quiet_unwritten {n : ℕ} {i : Instruction} {f f' : Frame α Unit} {c : Control}
    (h : exec quiet n i f = some (f', c)) {t : ℕ} (ht : t ∉ i.writes) : f'.regs t = f.regs t := by
  unfold exec at h
  split at h
  · rename_i hl
    cases h
    exact execLocal_unwritten hl ht
  · split at h
    · cases h
      rfl
    · obtain ⟨reply, hreply, hr⟩ := Option.map_eq_some_iff.mp h
      cases hreply
      cases hr
      exact receive_unchanged fun hd => ht (request_destination hd)

theorem execAll_unwritten {env : Environment α ω} {n : ℕ} {code : Code} {f f' : Frame α ω}
    (h : execAll env n code f = some f') {t : ℕ} (hn : n < t) (ht : ∀ i ∈ code, t ∉ i.writes) :
    f'.regs t = f.regs t := by
  induction code generalizing f with
  | nil =>
    cases h
    rfl
  | cons i code ih =>
    rw [execAll] at h
    split at h
    · rename_i f₁ he
      have h₁ := exec_unwritten he hn (ht i List.mem_cons_self)
      have h₂ := ih h fun j hj => ht j (List.mem_cons_of_mem i hj)
      exact h₂.trans h₁
    · cases h

end

end Zeroscript
