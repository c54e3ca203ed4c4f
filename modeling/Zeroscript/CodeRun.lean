import Zeroscript.FrameMachine
import Zeroscript.Lib.Simulation

/-! # Runs of a frame over an instruction list

Addresses are positions in the list. A label stands for the position of its last `LABEL`, since the
assembler's map keeps the last entry. -/
namespace Zeroscript

def labelIndex : Code → String → Option ℕ
  | [], _ => none
  | i :: code, label =>
    match labelIndex code label with
    | some index => some (index + 1)
    | none => if i.opcode = .LABEL ∧ i.r0 = .str label then some 0 else none

theorem labelIndex_append (c d : Code) (label : String) :
    labelIndex (c ++ d) label =
      match labelIndex d label with
      | some index => some (c.length + index)
      | none => labelIndex c label := by
  induction c with
  | nil =>
    cases h : labelIndex d label <;> simp [h, labelIndex]
  | cons i c ih =>
    rw [List.cons_append, labelIndex, ih, labelIndex]
    cases h : labelIndex d label with
    | none => rfl
    | some index =>
      simp only [List.length_cons, Option.some.injEq]
      omega

theorem labelIndex_cons_other {i : Instruction} (hi : i.opcode ≠ .LABEL) (code : Code)
    (label : String) : labelIndex (i :: code) label = (labelIndex code label).map (· + 1) := by
  rw [labelIndex]
  cases labelIndex code label <;> simp [hi]

theorem labelIndex_lt {code : Code} {label : String} {index : ℕ}
    (h : labelIndex code label = some index) : index < code.length := by
  induction code generalizing index with
  | nil => cases h
  | cons i code ih =>
    rw [labelIndex] at h
    cases hl : labelIndex code label with
    | some k =>
      rw [hl] at h
      cases h
      exact Nat.succ_lt_succ (ih hl)
    | none =>
      rw [hl] at h
      dsimp only at h
      split at h
      · cases h
        exact Nat.succ_pos _
      · cases h

section

variable {α ω : Type} [NumOps α]

structure Point (α ω : Type) where
  pc : ℕ
  frame : Frame α ω

/-- The position an instruction at `pc` hands control to; `none` when the frame is left. -/
def target (code : Code) (pc : ℕ) : Control → Option ℕ
  | .next => some (pc + 1)
  | .jump label => labelIndex code label
  | .leave => none

def stepAt (env : Environment α ω) (n : ℕ) (code : Code) (s : Point α ω) : Option (Point α ω) := do
  let i ← code[s.pc]?
  let (frame, control) ← exec env n i s.frame
  let pc ← target code s.pc control
  return ⟨pc, frame⟩

theorem stepAt_some {env : Environment α ω} {n : ℕ} {code : Code} {s s' : Point α ω} :
    stepAt env n code s = some s' ↔ ∃ i control, code[s.pc]? = some i ∧
      exec env n i s.frame = some (s'.frame, control) ∧ target code s.pc control = some s'.pc := by
  unfold stepAt
  constructor
  · intro h
    obtain ⟨i, hi, h⟩ := Option.bind_eq_some_iff.mp h
    obtain ⟨⟨frame, control⟩, hex, h⟩ := Option.bind_eq_some_iff.mp h
    obtain ⟨pc, htarget, h⟩ := Option.bind_eq_some_iff.mp h
    cases h
    exact ⟨i, control, hi, hex, htarget⟩
  · rintro ⟨i, control, hi, hex, htarget⟩
    simp [hi, hex, htarget]

/-- Whether the instruction writes register `t` when it is executed in the frame. -/
def overwrites (env : Environment α ω) (n : ℕ) (i : Instruction) (f : Frame α ω) (t : ℕ) : Bool :=
  match execLocal i f.regs with
  | some _ =>
    decide (t ∈ i.writes) &&
      (i.opcode != .MOD || (arithmetic .MOD (f.regs i.r0.reg) (f.regs i.r1.reg)).isSome)
  | none =>
    i.opcode != .PUSH && (i.request f.regs).2 == some t &&
      ((env.answer (i.request f.regs).1 (f.store n)).bind Reply.value).isSome

/-- Two frames that differ in the content of register `t` at most, and not there unless `stale`. -/
structure Agree (stale : Bool) (t : ℕ) (f g : Frame α ω) : Prop where
  other : ∀ r, r ≠ t → f.regs r = g.regs r
  same : stale = false → f.regs t = g.regs t
  stack : f.stack = g.stack
  world : f.world = g.world

omit [NumOps α] in
theorem Agree.regs {stale : Bool} {t r : ℕ} {f g : Frame α ω} (h : Agree stale t f g)
    (hr : stale = true → r ≠ t) : f.regs r = g.regs r := by
  by_cases he : r = t
  · subst he
    cases stale with
    | false => exact h.same rfl
    | true => exact absurd rfl (hr rfl)
  · exact h.other r he

theorem Agree.store {stale : Bool} {t n : ℕ} {f g : Frame α ω} (h : Agree stale t f g)
    (ht : stale = true → n < t) : f.store n = g.store n := by
  unfold Frame.store
  rw [h.stack, h.world]
  congr 1
  funext r
  unfold named
  split
  · rename_i hr
    refine h.regs fun hs he => ?_
    have := ht hs
    omega
  · rfl

omit [NumOps α] in
theorem update_congr {regs regs' : Regs α} {d r : ℕ} {v : Reg α} (h : r = d ∨ regs r = regs' r) :
    Function.update regs d v r = Function.update regs' d v r := by
  by_cases he : r = d
  · subst he
    simp
  · rw [Function.update_of_ne he, Function.update_of_ne he]
    exact h.resolve_left he

theorem execLocal_congr {i : Instruction} {regs regs' : Regs α}
    (h : ∀ r ∈ i.reads, regs r = regs' r) :
    (execLocal i regs = none ∧ execLocal i regs' = none) ∨
      ∃ out out' c, execLocal i regs = some (out, c) ∧ execLocal i regs' = some (out', c) ∧
        ∀ r, (regs r = regs' r ∨ r ∈ i.writes ∧ (i.opcode = .MOD →
          (arithmetic .MOD (regs i.r0.reg) (regs i.r1.reg)).isSome)) → out r = out' r := by
  obtain ⟨opcode, r0, r1, r2⟩ := i
  cases opcode <;>
    simp only [Instruction.reads, List.mem_cons, List.not_mem_nil, or_false, forall_eq_or_imp,
      forall_eq] at h <;>
    simp only [execLocal, Opcode.jumpRel, Opcode.immediateRel, Instruction.writes, List.mem_cons,
      List.not_mem_nil, or_false, h]
  case ADD | DIV =>
    cases arithmetic _ (regs' r0.reg) (regs' r1.reg) with
    | none => exact Or.inl ⟨rfl, rfl⟩
    | some v => exact Or.inr ⟨_, _, _, rfl, rfl, fun r hr => update_congr (hr.symm.imp_left And.left)⟩
  case MOD =>
    cases hv : arithmetic .MOD (regs' r0.reg) (regs' r1.reg) with
    | none => exact Or.inr ⟨_, _, _, rfl, rfl, fun r hr => hr.resolve_right (by simp)⟩
    | some v => exact Or.inr ⟨_, _, _, rfl, rfl, fun r hr => update_congr (hr.symm.imp_left And.left)⟩
  case INC | DEC =>
    refine Or.inr ⟨_, _, _, rfl, rfl, fun r hr => ?_⟩
    by_cases he : r = r1.reg
    · exact update_congr (Or.inl he)
    · refine update_congr (Or.inr (update_congr ?_))
      rcases hr with hr | ⟨hr | hr, -⟩
      · exact Or.inr hr
      · exact Or.inl hr
      · exact absurd hr he
  case MOV_NUMBER | MOV | SUB | MUL | CMP_EQUAL | CMP_LESS | CMP_LESS_OR_EQUAL | CMP_GREATER
      | CMP_N_EQUAL | CMP_GREATER_OR_EQUAL =>
    exact Or.inr ⟨_, _, _, rfl, rfl, fun r hr => update_congr (hr.symm.imp_left And.left)⟩
  case JMP_TRUE | JMP_NOT_TRUE | JMP | NOP | COMMENT | LABEL | JMP_LESS | JMP_GREATER
      | JMP_LESS_OR_EQUAL | JMP_GREATER_OR_EQUAL | JMP_EQUAL | JMP_N_EQUAL | JMP_LESS_I
      | JMP_GREATER_I | JMP_LESS_OR_EQUAL_I | JMP_GREATER_OR_EQUAL_I | JMP_EQUAL_I | JMP_N_EQUAL_I =>
    exact Or.inr ⟨_, _, _, rfl, rfl, fun r hr => hr.resolve_right (by simp)⟩
  all_goals exact Or.inl ⟨rfl, rfl⟩

omit [NumOps α] in
theorem request_congr {i : Instruction} {regs regs' : Regs α}
    (h : ∀ r ∈ i.reads, regs r = regs' r) : i.request regs = i.request regs' := by
  obtain ⟨opcode, r0, r1, r2⟩ := i
  cases opcode <;>
    simp only [Instruction.reads, List.mem_cons, List.not_mem_nil, or_false, forall_eq_or_imp,
      forall_eq] at h <;>
    simp only [Instruction.request, h]

omit [NumOps α] in
theorem receive_agree {n t : ℕ} {d : Option ℕ} {reply : Reply α ω} {f g : Frame α ω} {stale : Bool}
    (h : Agree stale t f g) :
    Agree (stale && !((d == some t) && reply.value.isSome)) t (f.receive n d reply)
      (g.receive n d reply) := by
  have hregs : ∀ r, (f.regs r = g.regs r ∨ d = some r ∧ reply.value.isSome) →
      (f.receive n d reply).regs r = (g.receive n d reply).regs r := by
    intro r hr
    unfold Frame.receive
    match d, hv : reply.value with
    | none, _ => simp_all
    | some d, none => simp_all
    | some d, some v =>
      dsimp only
      refine update_congr ?_
      rcases hr with hr | ⟨hr, -⟩
      · exact Or.inr (by simp [hr])
      · exact Or.inl (Option.some.inj hr).symm
  refine ⟨fun r hr => hregs r (Or.inl (h.other r hr)), fun hs => hregs t ?_, rfl, rfl⟩
  cases stale with
  | false => exact Or.inl (h.same rfl)
  | true => simpa [Bool.and_eq_true] using Or.inr hs

/-- One instruction in two frames that agree: it does the same, and the frames agree afterwards, on
a stale register too once it has been written. -/
theorem exec_agree {env : Environment α ω} {n t : ℕ} {i : Instruction} {f g f' : Frame α ω}
    {c : Control} {stale : Bool} (h : Agree stale t f g) (ht : stale = true → n < t)
    (hread : stale = true → t ∉ i.reads) (hex : exec env n i f = some (f', c)) :
    ∃ g', exec env n i g = some (g', c) ∧ Agree (stale && !overwrites env n i f t) t f' g' := by
  have hreads : ∀ r ∈ i.reads, f.regs r = g.regs r :=
    fun r hr => h.regs fun hs he => hread hs (he ▸ hr)
  rcases execLocal_congr hreads with ⟨hf, hg⟩ | ⟨out, out', c', hf, hg, hout⟩
  · have hrequest := request_congr hreads
    unfold exec at hex ⊢
    rw [hf] at hex
    rw [hg]
    dsimp only at hex ⊢
    by_cases hpush : i.opcode = .PUSH
    · simp only [hpush, Option.some.injEq, Prod.mk.injEq] at hex ⊢
      obtain ⟨rfl, rfl⟩ := hex
      refine ⟨_, ⟨rfl, rfl⟩, ?_⟩
      have hval : f.regs i.r0.reg = g.regs i.r0.reg := hreads _ (by simp [Instruction.reads, hpush])
      have hover : overwrites env n i f t = false := by simp [overwrites, hf, hpush]
      rw [hover, Bool.not_false, Bool.and_true]
      exact ⟨h.other, h.same, by rw [hval, h.stack], h.world⟩
    · have hmap : (env.answer (i.request f.regs).1 (f.store n)).map
          (fun reply => (f.receive n (i.request f.regs).2 reply, reply.control)) = some (f', c) := by
        split at hex
        · exact absurd ‹_› hpush
        · exact hex
      obtain ⟨reply, hreply, hpair⟩ := Option.map_eq_some_iff.mp hmap
      cases hpair
      refine ⟨g.receive n (i.request g.regs).2 reply, ?_, ?_⟩
      · split
        · exact absurd ‹_› hpush
        · rw [← hrequest, ← h.store ht, hreply]
          rfl
      · have hover : overwrites env n i f t =
            (((i.request f.regs).2 == some t) && reply.value.isSome) := by
          have hne : (i.opcode != .PUSH) = true := by simpa using hpush
          simp [overwrites, hf, hreply, hne]
        rw [hover, ← hrequest]
        exact receive_agree h
  · unfold exec at hex ⊢
    rw [hf] at hex
    rw [hg]
    cases hex
    refine ⟨{ g with regs := out' }, rfl, ?_⟩
    refine ⟨fun r hr => hout r (Or.inl (h.other r hr)), fun hs => hout t ?_, h.stack, h.world⟩
    cases stale with
    | false => exact Or.inl (h.same rfl)
    | true =>
      simp only [Bool.true_and, Bool.not_eq_false', overwrites, hf, Bool.and_eq_true,
        decide_eq_true_eq, Bool.or_eq_true, bne_iff_ne, ne_eq] at hs
      exact Or.inr ⟨hs.1, fun hmod => hs.2.resolve_left fun hne => hne hmod⟩

end

end Zeroscript
