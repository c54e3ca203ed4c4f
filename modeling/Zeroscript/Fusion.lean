import Zeroscript.BytecodeOptimizer
import Zeroscript.CodeRun
import Zeroscript.Compiler
import Zeroscript.Number

/-! # Fusing a test into a jump

Two of the optimizer's rewrites replace an instruction that writes register `t` and a jump by one
jump, and drop the write. A run of the original is careful when `t` is not read between a fused
pair and the next write of it; the rewritten list then follows it step for step. -/
namespace Zeroscript.Fusion

open Relation (ReflTransGen)

section

variable {α ω : Type} [NumOps α] {env : Environment α ω} {n t : ℕ} {before after : Code}
  {a b c : Instruction}

def shift (k pc : ℕ) : ℕ := if pc ≤ k then pc else pc - 1

/-- A run of the original remembers whether register `t` is stale: the pair has run, and nothing
has written `t` since. -/
structure Watched (α ω : Type) where
  point : Point α ω
  stale : Bool

/-- A step of the original that does not read a stale register, and that enters the pair in a
frame satisfying `Ok` only. -/
structure CarefulStep (env : Environment α ω) (n t : ℕ) (before after : Code) (a b : Instruction)
    (Ok : Frame α ω → Prop) (s s' : Watched α ω) : Prop where
  step : stepAt env n (before ++ a :: b :: after) s.point = some s'.point
  stale : s'.stale = if s.point.pc = before.length + 1 then true else
    s.stale && !(((before ++ a :: b :: after)[s.point.pc]?.map
      fun i => overwrites env n i s.point.frame t).getD false)
  unread : s.stale = true → ∀ i, (before ++ a :: b :: after)[s.point.pc]? = some i → t ∉ i.reads
  ok : s.point.pc = before.length → Ok s.point.frame

/-- What the fused instruction `c` has to do with the pair `a`, `b`, on frames that agree. -/
structure Fuses (env : Environment α ω) (n t : ℕ) (Ok : Frame α ω → Prop) (a b c : Instruction) :
    Prop where
  labelA : a.opcode ≠ .LABEL
  labelB : b.opcode ≠ .LABEL
  labelC : c.opcode ≠ .LABEL
  pair : ∀ (stale : Bool) (f g : Frame α ω), Agree stale t f g → Ok f →
    (stale = true → t ∉ a.reads) → n < t ∧ ∃ v control,
      exec env n a f = some ({ f with regs := Function.update f.regs t v }, .next) ∧
      exec env n b { f with regs := Function.update f.regs t v } =
        some ({ f with regs := Function.update f.regs t v }, control) ∧
      exec env n c g = some (g, control)

/-- A state of the original and the state of the rewritten list that follows it. Between the two
instructions of the pair the rewritten list has not moved yet. -/
inductive Matched (env : Environment α ω) (n t k : ℕ) (b c : Instruction) (s : Watched α ω)
    (q : Point α ω) : Prop where
  | aligned (hpc : s.point.pc ≠ k + 1) (hq : q.pc = shift k s.point.pc)
      (hagree : Agree s.stale t s.point.frame q.frame) (htemp : s.stale = true → n < t)
  | between (control : Control) (hpc : s.point.pc = k + 1) (hq : q.pc = k)
      (hagree : Agree true t s.point.frame q.frame) (htemp : n < t)
      (hb : exec env n b s.point.frame = some (s.point.frame, control))
      (hc : exec env n c q.frame = some (q.frame, control))

theorem lookup_aligned {pc : ℕ} {i : Instruction} (h₁ : pc ≠ before.length)
    (h₂ : pc ≠ before.length + 1) (hi : (before ++ a :: b :: after)[pc]? = some i) :
    (before ++ c :: after)[shift before.length pc]? = some i := by
  unfold shift
  rcases Nat.lt_or_ge pc before.length with hlt | hge
  · rw [if_pos (by omega), List.getElem?_append_left hlt]
    rwa [List.getElem?_append_left hlt] at hi
  · obtain ⟨m, rfl⟩ : ∃ m, pc = before.length + (m + 2) := ⟨pc - before.length - 2, by omega⟩
    rw [List.getElem?_append_right (by omega), Nat.add_sub_cancel_left] at hi
    rw [if_neg (by omega), List.getElem?_append_right (by omega),
      show before.length + (m + 2) - 1 - before.length = m + 1 by omega]
    exact hi

theorem labelIndex_shift (ha : a.opcode ≠ .LABEL) (hb : b.opcode ≠ .LABEL) (hc : c.opcode ≠ .LABEL)
    {label : String} {pc : ℕ} (h : labelIndex (before ++ a :: b :: after) label = some pc) :
    pc ≠ before.length + 1 ∧
      labelIndex (before ++ c :: after) label = some (shift before.length pc) := by
  rw [labelIndex_append, labelIndex_cons_other ha, labelIndex_cons_other hb] at h
  rw [labelIndex_append, labelIndex_cons_other hc]
  unfold shift
  cases hl : labelIndex after label with
  | some index =>
    simp only [hl, Option.map_some, Option.some.injEq] at h ⊢
    subst h
    rw [if_neg (by omega)]
    omega
  | none =>
    simp only [hl, Option.map_none] at h ⊢
    have := labelIndex_lt h
    rw [if_pos (by omega)]
    exact ⟨by omega, h⟩

theorem target_aligned (hf : Fuses env n t Ok a b c) {pc pc' : ℕ} {control : Control}
    (h₁ : pc ≠ before.length) (h₂ : pc ≠ before.length + 1)
    (h : target (before ++ a :: b :: after) pc control = some pc') :
    pc' ≠ before.length + 1 ∧
      target (before ++ c :: after) (shift before.length pc) control =
        some (shift before.length pc') := by
  cases control with
  | next =>
    cases h
    refine ⟨by omega, ?_⟩
    simp only [target, shift, Option.some.injEq]
    split <;> split <;> omega
  | jump label => exact labelIndex_shift hf.labelA hf.labelB hf.labelC h
  | leave => cases h

theorem target_fused (hf : Fuses env n t Ok a b c) {pc' : ℕ} {control : Control}
    (h : target (before ++ a :: b :: after) (before.length + 1) control = some pc') :
    pc' ≠ before.length + 1 ∧
      target (before ++ c :: after) before.length control = some (shift before.length pc') := by
  cases control with
  | next =>
    cases h
    refine ⟨by omega, ?_⟩
    simp only [target, shift, Option.some.injEq]
    split <;> omega
  | jump label => exact labelIndex_shift hf.labelA hf.labelB hf.labelC h
  | leave => cases h

theorem fused_step (hf : Fuses env n t Ok a b c) :
    Simulation.Forward (CarefulStep env n t before after a b Ok)
      (fun q q' => stepAt env n (before ++ c :: after) q = some q')
      (Matched env n t before.length b c) := by
  intro s s' q hmatch hstep
  obtain ⟨i, control, hi, hex, htarget⟩ := stepAt_some.mp hstep.step
  cases hmatch with
  | between control' hpc hq hagree htemp hb hc =>
    -- The second instruction of the pair: the fused jump moves now.
    rw [hpc] at hi htarget
    rw [List.getElem?_append_right (by omega), Nat.add_sub_cancel_left] at hi
    cases hi
    obtain ⟨hframe, rfl⟩ := Prod.mk.inj (Option.some.inj (hb.symm.trans hex))
    obtain ⟨hne, htarget'⟩ := target_fused hf htarget
    refine ⟨⟨shift before.length s'.point.pc, q.frame⟩, .single ?_, .aligned hne rfl ?_ fun _ => htemp⟩
    · refine stepAt_some.mpr ⟨c, _, ?_, hc, hq ▸ htarget'⟩
      rw [hq, List.getElem?_append_right (Nat.le_refl _), Nat.sub_self]
      rfl
    · have hstale := hstep.stale
      rw [if_pos hpc] at hstale
      rw [hstale, ← hframe]
      exact hagree
  | aligned hpc hq hagree htemp =>
    by_cases hk : s.point.pc = before.length
    · -- The first instruction of the pair: the rewritten list waits.
      rw [hk] at hi htarget
      rw [List.getElem?_append_right (Nat.le_refl _), Nat.sub_self] at hi
      cases hi
      have hread : s.stale = true → t ∉ a.reads := fun hs => hstep.unread hs a (by
        rw [hk, List.getElem?_append_right (Nat.le_refl _), Nat.sub_self]
        rfl)
      obtain ⟨hn, v, control', ha, hb, hc⟩ := hf.pair s.stale _ _ hagree (hstep.ok hk) hread
      obtain ⟨hframe, rfl⟩ := Prod.mk.inj (Option.some.inj (hex.symm.trans ha))
      refine ⟨q, .refl, .between control' (Option.some.inj htarget).symm ?_ ?_ hn (hframe ▸ hb) hc⟩
      · rw [hq, hk, shift, if_pos (Nat.le_refl _)]
      · rw [hframe]
        exact ⟨fun r hr => (Function.update_of_ne hr _ _).trans (hagree.other r hr),
          nofun, hagree.stack, hagree.world⟩
    · obtain ⟨frame, hex', hagree'⟩ := exec_agree hagree htemp
        (fun hs => hstep.unread hs i hi) hex
      obtain ⟨hne, htarget'⟩ := target_aligned hf hk hpc htarget
      refine ⟨⟨shift before.length s'.point.pc, frame⟩, .single ?_, .aligned hne rfl ?_ fun hs => ?_⟩
      · exact stepAt_some.mpr ⟨i, control, hq ▸ lookup_aligned hk hpc hi, hex', hq ▸ htarget'⟩
      · rw [hstep.stale, if_neg hpc, hi]
        exact hagree'
      · rw [hstep.stale, if_neg hpc, Bool.and_eq_true] at hs
        exact htemp hs.1

/-- The rewritten list is where the original is, with the same variables, stack and surroundings. -/
structure Follows (k n : ℕ) (s q : Point α ω) : Prop where
  outside : s.pc ≠ k + 1 → q.pc = shift k s.pc
  inside : s.pc = k + 1 → q.pc = k
  vars : ∀ r, 1 ≤ r → r ≤ n → q.frame.regs r = s.frame.regs r
  stack : q.frame.stack = s.frame.stack
  world : q.frame.world = s.frame.world

theorem Matched.follows {k : ℕ} {s : Watched α ω} {q : Point α ω}
    (h : Matched env n t k b c s q) : Follows k n s.point q := by
  cases h with
  | aligned hpc hq hagree htemp =>
    refine ⟨fun _ => hq, fun he => absurd he hpc, fun r _ hr => (hagree.regs fun hs => ?_).symm,
      hagree.stack.symm, hagree.world.symm⟩
    have := htemp hs
    omega
  | between control hpc hq hagree htemp _ _ =>
    refine ⟨fun he => absurd hpc he, fun _ => hq, fun r _ hr => (hagree.other r ?_).symm,
      hagree.stack.symm, hagree.world.symm⟩
    omega

/-- Along a careful run of the original, from any point but the middle of the pair. -/
theorem fused_run {Ok : Frame α ω → Prop} (hf : Fuses env n t Ok a b c) {start : Point α ω}
    {s : Watched α ω} (hstart : start.pc ≠ before.length + 1)
    (path : ReflTransGen (CarefulStep env n t before after a b Ok) ⟨start, false⟩ s) :
    ∃ q, ReflTransGen (fun q q' => stepAt env n (before ++ c :: after) q = some q')
        ⟨shift before.length start.pc, start.frame⟩ q ∧ Follows before.length n s.point q := by
  have hinit : Matched env n t before.length b c ⟨start, false⟩
      ⟨shift before.length start.pc, start.frame⟩ :=
    .aligned hstart rfl ⟨fun _ _ => rfl, fun _ => rfl, rfl, rfl⟩ nofun
  obtain ⟨q, hpath, hmatch⟩ := (fused_step hf).run hinit path
  exact ⟨q, hpath, hmatch.follows⟩

/-- The fused list follows every run of the original, from any point but the middle of the pair. -/
def Faithful (α : Type) [NumOps α] (n k : ℕ) (original fused : Code) : Prop :=
  ∀ (ω : Type) (env : Environment α ω) (start s : Point α ω), start.pc ≠ k + 1 →
    ReflTransGen (fun s s' => stepAt env n original s = some s') start s →
    ∃ q, ReflTransGen (fun q q' => stepAt env n fused q = some q') ⟨shift k start.pc, start.frame⟩ q ∧
      Follows k n s q

theorem quiet_run {n r : ℕ} {code : Code} (hcode : ∀ i ∈ code, r ∉ i.writes) {s q : Point α Unit}
    (path : ReflTransGen (fun q q' => stepAt quiet n code q = some q') s q) :
    q.frame.regs r = s.frame.regs r := by
  induction path with
  | refl => rfl
  | tail _ hstep ih =>
    obtain ⟨i, control, hi, hex, -⟩ := stepAt_some.mp hstep
    exact (quiet_unwritten hex (hcode i (List.mem_of_getElem? hi))).trans ih

/-- The instructions of a class with parameters `a` and `b` before its body. -/
def samplePrologue (locals : ℕ) (names : List String) : Code :=
  [⟨.LABEL, .str "T", .num 0, .num 0⟩,
    ⟨.FFRAME, .num locals, .symbols (names.map (·, false)), .str "endT"⟩,
    ⟨.CREATE_THIS, .num 0, .num 0, .num 0⟩, ⟨.POP, .num 2, .num 0, .num 0⟩,
    ⟨.POP, .num 3, .num 0, .num 0⟩]

def sampleEpilogue : Code :=
  [⟨.LABEL, .str ".else_1", .num 0, .num 0⟩, ⟨.LABEL, .str ".end_cond_2", .num 0, .num 0⟩,
    ⟨.RETURN, .num 0, .num 0, .num 0⟩, ⟨.LABEL, .str "endT", .num 0, .num 0⟩]

end

def negate : Rel → Rel
  | .equal => .notEqual
  | .notEqual => .equal
  | .less => .greaterOrEqual
  | .lessOrEqual => .greater
  | .greater => .lessOrEqual
  | .greaterOrEqual => .less

theorem holds_negate (rel : Rel) (x y : ℚ) : (negate rel).holds x y = !rel.holds x y := by
  rw [Bool.eq_iff_iff]
  cases rel <;> simp [negate, Rel.holds, NumOps.eq, NumOps.lt, NumOps.le]

theorem compareJump_rel {opcode opcode' : Opcode} {neg : Bool}
    (h : opcode.compareJump neg = some opcode') :
    ∃ rel, opcode.compareRel = some rel ∧
      opcode'.jumpRel = some (if neg then negate rel else rel) := by
  cases opcode <;> cases h <;> cases neg <;> exact ⟨_, rfl, rfl⟩

theorem truthy_ofBool (b : Bool) : (Reg.ofBool b : Reg ℚ).val.truthy = b := by
  cases b <;> rfl

theorem compareRel_label {opcode : Opcode} {rel : Rel} (h : opcode.compareRel = some rel) :
    opcode ≠ .LABEL := by
  rintro rfl
  cases h

theorem jumpRel_label {opcode : Opcode} {rel : Rel} (h : opcode.jumpRel = some rel) :
    opcode ≠ .LABEL := by
  rintro rfl
  cases h

theorem immediateRel_label {opcode : Opcode} {rel : Rel} (h : opcode.immediateRel = some rel) :
    opcode ≠ .LABEL := by
  rintro rfl
  cases h

theorem compare_reads {i : Instruction} {rel : Rel} (h : i.opcode.compareRel = some rel) :
    i.reads = [i.r0.reg, i.r1.reg] := by
  obtain ⟨opcode, r0, r1, r2⟩ := i
  cases opcode <;> cases h <;> rfl

theorem fuseJump_fuses {ω : Type} {env : Environment ℚ ω} {n : ℕ} {cmp jmp fused : Instruction}
    (hf : fuseJump cmp jmp = some fused) :
    Fuses env n cmp.r2.reg (fun _ => jmp.r0 = cmp.r2 ∧ n < cmp.r2.reg) cmp jmp fused := by
  unfold fuseJump at hf
  split at hf
  · rename_i hjmp
    obtain ⟨opcode, hopcode, rfl⟩ := Option.map_eq_some_iff.mp hf
    obtain ⟨rel, hrel, hjump⟩ := compareJump_rel hopcode
    refine ⟨compareRel_label hrel, ?_, jumpRel_label hjump, ?_⟩
    · rcases hjmp with h | h <;> simp [h]
    · rintro stale f g hagree ⟨htest, hn⟩ hread
      refine ⟨hn, _, branch ((if jmp.opcode == .JMP_NOT_TRUE then negate rel else rel).holds
        (f.regs cmp.r0.reg).number (f.regs cmp.r1.reg).number) jmp.r1, exec_compare hrel f, ?_, ?_⟩
      · rcases hjmp with h | h <;>
          simp [exec, execLocal, h, htest, truthy_ofBool, holds_negate]
      · rw [compare_reads hrel] at hread
        have h0 : f.regs cmp.r0.reg = g.regs cmp.r0.reg :=
          hagree.regs fun hs he => hread hs (he ▸ List.mem_cons_self)
        have h1 : f.regs cmp.r1.reg = g.regs cmp.r1.reg :=
          hagree.regs fun hs he => hread hs (he ▸ List.mem_cons_of_mem _ List.mem_cons_self)
        rw [exec_compareJump hjump, h0, h1]
  · cases hf

/-- A compare and the jump fused with it: in every run of the original in which the jump tests the
compare's result, that result is in no variable, and nothing reads it later unless it is written
again, the rewritten list takes the same branches and its variables are the same at every point. -/
theorem compare_jump_fused {ω : Type} {env : Environment ℚ ω} {n : ℕ} {before after : Code}
    {cmp jmp fused : Instruction} (hf : fuseJump cmp jmp = some fused) {start : Point ℚ ω}
    {s : Watched ℚ ω} (hstart : start.pc ≠ before.length + 1)
    (path : ReflTransGen (CarefulStep env n cmp.r2.reg before after cmp jmp
      fun _ => jmp.r0 = cmp.r2 ∧ n < cmp.r2.reg) ⟨start, false⟩ s) :
    ∃ q, ReflTransGen (fun q q' => stepAt env n (before ++ fused :: after) q = some q')
        ⟨shift before.length start.pc, start.frame⟩ q ∧ Follows before.length n s.point q :=
  fused_run (fuseJump_fuses hf) hstart path

/-- `if (a < b) {}`, from the compare to the other side of the jump. -/
theorem compare_jump_fused_condition :
    let f : Frame ℚ Unit := ⟨fun _ => .null, [], ()⟩
    let f' : Frame ℚ Unit := { f with regs := Function.update f.regs 4 (.ofBool false) }
    ∃ q, ReflTransGen (fun q q' => stepAt quiet 3 (samplePrologue 4 ["this", "a", "b"] ++
        ⟨.JMP_GREATER_OR_EQUAL, .num 2, .num 3, .str ".else_1"⟩ :: sampleEpilogue) q = some q')
        ⟨shift 5 5, f⟩ q ∧ Follows 5 3 ⟨7, f'⟩ q := by
  intro f f'
  have hcompare : CarefulStep quiet 3 4 (samplePrologue 4 ["this", "a", "b"]) sampleEpilogue
      ⟨.CMP_LESS, .num 2, .num 3, .num 4⟩ ⟨.JMP_NOT_TRUE, .num 4, .str ".else_1", .num 0⟩
      (fun _ => Operand.num 4 = .num 4 ∧ 3 < 4) ⟨⟨5, f⟩, false⟩ ⟨⟨6, f'⟩, false⟩ :=
    ⟨rfl, rfl, nofun, fun _ => ⟨rfl, by decide⟩⟩
  have hjump : CarefulStep quiet 3 4 (samplePrologue 4 ["this", "a", "b"]) sampleEpilogue
      ⟨.CMP_LESS, .num 2, .num 3, .num 4⟩ ⟨.JMP_NOT_TRUE, .num 4, .str ".else_1", .num 0⟩
      (fun _ => Operand.num 4 = .num 4 ∧ 3 < 4) ⟨⟨6, f'⟩, false⟩ ⟨⟨7, f'⟩, true⟩ :=
    ⟨rfl, rfl, nofun, nofun⟩
  exact @compare_jump_fused Unit quiet 3 (samplePrologue 4 ["this", "a", "b"]) sampleEpilogue
    ⟨.CMP_LESS, .num 2, .num 3, .num 4⟩ ⟨.JMP_NOT_TRUE, .num 4, .str ".else_1", .num 0⟩ _ rfl
    ⟨5, f⟩ ⟨⟨7, f'⟩, true⟩ (by decide) ((ReflTransGen.single hcompare).tail hjump)

/-- `var x = a < b; if (x) {}`: the compare writes the variable `x`, and the fused list leaves `x`
as it was. -/
theorem compare_jump_loses_variable :
    let before := samplePrologue 4 ["this", "a", "b", "x"]
    let cmp : Instruction := ⟨.CMP_LESS, .num 2, .num 3, .num 4⟩
    let jmp : Instruction := ⟨.JMP_NOT_TRUE, .num 4, .str ".else_1", .num 0⟩
    let fused : Instruction := ⟨.JMP_GREATER_OR_EQUAL, .num 2, .num 3, .str ".else_1"⟩
    compileClass 2 ⟨"T", ["a", "b"], [.var "x" (.binary .less (.ident "a") (.ident "b")) false false,
        .conditional (.ident "x") [] none], []⟩ = .ok (before ++ cmp :: jmp :: sampleEpilogue) ∧
      optimize (before ++ cmp :: jmp :: sampleEpilogue) =
        some (before ++ fused :: sampleEpilogue) ∧
      ¬ Faithful ℚ 4 5 (before ++ cmp :: jmp :: sampleEpilogue)
        (before ++ fused :: sampleEpilogue) := by
  intro before cmp jmp fused
  refine ⟨by decide +kernel, by decide +kernel, fun h => ?_⟩
  let f : Frame ℚ Unit := ⟨fun r => if r = 3 then .ofNum 1 else .null, [], ()⟩
  let f' : Frame ℚ Unit := { f with regs := Function.update f.regs 4 (.ofBool true) }
  obtain ⟨q, path, hfollows⟩ := h Unit quiet ⟨5, f⟩ ⟨6, f'⟩ (by decide) (.single rfl)
  have hx : q.frame.regs 4 = f'.regs 4 := hfollows.vars 4 (by decide) (by decide)
  have hkept : q.frame.regs 4 = f.regs 4 := quiet_run (by decide) path
  cases congrArg Reg.number (hkept.symm.trans hx)

theorem immediateJump_rel {opcode opcode' : Opcode} (h : opcode.immediateJump = some opcode') :
    ∃ rel, opcode.jumpRel = some rel ∧ opcode'.immediateRel = some rel := by
  cases opcode <;> cases h <;> exact ⟨_, rfl, rfl⟩

section

variable {α ω : Type} [NumOps α]

/-- The state in which the constant may go: the jump's other operand is another register, the
register of the constant is in no variable, and comparing payloads is comparing numbers. -/
structure ImmediateOk (n : ℕ) (mov jmp : Instruction) (f : Frame α ω) : Prop where
  distinct : jmp.r0.reg ≠ mov.r0.reg
  temporary : n < mov.r0.reg
  payload : jmp.opcode = .JMP_EQUAL ∨ jmp.opcode = .JMP_N_EQUAL →
    NumOps.bitEq (f.regs jmp.r0.reg).number (literal mov.r1.text) =
      NumOps.eq (f.regs jmp.r0.reg).number (literal mov.r1.text)

theorem holdsImmediate_eq {opcode : Opcode} {rel : Rel} {x y : α} (h : opcode.jumpRel = some rel)
    (hbits : opcode = .JMP_EQUAL ∨ opcode = .JMP_N_EQUAL → NumOps.bitEq x y = NumOps.eq x y) :
    rel.holdsImmediate x y = rel.holds x y := by
  cases opcode <;> cases h <;> simp_all [Rel.holdsImmediate, Rel.holds]

theorem fuseImmediate_fuses {env : Environment α ω} {n : ℕ} {mov jmp fused : Instruction}
    (hc : mov.opcode = .MOV_NUMBER) (hf : fuseImmediate mov jmp = some fused) :
    Fuses env n mov.r0.reg (ImmediateOk n mov jmp) mov jmp fused := by
  unfold fuseImmediate at hf
  split at hf
  · rename_i hreg
    obtain ⟨opcode, hopcode, rfl⟩ := Option.map_eq_some_iff.mp hf
    obtain ⟨rel, hjump, himm⟩ := immediateJump_rel hopcode
    refine ⟨by simp [hc], jumpRel_label hjump, immediateRel_label himm, ?_⟩
    intro stale f g hagree hok _
    refine ⟨hok.temporary, .ofNum (literal mov.r1.text), branch (rel.holds
      (f.regs jmp.r0.reg).number (literal mov.r1.text)) jmp.r2, by simp [exec, execLocal, hc], ?_, ?_⟩
    · rw [exec_compareJump hjump, ← hreg]
      simp only [Function.update_of_ne hok.distinct, Function.update_self]
      rfl
    · rw [exec_immediateJump himm]
      dsimp only
      rw [← hagree.other _ hok.distinct, holdsImmediate_eq hjump hok.payload]
  · cases hf

/-- A constant and the compare-and-jump fused with it, likewise. -/
theorem immediate_jump_fused {env : Environment α ω} {n : ℕ} {before after : Code}
    {mov jmp fused : Instruction} (hc : mov.opcode = .MOV_NUMBER)
    (hf : fuseImmediate mov jmp = some fused) {start : Point α ω} {s : Watched α ω}
    (hstart : start.pc ≠ before.length + 1)
    (path : ReflTransGen (CarefulStep env n mov.r0.reg before after mov jmp (ImmediateOk n mov jmp))
      ⟨start, false⟩ s) :
    ∃ q, ReflTransGen (fun q q' => stepAt env n (before ++ fused :: after) q = some q')
        ⟨shift before.length start.pc, start.frame⟩ q ∧ Follows before.length n s.point q :=
  fused_run (fuseImmediate_fuses hc hf) hstart path

end

/-- `if (a == 5) {}` after the first fusion, from the constant to the other side of the jump. -/
theorem immediate_jump_fused_condition :
    let f : Frame ℚ Unit := ⟨fun _ => .ofNum 5, [], ()⟩
    let f' : Frame ℚ Unit := { f with regs := Function.update f.regs 4 (.ofNum (literal "5")) }
    ∃ q, ReflTransGen (fun q q' => stepAt quiet 3 (samplePrologue 5 ["this", "a", "b"] ++
        ⟨.JMP_N_EQUAL_I, .num 2, .str "5", .str ".else_1"⟩ :: sampleEpilogue) q = some q')
        ⟨shift 5 5, f⟩ q ∧ Follows 5 3 ⟨7, f'⟩ q := by
  intro f f'
  have hok : ImmediateOk 3 ⟨.MOV_NUMBER, .num 4, .str "5", .num 0⟩
      ⟨.JMP_N_EQUAL, .num 2, .num 4, .str ".else_1"⟩ f := ⟨by decide, by decide, fun _ => rfl⟩
  have hmov : CarefulStep quiet 3 4 (samplePrologue 5 ["this", "a", "b"]) sampleEpilogue
      ⟨.MOV_NUMBER, .num 4, .str "5", .num 0⟩ ⟨.JMP_N_EQUAL, .num 2, .num 4, .str ".else_1"⟩
      (ImmediateOk 3 ⟨.MOV_NUMBER, .num 4, .str "5", .num 0⟩
        ⟨.JMP_N_EQUAL, .num 2, .num 4, .str ".else_1"⟩) ⟨⟨5, f⟩, false⟩ ⟨⟨6, f'⟩, false⟩ :=
    ⟨rfl, rfl, nofun, fun _ => hok⟩
  have hjump : CarefulStep quiet 3 4 (samplePrologue 5 ["this", "a", "b"]) sampleEpilogue
      ⟨.MOV_NUMBER, .num 4, .str "5", .num 0⟩ ⟨.JMP_N_EQUAL, .num 2, .num 4, .str ".else_1"⟩
      (ImmediateOk 3 ⟨.MOV_NUMBER, .num 4, .str "5", .num 0⟩
        ⟨.JMP_N_EQUAL, .num 2, .num 4, .str ".else_1"⟩) ⟨⟨6, f'⟩, false⟩ ⟨⟨7, f'⟩, true⟩ := by
    have hequal : Rel.notEqual.holds (5 : ℚ) (literal "5") = false := by decide +kernel
    have hexec : exec quiet 3 ⟨.JMP_N_EQUAL, .num 2, .num 4, .str ".else_1"⟩ f' = some (f', .next) := by
      change some (f', branch (Rel.notEqual.holds (5 : ℚ) (literal "5")) (.str ".else_1")) = _
      rw [hequal]
      rfl
    refine ⟨?_, rfl, nofun, nofun⟩
    exact stepAt_some.mpr ⟨_, .next, rfl, hexec, rfl⟩
  exact @immediate_jump_fused ℚ Unit _ quiet 3 (samplePrologue 5 ["this", "a", "b"]) sampleEpilogue
    ⟨.MOV_NUMBER, .num 4, .str "5", .num 0⟩ ⟨.JMP_N_EQUAL, .num 2, .num 4, .str ".else_1"⟩ _ rfl rfl
    ⟨5, f⟩ ⟨⟨7, f'⟩, true⟩ (by decide) ((ReflTransGen.single hmov).tail hjump)

/-- `var x = 5; if (b == x) {}`: once the test is one jump, the constant meant for the variable `x`
goes into the jump, and the rewritten list never writes `x`. -/
theorem immediate_jump_loses_variable :
    let before := samplePrologue 5 ["this", "a", "b", "x"]
    let mov : Instruction := ⟨.MOV_NUMBER, .num 4, .str "5", .num 0⟩
    let jmp : Instruction := ⟨.JMP_N_EQUAL, .num 3, .num 4, .str ".else_1"⟩
    let fused : Instruction := ⟨.JMP_N_EQUAL_I, .num 3, .str "5", .str ".else_1"⟩
    compileClass 2 ⟨"T", ["a", "b"], [.var "x" (.num "5") false false,
        .conditional (.binary .equal (.ident "b") (.ident "x")) [] none], []⟩ =
        .ok (before ++ mov :: ⟨.CMP_EQUAL, .num 3, .num 4, .num 5⟩ ::
          ⟨.JMP_NOT_TRUE, .num 5, .str ".else_1", .num 0⟩ :: sampleEpilogue) ∧
      optimizePass (before ++ mov :: ⟨.CMP_EQUAL, .num 3, .num 4, .num 5⟩ ::
          ⟨.JMP_NOT_TRUE, .num 5, .str ".else_1", .num 0⟩ :: sampleEpilogue) =
        some (before ++ mov :: jmp :: sampleEpilogue) ∧
      optimizePass (before ++ mov :: jmp :: sampleEpilogue) =
        some (before ++ fused :: sampleEpilogue) ∧
      ¬ Faithful ℚ 4 5 (before ++ mov :: jmp :: sampleEpilogue)
        (before ++ fused :: sampleEpilogue) := by
  intro before mov jmp fused
  refine ⟨by decide +kernel, by decide +kernel, by decide +kernel, fun h => ?_⟩
  let f : Frame ℚ Unit := ⟨fun _ => .null, [], ()⟩
  let f' : Frame ℚ Unit := { f with regs := Function.update f.regs 4 (.ofNum (literal "5")) }
  obtain ⟨q, path, hfollows⟩ := h Unit quiet ⟨5, f⟩ ⟨6, f'⟩ (by decide) (.single rfl)
  have hx : q.frame.regs 4 = f'.regs 4 := hfollows.vars 4 (by decide) (by decide)
  have hkept : q.frame.regs 4 = f.regs 4 := quiet_run (by decide) path
  have hfive : (0 : ℚ) ≠ literal "5" := by decide +kernel
  exact hfive (congrArg Reg.number (hkept.symm.trans hx))

end Zeroscript.Fusion
