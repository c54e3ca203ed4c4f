import Zeroscript.BytecodeOptimizer
import Zeroscript.Compiler
import Zeroscript.FrameMachine
import Zeroscript.Number

/-! # The `compare and mov` rule

The rule puts one instruction in the place of a compare and its successor whenever the successor's
second operand is the compare's result. The one instruction is the compare as it was. -/
namespace Zeroscript.Collapse

/-- The opcodes that only compute a register from registers. -/
def computes : Opcode → Bool
  | .MOV | .ADD | .SUB | .MUL | .MOD | .CMP_EQUAL | .CMP_LESS | .CMP_LESS_OR_EQUAL | .CMP_GREATER
  | .CMP_N_EQUAL | .CMP_GREATER_OR_EQUAL | .INC | .DEC => true
  | _ => false

theorem collapse_some {current next fused : Instruction} (h : collapse current next = some fused) :
    fused = current ∧ next.r1 = current.r2 := by
  unfold collapse at h
  split at h
  · rename_i hr
    cases h
    exact ⟨by rw [hr], hr⟩
  · cases h

section

variable {α ω : Type} [NumOps α]

/-- What happens outside the registers: pushes, field accesses, calls, exceptions, returns. -/
inductive Effect (α : Type) where
  | push (value : Reg α)
  | request (request : Request α)

def effects (i : Instruction) (f : Frame α ω) : List (Effect α) :=
  match execLocal i f.regs, i.opcode with
  | some _, _ => []
  | none, .PUSH => [.push (f.regs i.r0.reg)]
  | none, _ =>
    match (i.request f.regs).1 with
    | .string _ | .function _ _ | .concat _ _ => []
    | request => [.request request]

def PureConcat (env : Environment α ω) : Prop :=
  ∀ a b st, ∃ v world, env.answer (.concat a b) st = some ⟨st.vars, st.stack, world, some v, .next⟩

end

/-- The one instruction has the effects of the pair, and leaves the same contents in every register
that is live afterwards, in the arithmetic of `α`. -/
def Sound (α : Type) [NumOps α] (live : ℕ → Prop) (current next fused : Instruction) : Prop :=
  ∀ (ω : Type) (env : Environment α ω) (n : ℕ) (f : Frame α ω), PureConcat env →
    ∃ g f₁ f₂, exec env n fused f = some (g, .next) ∧ exec env n current f = some (f₁, .next) ∧
      exec env n next f₁ = some (f₂, .next) ∧ effects current f ++ effects next f₁ = effects fused f ∧
      f₂.stack = g.stack ∧ ∀ r, live r → f₂.regs r = g.regs r

section

variable {α ω : Type} [NumOps α] {env : Environment α ω} {n : ℕ}

theorem exec_isCompare {i : Instruction} (h : i.opcode.isCompare = true) (f : Frame α ω) :
    ∃ b, exec env n i f =
        some ({ f with regs := Function.update f.regs i.r2.reg (.ofBool b) }, .next) ∧
      effects i f = [] := by
  obtain ⟨opcode, r0, r1, r2⟩ := i
  cases opcode <;> cases h <;> exact ⟨_, rfl, rfl⟩

theorem computes_quiet {i : Instruction} (h : computes i.opcode = true) (henv : PureConcat env)
    (f : Frame α ω) :
    ∃ f', exec env n i f = some (f', .next) ∧ effects i f = [] ∧ f'.stack = f.stack ∧
      ∀ r, r ∉ i.writes → f'.regs r = f.regs r := by
  cases hlocal : execLocal i f.regs with
  | some out =>
    obtain ⟨regs, control⟩ := out
    have hnext : control = .next := by
      obtain ⟨opcode, r0, r1, r2⟩ := i
      cases opcode <;> cases h
      case ADD =>
        simp only [execLocal, Opcode.jumpRel, Opcode.immediateRel, Option.map_eq_some_iff] at hlocal
        obtain ⟨_, _, hpair⟩ := hlocal
        cases hpair
        rfl
      case MOD =>
        simp only [execLocal] at hlocal
        split at hlocal <;> cases hlocal <;> rfl
      all_goals
        cases hlocal
        rfl
    subst hnext
    refine ⟨{ f with regs := regs }, by simp [exec, hlocal], by simp [effects, hlocal], rfl, ?_⟩
    exact fun r hr => execLocal_unwritten hlocal hr
  | none =>
    -- Only the string branches of `OP_ADD` leave the registers.
    obtain ⟨opcode, r0, r1, r2⟩ := i
    have hadd : opcode = .ADD := by
      cases opcode <;> cases h
      case ADD => rfl
      case MOD =>
        simp only [execLocal] at hlocal
        split at hlocal <;> cases hlocal
      all_goals cases hlocal
    subst hadd
    obtain ⟨v, world, hanswer⟩ := henv (f.regs r0.reg) (f.regs r1.reg) (f.store n)
    have hrequest : Instruction.request ⟨.ADD, r0, r1, r2⟩ f.regs =
        (.concat (f.regs r0.reg) (f.regs r1.reg), some r2.reg) := rfl
    have hexec := @exec_request _ _ _ env n _ f _ _ hlocal (by simp) hrequest
    rw [hanswer] at hexec
    refine ⟨_, hexec, by simp [effects, hlocal, hrequest], rfl, ?_⟩
    · intro r hr
      have hne : r ≠ r2.reg := by simpa [Instruction.writes] using hr
      simp only [Frame.receive, Function.update_of_ne hne]
      split
      · rename_i hnamed
        simp [Frame.store, named, hnamed]
      · rfl

end

theorem idle_kept {α ω : Type} [NumOps α] {env : Environment α ω} {n : ℕ} {live : ℕ → Prop}
    {next : Instruction} {f f₂ : Frame α ω}
    (hidle : (∀ r ∈ next.writes, ¬ live r) ∨ next.opcode = .MOV ∧ next.r0.reg = next.r1.reg)
    (hexec : exec env n next f = some (f₂, .next))
    (hkept : ∀ r, r ∉ next.writes → f₂.regs r = f.regs r) :
    ∀ r, live r → f₂.regs r = f.regs r := by
  intro r hlive
  by_cases hr : r ∈ next.writes
  · rcases hidle with hdead | ⟨hmov, hself⟩
    · exact absurd hlive (hdead r hr)
    · obtain ⟨opcode, r0, r1, r2⟩ := next
      cases hmov
      cases hexec
      obtain rfl := List.mem_singleton.mp hr
      dsimp only at hself ⊢
      rw [Function.update_self, hself]
  · exact hkept r hr

section

variable {α : Type} [NumOps α] {live : ℕ → Prop} {current next fused : Instruction}

theorem sound_of_idle (hc : current.opcode.isCompare = true)
    (hf : collapse current next = some fused) (hcomp : computes next.opcode = true)
    (hidle : (∀ r ∈ next.writes, ¬ live r) ∨ next.opcode = .MOV ∧ next.r0.reg = next.r1.reg) :
    Sound α live current next fused := by
  intro ω env n f henv
  obtain ⟨rfl, -⟩ := collapse_some hf
  obtain ⟨b, hexec, heff⟩ := exec_isCompare hc f
  obtain ⟨f₂, hexec₂, heff₂, hstack, hregs⟩ := computes_quiet hcomp henv _
  exact ⟨_, _, f₂, hexec, hexec, hexec₂, by rw [heff, heff₂]; rfl, hstack,
    idle_kept hidle hexec₂ hregs⟩

theorem sound_successor (hc : current.opcode.isCompare = true)
    (hf : collapse current next = some fused) (h : Sound α live current next fused)
    (regs : Regs α) :
    ∃ b f₂, let f₁ : Frame α Unit := ⟨Function.update regs current.r2.reg (.ofBool b), [], ()⟩
      exec quiet 0 next f₁ = some (f₂, .next) ∧ effects next f₁ = [] ∧
        ∀ r, live r → f₂.regs r = f₁.regs r := by
  obtain ⟨rfl, -⟩ := collapse_some hf
  obtain ⟨g, f₁, f₂, hg, hf₁, hf₂, heff, -, hregs⟩ :=
    h Unit quiet 0 ⟨regs, [], ()⟩ fun a b st => ⟨.null, (), rfl⟩
  obtain ⟨b, hexec, -⟩ := @exec_isCompare α Unit _ quiet 0 _ hc ⟨regs, [], ()⟩
  rw [hexec] at hg hf₁
  cases hg
  cases hf₁
  exact ⟨b, f₂, hf₂, List.append_right_eq_self.mp heff, hregs⟩

theorem sound_noAccess (hc : current.opcode.isCompare = true)
    (hf : collapse current next = some fused) (h : Sound α live current next fused) :
    next.opcode ∉ [.GET_FIELD, .SET_FIELD, .CALL] := by
  obtain ⟨b, f₂, -, heff, -⟩ := sound_successor hc hf h fun _ => .null
  intro hmem
  obtain ⟨opcode, r0, r1, r2⟩ := next
  simp only [List.mem_cons, List.not_mem_nil, or_false] at hmem
  rcases hmem with rfl | rfl | rfl <;> cases heff

def reference : Reg α := ⟨.classRef, .raw 1⟩

omit [NumOps α] in
theorem reference_ne (x : α) : reference ≠ Reg.ofNum x := by
  intro h
  cases h

theorem computes_number {i : Instruction} {f f' : Frame α Unit} {r : ℕ}
    (hcomp : computes i.opcode = true) (hstep : i.opcode ≠ .INC ∧ i.opcode ≠ .DEC)
    (hreads : ∀ s ∈ i.reads, ∃ x, f.regs s = .ofNum x) (hr : r ∈ i.writes)
    (hexec : exec quiet 0 i f = some (f', .next)) : ∃ x, f'.regs r = .ofNum x := by
  obtain ⟨opcode, r0, r1, r2⟩ := i
  cases opcode <;> cases hcomp
  case INC => exact absurd rfl hstep.1
  case DEC => exact absurd rfl hstep.2
  case MOV =>
    cases hexec
    obtain rfl := List.mem_singleton.mp hr
    obtain ⟨x, hx⟩ := hreads r1.reg List.mem_cons_self
    exact ⟨x, by simpa using hx⟩
  all_goals
    obtain ⟨x, hx⟩ := hreads r0.reg (by simp [Instruction.reads])
    obtain ⟨y, hy⟩ := hreads r1.reg (by simp [Instruction.reads])
    obtain rfl := List.mem_singleton.mp hr
    simp only [exec, execLocal, Opcode.jumpRel, Opcode.immediateRel, arithmetic, hx, hy, Reg.ofNum,
      and_self, if_true, Option.map_some, Option.some.injEq, Prod.mk.injEq, and_true,
      Opcode.compareRel] at hexec
    subst hexec
    exact ⟨_, Function.update_self _ _ _⟩

theorem step_type {i : Instruction} {f f' : Frame α Unit} (hstep : i.opcode = .INC ∨ i.opcode = .DEC)
    (hexec : exec quiet 0 i f = some (f', .next)) :
    (f'.regs i.r1.reg).type = (f.regs i.r0.reg).type := by
  obtain ⟨opcode, r0, r1, r2⟩ := i
  rcases hstep with hop | hop <;> cases hop <;> cases hexec <;> dsimp only <;>
    rw [Function.update_self]

/-- A live register that the successor writes is one of its own operands. -/
theorem sound_overwrites (hc : current.opcode.isCompare = true)
    (hf : collapse current next = some fused) (h : Sound α live current next fused)
    (hcomp : computes next.opcode = true) {r : ℕ} (hr : r ∈ next.writes) (hlive : live r) :
    r ∈ next.reads := by
  by_contra hread
  have ht : next.r1.reg = current.r2.reg := by rw [(collapse_some hf).2]
  by_cases hstep : next.opcode = .INC ∨ next.opcode = .DEC
  · -- The counted register holds a reference, and the compare's result is a number.
    obtain ⟨b, f₂, hexec, -, hregs⟩ := sound_successor hc hf h fun _ => reference
    obtain ⟨hwrites, hreads⟩ : next.writes = [next.r0.reg, next.r1.reg] ∧
        next.reads = [next.r0.reg] := by
      obtain ⟨opcode, r0, r1, r2⟩ := next
      rcases hstep with hop | hop <;> cases hop <;> exact ⟨rfl, rfl⟩
    rw [hreads, List.mem_singleton] at hread
    obtain rfl : r = next.r1.reg := by
      rw [hwrites] at hr
      exact (List.mem_pair.mp hr).resolve_left hread
    have htype := step_type hstep hexec
    have hkept := hregs _ hlive
    rw [hkept, ht] at htype
    dsimp only at htype
    rw [Function.update_self, Function.update_of_ne (fun he => hread (ht.trans he.symm))] at htype
    cases htype
  · -- The live register holds a reference, and all others numbers.
    obtain ⟨b, f₂, hexec, -, hregs⟩ :=
      sound_successor hc hf h (Function.update (fun _ => .null) r reference)
    have hne : r ≠ current.r2.reg := by
      rintro rfl
      rw [← ht] at hread
      obtain ⟨opcode, r0, r1, r2⟩ := next
      cases opcode <;> cases hcomp <;> simp [Instruction.reads] at hread hstep
    have hnumbers : ∀ s ∈ next.reads, ∃ x, Function.update (Function.update
        (fun _ => Reg.null) r reference) current.r2.reg (Reg.ofBool b) s = Reg.ofNum (α := α) x := by
      intro s hs
      by_cases hst : s = current.r2.reg
      · subst hst
        exact ⟨_, Function.update_self _ _ _⟩
      · have hsr : s ≠ r := fun he => hread (he ▸ hs)
        exact ⟨NumOps.zero, (Function.update_of_ne hst _ _).trans (Function.update_of_ne hsr _ _)⟩
    obtain ⟨x, hx⟩ := computes_number hcomp (not_or.mp hstep) hnumbers hr hexec
    have hkept := hregs r hlive
    rw [hx] at hkept
    dsimp only at hkept
    rw [Function.update_of_ne hne, Function.update_self] at hkept
    exact reference_ne x hkept.symm

/-- For every pair that the rule meets, in any list and any arithmetic. The one instruction is as
good as the pair when the successor only computes, and computes nothing that is live; or copies the
compare's result to itself. It is not when the successor accesses a field or calls, or computes a
live register from others. -/
theorem collapse_sound (hc : current.opcode.isCompare = true)
    (hf : collapse current next = some fused) :
    (computes next.opcode = true →
      ((∀ r ∈ next.writes, ¬ live r) ∨ next.opcode = .MOV ∧ next.r0.reg = next.r1.reg) →
        Sound α live current next fused) ∧
      (Sound α live current next fused →
        next.opcode ∉ [.GET_FIELD, .SET_FIELD, .CALL] ∧
          (computes next.opcode = true → ∀ r ∈ next.writes, live r → r ∈ next.reads)) := by
  constructor
  · exact sound_of_idle hc hf
  · intro h
    exact ⟨sound_noAccess hc hf h, fun hcomp r hr => sound_overwrites hc hf h hcomp hr⟩

end

/-- `a + (a < b);`, where only the variables are live: the sum is a dead temporary. -/
theorem collapse_sound_of_dead_sum :
    Sound ℚ (· ≤ 3) ⟨.CMP_LESS, .num 2, .num 3, .num 4⟩ ⟨.ADD, .num 2, .num 4, .num 5⟩
      ⟨.CMP_LESS, .num 2, .num 3, .num 4⟩ :=
  (collapse_sound rfl rfl).1 rfl (Or.inl (by decide))

/-- `a < b; f();`: the call uses the temporary that the compare leaves, and is gone. -/
theorem collapse_drops_call :
    let before : Code := [⟨.LABEL, .str "T", .num 0, .num 0⟩,
      ⟨.FFRAME, .num 6, .symbols [("this", false), ("a", false), ("b", false), ("f", false)],
        .str "endT"⟩, ⟨.CREATE_THIS, .num 0, .num 0, .num 0⟩, ⟨.POP, .num 2, .num 0, .num 0⟩,
      ⟨.POP, .num 3, .num 0, .num 0⟩, ⟨.MOV_FNC, .num 4, .str "f", .num 0⟩]
    let after : Code := [⟨.RETURN, .num 0, .num 0, .num 0⟩, ⟨.LABEL, .str "endT", .num 0, .num 0⟩,
      ⟨.LABEL, .str "f", .num 0, .num 0⟩,
      ⟨.FFRAME, .num 2, .symbols [("this", false), ("f", false)], .str "endf"⟩,
      ⟨.MOV_FNC, .num 2, .str "f", .num 0⟩, ⟨.RETURN, .num 0, .num 0, .num 0⟩,
      ⟨.LABEL, .str "endf", .num 0, .num 0⟩]
    let compare : Instruction := ⟨.CMP_LESS, .num 2, .num 3, .num 5⟩
    let call : Instruction := ⟨.CALL, .num 4, .num 5, .num 0⟩
    compileClass 3 ⟨"T", ["a", "b"], [.function false false false "f" [] [],
        .eval (.binary .less (.ident "a") (.ident "b")), .eval (.methodCall (.ident "f") [])], []⟩ =
        .ok (before ++ compare :: call :: after) ∧
      optimize (before ++ compare :: call :: after) = some (before ++ compare :: after) ∧
      ∀ live, ¬ Sound ℚ live compare call compare := by
  intro before after compare call
  refine ⟨by decide +kernel, by decide +kernel, fun live h => ?_⟩
  obtain ⟨g, f₁, f₂, -, -, -, heffects, -⟩ := h Unit quiet 4 ⟨fun _ => .null, [], ()⟩
    fun a b st => ⟨.null, (), rfl⟩
  cases heffects

end Zeroscript.Collapse
