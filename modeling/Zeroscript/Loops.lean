import Zeroscript.AstGenerator
import Zeroscript.LabelNumbers
import Zeroscript.LocalAssignment
import Zeroscript.Segments

/-! # Loops

A loop runs its start expression, tests its condition, and repeats body, step and test while the
condition holds. The code does that when the loop has a condition. -/
namespace Zeroscript.Loops

open Emission InstructionShapes StraightCode Segments LabelNumbers
open Relation (ReflTransGen)

/-- The code of the parts of a loop; the condition with its register. -/
structure LoopParts where
  start : Code
  body : Code
  step : Code
  condition : Option (Code × ℕ)

def LoopParts.test (p : LoopParts) (lstart lend : String) : Code :=
  match p.condition with
  | none => [labelled lend]
  | some (condition, reg) => condition ++ [⟨.JMP_TRUE, .num reg, .str lstart, .num 0⟩, labelled lend]

def LoopParts.code (p : LoopParts) (lstart lend lcond : String) : Code :=
  p.start ++ jump lcond :: labelled lstart :: (p.body ++ (p.step ++ labelled lcond :: p.test lstart lend))

/-- Where a loop is: in a part, from 0 to the length of its code, at the beginning of a round, or behind. -/
inductive Place where
  | start (k : ℕ)
  | round
  | body (k : ℕ)
  | step (k : ℕ)
  | condition (k : ℕ)
  | done

def LoopParts.position (p : LoopParts) (length : ℕ) : Place → ℕ
  | .start k => k
  | .round => p.start.length + 1
  | .body k => p.start.length + 2 + k
  | .step k => p.start.length + 2 + p.body.length + k
  | .condition k => p.start.length + 2 + p.body.length + p.step.length + 1 + k
  | .done => length

section

variable {α ω : Type} [NumOps α]

inductive LoopParts.Acts (p : LoopParts) (env : Environment α ω) (n : ℕ) :
    Place → Frame α ω → Place → Frame α ω → Prop where
  | start {k k' : ℕ} {g g' : Frame α ω} (hstep : stepAt env n p.start ⟨k, g⟩ = some ⟨k', g'⟩) :
      p.Acts env n (.start k) g (.start k') g'
  | condition {c : Code} {reg k k' : ℕ} {g g' : Frame α ω} (hc : p.condition = some (c, reg))
      (hstep : stepAt env n c ⟨k, g⟩ = some ⟨k', g'⟩) : p.Acts env n (.condition k) g (.condition k') g'
  | enter {g : Frame α ω} : p.Acts env n .round g (.body 0) g
  | body {k k' : ℕ} {g g' : Frame α ω} (hstep : stepAt env n p.body ⟨k, g⟩ = some ⟨k', g'⟩) :
      p.Acts env n (.body k) g (.body k') g'
  | step {k k' : ℕ} {g g' : Frame α ω} (hstep : stepAt env n p.step ⟨k, g⟩ = some ⟨k', g'⟩) :
      p.Acts env n (.step k) g (.step k') g'

inductive LoopParts.Passes (p : LoopParts) (g : Frame α ω) : Place → Place → Prop where
  | started : p.Passes g (.start p.start.length) (.condition 0)
  | always (hc : p.condition = none) : p.Passes g (.condition 0) .round
  | holds {c : Code} {reg : ℕ} (hc : p.condition = some (c, reg)) (htrue : (g.regs reg).val.truthy = true) :
      p.Passes g (.condition c.length) .round
  | fails {c : Code} {reg : ℕ} (hc : p.condition = some (c, reg)) (hfalse : (g.regs reg).val.truthy = false) :
      p.Passes g (.condition c.length) .done
  | bodyEnds : p.Passes g (.body p.body.length) (.step 0)
  | stepped : p.Passes g (.step p.step.length) (.condition 0)

/-- The meaning of a loop: its parts one after the other, each with the steps of its own code. -/
inductive LoopParts.Reaches (p : LoopParts) (env : Environment α ω) (n : ℕ) (f : Frame α ω) :
    Place → Frame α ω → Prop where
  | begins : p.Reaches env n f (.start 0) f
  | acts {place place' : Place} {g g' : Frame α ω} (h : p.Reaches env n f place g)
      (hacts : p.Acts env n place g place' g') : p.Reaches env n f place' g'
  | passes {place place' : Place} {g : Frame α ω} (h : p.Reaches env n f place g)
      (hpasses : p.Passes g place place') : p.Reaches env n f place' g

end

/-- From every state and in all surroundings the code goes where the loop goes. It does an instruction of the
loop as one of its own, so that a loop without end is code without end. -/
structure Simulated (p : LoopParts) (code : Code) (position : Place → ℕ) : Prop where
  begins : ∀ (α ω : Type) [NumOps α] (env : Environment α ω) (n : ℕ) (f : Frame α ω),
    Run env n code ⟨0, f⟩ ⟨position (.start 0), f⟩
  acts : ∀ (α ω : Type) [NumOps α] (env : Environment α ω) (n : ℕ) (f g g' : Frame α ω) (place place' : Place),
    p.Reaches env n f place g → p.Acts env n place g place' g' →
      stepAt env n code ⟨position place, g⟩ = some ⟨position place', g'⟩
  passes : ∀ (α ω : Type) [NumOps α] (env : Environment α ω) (n : ℕ) (f g : Frame α ω) (place place' : Place),
    p.Reaches env n f place g → p.Passes g place place' →
      Run env n code ⟨position place, g⟩ ⟨position place', g⟩
  done : position .done = code.length

section

variable {p : LoopParts} {code : Code} {position : Place → ℕ}

theorem Simulated.reaches {α ω : Type} [NumOps α] {env : Environment α ω} {n : ℕ} {f g : Frame α ω} {place : Place}
    (h : Simulated p code position) (hreach : p.Reaches env n f place g) :
    Run env n code ⟨0, f⟩ ⟨position place, g⟩ := by
  induction hreach with
  | begins => exact h.begins α ω env n f
  | acts hreach hacts ih => exact ih.tail (h.acts α ω env n f _ _ _ _ hreach hacts)
  | passes hreach hpasses ih => exact ih.trans (h.passes α ω env n f _ _ _ hreach hpasses)

end

/-- The labels of a loop find their places. -/
structure Layout (p : LoopParts) (lstart lend lcond : String) : Prop where
  start : Unlabelled p.start
  step : Unlabelled p.step
  condition : ∀ c reg, p.condition = some (c, reg) → Unlabelled c
  body : ∀ name, name = lstart ∨ name = lend ∨ name = lcond → labelIndex p.body name = none
  distinct : lstart ≠ lend ∧ lstart ≠ lcond ∧ lend ≠ lcond

section

variable {p : LoopParts} {lstart lend lcond : String}

theorem Layout.test_label (h : Layout p lstart lend lcond) {name : String} (hname : name ≠ lend) :
    labelIndex (p.test lstart lend) name = none := by
  unfold LoopParts.test
  split
  · rw [labelIndex_cons_ne hname.symm]
    rfl
  · rename_i c reg hc
    rw [labelIndex_append, labelIndex_cons_other (by simp), labelIndex_cons_ne hname.symm]
    exact h.condition c reg hc name

theorem LoopParts.code_body (p : LoopParts) (lstart lend lcond : String) :
    p.code lstart lend lcond = (p.start ++ [jump lcond, labelled lstart]) ++
      (p.body ++ (p.step ++ labelled lcond :: p.test lstart lend)) := by
  simp [LoopParts.code]

theorem LoopParts.code_step (p : LoopParts) (lstart lend lcond : String) :
    p.code lstart lend lcond = (p.start ++ jump lcond :: labelled lstart :: p.body) ++
      (p.step ++ labelled lcond :: p.test lstart lend) := by
  simp [LoopParts.code]

theorem LoopParts.code_test (p : LoopParts) (lstart lend lcond : String) :
    p.code lstart lend lcond = (p.start ++ jump lcond :: labelled lstart :: (p.body ++ p.step)) ++
      labelled lcond :: p.test lstart lend := by
  simp [LoopParts.code]

theorem Layout.lcond_index (h : Layout p lstart lend lcond) :
    labelIndex (p.code lstart lend lcond) lcond =
      some (p.start.length + 2 + p.body.length + p.step.length) := by
  rw [p.code_test, labelIndex_last _ (h.test_label h.distinct.2.2.symm)]
  simp only [List.length_append, List.length_cons]
  congr 1
  omega

theorem Layout.lstart_index (h : Layout p lstart lend lcond) :
    labelIndex (p.code lstart lend lcond) lstart = some (p.start.length + 1) := by
  have hafter : labelIndex (p.body ++ (p.step ++ labelled lcond :: p.test lstart lend)) lstart = none := by
    rw [labelIndex_append, labelIndex_append, labelIndex_cons_ne h.distinct.2.1.symm,
      h.test_label h.distinct.1, h.body lstart (.inl rfl)]
    simp [h.step lstart]
  have hcode : p.code lstart lend lcond = (p.start ++ [jump lcond]) ++ labelled lstart ::
      (p.body ++ (p.step ++ labelled lcond :: p.test lstart lend)) := by
    simp [LoopParts.code]
  rw [hcode, labelIndex_last _ hafter]
  simp

theorem Layout.body_unshadowed (h : Layout p lstart lend lcond) :
    Unshadowed p.body (p.step ++ labelled lcond :: p.test lstart lend) := by
  intro text index hindex
  have hne : ∀ name, name = lstart ∨ name = lend ∨ name = lcond → name ≠ text := by
    rintro name hname rfl
    rw [h.body name hname] at hindex
    cases hindex
  rw [labelIndex_append, labelIndex_cons_ne (hne lcond (.inr (.inr rfl))),
    h.test_label (hne lend (.inr (.inl rfl))).symm]
  exact h.step text

end

section

variable {α ω : Type} [NumOps α] {env : Environment α ω} {n : ℕ} {p : LoopParts} {lstart lend lcond : String}

theorem code_lcond (p : LoopParts) (lstart lend lcond : String) (g : Frame α ω) :
    stepAt env n (p.code lstart lend lcond)
      ⟨p.start.length + 2 + p.body.length + p.step.length, g⟩ =
        some ⟨p.start.length + 2 + p.body.length + p.step.length + 1, g⟩ := by
  refine stepAt_next ?_ (exec_labelled lcond g)
  rw [p.code_test, List.getElem?_append_right (by simp; omega)]
  have hzero : p.start.length + 2 + p.body.length + p.step.length -
      (p.start ++ jump lcond :: labelled lstart :: (p.body ++ p.step)).length = 0 := by
    simp only [List.length_append, List.length_cons]
    omega
  rw [hzero]
  rfl

theorem code_jump (h : Layout p lstart lend lcond) (g : Frame α ω) :
    stepAt env n (p.code lstart lend lcond) ⟨p.start.length, g⟩ =
      some ⟨p.start.length + 2 + p.body.length + p.step.length, g⟩ := by
  refine stepAt_jump ?_ (exec_jump lcond g) h.lcond_index
  rw [LoopParts.code, List.getElem?_append_right (Nat.le_refl _), Nat.sub_self]
  rfl

theorem code_lstart (p : LoopParts) (lstart lend lcond : String) (g : Frame α ω) :
    stepAt env n (p.code lstart lend lcond) ⟨p.start.length + 1, g⟩ = some ⟨p.start.length + 2, g⟩ := by
  refine stepAt_next ?_ (exec_labelled lstart g)
  rw [LoopParts.code, List.getElem?_append_right (Nat.le_add_right _ _), Nat.add_sub_cancel_left]
  rfl

theorem code_tested {c : Code} {reg : ℕ} (h : Layout p lstart lend lcond) (hc : p.condition = some (c, reg))
    (g : Frame α ω) :
    stepAt env n (p.code lstart lend lcond)
      ⟨p.start.length + 2 + p.body.length + p.step.length + 1 + c.length, g⟩ =
        some ⟨if (g.regs reg).val.truthy then p.start.length + 1
          else p.start.length + 2 + p.body.length + p.step.length + 1 + c.length + 1, g⟩ := by
  have hi : (p.code lstart lend lcond)[p.start.length + 2 + p.body.length + p.step.length + 1 + c.length]? =
      some ⟨.JMP_TRUE, .num reg, .str lstart, .num 0⟩ := by
    have hcode : p.code lstart lend lcond =
        (p.start ++ jump lcond :: labelled lstart :: (p.body ++ (p.step ++ labelled lcond :: c))) ++
          [⟨.JMP_TRUE, .num reg, .str lstart, .num 0⟩, labelled lend] := by
      simp [LoopParts.code, LoopParts.test, hc]
    have hlength : p.start.length + 2 + p.body.length + p.step.length + 1 + c.length =
        (p.start ++ jump lcond :: labelled lstart :: (p.body ++ (p.step ++ labelled lcond :: c))).length := by
      simp only [List.length_append, List.length_cons]
      omega
    rw [hcode, hlength, List.getElem?_append_right (Nat.le_refl _), Nat.sub_self]
    rfl
  by_cases htrue : (g.regs reg).val.truthy = true
  · rw [if_pos htrue]
    refine stepAt_jump hi ?_ h.lstart_index
    rw [exec_jumpTrue, if_pos htrue]
  · rw [if_neg htrue]
    refine stepAt_next hi ?_
    rw [exec_jumpTrue, if_neg htrue]

theorem code_length {c : Code} {reg : ℕ} (hc : p.condition = some (c, reg)) :
    (p.code lstart lend lcond).length =
      p.start.length + 2 + p.body.length + p.step.length + 1 + c.length + 2 := by
  simp only [LoopParts.code, LoopParts.test, hc, List.length_append, List.length_cons, List.length_nil]
  omega

theorem code_lend {c : Code} {reg : ℕ} (hc : p.condition = some (c, reg)) (g : Frame α ω) :
    stepAt env n (p.code lstart lend lcond)
      ⟨p.start.length + 2 + p.body.length + p.step.length + 1 + c.length + 1, g⟩ =
        some ⟨(p.code lstart lend lcond).length, g⟩ := by
  rw [code_length hc]
  refine stepAt_next ?_ (exec_labelled lend g)
  have hcode : p.code lstart lend lcond =
      (p.start ++ jump lcond :: labelled lstart :: (p.body ++ (p.step ++ labelled lcond :: (c ++
        [⟨.JMP_TRUE, .num reg, .str lstart, .num 0⟩])))) ++ [labelled lend] := by
    simp [LoopParts.code, LoopParts.test, hc]
  have hlength : p.start.length + 2 + p.body.length + p.step.length + 1 + c.length + 1 =
      (p.start ++ jump lcond :: labelled lstart :: (p.body ++ (p.step ++ labelled lcond :: (c ++
        [⟨.JMP_TRUE, .num reg, .str lstart, .num 0⟩])))).length := by
    simp only [List.length_append, List.length_cons, List.length_nil]
    omega
  rw [hcode, hlength, List.getElem?_append_right (Nat.le_refl _), Nat.sub_self]
  rfl

theorem code_condition {c : Code} {reg k k' : ℕ} {g g' : Frame α ω} (h : Layout p lstart lend lcond)
    (hc : p.condition = some (c, reg)) (hstep : stepAt env n c ⟨k, g⟩ = some ⟨k', g'⟩) :
    stepAt env n (p.code lstart lend lcond)
      ⟨p.start.length + 2 + p.body.length + p.step.length + 1 + k, g⟩ =
        some ⟨p.start.length + 2 + p.body.length + p.step.length + 1 + k', g'⟩ := by
  have hcode : p.code lstart lend lcond =
      (p.start ++ jump lcond :: labelled lstart :: (p.body ++ (p.step ++ [labelled lcond]))) ++
        (c ++ [⟨.JMP_TRUE, .num reg, .str lstart, .num 0⟩, labelled lend]) := by
    simp [LoopParts.code, LoopParts.test, hc]
  have hlength : p.start.length + 2 + p.body.length + p.step.length + 1 =
      (p.start ++ jump lcond :: labelled lstart :: (p.body ++ (p.step ++ [labelled lcond]))).length := by
    simp only [List.length_append, List.length_cons, List.length_nil]
    omega
  rw [hcode, hlength]
  exact stepAt_part _ ((h.condition c reg hc).unshadowed _) hstep

theorem code_inBody {k k' : ℕ} {g g' : Frame α ω} (h : Layout p lstart lend lcond)
    (hstep : stepAt env n p.body ⟨k, g⟩ = some ⟨k', g'⟩) :
    stepAt env n (p.code lstart lend lcond) ⟨p.start.length + 2 + k, g⟩ =
      some ⟨p.start.length + 2 + k', g'⟩ := by
  rw [p.code_body]
  have hpart := stepAt_part (p.start ++ [jump lcond, labelled lstart]) h.body_unshadowed hstep
  simpa using hpart

theorem code_inStep {k k' : ℕ} {g g' : Frame α ω} (h : Layout p lstart lend lcond)
    (hstep : stepAt env n p.step ⟨k, g⟩ = some ⟨k', g'⟩) :
    stepAt env n (p.code lstart lend lcond) ⟨p.start.length + 2 + p.body.length + k, g⟩ =
      some ⟨p.start.length + 2 + p.body.length + k', g'⟩ := by
  rw [p.code_step]
  have hpart := stepAt_part (p.start ++ jump lcond :: labelled lstart :: p.body)
    (h.step.unshadowed (labelled lcond :: p.test lstart lend)) hstep
  have hlength : (p.start ++ jump lcond :: labelled lstart :: p.body).length =
      p.start.length + 2 + p.body.length := by
    simp only [List.length_append, List.length_cons]
    omega
  rw [hlength] at hpart
  exact hpart

theorem code_inStart {k k' : ℕ} {g g' : Frame α ω} (h : Layout p lstart lend lcond)
    (hstep : stepAt env n p.start ⟨k, g⟩ = some ⟨k', g'⟩) :
    stepAt env n (p.code lstart lend lcond) ⟨k, g⟩ = some ⟨k', g'⟩ := by
  have hpart := stepAt_part [] (h.start.unshadowed
    (jump lcond :: labelled lstart :: (p.body ++ (p.step ++ labelled lcond :: p.test lstart lend)))) hstep
  simp only [List.length_nil, Nat.zero_add] at hpart
  exact hpart

theorem code_acts {place place' : Place} {g g' : Frame α ω} (h : Layout p lstart lend lcond)
    (hacts : p.Acts env n place g place' g') :
    stepAt env n (p.code lstart lend lcond) ⟨p.position (p.code lstart lend lcond).length place, g⟩ =
      some ⟨p.position (p.code lstart lend lcond).length place', g'⟩ := by
  cases hacts with
  | start hstep => exact code_inStart h hstep
  | condition hc hstep => exact code_condition h hc hstep
  | enter => exact code_lstart p lstart lend lcond _
  | body hstep => exact code_inBody h hstep
  | step hstep => exact code_inStep h hstep

theorem code_passes {place place' : Place} {g : Frame α ω} (h : Layout p lstart lend lcond)
    (hc : p.condition.isSome = true) (hpasses : p.Passes g place place') :
    Run env n (p.code lstart lend lcond) ⟨p.position (p.code lstart lend lcond).length place, g⟩
      ⟨p.position (p.code lstart lend lcond).length place', g⟩ := by
  cases hpasses with
  | started => exact .tail (.tail .refl (code_jump h _)) (code_lcond p lstart lend lcond _)
  | always hnone =>
    rw [hnone] at hc
    cases hc
  | holds hsome htrue =>
    refine ReflTransGen.single ((code_tested h hsome _).trans ?_)
    rw [if_pos htrue]
    rfl
  | fails hsome hfalse =>
    refine .tail (.tail .refl ((code_tested h hsome _).trans ?_)) (code_lend hsome _)
    rw [if_neg (by simp [hfalse])]
  | bodyEnds => exact .refl
  | stepped => exact ReflTransGen.single (code_lcond p lstart lend lcond _)

end

theorem Layout.simulated {p : LoopParts} {lstart lend lcond : String} (h : Layout p lstart lend lcond)
    (hc : p.condition.isSome = true) :
    Simulated p (p.code lstart lend lcond) (p.position (p.code lstart lend lcond).length) where
  begins _ _ _ _ _ _ := .refl
  acts _ _ _ _ _ _ _ _ _ _ _ hacts := code_acts h hacts
  passes _ _ _ _ _ _ _ _ _ _ hpasses := code_passes h hc hpasses
  done := rfl

theorem straight_next {α : Type} [NumOps α] {i : Instruction} {regs regs' : Regs α} {control : Control}
    (hi : Straight i) (h : execLocal i regs = some (regs', control)) : control = .next := by
  obtain ⟨opcode, r0, r1, r2⟩ := i
  cases opcode <;>
    simp only [Straight, List.mem_cons, List.not_mem_nil, or_false, reduceCtorEq, or_self] at hi
  case MOD =>
    unfold execLocal at h
    dsimp only at h
    split at h <;> cases h <;> rfl
  all_goals
    simp only [execLocal, Opcode.jumpRel, Opcode.immediateRel, Option.some.injEq, Prod.mk.injEq,
      Option.map_eq_some_iff, arithmetic, Opcode.compareRel, Option.map_none, reduceCtorEq] at h
  case ADD | DIV | SUB | MUL | CMP_EQUAL | CMP_LESS | CMP_LESS_OR_EQUAL | CMP_GREATER | CMP_N_EQUAL
      | CMP_GREATER_OR_EQUAL =>
    obtain ⟨-, -, -, rfl⟩ := h
    rfl
  case MOV_NUMBER | MOV | INC | DEC => exact h.2.symm

theorem quiet_next {i : Instruction} (hi : Straight i) (n : ℕ) (f : Frame ℚ Unit) :
    ∃ f', exec quiet n i f = some (f', .next) := by
  unfold exec
  cases hlocal : execLocal i f.regs with
  | some result =>
    obtain ⟨regs, control⟩ := result
    obtain rfl := straight_next hi hlocal
    exact ⟨_, rfl⟩
  | none =>
    dsimp only
    split
    · exact ⟨_, rfl⟩
    · exact ⟨_, rfl⟩

theorem start_reached {p : LoopParts} (hstraight : ∀ i ∈ p.start, Straight i) (f : Frame ℚ Unit) :
    ∃ g, p.Reaches quiet 0 f (.start p.start.length) g := by
  have hfront : ∀ k, k ≤ p.start.length → ∃ g, p.Reaches quiet 0 f (.start k) g := by
    intro k
    induction k with
    | zero =>
      intro _
      exact ⟨f, .begins⟩
    | succ k ih =>
      intro hk
      obtain ⟨g, hg⟩ := ih (Nat.le_of_succ_le hk)
      have hi : p.start[k]? = some p.start[k] := List.getElem?_eq_getElem hk
      obtain ⟨g', hexec⟩ := quiet_next (hstraight _ (List.getElem_mem hk)) 0 g
      exact ⟨g', .acts hg (.start (stepAt_next hi hexec))⟩
  exact hfront _ (Nat.le_refl _)

theorem never_round {p : LoopParts} {lstart lend lcond : String} (h : Layout p lstart lend lcond)
    (hstraight : ∀ i ∈ p.start, Straight i) (hc : p.condition = none) (f g : Frame ℚ Unit) :
    ¬ Run quiet 0 (p.code lstart lend lcond) ⟨0, f⟩ ⟨p.start.length + 1, g⟩ := by
  intro hrun
  have hkept : ∀ s s' : Point ℚ Unit,
      (s.pc ≤ p.start.length ∨ p.start.length + 2 + p.body.length + p.step.length ≤ s.pc) →
      stepAt quiet 0 (p.code lstart lend lcond) s = some s' →
      (s'.pc ≤ p.start.length ∨ p.start.length + 2 + p.body.length + p.step.length ≤ s'.pc) := by
    rintro ⟨pc, f₁⟩ ⟨pc', f₂⟩ hpc hstep
    dsimp only at hpc ⊢
    rcases hpc with hbefore | hafter
    · rcases Nat.lt_or_eq_of_le hbefore with hlt | rfl
      · obtain ⟨i, control, hi, hexec, htarget⟩ := stepAt_some.mp hstep
        rw [LoopParts.code, List.getElem?_append_left hlt] at hi
        obtain ⟨f₃, hnext⟩ := quiet_next (hstraight i (List.mem_of_getElem? hi)) 0 f₁
        rw [hnext] at hexec
        cases hexec
        cases htarget
        exact .inl hlt
      · rw [code_jump h] at hstep
        cases hstep
        exact .inr (Nat.le_refl _)
    · obtain ⟨i, control, hi, hexec, htarget⟩ := stepAt_some.mp hstep
      have hlabel : ∃ name, i = labelled name := by
        rw [p.code_test, List.getElem?_append_right (by simp; omega), LoopParts.test, hc] at hi
        have hmem := List.mem_of_getElem? hi
        simp only [List.mem_cons, List.not_mem_nil, or_false] at hmem
        rcases hmem with rfl | rfl
        · exact ⟨lcond, rfl⟩
        · exact ⟨lend, rfl⟩
      obtain ⟨name, rfl⟩ := hlabel
      rw [exec_labelled] at hexec
      cases hexec
      cases htarget
      exact .inr (Nat.le_succ_of_le hafter)
  have hround := Simulation.invariant_run hkept (.inl (Nat.zero_le _)) hrun
  dsimp only at hround
  omega

def CompiledParts (fuel : ℕ) (context : Context) (startExpr condition iterExpr : Option Expr) (body : Body)
    (s : CompilerState) (p : LoopParts) : Prop :=
  ∃ s₁ s₂ s₃, Compiler.compileDiscarded startExpr { s with labelCount := s.labelCount + 3 } =
      .ok ((), s₁, p.start) ∧
    Compiler.compileBody (Compiler.compileStmt fuel)
      { context with loopEndLabels := label ".lend_" (s.labelCount + 2) :: context.loopEndLabels } body s₁ =
      .ok ((), s₂, p.body) ∧
    Compiler.compileDiscarded iterExpr s₂ = .ok ((), s₃, p.step) ∧
    match condition with
    | none => p.condition = none
    | some e => ∃ reg s₄ c, Compiler.compileExpression e 0 s₃ = .ok (reg, s₄, c) ∧ p.condition = some (c, reg)

section

variable {fuel : ℕ} {context : Context} {startExpr condition iterExpr : Option Expr} {body : Body}
  {s s' : CompilerState} {c : Code}

/-- There is one such list of parts. -/
theorem CompiledParts.unique {p q : LoopParts}
    (hp : CompiledParts fuel context startExpr condition iterExpr body s p)
    (hq : CompiledParts fuel context startExpr condition iterExpr body s q) : p = q := by
  obtain ⟨s₁, s₂, s₃, hstart, hbody, hstep, hcondition⟩ := hp
  obtain ⟨t₁, t₂, t₃, hstart', hbody', hstep', hcondition'⟩ := hq
  obtain ⟨start, body, step, cond⟩ := p
  obtain ⟨start', body', step', cond'⟩ := q
  rw [hstart] at hstart'
  cases hstart'
  rw [hbody] at hbody'
  cases hbody'
  rw [hstep] at hstep'
  cases hstep'
  cases condition with
  | none =>
    cases hcondition
    cases hcondition'
    rfl
  | some e =>
    obtain ⟨reg, s₄, code, hcode, rfl⟩ := hcondition
    obtain ⟨reg', t₄, code', hcode', rfl⟩ := hcondition'
    rw [hcode] at hcode'
    cases hcode'
    rfl

theorem straight_unlabelled {code : Code} (h : ∀ i ∈ code, Straight i) : Unlabelled code := by
  apply unlabelled_of_opcodes
  intro i hi hopcode
  have hstraight := h i hi
  rw [Straight, hopcode] at hstraight
  simp at hstraight

theorem not_numbered {lo hi k : ℕ} {stem : String} (hstem : LabelNames.IsStem stem) (hk : k ≤ lo) :
    ¬ NumberedLabel lo hi (label stem k) := by
  rintro ⟨stem', k', hstem', hlo, -, heq⟩
  obtain ⟨-, rfl⟩ := Resolution.label_injective hstem hstem' heq
  omega

theorem labelIndex_none {lo hi : ℕ} {code : Code} {name : String} (h : LabelsNumbered lo hi code)
    (hname : ¬ NumberedLabel lo hi name) : labelIndex code name = none := by
  cases hindex : labelIndex code name with
  | none => rfl
  | some index => exact absurd (h name index hindex) hname

theorem layout_of_parts {p : LoopParts} {lo hi : ℕ} (hstart : ∀ i ∈ p.start, Straight i)
    (hstep : ∀ i ∈ p.step, Straight i)
    (hcondition : ∀ code reg, p.condition = some (code, reg) → ∀ i ∈ code, Straight i)
    (hbody : LabelsNumbered (lo + 3) hi p.body) :
    Layout p (label ".lstart_" (lo + 1)) (label ".lend_" (lo + 2)) (label ".lcond_" (lo + 3)) where
  start := straight_unlabelled hstart
  step := straight_unlabelled hstep
  condition := fun code reg hc => straight_unlabelled (hcondition code reg hc)
  body := by
    rintro name (rfl | rfl | rfl)
    · exact labelIndex_none hbody (not_numbered (by decide) (by omega))
    · exact labelIndex_none hbody (not_numbered (by decide) (by omega))
    · exact labelIndex_none hbody (not_numbered (by decide) (by omega))
  distinct := by
    refine ⟨?_, ?_, ?_⟩ <;>
    · intro heq
      have hnumbers := (Resolution.label_injective (by decide) (by decide) heq).2
      omega

theorem freshLabel_run {stem name : String} (h : Compiler.freshLabel stem s = .ok (name, s', c)) :
    name = label stem (s.labelCount + 1) ∧ s' = { s with labelCount := s.labelCount + 1 } ∧ c = [] := by
  cases h
  exact ⟨rfl, rfl, rfl⟩

theorem addInstruction_run {opcode : Opcode} {r0 r1 r2 : Operand} {u : Unit}
    (h : Compiler.addInstruction opcode r0 r1 r2 s = .ok (u, s', c)) : s' = s ∧ c = [⟨opcode, r0, r1, r2⟩] := by
  cases h
  exact ⟨rfl, rfl⟩

def loopContext (context : Context) (s : CompilerState) : Context :=
  { context with loopEndLabels := label ".lend_" (s.labelCount + 2) :: context.loopEndLabels }

structure CompiledLoop (startExpr condition iterExpr : Option Expr) (s s₁ s₂ s' : CompilerState)
    (p : LoopParts) : Prop where
  start : Compiler.compileDiscarded startExpr { s with labelCount := s.labelCount + 3 } = .ok ((), s₁, p.start)
  rest : ∃ s₃, Compiler.compileDiscarded iterExpr s₂ = .ok ((), s₃, p.step) ∧
    match condition with
    | none => p.condition = none ∧ s' = s₃
    | some e => ∃ reg s₄ c free, Compiler.compileExpression e 0 s₃ = .ok (reg, s₄, c) ∧
      Compiler.freeRegister reg s₄ = .ok ((), s', free) ∧ p.condition = some (c, reg)

variable {p : LoopParts} {s₁ s₂ : CompilerState}

theorem CompiledLoop.parts (h : CompiledLoop startExpr condition iterExpr s s₁ s₂ s' p)
    (hbody : Compiler.compileBody (Compiler.compileStmt fuel) (loopContext context s) body s₁ =
      .ok ((), s₂, p.body)) : CompiledParts fuel context startExpr condition iterExpr body s p := by
  obtain ⟨s₃, hstep, hcondition⟩ := h.rest
  refine ⟨s₁, s₂, s₃, h.start, hbody, hstep, ?_⟩
  cases condition with
  | none => exact hcondition.1
  | some e =>
    obtain ⟨reg, s₄, code, free, hcode, -, hsome⟩ := hcondition
    exact ⟨reg, s₄, code, hcode, hsome⟩

theorem CompiledLoop.start_plain (h : CompiledLoop startExpr condition iterExpr s s₁ s₂ s' p) (hs : Tidy s) :
    Tidy s₁ ∧ s₁.labelCount = s.labelCount + 3 ∧ ∀ i ∈ p.start, Straight i := by
  have hcounted : Tidy { s with labelCount := s.labelCount + 3 } := ⟨hs.function, hs.kept⟩
  obtain ⟨hs₁, hcount, -, hstraight⟩ := (compileDiscarded_plain startExpr).ok hcounted h.start
  exact ⟨hs₁, hcount, hstraight⟩

theorem CompiledLoop.rest_plain (h : CompiledLoop startExpr condition iterExpr s s₁ s₂ s' p) (hs : Tidy s₂) :
    s'.labelCount = s₂.labelCount ∧ (∀ i ∈ p.step, Straight i) ∧
      ∀ code reg, p.condition = some (code, reg) → ∀ i ∈ code, Straight i := by
  obtain ⟨s₃, hstep, hcondition⟩ := h.rest
  obtain ⟨hs₃, hcount, -, hstraight⟩ := (compileDiscarded_plain iterExpr).ok hs hstep
  cases condition with
  | none =>
    obtain ⟨hnone, rfl⟩ := hcondition
    refine ⟨hcount, hstraight, ?_⟩
    intro code reg hsome
    rw [hnone] at hsome
    cases hsome
  | some e =>
    obtain ⟨reg, s₄, code, free, hexpression, hfree, hsome⟩ := hcondition
    obtain ⟨hs₄, hcount₄, -, hstraight₄⟩ := (compileExpression_plain e 0).ok hs₃ hexpression
    obtain ⟨-, hcount', -, -⟩ := freeRegister_ok hs₄ hfree
    refine ⟨by omega, hstraight, ?_⟩
    intro code' reg' hsome'
    rw [hsome] at hsome'
    cases hsome'
    exact hstraight₄

theorem compileLoop_run
    (hrun : Compiler.compileLoop (Compiler.compileStmt fuel) context startExpr condition iterExpr body s =
      .ok ((), s', c)) :
    ∃ s₁ s₂ p, CompiledLoop startExpr condition iterExpr s s₁ s₂ s' p ∧
      Compiler.compileBody (Compiler.compileStmt fuel) (loopContext context s) body s₁ = .ok ((), s₂, p.body) ∧
      (s.labelCount + 3 < 2 ^ 31 → c = p.code (label ".lstart_" (s.labelCount + 1))
        (label ".lend_" (s.labelCount + 2)) (label ".lcond_" (s.labelCount + 3))) := by
  unfold Compiler.compileLoop at hrun
  obtain ⟨lstart, s₁, c₁, d₁, hlstart, hrun₁, rfl⟩ := bind_ok.mp hrun
  obtain ⟨lend, s₂, c₂, d₂, hlend, hrun₂, rfl⟩ := bind_ok.mp hrun₁
  obtain ⟨lcond, s₃, c₃, d₃, hlcond, hrun₃, rfl⟩ := bind_ok.mp hrun₂
  obtain ⟨⟨⟩, s₄, c₄, d₄, hfirst, hrun₄, rfl⟩ := bind_ok.mp hrun₃
  obtain ⟨⟨⟩, s₅, c₅, d₅, hjump, hrun₅, rfl⟩ := bind_ok.mp hrun₄
  obtain ⟨⟨⟩, s₆, c₆, d₆, hlabel, hrun₆, rfl⟩ := bind_ok.mp hrun₅
  obtain ⟨⟨⟩, s₇, c₇, d₇, hbody, hrun₇, rfl⟩ := bind_ok.mp hrun₆
  obtain ⟨⟨⟩, s₈, c₈, d₈, hiter, hrun₈, rfl⟩ := bind_ok.mp hrun₇
  obtain ⟨⟨⟩, s₉, c₉, d₉, hlabel', hrun₉, rfl⟩ := bind_ok.mp hrun₈
  obtain ⟨rfl, rfl, rfl⟩ := freshLabel_run hlstart
  obtain ⟨rfl, rfl, rfl⟩ := freshLabel_run hlend
  obtain ⟨rfl, rfl, rfl⟩ := freshLabel_run hlcond
  obtain ⟨rfl, rfl⟩ := addInstruction_run hjump
  obtain ⟨rfl, rfl⟩ := addInstruction_run hlabel
  obtain ⟨rfl, rfl⟩ := addInstruction_run hlabel'
  have htruncated : s.labelCount + 3 < 2 ^ 31 →
      Compiler.truncate 98 (label ".lstart_" (s.labelCount + 1)) = label ".lstart_" (s.labelCount + 1) ∧
      Compiler.truncate 98 (label ".lend_" (s.labelCount + 2)) = label ".lend_" (s.labelCount + 2) ∧
      Compiler.truncate 98 (label ".lcond_" (s.labelCount + 3)) = label ".lcond_" (s.labelCount + 3) := by
    intro hn
    exact ⟨truncate_label (by decide) (by omega), truncate_label (by decide) (by omega),
      truncate_label (by decide) (by omega)⟩
  cases condition with
  | none =>
    obtain ⟨rfl, rfl⟩ := addInstruction_run hrun₉
    refine ⟨s₆, s₇, ⟨c₄, c₇, c₈, none⟩, ⟨hfirst, _, hiter, rfl, rfl⟩, hbody, ?_⟩
    intro hn
    obtain ⟨hlstart, hlend, hlcond⟩ := htruncated hn
    simp [LoopParts.code, LoopParts.test, hlstart, hlend, hlcond]
  | some e =>
    obtain ⟨reg, s₁₀, c₁₀, d₁₀, hcond, hrun₁₀, rfl⟩ := bind_ok.mp hrun₉
    obtain ⟨⟨⟩, s₁₁, c₁₁, d₁₁, hjump', hrun₁₁, rfl⟩ := bind_ok.mp hrun₁₀
    obtain ⟨⟨⟩, s₁₂, c₁₂, d₁₂, hfree, hlabel', rfl⟩ := bind_ok.mp hrun₁₁
    obtain ⟨rfl, rfl⟩ := addInstruction_run hjump'
    obtain ⟨rfl, rfl⟩ := addInstruction_run hlabel'
    refine ⟨s₆, s₇, ⟨c₄, c₇, c₈, some (c₁₀, reg)⟩, ⟨hfirst, _, hiter, reg, _, c₁₀, c₁₂, hcond, hfree, rfl⟩,
      hbody, ?_⟩
    intro hn
    have hsilent : c₁₂ = [] := by
      cases hfree
      rfl
    obtain ⟨hlstart, hlend, hlcond⟩ := htruncated hn
    simp [LoopParts.code, LoopParts.test, hlstart, hlend, hlcond, hsilent]

theorem compileLoop_parts (hs : Tidy s) (hn : s'.labelCount < 2 ^ 31)
    (hrun : Compiler.compileLoop (Compiler.compileStmt fuel) context startExpr condition iterExpr body s =
      .ok ((), s', c)) :
    ∃ p, CompiledParts fuel context startExpr condition iterExpr body s p ∧
      Layout p (label ".lstart_" (s.labelCount + 1)) (label ".lend_" (s.labelCount + 2))
        (label ".lcond_" (s.labelCount + 3)) ∧
      (∀ i ∈ p.start, Straight i) ∧
      c = p.code (label ".lstart_" (s.labelCount + 1)) (label ".lend_" (s.labelCount + 2))
        (label ".lcond_" (s.labelCount + 3)) := by
  obtain ⟨s₁, s₂, p, hloop, hbody, hcode⟩ := compileLoop_run hrun
  obtain ⟨hs₁, hcount, hstart⟩ := hloop.start_plain hs
  have hs₂ := (compileBody_forms statementForm_typed (compileStmt_forms tidy_stable statementForm_typed fuel)
    _ _ _ _ _ _ hs₁ hbody).1
  obtain ⟨hcount', hstep, hcondition⟩ := hloop.rest_plain hs₂
  obtain ⟨hle, hnumbered⟩ := compileBody_numbered hs₁ (by omega) hbody
  rw [hcount] at hnumbered
  exact ⟨p, hloop.parts hbody, layout_of_parts hstart hstep hcondition hnumbered, hstart, hcode (by omega)⟩

end

def isFunction : Stmt → Bool
  | .function _ _ _ _ _ _ => true
  | _ => false

def noParser : List Token → Option ExpressionContext := fun _ => none

def neverAgain : ExpressionContext → Visit Expr := fun _ => fail .tooDeep

def sampleName : Identifier := ⟨"x", by decide +kernel⟩

abbrev sampleContext : Context := ⟨[], true, [], []⟩

abbrev sampleState : CompilerState := { function := LocalAssignment.sampleFunction }

theorem sampleState_tidy : Tidy sampleState := ⟨LocalAssignment.sampleFunction_ready.wellFormed, nofun⟩

end Zeroscript.Loops
