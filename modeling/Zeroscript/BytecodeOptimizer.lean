import Mathlib.Logic.Relation
import Zeroscript.Instruction

/-! # `BytecodeOptimizer`

One pass looks at an instruction and its successor; passes repeat while the list gets shorter. A
pass is a chain of local rewrites, which is how it is reasoned about. -/
namespace Zeroscript

open Relation (ReflTransGen)

def Opcode.immediateJump : Opcode → Option Opcode
  | .JMP_N_EQUAL => some .JMP_N_EQUAL_I
  | .JMP_EQUAL => some .JMP_EQUAL_I
  | .JMP_LESS => some .JMP_LESS_I
  | .JMP_LESS_OR_EQUAL => some .JMP_LESS_OR_EQUAL_I
  | .JMP_GREATER => some .JMP_GREATER_I
  | .JMP_GREATER_OR_EQUAL => some .JMP_GREATER_OR_EQUAL_I
  | _ => none

/-- The compare-and-jump for a compare whose result is tested; `neg` for `JMP_NOT_TRUE`. -/
def Opcode.compareJump (neg : Bool) : Opcode → Option Opcode
  | .CMP_EQUAL => some (if neg then .JMP_N_EQUAL else .JMP_EQUAL)
  | .CMP_N_EQUAL => some (if neg then .JMP_EQUAL else .JMP_N_EQUAL)
  | .CMP_LESS => some (if neg then .JMP_GREATER_OR_EQUAL else .JMP_LESS)
  | .CMP_LESS_OR_EQUAL => some (if neg then .JMP_GREATER else .JMP_LESS_OR_EQUAL)
  | .CMP_GREATER => some (if neg then .JMP_LESS_OR_EQUAL else .JMP_GREATER)
  | .CMP_GREATER_OR_EQUAL => some (if neg then .JMP_LESS else .JMP_GREATER_OR_EQUAL)
  | _ => none

/-- `mov_n jmp -> jmp immediate`. -/
def fuseImmediate (current next : Instruction) : Option Instruction :=
  if current.r0 = next.r1 then
    next.opcode.immediateJump.map fun opcode => ⟨opcode, next.r0, current.r1, next.r2⟩
  else none

/-- `compare and mov`. -/
def collapse (current next : Instruction) : Option Instruction :=
  if next.r1 = current.r2 then some { current with r2 := next.r1 } else none

/-- `compare and jump`. -/
def fuseJump (current next : Instruction) : Option Instruction :=
  if next.opcode = .JMP_NOT_TRUE ∨ next.opcode = .JMP_TRUE then
    (current.opcode.compareJump (next.opcode == .JMP_NOT_TRUE)).map fun opcode =>
      ⟨opcode, current.r0, current.r1, next.r1⟩
  else none

/-- What the loop body makes of an instruction and its successor. -/
inductive Rewrite where
  /-- Push the instruction. -/
  | keep
  /-- `continue`. -/
  | skip
  /-- Push one instruction for both. -/
  | merge (instruction : Instruction)
  deriving DecidableEq, Repr

def Rewrite.ofOption : Option Instruction → Rewrite
  | some instruction => .merge instruction
  | none => .keep

def rewrite (current next : Instruction) : Rewrite :=
  if current.opcode = .RETURN ∧ next.opcode = .RETURN then .merge current
  else if current.opcode = .MOV ∧ current.r0 = current.r1 then .skip
  else if current.opcode = .MOV_NUMBER then .ofOption (fuseImmediate current next)
  else if current.opcode.isCompare then
    .ofOption ((collapse current next).orElse fun _ => fuseJump current next)
  else .keep

/-- The instructions whose treatment depends on the next one. -/
def Opcode.looksAhead (opcode : Opcode) : Bool :=
  opcode == .RETURN || opcode == .MOV_NUMBER || opcode.isCompare

/-- One pass; `none` when it reads past the end of the list. -/
def optimizePass : Code → Option Code
  | [] => some []
  | [current] =>
    if current.opcode.looksAhead then none
    else if current.opcode = .MOV ∧ current.r0 = current.r1 then some []
    else some [current]
  | current :: next :: rest =>
    match rewrite current next with
    | .keep => (optimizePass (next :: rest)).map (current :: ·)
    | .skip => optimizePass (next :: rest)
    | .merge instruction => (optimizePass rest).map (instruction :: ·)

/-- The recursion of `optimize`; a pass that changes the length shortens the list, so the length
bounds the number of passes. -/
def optimizeWithin : ℕ → Code → Option Code
  | 0, code => some code
  | bound + 1, code =>
    match optimizePass code with
    | none => none
    | some ret => if ret.length = code.length then some ret else optimizeWithin bound ret

def optimize (code : Code) : Option Code := optimizeWithin code.length code

inductive RewriteStep : Code → Code → Prop where
  | returns {before after : Code} {current next : Instruction}
      (hc : current.opcode = .RETURN) (hn : next.opcode = .RETURN) :
      RewriteStep (before ++ current :: next :: after) (before ++ current :: after)
  | mov {before after : Code} {current : Instruction}
      (hc : current.opcode = .MOV) (hr : current.r0 = current.r1) :
      RewriteStep (before ++ current :: after) (before ++ after)
  | immediate {before after : Code} {current next fused : Instruction}
      (hc : current.opcode = .MOV_NUMBER) (hf : fuseImmediate current next = some fused) :
      RewriteStep (before ++ current :: next :: after) (before ++ fused :: after)
  | collapsed {before after : Code} {current next fused : Instruction}
      (hc : current.opcode.isCompare = true) (hf : collapse current next = some fused) :
      RewriteStep (before ++ current :: next :: after) (before ++ fused :: after)
  | jump {before after : Code} {current next fused : Instruction}
      (hc : current.opcode.isCompare = true) (hf : fuseJump current next = some fused) :
      RewriteStep (before ++ current :: next :: after) (before ++ fused :: after)

theorem rewrite_skip {current next : Instruction} (h : rewrite current next = .skip) :
    current.opcode = .MOV ∧ current.r0 = current.r1 := by
  unfold rewrite Rewrite.ofOption at h
  split at h
  · cases h
  · split at h
    · assumption
    · split at h
      · split at h <;> cases h
      · split at h
        · split at h <;> cases h
        · cases h

theorem rewrite_merge_cases {current next fused : Instruction} (h : rewrite current next = .merge fused) :
    (current.opcode = .RETURN ∧ next.opcode = .RETURN ∧ fused = current) ∨
      (current.opcode = .MOV_NUMBER ∧ fuseImmediate current next = some fused) ∨
      (current.opcode.isCompare = true ∧ collapse current next = some fused) ∨
      (current.opcode.isCompare = true ∧ fuseJump current next = some fused) := by
  unfold rewrite Rewrite.ofOption at h
  split at h
  · rename_i hret
    cases h
    exact .inl ⟨hret.1, hret.2, rfl⟩
  · split at h
    · cases h
    · split at h
      · rename_i hmov
        split at h
        · rename_i hf
          cases h
          exact .inr (.inl ⟨hmov, hf⟩)
        · cases h
      · split at h
        · rename_i hcmp
          split at h
          · rename_i hf
            cases h
            cases hcollapse : collapse current next with
            | some merged =>
              rw [hcollapse] at hf
              exact .inr (.inr (.inl ⟨hcmp, hf⟩))
            | none =>
              rw [hcollapse] at hf
              exact .inr (.inr (.inr ⟨hcmp, hf⟩))
          · cases h
        · cases h

theorem rewrite_merge {current next fused : Instruction} (before after : Code)
    (h : rewrite current next = .merge fused) :
    RewriteStep (before ++ current :: next :: after) (before ++ fused :: after) := by
  rcases rewrite_merge_cases h with ⟨hc, hn, rfl⟩ | ⟨hc, hf⟩ | ⟨hc, hf⟩ | ⟨hc, hf⟩
  · exact .returns hc hn
  · exact .immediate hc hf
  · exact .collapsed hc hf
  · exact .jump hc hf

theorem optimizePass_rewrites {code ret : Code} (h : optimizePass code = some ret) (before : Code) :
    ReflTransGen RewriteStep (before ++ code) (before ++ ret) := by
  induction code using optimizePass.induct generalizing before ret with
  | case1 =>
    cases h
    exact .refl
  | case2 current hahead => simp [optimizePass, hahead] at h
  | case3 current hahead hmov =>
    simp only [optimizePass, hmov, and_self, if_true] at h
    cases h
    exact .single (.mov hmov.1 hmov.2)
  | case4 current hahead hmov =>
    rw [optimizePass, if_neg hahead, if_neg hmov] at h
    cases h
    exact .refl
  | case5 current next rest hkeep ih =>
    simp only [optimizePass, hkeep, Option.map_eq_some_iff] at h
    obtain ⟨tail, htail, rfl⟩ := h
    have hchain := ih htail (before ++ [current])
    rwa [List.append_assoc, List.append_assoc] at hchain
  | case6 current next rest hskip ih =>
    simp only [optimizePass, hskip] at h
    obtain ⟨hc, hr⟩ := rewrite_skip hskip
    exact ReflTransGen.head (.mov hc hr) (ih h before)
  | case7 current next rest fused hmerge ih =>
    simp only [optimizePass, hmerge, Option.map_eq_some_iff] at h
    obtain ⟨tail, htail, rfl⟩ := h
    have hchain := ih htail (before ++ [fused])
    rw [List.append_assoc, List.append_assoc] at hchain
    exact ReflTransGen.head (rewrite_merge before rest hmerge) hchain

theorem optimize_rewrites {code ret : Code} (h : optimize code = some ret) :
    ReflTransGen RewriteStep code ret := by
  unfold optimize at h
  generalize code.length = bound at h
  induction bound generalizing code with
  | zero =>
    cases h
    exact .refl
  | succ bound ih =>
    rw [optimizeWithin] at h
    cases hpass : optimizePass code with
    | none => simp [hpass] at h
    | some out =>
      have hchain := optimizePass_rewrites hpass []
      simp only [hpass] at h
      split at h
      · cases h
        exact hchain
      · exact hchain.trans (ih h)

end Zeroscript
