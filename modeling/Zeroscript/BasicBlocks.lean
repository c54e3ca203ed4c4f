import Mathlib.Data.List.Forall2
import Zeroscript.InstructionShapes

/-! # The optimizer and the basic blocks

The optimizer looks at two instructions at a time. In a compiled class none that it merges or drops is a
label, and the last one is: it never looks past the end, and works inside the basic blocks. -/
namespace Zeroscript.BasicBlocks

open Emission InstructionShapes
open Relation (ReflTransGen)

def isLabel (i : Instruction) : Bool := i.opcode == .LABEL

def labels (code : Code) : Code := code.filter isLabel

def blocks (code : Code) : List Code := code.splitOnP isLabel

inductive Optimizes : Code → Code → Prop where
  | done {code ret : Code} (hpass : optimizePass code = some ret) (hlength : ret.length = code.length) :
      Optimizes code ret
  | again {code next ret : Code} (hpass : optimizePass code = some next) (hlength : next.length ≠ code.length)
      (h : Optimizes next ret) : Optimizes code ret

theorem optimizePass_length {code ret : Code} (h : optimizePass code = some ret) :
    ret.length ≤ code.length ∧ (ret.length = code.length → ret = code) := by
  induction code using optimizePass.induct generalizing ret with
  | case1 =>
    cases h
    exact ⟨le_rfl, fun _ => rfl⟩
  | case2 current hahead => simp [optimizePass, hahead] at h
  | case3 current hahead hmov =>
    rw [optimizePass, if_neg hahead, if_pos hmov] at h
    cases h
    exact ⟨by simp, by simp⟩
  | case4 current hahead hmov =>
    rw [optimizePass, if_neg hahead, if_neg hmov] at h
    cases h
    exact ⟨le_rfl, fun _ => rfl⟩
  | case5 current next rest hkeep ih =>
    simp only [optimizePass, hkeep, Option.map_eq_some_iff] at h
    obtain ⟨tail, htail, rfl⟩ := h
    obtain ⟨hle, heq⟩ := ih htail
    constructor
    · exact Nat.succ_le_succ hle
    · intro hlength
      rw [heq (Nat.succ_injective hlength)]
  | case6 current next rest hskip ih =>
    simp only [optimizePass, hskip] at h
    have hle := (ih h).1
    simp only [List.length_cons] at hle ⊢
    exact ⟨by omega, by omega⟩
  | case7 current next rest fused hmerge ih =>
    simp only [optimizePass, hmerge, Option.map_eq_some_iff] at h
    obtain ⟨tail, htail, rfl⟩ := h
    have hle := (ih htail).1
    simp only [List.length_cons]
    exact ⟨by omega, by omega⟩

theorem optimizeWithin_optimizes {bound : ℕ} {code ret : Code} (hbound : code.length ≤ bound)
    (h : optimizeWithin bound code = some ret) : Optimizes code ret ∧ optimizePass ret = some ret := by
  induction bound generalizing code with
  | zero =>
    obtain rfl := List.length_eq_zero_iff.mp (Nat.le_zero.mp hbound)
    cases h
    exact ⟨.done rfl rfl, rfl⟩
  | succ bound ih =>
    rw [optimizeWithin] at h
    cases hpass : optimizePass code with
    | none =>
      rw [hpass] at h
      cases h
    | some next =>
      obtain ⟨hle, heq⟩ := optimizePass_length hpass
      simp only [hpass] at h
      split at h
      · rename_i hlength
        cases h
        have hpass' := hpass
        rw [← heq hlength] at hpass'
        exact ⟨.done hpass hlength, hpass'⟩
      · rename_i hlength
        obtain ⟨hrest, hfix⟩ := ih (by omega) h
        exact ⟨.again hpass hlength hrest, hfix⟩

theorem optimize_fixed {code : Code} (h : optimizePass code = some code) : optimize code = some code := by
  unfold optimize
  cases hlength : code.length with
  | zero => rfl
  | succ bound =>
    rw [optimizeWithin, h]
    exact if_pos rfl

theorem blocks_label {i : Instruction} (h : isLabel i = true) (code : Code) : blocks (i :: code) = [] :: blocks code := by
  unfold blocks
  rw [List.splitOnP_cons_eq_if_modifyHead, if_pos h]

theorem blocks_cons {i : Instruction} (h : isLabel i = false) (code : Code) :
    blocks (i :: code) = (blocks code).modifyHead (i :: ·) := by
  unfold blocks
  rw [List.splitOnP_cons_eq_if_modifyHead, if_neg (by simp [h])]

theorem rewriteStep_prepend {code code' : Code} (before : Code) (h : RewriteStep code code') :
    RewriteStep (before ++ code) (before ++ code') := by
  cases h with
  | returns hc hn =>
    rw [← List.append_assoc, ← List.append_assoc]
    exact .returns hc hn
  | mov hc hr =>
    rw [← List.append_assoc, ← List.append_assoc]
    exact .mov hc hr
  | immediate hc hf =>
    rw [← List.append_assoc, ← List.append_assoc]
    exact .immediate hc hf
  | collapsed hc hf =>
    rw [← List.append_assoc, ← List.append_assoc]
    exact .collapsed hc hf
  | jump hc hf =>
    rw [← List.append_assoc, ← List.append_assoc]
    exact .jump hc hf

abbrev Rewrites : Code → Code → Prop := ReflTransGen RewriteStep

/-- The labels stay, and every block is rewritten by itself. -/
structure BlockWise (code ret : Code) : Prop where
  labels : labels ret = labels code
  blocks : List.Forall₂ Rewrites (blocks code) (blocks ret)

theorem BlockWise.refl (code : Code) : BlockWise code code :=
  ⟨rfl, List.forall₂_refl _⟩

theorem BlockWise.trans {code mid ret : Code} (h : BlockWise code mid) (h' : BlockWise mid ret) : BlockWise code ret := by
  refine ⟨h'.labels.trans h.labels, ?_⟩
  have hchain := h.blocks
  have hchain' := h'.blocks
  revert hchain hchain'
  generalize BasicBlocks.blocks code = start, BasicBlocks.blocks mid = middle, BasicBlocks.blocks ret = last
  intro hchain hchain'
  induction hchain generalizing last with
  | nil =>
    cases hchain'
    exact .nil
  | cons hhead _ ih =>
    cases hchain' with
    | cons hhead' htail' => exact .cons (hhead.trans hhead') (ih _ htail')

theorem forall₂_modifyHead {bs bs' : List Code} {f g : Code → Code} (h : List.Forall₂ Rewrites bs bs')
    (hf : ∀ b b', Rewrites b b' → Rewrites (f b) (g b')) :
    List.Forall₂ Rewrites (bs.modifyHead f) (bs'.modifyHead g) := by
  cases h with
  | nil => exact .nil
  | cons hhead htail => exact .cons (hf _ _ hhead) htail

theorem rewrites_prepend {code code' : Code} (before : Code) (h : Rewrites code code') :
    Rewrites (before ++ code) (before ++ code') := by
  induction h with
  | refl => exact .refl
  | tail _ hstep ih => exact ih.tail (rewriteStep_prepend before hstep)

theorem BlockWise.keep {code ret : Code} (i : Instruction) (h : BlockWise code ret) : BlockWise (i :: code) (i :: ret) := by
  have hlabels : BasicBlocks.labels (i :: ret) = BasicBlocks.labels (i :: code) := by
    have := h.labels
    unfold BasicBlocks.labels at this ⊢
    rw [List.filter_cons, List.filter_cons, this]
  refine ⟨hlabels, ?_⟩
  cases hi : isLabel i with
  | true =>
    rw [blocks_label hi, blocks_label hi]
    exact .cons .refl h.blocks
  | false =>
    rw [blocks_cons hi, blocks_cons hi]
    exact forall₂_modifyHead h.blocks fun b b' hb => rewrites_prepend [i] hb

theorem BlockWise.skip {code ret : Code} {i : Instruction} (hmov : i.opcode = .MOV) (hsame : i.r0 = i.r1)
    (h : BlockWise code ret) : BlockWise (i :: code) ret := by
  have hi : isLabel i = false := by
    unfold isLabel
    rw [hmov]
    rfl
  refine ⟨?_, ?_⟩
  · rw [h.labels]
    unfold BasicBlocks.labels
    rw [List.filter_cons, if_neg (by simp [hi])]
  · rw [blocks_cons hi]
    have hdropped (b : Code) : RewriteStep (i :: b) b := @RewriteStep.mov [] b i hmov hsame
    have := forall₂_modifyHead (f := (i :: ·)) (g := id) h.blocks fun b b' hb => ReflTransGen.head (hdropped b) hb
    rwa [List.modifyHead_id] at this

theorem BlockWise.merge {code ret : Code} {current next fused : Instruction}
    (hmerge : rewrite current next = .merge fused) (hcurrent : isLabel current = false) (hnext : isLabel next = false)
    (hfused : isLabel fused = false) (h : BlockWise code ret) : BlockWise (current :: next :: code) (fused :: ret) := by
  refine ⟨?_, ?_⟩
  · have := h.labels
    unfold BasicBlocks.labels at this ⊢
    rw [List.filter_cons, if_neg (by simp [hfused]), List.filter_cons, if_neg (by simp [hcurrent]), List.filter_cons,
      if_neg (by simp [hnext]), this]
  · rw [blocks_cons hcurrent, blocks_cons hnext, blocks_cons hfused, List.modifyHead_modifyHead]
    exact forall₂_modifyHead h.blocks fun b b' hb =>
      ReflTransGen.head (rewrite_merge [] b hmerge) (rewrites_prepend [fused] hb)

theorem isLabel_eq_false {i : Instruction} (h : i.opcode ≠ .LABEL) : isLabel i = false := by
  unfold isLabel
  rwa [beq_eq_false_iff_ne]

theorem collapse_next_label {current next fused : Instruction} (hcurrent : Typed current) (hnext : Typed next)
    (hcompare : current.opcode.isCompare = true) (h : collapse current next = some fused) : next.opcode ≠ .LABEL := by
  intro hlabel
  unfold collapse at h
  split at h
  · rename_i hr
    have hresult := hcurrent.result hcompare
    have hzero : ∀ r, next.r1 = .num r → r = 0 := hnext.second (by rw [hlabel]; rfl)
    rw [← hr] at hresult
    cases hoperand : next.r1 with
    | num r =>
      rw [hoperand] at hresult
      exact hresult (hzero r hoperand)
    | str _ | symbols _ =>
      rw [hoperand] at hresult
      exact hresult rfl
  · cases h

theorem rewrite_merge_labels {current next fused : Instruction} (hcurrent : Typed current) (hnext : Typed next)
    (h : rewrite current next = .merge fused) :
    isLabel current = false ∧ isLabel next = false ∧ isLabel fused = false := by
  have hcompare (hc : current.opcode.isCompare = true) : current.opcode ≠ .LABEL := by
    intro hlabel
    rw [hlabel] at hc
    cases hc
  rcases rewrite_merge_cases h with ⟨hc, hn, rfl⟩ | ⟨hc, hf⟩ | ⟨hc, hf⟩ | ⟨hc, hf⟩
  · have hlabel : isLabel fused = false := isLabel_eq_false (by rw [hc]; decide)
    exact ⟨hlabel, isLabel_eq_false (by rw [hn]; decide), hlabel⟩
  · unfold fuseImmediate at hf
    split at hf
    · obtain ⟨opcode, hopcode, rfl⟩ := Option.map_eq_some_iff.mp hf
      refine ⟨isLabel_eq_false (by rw [hc]; decide), isLabel_eq_false fun hn => ?_, isLabel_eq_false fun hn => ?_⟩
      · rw [hn] at hopcode
        cases hopcode
      · change opcode = .LABEL at hn
        subst hn
        generalize next.opcode = op at hopcode
        cases op <;> cases hopcode
    · cases hf
  · have hnext := collapse_next_label hcurrent hnext hc hf
    unfold collapse at hf
    split at hf
    · cases hf
      exact ⟨isLabel_eq_false (hcompare hc), isLabel_eq_false hnext, isLabel_eq_false (hcompare hc)⟩
    · cases hf
  · unfold fuseJump at hf
    split at hf
    · rename_i hjump
      obtain ⟨opcode, hopcode, rfl⟩ := Option.map_eq_some_iff.mp hf
      refine ⟨isLabel_eq_false (hcompare hc), isLabel_eq_false fun hn => ?_, isLabel_eq_false fun hn => ?_⟩
      · rw [hn] at hjump
        rcases hjump with hjump | hjump <;> cases hjump
      · change opcode = .LABEL at hn
        subst hn
        generalize current.opcode = op, (next.opcode == .JMP_NOT_TRUE) = neg at hopcode
        cases neg <;> cases op <;> cases hopcode
    · cases hf

theorem optimizePass_blockWise {code ret : Code} (htyped : ∀ i ∈ code, Typed i) (h : optimizePass code = some ret) :
    BlockWise code ret := by
  induction code using optimizePass.induct generalizing ret with
  | case1 =>
    cases h
    exact .refl []
  | case2 current hahead => simp [optimizePass, hahead] at h
  | case3 current hahead hmov =>
    rw [optimizePass, if_neg hahead, if_pos hmov] at h
    cases h
    exact .skip hmov.1 hmov.2 (.refl [])
  | case4 current hahead hmov =>
    rw [optimizePass, if_neg hahead, if_neg hmov] at h
    cases h
    exact .refl [current]
  | case5 current next rest hkeep ih =>
    simp only [optimizePass, hkeep, Option.map_eq_some_iff] at h
    obtain ⟨tail, htail, rfl⟩ := h
    exact (ih (fun i hi => htyped i (List.mem_cons_of_mem _ hi)) htail).keep current
  | case6 current next rest hskip ih =>
    simp only [optimizePass, hskip] at h
    obtain ⟨hmov, hsame⟩ := rewrite_skip hskip
    exact (ih (fun i hi => htyped i (List.mem_cons_of_mem _ hi)) h).skip hmov hsame
  | case7 current next rest fused hmerge ih =>
    simp only [optimizePass, hmerge, Option.map_eq_some_iff] at h
    obtain ⟨tail, htail, rfl⟩ := h
    obtain ⟨hcurrent, hnext, hfused⟩ := rewrite_merge_labels (htyped current (by simp)) (htyped next (by simp)) hmerge
    exact (ih (fun i hi => htyped i (by simp [hi])) htail).merge hmerge hcurrent hnext hfused

def EndsWithLabel (code : Code) : Prop := code.getLast?.any isLabel = true

theorem endsWithLabel_cons_cons {i j : Instruction} {code : Code} :
    EndsWithLabel (i :: j :: code) ↔ EndsWithLabel (j :: code) := by
  unfold EndsWithLabel
  rw [List.getLast?_cons_cons]

theorem EndsWithLabel.cons {code : Code} (h : EndsWithLabel code) (i : Instruction) : EndsWithLabel (i :: code) := by
  cases code with
  | nil => cases h
  | cons j code => exact endsWithLabel_cons_cons.mpr h

theorem EndsWithLabel.after {i : Instruction} {code : Code} (hi : isLabel i = false) (h : EndsWithLabel (i :: code)) :
    EndsWithLabel code := by
  cases code with
  | nil =>
    change isLabel i = true at h
    rw [hi] at h
    cases h
  | cons j code => exact endsWithLabel_cons_cons.mp h

theorem label_passed {i : Instruction} (h : isLabel i = true) :
    i.opcode.looksAhead = false ∧ ¬(i.opcode = .MOV ∧ i.r0 = i.r1) := by
  have hopcode : i.opcode = .LABEL := beq_iff_eq.mp h
  rw [hopcode]
  exact ⟨rfl, nofun⟩

/-- A pass over a list that ends with a label does not look past its end, and leaves the label there. -/
theorem optimizePass_returns {code : Code} (htyped : ∀ i ∈ code, Typed i) (h : EndsWithLabel code) :
    ∃ ret, optimizePass code = some ret ∧ EndsWithLabel ret := by
  induction code using optimizePass.induct with
  | case1 =>
    cases h
  | case2 current hahead => exact absurd ((label_passed h).1.symm.trans hahead) (by decide)
  | case3 current hahead hmov => exact absurd hmov (label_passed h).2
  | case4 current hahead hmov =>
    rw [optimizePass, if_neg hahead, if_neg hmov]
    exact ⟨_, rfl, h⟩
  | case5 current next rest hkeep ih =>
    obtain ⟨tail, htail, hends⟩ := ih (fun i hi => htyped i (List.mem_cons_of_mem _ hi)) (endsWithLabel_cons_cons.mp h)
    simp only [optimizePass, hkeep, htail]
    exact ⟨_, rfl, hends.cons _⟩
  | case6 current next rest hskip ih =>
    obtain ⟨tail, htail, hends⟩ := ih (fun i hi => htyped i (List.mem_cons_of_mem _ hi)) (endsWithLabel_cons_cons.mp h)
    simp only [optimizePass, hskip, htail]
    exact ⟨_, rfl, hends⟩
  | case7 current next rest fused hmerge ih =>
    obtain ⟨-, hnext, -⟩ := rewrite_merge_labels (htyped current (by simp)) (htyped next (by simp)) hmerge
    obtain ⟨tail, htail, hends⟩ := ih (fun i hi => htyped i (by simp [hi])) ((endsWithLabel_cons_cons.mp h).after hnext)
    simp only [optimizePass, hmerge, htail]
    exact ⟨_, rfl, hends.cons _⟩

theorem optimizeWithin_returns {bound : ℕ} {code : Code} (htyped : ∀ i ∈ code, Typed i) (h : EndsWithLabel code) :
    ∃ ret, optimizeWithin bound code = some ret := by
  induction bound generalizing code with
  | zero => exact ⟨code, rfl⟩
  | succ bound ih =>
    obtain ⟨next, hpass, hends⟩ := optimizePass_returns htyped h
    rw [optimizeWithin, hpass]
    dsimp only
    split
    · exact ⟨next, rfl⟩
    · have hchain := optimizePass_rewrites hpass []
      exact ih (rewrites_typed hchain htyped) hends

theorem Optimizes.blockWise {code ret : Code} (h : Optimizes code ret) (htyped : ∀ i ∈ code, Typed i) :
    BlockWise code ret := by
  induction h with
  | done hpass _ => exact optimizePass_blockWise htyped hpass
  | again hpass _ _ ih =>
    have hchain := optimizePass_rewrites hpass []
    exact (optimizePass_blockWise htyped hpass).trans (ih (rewrites_typed hchain htyped))

def Closes {β : Type} (m : Compile β) : Prop := ∀ s b s' c, m s = .ok (b, s', c) → EndsWithLabel c

def MayClose {β : Type} (m : Compile β) : Prop := ∀ s b s' c, m s = .ok (b, s', c) → c = [] ∨ EndsWithLabel c

theorem EndsWithLabel.append {code : Code} (before : Code) (h : EndsWithLabel code) : EndsWithLabel (before ++ code) := by
  induction before with
  | nil => exact h
  | cons i before ih => exact ih.cons i

theorem Closes.after {β γ : Type} {m : Compile β} {f : β → Compile γ} (hf : ∀ b, Closes (f b)) : Closes (m >>= f) := by
  intro s b s' c h
  obtain ⟨a, s₁, c₁, c₂, -, hrest, rfl⟩ := bind_ok.mp h
  exact (hf a _ _ _ _ hrest).append c₁

theorem Closes.ite {β : Type} {p : Prop} [Decidable p] {m m' : Compile β} (h : Closes m) (h' : Closes m') :
    Closes (if p then m else m') := by
  split
  · exact h
  · exact h'

theorem Closes.followed {β γ : Type} {m : Compile β} {f : β → Compile γ} (h : Closes m) (hf : ∀ b, MayClose (f b)) :
    Closes (m >>= f) := by
  intro s b s' c hrun
  obtain ⟨a, s₁, c₁, c₂, hm, hrest, rfl⟩ := bind_ok.mp hrun
  rcases hf a _ _ _ _ hrest with rfl | hends
  · rw [List.append_nil]
    exact h _ _ _ _ hm
  · exact hends.append c₁

theorem addLabel_closes (text : String) : Closes (Compiler.addLabel text) := by
  intro s b s' c h
  cases h
  rfl

theorem forEach_mayClose {γ : Type} {f : γ → Compile Unit} (hf : ∀ x, Closes (f x)) (xs : List γ) :
    MayClose (Compiler.forEach f xs) := by
  induction xs with
  | nil =>
    intro s b s' c h
    obtain ⟨-, -, rfl⟩ := pure_ok.mp h
    exact .inl rfl
  | cons x xs ih =>
    intro s b s' c h
    exact .inr ((hf x).followed (fun _ => ih) s b s' c h)

theorem remaining_mayClose {f : FunctionNode → Compile Unit} (hf : ∀ node, Closes (f node)) :
    MayClose (do
      let functions ← Compiler.remainingFunctions
      Compiler.forEach f functions) := by
  intro s b s' c h
  obtain ⟨functions, s₁, c₁, c₂, hfunctions, hrest, rfl⟩ := bind_ok.mp h
  cases hfunctions
  exact forEach_mayClose hf _ _ _ _ _ hrest

theorem framed_closes {identifier : String} {body : Compile Unit} (h : Closes body) :
    Closes (Compiler.framed identifier body) := by
  intro s b s' c hrun
  unfold Compiler.framed at hrun
  split at hrun
  · cases hrun
  · rename_i hbody
    cases hrun
    exact ((h _ _ _ _ hbody).cons _).cons _

theorem inFunction_closes {node : FunctionNode} {body : Compile Unit} (h : Closes body) :
    Closes (Compiler.inFunction node body) := by
  intro s b s' c hrun
  unfold Compiler.inFunction at hrun
  split at hrun
  · cases hrun
  · rename_i hbody
    cases hrun
    exact h _ _ _ _ hbody

theorem compileFunction_closes (importsMap : List (String × String)) (fuel : ℕ) (node : FunctionNode) :
    Closes (Compiler.compileFunction importsMap fuel node) := by
  induction fuel generalizing node with
  | zero =>
    intro s b s' c h
    cases h
  | succ fuel ih =>
    have hclosing := (Closes.after (m := Compiler.compileBody (Compiler.compileStmt fuel)
      (Compiler.functionContext node.path node.addressed) node.body) fun _ => Closes.after
        (m := Compiler.addInstruction .RETURN (.num 0) (.num 0) (.num 0)) fun _ =>
          (addLabel_closes ("end" ++ node.identifier)).followed fun _ => remaining_mayClose ih)
    unfold Compiler.compileFunction Compiler.compileFunctionBody
    refine inFunction_closes (framed_closes (.after fun reg => .after fun _ => ?_))
    exact .ite (.after fun _ => hclosing) (.ite (.after fun _ => hclosing) hclosing)

theorem compileClass_endsWithLabel {fuel : ℕ} {cls : ClassDeclaration} {code : Code}
    (h : compileClass fuel cls = .ok code) : EndsWithLabel code := by
  unfold compileClass at h
  split at h
  · cases h
  · rename_i hrun
    cases h
    have hbody : Closes (Compiler.compileClassBody fuel cls) :=
      .after fun _ => .after fun _ => .after fun _ => .after fun _ =>
        (addLabel_closes ("end" ++ cls.identifier)).followed fun _ =>
          remaining_mayClose (compileFunction_closes cls.importsMap fuel)
    exact framed_closes hbody _ _ _ _ hrun

/-- The optimizer comes to an end on every compiled class without looking past the end of a list. A further
run changes nothing, the labels stay in their order, and each block is rewritten by itself. -/
theorem optimize_ends {fuel : ℕ} {cls : ClassDeclaration} {code : Code} (h : compileClass fuel cls = .ok code) :
    ∃ ret, Optimizes code ret ∧ optimize code = some ret ∧ optimize ret = some ret ∧
      labels ret = labels code ∧ List.Forall₂ Rewrites (blocks code) (blocks ret) := by
  have htyped := compileClass_typed h
  obtain ⟨ret, hret⟩ : ∃ ret, optimizeWithin code.length code = some ret :=
    optimizeWithin_returns htyped (compileClass_endsWithLabel h)
  obtain ⟨hends, hfixed⟩ := optimizeWithin_optimizes le_rfl hret
  have hblocks := hends.blockWise htyped
  exact ⟨ret, hends, hret, optimize_fixed hfixed, hblocks.labels, hblocks.blocks⟩

/-- `class Main { while (1 < 2) { } }`: the compare and the jump become one instruction. -/
def sampleClass : ClassDeclaration :=
  ⟨"Main", [], [.loop none (some (.binary .less (.num "1") (.num "2"))) none []], []⟩

theorem sampleClass_optimized : ∃ code, compileClass 2 sampleClass = .ok code ∧
    ∃ ret, Optimizes code ret ∧ optimize code = some ret ∧ optimize ret = some ret ∧
      labels ret = labels code ∧ List.Forall₂ Rewrites (blocks code) (blocks ret) := by
  have hcompiles : (compileClass 2 sampleClass).toOption.isSome = true := by decide +kernel
  cases hcode : compileClass 2 sampleClass with
  | error e =>
    rw [hcode] at hcompiles
    cases hcompiles
  | ok code => exact ⟨code, rfl, optimize_ends hcode⟩

end Zeroscript.BasicBlocks
