import Zeroscript.CodeRun

/-! # Parts of a list of instructions

A part of a list runs in the list as it runs alone, as long as none of its labels is written again
after it. -/
namespace Zeroscript.Segments

open Relation (ReflTransGen)

/-- No label of the first list stands in the second one. -/
def Unshadowed (part after : Code) : Prop :=
  ∀ text index, labelIndex part text = some index → labelIndex after text = none

def Unlabelled (code : Code) : Prop := ∀ text, labelIndex code text = none

theorem Unlabelled.unshadowed {part : Code} (h : Unlabelled part) (after : Code) : Unshadowed part after := by
  intro text index hindex
  rw [h text] at hindex
  cases hindex

theorem unlabelled_of_opcodes {code : Code} (h : ∀ i ∈ code, i.opcode ≠ .LABEL) : Unlabelled code := by
  intro text
  induction code with
  | nil => rfl
  | cons i code ih =>
    rw [labelIndex_cons_other (h i List.mem_cons_self), ih fun j hj => h j (List.mem_cons_of_mem i hj)]
    rfl

abbrev labelled (name : String) : Instruction := ⟨.LABEL, .str name, .num 0, .num 0⟩

abbrev jump (name : String) : Instruction := ⟨.JMP, .str name, .num 0, .num 0⟩

theorem labelIndex_cons_ne {name text : String} (h : name ≠ text) (code : Code) :
    labelIndex (labelled name :: code) text = (labelIndex code text).map (· + 1) := by
  rw [labelIndex]
  cases labelIndex code text <;> simp [h]

theorem labelIndex_last {after : Code} {name : String} (before : Code) (h : labelIndex after name = none) :
    labelIndex (before ++ labelled name :: after) name = some before.length := by
  have hhead : labelIndex (labelled name :: after) name = some 0 := by
    rw [labelIndex, h]
    simp
  rw [labelIndex_append, hhead]
  rfl

section

variable {α ω : Type} [NumOps α] {env : Environment α ω} {n : ℕ}

abbrev Run (env : Environment α ω) (n : ℕ) (code : Code) : Point α ω → Point α ω → Prop :=
  ReflTransGen fun s s' => stepAt env n code s = some s'

theorem getElem?_part {before part after : Code} {k : ℕ} {i : Instruction} (h : part[k]? = some i) :
    (before ++ (part ++ after))[before.length + k]? = some i := by
  have hlt := (List.getElem?_eq_some_iff.mp h).1
  rw [List.getElem?_append_right (Nat.le_add_right _ _), Nat.add_sub_cancel_left, List.getElem?_append_left hlt]
  exact h

theorem stepAt_part (before : Code) {part after : Code} (h : Unshadowed part after) {k k' : ℕ} {f f' : Frame α ω}
    (hstep : stepAt env n part ⟨k, f⟩ = some ⟨k', f'⟩) :
    stepAt env n (before ++ (part ++ after)) ⟨before.length + k, f⟩ = some ⟨before.length + k', f'⟩ := by
  obtain ⟨i, control, hi, hexec, htarget⟩ := stepAt_some.mp hstep
  refine stepAt_some.mpr ⟨i, control, getElem?_part hi, hexec, ?_⟩
  cases control with
  | next =>
    cases htarget
    rfl
  | jump text =>
    have hindex : labelIndex part text = some k' := htarget
    change labelIndex (before ++ (part ++ after)) text = some (before.length + k')
    rw [labelIndex_append, labelIndex_append, h text k' hindex, hindex]
  | leave => cases htarget

theorem stepAt_next {code : Code} {pc : ℕ} {i : Instruction} {f f' : Frame α ω} (hi : code[pc]? = some i)
    (hexec : exec env n i f = some (f', .next)) : stepAt env n code ⟨pc, f⟩ = some ⟨pc + 1, f'⟩ :=
  stepAt_some.mpr ⟨i, .next, hi, hexec, rfl⟩

theorem stepAt_jump {code : Code} {pc index : ℕ} {i : Instruction} {text : String} {f f' : Frame α ω}
    (hi : code[pc]? = some i) (hexec : exec env n i f = some (f', .jump text))
    (hindex : labelIndex code text = some index) : stepAt env n code ⟨pc, f⟩ = some ⟨index, f'⟩ :=
  stepAt_some.mpr ⟨i, .jump text, hi, hexec, hindex⟩

theorem exec_labelled (name : String) (f : Frame α ω) : exec env n (labelled name) f = some (f, .next) := rfl

theorem exec_jump (name : String) (f : Frame α ω) : exec env n (jump name) f = some (f, .jump name) := rfl

theorem exec_jumpTrue (reg : ℕ) (name : String) (f : Frame α ω) :
    exec env n ⟨.JMP_TRUE, .num reg, .str name, .num 0⟩ f =
      some (f, if (f.regs reg).val.truthy then .jump name else .next) := rfl

theorem run_part (before : Code) {part after : Code} (h : Unshadowed part after) {s s' : Point α ω}
    (hrun : Run env n part s s') :
    Run env n (before ++ (part ++ after)) ⟨before.length + s.pc, s.frame⟩ ⟨before.length + s'.pc, s'.frame⟩ := by
  induction hrun with
  | refl => exact .refl
  | tail _ hstep ih => exact ih.tail (stepAt_part before h hstep)

/-- The code runs from its first instruction to its end. -/
def Finishes (env : Environment α ω) (n : ℕ) (code : Code) (f g : Frame α ω) : Prop :=
  Run env n code ⟨0, f⟩ ⟨code.length, g⟩

theorem stepAt_end (code : Code) (f : Frame α ω) : stepAt env n code ⟨code.length, f⟩ = none := by
  unfold stepAt
  rw [List.getElem?_eq_none (Nat.le_refl _)]
  rfl

theorem Finishes.nil (f : Frame α ω) : Finishes env n [] f f := .refl

theorem Finishes.unique {code : Code} {f g g' : Frame α ω} (h : Finishes env n code f g)
    (h' : Finishes env n code f g') : g = g' := by
  have hends : ∀ {s s₁ s₂ : Point α ω}, Run env n code s s₁ → Run env n code s s₂ →
      stepAt env n code s₁ = none → stepAt env n code s₂ = none → s₁ = s₂ := by
    intro s s₁ s₂ h₁ h₂ hend₁ hend₂
    induction h₁ using ReflTransGen.head_induction_on with
    | refl =>
      rcases h₂.cases_head with rfl | ⟨s₃, hstep, -⟩
      · rfl
      · rw [hend₁] at hstep
        cases hstep
    | head hstep _ ih =>
      rcases h₂.cases_head with rfl | ⟨s₃, hstep', hrest⟩
      · rw [hend₂] at hstep
        cases hstep
      · have hsame := hstep.symm.trans hstep'
        cases hsame
        exact ih hrest
  have hsame := hends h h' (stepAt_end code g) (stepAt_end code g')
  injection hsame

theorem Finishes.append {part after : Code} {f g g' : Frame α ω} (h : Finishes env n part f g)
    (h' : Finishes env n after g g') (hlabels : Unshadowed part after) :
    Finishes env n (part ++ after) f g' := by
  have hfirst := run_part [] hlabels h
  have hsecond := run_part part (show Unshadowed after [] from fun _ _ _ => rfl) h'
  rw [List.append_nil] at hsecond
  rw [List.nil_append] at hfirst
  simp only [List.length_nil, Nat.zero_add] at hfirst
  rw [Nat.add_zero] at hsecond
  unfold Finishes
  rw [List.length_append]
  exact hfirst.trans hsecond

theorem Finishes.cons {i : Instruction} {code : Code} {f g g' : Frame α ω} (hi : i.opcode ≠ .LABEL)
    (hexec : exec env n i f = some (g, .next)) (h : Finishes env n code g g') :
    Finishes env n (i :: code) f g' := by
  have hone : Finishes env n [i] f g := ReflTransGen.single (stepAt_next rfl hexec)
  have hunlabelled : Unlabelled [i] := by
    apply unlabelled_of_opcodes
    intro j hj
    rw [List.mem_singleton.mp hj]
    exact hi
  exact hone.append h (hunlabelled.unshadowed code)

end

end Zeroscript.Segments
