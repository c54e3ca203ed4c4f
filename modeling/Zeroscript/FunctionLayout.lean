import Zeroscript.FrameBounds
import Zeroscript.LabelNumbers
import Zeroscript.ParameterRegisters

/-! # The functions of an image

An image is one function after the other: a label, `FFRAME`, the body, and the label of the end. A body
ends with `RETURN`, jumps to labels of its own only, and names registers of its frame. -/
namespace Zeroscript.FunctionLayout

open Emission Outline LabelNames InstructionShapes Resolution LabelNumbers FrameBounds
open Relation (ReflTransGen)
open StraightCode (label truncate_label)

/-- What stands between bodies. The labels in a body begin with a dot. -/
def border (i : Instruction) : Bool :=
  i.opcode == .FFRAME || (i.opcode == .LABEL && i.r0.text.toList.head? != some '.')

/-- A function whose labels have the numbers after `lo`, up to `hi`. -/
structure FunctionCode (lo hi : ℕ) (start frame : Instruction) (body : Code) (stop : Instruction) : Prop where
  start : start.opcode = .LABEL ∧ border start = true
  fits : ∀ i ∈ body, Fits frame.r0.reg i
  frame : frame.opcode = .FFRAME
  stop : stop.opcode = .LABEL ∧ border stop = true
  numbers : lo ≤ hi
  frames : ∀ i ∈ body, i.opcode ≠ .FFRAME
  labels : ∀ text, .label text ∈ links body → NumberedLabel lo hi text
  jumps : ∀ text, .jump text ∈ links body → .label text ∈ links body
  ends : ∃ i, body.getLast? = some i ∧ i.opcode = .RETURN

inductive Laid : ℕ → Code → ℕ → Prop where
  | nil {lo hi : ℕ} (h : lo ≤ hi) : Laid lo [] hi
  | function {lo mid hi : ℕ} {start frame stop : Instruction} {body rest : Code}
      (hfunction : FunctionCode lo mid start frame body stop) (hrest : Laid mid rest hi) :
      Laid lo (start :: frame :: (body ++ stop :: rest)) hi

theorem Laid.le {lo hi : ℕ} {code : Code} (h : Laid lo code hi) : lo ≤ hi := by
  induction h with
  | nil h => exact h
  | function hfunction _ ih => exact Nat.le_trans hfunction.numbers ih

theorem Laid.append {lo mid hi : ℕ} {code code' : Code} (h : Laid lo code mid) (h' : Laid mid code' hi) :
    Laid lo (code ++ code') hi := by
  induction h with
  | nil hle =>
    cases h' with
    | nil hle' => exact .nil (Nat.le_trans hle hle')
    | function hfunction hrest =>
      refine .function ⟨hfunction.start, hfunction.fits, hfunction.frame, hfunction.stop,
        Nat.le_trans hle hfunction.numbers, hfunction.frames, fun text htext => ?_, hfunction.jumps,
        hfunction.ends⟩ hrest
      obtain ⟨stem, k, hstem, hlo, hhi, heq⟩ := hfunction.labels text htext
      exact ⟨stem, k, hstem, Nat.lt_of_le_of_lt hle hlo, hhi, heq⟩
  | function hfunction _ ih =>
    rw [List.cons_append, List.cons_append, List.append_assoc, List.cons_append]
    exact .function hfunction (ih h')

theorem border_label {text : String} (h : IsIdentifier text) (n : ℕ) :
    border ⟨.LABEL, .str (Compiler.truncate n text), .num 0, .num 0⟩ = true := by
  have hhead : (Compiler.truncate n text).toList.head? ≠ some '.' := by
    intro hdot
    unfold Compiler.truncate at hdot
    rw [String.toList_ofList] at hdot
    have hmem : '.' ∈ text.toList := List.mem_of_mem_take (List.mem_of_mem_head? hdot)
    have hdot := h '.' hmem
    revert hdot
    decide
  unfold border
  simp [hhead]

def leads : Opcode → Bool
  | .CREATE_THIS | .POP | .MOV_FNC | .IMPORT_CLS | .GET_FIELD_IMMEDIATE | .MOV_STR | .SET_FIELD => true
  | _ => false

theorem leads_link {i : Instruction} (h : leads i.opcode = true) :
    i.opcode ≠ .FFRAME ∧ ∀ text, link i ≠ some (.label text) ∧ link i ≠ some (.jump text) := by
  obtain ⟨opcode, r0, r1, r2⟩ := i
  cases opcode <;> cases h <;> simp [link, Outline.target, Opcode.isCompareJump, Opcode.isImmediateJump]

theorem leads_links {c : Code} (h : ∀ i ∈ c, leads i.opcode = true) (text : String) :
    .label text ∉ links c ∧ .jump text ∉ links c := by
  constructor
  · intro hmem
    obtain ⟨i, hi, hlink⟩ := List.mem_filterMap.mp hmem
    exact ((leads_link (h i hi)).2 text).1 hlink
  · intro hmem
    obtain ⟨i, hi, hlink⟩ := List.mem_filterMap.mp hmem
    exact ((leads_link (h i hi)).2 text).2 hlink

abbrev Leads (n : ℕ) (functions : List FunctionNode) {β : Type} (m : Compile β) : Prop :=
  Emits (fun s => s.labelCount = n ∧ s.functionsToCompile = functions) (fun i => leads i.opcode = true) m
    fun _ => True

section

variable {n : ℕ} {functions : List FunctionNode}

theorem onFunction_leads {β : Type} {m : Emit β} (h : ∀ fk b fk' c, m fk = .ok (b, fk', c) → c = []) :
    Leads n functions (Compiler.onFunction m) := by
  intro s b s' c hs hrun
  unfold Compiler.onFunction at hrun
  split at hrun
  · cases hrun
  · rename_i hm
    cases hrun
    obtain rfl := h _ _ _ _ hm
    exact ⟨hs, by simp, trivial⟩

theorem getRegister_leads (ident : String) : Leads n functions (Compiler.getRegister ident) := by
  apply onFunction_leads
  intro fk b fk' c hrun
  cases hrun
  rfl

theorem getTemporary_leads : Leads n functions Compiler.getTemporary := by
  apply onFunction_leads
  intro fk b fk' c hrun
  unfold Zeroscript.getTemporary at hrun
  split at hrun
  · cases hrun
    rfl
  · cases hrun

theorem emit_leads {opcode : Opcode} {r0 r1 r2 : Operand} (h : leads opcode = true) :
    Leads n functions (Compiler.addInstruction opcode r0 r1 r2) := by
  intro s b s' c hs hrun
  cases hrun
  refine ⟨hs, fun i hi => ?_, trivial⟩
  rw [List.mem_singleton.mp hi]
  exact h

theorem forEach_leads {γ : Type} {f : γ → Compile Unit} (hf : ∀ x, Leads n functions (f x)) (xs : List γ) :
    Leads n functions (Compiler.forEach f xs) := by
  induction xs with
  | nil => exact Emits.pure trivial
  | cons x xs ih => exact (hf x).bind fun _ _ => ih

theorem staticFunctions_leads : Leads n functions Compiler.staticFunctions := by
  intro s b s' c hs hrun
  cases hrun
  exact ⟨hs, by simp, trivial⟩

theorem registerStatic_leads (identifier : String) : Leads n functions (Compiler.registerStatic identifier) := by
  intro s b s' c hs hrun
  cases hrun
  exact ⟨hs, by simp, trivial⟩

theorem compileStaticPrologue_leads (importsMap : List (String × String)) :
    Leads n functions (Compiler.compileStaticPrologue importsMap) := by
  refine (forEach_leads (fun elem => emit_leads rfl) importsMap).bind fun _ _ => ?_
  refine getTemporary_leads.bind fun statics _ => (emit_leads rfl).bind fun _ _ => ?_
  refine getTemporary_leads.bind fun name _ => getTemporary_leads.bind fun ref _ => ?_
  refine staticFunctions_leads.bind fun names _ => forEach_leads (fun fncName => ?_) names
  exact (emit_leads rfl).bind fun _ _ => (emit_leads rfl).bind fun _ _ => emit_leads rfl

end

section

variable {syms : List (String × ℕ)} {n : ℕ}

theorem compileStaticPrologue_keeps (importsMap : List (String × String)) :
    KeepsUnit syms n (Compiler.compileStaticPrologue importsMap) := by
  refine (forEach_keeps importsMap fun elem _ n => emit_keeps (fits_of_none rfl)).then fun k _ => ?_
  refine getTemporary_keeps.bind fun statics k₁ _ hstatics => ?_
  refine (emit_keeps ?_).then fun k₂ hk₂ => ?_
  · intro r hr
    -- `this` is below the temporary
    rcases List.mem_pair.mp hr with rfl | rfl
    · change 1 ≤ k₁
      omega
    · exact hstatics.1
  refine getTemporary_keeps.bind fun name k₃ hk₃ hname => ?_
  refine getTemporary_keeps.bind fun ref k₄ hk₄ href => ?_
  refine Keeps.bind (S := fun _ _ => True) (silent_keeps fun s b s' c hrun => ?_) fun names k₅ hk₅ _ => ?_
  · cases hrun
    exact ⟨rfl, rfl, rfl⟩
  refine forEach_keeps names fun fncName k₆ hk₆ => ?_
  refine (emit_keeps (fits_of_single (r := ref) rfl (by omega))).then fun k₇ hk₇ => ?_
  refine (emit_keeps (fits_of_single (r := name) rfl (by omega))).then fun k₈ hk₈ => ?_
  refine emit_keeps (fits_of_form (.setField ?_ ?_ ?_))
  · exact not_above (by omega)
  · exact not_above (by omega)
  · exact not_above (by omega)

end

/-- What has been emitted before a body. -/
structure Led (syms : List (String × ℕ)) (s s' : CompilerState) (c : Code) : Prop where
  room : Room syms s'
  slots : slots s.function ≤ slots s'.function
  fits : ∀ i ∈ c, Fits (FrameBounds.slots s'.function) i
  leads : ∀ i ∈ c, leads i.opcode = true
  labelCount : s'.labelCount = s.labelCount
  functionsToCompile : s'.functionsToCompile = s.functionsToCompile

theorem led_of {syms : List (String × ℕ)} {β : Type} {m : Compile β} {s s' : CompilerState} {b : β} {c : Code}
    (hkeeps : KeepsUnit syms (FrameBounds.slots s.function) m)
    (hleads : Leads s.labelCount s.functionsToCompile m) (hs : Room syms s) (hrun : m s = .ok (b, s', c)) :
    Led syms s s' c := by
  obtain ⟨hroom, hslots, hfits, -⟩ := hkeeps s b s' c hs (Nat.le_refl _) hrun
  obtain ⟨⟨hcount, hfunctions⟩, hopcodes, -⟩ := hleads s b s' c ⟨rfl, rfl⟩ hrun
  exact ⟨hroom, hslots, hfits, hopcodes, hcount, hfunctions⟩

theorem Led.append {syms : List (String × ℕ)} {s s₁ s₂ : CompilerState} {c₁ c₂ : Code} (h : Led syms s s₁ c₁)
    (h' : Led syms s₁ s₂ c₂) : Led syms s s₂ (c₁ ++ c₂) := by
  refine ⟨h'.room, Nat.le_trans h.slots h'.slots, fun i hi => ?_, fun i hi => ?_,
    h'.labelCount.trans h.labelCount, h'.functionsToCompile.trans h.functionsToCompile⟩
  · rcases List.mem_append.mp hi with hi | hi
    · exact (h.fits i hi).mono h'.slots
    · exact h'.fits i hi
  · rcases List.mem_append.mp hi with hi | hi
    · exact h.leads i hi
    · exact h'.leads i hi

theorem compileBody_counts {fuel : ℕ} {context : Context} {body : Body} {s s' : CompilerState} {c : Code}
    (hs : Tidy s) (hrun : Compiler.compileBody (Compiler.compileStmt fuel) context body s = .ok ((), s', c)) :
    s.labelCount ≤ s'.labelCount := by
  obtain ⟨t, ht⟩ := exists_agree hs
  have hfollow := compileBody_follows (compileStmt_follows fuel) (outlineOf context) body
  rw [contextOf_outlineOf] at hfollow
  obtain ⟨b, t', marks, hrun', ht', -, -⟩ := hfollow s t () s' c ht hrun
  have hcovered := outlineBody_covers (outlineStmt_covers fuel) (outlineStmt_later fuel) 0 (outlineOf context) body
    t b t' marks (Nat.zero_le _) hrun'
  rw [ht.labelCount, ht'.labelCount]
  exact hcovered.counts

/-- The labels of the body of a function are numbered, its jumps have theirs, and what waits then was
declared in it. -/
structure Enclosed (F : List FunctionId) (lo hi : ℕ) (c : Code) (waiting : List FunctionNode) : Prop where
  labels : hi < 2 ^ 31 → ∀ text, .label text ∈ links c → NumberedLabel lo hi text
  jumps : hi < 2 ^ 31 → ∀ text, .jump text ∈ links c → .label text ∈ links c
  waiting : ∀ node ∈ waiting, ∀ f ∈ nodeFunctions node, f ∈ F

theorem compileBody_enclosed {F : List FunctionId} {fuel : ℕ} {path : List ℕ} {addressed : Bool} {body : Body}
    {s s' : CompilerState} {c : Code} (hs : Tidy s) (hnone : s.functionsToCompile = [])
    (hF : ∀ f ∈ declaredIn path 0 body, f ∈ F)
    (hrun : Compiler.compileBody (Compiler.compileStmt fuel) (Compiler.functionContext path addressed) body s =
      .ok ((), s', c)) : Enclosed F s.labelCount s'.labelCount c s'.functionsToCompile := by
  -- static functions are at some position that is not that of the class
  have ht : Outline.Agree s ⟨[], s.labelCount, s.compiledStaticFunctions.map fun name => ([0], name)⟩ := by
    refine ⟨hs, hnone, rfl, ?_⟩
    rw [List.map_map]
    exact (List.map_id _).symm
  generalize htable : OutlineState.mk [] s.labelCount
    (s.compiledStaticFunctions.map fun name => ([0], name)) = t at ht
  have hknown : Known F t := by
    rw [← htable]
    refine ⟨fun node h => absurd h List.not_mem_nil, fun f hf => ?_⟩
    obtain ⟨name, -, rfl⟩ := List.mem_map.mp hf
    exact List.cons_ne_nil _ _
  obtain ⟨b, t', marks, hrun', ht', hlinks, -⟩ :=
    compileBody_follows (compileStmt_follows fuel) ⟨path, addressed, [], []⟩ body s t () s' c ht hrun
  have hcovered := outlineBody_covers (outlineStmt_covers fuel) (outlineStmt_later fuel) t.labelCount
    ⟨path, addressed, [], []⟩ body t b t' marks (Nat.le_refl _) hrun'
  obtain ⟨-, habove, -⟩ := outlineBody_raises (n := t.labelCount) (outlineStmt_raises fuel)
    ⟨path, addressed, [], []⟩ body t b t' marks (Nat.le_refl _) hrun'
  have hinside : Inside F ⟨path, addressed, [], []⟩ :=
    ⟨fun _ h => absurd h List.not_mem_nil, fun _ h => absurd h List.not_mem_nil⟩
  obtain ⟨hknown', hnamed, -⟩ := outlineBody_names (fun _ _ => outlineStmt_names fuel) hinside hF
    t b t' marks hknown hrun'
  have hshort : s'.labelCount < 2 ^ 31 → ∀ stem k, IsStem stem → .label (.generated stem k) ∈ marks →
      Compiler.truncate 98 (label stem k) = label stem k := by
    intro hn stem k hstem hmark
    have hle := hcovered.numbers stem k hmark
    rw [← ht'.labelCount] at hle
    exact truncate_label hstem.1 (Nat.lt_of_le_of_lt hle hn)
  refine ⟨fun hn text htext => ?_, fun hn text htext => ?_, ?_⟩
  · rw [hlinks] at htext
    obtain ⟨mark, hmark, heq⟩ := List.mem_map.mp htext
    cases mark with
    | label token =>
      obtain ⟨stem, k, rfl, hstem, hk⟩ := habove _ hmark token rfl
      have hle := hcovered.numbers stem k hmark
      rw [← ht'.labelCount] at hle
      rw [← ht.labelCount] at hk
      refine ⟨stem, k, hstem, hk, hle, ?_⟩
      rw [← hshort hn stem k hstem hmark]
      cases heq
      rfl
    | jump | refer | frame => cases heq
  · rw [hlinks] at htext ⊢
    obtain ⟨mark, hmark, heq⟩ := List.mem_map.mp htext
    cases mark with
    | jump token =>
      obtain ⟨stem, k, rfl⟩ : ∃ stem k, token = .generated stem k := by
        cases hnamed _ hmark
        exact ⟨_, _, rfl⟩
      have hlabel : .label (.generated stem k) ∈ marks := by
        rcases hcovered.operands _ hmark with hend | hlabel | ⟨node, -, hstart⟩ | ⟨f, -, hstart⟩
        · cases hend
        · exact hlabel
        · cases hstart
        · cases hstart
      have hstem : IsStem stem := by
        cases hnamed _ hlabel
        assumption
      refine List.mem_map.mpr ⟨_, hlabel, ?_⟩
      cases heq
      exact congrArg Outline.Link.label (hshort hn stem k hstem hlabel)
    | label | refer | frame => cases heq
  · rw [ht'.pending]
    exact fun node hnode => (hknown'.pending node hnode).2

def LaysOut (m : Compile Unit) : Prop :=
  ∀ s s' c, Tidy s → m s = .ok ((), s', c) → s.labelCount ≤ s'.labelCount ∧ Tidy s' ∧
    s'.function = s.function ∧ (s'.labelCount < 2 ^ 31 → Laid s.labelCount c s'.labelCount)

theorem forEach_laysOut {γ : Type} {f : γ → Compile Unit} (xs : List γ) (hf : ∀ x ∈ xs, LaysOut (f x)) :
    LaysOut (Compiler.forEach f xs) := by
  induction xs with
  | nil =>
    intro s s' c hs hrun
    obtain ⟨-, rfl, rfl⟩ := pure_ok.mp hrun
    exact ⟨Nat.le_refl _, hs, rfl, fun _ => .nil (Nat.le_refl _)⟩
  | cons x xs ih =>
    intro s s' c hs hrun
    obtain ⟨⟨⟩, s₁, c₁, c₂, h₁, h₂, rfl⟩ := bind_ok.mp hrun
    obtain ⟨hle₁, hs₁, hfunction₁, hlaid₁⟩ := hf x List.mem_cons_self s s₁ c₁ hs h₁
    obtain ⟨hle₂, hs₂, hfunction₂, hlaid₂⟩ := ih (fun y hy => hf y (List.mem_cons_of_mem x hy)) s₁ s' c₂ hs₁ h₂
    refine ⟨Nat.le_trans hle₁ hle₂, hs₂, hfunction₂.trans hfunction₁, fun hn => ?_⟩
    exact (hlaid₁ (Nat.lt_of_le_of_lt hle₂ hn)).append (hlaid₂ hn)

def compileRest (fuel : ℕ) (compileFunction : FunctionNode → Compile Unit) (f : FunctionId) (addressed : Bool)
    (body : Body) : Compile Unit := do
  Compiler.compileBody (Compiler.compileStmt fuel) (Compiler.functionContext f.1 addressed) body
  Compiler.addInstruction .RETURN (.num 0) (.num 0) (.num 0)
  Compiler.addLabel ("end" ++ f.2)
  let functions ← Compiler.remainingFunctions
  Compiler.forEach compileFunction functions

section

variable {syms : List (String × ℕ)} {fuel : ℕ} {compileFunction : FunctionNode → Compile Unit} {f : FunctionId}
  {addressed : Bool} {body : Body} {s s₁ s' : CompilerState} {c₁ c : Code}

theorem compileRest_laid (hsyms : Bounded syms)
    (hfunction : ∀ node, (∀ g ∈ nodeFunctions node, IsIdentifier g.2) → LaysOut (compileFunction node))
    (hidents : ∀ g ∈ f :: declaredIn f.1 0 body, IsIdentifier g.2) (hnone : s.functionsToCompile = [])
    (hled : Led syms s s₁ c₁) (hrun : compileRest fuel compileFunction f addressed body s₁ = .ok ((), s', c)) :
    s.labelCount ≤ s'.labelCount ∧ (s'.labelCount < 2 ^ 31 →
      Laid s.labelCount (⟨.LABEL, .str (Compiler.truncate 98 f.2), .num 0, .num 0⟩ ::
        ⟨.FFRAME, .num (slots s'.function), .symbols s'.function.symbolInfo,
          .str (Compiler.truncate 99 ("end" ++ f.2))⟩ :: (c₁ ++ c)) s'.labelCount) := by
  obtain ⟨⟨⟩, s₂, c₂, d₂, hbody, hrun₂, rfl⟩ := bind_ok.mp hrun
  obtain ⟨⟨⟩, s₃, c₃, d₃, hret, hrun₃, rfl⟩ := bind_ok.mp hrun₂
  obtain ⟨⟨⟩, s₄, c₄, d₄, hend, hrun₄, rfl⟩ := bind_ok.mp hrun₃
  obtain ⟨functions, s₅, c₅, d₅, hremaining, hrest, rfl⟩ := bind_ok.mp hrun₄
  cases hret
  cases hend
  cases hremaining
  have hs₁ := hled.room
  have hbefore : s₁.functionsToCompile = [] := hled.functionsToCompile.trans hnone
  obtain ⟨hroom, hslots, hfits, -⟩ := compileBody_keeps hsyms (fun n => compileStmt_keeps hsyms fuel n) _ body
    s₁ () s₂ c₂ hs₁ (Nat.le_refl _) hbody
  have hforms : ∀ i ∈ c₂, StatementForm i := (compileBody_forms (fun _ h => h)
    (compileStmt_forms tidy_stable (fun _ h => h) fuel) _ body s₁ () s₂ c₂ hs₁.tidy hbody).2.1
  have henclosed := compileBody_enclosed (F := f :: declaredIn f.1 0 body) hs₁.tidy hbefore
    (fun g hg => List.mem_cons_of_mem _ hg) hbody
  have hcounts := compileBody_counts hs₁.tidy hbody
  rw [hled.labelCount] at henclosed hcounts
  obtain ⟨hle, -, hsame, hlaid⟩ := forEach_laysOut _ (fun node hnode => hfunction node
    fun g hg => hidents g (henclosed.waiting node hnode g hg)) s₂ s' d₅ hroom.tidy hrest
  refine ⟨Nat.le_trans hcounts hle, fun hn => ?_⟩
  have hn₂ : s₂.labelCount < 2 ^ 31 := Nat.lt_of_le_of_lt hle hn
  have hident : IsIdentifier f.2 := hidents f List.mem_cons_self
  have hlinks : links (c₁ ++ c₂ ++ [⟨.RETURN, .num 0, .num 0, .num 0⟩]) = links c₁ ++ links c₂ := by
    rw [links_append, links_append]
    exact List.append_nil _
  -- what was emitted before the body has no label, and names none
  have hinner : ∀ l, l ∈ links (c₁ ++ c₂ ++ [⟨.RETURN, .num 0, .num 0, .num 0⟩]) → l ∉ links c₁ → l ∈ links c₂ := by
    intro l hl hnot
    rw [hlinks] at hl
    exact (List.mem_append.mp hl).resolve_left hnot
  have hcode : FunctionCode s.labelCount s₂.labelCount
      ⟨.LABEL, .str (Compiler.truncate 98 f.2), .num 0, .num 0⟩
      ⟨.FFRAME, .num (slots s'.function), .symbols s'.function.symbolInfo,
        .str (Compiler.truncate 99 ("end" ++ f.2))⟩
      (c₁ ++ c₂ ++ [⟨.RETURN, .num 0, .num 0, .num 0⟩])
      ⟨.LABEL, .str (Compiler.truncate 98 ("end" ++ f.2)), .num 0, .num 0⟩ := by
    refine ⟨⟨rfl, border_label hident 98⟩, fun i hi => ?_, rfl, ⟨rfl, border_label (isIdentifier_end hident) 98⟩,
      hcounts, fun i hi => ?_, fun text htext => ?_, fun text htext => ?_, ?_⟩
    · change Fits (slots s'.function) i
      rw [hsame]
      rcases List.mem_append.mp hi with hi | hi
      · rcases List.mem_append.mp hi with hi | hi
        · exact (hled.fits i hi).mono hslots
        · exact hfits i hi
      · rw [List.mem_singleton.mp hi]
        exact fits_of_single rfl (Nat.zero_le _)
    · rcases List.mem_append.mp hi with hi | hi
      · rcases List.mem_append.mp hi with hi | hi
        · exact (leads_link (hled.leads i hi)).1
        · intro hframe
          have hin := statementForm_opcode (hforms i hi)
          rw [hframe] at hin
          cases hin
      · rw [List.mem_singleton.mp hi]
        exact Opcode.noConfusion
    · exact henclosed.labels hn₂ text (hinner _ htext (leads_links hled.leads text).1)
    · rw [hlinks]
      have hjump := hinner _ htext (leads_links hled.leads text).2
      exact List.mem_append_right _ (henclosed.jumps hn₂ text hjump)
    · exact ⟨_, List.getLast?_concat, rfl⟩
  have hall := Laid.function hcode (hlaid hn)
  simpa only [List.append_assoc, List.cons_append, List.nil_append] using hall

end

theorem bounded_of_numbered {fk : FunctionKind} (h : Numbered fk) : Bounded fk.symbolTable := by
  intro x r hlookup
  have hmem : r ∈ fk.symbolTable.map Prod.snd :=
    List.mem_map_of_mem (f := Prod.snd) (ParameterRegisters.mem_of_lookup hlookup)
  rw [h.1, List.mem_range'_1] at hmem
  omega

theorem bounded_kind (node : FunctionNode) (s : CompilerState) :
    Bounded (Compiler.FunctionNode.kind node s).symbolTable := by
  rw [ParameterRegisters.kind_symbolTable]
  cases node.addressed with
  | true => exact bounded_of_numbered (calculateFunction_numbered _ _ _)
  | false => exact bounded_of_numbered numbered_empty

theorem named_led {syms : List (String × ℕ)} {s s' : CompilerState} {c : Code} {ident : String} {r2 : Operand}
    (hsyms : Bounded syms) (hs : Room syms s)
    (hrun : (Compiler.getRegister ident >>= fun reg =>
      Compiler.addInstruction .MOV_FNC (.num reg) (.str ident) r2) s = .ok ((), s', c)) : Led syms s s' c := by
  refine led_of ?_ ?_ hs hrun
  · exact (symbol_keeps hsyms ident).bind fun reg k _ hreg => emit_keeps (fits_of_single (r := reg) rfl hreg)
  · exact (getRegister_leads ident).bind fun reg _ => emit_leads rfl

theorem compileFunctionBody_led {importsMap : List (String × String)} {syms : List (String × ℕ)} {fuel : ℕ}
    {compileFunction : FunctionNode → Compile Unit} {node : FunctionNode} {s s' : CompilerState} {c : Code}
    (hsyms : Bounded syms) (hs : Room syms s)
    (hrun : Compiler.compileFunctionBody importsMap fuel compileFunction node s = .ok ((), s', c)) :
    ∃ s₁ c₁ c₂, Led syms s s₁ c₁ ∧
      compileRest fuel compileFunction (FunctionNode.id node) node.addressed node.body s₁ = .ok ((), s', c₂) ∧
      c = c₁ ++ c₂ := by
  obtain ⟨reg, s₁, c₁, d₁, hreg, hrun₁, rfl⟩ := bind_ok.mp hrun
  obtain ⟨⟨⟩, s₂, c₂, d₂, hmove, hrun₂, rfl⟩ := bind_ok.mp hrun₁
  have hnamed : Led syms s s₂ (c₁ ++ c₂) :=
    named_led hsyms hs (bind_ok.mpr ⟨reg, s₁, c₁, c₂, hreg, hmove, rfl⟩)
  split at hrun₂
  · obtain ⟨⟨⟩, s₃, c₃, d₃, hprologue, hrest, rfl⟩ := bind_ok.mp hrun₂
    have hstatic : Led syms s₂ s₃ c₃ := led_of (compileStaticPrologue_keeps importsMap)
      (compileStaticPrologue_leads importsMap) hnamed.room hprologue
    exact ⟨s₃, _, d₃, hnamed.append hstatic, hrest, by simp⟩
  · split at hrun₂
    · obtain ⟨⟨⟩, s₃, c₃, d₃, hregister, hrest, rfl⟩ := bind_ok.mp hrun₂
      have hkeeps : KeepsUnit syms (slots s₂.function) (Compiler.registerStatic node.identifier) := by
        apply silent_keeps
        intro s b s' c hrun
        cases hrun
        exact ⟨rfl, rfl, rfl⟩
      have hstatic : Led syms s₂ s₃ c₃ := led_of hkeeps (registerStatic_leads _) hnamed.room hregister
      exact ⟨s₃, _, d₃, hnamed.append hstatic, hrest, by simp⟩
    · exact ⟨s₂, _, d₂, hnamed, hrun₂, by simp⟩

theorem compileFunction_laysOut {importsMap : List (String × String)} {fuel : ℕ} {node : FunctionNode}
    (hidents : ∀ g ∈ nodeFunctions node, IsIdentifier g.2) :
    LaysOut (Compiler.compileFunction importsMap fuel node) := by
  induction fuel generalizing node with
  | zero =>
    intro s s' c hs hrun
    cases hrun
  | succ fuel ih =>
    intro s s' c hs hrun
    have htidy : Tidy s' := (compileFunction_forms (Q := fun _ => True) (fun _ _ _ => trivial) (fuel + 1) node
      s () s' c hs hrun).1
    unfold Compiler.compileFunction Compiler.inFunction at hrun
    split at hrun
    · cases hrun
    · rename_i s₁ code hframed
      cases hrun
      unfold Compiler.framed at hframed
      split at hframed
      · cases hframed
      · rename_i s₂ inner hbody
        cases hframed
        have hroom : Room (Compiler.FunctionNode.kind node s).symbolTable { s with
            function := Compiler.FunctionNode.kind node s
            functionsToCompile := [] } := ⟨rfl, kind_wellFormed hs node, hs.kept⟩
        obtain ⟨s₃, c₁, c₂, hled, hrest, rfl⟩ := compileFunctionBody_led (bounded_kind node s) hroom hbody
        obtain ⟨hle, hlaid⟩ := compileRest_laid (bounded_kind node s) (fun _ => ih) hidents rfl hled hrest
        exact ⟨hle, htidy, rfl, hlaid⟩

theorem compileClassBody_led {fuel : ℕ} {cls : ClassDeclaration} {s' : CompilerState} {c : Code}
    (hrun : Compiler.compileClassBody fuel cls { function := calculateClass cls } = .ok ((), s', c)) :
    ∃ s₁ c₁ c₂, Led (calculateClass cls).symbolTable { function := calculateClass cls } s₁ c₁ ∧
      compileRest fuel (Compiler.compileFunction cls.importsMap fuel) ([], cls.identifier) true cls.body s₁ =
        .ok ((), s', c₂) ∧ c = c₁ ++ c₂ := by
  have hsyms : Bounded (calculateClass cls).symbolTable := bounded_of_numbered (calculateClass_numbered cls)
  have hroom : Room (calculateClass cls).symbolTable { function := calculateClass cls } := ⟨rfl, tidy_class cls⟩
  have hthis : (calculateClass cls).symbolTable.lookup "this" = some 1 := by
    apply calculateBody_preserves (ParameterRegisters.keeps_entry "this" 1)
    apply (ParameterRegisters.keeps_entry "this" 1).foldl
    rfl
  have hsize : 1 ≤ slots (calculateClass cls) := Nat.le_trans (hsyms "this" 1 hthis) (Nat.le_add_left _ _)
  obtain ⟨⟨⟩, s₁, c₁, d₁, hcreate, hrun₁, rfl⟩ := bind_ok.mp hrun
  obtain ⟨⟨⟩, s₂, c₂, d₂, hpops, hrest, rfl⟩ := bind_ok.mp hrun₁
  have hcreated : Led (calculateClass cls).symbolTable { function := calculateClass cls } s₁ c₁ :=
    led_of (emit_keeps (fits_of_single rfl hsize)) (emit_leads rfl) hroom hcreate
  have hpopped : Led (calculateClass cls).symbolTable s₁ s₂ c₂ := by
    refine led_of (forEach_keeps _ fun ident k _ => ?_) (forEach_leads (fun ident => ?_) _) hcreated.room hpops
    · exact (symbol_keeps hsyms ident).bind fun reg k' _ hreg => emit_keeps (fits_of_single (r := reg) rfl hreg)
    · exact (getRegister_leads ident).bind fun reg _ => emit_leads rfl
  exact ⟨s₂, _, d₂, hcreated.append hpopped, hrest, by simp⟩

theorem compileClass_laid {fuel : ℕ} {cls : ClassDeclaration} {code : Code}
    (hidents : ∀ g ∈ functionsOf cls, IsIdentifier g.2)
    (hcount : ∀ t marks, outlineClass fuel cls {} = .ok ((), t, marks) → t.labelCount < 2 ^ 31)
    (h : compileClass fuel cls = .ok code) : ∃ hi, Laid 0 code hi := by
  unfold compileClass at h
  split at h
  · cases h
  · rename_i s code hframed
    cases h
    obtain ⟨t, marks, houtline, -, heq⟩ := compileClass_outline hframed
    have hn := hcount t marks houtline
    rw [heq] at hn
    unfold Compiler.framed at hframed
    split at hframed
    · cases hframed
    · rename_i s₁ inner hbody
      cases hframed
      obtain ⟨s₂, c₁, c₂, hled, hrest, rfl⟩ := compileClassBody_led hbody
      have hlaid := compileRest_laid (bounded_of_numbered (calculateClass_numbered cls))
        (fun _ hnode => compileFunction_laysOut hnode) hidents rfl hled hrest
      exact ⟨_, hlaid.2 hn⟩

structure Patch (old new : Code) : Prop where
  inside : ∀ i ∈ old ++ new, i.opcode ≠ .LABEL ∧ i.opcode ≠ .FFRAME
  lost : OnlyJumpsLost isJump (links old) (links new)
  fits : ∀ n, (∀ i ∈ old, Fits n i) → ∀ i ∈ new, Fits n i
  ends : ∃ last, old.getLast? = some last ∧
    (last.opcode = .RETURN → ∃ i, new.getLast? = some i ∧ i.opcode = .RETURN)

theorem fused_inside {opcode : Opcode} (h : isFused opcode = true) :
    (opcode ≠ .LABEL ∧ opcode ≠ .FFRAME) ∧ opcode ≠ .RETURN := by
  refine ⟨⟨?_, ?_⟩, ?_⟩
  · rintro rfl
    cases h
  · rintro rfl
    cases h
  · rintro rfl
    cases h

theorem second_inside {opcode : Opcode} (h : secondIsRegister opcode = true) :
    (opcode ≠ .LABEL ∧ opcode ≠ .FFRAME) ∧ opcode ≠ .RETURN := by
  refine ⟨⟨?_, ?_⟩, ?_⟩
  · rintro rfl
    cases h
  · rintro rfl
    cases h
  · rintro rfl
    cases h

theorem collapse_second {current next fused : Instruction} (hc : current.opcode.isCompare = true)
    (htyped : ∀ i ∈ [current, next], Typed i) (hf : collapse current next = some fused) :
    secondIsRegister next.opcode = true ∧ fused = current := by
  unfold collapse at hf
  split at hf
  · rename_i hr
    cases hf
    rw [hr]
    refine ⟨?_, rfl⟩
    by_contra hno
    have hresult := (htyped current (by simp)).result hc
    rw [← hr] at hresult
    have hnext := (htyped next (by simp)).second (Bool.not_eq_true _ ▸ hno)
    cases hr1 : next.r1 with
    | num r =>
      rw [hr1] at hresult
      exact hresult (hnext r hr1)
    | str | symbols =>
      rw [hr1] at hresult
      exact hresult rfl
  · cases hf

theorem fuseImmediate_fits {current next fused : Instruction} (hf : fuseImmediate current next = some fused) :
    isFused next.opcode = true ∧ isFused fused.opcode = true ∧ ∀ n, Fits n next → Fits n fused := by
  unfold fuseImmediate at hf
  split at hf
  · obtain ⟨opcode, hopcode, rfl⟩ := Option.map_eq_some_iff.mp hf
    obtain ⟨op, r0, r1, r2⟩ := next
    change Opcode.immediateJump op = _ at hopcode
    cases op <;> cases hopcode <;>
      exact ⟨rfl, rfl, fun n h => fits_of_single rfl (h r0.reg List.mem_cons_self)⟩
  · cases hf

theorem fuseJump_fits {current next fused : Instruction} (hf : fuseJump current next = some fused) :
    (next.opcode = .JMP_NOT_TRUE ∨ next.opcode = .JMP_TRUE) ∧ isFused fused.opcode = true ∧
      ∀ n, Fits n current → Fits n fused := by
  unfold fuseJump at hf
  split at hf
  · rename_i hnext
    obtain ⟨opcode, hopcode, rfl⟩ := Option.map_eq_some_iff.mp hf
    obtain ⟨op, r0, r1, r2⟩ := current
    generalize (next.opcode == .JMP_NOT_TRUE) = neg at hopcode
    have hreads : ∀ n, Fits n ⟨op, r0, r1, r2⟩ → ∀ r ∈ [r0.reg, r1.reg], r ≤ n := by
      intro n h r hr
      apply h r
      cases op <;> cases hopcode <;> exact List.mem_append_left _ hr
    refine ⟨hnext, ?_⟩
    cases op <;> cases hopcode <;> cases neg <;> exact ⟨rfl, hreads⟩
  · cases hf

/-- A step puts code in the place of one or two instructions. -/
theorem rewriteStep_patch {code code' : Code} (hstep : RewriteStep code code') (htyped : ∀ i ∈ code, Typed i) :
    ∃ before old new after, code = before ++ (old ++ after) ∧ code' = before ++ (new ++ after) ∧ Patch old new := by
  have hcompare : ∀ {opcode : Opcode}, opcode.isCompare = true → isFused opcode = true := by
    intro opcode h
    unfold isFused
    rw [h]
    rfl
  have hpair : ∀ {current next : Instruction} {before after : Code},
      (∀ i ∈ before ++ current :: next :: after, Typed i) → ∀ i ∈ [current, next], Typed i := by
    intro current next before after h i hi
    apply h i
    rcases List.mem_pair.mp hi with rfl | rfl
    · simp
    · simp
  have hlinks : ∀ {old new : Code}, RewriteStep ([] ++ old) ([] ++ new) → (∀ i ∈ old, Typed i) →
      OnlyJumpsLost isJump (links old) (links new) := fun hstep => rewriteStep_links hstep
  have hinside : ∀ {current next fused : Instruction}, (current.opcode ≠ .LABEL ∧ current.opcode ≠ .FFRAME) →
      (next.opcode ≠ .LABEL ∧ next.opcode ≠ .FFRAME) → (fused.opcode ≠ .LABEL ∧ fused.opcode ≠ .FFRAME) →
      ∀ i ∈ [current, next] ++ [fused], i.opcode ≠ .LABEL ∧ i.opcode ≠ .FFRAME := by
    intro current next fused hc hn hf i hi
    simp only [List.cons_append, List.nil_append, List.mem_cons, List.not_mem_nil, or_false] at hi
    rcases hi with rfl | rfl | rfl
    · exact hc
    · exact hn
    · exact hf
  cases hstep with
  | @returns before after current next hc hn =>
    refine ⟨before, [current, next], [current], after, rfl, rfl, hinside ?_ ?_ ?_,
      hlinks (.returns hc hn) (hpair htyped), fun n h i hi => ?_,
      next, rfl, fun _ => ⟨current, rfl, hc⟩⟩
    · simp [hc]
    · simp [hn]
    · simp [hc]
    · exact h i (List.mem_cons.mpr (Or.inl (List.mem_singleton.mp hi)))
  | @mov before after current hc hr =>
    refine ⟨before, [current], [], after, rfl, rfl, ?_,
      hlinks (.mov hc hr) ?_, fun n h i hi => absurd hi List.not_mem_nil,
      current, rfl, fun hret => ?_⟩
    · intro i hi
      rw [List.append_nil] at hi
      rw [List.mem_singleton.mp hi, hc]
      simp
    · intro i hi
      rw [List.mem_singleton.mp hi]
      exact htyped current (by simp)
    · rw [hc] at hret
      cases hret
  | @immediate before after current next fused hc hf =>
    obtain ⟨hn, hnew, hfits⟩ := fuseImmediate_fits hf
    refine ⟨before, [current, next], [fused], after, rfl, rfl,
      hinside (by simp [hc]) (fused_inside hn).1 (fused_inside hnew).1,
      hlinks (.immediate hc hf) (hpair htyped), fun n h i hi => ?_,
      next, rfl, fun hret => absurd hret (fused_inside hn).2⟩
    rw [List.mem_singleton.mp hi]
    exact hfits n (h next (by simp))
  | @collapsed before after current next fused hc hf =>
    obtain ⟨hn, rfl⟩ := collapse_second hc (hpair htyped) hf
    refine ⟨before, [fused, next], [fused], after, rfl, rfl,
      hinside (fused_inside (hcompare hc)).1 (second_inside hn).1 (fused_inside (hcompare hc)).1,
      hlinks (.collapsed hc hf) (hpair htyped), fun n h i hi => ?_,
      next, rfl, fun hret => absurd hret (second_inside hn).2⟩
    exact h i (List.mem_cons.mpr (Or.inl (List.mem_singleton.mp hi)))
  | @jump before after current next fused hc hf =>
    obtain ⟨hn, hnew, hfits⟩ := fuseJump_fits hf
    have hnext : (next.opcode ≠ .LABEL ∧ next.opcode ≠ .FFRAME) ∧ next.opcode ≠ .RETURN := by
      rcases hn with hn | hn <;> simp [hn]
    refine ⟨before, [current, next], [fused], after, rfl, rfl,
      hinside (fused_inside (hcompare hc)).1 hnext.1 (fused_inside hnew).1,
      hlinks (.jump hc hf) (hpair htyped), fun n h i hi => ?_,
      next, rfl, fun hret => absurd hret hnext.2⟩
    rw [List.mem_singleton.mp hi]
    exact hfits n (h current (by simp))

theorem beside {β : Type} {xs ys before mid after : List β} {x : β} (hx : x ∉ mid)
    (h : xs ++ x :: ys = before ++ (mid ++ after)) :
    (∃ tail, xs = before ++ (mid ++ tail) ∧ after = tail ++ x :: ys) ∨
      ∃ head, before = xs ++ x :: head ∧ ys = head ++ (mid ++ after) := by
  rcases List.append_eq_append_iff.mp h with ⟨a, rfl, ha⟩ | ⟨a, rfl, ha⟩
  · cases a with
    | nil =>
      cases mid with
      | nil => exact Or.inl ⟨[], by simp, ha.symm⟩
      | cons y mid =>
        cases ha
        exact absurd List.mem_cons_self hx
    | cons y head =>
      cases ha
      exact Or.inr ⟨head, rfl, rfl⟩
  · rcases List.append_eq_append_iff.mp ha with ⟨b, rfl, hb⟩ | ⟨b, rfl, hb⟩
    · exact Or.inl ⟨b, rfl, hb⟩
    · cases b with
      | nil => exact Or.inl ⟨[], by simp, hb.symm⟩
      | cons y b =>
        cases hb
        exact absurd (List.mem_append_right a List.mem_cons_self) hx

theorem Patch.nonempty {old new : Code} (h : Patch old new) : ∃ i rest, old = i :: rest := by
  obtain ⟨last, hlast, -⟩ := h.ends
  cases old with
  | nil => cases hlast
  | cons i rest => exact ⟨i, rest, rfl⟩

theorem FunctionCode.patch {lo hi : ℕ} {start frame stop : Instruction} {before old new after : Code}
    (h : FunctionCode lo hi start frame (before ++ (old ++ after)) stop) (hp : Patch old new) :
    FunctionCode lo hi start frame (before ++ (new ++ after)) stop := by
  have hlost : OnlyJumpsLost isJump (links (before ++ (old ++ after))) (links (before ++ (new ++ after))) := by
    have hwithin := hp.lost.within (links before) (links after)
    simpa only [links_append, List.append_assoc] using hwithin
  have hmem : ∀ {p : Instruction → Prop}, (∀ i ∈ before ++ (old ++ after), p i) →
      ((∀ i ∈ old, p i) → ∀ i ∈ new, p i) → ∀ i ∈ before ++ (new ++ after), p i := by
    intro p hold hnew i hi
    rcases List.mem_append.mp hi with hi | hi
    · exact hold i (List.mem_append_left _ hi)
    · rcases List.mem_append.mp hi with hi | hi
      · exact hnew (fun j hj => hold j (List.mem_append_right _ (List.mem_append_left _ hj))) i hi
      · exact hold i (List.mem_append_right _ (List.mem_append_right _ hi))
  refine ⟨h.start, hmem h.fits (hp.fits _), h.frame, h.stop, h.numbers, hmem h.frames ?_, ?_, ?_, ?_⟩
  · exact fun _ i hi => (hp.inside i (List.mem_append_right _ hi)).2
  · intro text htext
    exact h.labels text (hlost.sublist.subset htext)
  · intro text htext
    exact hlost.mem (h.jumps text (hlost.sublist.subset htext)) rfl
  · obtain ⟨i, hi, hret⟩ := h.ends
    obtain ⟨last, hlast, hends⟩ := hp.ends
    rw [List.getLast?_append, List.getLast?_append] at hi
    rw [List.getLast?_append, List.getLast?_append]
    cases htail : after.getLast? with
    | some j =>
      rw [htail] at hi
      exact ⟨i, hi, hret⟩
    | none =>
      rw [htail, hlast] at hi
      cases hi
      obtain ⟨j, hj, hj'⟩ := hends hret
      exact ⟨j, by rw [hj]; rfl, hj'⟩

theorem Laid.patch {lo hi : ℕ} {code before old new after : Code} (h : Laid lo code hi) (hp : Patch old new)
    (heq : code = before ++ (old ++ after)) : Laid lo (before ++ (new ++ after)) hi := by
  obtain ⟨i, rest, hold⟩ := hp.nonempty
  have hfirst : i.opcode ≠ .LABEL ∧ i.opcode ≠ .FFRAME := hp.inside i (by rw [hold]; exact List.mem_cons_self)
  induction h generalizing before with
  | nil =>
    rw [hold] at heq
    simp at heq
  | @function lo mid hi start frame stop body code hfunction hrest ih =>
    -- the step is behind the label and the frame
    obtain ⟨before, rfl⟩ : ∃ tail, before = start :: frame :: tail := by
      rw [hold] at heq
      rcases before with _ | ⟨x, _ | ⟨y, tail⟩⟩
      · obtain ⟨rfl, -⟩ := List.cons.inj heq
        exact absurd hfunction.start.1 hfirst.1
      · obtain ⟨-, hframe⟩ := List.cons.inj heq
        obtain ⟨rfl, -⟩ := List.cons.inj hframe
        exact absurd hfunction.frame hfirst.2
      · obtain ⟨rfl, hframe⟩ := List.cons.inj heq
        obtain ⟨rfl, -⟩ := List.cons.inj hframe
        exact ⟨tail, rfl⟩
    have hbody : body ++ stop :: code = before ++ (old ++ after) :=
      (List.cons.inj (List.cons.inj heq).2).2
    have hstop : stop ∉ old := by
      intro hmem
      exact (hp.inside stop (List.mem_append_left _ hmem)).1 hfunction.stop.1
    rcases beside hstop hbody with ⟨tail, rfl, rfl⟩ | ⟨head, rfl, hcode⟩
    · have hlaid := Laid.function (hfunction.patch hp) hrest
      simpa only [List.cons_append, List.append_assoc] using hlaid
    · have hlaid := Laid.function hfunction (ih hcode)
      simpa only [List.cons_append, List.append_assoc] using hlaid

theorem image_laid {fuel : ℕ} {cls : ClassDeclaration} {code : Code}
    (hidents : ∀ g ∈ functionsOf cls, IsIdentifier g.2)
    (hcount : ∀ t marks, outlineClass fuel cls {} = .ok ((), t, marks) → t.labelCount < 2 ^ 31)
    (h : image fuel cls = some code) : ∃ hi, Laid 0 code hi := by
  unfold image at h
  split at h
  · rename_i compiled hcompile
    obtain ⟨hi, hlaid⟩ := compileClass_laid hidents hcount hcompile
    have hchain := optimize_rewrites h
    clear h
    refine ⟨hi, ?_⟩
    induction hchain with
    | refl => exact hlaid
    | tail hbefore hstep ih =>
      obtain ⟨before, old, new, after, heq, rfl, hp⟩ :=
        rewriteStep_patch hstep (rewrites_typed hbefore (compileClass_typed hcompile))
      exact ih.patch hp heq
  · cases h

/-- The body behind an `FFRAME`. -/
def bodyAt (code : Code) (q : ℕ) : Code := (code.drop (q + 1)).takeWhile fun i => !border i

def Within (code : Code) (q p : ℕ) : Prop := q < p ∧ p ≤ q + (bodyAt code q).length

/-- A function that control leaves by `RETURN` only: its instructions name registers of its frame, its jumps
and handlers lead into it, and behind its last instruction nothing follows. -/
structure Closed (code : Code) (q size : ℕ) : Prop where
  fits : ∀ i ∈ bodyAt code q, Fits size i
  jumps : ∀ i ∈ bodyAt code q, ∀ text, link i = some (.jump text) →
    ∃ p, labelIndex code text = some p ∧ Within code q p
  ends : ∃ i, (bodyAt code q).getLast? = some i ∧ i.opcode = .RETURN

section

variable {code : Code} {q p size : ℕ} {i : Instruction}

theorem Within.mem (h : Within code q p) (hi : code[p]? = some i) : i ∈ bodyAt code q := by
  obtain ⟨hlt, hle⟩ := h
  have hbody : bodyAt code q <+: code.drop (q + 1) := List.takeWhile_prefix _
  obtain ⟨after, hafter⟩ := hbody
  have hposition : (code.drop (q + 1))[p - (q + 1)]? = some i := by
    rw [List.getElem?_drop, Nat.add_sub_cancel' hlt]
    exact hi
  rw [← hafter, List.getElem?_append_left (by omega)] at hposition
  exact List.mem_of_getElem? hposition

theorem Within.fetch (h : Within code q p) : ∃ i, code[p]? = some i := by
  obtain ⟨hlt, hle⟩ := h
  have hlength : (bodyAt code q).length ≤ (code.drop (q + 1)).length := (List.takeWhile_prefix _).length_le
  rw [List.length_drop] at hlength
  exact ⟨_, List.getElem?_eq_getElem (by omega)⟩

theorem Closed.entry (h : Closed code q size) : Within code q (q + 1) := by
  obtain ⟨i, hi, -⟩ := h.ends
  have hpos : 0 < (bodyAt code q).length := List.length_pos_of_mem (List.mem_of_getLast? hi)
  exact ⟨Nat.lt_succ_self q, by omega⟩

theorem Closed.next (h : Closed code q size) (hp : Within code q p) (hi : code[p]? = some i)
    (hreturn : i.opcode ≠ .RETURN) : Within code q (p + 1) := by
  obtain ⟨hlt, hle⟩ := hp
  refine ⟨Nat.lt_succ_of_lt hlt, ?_⟩
  by_contra hover
  obtain ⟨stop, hstop, hopcode⟩ := h.ends
  obtain ⟨after, hafter⟩ : bodyAt code q <+: code.drop (q + 1) := List.takeWhile_prefix _
  have hposition : (code.drop (q + 1))[p - (q + 1)]? = some i := by
    rw [List.getElem?_drop, Nat.add_sub_cancel' hlt]
    exact hi
  rw [← hafter, List.getElem?_append_left (by omega)] at hposition
  rw [List.getLast?_eq_getElem?, show (bodyAt code q).length - 1 = p - (q + 1) by omega, hposition] at hstop
  cases hstop
  exact hreturn hopcode

end

theorem link_eq_label {i : Instruction} {text : String} (h : link i = some (.label text)) (hne : text ≠ "") :
    i.opcode = .LABEL ∧ i.r0 = .str text := by
  unfold link at h
  split at h
  · rename_i hopcode
    refine ⟨hopcode, ?_⟩
    cases hr0 : i.r0 with
    | str label =>
      rw [hr0] at h
      cases h
      rfl
    | num | symbols =>
      rw [hr0] at h
      cases h
      exact absurd rfl hne
  · cases h
  · cases h
  · obtain ⟨_, -, h⟩ := Option.map_eq_some_iff.mp h
    cases h

theorem labelIndex_isSome {code : Code} {text : String} (h : .label text ∈ links code) (hne : text ≠ "") :
    ∃ index, labelIndex code text = some index := by
  induction code with
  | nil => cases h
  | cons i code ih =>
    rw [links_cons] at h
    rw [labelIndex]
    cases hrest : labelIndex code text with
    | some index => exact ⟨_, rfl⟩
    | none =>
      rcases List.mem_append.mp h with h | h
      · have hlink : link i = some (.label text) := Option.mem_toList.mp h
        exact ⟨0, if_pos (link_eq_label hlink hne)⟩
      · obtain ⟨index, hindex⟩ := ih h
        rw [hindex] at hrest
        cases hrest

theorem bodyAt_append (before code : Code) (q : ℕ) : bodyAt (before ++ code) (before.length + q) = bodyAt code q := by
  unfold bodyAt
  rw [Nat.add_assoc, List.drop_length_add_append]

theorem Closed.append {code : Code} {q size : ℕ} (h : Closed code q size) (before : Code) :
    Closed (before ++ code) (before.length + q) size := by
  have hbody := bodyAt_append before code q
  refine ⟨?_, ?_, ?_⟩
  · rw [hbody]
    exact h.fits
  · rw [hbody]
    intro i hi text htext
    obtain ⟨p, hp, hlt, hle⟩ := h.jumps i hi text htext
    refine ⟨before.length + p, ?_, ?_, ?_⟩
    · rw [labelIndex_append, hp]
    · omega
    · rw [hbody]
      omega
  · rw [hbody]
    exact h.ends

section

variable {lo hi : ℕ} {start frame stop : Instruction} {body code : Code}

theorem FunctionCode.border_body (h : FunctionCode lo hi start frame body stop) :
    ∀ i ∈ body, border i = false := by
  intro i hi
  have hframe := h.frames i hi
  unfold border
  by_cases hlabel : i.opcode = .LABEL
  · have hmem : .label i.r0.text ∈ links body :=
      List.mem_filterMap.mpr ⟨i, hi, by unfold link; rw [hlabel]⟩
    obtain ⟨stem, k, hstem, -, -, htext⟩ := h.labels _ hmem
    rw [htext, label_head hstem k, hlabel]
    rfl
  · simp [hframe, hlabel]

theorem border_no_dot {i : Instruction} (h : i.opcode = .LABEL ∧ border i = true) {text : String}
    (hlink : link i = some (.label text)) : text.toList.head? ≠ some '.' := by
  have htext : i.r0.text = text := by
    unfold link at hlink
    rw [h.1] at hlink
    cases hlink
    rfl
  have hborder := h.2
  unfold border at hborder
  rw [h.1, htext] at hborder
  simpa using hborder

theorem Laid.numbered (h : Laid lo code hi) {text : String} (hmem : .label text ∈ links code)
    (hdot : text.toList.head? = some '.') : NumberedLabel lo hi text := by
  induction h with
  | nil => cases hmem
  | @function lo mid hi start frame stop body code hfunction hrest ih =>
    simp only [links_cons, links_append, List.mem_append, Option.mem_toList] at hmem
    rcases hmem with hstart | hframe | hbody | hstop | hrest'
    · exact absurd hdot (border_no_dot hfunction.start hstart)
    · unfold link at hframe
      rw [hfunction.frame] at hframe
      cases hframe
    · obtain ⟨stem, k, hstem, hlo, hk, heq⟩ := hfunction.labels text hbody
      exact ⟨stem, k, hstem, hlo, Nat.le_trans hk hrest.le, heq⟩
    · exact absurd hdot (border_no_dot hfunction.stop hstop)
    · obtain ⟨stem, k, hstem, hlo, hk, heq⟩ := ih hrest'
      exact ⟨stem, k, hstem, Nat.lt_of_le_of_lt hfunction.numbers hlo, hk, heq⟩

theorem labelIndex_behind {mid : ℕ} (hfunction : FunctionCode lo mid start frame body stop)
    (hrest : Laid mid code hi) {text : String} (htext : NumberedLabel lo mid text) :
    labelIndex (stop :: code) text = none := by
  obtain ⟨stem, k, hstem, -, hk, rfl⟩ := htext
  cases hindex : labelIndex (stop :: code) (label stem k) with
  | none => rfl
  | some p =>
    obtain ⟨i, hi, hopcode, hname⟩ := labelIndex_label hindex
    have hlink : link i = some (.label (label stem k)) := by
      unfold link
      rw [hopcode, hname]
      rfl
    rcases List.mem_cons.mp (List.mem_of_getElem? hi) with rfl | hmem
    · exact absurd (label_head hstem k) (border_no_dot hfunction.stop hlink)
    · obtain ⟨stem', k', hstem', hlo, -, heq⟩ :=
        hrest.numbered (List.mem_filterMap.mpr ⟨i, hmem, hlink⟩) (label_head hstem k)
      obtain ⟨-, rfl⟩ := label_injective hstem hstem' heq
      omega

theorem FunctionCode.bodyAt (h : FunctionCode lo hi start frame body stop) (code : Code) :
    bodyAt (start :: frame :: (body ++ stop :: code)) 1 = body := by
  unfold FunctionLayout.bodyAt
  rw [List.drop_succ_cons, List.drop_succ_cons, List.drop_zero, List.takeWhile_append_of_pos, List.takeWhile_cons,
    h.stop.2]
  · simp
  · intro i hi
    rw [h.border_body i hi]
    rfl

theorem FunctionCode.closed {mid : ℕ} (h : FunctionCode lo mid start frame body stop) (hrest : Laid mid code hi) :
    Closed (start :: frame :: (body ++ stop :: code)) 1 frame.r0.reg := by
  have hbody := h.bodyAt code
  refine ⟨?_, ?_, ?_⟩
  · rw [hbody]
    exact h.fits
  · rw [hbody]
    intro i hi text htext
    have hlabel := h.jumps text (List.mem_filterMap.mpr ⟨i, hi, htext⟩)
    have hnumber := h.labels text hlabel
    have hne : text ≠ "" := by
      obtain ⟨stem, k, hstem, -, -, rfl⟩ := hnumber
      intro hempty
      have hhead := label_head hstem k
      rw [hempty] at hhead
      cases hhead
    obtain ⟨j, hj⟩ := labelIndex_isSome hlabel hne
    have hlt := labelIndex_lt hj
    refine ⟨2 + j, ?_, ?_, ?_⟩
    · have hinner : labelIndex (body ++ stop :: code) text = some j := by
        rw [labelIndex_append, labelIndex_behind h hrest hnumber]
        exact hj
      have hall := labelIndex_append [start, frame] (body ++ stop :: code) text
      rw [hinner] at hall
      exact hall
    · omega
    · rw [hbody]
      omega
  · rw [hbody]
    exact h.ends

theorem Laid.closed (h : Laid lo code hi) {q : ℕ} (hq : code[q]? = some frame) (hframe : frame.opcode = .FFRAME) :
    Closed code q frame.r0.reg := by
  induction h generalizing q with
  | nil => cases hq
  | @function lo mid hi start first stop body code hfunction hrest ih =>
    rcases q with _ | _ | q
    · cases hq
      rw [hfunction.start.1] at hframe
      cases hframe
    · cases hq
      exact hfunction.closed hrest
    · have hinner : (body ++ stop :: code)[q]? = some frame := hq
      have hbehind : body.length < q := by
        by_contra hle
        rcases Nat.lt_or_eq_of_le (Nat.not_lt.mp hle) with hlt | heq
        · rw [List.getElem?_append_left hlt] at hinner
          exact hfunction.frames frame (List.mem_of_getElem? hinner) hframe
        · rw [heq, List.getElem?_append_right (Nat.le_refl _), Nat.sub_self] at hinner
          cases hinner
          rw [hfunction.stop.1] at hframe
          cases hframe
      obtain ⟨j, rfl⟩ := Nat.exists_eq_add_of_lt hbehind
      rw [List.getElem?_append_right (by omega), show body.length + j + 1 - body.length = j + 1 by omega] at hinner
      have hclosed := (ih hinner).append ([start, first] ++ body ++ [stop])
      have hcode : [start, first] ++ body ++ [stop] ++ code = start :: first :: (body ++ stop :: code) := by simp
      have hlength : ([start, first] ++ body ++ [stop]).length + j = body.length + j + 1 + 1 + 1 := by
        simp only [List.length_append, List.length_cons, List.length_nil]
        omega
      rwa [hcode, hlength] at hclosed

end

/-- In an image every `FFRAME` is followed by the body of a function that control leaves by `RETURN` only,
and whose instructions name no register outside of the frame. -/
theorem image_closed {fuel : ℕ} {cls : ClassDeclaration} {code : Code} {q : ℕ} {frame : Instruction}
    (hidents : ∀ g ∈ functionsOf cls, IsIdentifier g.2)
    (hcount : ∀ t marks, outlineClass fuel cls {} = .ok ((), t, marks) → t.labelCount < 2 ^ 31)
    (h : image fuel cls = some code) (hq : code[q]? = some frame) (hframe : frame.opcode = .FFRAME) :
    Closed code q frame.r0.reg := by
  obtain ⟨hi, hlaid⟩ := image_laid hidents hcount h
  exact hlaid.closed hq hframe

/-- `class Main { fun f(x) { while (x < 3) { try { return f(x); } catch (e) { break; } } } }`. -/
def sampleClass : ClassDeclaration :=
  ⟨"Main", [], [.function false false false "f" ["x"] [.loop none (some (.binary .less (.ident "x") (.num "3"))) none
    [.tryCatch "e" [.ret (.methodCall (.ident "f") [.ident "x"])] [.brk] none]],
    .function true false false "__static__constructor__" [] []], []⟩

def labelsOf (fuel : ℕ) (cls : ClassDeclaration) : ℕ :=
  match outlineClass fuel cls {} with
  | .ok (_, t, _) => t.labelCount
  | .error _ => 0

theorem labelsOf_lt {fuel bound : ℕ} {cls : ClassDeclaration} (h : labelsOf fuel cls < bound) :
    ∀ t marks, outlineClass fuel cls {} = .ok ((), t, marks) → t.labelCount < bound := by
  intro t marks hok
  unfold labelsOf at h
  rw [hok] at h
  exact h

theorem sampleClass_closed : ∃ code, image 6 sampleClass = some code ∧
    code.countP (·.opcode = .FFRAME) = 3 ∧
    ∀ q frame, code[q]? = some frame → frame.opcode = .FFRAME → Closed code q frame.r0.reg := by
  have hframes : (image 6 sampleClass).map (·.countP (·.opcode = .FFRAME)) = some 3 := by decide +kernel
  obtain ⟨code, hcode, hcount⟩ := Option.map_eq_some_iff.mp hframes
  refine ⟨code, hcode, hcount, fun q frame hq hframe => ?_⟩
  exact image_closed (by decide +kernel) (labelsOf_lt (by decide +kernel)) hcode hq hframe

end Zeroscript.FunctionLayout
