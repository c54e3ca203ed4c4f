import Zeroscript.Outline

/-! # Which label an operand finds

An operand finds the last label of its text. It is the label it was emitted for when the names of the
functions keep the texts apart. -/
namespace Zeroscript.LabelNames

open Emission Outline

mutual

def declared : List ℕ → Stmt → List FunctionId
  | _, .expression _ _ _ _ | _, .var _ _ _ _ => []
  | path, .function _ _ _ identifier _ body => (path, identifier) :: declaredIn path 0 body
  | path, .loop _ _ _ body | path, .block body => declaredIn path 0 body
  | path, .conditional _ body none => declaredIn (0 :: path) 0 body
  | path, .conditional _ body (some elseBody) =>
    declaredIn (0 :: path) 0 body ++ declaredIn (1 :: path) 0 elseBody
  | path, .tryCatch _ tryBody catchBody none =>
    declaredIn (0 :: path) 0 tryBody ++ declaredIn (1 :: path) 0 catchBody
  | path, .tryCatch _ tryBody catchBody (some finallyBody) =>
    declaredIn (0 :: path) 0 tryBody ++ declaredIn (1 :: path) 0 catchBody ++
      declaredIn (2 :: path) 0 finallyBody

def declaredIn : List ℕ → ℕ → Body → List FunctionId
  | _, _, [] => []
  | path, i, stmt :: rest => declared (i :: path) stmt ++ declaredIn path (i + 1) rest

end

/-- The class and its functions. -/
def functionsOf (cls : ClassDeclaration) : List FunctionId :=
  ([], cls.identifier) :: declaredIn [] 0 cls.body

def nodeFunctions (node : FunctionNode) : List FunctionId :=
  FunctionNode.id node :: declaredIn node.path 0 node.body

structure Compiled (marks : List Mark) (f : FunctionId) : Prop where
  label : .label (.start f) ∈ marks
  frame : .frame (.stop f) ∈ marks
  refer : f.1 ≠ [] → .refer (.start f) ∈ marks

/-- From one state to another: what operands name is among the labels, or is the end of a loop around, or
a function that waits, or is a static function; the functions `declared` are compiled or wait. -/
structure Covered (loopEnds : List Token) (declared : List FunctionId) (waiting : List FunctionNode)
    (t t' : OutlineState) (marks : List Mark) : Prop where
  operands : ∀ m ∈ marks, m.token ∈ loopEnds ∨ .label m.token ∈ marks ∨
    (∃ node ∈ waiting, m.token = .start (FunctionNode.id node)) ∨ ∃ f ∈ t.statics, m.token = .start f
  pending : ∀ node ∈ t.pending, node ∈ t'.pending
  statics : ∀ f ∈ t'.statics, f ∈ t.statics ∨ .label (.start f) ∈ marks
  counts : t.labelCount ≤ t'.labelCount
  numbers : ∀ stem n, .label (.generated stem n) ∈ marks → n ≤ t'.labelCount
  complete : ∀ f ∈ declared, Compiled marks f ∨ ∃ node ∈ waiting, f ∈ nodeFunctions node

def Covers {β : Type} (n : ℕ) (loopEnds : List Token) (declared : List FunctionId) (m : Outlining β) : Prop :=
  ∀ t b t' marks, n ≤ t.labelCount → m t = .ok (b, t', marks) →
    Covered loopEnds declared t'.pending t t' marks

section

variable {β γ : Type} {n : ℕ} {loopEnds : List Token} {F F' : List FunctionId} {t t₁ t' : OutlineState}
  {marks marks' : List Mark}

theorem Compiled.mono {f : FunctionId} (h : Compiled marks f) (hsub : ∀ m ∈ marks, m ∈ marks') :
    Compiled marks' f := ⟨hsub _ h.label, hsub _ h.frame, fun hf => hsub _ (h.refer hf)⟩

theorem Covered.append {waiting waiting' : List FunctionNode} (h : Covered loopEnds F waiting t t₁ marks)
    (h' : Covered loopEnds F' waiting' t₁ t' marks') (hwaiting : ∀ node ∈ waiting, node ∈ waiting') :
    Covered loopEnds (F ++ F') waiting' t t' (marks ++ marks') := by
  have hleft : ∀ m ∈ marks, m ∈ marks ++ marks' := fun _ => List.mem_append_left _
  have hright : ∀ m ∈ marks', m ∈ marks ++ marks' := fun _ => List.mem_append_right _
  refine ⟨fun m hm => ?_, fun node hnode => h'.pending _ (h.pending _ hnode), fun f hf => ?_,
    h.counts.trans h'.counts, fun stem n hlabel => ?_, fun f hf => ?_⟩
  · rcases List.mem_append.mp hm with hm | hm
    · rcases h.operands m hm with hend | hlabel | ⟨node, hnode, heq⟩ | hstatic
      · exact Or.inl hend
      · exact Or.inr (Or.inl (hleft _ hlabel))
      · exact Or.inr (Or.inr (Or.inl ⟨node, hwaiting _ hnode, heq⟩))
      · exact Or.inr (Or.inr (Or.inr hstatic))
    · rcases h'.operands m hm with hend | hlabel | hpending | ⟨f, hf, heq⟩
      · exact Or.inl hend
      · exact Or.inr (Or.inl (hright _ hlabel))
      · exact Or.inr (Or.inr (Or.inl hpending))
      · rcases h.statics f hf with hf | hlabel
        · exact Or.inr (Or.inr (Or.inr ⟨f, hf, heq⟩))
        · rw [heq]
          exact Or.inr (Or.inl (hleft _ hlabel))
  · rcases h'.statics f hf with hf | hlabel
    · exact (h.statics f hf).imp_right (hleft _)
    · exact Or.inr (hright _ hlabel)
  · rcases List.mem_append.mp hlabel with hlabel | hlabel
    · exact (h.numbers _ _ hlabel).trans h'.counts
    · exact h'.numbers _ _ hlabel
  · rcases List.mem_append.mp hf with hf | hf
    · rcases h.complete f hf with hcompiled | ⟨node, hnode, hmem⟩
      · exact Or.inl (hcompiled.mono hleft)
      · exact Or.inr ⟨node, hwaiting _ hnode, hmem⟩
    · exact (h'.complete f hf).imp_left fun hcompiled => hcompiled.mono hright

theorem Covers.pure (b : β) : Covers n loopEnds [] (Pure.pure b : Outlining β) := by
  intro t b' t' marks _ hrun
  obtain ⟨-, rfl, rfl⟩ := pure_ok.mp hrun
  exact ⟨nofun, fun _ => id, fun _ => Or.inl, Nat.le_refl _, nofun, nofun⟩

theorem Covers.bind {m : Outlining β} {f : β → Outlining γ} (hm : Covers n loopEnds F m)
    (hf : ∀ b, Covers n loopEnds F' (f b)) : Covers n loopEnds (F ++ F') (m >>= f) := by
  intro t d t' marks hn hrun
  obtain ⟨b, t₁, marks₁, marks₂, h₁, h₂, rfl⟩ := bind_ok.mp hrun
  have hfirst := hm _ _ _ _ hn h₁
  have hrest := hf b _ _ _ _ (hn.trans hfirst.counts) h₂
  exact hfirst.append hrest hrest.pending

theorem Covers.fresh {stem : String} {f : Token → Outlining β}
    (hf : ∀ k, n ≤ k → Covers k loopEnds F (f (.generated stem k))) :
    Covers n loopEnds F (fresh stem >>= f) := by
  intro t d t' marks hn hrun
  obtain ⟨b, t₁, marks₁, marks₂, h₁, h₂, rfl⟩ := bind_ok.mp hrun
  cases h₁
  have h := hf _ (hn.trans (Nat.le_succ _)) _ _ _ _ (Nat.le_refl _) h₂
  exact ⟨h.operands, h.pending, h.statics, (Nat.le_succ _).trans h.counts, h.numbers, h.complete⟩

theorem Covers.label {token : Token} (h : ∀ stem k, token = .generated stem k → k ≤ n) :
    Covers n loopEnds [] (mark (.label token)) := by
  intro t b t' marks hn hrun
  cases hrun
  refine ⟨fun m hm => Or.inr (Or.inl ?_), fun _ => id, fun _ => Or.inl, Nat.le_refl _, fun stem k hlabel => ?_,
    nofun⟩
  · obtain rfl := List.mem_singleton.mp hm
    exact List.mem_singleton.mpr rfl
  · cases List.mem_singleton.mp hlabel
    exact (h stem k rfl).trans hn

theorem numbered {stem : String} {j k : ℕ} (h : j ≤ k) :
    ∀ stem' j', Token.generated stem j = .generated stem' j' → j' ≤ k := by
  rintro _ _ ⟨⟩
  exact h

theorem Covers.operand {m : Mark} (hm : ∀ token, m ≠ .label token) (h : m.token ∈ loopEnds) :
    Covers n loopEnds [] (mark m) := by
  intro t b t' marks hn hrun
  cases hrun
  refine ⟨fun m' hm' => Or.inl ?_, fun _ => id, fun _ => Or.inl, Nat.le_refl _, fun stem k hlabel => ?_, nofun⟩
  · obtain rfl := List.mem_singleton.mp hm'
    exact h
  · exact absurd (List.mem_singleton.mp hlabel).symm (hm _)

theorem Covers.jump {token : Token} (h : token ∈ loopEnds) : Covers n loopEnds [] (mark (.jump token)) :=
  .operand nofun h

theorem Covers.refer {token : Token} (h : token ∈ loopEnds) : Covers n loopEnds [] (mark (.refer token)) :=
  .operand nofun h

theorem Covers.ite {p : Prop} [Decidable p] {m m' : Outlining β} (h : Covers n loopEnds F m)
    (h' : Covers n loopEnds F m') : Covers n loopEnds F (if p then m else m') := by
  split
  · exact h
  · exact h'

theorem Covers.subset {m : Outlining β} (h : Covers n loopEnds F' m) (hsub : ∀ f ∈ F, f ∈ F') :
    Covers n loopEnds F m := by
  intro t b t' marks hn hrun
  obtain ⟨hoperands, hpending, hstatics, hcounts, hnumbers, hcomplete⟩ := h t b t' marks hn hrun
  exact ⟨hoperands, hpending, hstatics, hcounts, hnumbers, fun f hf => hcomplete f (hsub f hf)⟩

/-- The label is emitted in every run. -/
def Always {β : Type} (token : Token) (m : Outlining β) : Prop :=
  ∀ t b t' marks, m t = .ok (b, t', marks) → .label token ∈ marks

theorem Always.self (token : Token) : Always token (mark (.label token)) := by
  intro t b t' marks hrun
  cases hrun
  exact List.mem_cons_self

theorem Always.here {token : Token} {m : Outlining β} {f : β → Outlining γ} (h : Always token m) :
    Always token (m >>= f) := by
  intro t d t' marks hrun
  obtain ⟨b, t₁, marks₁, marks₂, h₁, h₂, rfl⟩ := bind_ok.mp hrun
  exact List.mem_append_left _ (h _ _ _ _ h₁)

theorem Always.there {token : Token} {m : Outlining β} {f : β → Outlining γ} (h : ∀ b, Always token (f b)) :
    Always token (m >>= f) := by
  intro t d t' marks hrun
  obtain ⟨b, t₁, marks₁, marks₂, h₁, h₂, rfl⟩ := bind_ok.mp hrun
  exact List.mem_append_right _ (h b _ _ _ _ h₂)

theorem Always.ite {token : Token} {p : Prop} [Decidable p] {m m' : Outlining β} (h : Always token m)
    (h' : Always token m') : Always token (if p then m else m') := by
  split
  · exact h
  · exact h'

theorem Covers.discharge (tokens : List Token) {m : Outlining β} (h : Covers n (tokens ++ loopEnds) F m)
    (hlabels : ∀ token ∈ tokens, Always token m) : Covers n loopEnds F m := by
  intro t b t' marks hn hrun
  obtain ⟨hoperands, hpending, hstatics, hcounts, hnumbers, hcomplete⟩ := h t b t' marks hn hrun
  refine ⟨fun x hx => ?_, hpending, hstatics, hcounts, hnumbers, hcomplete⟩
  rcases hoperands x hx with hmem | hrest
  · rcases List.mem_append.mp hmem with hmem | hmem
    · exact Or.inr (Or.inl (hlabels _ hmem t b t' marks hrun))
    · exact Or.inl hmem
  · exact Or.inr hrest

theorem Covers.weaken {m : Outlining β} {loopEnds' : List Token} (h : Covers n loopEnds F m)
    (hsub : ∀ token ∈ loopEnds, token ∈ loopEnds') : Covers n loopEnds' F m := by
  intro t b t' marks hn hrun
  obtain ⟨hoperands, hpending, hstatics, hcounts, hnumbers, hcomplete⟩ := h t b t' marks hn hrun
  exact ⟨fun x hx => (hoperands x hx).imp_left (hsub _), hpending, hstatics, hcounts, hnumbers, hcomplete⟩

theorem Covers.mono {m : Outlining β} {k : ℕ} (h : Covers n loopEnds F m) (hle : n ≤ k) :
    Covers k loopEnds F m := fun t b t' marks hn hrun => h t b t' marks (hle.trans hn) hrun

end

def starts (path : List ℕ) : ℕ → Body → List Token
  | _, [] => []
  | i, .function _ _ _ identifier _ _ :: rest => .start (i :: path, identifier) :: starts path (i + 1) rest
  | i, _ :: rest => starts path (i + 1) rest

theorem hoists_covers (n : ℕ) (loopEnds : List Token) (path : List ℕ) : ∀ i body,
    Covers n (starts path i body ++ loopEnds) [] (hoists path i body)
  | _, [] => .pure ()
  | i, .function _ _ _ identifier _ _ :: rest => by
    have hrest := (hoists_covers n loopEnds path (i + 1) rest).weaken
      fun token => List.mem_cons_of_mem (Token.start (i :: path, identifier))
    exact (Covers.refer List.mem_cons_self).bind fun _ => hrest
  | i, .expression _ _ _ _ :: rest | i, .var _ _ _ _ :: rest | i, .loop _ _ _ _ :: rest
  | i, .block _ :: rest | i, .conditional _ _ _ :: rest | i, .tryCatch _ _ _ _ :: rest =>
    hoists_covers n loopEnds path (i + 1) rest

section

variable {outlineStmt : OutlineContext → Stmt → Outlining Unit}
  (hstmt : ∀ n o stmt, Covers n o.loopEnds (declared o.path stmt) (outlineStmt o stmt))
  (hlater : ∀ o isStatic isAsync isPrivate identifier arguments body t b t' marks,
    outlineStmt o (.function isStatic isAsync isPrivate identifier arguments body) t = .ok (b, t', marks) →
    ∃ node ∈ t'.pending, FunctionNode.id node = (o.path, identifier))

include hstmt

theorem outlineStatements_covers (n : ℕ) (o : OutlineContext) : ∀ i body,
    Covers n o.loopEnds (declaredIn o.path i body) (outlineStatements outlineStmt o i body)
  | _, [] => .pure ()
  | i, stmt :: rest => by
    rw [declaredIn]
    exact (hstmt n { o with path := i :: o.path } stmt).bind fun _ => outlineStatements_covers n o (i + 1) rest

include hlater

theorem outlineStatements_awaits (o : OutlineContext) {t t' : OutlineState} {b : Unit} {marks : List Mark} :
    ∀ {i body}, outlineStatements outlineStmt o i body t = .ok (b, t', marks) →
      ∀ token ∈ starts o.path i body, ∃ node ∈ t'.pending, token = .start (FunctionNode.id node) := by
  intro i body hrun
  induction body generalizing i t marks with
  | nil => exact nofun
  | cons stmt rest ih =>
    obtain ⟨⟨⟩, t₁, marks₁, marks₂, h₁, h₂, rfl⟩ := bind_ok.mp hrun
    intro token htoken
    cases stmt with
    | function isStatic isAsync isPrivate identifier arguments body =>
      rcases List.mem_cons.mp htoken with rfl | htoken
      · obtain ⟨node, hnode, hid⟩ := hlater _ _ _ _ _ _ _ _ _ _ _ h₁
        have hkept := (outlineStatements_covers hstmt 0 o (i + 1) rest _ _ _ _ (Nat.zero_le _) h₂).pending
        exact ⟨node, hkept node hnode, by rw [hid]⟩
      · exact ih h₂ token htoken
    | expression | var | loop | block | conditional | tryCatch => exact ih h₂ token htoken

theorem outlineBody_covers (n : ℕ) (o : OutlineContext) (body : Body) :
    Covers n o.loopEnds (declaredIn o.path 0 body) (outlineBody outlineStmt o body) := by
  intro t b t' marks hn hrun
  have hboth := (hoists_covers n o.loopEnds o.path 0 body).bind fun _ =>
    (outlineStatements_covers hstmt n o 0 body).weaken
      fun token => List.mem_append_right (starts o.path 0 body)
  obtain ⟨hoperands, hpending, hstatics, hcounts, hnumbers, hcomplete⟩ := hboth t b t' marks hn hrun
  refine ⟨fun m hm => ?_, hpending, hstatics, hcounts, hnumbers, hcomplete⟩
  obtain ⟨⟨⟩, t₁, marks₁, marks₂, h₁, h₂, rfl⟩ := bind_ok.mp hrun
  rcases hoperands m hm with hmem | hrest
  · rcases List.mem_append.mp hmem with hmem | hmem
    · exact Or.inr (Or.inr (Or.inl (outlineStatements_awaits hstmt hlater o h₂ _ hmem)))
    · exact Or.inl hmem
  · exact Or.inr hrest

theorem outlineLoop_covers (n : ℕ) (o : OutlineContext) (condition : Option Expr) (body : Body) :
    Covers n o.loopEnds (declaredIn o.path 0 body) (outlineLoop outlineStmt o condition body) := by
  refine Covers.fresh fun k₁ h₁ => Covers.fresh fun k₂ h₂ => Covers.fresh fun k₃ h₃ => ?_
  have hbody := outlineBody_covers hstmt hlater k₃
    { o with loopEnds := .generated ".lend_" k₂ :: o.loopEnds } body
  refine Covers.discharge [.generated ".lend_" k₂, .generated ".lstart_" k₁, .generated ".lcond_" k₃] ?_ ?_
  · refine Covers.subset ((Covers.jump (by simp)).bind fun _ =>
      (Covers.label (numbered (h₂.trans h₃))).bind fun _ => (hbody.weaken ?_).bind fun _ =>
      (Covers.label (numbered (Nat.le_refl _))).bind fun _ => Covers.ite
        ((Covers.jump (by simp)).bind fun _ => Covers.label (numbered h₃)) (Covers.label (numbered h₃)))
      fun f hf => by simpa using hf
    intro token htoken
    rcases List.mem_cons.mp htoken with rfl | htoken
    · exact List.mem_cons_self
    · exact List.mem_append_right _ htoken
  · have hend : Always (.generated ".lend_" k₂) (mark (.label (.generated ".lend_" k₂))) := .self _
    refine List.forall_mem_cons.mpr ⟨?_, List.forall_mem_cons.mpr ⟨?_, List.forall_mem_singleton.mpr ?_⟩⟩
    · refine .there fun _ => .there fun _ => .there fun _ => .there fun _ => ?_
      exact .ite (.there fun _ => hend) hend
    · exact .there fun _ => (Always.self _).here
    · exact .there fun _ => .there fun _ => .there fun _ => (Always.self _).here

theorem outlineConditional_covers (n : ℕ) (o : OutlineContext) (condition : Expr) (body : Body)
    (elseBody : Option Body) :
    Covers n o.loopEnds (declared o.path (.conditional condition body elseBody))
      (outlineConditional outlineStmt o body elseBody) := by
  refine Covers.fresh fun k₁ h₁ => Covers.fresh fun k₂ h₂ => ?_
  have hbody : ∀ i body, Covers k₂ ([Token.generated ".else_" k₁, Token.generated ".end_cond_" k₂] ++ o.loopEnds)
      (declaredIn (i :: o.path) 0 body) (outlineBody outlineStmt { o with path := i :: o.path } body) :=
    fun i body => (outlineBody_covers hstmt hlater k₂ { o with path := i :: o.path } body).weaken
      fun token => List.mem_append_right _
  have hfail : Covers k₂ ([Token.generated ".else_" k₁, Token.generated ".end_cond_" k₂] ++ o.loopEnds) []
      (mark (.label (.generated ".else_" k₁))) := .label (numbered h₂)
  have hend : Covers k₂ ([Token.generated ".else_" k₁, Token.generated ".end_cond_" k₂] ++ o.loopEnds) []
      (mark (.label (.generated ".end_cond_" k₂))) := .label (numbered (Nat.le_refl _))
  refine Covers.discharge [.generated ".else_" k₁, .generated ".end_cond_" k₂] ?_ ?_
  · cases elseBody with
    | none =>
      refine Covers.subset ((Covers.jump (by simp)).bind fun _ => (hbody 0 body).bind fun _ =>
        hfail.bind fun _ => hend) fun f hf => ?_
      rw [declared] at hf
      simpa using hf
    | some elseBody =>
      refine Covers.subset ((Covers.jump (by simp)).bind fun _ => (hbody 0 body).bind fun _ =>
        (Covers.jump (by simp)).bind fun _ => hfail.bind fun _ => (hbody 1 elseBody).bind fun _ => hend)
        fun f hf => ?_
      rw [declared] at hf
      simpa using hf
  · refine List.forall_mem_cons.mpr ⟨?_, List.forall_mem_singleton.mpr ?_⟩
    · refine .there fun _ => .there fun _ => ?_
      cases elseBody with
      | none => exact (Always.self _).here
      | some elseBody => exact .there fun _ => (Always.self _).here
    · refine .there fun _ => .there fun _ => ?_
      cases elseBody with
      | none => exact .there fun _ => .self _
      | some elseBody => exact .there fun _ => .there fun _ => .there fun _ => .self _

theorem outlineTryCatch_covers (n : ℕ) (o : OutlineContext) (catchIdent : String) (tryBody catchBody : Body)
    (finallyBody : Option Body) :
    Covers n o.loopEnds (declared o.path (.tryCatch catchIdent tryBody catchBody finallyBody))
      (outlineTryCatch outlineStmt o tryBody catchBody finallyBody) := by
  refine Covers.fresh fun k₁ h₁ => Covers.fresh fun k₂ h₂ => ?_
  have hbody : ∀ i body, Covers k₂ ([Token.generated ".catch_" k₁, Token.generated ".finally_" k₂] ++ o.loopEnds)
      (declaredIn (i :: o.path) 0 body) (outlineBody outlineStmt (tryOutline o i finallyBody) body) :=
    fun i body => (outlineBody_covers hstmt hlater k₂ (tryOutline o i finallyBody) body).weaken
      fun token => List.mem_append_right _
  have hcatch : Covers k₂ ([Token.generated ".catch_" k₁, Token.generated ".finally_" k₂] ++ o.loopEnds) []
      (mark (.label (.generated ".catch_" k₁))) := .label (numbered h₂)
  have hfinally : Covers k₂ ([Token.generated ".catch_" k₁, Token.generated ".finally_" k₂] ++ o.loopEnds) []
      (mark (.label (.generated ".finally_" k₂))) := .label (numbered (Nat.le_refl _))
  refine Covers.discharge [.generated ".catch_" k₁, .generated ".finally_" k₂] ?_ ?_
  · cases finallyBody with
    | none =>
      refine Covers.subset ((Covers.jump (by simp)).bind fun _ => (hbody 0 tryBody).bind fun _ =>
        (Covers.jump (by simp)).bind fun _ => hcatch.bind fun _ => (hbody 1 catchBody).bind fun _ =>
        hfinally.bind fun _ => .pure ()) fun f hf => ?_
      rw [declared] at hf
      simpa using hf
    | some body =>
      refine Covers.subset ((Covers.jump (by simp)).bind fun _ => (hbody 0 tryBody).bind fun _ =>
        (Covers.jump (by simp)).bind fun _ => hcatch.bind fun _ => (hbody 1 catchBody).bind fun _ =>
        hfinally.bind fun _ => hbody 2 body) fun f hf => ?_
      rw [declared] at hf
      simpa using hf
  · refine List.forall_mem_cons.mpr ⟨?_, List.forall_mem_singleton.mpr ?_⟩
    · exact .there fun _ => .there fun _ => .there fun _ => (Always.self _).here
    · exact .there fun _ => .there fun _ => .there fun _ => .there fun _ => .there fun _ =>
        (Always.self _).here

theorem outlineReturn_covers (n : ℕ) (o : OutlineContext) :
    Covers n o.loopEnds [] (outlineReturn outlineStmt o) := by
  have hblocks : ∀ blocks : List (List ℕ × Body), Covers n o.loopEnds [] (forEach (fun block =>
      outlineBody outlineStmt { o with path := block.1, addressed := false } block.2) blocks) := by
    intro blocks
    induction blocks with
    | nil => exact .pure ()
    | cons block blocks ih =>
      have hblock := outlineBody_covers hstmt hlater n { o with path := block.1, addressed := false } block.2
      exact (hblock.subset (F := []) nofun).bind fun _ => ih
  exact hblocks o.finallyBlocks

end

theorem outlineBreak_covers (n : ℕ) (o : OutlineContext) : Covers n o.loopEnds [] (outlineBreak o) := by
  obtain ⟨path, addressed, loopEnds, finallyBlocks⟩ := o
  cases loopEnds with
  | nil =>
    intro t b t' marks hn hrun
    cases hrun
  | cons lend outer => exact .jump List.mem_cons_self

theorem outlineStmt_later (fuel : ℕ) (o : OutlineContext) (isStatic isAsync isPrivate : Bool)
    (identifier : String) (arguments : List String) (body : Body) (t : OutlineState) (b : Unit)
    (t' : OutlineState) (marks : List Mark)
    (h : outlineStmt fuel o (.function isStatic isAsync isPrivate identifier arguments body) t =
      .ok (b, t', marks)) : ∃ node ∈ t'.pending, FunctionNode.id node = (o.path, identifier) := by
  cases fuel with
  | zero => cases h
  | succ fuel =>
    cases h
    exact ⟨_, List.mem_append_right _ List.mem_cons_self, rfl⟩

theorem outlineStmt_covers (fuel n : ℕ) (o : OutlineContext) (stmt : Stmt) :
    Covers n o.loopEnds (declared o.path stmt) (outlineStmt fuel o stmt) := by
  induction fuel generalizing n o stmt with
  | zero =>
    intro t b t' marks hn hrun
    cases hrun
  | succ fuel ih =>
    have hlater := outlineStmt_later fuel
    cases stmt with
    | expression e hasReturn hasBreak =>
      have hreturn : Covers n o.loopEnds []
          (if hasReturn then outlineReturn (outlineStmt fuel) o else pure ()) :=
        .ite (outlineReturn_covers ih hlater n o) (.pure ())
      rw [declared]
      exact Covers.ite ((outlineBreak_covers n o).bind fun _ => hreturn) hreturn
    | function isStatic isAsync isPrivate identifier arguments body =>
      intro t b t' marks hn hrun
      cases hrun
      refine ⟨nofun, fun node => List.mem_append_left _, fun _ => Or.inl, Nat.le_refl _, nofun, fun f hf => ?_⟩
      right
      refine ⟨_, List.mem_append_right _ List.mem_cons_self, ?_⟩
      rw [declared] at hf
      exact hf
    | var =>
      rw [declared]
      exact .pure ()
    | loop =>
      rw [declared]
      exact outlineLoop_covers ih hlater n o _ _
    | block =>
      rw [declared]
      exact outlineBody_covers ih hlater n o _
    | conditional => exact outlineConditional_covers ih hlater n o _ _ _
    | tryCatch => exact outlineTryCatch_covers ih hlater n o _ _ _ _

/-- Functions compile to closed code, and leave nothing waiting. -/
def Closes {β : Type} (n : ℕ) (declared : List FunctionId) (m : Outlining β) : Prop :=
  ∀ t b t' marks, n ≤ t.labelCount → m t = .ok (b, t', marks) → Covered [] declared [] t t' marks

theorem forEach_closes {n : ℕ} {outlineFunction : FunctionNode → Outlining Unit}
    (hfunction : ∀ node, Closes n (nodeFunctions node) (outlineFunction node)) : ∀ nodes,
    Closes n (nodes.flatMap nodeFunctions) (forEach outlineFunction nodes)
  | [] => by
    intro t b t' marks _ hrun
    obtain ⟨-, rfl, rfl⟩ := pure_ok.mp hrun
    exact ⟨nofun, fun _ => id, fun _ => Or.inl, Nat.le_refl _, nofun, nofun⟩
  | node :: nodes => by
    intro t b t' marks hn hrun
    obtain ⟨⟨⟩, t₁, marks₁, marks₂, h₁, h₂, rfl⟩ := bind_ok.mp hrun
    have hfirst := hfunction node _ _ _ _ hn h₁
    have hrest := forEach_closes hfunction nodes _ _ _ _ (hn.trans hfirst.counts) h₂
    exact hfirst.append hrest nofun

theorem outlineRest_closes {n fuel : ℕ} {outlineFunction : FunctionNode → Outlining Unit} {f : FunctionId}
    {addressed : Bool} {body : Body} {t t' : OutlineState} {b : Unit} {marks : List Mark}
    (hfunction : ∀ node, Closes n (nodeFunctions node) (outlineFunction node)) (hn : n ≤ t.labelCount)
    (hrun : outlineRest fuel outlineFunction f addressed body t = .ok (b, t', marks)) :
    Covered [] (declaredIn f.1 0 body) [] t t' marks ∧ .label (.stop f) ∈ marks := by
  obtain ⟨⟨⟩, t₁, marks₁, d₁, hbody, hrun₁, rfl⟩ := bind_ok.mp hrun
  obtain ⟨⟨⟩, t₂, marks₂, d₂, hlabel, hrun₂, rfl⟩ := bind_ok.mp hrun₁
  obtain ⟨functions, t₃, marks₃, d₃, hremaining, hrest, rfl⟩ := bind_ok.mp hrun₂
  cases hlabel
  cases hremaining
  have h₁ := outlineBody_covers (outlineStmt_covers fuel) (outlineStmt_later fuel) n
    ⟨f.1, addressed, [], []⟩ body _ _ _ _ hn hbody
  have h₂ := forEach_closes hfunction _ _ _ _ _ (hn.trans h₁.counts) hrest
  have hcompiled : ∀ node ∈ t₁.pending, ∀ g ∈ nodeFunctions node, Compiled d₃ g := by
    intro node hnode g hg
    rcases h₂.complete g (List.mem_flatMap.mpr ⟨node, hnode, hg⟩) with hcompiled | ⟨_, hnone, -⟩
    · exact hcompiled
    · cases hnone
  have hlast : ∀ m ∈ d₃, m ∈ marks₁ ++ ([Mark.label (.stop f)] ++ ([] ++ d₃)) := by
    intro m hm
    simp [hm]
  have hfirst : ∀ m ∈ marks₁, m ∈ marks₁ ++ ([Mark.label (.stop f)] ++ ([] ++ d₃)) :=
    fun _ => List.mem_append_left _
  have hstop : Mark.label (.stop f) ∈ marks₁ ++ ([Mark.label (.stop f)] ++ ([] ++ d₃)) := by simp
  refine ⟨⟨fun m hm => ?_, fun node hnode => h₂.pending _ (h₁.pending _ hnode), fun g hg => ?_,
    h₁.counts.trans h₂.counts, fun stem k hlabel => ?_, fun g hg => ?_⟩, hstop⟩
  · simp only [List.mem_append, List.mem_singleton, List.nil_append] at hm
    rcases hm with hm | rfl | hm
    · rcases h₁.operands m hm with hend | hlabel | ⟨node, hnode, heq⟩ | hstatic
      · cases hend
      · exact Or.inr (Or.inl (hfirst _ hlabel))
      · rw [heq]
        exact Or.inr (Or.inl (hlast _ (hcompiled node hnode _ List.mem_cons_self).label))
      · exact Or.inr (Or.inr (Or.inr hstatic))
    · exact Or.inr (Or.inl hstop)
    · rcases h₂.operands m hm with hend | hlabel | ⟨_, hnone, -⟩ | ⟨g, hg, heq⟩
      · cases hend
      · exact Or.inr (Or.inl (hlast _ hlabel))
      · cases hnone
      · rcases h₁.statics g hg with hg | hlabel
        · exact Or.inr (Or.inr (Or.inr ⟨g, hg, heq⟩))
        · rw [heq]
          exact Or.inr (Or.inl (hfirst _ hlabel))
  · rcases h₂.statics g hg with hg | hlabel
    · exact (h₁.statics g hg).imp_right (hfirst _)
    · exact Or.inr (hlast _ hlabel)
  · simp only [List.mem_append, List.mem_singleton, List.nil_append] at hlabel
    rcases hlabel with hlabel | hlabel | hlabel
    · exact (h₁.numbers _ _ hlabel).trans h₂.counts
    · cases hlabel
    · exact h₂.numbers _ _ hlabel
  · left
    rcases h₁.complete g hg with hcompiled' | ⟨node, hnode, hmem⟩
    · exact hcompiled'.mono hfirst
    · exact (hcompiled node hnode g hmem).mono hlast

theorem referStatics_runs {t t' : OutlineState} {b : Unit} {marks : List Mark}
    (h : referStatics t = .ok (b, t', marks)) :
    t' = t ∧ ∀ m ∈ marks, ∃ f ∈ t.statics, m = .refer (.start f) := by
  have hloop : ∀ (functions : List FunctionId) {t t' : OutlineState} {b : Unit} {marks : List Mark},
      forEach (fun f => mark (.refer (.start f))) functions t = .ok (b, t', marks) →
      t' = t ∧ ∀ m ∈ marks, ∃ f ∈ functions, m = .refer (.start f) := by
    intro functions
    induction functions with
    | nil =>
      intro t t' b marks hrun
      obtain ⟨-, rfl, rfl⟩ := pure_ok.mp hrun
      exact ⟨rfl, nofun⟩
    | cons f functions ih =>
      intro t t' b marks hrun
      obtain ⟨⟨⟩, t₁, marks₁, marks₂, h₁, h₂, rfl⟩ := bind_ok.mp hrun
      cases h₁
      obtain ⟨rfl, hrest⟩ := ih h₂
      refine ⟨rfl, fun m hm => ?_⟩
      rcases List.mem_cons.mp hm with rfl | hm
      · exact ⟨f, List.mem_cons_self, rfl⟩
      · obtain ⟨g, hg, rfl⟩ := hrest m hm
        exact ⟨g, List.mem_cons_of_mem _ hg, rfl⟩
  obtain ⟨functions, t₁, marks₁, marks₂, h₁, h₂, rfl⟩ := bind_ok.mp h
  cases h₁
  exact hloop _ h₂

theorem framed_covered {f : FunctionId} {F : List FunctionId} {t t₁ t' : OutlineState}
    {p rest : List Mark}
    (hprologue : ∀ m ∈ p, ∃ g, m = .refer (.start g) ∧ (g = f ∨ g ∈ t.statics))
    (hown : f.1 ≠ [] → .refer (.start f) ∈ p)
    (hstatics : ∀ g ∈ t₁.statics, g ∈ t.statics ∨ g = f) (hpending : t₁.pending = t.pending)
    (hcount : t₁.labelCount = t.labelCount) (hrest : Covered [] F [] t₁ t' rest)
    (hstop : .label (.stop f) ∈ rest) :
    Covered [] (f :: F) [] t t' (.label (.start f) :: .frame (.stop f) :: (p ++ rest)) := by
  have hin : ∀ m ∈ rest, m ∈ .label (.start f) :: .frame (.stop f) :: (p ++ rest) := by
    intro m hm
    simp [hm]
  have hstart : .label (.start f) ∈ .label (.start f) :: .frame (.stop f) :: (p ++ rest) :=
    List.mem_cons_self
  have hname : ∀ g, g = f ∨ g ∈ t.statics →
      .label (.start g) ∈ .label (.start f) :: .frame (.stop f) :: (p ++ rest) ∨ g ∈ t.statics := by
    rintro g (rfl | hg)
    · exact Or.inl hstart
    · exact Or.inr hg
  have hoperand : ∀ g, g = f ∨ g ∈ t.statics →
      .label (.start g) ∈ .label (.start f) :: .frame (.stop f) :: (p ++ rest) ∨
        (∃ node ∈ ([] : List FunctionNode), Token.start g = .start (FunctionNode.id node)) ∨
        ∃ h ∈ t.statics, Token.start g = .start h :=
    fun g hg => (hname g hg).imp_right fun hg => Or.inr ⟨g, hg, rfl⟩
  refine ⟨fun m hm => ?_, fun node hnode => hrest.pending _ (hpending ▸ hnode), fun g hg => ?_,
    hcount ▸ hrest.counts, fun stem k hlabel => ?_, fun g hg => ?_⟩
  · right
    simp only [List.mem_cons, List.mem_append] at hm
    rcases hm with rfl | rfl | hm | hm
    · exact Or.inl hstart
    · exact Or.inl (hin _ hstop)
    · obtain ⟨g, rfl, hg⟩ := hprologue m hm
      exact hoperand g hg
    · rcases hrest.operands m hm with hend | hlabel | ⟨_, hnone, -⟩ | ⟨g, hg, heq⟩
      · cases hend
      · exact Or.inl (hin _ hlabel)
      · cases hnone
      · rw [heq]
        exact hoperand g (hstatics g hg).symm
  · rcases hrest.statics g hg with hg | hlabel
    · exact (hname g (hstatics g hg).symm).symm
    · exact Or.inr (hin _ hlabel)
  · simp only [List.mem_cons, List.mem_append] at hlabel
    rcases hlabel with hlabel | hlabel | hlabel | hlabel
    · cases hlabel
    · cases hlabel
    · obtain ⟨g, hg, -⟩ := hprologue _ hlabel
      cases hg
    · exact hrest.numbers _ _ hlabel
  · left
    rcases List.mem_cons.mp hg with rfl | hg
    · refine ⟨hstart, List.mem_cons_of_mem _ List.mem_cons_self, fun hg => ?_⟩
      exact List.mem_cons_of_mem _ (List.mem_cons_of_mem _ (List.mem_append_left _ (hown hg)))
    · rcases hrest.complete g hg with hcompiled | ⟨_, hnone, -⟩
      · exact hcompiled.mono hin
      · cases hnone

theorem prologue_runs {node : FunctionNode} {rest : Outlining Unit} {t t' : OutlineState} {b : Unit}
    {marks : List Mark}
    (h : (if node.identifier = "__static__constructor__" then referStatics >>= fun _ => rest
      else if node.isStatic then registerStatic (FunctionNode.id node) >>= fun _ => rest
      else rest) t = .ok (b, t', marks)) :
    ∃ t₁ prologue marks', rest t₁ = .ok (b, t', marks') ∧ marks = prologue ++ marks' ∧
      (∀ m ∈ prologue, ∃ g ∈ t.statics, m = .refer (.start g)) ∧
      (∀ g ∈ t₁.statics, g ∈ t.statics ∨ g = FunctionNode.id node) ∧ t₁.pending = t.pending ∧
      t₁.labelCount = t.labelCount := by
  split at h
  · obtain ⟨⟨⟩, t₁, prologue, marks', h₁, h₂, rfl⟩ := bind_ok.mp h
    obtain ⟨rfl, hmarks⟩ := referStatics_runs h₁
    exact ⟨_, _, _, h₂, rfl, hmarks, fun g => Or.inl, rfl, rfl⟩
  · split at h
    · obtain ⟨⟨⟩, t₁, prologue, marks', h₁, h₂, rfl⟩ := bind_ok.mp h
      cases h₁
      refine ⟨_, _, _, h₂, rfl, nofun, fun g hg => ?_, rfl, rfl⟩
      exact (List.mem_append.mp hg).imp_right List.mem_singleton.mp
    · exact ⟨_, [], _, h, rfl, nofun, fun g => Or.inl, rfl, rfl⟩

theorem outlineFunction_closes (fuel n : ℕ) (node : FunctionNode) :
    Closes n (nodeFunctions node) (outlineFunction fuel node) := by
  induction fuel generalizing n node with
  | zero =>
    intro t b t' marks hn hrun
    cases hrun
  | succ fuel ih =>
    intro t b t' marks hn hrun
    unfold outlineFunction inFunction at hrun
    split at hrun
    · cases hrun
    · rename_i t₁ code hbody
      cases hrun
      obtain ⟨⟨⟩, s₁, _, d₁, hstart, hrun₁, rfl⟩ := bind_ok.mp hbody
      obtain ⟨⟨⟩, s₂, _, d₂, hframe, hrun₂, rfl⟩ := bind_ok.mp hrun₁
      obtain ⟨⟨⟩, s₃, _, d₃, hown, hrun₃, rfl⟩ := bind_ok.mp hrun₂
      obtain ⟨s₄, marks₄, d₄, hrest, rfl, hmarks, hstatics, hpending, hcount⟩ := prologue_runs hrun₃
      cases hstart
      cases hframe
      cases hown
      have hclosed := outlineRest_closes (ih n) (le_of_le_of_eq hn hcount.symm) hrest
      have hcovered := framed_covered (f := FunctionNode.id node) (t := { t with pending := [] })
        (p := .refer (.start (FunctionNode.id node)) :: marks₄) (fun m hm => ?_)
        (fun _ => List.mem_cons_self) hstatics hpending hcount hclosed.1 hclosed.2
      · exact ⟨hcovered.operands, fun _ => id, hcovered.statics, hcovered.counts, hcovered.numbers,
          hcovered.complete⟩
      · rcases List.mem_cons.mp hm with rfl | hm
        · exact ⟨_, rfl, Or.inl rfl⟩
        · obtain ⟨g, hg, rfl⟩ := hmarks m hm
          exact ⟨g, rfl, Or.inr hg⟩

theorem outlineClass_closes {fuel : ℕ} {cls : ClassDeclaration} {t : OutlineState} {marks : List Mark}
    (h : outlineClass fuel cls {} = .ok ((), t, marks)) :
    Covered [] (functionsOf cls) [] {} t marks := by
  obtain ⟨⟨⟩, s₁, _, d₁, hstart, hrun₁, rfl⟩ := bind_ok.mp h
  obtain ⟨⟨⟩, s₂, _, d₂, hframe, hrest, rfl⟩ := bind_ok.mp hrun₁
  cases hstart
  cases hframe
  have hclosed := outlineRest_closes (outlineFunction_closes fuel 0) (Nat.zero_le _) hrest
  exact framed_covered (f := ([], cls.identifier)) (p := []) nofun (fun hne => absurd rfl hne)
    (fun _ => Or.inl) rfl rfl hclosed.1 hclosed.2

def IsStem (stem : String) : Prop :=
  stem.length ≤ 20 ∧ stem.toList.head? = some '.' ∧ ∀ c ∈ stem.toList, c.isDigit = false

instance (stem : String) : Decidable (IsStem stem) :=
  have : Decidable (∀ c ∈ stem.toList, c.isDigit = false) := List.decidableBAll _ _
  inferInstanceAs (Decidable (_ ≤ _ ∧ _ ∧ _))

/-- The marks after the first label: labels and operands of the functions of a class, and of its loops and
branches. -/
inductive Named (F : List FunctionId) : Mark → Prop where
  | start {f : FunctionId} (h : f.1 ≠ []) (hf : f ∈ F) : Named F (.label (.start f))
  | stop {f : FunctionId} (hf : f ∈ F) : Named F (.label (.stop f))
  | generated {stem : String} {n : ℕ} (h : IsStem stem) : Named F (.label (.generated stem n))
  | jump {stem : String} {n : ℕ} : Named F (.jump (.generated stem n))
  | refer {f : FunctionId} (h : f.1 ≠ []) : Named F (.refer (.start f))
  | frame {f : FunctionId} : Named F (.frame (.stop f))

structure Known (F : List FunctionId) (t : OutlineState) : Prop where
  pending : ∀ node ∈ t.pending, node.path ≠ [] ∧ ∀ f ∈ nodeFunctions node, f ∈ F
  statics : ∀ f ∈ t.statics, f.1 ≠ []

structure Inside (F : List FunctionId) (o : OutlineContext) : Prop where
  loopEnds : ∀ token ∈ o.loopEnds, ∃ stem n, token = .generated stem n
  finallyBlocks : ∀ block ∈ o.finallyBlocks, ∀ f ∈ declaredIn block.1 0 block.2, f ∈ F

abbrev Names (F : List FunctionId) {β : Type} (m : Outlining β) : Prop :=
  Emits (Known F) (Named F) m fun _ => True

section

variable {F : List FunctionId}

theorem mark_names {m : Mark} (h : Named F m) : Names F (mark m) := by
  intro t b t' marks ht hrun
  cases hrun
  refine ⟨ht, fun m' hm' => ?_, trivial⟩
  obtain rfl := List.mem_singleton.mp hm'
  exact h

theorem fresh_names {stem : String} (hstem : IsStem stem) :
    Emits (Known F) (Named F) (fresh stem) fun token => Named F (.label token) ∧ Named F (.jump token) ∧
      ∃ stem n, token = .generated stem n := by
  intro t b t' marks ht hrun
  cases hrun
  exact ⟨⟨ht.pending, ht.statics⟩, nofun, .generated hstem, .jump, _, _, rfl⟩

theorem forEach_names {γ : Type} {f : γ → Outlining Unit} : ∀ {xs : List γ}, (∀ x ∈ xs, Names F (f x)) →
    Names F (forEach f xs)
  | [], _ => .pure trivial
  | x :: _, hf => (hf x List.mem_cons_self).bind fun _ _ =>
    forEach_names fun y hy => hf y (List.mem_cons_of_mem x hy)

theorem hoists_names (path : List ℕ) : ∀ i body, Names F (hoists path i body)
  | _, [] => .pure trivial
  | i, .function _ _ _ _ _ _ :: rest =>
    (mark_names (.refer (List.cons_ne_nil _ _))).bind fun _ _ => hoists_names path (i + 1) rest
  | i, .expression _ _ _ _ :: rest | i, .var _ _ _ _ :: rest | i, .loop _ _ _ _ :: rest
  | i, .block _ :: rest | i, .conditional _ _ _ :: rest | i, .tryCatch _ _ _ _ :: rest =>
    hoists_names path (i + 1) rest

theorem outlineBreak_names {o : OutlineContext} (ho : Inside F o) : Names F (outlineBreak o) := by
  obtain ⟨path, addressed, loopEnds, finallyBlocks⟩ := o
  cases loopEnds with
  | nil => exact Emits.fail
  | cons lend outer =>
    obtain ⟨stem, n, rfl⟩ := ho.loopEnds lend List.mem_cons_self
    exact mark_names .jump

section

variable {outlineStmt : OutlineContext → Stmt → Outlining Unit}
  (hstmt : ∀ o stmt, Inside F o → o.path ≠ [] → (∀ f ∈ declared o.path stmt, f ∈ F) → Names F (outlineStmt o stmt))

include hstmt

theorem outlineStatements_names {o : OutlineContext} (ho : Inside F o) : ∀ {i body},
    (∀ f ∈ declaredIn o.path i body, f ∈ F) → Names F (outlineStatements outlineStmt o i body)
  | _, [], _ => .pure trivial
  | i, stmt :: rest, hF => by
    rw [declaredIn] at hF
    have hfirst := hstmt { o with path := i :: o.path } stmt ⟨ho.loopEnds, ho.finallyBlocks⟩
      (List.cons_ne_nil _ _) fun f hf => hF f (List.mem_append_left _ hf)
    exact hfirst.bind fun _ _ => outlineStatements_names ho fun f hf => hF f (List.mem_append_right _ hf)

theorem outlineBody_names {o : OutlineContext} (ho : Inside F o) {body : Body}
    (hF : ∀ f ∈ declaredIn o.path 0 body, f ∈ F) : Names F (outlineBody outlineStmt o body) :=
  (hoists_names o.path 0 body).bind fun _ _ => outlineStatements_names hstmt ho hF

theorem outlineLoop_names {o : OutlineContext} (ho : Inside F o) (condition : Option Expr) {body : Body}
    (hF : ∀ f ∈ declaredIn o.path 0 body, f ∈ F) : Names F (outlineLoop outlineStmt o condition body) := by
  refine (fresh_names (by decide)).bind fun lstart hstart => (fresh_names (by decide)).bind fun lend hend =>
    (fresh_names (by decide)).bind fun lcond hcond => ?_
  have hinner : Inside F { o with loopEnds := lend :: o.loopEnds } :=
    ⟨List.forall_mem_cons.mpr ⟨hend.2.2, ho.loopEnds⟩, ho.finallyBlocks⟩
  refine (mark_names hcond.2.1).bind fun _ _ => (mark_names hstart.1).bind fun _ _ => ?_
  refine (outlineBody_names hstmt hinner hF).bind fun _ _ => (mark_names hcond.1).bind fun _ _ => ?_
  exact Emits.ite (fun _ => (mark_names hstart.2.1).bind fun _ _ => mark_names hend.1) fun _ => mark_names hend.1

theorem outlineConditional_names {o : OutlineContext} (ho : Inside F o) {condition : Expr} {body : Body}
    {elseBody : Option Body} (hF : ∀ f ∈ declared o.path (.conditional condition body elseBody), f ∈ F) :
    Names F (outlineConditional outlineStmt o body elseBody) := by
  refine (fresh_names (by decide)).bind fun ifFail hfail => (fresh_names (by decide)).bind fun conEnd hend => ?_
  have hinner : ∀ i, Inside F { o with path := i :: o.path } := fun i => ⟨ho.loopEnds, ho.finallyBlocks⟩
  refine (mark_names hfail.2.1).bind fun _ _ => ?_
  cases elseBody with
  | none =>
    rw [declared] at hF
    refine (outlineBody_names hstmt (hinner 0) hF).bind fun _ _ => ?_
    exact (mark_names hfail.1).bind fun _ _ => mark_names hend.1
  | some elseBody =>
    rw [declared] at hF
    refine (outlineBody_names hstmt (hinner 0) fun f hf => hF f (List.mem_append_left _ hf)).bind fun _ _ => ?_
    refine (mark_names hend.2.1).bind fun _ _ => (mark_names hfail.1).bind fun _ _ => ?_
    refine (outlineBody_names hstmt (hinner 1) fun f hf => hF f (List.mem_append_right _ hf)).bind fun _ _ => ?_
    exact mark_names hend.1

theorem outlineTryCatch_names {o : OutlineContext} (ho : Inside F o) {catchIdent : String}
    {tryBody catchBody : Body} {finallyBody : Option Body}
    (hF : ∀ f ∈ declared o.path (.tryCatch catchIdent tryBody catchBody finallyBody), f ∈ F) :
    Names F (outlineTryCatch outlineStmt o tryBody catchBody finallyBody) := by
  refine (fresh_names (by decide)).bind fun catchToken hcatch => (fresh_names (by decide)).bind
    fun finallyToken hfinally => ?_
  have hbodies : (∀ f ∈ declaredIn (0 :: o.path) 0 tryBody, f ∈ F) ∧
      (∀ f ∈ declaredIn (1 :: o.path) 0 catchBody, f ∈ F) ∧
      ∀ body, finallyBody = some body → ∀ f ∈ declaredIn (2 :: o.path) 0 body, f ∈ F := by
    cases finallyBody with
    | none =>
      rw [declared] at hF
      exact ⟨fun f hf => hF f (List.mem_append_left _ hf), fun f hf => hF f (List.mem_append_right _ hf), nofun⟩
    | some body =>
      rw [declared] at hF
      refine ⟨fun f hf => hF f ?_, fun f hf => hF f ?_, fun _ heq f hf => hF f ?_⟩
      · exact List.mem_append_left _ (List.mem_append_left _ hf)
      · exact List.mem_append_left _ (List.mem_append_right _ hf)
      · cases heq
        exact List.mem_append_right _ hf
  obtain ⟨htry, hcatchBody, hfinallyBody⟩ := hbodies
  have hinner : ∀ i, Inside F (tryOutline o i finallyBody) := by
    refine fun i => ⟨ho.loopEnds, fun block hblock => ?_⟩
    rcases List.mem_append.mp hblock with hblock | hblock
    · exact ho.finallyBlocks block hblock
    · obtain ⟨body, hbody, rfl⟩ := Option.map_eq_some_iff.mp (Option.mem_toList.mp hblock)
      exact hfinallyBody body hbody
  refine (mark_names hcatch.2.1).bind fun _ _ => ?_
  refine (outlineBody_names hstmt (hinner 0) htry).bind fun _ _ => ?_
  refine (mark_names hfinally.2.1).bind fun _ _ => (mark_names hcatch.1).bind fun _ _ => ?_
  refine (outlineBody_names hstmt (hinner 1) hcatchBody).bind fun _ _ => ?_
  refine (mark_names hfinally.1).bind fun _ _ => ?_
  cases finallyBody with
  | none => exact .pure trivial
  | some body => exact outlineBody_names hstmt (hinner 2) (hfinallyBody body rfl)

theorem outlineReturn_names {o : OutlineContext} (ho : Inside F o) : Names F (outlineReturn outlineStmt o) :=
  forEach_names fun block hblock => outlineBody_names hstmt
    (o := { o with path := block.1, addressed := false }) ⟨ho.loopEnds, ho.finallyBlocks⟩
    (ho.finallyBlocks block hblock)

end

theorem outlineStmt_names (fuel : ℕ) {o : OutlineContext} {stmt : Stmt} (ho : Inside F o) (hpath : o.path ≠ [])
    (hF : ∀ f ∈ declared o.path stmt, f ∈ F) : Names F (outlineStmt fuel o stmt) := by
  induction fuel generalizing o stmt with
  | zero => exact Emits.fail
  | succ fuel ih =>
    have hstmt : ∀ o stmt, Inside F o → o.path ≠ [] → (∀ f ∈ declared o.path stmt, f ∈ F) →
        Names F (outlineStmt fuel o stmt) := fun _ _ => ih
    cases stmt with
    | expression e hasReturn hasBreak =>
      have hreturn : Names F (if hasReturn then outlineReturn (outlineStmt fuel) o else pure ()) :=
        Emits.ite (fun _ => outlineReturn_names hstmt ho) fun _ => .pure trivial
      exact Emits.ite (fun _ => (outlineBreak_names ho).bind fun _ _ => hreturn) fun _ => hreturn
    | function isStatic isAsync isPrivate identifier arguments body =>
      intro t b t' marks ht hrun
      cases hrun
      refine ⟨⟨fun node hnode => ?_, ht.statics⟩, nofun, trivial⟩
      rcases List.mem_append.mp hnode with hnode | hnode
      · exact ht.pending node hnode
      · obtain rfl := List.mem_singleton.mp hnode
        rw [declared] at hF
        exact ⟨hpath, hF⟩
    | var => exact .pure trivial
    | loop =>
      rw [declared] at hF
      exact outlineLoop_names hstmt ho _ hF
    | block =>
      rw [declared] at hF
      exact outlineBody_names hstmt ho hF
    | conditional => exact outlineConditional_names hstmt ho hF
    | tryCatch => exact outlineTryCatch_names hstmt ho hF

theorem outlineRest_names {fuel : ℕ} {outlineFunction : FunctionNode → Outlining Unit} {f : FunctionId}
    {addressed : Bool} {body : Body}
    (hfunction : ∀ node, node.path ≠ [] → (∀ g ∈ nodeFunctions node, g ∈ F) → Names F (outlineFunction node))
    (hf : f ∈ F) (hF : ∀ g ∈ declaredIn f.1 0 body, g ∈ F) :
    Names F (outlineRest fuel outlineFunction f addressed body) := by
  have hinside : Inside F ⟨f.1, addressed, [], []⟩ := ⟨nofun, nofun⟩
  have hbody := outlineBody_names (fun _ _ => outlineStmt_names fuel) hinside hF
  refine hbody.bind fun _ _ => (mark_names (.stop hf)).bind fun _ _ => ?_
  refine Emits.bind (R := fun nodes => ∀ node ∈ nodes, node.path ≠ [] ∧ ∀ g ∈ nodeFunctions node, g ∈ F)
    (fun t b t' marks ht hrun => ?_) fun nodes hnodes => ?_
  · cases hrun
    exact ⟨ht, nofun, ht.pending⟩
  · exact forEach_names fun node hnode => hfunction node (hnodes node hnode).1 (hnodes node hnode).2

theorem referStatics_names : Names F referStatics := by
  refine Emits.bind (R := fun functions => ∀ f ∈ functions, f.1 ≠ [])
    (fun t b t' marks ht hrun => ?_) fun functions hfunctions => ?_
  · cases hrun
    exact ⟨ht, nofun, ht.statics⟩
  · exact forEach_names fun f hf => mark_names (.refer (hfunctions f hf))

theorem outlineFunction_names (fuel : ℕ) {node : FunctionNode} (hpath : node.path ≠ [])
    (hF : ∀ f ∈ nodeFunctions node, f ∈ F) : Names F (outlineFunction fuel node) := by
  induction fuel generalizing node with
  | zero => exact Emits.fail
  | succ fuel ih =>
    have hid : FunctionNode.id node ∈ F := hF _ List.mem_cons_self
    have hrest : Names F (outlineRest fuel (outlineFunction fuel) (FunctionNode.id node) node.addressed node.body) :=
      outlineRest_names (fun _ => ih) hid fun f hf => hF f (List.mem_cons_of_mem _ hf)
    have hregister : Names F (registerStatic (FunctionNode.id node)) := by
      intro t b t' marks ht hrun
      cases hrun
      refine ⟨⟨ht.pending, fun f hf => ?_⟩, nofun, trivial⟩
      rcases List.mem_append.mp hf with hf | hf
      · exact ht.statics f hf
      · rw [List.mem_singleton.mp hf]
        exact hpath
    have hframed : Names F (outlineFramed (FunctionNode.id node) (mark (.refer (.start (FunctionNode.id node))) >>=
        fun _ => if node.identifier = "__static__constructor__" then referStatics >>= fun _ =>
            outlineRest fuel (outlineFunction fuel) (FunctionNode.id node) node.addressed node.body
          else if node.isStatic then registerStatic (FunctionNode.id node) >>= fun _ =>
            outlineRest fuel (outlineFunction fuel) (FunctionNode.id node) node.addressed node.body
          else outlineRest fuel (outlineFunction fuel) (FunctionNode.id node) node.addressed node.body)) := by
      refine (mark_names (.start hpath hid)).bind fun _ _ => (mark_names .frame).bind fun _ _ => ?_
      refine (mark_names (.refer hpath)).bind fun _ _ => Emits.ite (fun _ => ?_) fun _ => ?_
      · exact referStatics_names.bind fun _ _ => hrest
      · exact Emits.ite (fun _ => hregister.bind fun _ _ => hrest) fun _ => hrest
    intro t b t' marks ht hrun
    unfold outlineFunction inFunction at hrun
    split at hrun
    · cases hrun
    · rename_i t₁ code hbody
      cases hrun
      have hempty : Known F { t with pending := [] } := ⟨fun _ h => absurd h List.not_mem_nil, ht.statics⟩
      obtain ⟨hend, hmarks, -⟩ := hframed _ _ _ _ hempty hbody
      exact ⟨⟨ht.pending, hend.statics⟩, hmarks, trivial⟩

end

theorem outlineClass_names {fuel : ℕ} {cls : ClassDeclaration} {t : OutlineState} {marks : List Mark}
    (h : outlineClass fuel cls {} = .ok ((), t, marks)) :
    ∃ rest, marks = .label (.start ([], cls.identifier)) :: rest ∧ ∀ m ∈ rest, Named (functionsOf cls) m := by
  obtain ⟨⟨⟩, s₁, _, d₁, hstart, hrest, rfl⟩ := bind_ok.mp h
  cases hstart
  have hnames : Names (functionsOf cls) (mark (.frame (.stop ([], cls.identifier))) >>= fun _ =>
      outlineRest fuel (outlineFunction fuel) ([], cls.identifier) true cls.body) := by
    refine (mark_names .frame).bind fun _ _ => ?_
    exact outlineRest_names (fun _ => outlineFunction_names fuel) List.mem_cons_self
      fun f hf => List.mem_cons_of_mem _ hf
  have hknown : Known (functionsOf cls) {} :=
    ⟨fun _ h => absurd h List.not_mem_nil, fun _ h => absurd h List.not_mem_nil⟩
  exact ⟨d₁, rfl, (hnames _ _ _ _ hknown hrest).2.1⟩

end Zeroscript.LabelNames
