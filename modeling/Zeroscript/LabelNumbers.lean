import Zeroscript.Resolution

/-! # The labels of a statement

The labels in the code of a statement are numbered, from the number that was next when its compilation
began. They are not among the labels that were given out before. -/
namespace Zeroscript.LabelNumbers

open Emission Outline LabelNames InstructionShapes Resolution
open StraightCode (label truncate_label)

def Above (n : ℕ) (m : Mark) : Prop :=
  ∀ token, m = .label token → ∃ stem k, token = .generated stem k ∧ IsStem stem ∧ n < k

abbrev Raises (n : ℕ) {β : Type} (m : Outlining β) (R : β → Prop) : Prop :=
  Emits (fun t : OutlineState => n ≤ t.labelCount) (Above n) m R

section

variable {n : ℕ}

theorem mark_raises {m : Mark} (h : Above n m) : Raises n (mark m) fun _ => True := by
  intro t b t' marks ht hrun
  cases hrun
  refine ⟨ht, ?_, trivial⟩
  intro m' hm'
  obtain rfl := List.mem_singleton.mp hm'
  exact h

theorem other_raises {m : Mark} (h : ∀ token, m ≠ .label token) : Raises n (mark m) fun _ => True := by
  apply mark_raises
  intro token hm
  exact absurd hm (h token)

theorem jump_raises (token : Token) : Raises n (mark (.jump token)) fun _ => True := by
  apply other_raises
  intro token' h
  cases h

theorem forEach_raises {γ : Type} {f : γ → Outlining Unit} (hf : ∀ x, Raises n (f x) fun _ => True) :
    ∀ xs, Raises n (forEach f xs) fun _ => True
  | [] => .pure trivial
  | x :: xs => (hf x).bind fun _ _ => forEach_raises hf xs

theorem fresh_raises {stem : String} (hstem : IsStem stem) :
    Raises n (fresh stem) fun token => Above n (.label token) := by
  intro t b t' marks ht hrun
  cases hrun
  refine ⟨Nat.le_succ_of_le ht, nofun, ?_⟩
  rintro token heq
  cases heq
  exact ⟨stem, t.labelCount + 1, rfl, hstem, Nat.lt_succ_of_le ht⟩

theorem hoists_raises (path : List ℕ) : ∀ i body, Raises n (hoists path i body) fun _ => True
  | _, [] => .pure trivial
  | i, .function _ _ _ _ _ _ :: rest => by
    refine Emits.bind (other_raises ?_) fun _ _ => hoists_raises path (i + 1) rest
    intro token h
    cases h
  | i, .expression _ _ _ _ :: rest | i, .var _ _ _ _ :: rest | i, .loop _ _ _ _ :: rest
  | i, .block _ :: rest | i, .conditional _ _ _ :: rest | i, .tryCatch _ _ _ _ :: rest =>
    hoists_raises path (i + 1) rest

theorem outlineBreak_raises (o : OutlineContext) : Raises n (outlineBreak o) fun _ => True := by
  unfold outlineBreak
  split
  · exact Emits.fail
  · exact jump_raises _

section

variable {outlineStmt : OutlineContext → Stmt → Outlining Unit}
  (hstmt : ∀ o stmt, Raises n (outlineStmt o stmt) fun _ => True)

include hstmt

theorem outlineStatements_raises (o : OutlineContext) :
    ∀ i body, Raises n (outlineStatements outlineStmt o i body) fun _ => True
  | _, [] => .pure trivial
  | i, stmt :: rest =>
    (hstmt { o with path := i :: o.path } stmt).bind fun _ _ => outlineStatements_raises o (i + 1) rest

theorem outlineBody_raises (o : OutlineContext) (body : Body) :
    Raises n (outlineBody outlineStmt o body) fun _ => True :=
  (hoists_raises o.path 0 body).bind fun _ _ => outlineStatements_raises hstmt o 0 body

theorem outlineLoop_raises (o : OutlineContext) (condition : Option Expr) (body : Body) :
    Raises n (outlineLoop outlineStmt o condition body) fun _ => True := by
  refine (fresh_raises (by decide)).bind fun lstart hstart => ?_
  refine (fresh_raises (by decide)).bind fun lend hend => ?_
  refine (fresh_raises (by decide)).bind fun lcond hcond => ?_
  refine (jump_raises lcond).bind fun _ _ => (mark_raises hstart).bind fun _ _ => ?_
  refine (outlineBody_raises hstmt _ body).bind fun _ _ => (mark_raises hcond).bind fun _ _ => ?_
  apply Emits.ite
  · intro _
    exact (jump_raises lstart).bind fun _ _ => mark_raises hend
  · intro _
    exact mark_raises hend

theorem outlineConditional_raises (o : OutlineContext) (body : Body) (elseBody : Option Body) :
    Raises n (outlineConditional outlineStmt o body elseBody) fun _ => True := by
  refine (fresh_raises (by decide)).bind fun ifFail hfail => ?_
  refine (fresh_raises (by decide)).bind fun conEnd hend => ?_
  refine (jump_raises ifFail).bind fun _ _ => (outlineBody_raises hstmt _ body).bind fun _ _ => ?_
  cases elseBody with
  | none => exact (mark_raises hfail).bind fun _ _ => mark_raises hend
  | some elseBody =>
    refine (jump_raises conEnd).bind fun _ _ => (mark_raises hfail).bind fun _ _ => ?_
    exact (outlineBody_raises hstmt _ elseBody).bind fun _ _ => mark_raises hend

theorem outlineTryCatch_raises (o : OutlineContext) (tryBody catchBody : Body) (finallyBody : Option Body) :
    Raises n (outlineTryCatch outlineStmt o tryBody catchBody finallyBody) fun _ => True := by
  refine (fresh_raises (by decide)).bind fun catchToken hcatch => ?_
  refine (fresh_raises (by decide)).bind fun finallyToken hfinally => ?_
  refine (jump_raises catchToken).bind fun _ _ => (outlineBody_raises hstmt _ tryBody).bind fun _ _ => ?_
  refine (jump_raises finallyToken).bind fun _ _ => (mark_raises hcatch).bind fun _ _ => ?_
  refine (outlineBody_raises hstmt _ catchBody).bind fun _ _ => (mark_raises hfinally).bind fun _ _ => ?_
  cases finallyBody with
  | none => exact .pure trivial
  | some body => exact outlineBody_raises hstmt _ body

theorem outlineReturn_raises (o : OutlineContext) : Raises n (outlineReturn outlineStmt o) fun _ => True := by
  unfold outlineReturn
  apply forEach_raises
  intro block
  exact outlineBody_raises hstmt _ block.2

end

theorem outlineStmt_raises (fuel : ℕ) (o : OutlineContext) (stmt : Stmt) :
    Raises n (outlineStmt fuel o stmt) fun _ => True := by
  induction fuel generalizing o stmt with
  | zero => exact Emits.fail
  | succ fuel ih =>
    cases stmt with
    | expression e hasReturn hasBreak =>
      have hreturn : Raises n (if hasReturn then outlineReturn (outlineStmt fuel) o else pure ())
          fun _ => True := Emits.ite (fun _ => outlineReturn_raises ih o) fun _ => .pure trivial
      apply Emits.ite
      · intro _
        exact (outlineBreak_raises o).bind fun _ _ => hreturn
      · intro _
        exact hreturn
    | function =>
      intro t b t' marks ht hrun
      cases hrun
      exact ⟨ht, nofun, trivial⟩
    | var => exact .pure trivial
    | loop => exact outlineLoop_raises ih o _ _
    | block => exact outlineBody_raises ih o _
    | conditional => exact outlineConditional_raises ih o _ _
    | tryCatch => exact outlineTryCatch_raises ih o _ _ _

end

/-- The label has one of the numbers that were given out between `lo` and `hi`. -/
def NumberedLabel (lo hi : ℕ) (text : String) : Prop :=
  ∃ stem k, IsStem stem ∧ lo < k ∧ k ≤ hi ∧ text = label stem k

def LabelsNumbered (lo hi : ℕ) (c : Code) : Prop :=
  ∀ text index, labelIndex c text = some index → NumberedLabel lo hi text

def outlineOf (context : Context) : OutlineContext :=
  ⟨context.path, context.addressed, context.loopEndLabels.map fun text => .start ([], text),
    context.finallyBlocks⟩

theorem contextOf_outlineOf (context : Context) : contextOf (outlineOf context) = context := by
  unfold contextOf outlineOf
  congr 1
  rw [List.map_map]
  exact List.map_id _

/-- The state of the outline that goes with a state of the compiler. -/
theorem exists_agree {s : CompilerState} (hs : Tidy s) : ∃ t, Outline.Agree s t := by
  refine ⟨⟨s.functionsToCompile, s.labelCount, s.compiledStaticFunctions.map fun name => ([], name)⟩,
    hs, rfl, rfl, ?_⟩
  rw [List.map_map]
  exact (List.map_id _).symm

theorem labels_numbered (m : Context → Compile Unit) (m' : OutlineContext → Outlining Unit)
    {context : Context} {s s' : CompilerState} {c : Code}
    (hfollows : ∀ o, Outline.Follows (m (contextOf o)) (m' o) fun _ _ => True)
    (hraises : ∀ n o, Raises n (m' o) fun _ => True) (hcovers : ∀ n o, ∃ F, Covers n o.loopEnds F (m' o))
    (hs : Tidy s) (hn : s'.labelCount < 2 ^ 31) (hrun : m context s = .ok ((), s', c)) :
    s.labelCount ≤ s'.labelCount ∧ LabelsNumbered s.labelCount s'.labelCount c := by
  obtain ⟨t, ht⟩ := exists_agree hs
  have hfollow := hfollows (outlineOf context)
  rw [contextOf_outlineOf] at hfollow
  obtain ⟨u, t', marks, hrun', ht', hlinks, -⟩ := hfollow s t () s' c ht hrun
  obtain ⟨-, habove, -⟩ := hraises t.labelCount (outlineOf context) t u t' marks (Nat.le_refl _) hrun'
  obtain ⟨F, hcover⟩ := hcovers t.labelCount (outlineOf context)
  have hcovered := hcover t u t' marks (Nat.le_refl _) hrun'
  rw [ht.labelCount, ht'.labelCount]
  refine ⟨hcovered.counts, ?_⟩
  intro text index hindex
  obtain ⟨i, hi, hopcode, hname⟩ := labelIndex_label hindex
  have hlink : link i = some (.label text) := by
    unfold link
    rw [hopcode, hname]
    rfl
  have hmem : Link.label text ∈ marks.map Mark.link := by
    rw [← hlinks]
    exact List.mem_filterMap.mpr ⟨i, List.mem_of_getElem? hi, hlink⟩
  obtain ⟨mark, hmark, htext⟩ := List.mem_map.mp hmem
  cases mark with
  | label token =>
    obtain ⟨stem, k, rfl, hstem, hk⟩ := habove _ hmark token rfl
    have hle := hcovered.numbers stem k hmark
    refine ⟨stem, k, hstem, hk, hle, ?_⟩
    have hshort : k < 2 ^ 31 := by
      have hcount := ht'.labelCount
      omega
    rw [← truncate_label hstem.1 hshort]
    cases htext
    rfl
  | jump | refer | frame => cases htext

theorem compileBody_numbered {fuel : ℕ} {context : Context} {body : Body} {s s' : CompilerState} {c : Code}
    (hs : Tidy s) (hn : s'.labelCount < 2 ^ 31)
    (hrun : Compiler.compileBody (Compiler.compileStmt fuel) context body s = .ok ((), s', c)) :
    s.labelCount ≤ s'.labelCount ∧ LabelsNumbered s.labelCount s'.labelCount c := by
  refine labels_numbered (fun context => Compiler.compileBody (Compiler.compileStmt fuel) context body)
    (fun o => outlineBody (outlineStmt fuel) o body) ?_ ?_ ?_ hs hn hrun
  · intro o
    exact compileBody_follows (compileStmt_follows fuel) o body
  · intro n o
    exact outlineBody_raises (outlineStmt_raises fuel) o body
  · intro n o
    exact ⟨_, outlineBody_covers (outlineStmt_covers fuel) (outlineStmt_later fuel) n o body⟩

theorem compileStmt_numbered {fuel : ℕ} {context : Context} {stmt : Stmt} {s s' : CompilerState} {c : Code}
    (hs : Tidy s) (hn : s'.labelCount < 2 ^ 31)
    (hrun : Compiler.compileStmt fuel context stmt s = .ok ((), s', c)) :
    s.labelCount ≤ s'.labelCount ∧ LabelsNumbered s.labelCount s'.labelCount c := by
  refine labels_numbered (fun context => Compiler.compileStmt fuel context stmt)
    (fun o => outlineStmt fuel o stmt) ?_ ?_ ?_ hs hn hrun
  · intro o
    exact compileStmt_follows fuel o stmt
  · intro n o
    exact outlineStmt_raises fuel o stmt
  · intro n o
    exact ⟨_, outlineStmt_covers fuel n o stmt⟩

theorem compileStatements_numbered {fuel i : ℕ} {context : Context} {body : Body} {s s' : CompilerState}
    {c : Code} (hs : Tidy s) (hn : s'.labelCount < 2 ^ 31)
    (hrun : Compiler.compileStatements (Compiler.compileStmt fuel) context i body s = .ok ((), s', c)) :
    s.labelCount ≤ s'.labelCount ∧ LabelsNumbered s.labelCount s'.labelCount c := by
  refine labels_numbered (fun context => Compiler.compileStatements (Compiler.compileStmt fuel) context i body)
    (fun o => outlineStatements (outlineStmt fuel) o i body) ?_ ?_ ?_ hs hn hrun
  · intro o
    exact compileStatements_follows (compileStmt_follows fuel) o i body
  · intro n o
    exact outlineStatements_raises (outlineStmt_raises fuel) o i body
  · intro n o
    exact ⟨_, outlineStatements_covers (outlineStmt_covers fuel) n o i body⟩

end Zeroscript.LabelNumbers
