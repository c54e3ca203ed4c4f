import Zeroscript.InstructionShapes
import Zeroscript.LabelNames

/-! # What the operands of an image resolve to

The optimizer keeps every label and every operand but those of jumps that it drops. Operands find the labels
they were emitted for just when the names of the functions keep the texts of the labels apart. -/
namespace Zeroscript.Resolution

open Outline LabelNames InstructionShapes
open Relation (ReflTransGen)

def isJump : Outline.Link → Bool
  | .jump _ => true
  | _ => false

def isJumpMark : Mark → Bool
  | .jump _ => true
  | _ => false

/-- All but some jumps are left. -/
structure OnlyJumpsLost {ι : Type} (isJump : ι → Bool) (links links' : List ι) : Prop where
  sublist : links'.Sublist links
  rest : links'.filter (!isJump ·) = links.filter (!isJump ·)

section

variable {ι : Type} {p : ι → Bool} {l l' l'' : List ι}

theorem OnlyJumpsLost.refl (l : List ι) : OnlyJumpsLost p l l := ⟨.refl l, rfl⟩

theorem OnlyJumpsLost.trans (h : OnlyJumpsLost p l l') (h' : OnlyJumpsLost p l' l'') : OnlyJumpsLost p l l'' :=
  ⟨h'.sublist.trans h.sublist, h'.rest.trans h.rest⟩

theorem OnlyJumpsLost.within (h : OnlyJumpsLost p l l') (before after : List ι) :
    OnlyJumpsLost p (before ++ l ++ after) (before ++ l' ++ after) := by
  refine ⟨((List.Sublist.refl before).append h.sublist).append (.refl after), ?_⟩
  rw [List.filter_append, List.filter_append, List.filter_append, List.filter_append, h.rest]

theorem OnlyJumpsLost.drop {x : ι} (h : p x = true) : OnlyJumpsLost p [x] [] := by
  refine ⟨List.nil_sublist _, ?_⟩
  rw [List.filter_cons, h]
  rfl

theorem OnlyJumpsLost.mem (h : OnlyJumpsLost p l l') {x : ι} (hx : x ∈ l) (hp : p x = false) : x ∈ l' := by
  have hfilter : x ∈ l.filter (!p ·) := List.mem_filter.mpr ⟨hx, by rw [hp]; rfl⟩
  rw [← h.rest] at hfilter
  exact (List.mem_filter.mp hfilter).1

theorem OnlyJumpsLost.head {x : ι} (h : OnlyJumpsLost p (x :: l) l') (hp : p x = false) :
    ∃ rest, l' = x :: rest ∧ rest.Sublist l := by
  have hfilter : l'.filter (!p ·) = x :: l.filter (!p ·) := by
    rw [h.rest, List.filter_cons, hp]
    rfl
  cases h.sublist with
  | cons _ hsub =>
    have hlength := (hsub.filter (!p ·)).length_le
    rw [hfilter] at hlength
    exact absurd hlength (Nat.not_succ_le_self _)
  | cons_cons _ hsub => exact ⟨_, rfl, hsub⟩

theorem OnlyJumpsLost.lift {κ : Type} {q : κ → Bool} {f : κ → ι} {all : List κ} (hpq : ∀ x, q x = p (f x))
    (h : OnlyJumpsLost p (all.map f) l) : ∃ kept, OnlyJumpsLost q all kept ∧ l = kept.map f := by
  obtain ⟨kept, hkept, rfl⟩ := List.sublist_map_iff.mp h.sublist
  refine ⟨kept, ⟨hkept, ?_⟩, rfl⟩
  have hlength : (kept.filter (!q ·)).length = (all.filter (!q ·)).length := by
    have := congrArg List.length h.rest
    rw [List.filter_map, List.filter_map, List.length_map, List.length_map] at this
    have hfun : ((!p ·) ∘ f) = (!q ·) := funext fun x => by simp [hpq]
    rwa [hfun] at this
  exact (hkept.filter _).eq_of_length hlength

end

theorem link_quiet {i : Instruction} (h : i.opcode = .RETURN ∨ i.opcode = .MOV ∨ i.opcode = .MOV_NUMBER ∨
    i.opcode.isCompare = true) : link i = none := by
  obtain ⟨opcode, r0, r1, r2⟩ := i
  rcases h with h | h | h | h
  · cases h
    rfl
  · cases h
    rfl
  · cases h
    rfl
  · cases opcode <;> cases h <;> rfl

theorem link_second {i : Instruction} (h : secondIsRegister i.opcode = true) :
    link i = none ∨ ∃ text, link i = some (.jump text) := by
  obtain ⟨opcode, r0, r1, r2⟩ := i
  cases opcode <;> cases h <;> first | exact Or.inl rfl | exact Or.inr ⟨_, rfl⟩

theorem links_cons (i : Instruction) (code : Code) : links (i :: code) = (link i).toList ++ links code := by
  unfold links
  rw [List.filterMap_cons]
  cases link i <;> rfl

theorem links_replace (before after : Code) {i j k : Instruction} :
    links (before ++ i :: j :: after) = links before ++ ((link i).toList ++ (link j).toList) ++ links after ∧
      links (before ++ k :: after) = links before ++ (link k).toList ++ links after := by
  simp only [links_append, links_cons, List.append_assoc, and_self]

theorem rewriteStep_links {code code' : Code} (hstep : RewriteStep code code') (h : ∀ i ∈ code, Typed i) :
    OnlyJumpsLost isJump (links code) (links code') := by
  cases hstep with
  | @returns before after current next hc hn =>
    obtain ⟨hold, hnew⟩ := links_replace before after (i := current) (j := next) (k := current)
    rw [hold, hnew, link_quiet (Or.inl hc), link_quiet (Or.inl hn)]
    exact .refl _
  | @mov before after current hc hr =>
    rw [links_append, links_append, links_cons, link_quiet (Or.inr (Or.inl hc))]
    exact .refl _
  | @immediate before after current next fused hc hf =>
    obtain ⟨hold, hnew⟩ := links_replace before after (i := current) (j := next) (k := fused)
    have hsame : link fused = link next := by
      unfold fuseImmediate at hf
      split at hf
      · obtain ⟨opcode, hopcode, rfl⟩ := Option.map_eq_some_iff.mp hf
        obtain ⟨op, r0, r1, r2⟩ := next
        change Opcode.immediateJump op = _ at hopcode
        cases op <;> cases hopcode <;> rfl
      · cases hf
    rw [hold, hnew, hsame, link_quiet (Or.inr (Or.inr (Or.inl hc)))]
    exact .refl _
  | @collapsed before after current next fused hc hf =>
    obtain ⟨hold, hnew⟩ := links_replace before after (i := current) (j := next) (k := fused)
    have hquiet := link_quiet (Or.inr (Or.inr (Or.inr hc)))
    unfold collapse at hf
    split at hf
    · rename_i hr
      cases hf
      -- the result register of a compare is not 0, so the next instruction reads a register second
      have hsecond : secondIsRegister next.opcode = true := by
        by_contra hno
        have hresult := (h current (by simp)).result hc
        rw [← hr] at hresult
        have hnext := (h next (by simp)).second (Bool.not_eq_true _ ▸ hno)
        cases hr1 : next.r1 with
        | num r =>
          rw [hr1] at hresult
          exact hresult (hnext r hr1)
        | str | symbols =>
          rw [hr1] at hresult
          exact hresult rfl
      have hfused : link { current with r2 := next.r1 } = link current := by rw [hr]
      rw [hold, hnew, hfused, hquiet]
      rcases link_second hsecond with hnone | ⟨text, hjump⟩
      · rw [hnone]
        exact .refl _
      · rw [hjump]
        exact (OnlyJumpsLost.drop (p := isJump) rfl).within _ _
    · cases hf
  | @jump before after current next fused hc hf =>
    obtain ⟨hold, hnew⟩ := links_replace before after (i := current) (j := next) (k := fused)
    have hsame : link fused = link next := by
      unfold fuseJump at hf
      split at hf
      · rename_i hnext
        obtain ⟨opcode, hopcode, rfl⟩ := Option.map_eq_some_iff.mp hf
        obtain ⟨op, r0, r1, r2⟩ := next
        generalize current.opcode = cmp, (op == .JMP_NOT_TRUE) = neg at hopcode
        rcases hnext with h | h <;> cases h <;> cases cmp <;> cases hopcode <;> cases neg <;> rfl
      · cases hf
    rw [hold, hnew, hsame, link_quiet (Or.inr (Or.inr (Or.inr hc)))]
    exact .refl _

theorem optimize_links {code code' : Code} (h : optimize code = some code') (htyped : ∀ i ∈ code, Typed i) :
    OnlyJumpsLost isJump (links code) (links code') := by
  have hchain := optimize_rewrites h
  clear h
  induction hchain with
  | refl => exact .refl _
  | tail hbefore hstep ih => exact ih.trans (rewriteStep_links hstep (rewrites_typed hbefore htyped))

/-- The marks of an image: those of the class, without the jumps that the optimizer dropped. -/
def EmittedFor (fuel : ℕ) (cls : ClassDeclaration) (code : Code) (marks : List Mark) : Prop :=
  ∃ t all, outlineClass fuel cls {} = .ok ((), t, all) ∧ OnlyJumpsLost isJumpMark all marks ∧
    links code = marks.map Mark.link

def found (code : Code) (marks : List Mark) (text : String) : Option Mark :=
  (labelIndex code text).bind fun index => marks[(links (code.take index)).length]?

def Resolves (code : Code) (marks : List Mark) : Prop :=
  ∀ m ∈ marks, ∀ text, m.link = .jump text ∨ m.link = .operand text → found code marks text = some (.label m.token)

def Textual (code : Code) : Prop := ∀ i ∈ code, i.opcode = .LABEL → ∃ text, i.r0 = .str text

theorem link_label {i : Instruction} {text : String} (htextual : i.opcode = .LABEL → ∃ text, i.r0 = .str text) :
    link i = some (.label text) ↔ i.opcode = .LABEL ∧ i.r0 = .str text := by
  constructor
  · intro h
    have hopcode : i.opcode = .LABEL := by
      unfold link at h
      split at h
      · assumption
      · cases h
      · cases h
      · obtain ⟨_, -, hnone⟩ := Option.map_eq_some_iff.mp h
        cases hnone
    obtain ⟨name, hname⟩ := htextual hopcode
    unfold link at h
    rw [hopcode, hname] at h
    cases h
    exact ⟨hopcode, hname⟩
  · rintro ⟨hopcode, hname⟩
    unfold link
    rw [hopcode, hname]
    rfl

theorem found_last {code : Code} {marks : List Mark} (htextual : Textual code)
    (hlinks : links code = marks.map Mark.link) (text : String) :
    (labelIndex code text = none ∧ ∀ m ∈ marks, m.link ≠ .label text) ∨
      ∃ before m after, marks = before ++ m :: after ∧ found code marks text = some m ∧
        m.link = .label text ∧ ∀ m' ∈ after, m'.link ≠ .label text := by
  induction code generalizing marks with
  | nil =>
    obtain rfl := List.map_eq_nil_iff.mp hlinks.symm
    exact Or.inl ⟨rfl, nofun⟩
  | cons i code ih =>
    have hrest : Textual code := fun j hj => htextual j (List.mem_cons_of_mem _ hj)
    have hi : link i = some (.label text) ↔ i.opcode = .LABEL ∧ i.r0 = .str text :=
      link_label (htextual i List.mem_cons_self)
    rw [links_cons] at hlinks
    have hshift : ∀ index, links ((i :: code).take (index + 1)) = (link i).toList ++ links (code.take index) := by
      intro index
      rw [List.take_succ_cons, links_cons]
    cases hlink : link i with
    | none =>
      rw [hlink] at hlinks
      have hno : ¬(i.opcode = .LABEL ∧ i.r0 = .str text) := fun h => by
        rw [hi.mpr h] at hlink
        cases hlink
      rcases ih hrest hlinks with ⟨hindex, hother⟩ | ⟨before, m, after, hmarks, hfound, hm, hafter⟩
      · refine Or.inl ⟨?_, hother⟩
        rw [labelIndex, hindex]
        exact if_neg hno
      · refine Or.inr ⟨before, m, after, hmarks, ?_, hm, hafter⟩
        obtain ⟨index, hindex, hget⟩ := Option.bind_eq_some_iff.mp hfound
        unfold found
        rw [labelIndex, hindex]
        change marks[_]? = some m
        rw [hshift, hlink]
        exact hget
    | some l =>
      rw [hlink] at hlinks
      obtain ⟨m, marks', rfl, hm, hmarks'⟩ := List.map_eq_cons_iff.mp hlinks.symm
      rcases ih hrest hmarks'.symm with ⟨hindex, hother⟩ | ⟨before, m', after, rfl, hfound, hm', hafter⟩
      · by_cases hhere : l = .label text
        · refine Or.inr ⟨[], m, marks', rfl, ?_, hm.trans hhere, hother⟩
          unfold found
          rw [labelIndex, hindex]
          dsimp only
          rw [if_pos (hi.mp (hlink.trans (congrArg some hhere)))]
          rfl
        · refine Or.inl ⟨?_, List.forall_mem_cons.mpr ⟨fun heq => hhere (hm.symm.trans heq), hother⟩⟩
          rw [labelIndex, hindex]
          exact if_neg fun h => hhere (Option.some.inj (hlink.symm.trans (hi.mpr h)))
      · refine Or.inr ⟨m :: before, m', after, rfl, ?_, hm', hafter⟩
        obtain ⟨index, hindex, hget⟩ := Option.bind_eq_some_iff.mp hfound
        unfold found
        rw [labelIndex, hindex]
        change (m :: _)[_]? = some m'
        rw [hshift, hlink]
        exact hget

theorem labelIndex_label {code : Code} {text : String} {index : ℕ} (h : labelIndex code text = some index) :
    ∃ i, code[index]? = some i ∧ i.opcode = .LABEL ∧ i.r0 = .str text := by
  induction code generalizing index with
  | nil => cases h
  | cons i code ih =>
    rw [labelIndex] at h
    cases hrest : labelIndex code text with
    | some later =>
      rw [hrest] at h
      cases h
      exact ih hrest
    | none =>
      rw [hrest] at h
      dsimp only at h
      split at h
      · rename_i hi
        cases h
        exact ⟨i, rfl, hi⟩
      · cases h

theorem position_labelIndex {code : Code} (htextual : Textual code) (sizeofConstants lpos : ℕ)
    (positions : List (String × ℕ)) (text : String) :
    (Assembler.labelPositions sizeofConstants code lpos positions).lookup text =
      match labelIndex code text with
      | some index => some (sizeofConstants + lpos + 32 * Assembler.realBefore code index)
      | none => positions.lookup text := by
  induction code generalizing lpos positions with
  | nil => rfl
  | cons i code ih =>
    have hrest : Textual code := fun j hj => htextual j (List.mem_cons_of_mem _ hj)
    rw [Assembler.labelPositions_cons, ih hrest, labelIndex]
    cases labelIndex code text with
    | some index =>
      dsimp only
      rw [Assembler.realBefore_succ]
      congr 1
      split <;> omega
    | none =>
      dsimp only
      by_cases hi : i.opcode = .LABEL
      · obtain ⟨name, hname⟩ := htextual i List.mem_cons_self hi
        by_cases heq : text = name
        · rw [if_pos hi, if_pos ⟨hi, heq ▸ hname⟩, hname, heq]
          simp [Assembler.realBefore]
        · have hbeq : (text == name) = false := beq_eq_false_iff_ne.mpr heq
          have hother : ¬(i.opcode = .LABEL ∧ i.r0 = .str text) := by
            rintro ⟨-, h⟩
            rw [hname] at h
            exact heq (Operand.str.inj h).symm
          rw [if_pos hi, if_neg hother, hname, Operand.text, List.lookup_cons, hbeq]
      · rw [if_neg hi, if_neg fun h => hi h.1]

/-- The grammar's `IDENT`, or a name like `$anonymous_1` that `AstGenerator` makes. -/
def IsIdentifier (name : String) : Prop := ∀ c ∈ name.toList, c.isAlphanum = true ∨ c = '_' ∨ c = '$'

instance (name : String) : Decidable (IsIdentifier name) :=
  List.decidableBAll (fun c : Char => c.isAlphanum = true ∨ c = '_' ∨ c = '$') name.toList

theorem isIdentifier_end {name : String} (h : IsIdentifier name) : IsIdentifier ("end" ++ name) := by
  intro c hc
  rw [String.toList_append] at hc
  rcases List.mem_append.mp hc with hc | hc
  · have hletters : ∀ c ∈ "end".toList, c.isAlphanum = true := List.all_eq_true.mp (by decide)
    exact Or.inl (hletters c hc)
  · exact h c hc

theorem end_injective {name name' : String} (h : "end" ++ name = "end" ++ name') : name = name' := by
  have hlist := congrArg String.toList h
  rw [String.toList_append, String.toList_append] at hlist
  exact String.toList_inj.mp (List.append_cancel_left hlist)

theorem length_end (name : String) : ("end" ++ name).length = name.length + 3 := by
  rw [String.length_append]
  exact Nat.add_comm _ _

theorem truncate_short {n : ℕ} {text : String} (h : text.length ≤ n) : Compiler.truncate n text = text := by
  unfold Compiler.truncate
  rw [List.take_of_length_le (by rwa [String.length_toList]), String.ofList_toList]

theorem length_truncate (n : ℕ) (text : String) :
    (Compiler.truncate n text).length = min n text.length := by
  unfold Compiler.truncate
  rw [String.length_ofList, List.length_take, String.length_toList]

theorem label_head {stem : String} (h : IsStem stem) (n : ℕ) :
    (StraightCode.label stem n).toList.head? = some '.' := by
  unfold StraightCode.label
  rw [String.toList_append, List.head?_append, h.2.1]
  rfl

theorem label_not_identifier {stem name : String} (h : IsStem stem) {n : ℕ} (hname : IsIdentifier name) :
    StraightCode.label stem n ≠ name := by
  intro heq
  have hhead := label_head h n
  rw [heq] at hhead
  have hdot := hname '.' (List.mem_of_mem_head? hhead)
  revert hdot
  decide

/-- Stems have no digits, so the number begins where the digits begin. -/
theorem label_injective {stem stem' : String} (h : IsStem stem) (h' : IsStem stem') {n n' : ℕ}
    (heq : StraightCode.label stem n = StraightCode.label stem' n') : stem = stem' ∧ n = n' := by
  have hdigits : ∀ m : ℕ, ∀ c ∈ (toString m).toList, c.isDigit = true := by
    intro m c hc
    have hrepr : (toString m).toList = Nat.toDigits 10 m := String.toList_ofList
    rw [hrepr] at hc
    exact Nat.isDigit_of_mem_toDigits (by decide) (by decide) hc
  have hsplit : ∀ {s : String}, IsStem s → ∀ m : ℕ,
      (StraightCode.label s m).toList.takeWhile (fun c => !c.isDigit) = s.toList := by
    intro s hs m
    unfold StraightCode.label
    rw [String.toList_append, List.takeWhile_append_of_pos fun c hc => by simp [hs.2.2 c hc]]
    have hnone : (toString m).toList.takeWhile (fun c => !c.isDigit) = [] := by
      cases hm : (toString m).toList with
      | nil => rfl
      | cons c cs =>
        have hc := hdigits m c (by rw [hm]; exact List.mem_cons_self)
        rw [List.takeWhile_cons, hc]
        rfl
    rw [hnone, List.append_nil]
  have hstems : stem = stem' := by
    have hlists := hsplit h n
    rw [heq, hsplit h' n'] at hlists
    exact (String.toList_inj.mp hlists).symm
  subst hstems
  refine ⟨rfl, ?_⟩
  have hlist := congrArg String.toList heq
  unfold StraightCode.label at hlist
  rw [String.toList_append, String.toList_append] at hlist
  have hdigitList := List.append_cancel_left hlist
  change n.repr.toList = n'.repr.toList at hdigitList
  rw [Nat.toList_repr, Nat.toList_repr] at hdigitList
  have hvalue := congrArg (Nat.ofDigitChars 10 · 0) hdigitList
  rwa [Nat.ofDigitChars_ten_toDigits, Nat.ofDigitChars_ten_toDigits] at hvalue

/-- The names of the functions keep the texts of the labels apart: none is cut off, none comes twice, and
none is the end of another. The label of the class itself is the first one, and no operand names it. -/
structure NamesApart (cls : ClassDeclaration) : Prop where
  short : ∀ f ∈ functionsOf cls, f.2.length ≤ 95
  distinct : ∀ f ∈ functionsOf cls, ∀ g ∈ functionsOf cls, f.2 = g.2 → f = g
  ends : ∀ f ∈ functionsOf cls, ∀ g ∈ declaredIn [] 0 cls.body, g.2 ≠ "end" ++ f.2

mutual

theorem declared_path (path : List ℕ) (hpath : path ≠ []) (stmt : Stmt) : ∀ f ∈ declared path stmt, f.1 ≠ [] := by
  intro f hf
  cases stmt with
  | expression | var =>
    rw [declared] at hf
    cases hf
  | function isStatic isAsync isPrivate identifier arguments body =>
    rw [declared] at hf
    rcases List.mem_cons.mp hf with rfl | hf
    · exact hpath
    · exact declaredIn_path path 0 body f hf
  | loop start condition iter body =>
    rw [declared] at hf
    exact declaredIn_path path 0 body f hf
  | block body =>
    rw [declared] at hf
    exact declaredIn_path path 0 body f hf
  | conditional condition body elseBody =>
    cases elseBody with
    | none =>
      rw [declared] at hf
      exact declaredIn_path _ 0 body f hf
    | some elseBody =>
      rw [declared] at hf
      rcases List.mem_append.mp hf with hf | hf
      · exact declaredIn_path _ 0 body f hf
      · exact declaredIn_path _ 0 elseBody f hf
  | tryCatch catchIdent tryBody catchBody finallyBody =>
    cases finallyBody with
    | none =>
      rw [declared] at hf
      rcases List.mem_append.mp hf with hf | hf
      · exact declaredIn_path _ 0 tryBody f hf
      · exact declaredIn_path _ 0 catchBody f hf
    | some finallyBody =>
      rw [declared] at hf
      rcases List.mem_append.mp hf with hf | hf
      · rcases List.mem_append.mp hf with hf | hf
        · exact declaredIn_path _ 0 tryBody f hf
        · exact declaredIn_path _ 0 catchBody f hf
      · exact declaredIn_path _ 0 finallyBody f hf

theorem declaredIn_path (path : List ℕ) (i : ℕ) (body : Body) : ∀ f ∈ declaredIn path i body, f.1 ≠ [] := by
  intro f hf
  cases body with
  | nil =>
    rw [declaredIn] at hf
    cases hf
  | cons stmt rest =>
    rw [declaredIn] at hf
    rcases List.mem_append.mp hf with hf | hf
    · exact declared_path (i :: path) (List.cons_ne_nil _ _) stmt f hf
    · exact declaredIn_path path (i + 1) rest f hf

end

structure Marked (cls : ClassDeclaration) (marks : List Mark) : Prop where
  head : ∃ rest, marks = .label (.start ([], cls.identifier)) :: rest ∧ ∀ m ∈ rest, Named (functionsOf cls) m
  labelled : ∀ m ∈ marks, .label m.token ∈ marks
  compiled : ∀ f ∈ functionsOf cls, Compiled marks f
  numbers : ∀ stem n, .label (.generated stem n) ∈ marks → n < 2 ^ 31

theorem marked_of_emitted {fuel : ℕ} {cls : ClassDeclaration} {code : Code} {marks : List Mark}
    (hcount : ∀ t all, outlineClass fuel cls {} = .ok ((), t, all) → t.labelCount < 2 ^ 31)
    (h : EmittedFor fuel cls code marks) : Marked cls marks := by
  obtain ⟨t, all, houtline, hkept, -⟩ := h
  have hcovered := outlineClass_closes houtline
  obtain ⟨rest, rfl, hrest⟩ := outlineClass_names houtline
  have hlabels : ∀ token, .label token ∈ Mark.label (.start ([], cls.identifier)) :: rest → .label token ∈ marks :=
    fun token htoken => hkept.mem htoken rfl
  refine ⟨?_, fun m hm => ?_, fun f hf => ?_, fun stem n hlabel => ?_⟩
  · obtain ⟨rest', rfl, hsub⟩ := hkept.head rfl
    exact ⟨rest', rfl, fun m hm => hrest m (hsub.subset hm)⟩
  · rcases hcovered.operands m (hkept.sublist.subset hm) with hend | hlabel | ⟨_, hnone, -⟩ | ⟨f, hf, -⟩
    · cases hend
    · exact hlabels _ hlabel
    · cases hnone
    · cases hf
  · rcases hcovered.complete f hf with hcompiled | ⟨_, hnone, -⟩
    · exact ⟨hlabels _ hcompiled.label, hkept.mem hcompiled.frame rfl,
        fun hpath => hkept.mem (hcompiled.refer hpath) rfl⟩
    · cases hnone
  · exact Nat.lt_of_le_of_lt (hcovered.numbers stem n (hkept.sublist.subset hlabel)) (hcount _ _ houtline)

section

variable {cls : ClassDeclaration} {code : Code} {marks : List Mark}

theorem found_link (htextual : Textual code) (hlinks : links code = marks.map Mark.link) {text : String} {m : Mark}
    (h : found code marks text = some m) : m ∈ marks ∧ m.link = .label text := by
  rcases found_last htextual hlinks text with ⟨hnone, -⟩ | ⟨before, m', after, rfl, hfound, hlink, -⟩
  · unfold found at h
    rw [hnone] at h
    cases h
  · obtain rfl := Option.some.inj (hfound.symm.trans h)
    exact ⟨by simp, hlink⟩

/-- The label of an own function that is named is its own: the names are apart. -/
theorem namesApart_of_resolves (hmarked : Marked cls marks) (htextual : Textual code)
    (hlinks : links code = marks.map Mark.link) (h : Resolves code marks) : NamesApart cls := by
  have hframe : ∀ f ∈ functionsOf cls,
      found code marks (Compiler.truncate 99 ("end" ++ f.2)) = some (.label (.stop f)) :=
    fun f hf => h _ (hmarked.compiled f hf).frame _ (Or.inr rfl)
  have hshort : ∀ f ∈ functionsOf cls, f.2.length ≤ 95 := by
    intro f hf
    have hlink := (found_link htextual hlinks (hframe f hf)).2
    have htexts : Compiler.truncate 98 ("end" ++ f.2) = Compiler.truncate 99 ("end" ++ f.2) :=
      Outline.Link.label.inj hlink
    have hlengths := congrArg String.length htexts
    rw [length_truncate, length_truncate, length_end] at hlengths
    omega
  have hfull : ∀ f ∈ functionsOf cls, Compiler.truncate 99 ("end" ++ f.2) = "end" ++ f.2 := by
    intro f hf
    have := hshort f hf
    exact truncate_short (by rw [length_end]; omega)
  refine ⟨hshort, fun f hf g hg heq => ?_, fun f hf g hg heq => ?_⟩
  · have hf' := hframe f hf
    rw [heq, hframe g hg] at hf'
    cases hf'
    rfl
  · have hmem : g ∈ functionsOf cls := List.mem_cons_of_mem _ hg
    have hname := h _ ((hmarked.compiled g hmem).refer (declaredIn_path _ _ _ g hg)) _ (Or.inr rfl)
    have hend := hframe f hf
    rw [hfull f hf, ← heq] at hend
    have hboth : some (Mark.label (.stop f)) = some (.label (.start g)) := hend.symm.trans hname
    cases hboth

def Inner (cls : ClassDeclaration) (token : Token) : Prop := Named (functionsOf cls) (.label token)

theorem inner_text {token : Token} (hapart : NamesApart cls) (h : Inner cls token)
    (hnumbers : ∀ stem n, token = .generated stem n → n < 2 ^ 31) : token.text.length ≤ 98 := by
  cases h with
  | @start f hpath hf =>
    change f.2.length ≤ 98
    have := hapart.short f hf
    omega
  | @stop f hf =>
    have hlength : (Token.stop f).text.length = f.2.length + 3 := length_end f.2
    have := hapart.short f hf
    omega
  | @generated stem n hstem =>
    change (StraightCode.label stem n).length ≤ 98
    have hlength := congrArg String.length (StraightCode.truncate_label hstem.1 (hnumbers _ _ rfl))
    rw [length_truncate] at hlength
    omega

theorem inner_injective {token token' : Token} (hidents : ∀ f ∈ functionsOf cls, IsIdentifier f.2)
    (hapart : NamesApart cls) (h : Inner cls token) (h' : Inner cls token') (heq : token.text = token'.text) :
    token = token' := by
  have hdeclared : ∀ f ∈ functionsOf cls, f.1 ≠ [] → f ∈ declaredIn [] 0 cls.body := by
    intro f hf hpath
    rcases List.mem_cons.mp hf with rfl | hf
    · exact absurd rfl hpath
    · exact hf
  cases h with
  | @start f hpath hf =>
    cases h' with
    | @start g hpath' hg => rw [hapart.distinct f hf g hg heq]
    | @stop g hg => exact absurd heq (hapart.ends g hg f (hdeclared f hf hpath))
    | generated hstem => exact absurd heq.symm (label_not_identifier hstem (hidents f hf))
  | @stop f hf =>
    cases h' with
    | @start g hpath hg => exact absurd heq.symm (hapart.ends f hf g (hdeclared g hg hpath))
    | @stop g hg => rw [hapart.distinct f hf g hg (end_injective heq)]
    | generated hstem => exact absurd heq.symm (label_not_identifier hstem (isIdentifier_end (hidents f hf)))
  | @generated stem n hstem =>
    cases h' with
    | @start g hpath hg => exact absurd heq (label_not_identifier hstem (hidents g hg))
    | @stop g hg => exact absurd heq (label_not_identifier hstem (isIdentifier_end (hidents g hg)))
    | generated hstem' =>
      obtain ⟨rfl, rfl⟩ := label_injective hstem hstem' heq
      rfl

theorem resolves_of_namesApart (hidents : ∀ f ∈ functionsOf cls, IsIdentifier f.2) (hmarked : Marked cls marks)
    (htextual : Textual code) (hlinks : links code = marks.map Mark.link) (hapart : NamesApart cls) :
    Resolves code marks := by
  intro m hm text htext
  obtain ⟨rest, hhead, hrest⟩ := hmarked.head
  have hinside : ∀ m' ∈ marks, m' = .label (.start ([], cls.identifier)) ∨ m' ∈ rest := by
    rw [hhead]
    exact fun m' => List.mem_cons.mp
  have hinner : ∀ token, .label token ∈ marks → token ≠ .start ([], cls.identifier) → Inner cls token := by
    intro token htoken hne
    rcases hinside _ htoken with heq | hmem
    · cases heq
      exact absurd rfl hne
    · exact hrest _ hmem
  -- an operand names an inner label
  have hlabel := hmarked.labelled m hm
  have hown : m.token ≠ .start ([], cls.identifier) ∧
      (text = m.token.text ∨ text = Compiler.truncate 99 m.token.text) := by
    rcases hinside m hm with rfl | hmem
    · rcases htext with h | h <;> cases h
    · cases hrest m hmem with
      | start | stop | generated => rcases htext with h | h <;> cases h
      | jump =>
        rcases htext with h | h <;> cases h
        exact ⟨nofun, Or.inl rfl⟩
      | refer hpath =>
        rcases htext with h | h <;> cases h
        refine ⟨fun heq => ?_, Or.inl rfl⟩
        cases heq
        exact hpath rfl
      | frame =>
        rcases htext with h | h <;> cases h
        exact ⟨nofun, Or.inr rfl⟩
  have hlength := inner_text hapart (hinner _ hlabel hown.1) fun stem n heq => hmarked.numbers stem n (heq ▸ hlabel)
  have htext' : text = m.token.text := by
    rcases hown.2 with h | h
    · exact h
    · rw [h, truncate_short (by omega)]
  have hlink : (Mark.label m.token).link = .label text := by
    rw [htext', Mark.link, truncate_short hlength]
  rcases found_last htextual hlinks text with ⟨-, hnone⟩ | ⟨before, m', after, hsplit, hfound, hm', hafter⟩
  · exact absurd hlink (hnone _ hlabel)
  · rw [hfound]
    congr 1
    have hmem : m' ∈ marks := by
      rw [hsplit]
      simp
    obtain ⟨token, rfl⟩ : ∃ token, m' = .label token := by
      cases m' with
      | label token => exact ⟨token, rfl⟩
      | jump | refer | frame => cases hm'
    by_cases hclass : token = .start ([], cls.identifier)
    · -- the label of the class comes first, and the operand's own after it
      subst hclass
      have hbefore : before = [] := by
        cases before with
        | nil => rfl
        | cons x before =>
          have hin : Mark.label (.start ([], cls.identifier)) ∈ rest := by
            rw [hhead] at hsplit
            rw [(List.cons.inj hsplit).2]
            simp
          cases hrest _ hin with
          | start hpath => exact absurd rfl hpath
      subst hbefore
      have hlater : .label m.token ∈ after := by
        rw [hsplit] at hlabel
        rcases List.mem_cons.mp hlabel with heq | hmem
        · exact absurd (Mark.label.inj heq) hown.1
        · exact hmem
      exact absurd hlink (hafter _ hlater)
    · have hfoundInner := hinner token hmem hclass
      have hfoundLength := inner_text hapart hfoundInner fun stem n heq => hmarked.numbers stem n (heq ▸ hmem)
      have htexts : token.text = m.token.text := by
        have := Outline.Link.label.inj hm'
        rw [truncate_short hfoundLength] at this
        rw [this, htext']
      rw [inner_injective hidents hapart hfoundInner (hinner _ hlabel hown.1) htexts]

end

theorem target_link {i : Instruction} {text : String} (h : Outline.target i = some text) :
    link i = some (.jump text) ∨ link i = some (.operand text) := by
  obtain ⟨opcode, r0, r1, r2⟩ := i
  cases opcode <;> cases h <;> first | exact Or.inl rfl | exact Or.inr rfl

theorem Named.inner {F : List FunctionId} {m : Mark} (h : Named F m) {text : String}
    (hlink : m.link = .jump text ∨ m.link = .operand text) :
    text = m.token.text ∨ text = Compiler.truncate 99 m.token.text := by
  cases h with
  | start | stop | generated => rcases hlink with h | h <;> cases h
  | jump | refer =>
    rcases hlink with h | h <;> cases h
    exact Or.inl rfl
  | frame =>
    rcases hlink with h | h <;> cases h
    exact Or.inr rfl

theorem image_textual {fuel : ℕ} {cls : ClassDeclaration} {code : Code} (h : image fuel cls = some code) :
    Textual code := by
  intro i hi hopcode
  obtain ⟨opcode, r0, r1, r2⟩ := i
  obtain rfl : opcode = .LABEL := hopcode
  cases image_form h hi rfl with
  | statement h =>
    cases h with
    | expression h =>
      cases h with
      | step hop => rcases hop with h | h <;> cases h
      | @operation op _ _ _ _ hop => cases op <;> cases hop
    | label => exact ⟨_, rfl⟩

theorem image_emitted {fuel : ℕ} {cls : ClassDeclaration} {code : Code} (h : image fuel cls = some code) :
    ∃ marks, EmittedFor fuel cls code marks := by
  unfold image at h
  split at h
  · rename_i compiled hcompile
    have htyped := compileClass_typed hcompile
    unfold compileClass at hcompile
    split at hcompile
    · cases hcompile
    · rename_i s₁ code₁ hrun
      cases hcompile
      obtain ⟨t, all, houtline, hlinks, -⟩ := compileClass_outline hrun
      have hlost := optimize_links h htyped
      rw [hlinks] at hlost
      obtain ⟨kept, hkept, hcode⟩ := hlost.lift (q := isJumpMark) fun m => by cases m <;> rfl
      exact ⟨kept, t, all, houtline, hkept, hcode⟩
  · cases h

theorem operand_not_first {fuel : ℕ} {cls : ClassDeclaration} {code : Code} (h : image fuel cls = some code)
    {i : Instruction} (hi : i ∈ code) {text : String} (htarget : Outline.target i = some text) :
    labelIndex code text ≠ some 0 := by
  obtain ⟨marks, t, all, houtline, hkept, hlinks⟩ := image_emitted h
  have hclosed := outlineClass_closes houtline
  obtain ⟨named, rfl, hnamed⟩ := outlineClass_names houtline
  obtain ⟨rest, rfl, hsub⟩ := hkept.head rfl
  -- the operand was emitted for a label of its own
  obtain ⟨m, hm, hlink⟩ : ∃ m ∈ Mark.label (.start ([], cls.identifier)) :: rest,
      m.link = .jump text ∨ m.link = .operand text := by
    have hmem : ∀ l, link i = some l → l ∈ links code := fun l hl => List.mem_filterMap.mpr ⟨i, hi, hl⟩
    rw [hlinks] at hmem
    rcases target_link htarget with hl | hl
    · obtain ⟨m, hm, hlink⟩ := List.mem_map.mp (hmem _ hl)
      exact ⟨m, hm, Or.inl hlink⟩
    · obtain ⟨m, hm, hlink⟩ := List.mem_map.mp (hmem _ hl)
      exact ⟨m, hm, Or.inr hlink⟩
  have hmrest : m ∈ rest := by
    rcases List.mem_cons.mp hm with rfl | hm
    · rcases hlink with h | h <;> cases h
    · exact hm
  have htexts := Named.inner (hnamed m (hsub.subset hmrest)) hlink
  have hclass : ∀ m' ∈ rest, m' ≠ .label (.start ([], cls.identifier)) := by
    rintro m' hm' rfl
    cases hnamed _ (hsub.subset hm') with
    | start hpath => exact hpath rfl
  have hown : .label m.token ∈ rest := by
    have hlabel : .label m.token ∈ Mark.label (.start ([], cls.identifier)) :: rest := by
      rcases hclosed.operands m (hkept.sublist.subset hm) with hend | hlabel | ⟨_, hnone, -⟩ | ⟨f, hf, -⟩
      · cases hend
      · exact hkept.mem hlabel rfl
      · cases hnone
      · cases hf
    rcases List.mem_cons.mp hlabel with heq | hmem
    · exfalso
      cases hnamed m (hsub.subset hmrest) with
      | start | stop | generated => rcases hlink with h | h <;> cases h
      | jump | frame => cases heq
      | refer hpath =>
        cases heq
        exact hpath rfl
    · exact hmem
  intro hzero
  rcases found_last (image_textual h) hlinks text with ⟨hnone, -⟩ | ⟨before, m', after, hsplit, hfound, hm', hafter⟩
  · rw [hnone] at hzero
    cases hzero
  · obtain rfl : Mark.label (.start ([], cls.identifier)) = m' := by
      unfold found at hfound
      rw [hzero] at hfound
      exact Option.some.inj hfound
    have hlater : .label m.token ∈ after := by
      cases before with
      | nil =>
        obtain ⟨-, rfl⟩ := List.cons.inj hsplit
        exact hown
      | cons x before =>
        obtain ⟨-, rfl⟩ := List.cons.inj hsplit
        exact absurd rfl (hclass _ (List.mem_append_right _ List.mem_cons_self))
    refine hafter _ hlater ?_
    have hlength : text.length ≤ 98 := by
      rw [← Outline.Link.label.inj hm', length_truncate]
      exact Nat.min_le_left _ _
    have htoken : text = m.token.text := by
      rcases htexts with heq | heq
      · exact heq
      · rw [heq, length_truncate] at hlength
        rw [heq, truncate_short (by omega)]
    rw [Mark.link, ← htoken, truncate_short hlength]

/-- Every operand of an image that names a label finds the label of the function, loop or branch it was
emitted for just when no name is longer than 95 characters, no two functions have one name, and no function has
the name of another, or of the class, behind `end`. -/
theorem operands_resolve_iff {fuel : ℕ} {cls : ClassDeclaration} {code : Code}
    (hcode : image fuel cls = some code) (hidents : ∀ f ∈ functionsOf cls, IsIdentifier f.2)
    (hcount : ∀ t all, outlineClass fuel cls {} = .ok ((), t, all) → t.labelCount < 2 ^ 31) :
    (∃ marks, EmittedFor fuel cls code marks) ∧
      ∀ marks, EmittedFor fuel cls code marks → (Resolves code marks ↔ NamesApart cls) := by
  refine ⟨image_emitted hcode, fun marks hmarks => ?_⟩
  have hmarked := marked_of_emitted hcount hmarks
  have htextual := image_textual hcode
  obtain ⟨-, -, -, -, hlinks⟩ := hmarks
  exact ⟨namesApart_of_resolves hmarked htextual hlinks,
    resolves_of_namesApart hidents hmarked htextual hlinks⟩

/-- `class Main { fun f() { } { fun … () { } } }`, with the name of the function in the block. -/
def sampleClass (name : String) : ClassDeclaration :=
  ⟨"Main", [], [.function false false false "f" [] [], .block [.function false false false name [] []],
    .function true false false "__static__constructor__" [] []], []⟩

theorem sampleClass_counts {name : String}
    (hzero : (match outlineClass 4 (sampleClass name) {} with
      | .ok (_, t, _) => t.labelCount
      | .error _ => 0) = 0) :
    ∀ t all, outlineClass 4 (sampleClass name) {} = .ok ((), t, all) → t.labelCount < 2 ^ 31 := by
  intro t all h
  rw [h] at hzero
  change t.labelCount = 0 at hzero
  omega

theorem sampleClass_compiles (name : String) (h : (image 4 (sampleClass name)).isSome = true) :
    ∃ code, image 4 (sampleClass name) = some code := Option.isSome_iff_exists.mp h

/-- Two functions with one name share a label. -/
theorem same_name_shares_label :
    ∃ code marks, image 4 (sampleClass "f") = some code ∧
      (∀ f ∈ functionsOf (sampleClass "f"), IsIdentifier f.2) ∧
      EmittedFor 4 (sampleClass "f") code marks ∧ ¬Resolves code marks := by
  obtain ⟨code, hcode⟩ := sampleClass_compiles "f" (by decide +kernel)
  obtain ⟨marks, hmarks⟩ := image_emitted hcode
  have hmarked := marked_of_emitted (sampleClass_counts (by decide +kernel)) hmarks
  refine ⟨code, marks, hcode, by decide +kernel, hmarks, fun h => ?_⟩
  obtain ⟨-, -, -, -, hlinks⟩ := hmarks
  have hdistinct := (namesApart_of_resolves hmarked (image_textual hcode) hlinks h).distinct
  revert hdistinct
  decide +kernel

/-- A lambda beside a function. -/
theorem own_names_resolve :
    ∃ code marks, image 4 (sampleClass "$anonymous_1") = some code ∧ EmittedFor 4 (sampleClass "$anonymous_1") code marks ∧
      Resolves code marks := by
  obtain ⟨code, hcode⟩ := sampleClass_compiles "$anonymous_1" (by decide +kernel)
  have hidents : ∀ f ∈ functionsOf (sampleClass "$anonymous_1"), IsIdentifier f.2 := by decide +kernel
  obtain ⟨⟨marks, hmarks⟩, hiff⟩ :=
    operands_resolve_iff hcode hidents (sampleClass_counts (by decide +kernel))
  refine ⟨code, marks, hcode, hmarks, (hiff marks hmarks).mpr ⟨?_, ?_, ?_⟩⟩
  · decide +kernel
  · decide +kernel
  · decide +kernel

end Zeroscript.Resolution
