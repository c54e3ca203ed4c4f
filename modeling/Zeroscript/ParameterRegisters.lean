import Zeroscript.CompilerSteps
import Zeroscript.FrameMachine
import Zeroscript.Number
import Mathlib.Data.List.Nodup

/-! # The registers of the parameters

`FFRAME` fills fixed locals: `this` is local 1 and the `i`-th argument, from 1, is local `2 + i`.
`AddressCalculator` numbers names by the size of the table, so a name that is there already shifts
every parameter after it. -/
namespace Zeroscript

namespace ParameterRegisters

/-- The table of a function agrees with the locals that `FFRAME` fills, and no other name has one of
these registers. -/
structure Aligned (arguments : List String) (fk : FunctionKind) : Prop where
  this : fk.symbolTable.lookup "this" = some 1
  parameter : ∀ (i : ℕ) (h : i < arguments.length),
    fk.symbolTable.lookup arguments[i] = some (2 + (i + 1))
  stored : ∀ {α : Type} [NumOps α] (stack : List (Reg α)) (i : ℕ), i < arguments.length →
    placeArguments arguments.length stack (2 + (i + 1)) = stack.getD i .null
  thisOnly : ∀ name, fk.symbolTable.lookup name = some 1 → name = "this"
  parameterOnly : ∀ (i : ℕ) (h : i < arguments.length) (name : String),
    fk.symbolTable.lookup name = some (2 + (i + 1)) → name = arguments[i]

/-- The header of a declaration: each name is new when its turn comes. -/
def Separate (identifier : String) (arguments : List String) : Prop :=
  (identifier :: arguments).Nodup ∧ "this" ∉ identifier :: arguments

theorem addToCurrentTable_new {fk : FunctionKind} {name : String}
    (h : fk.symbolTable.lookup name = none) :
    (fk.addToCurrentTable name).symbolTable =
      fk.symbolTable ++ [(name, fk.symbolTable.length + 1)] := by
  simp [FunctionKind.addToCurrentTable, h]

theorem addToCurrentTable_old {fk : FunctionKind} {name : String} {r : ℕ}
    (h : fk.symbolTable.lookup name = some r) : fk.addToCurrentTable name = fk := by
  simp [FunctionKind.addToCurrentTable, h]

theorem keeps_entry (name : String) (r : ℕ) :
    Additive fun fk => fk.symbolTable.lookup name = some r := by
  constructor
  · intro fk identifier h
    cases hnew : fk.symbolTable.lookup identifier with
    | none =>
      rw [addToCurrentTable_new hnew, List.lookup_append, h]
      rfl
    | some r' =>
      rw [addToCurrentTable_old hnew]
      exact h
  · intro fk isPrivate identifier h
    unfold FunctionKind.addPrivateIf FunctionKind.addToCurrentPrivatesMap
    split
    · split <;> exact h
    · exact h

theorem lookup_foldl (names : List String) (fk : FunctionKind) (hnodup : names.Nodup)
    (hnew : ∀ name ∈ names, fk.symbolTable.lookup name = none) (i : ℕ) (h : i < names.length) :
    (names.foldl FunctionKind.addToCurrentTable fk).symbolTable.lookup names[i] =
      some (fk.symbolTable.length + (i + 1)) := by
  induction names generalizing fk i with
  | nil => exact absurd h (Nat.not_lt_zero i)
  | cons name names ih =>
    obtain ⟨hnotin, hnodup⟩ := List.nodup_cons.mp hnodup
    have hfirst : fk.symbolTable.lookup name = none := hnew name List.mem_cons_self
    have htable := addToCurrentTable_new hfirst
    rw [List.foldl_cons]
    cases i with
    | zero =>
      apply (keeps_entry name (fk.symbolTable.length + 1)).foldl names
      rw [htable, List.lookup_append, hfirst]
      simp
    | succ i =>
      have hrest : ∀ name' ∈ names,
          (fk.addToCurrentTable name).symbolTable.lookup name' = none := by
        intro name' hmem
        have hne : name' ≠ name := ne_of_mem_of_not_mem hmem hnotin
        rw [htable, List.lookup_append, hnew name' (List.mem_cons_of_mem name hmem)]
        simp [hne]
      have hi : i < names.length := Nat.lt_of_succ_lt_succ h
      have := ih (fk.addToCurrentTable name) hnodup hrest i hi
      rw [htable, List.length_append] at this
      rw [List.getElem_cons_succ, this]
      congr 1
      simp only [List.length_cons, List.length_nil]
      omega

theorem mem_of_lookup {table : List (String × ℕ)} {name : String} {r : ℕ}
    (h : table.lookup name = some r) : (name, r) ∈ table := by
  obtain ⟨before, after, rfl, -⟩ := List.lookup_eq_some_iff.mp h
  simp

theorem lookup_injective {fk : FunctionKind} (hnumbered : Numbered fk) {name name' : String} {r : ℕ}
    (h : fk.symbolTable.lookup name = some r) (h' : fk.symbolTable.lookup name' = some r) :
    name = name' := by
  have hmem := mem_of_lookup h
  have hmem' := mem_of_lookup h'
  have hnodup : (fk.symbolTable.map Prod.snd).Nodup := by
    rw [hnumbered.1]
    exact List.nodup_range'
  exact congrArg Prod.fst (List.inj_on_of_nodup_map hnodup hmem hmem' rfl)

theorem calculateFunction_keeps (identifier : String) (arguments : List String) (body : Body)
    {name : String} {r : ℕ}
    (h : (arguments.foldl FunctionKind.addToCurrentTable
      ((FunctionKind.addToCurrentTable {} "this").addToCurrentTable identifier)).symbolTable.lookup
        name = some r) :
    (calculateFunction identifier arguments body).symbolTable.lookup name = some r :=
  calculateBody_preserves (keeps_entry name r) body _ h

theorem lookup_this (identifier : String) (arguments : List String) (body : Body) :
    (calculateFunction identifier arguments body).symbolTable.lookup "this" = some 1 := by
  apply calculateFunction_keeps
  apply (keeps_entry "this" 1).foldl
  exact (keeps_entry "this" 1).add _ identifier rfl

theorem header_table {identifier : String} (h : identifier ≠ "this") :
    ((FunctionKind.addToCurrentTable {} "this").addToCurrentTable identifier).symbolTable =
      [("this", 1), (identifier, 2)] := by
  rw [addToCurrentTable_new]
  · rfl
  · change List.lookup identifier [("this", 1)] = none
    simp [h]

theorem lookup_parameter {identifier : String} {arguments : List String}
    (h : Separate identifier arguments) (body : Body) (i : ℕ) (hi : i < arguments.length) :
    (calculateFunction identifier arguments body).symbolTable.lookup arguments[i] =
      some (2 + (i + 1)) := by
  obtain ⟨hnodup, hthis⟩ := h
  obtain ⟨hnotin, hnodup⟩ := List.nodup_cons.mp hnodup
  have hidentifier : identifier ≠ "this" := fun heq => hthis (heq ▸ List.mem_cons_self)
  have htable := header_table hidentifier
  have hnew : ∀ name ∈ arguments,
      ((FunctionKind.addToCurrentTable {} "this").addToCurrentTable identifier).symbolTable.lookup
        name = none := by
    intro name hmem
    have h1 : name ≠ "this" := fun heq => hthis (List.mem_cons_of_mem identifier (heq ▸ hmem))
    have h2 : name ≠ identifier := ne_of_mem_of_not_mem hmem hnotin
    rw [htable]
    simp [h1, h2]
  have hslot := lookup_foldl arguments _ hnodup hnew i hi
  rw [htable] at hslot
  exact calculateFunction_keeps _ _ _ hslot

theorem placeArguments_parameter {α : Type} [NumOps α] (count : ℕ) (stack : List (Reg α)) (i : ℕ)
    (h : i < count) : placeArguments count stack (2 + (i + 1)) = stack.getD i .null := by
  have hbounds : 3 ≤ 2 + (i + 1) ∧ 2 + (i + 1) < count + 3 := by omega
  have hindex : 2 + (i + 1) - 3 = i := by omega
  simp only [placeArguments, if_pos hbounds, hindex]

theorem calculateFunction_aligned {identifier : String} {arguments : List String}
    (h : arguments = [] ∨ Separate identifier arguments) (body : Body) :
    Aligned arguments (calculateFunction identifier arguments body) := by
  have hnumbered := calculateFunction_numbered identifier arguments body
  have hthis := lookup_this identifier arguments body
  have hparameter : ∀ (i : ℕ) (hi : i < arguments.length),
      (calculateFunction identifier arguments body).symbolTable.lookup arguments[i] =
        some (2 + (i + 1)) := by
    intro i hi
    rcases h with rfl | h
    · exact absurd hi (Nat.not_lt_zero i)
    · exact lookup_parameter h body i hi
  exact {
    this := hthis
    parameter := hparameter
    stored := fun stack i hi => placeArguments_parameter _ stack i hi
    thisOnly := fun name hname => lookup_injective hnumbered hname hthis
    parameterOnly := fun i hi name hname => lookup_injective hnumbered hname (hparameter i hi) }

theorem lookup_identifier (identifier : String) (arguments : List String) (body : Body) :
    ∃ r ≤ 2, (calculateFunction identifier arguments body).symbolTable.lookup identifier = some r := by
  by_cases h : identifier = "this"
  · subst h
    exact ⟨1, by omega, lookup_this _ _ _⟩
  · refine ⟨2, Nat.le_refl 2, ?_⟩
    apply calculateFunction_keeps
    apply (keeps_entry identifier 2).foldl
    rw [header_table h, List.lookup_cons, beq_eq_false_iff_ne.mpr h]
    simp

theorem lookup_first_of_this {argument : String} (arguments : List String) (body : Body)
    (h : argument ≠ "this") :
    (calculateFunction "this" (argument :: arguments) body).symbolTable.lookup argument = some 2 := by
  apply calculateFunction_keeps
  rw [List.foldl_cons]
  apply (keeps_entry argument 2).foldl
  have hthis : (FunctionKind.addToCurrentTable {} "this").addToCurrentTable "this" =
      FunctionKind.addToCurrentTable {} "this" := addToCurrentTable_old (r := 1) rfl
  rw [hthis, header_table h, List.lookup_cons, beq_eq_false_iff_ne.mpr h]
  simp

theorem separate_of_aligned {identifier : String} {argument : String} {arguments : List String}
    {body : Body}
    (h : Aligned (argument :: arguments)
      (calculateFunction identifier (argument :: arguments) body)) :
    Separate identifier (argument :: arguments) := by
  have hslot : ∀ name ∈ argument :: arguments, ∃ i,
      (calculateFunction identifier (argument :: arguments) body).symbolTable.lookup name =
        some (2 + (i + 1)) := by
    intro name hmem
    obtain ⟨i, hi, rfl⟩ := List.getElem_of_mem hmem
    exact ⟨i, h.parameter i hi⟩
  have hthis : "this" ∉ argument :: arguments := by
    intro hmem
    obtain ⟨i, hi⟩ := hslot "this" hmem
    rw [h.this, Option.some.injEq] at hi
    omega
  have hidentifier : identifier ∉ argument :: arguments := by
    intro hmem
    obtain ⟨i, hi⟩ := hslot identifier hmem
    obtain ⟨r, hle, hr⟩ := lookup_identifier identifier (argument :: arguments) body
    rw [hr, Option.some.injEq] at hi
    omega
  have hne : identifier ≠ "this" := by
    rintro rfl
    have hargument : argument ≠ "this" := fun heq => hthis (heq ▸ List.mem_cons_self)
    have hfirst := h.parameter 0 (Nat.succ_pos _)
    rw [List.getElem_cons_zero, lookup_first_of_this arguments body hargument] at hfirst
    exact absurd hfirst (by simp)
  have hnodup : (argument :: arguments).Nodup := by
    rw [List.nodup_iff_injective_getElem]
    intro i j heq
    have hi := h.parameter i i.isLt
    have hj := h.parameter j j.isLt
    simp only at heq
    rw [heq, hj, Option.some.injEq] at hi
    apply Fin.ext
    omega
  refine ⟨List.nodup_cons.mpr ⟨hidentifier, hnodup⟩, ?_⟩
  intro hmem
  rcases List.mem_cons.mp hmem with heq | hmem
  · exact hne heq.symm
  · exact hthis hmem

theorem kind_symbolTable (node : FunctionNode) (s : CompilerState) :
    (Compiler.FunctionNode.kind node s).symbolTable =
      (if node.addressed then calculateFunction node.identifier node.arguments node.body
        else {}).symbolTable := rfl

theorem Aligned.of_symbolTable {arguments : List String} {fk fk' : FunctionKind}
    (h : Aligned arguments fk) (heq : fk'.symbolTable = fk.symbolTable) : Aligned arguments fk' := by
  refine ⟨?_, ?_, h.stored, ?_, ?_⟩ <;> rw [heq]
  · exact h.this
  · exact h.parameter
  · exact h.thisOnly
  · exact h.parameterOnly

/-- The parameters of a function are where `FFRAME` puts its arguments exactly when the traversal
reaches the function, which it does not inside a `try` statement, and the header has no name twice. -/
theorem aligned_iff (node : FunctionNode) (s : CompilerState) :
    Aligned node.arguments (Compiler.FunctionNode.kind node s) ↔
      node.addressed = true ∧ (node.arguments = [] ∨ Separate node.identifier node.arguments) := by
  have htable := kind_symbolTable node s
  constructor
  · intro h
    cases haddressed : node.addressed with
    | false =>
      have hthis := h.this
      rw [htable, haddressed] at hthis
      exact absurd hthis (by simp)
    | true =>
      rw [haddressed, if_pos rfl] at htable
      refine ⟨rfl, ?_⟩
      have h' := h.of_symbolTable htable.symm
      cases hargs : node.arguments with
      | nil => exact Or.inl rfl
      | cons argument arguments =>
        rw [hargs] at h'
        exact Or.inr (separate_of_aligned h')
  · rintro ⟨haddressed, h⟩
    rw [haddressed, if_pos rfl] at htable
    exact (calculateFunction_aligned h node.body).of_symbolTable htable

/-- `node` is declared in a statement at `path`; `outside` is false where a body of a `try` statement
that begins in the statement is around it. -/
inductive Declares : List ℕ → Stmt → Bool → FunctionNode → Prop where
  | function {path : List ℕ} {isStatic isAsync isPrivate : Bool} {identifier : String} {arguments : List String}
      {body : Body} {addressed : Bool} :
      Declares path (.function isStatic isAsync isPrivate identifier arguments body) true
        ⟨path, addressed, isStatic, isAsync, identifier, arguments, body⟩
  | loop {path : List ℕ} {startExpr condition iterExpr : Option Expr} {body : Body} {i : ℕ} {stmt : Stmt}
      {outside : Bool} {node : FunctionNode} (hi : body[i]? = some stmt)
      (h : Declares (i :: path) stmt outside node) :
      Declares path (.loop startExpr condition iterExpr body) outside node
  | block {path : List ℕ} {body : Body} {i : ℕ} {stmt : Stmt} {outside : Bool} {node : FunctionNode}
      (hi : body[i]? = some stmt) (h : Declares (i :: path) stmt outside node) :
      Declares path (.block body) outside node
  | conditional {path : List ℕ} {condition : Expr} {body : Body} {elseBody : Option Body} {i : ℕ} {stmt : Stmt}
      {outside : Bool} {node : FunctionNode} (hi : body[i]? = some stmt)
      (h : Declares (i :: 0 :: path) stmt outside node) :
      Declares path (.conditional condition body elseBody) outside node
  | otherwise {path : List ℕ} {condition : Expr} {body elseBody : Body} {i : ℕ} {stmt : Stmt} {outside : Bool}
      {node : FunctionNode} (hi : elseBody[i]? = some stmt) (h : Declares (i :: 1 :: path) stmt outside node) :
      Declares path (.conditional condition body (some elseBody)) outside node
  | tried {path : List ℕ} {catchIdent : String} {tryBody catchBody : Body} {finallyBody : Option Body} {i : ℕ}
      {stmt : Stmt} {outside : Bool} {node : FunctionNode} (hi : tryBody[i]? = some stmt)
      (h : Declares (i :: 0 :: path) stmt outside node) :
      Declares path (.tryCatch catchIdent tryBody catchBody finallyBody) false node
  | caught {path : List ℕ} {catchIdent : String} {tryBody catchBody : Body} {finallyBody : Option Body} {i : ℕ}
      {stmt : Stmt} {outside : Bool} {node : FunctionNode} (hi : catchBody[i]? = some stmt)
      (h : Declares (i :: 1 :: path) stmt outside node) :
      Declares path (.tryCatch catchIdent tryBody catchBody finallyBody) false node
  | finally {path : List ℕ} {catchIdent : String} {tryBody catchBody finallyBody : Body} {i : ℕ} {stmt : Stmt}
      {outside : Bool} {node : FunctionNode} (hi : finallyBody[i]? = some stmt)
      (h : Declares (i :: 2 :: path) stmt outside node) :
      Declares path (.tryCatch catchIdent tryBody catchBody (some finallyBody)) false node

theorem Declares.suffix {path : List ℕ} {stmt : Stmt} {outside : Bool} {node : FunctionNode}
    (h : Declares path stmt outside node) : path <:+ node.path := by
  induction h with
  | function => exact List.suffix_refl _
  | loop _ _ ih | block _ _ ih => exact (List.suffix_cons _ _).trans ih
  | conditional _ _ ih | otherwise _ _ ih | tried _ _ ih | caught _ _ ih | «finally» _ _ ih =>
    exact ((List.suffix_cons _ _).trans (List.suffix_cons _ _)).trans ih

theorem Declares.unique {path : List ℕ} {stmt : Stmt} {outside outside' : Bool} {node : FunctionNode}
    (h : Declares path stmt outside node) (h' : Declares path stmt outside' node) : outside = outside' := by
  have hsame : ∀ {xs ys : List ℕ}, xs <:+ node.path → ys <:+ node.path → xs.length = ys.length → xs = ys :=
    fun hx hy hlength => (List.suffix_of_suffix_length_le hx hy hlength.le).eq_of_length hlength
  induction h generalizing outside' with
  | function =>
    cases h'
    rfl
  | loop hi h ih =>
    cases h' with
    | loop hi' h' =>
      cases hsame h.suffix h'.suffix rfl
      rw [hi] at hi'
      cases hi'
      exact ih h' hsame
  | block hi h ih =>
    cases h' with
    | block hi' h' =>
      cases hsame h.suffix h'.suffix rfl
      rw [hi] at hi'
      cases hi'
      exact ih h' hsame
  | conditional hi h ih =>
    cases h' with
    | conditional hi' h' =>
      cases hsame h.suffix h'.suffix rfl
      rw [hi] at hi'
      cases hi'
      exact ih h' hsame
    | otherwise hi' h' => cases hsame h.suffix h'.suffix rfl
  | otherwise hi h ih =>
    cases h' with
    | conditional hi' h' => cases hsame h.suffix h'.suffix rfl
    | otherwise hi' h' =>
      cases hsame h.suffix h'.suffix rfl
      rw [hi] at hi'
      cases hi'
      exact ih h' hsame
  | tried | caught | «finally» => cases h' <;> rfl

abbrev Queues (P : FunctionNode → Prop) (s s' : CompilerState) : Prop :=
  ∀ node ∈ s'.functionsToCompile, node ∈ s.functionsToCompile ∨ P node

instance (P : FunctionNode → Prop) : CompilerSteps.Advance (Queues P) where
  refl _ _ hnode := Or.inl hnode
  trans h h' node hnode := (h' node hnode).elim (h node) Or.inr
  tables _ _ _ hnode := Or.inl hnode
  counted _ _ hnode := Or.inl hnode

structure Covers (P : FunctionNode → Prop) (context : Context) (stmt : Stmt) : Prop where
  declared : ∀ outside node, Declares context.path stmt outside node →
    node.addressed = (context.addressed && outside) → P node
  repeated : ∀ block ∈ context.finallyBlocks, ∀ i other outside node, block.2[i]? = some other →
    Declares (i :: block.1) other outside node → node.addressed = false → P node

open CompilerSteps in
theorem compileStmt_queues (fuel : ℕ) {P : FunctionNode → Prop} {context : Context} {stmt : Stmt}
    (h : Covers P context stmt) : Advances (Queues P) (Compiler.compileStmt fuel context stmt) := by
  induction fuel generalizing context stmt with
  | zero =>
    intro s b s' c hrun
    cases hrun
  | succ fuel ih =>
    cases stmt with
    | expression e hasReturn hasBreak =>
      refine compileExpressionStmt_advances _ _ _ fun block hblock => compileBody_advances fun i other hother => ?_
      refine ih ⟨fun outside node hnode haddressed => ?_, h.repeated⟩
      exact h.repeated block hblock i other outside node hother hnode haddressed
    | function =>
      intro s b s' c hrun node hnode
      cases hrun
      rcases List.mem_append.mp hnode with hnode | hnode
      · exact Or.inl hnode
      · obtain rfl := List.mem_singleton.mp hnode
        exact Or.inr (h.declared true _ .function (Bool.and_true _).symm)
    | var => exact compileVar_advances _ _ _
    | loop =>
      refine compileLoop_advances _ _ _ fun lend => compileBody_advances fun i stmt hi => ih ?_
      exact ⟨fun outside node hnode => h.declared outside node (.loop hi hnode), h.repeated⟩
    | block =>
      refine compileBody_advances fun i stmt hi => ih ?_
      exact ⟨fun outside node hnode => h.declared outside node (.block hi hnode), h.repeated⟩
    | conditional condition body elseBody =>
      refine compileConditional_advances _ (compileBody_advances fun i stmt hi => ih ?_) fun other hother =>
        compileBody_advances fun i stmt hi => ih ?_
      · exact ⟨fun outside node hnode => h.declared outside node (.conditional hi hnode), h.repeated⟩
      · obtain rfl := Option.mem_def.mp hother
        exact ⟨fun outside node hnode => h.declared outside node (.otherwise hi hnode), h.repeated⟩
    | tryCatch catchIdent tryBody catchBody finallyBody =>
      have hrepeated : ∀ block ∈ (Compiler.tryContext context 0 finallyBody).finallyBlocks,
          ∀ i other outside node, block.2[i]? = some other → Declares (i :: block.1) other outside node →
            node.addressed = false → P node := by
        intro block hblock i other outside node hi hnode haddressed
        rcases List.mem_append.mp hblock with hblock | hblock
        · exact h.repeated block hblock i other outside node hi hnode haddressed
        · obtain ⟨body, hbody, rfl⟩ := Option.map_eq_some_iff.mp (Option.mem_toList.mp hblock)
          obtain rfl : finallyBody = some body := hbody
          exact h.declared false node (.finally hi hnode) (by rw [haddressed, Bool.and_false])
      have hinside : ∀ node : FunctionNode, ∀ outside, node.addressed = (false && outside) →
          node.addressed = (context.addressed && false) := by
        intro node outside haddressed
        rw [haddressed, Bool.false_and, Bool.and_false]
      refine compileTryCatch_advances _ (compileBody_advances fun i stmt hi => ih ?_)
        (compileBody_advances fun i stmt hi => ih ?_) fun body hbody => compileBody_advances fun i stmt hi => ih ?_
      · exact ⟨fun outside node hnode haddressed =>
          h.declared false node (.tried hi hnode) (hinside node outside haddressed), hrepeated⟩
      · exact ⟨fun outside node hnode haddressed =>
          h.declared false node (.caught hi hnode) (hinside node outside haddressed), hrepeated⟩
      · obtain rfl := Option.mem_def.mp hbody
        exact ⟨fun outside node hnode haddressed =>
          h.declared false node (.finally hi hnode) (hinside node outside haddressed), hrepeated⟩

/-- A function that the body of another one leaves for later has been visited just when the other one has
and no `try` statement of the body is around the declaration. -/
theorem addressed_iff_outside {fuel : ℕ} {path : List ℕ} {addressed : Bool} {body : Body} {s s' : CompilerState}
    {c : Code} (hrun : Compiler.compileBody (Compiler.compileStmt fuel) (Compiler.functionContext path addressed)
      body s = .ok ((), s', c)) (hs : s.functionsToCompile = []) :
    ∀ node ∈ s'.functionsToCompile, ∃ i stmt outside, body[i]? = some stmt ∧
      Declares (i :: path) stmt outside node ∧ node.addressed = (addressed && outside) := by
  have hqueues := CompilerSteps.compileBody_advances (R := Queues fun node => ∃ i stmt outside,
    body[i]? = some stmt ∧ Declares (i :: path) stmt outside node ∧ node.addressed = (addressed && outside))
    (fun i stmt hi => compileStmt_queues fuel ⟨fun outside node hnode haddressed =>
      ⟨i, stmt, outside, hi, hnode, haddressed⟩, fun _ hblock => absurd hblock List.not_mem_nil⟩) s () s' c hrun
  intro node hnode
  rcases hqueues node hnode with hold | hnew
  · rw [hs] at hold
    cases hold
  · exact hnew

def repeatedParameter : FunctionNode := ⟨[0], true, false, false, "f", ["a", "a", "b"], []⟩

/-- The third argument is stored in local 5, and `b` is register 4. -/
theorem repeatedParameter_misaligned :
    (Compiler.FunctionNode.kind repeatedParameter { function := {} }).symbolTable.lookup "b" = some 4 ∧
      placeArguments 3 [.ofNum 10, .ofNum 20, (.ofNum 30 : Reg ℚ)] 4 = .ofNum 20 ∧
      ¬ Aligned repeatedParameter.arguments
        (Compiler.FunctionNode.kind repeatedParameter { function := {} }) := by
  refine ⟨by decide, rfl, ?_⟩
  intro h
  have hthird := h.parameter 2 (by decide)
  exact absurd hthird (by decide)

end ParameterRegisters

end Zeroscript
