import Zeroscript.Ast
import Zeroscript.FunctionKind

/-! # `AddressCalculator`

One traversal fills the symbol table of every function before any code is emitted. A nested
function has a table of its own, so the traversal of one body is a fold over its own names. -/
namespace Zeroscript

namespace FunctionKind

/-- `addToCurrentTable`: `insert` keeps an entry that is there. -/
def addToCurrentTable (fk : FunctionKind) (identifier : String) : FunctionKind :=
  if (fk.symbolTable.lookup identifier).isSome then fk
  else { fk with symbolTable := fk.symbolTable ++ [(identifier, fk.symbolTable.length + 1)] }

def addToCurrentPrivatesMap (fk : FunctionKind) (identifier : String) : FunctionKind :=
  if fk.privatesTable.contains identifier then fk
  else { fk with privatesTable := fk.privatesTable ++ [identifier] }

def addPrivateIf (fk : FunctionKind) (isPrivate : Bool) (identifier : String) : FunctionKind :=
  if isPrivate then fk.addToCurrentPrivatesMap identifier else fk

end FunctionKind

mutual

/-- `calculateStatement`. The bodies of a `try` statement are not visited. -/
def calculateStatement : Stmt → FunctionKind → FunctionKind
  | .expression _ _ _ _, fk => fk
  | .function _ _ isPrivate identifier _ _, fk =>
    (fk.addToCurrentTable identifier).addPrivateIf isPrivate identifier
  | .var identifier _ isPrivate isSynchronized, fk =>
    (if isSynchronized then fk else fk.addToCurrentTable identifier).addPrivateIf isPrivate identifier
  | .loop _ _ _ body, fk => calculateBody body fk
  | .block body, fk => calculateBody body fk
  | .conditional _ body none, fk => calculateBody body fk
  | .conditional _ body (some elseBody), fk => calculateBody elseBody (calculateBody body fk)
  | .tryCatch catchIdent _ _ _, fk => fk.addToCurrentTable catchIdent

def calculateBody : Body → FunctionKind → FunctionKind
  | [], fk => fk
  | stmt :: rest, fk => calculateBody rest (calculateStatement stmt fk)

end

def calculateFunction (identifier : String) (arguments : List String) (body : Body) : FunctionKind :=
  calculateBody body
    (arguments.foldl FunctionKind.addToCurrentTable
      ((FunctionKind.addToCurrentTable {} "this").addToCurrentTable identifier))

def calculateClass (cls : ClassDeclaration) : FunctionKind :=
  calculateBody cls.body
    (cls.arguments.foldl FunctionKind.addToCurrentTable (FunctionKind.addToCurrentTable {} "this"))

/-- The slots of a table are 1, 2, … in the order in which their names were added. -/
def Numbered (fk : FunctionKind) : Prop :=
  fk.symbolTable.map Prod.snd = List.range' 1 fk.symbolTable.length ∧ fk.registerTable = []

theorem Numbered.addToCurrentTable {fk : FunctionKind} (h : Numbered fk) (identifier : String) :
    Numbered (fk.addToCurrentTable identifier) := by
  unfold FunctionKind.addToCurrentTable
  split
  · exact h
  · refine ⟨?_, h.2⟩
    simp only [List.map_append, List.map_cons, List.map_nil, List.length_append, List.length_cons,
      List.length_nil, h.1]
    rw [List.range'_concat]
    simp [Nat.add_comm]

theorem Numbered.addPrivateIf {fk : FunctionKind} (h : Numbered fk) (isPrivate : Bool)
    (identifier : String) : Numbered (fk.addPrivateIf isPrivate identifier) := by
  unfold FunctionKind.addPrivateIf FunctionKind.addToCurrentPrivatesMap
  split
  · split <;> exact h
  · exact h

structure Additive (P : FunctionKind → Prop) : Prop where
  add : ∀ fk identifier, P fk → P (fk.addToCurrentTable identifier)
  addPrivate : ∀ fk isPrivate identifier, P fk → P (fk.addPrivateIf isPrivate identifier)

theorem Additive.foldl {P : FunctionKind → Prop} (hP : Additive P) (names : List String)
    {fk : FunctionKind} (h : P fk) : P (names.foldl FunctionKind.addToCurrentTable fk) := by
  induction names generalizing fk with
  | nil => exact h
  | cons name names ih => exact ih (hP.add fk name h)

mutual

theorem calculateStatement_preserves {P : FunctionKind → Prop} (hP : Additive P) :
    ∀ (stmt : Stmt) (fk : FunctionKind), P fk → P (calculateStatement stmt fk)
  | .expression _ _ _ _, _, h => by
    rw [calculateStatement]
    exact h
  | .function _ _ _ _ _ _, fk, h => by
    rw [calculateStatement]
    exact hP.addPrivate _ _ _ (hP.add fk _ h)
  | .var _ _ _ isSynchronized, fk, h => by
    rw [calculateStatement]
    cases isSynchronized with
    | true => exact hP.addPrivate fk _ _ h
    | false => exact hP.addPrivate _ _ _ (hP.add fk _ h)
  | .loop _ _ _ body, fk, h => by
    rw [calculateStatement]
    exact calculateBody_preserves hP body fk h
  | .block body, fk, h => by
    rw [calculateStatement]
    exact calculateBody_preserves hP body fk h
  | .conditional _ body none, fk, h => by
    rw [calculateStatement]
    exact calculateBody_preserves hP body fk h
  | .conditional _ body (some elseBody), fk, h => by
    rw [calculateStatement]
    exact calculateBody_preserves hP elseBody _ (calculateBody_preserves hP body fk h)
  | .tryCatch _ _ _ _, fk, h => by
    rw [calculateStatement]
    exact hP.add fk _ h

theorem calculateBody_preserves {P : FunctionKind → Prop} (hP : Additive P) :
    ∀ (body : Body) (fk : FunctionKind), P fk → P (calculateBody body fk)
  | [], _, h => by
    rw [calculateBody]
    exact h
  | stmt :: rest, fk, h => by
    rw [calculateBody]
    exact calculateBody_preserves hP rest _ (calculateStatement_preserves hP stmt fk h)

end

theorem calculateFunction_preserves {P : FunctionKind → Prop} (hP : Additive P) (h : P {})
    (identifier : String) (arguments : List String) (body : Body) :
    P (calculateFunction identifier arguments body) :=
  calculateBody_preserves hP body _ (hP.foldl arguments (hP.add _ identifier (hP.add _ "this" h)))

theorem calculateClass_preserves {P : FunctionKind → Prop} (hP : Additive P) (h : P {})
    (cls : ClassDeclaration) : P (calculateClass cls) :=
  calculateBody_preserves hP cls.body _ (hP.foldl cls.arguments (hP.add _ "this" h))

theorem numbered_additive : Additive Numbered :=
  ⟨fun _ name h => h.addToCurrentTable name, fun _ isPrivate name h => h.addPrivateIf isPrivate name⟩

theorem numbered_empty : Numbered {} := ⟨rfl, rfl⟩

theorem calculateFunction_numbered (identifier : String) (arguments : List String) (body : Body) :
    Numbered (calculateFunction identifier arguments body) :=
  calculateFunction_preserves numbered_additive numbered_empty identifier arguments body

theorem calculateClass_numbered (cls : ClassDeclaration) : Numbered (calculateClass cls) :=
  calculateClass_preserves numbered_additive numbered_empty cls

def Distinct (fk : FunctionKind) : Prop := (fk.symbolTable.map Prod.fst).Nodup

theorem Distinct.addToCurrentTable {fk : FunctionKind} (h : Distinct fk) (identifier : String) :
    Distinct (fk.addToCurrentTable identifier) := by
  unfold FunctionKind.addToCurrentTable
  split
  · exact h
  · rename_i hnew
    have hmem : identifier ∉ fk.symbolTable.map Prod.fst := by
      intro hmem
      obtain ⟨entry, hentry, rfl⟩ := List.mem_map.mp hmem
      apply hnew
      rw [List.lookup_isSome_iff]
      exact ⟨entry, hentry, by simp⟩
    unfold Distinct
    rw [List.map_append, List.nodup_append]
    refine ⟨h, by simp, ?_⟩
    intro name hname name' hname' heq
    obtain rfl := List.mem_singleton.mp hname'
    exact hmem (heq ▸ hname)

theorem Distinct.addPrivateIf {fk : FunctionKind} (h : Distinct fk) (isPrivate : Bool)
    (identifier : String) : Distinct (fk.addPrivateIf isPrivate identifier) := by
  unfold FunctionKind.addPrivateIf FunctionKind.addToCurrentPrivatesMap
  split
  · split <;> exact h
  · exact h

theorem distinct_additive : Additive Distinct :=
  ⟨fun _ name h => h.addToCurrentTable name, fun _ isPrivate name h => h.addPrivateIf isPrivate name⟩

theorem calculateFunction_distinct (identifier : String) (arguments : List String) (body : Body) :
    Distinct (calculateFunction identifier arguments body) :=
  calculateFunction_preserves distinct_additive List.nodup_nil identifier arguments body

theorem calculateClass_distinct (cls : ClassDeclaration) : Distinct (calculateClass cls) :=
  calculateClass_preserves distinct_additive List.nodup_nil cls

end Zeroscript
