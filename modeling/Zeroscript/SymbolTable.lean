import Zeroscript.AddressCalculator
import Zeroscript.Lib.Bytes
import Zeroscript.Object

/-! # Symbol tables in the image

`Assembler` writes the names of a function in the order of their registers, each with a byte for
privacy; `build_symbol_table` numbers them again by position. -/
namespace Zeroscript.SymbolTable

open Bytes

/-- `setOfWords.insert`: the set is ordered by register, and keeps the pair it has. -/
def insertWord (pair : String × ℕ) : List (String × ℕ) → List (String × ℕ)
  | [] => [pair]
  | head :: rest =>
    if pair.2 < head.2 then pair :: head :: rest
    else if head.2 < pair.2 then head :: insertWord pair rest
    else head :: rest

def setOfWords (symbolTable : List (String × ℕ)) : List (String × ℕ) :=
  symbolTable.foldl (fun words pair => insertWord pair words) []

def entryBytes (entry : String × Bool) : List UInt8 :=
  cString entry.1 ++ [if entry.2 then 1 else 0]

/-- The symbol table that `Assembler` writes for an `FFRAME`. -/
def symbolBytes (fk : FunctionKind) : List UInt8 :=
  ofWord fk.symbolTable.length ++
    (setOfWords fk.symbolTable).flatMap fun pair =>
      entryBytes (pair.1, fk.privatesTable.contains pair.1)

def readEntries (data : List UInt8) : ℕ → ℕ → ℕ → ZMap ℕ → Option (ZMap ℕ)
  | 0, _, _, symbolTable => some symbolTable
  | remaining + 1, i, pos, symbolTable => do
    let item ← cStringAt data pos
    let name ← ofText item
    let isPrivate ← data[pos + item.length + 1]?
    readEntries data remaining (i + 1) (pos + item.length + 2)
      (symbolTable.insertFlags name (i + 1) ⟨true, isPrivate != 0⟩)

/-- `build_symbol_table`, on the bytes. -/
def readSymbolTable (data : List UInt8) (pos : ℕ) : Option (ZMap ℕ) := do
  let size ← wordAt data pos
  readEntries data size 0 (pos + 8) .new

theorem insertWord_last {pair : String × ℕ} {words : List (String × ℕ)}
    (h : ∀ word ∈ words, word.2 < pair.2) : insertWord pair words = words ++ [pair] := by
  induction words with
  | nil => rfl
  | cons head rest ih =>
    have hlt := h head List.mem_cons_self
    rw [insertWord, if_neg (by omega), if_pos hlt, ih fun word hm => h word (List.mem_cons_of_mem _ hm)]
    rfl

theorem foldl_insertWord (symbolTable words : List (String × ℕ))
    (h : (words ++ symbolTable).map Prod.snd = List.range' 1 (words ++ symbolTable).length) :
    symbolTable.foldl (fun words pair => insertWord pair words) words = words ++ symbolTable := by
  induction symbolTable generalizing words with
  | nil => simp
  | cons pair rest ih =>
    have hlast : ∀ word ∈ words, word.2 < pair.2 := by
      intro word hword
      have hsorted : ((words ++ pair :: rest).map Prod.snd).Pairwise (· < ·) := by
        rw [h]
        exact List.pairwise_lt_range'
      rw [List.map_append, List.pairwise_append] at hsorted
      exact hsorted.2.2 word.2 (List.mem_map_of_mem hword) pair.2 (by simp)
    rw [List.foldl_cons, insertWord_last hlast, ih _ (by simpa using h)]
    simp

/-- Registers are given in the order in which the names came, so the set changes nothing. -/
theorem setOfWords_numbered {fk : FunctionKind} (h : Numbered fk) :
    setOfWords fk.symbolTable = fk.symbolTable := by
  unfold setOfWords
  rw [foldl_insertWord _ [] (by simpa using h.1)]
  rfl

def tableBytes (table : SymbolInfo) : List UInt8 := ofWord table.length ++ table.flatMap entryBytes

theorem symbolBytes_numbered {fk : FunctionKind} (h : Numbered fk) :
    symbolBytes fk = tableBytes fk.symbolInfo := by
  unfold symbolBytes tableBytes FunctionKind.symbolInfo
  rw [setOfWords_numbered h, List.length_map, List.flatMap_map]

theorem readEntries_entries {data : List UInt8} {table : SymbolInfo} (before after : List UInt8)
    (i : ℕ) {pos : ℕ} (symbolTable : ZMap ℕ) (hnul : ∀ entry ∈ table, NulFree entry.1)
    (hdata : data = before ++ table.flatMap entryBytes ++ after)
    (hpos : pos = before.length) :
    readEntries data table.length i pos symbolTable =
      some ((table.zipIdx i).foldl
        (fun symbolTable item => symbolTable.insertFlags item.1.1 (item.2 + 1) ⟨true, item.1.2⟩)
        symbolTable) := by
  induction table generalizing before i pos symbolTable with
  | nil => rfl
  | cons entry rest ih =>
    obtain ⟨name, isPrivate⟩ := entry
    have hname : NulFree name := hnul (name, isPrivate) List.mem_cons_self
    have hrest : ∀ entry ∈ rest, NulFree entry.1 := fun e he => hnul e (List.mem_cons_of_mem _ he)
    have hitem : cStringAt data pos = some (text name) := by
      apply cStringAt_of_holds hname
      refine ⟨before, [if isPrivate then 1 else 0] ++ rest.flatMap entryBytes ++ after, ?_, hpos.symm⟩
      rw [hdata]
      simp [entryBytes]
    have hsplit : data = (before ++ entryBytes (name, isPrivate)) ++ rest.flatMap entryBytes ++ after := by
      rw [hdata]
      simp
    have hlength : (entryBytes (name, isPrivate)).length = (text name).length + 2 := by
      simp [entryBytes, hname.cString]
    have hflag : data[pos + (text name).length + 1]? = some (if isPrivate then 1 else 0) := by
      have hbytes : data = (before ++ cString name) ++
          ((if isPrivate then 1 else 0) :: (rest.flatMap entryBytes ++ after)) := by
        rw [hdata]
        simp [entryBytes]
      have hat : pos + (text name).length + 1 = (before ++ cString name).length := by
        rw [hname.cString, hpos]
        simp
        omega
      rw [hbytes, hat, List.getElem?_append_right (le_refl _)]
      simp
    have hprivate : ((if isPrivate then (1 : UInt8) else 0) != 0) = isPrivate := by
      cases isPrivate <;> decide
    rw [List.length_cons, readEntries, hitem]
    simp only [Option.bind_eq_bind, Option.bind_some, ofText_text, hflag, hprivate]
    rw [ih _ _ _ hrest hsplit (by rw [List.length_append, hlength, hpos]; omega)]
    rfl

theorem length_le_entries (table : SymbolInfo) :
    table.length ≤ (table.flatMap entryBytes).length := by
  induction table with
  | nil => exact Nat.zero_le _
  | cons entry rest ih =>
    have hone : 1 ≤ (entryBytes entry).length := by simp [entryBytes]
    rw [List.flatMap_cons, List.length_append, List.length_cons]
    omega

theorem readSymbolTable_of_holds {data : List UInt8} {table : SymbolInfo} {pos : ℕ}
    (hnul : ∀ entry ∈ table, NulFree entry.1) (h : Holds data pos (tableBytes table))
    (hsize : data.length < 2 ^ 64) : readSymbolTable data pos = some (buildSymbolTable table) := by
  have hlength : table.length < 2 ^ 64 := by
    have hle := length_le_entries table
    have hroom := h.le_length
    simp only [tableBytes, List.length_append] at hroom
    omega
  have hword : wordAt data pos = some table.length := by
    rw [wordAt_of_holds h.left, Nat.mod_eq_of_lt hlength]
  obtain ⟨before, after, hsplit, hbefore⟩ := h.right
  have hentries := readEntries_entries before after 0 ZMap.new hnul hsplit rfl
  rw [length_ofWord] at hbefore
  rw [hbefore] at hentries
  unfold readSymbolTable
  rw [hword]
  exact hentries

theorem insertFlags_new {m : ZMap ℕ} {name : String} {value : ℕ} {flags : MapFlags}
    (himmutable : m.isImmutable = false) (hnew : name ∉ m.entries.map (·.key)) :
    (m.insertFlags name value flags).isImmutable = false ∧
      (m.insertFlags name value flags).entries = m.entries ++ [⟨name, value, flags⟩] := by
  have hany : (m.entries.any (·.key = name)) = false := by
    rw [List.any_eq_false]
    intro entry hentry hkey
    exact hnew (List.mem_map.mpr ⟨entry, hentry, by simpa using hkey⟩)
  unfold ZMap.insertFlags
  simp [himmutable, hany]

theorem entries_foldl (table : SymbolInfo) (i : ℕ) (m : ZMap ℕ) (himmutable : m.isImmutable = false)
    (hnew : (m.entries.map (·.key) ++ table.map Prod.fst).Nodup) :
    ((table.zipIdx i).foldl
      (fun m item => m.insertFlags item.1.1 (item.2 + 1) ⟨true, item.1.2⟩) m).entries =
      m.entries ++ (table.zipIdx i).map fun item => ⟨item.1.1, item.2 + 1, ⟨true, item.1.2⟩⟩ := by
  induction table generalizing i m with
  | nil => simp
  | cons entry rest ih =>
    have hname : entry.1 ∉ m.entries.map (·.key) := by
      intro hmem
      rw [List.nodup_append] at hnew
      exact hnew.2.2 _ hmem _ (by simp) rfl
    obtain ⟨himm, hentries⟩ := @insertFlags_new m entry.1 (i + 1) ⟨true, entry.2⟩ himmutable hname
    rw [List.zipIdx_cons, List.foldl_cons, ih (i + 1) _ himm (by rw [hentries]; simpa using hnew),
      hentries]
    simp

theorem zipIdx_numbered {β : Type} (f : String → β) (symbolTable : List (String × ℕ)) (i : ℕ)
    (h : symbolTable.map Prod.snd = List.range' (i + 1) symbolTable.length) :
    ((symbolTable.map fun pair => (pair.1, f pair.1)).zipIdx i).map
        (fun item => (item.1.1, item.2 + 1, item.1.2)) =
      symbolTable.map fun pair => (pair.1, pair.2, f pair.1) := by
  induction symbolTable generalizing i with
  | nil => rfl
  | cons pair rest ih =>
    rw [List.map_cons, List.length_cons, List.range'_succ, List.cons.injEq] at h
    rw [List.map_cons, List.zipIdx_cons, List.map_cons, List.map_cons, ih (i + 1) h.2, ← h.1]

theorem getFlags_symbolInfo {fk : FunctionKind} (hnumbered : Numbered fk) (hdistinct : Distinct fk)
    (x : String) :
    (buildSymbolTable fk.symbolInfo).getFlags x =
      (fk.symbolTable.lookup x).map fun r => (r, ⟨true, fk.privatesTable.contains x⟩) := by
  have hnames : fk.symbolInfo.map Prod.fst = fk.symbolTable.map Prod.fst := by
    simp [FunctionKind.symbolInfo]
  have hentries := entries_foldl fk.symbolInfo 0 ZMap.new rfl (by
    rw [hnames]
    exact hdistinct)
  have hzip := zipIdx_numbered fk.privatesTable.contains fk.symbolTable 0 hnumbered.1
  have hlist : (buildSymbolTable fk.symbolInfo).entries = fk.symbolTable.map fun pair =>
      ⟨pair.1, pair.2, ⟨true, fk.privatesTable.contains pair.1⟩⟩ := by
    have hmap := congrArg (List.map fun item : String × ℕ × Bool =>
      (⟨item.1, item.2.1, ⟨true, item.2.2⟩⟩ : MapEntry ℕ)) hzip
    rw [List.map_map, List.map_map] at hmap
    exact hentries.trans hmap
  unfold ZMap.getFlags
  rw [hlist]
  generalize fk.symbolTable = symbolTable
  induction symbolTable with
  | nil => rfl
  | cons pair rest ih =>
    rw [List.map_cons, List.find?_cons, List.lookup_cons]
    by_cases hx : pair.1 = x
    · subst hx
      simp
    · have hne : (x == pair.1) = false := beq_eq_false_iff_ne.mpr (Ne.symm hx)
      simp only [hx, decide_false, hne]
      exact ih

theorem getFlags_insertFlags_cases {β : Type} {table : ZMap β} {key key' : String} {value : β}
    {flags : MapFlags} {found : β × MapFlags}
    (h : (table.insertFlags key value flags).getFlags key' = some found) :
    table.getFlags key' = some found ∨ found = (value, flags) ∧ key' = key := by
  by_cases hkey : key' = key
  · subst hkey
    cases himmutable : table.isImmutable with
    | true =>
      unfold ZMap.insertFlags at h
      rw [if_pos himmutable] at h
      exact Or.inl h
    | false =>
      rw [ZMap.getFlags_insertFlags_self table value flags himmutable] at h
      exact Or.inr ⟨(Option.some.inj h).symm, rfl⟩
  · rw [ZMap.getFlags_insertFlags_of_ne table value flags hkey] at h
    exact Or.inl h

/-- A name has the slot of its position. -/
theorem symbol_position {symbols : SymbolInfo} {name : String} {index : ℕ}
    (h : (buildSymbolTable symbols).get name = some index) :
    ∃ i flag, symbols[i]? = some (name, flag) ∧ index = i + 1 := by
  have hfold : ∀ (items : List ((String × Bool) × ℕ)) (table : ZMap ℕ) (found : ℕ × MapFlags),
      (items.foldl (fun table item => table.insertFlags item.1.1 (item.2 + 1) ⟨true, item.1.2⟩)
        table).getFlags name = some found →
      table.getFlags name = some found ∨ ∃ item ∈ items, found.1 = item.2 + 1 ∧ item.1.1 = name := by
    intro items
    induction items with
    | nil => exact fun table found h => Or.inl h
    | cons item items ih =>
      intro table found h
      rcases ih _ found h with h | ⟨item', hitem', heq⟩
      · rcases getFlags_insertFlags_cases h with h | ⟨rfl, hname⟩
        · exact Or.inl h
        · exact Or.inr ⟨item, List.mem_cons_self, rfl, hname.symm⟩
      · exact Or.inr ⟨item', List.mem_cons_of_mem _ hitem', heq⟩
  obtain ⟨found, hfound, rfl⟩ := Option.map_eq_some_iff.mp h
  rcases hfold _ _ _ hfound with hnew | ⟨⟨⟨key, flag⟩, i⟩, hitem, heq, hname⟩
  · cases hnew
  · obtain rfl : key = name := hname
    exact ⟨i, flag, List.mem_zipIdx_iff_getElem?.mp hitem, heq⟩

theorem symbol_injective {symbols : SymbolInfo} {name name' : String} {index : ℕ}
    (h : (buildSymbolTable symbols).get name = some index)
    (h' : (buildSymbolTable symbols).get name' = some index) : name = name' := by
  obtain ⟨i, flag, hi, rfl⟩ := symbol_position h
  obtain ⟨i', flag', hi', heq⟩ := symbol_position h'
  obtain rfl := Nat.succ.inj heq
  rw [hi] at hi'
  cases hi'
  rfl

/-- What `AddressCalculator` gives a table of its own, and the functions that it does not visit. -/
inductive FunctionAst where
  | function (identifier : String) (arguments : List String) (body : Body)
  | cls (declaration : ClassDeclaration)
  | unvisited

def FunctionAst.kind : FunctionAst → FunctionKind
  | .function identifier arguments body => calculateFunction identifier arguments body
  | .cls declaration => calculateClass declaration
  | .unvisited => {}

theorem FunctionAst.numbered : ∀ ast : FunctionAst, Numbered ast.kind
  | .function identifier arguments body => calculateFunction_numbered identifier arguments body
  | .cls declaration => calculateClass_numbered declaration
  | .unvisited => numbered_empty

theorem FunctionAst.distinct : ∀ ast : FunctionAst, Distinct ast.kind
  | .function identifier arguments body => calculateFunction_distinct identifier arguments body
  | .cls declaration => calculateClass_distinct declaration
  | .unvisited => List.nodup_nil

/-- The table read from the image has the names of the compiler's table, with their registers, and a
flag on those that are in the table of privates. -/
theorem symbol_table_round_trip (ast : FunctionAst) (image before after : List UInt8)
    (hnul : ∀ name ∈ ast.kind.symbolTable.map Prod.fst, NulFree name)
    (himage : image = before ++ symbolBytes ast.kind ++ after) (hsize : image.length < 2 ^ 64) :
    ∃ symbolTable, readSymbolTable image before.length = some symbolTable ∧
      (∀ name, symbolTable.getFlags name =
        (ast.kind.symbolTable.lookup name).map fun r =>
          (r, ⟨true, ast.kind.privatesTable.contains name⟩)) ∧
      ∀ name r, r ≠ 0 → (symbolTable.get name = some r ↔ ast.kind.getRegister name = r) := by
  rw [symbolBytes_numbered ast.numbered] at himage
  have hnames : ∀ entry ∈ ast.kind.symbolInfo, NulFree entry.1 := by
    intro entry hentry
    obtain ⟨pair, hpair, rfl⟩ := List.mem_map.mp hentry
    exact hnul pair.1 (List.mem_map_of_mem hpair)
  have hflags := getFlags_symbolInfo ast.numbered ast.distinct
  have hholds : Holds image before.length (tableBytes ast.kind.symbolInfo) :=
    ⟨before, after, himage, rfl⟩
  refine ⟨_, readSymbolTable_of_holds hnames hholds hsize, hflags, ?_⟩
  intro name r hr
  unfold ZMap.get FunctionKind.getRegister
  rw [hflags]
  cases ast.kind.symbolTable.lookup name with
  | none => simp [hr.symm]
  | some register => simp

def sampleFunction : FunctionAst :=
  .function "f" ["x"] [.var "y" .empty true false, .var "z" .empty true true]

theorem sampleFunction_round_trip :
    ∃ symbolTable, readSymbolTable (symbolBytes sampleFunction.kind) 0 = some symbolTable ∧
      symbolTable.getFlags "x" = some (3, ⟨true, false⟩) ∧
      symbolTable.getFlags "y" = some (4, ⟨true, true⟩) := by
  obtain ⟨symbolTable, hread, hflags, -⟩ := symbol_table_round_trip sampleFunction
    (symbolBytes sampleFunction.kind) [] [] (by decide +kernel) (by simp) (by decide +kernel)
  refine ⟨symbolTable, hread, ?_, ?_⟩
  · rw [hflags]
    decide +kernel
  · rw [hflags]
    decide +kernel

/-- `z` is in the table of privates, and the table read from the image has no `z` to flag. -/
theorem shared_private_unflagged :
    "z" ∈ sampleFunction.kind.privatesTable ∧
      (readSymbolTable (symbolBytes sampleFunction.kind) 0).map (·.getFlags "z") = some none := by
  decide +kernel

end Zeroscript.SymbolTable
