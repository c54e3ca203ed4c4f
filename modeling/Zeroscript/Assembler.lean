import Mathlib.Data.List.Forall2
import Zeroscript.Number
import Zeroscript.SymbolTable

/-! # `Assembler`

Constants are appended first, then label positions are counted, then the instructions are appended.
The reader finds the code through the first word of the image, and the static constructor through the
second one. -/
namespace Zeroscript.Assembler

open Bytes SymbolTable

/-- The number that `instruction.h` gives an opcode. -/
def opcodeNumber (opcode : Opcode) : ℕ := opcode.ctorIdx

/-- The operand read as a `FunctionKind *`. -/
def symbolsOf : Operand → SymbolInfo
  | .symbols table => table
  | _ => []

/-- What an image takes from the process that writes it: the bits of a `FLOAT`, the value of a
pointer that stays in an operand, and the bytes behind the literal `" "`. -/
structure Host (α : Type) where
  bits : α → UInt64
  pointer : Operand → ℕ
  behindBlank : Fin 6 → UInt8

/-- The two header words, as the process leaves them at first. -/
def header {α : Type} (host : Host α) : List UInt8 :=
  ofWord 0 ++ ([32, 0] ++ List.ofFn host.behindBlank)

@[simp] theorem length_header {α : Type} (host : Host α) : (header host).length = 16 := by
  simp [header]

def placeConstant (bytes : List UInt8) (i : Instruction) : Instruction × List UInt8 :=
  match i.opcode with
  | .IMPORT_CLS =>
    let withAs := bytes ++ cString i.r1.text
    ({ i with
        r0 := .num withAs.length
        r1 := .num bytes.length }, withAs ++ cString i.r0.text)
  | .MOV_STR | .GET_FIELD_IMMEDIATE =>
    ({ i with r1 := .num bytes.length }, bytes ++ cString i.r1.text)
  | .FFRAME => ({ i with r1 := .num bytes.length }, bytes ++ tableBytes (symbolsOf i.r1))
  | _ => (i, bytes)

def placeConstants : Code → List UInt8 → Code × List UInt8
  | [], bytes => ([], bytes)
  | i :: code, bytes =>
    let placed := placeConstant bytes i
    let rest := placeConstants code placed.2
    (placed.1 :: rest.1, rest.2)

/-- Not a pseudo instruction. -/
def isReal (i : Instruction) : Bool := i.opcode != .LABEL && i.opcode != .COMMENT

/-- The second loop: `label_position_map`, the last entry first. -/
def labelPositions (sizeofConstants : ℕ) : Code → ℕ → List (String × ℕ) → List (String × ℕ)
  | [], _, positions => positions
  | i :: code, lpos, positions =>
    match i.opcode with
    | .LABEL => labelPositions sizeofConstants code lpos ((i.r0.text, sizeofConstants + lpos) :: positions)
    | .COMMENT => labelPositions sizeofConstants code lpos positions
    | _ => labelPositions sizeofConstants code (lpos + 32) positions

def position (positions : List (String × ℕ)) (label : String) : ℕ := (positions.lookup label).getD 0

/-- The operand that the third loop replaces by a position. -/
def patch (positions : List (String × ℕ)) (i : Instruction) : Instruction :=
  if i.opcode.isCompareJump || i.opcode.isImmediateJump then
    { i with r2 := .num (position positions i.r2.text) }
  else
    match i.opcode with
    | .JMP_NOT_TRUE | .JMP_TRUE | .MOV_FNC => { i with r1 := .num (position positions i.r1.text) }
    | .JMP | .SET_CATCH => { i with r0 := .num (position positions i.r0.text) }
    | .FFRAME => { i with r2 := .num (position positions i.r2.text) }
    | _ => i

section

variable {α : Type} [NumOps α] (host : Host α)

def operandWord : Operand → ℕ
  | .num n => n
  | operand => host.pointer operand

def instructionBytes (i : Instruction) : List UInt8 :=
  ofWord (opcodeNumber i.opcode) ++ (ofWord (operandWord host i.r0) ++
    ((if i.opcode = .MOV_NUMBER ∨ i.opcode.isImmediateJump = true then
        ofWord (host.bits (literal i.r1.text)).toNat
      else ofWord (operandWord host i.r1)) ++ ofWord (operandWord host i.r2)))

def toBytes (program : Code) : List UInt8 :=
  let placed := placeConstants program (header host)
  let sizeofConstants := placed.2.length
  let positions := labelPositions sizeofConstants placed.1 0 []
  let constants := match positions.lookup "__static__constructor__" with
    | some address => overwrite placed.2 8 (ofWord address)
    | none => placed.2
  let bytes := constants ++
    (placed.1.filter isReal).flatMap fun i => instructionBytes host (patch positions i)
  overwrite bytes 0 (ofWord sizeofConstants)

end

structure RawInstruction where
  opcode : ℕ
  r0 : ℕ
  r1 : ℕ
  r2 : ℕ
  deriving DecidableEq, Repr

def instructionAt (image : List UInt8) (pos : ℕ) : Option RawInstruction := do
  return ⟨← wordAt image pos, ← wordAt image (pos + 8), ← wordAt image (pos + 16),
    ← wordAt image (pos + 24)⟩

def instructionsFrom (image : List UInt8) : ℕ → ℕ → Option (List RawInstruction)
  | 0, _ => some []
  | count + 1, pos => do
    let raw ← instructionAt image pos
    let rest ← instructionsFrom image count (pos + 32)
    return raw :: rest

def decode (image : List UInt8) : Option (List RawInstruction) := do
  let codeStart ← wordAt image 0
  instructionsFrom image ((image.length - codeStart) / 32) codeStart

inductive OperandKind where
  | index
  | text
  | label
  | number
  | symbols
  /-- The second operand of `SET_CATCH`, which nobody reads. -/
  | unread
  deriving DecidableEq, Repr

def operandKinds : Opcode → OperandKind × OperandKind × OperandKind
  | .MOV_NUMBER => (.index, .number, .index)
  | .MOV_STR | .GET_FIELD_IMMEDIATE => (.index, .text, .index)
  | .IMPORT_CLS => (.text, .text, .index)
  | .JMP_TRUE | .JMP_NOT_TRUE | .MOV_FNC => (.index, .label, .index)
  | .JMP => (.label, .index, .index)
  | .SET_CATCH => (.label, .unread, .index)
  | .FFRAME => (.index, .symbols, .label)
  | .JMP_LESS | .JMP_GREATER | .JMP_LESS_OR_EQUAL | .JMP_GREATER_OR_EQUAL | .JMP_EQUAL
  | .JMP_N_EQUAL => (.index, .index, .label)
  | .JMP_LESS_I | .JMP_GREATER_I | .JMP_LESS_OR_EQUAL_I | .JMP_GREATER_OR_EQUAL_I | .JMP_EQUAL_I
  | .JMP_N_EQUAL_I => (.index, .number, .label)
  | _ => (.index, .index, .index)

def operands (i : Instruction) : List (OperandKind × Operand) :=
  let kinds := operandKinds i.opcode
  [(kinds.1, i.r0), (kinds.2.1, i.r1), (kinds.2.2, i.r2)]

def LabelAt (program : Code) (index : ℕ) (label : String) : Prop :=
  ∃ i, program[index]? = some i ∧ i.opcode = .LABEL ∧ i.r0.text = label

def labels (program : Code) : List String :=
  (program.filter fun i => i.opcode = .LABEL).map fun i => i.r0.text

def realBefore (program : Code) (index : ℕ) : ℕ := ((program.take index).filter isReal).length

/-- A register fits in a word, a text is a zero-terminated string, and a label exists. -/
def OperandOk (program : Code) : OperandKind × Operand → Prop
  | (.index, .num n) => n < 2 ^ 64
  | (.text, .str s) => NulFree s
  | (.symbols, .symbols table) => ∀ entry ∈ table, NulFree entry.1
  | (.label, .str label) => label ∈ labels program
  | _ => True

instance (program : Code) : ∀ x, Decidable (OperandOk program x)
  | (kind, operand) => by
    cases kind <;> cases operand <;> unfold OperandOk <;> infer_instance

structure WellFormed (program : Code) : Prop where
  distinct : (labels program).Nodup
  operands : ∀ i ∈ program, ∀ x ∈ operands i, OperandOk program x

instance (program : Code) : Decidable (WellFormed program) :=
  decidable_of_iff ((labels program).Nodup ∧ ∀ i ∈ program, ∀ x ∈ operands i, OperandOk program x)
    ⟨fun h => ⟨h.1, h.2⟩, fun h => ⟨h.distinct, h.operands⟩⟩

def OperandReads {α : Type} [NumOps α] (host : Host α) (program : Code) (image : List UInt8)
    (codeStart : ℕ) (kind : OperandKind) (operand : Operand) (word : ℕ) : Prop :=
  match kind, operand with
  | .index, .num n => word = n
  | .text, .str s => cStringAt image word = some (Bytes.text s)
  | .label, .str label =>
    ∃ p, LabelAt program p label ∧ word = codeStart + 32 * realBefore program p
  | .number, .str s => word = (host.bits (literal s)).toNat
  | .symbols, .symbols table => readSymbolTable image word = some (buildSymbolTable table)
  | _, _ => True

/-- An instruction of the list and what is read for it: its opcode and no other one. -/
structure Reads {α : Type} [NumOps α] (host : Host α) (program : Code) (image : List UInt8)
    (codeStart : ℕ) (i : Instruction) (raw : RawInstruction) : Prop where
  opcode : ∀ opcode, raw.opcode = opcodeNumber opcode ↔ opcode = i.opcode
  r0 : OperandReads host program image codeStart (operandKinds i.opcode).1 i.r0 raw.r0
  r1 : OperandReads host program image codeStart (operandKinds i.opcode).2.1 i.r1 raw.r1
  r2 : OperandReads host program image codeStart (operandKinds i.opcode).2.2 i.r2 raw.r2

def PlacedOperand (bytes : List UInt8) (kind : OperandKind) (operand placed : Operand) : Prop :=
  match kind with
  | .text => ∃ pos, placed = .num pos ∧ 16 ≤ pos ∧ Holds bytes pos (cString operand.text)
  | .symbols => ∃ pos, placed = .num pos ∧ 16 ≤ pos ∧ Holds bytes pos (tableBytes (symbolsOf operand))
  | _ => placed = operand

structure Placed (bytes : List UInt8) (i placed : Instruction) : Prop where
  opcode : placed.opcode = i.opcode
  r0 : PlacedOperand bytes (operandKinds i.opcode).1 i.r0 placed.r0
  r1 : PlacedOperand bytes (operandKinds i.opcode).2.1 i.r1 placed.r1
  r2 : PlacedOperand bytes (operandKinds i.opcode).2.2 i.r2 placed.r2

theorem PlacedOperand.append {bytes : List UInt8} {kind : OperandKind} {operand placed : Operand}
    (h : PlacedOperand bytes kind operand placed) (more : List UInt8) :
    PlacedOperand (bytes ++ more) kind operand placed := by
  cases kind with
  | text | symbols =>
    obtain ⟨pos, hplaced, hpos, hholds⟩ := h
    exact ⟨pos, hplaced, hpos, hholds.append more⟩
  | index | label | number | unread => exact h

theorem Placed.append {bytes : List UInt8} {i placed : Instruction} (h : Placed bytes i placed)
    (more : List UInt8) : Placed (bytes ++ more) i placed :=
  ⟨h.opcode, h.r0.append more, h.r1.append more, h.r2.append more⟩

theorem placeConstant_placed {bytes : List UInt8} (hbytes : 16 ≤ bytes.length) (i : Instruction) :
    ∃ added, (placeConstant bytes i).2 = bytes ++ added ∧
      Placed (bytes ++ added) i (placeConstant bytes i).1 := by
  obtain ⟨opcode, r0, r1, r2⟩ := i
  cases opcode
  case IMPORT_CLS =>
    refine ⟨cString r1.text ++ cString r0.text, by simp [placeConstant], rfl, ?_, ?_, rfl⟩
    · refine ⟨(bytes ++ cString r1.text).length, rfl, by simp; omega, ?_⟩
      rw [← List.append_assoc]
      exact holds_end _ _
    · refine ⟨bytes.length, rfl, hbytes, ?_⟩
      rw [← List.append_assoc]
      exact (holds_end _ _).append _
  case MOV_STR | GET_FIELD_IMMEDIATE =>
    exact ⟨cString r1.text, rfl, rfl, rfl, ⟨bytes.length, rfl, hbytes, holds_end _ _⟩, rfl⟩
  case FFRAME =>
    exact ⟨tableBytes (symbolsOf r1), rfl, rfl, rfl, ⟨bytes.length, rfl, hbytes, holds_end _ _⟩, rfl⟩
  all_goals exact ⟨[], (List.append_nil _).symm, rfl, rfl, rfl, rfl⟩

theorem placeConstants_placed (program : Code) {bytes : List UInt8} (hbytes : 16 ≤ bytes.length) :
    ∃ added, (placeConstants program bytes).2 = bytes ++ added ∧
      List.Forall₂ (Placed (bytes ++ added)) program (placeConstants program bytes).1 := by
  induction program generalizing bytes with
  | nil => exact ⟨[], (List.append_nil _).symm, .nil⟩
  | cons i program ih =>
    obtain ⟨first, hfirst, hplaced⟩ := placeConstant_placed hbytes i
    have hroom : 16 ≤ (bytes ++ first).length := by
      rw [List.length_append]
      omega
    obtain ⟨rest, hrest, hall⟩ := ih hroom
    rw [placeConstants, hfirst]
    refine ⟨first ++ rest, ?_, ?_⟩
    · rw [hrest, List.append_assoc]
    · rw [← List.append_assoc]
      exact .cons (hplaced.append rest) hall

theorem labels_cons (i : Instruction) (program : Code) :
    labels (i :: program) =
      if i.opcode = .LABEL then i.r0.text :: labels program else labels program := by
  unfold labels
  rw [List.filter_cons]
  by_cases hi : i.opcode = .LABEL <;> simp [hi]

theorem mem_labels {program : Code} {label : String} :
    label ∈ labels program ↔ ∃ p, LabelAt program p label := by
  constructor
  · intro h
    obtain ⟨i, hi, rfl⟩ := List.mem_map.mp h
    obtain ⟨hmem, hlabel⟩ := List.mem_filter.mp hi
    obtain ⟨p, hp⟩ := List.mem_iff_getElem?.mp hmem
    exact ⟨p, i, hp, by simpa using hlabel, rfl⟩
  · rintro ⟨p, i, hp, hlabel, rfl⟩
    apply List.mem_map_of_mem
    exact List.mem_filter.mpr ⟨List.mem_iff_getElem?.mpr ⟨p, hp⟩, by simpa using hlabel⟩

theorem labelAt_unique {program : Code} (h : (labels program).Nodup) {p q : ℕ} {label : String}
    (hp : LabelAt program p label) (hq : LabelAt program q label) : p = q := by
  induction program generalizing p q with
  | nil =>
    obtain ⟨i, hi, -⟩ := hp
    simp at hi
  | cons i program ih =>
    rw [labels_cons] at h
    -- the label at the head has no other occurrence
    have hhead : LabelAt (i :: program) 0 label → ∀ r, ¬ LabelAt program r label := by
      rintro ⟨j, hj, hlabel, htext⟩ r hr
      obtain rfl : i = j := by simpa using hj
      rw [if_pos hlabel, List.nodup_cons] at h
      exact h.1 (htext ▸ mem_labels.mpr ⟨r, hr⟩)
    have hrest : (labels program).Nodup := by
      by_cases hi : i.opcode = .LABEL
      · rw [if_pos hi, List.nodup_cons] at h
        exact h.2
      · rwa [if_neg hi] at h
    cases p with
    | zero =>
      cases q with
      | zero => rfl
      | succ q => exact absurd hq (hhead hp q)
    | succ p =>
      cases q with
      | zero => exact absurd hp (hhead hq p)
      | succ q => exact congrArg _ (ih hrest hp hq)

@[simp] theorem realBefore_zero (program : Code) : realBefore program 0 = 0 := rfl

theorem realBefore_succ (i : Instruction) (program : Code) (index : ℕ) :
    realBefore (i :: program) (index + 1) =
      (if isReal i then 1 else 0) + realBefore program index := by
  unfold realBefore
  rw [List.take_succ_cons, List.filter_cons]
  by_cases hi : isReal i = true
  · simp only [hi, if_true, List.length_cons]
    omega
  · simp [hi]

theorem realBefore_le (program : Code) (index : ℕ) :
    realBefore program index ≤ (program.filter isReal).length := by
  unfold realBefore
  exact List.Sublist.length_le ((List.take_sublist index program).filter isReal)

theorem labelPositions_cons (sizeofConstants lpos : ℕ) (i : Instruction) (program : Code)
    (positions : List (String × ℕ)) :
    labelPositions sizeofConstants (i :: program) lpos positions =
      labelPositions sizeofConstants program (lpos + (if isReal i then 32 else 0))
        (if i.opcode = .LABEL then (i.r0.text, sizeofConstants + lpos) :: positions else positions) := by
  obtain ⟨opcode, r0, r1, r2⟩ := i
  cases opcode <;> rfl

theorem lookup_labelPositions_absent {program : Code} {label : String}
    (h : ∀ p, ¬ LabelAt program p label) (sizeofConstants lpos : ℕ) (positions : List (String × ℕ)) :
    (labelPositions sizeofConstants program lpos positions).lookup label = positions.lookup label := by
  induction program generalizing lpos positions with
  | nil => rfl
  | cons i program ih =>
    have hrest : ∀ p, ¬ LabelAt program p label := by
      rintro p ⟨j, hj, hlabel⟩
      exact h (p + 1) ⟨j, hj, hlabel⟩
    rw [labelPositions_cons, ih hrest]
    by_cases hi : i.opcode = .LABEL
    · have hne : i.r0.text ≠ label := fun he => h 0 ⟨i, rfl, hi, he⟩
      have hbeq : (label == i.r0.text) = false := beq_eq_false_iff_ne.mpr hne.symm
      simp only [hi, if_true, List.lookup_cons, hbeq]
    · simp [hi]

theorem lookup_labelPositions {program : Code} {label : String} {p : ℕ} (hp : LabelAt program p label)
    (hone : ∀ q, LabelAt program q label → q = p) (sizeofConstants lpos : ℕ)
    (positions : List (String × ℕ)) :
    (labelPositions sizeofConstants program lpos positions).lookup label =
      some (sizeofConstants + lpos + 32 * realBefore program p) := by
  induction program generalizing p lpos positions with
  | nil =>
    obtain ⟨i, hi, -⟩ := hp
    simp at hi
  | cons i program ih =>
    rw [labelPositions_cons]
    cases p with
    | zero =>
      obtain ⟨j, hj, hlabel, htext⟩ := hp
      obtain rfl : i = j := by simpa using hj
      have habsent : ∀ q, ¬ LabelAt program q label := by
        rintro q ⟨j, hj, hq⟩
        exact absurd (hone (q + 1) ⟨j, hj, hq⟩) (Nat.succ_ne_zero q)
      rw [lookup_labelPositions_absent habsent, if_pos hlabel, htext, List.lookup_cons]
      simp
    | succ p =>
      have hrest : LabelAt program p label := by
        obtain ⟨j, hj, hlabel⟩ := hp
        exact ⟨j, hj, hlabel⟩
      have hunique : ∀ q, LabelAt program q label → q = p := by
        rintro q ⟨j, hj, hq⟩
        exact Nat.succ.inj (hone (q + 1) ⟨j, hj, hq⟩)
      rw [ih hrest hunique, realBefore_succ]
      congr 1
      split <;> omega

theorem labelPositions_placed {bytes : List UInt8} {program placed : Code}
    (h : List.Forall₂ (Placed bytes) program placed) (sizeofConstants lpos : ℕ)
    (positions : List (String × ℕ)) :
    labelPositions sizeofConstants placed lpos positions =
      labelPositions sizeofConstants program lpos positions := by
  induction h generalizing lpos positions with
  | nil => rfl
  | @cons i j program placed hij hrest ih =>
    have hreal : isReal j = isReal i := by
      unfold isReal
      rw [hij.opcode]
    rw [labelPositions_cons, labelPositions_cons, ih, hreal, hij.opcode]
    by_cases hi : i.opcode = .LABEL
    · have hr0 := hij.r0
      rw [hi] at hr0
      have htext : j.r0 = i.r0 := hr0
      rw [htext]
    · simp [hi]

theorem patch_operands (positions : List (String × ℕ)) (i : Instruction) :
    patch positions i =
      let patched (kind : OperandKind) (operand : Operand) : Operand :=
        if kind = .label then .num (position positions operand.text) else operand
      let kinds := operandKinds i.opcode
      ⟨i.opcode, patched kinds.1 i.r0, patched kinds.2.1 i.r1, patched kinds.2.2 i.r2⟩ := by
  obtain ⟨opcode, r0, r1, r2⟩ := i
  cases opcode <;> rfl

section

variable {α : Type} [NumOps α] (host : Host α)

def wordOf (kind : OperandKind) (operand : Operand) : ℕ :=
  if kind = .number then (host.bits (literal operand.text)).toNat else operandWord host operand

theorem instructionBytes_words (i : Instruction) :
    instructionBytes host i =
      let kinds := operandKinds i.opcode
      ofWord (opcodeNumber i.opcode) ++ (ofWord (wordOf host kinds.1 i.r0) ++
        (ofWord (wordOf host kinds.2.1 i.r1) ++ ofWord (wordOf host kinds.2.2 i.r2))) := by
  obtain ⟨opcode, r0, r1, r2⟩ := i
  cases opcode <;> rfl

@[simp] theorem length_instructionBytes (i : Instruction) : (instructionBytes host i).length = 32 := by
  rw [instructionBytes_words]
  simp

theorem opcodeNumber_injective : Function.Injective opcodeNumber :=
  Function.LeftInverse.injective Opcode.ofNat_ctorIdx

theorem opcodeNumber_lt (opcode : Opcode) : opcodeNumber opcode < 2 ^ 64 := by
  cases opcode <;> decide

def rawOf (i : Instruction) : RawInstruction :=
  let kinds := operandKinds i.opcode
  ⟨opcodeNumber i.opcode, wordOf host kinds.1 i.r0 % 2 ^ 64, wordOf host kinds.2.1 i.r1 % 2 ^ 64,
    wordOf host kinds.2.2 i.r2 % 2 ^ 64⟩

theorem instructionAt_of_holds {image : List UInt8} {pos : ℕ} {i : Instruction}
    (h : Holds image pos (instructionBytes host i)) :
    instructionAt image pos = some (rawOf host i) := by
  rw [instructionBytes_words] at h
  have hopcode := wordAt_of_holds h.left
  have h0 := wordAt_of_holds h.right.left
  have h1 := wordAt_of_holds h.right.right.left
  have h2 := wordAt_of_holds h.right.right.right
  rw [Nat.mod_eq_of_lt (opcodeNumber_lt i.opcode)] at hopcode
  simp only [length_ofWord, Nat.add_assoc] at h0 h1 h2
  simp only [instructionAt, hopcode, h0, h1, h2, Option.bind_eq_bind, Option.bind_some]
  rfl

theorem instructionsFrom_of_holds {image : List UInt8} {instructions : Code} {pos : ℕ}
    (h : Holds image pos (instructions.flatMap (instructionBytes host))) :
    instructionsFrom image instructions.length pos = some (instructions.map (rawOf host)) := by
  induction instructions generalizing pos with
  | nil => rfl
  | cons i instructions ih =>
    rw [List.flatMap_cons] at h
    have hfirst := instructionAt_of_holds host h.left
    have hrest := h.right
    rw [length_instructionBytes] at hrest
    rw [List.length_cons, instructionsFrom, hfirst, Option.bind_eq_bind, Option.bind_some, ih hrest]
    rfl

theorem length_flatMap_instructionBytes (instructions : Code) :
    (instructions.flatMap (instructionBytes host)).length = 32 * instructions.length := by
  induction instructions with
  | nil => rfl
  | cons i instructions ih =>
    rw [List.flatMap_cons, List.length_append, length_instructionBytes, ih, List.length_cons]
    omega

/-- What the three loops and the last assignment come to: the constants stay behind the header, the
patched instructions stand behind the constants, and the header points to them. -/
theorem toBytes_layout (program : Code) :
    ∃ placed added, List.Forall₂ (Placed (header host ++ added)) program placed ∧
      let codeStart := 16 + added.length
      let positions := labelPositions codeStart program 0 []
      let instructions := (placed.filter isReal).map (patch positions)
      let image := toBytes host program
      image.length = codeStart + 32 * instructions.length ∧
      Holds image 0 (ofWord codeStart) ∧
      (∀ address, positions.lookup "__static__constructor__" = some address →
        Holds image 8 (ofWord address)) ∧
      (∀ pos chunk, 16 ≤ pos → Holds (header host ++ added) pos chunk → Holds image pos chunk) ∧
      Holds image codeStart (instructions.flatMap (instructionBytes host)) := by
  obtain ⟨added, hconstants, hplaced⟩ :=
    placeConstants_placed program (le_of_eq (length_header host).symm)
  refine ⟨(placeConstants program (header host)).1, added, hplaced, ?_⟩
  have hsize : (header host ++ added).length = 16 + added.length := by simp
  have hpositions := labelPositions_placed hplaced (16 + added.length) 0 []
  simp only [toBytes, hconstants, hsize, hpositions]
  generalize labelPositions (16 + added.length) program 0 [] = positions
  generalize (placeConstants program (header host)).1 = placed
  -- the constants, with the second word set when there is a static constructor
  obtain ⟨constants, hset, hlength, hkept, hsecond⟩ : ∃ constants,
      (match positions.lookup "__static__constructor__" with
        | some address => overwrite (header host ++ added) 8 (ofWord address)
        | none => header host ++ added) = constants ∧
      constants.length = 16 + added.length ∧
      (∀ pos chunk, 16 ≤ pos → Holds (header host ++ added) pos chunk → Holds constants pos chunk) ∧
      ∀ address, positions.lookup "__static__constructor__" = some address →
        Holds constants 8 (ofWord address) := by
    refine ⟨_, rfl, ?_⟩
    cases positions.lookup "__static__constructor__" with
    | none => exact ⟨hsize, fun _ _ _ h => h, fun _ h => absurd h (Option.some_ne_none _).symm⟩
    | some address =>
      have hroom : 8 + (ofWord address).length ≤ (header host ++ added).length := by
        rw [length_ofWord, hsize]
        omega
      refine ⟨by rw [length_overwrite hroom, hsize], fun pos chunk hpos h => ?_, ?_⟩
      · exact h.overwrite (by rw [length_ofWord]; omega)
      · rintro _ ⟨rfl⟩
        exact holds_overwrite hroom
  rw [hset]
  have hbody : ((placed.filter isReal).flatMap fun i => instructionBytes host (patch positions i)) =
      ((placed.filter isReal).map (patch positions)).flatMap (instructionBytes host) := by
    rw [List.flatMap_map]
  rw [hbody]
  generalize (placed.filter isReal).map (patch positions) = instructions
  have hroom : 0 + (ofWord (16 + added.length)).length ≤
      (constants ++ instructions.flatMap (instructionBytes host)).length := by
    rw [length_ofWord, List.length_append, hlength]
    omega
  refine ⟨?_, holds_overwrite hroom, fun address haddress => ?_, fun pos chunk hpos h => ?_, ?_⟩
  · rw [length_overwrite hroom, List.length_append, hlength, length_flatMap_instructionBytes]
  · exact ((hsecond address haddress).append _).overwrite (by rw [length_ofWord])
  · exact ((hkept pos chunk hpos h).append _).overwrite (by rw [length_ofWord]; omega)
  · rw [← hlength]
    exact (holds_end _ _).overwrite (by rw [length_ofWord]; omega)

theorem WellFormed.position {program : Code} (h : WellFormed program) {label : String} {p : ℕ}
    (hp : LabelAt program p label) (codeStart : ℕ) :
    (labelPositions codeStart program 0 []).lookup label =
      some (codeStart + 32 * realBefore program p) := by
  rw [lookup_labelPositions hp fun q hq => labelAt_unique h.distinct hq hp]
  rfl

theorem operand_reads {program : Code} (h : WellFormed program) {constants image : List UInt8}
    {codeStart : ℕ} (hkept : ∀ pos chunk, 16 ≤ pos → Holds constants pos chunk → Holds image pos chunk)
    (hsize : image.length < 2 ^ 64) (hcode : codeStart + 32 * (program.filter isReal).length = image.length)
    {i : Instruction} (hi : i ∈ program) {kind : OperandKind} {operand placed : Operand}
    (hmem : (kind, operand) ∈ operands i) (hplaced : PlacedOperand constants kind operand placed) :
    OperandReads host program image codeStart kind operand
      (wordOf host kind (if kind = .label then
        .num (position (labelPositions codeStart program 0 []) placed.text) else placed) % 2 ^ 64) := by
  cases kind with
  | index =>
    cases operand with
    | num n =>
      obtain rfl : placed = .num n := hplaced
      exact Nat.mod_eq_of_lt (h.operands i hi _ hmem)
    | str | symbols => trivial
  | number =>
    cases operand with
    | str s =>
      obtain rfl : placed = .str s := hplaced
      exact Nat.mod_eq_of_lt (host.bits (literal s)).toNat_lt
    | num | symbols => trivial
  | unread => cases operand <;> trivial
  | text =>
    cases operand with
    | str s =>
      obtain ⟨pos, rfl, hpos, hholds⟩ := hplaced
      have himage := hkept pos _ hpos hholds
      have hlt : pos < 2 ^ 64 := by
        have := himage.le_length
        omega
      change cStringAt image (pos % 2 ^ 64) = _
      rw [Nat.mod_eq_of_lt hlt]
      exact cStringAt_of_holds (h.operands i hi _ hmem) himage
    | num | symbols => trivial
  | symbols =>
    cases operand with
    | symbols table =>
      obtain ⟨pos, rfl, hpos, hholds⟩ := hplaced
      have himage := hkept pos _ hpos hholds
      have hlt : pos < 2 ^ 64 := by
        have := himage.le_length
        omega
      change readSymbolTable image (pos % 2 ^ 64) = _
      rw [Nat.mod_eq_of_lt hlt]
      exact readSymbolTable_of_holds (h.operands i hi _ hmem) himage hsize
    | num | str => trivial
  | label =>
    cases operand with
    | str label =>
      obtain rfl : placed = .str label := hplaced
      obtain ⟨p, hp⟩ := mem_labels.mp (h.operands i hi _ hmem)
      refine ⟨p, hp, ?_⟩
      have hposition : position (labelPositions codeStart program 0 []) label =
          codeStart + 32 * realBefore program p := by
        rw [position, h.position hp codeStart]
        rfl
      have hlt : codeStart + 32 * realBefore program p < 2 ^ 64 := by
        have := realBefore_le program p
        omega
      change position (labelPositions codeStart program 0 []) label % 2 ^ 64 = _
      rw [hposition, Nat.mod_eq_of_lt hlt]
    | num | symbols => trivial

theorem reads_of_placed {program : Code} (h : WellFormed program) {constants image : List UInt8}
    {codeStart : ℕ} (hkept : ∀ pos chunk, 16 ≤ pos → Holds constants pos chunk → Holds image pos chunk)
    (hsize : image.length < 2 ^ 64) (hcode : codeStart + 32 * (program.filter isReal).length = image.length)
    {i placed : Instruction} (hi : i ∈ program) (hplaced : Placed constants i placed) :
    Reads host program image codeStart i
      (rawOf host (patch (labelPositions codeStart program 0 []) placed)) := by
  have hoperand := @operand_reads _ _ host program h constants image codeStart hkept hsize hcode i hi
  rw [patch_operands, hplaced.opcode]
  refine ⟨fun opcode => ?_, hoperand (by simp [operands]) hplaced.r0, hoperand (by simp [operands]) hplaced.r1,
    hoperand (by simp [operands]) hplaced.r2⟩
  change opcodeNumber i.opcode = opcodeNumber opcode ↔ opcode = i.opcode
  rw [opcodeNumber_injective.eq_iff]
  exact eq_comm

theorem filter_placed {bytes : List UInt8} {program placed : Code}
    (h : List.Forall₂ (Placed bytes) program placed) :
    List.Forall₂ (Placed bytes) (program.filter isReal) (placed.filter isReal) := by
  induction h with
  | nil => exact .nil
  | @cons i j program placed hij _ ih =>
    have hreal : isReal j = isReal i := by
      unfold isReal
      rw [hij.opcode]
    rw [List.filter_cons, List.filter_cons, hreal]
    by_cases hi : isReal i = true
    · rw [if_pos hi, if_pos hi]
      exact .cons hij ih
    · rw [if_neg hi, if_neg hi]
      exact ih

end

/-- The image decodes to the list without its pseudo instructions: the same opcodes and registers,
operands that lead to the texts and tables of the list, and labels that are the byte offsets of what
comes after them. -/
theorem toBytes_decodes {α : Type} [NumOps α] (host : Host α) {program : Code}
    (h : WellFormed program) (hsize : (toBytes host program).length < 2 ^ 64) :
    ∃ codeStart instructions, wordAt (toBytes host program) 0 = some codeStart ∧
      (toBytes host program).length = codeStart + 32 * instructions.length ∧
      decode (toBytes host program) = some instructions ∧
      List.Forall₂ (Reads host program (toBytes host program) codeStart) (program.filter isReal)
        instructions ∧
      ∀ p, LabelAt program p "__static__constructor__" →
        wordAt (toBytes host program) 8 = some (codeStart + 32 * realBefore program p) := by
  obtain ⟨placed, added, hplaced, hlength, hstart, hsecond, hkept, hcode⟩ := toBytes_layout host program
  have hfiltered := filter_placed hplaced
  have hcount : (placed.filter isReal).length = (program.filter isReal).length := hfiltered.length_eq.symm
  rw [List.length_map, hcount] at hlength
  have hword : wordAt (toBytes host program) 0 = some (16 + added.length) := by
    rw [wordAt_of_holds hstart, Nat.mod_eq_of_lt (by omega)]
  refine ⟨16 + added.length,
    ((placed.filter isReal).map (patch (labelPositions (16 + added.length) program 0 []))).map
      (rawOf host), hword, ?_, ?_, ?_, ?_⟩
  · rw [List.length_map, List.length_map, hcount, hlength]
  · have hquotient : ((toBytes host program).length - (16 + added.length)) / 32 =
        ((placed.filter isReal).map
          (patch (labelPositions (16 + added.length) program 0 []))).length := by
      rw [List.length_map, hcount]
      omega
    rw [decode, hword, Option.bind_eq_bind, Option.bind_some, hquotient]
    exact instructionsFrom_of_holds host hcode
  · rw [List.map_map, List.forall₂_map_right_iff]
    have hall : List.Forall₂ (fun i j => i ∈ program ∧ Placed (header host ++ added) i j)
        (program.filter isReal) (placed.filter isReal) := by
      rw [List.forall₂_and_left]
      exact ⟨fun i hi => List.mem_of_mem_filter hi, hfiltered⟩
    refine hall.imp fun i j hij => ?_
    exact reads_of_placed host h hkept hsize hlength.symm hij.1 hij.2
  · intro p hp
    have haddress := h.position hp (16 + added.length)
    have hlt : 16 + added.length + 32 * realBefore program p < 2 ^ 64 := by
      have := realBefore_le program p
      omega
    rw [wordAt_of_holds (hsecond _ haddress), Nat.mod_eq_of_lt hlt]

def sampleProgram : Code :=
  [⟨.LABEL, .str "__static__constructor__", .num 0, .num 0⟩,
    ⟨.FFRAME, .num 2, .symbols [("this", false), ("secret", true)], .str "end"⟩,
    ⟨.MOV_STR, .num 2, .str "hi", .num 0⟩, ⟨.JMP, .str "end", .num 0, .num 0⟩,
    ⟨.LABEL, .str "end", .num 0, .num 0⟩, ⟨.RETURN, .num 0, .num 0, .num 0⟩]

def sampleHost : Host ℚ := ⟨fun _ => 0, fun _ => 0, fun _ => 0⟩

theorem sampleProgram_decodes :
    ∃ codeStart instructions, decode (toBytes sampleHost sampleProgram) = some instructions ∧
      List.Forall₂ (Reads sampleHost sampleProgram (toBytes sampleHost sampleProgram) codeStart)
        (sampleProgram.filter isReal) instructions := by
  obtain ⟨codeStart, instructions, -, -, hdecode, hreads, -⟩ :=
    toBytes_decodes sampleHost (by decide +kernel : WellFormed sampleProgram) (by decide +kernel)
  exact ⟨codeStart, instructions, hdecode, hreads⟩

end Zeroscript.Assembler
