import Zeroscript.Compiler
import Zeroscript.RegisterTable

/-! # Runs of register requests

Whatever the order in which temporaries are asked for and freed, their indices are those above the symbol
table, without a gap, up to the locals count of the frame. -/
namespace Zeroscript.RegisterRuns

open FunctionKind

inductive RegisterCall where
  | temporary
  | named (ident : String)
  | free (index : ℕ)
  deriving DecidableEq

abbrev Event := RegisterCall × Option ℕ

def perform (fk : FunctionKind) : RegisterCall → Option (Option ℕ × FunctionKind)
  | .temporary => fk.getTemporary.map fun (r, fk) => (some r, fk)
  | .named ident => some (some (fk.getRegister ident), fk)
  | .free index => some (none, fk.freeRegister index)

def performAll (fk : FunctionKind) : List RegisterCall → Option (List Event × FunctionKind)
  | [] => some ([], fk)
  | call :: calls => do
    let (index, fk) ← perform fk call
    let (history, fk) ← performAll fk calls
    return ((call, index) :: history, fk)

def fixedSymbols (names : List String) : FunctionKind := names.foldl FunctionKind.addToCurrentTable {}

/-- The temporary was handed out and not freed since. -/
def Held (history : List Event) (r : ℕ) : Prop :=
  ∃ before after, history = before ++ (.temporary, some r) :: after ∧ ∀ event ∈ after, event.1 ≠ .free r

/-- What holds after a history of calls. -/
structure InOrder (start : FunctionKind) (history : List Event) (fk : FunctionKind) : Prop where
  symbols : fk.symbolTable = start.symbolTable
  keys : fk.registerTable.map Prod.fst =
    List.range' (start.symbolTable.length + 1) fk.registerTable.length
  fresh : ∃ r fk', fk.getTemporary = some (r, fk') ∧ start.symbolTable.length < r ∧ ¬ Held history r
  variablesKept : ∀ ident, fk.freeRegister (fk.getRegister ident) = fk
  bounded : ∀ event ∈ history, ∀ r, event.2 = some r → r ≤ start.symbolTable.length + fk.registerTable.length
  localsCount : ∀ identifier body s s' code, Compiler.framed identifier body s = .ok ((), s', code) →
    s'.function = fk → ∃ symbols last,
      code[1]? = some ⟨.FFRAME, .num (start.symbolTable.length + fk.registerTable.length), symbols, last⟩

structure Tracked (start : FunctionKind) (history : List Event) (fk : FunctionKind) : Prop where
  wellFormed : fk.WellFormed
  symbols : fk.symbolTable = start.symbolTable
  held : ∀ r, Held history r → fk.InUse r
  bounded : ∀ event ∈ history, ∀ r, event.2 = some r → r ≤ start.symbolTable.length + fk.registerTable.length

section

variable {start fk fk' : FunctionKind} {history : List Event} {r : ℕ}

theorem held_snoc {event : Event} (h : Held (history ++ [event]) r) :
    event = (.temporary, some r) ∨ Held history r ∧ event.1 ≠ .free r := by
  obtain ⟨before, after, heq, hafter⟩ := h
  rcases List.eq_nil_or_concat after with rfl | ⟨rest, last, rfl⟩
  · left
    have hlast := congrArg List.getLast? heq
    simpa using hlast
  · right
    rw [List.concat_eq_append, ← List.cons_append, ← List.append_assoc] at heq
    obtain ⟨hhistory, hevent⟩ := List.append_inj' heq rfl
    obtain rfl : event = last := by simpa using hevent
    refine ⟨⟨before, rest, hhistory, ?_⟩, hafter event (by simp)⟩
    intro other hother
    exact hafter other (by simp [hother])

theorem length_le_setRegister (table : List (ℕ × Bool)) (index : ℕ) (free : Bool) :
    table.length ≤ (setRegister table index free).length := by
  unfold setRegister
  split <;> simp

theorem Tracked.bound (h : Tracked start history fk) (hr : fk.InUse r) :
    r ≤ start.symbolTable.length + fk.registerTable.length := by
  rw [← h.symbols]
  exact (h.wellFormed.mem_iff.mp hr.isSome).2

theorem Tracked.temporary (h : Tracked start history fk) :
    ∃ r fk', fk.getTemporary = some (r, fk') ∧ start.symbolTable.length < r ∧ ¬ fk.InUse r ∧
      Tracked start (history ++ [(.temporary, some r)]) fk' := by
  obtain ⟨r, fk', hget, handed⟩ := getTemporary_handed h.wellFormed
  have hgrow : fk.registerTable.length ≤ fk'.registerTable.length := by
    unfold FunctionKind.getTemporary at hget
    split at hget
    · cases hget
    · cases hget
      exact length_le_setRegister _ _ _
    · cases hget
      exact length_le_setRegister _ _ _
  have hinUse : ∀ t, t = r ∨ fk.InUse t → fk'.InUse t := by
    intro t ht
    unfold FunctionKind.InUse
    rw [handed.lookup]
    by_cases he : t = r
    · rw [if_pos he]
    · rw [if_neg he]
      exact ht.resolve_left he
  have habove : start.symbolTable.length < r := h.symbols ▸ handed.above
  have hsymbols : fk'.symbolTable = start.symbolTable := handed.symbolTable.trans h.symbols
  refine ⟨r, fk', hget, habove, handed.wasNotInUse, handed.wellFormed, hsymbols, ?_, ?_⟩
  · intro t ht
    rcases held_snoc ht with heq | ⟨hheld, -⟩
    · cases heq
      exact hinUse r (.inl rfl)
    · exact hinUse t (.inr (h.held t hheld))
  · intro event hevent t ht
    rcases List.mem_append.mp hevent with hold | hnew
    · exact Nat.le_trans (h.bounded event hold t ht) (Nat.add_le_add_left hgrow _)
    · obtain rfl := List.mem_singleton.mp hnew
      cases ht
      rw [← hsymbols]
      exact (handed.wellFormed.mem_iff.mp (hinUse r (.inl rfl)).isSome).2

theorem Tracked.free (h : Tracked start history fk) (index : ℕ) :
    Tracked start (history ++ [(.free index, none)]) (fk.freeRegister index) := by
  have freed := freeRegister_freed h.wellFormed index
  have hgrow : fk.registerTable.length ≤ (fk.freeRegister index).registerTable.length := by
    unfold FunctionKind.freeRegister
    split
    · split
      · exact length_le_setRegister _ _ _
      · exact Nat.le_refl _
    · exact Nat.le_refl _
  refine ⟨freed.wellFormed, freed.symbolTable.trans h.symbols, ?_, ?_⟩
  · intro r hr
    rcases held_snoc hr with heq | ⟨hheld, hfree⟩
    · cases heq
    · have hne : r ≠ index := by
        rintro rfl
        exact hfree rfl
      unfold FunctionKind.InUse
      rw [freed.lookup r hne]
      exact h.held r hheld
  · intro event hevent r hr
    rcases List.mem_append.mp hevent with hold | hnew
    · exact Nat.le_trans (h.bounded event hold r hr) (Nat.add_le_add_left hgrow _)
    · obtain rfl := List.mem_singleton.mp hnew
      cases hr

theorem getRegister_bound (hstart : Numbered start) (h : Tracked start history fk) (ident : String) :
    fk.getRegister ident ≤ start.symbolTable.length := by
  unfold FunctionKind.getRegister
  rw [h.symbols]
  cases hlookup : start.symbolTable.lookup ident with
  | none => exact Nat.zero_le _
  | some r =>
    obtain ⟨before, after, heq, -⟩ := List.lookup_eq_some_iff.mp hlookup
    have hmem : r ∈ start.symbolTable.map Prod.snd := by
      rw [heq]
      simp
    rw [hstart.1, List.mem_range'_1] at hmem
    have hr : r ≤ start.symbolTable.length := by omega
    exact hr

theorem Tracked.named (hstart : Numbered start) (h : Tracked start history fk) (ident : String) :
    Tracked start (history ++ [(.named ident, some (fk.getRegister ident))]) fk := by
  refine ⟨h.wellFormed, h.symbols, ?_, ?_⟩
  · intro r hr
    rcases held_snoc hr with heq | ⟨hheld, -⟩
    · cases heq
    · exact h.held r hheld
  · intro event hevent r hr
    rcases List.mem_append.mp hevent with hold | hnew
    · exact h.bounded event hold r hr
    · obtain rfl := List.mem_singleton.mp hnew
      cases hr
      exact Nat.le_trans (getRegister_bound hstart h ident) (Nat.le_add_right _ _)

theorem perform_tracked (hstart : Numbered start) (h : Tracked start history fk) (call : RegisterCall) :
    ∃ index fk', perform fk call = some (index, fk') ∧ Tracked start (history ++ [(call, index)]) fk' := by
  cases call with
  | temporary =>
    obtain ⟨r, fk', hget, -, -, htracked⟩ := h.temporary
    refine ⟨some r, fk', ?_, htracked⟩
    unfold perform
    rw [hget]
    rfl
  | named ident => exact ⟨_, fk, rfl, h.named hstart ident⟩
  | free index => exact ⟨none, _, rfl, h.free index⟩

theorem performAll_tracked (hstart : Numbered start) (h : Tracked start history fk) (calls : List RegisterCall) :
    ∃ events fk', performAll fk calls = some (events, fk') ∧ Tracked start (history ++ events) fk' := by
  induction calls generalizing fk history with
  | nil => exact ⟨[], fk, rfl, by simpa using h⟩
  | cons call calls ih =>
    obtain ⟨index, fk₁, hperform, h₁⟩ := perform_tracked hstart h call
    obtain ⟨events, fk', hrest, h'⟩ := ih h₁
    refine ⟨(call, index) :: events, fk', ?_, ?_⟩
    · unfold performAll
      rw [hperform]
      simp [hrest]
    · simpa using h'

theorem Tracked.inOrder (hstart : Numbered start) (h : Tracked start history fk) : InOrder start history fk where
  symbols := h.symbols
  keys := by
    rw [← h.symbols]
    exact h.wellFormed
  fresh := by
    obtain ⟨r, fk', hget, habove, hnot, -⟩ := h.temporary
    exact ⟨r, fk', hget, habove, fun hheld => hnot (h.held r hheld)⟩
  variablesKept := by
    intro ident
    have hbound := getRegister_bound hstart h ident
    unfold FunctionKind.freeRegister
    rw [if_neg]
    rw [h.symbols]
    omega
  bounded := h.bounded
  localsCount := by
    intro identifier body s s' code hframed hs'
    unfold Compiler.framed at hframed
    split at hframed
    · cases hframed
    · cases hframed
      rw [← h.symbols, ← hs', Nat.add_comm]
      exact ⟨_, _, rfl⟩

end

theorem fixedSymbols_numbered (names : List String) : Numbered (fixedSymbols names) :=
  numbered_additive.foldl names numbered_empty

theorem tracked_start {start : FunctionKind} (hstart : Numbered start) : Tracked start [] start := by
  refine ⟨?_, rfl, ?_, ?_⟩
  · unfold WellFormed
    rw [hstart.2]
    rfl
  · rintro r ⟨before, after, heq, -⟩
    simp at heq
  · intro event hevent
    cases hevent

/-- In every run the registers are in order. -/
theorem performAll_inOrder (names : List String) (calls : List RegisterCall) :
    ∃ history fk, performAll (fixedSymbols names) calls = some (history, fk) ∧
      InOrder (fixedSymbols names) history fk := by
  have hstart := fixedSymbols_numbered names
  obtain ⟨history, fk, hrun, h⟩ := performAll_tracked hstart (tracked_start hstart) calls
  exact ⟨history, fk, hrun, h.inOrder hstart⟩

end Zeroscript.RegisterRuns
