import Zeroscript.ContextHomes
import Zeroscript.ExpressionInversion
import Zeroscript.Lib.ReadModifyWrite
import Zeroscript.Locations
import Zeroscript.Number
import Zeroscript.RegisterTable
import Zeroscript.Resolution

/-! # `x++` on a synchronized variable

An increment is a locked read, an addition in a register and a locked write. Threads interleave between
the instructions. -/
namespace Zeroscript.SharedIncrement

open ReadModifyWrite (Access Shared replay writes Uninterrupted)

/-- `x++` at an address, for an `x` that has no register. -/
structure IncrementAt (code : Code) (x : String) (p target left key : ℕ) : Prop where
  read : code[p]? = some ⟨.GET_FIELD_IMMEDIATE, .num 1, .str x, .num left⟩
  copy : code[p + 1]? = some ⟨.MOV, .num target, .num left, .num 0⟩
  add : code[p + 2]? = some ⟨.INC, .num left, .num left, .num 0⟩
  name : code[p + 3]? = some ⟨.MOV_STR, .num key, .str x, .num 0⟩
  write : code[p + 4]? = some ⟨.SET_FIELD, .num 1, .num key, .num left⟩
  apart : key ≠ left

section

open Emission ExpressionInversion

variable {syms : List (String × ℕ)} {fk fk' : FunctionKind} {requested r : ℕ} {hasLookupObject : Bool}
  {x : String} {c : Code}

theorem destination_keeps (hfk : Ready syms fk)
    (h : destinationOrTemporary requested fk = .ok (r, fk', c)) {left : ℕ} (hleft : fk.InUse left) :
    Ready syms fk' ∧ fk'.InUse left ∧ c = [] := by
  have hdestination := destinationOrTemporary_destination hfk h
  refine ⟨hdestination.ready, ?_, hdestination.silent⟩
  by_cases hzero : requested = 0
  · exact (hdestination.other hzero left hleft).2
  · obtain ⟨-, rfl, -⟩ := destinationOrTemporary_requested hzero h
    exact hleft

theorem compileExpression_increment (hfk : Ready syms fk) (hx : symbolsOf syms x = 0)
    (h : compileExpression (.postfixed (.ident x) .increment) requested hasLookupObject fk = .ok (r, fk', c))
    (code rest : Code) : ∃ target left key, IncrementAt (code ++ c ++ rest) x code.length target left key := by
  rw [compileExpression] at h
  unfold compilePostfix at h
  obtain ⟨left, fk₁, c₁, c₁', hread, h₁, rfl⟩ := bind_ok.mp h
  obtain ⟨target, fk₂, c₂, c₂', htarget, h₂, rfl⟩ := bind_ok.mp h₁
  obtain ⟨_, fk₃, c₃, c₃', hcopy, h₃, rfl⟩ := bind_ok.mp h₂
  dsimp only at h₃
  obtain ⟨_, fk₄, c₄, c₄', hadd, h₄, rfl⟩ := bind_ok.mp h₃
  obtain ⟨_, fk₅, c₅, c₅', hwrite, h₅, rfl⟩ := bind_ok.mp h₄
  obtain ⟨-, -, rfl⟩ := pure_ok.mp h₅
  have hread' : compileIdentifierImmediate x 0 fk = .ok (left, fk₁, c₁) := by
    simpa [compileExpression, compileTerminal] using hread
  have hleft := compileIdentifierImmediate_ok hfk hread'
  obtain ⟨-, hdestination, rfl⟩ := hleft.resolve_left fun hregister => hregister.1 hx
  obtain ⟨hready, hinuse, rfl⟩ := destination_keeps hdestination.ready htarget (hdestination.temporary rfl).2
  obtain ⟨rfl, rfl⟩ := addInstruction_ok hcopy
  obtain ⟨rfl, rfl⟩ := addInstruction_ok hadd
  unfold writeBack at hwrite
  obtain ⟨reg, fk₆, c₆, c₆', hreg, h₆, rfl⟩ := bind_ok.mp hwrite
  cases hreg
  rw [hready.getRegister, if_pos hx] at h₆
  obtain ⟨key, fk₇, c₇, c₇', hkey, h₇, rfl⟩ := bind_ok.mp h₆
  have hkeydestination := getTemporary_destination hready hkey
  obtain rfl := hkeydestination.silent
  obtain ⟨_, fk₈, c₈, c₈', hname, h₈, rfl⟩ := bind_ok.mp h₇
  obtain ⟨rfl, rfl⟩ := addInstruction_ok hname
  obtain ⟨_, fk₉, c₉, c₉', hset, h₉, rfl⟩ := bind_ok.mp h₈
  obtain ⟨rfl, rfl⟩ := addInstruction_ok hset
  obtain ⟨-, rfl⟩ := freeRegister_ok h₉
  refine ⟨target, left, key, ?_⟩
  constructor <;> simp [(hkeydestination.other rfl left hinuse).1.symm]

end

section

variable {α : Type} [NumOps α]

/-- A thread executes an increment, or an instruction that touches registers only. -/
inductive Executes (x : String) (m : Machine α) (thread : ℕ) : Option (Access ℕ) → Prop where
  | plain {a : Activation} {rest : List Activation} {i : Instruction}
      (hthread : m.threads[thread]? = some (a :: rest)) (hfetch : m.fetch a = some i)
      (hlocal : (execLocal i (m.data.regs a.currentContext)).isSome) : Executes x m thread none
  | read {a : Activation} {rest : List Activation} {target left key : ℕ}
      (hthread : m.threads[thread]? = some (a :: rest))
      (h : IncrementAt (m.data.states a.state).byteStream x a.instructionPtr target left key) :
      Executes x m thread (some (.read thread))
  | name {a : Activation} {rest : List Activation} {p target left key : ℕ}
      (hthread : m.threads[thread]? = some (a :: rest))
      (h : IncrementAt (m.data.states a.state).byteStream x p target left key)
      (hp : a.instructionPtr = p + 3) : Executes x m thread none
  | write {a : Activation} {rest : List Activation} {p target left key : ℕ}
      (hthread : m.threads[thread]? = some (a :: rest))
      (h : IncrementAt (m.data.states a.state).byteStream x p target left key)
      (hp : a.instructionPtr = p + 4) : Executes x m thread (some (.write thread))

inductive Increments (classes : String → Option Code) (x : String) (T : Set ℕ) (m : Machine α) :
    List (Access ℕ) → Machine α → Prop where
  | start : Increments classes x T m [] m
  | step {history : List (Access ℕ)} {access : Option (Access ℕ)} {m₁ m₂ : Machine α} {thread : ℕ}
      (h : Increments classes x T m history m₁) (hthread : thread ∈ T)
      (hexecutes : Executes x m₁ thread access) (hstep : m₁.step classes thread = some m₂) :
      Increments classes x T m (access.toList ++ history) m₂

structure Ready (x : String) (table : ℕ) (m : Machine α) (a : Activation) : Prop where
  shares : (m.data.states a.state).synchronizedVariables = table
  unshadowed : m.data.findSlot x (a.currentContext + 1) a.currentContext = some none
  outside : ∀ p target left key k, IncrementAt (m.data.states a.state).byteStream x p target left key →
    1 ≤ k → k ≤ 4 → a.instructionPtr ≠ p + k

def sharedValue (m : Machine α) (table : ℕ) (x : String) : Option (Reg α) :=
  (m.data.synchronized.getD table .new).get x

def seen (x : String) (v : Reg α) : Reg α :=
  match nativeFunctions.lookup x with
  | some f => ⟨.nativeFunc, .native f⟩
  | none => v

def increment (v : Reg α) : Reg α := { v with val := .num (NumOps.add v.number NumOps.one) }

def update (x : String) (v : Reg α) : Reg α := increment (seen x v)

variable {classes : String → Option Code} {x : String} {m m' : Machine α} {thread : ℕ} {a : Activation}
  {rest : List Activation} {i : Instruction} {d d' : Data α}

theorem step_moves {e : Effect α} {address : ℕ} (hthread : m.threads[thread]? = some (a :: rest))
    (hfetch : m.fetch a = some i) (heffect : effect classes m.data m.control a rest i = some e)
    (hnext : e.action = .next ∧ address = a.instructionPtr + 1 ∨ e.action = .jump address)
    (hstep : m.step classes thread = some m') :
    m'.data = e.data ∧ m'.threads = m.threads.set thread
      ({ a with objectToSearchOn := e.objectToSearchOn, instructionPtr := address } :: rest) := by
  obtain ⟨a', rest', i', e', outcome, hs⟩ := Machine.step_cases hstep
  have hsame := hs.activations
  rw [hthread] at hsame
  cases hsame
  have hinstruction := hs.fetch
  rw [hfetch] at hinstruction
  cases hinstruction
  have hsame := hs.effect
  rw [heffect] at hsame
  cases hsame
  obtain ⟨action, hperform⟩ : ∃ control, outcome = { control := control, activations :=
      { a with objectToSearchOn := e.objectToSearchOn, instructionPtr := address } :: rest } := by
    rw [← hs.perform]
    rcases hnext with ⟨hnext, rfl⟩ | hjump
    · rw [hnext]
      exact ⟨_, rfl⟩
    · rw [hjump]
      exact ⟨_, rfl⟩
  have hthreads := hs.threads
  rw [hperform] at hthreads
  refine ⟨?_, by simpa using hthreads⟩
  rcases hs.delivered with ⟨-, hdata⟩ | ⟨message, details, hraised, -⟩
  · exact hdata
  · rw [hperform] at hraised
    cases hraised

omit [NumOps α] in
theorem findSlot_same (h : SameScopes d d') {bound : ℕ} {c : ContextId}
    (hnone : d.findSlot x bound c = some none) : d'.findSlot x bound c = some none := by
  induction bound generalizing c with
  | zero => cases hnone
  | succ bound ih =>
    rw [Data.findSlot] at hnone ⊢
    by_cases hc : c = 0
    · rw [if_pos hc]
    · rw [if_neg hc] at hnone ⊢
      dsimp only at hnone ⊢
      rw [h.symbols, h.parent]
      cases hlocals : (d.contexts c).locals with
      | none =>
        rw [hlocals] at hnone
        cases hnone
      | some regs =>
        have hsome := h.locals c (by rw [hlocals]; rfl)
        rw [hlocals] at hnone
        rw [if_neg (by simp)] at hnone
        rw [if_neg (by simpa [Option.isNone_iff_eq_none, Option.isSome_iff_ne_none] using hsome)]
        cases hindex : (buildSymbolTable (d.contexts c).symbols).get x with
        | some index =>
          rw [hindex] at hnone
          cases hnone
        | none =>
          rw [hindex] at hnone
          exact ih hnone

theorem effect_local {regs : Regs α} {control : Control}
    (hlocal : execLocal i (m.data.regs a.currentContext) = some (regs, control))
    (hstep : m.step classes thread = some m') (hthread : m.threads[thread]? = some (a :: rest))
    (hfetch : m.fetch a = some i) :
    ∃ address, (address = a.instructionPtr + 1 ∨
        ∃ label, labelIndex (m.data.states a.state).byteStream label = some address) ∧
      m'.data = m.data.setRegs a.currentContext regs ∧
      m'.threads = m.threads.set thread ({ a with instructionPtr := address } :: rest) := by
  obtain ⟨a', rest', i', e, outcome, hs⟩ := Machine.step_cases hstep
  have hsame := hs.activations
  rw [hthread] at hsame
  cases hsame
  have hinstruction := hs.fetch
  rw [hfetch] at hinstruction
  cases hinstruction
  have heffect := hs.effect
  unfold effect at heffect
  rw [hlocal] at heffect
  cases control with
  | next =>
    cases heffect
    exact ⟨_, Or.inl rfl, step_moves hthread hfetch hs.effect (Or.inl ⟨rfl, rfl⟩) hstep⟩
  | jump label =>
    obtain ⟨address, haddress, rfl⟩ := Option.map_eq_some_iff.mp heffect
    exact ⟨address, Or.inr ⟨label, haddress⟩, step_moves hthread hfetch hs.effect (Or.inr rfl) hstep⟩
  | leave => cases heffect

theorem effect_read {left : ℕ} {v : Reg α} (hnone : d.findSlot x (a.currentContext + 1) a.currentContext = some none)
    (hvalue : (d.sharedOf a.state).get x = some v) (k : ControlState) :
    effect classes d k a rest ⟨.GET_FIELD_IMMEDIATE, .num 1, .str x, .num left⟩ =
      some (d.deliverTo a left (seen x v)) := by
  change getField classes d k a 1 x left = _
  unfold getField seen
  cases hnative : nativeFunctions.lookup x with
  | some f => rfl
  | none =>
    dsimp only
    rw [if_pos rfl, searchThis, hnone, Option.bind_eq_bind, Option.bind_some]
    dsimp only
    rw [hvalue]
    rfl

theorem effect_name {key : ℕ} (k : ControlState) :
    effect classes d k a rest ⟨.MOV_STR, .num key, .str x, .num 0⟩ =
      some ((d.newReg .str (.string x 0)).1.deliverTo a key (d.newReg .str (.string x 0)).2) := rfl

theorem effect_write {left key : ℕ} (hnone : d.findSlot x (a.currentContext + 1) a.currentContext = some none)
    (hkey : d.toText (d.regs a.currentContext key) = some x) (k : ControlState) :
    effect classes d k a rest ⟨.SET_FIELD, .num 1, .num key, .num left⟩ =
      some ⟨d.setShared a.state x (d.regs a.currentContext left), a.objectToSearchOn, .next⟩ := by
  change (d.fieldName (d.regs a.currentContext key)).bind (fun name =>
    setField classes d k a 1 name (d.regs a.currentContext left)) = _
  unfold Data.fieldName
  rw [hkey, Option.bind_some]
  unfold setField
  dsimp only
  rw [if_pos rfl, hnone]
  rfl

structure Aside (d d' : Data α) (c : ContextId) : Prop where
  states : d'.states = d.states
  scopes : SameScopes d d'
  regs : ∀ c', c' ≠ c → d'.regs c' = d.regs c'
  text : ∀ (r : Reg α) (text : String), d.toText r = some text → d'.toText r = some text

omit [NumOps α] in
theorem regs_setRegs_of_ne [NumOps α] (d : Data α) {c c' : ContextId} (regs : Regs α) (hne : c' ≠ c) :
    (d.setRegs c regs).regs c' = d.regs c' := by
  unfold Data.regs
  rw [Data.contexts_setRegs, if_neg hne]

theorem aside_setRegs (d : Data α) (c : ContextId) (regs : Regs α) : Aside d (d.setRegs c regs) c where
  states := rfl
  scopes := sameScopes_setRegs d c regs
  regs _ hne := regs_setRegs_of_ne d regs hne
  text _ _ h := h

theorem aside_setShared (d : Data α) (c : ContextId) (s : StateId) (v : Reg α) :
    Aside d (d.setShared s x v) c where
  states := rfl
  scopes := .of rfl
  regs _ _ := rfl
  text _ _ h := h

theorem toText_newReg {r : Reg α} {text : String} (type : RegType) (o : Object α)
    (h : d.toText r = some text) : (d.newReg type o).1.toText r = some text := by
  have hobject : ∀ o', d.object r = some o' → (d.newReg type o).1.object r = some o' := by
    intro o' ho
    unfold Data.object at ho ⊢
    split at ho
    · rename_i address hval
      have hlt : address < d.objects.length := (List.getElem?_eq_some_iff.mp ho).1
      exact (List.getElem?_append_left hlt).trans ho
    · cases ho
  unfold Data.toText at h ⊢
  cases htype : r.type with
  | number =>
    rw [htype] at h
    exact h
  | _ =>
    rw [htype] at h
    dsimp only at h ⊢
    cases ho : d.object r with
    | none =>
      rw [ho] at h
      cases h
    | some o' =>
      rw [ho] at h
      rw [hobject o' ho]
      exact h

theorem aside_newString (d : Data α) (a : Activation) (key : ℕ) (text : String) :
    Aside d ((d.newReg .str (.string text 0)).1.deliverTo a key (d.newReg .str (.string text 0)).2).data
      a.currentContext where
  states := rfl
  scopes := sameScopes_setReg rfl
  regs _ hne := regs_setRegs_of_ne _ _ hne
  text _ _ h := toText_newReg .str (.string text 0) h

/-- Inside an increment the register holds what was read, and from `INC` on one more. -/
def Inside (x : String) (d : Data α) (s : Shared ℕ (Reg α)) (thread : ℕ) (a : Activation) : Prop :=
  ∀ p target left key k, IncrementAt (d.states a.state).byteStream x p target left key →
    a.instructionPtr = p + k → 1 ≤ k → k ≤ 4 → ∃ v, s.held thread = some v ∧
      d.regs a.currentContext left = (if k ≤ 2 then seen x v else update x v) ∧
      (k = 4 → d.toText (d.regs a.currentContext key) = some x)

structure Counting (x : String) (table : ℕ) (T : Set ℕ) (m : Machine α) (s : Shared ℕ (Reg α)) : Prop where
  value : sharedValue m table x = some s.value
  threads : ∀ thread ∈ T, ∃ a rest, m.threads[thread]? = some (a :: rest) ∧
    (m.data.states a.state).synchronizedVariables = table ∧
    m.data.findSlot x (a.currentContext + 1) a.currentContext = some none ∧
    Inside x m.data s thread a

def opcodes : List Opcode := [.GET_FIELD_IMMEDIATE, .MOV, .INC, .MOV_STR, .SET_FIELD]

omit [NumOps α] in
theorem IncrementAt.opcode {code : Code} {p target left key k : ℕ} (h : IncrementAt code x p target left key)
    (hk : k ≤ 4) : ∃ i, code[p + k]? = some i ∧ opcodes[k]? = some i.opcode := by
  match k, hk with
  | 0, _ => exact ⟨_, h.read, rfl⟩
  | 1, _ => exact ⟨_, h.copy, rfl⟩
  | 2, _ => exact ⟨_, h.add, rfl⟩
  | 3, _ => exact ⟨_, h.name, rfl⟩
  | 4, _ => exact ⟨_, h.write, rfl⟩

omit [NumOps α] in
/-- Increments do not overlap. -/
theorem IncrementAt.same {code : Code} {p target left key k p' target' left' key' k' : ℕ}
    (h : IncrementAt code x p target left key) (h' : IncrementAt code x p' target' left' key')
    (hk : k ≤ 4) (hk' : k' ≤ 4) (heq : p + k = p' + k') :
    k = k' ∧ p = p' ∧ left = left' ∧ key = key' := by
  obtain ⟨i, hi, hopcode⟩ := h.opcode hk
  obtain ⟨i', hi', hopcode'⟩ := h'.opcode hk'
  rw [heq, hi'] at hi
  cases hi
  have hinjective : ∀ n ≤ 4, ∀ n' ≤ 4, opcodes[n]? = opcodes[n']? → n = n' := by decide
  obtain rfl := hinjective k hk k' hk' (hopcode.trans hopcode'.symm)
  obtain rfl : p = p' := Nat.add_right_cancel heq
  have hread := h.read
  rw [h'.read] at hread
  have hname := h.name
  rw [h'.name] at hname
  cases hread
  cases hname
  exact ⟨rfl, rfl, rfl, rfl⟩

def Seen (x : String) (table : ℕ) (m : Machine α) (s : Shared ℕ (Reg α)) (thread : ℕ) (a : Activation) : Prop :=
  (m.data.states a.state).synchronizedVariables = table ∧
    m.data.findSlot x (a.currentContext + 1) a.currentContext = some none ∧ Inside x m.data s thread a

omit [NumOps α] in
theorem heads_apart (hl : Linked m.control (frames m.activations)) {thread' : ℕ} {a' : Activation}
    {rest' : List Activation} (h : m.threads[thread]? = some (a :: rest))
    (h' : m.threads[thread']? = some (a' :: rest')) (hne : thread' ≠ thread) : a'.state ≠ a.state := by
  obtain ⟨others, hperm, hset⟩ := flatten_set h
  have hmem : a' ∈ others := by
    have hothers := hset []
    rw [List.nil_append] at hothers
    refine hothers.mem_iff.mp (List.mem_flatten.mpr ⟨a' :: rest', ?_, List.mem_cons_self⟩)
    exact List.mem_of_getElem? ((List.getElem?_set_ne hne.symm).trans h')
  have hl' : Linked m.control (frames (a :: rest ++ others)) := hl.perm (hperm.map _).symm
  exact hl'.ne_head (List.mem_map_of_mem (List.mem_append_right rest hmem))

omit [NumOps α] in
theorem heads_mem {thread : ℕ} (h : m.threads[thread]? = some (a :: rest)) : a ∈ m.activations :=
  List.mem_flatten.mpr ⟨_, List.mem_of_getElem? h, List.mem_cons_self⟩

theorem Seen.other {table : ℕ} {s s' : Shared ℕ (Reg α)} {thread' : ℕ} {a' : Activation}
    {rest' : List Activation} (hm : m.Reachable classes) (hthread : m.threads[thread]? = some (a :: rest))
    (hthread' : m.threads[thread']? = some (a' :: rest')) (hne : thread' ≠ thread)
    (haside : Aside m.data m'.data a.currentContext) (hheld : s'.held thread' = s.held thread')
    (h : Seen x table m s thread' a') : Seen x table m' s' thread' a' := by
  obtain ⟨hshares, hnone, hinside⟩ := h
  have hcontext : a'.currentContext ≠ a.currentContext :=
    frames_apart hm (heads_mem hthread') (heads_mem hthread)
      (heads_apart (reachable_linked hm) hthread hthread' hne)
  refine ⟨?_, findSlot_same haside.scopes hnone, fun p target left key k hincrement hp hk hk' => ?_⟩
  · rw [haside.states]
    exact hshares
  · rw [haside.states] at hincrement
    obtain ⟨v, hv, hleft, hkey⟩ := hinside p target left key k hincrement hp hk hk'
    rw [hheld, haside.regs _ hcontext]
    exact ⟨v, hv, hleft, fun h => haside.text _ _ (hkey h)⟩

theorem Counting.moved {table : ℕ} {T : Set ℕ} {s s' : Shared ℕ (Reg α)} {address : ℕ}
    (hm : m.Reachable classes) (h : Counting x table T m s) (hthread : m.threads[thread]? = some (a :: rest))
    (hthreads : m'.threads = m.threads.set thread ({ a with instructionPtr := address } :: rest))
    (haside : Aside m.data m'.data a.currentContext)
    (hheld : ∀ thread', thread' ≠ thread → s'.held thread' = s.held thread')
    (hvalue : sharedValue m' table x = some s'.value) (hseen : Seen x table m s thread a)
    (hinside : Inside x m'.data s' thread { a with instructionPtr := address }) : Counting x table T m' s' where
  value := hvalue
  threads thread' ht := by
    by_cases hne : thread' = thread
    · subst hne
      refine ⟨{ a with instructionPtr := address }, rest, ?_, ?_, findSlot_same haside.scopes hseen.2.1, hinside⟩
      · rw [hthreads]
        exact List.getElem?_set_self (List.getElem?_eq_some_iff.mp hthread).1
      · rw [haside.states]
        exact hseen.1
    · obtain ⟨a', rest', hthread', hseen'⟩ := h.threads thread' ht
      refine ⟨a', rest', ?_, Seen.other hm hthread hthread' hne haside (hheld thread' hne) hseen'⟩
      rw [hthreads, List.getElem?_set_ne (Ne.symm hne)]
      exact hthread'

theorem Counting.seen {table : ℕ} {T : Set ℕ} {s : Shared ℕ (Reg α)} (h : Counting x table T m s)
    (hmem : thread ∈ T) (hthread : m.threads[thread]? = some (a :: rest)) : Seen x table m s thread a := by
  obtain ⟨a', rest', hthread', hseen⟩ := h.threads thread hmem
  rw [hthread] at hthread'
  cases hthread'
  exact hseen

variable {table : ℕ} {T : Set ℕ} {s : Shared ℕ (Reg α)}

theorem plain_step (hm : m.Reachable classes) (h : Counting x table T m s) (hmem : thread ∈ T)
    (hthread : m.threads[thread]? = some (a :: rest)) (hfetch : m.fetch a = some i)
    (hlocal : (execLocal i (m.data.regs a.currentContext)).isSome)
    (hstep : m.step classes thread = some m') : Counting x table T m' s := by
  obtain ⟨⟨regs, control⟩, hexec⟩ := Option.isSome_iff_exists.mp hlocal
  obtain ⟨address, haddress, hdata, hthreads⟩ := effect_local hexec hstep hthread hfetch
  have hseen := h.seen hmem hthread
  refine h.moved hm hthread hthreads (by rw [hdata]; exact aside_setRegs _ _ _) (fun _ _ => rfl) ?_ hseen ?_
  · unfold sharedValue
    rw [hdata]
    exact h.value
  · intro p target left key k hincrement hp hk hk'
    rw [hdata] at hincrement ⊢
    dsimp only at hp
    have hcode : (m.data.states a.state).byteStream[a.instructionPtr]? = some i := hfetch
    rcases haddress with rfl | ⟨label, hlabel⟩
    · have hbefore : a.instructionPtr = p + (k - 1) := by omega
      have hregs : (m.data.setRegs a.currentContext regs).regs a.currentContext = regs := by
        simp [Data.regs]
      rw [hregs]
      rw [hbefore] at hcode
      obtain rfl | rfl | rfl | rfl : k = 1 ∨ k = 2 ∨ k = 3 ∨ k = 4 := by omega
      · cases hincrement.read.symm.trans hcode
        cases hexec
      · cases hincrement.copy.symm.trans hcode
        cases hexec
        obtain ⟨v, hv, hleft, -⟩ := hseen.2.2 p target left key 1 hincrement hbefore (le_refl _) (by omega)
        refine ⟨v, hv, ?_, fun hlast => by cases hlast⟩
        rw [if_pos (by omega)] at hleft ⊢
        by_cases hsame : left = target
        · rw [← hsame]
          exact (Function.update_self _ _ _).trans hleft
        · exact (Function.update_of_ne hsame _ _).trans hleft
      · cases hincrement.add.symm.trans hcode
        cases hexec
        obtain ⟨v, hv, hleft, -⟩ := hseen.2.2 p target left key 2 hincrement hbefore (by omega) (by omega)
        refine ⟨v, hv, ?_, fun hlast => by cases hlast⟩
        rw [if_pos (by omega)] at hleft
        rw [if_neg (by omega)]
        refine (Function.update_self _ _ _).trans ?_
        change increment (m.data.regs a.currentContext left) = update x v
        rw [hleft]
        rfl
      · cases hincrement.name.symm.trans hcode
        cases hexec
    · obtain ⟨j, hj, hopcode, -⟩ := Resolution.labelIndex_label hlabel
      obtain ⟨j', hj', hopcode'⟩ := hincrement.opcode hk'
      rw [← hp] at hj'
      have heq : some j = some j' := hj.symm.trans hj'
      cases heq
      rw [hopcode] at hopcode'
      have hnolabel : ∀ n ≤ 4, opcodes[n]? ≠ some Opcode.LABEL := by decide
      exact absurd hopcode' (hnolabel k hk')

theorem inside_of {code : Code} {p target left key k : ℕ} {v : Reg α} {b : Activation}
    (h : IncrementAt code x p target left key) (hcode : (d.states b.state).byteStream = code)
    (hb : b.instructionPtr = p + k) (hk : k ≤ 4) (hheld : s.held thread = some v)
    (hleft : d.regs b.currentContext left = if k ≤ 2 then seen x v else update x v)
    (hkey : k = 4 → d.toText (d.regs b.currentContext key) = some x) : Inside x d s thread b := by
  intro p' target' left' key' k' h' hb' _ hk'
  rw [hcode] at h'
  obtain ⟨rfl, rfl, rfl, rfl⟩ := h.same h' hk hk' (hb.symm.trans hb')
  exact ⟨v, hheld, hleft, hkey⟩

theorem read_step {target left key : ℕ} (hm : m.Reachable classes) (h : Counting x table T m s)
    (hmem : thread ∈ T) (hthread : m.threads[thread]? = some (a :: rest))
    (hincrement : IncrementAt (m.data.states a.state).byteStream x a.instructionPtr target left key)
    (hstep : m.step classes thread = some m') :
    ∃ s', s.access (update x) (.read thread) = some s' ∧ Counting x table T m' s' := by
  have hseen := h.seen hmem hthread
  have hvalue : (m.data.sharedOf a.state).get x = some s.value := by
    unfold Data.sharedOf
    rw [hseen.1]
    exact h.value
  obtain ⟨hdata, hthreads⟩ := step_moves hthread hincrement.read
    (effect_read hseen.2.1 hvalue m.control) (Or.inl ⟨rfl, rfl⟩) hstep
  refine ⟨_, rfl, h.moved hm hthread hthreads (by rw [hdata]; exact aside_setRegs _ _ _)
    (fun _ hne => Function.update_of_ne hne _ _) (by unfold sharedValue; rw [hdata]; exact h.value) hseen ?_⟩
  refine inside_of (k := 1) hincrement (by rw [hdata]; rfl) rfl (by omega) (Function.update_self _ _ _) ?_ nofun
  rw [hdata, if_pos (by omega)]
  exact (congrFun (Data.regs_setReg_self _ _ _ _) left).trans (Function.update_self _ _ _)

theorem name_step {p target left key : ℕ} (hm : m.Reachable classes) (h : Counting x table T m s)
    (hmem : thread ∈ T) (hthread : m.threads[thread]? = some (a :: rest))
    (hincrement : IncrementAt (m.data.states a.state).byteStream x p target left key)
    (hp : a.instructionPtr = p + 3) (hstep : m.step classes thread = some m') : Counting x table T m' s := by
  have hseen := h.seen hmem hthread
  have hfetch : m.fetch a = some ⟨.MOV_STR, .num key, .str x, .num 0⟩ := by
    unfold Machine.fetch
    rw [hp]
    exact hincrement.name
  obtain ⟨hdata, hthreads⟩ := step_moves hthread hfetch (effect_name m.control) (Or.inl ⟨rfl, rfl⟩) hstep
  obtain ⟨v, hv, hleft, -⟩ := hseen.2.2 p target left key 3 hincrement hp (by omega) (by omega)
  have hregs : m'.data.regs a.currentContext =
      Function.update (m.data.regs a.currentContext) key (m.data.newReg .str (.string x 0)).2 := by
    rw [hdata]
    exact Data.regs_setReg_self _ _ _ _
  refine h.moved hm hthread hthreads (by rw [hdata]; exact aside_newString _ _ _ _) (fun _ _ => rfl)
    (by unfold sharedValue; rw [hdata]; exact h.value) hseen
    (inside_of (k := 4) hincrement (by rw [hdata]; rfl) (congrArg (· + 1) hp) (le_refl _) hv ?_ fun _ => ?_)
  · rw [if_neg (by omega)] at hleft ⊢
    rw [hregs, Function.update_of_ne hincrement.apart.symm]
    exact hleft
  · rw [hregs, Function.update_self, hdata]
    simp [Data.toText, Data.object, Data.newReg, Data.alloc, Data.deliverTo, Data.setReg, Data.setRegs]

theorem write_step {p target left key : ℕ} (hm : m.Reachable classes) (h : Counting x table T m s)
    (hmem : thread ∈ T) (hthread : m.threads[thread]? = some (a :: rest))
    (hincrement : IncrementAt (m.data.states a.state).byteStream x p target left key)
    (hp : a.instructionPtr = p + 4) (hstep : m.step classes thread = some m') :
    ∃ s', s.access (update x) (.write thread) = some s' ∧ Counting x table T m' s' := by
  have hseen := h.seen hmem hthread
  have hfetch : m.fetch a = some ⟨.SET_FIELD, .num 1, .num key, .num left⟩ := by
    unfold Machine.fetch
    rw [hp]
    exact hincrement.write
  obtain ⟨v, hv, hleft, hkey⟩ := hseen.2.2 p target left key 4 hincrement hp (by omega) (by omega)
  obtain ⟨hdata, hthreads⟩ := step_moves hthread hfetch (effect_write hseen.2.1 (hkey rfl) m.control)
    (Or.inl ⟨rfl, rfl⟩) hstep
  rw [if_neg (by omega)] at hleft
  have hsharing := reachable_sharing hm
  refine ⟨⟨update x v, Function.update s.held thread none⟩, by rw [Shared.access, hv]; rfl,
    h.moved hm hthread hthreads (by rw [hdata]; exact aside_setShared _ _ _ _)
      (fun _ hne => Function.update_of_ne hne _ _) ?_ hseen ?_⟩
  · unfold sharedValue
    rw [hdata, ← hseen.1, hleft]
    have hlt := hsharing.table_lt a.state
    simp only [Data.setShared, List.getD_eq_getElem?_getD, List.getElem?_set_self hlt, Option.getD_some]
    exact ZMap.get_insert_self _ _ (hsharing.getD_mutable _)
  · intro p' target' left' key' k hincrement' hp' hk hk'
    rw [hdata] at hincrement'
    dsimp only at hp'
    have hbefore : p + 4 = p' + (k - 1) := by omega
    obtain ⟨hfour, -⟩ := hincrement.same hincrement' (le_refl _) (by omega) hbefore
    omega

/-- The invariant of runs. -/
theorem increments_counting {m₀ : Machine α} {v : Reg α} {history : List (Access ℕ)}
    (hm₀ : m₀.Reachable classes) (hvalue : sharedValue m₀ table x = some v)
    (hready : ∀ thread ∈ T, ∃ a rest, m₀.threads[thread]? = some (a :: rest) ∧ Ready x table m₀ a)
    (hrun : Increments classes x T m₀ history m) :
    m.Reachable classes ∧ ∃ s, replay (update x) v history = some s ∧ Counting x table T m s := by
  induction hrun with
  | start =>
    refine ⟨hm₀, _, rfl, hvalue, fun thread hmem => ?_⟩
    obtain ⟨a, rest, hthread, hshares, hnone, houtside⟩ := hready thread hmem
    exact ⟨a, rest, hthread, hshares, hnone, fun p target left key k hincrement hp hk hk' =>
      absurd hp (houtside p target left key k hincrement hk hk')⟩
  | step hrun hmem hexecutes hstep ih =>
    obtain ⟨hm, s, hs, hcounting⟩ := ih
    refine ⟨hm.step hstep, ?_⟩
    cases hexecutes with
    | plain hthread hfetch hlocal => exact ⟨s, hs, plain_step hm hcounting hmem hthread hfetch hlocal hstep⟩
    | name hthread h hp => exact ⟨s, hs, name_step hm hcounting hmem hthread h hp hstep⟩
    | read hthread h =>
      obtain ⟨s', hs', hcounting'⟩ := read_step hm hcounting hmem hthread h hstep
      exact ⟨s', by rw [Option.toList_some, List.singleton_append, replay, hs]; exact hs', hcounting'⟩
    | write hthread h hp =>
      obtain ⟨s', hs', hcounting'⟩ := write_step hm hcounting hmem hthread h hp hstep
      exact ⟨s', by rw [Option.toList_some, List.singleton_append, replay, hs]; exact hs', hcounting'⟩

end

variable {x : String}

theorem update_iterate (hname : nativeFunctions.lookup x = none) (v : ℚ) (n : ℕ) :
    (update x)^[n] (Reg.ofNum v) = Reg.ofNum (v + n) := by
  induction n with
  | zero => simp
  | succ n ih =>
    rw [Function.iterate_succ_apply', ih]
    unfold update seen
    rw [hname]
    change Reg.ofNum (v + n + 1) = _
    congr 1
    push_cast
    ring

theorem update_injective (hname : nativeFunctions.lookup x = none) (v : ℚ) :
    Function.Injective fun n : ℕ => (update x)^[n] (Reg.ofNum v) := by
  intro n n' heq
  dsimp only at heq
  rw [update_iterate hname, update_iterate hname] at heq
  have hsum : v + (n : ℚ) = v + n' := by
    injection heq with _ hval
    injection hval
  exact_mod_cast add_left_cancel hsum

theorem update_native {f : Native} (hname : nativeFunctions.lookup x = some f) (v : Reg ℚ) {n : ℕ}
    (hn : n ≠ 0) : ((update x)^[n] v).type = .nativeFunc := by
  obtain ⟨n, rfl⟩ := Nat.exists_eq_succ_of_ne_zero hn
  rw [Function.iterate_succ_apply']
  unfold update increment seen
  rw [hname]

/-- The variable ends with its initial value and the number of increments exactly when no increment is
interrupted by another one. -/
theorem final_value_iff {fuel : ℕ} {program : List ClassDeclaration} {table : ℕ} {T : Set ℕ}
    {m₀ m : Machine ℚ} {v : ℚ} {history : List (Access ℕ)} (hm₀ : m₀.Reachable (imagesOf fuel program))
    (hvalue : sharedValue m₀ table x = some (.ofNum v))
    (hready : ∀ thread ∈ T, ∃ a rest, m₀.threads[thread]? = some (a :: rest) ∧ Ready x table m₀ a)
    (hrun : Increments (imagesOf fuel program) x T m₀ history m) :
    sharedValue m table x = some (.ofNum (v + writes history)) ↔
      (writes history = 0 ∨ nativeFunctions.lookup x = none) ∧ Uninterrupted history := by
  obtain ⟨-, s, hs, hcounting⟩ := increments_counting hm₀ hvalue hready hrun
  rw [hcounting.value, Option.some.injEq]
  cases hname : nativeFunctions.lookup x with
  | none =>
    rw [← update_iterate hname, ReadModifyWrite.value_iff (update_injective hname v) hs]
    simp
  | some f =>
    obtain ⟨n, hn⟩ := ReadModifyWrite.replay_counted hs
    have hiterate := ReadModifyWrite.replay_iterate (update x) (Reg.ofNum v) hn
    rw [hs] at hiterate
    cases hiterate
    by_cases hwrites : writes history = 0
    · have hzero : n.value = 0 :=
        Nat.le_zero.mp (hwrites ▸ (ReadModifyWrite.value_eq_writes_iff hn).1)
      simp [hwrites, hzero, ReadModifyWrite.uninterrupted_of_no_writes hwrites]
    · have htype := update_native hname (Reg.ofNum v) (ReadModifyWrite.value_pos hn hwrites)
      constructor
      · intro heq
        have hnumber : (update x)^[n.value] (Reg.ofNum v) = Reg.ofNum (v + writes history) := heq
        rw [hnumber] at htype
        cases htype
      · rintro ⟨hzero | hnone, -⟩
        · exact absurd hzero hwrites
        · cases hnone

section

variable {classes : String → Option Code} {m m' : Machine ℚ} {p target left key : ℕ}

instance (code : Code) (x : String) (p target left key : ℕ) : Decidable (IncrementAt code x p target left key) :=
  decidable_of_iff (code[p]? = some ⟨.GET_FIELD_IMMEDIATE, .num 1, .str x, .num left⟩ ∧
      code[p + 1]? = some ⟨.MOV, .num target, .num left, .num 0⟩ ∧
      code[p + 2]? = some ⟨.INC, .num left, .num left, .num 0⟩ ∧
      code[p + 3]? = some ⟨.MOV_STR, .num key, .str x, .num 0⟩ ∧
      code[p + 4]? = some ⟨.SET_FIELD, .num 1, .num key, .num left⟩ ∧ key ≠ left)
    ⟨fun ⟨h₀, h₁, h₂, h₃, h₄, hne⟩ => ⟨h₀, h₁, h₂, h₃, h₄, hne⟩,
      fun h => ⟨h.read, h.copy, h.add, h.name, h.write, h.apart⟩⟩

def accessAt (x : String) (p target left key : ℕ) (m : Machine ℚ) (thread : ℕ) :
    Option (Option (Access ℕ)) := do
  let a ← (← m.threads[thread]?).head?
  if IncrementAt (m.data.states a.state).byteStream x p target left key then
    if a.instructionPtr = p then return some (.read thread)
    else if a.instructionPtr = p + 3 then return none
    else if a.instructionPtr = p + 4 then return some (.write thread)
    else
      let i ← m.fetch a
      if (execLocal i (m.data.regs a.currentContext)).isSome then return none else none
  else none

def follow (classes : String → Option Code) (x : String) (p target left key : ℕ) :
    List ℕ → List (Access ℕ) → Machine ℚ → Option (List (Access ℕ) × Machine ℚ)
  | [], history, m => some (history, m)
  | thread :: schedule, history, m => do
    let access ← accessAt x p target left key m thread
    follow classes x p target left key schedule (access.toList ++ history) (← m.step classes thread)

theorem accessAt_executes {thread : ℕ} {access : Option (Access ℕ)}
    (h : accessAt x p target left key m thread = some access) : Executes x m thread access := by
  unfold accessAt at h
  obtain ⟨activations, hthread, hactivation⟩ := Option.bind_eq_some_iff.mp h
  obtain ⟨a, hhead, haccess⟩ := Option.bind_eq_some_iff.mp hactivation
  obtain ⟨rest, rfl⟩ := List.head?_eq_some_iff.mp hhead
  split at haccess
  · rename_i hincrement
    split at haccess
    · rename_i hp
      cases haccess
      exact .read hthread (hp ▸ hincrement)
    · split at haccess
      · rename_i hp
        cases haccess
        exact .name hthread hincrement hp
      · split at haccess
        · rename_i hp
          cases haccess
          exact .write hthread hincrement hp
        · obtain ⟨i, hi, hlocal⟩ := Option.bind_eq_some_iff.mp haccess
          split at hlocal
          · rename_i hsome
            cases hlocal
            exact .plain hthread hi hsome
          · cases hlocal
  · cases haccess

theorem follow_increments {T : Set ℕ} {m₀ : Machine ℚ} {schedule : List ℕ}
    {history history' : List (Access ℕ)} (hmem : ∀ thread ∈ schedule, thread ∈ T)
    (hrun : Increments classes x T m₀ history m)
    (h : follow classes x p target left key schedule history m = some (history', m')) :
    Increments classes x T m₀ history' m' := by
  induction schedule generalizing history m with
  | nil =>
    cases h
    exact hrun
  | cons thread schedule ih =>
    obtain ⟨access, haccess, hrest⟩ := Option.bind_eq_some_iff.mp h
    obtain ⟨m₁, hstep, hfollow⟩ := Option.bind_eq_some_iff.mp hrest
    exact ih (fun t ht => hmem t (List.mem_cons_of_mem _ ht))
      (hrun.step (hmem thread List.mem_cons_self) (accessAt_executes haccess) hstep) hfollow

end

/-- `tshared var x = 0; async function g() { x++; } g(); g();` -/
def twoIncrements : List ClassDeclaration :=
  let constructor : Stmt := .function true false false "__static__constructor__" [] []
  let call : Stmt := .eval (.methodCall (.ident "g") [])
  [⟨"Main", [], [.var "x" (.num "0") false true,
    .function false true false "g" [] [.eval (.postfixed (.ident "x") .increment)], call, call,
    constructor], []⟩]

def bothReady : Option (Machine ℚ) :=
  runProgram 3 twoIncrements [] (List.replicate 11 0 ++ [1, 2])

def readyAt (x : String) (table p target left key : ℕ) (m : Machine ℚ) (thread : ℕ) : Bool :=
  match m.threads[thread]? with
  | some (a :: _) => decide (a.instructionPtr = p ∧ (m.data.states a.state).synchronizedVariables = table ∧
      m.data.findSlot x (a.currentContext + 1) a.currentContext = some none ∧
      IncrementAt (m.data.states a.state).byteStream x p target left key)
  | _ => false

theorem readyAt_ready {x : String} {table p target left key : ℕ} {m : Machine ℚ} {thread : ℕ}
    (h : readyAt x table p target left key m thread = true) :
    ∃ a rest, m.threads[thread]? = some (a :: rest) ∧ Ready x table m a := by
  unfold readyAt at h
  split at h
  · rename_i a rest hthread
    obtain ⟨rfl, hshares, hnone, hincrement⟩ := of_decide_eq_true h
    refine ⟨a, rest, hthread, hshares, hnone, fun p' target' left' key' k h' hk hk' hp => ?_⟩
    obtain ⟨rfl, -⟩ := hincrement.same h' (Nat.zero_le _) hk' hp
    exact absurd hk (Nat.not_succ_le_zero 0)
  · cases h

def countedBy (schedule : List ℕ) : Option (Bool × List (Access ℕ) × Option (Reg ℚ)) :=
  bothReady.bind fun m₀ => do
    let (history, m) ← follow (imagesOf 3 twoIncrements) "x" 15 4 3 5 schedule [] m₀
    return (readyAt "x" 0 15 4 3 5 m₀ 1 && readyAt "x" 0 15 4 3 5 m₀ 2 &&
      decide (sharedValue m₀ 0 "x" = some (.ofNum 0)), history, sharedValue m 0 "x")

theorem countedBy_run {schedule : List ℕ} {history : List (Access ℕ)} {value : Option (Reg ℚ)}
    (hmem : ∀ thread ∈ schedule, thread = 1 ∨ thread = 2)
    (h : countedBy schedule = some (true, history, value)) :
    ∃ m₀ m : Machine ℚ, m₀.Reachable (imagesOf 3 twoIncrements) ∧
      sharedValue m₀ 0 "x" = some (.ofNum 0) ∧
      (∀ thread ∈ ({1, 2} : Set ℕ), ∃ a rest, m₀.threads[thread]? = some (a :: rest) ∧ Ready "x" 0 m₀ a) ∧
      Increments (imagesOf 3 twoIncrements) "x" {1, 2} m₀ history m ∧ sharedValue m 0 "x" = value := by
  obtain ⟨m₀, hm₀, hrest⟩ := Option.bind_eq_some_iff.mp h
  obtain ⟨⟨history', m⟩, hfollow, hend⟩ := Option.bind_eq_some_iff.mp hrest
  simp only [Option.pure_def, Option.some.injEq, Prod.mk.injEq, Bool.and_eq_true, decide_eq_true_eq] at hend
  obtain ⟨⟨⟨hone, htwo⟩, hvalue⟩, rfl, rfl⟩ := hend
  refine ⟨m₀, m, runProgram_reachable hm₀, hvalue, fun thread ht => ?_,
    follow_increments hmem .start hfollow, rfl⟩
  rcases ht with rfl | rfl
  · exact readyAt_ready hone
  · exact readyAt_ready htwo

/-- The second thread begins when the first one is done. -/
theorem increments_in_turn : ∃ (m₀ m : Machine ℚ) (history : List (Access ℕ)),
    Increments (imagesOf 3 twoIncrements) "x" {1, 2} m₀ history m ∧ writes history = 2 ∧
      (sharedValue m 0 "x" = some (.ofNum (0 + writes history)) ↔
        (writes history = 0 ∨ nativeFunctions.lookup "x" = none) ∧ Uninterrupted history) := by
  have hcounted : countedBy [1, 1, 1, 1, 1, 2, 2, 2, 2, 2] =
      some (true, [.write 2, .read 2, .write 1, .read 1], some (.ofNum 2)) := by decide +kernel
  obtain ⟨m₀, m, hm₀, hvalue, hready, hrun, -⟩ := countedBy_run (by decide) hcounted
  exact ⟨m₀, m, _, hrun, rfl, final_value_iff hm₀ hvalue hready hrun⟩

/-- Both threads read 0, and both write 1. -/
theorem increment_lost : ∃ (m₀ m : Machine ℚ) (history : List (Access ℕ)),
    m₀.Reachable (imagesOf 3 twoIncrements) ∧ sharedValue m₀ 0 "x" = some (.ofNum 0) ∧
      Increments (imagesOf 3 twoIncrements) "x" {1, 2} m₀ history m ∧ writes history = 2 ∧
      sharedValue m 0 "x" = some (.ofNum 1) := by
  have hcounted : countedBy [1, 2, 1, 2, 1, 2, 1, 2, 1, 2] =
      some (true, [.write 2, .write 1, .read 2, .read 1], some (.ofNum 1)) := by decide +kernel
  obtain ⟨m₀, m, hm₀, hvalue, hready, hrun, hfinal⟩ := countedBy_run (by decide) hcounted
  exact ⟨m₀, m, _, hm₀, hvalue, hrun, rfl, hfinal⟩

end Zeroscript.SharedIncrement
