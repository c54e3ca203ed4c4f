import Zeroscript.CurrentContext
import Zeroscript.Number

/-! # Exceptions that leave a state

A run in a state of its own ends with `return_code` set. `OP_CALL` looks at it after a method;
`object_new` and `interpreter_run_static_constructor` do not. -/
namespace Zeroscript.Uncaught

open CurrentContext (raisedIn setState_away perform_raised perform_unraised raisedIn_linked)

/-- An exception is raised in the frame of the caller `c`: its innermost active `try` catches it, or
it leaves `c` too. There are `j` activations above the callee, and `below` are those below `c`. -/
structure RaisedIn (links : ContextId → Link) (outcome : Outcome) (j : ℕ) (c : Activation)
    (below : List Activation) : Prop where
  caught : ∀ c' address, InnermostTry links c.currentContext c' address →
    outcome.caughtBy = some c.state ∧
      outcome.activations = { c with currentContext := c', instructionPtr := address } :: below
  uncaught : (¬∃ c' address, InnermostTry links c.currentContext c' address) →
    outcome.left[j + 1]? = some (c.state, c.resume)

/-- The state of an activation has the same innermost active `try` as the executing frame. -/
def SearchAgrees (k : ControlState) (c : Activation) : Prop :=
  ∀ c' address, InnermostTry k.links (k.states c.state).currentContext c' address ↔
    InnermostTry k.links c.currentContext c' address

/-- What is raised in an activation comes to its executing frame. With a `return_code` left behind, no
`try` is entered. -/
def ReachesFrame (k : ControlState) (c : Activation) : Prop :=
  if (k.states c.state).returnCode then ¬∃ c' address, InnermostTry k.links c.currentContext c' address
  else SearchAgrees k c

variable {k : ControlState} {fs : List (StateId × ContextId)}

theorem handler_iff (hl : Linked k fs) {s : StateId} {c : ContextId} {address : ℕ} :
    k.handler s = some (c, address) ↔
      InnermostTry k.links (k.states s).currentContext c address :=
  findCatch_iff hl.older (hl.current_lt s)

theorem raise_left_nil {message : String} {a : Activation} {rest : List Activation}
    {found : ContextId × ℕ} (h : k.catcher a.state = some found) :
    (k.raise message (a :: rest)).left = [] := by
  rw [ControlState.raise, h]

theorem raise_caughtBy_mem {message : String} {activations : List Activation} {s : StateId}
    (h : (k.raise message activations).caughtBy = some s) :
    ∃ f ∈ frames activations, f.1 = s := by
  induction activations generalizing k with
  | nil => cases h
  | cons a rest ih =>
    rw [ControlState.raise] at h
    split at h
    · cases h
      exact ⟨_, List.mem_cons_self, rfl⟩
    · split at h
      · obtain ⟨f, hf, hs⟩ := ih h
        exact ⟨f, List.mem_cons_of_mem _ hf, hs⟩
      · cases h

theorem raise_leaves {message : String} {a : Activation} {rest : List Activation}
    (h : k.catcher a.state = none) :
    (k.raise message (a :: rest)).left[0]? = some (a.state, a.resume) := by
  rw [ControlState.raise, h]
  dsimp only
  split
  · rename_i hresume
    simp [hresume]
  · simp

theorem raise_top_iff {message : String} {c : Activation} {below : List Activation}
    (hl : Linked k (frames (c :: below) ++ fs)) :
    ((∀ c' address, InnermostTry k.links c.currentContext c' address →
        (k.raise message (c :: below)).caughtBy = some c.state ∧
          (k.raise message (c :: below)).activations =
            { c with currentContext := c', instructionPtr := address } :: below) ∧
      ((¬∃ c' address, InnermostTry k.links c.currentContext c' address) →
        (k.raise message (c :: below)).left[0]? = some (c.state, c.resume))) ↔
      ReachesFrame k c := by
  have hnot : k.catcher c.state = none → (k.raise message (c :: below)).caughtBy ≠ some c.state := by
    intro hfound hcaught
    rw [ControlState.raise, hfound] at hcaught
    dsimp only at hcaught
    split at hcaught
    · obtain ⟨f, hf, hs⟩ := raise_caughtBy_mem hcaught
      exact hl.ne_head (List.mem_append_left fs hf) hs
    · cases hcaught
  unfold ReachesFrame
  split
  · rename_i hreturn
    have hfound : k.catcher c.state = none := by rw [ControlState.catcher, if_pos hreturn]
    constructor
    · rintro ⟨hcaught, -⟩ ⟨c', address, htry⟩
      exact hnot hfound (hcaught c' address htry).1
    · exact fun hnone => ⟨fun c' address htry => absurd ⟨c', address, htry⟩ hnone, fun _ => raise_leaves hfound⟩
  rename_i hreturn
  have hcatcher : k.catcher c.state = k.handler c.state := by rw [ControlState.catcher, if_neg hreturn]
  unfold SearchAgrees
  cases hfound : k.handler c.state with
  | some found =>
    obtain ⟨c₀, address₀⟩ := found
    have htry := (handler_iff hl).mp hfound
    have hunique : ∀ c' address, InnermostTry k.links (k.states c.state).currentContext c' address →
        c' = c₀ ∧ address = address₀ := by
      intro c' address h
      have heq := (handler_iff hl).mpr h
      rw [hfound] at heq
      cases heq
      exact ⟨rfl, rfl⟩
    rw [ControlState.raise, hcatcher, hfound]
    dsimp only
    constructor
    · rintro ⟨hcaught, huncaught⟩
      by_cases hnone : ∃ c' address, InnermostTry k.links c.currentContext c' address
      · obtain ⟨c', address, h⟩ := hnone
        have hsame : ∀ c' address, InnermostTry k.links c.currentContext c' address →
            c' = c₀ ∧ address = address₀ := by
          intro c' address h
          obtain ⟨-, hactivations⟩ := hcaught c' address h
          cases hactivations
          exact ⟨rfl, rfl⟩
        obtain ⟨rfl, rfl⟩ := hsame c' address h
        intro c'' address''
        constructor
        · intro h''
          obtain ⟨rfl, rfl⟩ := hunique c'' address'' h''
          exact h
        · intro h''
          obtain ⟨rfl, rfl⟩ := hsame c'' address'' h''
          exact htry
      · cases huncaught hnone
    · intro hagrees
      refine ⟨fun c' address h => ?_, fun hnone => ?_⟩
      · obtain ⟨rfl, rfl⟩ := hunique c' address ((hagrees c' address).mpr h)
        exact ⟨rfl, rfl⟩
      · exact absurd ⟨c₀, address₀, (hagrees c₀ address₀).mp htry⟩ hnone
  | none =>
    have hno : ∀ c' address, ¬InnermostTry k.links (k.states c.state).currentContext c' address := by
      intro c' address h
      rw [(handler_iff hl).mpr h] at hfound
      cases hfound
    constructor
    · rintro ⟨hcaught, -⟩ c' address
      exact iff_of_false (hno c' address) fun h => hnot (hcatcher.trans hfound) (hcaught c' address h).1
    · intro hagrees
      exact ⟨fun c' address h => absurd ((hagrees c' address).mpr h) (hno c' address),
        fun _ => raise_leaves (hcatcher.trans hfound)⟩

variable {a : Activation} {rest : List Activation}

theorem raise_stops {message : String} (hfound : k.catcher a.state = none) (hresume : a.resume.isMethod = false) :
    k.raise message (a :: rest) =
      { control := (k.throwIn a.state).stop a.state
        activations := resumeCaller a.resume rest
        raised := some message
        left := [(a.state, a.resume)]
        broken := k.brokenOff a.state } := by
  rw [ControlState.raise, hfound]
  cases hr : a.resume with
  | method register =>
    rw [hr] at hresume
    cases hresume
  | construct | load | startup | root => rfl

theorem raise_method {message : String} {register : ℕ} (hfound : k.catcher a.state = none)
    (hresume : a.resume = .method register) :
    k.raise message (a :: rest) =
      { ((k.throwIn a.state).stop a.state).raise message rest with
        left := (a.state, a.resume) :: (((k.throwIn a.state).stop a.state).raise message rest).left
        broken := k.brokenOff a.state ++ (((k.throwIn a.state).stop a.state).raise message rest).broken } := by
  rw [ControlState.raise, hfound]
  dsimp only
  rw [hresume]

theorem stopped_same {c : Activation} (hne : c.state ≠ a.state) :
    ((k.throwIn a.state).stop a.state).links = k.links ∧
      (ReachesFrame ((k.throwIn a.state).stop a.state) c ↔ ReachesFrame k c) := by
  obtain ⟨thrown, hthrown⟩ := k.throwIn_setState a.state
  have hlinks : ((k.throwIn a.state).stop a.state).links = k.links := by
    rw [hthrown]
    rfl
  have hstate : ((k.throwIn a.state).stop a.state).states c.state = k.states c.state := by
    rw [hthrown]
    simp [ControlState.stop, ControlState.setState, hne]
  refine ⟨hlinks, ?_⟩
  unfold ReachesFrame SearchAgrees
  rw [hlinks, hstate]

theorem raise_caller_iff {message : String} {activations : List Activation} {j : ℕ}
    {b c : Activation} (hl : Linked k (frames activations ++ fs)) (hb : activations[j]? = some b)
    (hc : activations[j + 1]? = some c)
    (hleft : j < (k.raise message activations).left.length) :
    RaisedIn k.links (k.raise message activations) j c (activations.drop (j + 2)) ↔
      b.resume.isMethod = true ∧ ReachesFrame k c := by
  induction activations generalizing k j with
  | nil => cases hb
  | cons a rest ih =>
    cases hfound : k.catcher a.state with
    | some found =>
      rw [raise_left_nil hfound] at hleft
      exact absurd hleft (Nat.not_lt_zero j)
    | none =>
      have hrest := hl.stopped
      have hne : c.state ≠ a.state := by
        have hmem : c ∈ rest := List.mem_of_getElem? (by simpa using hc)
        exact hl.ne_head (List.mem_append_left fs (List.mem_map_of_mem hmem))
      obtain ⟨hlinks, hagrees⟩ := stopped_same (k := k) hne
      cases hresume : a.resume with
      | construct | load | startup | root =>
        rw [raise_stops hfound (by rw [hresume]; rfl)] at hleft ⊢
        obtain rfl : j = 0 := Nat.lt_one_iff.mp hleft
        cases hb
        refine iff_of_false ?_ fun h => ?_
        · rintro ⟨hcaught, huncaught⟩
          by_cases hnone : ∃ c' address, InnermostTry k.links c.currentContext c' address
          · obtain ⟨c', address, h⟩ := hnone
            cases (hcaught c' address h).1
          · cases huncaught hnone
        · rw [hresume] at h
          cases h.1
      | method register =>
        rw [raise_method hfound hresume] at hleft ⊢
        rw [← hlinks]
        cases j with
        | zero =>
          cases hb
          cases rest with
          | nil => cases hc
          | cons top below =>
            cases hc
            rw [← hagrees, ← raise_top_iff hrest, hresume]
            constructor
            · rintro ⟨hcaught, huncaught⟩
              exact ⟨rfl, hcaught, huncaught⟩
            · rintro ⟨-, hcaught, huncaught⟩
              exact ⟨hcaught, huncaught⟩
        | succ j =>
          rw [← hagrees, ← ih hrest hb hc (Nat.lt_of_succ_lt_succ hleft)]
          constructor
          · rintro ⟨hcaught, huncaught⟩
            exact ⟨hcaught, huncaught⟩
          · rintro ⟨hcaught, huncaught⟩
            exact ⟨hcaught, huncaught⟩

theorem raisedIn_search {k' : ControlState} {a : Activation} {action : Action} {message : String}
    (hl : Linked k fs) (h : raisedIn k a action = some (k', message)) :
    k'.links = k.links ∧ ∀ c : Activation, c.state ≠ a.state →
      (ReachesFrame k' c ↔ ReachesFrame k c) := by
  have hown : ∀ state, k' = k.setState a.state state → k'.links = k.links ∧
      ∀ c : Activation, c.state ≠ a.state → (ReachesFrame k' c ↔ ReachesFrame k c) := by
    rintro state rfl
    refine ⟨rfl, fun c hc => ?_⟩
    unfold ReachesFrame SearchAgrees
    simp [ControlState.setState, hc]
  cases action <;> try cases h
  case raise => exact ⟨rfl, fun _ _ => Iff.rfl⟩
  case throwing => exact hown _ rfl
  case native pops error =>
    cases error with
    | none => cases h
    | some message =>
      cases h
      exact hown _ rfl
  case reject target again =>
    cases again with
    | none => cases h
    | some message =>
      unfold raisedIn at h
      dsimp only at h
      split at h
      · rename_i hnone
        rw [Option.isNone_iff_eq_none] at hnone
        cases h
        unfold ControlState.throwIn
        rw [hnone]
        refine ⟨rfl, fun c hc => ?_⟩
        by_cases ht : c.state = target
        · subst ht
          -- the instance has no handler, so both say that the frame has none
          have hreset := handler_setState
            (show ({ k.states c.state with returnCode := false } : StateControl).currentContext =
              (k.states c.state).currentContext from rfl) c.state
          rw [hreset] at hnone
          have hno : ∀ c' address,
              ¬InnermostTry k.links (k.states c.state).currentContext c' address := by
            intro c' address h
            rw [(handler_iff hl).mpr h] at hnone
            cases hnone
          unfold ReachesFrame SearchAgrees
          simp [ControlState.uncaught, ControlState.setState, hno]
        · unfold ReachesFrame SearchAgrees
          simp [ControlState.uncaught, ControlState.setState, ht]
      · cases h

variable {α : Type} [NumOps α] {classes : String → Option Code}

/-- In every run: when a run in a state of its own, the activation `b`, ends with an exception, this
is raised in the frame of its caller `c` just when `b` is a method's and the state of `c` has the
innermost active `try` of the frame, and no `return_code` unless there is none. -/
theorem uncaught_raised_in_caller_iff {m m' : Machine α} {thread : ℕ} {a b c : Activation}
    {rest : List Activation} {i : Instruction} {e : Effect α} {outcome : Outcome} {j : ℕ}
    (hm : m.Reachable classes) (hstep : StepOf classes m m' thread a rest i e outcome)
    (hb : (a :: rest)[j]? = some b) (hc : rest[j]? = some c) (hleft : j < outcome.left.length) :
    RaisedIn m.control.links outcome j c (rest.drop (j + 1)) ↔
      b.resume.isMethod = true ∧ ReachesFrame m.control c := by
  obtain ⟨others, hbefore, -⟩ := hstep.others
  have hl : Linked m.control
      (frames ({ a with objectToSearchOn := e.objectToSearchOn } :: rest) ++ frames others) := by
    refine (reachable_linked hm).perm ?_
    rw [← frames_append]
    exact (hbefore.map fun a => (a.state, a.currentContext)).symm
  have hperform := hstep.perform
  cases hraised : raisedIn m.control { a with objectToSearchOn := e.objectToSearchOn } e.action with
  | none =>
    rw [← hperform, (perform_unraised hraised).1] at hleft
    exact absurd hleft (Nat.not_lt_zero j)
  | some raising =>
    obtain ⟨k', message⟩ := raising
    rw [perform_raised hraised] at hperform
    have hne : c.state ≠ a.state := by
      have hmem : c ∈ rest := List.mem_of_getElem? hc
      exact hl.ne_head (List.mem_append_left _ (List.mem_map_of_mem hmem))
    obtain ⟨hlinks, hsearch⟩ := raisedIn_search hl hraised
    have hk' := raisedIn_linked hl List.mem_cons_self hraised
    rw [← hperform] at hleft ⊢
    rw [← hlinks, ← hsearch c hne]
    cases j with
    | zero =>
      cases hb
      exact raise_caller_iff hk' (b := { a with objectToSearchOn := e.objectToSearchOn }) rfl hc hleft
    | succ j => exact raise_caller_iff hk' hb hc hleft

/-- `class Thrower { fun f() { throw "x"; } … }` and `class Main { … }`. -/
def sampleProgram (thrower main : List Stmt) : List ClassDeclaration :=
  let constructor : Stmt := .function true false false "__static__constructor__" [] []
  let throwing : Stmt := .eval (.prefixed .throwing (.str "x"))
  [⟨"Thrower", [], .function false false false "f" [] [throwing] :: thrower ++ [constructor], []⟩,
    ⟨"Main", [], main ++ [constructor], []⟩]

/-- `class Thrower { throw "x"; }` and `class Main { try { Thrower(); } catch (e) { } }`. -/
def constructorProgram : List ClassDeclaration :=
  sampleProgram [.eval (.prefixed .throwing (.str "x"))]
    [.tryCatch "e" [.eval (.methodCall (.ident "Thrower") [])] [] none]

/-- `class Main { var t = Thrower(); try { t.f(); } catch (e) { } }`. -/
def methodProgram : List ClassDeclaration :=
  sampleProgram []
    [.var "t" (.methodCall (.ident "Thrower") []) false false,
      .tryCatch "e" [.eval (.methodCall (.binary .dot (.ident "t") (.str "f")) [])] [] none]

structure Seen where
  resume : Resume
  returnCode : Bool
  currentContext : ContextId
  executing : ContextId
  found : Option (ContextId × ℕ)
  deriving DecidableEq

def seen (k : ControlState) (a : Activation) : Seen :=
  ⟨a.resume, (k.states a.state).returnCode, (k.states a.state).currentContext, a.currentContext,
    k.findCatch k.nextContext a.currentContext⟩

def sampleStep (program : List ClassDeclaration) (n : ℕ) :
    Option (List Seen × ℕ × Option StateId) := do
  let m : Machine ℚ ← runProgram 3 program [] (List.replicate n 0)
  let _ ← m.step (imagesOf 3 program) 0
  let (activations, _, _, outcome) ← m.outcome (imagesOf 3 program) 0
  return (activations.map (seen m.control), outcome.left.length, outcome.caughtBy)

theorem sampleStep_reached {program : List ClassDeclaration} {n left : ℕ} {caughtBy : Option StateId}
    {found : List Seen} (h : sampleStep program n = some (found, left, caughtBy)) :
    ∃ (m m' : Machine ℚ) (a : Activation) (rest : List Activation) (i : Instruction) (e : Effect ℚ)
      (outcome : Outcome), m.Reachable (imagesOf 3 program) ∧
        StepOf (imagesOf 3 program) m m' 0 a rest i e outcome ∧
        (a :: rest).map (seen m.control) = found ∧ outcome.left.length = left ∧ outcome.caughtBy = caughtBy := by
  unfold sampleStep at h
  obtain ⟨m, hm, h⟩ := Option.bind_eq_some_iff.mp h
  obtain ⟨m', hm', h⟩ := Option.bind_eq_some_iff.mp h
  obtain ⟨a, rest, i, e, outcome, hstep⟩ := Machine.step_cases hm'
  rw [hstep.outcome] at h
  simp only [Option.bind_eq_bind, Option.bind_some, Option.pure_def, Option.some.injEq,
    Prod.mk.injEq] at h
  exact ⟨m, m', a, rest, i, e, outcome, runProgram_reachable hm, hstep, h.1, h.2.1, h.2.2⟩

theorem constructorProgram_step :
    sampleStep constructorProgram 16 =
      some ([⟨.construct, false, 4, 4, none⟩, ⟨.root, false, 1, 1, some (1, 8)⟩], 1, none) := by
  decide +kernel

theorem methodProgram_step :
    sampleStep methodProgram 21 =
      some ([⟨.method 5, false, 5, 5, none⟩, ⟨.root, false, 1, 1, some (1, 11)⟩], 1, some 0) := by
  decide +kernel

theorem seen_pair {k : ControlState} {a : Activation} {rest : List Activation} {x y : Seen}
    (h : (a :: rest).map (seen k) = [x, y]) : ∃ c, rest = [c] ∧ seen k a = x ∧ seen k c = y := by
  obtain ⟨hx, hrest⟩ := List.cons.inj h
  obtain ⟨c, tail, rfl, hy, htail⟩ := List.map_eq_cons_iff.mp hrest
  obtain rfl := List.map_eq_nil_iff.mp htail
  exact ⟨c, rfl, hx, hy⟩

/-- The exception of the constructor ends with it, and the `try` around the call does not see it. -/
theorem constructor_exception_lost :
    ∃ (m m' : Machine ℚ) (a c : Activation) (i : Instruction) (e : Effect ℚ) (outcome : Outcome),
      m.Reachable (imagesOf 3 constructorProgram) ∧
        StepOf (imagesOf 3 constructorProgram) m m' 0 a [c] i e outcome ∧ a.resume = .construct ∧
        outcome.left.length = 1 ∧ (∃ c' address, InnermostTry m.control.links c.currentContext c' address) ∧
        outcome.caughtBy = none ∧ ¬RaisedIn m.control.links outcome 0 c [] := by
  obtain ⟨m, m', a, rest, i, e, outcome, hm, hstep, hseen, hleft, hcaught⟩ :=
    sampleStep_reached constructorProgram_step
  obtain ⟨c, rfl, ha, hc⟩ := seen_pair hseen
  have hl := reachable_linked hm
  have hmem : c ∈ m.activations :=
    List.mem_flatten.mpr ⟨_, List.mem_of_getElem? hstep.activations, List.mem_cons_of_mem _
      List.mem_cons_self⟩
  have htry : InnermostTry m.control.links c.currentContext 1 8 :=
    (findCatch_iff hl.older (hl.context_lt _ (List.mem_map_of_mem hmem))).mp (congrArg Seen.found hc)
  refine ⟨m, m', a, c, i, e, outcome, hm, hstep, congrArg Seen.resume ha, hleft, ⟨1, 8, htry⟩, hcaught,
    fun hraised => ?_⟩
  have hcatch := (hraised.caught 1 8 htry).1
  rw [hcaught] at hcatch
  cases hcatch

/-- The exception of the method arrives in the frame of the caller. -/
theorem method_exception_raised :
    ∃ (m m' : Machine ℚ) (a c : Activation) (i : Instruction) (e : Effect ℚ) (outcome : Outcome),
      StepOf (imagesOf 3 methodProgram) m m' 0 a [c] i e outcome ∧ outcome.left.length = 1 ∧
        RaisedIn m.control.links outcome 0 c [] := by
  obtain ⟨m, m', a, rest, i, e, outcome, hm, hstep, hseen, hleft, -⟩ :=
    sampleStep_reached methodProgram_step
  obtain ⟨c, rfl, ha, hc⟩ := seen_pair hseen
  refine ⟨m, m', a, c, i, e, outcome, hstep, hleft, ?_⟩
  have hmethod : a.resume.isMethod = true := by
    rw [show a.resume = .method 5 from congrArg Seen.resume ha]
    rfl
  have hagrees : ReachesFrame m.control c := by
    have hcurrent : (m.control.states c.state).currentContext = c.currentContext :=
      (congrArg Seen.currentContext hc).trans (congrArg Seen.executing hc).symm
    have hreturn : (m.control.states c.state).returnCode = false := congrArg Seen.returnCode hc
    unfold ReachesFrame
    rw [hreturn]
    intro c' address
    rw [hcurrent]
  exact (uncaught_raised_in_caller_iff hm hstep rfl rfl (hleft ▸ Nat.one_pos)).mpr ⟨hmethod, hagrees⟩

end Zeroscript.Uncaught
