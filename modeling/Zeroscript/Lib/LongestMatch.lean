import Mathlib.Data.List.Basic

/-! # Longest-match lexers

A lexer reads the longest prefix of its input that one of its rules matches, for the earliest rule
that matches so much, and goes on after it. A text that was put together from pieces is read piece
by piece exactly if no piece is read together with what follows it. -/
namespace LongestMatch

/-- `longest` is the length of the longest prefix that is matched; a rule that skips emits nothing. -/
structure Rule (σ τ : Type) where
  longest : List σ → Option ℕ
  emit : List σ → Option τ

section

variable {σ τ : Type}

@[simp] def first : List (Rule σ τ) → List σ → Option (Option τ × ℕ)
  | [], _ => none
  | rule :: rules, input =>
    match rule.longest input, first rules input with
    | none, later => later
    | some n, none => some (rule.emit (input.take n), n)
    | some n, some (token, m) =>
      if n < m then some (token, m) else some (rule.emit (input.take n), n)

@[simp] def lexFrom (rules : List (Rule σ τ)) : ℕ → List σ → Option (List τ)
  | _, [] => some []
  | 0, _ :: _ => none
  | fuel + 1, c :: input =>
    match first rules (c :: input) with
    | some (token, n + 1) => (lexFrom rules fuel (input.drop n)).map (token.toList ++ ·)
    | _ => none

def lex (rules : List (Rule σ τ)) (input : List σ) : Option (List τ) :=
  lexFrom rules input.length input

variable {rules : List (Rule σ τ)}

theorem lexFrom_of_le {input : List σ} : ∀ {fuel : ℕ}, input.length ≤ fuel →
    lexFrom rules fuel input = lex rules input := by
  have hsame : ∀ (n : ℕ) (input : List σ), input.length ≤ n → ∀ {fuel fuel' : ℕ}, input.length ≤ fuel →
      input.length ≤ fuel' → lexFrom rules fuel input = lexFrom rules fuel' input := by
    intro n
    induction n with
    | zero =>
      intro input hn fuel fuel' _ _
      obtain rfl := List.length_eq_zero_iff.mp (Nat.le_zero.mp hn)
      simp only [lexFrom]
    | succ n ih =>
      intro input hn fuel fuel' hfuel hfuel'
      cases input with
      | nil => simp only [lexFrom]
      | cons c input =>
        obtain ⟨fuel, rfl⟩ := Nat.exists_eq_add_one.mpr (Nat.lt_of_lt_of_le (Nat.succ_pos _) hfuel)
        obtain ⟨fuel', rfl⟩ := Nat.exists_eq_add_one.mpr (Nat.lt_of_lt_of_le (Nat.succ_pos _) hfuel')
        simp only [List.length_cons, Nat.add_le_add_iff_right] at hn hfuel hfuel'
        simp only [lexFrom]
        split
        · rename_i m _
          have hm : (input.drop m).length ≤ input.length := by
            rw [List.length_drop]
            exact Nat.sub_le _ _
          rw [ih (input.drop m) (Nat.le_trans hm hn) (Nat.le_trans hm hfuel) (Nat.le_trans hm hfuel')]
        · rfl
  intro fuel hfuel
  exact hsame input.length input (Nat.le_refl _) hfuel (Nat.le_refl _)

theorem lex_append {text rest : List σ} {token : Option τ} (hne : text ≠ [])
    (h : first rules (text ++ rest) = some (token, text.length)) :
    lex rules (text ++ rest) = (lex rules rest).map (token.toList ++ ·) := by
  obtain ⟨c, text, rfl⟩ := List.exists_cons_of_ne_nil hne
  rw [List.length_cons, List.cons_append] at h
  unfold lex
  rw [List.cons_append, List.length_cons, lexFrom, h]
  dsimp only
  rw [List.drop_left]
  rw [lexFrom_of_le (by rw [List.length_append]; exact Nat.le_add_left _ _)]
  rfl

theorem lex_of_first {input : List σ} {token : Option τ} {n : ℕ} (h : first rules input = some (token, n))
    (hne : input ≠ []) {tokens : List τ} (hlex : lex rules input = some tokens) :
    ∃ more, tokens = token.toList ++ more := by
  obtain ⟨c, input, rfl⟩ := List.exists_cons_of_ne_nil hne
  unfold lex at hlex
  rw [List.length_cons, lexFrom, h] at hlex
  cases n with
  | zero => cases hlex
  | succ n =>
    obtain ⟨more, -, rfl⟩ := Option.map_eq_some_iff.mp hlex
    exact ⟨more, rfl⟩

/-- What follows does not matter if it matters to no rule. -/
theorem first_append {text rest : List σ}
    (h : ∀ rule ∈ rules, rule.longest (text ++ rest) = rule.longest text)
    (hlength : ∀ rule ∈ rules, ∀ n, rule.longest text = some n → n ≤ text.length) :
    first rules (text ++ rest) = first rules text := by
  induction rules with
  | nil => rfl
  | cons rule rules ih =>
    have htake : ∀ n, rule.longest text = some n → (text ++ rest).take n = text.take n :=
      fun n hn => List.take_append_of_le_length (hlength rule List.mem_cons_self n hn)
    have hlater := ih (fun r hr => h r (List.mem_cons_of_mem _ hr))
      fun r hr => hlength r (List.mem_cons_of_mem _ hr)
    have hrule := h rule List.mem_cons_self
    simp only [first]
    rw [hrule, hlater]
    cases hn : rule.longest text with
    | none => rfl
    | some n =>
      have htext := htake n hn
      cases first rules text with
      | none => simp only [htext]
      | some found => simp only [htext]

theorem first_mem {input : List σ} {token : Option τ} {n : ℕ} (h : first rules input = some (token, n)) :
    ∃ rule ∈ rules, rule.longest input = some n ∧ token = rule.emit (input.take n) := by
  induction rules with
  | nil => cases h
  | cons rule rules ih =>
    simp only [first] at h
    split at h
    · obtain ⟨r, hr, hfound⟩ := ih h
      exact ⟨r, List.mem_cons_of_mem _ hr, hfound⟩
    · rename_i hrule _
      cases h
      exact ⟨rule, List.mem_cons_self, hrule, rfl⟩
    · rename_i m _ hrule hlater
      split at h
      · cases h
        obtain ⟨r, hr, hfound⟩ := ih hlater
        exact ⟨r, List.mem_cons_of_mem _ hr, hfound⟩
      · cases h
        exact ⟨rule, List.mem_cons_self, hrule, rfl⟩

theorem first_longest {input : List σ} {rule : Rule σ τ} {n : ℕ} (hmem : rule ∈ rules)
    (h : rule.longest input = some n) : ∃ token m, first rules input = some (token, m) ∧ n ≤ m := by
  induction rules with
  | nil => cases hmem
  | cons r rules ih =>
    simp only [first]
    rcases List.mem_cons.mp hmem with rfl | hmem
    · rw [h]
      split
      · contradiction
      · rename_i hsome _
        cases hsome
        exact ⟨_, _, rfl, Nat.le_refl _⟩
      · rename_i hsome _
        cases hsome
        split
        · rename_i hlt
          exact ⟨_, _, rfl, Nat.le_of_lt hlt⟩
        · exact ⟨_, _, rfl, Nat.le_refl _⟩
    · obtain ⟨token, m, hfirst, hm⟩ := ih hmem
      rw [hfirst]
      split
      · exact ⟨token, m, rfl, hm⟩
      · contradiction
      · rename_i hsome
        cases hsome
        split
        · exact ⟨_, _, rfl, hm⟩
        · rename_i hge
          exact ⟨_, _, rfl, Nat.le_trans hm (Nat.le_of_not_lt hge)⟩

structure Piece (σ τ : Type) where
  text : List σ
  token : Option τ

def texts (pieces : List (Piece σ τ)) : List σ := pieces.flatMap (·.text)

def tokens (pieces : List (Piece σ τ)) : List τ := pieces.flatMap (·.token.toList)

theorem texts_append (before after : List (Piece σ τ)) : texts (before ++ after) = texts before ++ texts after :=
  List.flatMap_append

theorem tokens_append (before after : List (Piece σ τ)) :
    tokens (before ++ after) = tokens before ++ tokens after :=
  List.flatMap_append

/-- Each piece is read where it begins. -/
def Read (rules : List (Rule σ τ)) : List (Piece σ τ) → List σ → Prop
  | [], _ => True
  | piece :: pieces, rest =>
    first rules (piece.text ++ (texts pieces ++ rest)) = some (piece.token, piece.text.length) ∧
      Read rules pieces rest

def Decided (rules : List (Rule σ τ)) : List (Piece σ τ) → List σ → Prop
  | [], _ => True
  | piece :: pieces, rest =>
    (first rules (piece.text ++ (texts pieces ++ rest)) = some (piece.token, piece.text.length) ∨
      ∃ token found n, piece.token = some token ∧ found ≠ token ∧
        first rules (piece.text ++ (texts pieces ++ rest)) = some (some found, n)) ∧
      Decided rules pieces rest

theorem read_append {before after : List (Piece σ τ)} {rest : List σ} :
    Read rules (before ++ after) rest ↔ Read rules before (texts after ++ rest) ∧ Read rules after rest := by
  induction before with
  | nil => simp [Read]
  | cons piece before ih =>
    rw [List.cons_append, Read, Read, ih, texts_append, List.append_assoc, and_assoc]

theorem decided_append {before after : List (Piece σ τ)} {rest : List σ} :
    Decided rules (before ++ after) rest ↔
      Decided rules before (texts after ++ rest) ∧ Decided rules after rest := by
  induction before with
  | nil => simp [Decided]
  | cons piece before ih =>
    rw [List.cons_append, Decided, Decided, ih, texts_append, List.append_assoc, and_assoc]

theorem Read.decided {pieces : List (Piece σ τ)} {rest : List σ} (h : Read rules pieces rest) :
    Decided rules pieces rest := by
  induction pieces with
  | nil => trivial
  | cons piece pieces ih => exact ⟨Or.inl h.1, ih h.2⟩

/-- Pieces are lexed to their tokens exactly if each of them is read where it begins. -/
theorem lex_pieces_iff {pieces : List (Piece σ τ)} (hne : ∀ piece ∈ pieces, piece.text ≠ [])
    (h : Decided rules pieces []) :
    lex rules (texts pieces) = some (tokens pieces) ↔ Read rules pieces [] := by
  induction pieces with
  | nil => exact ⟨fun _ => trivial, fun _ => rfl⟩
  | cons piece pieces ih =>
    have hrest := ih (fun p hp => hne p (List.mem_cons_of_mem _ hp)) h.2
    have hpiece := hne piece List.mem_cons_self
    have hfirst := h.1
    change lex rules (piece.text ++ texts pieces) = some (piece.token.toList ++ tokens pieces) ↔ _
    rw [Read, ← hrest]
    rw [List.append_nil] at hfirst ⊢
    rcases hfirst with hread | ⟨token, found, n, htoken, hfound, hfirst⟩
    · rw [lex_append hpiece hread]
      constructor
      · intro hlex
        obtain ⟨more, hmore, heq⟩ := Option.map_eq_some_iff.mp hlex
        rw [List.append_cancel_left heq] at hmore
        exact ⟨hread, hmore⟩
      · rintro ⟨-, hlex⟩
        rw [hlex]
        rfl
    · constructor
      · intro hlex
        have hinput : piece.text ++ texts pieces ≠ [] := fun heq => hpiece (List.append_eq_nil_iff.mp heq).1
        obtain ⟨more, hmore⟩ := lex_of_first hfirst hinput hlex
        rw [htoken] at hmore
        exact absurd (List.cons.inj hmore).1.symm hfound
      · rintro ⟨hread, -⟩
        rw [hread, htoken] at hfirst
        cases hfirst
        exact absurd rfl hfound

/-- A rule matches the same where the text ends behind its match, and no less where a text goes on. -/
structure Rule.Local (rule : Rule σ τ) : Prop where
  length : ∀ {input : List σ} {n : ℕ}, rule.longest input = some n → n ≤ input.length
  take : ∀ {input : List σ} {n : ℕ}, rule.longest input = some n → rule.longest (input.take n) = some n
  append : ∀ {text : List σ} {n : ℕ} (rest : List σ), rule.longest text = some n →
    ∃ m, n ≤ m ∧ rule.longest (text ++ rest) = some m

/-- What a rule matches it matches whatever follows. -/
theorem Rule.Local.of_exact {rule : Rule σ τ} (h : ∀ {input : List σ} {n : ℕ}, rule.longest input = some n →
    ∃ text rest, input = text ++ rest ∧ text.length = n ∧ ∀ rest', rule.longest (text ++ rest') = some n) :
    rule.Local where
  length hlongest := by
    obtain ⟨text, rest, rfl, rfl, -⟩ := h hlongest
    rw [List.length_append]
    exact Nat.le_add_right _ _
  take hlongest := by
    obtain ⟨text, rest, rfl, rfl, hexact⟩ := h hlongest
    have halone := hexact []
    rw [List.take_left]
    rwa [List.append_nil] at halone
  append more hlongest := by
    obtain ⟨text, rest, rfl, rfl, hexact⟩ := h hlongest
    exact ⟨_, Nat.le_refl _, by rw [List.append_assoc]; exact hexact _⟩

theorem first_length (hlocal : ∀ rule ∈ rules, rule.Local) {input : List σ} {token : Option τ} {n : ℕ}
    (h : first rules input = some (token, n)) : n ≤ input.length := by
  obtain ⟨rule, hrule, hlongest, -⟩ := first_mem h
  exact (hlocal rule hrule).length hlongest

theorem Rule.Local.of_take {rule : Rule σ τ} (h : rule.Local) {input : List σ} {n k : ℕ}
    (htake : rule.longest (input.take n) = some k) : ∃ m, k ≤ m ∧ rule.longest input = some m := by
  have hmore := h.append (input.drop n) htake
  rwa [List.take_append_drop] at hmore

theorem first_take (hlocal : ∀ rule ∈ rules, rule.Local) {input : List σ} {token : Option τ} {n : ℕ}
    (h : first rules input = some (token, n)) : first rules (input.take n) = some (token, n) := by
  induction rules generalizing token n with
  | nil => cases h
  | cons rule rules ih =>
    have hrule := hlocal rule List.mem_cons_self
    have hrules : ∀ r ∈ rules, r.Local := fun r hr => hlocal r (List.mem_cons_of_mem _ hr)
    simp only [first] at h ⊢
    cases hlongest : rule.longest input with
    | none =>
      have hnone : rule.longest (input.take n) = none := by
        by_contra hsome
        obtain ⟨k, hk⟩ := Option.ne_none_iff_exists'.mp hsome
        obtain ⟨m, -, hm⟩ := hrule.of_take hk
        cases hm.symm.trans hlongest
      rw [hlongest] at h
      rw [hnone]
      exact ih hrules h
    | some k =>
      have hself : (input.take k).take k = input.take k := by rw [List.take_take, Nat.min_self]
      rw [hlongest] at h
      cases hlater : first rules input with
      | none =>
        rw [hlater] at h
        cases h
        have hnone : first rules (input.take n) = none := by
          by_contra hsome
          obtain ⟨⟨token, m⟩, hm⟩ := Option.ne_none_iff_exists'.mp hsome
          obtain ⟨r, hr, hshort, -⟩ := first_mem hm
          obtain ⟨m', -, hlong⟩ := (hrules r hr).of_take hshort
          obtain ⟨token', l, hfound, -⟩ := first_longest hr hlong
          cases hfound.symm.trans hlater
        simp only [hrule.take hlongest, hnone, hself]
      | some found =>
        obtain ⟨token', m⟩ := found
        rw [hlater] at h
        dsimp only at h
        by_cases hless : k < m
        · rw [if_pos hless] at h
          cases h
          rw [ih hrules hlater]
          cases hshort : rule.longest (input.take n) with
          | none => rfl
          | some k' =>
            obtain ⟨l, hle, hl⟩ := hrule.of_take hshort
            obtain rfl : k = l := Option.some.inj (hlongest.symm.trans hl)
            exact if_pos (Nat.lt_of_le_of_lt hle hless)
        · rw [if_neg hless] at h
          cases h
          rw [hrule.take hlongest]
          cases hshort : first rules (input.take n) with
          | none => simp only [hself]
          | some found =>
            obtain ⟨token'', m'⟩ := found
            have hm := first_length hrules hshort
            rw [List.length_take] at hm
            simp only [if_neg (show ¬n < m' by omega), hself]

theorem exists_pieces (hlocal : ∀ rule ∈ rules, rule.Local) : ∀ (n : ℕ) {input : List σ} {found : List τ},
    input.length ≤ n → lex rules input = some found →
    ∃ pieces : List (Piece σ τ), texts pieces = input ∧ tokens pieces = found ∧ Read rules pieces [] := by
  intro n
  induction n with
  | zero =>
    intro input found hn hlex
    obtain rfl := List.length_eq_zero_iff.mp (Nat.le_zero.mp hn)
    cases hlex
    exact ⟨[], rfl, rfl, trivial⟩
  | succ n ih =>
    intro input found hn hlex
    cases input with
    | nil =>
      cases hlex
      exact ⟨[], rfl, rfl, trivial⟩
    | cons c input =>
      have hlex' := hlex
      rw [lex, List.length_cons, lexFrom] at hlex'
      split at hlex'
      · rename_i token m hfirst
        have hm := first_length hlocal hfirst
        have htext : (c :: input).take (m + 1) ++ (c :: input).drop (m + 1) = c :: input :=
          List.take_append_drop _ _
        have hlength : ((c :: input).take (m + 1)).length = m + 1 := by
          rw [List.length_take]
          exact Nat.min_eq_left hm
        have happend : lex rules ((c :: input).take (m + 1) ++ (c :: input).drop (m + 1)) =
            (lex rules ((c :: input).drop (m + 1))).map (token.toList ++ ·) :=
          lex_append (List.cons_ne_nil c _) (by rw [htext, hlength]; exact hfirst)
        rw [htext, hlex, eq_comm] at happend
        obtain ⟨more, hmore, rfl⟩ := Option.map_eq_some_iff.mp happend
        obtain ⟨pieces, htexts, htokens, hread⟩ := ih (by simp at hn ⊢; omega) hmore
        refine ⟨⟨(c :: input).take (m + 1), token⟩ :: pieces, ?_, ?_, ?_, hread⟩
        · exact (congrArg (_ ++ ·) htexts).trans htext
        · exact congrArg (token.toList ++ ·) htokens
        · rw [htexts, List.append_nil, htext, hlength]
          exact hfirst
      · cases hlex'

theorem Read.alone (hlocal : ∀ rule ∈ rules, rule.Local) {pieces : List (Piece σ τ)} {rest : List σ}
    (h : Read rules pieces rest) : ∀ piece ∈ pieces, first rules piece.text = some (piece.token, piece.text.length) := by
  induction pieces with
  | nil => exact fun piece hpiece => absurd hpiece List.not_mem_nil
  | cons piece pieces ih =>
    intro other hother
    rcases List.mem_cons.mp hother with rfl | hother
    · have htake := first_take hlocal h.1
      rwa [List.take_left] at htake
    · exact ih h.2 other hother

end

end LongestMatch
