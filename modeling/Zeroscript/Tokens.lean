import Mathlib.Tactic.Common
import Zeroscript.Lib.LongestMatch

/-! # The tokens of `zeroscript.g4`

The lexer rules of the grammar, the literals of the parser rules first, and what has to follow a
token for the lexer to read on. -/
namespace Zeroscript

open LongestMatch

/-- A literal or a keyword has a token type of its own, which its text tells. -/
inductive TokenType where
  | fixed
  | INT
  | DECIMAL
  | STRING
  | IDENT
  deriving DecidableEq, Repr

structure Token where
  type : TokenType
  text : List Char
  deriving DecidableEq, Repr

namespace Lexer

/-- The literals in the parser rules, in the order of the grammar. -/
def literals : List (List Char) :=
  [".", "[", "]", "(", ")", "++", "--", "+", "-", "~", "!", "*", "/", "%", "<", ">", "<=", ">=", "and", "or",
    "==", "!=", "=", "+=", "-=", "*=", "/=", "%=", ",", ";", "\x7b", "\x7d", "=>", ":"].map String.toList

def keywords : List (List Char) :=
  ["null", "true", "false", "extends", "new", "else", "if", "return", "continue", "break", "while", "for", "var",
    "function", "class", "throw", "try", "catch", "finally", "switch", "in", "case", "default", "static", "import",
    "as", "async", "private", "tshared"].map String.toList

def isWordChar (c : Char) : Bool := c.isAlphanum || c == '_'

/-- The set of `NEWLINE`: in brackets, quotes and bars are characters like any other. -/
def isNewline (c : Char) : Bool := ['\'', '\r', '\n', ' ', '|'].contains c

def isBlank (c : Char) : Bool := ['\t', ' '].contains c

/-- As many characters of a kind as there are, but at least one. -/
def longestRun (p : Char → Bool) (input : List Char) : Option ℕ :=
  match (input.takeWhile p).length with
  | 0 => none
  | n + 1 => some (n + 1)

def longestLiteral (text input : List Char) : Option ℕ :=
  if text <+: input then some text.length else none

/-- What a `.*?` and the `*/` after it take. -/
def commentEnd : List Char → Option ℕ
  | '*' :: '/' :: _ => some 2
  | _ :: rest => (commentEnd rest).map (· + 1)
  | [] => none

def longestBlockComment : List Char → Option ℕ
  | '/' :: '*' :: rest => (commentEnd rest).map (· + 2)
  | _ => none

def longestLineComment : List Char → Option ℕ
  | '/' :: '/' :: rest => some ((rest.takeWhile fun c => c != '\r' && c != '\n').length + 2)
  | _ => none

def longestInt : List Char → Option ℕ
  | [] => none
  | c :: rest =>
    if c = '0' then some 1
    else if c.isDigit then some ((rest.takeWhile Char.isDigit).length + 1)
    else none

def longestDecimal (input : List Char) : Option ℕ :=
  let whole := input.takeWhile Char.isDigit
  match whole, input.drop whole.length with
  | _ :: _, '.' :: rest => (longestRun Char.isDigit rest).map (whole.length + 1 + ·)
  | _, _ => none

def stringEnd : List Char → Option ℕ
  | [] => none
  | '"' :: _ => some 1
  | '\\' :: '\n' :: rest => (stringEnd rest).map (· + 2)
  | '\\' :: '\r' :: '\n' :: rest => (stringEnd rest).map (· + 3)
  | '\\' :: c :: rest =>
    if ['\'', '"', '?', 'a', 'b', 'f', 'n', 'r', 't', 'v', '\\'].contains c then (stringEnd rest).map (· + 2)
    else none
  | c :: rest =>
    if c = '\\' ∨ c = '\r' ∨ c = '\n' then none else (stringEnd rest).map (· + 1)

def longestString : List Char → Option ℕ
  | '"' :: rest => (stringEnd rest).map (· + 1)
  | _ => none

def reading (type : TokenType) (longest : List Char → Option ℕ) : Rule Char Token :=
  ⟨longest, fun text => some ⟨type, text⟩⟩

def skipping (longest : List Char → Option ℕ) : Rule Char Token := ⟨longest, fun _ => none⟩

def literal (text : List Char) : Rule Char Token := reading .fixed (longestLiteral text)

def rules : List (Rule Char Token) :=
  literals.map literal ++
    [skipping longestBlockComment, skipping longestLineComment, skipping (longestRun isNewline),
      skipping (longestRun isBlank)] ++
    keywords.map literal ++
    [reading .INT longestInt, reading .DECIMAL longestDecimal, reading .STRING longestString,
      reading .IDENT (longestRun isWordChar)]

end Lexer

def lex (text : List Char) : Option (List Token) := LongestMatch.lex Lexer.rules text

/-- A token that the lexer can read. -/
def Token.Lexeme (t : Token) : Prop := first Lexer.rules t.text = some (some t, t.text.length)

instance (t : Token) : Decidable t.Lexeme := inferInstanceAs (Decidable (_ = _))

namespace Lexer

def extensions : List Char → List Char
  | ['+'] => ['+', '=']
  | ['-'] => ['-', '=']
  | ['='] => ['=', '>']
  | ['/'] => ['=', '/', '*']
  | ['*'] | ['%'] | ['<'] | ['>'] | ['!'] => ['=']
  | _ => []

/-- The text goes on as a token that has begun: a word by a character of words, digits by a point
and a digit, a decimal by a digit, `+` by `+`, and so on. -/
def continues (text rest : List Char) : Bool :=
  match text, rest with
  | [], _ => false
  | _, [] => false
  | head :: tail, c :: rest =>
    if (head :: tail).all isWordChar then
      isWordChar c || ((head :: tail).all Char.isDigit && c == '.' && rest.head?.any Char.isDigit)
    else if head.isDigit then c.isDigit
    else (extensions (head :: tail)).contains c

variable {text rest : List Char}

/-- What a token can look like. -/
inductive Form : List Char → Prop where
  | symbol {text : List Char} (hmem : text ∈ literals) (hsymbol : ∀ c ∈ text, isWordChar c = false) : Form text
  | word {text : List Char} (hne : text ≠ []) (hword : text.all isWordChar = true) : Form text
  | decimal {whole fraction : List Char} (hwhole : whole ≠ [] ∧ whole.all Char.isDigit = true)
      (hfraction : fraction ≠ [] ∧ fraction.all Char.isDigit = true) : Form (whole ++ '.' :: fraction)
  | string {inside : List Char} (hend : stringEnd inside = some inside.length) : Form ('"' :: inside)

theorem literals_form : ∀ text ∈ literals,
    (∀ c ∈ text, isWordChar c = false) ∨ text ≠ [] ∧ text.all isWordChar = true := by
  have hall : (literals.all fun text => (text.all fun c => isWordChar c == false) ||
      decide (text ≠ [] ∧ text.all isWordChar = true)) = true := by decide +kernel
  intro text htext
  rcases Bool.or_eq_true_iff.mp (List.all_eq_true.mp hall text htext) with hsymbol | hword
  · exact .inl fun c hc => beq_iff_eq.mp (List.all_eq_true.mp hsymbol c hc)
  · exact .inr (of_decide_eq_true hword)

theorem keywords_form : ∀ text ∈ keywords, text ≠ [] ∧ text.all isWordChar = true := by decide +kernel

theorem isWordChar_of_isDigit {c : Char} (h : c.isDigit = true) : isWordChar c = true := by
  simp [isWordChar, Char.isAlphanum, h]

theorem all_word_of_digits (h : text.all Char.isDigit = true) : text.all isWordChar = true := by
  rw [List.all_eq_true] at h ⊢
  exact fun c hc => isWordChar_of_isDigit (h c hc)

theorem longestRun_eq_some {p : Char → Bool} {n : ℕ} (h : longestRun p text = some n) :
    (text.takeWhile p).length = n ∧ n ≠ 0 := by
  unfold longestRun at h
  split at h
  · cases h
  · rename_i m hm
    cases h
    exact ⟨hm, Nat.succ_ne_zero m⟩

theorem all_of_takeWhile {p : Char → Bool} (h : (text.takeWhile p).length = text.length) :
    text.all p = true := by
  rw [← (List.takeWhile_prefix p).eq_of_length h]
  exact List.all_takeWhile

theorem longestInt_form (h : longestInt text = some text.length) : text ≠ [] ∧ text.all isWordChar = true := by
  cases text with
  | nil => cases h
  | cons c text =>
    refine ⟨List.cons_ne_nil _ _, ?_⟩
    simp only [longestInt] at h
    split at h
    · rename_i hc
      subst hc
      obtain rfl : text = [] := by simpa using h
      decide
    · split at h
      · rename_i hdigit
        refine all_word_of_digits ?_
        rw [List.all_cons, hdigit, Bool.true_and]
        exact all_of_takeWhile (by simpa using h)
      · cases h

theorem longestDecimal_form (h : longestDecimal text = some text.length) : Form text := by
  simp only [longestDecimal] at h
  split at h
  · rename_i c whole rest hwhole hrest
    obtain ⟨n, hn, hlength⟩ := Option.map_eq_some_iff.mp h
    obtain ⟨hrun, hne⟩ := longestRun_eq_some hn
    have htext : text = text.takeWhile Char.isDigit ++ '.' :: rest := by
      rw [← hrest]
      exact (List.prefix_iff_eq_append.mp (List.takeWhile_prefix _)).symm
    have hfraction : (rest.takeWhile Char.isDigit).length = rest.length := by
      have htotal := congrArg List.length htext
      rw [List.length_append, List.length_cons] at htotal
      omega
    rw [htext]
    refine .decimal ⟨by rw [hwhole]; exact List.cons_ne_nil _ _, List.all_takeWhile⟩ ⟨?_, all_of_takeWhile hfraction⟩
    rintro rfl
    simp at hrun
    omega
  · cases h

theorem longestString_form (h : longestString text = some text.length) : Form text := by
  unfold longestString at h
  split at h
  · obtain ⟨n, hn, hlength⟩ := Option.map_eq_some_iff.mp h
    rw [List.length_cons, Nat.add_right_cancel_iff] at hlength
    rw [hlength] at hn
    exact .string hn
  · cases h

theorem longestLiteral_eq_some {literal : List Char} {n : ℕ} (h : longestLiteral literal text = some n) :
    literal <+: text ∧ n = literal.length := by
  unfold longestLiteral at h
  split at h
  · cases h
    exact ⟨‹_›, rfl⟩
  · cases h

theorem form_of_lexeme {t : Token} (h : t.Lexeme) : Form t.text := by
  obtain ⟨rule, hrule, hlongest, hemit⟩ := first_mem h
  have hword : ∀ {text : List Char}, text ≠ [] ∧ text.all isWordChar = true → Form text :=
    fun htext => .word htext.1 htext.2
  have hliteral : ∀ {literal : List Char}, longestLiteral literal t.text = some t.text.length → t.text = literal := by
    intro literal hliteral
    obtain ⟨hstart, hlength⟩ := longestLiteral_eq_some hliteral
    exact (hstart.eq_of_length hlength.symm).symm
  simp only [rules, List.mem_append, List.mem_map, List.mem_cons, List.not_mem_nil, or_false] at hrule
  rcases hrule with ((⟨l, hl, rfl⟩ | hskip) | ⟨l, hl, rfl⟩) | rfl | rfl | rfl | rfl
  · rw [hliteral hlongest]
    rcases literals_form l hl with hsymbol | hletters
    · exact .symbol hl hsymbol
    · exact hword hletters
  · -- a rule that skips gives no token
    rcases hskip with rfl | rfl | rfl | rfl <;> cases hemit
  · rw [hliteral hlongest]
    exact hword (keywords_form l hl)
  · exact hword (longestInt_form hlongest)
  · exact longestDecimal_form hlongest
  · exact longestString_form hlongest
  · obtain ⟨hlength, hne⟩ := longestRun_eq_some hlongest
    exact hword ⟨fun heq => hne (by rw [heq]; rfl), all_of_takeWhile hlength⟩

theorem Form.head (h : Form text) : ∃ c tail, text = c :: tail ∧ isNewline c = false ∧ isBlank c = false := by
  have hblank : ∀ c, isWordChar c = true → isNewline c = false ∧ isBlank c = false := by
    intro c hc
    have hne : ∀ d, isWordChar d = false → c ≠ d := by
      rintro d hd rfl
      rw [hc] at hd
      cases hd
    simp [isNewline, isBlank, hne '\'' (by decide), hne '\r' (by decide), hne '\n' (by decide),
      hne ' ' (by decide), hne '|' (by decide), hne '\t' (by decide)]
  cases h with
  | symbol hmem hsymbol =>
    have hhead : ∀ text ∈ literals, ∃ c tail, text = c :: tail ∧ isNewline c = false ∧ isBlank c = false := by
      simp [literals, isNewline, isBlank]
    exact hhead text hmem
  | word hne hword =>
    obtain ⟨c, tail, rfl⟩ := List.exists_cons_of_ne_nil hne
    rw [List.all_cons, Bool.and_eq_true] at hword
    exact ⟨c, tail, rfl, hblank c hword.1⟩
  | decimal hwhole hfraction =>
    obtain ⟨c, tail, rfl⟩ := List.exists_cons_of_ne_nil hwhole.1
    have hdigits := hwhole.2
    rw [List.all_cons, Bool.and_eq_true] at hdigits
    exact ⟨c, _, rfl, hblank c (isWordChar_of_isDigit hdigits.1)⟩
  | string hend => exact ⟨'"', _, rfl, by decide, by decide⟩

theorem takeWhile_append_stop {p : Char → Bool}
    (h : text.all p = true → ∀ c tail, rest = c :: tail → p c = false) :
    (text ++ rest).takeWhile p = text.takeWhile p := by
  rw [List.takeWhile_append]
  by_cases hlength : (text.takeWhile p).length = text.length
  · have hnone : rest.takeWhile p = [] := by
      cases rest with
      | nil => rfl
      | cons c tail => simp [h (all_of_takeWhile hlength) c tail rfl]
    rw [if_pos hlength, hnone, List.append_nil, (List.takeWhile_prefix p).eq_of_length hlength]
  · rw [if_neg hlength]

theorem longestRun_append {p : Char → Bool}
    (h : text.all p = true → ∀ c tail, rest = c :: tail → p c = false) :
    longestRun p (text ++ rest) = longestRun p text := by
  unfold longestRun
  rw [takeWhile_append_stop h]

theorem continues_word {c : Char} {tail : List Char} (hne : text ≠ []) (htext : text.all isWordChar = true)
    (hc : isWordChar c = true) : continues text (c :: tail) = true := by
  obtain ⟨head, text, rfl⟩ := List.exists_cons_of_ne_nil hne
  simp only [continues]
  rw [if_pos htext, hc, Bool.true_or]

/-- What starts with a form and is not continued goes on with no character of words after a word. -/
theorem word_stops (hne : text ≠ []) (hstop : continues text rest = false) (htext : text.all isWordChar = true) :
    ∀ c tail, rest = c :: tail → isWordChar c = false := by
  rintro c tail rfl
  by_contra hc
  rw [continues_word hne htext (by simpa using hc)] at hstop
  cases hstop

theorem digits_stop (hne : text ≠ []) (hstop : continues text rest = false) (htext : text.all Char.isDigit = true) :
    ∀ c tail, rest = c :: tail → c.isDigit = false := by
  intro c tail heq
  by_contra hc
  have hword := word_stops hne hstop (all_word_of_digits htext) c tail heq
  rw [isWordChar_of_isDigit (by simpa using hc)] at hword
  cases hword

theorem longestInt_append (hne : text ≠ []) (hstop : continues text rest = false) :
    longestInt (text ++ rest) = longestInt text := by
  obtain ⟨c, text, rfl⟩ := List.exists_cons_of_ne_nil hne
  simp only [List.cons_append, longestInt]
  by_cases hdigit : c.isDigit = true
  · have htail : text.all Char.isDigit = true → ∀ d tail, rest = d :: tail → d.isDigit = false := by
      intro htail
      exact digits_stop hne hstop (by rw [List.all_cons, hdigit, htail]; rfl)
    rw [takeWhile_append_stop htail]
  · rw [if_neg hdigit, if_neg hdigit]

theorem takeWhile_digits (text : List Char) :
    text = text.takeWhile Char.isDigit ++ text.drop (text.takeWhile Char.isDigit).length :=
  (List.prefix_iff_eq_append.mp (List.takeWhile_prefix _)).symm

theorem longestDecimal_append (hne : text ≠ []) (hstop : continues text rest = false) :
    longestDecimal (text ++ rest) = longestDecimal text := by
  have hwhole : (text ++ rest).takeWhile Char.isDigit = text.takeWhile Char.isDigit :=
    takeWhile_append_stop fun hall => digits_stop hne hstop hall
  have htext := takeWhile_digits text
  simp only [longestDecimal]
  rw [hwhole]
  cases hdigits : text.takeWhile Char.isDigit with
  | nil => rfl
  | cons c whole =>
    rw [hdigits] at htext
    have hc : c.isDigit = true ∧ whole.all Char.isDigit = true := by
      have hall : (text.takeWhile Char.isDigit).all Char.isDigit = true := List.all_takeWhile
      rw [hdigits, List.all_cons, Bool.and_eq_true] at hall
      exact hall
    generalize text.drop (c :: whole).length = after at htext
    subst htext
    rw [List.append_assoc, List.drop_left]
    cases after with
    | nil =>
      -- digits only: what follows is no point with a digit
      rw [List.append_nil] at hstop
      cases rest with
      | nil => rfl
      | cons d rest =>
        by_cases hpoint : d = '.'
        · subst hpoint
          have hrun : longestRun Char.isDigit rest = none := by
            cases rest with
            | nil => rfl
            | cons d' rest =>
              by_cases hd : d'.isDigit = true
              · have hdigit : (c :: whole).all Char.isDigit = true := by
                  rw [List.all_cons, hc.1, hc.2]
                  rfl
                simp only [continues] at hstop
                rw [if_pos (all_word_of_digits hdigit), hdigit] at hstop
                simp [hd] at hstop
              · simp [longestRun, hd]
          simp [hrun]
        · simp [hpoint]
    | cons d after =>
      rw [List.cons_append]
      by_cases hpoint : d = '.'
      · subst hpoint
        have hrun : longestRun Char.isDigit (after ++ rest) = longestRun Char.isDigit after := by
          refine longestRun_append fun _ e tail heq => ?_
          subst heq
          have hnot : ¬(c :: (whole ++ '.' :: after)).all isWordChar = true := by
            have hdot : isWordChar '.' = false := by decide
            simp [hdot]
          simp only [List.cons_append, continues] at hstop
          rw [if_neg hnot, if_pos hc.1] at hstop
          exact hstop
        simp [hrun]
      · simp [hpoint]

theorem stringEnd_append : ∀ {text : List Char} {n : ℕ}, stringEnd text = some n →
    stringEnd (text ++ rest) = some n := by
  intro text
  induction text using stringEnd.induct with
  | case1 =>
    intro n h
    cases h
  | case2 tail =>
    intro n h
    rw [List.cons_append, stringEnd]
    rwa [stringEnd] at h
  | case3 tail ih =>
    intro n h
    rw [stringEnd] at h
    obtain ⟨m, hm, rfl⟩ := Option.map_eq_some_iff.mp h
    rw [List.cons_append, List.cons_append, stringEnd, ih hm]
    rfl
  | case4 tail ih =>
    intro n h
    rw [stringEnd] at h
    obtain ⟨m, hm, rfl⟩ := Option.map_eq_some_iff.mp h
    rw [List.cons_append, List.cons_append, List.cons_append, stringEnd, ih hm]
    rfl
  | case5 c tail hnewline hreturn hescape ih =>
    intro n h
    have hreturn' : ∀ after, c = '\r' → tail ++ rest = '\n' :: after → False := by
      rintro after rfl -
      exact absurd hescape (by decide)
    rw [stringEnd.eq_5 c tail hnewline hreturn, if_pos hescape] at h
    obtain ⟨m, hm, rfl⟩ := Option.map_eq_some_iff.mp h
    rw [List.cons_append, List.cons_append, stringEnd.eq_5 c _ hnewline hreturn', if_pos hescape, ih hm]
    rfl
  | case6 c tail hnewline hreturn hescape =>
    intro n h
    rw [stringEnd.eq_5 c tail hnewline hreturn, if_neg hescape] at h
    cases h
  | case7 c tail hquote h₁ h₂ h₃ hc =>
    intro n h
    rw [stringEnd.eq_6 c tail hquote h₁ h₂ h₃, if_pos hc] at h
    cases h
  | case8 c tail hquote h₁ h₂ h₃ hc ih =>
    intro n h
    have hbackslash : ∀ {P : Prop}, c = '\\' → P := fun heq => absurd (Or.inl heq) hc
    rw [stringEnd.eq_6 c tail hquote h₁ h₂ h₃, if_neg hc] at h
    obtain ⟨m, hm, rfl⟩ := Option.map_eq_some_iff.mp h
    rw [List.cons_append, stringEnd.eq_6 c _ hquote (fun _ heq _ => hbackslash heq)
      (fun _ heq _ => hbackslash heq) (fun _ _ heq _ => hbackslash heq), if_neg hc, ih hm]
    rfl

theorem prefix_append {literal : List Char} (h : literal <+: text ++ rest) :
    literal <+: text ∨ ∃ c after tail, literal = text ++ c :: after ∧ rest = c :: tail := by
  by_cases hlength : literal.length ≤ text.length
  · exact Or.inl (List.prefix_of_prefix_length_le h (List.prefix_append text rest) hlength)
  · obtain ⟨after, rfl⟩ :=
      List.prefix_of_prefix_length_le (List.prefix_append text rest) h (Nat.le_of_not_le hlength)
    cases after with
    | nil =>
      rw [List.append_nil] at hlength
      exact absurd (Nat.le_refl _) hlength
    | cons c after =>
      obtain ⟨tail, rfl⟩ := (List.prefix_append_right_inj text).mp h
      exact Or.inr ⟨c, after, after ++ tail, rfl, rfl⟩

theorem literal_extends : ∀ literal ∈ literals ++ keywords, ∀ text ∈ literals, text.all isWordChar = false →
    ∀ n, n < literal.length → literal.take n = text → ∀ c ∈ literal[n]?, c ∈ extensions text := by
  have hall : ((literals ++ keywords).all fun literal => literals.all fun text => text.all isWordChar ||
      !text.isPrefixOf literal || literal[text.length]?.all fun c => decide (c ∈ extensions text)) = true := by
    decide +kernel
  intro literal hliteral text htext hsymbol n hn htake c hc
  have hlength : text.length = n := by rw [← htake, List.length_take_of_le (Nat.le_of_lt hn)]
  have hprefix : text.isPrefixOf literal = true := by
    rw [List.isPrefixOf_iff_prefix, ← htake]
    exact List.take_prefix n literal
  have hbyte := List.all_eq_true.mp (List.all_eq_true.mp hall literal hliteral) text htext
  rw [hsymbol, hprefix, hlength, Option.mem_def.mp hc] at hbyte
  exact of_decide_eq_true hbyte

theorem extensions_symbol : ∀ text ∈ literals, ∀ c ∈ extensions text,
    text ++ [c] ∈ literals ∨ text = ['/'] ∧ (c = '/' ∨ c = '*') := by
  have hall : (literals.all fun text => (extensions text).all fun c =>
      decide (text ++ [c] ∈ literals ∨ text = ['/'] ∧ (c = '/' ∨ c = '*'))) = true := by
    decide +kernel
  intro text htext c hc
  exact of_decide_eq_true (List.all_eq_true.mp (List.all_eq_true.mp hall text htext) c hc)

theorem literals_head : ∀ literal ∈ literals ++ keywords,
    literal.head?.all (fun c => !c.isDigit && c != '"') = true ∧
      (literal.head?.any isWordChar = true → literal.all isWordChar = true) := by
  decide +kernel

theorem symbol_not_word (hmem : text ∈ literals) (hsymbol : ∀ c ∈ text, isWordChar c = false) :
    text.all isWordChar = false := by
  have hne : ∀ text ∈ literals, text ≠ [] := by decide +kernel
  obtain ⟨c, text, rfl⟩ := List.exists_cons_of_ne_nil (hne text hmem)
  rw [List.all_cons, hsymbol c List.mem_cons_self]
  rfl

theorem continues_symbol (hmem : text ∈ literals) (hsymbol : ∀ c ∈ text, isWordChar c = false) {c : Char}
    {tail : List Char} : continues text (c :: tail) = (extensions text).contains c := by
  have hword := symbol_not_word hmem hsymbol
  cases text with
  | nil => cases hword
  | cons d text =>
    have hdigit : ¬d.isDigit = true := by
      intro hdigit
      have hd := hsymbol d List.mem_cons_self
      rw [isWordChar_of_isDigit hdigit] at hd
      cases hd
    simp only [continues]
    rw [if_neg (by rw [hword]; exact Bool.false_ne_true), if_neg hdigit]

theorem longestLiteral_append {literal : List Char} (hform : Form text) (hstop : continues text rest = false)
    (hliteral : literal ∈ literals ++ keywords) :
    longestLiteral literal (text ++ rest) = longestLiteral literal text := by
  have hiff : literal <+: text ++ rest ↔ literal <+: text := by
    refine ⟨fun h => ?_, fun h => h.trans (List.prefix_append text rest)⟩
    rcases prefix_append h with h | ⟨c, after, tail, heq, rfl⟩
    · exact h
    · obtain ⟨hhead, hword⟩ := literals_head literal hliteral
      exfalso
      cases hform with
      | symbol hmem hsymbol =>
        have hextends : c ∈ extensions text := by
          refine literal_extends literal hliteral text hmem (symbol_not_word hmem hsymbol) text.length ?_ ?_ c ?_
          · simp [heq]
          · simp [heq]
          · simp [heq]
        rw [continues_symbol hmem hsymbol, List.contains_eq_mem, decide_eq_false_iff_not] at hstop
        exact hstop hextends
      | word hne htext =>
        -- the literal is a word as well
        have hall : literal.all isWordChar = true := by
          refine hword ?_
          obtain ⟨d, text, rfl⟩ := List.exists_cons_of_ne_nil hne
          rw [List.all_cons, Bool.and_eq_true] at htext
          simp [heq, htext.1]
        rw [heq, List.all_append, List.all_cons, Bool.and_eq_true, Bool.and_eq_true] at hall
        rw [continues_word hne htext hall.2.1] at hstop
        cases hstop
      | decimal hwhole hfraction =>
        obtain ⟨d, whole, rfl⟩ := List.exists_cons_of_ne_nil hwhole.1
        rw [List.all_cons, Bool.and_eq_true] at hwhole
        simp [heq, hwhole.2.1] at hhead
      | string hend =>
        rw [heq] at hhead
        cases hhead
  unfold longestLiteral
  by_cases h : literal <+: text
  · rw [if_pos h, if_pos (hiff.mpr h)]
  · rw [if_neg h, if_neg fun h' => h (hiff.mp h')]

theorem Form.slash (hform : Form ('/' :: text)) : text = [] ∨ text = ['='] := by
  generalize htext : '/' :: text = whole at hform
  cases hform with
  | symbol hmem hsymbol =>
    have hslash : ∀ literal ∈ literals, literal.head? = some '/' → literal.tail = [] ∨ literal.tail = ['='] := by
      decide
    have htail := hslash whole hmem (by rw [← htext]; rfl)
    rw [← htext] at htail
    exact htail
  | word hne hword =>
    rw [← htext, List.all_cons, Bool.and_eq_true] at hword
    exact absurd hword.1 (by decide)
  | decimal hwhole hfraction =>
    obtain ⟨d, whole, rfl⟩ := List.exists_cons_of_ne_nil hwhole.1
    cases htext
    rw [List.all_cons, Bool.and_eq_true] at hwhole
    exact absurd hwhole.2.1 (by decide)
  | string hend => cases htext

theorem Form.quote (hform : Form ('"' :: text)) : stringEnd text = some text.length := by
  generalize htext : '"' :: text = whole at hform
  cases hform with
  | symbol hmem hsymbol =>
    have hhead := (literals_head whole (List.mem_append_left _ hmem)).1
    rw [← htext] at hhead
    cases hhead
  | word hne hword =>
    rw [← htext, List.all_cons, Bool.and_eq_true] at hword
    exact absurd hword.1 (by decide)
  | decimal hwhole hfraction =>
    obtain ⟨d, whole, rfl⟩ := List.exists_cons_of_ne_nil hwhole.1
    cases htext
    rw [List.all_cons, Bool.and_eq_true] at hwhole
    exact absurd hwhole.2.1 (by decide)
  | string hend =>
    cases htext
    exact hend

theorem comments_none (hform : Form text) (h : text = ['/'] → ∀ c tail, rest = c :: tail → c ≠ '/' ∧ c ≠ '*') :
    longestBlockComment (text ++ rest) = none ∧ longestLineComment (text ++ rest) = none := by
  obtain ⟨c, tail, rfl, -, -⟩ := hform.head
  by_cases hc : c = '/'
  · subst hc
    rcases hform.slash with rfl | rfl
    · cases rest with
      | nil => exact ⟨rfl, rfl⟩
      | cons d rest =>
        obtain ⟨hslash, hstar⟩ := h rfl d rest rfl
        simp [longestBlockComment, longestLineComment, hslash, hstar]
    · exact ⟨rfl, rfl⟩
  · simp [longestBlockComment, longestLineComment, hc]

theorem longest_append (hform : Form text) (hstop : continues text rest = false) :
    ∀ rule ∈ rules, rule.longest (text ++ rest) = rule.longest text := by
  obtain ⟨head, tail, hhead, hnewline, hblank⟩ := hform.head
  have hne : text ≠ [] := by
    rw [hhead]
    exact List.cons_ne_nil _ _
  have hcomments : longestBlockComment (text ++ rest) = none ∧ longestLineComment (text ++ rest) = none := by
    refine comments_none hform ?_
    rintro rfl c tail rfl
    constructor
    · rintro rfl
      cases hstop
    · rintro rfl
      cases hstop
  have hcomments' : longestBlockComment text = none ∧ longestLineComment text = none := by
    have halone : longestBlockComment (text ++ []) = none ∧ longestLineComment (text ++ []) = none :=
      comments_none hform fun _ c tail heq => by cases heq
    rwa [List.append_nil] at halone
  intro rule hrule
  simp only [rules, List.mem_append, List.mem_map, List.mem_cons, List.not_mem_nil, or_false] at hrule
  rcases hrule with ((⟨l, hl, rfl⟩ | rfl | rfl | rfl | rfl) | ⟨l, hl, rfl⟩) | rfl | rfl | rfl | rfl
  · exact longestLiteral_append hform hstop (List.mem_append_left _ hl)
  · exact hcomments.1.trans hcomments'.1.symm
  · exact hcomments.2.trans hcomments'.2.symm
  · refine longestRun_append fun hall => ?_
    rw [hhead, List.all_cons, hnewline] at hall
    cases hall
  · refine longestRun_append fun hall => ?_
    rw [hhead, List.all_cons, hblank] at hall
    cases hall
  · exact longestLiteral_append hform hstop (List.mem_append_right _ hl)
  · exact longestInt_append hne hstop
  · exact longestDecimal_append hne hstop
  · change longestString (text ++ rest) = longestString text
    subst hhead
    by_cases hquote : head = '"'
    · subst hquote
      have hend := hform.quote
      rw [List.cons_append]
      simp only [longestString]
      rw [stringEnd_append hend, hend]
    · simp [longestString, hquote]
  · exact longestRun_append (word_stops hne hstop)

theorem longestRun_of_cons {p : Char → Bool} {c : Char} (text tail : List Char) (htext : text.all p = true) (hc : p c = true) :
    ∃ n, longestRun p (text ++ c :: tail) = some n ∧ text.length < n := by
  have htake : (text ++ c :: tail).takeWhile p = text ++ c :: tail.takeWhile p := by
    rw [List.takeWhile_append_of_pos (List.all_eq_true.mp htext), List.takeWhile_cons_of_pos hc]
  refine ⟨text.length + (tail.takeWhile p).length + 1, ?_, by omega⟩
  unfold longestRun
  rw [htake, List.length_append, List.length_cons, ← Nat.add_assoc]

theorem takeWhile_point {whole tail : List Char} (h : whole.all Char.isDigit = true) :
    (whole ++ '.' :: tail).takeWhile Char.isDigit = whole := by
  rw [List.takeWhile_append_of_pos (List.all_eq_true.mp h), List.takeWhile_cons_of_neg (by decide), List.append_nil]

theorem longestDecimal_point {whole tail : List Char} (h : whole ≠ [] ∧ whole.all Char.isDigit = true) :
    longestDecimal (whole ++ '.' :: tail) = (longestRun Char.isDigit tail).map (whole.length + 1 + ·) := by
  simp only [longestDecimal]
  rw [takeWhile_point h.2, List.drop_left]
  obtain ⟨c, whole, rfl⟩ := List.exists_cons_of_ne_nil h.1
  rfl

theorem longer_rule (hform : Form text) (hgoes : continues text rest = true)
    (hcomment : text = ['/'] → ∀ c tail, rest = c :: tail → c ≠ '/' ∧ c ≠ '*') :
    ∃ rule ∈ rules, ∃ n, rule.longest (text ++ rest) = some n ∧ text.length < n := by
  have hident : reading .IDENT (longestRun isWordChar) ∈ rules := by simp [rules]
  have hdecimal : reading .DECIMAL longestDecimal ∈ rules := by simp [rules]
  obtain ⟨c, tail, rfl⟩ : ∃ c tail, rest = c :: tail := by
    cases rest with
    | nil => cases text <;> cases hgoes
    | cons c tail => exact ⟨c, tail, rfl⟩
  cases hform with
  | symbol hmem hsymbol =>
    rw [continues_symbol hmem hsymbol, List.contains_eq_mem, decide_eq_true_iff] at hgoes
    rcases extensions_symbol text hmem c hgoes with hlonger | ⟨rfl, hc⟩
    · have hliteral : literal (text ++ [c]) ∈ rules := by
        simp only [rules, List.mem_append, List.mem_map]
        exact Or.inl (Or.inl (Or.inl ⟨_, hlonger, rfl⟩))
      refine ⟨_, hliteral, text.length + 1, ?_, Nat.lt_succ_self _⟩
      change longestLiteral (text ++ [c]) (text ++ c :: tail) = _
      unfold longestLiteral
      rw [if_pos ⟨tail, by simp⟩, List.length_append]
      rfl
    · obtain ⟨hslash, hstar⟩ := hcomment rfl c tail rfl
      rcases hc with rfl | rfl
      · exact absurd rfl hslash
      · exact absurd rfl hstar
  | word hne htext =>
    by_cases hc : isWordChar c = true
    · obtain ⟨n, hn⟩ := longestRun_of_cons text tail htext hc
      exact ⟨_, hident, n, hn⟩
    · -- digits with a point and a digit
      obtain ⟨hdigits, rfl, d, tail, rfl, hd⟩ : text.all Char.isDigit = true ∧ c = '.' ∧
          ∃ d after, tail = d :: after ∧ d.isDigit = true := by
        obtain ⟨e, text, rfl⟩ := List.exists_cons_of_ne_nil hne
        simp only [continues] at hgoes
        rw [if_pos htext] at hgoes
        simp only [hc, Bool.false_or, Bool.and_eq_true, beq_iff_eq, Option.any_eq_true] at hgoes
        obtain ⟨⟨hdigits, hpoint⟩, d, hhead, hd⟩ := hgoes
        cases tail with
        | nil => cases hhead
        | cons d' after =>
          cases hhead
          exact ⟨hdigits, hpoint, d, after, rfl, hd⟩
      obtain ⟨n, hn, hlt⟩ := longestRun_of_cons [] tail rfl hd
      refine ⟨_, hdecimal, text.length + 1 + n, ?_, by omega⟩
      change longestDecimal (text ++ '.' :: d :: tail) = _
      rw [List.nil_append] at hn
      rw [longestDecimal_point ⟨hne, hdigits⟩, hn]
      rfl
  | @decimal whole fraction hwhole hfraction =>
    have hc : c.isDigit = true := by
      obtain ⟨d, whole, rfl⟩ := List.exists_cons_of_ne_nil hwhole.1
      have hdot : isWordChar '.' = false := by decide
      have hd := hwhole.2
      rw [List.all_cons, Bool.and_eq_true] at hd
      simp only [List.cons_append, continues] at hgoes
      rw [if_neg (by simp [hdot]), if_pos hd.1] at hgoes
      exact hgoes
    obtain ⟨n, hn, hlt⟩ := longestRun_of_cons fraction tail hfraction.2 hc
    refine ⟨_, hdecimal, whole.length + 1 + n, ?_, ?_⟩
    · change longestDecimal (whole ++ '.' :: fraction ++ c :: tail) = _
      rw [List.append_assoc, List.cons_append, longestDecimal_point hwhole, hn]
      rfl
    · rw [List.length_append, List.length_cons]
      omega
  | string hend => simp [continues, extensions, isWordChar] at hgoes

end Lexer

/-- A token that nothing continues is read where it stands. -/
theorem Token.Lexeme.first_append {t : Token} {rest : List Char} (h : t.Lexeme)
    (hstop : Lexer.continues t.text rest = false) :
    first Lexer.rules (t.text ++ rest) = some (some t, t.text.length) := by
  rw [LongestMatch.first_append (Lexer.longest_append (Lexer.form_of_lexeme h) hstop)]
  · exact h
  · intro rule hrule n hn
    obtain ⟨token, m, hfirst, hm⟩ := first_longest hrule hn
    rw [Token.Lexeme] at h
    rw [h] at hfirst
    cases hfirst
    exact hm

/-- A token that goes on is read as another one. -/
theorem Token.Lexeme.misread {t : Token} {rest : List Char} (h : t.Lexeme)
    (hgoes : Lexer.continues t.text rest = true)
    (hcomment : t.text = ['/'] → ∀ c tail, rest = c :: tail → c ≠ '/' ∧ c ≠ '*') :
    ∃ found n, found ≠ t ∧ first Lexer.rules (t.text ++ rest) = some (some found, n) := by
  have hform := Lexer.form_of_lexeme h
  obtain ⟨rule, hrule, n, hn, hlt⟩ := Lexer.longer_rule hform hgoes hcomment
  obtain ⟨token, m, hfirst, hm⟩ := first_longest hrule hn
  obtain ⟨rule', hrule', hlongest, rfl⟩ := first_mem hfirst
  have hemit : ∃ type, rule'.emit = fun text => some ⟨type, text⟩ := by
    obtain ⟨head, tail, hhead, hnewline, hblank⟩ := hform.head
    obtain ⟨hblock, hline⟩ := Lexer.comments_none hform hcomment
    simp only [Lexer.rules, List.mem_append, List.mem_map, List.mem_cons, List.not_mem_nil, or_false] at hrule'
    rcases hrule' with ((⟨l, hl, rfl⟩ | rfl | rfl | rfl | rfl) | ⟨l, hl, rfl⟩) | rfl | rfl | rfl | rfl
    · exact ⟨_, rfl⟩
    · exact absurd (hblock.symm.trans hlongest) nofun
    · exact absurd (hline.symm.trans hlongest) nofun
    · rw [hhead] at hlongest
      simp [Lexer.skipping, Lexer.longestRun, hnewline] at hlongest
    · rw [hhead] at hlongest
      simp [Lexer.skipping, Lexer.longestRun, hblank] at hlongest
    · exact ⟨_, rfl⟩
    · exact ⟨_, rfl⟩
    · exact ⟨_, rfl⟩
    · exact ⟨_, rfl⟩
    · exact ⟨_, rfl⟩
  obtain ⟨type, hemit⟩ := hemit
  rw [hemit] at hfirst
  refine ⟨_, m, ?_, hfirst⟩
  -- the text that is read is longer
  intro heq
  have hlength := congrArg (fun t : Token => t.text.length) heq
  simp only [List.length_take, List.length_append] at hlength
  have hrest : rest ≠ [] := by
    rintro rfl
    cases ht : t.text with
    | nil => simp [Lexer.continues, ht] at hgoes
    | cons c text => simp [Lexer.continues, ht] at hgoes
  have hpos := List.length_pos_of_ne_nil hrest
  omega

end Zeroscript
