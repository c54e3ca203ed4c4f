import Mathlib.Data.List.TakeWhile
import Zeroscript.Relexing

/-! # Tokens with blanks between them

Whatever the layout and the comments of a text, its tokens with a blank between any two are lexed to the
same tokens. -/
namespace Zeroscript

open LongestMatch

namespace Lexer

variable {text rest : List Char}

theorem reading_local {type : TokenType} {longest : List Char → Option ℕ} (h : (skipping longest).Local) :
    (reading type longest).Local :=
  ⟨h.length, h.take, h.append⟩

theorem literal_local (text : List Char) : (literal text).Local := by
  refine .of_exact fun {input n} h => ?_
  obtain ⟨⟨rest, rfl⟩, rfl⟩ := longestLiteral_eq_some h
  exact ⟨text, rest, rfl, rfl, fun rest' => if_pos (List.prefix_append text rest')⟩

theorem takeWhile_take {p : Char → Bool} (input : List Char) :
    (input.take (input.takeWhile p).length).takeWhile p = input.takeWhile p := by
  have htake : input.take (input.takeWhile p).length = input.takeWhile p :=
    (List.prefix_iff_eq_take.mp (List.takeWhile_prefix p)).symm
  rw [htake, List.takeWhile_eq_self_iff]
  exact fun c hc => List.mem_takeWhile_imp hc

theorem takeWhile_length_le {p : Char → Bool} (input rest : List Char) :
    (input.takeWhile p).length ≤ ((input ++ rest).takeWhile p).length := by
  rw [List.takeWhile_append]
  split
  · rw [List.length_append]
    exact Nat.le_trans (List.takeWhile_prefix p).length_le (Nat.le_add_right _ _)
  · exact Nat.le_refl _

theorem longestRun_eq_iff {p : Char → Bool} {input : List Char} {n : ℕ} :
    longestRun p input = some n ↔ (input.takeWhile p).length = n ∧ n ≠ 0 := by
  refine ⟨longestRun_eq_some, ?_⟩
  rintro ⟨rfl, hne⟩
  obtain ⟨m, hm⟩ := Nat.exists_eq_succ_of_ne_zero hne
  rw [longestRun, hm]

theorem run_local (p : Char → Bool) : (skipping (longestRun p)).Local where
  length {input n} h := by
    obtain ⟨rfl, -⟩ := longestRun_eq_iff.mp h
    exact (List.takeWhile_prefix p).length_le
  take {input n} h := by
    obtain ⟨rfl, hne⟩ := longestRun_eq_iff.mp h
    exact longestRun_eq_iff.mpr ⟨congrArg List.length (takeWhile_take input), hne⟩
  append {input n} rest h := by
    obtain ⟨rfl, hne⟩ := longestRun_eq_iff.mp h
    have hle := takeWhile_length_le (p := p) input rest
    exact ⟨_, hle, longestRun_eq_iff.mpr ⟨rfl, by omega⟩⟩

theorem local_after {longest inner : List Char → Option ℕ} (before : List Char) (h : (skipping inner).Local)
    (hlongest : ∀ {input : List Char} {n : ℕ}, longest input = some n ↔
      ∃ rest m, input = before ++ rest ∧ inner rest = some m ∧ n = before.length + m) :
    (skipping longest).Local where
  length {input n} hinput := by
    obtain ⟨rest, m, rfl, hm, rfl⟩ := hlongest.mp hinput
    have hle := h.length hm
    rw [List.length_append]
    omega
  take {input n} hinput := by
    obtain ⟨rest, m, rfl, hm, rfl⟩ := hlongest.mp hinput
    refine hlongest.mpr ⟨rest.take m, m, ?_, h.take hm, rfl⟩
    rw [List.take_length_add_append]
  append {input n} rest hinput := by
    obtain ⟨tail, m, rfl, hm, rfl⟩ := hlongest.mp hinput
    obtain ⟨m', hle, hm'⟩ := h.append rest hm
    refine ⟨before.length + m', by omega, hlongest.mpr ⟨tail ++ rest, m', ?_, hm', rfl⟩⟩
    rw [List.append_assoc]

theorem commentEnd_local : (skipping commentEnd).Local := by
  refine .of_exact fun {input n} h => ?_
  change commentEnd input = some n at h
  change ∃ text rest, input = text ++ rest ∧ text.length = n ∧ ∀ rest', commentEnd (text ++ rest') = some n
  fun_induction commentEnd input generalizing n with
  | case1 rest =>
    cases h
    exact ⟨['*', '/'], rest, rfl, rfl, fun _ => rfl⟩
  | case2 c rest hend ih =>
    obtain ⟨m, hm, rfl⟩ := Option.map_eq_some_iff.mp h
    obtain ⟨text, rest, rfl, rfl, hexact⟩ := ih hm
    refine ⟨c :: text, rest, rfl, rfl, fun rest' => ?_⟩
    rw [List.cons_append, commentEnd.eq_2, hexact]
    · rfl
    · intro after hstar heq
      cases text with
      | nil => cases hexact []
      | cons d text =>
        cases heq
        exact hend _ hstar rfl
  | case3 => cases h

theorem stringEnd_split {input : List Char} {n : ℕ} (h : stringEnd input = some n) :
    ∃ text rest, input = text ++ rest ∧ text.length = n ∧ stringEnd text = some n := by
  induction input using stringEnd.induct generalizing n with
  | case1 => cases h
  | case2 tail =>
    rw [stringEnd] at h
    cases h
    exact ⟨['"'], tail, rfl, rfl, rfl⟩
  | case3 tail ih =>
    rw [stringEnd] at h
    obtain ⟨m, hm, rfl⟩ := Option.map_eq_some_iff.mp h
    obtain ⟨text, rest, rfl, rfl, hend⟩ := ih hm
    refine ⟨'\\' :: '\n' :: text, rest, rfl, rfl, ?_⟩
    rw [stringEnd, hend]
    rfl
  | case4 tail ih =>
    rw [stringEnd] at h
    obtain ⟨m, hm, rfl⟩ := Option.map_eq_some_iff.mp h
    obtain ⟨text, rest, rfl, rfl, hend⟩ := ih hm
    refine ⟨'\\' :: '\r' :: '\n' :: text, rest, rfl, rfl, ?_⟩
    rw [stringEnd, hend]
    rfl
  | case5 c tail hnewline hreturn hescape ih =>
    rw [stringEnd.eq_5 c tail hnewline hreturn, if_pos hescape] at h
    obtain ⟨m, hm, rfl⟩ := Option.map_eq_some_iff.mp h
    obtain ⟨text, rest, rfl, rfl, hend⟩ := ih hm
    have hreturn' : ∀ after, c = '\r' → text = '\n' :: after → False := by
      rintro after rfl -
      exact absurd hescape (by decide)
    refine ⟨'\\' :: c :: text, rest, rfl, rfl, ?_⟩
    rw [stringEnd.eq_5 c text hnewline hreturn', if_pos hescape, hend]
    rfl
  | case6 c tail hnewline hreturn hescape =>
    rw [stringEnd.eq_5 c tail hnewline hreturn, if_neg hescape] at h
    cases h
  | case7 c tail hquote h₁ h₂ h₃ hc =>
    rw [stringEnd.eq_6 c tail hquote h₁ h₂ h₃, if_pos hc] at h
    cases h
  | case8 c tail hquote h₁ h₂ h₃ hc ih =>
    have hbackslash : ∀ {P : Prop}, c = '\\' → P := fun heq => absurd (Or.inl heq) hc
    rw [stringEnd.eq_6 c tail hquote h₁ h₂ h₃, if_neg hc] at h
    obtain ⟨m, hm, rfl⟩ := Option.map_eq_some_iff.mp h
    obtain ⟨text, rest, rfl, rfl, hend⟩ := ih hm
    refine ⟨c :: text, rest, rfl, rfl, ?_⟩
    rw [stringEnd.eq_6 c text hquote (fun _ heq _ => hbackslash heq)
      (fun _ heq _ => hbackslash heq) (fun _ _ heq _ => hbackslash heq), if_neg hc, hend]
    rfl

theorem stringEnd_local : (skipping stringEnd).Local := by
  refine .of_exact fun {input n} h => ?_
  obtain ⟨text, rest, heq, hlength, hend⟩ := stringEnd_split h
  exact ⟨text, rest, heq, hlength, fun rest' => stringEnd_append hend⟩

theorem longestBlockComment_eq_iff {input : List Char} {n : ℕ} : longestBlockComment input = some n ↔
    ∃ rest m, input = ['/', '*'] ++ rest ∧ commentEnd rest = some m ∧ n = 2 + m := by
  constructor
  · intro h
    unfold longestBlockComment at h
    split at h
    · rename_i rest
      obtain ⟨m, hm, rfl⟩ := Option.map_eq_some_iff.mp h
      exact ⟨rest, m, rfl, hm, Nat.add_comm m 2⟩
    · cases h
  · rintro ⟨rest, m, rfl, hm, rfl⟩
    exact Option.map_eq_some_iff.mpr ⟨m, hm, Nat.add_comm m 2⟩

theorem longestString_eq_iff {input : List Char} {n : ℕ} : longestString input = some n ↔
    ∃ rest m, input = ['"'] ++ rest ∧ stringEnd rest = some m ∧ n = 1 + m := by
  constructor
  · intro h
    unfold longestString at h
    split at h
    · rename_i rest
      obtain ⟨m, hm, rfl⟩ := Option.map_eq_some_iff.mp h
      exact ⟨rest, m, rfl, hm, Nat.add_comm m 1⟩
    · cases h
  · rintro ⟨rest, m, rfl, hm, rfl⟩
    exact Option.map_eq_some_iff.mpr ⟨m, hm, Nat.add_comm m 1⟩

def longestLine (input : List Char) : Option ℕ := some (input.takeWhile fun c => c != '\r' && c != '\n').length

theorem longestLine_local : (skipping longestLine).Local where
  length h := by
    cases h
    exact (List.takeWhile_prefix _).length_le
  take h := by
    cases h
    exact congrArg (fun text : List Char => some text.length) (takeWhile_take _)
  append rest h := by
    cases h
    exact ⟨_, takeWhile_length_le _ rest, rfl⟩

theorem longestLineComment_eq_iff {input : List Char} {n : ℕ} : longestLineComment input = some n ↔
    ∃ rest m, input = ['/', '/'] ++ rest ∧ longestLine rest = some m ∧ n = 2 + m := by
  constructor
  · intro h
    unfold longestLineComment at h
    split at h
    · rename_i rest
      cases h
      exact ⟨rest, _, rfl, rfl, Nat.add_comm _ 2⟩
    · cases h
  · rintro ⟨rest, m, rfl, hm, rfl⟩
    cases hm
    exact congrArg some (Nat.add_comm _ 2)

theorem longestInt_digit {c : Char} {tail : List Char} (hzero : c ≠ '0') :
    longestInt (c :: tail) = if c.isDigit then some ((tail.takeWhile Char.isDigit).length + 1) else none :=
  if_neg hzero

theorem int_local : (skipping longestInt).Local where
  length {input n} h := by
    change longestInt input = some n at h
    cases input with
    | nil => cases h
    | cons c tail =>
      by_cases hzero : c = '0'
      · subst hzero
        cases h
        exact Nat.succ_le_succ (Nat.zero_le _)
      · rw [longestInt_digit hzero] at h
        obtain ⟨hdigit, hn⟩ := Option.ite_none_right_eq_some.mp h
        cases hn
        exact Nat.succ_le_succ (List.takeWhile_prefix _).length_le
  take {input n} h := by
    change longestInt input = some n at h
    change longestInt (input.take n) = some n
    cases input with
    | nil => cases h
    | cons c tail =>
      by_cases hzero : c = '0'
      · subst hzero
        cases h
        rfl
      · rw [longestInt_digit hzero] at h
        obtain ⟨hdigit, hn⟩ := Option.ite_none_right_eq_some.mp h
        cases hn
        rw [List.take_succ_cons, longestInt_digit hzero, if_pos hdigit, takeWhile_take]
  append {input n} rest h := by
    change longestInt input = some n at h
    change ∃ m, n ≤ m ∧ longestInt (input ++ rest) = some m
    cases input with
    | nil => cases h
    | cons c tail =>
      rw [List.cons_append]
      by_cases hzero : c = '0'
      · subst hzero
        cases h
        exact ⟨1, Nat.le_refl _, rfl⟩
      · rw [longestInt_digit hzero] at h ⊢
        obtain ⟨hdigit, hn⟩ := Option.ite_none_right_eq_some.mp h
        cases hn
        exact ⟨_, Nat.succ_le_succ (takeWhile_length_le tail rest), if_pos hdigit⟩

theorem longestDecimal_eq_iff {input : List Char} {n : ℕ} : longestDecimal input = some n ↔
    ∃ whole rest m, input = whole ++ '.' :: rest ∧ (whole ≠ [] ∧ whole.all Char.isDigit = true) ∧
      longestRun Char.isDigit rest = some m ∧ n = whole.length + 1 + m := by
  constructor
  · intro h
    simp only [longestDecimal] at h
    split at h
    · rename_i c whole rest hwhole hrest
      obtain ⟨m, hm, rfl⟩ := Option.map_eq_some_iff.mp h
      refine ⟨input.takeWhile Char.isDigit, rest, m, ?_, ⟨?_, List.all_takeWhile⟩, hm, rfl⟩
      · rw [← hrest]
        exact takeWhile_digits input
      · rw [hwhole]
        exact List.cons_ne_nil _ _
    · cases h
  · rintro ⟨whole, rest, m, rfl, hwhole, hm, rfl⟩
    rw [longestDecimal_point hwhole, hm]
    rfl

theorem decimal_local : (skipping longestDecimal).Local where
  length {input n} h := by
    obtain ⟨whole, rest, m, rfl, -, hm, rfl⟩ := longestDecimal_eq_iff.mp h
    have hle := (run_local Char.isDigit).length hm
    rw [List.length_append, List.length_cons]
    omega
  take {input n} h := by
    obtain ⟨whole, rest, m, rfl, hwhole, hm, rfl⟩ := longestDecimal_eq_iff.mp h
    refine longestDecimal_eq_iff.mpr ⟨whole, rest.take m, m, ?_, hwhole, (run_local Char.isDigit).take hm, rfl⟩
    rw [Nat.add_assoc, List.take_length_add_append, Nat.add_comm 1 m, List.take_succ_cons]
  append {input n} rest h := by
    obtain ⟨whole, tail, m, rfl, hwhole, hm, rfl⟩ := longestDecimal_eq_iff.mp h
    obtain ⟨m', hle, hm'⟩ := (run_local Char.isDigit).append rest hm
    refine ⟨whole.length + 1 + m', by omega, longestDecimal_eq_iff.mpr ?_⟩
    exact ⟨whole, tail ++ rest, m', by rw [List.append_assoc, List.cons_append], hwhole, hm', rfl⟩

theorem rules_local : ∀ rule ∈ rules, rule.Local := by
  intro rule hrule
  simp only [Lexer.rules, List.mem_append, List.mem_map, List.mem_cons, List.not_mem_nil, or_false] at hrule
  rcases hrule with ((⟨l, hl, rfl⟩ | rfl | rfl | rfl | rfl) | ⟨l, hl, rfl⟩) | rfl | rfl | rfl | rfl
  · exact literal_local l
  · exact local_after ['/', '*'] commentEnd_local longestBlockComment_eq_iff
  · exact local_after ['/', '/'] longestLine_local longestLineComment_eq_iff
  · exact run_local isNewline
  · exact run_local isBlank
  · exact literal_local l
  · exact reading_local int_local
  · exact reading_local decimal_local
  · exact reading_local (local_after ['"'] stringEnd_local longestString_eq_iff)
  · exact reading_local (run_local isWordChar)

end Lexer

theorem rule_emits : ∀ rule ∈ Lexer.rules, ∀ text t, rule.emit text = some t → t.text = text := by
  intro rule hrule text t ht
  simp only [Lexer.rules, List.mem_append, List.mem_map, List.mem_cons, List.not_mem_nil, or_false] at hrule
  rcases hrule with ((⟨l, hl, rfl⟩ | rfl | rfl | rfl | rfl) | ⟨l, hl, rfl⟩) | rfl | rfl | rfl | rfl <;>
    first | (cases ht; rfl) | cases ht

theorem lexemes_of_lex {text : List Char} {ts : List Token} (h : lex text = some ts) : ∀ t ∈ ts, t.Lexeme := by
  obtain ⟨pieces, -, htokens, hread⟩ := exists_pieces Lexer.rules_local text.length (Nat.le_refl _) h
  intro t ht
  rw [← htokens] at ht
  obtain ⟨piece, hpiece, htoken⟩ := List.mem_flatMap.mp ht
  have halone := hread.alone Lexer.rules_local piece hpiece
  obtain ⟨rule, hrule, -, hemit⟩ := first_mem halone
  rw [List.take_length, Option.mem_toList.mp htoken] at hemit
  have htext := rule_emits rule hrule piece.text t hemit.symm
  rw [Option.mem_toList.mp htoken, ← htext] at halone
  exact halone

/-- The texts of tokens, with a blank between any two. -/
def spacedText (ts : List Token) : List Char := [' '].intercalate (ts.map (·.text))

def spacedPieces : List Token → List (Piece Char Token)
  | [] => []
  | [t] => [t.piece]
  | t :: t' :: ts => t.piece :: blank ++ spacedPieces (t' :: ts)

theorem spacedPieces_texts : ∀ ts : List Token, texts (spacedPieces ts) = spacedText ts
  | [] => rfl
  | [t] => by simp [spacedPieces, spacedText, texts, Token.piece, List.intercalate]
  | t :: t' :: ts => by
    have ih := spacedPieces_texts (t' :: ts)
    have hrest : spacedText (t :: t' :: ts) = t.text ++ ' ' :: spacedText (t' :: ts) := by
      simp [spacedText, List.intercalate]
    rw [hrest, ← ih]
    rfl

theorem spacedPieces_tokens : ∀ ts : List Token, tokens (spacedPieces ts) = ts
  | [] => rfl
  | [t] => rfl
  | t :: t' :: ts => by
    have ih := spacedPieces_tokens (t' :: ts)
    exact congrArg (t :: ·) ih

theorem spacedPieces_read : ∀ {ts : List Token}, (∀ t ∈ ts, t.Lexeme) → Read Lexer.rules (spacedPieces ts) []
  | [], _ => trivial
  | [t], h => by
    have hstop : Lexer.continues t.text [] = false := by
      cases t.text <;> rfl
    exact ⟨(h t List.mem_cons_self).first_append hstop, trivial⟩
  | t :: t' :: ts, h => by
    have ih := spacedPieces_read fun u hu => h u (List.mem_cons_of_mem t hu)
    have hstop : ∀ rest, Lexer.continues t.text (' ' :: rest) = false := by
      intro rest
      rw [← List.nil_append (' ' :: rest), continues_before (Or.inr (Or.inr rfl))]
      cases t.text <;> rfl
    obtain ⟨c, tail, htext, hnewline, hblank⟩ :=
      (Lexer.form_of_lexeme (h t' (List.mem_cons_of_mem t List.mem_cons_self))).head
    obtain ⟨rest, hrest⟩ : ∃ rest, texts (spacedPieces (t' :: ts)) ++ [] = c :: rest := by
      rw [List.append_nil, spacedPieces_texts]
      cases ts with
      | nil => exact ⟨tail, by simp [spacedText, List.intercalate, htext]⟩
      | cons t'' ts => exact ⟨tail ++ ' ' :: spacedText (t'' :: ts), by simp [spacedText, List.intercalate, htext]⟩
    refine ⟨(h t List.mem_cons_self).first_append (hstop _), ?_⟩
    refine read_append.mpr ⟨?_, ih⟩
    rw [hrest]
    exact blank_read hnewline hblank

theorem spacedPieces_ne_nil : ∀ {ts : List Token}, (∀ t ∈ ts, t.Lexeme) →
    ∀ piece ∈ spacedPieces ts, piece.text ≠ []
  | [], _, piece, hpiece => absurd hpiece List.not_mem_nil
  | [t], h, piece, hpiece => by
    obtain rfl := List.mem_singleton.mp hpiece
    exact text_ne_nil (h t List.mem_cons_self)
  | t :: t' :: ts, h, piece, hpiece => by
    have ih := spacedPieces_ne_nil fun u hu => h u (List.mem_cons_of_mem t hu)
    rcases List.mem_cons.mp hpiece with rfl | hpiece
    · exact text_ne_nil (h t List.mem_cons_self)
    · rcases List.mem_append.mp hpiece with hpiece | hpiece
      · obtain rfl := List.mem_singleton.mp hpiece
        exact List.cons_ne_nil _ _
      · exact ih piece hpiece

theorem lex_spacedText {ts : List Token} (h : ∀ t ∈ ts, t.Lexeme) : lex (spacedText ts) = some ts := by
  have hread := spacedPieces_read h
  have hlex := (lex_pieces_iff (spacedPieces_ne_nil h) hread.decided).mpr hread
  rwa [spacedPieces_texts, spacedPieces_tokens] at hlex

/-- Neither the layout nor the comments of a text matter: one blank between any two of its tokens gives the
same tokens. -/
theorem lex_respaced {text : List Char} {ts : List Token} (h : lex text = some ts) :
    lex (spacedText ts) = some ts :=
  lex_spacedText (lexemes_of_lex h)

/-- A tree prints: the text of its tokens with blanks is lexed to its tokens. -/
theorem lex_statement (s : StatementContext) : lex (spacedText s.tokens) = some s.tokens :=
  lex_spacedText s.spaced.lexeme

/-- `++` and `+` where their texts meet, and a comment. -/
theorem sum_respaced : ∃ ts, lex "a+++b/*c*/*1.5".toList = some ts ∧ ts.length = 6 ∧
    lex (spacedText ts) = some ts := by
  have hlex : (lex "a+++b/*c*/*1.5".toList).map List.length = some 6 := by decide +kernel
  obtain ⟨ts, hts, hlength⟩ := Option.map_eq_some_iff.mp hlex
  exact ⟨ts, hts, hlength, lex_respaced hts⟩

end Zeroscript
