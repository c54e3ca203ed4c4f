import Mathlib.Data.List.Chain
import Zeroscript.ParseTree

/-! # Operands that are lexed again

`andToIf` and `orToIf` write the texts of their operands, blanks left out, into the text of a lambda. -/
namespace Zeroscript

open LongestMatch

def getText (tokens : List Token) : List Char := tokens.flatMap (·.text)

/-- The text that `andToIf` lexes. -/
def andText (a b : ExpressionContext) : List Char :=
  "(()=>\x7b if(".toList ++ getText a.tokens ++ ")\x7b if(".toList ++ getText b.tokens ++
    ")\x7b return 1; \x7d\x7dreturn 0;\x7d)()".toList

def orText (a b : ExpressionContext) : List Char :=
  "(()=>\x7b if(".toList ++ getText a.tokens ++ ")\x7b return ".toList ++ getText a.tokens ++
    "; \x7d else if(".toList ++ getText b.tokens ++ ")\x7b return ".toList ++ getText b.tokens ++
    "; \x7d return 0;\x7d)()".toList

/-- No token goes on with what follows it in the text. -/
def Apart : List Token → Prop
  | [] => True
  | t :: tokens => Lexer.continues t.text (getText tokens) = false ∧ Apart tokens

instance decidableApart : (tokens : List Token) → Decidable (Apart tokens)
  | [] => inferInstanceAs (Decidable True)
  | _ :: tokens => @instDecidableAnd _ _ inferInstance (decidableApart tokens)

def Starts (t : Token) : Prop := ∀ c ∈ t.text.head?, c ≠ '/' ∧ c ≠ '*'

structure Spaced (tokens : List Token) : Prop where
  lexeme : ∀ t ∈ tokens, t.Lexeme
  chain : tokens.IsChain fun t t' => t.text = ['/'] → Starts t'
  head : ∀ t ∈ tokens.head?, Starts t
  last : ∀ t ∈ tokens.getLast?, t.text ≠ ['/']

theorem Spaced.nil : Spaced [] := ⟨nofun, List.isChain_nil, nofun, nofun⟩

theorem Spaced.append {ts ts' : List Token} (h : Spaced ts) (h' : Spaced ts') : Spaced (ts ++ ts') where
  lexeme t ht := by
    rcases List.mem_append.mp ht with ht | ht
    · exact h.lexeme t ht
    · exact h'.lexeme t ht
  chain := List.isChain_append.mpr ⟨h.chain, h'.chain, fun _ _ t' ht' _ => h'.head t' ht'⟩
  head t ht := by
    cases ts with
    | nil => exact h'.head t ht
    | cons t₀ ts => exact h.head t ht
  last t ht := by
    rw [List.getLast?_append] at ht
    cases hlast : ts'.getLast? with
    | none =>
      rw [hlast] at ht
      exact h.last t ht
    | some t' =>
      rw [hlast] at ht
      exact h'.last t (by rw [hlast]; exact ht)

theorem Spaced.single {t : Token} (ht : t.Lexeme) (hstarts : Starts t) (hslash : t.text ≠ ['/']) : Spaced [t] where
  lexeme t' ht' := by
    rw [List.mem_singleton.mp ht']
    exact ht
  chain := List.isChain_singleton t
  head t' ht' := by
    cases ht'
    exact hstarts
  last t' ht' := by
    cases ht'
    exact hslash

theorem Spaced.operator {ts ts' : List Token} {t : Token} (h : Spaced ts ∧ ts ≠ []) (ht : t.Lexeme)
    (h' : Spaced ts' ∧ ts' ≠ []) : Spaced (ts ++ t :: ts') where
  lexeme t' ht' := by
    rcases List.mem_append.mp ht' with ht' | ht'
    · exact h.1.lexeme t' ht'
    · rcases List.mem_cons.mp ht' with rfl | ht'
      · exact ht
      · exact h'.1.lexeme t' ht'
  chain := by
    refine List.isChain_append.mpr ⟨h.1.chain, ?_, fun t₀ ht₀ _ _ hslash => absurd hslash (h.1.last t₀ ht₀)⟩
    exact List.isChain_cons.mpr ⟨fun t₀ ht₀ _ => h'.1.head t₀ ht₀, h'.1.chain⟩
  head t' ht' := by
    cases ts with
    | nil => exact absurd rfl h.2
    | cons t₀ ts => exact h.1.head t' ht'
  last t' ht' := by
    obtain ⟨t₀, ts', rfl⟩ := List.exists_cons_of_ne_nil h'.2
    rw [List.getLast?_append, List.getLast?_cons_cons] at ht'
    have hsome : (t₀ :: ts').getLast? = some ((t₀ :: ts').getLast (List.cons_ne_nil _ _)) :=
      List.getLast?_eq_some_getLast _
    rw [hsome] at ht'
    exact h'.1.last t' (by rw [hsome]; exact ht')

def punctuation : List String :=
  [".", "[", "]", "(", ")", "++", "--", "+", "-", "~", "!", "<", ">", "=", ",", ";", "\x7b", "\x7d", "=>", ":", "null",
    "true", "false", "new", "else", "if", "return", "continue", "break", "while", "for", "var", "function", "throw",
    "try", "catch", "finally", "static", "in", "async", "private", "tshared"]

theorem fixed_lexeme : ∀ text ∈ Lexer.literals ++ Lexer.keywords, Token.Lexeme ⟨.fixed, text⟩ := by decide +kernel

theorem punctuation_fixed : ∀ text ∈ punctuation, text.toList ∈ Lexer.literals ++ Lexer.keywords := by
  decide +kernel

theorem punctuation_lexeme (text : String) (h : text ∈ punctuation) : (fixed text).Lexeme :=
  fixed_lexeme text.toList (punctuation_fixed text h)

theorem punctuation_head : ∀ text ∈ punctuation, ∀ c ∈ text.toList.head?, c ≠ '/' ∧ c ≠ '*' := by
  have hall : (punctuation.all fun text => text.toList.head?.all fun c => decide (c ≠ '/' ∧ c ≠ '*')) = true := by
    decide +kernel
  intro text htext c hc
  have htest := List.all_eq_true.mp hall text htext
  rw [Option.mem_def.mp hc] at htest
  exact of_decide_eq_true htest

theorem Spaced.fixed {text : String} (h : text ∈ punctuation) : Spaced [fixed text] := by
  have hhead := punctuation_head text h
  refine .single (punctuation_lexeme text h) hhead fun hslash => ?_
  have hslash' : text.toList = ['/'] := hslash
  rw [hslash'] at hhead
  exact (hhead '/' rfl).1 rfl

theorem Spaced.cons {text : String} {ts : List Token} (h : text ∈ punctuation) (hts : Spaced ts) :
    Spaced (Zeroscript.fixed text :: ts) :=
  (Spaced.fixed h).append hts

theorem Spaced.closed {left right : String} {ts : List Token} (hleft : left ∈ punctuation) (hts : Spaced ts)
    (hright : right ∈ punctuation) : Spaced (Zeroscript.fixed left :: ts ++ [Zeroscript.fixed right]) :=
  (hts.cons hleft).append (.fixed hright)

theorem operator_lexeme (op : Bop) : (fixed op.text).Lexeme := by
  refine fixed_lexeme _ (List.mem_append_left _ ?_)
  cases op with
  | and | or => decide +kernel
  | binary op => cases op <;> decide +kernel

theorem Spaced.lexed {type : TokenType} (t : Lexed type) (htype : type ≠ .fixed) : Spaced [t.token] := by
  have hdigit : ∀ {c : Char}, c.isDigit = true → c ≠ '/' ∧ c ≠ '*' := by
    intro c hc
    constructor
    · rintro rfl
      cases hc
    · rintro rfl
      cases hc
  have hstarts : Starts t.token := by
    have hform := Lexer.form_of_lexeme t.lexeme
    have hlexeme := t.lexeme
    unfold Starts Lexed.token
    dsimp only at hform ⊢
    generalize t.text.toList = text at hform hlexeme
    intro c hc
    cases hform with
    | symbol hmem hsymbol =>
      have hfixed := fixed_lexeme text (List.mem_append_left _ hmem)
      rw [Token.Lexeme] at hfixed hlexeme
      rw [hfixed] at hlexeme
      cases hlexeme
      exact absurd rfl htype
    | word hne hword =>
      cases text with
      | nil => cases hc
      | cons d text =>
        cases hc
        rw [List.all_cons, Bool.and_eq_true] at hword
        constructor
        · rintro rfl
          exact absurd hword.1 (by decide)
        · rintro rfl
          exact absurd hword.1 (by decide)
    | decimal hwhole hfraction =>
      obtain ⟨d, whole, rfl⟩ := List.exists_cons_of_ne_nil hwhole.1
      cases hc
      have hdigits := hwhole.2
      rw [List.all_cons, Bool.and_eq_true] at hdigits
      exact hdigit hdigits.1
    | string hend =>
      cases hc
      decide
  refine .single t.lexeme hstarts fun hslash => ?_
  exact (hstarts '/' (by rw [hslash]; rfl)).1 rfl

theorem Spaced.separated {groups : List (List Token)} (h : ∀ ts ∈ groups, Spaced ts) :
    Spaced (separated groups) := by
  induction groups with
  | nil => exact .nil
  | cons ts groups ih =>
    have hts := h ts List.mem_cons_self
    have hmore := ih fun ts' hts' => h ts' (List.mem_cons_of_mem _ hts')
    cases groups with
    | nil => exact hts
    | cons ts' groups => exact hts.append (hmore.cons (by decide))

theorem Spaced.identifiers (names : List Identifier) : Spaced (identifierTokens names) := by
  refine .separated fun ts hts => ?_
  obtain ⟨x, -, rfl⟩ := List.mem_map.mp hts
  exact .lexed x nofun

theorem Spaced.keywordIf {text : String} (b : Bool) (h : text ∈ punctuation) : Spaced (keywordIf b text) := by
  cases b with
  | false => exact .nil
  | true => exact .fixed h

theorem Spaced.functionKeyword (keyword : FunctionKeyword) : Spaced keyword.tokens := by
  cases keyword with
  | none => exact .nil
  | STATIC | ASYNC => exact .fixed (by decide)

theorem Spaced.varKeyword (keyword : VarKeyword) : Spaced keyword.tokens := by
  cases keyword with
  | none => exact .nil
  | STATIC | TSHARED => exact .fixed (by decide)

theorem Spaced.number (n : NumberContext) : Spaced [n.token] := by
  cases n with
  | INT t | DECIMAL t => exact .lexed t nofun
  | FALSE_ | TRUE_ | NULL_ => exact .fixed (by decide)

theorem Spaced.shift (op : ShiftOp) : Spaced op.tokens := by
  cases op with
  | left => exact .cons (by decide) (.fixed (by decide))
  | unsignedRight => exact .cons (by decide) (.cons (by decide) (.fixed (by decide)))
  | right => exact .cons (by decide) (.fixed (by decide))

theorem prefix_punctuation {op : PrefixOp} (h : op ≠ .throwing) : op.text ∈ punctuation := by
  cases op with
  | throwing => exact absurd rfl h
  | _ => decide

theorem postfix_punctuation (op : PostfixOp) : op.text ∈ punctuation := by
  cases op <;> decide +kernel

mutual

theorem ExpressionContext.spaced : ∀ e : ExpressionContext, Spaced e.tokens ∧ e.tokens ≠ []
  | .newObject e => ⟨e.spaced.1.cons (by decide), List.cons_ne_nil _ _⟩
  | .parentheses e => ⟨.closed (by decide) e.spaced.1 (by decide), List.cons_ne_nil _ _⟩
  | .identifier x => ⟨.lexed x nofun, List.cons_ne_nil _ _⟩
  | .string s => ⟨.lexed s nofun, List.cons_ne_nil _ _⟩
  | .number n => ⟨.number n, List.cons_ne_nil _ _⟩
  | .jsonObject pairs =>
    ⟨.closed (by decide) (.separated (pairTokens_spaced pairs)) (by decide), List.cons_ne_nil _ _⟩
  | .jsonArray elements =>
    ⟨.closed (by decide) (.separated (expressionTokens_spaced elements)) (by decide), List.cons_ne_nil _ _⟩
  | .bop left op right =>
    ⟨.operator left.spaced (operator_lexeme op) right.spaced, List.append_ne_nil_of_left_ne_nil left.spaced.2 _⟩
  | .arrayIndexer left right =>
    ⟨(left.spaced.1.append (right.spaced.1.cons (by decide))).append (.fixed (by decide)), by
      simp [ExpressionContext.tokens]⟩
  | .methodCall callee arguments =>
    ⟨(callee.spaced.1.append (Spaced.cons (by decide) (.separated (expressionTokens_spaced arguments)))).append
      (.fixed (by decide)), by simp [ExpressionContext.tokens]⟩
  | .postfixed left op =>
    ⟨left.spaced.1.append (.fixed (postfix_punctuation op)), by simp [ExpressionContext.tokens]⟩
  | .prefixed op right => ⟨right.spaced.1.cons (prefix_punctuation op.2), List.cons_ne_nil _ _⟩
  | .shift left op right =>
    ⟨(left.spaced.1.append (.shift op)).append right.spaced.1, by simp [ExpressionContext.tokens, left.spaced.2]⟩
  | .function arguments body =>
    ⟨(((Spaced.identifiers arguments).cons (by decide)).cons (by decide)).append
      (Spaced.cons (by decide) (.cons (by decide) (bodyTokens_spaced body))) |>.append (.fixed (by decide)),
      List.cons_ne_nil _ _⟩
  | .lambda arguments body =>
    ⟨((Spaced.identifiers arguments).cons (by decide)).append
      ((body.spaced.cons (by decide)).cons (by decide)), List.cons_ne_nil _ _⟩
  | .lambdaOf argument body =>
    ⟨(Spaced.lexed argument nofun).append (body.spaced.cons (by decide)), List.cons_ne_nil _ _⟩

theorem expressionTokens_spaced : ∀ (es : List ExpressionContext), ∀ ts ∈ expressionTokens es, Spaced ts
  | [] => nofun
  | e :: es => List.forall_mem_cons.mpr ⟨e.spaced.1, expressionTokens_spaced es⟩

theorem pairTokens_spaced : ∀ (pairs : List JsonPairContext), ∀ ts ∈ pairTokens pairs, Spaced ts
  | [] => nofun
  | .pair key value :: pairs =>
    List.forall_mem_cons.mpr
      ⟨key.spaced.1.append (value.spaced.1.cons (by decide)), pairTokens_spaced pairs⟩

theorem BodyOrExpressionContext.spaced : ∀ body : BodyOrExpressionContext, Spaced body.tokens
  | .body body => .closed (by decide) (bodyTokens_spaced body) (by decide)
  | .expression e => e.spaced.1

theorem StatementContext.spaced : ∀ s : StatementContext, Spaced s.tokens
  | .semicolon => .fixed (by decide)
  | .body body => .closed (by decide) (bodyTokens_spaced body) (by decide)
  | .var var => var.spaced
  | .function isPrivate keyword hasFunc name arguments body =>
    (((Spaced.keywordIf isPrivate (by decide)).append (.functionKeyword keyword)).append
      (.keywordIf hasFunc (by decide))).append
        ((Spaced.lexed name nofun).append ((Spaced.identifiers arguments).cons (by decide))) |>.append
          (Spaced.cons (by decide) (.cons (by decide) (bodyTokens_spaced body))) |>.append (.fixed (by decide))
  | .expression e => e.spaced.1.append (.fixed (by decide))
  | .forLoop init condition step body =>
    (((init.spaced.cons (by decide)).cons (by decide)).append
      ((optionTokens_spaced condition).cons (by decide))).append
        ((optionTokens_spaced step).cons (by decide)) |>.append (body.spaced.cons (by decide))
  | .whileLoop condition body =>
    (((optionTokens_spaced condition).cons (by decide)).cons (by decide)).append (body.spaced.cons (by decide))
  | .forInLoop none e body =>
    ((Spaced.cons (by decide) (.cons (by decide) (.fixed (by decide)))).append
      (e.spaced.1.cons (by decide))).append (body.spaced.cons (by decide))
  | .forInLoop (some x) e body =>
    ((Spaced.cons (by decide) (.cons (by decide) (.cons (by decide) (.lexed x nofun)))).append
      (e.spaced.1.cons (by decide))).append (body.spaced.cons (by decide))
  | .conditional condition body none =>
    ((condition.spaced.1.cons (by decide)).cons (by decide)).append (body.spaced.cons (by decide))
  | .conditional condition body (some elseBody) =>
    (((condition.spaced.1.cons (by decide)).cons (by decide)).append (body.spaced.cons (by decide))).append
      (elseBody.spaced.cons (by decide))
  | .tryCatch tryBody identifier catchBody none =>
    ((((bodyTokens_spaced tryBody).cons (by decide)).cons (by decide)).append
      (Spaced.cons (by decide) (.cons (by decide) (.cons (by decide) ((Spaced.lexed identifier nofun).append
        (.cons (by decide) (.cons (by decide) (bodyTokens_spaced catchBody)))))))).append (.fixed (by decide))
  | .tryCatch tryBody identifier catchBody (some finallyBody) =>
    (((((bodyTokens_spaced tryBody).cons (by decide)).cons (by decide)).append
      (Spaced.cons (by decide) (.cons (by decide) (.cons (by decide) ((Spaced.lexed identifier nofun).append
        (.cons (by decide) (.cons (by decide) (bodyTokens_spaced catchBody)))))))).append
          (.cons (by decide) (.cons (by decide) (.cons (by decide) (bodyTokens_spaced finallyBody))))).append
            (.fixed (by decide))
  | .throwing e => (e.spaced.1.cons (by decide)).append (.fixed (by decide))
  | .breaking => .cons (by decide) (.fixed (by decide))
  | .continuing => .cons (by decide) (.fixed (by decide))
  | .returning e => (e.spaced.1.cons (by decide)).append (.fixed (by decide))

theorem bodyTokens_spaced : ∀ body : List StatementContext, Spaced (bodyTokens body)
  | [] => .nil
  | s :: rest => s.spaced.append (bodyTokens_spaced rest)

theorem optionTokens_spaced : ∀ e : Option ExpressionContext, Spaced (optionTokens e)
  | none => .nil
  | some e => e.spaced.1

theorem ForInitContext.spaced : ∀ init : ForInitContext, Spaced init.tokens
  | .none => .nil
  | .expression e => e.spaced.1
  | .var var => var.spaced

theorem VarContext.spaced : ∀ var : VarContext, Spaced var.tokens
  | .var isPrivate keyword first more =>
    ((Spaced.keywordIf isPrivate (by decide)).append (.varKeyword keyword)).append
      (Spaced.cons (by decide) (.separated (List.forall_mem_cons.mpr ⟨first.spaced, partTokens_spaced more⟩)))

theorem partTokens_spaced :
    ∀ (parts : List VariableDeclarationPartContext), ∀ ts ∈ partTokens parts, Spaced ts
  | [] => nofun
  | part :: parts => List.forall_mem_cons.mpr ⟨part.spaced, partTokens_spaced parts⟩

theorem VariableDeclarationPartContext.spaced : ∀ part : VariableDeclarationPartContext, Spaced part.tokens
  | .part name none => .lexed name nofun
  | .part name (some e) => (Spaced.lexed name nofun).append (e.spaced.1.cons (by decide))

theorem BodyOrStatementContext.spaced : ∀ body : BodyOrStatementContext, Spaced body.tokens
  | .body body => .closed (by decide) (bodyTokens_spaced body) (by decide)
  | .statement s => s.spaced

end

def Token.piece (t : Token) : Piece Char Token := ⟨t.text, some t⟩

def blank : List (Piece Char Token) := [⟨[' '], none⟩]

def pieces (tokens : List Token) : List (Piece Char Token) := tokens.map Token.piece

@[simp] theorem texts_pieces (ts : List Token) : texts (pieces ts) = getText ts := List.flatMap_map _ _ ts

@[simp] theorem tokens_pieces (ts : List Token) : tokens (pieces ts) = ts := by
  induction ts with
  | nil => rfl
  | cons t ts ih => exact congrArg (t :: ·) ih

def Ends (c : Char) : Prop := c = ')' ∨ c = ';' ∨ c = ' '

theorem continues_before {text rest tail : List Char} {c : Char} (hc : Ends c) :
    Lexer.continues text (rest ++ c :: tail) = Lexer.continues text rest := by
  have hends : Lexer.isWordChar c = false ∧ c.isDigit = false ∧ c ≠ '.' ∧
      ∀ text, c ∉ Lexer.extensions text := by
    have hextensions : ∀ text, ')' ∉ Lexer.extensions text ∧ ';' ∉ Lexer.extensions text ∧
        ' ' ∉ Lexer.extensions text := by
      intro text
      unfold Lexer.extensions
      split <;> simp
    rcases hc with rfl | rfl | rfl
    · exact ⟨by decide, by decide, by decide, fun text => (hextensions text).1⟩
    · exact ⟨by decide, by decide, by decide, fun text => (hextensions text).2.1⟩
    · exact ⟨by decide, by decide, by decide, fun text => (hextensions text).2.2⟩
  obtain ⟨hword, hdigit, hpoint, hextends⟩ := hends
  cases text with
  | nil => rfl
  | cons head text =>
    cases rest with
    | nil => simp [Lexer.continues, hword, hdigit, hpoint, hextends]
    | cons d rest =>
      cases rest with
      | nil => simp [Lexer.continues, hdigit]
      | cons e rest => rfl

theorem text_ne_nil {t : Token} (h : t.Lexeme) : t.text ≠ [] := by
  obtain ⟨c, tail, heq, -⟩ := (Lexer.form_of_lexeme h).head
  rw [heq]
  exact List.cons_ne_nil _ _

/-- Tokens are read before an end exactly if they are apart; otherwise another token is read. -/
theorem pieces_read {c : Char} (hc : Ends c) (tail : List Char) : ∀ {ts : List Token}, (∀ t ∈ ts, t.Lexeme) →
    ts.IsChain (fun t t' => t.text = ['/'] → Starts t') →
    (Read Lexer.rules (pieces ts) (c :: tail) ↔ Apart ts) ∧ Decided Lexer.rules (pieces ts) (c :: tail) := by
  intro ts
  induction ts with
  | nil => exact fun _ _ => ⟨Iff.rfl, trivial⟩
  | cons t ts ih =>
    intro hlexeme hchain
    have ht := hlexeme t List.mem_cons_self
    obtain ⟨hhead, hchain⟩ := List.isChain_cons.mp hchain
    obtain ⟨hiff, hdecided⟩ := ih (fun t' ht' => hlexeme t' (List.mem_cons_of_mem _ ht')) hchain
    have hcontinues : Lexer.continues t.text (texts (pieces ts) ++ c :: tail) =
        Lexer.continues t.text (getText ts) := by
      rw [texts_pieces]
      exact continues_before hc
    have hcomment : t.text = ['/'] → ∀ d after, texts (pieces ts) ++ c :: tail = d :: after → d ≠ '/' ∧ d ≠ '*' := by
      intro hslash d after heq
      cases ts with
      | nil =>
        cases heq
        rcases hc with rfl | rfl | rfl <;> decide
      | cons t' ts =>
        have hstarts := hhead t' rfl hslash
        have htext := text_ne_nil (hlexeme t' (List.mem_cons_of_mem _ List.mem_cons_self))
        obtain ⟨e, text, ht'⟩ := List.exists_cons_of_ne_nil htext
        have hd : e = d := by
          rw [texts_pieces] at heq
          simp only [getText, List.flatMap_cons, ht', List.cons_append] at heq
          exact (List.cons.inj heq).1
        exact hstarts d (by rw [ht', hd]; rfl)
    by_cases hgoes : Lexer.continues t.text (getText ts) = true
    · obtain ⟨found, n, hfound, hfirst⟩ := ht.misread (hcontinues.trans hgoes) hcomment
      refine ⟨⟨fun hread => ?_, fun hapart => ?_⟩, Or.inr ⟨t, found, n, rfl, hfound, hfirst⟩, hdecided⟩
      · have hsame := hread.1.symm.trans hfirst
        cases hsame
        exact absurd rfl hfound
      · rw [hapart.1] at hgoes
        cases hgoes
    · rw [Bool.not_eq_true] at hgoes
      have hfirst := ht.first_append (hcontinues.trans hgoes)
      exact ⟨⟨fun hread => ⟨hgoes, hiff.mp hread.2⟩, fun hapart => ⟨hfirst, hiff.mpr hapart.2⟩⟩,
        Or.inl hfirst, hdecided⟩

theorem literal_not_blank : ∀ text ∈ Lexer.literals ++ Lexer.keywords, ∃ c ∈ text.head?, c ≠ ' ' := by
  have hall : ((Lexer.literals ++ Lexer.keywords).all fun text => text.head?.any fun c => decide (c ≠ ' ')) = true := by
    decide +kernel
  intro text htext
  obtain ⟨c, hc, hblank⟩ := (Option.any_eq_true _ _).mp (List.all_eq_true.mp hall text htext)
  exact ⟨c, hc, of_decide_eq_true hblank⟩

theorem blank_read {c : Char} {rest : List Char} (hnewline : Lexer.isNewline c = false)
    (hblank : Lexer.isBlank c = false) : Read Lexer.rules blank (c :: rest) := by
  have hliteral : ∀ {literal input : List Char}, literal ∈ Lexer.literals ++ Lexer.keywords →
      Lexer.longestLiteral literal (' ' :: input) = none := by
    intro literal input hmem
    obtain ⟨d, hd, hne⟩ := literal_not_blank literal hmem
    obtain ⟨literal, rfl⟩ : ∃ tail, literal = d :: tail := by
      cases literal with
      | nil => cases hd
      | cons e tail =>
        cases hd
        exact ⟨tail, rfl⟩
    unfold Lexer.longestLiteral
    rw [if_neg fun h => hne (List.cons_prefix_cons.mp h).1]
  have hrun : ∀ {p : Char → Bool}, ([' '].all p = true → ∀ d tail, c :: rest = d :: tail → p d = false) →
      Lexer.longestRun p ([' '] ++ c :: rest) = Lexer.longestRun p [' '] := Lexer.longestRun_append
  have hlongest : ∀ rule ∈ Lexer.rules, rule.longest ([' '] ++ c :: rest) = rule.longest [' '] := by
    intro rule hrule
    simp only [Lexer.rules, List.mem_append, List.mem_map, List.mem_cons, List.not_mem_nil, or_false] at hrule
    rcases hrule with ((⟨l, hl, rfl⟩ | rfl | rfl | rfl | rfl) | ⟨l, hl, rfl⟩) | rfl | rfl | rfl | rfl
    · exact (hliteral (List.mem_append_left _ hl)).trans (hliteral (List.mem_append_left _ hl)).symm
    · rfl
    · rfl
    · exact hrun fun _ d tail heq => by
        cases heq
        exact hnewline
    · exact hrun fun _ d tail heq => by
        cases heq
        exact hblank
    · exact (hliteral (List.mem_append_right _ hl)).trans (hliteral (List.mem_append_right _ hl)).symm
    · rfl
    · rfl
    · rfl
    · rfl
  have halone : first Lexer.rules [' '] = some (none, 1) := by decide +kernel
  refine ⟨?_, trivial⟩
  change first Lexer.rules ([' '] ++ c :: rest) = some (none, 1)
  refine (first_append hlongest fun rule hrule n hn => ?_).trans halone
  obtain ⟨token, m, hfirst, hm⟩ := first_longest hrule hn
  rw [halone] at hfirst
  cases hfirst
  exact hm

def ApartBefore (rest : List Char) : List Token → Prop
  | [] => True
  | t :: ts => Lexer.continues t.text (getText ts ++ rest) = false ∧ ApartBefore rest ts

theorem read_of_apart {rest : List Char} : ∀ {ts : List Token}, (∀ t ∈ ts, t.Lexeme) → ApartBefore rest ts →
    Read Lexer.rules (pieces ts) rest := by
  intro ts
  induction ts with
  | nil => exact fun _ _ => trivial
  | cons t ts ih =>
    intro hlexeme hapart
    refine ⟨(hlexeme t List.mem_cons_self).first_append ?_, ih (fun t' ht' => hlexeme t' (List.mem_cons_of_mem _ ht')) hapart.2⟩
    change Lexer.continues t.text (texts (pieces ts) ++ rest) = false
    rw [texts_pieces]
    exact hapart.1

theorem read_fixed (texts : List String) {rest : List Char} (h : ∀ text ∈ texts, text ∈ punctuation)
    (hapart : ApartBefore rest (texts.map fixed)) : Read Lexer.rules (pieces (texts.map fixed)) rest := by
  refine read_of_apart (fun t ht => ?_) hapart
  obtain ⟨text, htext, rfl⟩ := List.mem_map.mp ht
  exact punctuation_lexeme text (h text htext)

theorem read_lexed {type : TokenType} (t : Lexed type) (texts : List String) {rest : List Char}
    (h : ∀ text ∈ texts, text ∈ punctuation) (hapart : ApartBefore rest (t.token :: texts.map fixed)) :
    Read Lexer.rules (pieces (t.token :: texts.map fixed)) rest := by
  refine read_of_apart (fun t' ht' => ?_) hapart
  rcases List.mem_cons.mp ht' with rfl | hlater
  · exact t.lexeme
  · obtain ⟨text, htext, rfl⟩ := List.mem_map.mp hlater
    exact punctuation_lexeme text (h text htext)

def zero : Lexed .INT := ⟨"0", by decide +kernel⟩

def one : Lexed .INT := ⟨"1", by decide +kernel⟩

def lambdaCall (body : BodyContext) : ExpressionContext := .methodCall (.parentheses (.lambda [] (.body body))) []

/-- What the text of `andToIf` is meant to be parsed to. -/
def andTemplate (a b : ExpressionContext) : ExpressionContext :=
  lambdaCall [.conditional a (.body [.conditional b (.body [.returning (.number (.INT one))]) none]) none,
    .returning (.number (.INT zero))]

def orTemplate (a b : ExpressionContext) : ExpressionContext :=
  lambdaCall [.conditional a (.body [.returning a])
      (some (.statement (.conditional b (.body [.returning b]) none))),
    .returning (.number (.INT zero))]

def opening : List (Piece Char Token) :=
  pieces [fixed "(", fixed "(", fixed ")", fixed "=>", fixed "\x7b"] ++ (blank ++ pieces [fixed "if", fixed "("])

def andMiddle : List (Piece Char Token) :=
  pieces [fixed ")", fixed "\x7b"] ++ (blank ++ pieces [fixed "if", fixed "("])

def andClosing : List (Piece Char Token) :=
  pieces [fixed ")", fixed "\x7b"] ++ (blank ++ (pieces [fixed "return"] ++ (blank ++ (pieces [one.token, fixed ";"] ++
    (blank ++ (pieces [fixed "\x7d", fixed "\x7d", fixed "return"] ++ (blank ++
      pieces [zero.token, fixed ";", fixed "\x7d", fixed ")", fixed "(", fixed ")"])))))))

def returning : List (Piece Char Token) :=
  pieces [fixed ")", fixed "\x7b"] ++ (blank ++ (pieces [fixed "return"] ++ blank))

def orMiddle : List (Piece Char Token) :=
  pieces [fixed ";"] ++ (blank ++ (pieces [fixed "\x7d"] ++ (blank ++ (pieces [fixed "else"] ++ (blank ++
    pieces [fixed "if", fixed "("])))))

def orClosing : List (Piece Char Token) :=
  pieces [fixed ";"] ++ (blank ++ (pieces [fixed "\x7d"] ++ (blank ++ (pieces [fixed "return"] ++ (blank ++
    pieces [zero.token, fixed ";", fixed "\x7d", fixed ")", fixed "(", fixed ")"])))))

theorem segment_texts : texts opening = "(()=>\x7b if(".toList ∧ texts andMiddle = ")\x7b if(".toList ∧
    texts andClosing = ")\x7b return 1; \x7d\x7dreturn 0;\x7d)()".toList ∧
    texts returning = ")\x7b return ".toList ∧ texts orMiddle = "; \x7d else if(".toList ∧
    texts orClosing = "; \x7d return 0;\x7d)()".toList := by
  decide +kernel

section

variable (a b : ExpressionContext)

def andPieces : List (Piece Char Token) :=
  opening ++ (pieces a.tokens ++ (andMiddle ++ (pieces b.tokens ++ andClosing)))

def orPieces : List (Piece Char Token) :=
  opening ++ (pieces a.tokens ++ (returning ++ (pieces a.tokens ++ (orMiddle ++ (pieces b.tokens ++ (returning ++
    (pieces b.tokens ++ orClosing)))))))

theorem andPieces_texts : texts (andPieces a b) = andText a b := by
  obtain ⟨hopening, hmiddle, hclosing, -⟩ := segment_texts
  unfold andPieces andText
  simp only [texts_append, texts_pieces, hopening, hmiddle, hclosing, List.append_assoc]

theorem orPieces_texts : texts (orPieces a b) = orText a b := by
  obtain ⟨hopening, -, -, hreturning, hmiddle, hclosing⟩ := segment_texts
  unfold orPieces orText
  simp only [texts_append, texts_pieces, hopening, hreturning, hmiddle, hclosing, List.append_assoc]

theorem blank_tokens : tokens blank = [] := rfl

theorem andPieces_tokens : tokens (andPieces a b) = (andTemplate a b).tokens := by
  simp [andPieces, opening, andMiddle, andClosing, tokens_append, blank_tokens, andTemplate, lambdaCall,
    ExpressionContext.tokens, BodyOrExpressionContext.tokens, StatementContext.tokens,
    BodyOrStatementContext.tokens, bodyTokens, expressionTokens, identifierTokens, separated, NumberContext.token]

theorem orPieces_tokens : tokens (orPieces a b) = (orTemplate a b).tokens := by
  simp [orPieces, opening, returning, orMiddle, orClosing, tokens_append, blank_tokens, orTemplate, lambdaCall,
    ExpressionContext.tokens, BodyOrExpressionContext.tokens, StatementContext.tokens,
    BodyOrStatementContext.tokens, bodyTokens, expressionTokens, identifierTokens, separated, NumberContext.token]

end

theorem continues_open (rest : List Char) : Lexer.continues ['('] rest = false := by
  cases rest <;> rfl

theorem if_read (rest : List Char) : Read Lexer.rules (blank ++ pieces [fixed "if", fixed "("]) rest := by
  have htokens : Read Lexer.rules (pieces [fixed "if", fixed "("]) rest :=
    read_fixed ["if", "("] (by decide) ⟨rfl, continues_open rest, trivial⟩
  have hblank : Read Lexer.rules blank ('i' :: ('f' :: '(' :: rest)) := blank_read (by decide) (by decide)
  exact read_append.mpr ⟨hblank, htokens⟩

theorem opening_read (rest : List Char) : Read Lexer.rules opening rest :=
  read_append.mpr ⟨read_fixed ["(", "(", ")", "=>", "\x7b"] (by decide) ⟨rfl, rfl, rfl, rfl, rfl, trivial⟩, if_read rest⟩

theorem andMiddle_read (rest : List Char) : Read Lexer.rules andMiddle rest :=
  read_append.mpr ⟨read_fixed [")", "\x7b"] (by decide) ⟨rfl, rfl, trivial⟩, if_read rest⟩

theorem return_read (rest : List Char) : Read Lexer.rules (blank ++ pieces [fixed "return"]) (' ' :: rest) := by
  have htokens : Read Lexer.rules (pieces [fixed "return"]) (' ' :: rest) :=
    read_fixed ["return"] (by decide) ⟨rfl, trivial⟩
  have hblank : Read Lexer.rules blank ('r' :: ("eturn".toList ++ ' ' :: rest)) :=
    blank_read (by decide) (by decide)
  exact read_append.mpr ⟨hblank, htokens⟩

theorem end_read : Read Lexer.rules
    (blank ++ pieces [zero.token, fixed ";", fixed "\x7d", fixed ")", fixed "(", fixed ")"]) [] := by
  have htokens : Read Lexer.rules (pieces [zero.token, fixed ";", fixed "\x7d", fixed ")", fixed "(", fixed ")"]) [] :=
    read_lexed zero [";", "\x7d", ")", "(", ")"] (by decide) ⟨rfl, rfl, rfl, rfl, rfl, rfl, trivial⟩
  have hblank : Read Lexer.rules blank ('0' :: ";\x7d)()".toList) := blank_read (by decide) (by decide)
  exact read_append.mpr ⟨hblank, htokens⟩

theorem andClosing_read : Read Lexer.rules andClosing [] := by
  have hend := read_append.mp end_read
  have hbraces : Read Lexer.rules (blank ++ pieces [fixed "\x7d", fixed "\x7d", fixed "return"]) " 0;\x7d)()".toList :=
    read_append.mpr ⟨blank_read (by decide) (by decide), read_fixed ["\x7d", "\x7d", "return"] (by decide) ⟨rfl, rfl, rfl, trivial⟩⟩
  have hone : Read Lexer.rules (blank ++ pieces [one.token, fixed ";"]) " \x7d\x7dreturn 0;\x7d)()".toList :=
    read_append.mpr ⟨blank_read (by decide) (by decide), read_lexed one [";"] (by decide) ⟨rfl, rfl, trivial⟩⟩
  have hreturn := read_append.mp (return_read "1; \x7d\x7dreturn 0;\x7d)()".toList)
  obtain ⟨hblank₁, hone⟩ := read_append.mp hone
  obtain ⟨hblank₂, hbraces⟩ := read_append.mp hbraces
  refine read_append.mpr ⟨read_fixed [")", "\x7b"] (by decide) ⟨rfl, rfl, trivial⟩, read_append.mpr ⟨hreturn.1,
    read_append.mpr ⟨hreturn.2, read_append.mpr ⟨hblank₁, read_append.mpr ⟨hone, read_append.mpr ⟨hblank₂,
      read_append.mpr ⟨hbraces, read_append.mpr hend⟩⟩⟩⟩⟩⟩⟩

theorem returning_read {c : Char} (rest : List Char) (hnewline : Lexer.isNewline c = false)
    (hblank : Lexer.isBlank c = false) : Read Lexer.rules returning (c :: rest) := by
  have hreturn := read_append.mp (return_read (c :: rest))
  exact read_append.mpr ⟨read_fixed [")", "\x7b"] (by decide) ⟨rfl, rfl, trivial⟩, read_append.mpr ⟨hreturn.1,
    read_append.mpr ⟨hreturn.2, blank_read hnewline hblank⟩⟩⟩

theorem orMiddle_read (rest : List Char) : Read Lexer.rules orMiddle rest := by
  have hbrace : Read Lexer.rules (blank ++ pieces [fixed "\x7d"]) (" else if(".toList ++ rest) :=
    read_append.mpr ⟨blank_read (by decide) (by decide), read_fixed ["\x7d"] (by decide) ⟨rfl, trivial⟩⟩
  have helse : Read Lexer.rules (blank ++ pieces [fixed "else"]) (" if(".toList ++ rest) :=
    read_append.mpr ⟨blank_read (by decide) (by decide), read_fixed ["else"] (by decide) ⟨rfl, trivial⟩⟩
  obtain ⟨hblank₁, hbrace⟩ := read_append.mp hbrace
  obtain ⟨hblank₂, helse⟩ := read_append.mp helse
  exact read_append.mpr ⟨read_fixed [";"] (by decide) ⟨rfl, trivial⟩, read_append.mpr ⟨hblank₁,
    read_append.mpr ⟨hbrace, read_append.mpr ⟨hblank₂, read_append.mpr ⟨helse, if_read rest⟩⟩⟩⟩⟩

theorem orClosing_read : Read Lexer.rules orClosing [] := by
  have hbrace : Read Lexer.rules (blank ++ pieces [fixed "\x7d"]) " return 0;\x7d)()".toList :=
    read_append.mpr ⟨blank_read (by decide) (by decide), read_fixed ["\x7d"] (by decide) ⟨rfl, trivial⟩⟩
  have hreturn := read_append.mp (return_read "0;\x7d)()".toList)
  obtain ⟨hblank, hbrace⟩ := read_append.mp hbrace
  exact read_append.mpr ⟨read_fixed [";"] (by decide) ⟨rfl, trivial⟩, read_append.mpr ⟨hblank,
    read_append.mpr ⟨hbrace, read_append.mpr ⟨hreturn.1, read_append.mpr ⟨hreturn.2, end_read⟩⟩⟩⟩⟩

theorem operand_read (e : ExpressionContext) {c : Char} (hc : Ends c) (rest : List Char) :
    (Read Lexer.rules (pieces e.tokens) (c :: rest) ↔ Apart e.tokens) ∧
      Decided Lexer.rules (pieces e.tokens) (c :: rest) :=
  pieces_read hc rest e.spaced.1.lexeme e.spaced.1.chain

theorem operand_head (e : ExpressionContext) : ∃ c rest, getText e.tokens = c :: rest ∧
    Lexer.isNewline c = false ∧ Lexer.isBlank c = false := by
  obtain ⟨hspaced, hne⟩ := e.spaced
  obtain ⟨t, ts, hts⟩ := List.exists_cons_of_ne_nil hne
  have ht : t.Lexeme := hspaced.lexeme t (by rw [hts]; exact List.mem_cons_self)
  obtain ⟨c, tail, htext, hnewline, hblank⟩ := (Lexer.form_of_lexeme ht).head
  refine ⟨c, tail ++ getText ts, ?_, hnewline, hblank⟩
  rw [hts, getText, List.flatMap_cons, htext]
  rfl

theorem texts_cons {segment after : List (Piece Char Token)} {c : Char} {text : List Char}
    (h : texts segment = c :: text) (rest : List Char) :
    texts (segment ++ after) ++ rest = c :: (text ++ (texts after ++ rest)) := by
  rw [texts_append, h, List.append_assoc]
  rfl

theorem segment_heads : texts andMiddle = ')' :: "\x7b if(".toList ∧
    texts andClosing = ')' :: "\x7b return 1; \x7d\x7dreturn 0;\x7d)()".toList ∧
    texts returning = ')' :: "\x7b return ".toList ∧ texts orMiddle = ';' :: " \x7d else if(".toList ∧
    texts orClosing = ';' :: " \x7d return 0;\x7d)()".toList := by
  decide +kernel

theorem operand_segment (e : ExpressionContext) {segment : List (Piece Char Token)} (after : List (Piece Char Token))
    {c : Char} {text : List Char} (hc : Ends c) (hsegment : texts segment = c :: text) (rest : List Char) :
    (Read Lexer.rules (pieces e.tokens ++ (segment ++ after)) rest ↔
      Apart e.tokens ∧ Read Lexer.rules (segment ++ after) rest) ∧
    (Decided Lexer.rules (segment ++ after) rest →
      Decided Lexer.rules (pieces e.tokens ++ (segment ++ after)) rest) := by
  obtain ⟨hread, hdecided⟩ := operand_read e hc (text ++ (texts after ++ rest))
  rw [← texts_cons hsegment] at hread hdecided
  exact ⟨read_append.trans (and_congr_left' hread), fun h => decided_append.mpr ⟨hdecided, h⟩⟩

theorem andPieces_read (a b : ExpressionContext) :
    (Read Lexer.rules (andPieces a b) [] ↔ Apart a.tokens ∧ Apart b.tokens) ∧
      Decided Lexer.rules (andPieces a b) [] := by
  have hclosing := andClosing_read
  obtain ⟨hmiddles, hclosings, -⟩ := segment_heads
  have hb := operand_segment b [] (Or.inl rfl) hclosings []
  rw [List.append_nil] at hb
  have ha := operand_segment a (pieces b.tokens ++ andClosing) (Or.inl rfl) hmiddles []
  have hmiddle := andMiddle_read (texts (pieces b.tokens ++ andClosing) ++ [])
  have hopening := opening_read (texts (pieces a.tokens ++ (andMiddle ++ (pieces b.tokens ++ andClosing))) ++ [])
  unfold andPieces
  constructor
  · rw [read_append, and_iff_right hopening, ha.1, read_append, and_iff_right hmiddle, hb.1]
    exact and_congr_right fun _ => and_iff_left hclosing
  · have hlater := decided_append.mpr ⟨hmiddle.decided, hb.2 hclosing.decided⟩
    exact decided_append.mpr ⟨hopening.decided, ha.2 hlater⟩

theorem returning_operand (e : ExpressionContext) (after : List (Piece Char Token)) (rest : List Char) :
    Read Lexer.rules returning (texts (pieces e.tokens ++ after) ++ rest) := by
  obtain ⟨c, tail, htext, hnewline, hblank⟩ := operand_head e
  rw [texts_cons (texts_pieces _ |>.trans htext)]
  exact returning_read _ hnewline hblank

theorem orPieces_read (a b : ExpressionContext) :
    (Read Lexer.rules (orPieces a b) [] ↔ Apart a.tokens ∧ Apart b.tokens) ∧
      Decided Lexer.rules (orPieces a b) [] := by
  have hclosing := orClosing_read
  obtain ⟨-, -, hreturns, hmiddles, hclosings⟩ := segment_heads
  have hb' := operand_segment b [] (Or.inr (Or.inl rfl)) hclosings []
  rw [List.append_nil] at hb'
  have hb := operand_segment b (pieces b.tokens ++ orClosing) (Or.inl rfl) hreturns []
  have hreturnb := returning_operand b orClosing []
  have ha' := operand_segment a (pieces b.tokens ++ (returning ++ (pieces b.tokens ++ orClosing)))
    (Or.inr (Or.inl rfl)) hmiddles []
  have hmiddle := orMiddle_read (texts (pieces b.tokens ++ (returning ++ (pieces b.tokens ++ orClosing))) ++ [])
  have ha := operand_segment a
    (pieces a.tokens ++ (orMiddle ++ (pieces b.tokens ++ (returning ++ (pieces b.tokens ++ orClosing)))))
    (Or.inl rfl) hreturns []
  have hreturna := returning_operand a
    (orMiddle ++ (pieces b.tokens ++ (returning ++ (pieces b.tokens ++ orClosing)))) []
  have hopening := opening_read (texts (pieces a.tokens ++ (returning ++ (pieces a.tokens ++ (orMiddle ++
    (pieces b.tokens ++ (returning ++ (pieces b.tokens ++ orClosing))))))) ++ [])
  unfold orPieces
  constructor
  · rw [read_append, and_iff_right hopening, ha.1, read_append, and_iff_right hreturna, ha'.1, read_append,
      and_iff_right hmiddle, hb.1, read_append, and_iff_right hreturnb, hb'.1, and_iff_left hclosing]
    constructor
    · rintro ⟨ha, -, hb, -⟩
      exact ⟨ha, hb⟩
    · rintro ⟨ha, hb⟩
      exact ⟨ha, ha, hb, hb⟩
  · have hb₁ := decided_append.mpr ⟨hreturnb.decided, hb'.2 hclosing.decided⟩
    have hb₂ := decided_append.mpr ⟨hmiddle.decided, hb.2 hb₁⟩
    have ha₁ := decided_append.mpr ⟨hreturna.decided, ha'.2 hb₂⟩
    exact decided_append.mpr ⟨hopening.decided, ha.2 ha₁⟩

theorem operand_ne_nil (e : ExpressionContext) : ∀ piece ∈ pieces e.tokens, piece.text ≠ [] := by
  intro piece hpiece
  obtain ⟨t, ht, rfl⟩ := List.mem_map.mp hpiece
  exact text_ne_nil (e.spaced.1.lexeme t ht)

theorem segments_ne_nil : ∀ piece ∈ opening ++ andMiddle ++ andClosing ++ returning ++ orMiddle ++ orClosing,
    piece.text ≠ [] := by
  decide +kernel

theorem and_relexed_iff (a b : ExpressionContext) :
    lex (andText a b) = some (andTemplate a b).tokens ↔ Apart a.tokens ∧ Apart b.tokens := by
  obtain ⟨hread, hdecided⟩ := andPieces_read a b
  have hsegment := segments_ne_nil
  simp only [List.forall_mem_append] at hsegment
  obtain ⟨⟨⟨⟨⟨hopening, hmiddle⟩, hclosing⟩, -⟩, -⟩, -⟩ := hsegment
  rw [← andPieces_texts, ← andPieces_tokens, ← hread]
  refine lex_pieces_iff ?_ hdecided
  simp only [andPieces, List.forall_mem_append]
  exact ⟨hopening, operand_ne_nil a, hmiddle, operand_ne_nil b, hclosing⟩

theorem or_relexed_iff (a b : ExpressionContext) :
    lex (orText a b) = some (orTemplate a b).tokens ↔ Apart a.tokens ∧ Apart b.tokens := by
  obtain ⟨hread, hdecided⟩ := orPieces_read a b
  have hsegment := segments_ne_nil
  simp only [List.forall_mem_append] at hsegment
  obtain ⟨⟨⟨⟨⟨hopening, -⟩, -⟩, hreturning⟩, hmiddle⟩, hclosing⟩ := hsegment
  rw [← orPieces_texts, ← orPieces_tokens, ← hread]
  refine lex_pieces_iff ?_ hdecided
  simp only [orPieces, List.forall_mem_append]
  exact ⟨hopening, operand_ne_nil a, hreturning, operand_ne_nil a, hmiddle, operand_ne_nil b, hreturning,
    operand_ne_nil b, hclosing⟩

/-- The operands of `and` and `or` are parsed again from the tokens they are made of exactly if no
token of theirs goes on with the next one. -/
theorem operands_relexed_iff (a b : ExpressionContext) :
    lex (andText a b) = some (andTemplate a b).tokens ∧ lex (orText a b) = some (orTemplate a b).tokens ↔
      Apart a.tokens ∧ Apart b.tokens := by
  rw [and_relexed_iff, or_relexed_iff, and_self]

/-- In `1 or 1 and 0` the right operand is lexed again as the identifier `1and0`. -/
theorem nested_operand_fused : ∃ a b : ExpressionContext,
    ¬(lex (andText a b) = some (andTemplate a b).tokens ∧ lex (orText a b) = some (orTemplate a b).tokens) := by
  refine ⟨.number (.INT one), .bop (.number (.INT one)) .and (.number (.INT zero)), fun h => ?_⟩
  exact absurd ((or_relexed_iff _ _).mp h.2).2 (by decide)

end Zeroscript
