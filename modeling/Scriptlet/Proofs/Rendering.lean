import Scriptlet.Proofs.Scanning
import Scriptlet.Proofs.ReadBack

/-!
# Printed text reads back

The scanner reads the text the printer writes as the tokens of the tree (`Expr.tokens`), up to
their offsets, and the parser reads those tokens back as the tree. Together: parsing the printed
text of a printable program gives the program back, but for the offsets the printer does not
write, as long as the program does not nest deeper than the parser's nesting limit allows.

The scanner half is proved piece by piece with `Lexes`. Names, numerals and strings are one
token each; punctuation and operators are one token each whatever follows them in printed text;
blanks are skipped by the call that reads the next token. A piece of printed text only needs
what follows it to be `Separated`, no word character and no dot, and the printer writes a blank,
a bracket, a comma, a line feed or nothing at all after every piece.

## Main statements

* `Expr.lexes_render`, `Stmt.lexes_render`: the text of a printable tree reads as its tokens.
* `TokenStream.ofString_render`: the text of a printable program is the stream of its tokens.
* `Program.parse_render`: the text of a printable program parses back as the program.
-/

set_option autoImplicit false

namespace Scriptlet.Syntax

/-! ## What follows a piece -/

theorem separated_cons {c : Char} {r : List Char} (hc : isWordChar c = false) (hd : c ≠ '.') :
    Separated (c :: r) := by
  rintro d hd'
  cases hd'
  exact ⟨hc, hd⟩

theorem Separated.nil : Separated [] := nofun

/-- The lines of a block start with a line feed, so they separate like what follows them. -/
theorem Separated.renderLines {r : List Char} (hr : Separated r) (body : List Stmt) :
    Separated ((Stmt.renderLines body).toList ++ r) := by
  cases body with
  | nil => simpa [Stmt.renderLines] using hr
  | cons s rest =>
    simp only [Stmt.renderLines, String.toList_append, List.append_assoc]
    exact separated_cons rfl (by decide)

/-! ## Pieces of one token -/

namespace Lexes

variable {w : List Char} {us : List Token} {F : List Char → Prop}

theorem of_eq {w' : List Char} {us' : List Token} (h : Lexes w us F) (hw : w = w')
    (hus : us = us') : Lexes w' us' F :=
  hw ▸ hus ▸ h

/-- A blank before a piece that has a token. -/
theorem space (h : Lexes w us F) (hus : us ≠ []) : Lexes (' ' :: w) us F := by
  obtain ⟨u, us, rfl⟩ := List.exists_cons_of_ne_nil hus
  exact blank rfl h

/-- A piece of one character and one token, repeated. -/
theorem replicate {c : Char} {u : Token} (h : Lexes [c] [u] (fun _ => True)) :
    ∀ n, Lexes (List.replicate n c) (List.replicate n u) (fun _ => True)
  | 0 => Lexes.nil
  | n + 1 => h.append (replicate h n) fun _ _ => trivial

end Lexes

/-- Punctuation that starts no two-character operator is one token whatever follows it. -/
theorem lexes_punct {c : Char} {k : TokenKind} (hk : singleKind c = some k)
    (hpair : ∀ d, pairKind c d = none) (hq : isQuote c = false) (hw : isWordStart c = false)
    (hd : isDecimalDigit c = false) (hb : isBlank c = false) :
    Lexes [c] [Token.plain k (String.singleton c)] (fun _ => True) :=
  (lexes_symbol hk hq hw hd hb).mono fun _ _ d _ => hpair d

theorem lexes_openParen : Lexes ['('] [Token.plain .openParen "("] (fun _ => True) :=
  lexes_punct rfl (fun _ => rfl) rfl rfl rfl rfl

theorem lexes_closeParen : Lexes [')'] [Token.plain .closeParen ")"] (fun _ => True) :=
  lexes_punct rfl (fun _ => rfl) rfl rfl rfl rfl

theorem lexes_openCurly : Lexes ['\x7b'] [Token.plain .openCurly "\x7b"] (fun _ => True) :=
  lexes_punct rfl (fun _ => rfl) rfl rfl rfl rfl

theorem lexes_closeCurly : Lexes ['\x7d'] [Token.plain .closeCurly "\x7d"] (fun _ => True) :=
  lexes_punct rfl (fun _ => rfl) rfl rfl rfl rfl

theorem lexes_comma : Lexes [','] [Token.plain .comma ","] (fun _ => True) :=
  lexes_punct rfl (fun _ => rfl) rfl rfl rfl rfl

theorem lexes_newLine : Lexes ['\n'] [Token.plain .newLine "\n"] (fun _ => True) :=
  lexes_punct rfl (fun _ => rfl) rfl rfl rfl rfl

theorem lexes_arrow : Lexes ['=', '>'] [Token.plain .equalGreaterThan "=>"] (fun _ => True) :=
  lexes_pair rfl rfl rfl rfl rfl

/-- An operator followed by a blank: the blank makes no two-character operator with it. -/
theorem lexes_op_single {c : Char} {k : TokenKind} (hk : singleKind c = some k)
    (hsp : pairKind c ' ' = none) (hq : isQuote c = false) (hw : isWordStart c = false)
    (hd : isDecimalDigit c = false) (hb : isBlank c = false) :
    Lexes [c] [Token.plain k (String.singleton c)] (fun r => r.head? = some ' ') :=
  (lexes_symbol hk hq hw hd hb).mono fun r hr d hd => by
    rw [hr] at hd
    cases hd
    exact hsp

theorem lexes_equal : Lexes ['='] [Token.plain .equal "="] (fun r => r.head? = some ' ') :=
  lexes_op_single rfl rfl rfl rfl rfl rfl

theorem BinOp.lexes_symbol (op : BinOp) :
    Lexes op.symbol.toList [op.token 0] (fun r => r.head? = some ' ') := by
  -- eight operators of one character and five of two
  cases op
  all_goals first
    | exact lexes_op_single rfl rfl rfl rfl rfl rfl
    | exact (lexes_pair rfl rfl rfl rfl rfl).mono fun _ _ => trivial

theorem Sign.lexes_symbol (s : Sign) : Lexes s.symbol.toList [s.token 0] (fun _ => True) := by
  cases s <;> exact lexes_punct rfl (fun _ => rfl) rfl rfl rfl rfl

/-- An operator with a blank on each side, then a piece. -/
theorem lexes_spaced {w₀ w : List Char} {u : Token} {us : List Token} {F : List Char → Prop}
    (hop : Lexes w₀ [u] (fun r => r.head? = some ' ')) (h : Lexes w us F) (hus : us ≠ []) :
    Lexes (' ' :: (w₀ ++ ' ' :: w)) (u :: us) F :=
  (hop.append (h.space hus) fun _ _ => rfl).space (List.cons_ne_nil _ _)

/-- An identifier: a letter or `_`, then letters, digits and `_`. -/
theorem lexes_ident {n : String} {c : Char} {cs : List Char} (hn : n.toList = c :: cs)
    (hc : isWordStart c = true) (hcs : ∀ d ∈ cs, isWordChar d = true) :
    Lexes n.toList [Token.plain .identifier n] Separated := by
  have h : Lexes (c :: cs) [Token.plain .identifier (String.ofList (c :: cs))] Separated :=
    (lexes_word hc hcs).mono fun _ hr d hd => (hr d hd).1
  rwa [← hn, String.ofList_toList] at h

theorem lexes_name {n : String} (h : isName n = true) :
    Lexes n.toList [Token.plain .identifier n] Separated := by
  unfold isName at h
  split at h
  · rename_i c cs hn
    simp only [Bool.and_eq_true, List.all_eq_true] at h
    exact lexes_ident hn h.1.1 h.1.2
  · cases h

theorem quoteFor_spec {text : String} (h : quotable text = true) :
    isQuote (quoteFor text) = true ∧ quoteFor text ∉ text.toList := by
  simp only [quotable, List.any_cons, List.any_nil, Bool.or_false, Bool.or_eq_true,
    Bool.not_eq_true', List.contains_eq_mem, decide_eq_false_iff_not] at h
  unfold quoteFor
  -- the quote is the first of the three that the body lacks
  by_cases h1 : '\'' ∈ text.toList <;> by_cases h2 : '"' ∈ text.toList <;>
    simp_all [List.find?, isQuote]

/-- Parameter names separated by commas. -/
theorem lexes_params : ∀ ps : List String, (∀ p ∈ ps, isName p = true) →
    Lexes (", ".intercalate ps).toList (paramTokens ps) Separated
  | [], _ => Lexes.nil
  | [p], h => by simpa [paramTokens] using lexes_name (h p (by simp))
  | p :: q :: rest, h => by
    have hp := lexes_name (h p (by simp))
    have hrest := lexes_params (q :: rest) fun x hx => h x (by simp [hx])
    have hsep := hp.append (lexes_comma.append (hrest.space (by cases rest <;> simp [paramTokens]))
      fun _ _ => trivial) fun _ _ => separated_cons rfl (by decide)
    refine hsep.of_eq ?_ (by simp [paramTokens])
    simp [String.intercalate_cons_cons]

/-- A piece in parentheses when `b`. -/
theorem lexes_parenthesizeIf {s : String} {us : List Token} (h : Lexes s.toList us Separated)
    (b : Bool) : Lexes (parenthesizeIf b s).toList (parenTokensIf b us) Separated := by
  cases b with
  | false => exact h
  | true =>
    have hin : Lexes (s.toList ++ [')']) (us ++ [Token.plain .closeParen ")"]) Separated :=
      h.append (lexes_closeParen.mono fun _ _ => trivial) fun _ _ => separated_cons rfl (by decide)
    refine (lexes_openParen.append hin fun _ _ => trivial).of_eq ?_ (by simp [parenTokensIf])
    simp [parenthesizeIf]

/-- A block: its lines between braces, the closing brace on a line of its own. -/
theorem lexes_renderBlock {body : List Stmt}
    (h : Lexes (Stmt.renderLines body).toList (Stmt.lineTokens body) Separated) :
    Lexes (Stmt.renderBlock body).toList (Stmt.blockTokens body) Separated := by
  have hend : Lexes ['\n', '\x7d'] [Token.plain .newLine "\n", Token.plain .closeCurly "\x7d"]
      Separated :=
    lexes_newLine.append (lexes_closeCurly.mono fun _ _ => trivial) fun _ _ => trivial
  have hlines := h.append hend fun _ _ => separated_cons rfl (by decide)
  refine (lexes_openCurly.append hlines fun _ _ => trivial).of_eq ?_ (by simp [Stmt.blockTokens])
  simp [Stmt.renderBlock]

/-- A keyword, its condition in parentheses, and what follows. -/
theorem lexes_guarded {kw : String} {c : Expr} {w : List Char} {us : List Token}
    {F : List Char → Prop} (hkw : Lexes kw.toList [Token.plain .identifier kw] Separated)
    (hc : Lexes c.render.toList c.tokens Separated) (h : Lexes w us F) (hus : us ≠ []) :
    Lexes (kw.toList ++ ' ' :: '(' :: (c.render.toList ++ ')' :: ' ' :: w))
      (Token.plain .identifier kw :: Token.plain .openParen "(" :: c.tokens ++
        Token.plain .closeParen ")" :: us) F := by
  have hclose := lexes_closeParen.append (h.space hus) fun _ _ => trivial
  have hcond := hc.append hclose fun _ _ => separated_cons rfl (by decide)
  have hopen := (lexes_openParen.append hcond fun _ _ => trivial).space (by simp)
  exact (hkw.append hopen fun _ _ => separated_cons rfl (by decide)).of_eq rfl (by simp)

theorem lexes_let : Lexes "let".toList [Token.plain .identifier "let"] Separated :=
  lexes_ident rfl rfl (List.all_eq_true.1 (by decide))

theorem lexes_if : Lexes "if".toList [Token.plain .identifier "if"] Separated :=
  lexes_ident rfl rfl (List.all_eq_true.1 (by decide))

theorem lexes_else : Lexes "else".toList [Token.plain .identifier "else"] Separated :=
  lexes_ident rfl rfl (List.all_eq_true.1 (by decide))

theorem lexes_for : Lexes "for".toList [Token.plain .identifier "for"] Separated :=
  lexes_ident rfl rfl (List.all_eq_true.1 (by decide))

/-! ## Trees -/

theorem Expr.tokens_ne_nil {e : Expr} (he : e.Printable) : e.tokens ≠ [] :=
  List.ne_nil_of_length_pos (e.tokens_length_pos he)

theorem parenTokensIf_ne_nil (b : Bool) {ts : List Token} (h : ts ≠ []) : parenTokensIf b ts ≠ [] := by
  cases b <;> simp [parenTokensIf, h]

theorem Stmt.tokens_ne_nil {s : Stmt} (hs : s.Printable) : s.tokens ≠ [] := by
  obtain ⟨t, rest, h, -⟩ := s.tokens_head hs
  simp [h]

mutual

/-- The text of a printable expression reads as its tokens. -/
theorem Expr.lexes_render : ∀ e : Expr, e.Printable → Lexes e.render.toList e.tokens Separated
  | .ident n, h => by simpa [Expr.render, Expr.tokens] using lexes_name h
  | .num text f _, h => by
    simpa [Expr.render, Expr.tokens] using lexes_numeral h
  | .str text, h => by
    obtain ⟨hq, hnot⟩ := quoteFor_spec h
    refine ((lexes_string hq hnot).mono fun _ _ => trivial).of_eq ?_ (by simp [Expr.tokens])
    simp [Expr.render]
  | .unary s _ e, h => by
    have he := lexes_parenthesizeIf (Expr.lexes_render e h) e.isOperation
    exact (s.lexes_symbol.append he fun _ _ => trivial).of_eq (by simp [Expr.render])
      (by simp [Expr.tokens])
  | .binary op _ l r, ⟨hl, hr⟩ => by
    have hL := lexes_parenthesizeIf (Expr.lexes_render l hl) (l.needsParensLeft op.precedence)
    have hR := lexes_parenthesizeIf (Expr.lexes_render r hr) (r.needsParensRight op.precedence)
    have hop := lexes_spaced op.lexes_symbol hR (parenTokensIf_ne_nil _ (Expr.tokens_ne_nil hr))
    refine (hL.append hop fun _ _ => separated_cons rfl (by decide)).of_eq ?_ (by simp [Expr.tokens])
    simp [Expr.render]
  | .assign t v, ⟨ht, hv⟩ => by
    have hT := lexes_parenthesizeIf (Expr.lexes_render t ht) t.isAssign
    have hop := lexes_spaced lexes_equal (Expr.lexes_render v hv) (Expr.tokens_ne_nil hv)
    refine (hT.append hop fun _ _ => separated_cons rfl (by decide)).of_eq ?_ (by simp [Expr.tokens])
    simp [Expr.render]
  | .call c args, ⟨hc, hargs⟩ => by
    have hC := lexes_parenthesizeIf (Expr.lexes_render c hc) (c.isOperation || c.isUnary)
    have hclose : Lexes ((Expr.renderList args).toList ++ [')'])
        (Expr.listTokens args ++ [Token.plain .closeParen ")"]) Separated :=
      (Expr.lexes_renderList args hargs).append (lexes_closeParen.mono fun _ _ => trivial)
        fun _ _ => separated_cons rfl (by decide)
    have hopen := lexes_openParen.append hclose fun _ _ => trivial
    refine (hC.append hopen fun _ _ => separated_cons rfl (by decide)).of_eq ?_ (by simp [Expr.tokens])
    simp [Expr.render]
  | .func ps body, ⟨hps, hbody⟩ => by
    have hblock := lexes_renderBlock (Stmt.lexes_renderLines body hbody)
    have harrow := (lexes_arrow.append (hblock.space (by simp [Stmt.blockTokens]))
      fun _ _ => trivial).space (by simp)
    have hclose := lexes_closeParen.append harrow fun _ _ => trivial
    have hparams := (lexes_params ps hps).append hclose fun _ _ => separated_cons rfl (by decide)
    refine (lexes_openParen.append hparams fun _ _ => trivial).of_eq ?_ (by simp [Expr.tokens])
    simp [Expr.render]

/-- Printable expressions separated by commas read as their tokens. -/
theorem Expr.lexes_renderList : ∀ es : List Expr, Expr.PrintableList es →
    Lexes (Expr.renderList es).toList (Expr.listTokens es) Separated
  | [], _ => Lexes.nil.of_eq (by simp [Expr.renderList]) (by simp [Expr.listTokens])
  | [e], ⟨he, _⟩ => by simpa [Expr.renderList, Expr.listTokens] using Expr.lexes_render e he
  | e :: f :: rest, ⟨he, hf, hrest⟩ => by
    obtain ⟨v, restv, hv, -⟩ := Expr.listTokens_head f rest hf
    have hfs := Expr.lexes_renderList (f :: rest) ⟨hf, hrest⟩
    have hcomma := lexes_comma.append (hfs.space (by simp [hv])) fun _ _ => trivial
    refine ((Expr.lexes_render e he).append hcomma
      fun _ _ => separated_cons rfl (by decide)).of_eq ?_ ?_
    · rw [Expr.renderList.eq_3 e (f :: rest) nofun]
      simp
    · rw [Expr.listTokens.eq_3 e (f :: rest) nofun]
      simp

/-- The text of a printable statement reads as its tokens. -/
theorem Stmt.lexes_render : ∀ s : Stmt, s.Printable → Lexes s.render.toList s.tokens Separated
  | .expr e, h => by simpa [Stmt.render, Stmt.tokens] using Expr.lexes_render e h
  | .block body, h => by
    simpa [Stmt.render, Stmt.tokens] using lexes_renderBlock (Stmt.lexes_renderLines body h)
  | .letDecl n none, h => by
    have hn := (lexes_name h).space (by simp)
    refine (lexes_let.append hn fun _ _ => separated_cons rfl (by decide)).of_eq ?_ (by simp [Stmt.tokens])
    simp [Stmt.render, Stmt.renderInit]
  | .letDecl n (some e), ⟨hn, he⟩ => by
    have hinit := lexes_spaced lexes_equal (Expr.lexes_render e he) (Expr.tokens_ne_nil he)
    have hname := ((lexes_name hn).append hinit fun _ _ => separated_cons rfl (by decide)).space
      (by simp)
    refine (lexes_let.append hname fun _ _ => separated_cons rfl (by decide)).of_eq ?_ (by simp [Stmt.tokens])
    simp [Stmt.render, Stmt.renderInit]
  | .ite c th none, ⟨hc, hth⟩ => by
    refine (lexes_guarded lexes_if (Expr.lexes_render c hc) (Stmt.lexes_render th hth)
      (Stmt.tokens_ne_nil hth)).of_eq ?_ (by simp [Stmt.tokens])
    simp [Stmt.render, Stmt.renderElse]
  | .ite c th (some el), ⟨hc, hth, _, hel⟩ => by
    have hels := ((lexes_else.append ((Stmt.lexes_render el hel).space (Stmt.tokens_ne_nil hel))
      fun _ _ => separated_cons rfl (by decide)).space (by simp))
    have hbranch := (Stmt.lexes_render th hth).append hels
      fun _ _ => separated_cons rfl (by decide)
    refine (lexes_guarded lexes_if (Expr.lexes_render c hc) hbranch
      (by simp [Stmt.tokens_ne_nil hth])).of_eq ?_ (by simp [Stmt.tokens])
    simp [Stmt.render, Stmt.renderElse]
  | .loop c b, ⟨hc, hb⟩ => by
    refine (lexes_guarded lexes_for (Expr.lexes_render c hc) (Stmt.lexes_render b hb)
      (Stmt.tokens_ne_nil hb)).of_eq ?_ (by simp [Stmt.tokens])
    simp [Stmt.render]

/-- Printable statements, each after a line feed, read as their tokens. -/
theorem Stmt.lexes_renderLines : ∀ body : List Stmt, Stmt.PrintableList body →
    Lexes (Stmt.renderLines body).toList (Stmt.lineTokens body) Separated
  | [], _ => Lexes.nil.of_eq (by simp [Stmt.renderLines]) (by simp [Stmt.lineTokens])
  | s :: rest, ⟨hs, hrest⟩ => by
    have hline := (Stmt.lexes_render s hs).append (Stmt.lexes_renderLines rest hrest)
      fun _ hr => hr.renderLines rest
    refine (lexes_newLine.append hline fun _ _ => trivial).of_eq ?_ (by simp [Stmt.lineTokens])
    simp [Stmt.renderLines]

end

/-- The text of a printable program reads as its tokens. -/
theorem Program.lexes_render {p : Program} (hp : p.Printable) :
    Lexes p.render.toList p.tokens Separated := by
  cases p with
  | nil => exact Lexes.nil
  | cons s rest =>
    obtain ⟨hs, hrest⟩ := hp
    refine ((Stmt.lexes_render s hs).append (Stmt.lexes_renderLines rest hrest)
      fun _ hr => hr.renderLines rest).of_eq ?_ rfl
    simp [Program.render]

/-! ## The round trip -/

/-- The tokens of a text that lexes as `us` up to its end. -/
theorem TokenStream.ofString_of_lexes {src : String} {us : List Token} {F : List Char → Prop}
    (h : Lexes src.toList us F) (hF : F []) :
    ∃ ts, ts.map Token.erase = us ∧
      TokenStream.ofString src = ⟨ts, .ok ⟨.eof, "", src.length, none⟩⟩ := by
  obtain ⟨ts, hts, hsteps⟩ := h [] 0 src.length hF
  refine ⟨ts, hts, TokenStream.ofString_of_steps ?_⟩
  simpa [Scanner.ofString, String.length_toList] using hsteps

/-- The text of a printable program is the stream of its tokens, ended at the end of the text. -/
theorem TokenStream.ofString_render {p : Program} (hp : p.Printable) :
    ∃ ts, ts.map Token.erase = p.tokens ∧
      TokenStream.ofString p.render = ⟨ts, .ok ⟨.eof, "", p.render.length, none⟩⟩ :=
  TokenStream.ofString_of_lexes (Program.lexes_render hp) Separated.nil

variable [NestingLimit]

/-- Parsing the text of a printable program gives the program back, up to the offsets the text
does not keep, when the program nests no deeper than the parser's nesting limit lets it read. -/
theorem Program.parse_render {p : Program} (hp : p.Printable)
    (hd : readLevel + 6 * p.height + 18 ≤ nestingLimit) :
    ∃ p', Program.parse p.render = .ok p' ∧ p'.erase = p.erase := by
  obtain ⟨ts, hts, hstream⟩ := TokenStream.ofString_render hp
  simp only [Program.parse, Program.parseAt, hstream]
  exact Program.ofTokens_of_tokens hp hts rfl rfl hd

end Scriptlet.Syntax

namespace Scriptlet.Syntax

/-- A function bound by `let`, then called on a product of a hexadecimal numeral and a signed
string: the text of the program parses back as the program. -/
theorem Program.parse_render_call :
    ∃ p', Program.parse (Program.render
        [.letDecl "inc" (some (.func ["x"]
          [.expr (.binary .add 0 (.ident "x") (.num "1" ⟨.integer, .decimal⟩ 0))])),
        .expr (.call (.ident "inc")
          [.binary .mul 0 (.num "0x1F" ⟨.integer, .hex⟩ 0) (.unary .neg 0 (.str "hi"))])]) =
        .ok p' ∧
      p'.erase = Program.erase
        [.letDecl "inc" (some (.func ["x"]
          [.expr (.binary .add 0 (.ident "x") (.num "1" ⟨.integer, .decimal⟩ 0))])),
        .expr (.call (.ident "inc")
          [.binary .mul 0 (.num "0x1F" ⟨.integer, .hex⟩ 0) (.unary .neg 0 (.str "hi"))])] := by
  refine Program.parse_render ?_ (by decide)
  simp only [Program.Printable, Stmt.PrintableList, Stmt.Printable, Expr.Printable,
    Expr.PrintableList]
  have hone : Numeral ['1'] ⟨.integer, .decimal⟩ :=
    .integer (.inr ⟨⟨by simp, List.all_eq_true.1 (by decide)⟩, by decide⟩)
  have hhex : Numeral ['0', 'x', '1', 'F'] ⟨.integer, .hex⟩ :=
    .hex ⟨by simp, List.all_eq_true.1 (by decide)⟩
  exact ⟨⟨by decide, by decide, ⟨by decide, hone⟩, trivial⟩, ⟨by decide, ⟨hhex, by decide⟩, trivial⟩,
    trivial⟩

end Scriptlet.Syntax
