import Desugar.Proofs.Locality
import Desugar.Proofs.Respacing

/-!
# Sources without sugar

Tokens that all stand for themselves are passed through.  The parser still groups them by their
brackets, and a tree is rendered part by part, but what comes out is the tokens one after the other
(`Body.renderAll_of_sugarFree`).

For a source that means that only its layout goes.  Which characters these are is said here without the
lexer: `Text.bare` goes over a source character by character, keeps track of whether it is in a string
or in a comment (`Text.Place`), and leaves out blanks and commas in code and comments whole.

## Shape of the argument

* `Text.bare` is told for each kind of text that a lexeme can be: layout goes
  (`IsLayout.bare_append`), strings stay from quote to quote, and the characters of any other token
  are neither layout nor quotes.
* `Lexeme.IsLongest.bare_append` says it of a token that is a longest match; the one string that does
  not end in code is the one that nothing closes, with nothing behind it.
* `Lexer.Munches.bare_eq` puts the lexemes of a source together.
-/

namespace Desugar

/-! ## A text without its layout -/

namespace Text

/-- Where a character of a source stands: in code, in a string, behind a backslash in a string, or in
a comment. -/
inductive Place where
  | code
  | string
  | escape
  | comment
  deriving DecidableEq, Repr

namespace Place

/-- The place behind a character. -/
def next : Place → Char → Place
  | .code, c => if c = '"' then .string else if c = '#' then .comment else .code
  | .string, c => if c = '"' then .code else if c = '\\' then .escape else .string
  | .escape, _ => .string
  | .comment, c => if c = '\n' then .code else .comment

/-- Whether a character at this place is layout: blanks and commas in code, and comments from their
number sign up to the end of the line. -/
def isLayout : Place → Char → Bool
  | .code, c => Lexeme.isGap c || c = '#'
  | .string, _ | .escape, _ => false
  | .comment, _ => true

end Place

/-- The characters that are not layout, of a text that stands at this place. -/
def bare : Place → List Char → List Char
  | _, [] => []
  | place, c :: cs =>
    if place.isLayout c then bare (place.next c) cs else c :: bare (place.next c) cs

variable {c : Char} {cs rest text : List Char}

theorem bare_of_isGap (h : Lexeme.isGap c = true) : bare .code (c :: cs) = bare .code cs := by
  have hquote : c ≠ '"' := by
    rintro rfl
    exact absurd h (by decide)
  have hmark : c ≠ '#' := by
    rintro rfl
    exact absurd h (by decide)
  simp [bare, Place.isLayout, Place.next, h, hquote, hmark]

theorem bare_hash (cs : List Char) : bare .code ('#' :: cs) = bare .comment cs := by
  simp [bare, Place.isLayout, Place.next]

theorem bare_quote (cs : List Char) : bare .code ('"' :: cs) = '"' :: bare .string cs := by
  have hgap : Lexeme.isGap '"' = false := by decide
  simp [bare, Place.isLayout, Place.next, hgap]

/-- Nothing is kept up to the end of a line that is in a comment. -/
theorem bare_line (h : '\n' ∉ text) (hends : rest = [] ∨ rest.head? = some '\n') :
    bare .comment (text ++ rest) = bare .code rest := by
  induction text with
  | nil =>
    rcases hends with rfl | hhead
    · rfl
    · obtain ⟨rest, rfl⟩ := List.head?_eq_some_iff.mp hhead
      rw [List.nil_append, bare_of_isGap (by decide)]
      simp [bare, Place.isLayout, Place.next]
  | cons c text ih =>
    obtain ⟨hc, htext⟩ : c ≠ '\n' ∧ '\n' ∉ text := by simpa [eq_comm] using h
    simpa [bare, Place.isLayout, Place.next, hc] using ih htext

/-- The characters of tokens other than strings are kept. -/
theorem bare_of_isTokenChar (h : ∀ c ∈ text, Lexeme.isTokenChar c = true) (rest : List Char) :
    bare .code (text ++ rest) = text ++ bare .code rest := by
  induction text with
  | nil => rfl
  | cons c text ih =>
    have hc := h c (by simp)
    have hlayout : (Lexeme.isGap c || decide (c = '#')) = false :=
      Lexeme.startsLayout_of_isTokenChar hc
    have hmark : c ≠ '#' := by simpa using (Bool.or_eq_false_iff.mp hlayout).2
    have hquote : c ≠ '"' := by
      rintro rfl
      exact absurd hc (by decide)
    have hnext : Place.next .code c = .code := by simp [Place.next, hquote, hmark]
    rw [List.cons_append, bare, Place.isLayout, hlayout, hnext, ih fun d hd => h d (by simp [hd])]
    rfl

/-- The pieces of a string are kept. -/
theorem bare_pieces {pieces : List (List Char)}
    (h : ∀ piece ∈ pieces, piece ∈ Lexeme.stringPiece.language) (rest : List Char) :
    bare .string (pieces.flatten ++ rest) = pieces.flatten ++ bare .string rest := by
  induction pieces with
  | nil => rfl
  | cons piece pieces ih =>
    have hmore := ih fun other hother => h other (by simp [hother])
    rw [List.flatten_cons, List.append_assoc]
    rcases Lexeme.mem_stringPiece.mp (h piece (by simp)) with ⟨c, hquote, hbackslash, rfl⟩ | ⟨c, rfl⟩
    · simp [bare, Place.isLayout, Place.next, hquote, hbackslash, hmore]
    · simp [bare, Place.isLayout, Place.next, hmore]

theorem bare_openString (h : text ∈ Lexeme.openString.language) (rest : List Char) :
    bare .code (text ++ rest) = text ++ bare .string rest := by
  obtain ⟨pieces, hpieces, rfl⟩ := Lexeme.mem_openString.mp h
  rw [List.cons_append, bare_quote, bare_pieces hpieces, List.cons_append]

theorem bare_closedString (h : text ∈ Lexeme.openString.language) (rest : List Char) :
    bare .code (text ++ ['"'] ++ rest) = text ++ ['"'] ++ bare .code rest := by
  rw [List.append_assoc, bare_openString h]
  simp [bare, Place.isLayout, Place.next]

end Text

open Text (bare)

/-- Layout is left out. -/
theorem IsLayout.bare_append {rest gap : List Char} (h : IsLayout rest gap) :
    bare .code (gap ++ rest) = bare .code rest := by
  induction h with
  | nil => rfl
  | blank blank _ ih => rw [List.cons_append, Text.bare_of_isGap (by simp [Lexeme.isGap, blank]), ih]
  | comma _ ih => rw [List.cons_append, Text.bare_of_isGap (by decide), ih]
  | comment line ends _ ih =>
    rw [List.cons_append, Text.bare_hash, List.append_assoc, Text.bare_line line ends, ih]

/-- A token is kept.  A string that nothing closes has nothing behind it, so it does not matter that
what follows would be read as part of it. -/
theorem Lexeme.IsLongest.bare_append {lexeme : Lexeme} {text rest : List Char} {offset : Nat}
    {items : List Spanned} (h : lexeme.IsLongest (text ++ rest) text) (hgap : lexeme ≠ .gap)
    (hcomment : lexeme ≠ .comment) (hmore : Lexer.Munches offset rest items []) :
    bare .code (text ++ rest) = text ++ bare .code rest := by
  by_cases hstring : lexeme = .string
  · subst hstring
    rcases Lexeme.openString_or_closed h.mem with hopen | ⟨front, hfront, rfl⟩
    · have hrest : rest = [] := by
        by_contra hne
        exact h.not_open_of_munches hmore hne hopen
      rw [hrest, Text.bare_openString hopen]
      rfl
    · exact Text.bare_closedString hfront rest
  · refine Text.bare_of_isTokenChar (Lexeme.isTokenChar_of_mem h.mem ?_) rest
    simp [hgap, hcomment, hstring]

/-- What is left of a source without its layout are the texts of its tokens. -/
theorem Lexer.Munches.bare_eq {offset : Nat} {cs final : List Char} {items : List Spanned}
    (h : Lexer.Munches offset cs items final) (hfinal : final = []) :
    bare .code cs = items.flatMap (·.token.text.toList) := by
  induction h with
  | stop =>
    subst hfinal
    rfl
  | @take offset text rest final items lexeme longest more ih =>
    have hrest := ih hfinal
    subst hfinal
    cases htoken : lexeme.token? (String.ofList text) with
    | none =>
      rw [Lexeme.spanned?, htoken, (IsLayout.of_isLongest longest htoken).bare_append, hrest]
      rfl
    | some token =>
      have htext := Lexeme.toList_text_of_token? longest.mem htoken
      obtain ⟨hgap, hcomment⟩ := Lexeme.not_layout_of_token? htoken
      rw [Lexeme.spanned?, htoken, longest.bare_append hgap hcomment more, hrest, ← htext]
      rfl

/-! ## Tokens that stand for themselves -/

namespace Token

@[simp]
theorem detokenize_nil : detokenize [] = "" := rfl

@[simp]
theorem detokenize_cons (token : Token) (tokens : List Token) :
    detokenize (token :: tokens) = token.text ++ detokenize tokens :=
  String.join_cons

@[simp]
theorem detokenize_append (front back : List Token) :
    detokenize (front ++ back) = detokenize front ++ detokenize back := by
  rw [detokenize, List.map_append, String.join_append]
  rfl

theorem toList_detokenize (tokens : List Token) :
    (detokenize tokens).toList = tokens.flatMap (·.text.toList) := by
  rw [detokenize, String.toList_join, List.flatMap_map]

end Token

/-- Tokens without sugar are rendered as they stand.  Of the scopes only brackets are left, which are
kept around their elements. -/
theorem Body.renderAll_of_sugarFree {literal : Bool} {tokens : List Spanned} {trees : List Tree}
    (h : Body literal tokens trees) (hsugar : ∀ item ∈ tokens, item.token.isSugar = false) :
    Form.renderAll (Tree.forms trees) = Token.detokenize (tokens.map (·.token)) := by
  induction h with
  | nil => rfl
  | leaf before plain apart ih =>
    obtain ⟨hfront, -⟩ := List.forall_mem_append.mp hsugar
    rw [Tree.renderAll_forms_append, ih hfront]
    simp [Tree.forms, Tree.form, Tree.leafForm_eq_atom (Token.isStep_of_isPlain plain)]
  | @lone _ _ _ item _ _ token _ _ =>
    have hstep := hsugar item (by simp)
    simp [token, Token.isSugar] at hstep
  | @stepped _ _ _ _ item _ _ token _ _ =>
    have hstep := hsugar item (by simp)
    simp [token, Token.isSugar] at hstep
  | signed before token touches ih =>
    -- the sign has been written already, and the number follows it directly
    obtain ⟨hfront, -⟩ := List.forall_mem_append.mp hsugar
    have hsign := ih hfront
    rw [Tree.renderAll_forms_append] at hsign ⊢
    rw [List.map_append, Token.detokenize_append, ← hsign]
    simp [Tree.forms, Tree.form, Tree.leafForm, Token.text, token, String.append_assoc]
  | @scope _ front inner trees elements opener closer delimiter before body opens closes pairs ih
      ihBody =>
    obtain ⟨hfront, hscope⟩ := List.forall_mem_append.mp hsugar
    have hinner : ∀ item ∈ inner, item.token.isSugar = false :=
      fun item hitem => hscope item (by simp [hitem])
    -- every other way to open a scope is sugar
    obtain rfl : delimiter = .bracket := by
      have hopener := hscope opener (by simp)
      rw [opens] at hopener
      cases delimiter with
      | bracket => rfl
      | _ => simp [Token.isSugar] at hopener
    have hbrackets : Form.renderAll (Tree.forms [.scope .bracket elements]) =
        Token.detokenize ((opener :: (inner ++ [closer])).map (·.token)) := by
      simp [Tree.forms, Tree.form, Form.ofScope, Form.render_wrap, ihBody hinner, opens, closes,
        Token.text, Delimiter.opening, Delimiter.closer, Bracket.closing, String.append_assoc]
    rw [Tree.renderAll_forms_append, ih hfront, hbrackets, List.map_append, Token.detokenize_append]

/-! ## Whole sources -/

theorem Parser.renderAll_of_sugarFree {tokens : List Spanned} {limit : Nat} {trees : List Tree}
    (hsugar : (tokens.map (·.token)).any Token.isSugar = false)
    (h : (Parser.start tokens limit).document.1 = .ok trees) :
    Form.renderAll (Tree.forms trees) = Token.detokenize (tokens.map (·.token)) :=
  (body_of_document_eq_ok h).renderAll_of_sugarFree (by simpa using hsugar)

/-- Tokens without sugar are passed through.  Where a parser accepts them, whatever its limit, the text
that comes out is that of the tokens one after the other; and a source without sugar that is accepted
loses its layout and nothing else. -/
theorem sugarFree_passed_through :
    (∀ (tokens : List Spanned) (limit : Nat) (trees : List Tree),
      (tokens.map (·.token)).any Token.isSugar = false →
      (Parser.start tokens limit).document.1 = .ok trees →
      Form.renderAll (Tree.forms trees) = Token.detokenize (tokens.map (·.token))) ∧
    ∀ (source text : String) (limit : Nat) (tokens : List Spanned),
      tokenize source = .ok tokens → (tokens.map (·.token)).any Token.isSugar = false →
      desugar source limit = .ok text → text = String.ofList (bare .code source.toList) := by
  refine ⟨fun _ _ _ => Parser.renderAll_of_sugarFree, ?_⟩
  intro source text limit tokens htokens hsugar htext
  obtain ⟨tokens', trees, htokens', hdocument, rfl⟩ := exists_trees_of_desugar_eq_ok htext
  obtain rfl := Except.ok.inj (htokens.symm.trans htokens')
  have hbare := (Lexer.munches_of_tokenize_eq_ok htokens).bare_eq rfl
  apply String.toList_inj.mp
  rw [Parser.renderAll_of_sugarFree hsugar hdocument, Token.toList_detokenize, String.toList_ofList,
    hbare, List.flatMap_map]

/-- The tokens of the two lines `[x -> # y` and ` -1], "#, \"`.  The string is not closed, and what looks
like layout in it is part of it. -/
def plainTokens : List Spanned :=
  [⟨.opener .bracket, ⟨0, 1⟩⟩, ⟨.word "x", ⟨1, 2⟩⟩, ⟨.arrow, ⟨3, 5⟩⟩, ⟨.operator "-", ⟨11, 12⟩⟩,
   ⟨.word "1", ⟨12, 13⟩⟩, ⟨.closer .square, ⟨13, 14⟩⟩, ⟨.string "\"#, \\\"", ⟨16, 22⟩⟩]

/-- Brackets with an arrow, a sign and a comment in them, and behind them the string. -/
theorem sugarFree_passed_through_plainTokens :
    (plainTokens.map (·.token)).any Token.isSugar = false ∧
      (∃ trees, (Parser.start plainTokens 1).document.1 = .ok trees ∧
        Form.renderAll (Tree.forms trees) = "[x->-1]\"#, \\\"") ∧
      tokenize "[x -> # y\n -1], \"#, \\\"" = .ok plainTokens ∧
      desugar "[x -> # y\n -1], \"#, \\\"" 1 = .ok "[x->-1]\"#, \\\"" ∧
      "[x->-1]\"#, \\\"" =
        String.ofList (bare .code "[x -> # y\n -1], \"#, \\\"".toList) := by
  have hsugar : (plainTokens.map (·.token)).any Token.isSugar = false := by decide
  have htokens : tokenize "[x -> # y\n -1], \"#, \\\"" = .ok plainTokens :=
    eq_ok_of_toOption_eq_some (by decide +kernel)
  have htext : desugar "[x -> # y\n -1], \"#, \\\"" 1 = .ok "[x->-1]\"#, \\\"" :=
    eq_ok_of_toOption_eq_some (by decide +kernel)
  obtain ⟨trees, hdocument⟩ : ∃ trees, (Parser.start plainTokens 1).document.1 = .ok trees := ⟨_, rfl⟩
  obtain ⟨hparsed, hsource⟩ := sugarFree_passed_through
  exact ⟨hsugar, ⟨trees, hdocument, hparsed _ _ _ hsugar hdocument⟩, htokens, htext,
    hsource _ _ _ _ htokens hsugar htext⟩

end Desugar
