import Desugar.Proofs.Trimming

/-!
# Nothing is lost

Every token of a source is found again in the output, in the order of the source and with what it
says unaltered.  What a token says is its `Token.content`: the brackets and the arrow say nothing, a
step operator says the call it stands for.  Between the contents only the fixed pieces of
`Ruby.glue` stand, and `Woven` is the relation of the contents and the text woven from them.

Braces around a single name are the exception: the name is said three times, in the text of
`Ruby.dispatch`.  `Token.cells` takes such a scope as one cell with that text.

A scope is woven by cases on the rule that it follows (`Body.woven_ofScope`), a body by induction on
its grammar (`Body.conserved`), and `desugar_woven` says it of the whole source.
-/

namespace Desugar

open Brackets

/-! ## What the tokens say -/

/-- What a token contributes to the output. -/
def Token.content : Token → String
  | .word text | .string text | .operator text => text
  -- without the leading `&:`
  | .methodRef text => String.ofList (text.toList.drop 2)
  | .step .increment => ".succ"
  | .step .decrement => ".pred"
  | .opener _ | .closer _ | .arrow => ""

/-- What stands in one piece in the output: a token, or braces around a single name. -/
inductive Cell where
  | plain (token : Token)
  | dispatch (name : String)
  deriving DecidableEq, Repr

/-- The text of a cell. -/
def Cell.content : Cell → String
  | .plain token => token.content
  | .dispatch name => Ruby.dispatch name

/-- The cells of the tokens: one for each token, and one for the three tokens of braces around a
single name. -/
def Token.cells : List Token → List Cell
  | .opener .brace :: .word name :: .closer .curly :: tokens =>
    if Ruby.isSymbol name then
      .dispatch name :: cells tokens
    else
      .plain (.opener .brace) :: cells (.word name :: .closer .curly :: tokens)
  | token :: tokens => .plain token :: cells tokens
  | [] => []

/-- The pieces of Ruby that stand between the contents of tokens. -/
def Ruby.glue : List String :=
  ["(", ")", "[", "]", "\x7b|", "|", "\x7d", ", ", "it", ".", "&:", "->", "].to_h"]

/-- The text is the contents of the cells in their order, with pieces of glue before, between and
behind them. -/
inductive Woven : List Cell → String → Prop
  | nil : Woven [] ""
  | glue {cells : List Cell} {text : String} (piece : String) (mem : piece ∈ Ruby.glue)
      (rest : Woven cells text) : Woven cells (piece ++ text)
  | cell {cells : List Cell} {text : String} (cell : Cell) (rest : Woven cells text) :
      Woven (cell :: cells) (cell.content ++ text)

/-! ## Weaving texts together -/

namespace Woven

variable {cells front back : List Cell} {text opening closing : String}

theorem append {text' : String} (hfront : Woven front text) (hback : Woven back text') :
    Woven (front ++ back) (text ++ text') := by
  induction hfront with
  | nil => simpa using hback
  | glue piece mem _ ih =>
    rw [String.append_assoc]
    exact .glue piece mem ih
  | cell cell _ ih =>
    rw [String.append_assoc]
    exact .cell cell ih

theorem single (cell : Cell) : Woven [cell] cell.content := by
  simpa using Woven.cell cell .nil

/-- A piece of glue may follow. -/
theorem snoc (h : Woven cells text) (piece : String) (mem : piece ∈ Ruby.glue) :
    Woven cells (text ++ piece) := by
  simpa using h.append (.glue piece mem .nil)

/-- Brackets say nothing. -/
theorem brackets (h : Woven cells text) (delimiter : Delimiter) (bracket : Bracket) :
    Woven (.plain (.opener delimiter) :: cells ++ [.plain (.closer bracket)]) text := by
  have hopener : Woven [.plain (.opener delimiter)] "" := single _
  have hcloser : Woven [.plain (.closer bracket)] "" := single _
  simpa using (hopener.append h).append hcloser

/-- Texts with commas between them. -/
theorem intercalate {α : Type} {cellsOf : α → List Cell} {textOf : α → String} {items : List α}
    (h : ∀ item ∈ items, Woven (cellsOf item) (textOf item)) :
    Woven (items.flatMap cellsOf) (", ".intercalate (items.map textOf)) := by
  induction items with
  | nil => exact .nil
  | cons item items ih =>
    have hitem := h item (by simp)
    have hitems := ih fun other hother => h other (by simp [hother])
    cases items with
    | nil => simpa using hitem
    | cons next items =>
      rw [List.flatMap_cons, List.map_cons, List.map_cons, String.intercalate_cons_cons,
        String.append_assoc]
      exact hitem.append (.glue ", " (by decide) hitems)

theorem lambda {params : List String} {body : List Form}
    (hparams : Woven front (", ".intercalate params)) (hbody : Woven back (Form.renderAll body)) :
    Woven (front ++ back) (Ruby.lambda params body).render := by
  have hopening := (hparams.glue "\x7b|" (by decide)).snoc "|" (by decide)
  rw [Form.render_lambda, Form.lambdaText]
  exact (hopening.append hbody).snoc "\x7d" (by decide)

/-- A block with the parameter `it` alone. -/
theorem block {body : List Form} (hbody : Woven cells (Form.renderAll body)) :
    Woven cells (Ruby.lambda [Ruby.it] body).render := by
  have hparams : Woven [] (", ".intercalate [Ruby.it]) := .glue "it" (by decide) .nil
  exact hparams.lambda hbody

/-- The implicit parameter stands before the others. -/
theorem implicitParams {params : List String} (h : Woven cells (", ".intercalate params))
    (delimiter : Delimiter) :
    Woven cells (", ".intercalate (Form.implicitParams delimiter ++ params)) := by
  cases delimiter with
  | brace =>
    cases params with
    | nil => exact h.glue "it" (by decide)
    | cons param params =>
      rw [Form.implicitParams, List.singleton_append, String.intercalate_cons_cons,
        String.append_assoc]
      exact (h.glue ", " (by decide)).glue "it" (by decide)
  | _ => exact h

theorem wrap {forms : List Form} (hforms : Woven cells (Form.renderAll forms))
    (hopening : opening ∈ Ruby.glue) (hclosing : closing ∈ Ruby.glue) :
    Woven cells (Ruby.wrap opening forms closing).render := by
  simpa [Ruby.wrap, Form.renderAll_append, String.append_assoc] using
    (hforms.glue opening hopening).snoc closing hclosing

end Woven

/-! ## Cells side by side -/

namespace Token

/-- A token is a cell on its own unless it opens braces around a single name. -/
theorem cells_cons {token : Token} {tokens : List Token}
    (h : ∀ name rest, token = .opener .brace → tokens = .word name :: .closer .curly :: rest →
      Ruby.isSymbol name = false) :
    cells (token :: tokens) = .plain token :: cells tokens := by
  conv_lhs => unfold cells
  split
  · next name rest heq =>
    obtain ⟨rfl, rfl⟩ := List.cons.inj heq
    simp [h name rest rfl rfl]
  · next heq =>
    obtain ⟨rfl, rfl⟩ := List.cons.inj heq
    rfl
  · next heq => simp at heq

theorem cells_cons_of_ne {token : Token} (h : token ≠ .opener .brace) (tokens : List Token) :
    cells (token :: tokens) = .plain token :: cells tokens :=
  cells_cons fun _ _ hbrace _ => absurd hbrace h

/-- The tokens of a scope that is not braces around a single name. -/
theorem cells_scope {delimiter : Delimiter} {inner : List Spanned} (bracket : Bracket)
    (hinner : Balanced inner)
    (hplain : ∀ name, delimiter = .brace → inner.map (·.token) = [.word name] →
      Ruby.isSymbol name = false) (rest : List Token) :
    cells (.opener delimiter :: (inner.map (·.token) ++ .closer bracket :: rest)) =
      .plain (.opener delimiter) :: cells (inner.map (·.token) ++ .closer bracket :: rest) := by
  refine cells_cons fun name back hbrace htokens => ?_
  obtain rfl : delimiter = .brace := by simpa using hbrace
  match inner with
  | [] => simp at htokens
  | [item] => exact hplain name rfl (by simpa using (List.cons.inj htokens).1)
  | item :: next :: others =>
    -- a closer right behind a name would close nothing
    obtain ⟨hitem, hnext, -⟩ : item.token = .word name ∧ next.token = .closer .curly ∧ _ := by
      simpa using htokens
    have hrun : Balanced [item] := balanced_atomic (by simp [hitem, Token.isAtomic])
    exact absurd rfl (hinner.closersMatch.ne_append_closer hrun hnext)

end Token

namespace Tree

/-- The tokens of a tree are whole cells, and the form of the tree is woven from them. -/
structure Conserved (tree : Tree) : Prop where
  apart : ∀ rest, Token.cells (tree.tokens ++ rest) = Token.cells tree.tokens ++ Token.cells rest
  woven : Woven (Token.cells tree.tokens) tree.form.render

theorem Conserved.of_cells {tree : Tree} {cells : List Cell}
    (hcells : ∀ rest, Token.cells (tree.tokens ++ rest) = cells ++ Token.cells rest)
    (hwoven : Woven cells tree.form.render) : Conserved tree := by
  have hown : Token.cells tree.tokens = cells := by simpa [Token.cells] using hcells []
  exact ⟨fun rest => by rw [hcells, hown], by rwa [hown]⟩

/-- The cells of a row of trees. -/
def cellsAll (trees : List Tree) : List Cell :=
  trees.flatMap fun tree => Token.cells tree.tokens

theorem cells_tokensAll {trees : List Tree} (h : ∀ tree ∈ trees, Conserved tree)
    (rest : List Token) :
    Token.cells (tokensAll trees ++ rest) = cellsAll trees ++ Token.cells rest := by
  induction trees with
  | nil => rfl
  | cons tree trees ih =>
    have htrees := ih fun other hother => h other (by simp [hother])
    rw [tokensAll, List.append_assoc, (h tree (by simp)).apart, htrees]
    simp [cellsAll]

theorem woven_renderAll {trees : List Tree} (h : ∀ tree ∈ trees, Conserved tree) :
    Woven (cellsAll trees) (Form.renderAll (forms trees)) := by
  induction trees with
  | nil => exact .nil
  | cons tree trees ih =>
    have htrees := ih fun other hother => h other (by simp [hother])
    simpa [cellsAll, forms] using (h tree (by simp)).woven.append htrees

theorem woven_intercalate {trees : List Tree} (h : ∀ tree ∈ trees, Conserved tree) :
    Woven (cellsAll trees) (", ".intercalate (trees.map (·.form.render))) :=
  .intercalate fun tree htree => (h tree htree).woven

/-! ## Single tokens -/

theorem woven_stepCall (step : Step) : Woven [.plain (.step step)] (Ruby.stepCall step).render := by
  cases step <;> exact .single _

/-- Outside of brackets a token says its text, up to glue. -/
theorem conserved_leaf {token : Token} (hspelled : token.WellSpelled)
    (htoken : token.isPlain = true ∨ token.isStep = true) : Conserved (.leaf token) := by
  have hbrace : token ≠ .opener .brace := by
    rintro rfl
    simp [Token.isPlain, Token.isStep] at htoken
  have hcells : ∀ rest, Token.cells ((leaf token).tokens ++ rest) =
      [.plain token] ++ Token.cells rest := fun rest => by simpa [tokens] using Token.cells_cons_of_ne hbrace rest
  refine .of_cells hcells ?_
  cases token with
  | opener | closer => simp [Token.isPlain, Token.isStep] at htoken
  | step step => simpa [form, leafForm] using woven_stepCall step
  | arrow =>
    have hwoven := (Woven.single (.plain .arrow)).glue "->" (by decide)
    simpa [form, leafForm, Token.text, Cell.content, Token.content] using hwoven
  | operator text | string text | word text =>
    simpa [form, leafForm, Token.text, Cell.content, Token.content] using Woven.single (.plain _)
  | methodRef text =>
    obtain ⟨c, name, htext, -⟩ := hspelled
    have hrender : (leaf (.methodRef text)).form.render =
        "&:" ++ (Cell.plain (.methodRef text)).content := by
      rw [← String.toList_inj]
      simp [form, leafForm, Token.text, Cell.content, Token.content, htext]
    rw [hrender]
    exact .glue "&:" (by decide) (.single _)

theorem Conserved.stepped {tree : Tree} (h : Conserved tree) (step : Step) :
    Conserved (.stepped tree step) := by
  have hcells : ∀ rest, Token.cells ((Tree.stepped tree step).tokens ++ rest) =
      (Token.cells tree.tokens ++ [.plain (.step step)]) ++ Token.cells rest := by
    intro rest
    rw [tokens, List.append_assoc, h.apart, List.singleton_append, Token.cells_cons_of_ne (by simp)]
    simp
  refine .of_cells hcells ?_
  simpa [form] using h.woven.append (woven_stepCall step)

theorem conserved_signed (sign number : String) : Conserved (.signed sign number) := by
  refine @Conserved.of_cells _ [.plain (.operator sign), .plain (.word number)] (fun rest => ?_) ?_
  · simp [tokens, Token.cells_cons_of_ne]
  · have hsign : Woven [.plain (.operator sign)] sign := .single _
    have hnumber : Woven [.plain (.word number)] number := .single _
    simpa [form] using hsign.append hnumber

theorem tokens_subset_tokensAll {tree : Tree} {trees : List Tree} (h : tree ∈ trees) :
    tree.tokens ⊆ tokensAll trees := by
  obtain ⟨front, back, rfl⟩ := List.append_of_mem h
  intro token htoken
  simp [tokensAll_append, tokensAll, htoken]

end Tree

/-! ## Scopes -/

namespace Token.WellSpelled

variable {token : Token}

/-- Only method references start with an ampersand and a colon. -/
theorem eq_methodRef (h : token.WellSpelled) {name : List Char}
    (htext : token.text.toList = '&' :: ':' :: name) : token = .methodRef token.text := by
  have hstarts : token.text.toList.take 2 = ['&', ':'] := by simp [htext]
  cases token with
  | methodRef text => rfl
  | arrow => exact absurd hstarts (by decide)
  | opener delimiter => cases delimiter <;> exact absurd hstarts (by decide)
  | closer bracket => cases bracket <;> exact absurd hstarts (by decide)
  | step direction => cases direction <;> exact absurd hstarts (by decide)
  | operator text =>
    have hnone : ∀ text ∈ Lexeme.operators, text.toList.take 2 ≠ ['&', ':'] := by decide
    exact absurd hstarts (hnone text h)
  | string text => simp [WellSpelled, show text.toList = _ from htext] at h
  | word text =>
    obtain ⟨c, rest, hchars, hstart, -⟩ := h
    obtain ⟨rfl, -⟩ := List.cons.inj (hchars.symm.trans htext)
    exact absurd hstart (by decide)

/-- Only words read as names. -/
theorem eq_word_of_isSymbol (h : token.WellSpelled) (hsymbol : Ruby.isSymbol token.text = true) :
    token = .word token.text := by
  cases token with
  | word text => rfl
  | arrow => exact absurd hsymbol (by decide)
  | opener delimiter => cases delimiter <;> exact absurd hsymbol (by decide)
  | closer bracket => cases bracket <;> exact absurd hsymbol (by decide)
  | step direction => cases direction <;> exact absurd hsymbol (by decide)
  | operator text =>
    have hnone : ∀ text ∈ Lexeme.operators, Ruby.isSymbol text ≠ true := by decide
    exact absurd hsymbol (hnone text h)
  | string text =>
    obtain ⟨rest, hchars⟩ := List.head?_eq_some_iff.mp h
    simp [Ruby.isSymbol, Token.text, hchars] at hsymbol
  | methodRef text =>
    obtain ⟨c, name, hchars, -⟩ := h
    simp [Ruby.isSymbol, Token.text, hchars] at hsymbol

end Token.WellSpelled

namespace Form

section Pairs

variable {α β : Type}

theorem pairs_map (f : α → β) (items : List α) :
    pairs (items.map f) = (pairs items).map (Prod.map f f) := by
  fun_induction pairs items with
  | case1 key value others ih => simp [pairs, ih]
  | case2 items hitems =>
    match items with
    | [] | [_] => rfl
    | key :: value :: others => exact absurd rfl (hitems key value others)

theorem flatMap_pairs (f : α → List β) {items : List α} (h : Even items.length) :
    ((pairs items).flatMap fun entry => f entry.1 ++ f entry.2) = items.flatMap f := by
  fun_induction pairs items with
  | case1 key value others ih =>
    have hothers : Even others.length := by simpa [Nat.even_add_one, parity_simps] using h
    simp [ih hothers]
  | case2 items hitems =>
    match items with
    | [] => rfl
    | [_] => simp at h
    | key :: value :: others => exact absurd rfl (hitems key value others)

theorem mem_of_mem_pairs {items : List α} {entry : α × α} (h : entry ∈ pairs items) :
    entry.1 ∈ items ∧ entry.2 ∈ items := by
  fun_induction pairs items with
  | case1 key value others ih =>
    rcases List.mem_cons.mp h with rfl | h
    · simp
    · obtain ⟨hfst, hsnd⟩ := ih h
      simp [hfst, hsnd]
  | case2 => simp at h

end Pairs

theorem of_methodRef?_eq_some {form : Form} {name : String} (h : form.methodRef? = some name) :
    ∃ text, form = .atom text ∧ text.toList = '&' :: ':' :: name.toList := by
  cases form with
  | group parts => simp [methodRef?, atom?] at h
  | atom text =>
    simp only [methodRef?, atom?, Option.map_some] at h
    split at h
    · next chars hchars =>
      obtain rfl := Option.some.inj h
      exact ⟨text, rfl, by simpa using hchars⟩
    · simp at h

end Form

namespace Body

variable {literal : Bool} {tokens inner : List Spanned} {trees elements : List Tree} {tree : Tree}
  {delimiter : Delimiter}

/-- Outside short literals a tree that stands for an atom is a single token, and the atom is its
text if it is no call on nothing. -/
theorem exists_leaf {text : String} (h : Body false tokens trees) (htree : tree ∈ trees)
    (hform : tree.form = .atom text) (htext : text.toList.head? ≠ some '.') :
    ∃ item ∈ tokens, tree = .leaf item.token ∧ item.token.text = text := by
  rcases h.mem_cases rfl htree with ⟨front, item, back, rfl, -, rfl⟩ | ⟨element, step, rfl⟩ |
    ⟨delimiter, elements, rfl⟩
  · cases hstep : item.token.isStep with
    | true =>
      obtain ⟨step, hitem⟩ := Token.isStep_iff.mp hstep
      rw [hitem] at hform
      cases step with
      | increment | decrement =>
        obtain rfl : _ = text := by simpa [Tree.form, Tree.leafForm, Ruby.stepCall] using hform
        exact absurd rfl htext
    | false =>
      rw [Tree.form, Tree.leafForm_eq_atom hstep] at hform
      exact ⟨item, by simp, rfl, Form.atom.inj hform⟩
  · simp [Tree.form] at hform
  · have hatom := Form.atom?_ofScope delimiter (Tree.forms elements)
    rw [Tree.form] at hform
    simp [hform, Form.atom?] at hatom

/-- The only atom that reads as a name is a word, so what stands for it alone is a single name. -/
theorem of_isSymbol {name : String} (h : Body false inner elements)
    (hspelled : ∀ item ∈ inner, item.token.WellSpelled) (hforms : Tree.forms elements = [.atom name])
    (hsymbol : Ruby.isSymbol name = true) :
    inner.map (·.token) = [.word name] ∧ (Token.word name).WellSpelled := by
  rw [Tree.forms_eq_map] at hforms
  obtain ⟨tree, rfl, hform⟩ := List.map_eq_singleton_iff.mp hforms
  obtain ⟨item, hitem, rfl, rfl⟩ := h.exists_leaf (by simp) hform (by
    intro hhead
    obtain ⟨rest, hchars⟩ := List.head?_eq_some_iff.mp hhead
    simp [Ruby.isSymbol, hchars] at hsymbol)
  have hword := (hspelled item hitem).eq_word_of_isSymbol hsymbol
  have hinner := h.tokensAll_eq
  rw [hword] at hinner
  exact ⟨hinner.symm, hword ▸ hspelled item hitem⟩

theorem isTrimmed_form (h : Body literal tokens trees)
    (htrimmed : ∀ item ∈ tokens, Text.IsTrimmed item.token.text) (htree : tree ∈ trees) :
    Text.IsTrimmed tree.form.render := by
  refine tree.isTrimmed_form fun token htoken => ?_
  have hmem := Tree.tokens_subset_tokensAll htree htoken
  rw [h.tokensAll_eq, List.mem_map] at hmem
  obtain ⟨item, hitem, rfl⟩ := hmem
  exact htrimmed item hitem

/-- A method reference alone in parentheses becomes a call on the argument. -/
theorem woven_methodRef {form : Form} {name : String} (h : Body false inner elements)
    (hspelled : ∀ item ∈ inner, item.token.WellSpelled) (hforms : Tree.forms elements = [form])
    (hname : form.methodRef? = some name) :
    Woven (Tree.cellsAll elements)
      (Ruby.lambda [Ruby.it] [.atom (Ruby.it ++ "." ++ name)]).render := by
  obtain ⟨text, rfl, htext⟩ := Form.of_methodRef?_eq_some hname
  rw [Tree.forms_eq_map] at hforms
  obtain ⟨tree, rfl, hform⟩ := List.map_eq_singleton_iff.mp hforms
  obtain ⟨item, hitem, rfl, rfl⟩ := h.exists_leaf (by simp) hform (by simp [htext])
  have htoken := (hspelled item hitem).eq_methodRef htext
  have hcells : Tree.cellsAll [.leaf item.token] = [.plain (.methodRef item.token.text)] := by
    rw [htoken]
    rfl
  have hcontent : (Cell.plain (.methodRef item.token.text)).content = name := by
    simp [Cell.content, Token.content, htext]
  have hwoven : Woven [.plain (.methodRef item.token.text)] name := hcontent ▸ .single _
  rw [hcells]
  refine .block ?_
  rw [Form.renderAll_singleton, Form.render_atom, String.append_assoc]
  exact (hwoven.glue "." (by decide)).glue "it" (by decide)

/-- The forms before an arrow become the parameters of a block, those behind it its body. -/
theorem woven_arrow {params body : List Form} (h : Body false inner elements)
    (hspelled : ∀ item ∈ inner, item.token.WellSpelled)
    (helements : ∀ tree ∈ elements, tree.Conserved)
    (hforms : Tree.forms elements = params ++ .atom "->" :: body) :
    Woven (Tree.cellsAll elements)
      (Ruby.lambda (Form.implicitParams delimiter ++ params.map Form.render) body).render := by
  rw [Tree.forms_eq_map] at hforms
  obtain ⟨front, others, rfl, rfl, hothers⟩ := List.map_eq_append_iff.mp hforms
  obtain ⟨tree, back, rfl, hform, rfl⟩ := List.map_eq_cons_iff.mp hothers
  obtain ⟨item, hitem, rfl, htext⟩ := h.exists_leaf (by simp) hform (by decide)
  have htoken := (hspelled item hitem).eq_arrow htext
  have hcells : Tree.cellsAll (front ++ .leaf item.token :: back) =
      Tree.cellsAll front ++ ([.plain .arrow] ++ Tree.cellsAll back) := by
    rw [htoken]
    simp [Tree.cellsAll, Tree.tokens, Token.cells]
  have hparams : Woven (Tree.cellsAll front) (", ".intercalate (front.map (·.form.render))) :=
    Tree.woven_intercalate fun tree htree => helements tree (by simp [htree])
  have hbody : Woven (Tree.cellsAll back) (Form.renderAll (Tree.forms back)) :=
    Tree.woven_renderAll fun tree htree => helements tree (by simp [htree])
  have harrow : Woven [.plain .arrow] "" := .single _
  rw [hcells, List.map_map, ← Tree.forms_eq_map]
  refine (hparams.implicitParams delimiter).lambda ?_
  simpa using harrow.append hbody

/-- The entries of a map literal, when every key has a value. -/
theorem woven_entries (helements : ∀ tree ∈ elements, tree.Conserved)
    (htrimmed : ∀ tree ∈ elements, Text.IsTrimmed tree.form.render) (heven : Even elements.length) :
    Woven (Tree.cellsAll elements) (", ".intercalate ((Form.pairs (Tree.forms elements)).map
      fun entry => "[" ++ Ruby.join [entry.1, entry.2] ++ "]")) := by
  rw [Tree.cellsAll, ← Form.flatMap_pairs _ heven, Tree.forms_eq_map, Form.pairs_map, List.map_map]
  refine .intercalate fun entry hentry => ?_
  obtain ⟨hkey, hvalue⟩ := Form.mem_of_mem_pairs hentry
  have hjoin : Ruby.join [entry.1.form, entry.2.form] =
      entry.1.form.render ++ (", " ++ entry.2.form.render) := by
    rw [Ruby.join_eq (by simp [htrimmed entry.1 hkey, htrimmed entry.2 hvalue])]
    simp [String.append_assoc]
  have hwoven := (helements entry.1 hkey).woven.append
    ((helements entry.2 hvalue).woven.glue ", " (by decide))
  rw [Function.comp_apply, Prod.map_fst, Prod.map_snd, hjoin]
  exact (hwoven.glue "[" (by decide)).snoc "]" (by decide)

/-- What a scope stands for is woven from the cells of its elements, unless it is braces around a
single name. -/
theorem woven_ofScope (h : Body delimiter.isShortLiteral inner elements)
    (hspelled : ∀ item ∈ inner, item.token.WellSpelled)
    (htrimmed : ∀ item ∈ inner, Text.IsTrimmed item.token.text)
    (heven : delimiter = .shortMap → Even elements.length)
    (helements : ∀ tree ∈ elements, tree.Conserved)
    (hplain : ∀ name, delimiter = .brace → inner.map (·.token) = [.word name] →
      Ruby.isSymbol name = false) :
    Woven (Tree.cellsAll elements) (Form.ofScope delimiter (Tree.forms elements)).render := by
  have hrow := Tree.woven_renderAll helements
  have hrule := Form.rule_ofScope delimiter (Tree.forms elements)
  generalize hforms : Tree.forms elements = forms at hrule hrow ⊢
  generalize Form.ofScope delimiter forms = form at hrule
  cases hrule with
  | receiver => exact .block (hrow.glue "it" (by decide))
  | methodRef refers => exact h.woven_methodRef hspelled hforms refers
  | arrow takes =>
    have hliteral : delimiter.isShortLiteral = false := by rcases takes with rfl | rfl <;> rfl
    rw [hliteral] at h
    exact h.woven_arrow hspelled helements hforms
  | paren => exact hrow.wrap (by decide) (by decide)
  | bracket => exact hrow.wrap (by decide) (by decide)
  | @dispatch name symbol =>
    obtain ⟨hinner, -⟩ := h.of_isSymbol hspelled hforms symbol
    rw [hplain _ rfl hinner] at symbol
    exact absurd symbol (by decide)
  | block => exact .block hrow
  | shortMap =>
    have hentries := woven_entries helements (fun tree htree => h.isTrimmed_form htrimmed htree)
      (heven rfl)
    rw [hforms] at hentries
    exact .wrap (by simpa using hentries) (by decide) (by decide)
  | shortArray =>
    have hjoin : Ruby.join forms = ", ".intercalate (elements.map (·.form.render)) := by
      rw [← hforms, Tree.forms_eq_map, Ruby.join_eq, List.map_map]
      · rfl
      · intro form hform
        obtain ⟨tree, htree, rfl⟩ := List.mem_map.mp hform
        exact h.isTrimmed_form htrimmed htree
    have hwoven := Tree.woven_intercalate helements
    rw [← hjoin] at hwoven
    exact .wrap (by simpa using hwoven) (by decide) (by decide)

/-- A scope is conserved when its elements are. -/
theorem conserved_scope (h : Body delimiter.isShortLiteral inner elements)
    (hspelled : ∀ item ∈ inner, item.token.WellSpelled)
    (htrimmed : ∀ item ∈ inner, Text.IsTrimmed item.token.text)
    (heven : delimiter = .shortMap → Even elements.length)
    (helements : ∀ tree ∈ elements, tree.Conserved) :
    (Tree.scope delimiter elements).Conserved := by
  by_cases hdispatch : ∃ name, delimiter = .brace ∧ inner.map (·.token) = [.word name] ∧
      Ruby.isSymbol name = true
  · obtain ⟨name, rfl, hinner, hsymbol⟩ := hdispatch
    obtain ⟨item, rfl, hitem⟩ := List.map_eq_singleton_iff.mp hinner
    have hleaf : Body false ([] ++ [item]) ([] ++ [.leaf item.token]) :=
      .leaf .nil (by simp [hitem, Token.isPlain]) (by simp)
    obtain rfl : elements = [.leaf (.word name)] := by simpa [hitem] using h.unique hleaf
    refine @Tree.Conserved.of_cells _ [.dispatch name] (fun rest => ?_) ?_
    · simp [Tree.tokens, Tree.tokensAll, Token.cells, hsymbol, Delimiter.closer]
    · have hform : (Tree.scope .brace [.leaf (.word name)]).form =
          Ruby.lambda [Ruby.it] [.atom (Ruby.dispatch name)] := by
        simp [Tree.form, Tree.forms, Tree.leafForm, Form.ofScope, Form.ofBrace, Token.text, hsymbol]
      rw [hform]
      exact .block (by simpa [Cell.content] using Woven.single (.dispatch name))
  · have hplain : ∀ name, delimiter = .brace → inner.map (·.token) = [.word name] →
        Ruby.isSymbol name = false := by
      intro name hbrace hinner
      by_contra hsymbol
      exact hdispatch ⟨name, hbrace, hinner, by simpa using hsymbol⟩
    have hcells : ∀ rest, Token.cells ((Tree.scope delimiter elements).tokens ++ rest) =
        (.plain (.opener delimiter) :: Tree.cellsAll elements ++
          [.plain (.closer delimiter.closer)]) ++ Token.cells rest := by
      intro rest
      have hcloser : Token.cells (.closer delimiter.closer :: rest) =
          .plain (.closer delimiter.closer) :: Token.cells rest :=
        Token.cells_cons_of_ne (by simp) rest
      have hscope := Token.cells_scope delimiter.closer h.balanced hplain rest
      rw [← h.tokensAll_eq, Tree.cells_tokensAll helements, hcloser] at hscope
      simpa [Tree.tokens] using hscope
    have hwoven := h.woven_ofScope hspelled htrimmed heven helements hplain
    refine .of_cells hcells ?_
    rw [Tree.form]
    exact hwoven.brackets delimiter delimiter.closer

end Body

/-! ## Whole sources -/

/-- Tokens as they are read from a source: each is spelled as its kind says, and each but the last is
trimmed. -/
structure Legible (tokens : List Spanned) : Prop where
  spelled : ∀ item ∈ tokens, item.token.WellSpelled
  trimmed : ∀ item ∈ tokens.dropLast, Text.IsTrimmed item.token.text

namespace Legible

variable {tokens front back : List Spanned}

theorem of_tokenize {source : String} (h : tokenize source = .ok tokens) : Legible tokens :=
  ⟨tokenize_wellSpelled h, tokenize_isTrimmed h⟩

theorem trimmed_of_append (h : Legible (front ++ back)) (hback : back ≠ []) :
    ∀ item ∈ front, Text.IsTrimmed item.token.text := by
  intro item hitem
  refine h.trimmed item ?_
  rw [List.dropLast_append_of_ne_nil hback]
  exact List.mem_append_left _ hitem

theorem of_append (h : Legible (front ++ back)) : Legible front := by
  refine ⟨fun item hitem => h.spelled item (List.mem_append_left _ hitem), fun item hitem => ?_⟩
  cases back with
  | nil => exact h.trimmed item (by simpa using hitem)
  | cons next back => exact h.trimmed_of_append (by simp) item (List.dropLast_subset _ hitem)

/-- The closer stands behind the tokens of a scope, so all of them are trimmed. -/
theorem of_scope {inner : List Spanned} {opener closer : Spanned}
    (h : Legible (front ++ opener :: (inner ++ [closer]))) :
    Legible inner ∧ ∀ item ∈ inner, Text.IsTrimmed item.token.text := by
  have hsplit : front ++ opener :: (inner ++ [closer]) =
      (front ++ opener :: inner) ++ [closer] := by simp
  have htrimmed : ∀ item ∈ inner, Text.IsTrimmed item.token.text := fun item hitem =>
    (hsplit ▸ h).trimmed_of_append (by simp) item (by simp [hitem])
  exact ⟨⟨fun item hitem => h.spelled item (by simp [hitem]),
    fun item hitem => htrimmed item (List.dropLast_subset _ hitem)⟩, htrimmed⟩

end Legible

/-- Every tree of a body is conserved. -/
theorem Body.conserved {literal : Bool} {tokens : List Spanned} {trees : List Tree}
    (h : Body literal tokens trees) (hlegible : Legible tokens) :
    ∀ tree ∈ trees, tree.Conserved := by
  induction h with
  | nil => simp
  | leaf _ plain _ ih =>
    have hleaf := Tree.conserved_leaf (hlegible.spelled _ (by simp)) (.inl plain)
    simpa [or_imp, forall_and] using ⟨ih hlegible.of_append, hleaf⟩
  | lone _ token _ ih =>
    have hstep := Token.isStep_iff.mpr ⟨_, token⟩
    have hleaf := Tree.conserved_leaf (hlegible.spelled _ (by simp)) (.inr hstep)
    simpa [or_imp, forall_and] using ⟨ih hlegible.of_append, hleaf⟩
  | @stepped _ _ trees tree _ step _ _ _ ih =>
    obtain ⟨htrees, htree⟩ : (∀ other ∈ trees, other.Conserved) ∧ tree.Conserved := by
      simpa [or_imp, forall_and] using ih hlegible.of_append
    simpa [or_imp, forall_and] using ⟨htrees, htree.stepped step⟩
  | @signed _ trees _ sign number _ _ _ ih =>
    have htrees : ∀ other ∈ trees, other.Conserved :=
      fun other hother => ih hlegible.of_append other (by simp [hother])
    simpa [or_imp, forall_and] using ⟨htrees, Tree.conserved_signed sign number⟩
  | @scope _ front inner _ _ opener closer _ _ body _ _ pairs ih ihBody =>
    obtain ⟨hinner, htrimmed⟩ := hlegible.of_scope
    have hscope := body.conserved_scope hinner.spelled htrimmed pairs (ihBody hinner)
    simpa [or_imp, forall_and] using ⟨ih hlegible.of_append, hscope⟩

/-- Whatever a source is desugared to is woven from its tokens: none is lost, moved or altered, and
nothing but glue is put between them. -/
theorem desugar_woven {source text : String} {limit : Nat} (h : desugar source limit = .ok text) :
    ∃ tokens, tokenize source = .ok tokens ∧ Woven (Token.cells (tokens.map (·.token))) text := by
  obtain ⟨tokens, trees, htokens, hdocument, rfl⟩ := exists_trees_of_desugar_eq_ok h
  refine ⟨tokens, htokens, ?_⟩
  have hbody := Parser.body_of_document_eq_ok hdocument
  have hconserved := hbody.conserved (.of_tokenize htokens)
  have hcells := Tree.cells_tokensAll hconserved []
  rw [hbody.tokensAll_eq, List.append_nil, Token.cells, List.append_nil] at hcells
  rw [hcells]
  exact Tree.woven_renderAll hconserved

/-- The tokens of `\h{k {up} "a b" (x -> x ++)}`. -/
def dispatchMap : List Spanned :=
  [⟨.opener .shortMap, ⟨0, 3⟩⟩, ⟨.word "k", ⟨3, 4⟩⟩, ⟨.opener .brace, ⟨5, 6⟩⟩, ⟨.word "up", ⟨6, 8⟩⟩,
   ⟨.closer .curly, ⟨8, 9⟩⟩, ⟨.string "\"a b\"", ⟨10, 15⟩⟩, ⟨.opener .paren, ⟨16, 17⟩⟩,
   ⟨.word "x", ⟨17, 18⟩⟩, ⟨.arrow, ⟨19, 21⟩⟩, ⟨.word "x", ⟨22, 23⟩⟩, ⟨.step .increment, ⟨24, 26⟩⟩,
   ⟨.closer .round, ⟨26, 27⟩⟩, ⟨.closer .curly, ⟨27, 28⟩⟩]

/-- A map with a dispatch, a string and a lambda in it. -/
theorem desugar_woven_dispatchMap :
    ∃ text, desugar "\\h\x7bk \x7bup\x7d \"a b\" (x -> x ++)\x7d" 2 = .ok text ∧
      text = "[[k, \x7b|it|" ++ Ruby.dispatch "up" ++ "\x7d], [\"a b\", \x7b|x|x.succ\x7d]].to_h" ∧
      Woven
        [.plain (.opener .shortMap), .plain (.word "k"), .dispatch "up", .plain (.string "\"a b\""),
         .plain (.opener .paren), .plain (.word "x"), .plain .arrow, .plain (.word "x"),
         .plain (.step .increment), .plain (.closer .round), .plain (.closer .curly)] text := by
  have h : desugar "\\h\x7bk \x7bup\x7d \"a b\" (x -> x ++)\x7d" 2 =
      .ok ("[[k, \x7b|it|" ++ Ruby.dispatch "up" ++ "\x7d], [\"a b\", \x7b|x|x.succ\x7d]].to_h") :=
    eq_ok_of_toOption_eq_some (by decide +kernel)
  have htokens : tokenize "\\h\x7bk \x7bup\x7d \"a b\" (x -> x ++)\x7d" = .ok dispatchMap :=
    eq_ok_of_toOption_eq_some (by decide +kernel)
  obtain ⟨tokens, htokens', hwoven⟩ := desugar_woven h
  obtain rfl : dispatchMap = tokens := Except.ok.inj (htokens.symm.trans htokens')
  exact ⟨_, h, rfl, hwoven⟩

end Desugar
