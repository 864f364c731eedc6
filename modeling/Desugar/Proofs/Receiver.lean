import Desugar.Proofs.Arrow

/-!
# Calls on an implicit receiver

Parentheses that start with a call on nothing, such as `(.gsub a b)`, are a block that makes the call
on its argument.  On the forms of a scope this is `isBareCall` of the first one; here it is said on the
tokens of the source, where a call on nothing is a word that starts with a dot.

## The step behind the call

A step operator right behind that word goes to it.  The first form is then the stepped call and no
atom, and the parentheses are read as if they started with any other element: they look for an arrow
and are kept where they have none.  `desugar_receiver_iff` says that nothing else that follows the
word keeps it from being found.
-/

namespace Desugar

open Brackets

namespace Form

/-- The text of a block that does what `forms` say on its argument. -/
def receiverText (forms : List Form) : String :=
  lambdaText [Ruby.it] (Ruby.it ++ renderAll forms)

theorem render_ofParen_of_isBareCall {first : Form} (h : first.isBareCall = true)
    (others : List Form) : (ofParen (first :: others)).render = receiverText (first :: others) := by
  have hlambda : ofParen (first :: others) =
      Ruby.lambda [Ruby.it] (.atom Ruby.it :: first :: others) := by
    simp [ofParen, h]
  rw [hlambda, render_lambda, renderAll_cons, render_atom, receiverText]

/-- A lambda whose parameters start with a dot is no block on `it`. -/
theorem lambdaText_ne_receiverText {param : String} (hparam : param.toList.head? = some '.')
    (params : List String) (body : String) (forms : List Form) :
    lambdaText (param :: params) body ≠ receiverText forms := by
  intro h
  obtain ⟨rest, hrest⟩ := exists_intercalate_eq ", " param params
  obtain ⟨cs, hcs⟩ := List.head?_eq_some_iff.mp hparam
  have hlist := congrArg String.toList h
  simp [receiverText, lambdaText, hrest, hcs, Ruby.it] at hlist

/-- Parentheses whose first form is no atom make no block on `it` when that form starts with a
dot. -/
theorem render_ofParen_ne {first : Form} (hfirst : first.atom? = none)
    (hdot : first.render.toList.head? = some '.') (others forms : List Form) :
    (ofParen (first :: others)).render ≠ receiverText forms := by
  have hbare : (first :: others).head?.any isBareCall = false := by
    simp [isBareCall, hfirst]
  have hsplit : ofParen (first :: others) = ofSplit .paren (first :: others) :=
    @ofScope_eq_ofSplit [] others first .paren (.inr hfirst) (.inr ⟨rfl, hbare⟩)
  have hforms : splitArrow (first :: others) =
      (splitArrow others).map fun sides => (first :: sides.1, sides.2) := by
    simp [splitArrow, hfirst]
  rw [hsplit]
  cases hothers : splitArrow others with
  | some sides =>
    have hlambda : ofSplit .paren (first :: others) =
        Ruby.lambda (first.render :: sides.1.map render) sides.2 := by
      simp [ofSplit, hforms, hothers, implicitParams]
    rw [hlambda, render_lambda]
    exact lambdaText_ne_receiverText hdot _ _ _
  | none =>
    have hwrap : ofSplit .paren (first :: others) = Ruby.wrap "(" (first :: others) ")" := by
      simp [ofSplit, hforms, hothers]
    intro heq
    have hlist := congrArg String.toList heq
    simp [hwrap, Ruby.wrap, receiverText, lambdaText] at hlist

end Form

/-- Parentheses whose first token is a call on nothing make it on the argument of a block, unless a
step operator stands right behind it. -/
theorem Body.receiver_iff {item : Spanned} {rest : List Spanned} {elements : List Tree}
    {name : String} (h : Body false (item :: rest) elements) (hitem : item.token = .word name)
    (hname : name.toList.head? = some '.') :
    (Tree.scope .paren elements).form.render = Form.receiverText (Tree.forms elements) ↔
      ∀ next ∈ rest.head?, next.token.isStep = false := by
  -- the step operators right behind the word are taken for steps of it
  obtain ⟨steps, back, rfl, hsteps, hback⟩ := exists_leading_steps rest
  rw [← List.nil_append (item :: _)] at h
  obtain ⟨front, others, hfront, -, rfl⟩ :=
    h.plain_elements rfl (by simp [hitem, Token.isPlain]) hsteps hback
  obtain rfl := hfront.trees_eq_nil
  have hforms : Tree.forms ([] ++ (Tree.leaf item.token).steppedAll steps :: others) =
      ((Tree.leaf (.word name)).steppedAll steps).form :: Tree.forms others := by
    simp [Tree.forms, hitem]
  rw [Tree.form, hforms, Form.ofScope]
  cases steps with
  | nil =>
    have hbare : ((Tree.leaf (.word name)).steppedAll []).form.isBareCall = true :=
      Form.isBareCall_atom_iff.mpr hname
    exact iff_of_true (Form.render_ofParen_of_isBareCall hbare _) hback
  | cons step steps =>
    have hatom := (Tree.leaf (.word name)).atom?_form_steppedAll (List.cons_ne_nil step steps)
    obtain ⟨calls, hcalls⟩ := (Tree.leaf (.word name)).exists_render_steppedAll (step :: steps)
    have hdot : ((Tree.leaf (.word name)).steppedAll (step :: steps)).form.render.toList.head? =
        some '.' := by
      obtain ⟨cs, hcs⟩ := List.head?_eq_some_iff.mp hname
      simp [hcalls, Tree.form, Tree.leafForm, Token.text, hcs]
    refine iff_of_false (Form.render_ofParen_ne hatom hdot _ _) fun hall => ?_
    simpa [hsteps step (by simp)] using hall step (by simp)

/-- In a source that is desugared, closed parentheses whose first token is a word that starts with a
dot are rendered as a block that appends the text of all their elements to its argument, unless the
token right behind that word is a step operator. -/
theorem desugar_receiver_iff {source text name : String} {limit first : Nat} {item : Spanned}
    {tokens rest : List Spanned} (h : desugar source limit = .ok text)
    (htokens : tokenize source = .ok tokens) (hpair : Pair tokens .paren first (item :: rest))
    (hitem : item.token = .word name) (hname : name.toList.head? = some '.') :
    ∃ trees elements,
      (Parser.start tokens limit).document.1 = .ok trees ∧
      text = Form.renderAll (Tree.forms trees) ∧
      ⟨.paren, first, elements⟩ ∈ Tree.nodesAll 0 trees ∧
      Body false (item :: rest) elements ∧
      ((Tree.scope .paren elements).form.render = Form.receiverText (Tree.forms elements) ↔
        ∀ next ∈ rest.head?, next.token.isStep = false) := by
  obtain ⟨trees, elements, htrees, htext, hnode, helements⟩ :=
    exists_node_of_desugar_eq_ok h htokens hpair
  exact ⟨trees, elements, htrees, htext, hnode, helements, helements.receiver_iff hitem hname⟩

/-- The tokens of `(.a (.b ++ c))`. -/
def nestedCalls : List Spanned :=
  [⟨.opener .paren, ⟨0, 1⟩⟩, ⟨.word ".a", ⟨1, 3⟩⟩, ⟨.opener .paren, ⟨4, 5⟩⟩, ⟨.word ".b", ⟨5, 7⟩⟩,
   ⟨.step .increment, ⟨8, 10⟩⟩, ⟨.word "c", ⟨11, 12⟩⟩, ⟨.closer .round, ⟨12, 13⟩⟩,
   ⟨.closer .round, ⟨13, 14⟩⟩]

/-- The outer parentheses are a block; the inner ones, which step their call, are not. -/
theorem desugar_receiver_iff_nestedCalls :
    desugar "(.a (.b ++ c))" 2 = .ok "\x7b|it|it.a(.b.succc)\x7d" ∧
      (∃ elements, Body false (nestedCalls.extract 1 7) elements ∧
        (Tree.scope .paren elements).form.render = Form.receiverText (Tree.forms elements)) ∧
      ∃ elements, Body false (nestedCalls.extract 3 6) elements ∧
        (Tree.scope .paren elements).form.render ≠ Form.receiverText (Tree.forms elements) := by
  have h : desugar "(.a (.b ++ c))" 2 = .ok "\x7b|it|it.a(.b.succc)\x7d" :=
    eq_ok_of_toOption_eq_some (by decide +kernel)
  have htokens : tokenize "(.a (.b ++ c))" = .ok nestedCalls :=
    eq_ok_of_toOption_eq_some (by decide +kernel)
  refine ⟨h, ?_, ?_⟩
  · have hinner := (Parser.body_of_document_eq_ok
      (rfl : (Parser.start (nestedCalls.extract 1 7) 2).document.1 = .ok _)).balanced
    have hpair : Pair nestedCalls .paren 1 (nestedCalls.extract 1 7) :=
      ⟨[], _, _, [], rfl, rfl, rfl, rfl, hinner⟩
    obtain ⟨_, elements, -, -, -, helements, hiff⟩ :=
      desugar_receiver_iff h htokens hpair rfl (by decide)
    exact ⟨elements, helements, hiff.mpr (by decide)⟩
  · have hinner := (Parser.body_of_document_eq_ok
      (rfl : (Parser.start (nestedCalls.extract 3 6) 2).document.1 = .ok _)).balanced
    have hpair : Pair nestedCalls .paren 3 (nestedCalls.extract 3 6) :=
      ⟨nestedCalls.take 2, _, _, nestedCalls.drop 7, rfl, rfl, rfl, rfl, hinner⟩
    obtain ⟨_, elements, -, -, -, helements, hiff⟩ :=
      desugar_receiver_iff h htokens hpair rfl (by decide)
    exact ⟨elements, helements, fun heq => absurd (hiff.mp heq) (by decide)⟩

end Desugar
