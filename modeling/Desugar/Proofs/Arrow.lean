import Desugar.Proofs.Nodes
import Desugar.Proofs.Spelling

/-!
# What an arrow makes of a scope

Parentheses and braces with an arrow at their own level are lambdas: what stands before the first
such arrow are the parameters, and what stands behind it is the body.  On the forms of a scope this
is `splitArrow`; here it is said on the tokens of the source.

## The step behind the arrow

A step operator goes to the element before it, and an arrow is an element like any other.  So an
arrow with a step operator behind it is no arrow to the scope any more: it is a stepped element, and
the scope is read as if that arrow were one of its names.  `desugar_lambda_iff` says that this is the
only way for an arrow to be missed.
-/

namespace Desugar

open Brackets

/-! ## Forms with an arrow -/

namespace Form

@[simp]
theorem atom?_ofScope (delimiter : Delimiter) (forms : List Form) :
    (ofScope delimiter forms).atom? = none := by
  cases delimiter with
  | paren =>
    simp only [ofScope, ofParen]
    split
    · rfl
    · split
      · rfl
      · split <;> rfl
  | brace =>
    have hblock : ∀ forms, (ofBlock forms).atom? = none := by
      intro forms
      unfold ofBlock
      split <;> rfl
    simp only [ofScope]
    unfold ofBrace
    split
    · split
      · rfl
      · exact hblock _
    · exact hblock _
  | bracket => rfl
  | shortMap => rfl
  | shortArray => rfl

theorem isBareCall_atom_iff {text : String} :
    (atom text).isBareCall = true ↔ text.toList.head? = some '.' := by
  simp only [isBareCall, atom?, Option.map_some]
  split
  · next cs hcs => simp [Option.some.inj hcs]
  · next hnone =>
    refine iff_of_false (by simp) fun hhead => ?_
    obtain ⟨cs, hcs⟩ := List.head?_eq_some_iff.mp hhead
    exact hnone cs (by rw [hcs])

theorem splitArrow_arrow (forms : List Form) :
    splitArrow (.atom "->" :: forms) = some ([], forms) := by
  simp [splitArrow, atom?, Token.text]

/-- Forms that are no arrow go to the side before the arrow. -/
theorem splitArrow_append {front : List Form} (h : ∀ form ∈ front, form.atom? ≠ some "->")
    (back : List Form) :
    splitArrow (front ++ back) = (splitArrow back).map fun sides => (front ++ sides.1, sides.2) := by
  induction front with
  | nil => simp
  | cons form front ih =>
    have hform : form.atom? ≠ some Token.arrow.text := h form (by simp)
    rw [List.cons_append, splitArrow, if_neg hform, ih fun other hother => h other (by simp [hother]),
      Option.map_map]
    rfl

/-- A form that neither refers to a method nor is a name: an arrow, or what is no atom. -/
def IsArrowLike (form : Form) : Prop :=
  form = .atom "->" ∨ form.atom? = none

theorem IsArrowLike.methodRef?_eq_none {form : Form} (h : form.IsArrowLike) :
    form.methodRef? = none := by
  rcases h with rfl | hnone
  · rfl
  · simp [methodRef?, hnone]

variable {front back : List Form} {middle : Form}

theorem soleMethodRef?_eq_none (h : middle.IsArrowLike) :
    soleMethodRef? (front ++ middle :: back) = none := by
  unfold soleMethodRef?
  split
  · next form hforms =>
    obtain ⟨-, rfl, -⟩ : front = [] ∧ middle = form ∧ back = [] := by
      simpa [List.append_eq_singleton_iff] using hforms
    exact h.methodRef?_eq_none
  · rfl

theorem ofBrace_eq_ofBlock (h : middle.IsArrowLike) :
    ofBrace (front ++ middle :: back) = ofBlock (front ++ middle :: back) := by
  unfold ofBrace
  split
  · next name hforms =>
    obtain ⟨-, rfl, -⟩ : front = [] ∧ middle = .atom name ∧ back = [] := by
      simpa [List.append_eq_singleton_iff] using hforms
    obtain rfl : name = "->" := by simpa [IsArrowLike, atom?] using h
    rw [if_neg (by decide), hforms]
  · rfl

/-- The parameter that every block in braces has. -/
def implicitParams : Delimiter → List String
  | .brace => [Ruby.it]
  | _ => []

/-- What a scope stands for that looks for an arrow: a lambda when there is one. -/
def ofSplit (delimiter : Delimiter) (forms : List Form) : Form :=
  match splitArrow forms with
  | some (params, body) => Ruby.lambda (implicitParams delimiter ++ params.map render) body
  | none => match delimiter with
    | .brace => Ruby.lambda [Ruby.it] forms
    | _ => Ruby.wrap "(" forms ")"

/-- Braces, and parentheses that start with no call on nothing, look for an arrow if one of their
forms is like one. -/
theorem ofScope_eq_ofSplit {delimiter : Delimiter} (hmiddle : middle.IsArrowLike)
    (hdelimiter : delimiter = .brace ∨ delimiter = .paren ∧
      (front ++ middle :: back).head?.any isBareCall = false) :
    ofScope delimiter (front ++ middle :: back) = ofSplit delimiter (front ++ middle :: back) := by
  rcases hdelimiter with rfl | ⟨rfl, hbare⟩
  · simp only [ofScope, ofBrace_eq_ofBlock hmiddle, ofBlock, ofSplit, implicitParams]
    rfl
  · simp only [ofScope, ofParen, hbare, soleMethodRef?_eq_none hmiddle, ofSplit, implicitParams]
    rfl

/-! ## The text of a lambda -/

/-- The text of a lambda: its parameters between bars, with commas, and its body. -/
def lambdaText (params : List String) (body : String) : String :=
  "\x7b|" ++ ", ".intercalate params ++ "|" ++ body ++ "\x7d"

theorem render_lambda (params : List String) (body : List Form) :
    (Ruby.lambda params body).render = lambdaText params (renderAll body) := by
  simp [Ruby.lambda, Ruby.wrap, lambdaText, renderAll_append, String.append_assoc]

/-- More parameters make another text. -/
theorem lambdaText_append_ne {params more : List String} (hparams : params ≠ []) (hmore : more ≠ [])
    (body body' : String) : lambdaText (params ++ more) body ≠ lambdaText params body' := by
  intro h
  have hlist := congrArg String.toList h
  simp [lambdaText, String.intercalate_append_of_ne_nil hparams hmore] at hlist

theorem exists_intercalate_eq (separator first : String) (others : List String) :
    ∃ rest, separator.intercalate (first :: others) = first ++ rest := by
  cases others with
  | nil => exact ⟨"", by simp⟩
  | cons second others =>
    exact ⟨_, by rw [String.intercalate_cons_cons, String.append_assoc]⟩

theorem lambdaText_cons_ne {param : String} (hparam : param.toList.head? = some '-')
    (params : List String) (body body' : String) :
    lambdaText (param :: params) body ≠ lambdaText [] body' := by
  intro h
  obtain ⟨rest, hrest⟩ := exists_intercalate_eq ", " param params
  obtain ⟨cs, hcs⟩ := List.head?_eq_some_iff.mp hparam
  have hlist := congrArg String.toList h
  simp [lambdaText, hrest, hcs] at hlist

theorem render_ofSplit_arrow {delimiter : Delimiter}
    (hfront : ∀ form ∈ front, form.atom? ≠ some "->") :
    (ofSplit delimiter (front ++ .atom "->" :: back)).render =
      lambdaText (implicitParams delimiter ++ front.map render) (renderAll back) := by
  have hsplit : splitArrow (front ++ .atom "->" :: back) = some (front, back) := by
    simp [splitArrow_append hfront, splitArrow_arrow]
  simp only [ofSplit, hsplit, render_lambda]

/-- Forms in which something else stands at the arrow's place do not make the lambda. -/
theorem render_ofSplit_ne {delimiter : Delimiter} {body : String}
    (hfront : ∀ form ∈ front, form.atom? ≠ some "->") (hmiddle : middle.atom? = none)
    (hrender : middle.render.toList.head? = some '-') (hbody : body.toList.head? = some '.') :
    (ofSplit delimiter (front ++ middle :: back)).render ≠
      lambdaText (implicitParams delimiter ++ front.map render) body := by
  have hsplit : splitArrow (front ++ middle :: back) =
      (splitArrow back).map fun sides => (front ++ middle :: sides.1, sides.2) := by
    rw [List.append_cons, splitArrow_append (by simpa [or_imp, forall_and, hmiddle] using hfront)]
    simp
  cases hback : splitArrow back with
  | some sides =>
    -- a later arrow makes a lambda with more parameters
    have hlambda : ofSplit delimiter (front ++ middle :: back) =
        Ruby.lambda ((implicitParams delimiter ++ front.map render) ++
          middle.render :: sides.1.map render) sides.2 := by
      simp [ofSplit, hsplit, hback]
    rw [hlambda, render_lambda]
    by_cases hparams : implicitParams delimiter ++ front.map render = []
    · rw [hparams, List.nil_append]
      exact lambdaText_cons_ne hrender _ _ _
    · exact lambdaText_append_ne hparams (by simp) _ _
  | none =>
    by_cases hbrace : delimiter = .brace
    · subst hbrace
      have hlambda : ofSplit .brace (front ++ middle :: back) =
          Ruby.lambda [Ruby.it] (front ++ middle :: back) := by
        simp [ofSplit, hsplit, hback]
      rw [hlambda, render_lambda]
      by_cases hempty : front = []
      · -- the two bodies start with different characters
        subst hempty
        obtain ⟨cs, hcs⟩ := List.head?_eq_some_iff.mp hrender
        obtain ⟨cs', hcs'⟩ := List.head?_eq_some_iff.mp hbody
        intro heq
        have hlist := congrArg String.toList heq
        simp [lambdaText, implicitParams, hcs, hcs'] at hlist
      · exact (lambdaText_append_ne (by simp) (by simpa using hempty) _ _).symm
    · have hwrap : ofSplit delimiter (front ++ middle :: back) =
          Ruby.wrap "(" (front ++ middle :: back) ")" := by
        simp [ofSplit, hsplit, hback]
      intro heq
      have hlist := congrArg String.toList heq
      simp [hwrap, Ruby.wrap, lambdaText] at hlist

end Form

/-! ## Arrows among the tokens -/

namespace Brackets

/-- The tokens of a scope fall into those before the first arrow at the scope's own level and those
behind it. -/
structure FirstArrow (tokens before after : List Spanned) : Prop where
  cut : ∃ arrow, tokens = before ++ arrow :: after ∧ arrow.token = .arrow
  ownLevel : unclosed before = []
  first : ∀ index (h : index < before.length), unclosed (before.take index) = [] →
    before[index].token ≠ .arrow

/-- The scopes that look for an arrow: braces, and parentheses whose first token is neither a word
that starts with a dot nor a step operator. -/
def TakesArrow : Delimiter → List Spanned → Prop
  | .brace, _ => True
  | .paren, inner => ∀ item ∈ inner.head?, item.token.isStep = false ∧
      ∀ text, item.token = .word text → text.toList.head? ≠ some '.'
  | _, _ => False

end Brackets

/-- The tree with the step operators behind it. -/
def Tree.steppedAll (tree : Tree) (steps : List Spanned) : Tree :=
  steps.foldl (fun tree item => .stepped tree item.token.toStep) tree

theorem Tree.atom?_form_steppedAll (tree : Tree) {steps : List Spanned} (hsteps : steps ≠ []) :
    (tree.steppedAll steps).form.atom? = none := by
  rcases List.eq_nil_or_concat' steps with rfl | ⟨steps, last, rfl⟩
  · exact absurd rfl hsteps
  · simp [Tree.steppedAll, Tree.form, Form.atom?]

/-- Step operators add to the end of a text. -/
theorem Tree.exists_render_steppedAll (tree : Tree) (steps : List Spanned) :
    ∃ calls, (tree.steppedAll steps).form.render = tree.form.render ++ calls := by
  induction steps generalizing tree with
  | nil => exact ⟨"", by simp [Tree.steppedAll]⟩
  | cons item steps ih =>
    obtain ⟨calls, hcalls⟩ := ih (.stepped tree item.token.toStep)
    refine ⟨(Ruby.stepCall item.token.toStep).render ++ calls, ?_⟩
    rw [Tree.steppedAll, List.foldl_cons, ← Tree.steppedAll, hcalls]
    simp [Tree.form, String.append_assoc]

namespace Body

variable {literal : Bool} {tokens : List Spanned} {trees : List Tree}

/-- Outside short literals a tree is a token at the scope's own level, or it has a step or brackets
around it. -/
theorem mem_cases (h : Body literal tokens trees) (hliteral : literal = false) {tree : Tree}
    (htree : tree ∈ trees) :
    (∃ front item back, tokens = front ++ item :: back ∧ unclosed front = [] ∧
      tree = .leaf item.token) ∨
    (∃ element step, tree = .stepped element step) ∨
    ∃ delimiter elements, tree = .scope delimiter elements := by
  -- what holds of the tokens before the last ones holds of all
  have widen : ∀ {tokens : List Spanned} (more : List Spanned),
      (∃ front item back, tokens = front ++ item :: back ∧ unclosed front = [] ∧
        tree = .leaf item.token) →
      ∃ front item back, tokens ++ more = front ++ item :: back ∧ unclosed front = [] ∧
        tree = .leaf item.token := by
    rintro tokens more ⟨front, item, back, rfl, hfront, rfl⟩
    exact ⟨front, item, back ++ more, by simp, hfront, rfl⟩
  induction h with
  | nil => simp at htree
  | leaf before _ _ ih =>
    rcases List.mem_append.mp htree with htree | htree
    · exact (ih hliteral htree).imp_left (widen _)
    · exact .inl ⟨_, _, [], rfl, before.balanced.unclosed_eq_nil, List.mem_singleton.mp htree⟩
  | lone before _ _ ih =>
    rcases List.mem_append.mp htree with htree | htree
    · exact (ih hliteral htree).imp_left (widen _)
    · exact .inl ⟨_, _, [], rfl, before.balanced.unclosed_eq_nil, List.mem_singleton.mp htree⟩
  | stepped _ _ _ ih =>
    rcases List.mem_append.mp htree with htree | htree
    · exact (ih hliteral (List.mem_append_left _ htree)).imp_left (widen _)
    · exact .inr (.inl ⟨_, _, List.mem_singleton.mp htree⟩)
  | signed => simp at hliteral
  | scope _ _ _ _ _ ih _ =>
    rcases List.mem_append.mp htree with htree | htree
    · exact (ih hliteral htree).imp_left (widen _)
    · exact .inr (.inr ⟨_, _, List.mem_singleton.mp htree⟩)

/-- Step operators go to the last tree, one after the other. -/
theorem concat_steps {tree : Tree} {steps : List Spanned}
    (h : Body literal tokens (trees ++ [tree]))
    (hother : ∃ other ∈ tokens, other.token.isStep = false)
    (hsteps : ∀ item ∈ steps, item.token.isStep = true) :
    Body literal (tokens ++ steps) (trees ++ [tree.steppedAll steps]) := by
  induction steps generalizing tokens tree with
  | nil => simpa [Tree.steppedAll] using h
  | cons item steps ih =>
    obtain ⟨step, hstep⟩ := Token.isStep_iff.mp (hsteps item (by simp))
    obtain ⟨other, hmem, hother⟩ := hother
    have hnext := ih (.stepped h hstep ⟨other, hmem, hother⟩)
      ⟨other, List.mem_append_left _ hmem, hother⟩ fun item hitem => hsteps item (by simp [hitem])
    simpa [Tree.steppedAll, hstep, Token.toStep] using hnext

/-- Step operators with nothing before them stand alone. -/
theorem of_steps {steps : List Spanned} (hsteps : ∀ item ∈ steps, item.token.isStep = true) :
    Body literal steps (steps.map fun item => .leaf item.token) := by
  induction steps using List.reverseRecOn with
  | nil => exact .nil
  | append_singleton steps item ih =>
    obtain ⟨step, hstep⟩ := Token.isStep_iff.mp (hsteps item (by simp))
    have hbefore := fun other hother => hsteps other (List.mem_append_left [item] hother)
    rw [List.map_append]
    exact .lone (ih hbefore) hstep hbefore

/-- The elements of a scope around a token of its own level: those before it, the token with the step
operators behind it, and the others. -/
theorem plain_elements {before steps back : List Spanned} {item : Spanned}
    (h : Body false (before ++ item :: (steps ++ back)) trees) (hbefore : unclosed before = [])
    (hplain : item.token.isPlain = true) (hsteps : ∀ other ∈ steps, other.token.isStep = true)
    (hback : ∀ other ∈ back.head?, other.token.isStep = false) :
    ∃ front others, Body false before front ∧ Body false back others ∧
      trees = front ++ (Tree.leaf item.token).steppedAll steps :: others := by
  obtain ⟨front, -, hfront, -⟩ := h.cut hbefore
  have hmiddle : Body false (before ++ [item] ++ steps)
      (front ++ [(Tree.leaf item.token).steppedAll steps]) :=
    concat_steps (.leaf hfront hplain (by simp))
      ⟨item, by simp, Token.isStep_of_isPlain hplain⟩ hsteps
  rw [List.append_cons, ← List.append_assoc] at h
  obtain ⟨upTo, others, hupTo, hothers, hsum⟩ := h.cut hmiddle.balanced.unclosed_eq_nil
  refine ⟨front, others, hfront, hothers, ?_⟩
  rw [hsum hback, hupTo.unique hmiddle, List.append_assoc]
  rfl

/-- Before the first arrow nothing reads as an arrow. -/
theorem atom?_ne_arrow (h : Body false tokens trees)
    (hspelled : ∀ item ∈ tokens, item.token.WellSpelled)
    (hfirst : ∀ index (h : index < tokens.length), unclosed (tokens.take index) = [] →
      tokens[index].token ≠ .arrow) :
    ∀ form ∈ Tree.forms trees, form.atom? ≠ some "->" := by
  intro form hform
  rw [Tree.forms_eq_map, List.mem_map] at hform
  obtain ⟨tree, htree, rfl⟩ := hform
  rcases h.mem_cases rfl htree with ⟨front, item, back, rfl, hfront, rfl⟩ | ⟨element, step, rfl⟩ |
    ⟨delimiter, elements, rfl⟩
  · intro htext
    cases hstep : item.token.isStep with
    | true =>
      obtain ⟨step, htoken⟩ := Token.isStep_iff.mp hstep
      cases step <;> simp [htoken, Tree.form, Tree.leafForm, Ruby.stepCall, Form.atom?] at htext
    | false =>
      have harrow := (hspelled item (by simp)).eq_arrow
        (by simpa [Tree.form, Tree.leafForm_eq_atom hstep, Form.atom?] using htext)
      exact hfirst front.length (by simp) (by simpa using hfront) (by simpa using harrow)
  · simp [Tree.form, Form.atom?]
  · simp [Tree.form]

/-- Parentheses that look for an arrow start with no call on nothing. -/
theorem isBareCall_head (h : Body false tokens trees)
    (hspelled : ∀ item ∈ tokens, item.token.WellSpelled) (hscope : TakesArrow .paren tokens) :
    (Tree.forms trees).head?.any Form.isBareCall = false := by
  cases trees with
  | nil => rfl
  | cons tree trees =>
    rw [Tree.forms, List.head?_cons, Option.any_some]
    rcases h.mem_cases rfl List.mem_cons_self with ⟨-, item, -, -, -, rfl⟩ | ⟨element, step, rfl⟩ |
      ⟨delimiter, elements, rfl⟩
    · obtain ⟨head, rest, rfl, hhead, -⟩ := List.map_eq_cons_iff.mp h.tokensAll_eq.symm
      obtain ⟨hstep, hword⟩ := hscope head (by simp)
      by_contra hbare
      rw [Tree.form, ← hhead, Tree.leafForm_eq_atom hstep, Bool.not_eq_false,
        Form.isBareCall_atom_iff] at hbare
      obtain ⟨text, htext⟩ := (hspelled head (by simp)).eq_word hbare
      exact hword text htext (by simpa [htext, Token.text] using hbare)
    · rfl
    · simp [Tree.form, Form.isBareCall]

/-- The step operators that tokens start with. -/
theorem exists_leading_steps (tokens : List Spanned) :
    ∃ steps back, tokens = steps ++ back ∧ (∀ item ∈ steps, item.token.isStep = true) ∧
      ∀ item ∈ back.head?, item.token.isStep = false := by
  induction tokens with
  | nil => exact ⟨[], [], by simp⟩
  | cons item tokens ih =>
    cases hitem : item.token.isStep with
    | false => exact ⟨[], item :: tokens, by simp [hitem]⟩
    | true =>
      obtain ⟨steps, back, rfl, hsteps, hback⟩ := ih
      exact ⟨item :: steps, back, rfl, by simpa [hitem] using hsteps, hback⟩

/-- What starts with a step operator reads as a call on nothing. -/
theorem head?_render_of_step {step : Spanned} {steps back : List Spanned}
    (h : Body false (step :: steps ++ back) trees)
    (hsteps : ∀ item ∈ step :: steps, item.token.isStep = true)
    (hback : ∀ item ∈ back.head?, item.token.isStep = false) :
    (Form.renderAll (Tree.forms trees)).toList.head? = some '.' := by
  have hlone : Body false (step :: steps) _ := of_steps hsteps
  obtain ⟨front, others, hfront, -, hsum⟩ := h.cut hlone.balanced.unclosed_eq_nil
  obtain ⟨direction, hstep⟩ := Token.isStep_iff.mp (hsteps step (by simp))
  rw [hsum hback, hfront.unique hlone]
  cases direction <;> simp [Tree.forms, Tree.form, hstep, Tree.leafForm, Ruby.stepCall]

/-- A scope with an arrow is the lambda that the arrow asks for, unless a step operator stands right
behind the arrow. -/
theorem lambda_iff {inner before after : List Spanned} {elements : List Tree}
    {delimiter : Delimiter} (h : Body false inner elements)
    (hspelled : ∀ item ∈ inner, item.token.WellSpelled) (hscope : TakesArrow delimiter inner)
    (harrow : FirstArrow inner before after) :
    ∃ params body, Body false before params ∧ Body false after body ∧
      ((Tree.scope delimiter elements).form.render =
          Form.lambdaText (Form.implicitParams delimiter ++ params.map (·.form.render))
            (Form.renderAll (Tree.forms body)) ↔
        ∀ item ∈ after.head?, item.token.isStep = false) := by
  have hdelimiter : delimiter = .brace ∨
      delimiter = .paren ∧ (Tree.forms elements).head?.any Form.isBareCall = false := by
    cases delimiter with
    | brace => exact .inl rfl
    | paren => exact .inr ⟨rfl, h.isBareCall_head hspelled hscope⟩
    | _ => exact hscope.elim
  obtain ⟨arrow, rfl, htoken⟩ := harrow.cut
  have hfront : unclosed (before ++ [arrow]) = [] := by
    rw [unclosed_concat, track_atomic (by simp [htoken, Token.isAtomic]), harrow.ownLevel]
  obtain ⟨-, body, -, hbody, -⟩ := (List.append_cons before arrow after ▸ h).cut hfront
  -- the step operators right behind the arrow are taken for steps of it
  obtain ⟨steps, back, rfl, hsteps, hback⟩ := exists_leading_steps after
  obtain ⟨params, others, hparams, hothers, rfl⟩ :=
    h.plain_elements harrow.ownLevel (by simp [htoken, Token.isPlain]) hsteps hback
  rw [htoken] at hdelimiter ⊢
  have hnone := hparams.atom?_ne_arrow (fun item hitem => hspelled item (by simp [hitem]))
    harrow.first
  have hforms : Tree.forms (params ++ (Tree.leaf .arrow).steppedAll steps :: others) =
      Tree.forms params ++ ((Tree.leaf .arrow).steppedAll steps).form :: Tree.forms others := by
    simp [Tree.forms_eq_map]
  have hrenders : params.map (·.form.render) = (Tree.forms params).map Form.render := by
    simp [Tree.forms_eq_map]
  refine ⟨params, body, hparams, hbody, ?_⟩
  rw [hforms] at hdelimiter
  rw [Tree.form, hforms, hrenders]
  cases steps with
  | nil =>
    obtain rfl := hbody.unique hothers
    have hmiddle : ((Tree.leaf .arrow).steppedAll []).form = .atom "->" := by
      simp [Tree.steppedAll, Tree.form, Tree.leafForm, Token.text]
    rw [Form.ofScope_eq_ofSplit (.inl hmiddle) hdelimiter, hmiddle]
    exact iff_of_true (Form.render_ofSplit_arrow hnone) hback
  | cons step steps =>
    have hmiddle := (Tree.leaf .arrow).atom?_form_steppedAll (List.cons_ne_nil step steps)
    obtain ⟨calls, hcalls⟩ := (Tree.leaf .arrow).exists_render_steppedAll (step :: steps)
    rw [Form.ofScope_eq_ofSplit (.inr hmiddle) hdelimiter]
    refine iff_of_false (Form.render_ofSplit_ne hnone hmiddle ?_ ?_) fun hall => ?_
    · simp [hcalls, Tree.form, Tree.leafForm, Token.text]
    · exact hbody.head?_render_of_step hsteps hback
    · simpa [hsteps step (by simp)] using hall step (by simp)

end Body

/-! ## Arrows in a source -/

theorem eq_ok_of_toOption_eq_some {ε α : Type} {result : Except ε α} {value : α}
    (h : result.toOption = some value) : result = .ok value := by
  cases result with
  | error fault => simp [Except.toOption] at h
  | ok other => simpa [Except.toOption] using h

theorem Brackets.TakesArrow.isShortLiteral_eq_false {delimiter : Delimiter} {inner : List Spanned}
    (h : TakesArrow delimiter inner) : delimiter.isShortLiteral = false := by
  cases delimiter with
  | shortMap => exact h.elim
  | shortArray => exact h.elim
  | _ => rfl

/-- In a source that is desugared, a closed scope that looks for an arrow and has one at its own level
is rendered as a lambda of the elements before the first such arrow and the text of those behind it,
unless the token right behind the arrow is a step operator. -/
theorem desugar_lambda_iff {source text : String} {limit : Nat} {delimiter : Delimiter} {first : Nat}
    {tokens inner before after : List Spanned} (h : desugar source limit = .ok text)
    (htokens : tokenize source = .ok tokens) (hpair : Pair tokens delimiter first inner)
    (hscope : TakesArrow delimiter inner) (harrow : FirstArrow inner before after) :
    ∃ trees elements params body,
      (Parser.start tokens limit).document.1 = .ok trees ∧
      text = Form.renderAll (Tree.forms trees) ∧
      ⟨delimiter, first, elements⟩ ∈ Tree.nodesAll 0 trees ∧
      Body false inner elements ∧ Body false before params ∧ Body false after body ∧
      ((Tree.scope delimiter elements).form.render =
          Form.lambdaText (Form.implicitParams delimiter ++ params.map (·.form.render))
            (Form.renderAll (Tree.forms body)) ↔
        ∀ item ∈ after.head?, item.token.isStep = false) := by
  obtain ⟨trees, elements, htrees, htext, hnode, helements⟩ :=
    exists_node_of_desugar_eq_ok h htokens hpair
  rw [hscope.isShortLiteral_eq_false] at helements
  have hspelled := fun item hitem => tokenize_wellSpelled htokens item (hpair.subset hitem)
  obtain ⟨params, body, hparams, hbody, hiff⟩ := helements.lambda_iff hspelled hscope harrow
  exact ⟨trees, elements, params, body, htrees, htext, hnode, helements, hparams, hbody, hiff⟩

/-- The tokens of `{a (x -> ++ y) -> b}`. -/
def nestedArrows : List Spanned :=
  [⟨.opener .brace, ⟨0, 1⟩⟩, ⟨.word "a", ⟨1, 2⟩⟩, ⟨.opener .paren, ⟨3, 4⟩⟩, ⟨.word "x", ⟨4, 5⟩⟩,
   ⟨.arrow, ⟨6, 8⟩⟩, ⟨.step .increment, ⟨9, 11⟩⟩, ⟨.word "y", ⟨12, 13⟩⟩, ⟨.closer .round, ⟨13, 14⟩⟩,
   ⟨.arrow, ⟨15, 17⟩⟩, ⟨.word "b", ⟨18, 19⟩⟩, ⟨.closer .curly, ⟨19, 20⟩⟩]

/-- The arrow in the braces makes a lambda; the one in the parentheses, which has a step operator
behind it, does not. -/
theorem desugar_lambda_iff_nestedArrows :
    desugar "\x7ba (x -> ++ y) -> b\x7d" 2 = .ok "\x7b|it, a, (x->.succy)|b\x7d" ∧
      (∃ elements params body, Body false (nestedArrows.extract 1 10) elements ∧
        Body false (nestedArrows.extract 1 8) params ∧ Body false (nestedArrows.extract 9 10) body ∧
        (Tree.scope .brace elements).form.render =
          Form.lambdaText ("it" :: params.map (·.form.render)) (Form.renderAll (Tree.forms body))) ∧
      ∃ elements params body, Body false (nestedArrows.extract 3 7) elements ∧
        Body false (nestedArrows.extract 3 4) params ∧ Body false (nestedArrows.extract 5 7) body ∧
        (Tree.scope .paren elements).form.render ≠
          Form.lambdaText (params.map (·.form.render)) (Form.renderAll (Tree.forms body)) := by
  have h : desugar "\x7ba (x -> ++ y) -> b\x7d" 2 = .ok "\x7b|it, a, (x->.succy)|b\x7d" :=
    eq_ok_of_toOption_eq_some (by decide +kernel)
  have htokens : tokenize "\x7ba (x -> ++ y) -> b\x7d" = .ok nestedArrows :=
    eq_ok_of_toOption_eq_some (by decide +kernel)
  refine ⟨h, ?_, ?_⟩
  · have hinner := (Parser.body_of_document_eq_ok
      (rfl : (Parser.start (nestedArrows.extract 1 10) 2).document.1 = .ok _)).balanced
    have hpair : Pair nestedArrows .brace 1 (nestedArrows.extract 1 10) :=
      ⟨[], _, _, [], rfl, rfl, rfl, rfl, hinner⟩
    have harrow : FirstArrow (nestedArrows.extract 1 10) (nestedArrows.extract 1 8)
        (nestedArrows.extract 9 10) := ⟨⟨_, rfl, rfl⟩, rfl, by decide⟩
    obtain ⟨_, elements, params, body, -, -, -, helements, hparams, hbody, hiff⟩ :=
      desugar_lambda_iff h htokens hpair trivial harrow
    exact ⟨elements, params, body, helements, hparams, hbody, hiff.mpr (by decide)⟩
  · have hinner := (Parser.body_of_document_eq_ok
      (rfl : (Parser.start (nestedArrows.extract 3 7) 2).document.1 = .ok _)).balanced
    have hpair : Pair nestedArrows .paren 3 (nestedArrows.extract 3 7) :=
      ⟨nestedArrows.take 2, _, _, nestedArrows.drop 8, rfl, rfl, rfl, rfl, hinner⟩
    have hscope : TakesArrow .paren (nestedArrows.extract 3 7) := by
      simp [TakesArrow, nestedArrows, Token.isStep]
    have harrow : FirstArrow (nestedArrows.extract 3 7) (nestedArrows.extract 3 4)
        (nestedArrows.extract 5 7) := ⟨⟨_, rfl, rfl⟩, rfl, by decide⟩
    obtain ⟨_, elements, params, body, -, -, -, helements, hparams, hbody, hiff⟩ :=
      desugar_lambda_iff h htokens hpair hscope harrow
    exact ⟨elements, params, body, helements, hparams, hbody, fun heq =>
      absurd (hiff.mp heq) (by decide)⟩

end Desugar
