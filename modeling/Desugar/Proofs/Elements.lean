import Desugar.Parser
import Desugar.Proofs.Brackets
import Mathlib.Algebra.Group.Nat.Even

/-!
# The elements of a scope

How the tokens between two brackets fall into elements, said twice.

* `elementCount` counts them on the tokens alone: every token at the scope's own level starts an
  element, unless it is a step operator that has something to step, or a number that touches a sign.
* `Body` is the grammar of the dialect: `Body literal tokens trees` holds when the tokens, as the
  body of a scope or of the whole document, are these trees.  A short literal (`literal`) joins a
  sign and the number it touches.

`Body.length_eq` says that the two agree.  What follows are the cuts of a body: a prefix at whose end
nothing is unclosed is a body, so is what is left, and the trees of the whole are those of the two
parts unless a step operator stands at the seam.
-/

namespace Desugar

open Brackets

/-! ## Counting elements on the tokens -/

/-- The operators that a number can be joined to. -/
def Token.isSign : Token → Bool
  | .operator text => text = "+" || text = "-"
  | _ => false

theorem Token.isSign_iff {token : Token} :
    token.isSign = true ↔ ∃ sign, token = .operator sign ∧ (sign = "-" ∨ sign = "+") := by
  cases token <;> simp [Token.isSign, or_comm]

namespace Brackets

/-- Whether a token is a word that starts with a digit and touches the sign just before it. -/
def touchesSign (front : List Spanned) (item : Spanned) : Bool :=
  match item.token, front.getLast? with
  | .word text, some previous =>
    Parser.Reading.startsWithDigit text && previous.token.isSign &&
      decide (item.span.start = previous.span.stop)
  | _, _ => false

theorem touchesSign_iff {front : List Spanned} {item : Spanned} :
    touchesSign front item = true ↔
      ∃ text previous, item.token = .word text ∧ front.getLast? = some previous ∧
        Parser.Reading.startsWithDigit text = true ∧ previous.token.isSign = true ∧
        item.span.start = previous.span.stop := by
  unfold touchesSign
  split
  · next text previous htoken hlast => simp [htoken, hlast, and_assoc]
  · next hnone =>
    refine iff_of_false (by simp) ?_
    rintro ⟨text, previous, htoken, hlast, -⟩
    exact hnone text previous htoken hlast

/-- Whether a token starts an element of the scope in which the tokens `front` precede it.  Inside a
nested scope it does not; a step operator does only behind step operators alone, and a number does
unless it touches a sign. -/
def startsElement (front : List Spanned) (item : Spanned) : Bool :=
  (unclosed front).isEmpty &&
    match item.token with
    | .step _ => front.all (·.token.isStep)
    | _ => !touchesSign front item

/-- The number of elements that start in the tokens, which stand behind `front` in a scope. -/
def elementCountFrom (front : List Spanned) : List Spanned → Nat
  | [] => 0
  | item :: rest =>
    (if startsElement front item then 1 else 0) + elementCountFrom (front ++ [item]) rest

/-- The number of elements of a short literal with these tokens between its brackets. -/
def elementCount (tokens : List Spanned) : Nat :=
  elementCountFrom [] tokens

theorem elementCountFrom_append (front tokens rest : List Spanned) :
    elementCountFrom front (tokens ++ rest) =
      elementCountFrom front tokens + elementCountFrom (front ++ tokens) rest := by
  induction tokens generalizing front with
  | nil => simp [elementCountFrom]
  | cons item tokens ih =>
    simp only [List.cons_append, elementCountFrom, ih, List.append_assoc, List.nil_append]
    omega

theorem elementCount_concat (tokens : List Spanned) (item : Spanned) :
    elementCount (tokens ++ [item]) =
      elementCount tokens + if startsElement tokens item then 1 else 0 := by
  simp [elementCount, elementCountFrom_append, elementCountFrom]

/-- No element of a scope starts inside a scope nested in it. -/
theorem elementCountFrom_inner {front inner : List Spanned} (hinner : ClosersMatch inner)
    (hfront : unclosed front ≠ []) : elementCountFrom front inner = 0 := by
  induction inner using List.reverseRecOn with
  | nil => rfl
  | append_singleton inner item ih =>
    obtain ⟨hinner', -⟩ := (closersMatch_concat_iff inner item).mp hinner
    have hbelow : unclosed (front ++ inner) ≠ [] := by
      rw [unclosed_append hinner']
      simp [hfront]
    rw [elementCountFrom_append, ih hinner']
    simp [elementCountFrom, startsElement, hbelow]

/-- A nested scope is one element. -/
theorem elementCount_scope {front inner : List Spanned} {opener : Spanned}
    {delimiter : Delimiter} (hfront : Balanced front)
    (hopener : opener.token = .opener delimiter) (hinner : Balanced inner) (closer : Spanned) :
    elementCount (front ++ opener :: (inner ++ [closer])) = elementCount front + 1 := by
  have hopen : unclosed (front ++ [opener]) ≠ [] := by
    rw [unclosed_concat, track_opener hopener]
    simp
  have hbefore : unclosed (front ++ opener :: inner) ≠ [] := by
    rw [unclosed_append_opener hopener hinner]
    simp
  have hstart : startsElement front opener = true := by
    simp [startsElement, hfront.unclosed_eq_nil, hopener, touchesSign]
  have hstop : startsElement (front ++ opener :: inner) closer = false := by
    simp [startsElement, hbefore]
  rw [← List.cons_append, ← List.append_assoc, elementCount_concat, hstop, List.append_cons,
    elementCount, elementCountFrom_append, List.nil_append,
    elementCountFrom_inner hinner.closersMatch hopen, ← elementCount, elementCount_concat, hstart]
  simp

end Brackets

/-- Only step operators stand for something other than their text. -/
theorem Tree.leafForm_eq_atom {token : Token} (h : token.isStep = false) :
    Tree.leafForm token = .atom token.text := by
  cases token <;> simp_all [Tree.leafForm, Token.isStep]

theorem Tree.tokensAll_append (front back : List Tree) :
    Tree.tokensAll (front ++ back) = Tree.tokensAll front ++ Tree.tokensAll back := by
  induction front with
  | nil => rfl
  | cons tree trees ih => simp [Tree.tokensAll, ih]

theorem Tree.renderAll_forms_append (front back : List Tree) :
    Form.renderAll (forms (front ++ back)) =
      Form.renderAll (forms front) ++ Form.renderAll (forms back) := by
  rw [forms_eq_map, List.map_append, Form.renderAll_append, forms_eq_map, forms_eq_map]

/-! ## The grammar -/

/-- A token that is a tree on its own: no bracket, no step operator and no lone quote. -/
def Token.isPlain : Token → Bool
  | .opener _ | .closer _ | .step _ => false
  | .string text => text ≠ "\""
  | _ => true

/-- `Body literal tokens trees`: the tokens, as the body of a scope that is a short literal or not,
are read as the trees. -/
inductive Body : Bool → List Spanned → List Tree → Prop
  | nil {literal : Bool} : Body literal [] []
  /-- Any other token stands for itself; in a short literal, unless it joins a sign. -/
  | leaf {literal : Bool} {tokens : List Spanned} {trees : List Tree} {item : Spanned}
      (before : Body literal tokens trees) (plain : item.token.isPlain = true)
      (apart : literal = true → touchesSign tokens item = false) :
      Body literal (tokens ++ [item]) (trees ++ [.leaf item.token])
  /-- A step operator with only step operators before it has nothing to step. -/
  | lone {literal : Bool} {tokens : List Spanned} {trees : List Tree} {item : Spanned}
      {step : Step} (before : Body literal tokens trees) (token : item.token = .step step)
      (steps : ∀ other ∈ tokens, other.token.isStep = true) :
      Body literal (tokens ++ [item]) (trees ++ [.leaf item.token])
  /-- Any other step operator goes to the tree before it. -/
  | stepped {literal : Bool} {tokens : List Spanned} {trees : List Tree} {tree : Tree}
      {item : Spanned} {step : Step} (before : Body literal tokens (trees ++ [tree]))
      (token : item.token = .step step) (other : ∃ other ∈ tokens, other.token.isStep = false) :
      Body literal (tokens ++ [item]) (trees ++ [.stepped tree step])
  /-- In a short literal a number joins the sign it touches. -/
  | signed {tokens : List Spanned} {trees : List Tree} {item : Spanned} {sign number : String}
      (before : Body true tokens (trees ++ [.leaf (.operator sign)]))
      (token : item.token = .word number) (touches : touchesSign tokens item = true) :
      Body true (tokens ++ [item]) (trees ++ [.signed sign number])
  /-- A closed scope is one tree; a map literal needs an even number of elements. -/
  | scope {literal : Bool} {tokens inner : List Spanned} {trees elements : List Tree}
      {opener closer : Spanned} {delimiter : Delimiter} (before : Body literal tokens trees)
      (body : Body delimiter.isShortLiteral inner elements)
      (opens : opener.token = .opener delimiter)
      (closes : closer.token = .closer delimiter.closer)
      (pairs : delimiter = .shortMap → Even elements.length) :
      Body literal (tokens ++ opener :: (inner ++ [closer])) (trees ++ [.scope delimiter elements])

theorem Token.isAtomic_of_isPlain {token : Token} (h : token.isPlain = true) :
    token.isAtomic = true := by
  cases token <;> simp_all [isPlain, isAtomic]

theorem Token.isStep_of_isPlain {token : Token} (h : token.isPlain = true) :
    token.isStep = false := by
  cases token <;> simp_all [isPlain, isStep]

theorem Token.isStep_iff {token : Token} : token.isStep = true ↔ ∃ step, token = .step step := by
  cases token <;> simp [isStep]

theorem Token.isCloser_of_isPlain {token : Token} (h : token.isPlain = true) :
    token.isCloser = false := by
  cases token <;> simp_all [isPlain, isCloser]

/-- Lists with a last item are equal when the items before it and the last items are. -/
theorem concat_inj {α : Type} {front front' : List α} {last last' : α}
    (h : front ++ [last] = front' ++ [last']) : front = front' ∧ last = last' := by
  simpa using h

/-- What two lists in a row start with ends in the first one, or goes on into the second. -/
theorem prefix_append_split {α : Type} {part front back : List α} (h : part <+: front ++ back) :
    part <+: front ∨ ∃ extra, extra <+: back ∧ part = front ++ extra := by
  rcases List.prefix_or_prefix_of_prefix h (List.prefix_append front back) with hshort | ⟨extra, rfl⟩
  · exact .inl hshort
  · exact .inr ⟨extra, (List.prefix_append_right_inj front).mp h, rfl⟩

/-- What holds of the head of a list holds of the head of each part it starts with. -/
theorem forall_head?_of_append {α : Type} {p : α → Prop} {front back : List α}
    (h : ∀ item ∈ (front ++ back).head?, p item) : ∀ item ∈ front.head?, p item := by
  intro item hitem
  refine h item ?_
  rw [Option.mem_def] at hitem ⊢
  rw [List.head?_append, hitem, Option.some_or]

namespace Body

variable {literal : Bool} {tokens : List Spanned} {trees : List Tree}

theorem balanced (h : Body literal tokens trees) : Balanced tokens := by
  induction h with
  | nil => exact balanced_nil
  | leaf _ plain _ ih => exact ih.append (balanced_atomic (Token.isAtomic_of_isPlain plain))
  | lone _ token _ ih => exact ih.append (balanced_atomic (by simp [token, Token.isAtomic]))
  | stepped _ token _ ih => exact ih.append (balanced_atomic (by simp [token, Token.isAtomic]))
  | signed _ token _ ih => exact ih.append (balanced_atomic (by simp [token, Token.isAtomic]))
  | scope _ _ opens closes _ ih ihBody => exact ih.append (ihBody.scope opens closes)

/-- A body keeps every token it is read from, in order. -/
theorem tokensAll_eq (h : Body literal tokens trees) :
    Tree.tokensAll trees = tokens.map (·.token) := by
  induction h with
  | nil => rfl
  | leaf _ _ _ ih => simp [Tree.tokensAll_append, Tree.tokensAll, Tree.tokens, ih]
  | lone _ _ _ ih => simp [Tree.tokensAll_append, Tree.tokensAll, Tree.tokens, ih]
  | stepped _ token _ ih =>
    simp only [Tree.tokensAll_append, Tree.tokensAll, Tree.tokens, List.append_nil] at ih ⊢
    simp [← ih, token]
  | signed _ token _ ih =>
    simp only [Tree.tokensAll_append, Tree.tokensAll, Tree.tokens, List.append_nil] at ih ⊢
    simp [← ih, token]
  | scope _ _ opens closes _ ih ihBody =>
    simp [Tree.tokensAll_append, Tree.tokensAll, Tree.tokens, ih, ihBody, opens, closes]

theorem ne_lone_quote (h : Body literal tokens trees) :
    ∀ item ∈ tokens, item.token ≠ .string "\"" := by
  induction h with
  | nil => simp
  | leaf _ plain _ ih =>
    intro other hother
    rcases List.mem_append.mp hother with hother | hother
    · exact ih other hother
    · rw [List.mem_singleton.mp hother]
      rintro hquote
      simp [hquote, Token.isPlain] at plain
  | lone _ token _ ih => simpa [or_imp, forall_and, token] using ih
  | stepped _ token _ ih => simpa [or_imp, forall_and, token] using ih
  | signed _ token _ ih => simpa [or_imp, forall_and, token] using ih
  | scope _ _ opens closes _ ih ihBody =>
    simpa [or_imp, forall_and, opens, closes] using ⟨ih, ihBody⟩

/-- The trees of a short literal are as many as the elements counted on its tokens. -/
theorem length_eq (h : Body literal tokens trees) (hliteral : literal = true) :
    trees.length = elementCount tokens := by
  induction h with
  | nil => rfl
  | @leaf _ tokens _ item before plain apart ih =>
    have hstart : startsElement tokens item = true := by
      have hstep := Token.isStep_of_isPlain plain
      unfold startsElement
      rw [before.balanced.unclosed_eq_nil]
      split
      · simp_all [Token.isStep]
      · simp [apart hliteral]
    rw [elementCount_concat, hstart, ← ih hliteral]
    simp
  | @lone _ tokens _ item _ before token steps ih =>
    have hstart : startsElement tokens item = true := by
      simpa [startsElement, before.balanced.unclosed_eq_nil, token] using steps
    rw [elementCount_concat, hstart, ← ih hliteral]
    simp
  | @stepped _ tokens _ _ item _ before token other ih =>
    have hstart : startsElement tokens item = false := by
      simpa [startsElement, token] using fun _ => other
    rw [elementCount_concat, hstart, ← ih hliteral]
    simp
  | @signed tokens _ item _ _ before token touches ih =>
    have hstart : startsElement tokens item = false := by
      simp [startsElement, token, touches]
    rw [elementCount_concat, hstart, ← ih hliteral]
    simp
  | scope before body opens _ _ ih _ =>
    rw [elementCount_scope before.balanced opens body.balanced, ← ih hliteral]
    simp

/-! ## Inversion at the last token -/

theorem trees_eq_nil (h : Body literal [] trees) : trees = [] := by
  generalize htokens : ([] : List Spanned) = tokens at h
  cases h with
  | nil => rfl
  | _ => simp at htokens

/-- The last token tells how the last tree came about. -/
theorem concat_cases {item : Spanned} (h : Body literal (tokens ++ [item]) trees) :
    (∃ others, trees = others ++ [.leaf item.token] ∧ Body literal tokens others ∧
      item.token.isPlain = true ∧ (literal = true → touchesSign tokens item = false)) ∨
    (∃ others step, trees = others ++ [.leaf item.token] ∧ Body literal tokens others ∧
      item.token = .step step ∧ ∀ other ∈ tokens, other.token.isStep = true) ∨
    (∃ others tree step, trees = others ++ [.stepped tree step] ∧
      Body literal tokens (others ++ [tree]) ∧ item.token = .step step ∧
      ∃ other ∈ tokens, other.token.isStep = false) ∨
    (∃ others sign number, trees = others ++ [.signed sign number] ∧ literal = true ∧
      Body true tokens (others ++ [.leaf (.operator sign)]) ∧ item.token = .word number ∧
      touchesSign tokens item = true) ∨
    (∃ front opener inner delimiter others elements, tokens = front ++ opener :: inner ∧
      trees = others ++ [.scope delimiter elements] ∧ Body literal front others ∧
      Body delimiter.isShortLiteral inner elements ∧ opener.token = .opener delimiter ∧
      item.token = .closer delimiter.closer ∧ (delimiter = .shortMap → Even elements.length)) := by
  generalize htokens : tokens ++ [item] = all at h
  cases h with
  | nil => simp at htokens
  | leaf before plain apart =>
    obtain ⟨rfl, rfl⟩ := concat_inj htokens
    exact .inl ⟨_, rfl, before, plain, apart⟩
  | lone before token steps =>
    obtain ⟨rfl, rfl⟩ := concat_inj htokens
    exact .inr (.inl ⟨_, _, rfl, before, token, steps⟩)
  | stepped before token other =>
    obtain ⟨rfl, rfl⟩ := concat_inj htokens
    exact .inr (.inr (.inl ⟨_, _, _, rfl, before, token, other⟩))
  | signed before token touches =>
    obtain ⟨rfl, rfl⟩ := concat_inj htokens
    exact .inr (.inr (.inr (.inl ⟨_, _, _, rfl, rfl, before, token, touches⟩)))
  | @scope _ front inner _ _ opener closer _ before body opens closes pairs =>
    have htokens' : tokens ++ [item] = (front ++ opener :: inner) ++ [closer] := by
      simpa using htokens
    obtain ⟨rfl, rfl⟩ := concat_inj htokens'
    exact .inr (.inr (.inr (.inr
      ⟨_, _, _, _, _, _, rfl, rfl, before, body, opens, closes, pairs⟩)))

/-! ## The last tree of a body -/

theorem trees_ne_nil (h : Body literal tokens trees) (htokens : tokens ≠ []) : trees ≠ [] := by
  cases h with
  | nil => exact absurd rfl htokens
  | _ => simp

/-- The last tree stands alone as a step operator exactly when there are only step operators. -/
theorem isLoneStep_last_iff {others : List Tree} {last : Tree}
    (h : Body literal tokens (others ++ [last])) :
    last.isLoneStep = true ↔ ∀ item ∈ tokens, item.token.isStep = true := by
  generalize htrees : others ++ [last] = trees at h
  cases h with
  | nil => simp at htrees
  | @leaf _ _ _ item _ plain _ =>
    obtain ⟨-, rfl⟩ : _ ∧ last = .leaf item.token := by simpa using htrees
    simp [Tree.isLoneStep, Token.isStep_of_isPlain plain]
  | @lone _ _ _ item _ _ token steps =>
    obtain ⟨-, rfl⟩ : _ ∧ last = .leaf item.token := by simpa using htrees
    simpa [Tree.isLoneStep, token, Token.isStep, or_imp, forall_and] using steps
  | @stepped _ _ _ tree item step _ token other =>
    obtain ⟨-, rfl⟩ : _ ∧ last = .stepped tree step := by simpa using htrees
    obtain ⟨other, hmem, hother⟩ := other
    refine iff_of_false (by simp [Tree.isLoneStep]) fun hall => ?_
    simp [hall other (List.mem_append_left _ hmem)] at hother
  | @signed _ _ item sign number _ token _ =>
    obtain ⟨-, rfl⟩ : _ ∧ last = .signed sign number := by simpa using htrees
    simp [Tree.isLoneStep, token, Token.isStep]
  | @scope _ _ _ _ elements opener _ delimiter _ _ opens _ _ =>
    obtain ⟨-, rfl⟩ : _ ∧ last = .scope delimiter elements := by simpa using htrees
    refine iff_of_false (by simp [Tree.isLoneStep]) fun hall => ?_
    have hopener := hall opener (by simp)
    simp [opens, Token.isStep] at hopener

/-- An operator that is the last tree is the last token too. -/
theorem exists_last_operator {others : List Tree} {sign : String}
    (h : Body literal tokens (others ++ [.leaf (.operator sign)])) :
    ∃ front previous, tokens = front ++ [previous] ∧ previous.token = .operator sign := by
  generalize htrees : others ++ [Tree.leaf (.operator sign)] = trees at h
  cases h with
  | nil => simp at htrees
  | @leaf _ tokens _ item _ _ _ => exact ⟨tokens, item, rfl, by simp_all⟩
  | @lone _ tokens _ item _ _ _ _ => exact ⟨tokens, item, rfl, by simp_all⟩
  | _ => simp at htrees

/-- A last token that can neither step nor close anything, nor join a sign, is the last tree. -/
theorem exists_last_leaf {item : Spanned} (h : Body literal (tokens ++ [item]) trees)
    (hstep : item.token.isStep = false) (hcloser : item.token.isCloser = false)
    (hword : ∀ number, item.token ≠ .word number) :
    ∃ others, trees = others ++ [.leaf item.token] ∧ Body literal tokens others := by
  rcases concat_cases h with ⟨others, htrees, hothers, -⟩ | ⟨_, _, -, -, step, -⟩ |
    ⟨_, _, _, -, -, step, -⟩ | ⟨_, _, number, -, -, -, word, -⟩ |
    ⟨_, _, _, _, _, _, -, -, -, -, -, closes, -⟩
  · exact ⟨others, htrees, hothers⟩
  · simp [step, Token.isStep] at hstep
  · simp [step, Token.isStep] at hstep
  · exact absurd word (hword number)
  · simp [closes, Token.isCloser] at hcloser

/-! ## The grammar is unambiguous -/

/-- Tokens can be read as the body of a scope in one way only. -/
theorem unique {trees' : List Tree} (h : Body literal tokens trees)
    (h' : Body literal tokens trees') : trees = trees' := by
  induction h generalizing trees' with
  | nil => exact (trees_eq_nil h').symm
  | leaf before plain apart ih =>
    rcases concat_cases h' with ⟨others, rfl, before', -⟩ | ⟨_, _, -, -, token, -⟩ |
      ⟨_, _, _, -, -, token, -⟩ | ⟨_, _, _, -, hliteral, -, -, touches⟩ |
      ⟨_, _, _, _, _, _, -, -, -, -, -, closes, -⟩
    · rw [ih before']
    · simp [token, Token.isPlain] at plain
    · simp [token, Token.isPlain] at plain
    · simp [apart hliteral] at touches
    · simp [closes, Token.isPlain] at plain
  | lone before token steps ih =>
    rcases concat_cases h' with ⟨_, -, -, plain, -⟩ | ⟨others, _, rfl, before', -⟩ |
      ⟨_, _, _, -, -, -, other, hmem, hother⟩ | ⟨_, _, _, -, -, -, word, -⟩ |
      ⟨_, _, _, _, _, _, -, -, -, -, -, closes, -⟩
    · simp [token, Token.isPlain] at plain
    · rw [ih before']
    · simp [steps other hmem] at hother
    · simp [token] at word
    · simp [token] at closes
  | stepped before token other ih =>
    obtain ⟨other, hmem, hother⟩ := other
    rcases concat_cases h' with ⟨_, -, -, plain, -⟩ | ⟨_, _, -, -, -, steps⟩ |
      ⟨others, tree, step, rfl, before', token', -⟩ | ⟨_, _, _, -, -, -, word, -⟩ |
      ⟨_, _, _, _, _, _, -, -, -, -, -, closes, -⟩
    · simp [token, Token.isPlain] at plain
    · simp [steps other hmem] at hother
    · obtain ⟨rfl, rfl⟩ := concat_inj (ih before')
      rw [token, Token.step.injEq] at token'
      rw [token']
    · simp [token] at word
    · simp [token] at closes
  | signed before token touches ih =>
    rcases concat_cases h' with ⟨_, -, -, -, apart⟩ | ⟨_, _, -, -, step, -⟩ |
      ⟨_, _, _, -, -, step, -⟩ | ⟨others, sign, number, rfl, -, before', token', -⟩ |
      ⟨_, _, _, _, _, _, -, -, -, -, -, closes, -⟩
    · simp [apart rfl] at touches
    · simp [token] at step
    · simp [token] at step
    · obtain ⟨rfl, hsign⟩ := concat_inj (ih before')
      rw [token, Token.word.injEq] at token'
      rw [Tree.leaf.injEq, Token.operator.injEq] at hsign
      rw [token', hsign]
    · simp [token] at closes
  | @scope _ tokens inner _ _ opener closer _ before body opens closes pairs ih ihBody =>
    rw [← List.cons_append, ← List.append_assoc] at h'
    rcases concat_cases h' with ⟨_, -, -, plain, -⟩ | ⟨_, _, -, -, step, -⟩ |
      ⟨_, _, _, -, -, step, -⟩ | ⟨_, _, _, -, -, -, word, -⟩ |
      ⟨front, opener', inner', delimiter', others, elements, hcut, rfl, before', body', opens', -⟩
    · simp [closes, Token.isPlain] at plain
    · simp [closes] at step
    · simp [closes] at step
    · simp [closes] at word
    · obtain ⟨rfl, rfl, rfl⟩ :=
        eq_of_append_opener opens opens' body.balanced body'.balanced hcut
      rw [opens, Token.opener.injEq] at opens'
      subst opens'
      rw [ih before', ihBody body']

/-! ## Cuts -/

/-- A body that is cut where nothing is unclosed falls into two bodies.  Its trees are theirs, one
after the other, unless the second part starts with a step operator, which then has found something
to step in the first. -/
theorem cut {front back : List Spanned} (h : Body false (front ++ back) trees)
    (hfront : unclosed front = []) :
    ∃ before after, Body false front before ∧ Body false back after ∧
      ((∀ item ∈ back.head?, item.token.isStep = false) → trees = before ++ after) := by
  -- a closed scope takes off several tokens at once, so the induction is on the length
  induction hlength : back.length using Nat.strongRecOn generalizing back trees with
  | ind n ih =>
  subst hlength
  rcases List.eq_nil_or_concat' back with rfl | ⟨back, item, rfl⟩
  · exact ⟨trees, [], by simpa using h, .nil, by simp⟩
  rw [← List.append_assoc] at h
  rcases concat_cases h with ⟨others, rfl, hbody, plain, -⟩ | ⟨others, step, rfl, hbody, token, steps⟩ |
    ⟨others, tree, step, rfl, hbody, token, -⟩ | ⟨_, _, _, -, hliteral, -⟩ |
    ⟨start, opener, inner, delimiter, others, elements, hcut, rfl, hbody, hinner, opens, closes,
      pairs⟩
  · obtain ⟨before, after, hbefore, hafter, hsum⟩ := ih back.length (by simp) hbody rfl
    refine ⟨before, after ++ [.leaf item.token], hbefore, .leaf hafter plain (by simp), ?_⟩
    intro hback
    rw [hsum (forall_head?_of_append hback), List.append_assoc]
  · obtain ⟨before, after, hbefore, hafter, hsum⟩ := ih back.length (by simp) hbody rfl
    refine ⟨before, after ++ [.leaf item.token], hbefore, .lone hafter token ?_, ?_⟩
    · exact fun other hother => steps other (List.mem_append_right _ hother)
    · intro hback
      rw [hsum (forall_head?_of_append hback), List.append_assoc]
  · obtain ⟨before, after, hbefore, hafter, hsum⟩ := ih back.length (by simp) hbody rfl
    by_cases hsteps : ∀ other ∈ back, other.token.isStep = true
    · -- the second part is step operators only, and one of them is its head
      refine ⟨before, after ++ [.leaf item.token], hbefore, .lone hafter token hsteps, ?_⟩
      intro hback
      exfalso
      cases back with
      | nil => simpa [token, Token.isStep] using hback item (by simp)
      | cons first back => simpa [hsteps first (by simp)] using hback first (by simp)
    · obtain ⟨other, hother⟩ := not_forall.mp hsteps
      obtain ⟨hmem, hstep⟩ := Classical.not_imp.mp hother
      rcases List.eq_nil_or_concat' after with rfl | ⟨after, last, rfl⟩
      · exact absurd rfl (hafter.trees_ne_nil (List.ne_nil_of_mem hmem))
      · refine ⟨before, after ++ [.stepped last step], hbefore,
          .stepped hafter token ⟨other, hmem, by simpa using hstep⟩, ?_⟩
        intro hback
        have htrees : others ++ [tree] = (before ++ after) ++ [last] := by
          rw [hsum (forall_head?_of_append hback), List.append_assoc]
        obtain ⟨rfl, rfl⟩ := concat_inj htrees
        rw [List.append_assoc]
  · simp at hliteral
  · obtain ⟨middle, rfl, rfl⟩ :=
      exists_middle_of_append_opener hfront opens hinner.balanced hcut
    obtain ⟨before, after, hbefore, hafter, hsum⟩ :=
      ih middle.length (by simp) hbody rfl
    refine ⟨before, after ++ [.scope delimiter elements], hbefore, ?_, ?_⟩
    · rw [List.append_assoc, List.cons_append]
      exact .scope hafter hinner opens closes pairs
    · intro hback
      rw [List.append_assoc] at hback
      rw [hsum (forall_head?_of_append hback), List.append_assoc]

end Body

end Desugar
