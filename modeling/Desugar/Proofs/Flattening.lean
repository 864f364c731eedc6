import Desugar.Proofs.Running

/-!
# Parsing undoes flattening

The syntax of the dialect as trees that know where each of their tokens stands (`Element`,
`Document`).  A document can be written down as a stream of tokens (`Document.flatten`), and
`Parser.document_flatten` says that the parser gets it back from there: one form for each element, each
scope closed over the forms of what stands in it, and the scopes in the order in which they end.

## What a tree has to fulfil

An element cannot be built from a token that is none of its own, and a signed number not from parts
that do not touch.  What depends on the place of an element is said by `Element.WellFormed`: signed
numbers stand in short literals only, a sign in a short literal does not touch a number behind it, and a
map literal has an even number of elements.

## The induction

`Element.reads` goes along a tree with a run of the parser.  The index of the next token, the number
of open scopes and the closed ones are all parameters of a run, so the induction carries them along;
what an element has to know of the elements before it is only that its first token does not join a
sign there (`Reading.Apart`).
-/

namespace Desugar

open Brackets

/-- A step operator and where it stands. -/
structure StepMark where
  step : Step
  span : Span
  deriving DecidableEq, Repr

/-- The token of a step operator. -/
def StepMark.token (mark : StepMark) : Spanned :=
  ⟨.step mark.step, mark.span⟩

/-- The tree of a step operator that stands alone. -/
def StepMark.tree (mark : StepMark) : Tree :=
  .leaf (.step mark.step)

/-- A sign and the number that it touches. -/
structure SignedNumber where
  sign : String
  signSpan : Span
  number : String
  numberSpan : Span
  isSign : sign = "-" ∨ sign = "+"
  isNumber : Parser.Reading.startsWithDigit number = true
  touches : numberSpan.start = signSpan.stop

def SignedNumber.tokens (signed : SignedNumber) : List Spanned :=
  [⟨.operator signed.sign, signed.signSpan⟩, ⟨.word signed.number, signed.numberSpan⟩]

/-- An element of a scope or of the whole document. -/
inductive Element where
  /-- A token that is no bracket, no step operator and no lone quote. -/
  | plain (item : Spanned) (isPlain : item.token.isPlain = true)
  | signed (number : SignedNumber)
  /-- An element with a step operator behind it. -/
  | stepped (element : Element) (mark : StepMark)
  /-- Between the brackets stand step operators with nothing to step, then the elements. -/
  | scope (delimiter : Delimiter) (opener : Span) (leading : List StepMark)
      (elements : List Element) (closer : Span)

namespace Element

mutual

/-- The tokens of an element. -/
def flatten : Element → List Spanned
  | .plain item _ => [item]
  | .signed number => number.tokens
  | .stepped element mark => element.flatten ++ [mark.token]
  | .scope delimiter opener leading elements closer =>
    ⟨.opener delimiter, opener⟩ ::
      (leading.map StepMark.token ++ flattenAll elements ++ [⟨.closer delimiter.closer, closer⟩])

/-- The tokens of a row of elements. -/
def flattenAll : List Element → List Spanned
  | [] => []
  | element :: others => element.flatten ++ flattenAll others

end

mutual

/-- The form of an element: a scope is closed over the forms of what stands in it. -/
def form : Element → Except Diagnostic Form
  | .plain item _ => .ok (.atom item.token.text)
  | .signed number => .ok (.atom (number.sign ++ number.number))
  | .stepped element mark => do return .group [← element.form, Ruby.stepCall mark.step]
  | .scope delimiter opener leading elements _ => do
    let forms ← forms elements
    Form.closeScope delimiter (leading.map (fun mark => Ruby.stepCall mark.step) ++ forms) opener

/-- The forms of a row of elements, one for each. -/
def forms : List Element → Except Diagnostic (List Form)
  | [] => .ok []
  | element :: others => do return (← element.form) :: (← forms others)

end

mutual

/-- The scopes in an element in the order in which they end, when the first token of the element has the
index `first` and stands in `depth` scopes. -/
def scopes (first depth : Nat) : Element → List Scope
  | .plain _ _ => []
  | .signed _ => []
  | .stepped element _ => element.scopes first depth
  | .scope delimiter _ leading elements _ =>
    scopesAll (first + 1 + leading.length) (depth + 1) elements ++
      [⟨delimiter, first + 1, first + 1 + leading.length + (flattenAll elements).length, depth + 1⟩]

/-- The scopes in a row of elements. -/
def scopesAll (first depth : Nat) : List Element → List Scope
  | [] => []
  | element :: others =>
    element.scopes first depth ++ scopesAll (first + element.flatten.length) depth others

end

mutual

/-- How many scopes stand inside each other in an element. -/
def nesting : Element → Nat
  | .plain _ _ => 0
  | .signed _ => 0
  | .stepped element _ => element.nesting
  | .scope _ _ _ elements _ => nestingAll elements + 1

/-- How many scopes stand inside each other in a row of elements. -/
def nestingAll : List Element → Nat
  | [] => 0
  | element :: others => max element.nesting (nestingAll others)

end

mutual

/-- What an element has to fulfil in a scope that is a short literal or not. -/
def WellFormed (literal : Bool) : Element → Prop
  | .plain _ _ => True
  | .signed _ => literal = true
  | .stepped element _ => element.WellFormed literal
  | .scope delimiter _ leading elements _ =>
    WellFormedAll delimiter.isShortLiteral elements ∧
      (delimiter = .shortMap → Even (leading.length + elements.length))

/-- What a row of elements has to fulfil: in a short literal, no sign touches the number behind it. -/
def WellFormedAll (literal : Bool) : List Element → Prop
  | [] => True
  | element :: others =>
    element.WellFormed literal ∧ WellFormedAll literal others ∧
      (literal = true →
        ∀ item ∈ (flattenAll others).head?, touchesSign element.flatten item = false)

end

mutual

/-- The tree that an element is read as. -/
def tree : Element → Tree
  | .plain item _ => .leaf item.token
  | .signed number => .signed number.sign number.number
  | .stepped element mark => .stepped element.tree mark.step
  | .scope delimiter _ leading elements _ =>
    .scope delimiter (leading.map StepMark.tree ++ trees elements)

/-- The trees that a row of elements is read as. -/
def trees : List Element → List Tree
  | [] => []
  | element :: others => element.tree :: trees others

end

/-- The offset at which the last token of an element ends. -/
def stop : Element → Nat
  | .plain item _ => item.span.stop
  | .signed number => number.numberSpan.stop
  | .stepped _ mark => mark.span.stop
  | .scope _ _ _ _ closer => closer.stop

theorem length_trees (elements : List Element) : (trees elements).length = elements.length := by
  induction elements with
  | nil => rfl
  | cons element others ih => simp [trees, ih]

theorem isLoneStep_tree (element : Element) : element.tree.isLoneStep = false := by
  cases element with
  | plain item isPlain => simpa [tree, Tree.isLoneStep] using Token.isStep_of_isPlain isPlain
  | _ => simp [tree, Tree.isLoneStep]

/-! ## The forms of trees -/

mutual

/-- The form of an element is that of the tree it is read as. -/
theorem form_eq : (element : Element) → ∀ {literal : Bool}, element.WellFormed literal →
    element.form = .ok element.tree.form
  | .plain item isPlain, _, _ => by
    rw [form, tree, Tree.form, Tree.leafForm_eq_atom (Token.isStep_of_isPlain isPlain)]
  | .signed number, _, _ => by
    rw [form, tree, Tree.form]
  | .stepped element mark, _, h => by
    rw [WellFormed] at h
    rw [form, element.form_eq h, tree, Tree.form]
    rfl
  | .scope delimiter opener leading elements closer, _, h => by
    rw [WellFormed] at h
    obtain ⟨helements, hpairs⟩ := h
    have hforms : Tree.forms (leading.map StepMark.tree ++ trees elements) =
        leading.map (fun mark => Ruby.stepCall mark.step) ++ Tree.forms (trees elements) := by
      simp [Tree.forms_eq_map, StepMark.tree, Tree.form, Tree.leafForm]
    have hkey : Form.unpairedKey? delimiter
        (leading.map (fun mark => Ruby.stepCall mark.step) ++ Tree.forms (trees elements)) = none := by
      rw [Form.unpairedKey?_eq_none_iff]
      simpa [Tree.forms_eq_map, length_trees] using hpairs
    rw [form, forms_eq elements helements, tree, Tree.form, hforms]
    simp only [bind, Except.bind, Form.closeScope, hkey]

/-- The forms of a row of elements are those of the trees they are read as. -/
theorem forms_eq : (elements : List Element) → ∀ {literal : Bool}, WellFormedAll literal elements →
    forms elements = .ok (Tree.forms (trees elements))
  | [], _, _ => by rw [forms, trees, Tree.forms]
  | element :: others, _, h => by
    rw [WellFormedAll] at h
    rw [forms, element.form_eq h.1, forms_eq others h.2.1, trees, Tree.forms]
    rfl

end

end Element

/-! ## Reading a tree -/

namespace Parser

variable {limit : Nat}

/-- The token does not join a sign that is the last element. -/
def Reading.Apart (reading : Reading) (item : Spanned) : Prop :=
  ∀ sign others, reading.elements = .leaf (.operator sign) :: others → ¬ reading.joins item sign

/-- Only words join a sign. -/
theorem Reading.apart_of_ne_word {item : Spanned} (h : ∀ text, item.token ≠ .word text)
    (reading : Reading) : reading.Apart item := by
  intro sign others _ hjoins
  obtain ⟨-, -, -, number, hnumber, -⟩ := hjoins
  exact h number hnumber

/-- Step operators with nothing to step are a run. -/
theorem Reads.leading (marks : List StepMark) {index : Nat} {reading : Reading}
    (h : ∀ element ∈ reading.elements.head?, element.isLoneStep = true) :
    ∃ edge, Reads limit index reading (marks.map StepMark.token)
      ⟨reading.frames, (marks.map StepMark.tree).reverse ++ reading.elements, edge⟩ [] := by
  induction marks generalizing index reading with
  | nil => exact ⟨reading.edge, .nil⟩
  | cons mark marks ih =>
    let middle : Reading := ⟨reading.frames, mark.tree :: reading.elements, mark.span.stop⟩
    have hread : reading.step limit index mark.token = .ok middle :=
      Reading.step_of_grows (.lone rfl h)
    obtain ⟨edge, hrest⟩ := @ih (index + 1) middle
      (by simp [middle, StepMark.tree, Tree.isLoneStep, Token.isStep])
    refine ⟨edge, ?_⟩
    have hrun := (Reads.single rfl hread).append hrest
    simpa [middle] using hrun

/-- Behind leading step operators nothing joins a sign. -/
theorem Reading.apart_leading (frames : List Frame) (marks : List StepMark) (edge : Nat)
    (item : Spanned) : Reading.Apart ⟨frames, (marks.map StepMark.tree).reverse, edge⟩ item := by
  intro sign others helements _
  have hmem : Tree.leaf (.operator sign) ∈ (marks.map StepMark.tree).reverse := by
    rw [show (marks.map StepMark.tree).reverse = _ from helements]
    exact List.mem_cons_self
  simp [StepMark.tree] at hmem

/-- Leading step operators and a run of elements behind them make the body of a scope. -/
theorem Reads.body (marks : List StepMark) {index edge : Nat} {frames : List Frame}
    {tokens : List Spanned} {trees : List Tree} {closed : List Scope}
    (helements : ∀ edge, ∃ last, Reads limit (index + marks.length)
      ⟨frames, (marks.map StepMark.tree).reverse, edge⟩ tokens
      ⟨frames, trees.reverse ++ (marks.map StepMark.tree).reverse, last⟩ closed) :
    ∃ last, Reads limit index ⟨frames, [], edge⟩ (marks.map StepMark.token ++ tokens)
      ⟨frames, (marks.map StepMark.tree ++ trees).reverse, last⟩ closed := by
  obtain ⟨middle, hleading⟩ :=
    @Reads.leading limit marks index ⟨frames, [], edge⟩ (by simp)
  obtain ⟨last, hrest⟩ := helements middle
  refine ⟨last, ?_⟩
  rw [List.append_nil] at hleading
  rw [List.reverse_append]
  exact hleading.append (by simpa using hrest)

/-- A sign and the number it touches are a run in a short literal. -/
theorem Reads.signed (signed : SignedNumber) {index : Nat} {reading : Reading}
    (h : inLiteral reading.frames = true) :
    Reads limit index reading signed.tokens
      ⟨reading.frames, .signed signed.sign signed.number :: reading.elements,
        signed.numberSpan.stop⟩ [] := by
  let middle : Reading :=
    ⟨reading.frames, .leaf (.operator signed.sign) :: reading.elements, signed.signSpan.stop⟩
  have hsign : reading.step limit index ⟨.operator signed.sign, signed.signSpan⟩ = .ok middle :=
    Reading.step_of_grows (.leaf rfl (Reading.apart_of_ne_word (by simp) reading))
  have hnumber : middle.step limit (index + 1) ⟨.word signed.number, signed.numberSpan⟩ = .ok _ :=
    Reading.step_of_grows (.signed rfl rfl
      ⟨h, signed.isSign, signed.touches, signed.number, rfl, signed.isNumber⟩)
  exact (Reads.single rfl hsign).append (.single rfl hnumber)

end Parser

namespace Element

open Desugar.Parser

variable {limit : Nat}

/-- Behind an element that a number does not touch, the number joins nothing. -/
theorem apart_tree (element : Element) {frames : List Frame} {others : List Tree} {item : Spanned}
    (h : inLiteral frames = true → touchesSign element.flatten item = false) :
    Reading.Apart ⟨frames, element.tree :: others, element.stop⟩ item := by
  intro sign others' helements hjoins
  obtain ⟨htree, -⟩ := List.cons.inj helements
  obtain ⟨hliteral, hsign, hstart, number, hnumber, hdigit⟩ := hjoins
  cases element with
  | plain previous isPlain =>
    rw [tree, Tree.leaf.injEq] at htree
    have htouches : touchesSign [previous] item = true :=
      touchesSign_iff.mpr ⟨number, previous, hnumber, rfl, hdigit,
        Token.isSign_iff.mpr ⟨sign, htree, hsign⟩, hstart⟩
    have happart := h hliteral
    rw [flatten, htouches] at happart
    exact Bool.noConfusion happart
  | _ => simp [tree] at htree

mutual

/-- The tokens of an element are a run that adds its tree to the innermost scope and closes its
scopes. -/
theorem reads : (element : Element) → (index : Nat) → (reading : Reading) →
    element.WellFormed (inLiteral reading.frames) →
    reading.frames.length + element.nesting ≤ limit →
    (∀ item ∈ element.flatten.head?, reading.Apart item) →
    Reads limit index reading element.flatten
      ⟨reading.frames, element.tree :: reading.elements, element.stop⟩
      (element.scopes index reading.frames.length)
  | .plain item isPlain, index, reading, _, _, happart => by
    have hread : reading.step limit index item = .ok _ :=
      Reading.step_of_grows (.leaf isPlain (happart item rfl))
    rw [flatten, tree, stop, scopes]
    exact .single (Token.isCloser_of_isPlain isPlain) hread
  | .signed number, index, reading, hwell, _, _ => by
    rw [WellFormed] at hwell
    rw [flatten, tree, stop, scopes]
    exact .signed number hwell
  | .stepped element mark, index, reading, hwell, hroom, happart => by
    rw [WellFormed] at hwell
    rw [nesting] at hroom
    rw [flatten] at happart
    have hread := element.reads index reading hwell hroom (forall_head?_of_append happart)
    have hstep : Reading.step limit (index + element.flatten.length)
        ⟨reading.frames, element.tree :: reading.elements, element.stop⟩ mark.token = .ok _ :=
      Reading.step_of_grows (.stepped rfl rfl element.isLoneStep_tree)
    have hrun := hread.append (.single rfl hstep)
    rw [List.append_nil] at hrun
    rw [flatten, tree, stop, scopes]
    exact hrun
  | .scope delimiter opener leading elements closer, index, reading, hwell, hroom, _ => by
    rw [WellFormed] at hwell
    obtain ⟨helements, hpairs⟩ := hwell
    rw [nesting] at hroom
    let frames := ⟨delimiter, opener, index + 1, reading.elements⟩ :: reading.frames
    have hinner : frames.length + nestingAll elements ≤ limit := by
      rw [List.length_cons]
      omega
    obtain ⟨edge, hbody⟩ : ∃ edge, Reads limit (index + 1) ⟨frames, [], opener.stop⟩
        (leading.map StepMark.token ++ flattenAll elements)
        ⟨frames, (leading.map StepMark.tree ++ trees elements).reverse, edge⟩
        (scopesAll (index + 1 + leading.length) frames.length elements) :=
      Reads.body leading fun edge => readsAll elements (index + 1 + leading.length)
        ⟨frames, (leading.map StepMark.tree).reverse, edge⟩ helements hinner
        fun item _ => Reading.apart_leading _ _ _ item
    have hscope := Reads.scope closer (by omega) hbody (by simpa [length_trees] using hpairs)
    rw [List.length_append, List.length_map, ← Nat.add_assoc] at hscope
    rw [flatten, tree, stop, scopes]
    exact hscope

/-- The tokens of a row of elements are a run. -/
theorem readsAll : (elements : List Element) → (index : Nat) → (reading : Reading) →
    WellFormedAll (inLiteral reading.frames) elements →
    reading.frames.length + nestingAll elements ≤ limit →
    (∀ item ∈ (flattenAll elements).head?, reading.Apart item) →
    ∃ edge, Reads limit index reading (flattenAll elements)
      ⟨reading.frames, (trees elements).reverse ++ reading.elements, edge⟩
      (scopesAll index reading.frames.length elements)
  | [], index, reading, _, _, _ => by
    rw [flattenAll, trees, scopesAll]
    exact ⟨reading.edge, .nil⟩
  | element :: others, index, reading, hwell, hroom, happart => by
    rw [WellFormedAll] at hwell
    obtain ⟨helement, hothers, htouch⟩ := hwell
    rw [nestingAll] at hroom
    rw [flattenAll] at happart
    have hfirst := element.reads index reading helement (by omega) (forall_head?_of_append happart)
    have hroom' : reading.frames.length + nestingAll others ≤ limit := by omega
    obtain ⟨edge, hrest⟩ := readsAll others (index + element.flatten.length)
      ⟨reading.frames, element.tree :: reading.elements, element.stop⟩ hothers hroom'
      fun item hitem => element.apart_tree fun hliteral => htouch hliteral item hitem
    refine ⟨edge, ?_⟩
    rw [flattenAll, trees, scopesAll]
    simpa using hfirst.append hrest

end

end Element

/-! ## Documents -/

/-- A document: step operators with nothing to step, then elements. -/
structure Document where
  leading : List StepMark
  elements : List Element
  wellFormed : Element.WellFormedAll false elements

namespace Document

/-- The tokens of a document. -/
def flatten (document : Document) : List Spanned :=
  document.leading.map StepMark.token ++ Element.flattenAll document.elements

/-- The forms of a document: one for each leading step operator and one for each element. -/
def forms (document : Document) : Except Diagnostic (List Form) := do
  let forms ← Element.forms document.elements
  return document.leading.map (fun mark => Ruby.stepCall mark.step) ++ forms

/-- How many scopes stand inside each other in a document. -/
def nesting (document : Document) : Nat :=
  Element.nestingAll document.elements

/-- The scopes of a document in the order in which they end. -/
def scopes (document : Document) : List Scope :=
  Element.scopesAll document.leading.length 0 document.elements

/-- The trees that a document is read as. -/
def trees (document : Document) : List Tree :=
  document.leading.map StepMark.tree ++ Element.trees document.elements

theorem forms_eq (document : Document) : document.forms = .ok (Tree.forms document.trees) := by
  rw [forms, Element.forms_eq document.elements document.wellFormed, trees]
  simp [bind, Except.bind, pure, Except.pure, Tree.forms_eq_map, StepMark.tree, Tree.form,
    Tree.leafForm]

/-- The tokens of a document are a run from the start. -/
theorem reads (document : Document) {limit : Nat} (h : document.nesting ≤ limit) :
    ∃ edge, Parser.Reads limit 0 {} document.flatten ⟨[], document.trees.reverse, edge⟩
      document.scopes := by
  refine Parser.Reads.body document.leading fun edge => ?_
  have hrun := Element.readsAll document.elements (0 + document.leading.length)
    ⟨[], (document.leading.map StepMark.tree).reverse, edge⟩ document.wellFormed
    (by simpa [nesting] using h)
    fun item _ => Parser.Reading.apart_leading _ _ _ item
  simpa [scopes] using hrun

end Document

/-- Parsing undoes flattening.  The tokens of a document whose scopes nest within the limit are
accepted, all of them are read, the forms are those of the document's elements, one for each, and the
closed scopes are those of the document in the order in which they end. -/
theorem Parser.document_flatten (document : Document) {limit : Nat}
    (h : document.nesting ≤ limit) :
    ∃ trees, (Parser.start document.flatten limit).document =
        (.ok trees, ⟨[], document.flatten.length, document.scopes, limit⟩) ∧
      document.forms = .ok (Tree.forms trees) ∧
      trees.length = document.leading.length + document.elements.length := by
  obtain ⟨edge, hrun⟩ := document.reads h
  refine ⟨document.trees, ?_, document.forms_eq, ?_⟩
  · simpa using hrun.document_eq rfl
  · simp [Document.trees, Element.length_trees]

/-- The document `-- \h{++ -1 [x]-- (y++ z)} w++`. -/
def steppedMap : Document where
  leading := [⟨.decrement, ⟨0, 2⟩⟩]
  elements :=
    [.scope .shortMap ⟨3, 6⟩ [⟨.increment, ⟨6, 8⟩⟩]
      [.signed ⟨"-", ⟨9, 10⟩, "1", ⟨10, 11⟩, .inl rfl, by decide, rfl⟩,
       .stepped (.scope .bracket ⟨12, 13⟩ [] [.plain ⟨.word "x", ⟨13, 14⟩⟩ rfl] ⟨14, 15⟩)
        ⟨.decrement, ⟨15, 17⟩⟩,
       .scope .paren ⟨18, 19⟩ []
        [.stepped (.plain ⟨.word "y", ⟨19, 20⟩⟩ rfl) ⟨.increment, ⟨20, 22⟩⟩,
         .plain ⟨.word "z", ⟨23, 24⟩⟩ rfl] ⟨24, 25⟩] ⟨25, 26⟩,
     .stepped (.plain ⟨.word "w", ⟨27, 28⟩⟩ rfl) ⟨.increment, ⟨28, 30⟩⟩]
  wellFormed := by
    have heven : Even 4 := by decide
    simpa [Element.WellFormedAll, Element.WellFormed, Element.flattenAll, Element.flatten,
      SignedNumber.tokens, Delimiter.isShortLiteral, touchesSign, Token.isSign] using heven

/-- The scopes inside the map literal end before it does. -/
theorem Parser.document_flatten_steppedMap :
    steppedMap.nesting ≤ 2 ∧
      ∃ trees, (Parser.start steppedMap.flatten 2).document =
          (.ok trees, ⟨[], 17, [⟨.bracket, 6, 7, 2⟩, ⟨.paren, 10, 13, 2⟩, ⟨.shortMap, 2, 14, 1⟩], 2⟩) ∧
        Form.renderAll (Tree.forms trees) =
          ".pred[[.succ, -1], [[x].pred, (y.succz)]].to_hw.succ" := by
  have hnesting : steppedMap.nesting ≤ 2 := by decide
  obtain ⟨trees, hdocument, hforms, -⟩ := Parser.document_flatten steppedMap hnesting
  refine ⟨hnesting, trees, hdocument, ?_⟩
  have hrender : steppedMap.forms.map Form.renderAll =
      .ok ".pred[[.succ, -1], [[x].pred, (y.succz)]].to_hw.succ" := by
    rfl
  rw [hforms] at hrender
  exact Except.ok.inj hrender

end Desugar
