import Desugar.Proofs.Sessions
import Desugar.Proofs.ShortLiterals

/-!
# The rules for scopes go by the kind of a token

When a scope closes, its elements are forms, and forms do not know the tokens they come from.  The
rules for parentheses and braces tell an arrow, a method reference, a name and a call on nothing by
the text of an atom alone.  A string that holds an arrow, or a scope that is rendered as a name,
must not set them off.

`Tree.ofParen` and `Tree.ofBrace` are the same rules over trees, where each test looks at the kind
of the token and at nothing else.  Two facts make them agree with the rules over forms:

* The text of a token tells its kind (`Token.Explains`), as far as the rules ask.
* What a closing scope hands to its rule is read from the tokens between its brackets, wherever in
  the stream the parser was started (`HandsOver.exists_pair`); so an atom among the elements is a
  single token of the scope's own level, and a scope or a stepped element is never an atom.
-/

namespace Desugar

open Brackets

namespace Parser

/-! ## What a closing scope is made of -/

variable {limit : Nat} {tokens front : List Spanned} {start next : Reading} {closed : List Scope}
  {delimiter : Delimiter} {elements : List Tree}

/-- A run that starts behind `offset` tokens is the run of a fresh parser, moved by them. -/
theorem Reads.exists_reached {offset : Nat}
    (h : Reads limit (offset + front.length) (start.shift offset) tokens next closed)
    (hstart : Reached limit front start) :
    ∃ last, Reached limit (front ++ tokens) last ∧ next = last.shift offset := by
  generalize hindex : offset + front.length = index at h
  generalize hreading : start.shift offset = reading at h
  induction h generalizing front start with
  | nil => exact ⟨start, by simpa using hstart, hreading.symm⟩
  | @cons index reading middle next item tokens closed read rest ih =>
    subst hindex hreading
    rw [Reading.step_shift] at read
    obtain ⟨unmoved, hstep, hmiddle⟩ := exists_of_map_ok read
    obtain ⟨last, hlast, hnext⟩ := ih (hstart.step hstep) (by simp [Nat.add_assoc]) hmiddle
    rw [List.append_assoc] at hlast
    exact ⟨last, hlast, hnext⟩

/-- The elements that are handed to the rule of a scope are what the tokens between its brackets are
read as. -/
theorem HandsOver.exists_pair (h : HandsOver limit tokens delimiter elements) :
    ∃ first inner, Pair tokens delimiter first inner ∧
      Body delimiter.isShortLiteral inner elements := by
  obtain @⟨skipped, front, back, item, reading, closed, scope, cut, reads, closes⟩ := h
  have hreads : Reads limit (skipped.length + ([] : List Spanned).length)
      (Reading.shift skipped.length {}) front reading closed := reads
  obtain ⟨last, hlast, rfl⟩ := hreads.exists_reached .start
  rw [List.nil_append] at hlast
  rw [Reading.closed?_shift] at closes
  obtain ⟨scope, hscope, rfl⟩ := Option.map_eq_some_iff.mp closes
  have hlayout := hlast.layout
  unfold Reading.closed? at hscope
  split at hscope
  · next bracket frame frames htoken hframes =>
    split at hscope
    · next hcloser =>
      obtain rfl := Option.some.inj hscope
      rw [hframes] at hlayout
      cases hlayout with
      | @inside _ _ _ outer inner opener around opens span first body =>
        refine ⟨(skipped ++ outer).length + 1, inner, ?_, body⟩
        refine ⟨skipped ++ outer, opener, item, back, ?_, rfl, opens, ?_, body.balanced⟩
        · rw [cut]
          simp
        · rw [htoken, ← hcloser]
          rfl
    · simp at hscope
  · simp at hscope

end Parser

/-! ## The text of a token tells its kind -/

/-- `token.Explains text`: whatever the rules for scopes take the text for, the token is. -/
structure Token.Explains (token : Token) (text : String) : Prop where
  arrow : text = "->" → token = .arrow
  methodRef : "&:".toList <+: text.toList → token = .methodRef text
  symbol : Ruby.isSymbol text = true → token = .word text
  bareCall : ".".toList <+: text.toList →
    token = .word text ∨ ∃ step, token = .step step ∧ Ruby.stepCall step = .atom text

/-- A step operator that stands alone becomes a call on nothing and reads as nothing else. -/
theorem Token.explains_stepCall {step : Step} {text : String}
    (h : Ruby.stepCall step = .atom text) : (Token.step step).Explains text := by
  have htext : text = ".succ" ∨ text = ".pred" := by
    cases step with
    | increment => exact .inl (Form.atom.inj h).symm
    | decrement => exact .inr (Form.atom.inj h).symm
  refine ⟨fun htext' => ?_, fun hstarts => ?_, fun hsymbol => ?_, fun _ => .inr ⟨step, rfl, h⟩⟩
  · rcases htext with rfl | rfl <;> exact absurd htext' (by decide)
  · rcases htext with rfl | rfl <;> exact absurd hstarts (by decide)
  · rcases htext with rfl | rfl <;> exact absurd hsymbol (by decide)

/-- The atom that a token becomes tells what the token is. -/
theorem Token.WellSpelled.explains {token : Token} {text : String} (h : token.WellSpelled)
    (hform : Tree.leafForm token = .atom text) : token.Explains text := by
  cases hstep : token.isStep with
  | true =>
    obtain ⟨step, rfl⟩ := Token.isStep_iff.mp hstep
    exact Token.explains_stepCall hform
  | false =>
    rw [Tree.leafForm_eq_atom hstep] at hform
    obtain rfl := Form.atom.inj hform
    refine ⟨h.eq_arrow, ?_, h.eq_word_of_isSymbol, ?_⟩
    · rintro ⟨name, hname⟩
      exact h.eq_methodRef hname.symm
    · rintro ⟨rest, hrest⟩
      obtain ⟨name, rfl⟩ := h.eq_word (by simp [← hrest])
      exact .inl rfl

/-! ## The rules by kind -/

namespace Tree

def isArrow : Tree → Bool
  | .leaf .arrow => true
  | _ => false

/-- The method that a method reference is about. -/
def methodName? : Tree → Option String
  | .leaf (.methodRef text) => some (String.ofList (text.toList.drop 2))
  | _ => none

/-- The name that a word is. -/
def symbol? : Tree → Option String
  | .leaf (.word text) => if Ruby.isSymbol text then some text else none
  | _ => none

/-- A call on nothing is a word that starts with a dot, or a step operator with nothing to step. -/
def isBareCall : Tree → Bool
  | .leaf (.word text) => text.toList.head? = some '.'
  | .leaf (.step _) => true
  | _ => false

/-- The trees before and after the first arrow. -/
def splitArrow : List Tree → Option (List Tree × List Tree)
  | [] => none
  | tree :: trees =>
    if tree.isArrow then
      some ([], trees)
    else
      (splitArrow trees).map fun sides => (tree :: sides.1, sides.2)

/-- What a test finds when there is one tree and no other. -/
def sole? (test : Tree → Option String) : List Tree → Option String
  | [tree] => test tree
  | _ => none

/-- Parentheses around the trees. -/
def ofParen (trees : List Tree) : Form :=
  if trees.head?.any isBareCall then
    Ruby.lambda [Ruby.it] (.atom Ruby.it :: forms trees)
  else
    match sole? methodName? trees with
    | some name => Ruby.lambda [Ruby.it] [.atom (Ruby.it ++ "." ++ name)]
    | none =>
      match splitArrow trees with
      | some (params, body) => Ruby.lambda ((forms params).map Form.render) (forms body)
      | none => Ruby.wrap "(" (forms trees) ")"

/-- Braces around the trees. -/
def ofBrace (trees : List Tree) : Form :=
  match sole? symbol? trees with
  | some name => Ruby.lambda [Ruby.it] [.atom (Ruby.dispatch name)]
  | none =>
    match splitArrow trees with
    | some (params, body) => Ruby.lambda (Ruby.it :: (forms params).map Form.render) (forms body)
    | none => Ruby.lambda [Ruby.it] (forms trees)

/-- A tree that the tests on forms take for what it is. -/
structure Transparent (tree : Tree) : Prop where
  arrow : tree.form.atom? = some Token.arrow.text ↔ tree.isArrow = true
  methodRef : tree.form.methodRef? = tree.methodName?
  symbol : tree.form.atom?.filter (Ruby.isSymbol ·) = tree.symbol?
  bareCall : tree.form.isBareCall = tree.isBareCall

/-- What is no atom passes none of the tests. -/
theorem Transparent.of_atom?_eq_none {tree : Tree} (hform : tree.form.atom? = none)
    (htree : ∀ token, tree ≠ .leaf token) : tree.Transparent := by
  have hkind : tree.isArrow = false ∧ tree.methodName? = none ∧ tree.symbol? = none ∧
      tree.isBareCall = false := by
    cases tree with
    | leaf token => exact absurd rfl (htree token)
    | _ => exact ⟨rfl, rfl, rfl, rfl⟩
  obtain ⟨harrow, hmethodRef, hsymbol, hbareCall⟩ := hkind
  refine ⟨by simp [hform, harrow], ?_, by simp [hform, hsymbol], ?_⟩
  · rw [hmethodRef, Form.methodRef?, hform]
    rfl
  · rw [hbareCall, Form.isBareCall, hform]
    rfl

section Leaf

variable {token : Token} {text : String}

theorem exists_leafForm_eq_atom (token : Token) : ∃ text, leafForm token = .atom text := by
  cases token with
  | step direction => cases direction <;> exact ⟨_, rfl⟩
  | _ => exact ⟨_, rfl⟩

theorem isArrow_leaf_iff (h : token.Explains text) (hform : leafForm token = .atom text) :
    (leaf token).isArrow = true ↔ text = Token.arrow.text := by
  constructor
  · intro harrow
    cases token with
    | arrow => exact (Form.atom.inj hform).symm
    | _ => simp [isArrow] at harrow
  · intro htext
    rw [h.arrow htext]
    rfl

theorem methodRef?_eq_methodName? (hspelled : token.WellSpelled) (h : token.Explains text)
    (hform : leafForm token = .atom text) :
    (Form.atom text).methodRef? = (leaf token).methodName? := by
  cases hname : (Form.atom text).methodRef? with
  | some name =>
    obtain ⟨text', htext, hchars⟩ := Form.of_methodRef?_eq_some hname
    obtain rfl := Form.atom.inj htext
    rw [h.methodRef ⟨name.toList, hchars.symm⟩, methodName?, hchars]
    simp
  | none =>
    cases token with
    | methodRef name =>
      -- the text of a method reference passes the test
      obtain ⟨c, rest, hchars, -⟩ := hspelled
      obtain rfl : name = text := Form.atom.inj hform
      simp [Form.methodRef?, Form.atom?, hchars] at hname
    | _ => rfl

theorem filter_isSymbol_eq_symbol? (h : token.Explains text)
    (hform : leafForm token = .atom text) :
    (some text).filter (Ruby.isSymbol ·) = (leaf token).symbol? := by
  by_cases hsymbol : Ruby.isSymbol text = true
  · rw [h.symbol hsymbol, symbol?, if_pos hsymbol, Option.filter_some, if_pos hsymbol]
  · rw [Option.filter_some, if_neg hsymbol]
    cases token with
    | word name =>
      obtain rfl : name = text := Form.atom.inj hform
      rw [symbol?, if_neg hsymbol]
    | _ => rfl

theorem isBareCall_leaf_iff (h : token.Explains text) (hform : leafForm token = .atom text) :
    (leaf token).isBareCall = true ↔ text.toList.head? = some '.' := by
  constructor
  · intro hbare
    cases token with
    | word name =>
      obtain rfl : name = text := Form.atom.inj hform
      simpa [isBareCall] using hbare
    | step direction =>
      cases direction with
      | increment => rw [← Form.atom.inj hform]; rfl
      | decrement => rw [← Form.atom.inj hform]; rfl
    | _ => simp [isBareCall] at hbare
  · intro hhead
    obtain ⟨rest, hchars⟩ := List.head?_eq_some_iff.mp hhead
    rcases h.bareCall ⟨rest, hchars.symm⟩ with htoken | ⟨step, htoken, -⟩
    · rw [htoken]
      simp [isBareCall, hhead]
    · rw [htoken]
      rfl

theorem transparent_leaf (h : token.WellSpelled) : (leaf token).Transparent := by
  obtain ⟨text, hform⟩ := exists_leafForm_eq_atom token
  have hexplains := h.explains hform
  refine ⟨?_, ?_, ?_, ?_⟩
  · rw [form, hform, isArrow_leaf_iff hexplains hform]
    exact Option.some_inj
  · rw [form, hform, methodRef?_eq_methodName? h hexplains hform]
  · rw [form, hform, ← filter_isSymbol_eq_symbol? hexplains hform]
    rfl
  · rw [form, hform, Bool.eq_iff_iff, Form.isBareCall_atom_iff,
      isBareCall_leaf_iff hexplains hform]

end Leaf

variable {trees : List Tree}

theorem splitArrow_forms (h : ∀ tree ∈ trees, tree.Transparent) :
    Form.splitArrow (forms trees) =
      (splitArrow trees).map fun sides => (forms sides.1, forms sides.2) := by
  induction trees with
  | nil => simp [forms, splitArrow, Form.splitArrow]
  | cons tree trees ih =>
    rw [forms, Form.splitArrow, splitArrow, ih fun other hother => h other (by simp [hother])]
    by_cases harrow : tree.isArrow = true
    · rw [if_pos harrow, if_pos ((h tree (by simp)).arrow.mpr harrow)]
      rfl
    · rw [if_neg harrow, if_neg (mt (h tree (by simp)).arrow.mp harrow), Option.map_map,
        Option.map_map]
      rfl

theorem ofParen_forms (h : ∀ tree ∈ trees, tree.Transparent) :
    Form.ofParen (forms trees) = ofParen trees := by
  have hbare : (forms trees).head?.any Form.isBareCall = trees.head?.any isBareCall := by
    cases trees with
    | nil => rfl
    | cons tree trees => simpa [forms] using (h tree (by simp)).bareCall
  have hsole : Form.soleMethodRef? (forms trees) = sole? methodName? trees := by
    match trees with
    | [] => rfl
    | [tree] => simpa [forms, Form.soleMethodRef?, sole?] using (h tree (by simp)).methodRef
    | _ :: _ :: _ => simp [forms, Form.soleMethodRef?, sole?]
  rw [Form.ofParen, ofParen, hbare, hsole, splitArrow_forms h]
  split
  · rfl
  · cases sole? methodName? trees with
    | some name => rfl
    | none => cases splitArrow trees <;> rfl

theorem ofBrace_forms (h : ∀ tree ∈ trees, tree.Transparent) :
    Form.ofBrace (forms trees) = ofBrace trees := by
  have hblock : Form.ofBlock (forms trees) = match splitArrow trees with
      | some (params, body) =>
        Ruby.lambda (Ruby.it :: (forms params).map Form.render) (forms body)
      | none => Ruby.lambda [Ruby.it] (forms trees) := by
    rw [Form.ofBlock, splitArrow_forms h]
    cases splitArrow trees <;> rfl
  unfold ofBrace
  rw [← hblock]
  rcases trees with _ | ⟨tree, _ | ⟨next, others⟩⟩
  · rfl
  · have hsymbol := (h tree (by simp)).symbol
    simp only [sole?, ← hsymbol]
    cases hform : tree.form with
    | group parts => simp [forms, hform, Form.ofBrace, Form.atom?]
    | atom name =>
      by_cases hname : Ruby.isSymbol name = true
      · simp [forms, hform, Form.ofBrace, Form.atom?, Option.filter, hname]
      · simp [forms, hform, Form.ofBrace, Form.atom?, Option.filter, hname]
  · simp [forms, Form.ofBrace, sole?]

end Tree

/-- Outside short literals every element is taken for what it is. -/
theorem Body.transparent {tokens : List Spanned} {trees : List Tree} {tree : Tree}
    (h : Body false tokens trees) (hspelled : ∀ item ∈ tokens, item.token.WellSpelled)
    (htree : tree ∈ trees) : tree.Transparent := by
  rcases h.mem_cases rfl htree with ⟨front, item, back, rfl, -, rfl⟩ | ⟨element, step, rfl⟩ |
    ⟨delimiter, elements, rfl⟩
  · exact Tree.transparent_leaf (hspelled item (by simp))
  · exact .of_atom?_eq_none rfl (by simp)
  · refine .of_atom?_eq_none ?_ (by simp)
    rw [Tree.form, Form.atom?_ofScope]

/-- An atom among the elements is a single token of the scope's own level, and its text tells what
that token is. -/
theorem Body.exists_explains {tokens : List Spanned} {trees : List Tree} {tree : Tree}
    {text : String}
    (h : Body false tokens trees) (hspelled : ∀ item ∈ tokens, item.token.WellSpelled)
    (htree : tree ∈ trees) (hform : tree.form = .atom text) :
    ∃ front item back, tokens = front ++ item :: back ∧ unclosed front = [] ∧
      tree = .leaf item.token ∧ item.token.Explains text := by
  rcases h.mem_cases rfl htree with ⟨front, item, back, rfl, hfront, rfl⟩ | ⟨element, step, rfl⟩ |
    ⟨delimiter, elements, rfl⟩
  · exact ⟨front, item, back, rfl, hfront, rfl, (hspelled item (by simp)).explains hform⟩
  · simp [Tree.form] at hform
  · have hatom := Form.atom?_ofScope delimiter (Tree.forms elements)
    rw [Tree.form] at hform
    simp [hform, Form.atom?] at hatom

/-! ## Scopes of a source -/

/-- In a source that has tokens, each atom that a parser hands to the rule for parentheses or braces
is one token of that scope, and the token is what the rule takes the atom for; so the rule comes to
what it would come to if it looked at the kinds of the tokens. -/
theorem rules_follow_token_kinds {source : String} {tokens : List Spanned}
    (htokens : tokenize source = .ok tokens) (limit : Nat) :
    (∀ elements, Parser.HandsOver limit tokens .paren elements →
      Form.ofParen (Tree.forms elements) = Tree.ofParen elements) ∧
    (∀ elements, Parser.HandsOver limit tokens .brace elements →
      Form.ofBrace (Tree.forms elements) = Tree.ofBrace elements) ∧
    ∀ delimiter elements, delimiter = .paren ∨ delimiter = .brace →
      Parser.HandsOver limit tokens delimiter elements →
      ∃ first inner, Pair tokens delimiter first inner ∧ Body false inner elements ∧
        ∀ tree ∈ elements, ∀ text, tree.form = .atom text →
          ∃ front item back, inner = front ++ item :: back ∧ unclosed front = [] ∧
            tree = .leaf item.token ∧ item.token.Explains text := by
  have hspelled := tokenize_wellSpelled htokens
  have hbody : ∀ delimiter elements, delimiter = .paren ∨ delimiter = .brace →
      Parser.HandsOver limit tokens delimiter elements →
      ∃ first inner, Pair tokens delimiter first inner ∧ Body false inner elements ∧
        ∀ item ∈ inner, item.token.WellSpelled := by
    intro delimiter elements hdelimiter hhanded
    obtain ⟨first, inner, hpair, hinner⟩ := hhanded.exists_pair
    refine ⟨first, inner, hpair, ?_, fun item hitem => hspelled item (hpair.subset hitem)⟩
    rcases hdelimiter with rfl | rfl <;> exact hinner
  refine ⟨?_, ?_, ?_⟩
  · intro elements hhanded
    obtain ⟨-, inner, -, hinner, hspelled⟩ := hbody .paren elements (.inl rfl) hhanded
    exact Tree.ofParen_forms fun tree htree => hinner.transparent hspelled htree
  · intro elements hhanded
    obtain ⟨-, inner, -, hinner, hspelled⟩ := hbody .brace elements (.inr rfl) hhanded
    exact Tree.ofBrace_forms fun tree htree => hinner.transparent hspelled htree
  · intro delimiter elements hdelimiter hhanded
    obtain ⟨first, inner, hpair, hinner, hspelled⟩ := hbody delimiter elements hdelimiter hhanded
    refine ⟨first, inner, hpair, hinner, ?_⟩
    intro tree htree text hform
    exact hinner.exists_explains hspelled htree hform

/-- The tokens of `("->" -> {"up"})`. -/
def quotedArrow : List Spanned :=
  [⟨.opener .paren, ⟨0, 1⟩⟩, ⟨.string "\"->\"", ⟨1, 5⟩⟩, ⟨.arrow, ⟨6, 8⟩⟩, ⟨.opener .brace, ⟨9, 10⟩⟩,
   ⟨.string "\"up\"", ⟨10, 14⟩⟩, ⟨.closer .curly, ⟨14, 15⟩⟩, ⟨.closer .round, ⟨15, 16⟩⟩]

/-- Strings that hold an arrow and a name, and a scope, in parentheses with an arrow. -/
theorem rules_follow_token_kinds_quotedArrow :
    tokenize "(\"->\" -> \x7b\"up\"\x7d)" = .ok quotedArrow ∧
      Form.ofBrace [.atom "\"up\""] = Tree.ofBrace [.leaf (.string "\"up\"")] ∧
      (Tree.ofBrace [.leaf (.string "\"up\"")]).render = "\x7b|it|\"up\"\x7d" ∧
      ∀ elements, elements = [Tree.leaf (.string "\"->\""), .leaf .arrow,
          .scope .brace [.leaf (.string "\"up\"")]] →
        Form.ofParen (Tree.forms elements) = Tree.ofParen elements ∧
        (Tree.ofParen elements).render = "\x7b|\"->\"|\x7b|it|\"up\"\x7d\x7d" ∧
        ∃ first inner, Pair quotedArrow .paren first inner ∧ Body false inner elements ∧
          ∃ front item back, inner = front ++ item :: back ∧ unclosed front = [] ∧
            Tree.leaf .arrow = .leaf item.token ∧ item.token.Explains "->" := by
  have htokens : tokenize "(\"->\" -> \x7b\"up\"\x7d)" = .ok quotedArrow :=
    eq_ok_of_toOption_eq_some (by decide +kernel)
  have hbrace : Parser.HandsOver 2 quotedArrow .brace [.leaf (.string "\"up\"")] :=
    @Parser.HandsOver.intro 2 quotedArrow [] (quotedArrow.take 5) (quotedArrow.drop 6)
      ⟨.closer .curly, ⟨14, 15⟩⟩ _ _ ⟨.brace, 4, 5, 2⟩ rfl
      (.cons rfl (.cons rfl (.cons rfl (.cons rfl (.cons rfl .nil))))) rfl
  have hparen : Parser.HandsOver 2 quotedArrow .paren [.leaf (.string "\"->\""), .leaf .arrow,
      .scope .brace [.leaf (.string "\"up\"")]] :=
    @Parser.HandsOver.intro 2 quotedArrow [] (quotedArrow.take 6) []
      ⟨.closer .round, ⟨15, 16⟩⟩ _ _ ⟨.paren, 1, 6, 1⟩ rfl
      (.cons rfl (.cons rfl (.cons rfl (.cons rfl (.cons rfl (.cons rfl .nil)))))) rfl
  obtain ⟨hparens, hbraces, hatoms⟩ := rules_follow_token_kinds htokens 2
  refine ⟨htokens, hbraces _ hbrace, by decide, ?_⟩
  rintro elements rfl
  obtain ⟨first, inner, hpair, hbody, hexplains⟩ := hatoms .paren _ (.inl rfl) hparen
  exact ⟨hparens _ hparen, by decide, first, inner, hpair, hbody,
    hexplains (.leaf .arrow) (by simp) "->" rfl⟩

end Desugar
