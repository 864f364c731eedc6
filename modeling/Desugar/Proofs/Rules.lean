import Desugar.Proofs.Arrow

/-!
# The rules for scopes

`Form.ofScope` decides by a chain of tests what a scope stands for.  `Form.Rule` lists the outcomes
of that chain, one constructor for each, with what the forms of the scope look like when it is taken.
A fact about all scopes is then a case analysis on the rules, and the tests need not be opened again
(`rule_ofScope`).
-/

namespace Desugar.Form

/-- Where an arrow is found, the forms are those before it, the arrow and those behind it. -/
theorem eq_of_splitArrow {forms params body : List Form}
    (h : splitArrow forms = some (params, body)) :
    forms = params ++ .atom "->" :: body := by
  induction forms generalizing params with
  | nil => simp [splitArrow] at h
  | cons form forms ih =>
    rw [splitArrow] at h
    split at h
    · next harrow =>
      obtain ⟨rfl, rfl⟩ : [] = params ∧ forms = body := by simpa using h
      cases form with
      | atom text => simpa [atom?, Token.text] using harrow
      | group parts => simp [atom?] at harrow
    · obtain ⟨⟨before, after⟩, hsides, hpair⟩ := Option.map_eq_some_iff.mp h
      obtain ⟨rfl, rfl⟩ : form :: before = params ∧ after = body := by simpa using hpair
      rw [ih hsides, List.cons_append]

/-- What a scope with these forms can stand for. -/
inductive Rule : Delimiter → List Form → Form → Prop
  /-- A call on nothing is made on the argument of a block. -/
  | receiver {first : Form} {others : List Form} (bare : first.isBareCall = true) :
      Rule .paren (first :: others) (Ruby.lambda [Ruby.it] (.atom Ruby.it :: first :: others))
  | methodRef {form : Form} {name : String} (refers : form.methodRef? = some name) :
      Rule .paren [form] (Ruby.lambda [Ruby.it] [.atom (Ruby.it ++ "." ++ name)])
  | arrow {delimiter : Delimiter} {params body : List Form}
      (takes : delimiter = .paren ∨ delimiter = .brace) :
      Rule delimiter (params ++ .atom "->" :: body)
        (Ruby.lambda (implicitParams delimiter ++ params.map render) body)
  | paren {forms : List Form} : Rule .paren forms (Ruby.wrap "(" forms ")")
  | bracket {forms : List Form} : Rule .bracket forms (Ruby.wrap "[" forms "]")
  | dispatch {name : String} (symbol : Ruby.isSymbol name = true) :
      Rule .brace [.atom name] (Ruby.lambda [Ruby.it] [.atom (Ruby.dispatch name)])
  | block {forms : List Form} : Rule .brace forms (Ruby.lambda [Ruby.it] forms)
  | shortMap {forms : List Form} : Rule .shortMap forms (ofShortMap forms)
  | shortArray {forms : List Form} : Rule .shortArray forms (ofShortArray forms)

theorem rule_ofParen (forms : List Form) : Rule .paren forms (ofParen forms) := by
  unfold ofParen
  split
  · next hbare =>
    cases forms with
    | nil => simp at hbare
    | cons first others => exact .receiver (by simpa using hbare)
  · split
    · next name hname =>
      unfold soleMethodRef? at hname
      split at hname
      · exact .methodRef hname
      · simp at hname
    · split
      · next params body hsplit =>
        rw [eq_of_splitArrow hsplit]
        exact .arrow (.inl rfl)
      · exact .paren

theorem rule_ofBlock (forms : List Form) : Rule .brace forms (ofBlock forms) := by
  unfold ofBlock
  split
  · next params body hsplit =>
    rw [eq_of_splitArrow hsplit]
    exact .arrow (.inr rfl)
  · exact .block

/-- What a scope stands for follows one of the rules. -/
theorem rule_ofScope (delimiter : Delimiter) (forms : List Form) :
    Rule delimiter forms (ofScope delimiter forms) := by
  cases delimiter with
  | paren => exact rule_ofParen forms
  | bracket => exact .bracket
  | brace =>
    simp only [ofScope]
    unfold ofBrace
    split
    · split
      · next hsymbol => exact .dispatch hsymbol
      · exact rule_ofBlock _
    · exact rule_ofBlock _
  | shortMap => exact .shortMap
  | shortArray => exact .shortArray

end Desugar.Form
