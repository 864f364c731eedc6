import Desugar.Diagnostic
import Desugar.Form.Ruby

/-!
# The meaning of a scope

What a bracketed scope stands for in Ruby, given the forms of its elements.

* `( … )` is a block when it starts with a method call on nothing (`.upcase`), is a single method
  reference (`&:upcase`) or has an arrow; any other pair of parentheses is kept.
* `{ … }` is always a block with the parameter `it`, to which the names before an arrow are added;
  around a single name it dispatches on that name.
* The short literals become lists, a map literal one of pairs, so it needs an even number of
  elements.
* `[ … ]` is kept.
-/

namespace Desugar.Form

/-- The forms before and after the first atom that is an arrow. -/
def splitArrow : List Form → Option (List Form × List Form)
  | [] => none
  | form :: forms =>
    if form.atom? = some Token.arrow.text then
      some ([], forms)
    else
      (splitArrow forms).map fun sides => (form :: sides.1, sides.2)

/-- The method that an atom such as `&:upcase` refers to. -/
def methodRef? (form : Form) : Option String :=
  match form.atom?.map String.toList with
  | some ('&' :: ':' :: name) => some (String.ofList name)
  | _ => none

/-- Whether a form is an atom that starts with a dot: a call without a receiver. -/
def isBareCall (form : Form) : Bool :=
  match form.atom?.map String.toList with
  | some ('.' :: _) => true
  | _ => false

/-- The method that the forms refer to when they are a single method reference. -/
def soleMethodRef? : List Form → Option String
  | [form] => form.methodRef?
  | _ => none

/-- Parentheses: a block on an implicit receiver, a method reference, a lambda, or plain
parentheses, in this order. -/
def ofParen (forms : List Form) : Form :=
  if forms.head?.any isBareCall then
    Ruby.lambda [Ruby.it] (.atom Ruby.it :: forms)
  else
    match soleMethodRef? forms with
    | some name => Ruby.lambda [Ruby.it] [.atom (Ruby.it ++ "." ++ name)]
    | none =>
      match splitArrow forms with
      | some (params, body) => Ruby.lambda (params.map render) body
      | none => Ruby.wrap "(" forms ")"

/-- A block whose first parameter is `it`; the names before an arrow, if there is one, are its
further parameters. -/
def ofBlock (forms : List Form) : Form :=
  match splitArrow forms with
  | some (params, body) => Ruby.lambda (Ruby.it :: params.map render) body
  | none => Ruby.lambda [Ruby.it] forms

/-- Braces: a dispatch on a single name, and a block otherwise. -/
def ofBrace : List Form → Form
  | [.atom name] =>
    if Ruby.isSymbol name then
      Ruby.lambda [Ruby.it] [.atom (Ruby.dispatch name)]
    else
      ofBlock [.atom name]
  | forms => ofBlock forms

/-- The elements two by two, as keys and values; an element left over is not among them. -/
def pairs {α : Type} : List α → List (α × α)
  | key :: value :: others => (key, value) :: pairs others
  | _ => []

/-- The element left over when the elements are taken two by two. -/
def unpaired? {α : Type} : List α → Option α
  | [] => none
  | [key] => some key
  | _ :: _ :: others => unpaired? others

/-- A map literal: the list of its pairs, made a map. -/
def ofShortMap (forms : List Form) : Form :=
  let entries := (pairs forms).map fun entry => "[" ++ Ruby.join [entry.1, entry.2] ++ "]"
  Ruby.wrap "[" [.atom (", ".intercalate entries)] "].to_h"

/-- An array literal. -/
def ofShortArray (forms : List Form) : Form :=
  Ruby.wrap "[" [.atom (Ruby.join forms)] "]"

/-- What a scope with these elements stands for.  Of a map literal with an odd number of elements,
which `closeScope` refuses, the last element is left out. -/
def ofScope : Delimiter → List Form → Form
  | .paren, forms => ofParen forms
  | .bracket, forms => Ruby.wrap "[" forms "]"
  | .brace, forms => ofBrace forms
  | .shortMap, forms => ofShortMap forms
  | .shortArray, forms => ofShortArray forms

/-- The key without a value that makes a scope with these elements a fault. -/
def unpairedKey? {α : Type} : Delimiter → List α → Option α
  | .shortMap, elements => unpaired? elements
  | _, _ => none

/-- What a scope stands for, or the fault of a map literal whose last key has no value.  The fault
is about the scope's opener, which stands at `opener`. -/
def closeScope (delimiter : Delimiter) (forms : List Form) (opener : Span) :
    Except Diagnostic Form :=
  match unpairedKey? delimiter forms with
  | some key => .error (.about .unpairedMapKey key.render opener)
  | none => .ok (ofScope delimiter forms)

end Desugar.Form
