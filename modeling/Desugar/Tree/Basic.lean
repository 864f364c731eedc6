import Desugar.Form.Scope

/-!
# Trees

What the parser makes of a stream of tokens: each bracketed scope is a node over its elements.  A
tree keeps every token it was read from (`Tree.tokens`), and it has one meaning as a form
(`Tree.form`).
-/

namespace Desugar

/-- An element of a scope, or of the top level. -/
inductive Tree where
  /-- A token on its own.  A step operator with nothing to step is one too. -/
  | leaf (token : Token)
  /-- A sign and the number it touches, inside a short literal. -/
  | signed (sign number : String)
  /-- An element and the step operator behind it. -/
  | stepped (element : Tree) (step : Step)
  /-- A bracketed scope and its elements. -/
  | scope (delimiter : Delimiter) (elements : List Tree)
  deriving Repr, Inhabited

namespace Tree

mutual

/-- Equality of trees is decided part by part. -/
def decEq : (a b : Tree) → Decidable (a = b)
  | .leaf s, .leaf t => decidable_of_iff (s = t) (by simp)
  | .signed sign number, .signed sign' number' =>
    decidable_of_iff (sign = sign' ∧ number = number') (by simp)
  | .stepped element step, .stepped element' step' =>
    match decEq element element' with
    | .isTrue h => decidable_of_iff (step = step') (by simp [h])
    | .isFalse h => .isFalse (by simp [h])
  | .scope delimiter elements, .scope delimiter' elements' =>
    match decEqAll elements elements' with
    | .isTrue h => decidable_of_iff (delimiter = delimiter') (by simp [h])
    | .isFalse h => .isFalse (by simp [h])
  | .leaf _, .signed _ _ | .leaf _, .stepped _ _ | .leaf _, .scope _ _
  | .signed _ _, .leaf _ | .signed _ _, .stepped _ _ | .signed _ _, .scope _ _
  | .stepped _ _, .leaf _ | .stepped _ _, .signed _ _ | .stepped _ _, .scope _ _
  | .scope _ _, .leaf _ | .scope _ _, .signed _ _ | .scope _ _, .stepped _ _ => .isFalse (by simp)

/-- Equality of rows of trees. -/
def decEqAll : (xs ys : List Tree) → Decidable (xs = ys)
  | [], [] => .isTrue rfl
  | x :: xs, y :: ys =>
    match decEq x y, decEqAll xs ys with
    | .isTrue h, .isTrue t => .isTrue (by rw [h, t])
    | .isFalse h, _ => .isFalse (by simp [h])
    | _, .isFalse t => .isFalse (by simp [t])
  | [], _ :: _ | _ :: _, [] => .isFalse (by simp)

end

instance : DecidableEq Tree := decEq

/-- A step operator that found nothing to step. -/
def isLoneStep : Tree → Bool
  | .leaf token => token.isStep
  | _ => false

/-- The form of a single token. -/
def leafForm : Token → Form
  | .step step => Ruby.stepCall step
  | token => .atom token.text

mutual

/-- The form that a tree stands for. -/
def form : Tree → Form
  | .leaf token => leafForm token
  | .signed sign number => .atom (sign ++ number)
  | .stepped element step => .group [element.form, Ruby.stepCall step]
  | .scope delimiter elements => Form.ofScope delimiter (forms elements)

/-- The forms of a row of trees. -/
def forms : List Tree → List Form
  | [] => []
  | tree :: trees => tree.form :: forms trees

end

mutual

/-- The tokens that a tree is read from. -/
def tokens : Tree → List Token
  | .leaf token => [token]
  | .signed sign number => [.operator sign, .word number]
  | .stepped element step => element.tokens ++ [.step step]
  | .scope delimiter elements =>
    .opener delimiter :: tokensAll elements ++ [.closer delimiter.closer]

/-- The tokens that a row of trees is read from. -/
def tokensAll : List Tree → List Token
  | [] => []
  | tree :: trees => tree.tokens ++ tokensAll trees

end

theorem forms_eq_map (trees : List Tree) : forms trees = trees.map form := by
  induction trees with
  | nil => simp [forms]
  | cons tree trees ih => simp [forms, ih]

end Tree

end Desugar
