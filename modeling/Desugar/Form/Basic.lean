/-!
# Forms

A form is a piece of Ruby text on its way to the output: an atom of text, or a group of forms in a
row.  Its rendering is the concatenation of its atoms; nothing is put between them.
-/

namespace Desugar

/-- A piece of output text that keeps the grouping it was read with. -/
inductive Form where
  | atom (text : String)
  | group (parts : List Form)
  deriving Repr, Inhabited

namespace Form

mutual

/-- Equality of forms is decided part by part. -/
def decEq : (a b : Form) → Decidable (a = b)
  | .atom s, .atom t => decidable_of_iff (s = t) (by simp)
  | .group xs, .group ys =>
    match decEqAll xs ys with
    | .isTrue h => .isTrue (by rw [h])
    | .isFalse h => .isFalse (by simpa using h)
  | .atom _, .group _ | .group _, .atom _ => .isFalse (by simp)

/-- Equality of rows of forms. -/
def decEqAll : (xs ys : List Form) → Decidable (xs = ys)
  | [], [] => .isTrue rfl
  | x :: xs, y :: ys =>
    match decEq x y, decEqAll xs ys with
    | .isTrue h, .isTrue t => .isTrue (by rw [h, t])
    | .isFalse h, _ => .isFalse (by simp [h])
    | _, .isFalse t => .isFalse (by simp [t])
  | [], _ :: _ | _ :: _, [] => .isFalse (by simp)

end

instance : DecidableEq Form := decEq

/-- The text of an atom. -/
def atom? : Form → Option String
  | .atom text => some text
  | .group _ => none

mutual

/-- The text of a form. -/
def render : Form → String
  | .atom text => text
  | .group parts => renderAll parts

/-- The texts of the forms, one after the other. -/
def renderAll : List Form → String
  | [] => ""
  | form :: forms => form.render ++ renderAll forms

end

@[simp]
theorem render_atom (text : String) : (atom text).render = text := by
  simp [render]

@[simp]
theorem render_group (parts : List Form) : (group parts).render = renderAll parts := by
  simp [render]

@[simp]
theorem renderAll_nil : renderAll [] = "" := by
  simp [renderAll]

@[simp]
theorem renderAll_cons (form : Form) (forms : List Form) :
    renderAll (form :: forms) = form.render ++ renderAll forms := by
  simp [renderAll]

theorem renderAll_singleton (form : Form) : renderAll [form] = form.render := by
  simp

theorem renderAll_append (front back : List Form) :
    renderAll (front ++ back) = renderAll front ++ renderAll back := by
  induction front with
  | nil => simp
  | cons form forms ih => simp [ih, String.append_assoc]

end Form

end Desugar
