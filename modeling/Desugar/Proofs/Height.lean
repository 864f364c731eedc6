import Desugar.Proofs.Acceptance
import Desugar.Proofs.Flattening
import Desugar.Proofs.Rules
import Mathlib.Data.List.DropRight
import Mathlib.Order.Bounds.Basic

/-!
# How deep rendering recurses

A form is rendered by recursion on its groups, so its height is the depth of the recursion.  A scope
adds one group to the forms in it, whatever it stands for (`Form.height_ofScope_le`), and the nesting
of scopes is limited.  But a step operator adds a group too, and the number of step operators behind
one another is not limited.

So the limit alone does not bound the height (`Parser.not_exists_height_bound`).  It does together
with the length of the longest run of step operators, and `Parser.isGreatest_height` gives the
height that is reached: `limit` scopes inside each other and the element in the innermost one, each
with a run of step operators behind it.
-/

namespace Desugar

open Brackets

/-! ## The height of forms -/

namespace Form

mutual

/-- How many calls are active at once while a form is rendered. -/
def height : Form → Nat
  | .atom _ => 1
  | .group parts => heightAll parts + 1

/-- The height of the highest of the forms. -/
def heightAll : List Form → Nat
  | [] => 0
  | form :: forms => max form.height (heightAll forms)

end

theorem heightAll_le_iff {forms : List Form} {bound : Nat} :
    heightAll forms ≤ bound ↔ ∀ form ∈ forms, form.height ≤ bound := by
  induction forms with
  | nil => simp [heightAll]
  | cons form forms ih => simp [heightAll, ih]

theorem one_le_height (form : Form) : 1 ≤ form.height := by
  cases form <;> simp [height]

/-- A group of two forms is one higher than the higher one. -/
theorem height_stepped (form : Form) (step : Step) :
    (group [form, Ruby.stepCall step]).height = form.height + 1 := by
  have hcall : (Ruby.stepCall step).height = 1 := by cases step <;> simp [Ruby.stepCall, height]
  simp [height, heightAll, hcall, one_le_height]

theorem height_wrap_le {opening closing : String} {body : List Form} {bound : Nat}
    (hbound : 1 ≤ bound) (hbody : ∀ form ∈ body, form.height ≤ bound) :
    (Ruby.wrap opening body closing).height ≤ bound + 1 := by
  rw [Ruby.wrap, height, Nat.add_le_add_iff_right, heightAll_le_iff]
  simpa [or_imp, forall_and, height, hbound] using hbody

/-- A scope is at most one higher than the forms in it. -/
theorem height_ofScope_le {delimiter : Delimiter} {forms : List Form} {bound : Nat}
    (hbound : 1 ≤ bound) (hforms : ∀ form ∈ forms, form.height ≤ bound) :
    (ofScope delimiter forms).height ≤ bound + 1 := by
  have hrule := rule_ofScope delimiter forms
  generalize ofScope delimiter forms = form at hrule
  cases hrule with
  | receiver => exact height_wrap_le hbound (by simpa [height, hbound] using hforms)
  | methodRef => exact height_wrap_le hbound (by simpa [height] using hbound)
  | @arrow _ params body =>
    refine height_wrap_le hbound fun form hform => hforms form ?_
    exact List.mem_append_right _ (List.mem_cons_of_mem _ hform)
  | paren => exact height_wrap_le hbound hforms
  | bracket => exact height_wrap_le hbound hforms
  | dispatch => exact height_wrap_le hbound (by simpa [height] using hbound)
  | block => exact height_wrap_le hbound hforms
  | shortMap => exact height_wrap_le hbound (by simpa [height] using hbound)
  | shortArray => exact height_wrap_le hbound (by simpa [height] using hbound)

end Form

theorem Tree.height_leaf (token : Token) : (Tree.leaf token).form.height = 1 := by
  cases token with
  | step step => cases step <;> simp [Tree.form, Tree.leafForm, Ruby.stepCall, Form.height]
  | _ => simp [Tree.form, Tree.leafForm, Form.height]

/-! ## Runs of step operators -/

namespace Brackets

/-- No more than `run` step operators stand behind one another. -/
def StepRunsAtMost (run : Nat) (tokens : List Spanned) : Prop :=
  ∀ steps, steps <:+: tokens → (∀ item ∈ steps, item.token.isStep = true) → steps.length ≤ run

namespace StepRunsAtMost

variable {run : Nat} {tokens front back : List Spanned} {item : Spanned}

theorem of_infix (h : StepRunsAtMost run tokens) (hpart : front <:+: tokens) :
    StepRunsAtMost run front :=
  fun steps hsteps => h steps (hsteps.trans hpart)

/-- The number of step operators that the tokens end with. -/
theorem length_rtakeWhile_le (h : StepRunsAtMost run tokens) :
    (tokens.rtakeWhile (·.token.isStep)).length ≤ run :=
  h _ (List.rtakeWhile_suffix _ _).isInfix fun _ => List.mem_rtakeWhile_imp

/-- A token that is no step operator ends a run. -/
theorem append_cons (hfront : StepRunsAtMost run front) (hback : StepRunsAtMost run back)
    (hitem : item.token.isStep = false) : StepRunsAtMost run (front ++ item :: back) := by
  rintro steps ⟨before, after, hcut⟩ hsteps
  have hmem : item ∉ steps := fun hmem => by simp [hsteps item hmem] at hitem
  rw [List.append_assoc] at hcut
  rcases List.append_eq_append_iff.mp hcut with ⟨middle, rfl, hrest⟩ | ⟨middle, rfl, hrest⟩
  · rcases List.append_eq_append_iff.mp hrest with ⟨rest, rfl, -⟩ | ⟨rest, hsteps', hrest'⟩
    · exact hfront steps ⟨before, rest, by simp⟩ hsteps
    · cases rest with
      | nil => exact hfront steps ⟨before, [], by simp [hsteps']⟩ hsteps
      | cons other rest =>
        obtain ⟨rfl, -⟩ := List.cons.inj hrest'
        exact absurd (by simp [hsteps']) hmem
  · cases middle with
    | nil =>
      cases steps with
      | nil => simp
      | cons other steps =>
        obtain ⟨rfl, -⟩ := List.cons.inj hrest
        exact absurd (by simp) hmem
    | cons other middle =>
      obtain ⟨-, rfl⟩ := List.cons.inj hrest
      exact hback steps ⟨middle, after, by simp⟩ hsteps

theorem of_length_le (h : tokens.length ≤ run) : StepRunsAtMost run tokens :=
  fun _ hsteps _ => hsteps.length_le.trans h

end StepRunsAtMost

end Brackets

/-! ## The upper bound -/

namespace Brackets

/-- At most `depth` scopes are open at once, and at most `run` step operators stand behind one
another. -/
structure Within (depth run : Nat) (tokens : List Spanned) : Prop where
  unclosed_le : ∀ front, front <+: tokens → (unclosed front).length ≤ depth
  runs_le : StepRunsAtMost run tokens

variable {depth run : Nat} {front inner back : List Spanned}

theorem Within.of_append (h : Within depth run (front ++ back)) : Within depth run front where
  unclosed_le start hstart := h.unclosed_le start (hstart.trans (List.prefix_append _ _))
  runs_le := h.runs_le.of_infix (List.prefix_append _ _).isInfix

/-- In a nested scope, one opener less can be unclosed. -/
theorem Within.nested {opener : Spanned} {delimiter : Delimiter}
    (h : Within depth run (front ++ opener :: (inner ++ back)))
    (hopener : opener.token = .opener delimiter) (hinner : Balanced inner) :
    ∃ less, depth = less + 1 ∧ Within less run inner := by
  have hlt : ∀ start, start <+: inner → (unclosed start).length + 1 ≤ depth := by
    rintro start ⟨rest, rfl⟩
    have hstart := h.unclosed_le (front ++ [opener] ++ start) ⟨rest ++ back, by simp⟩
    rw [unclosed_append hinner.closersMatch.of_append, unclosed_concat, track_opener hopener,
      List.length_append, List.length_cons] at hstart
    omega
  have hpositive := hlt [] List.nil_prefix
  refine ⟨depth - 1, by omega, fun start hstart => ?_, ?_⟩
  · have := hlt start hstart
    omega
  · exact h.runs_le.of_infix ⟨front ++ [opener], back, by simp⟩

end Brackets

/-- How high the trees of a body are that is within these bounds.  The last tree may still get more
step operators, so its height is told by those it has. -/
structure Tree.Heights (depth run : Nat) (tokens : List Spanned) (trees : List Tree) : Prop where
  all : ∀ tree ∈ trees, tree.form.height ≤ (depth + 1) * (run + 1)
  last : ∀ tree ∈ trees.getLast?,
    tree.form.height ≤ depth * (run + 1) + 1 + (tokens.rtakeWhile (·.token.isStep)).length

theorem Tree.Heights.concat {depth run : Nat} {tokens : List Spanned} {trees : List Tree}
    {tree : Tree} (hwithin : Within depth run tokens)
    (htrees : ∀ tree ∈ trees, tree.form.height ≤ (depth + 1) * (run + 1))
    (htree : tree.form.height ≤
      depth * (run + 1) + 1 + (tokens.rtakeWhile (·.token.isStep)).length) :
    Tree.Heights depth run tokens (trees ++ [tree]) := by
  have hrun := hwithin.runs_le.length_rtakeWhile_le
  refine ⟨fun other hother => ?_, by simpa using htree⟩
  rcases List.mem_append.mp hother with hother | hother
  · exact htrees other hother
  · rw [List.mem_singleton.mp hother, Nat.succ_mul]
    omega

/-- The trees of a body are as high as its scopes and its runs of step operators allow. -/
theorem Body.heights {literal : Bool} {depth run : Nat} {tokens : List Spanned} {trees : List Tree}
    (h : Body literal tokens trees) (hwithin : Within depth run tokens) :
    Tree.Heights depth run tokens trees := by
  induction h generalizing depth with
  | nil => exact ⟨by simp, by simp⟩
  | leaf _ _ _ ih =>
    refine .concat hwithin (ih hwithin.of_append).all ?_
    rw [Tree.height_leaf]
    omega
  | lone _ _ _ ih =>
    refine .concat hwithin (ih hwithin.of_append).all ?_
    rw [Tree.height_leaf]
    omega
  | @stepped _ tokens trees tree item step _ token _ ih =>
    have hbefore := ih hwithin.of_append
    have htree := hbefore.last tree (by simp)
    refine .concat hwithin (fun other hother => hbefore.all other (by simp [hother])) ?_
    rw [Tree.form, Form.height_stepped,
      List.rtakeWhile_concat_pos _ _ _ (by simp [token, Token.isStep]), List.length_append,
      List.length_singleton]
    omega
  | signed _ _ _ ih =>
    have hbefore := ih hwithin.of_append
    refine .concat hwithin (fun other hother => hbefore.all other (by simp [hother])) ?_
    rw [Tree.form, Form.height]
    omega
  | @scope _ tokens inner trees elements opener closer delimiter _ body opens _ _ ih ihBody =>
    obtain ⟨less, rfl, hinner⟩ := hwithin.nested opens body.balanced
    have hforms : ∀ form ∈ Tree.forms elements, form.height ≤ (less + 1) * (run + 1) := by
      intro form hform
      rw [Tree.forms_eq_map, List.mem_map] at hform
      obtain ⟨tree, htree, rfl⟩ := hform
      exact (ihBody hinner).all tree htree
    refine .concat hwithin (ih hwithin.of_append).all ?_
    rw [Tree.form]
    have hpositive : 1 ≤ (less + 1) * (run + 1) := Nat.mul_pos (by omega) (by omega)
    have hscope : (Form.ofScope delimiter (Tree.forms elements)).height ≤ _ :=
      Form.height_ofScope_le hpositive hforms
    omega

namespace Parser

/-- The forms of a document are no higher than its scopes and its runs of step operators allow. -/
theorem height_le_of_document_eq_ok {limit run : Nat} {tokens : List Spanned} {trees : List Tree}
    (h : (Parser.start tokens limit).document.1 = .ok trees) (hruns : StepRunsAtMost run tokens) :
    ∀ tree ∈ trees, tree.form.height ≤ (limit + 1) * (run + 1) := by
  obtain ⟨reading, hreading, -⟩ := accepts_iff_reached.mp ⟨trees, h⟩
  have hwithin : Within limit run tokens := by
    refine ⟨?_, hruns⟩
    rintro front ⟨back, rfl⟩
    obtain ⟨before, hbefore⟩ := hreading.exists_of_append
    rw [hbefore.layout.unclosed_eq, List.length_map]
    exact hbefore.length_frames_le
  exact ((body_of_document_eq_ok h).heights hwithin).all

end Parser

/-! ## The bound is reached -/

namespace Element

/-- The element with `run` step operators behind it. -/
def steppedTimes (element : Element) : Nat → Element
  | 0 => element
  | run + 1 => .stepped (element.steppedTimes run) ⟨.increment, ⟨0, 0⟩⟩

/-- A word in `depth` brackets, with `run` step operators behind the word and behind each bracket. -/
def tower (run : Nat) : Nat → Element
  | 0 => steppedTimes (.plain ⟨.word "x", ⟨0, 0⟩⟩ rfl) run
  | depth + 1 => steppedTimes (.scope .bracket ⟨0, 0⟩ [] [tower run depth] ⟨0, 0⟩) run

variable (element : Element) (run depth : Nat)

theorem wellFormed_steppedTimes {literal : Bool} :
    (element.steppedTimes run).WellFormed literal ↔ element.WellFormed literal := by
  induction run with
  | zero => rfl
  | succ run ih => rw [steppedTimes, WellFormed, ih]

theorem nesting_steppedTimes : (element.steppedTimes run).nesting = element.nesting := by
  induction run with
  | zero => rfl
  | succ run ih => rw [steppedTimes, nesting, ih]

theorem height_steppedTimes :
    (element.steppedTimes run).tree.form.height = element.tree.form.height + run := by
  induction run with
  | zero => rfl
  | succ run ih => rw [steppedTimes, tree, Tree.form, Form.height_stepped, ih, Nat.add_assoc]

theorem flatten_steppedTimes : (element.steppedTimes run).flatten =
    element.flatten ++ List.replicate run ⟨.step .increment, ⟨0, 0⟩⟩ := by
  induction run with
  | zero => simp [steppedTimes]
  | succ run ih => simp [steppedTimes, flatten, ih, StepMark.token, List.replicate_succ']

theorem wellFormed_tower (literal : Bool) : (tower run depth).WellFormed literal := by
  induction depth generalizing literal with
  | zero => simp [tower, wellFormed_steppedTimes, WellFormed]
  | succ depth ih => simp [tower, wellFormed_steppedTimes, WellFormed, WellFormedAll, ih, flattenAll]

theorem nesting_tower : (tower run depth).nesting = depth := by
  induction depth with
  | zero => simp [tower, nesting_steppedTimes, nesting]
  | succ depth ih => simp [tower, nesting_steppedTimes, nesting, nestingAll, ih]

theorem stepRunsAtMost_tower : StepRunsAtMost run (tower run depth).flatten := by
  have hsteps : StepRunsAtMost run (List.replicate run ⟨.step .increment, ⟨0, 0⟩⟩) :=
    .of_length_le (by simp)
  have hnil : StepRunsAtMost run [] := .of_length_le (by simp)
  induction depth with
  | zero =>
    have hflatten : (tower run 0).flatten =
        [] ++ ⟨.word "x", ⟨0, 0⟩⟩ :: List.replicate run ⟨.step .increment, ⟨0, 0⟩⟩ := by
      simp [tower, flatten_steppedTimes, flatten]
    rw [hflatten]
    exact hnil.append_cons hsteps rfl
  | succ depth ih =>
    have hinner : StepRunsAtMost run (⟨.opener .bracket, ⟨0, 0⟩⟩ :: (tower run depth).flatten) :=
      hnil.append_cons ih rfl
    have hflatten : (tower run (depth + 1)).flatten =
        ⟨.opener .bracket, ⟨0, 0⟩⟩ :: (tower run depth).flatten ++
          ⟨.closer .square, ⟨0, 0⟩⟩ :: List.replicate run ⟨.step .increment, ⟨0, 0⟩⟩ := by
      simp [tower, flatten_steppedTimes, flatten, flattenAll, Delimiter.closer]
    rw [hflatten]
    exact hinner.append_cons hsteps rfl

theorem height_tower : (tower run depth).tree.form.height = (depth + 1) * (run + 1) := by
  induction depth with
  | zero =>
    have hword : (plain ⟨.word "x", ⟨0, 0⟩⟩ rfl).tree.form.height = 1 := Tree.height_leaf _
    rw [tower, height_steppedTimes, hword]
    omega
  | succ depth ih =>
    have hscope : ∀ element : Element,
        (scope .bracket ⟨0, 0⟩ [] [element] ⟨0, 0⟩).tree.form.height =
          element.tree.form.height + 1 := by
      intro element
      have hone := element.tree.form.one_le_height
      simp [tree, trees, Tree.form, Tree.forms, Form.ofScope, Ruby.wrap, Form.height, Form.heightAll,
        hone]
    rw [tower, height_steppedTimes, hscope, ih, Nat.succ_mul (depth + 1)]
    omega

end Element

namespace Parser

/-- There are documents as high as the bound. -/
theorem exists_height_eq (limit run : Nat) :
    ∃ tokens trees tree, (Parser.start tokens limit).document.1 = .ok trees ∧
      StepRunsAtMost run tokens ∧ tree ∈ trees ∧ tree.form.height = (limit + 1) * (run + 1) := by
  let document : Document :=
    { leading := []
      elements := [Element.tower run limit]
      wellFormed := by
        simp [Element.WellFormedAll, Element.wellFormed_tower] }
  have hnesting : document.nesting ≤ limit := by
    simp [document, Document.nesting, Element.nestingAll, Element.nesting_tower]
  obtain ⟨edge, hrun⟩ := document.reads hnesting
  have hdocument := congrArg Prod.fst (hrun.document_eq rfl)
  refine ⟨document.flatten, document.trees, (Element.tower run limit).tree, by simpa using hdocument,
    ?_, ?_, Element.height_tower run limit⟩
  · simpa [document, Document.flatten, Element.flattenAll] using
      Element.stepRunsAtMost_tower run limit
  · simp [document, Document.trees, Element.trees]

/-- The greatest height that a form of a document can have whose scopes nest within the limit and that
has no more than `run` step operators behind one another. -/
theorem isGreatest_height (limit run : Nat) :
    IsGreatest {height | ∃ tokens trees tree, (Parser.start tokens limit).document.1 = .ok trees ∧
      StepRunsAtMost run tokens ∧ tree ∈ trees ∧ tree.form.height = height}
      ((limit + 1) * (run + 1)) := by
  refine ⟨exists_height_eq limit run, ?_⟩
  rintro height ⟨tokens, trees, tree, hdocument, hruns, htree, rfl⟩
  exact height_le_of_document_eq_ok hdocument hruns tree htree

/-- No bound on the height of the forms of a document depends on the limit alone. -/
theorem not_exists_height_bound :
    ¬ ∃ bound : Nat → Nat, ∀ tokens limit trees,
      (Parser.start tokens limit).document.1 = .ok trees →
        ∀ tree ∈ trees, tree.form.height ≤ bound limit := by
  rintro ⟨bound, hbound⟩
  obtain ⟨tokens, trees, tree, hdocument, -, htree, hheight⟩ := exists_height_eq 0 (bound 0)
  have hle := hbound tokens 0 trees hdocument tree htree
  omega

end Parser

end Desugar
