import Desugar.Proofs.Acceptance
import Desugar.Proofs.Sessions

/-!
# The nesting limit

A parser looks at its limit only when it opens a scope.  So a limit that is never exceeded has no other
effect: a larger one gives the same elements or the same fault, the same position and the same recorded
scopes (`advance_of_limit_le`).

How deep a document nests can be told afterwards from the scopes that were recorded under a larger limit.
Where the smaller limit is exceeded, it is at an opener with `limit` openers unclosed before it; the
document is accepted under the larger limit, so that opener has its closer, and the pair is recorded with
a depth beyond the smaller limit (`exists_deep_scope`).
-/

namespace Desugar.Parser

open Brackets

variable {limit limit' index : Nat} {tokens : List Spanned} {reading : Reading} {item : Spanned}
  {trees : List Tree}

/-! ## A larger limit -/

/-- A step that does not exceed the limit is the same under a larger one. -/
theorem Reading.step_of_limit_le (hle : limit ≤ limit')
    (h : ∀ fault, reading.step limit index item = .error fault → fault.kind ≠ .nestingTooDeep) :
    reading.step limit' index item = reading.step limit index item := by
  unfold step at h ⊢
  cases htoken : item.token with
  | opener delimiter =>
    rw [htoken] at h
    by_cases hfull : reading.frames.length + 1 > limit
    · -- the limit is exceeded here
      have hfault : (reading.openScope limit delimiter item.span (index + 1)).map
          (fun next => { next with edge := item.span.stop }) =
          .error (.about .nestingTooDeep (Nat.repr limit) item.span) := by
        rw [openScope, if_pos hfull]
        rfl
      exact absurd rfl (h _ hfault)
    · have hroom : ¬ reading.frames.length + 1 > limit' := by omega
      simp only [openScope, if_neg hfull, if_neg hroom]
  | _ => rfl

/-- A run that does not exceed the limit is the same under a larger one. -/
theorem advance_of_limit_le {done : Reading → Token → Bool} {scopes : List Scope}
    (hle : limit ≤ limit')
    (h : ∀ fault, (advance done limit reading index scopes tokens).1 = .error fault →
      fault.kind ≠ .nestingTooDeep) :
    advance done limit' reading index scopes tokens =
      ((advance done limit reading index scopes tokens).1,
        { (advance done limit reading index scopes tokens).2 with limit := limit' }) := by
  induction tokens generalizing reading index scopes with
  | nil => rfl
  | cons item tokens ih =>
    cases hdone : done reading item.token with
    | true => simp only [advance, hdone, if_true]
    | false =>
      cases hstep : reading.step limit index item with
      | error fault =>
        rw [advance_cons_error hdone hstep] at h ⊢
        have hsame : reading.step limit' index item = .error fault := by
          rw [← hstep]
          refine Reading.step_of_limit_le hle fun fault' hfault' => ?_
          obtain rfl := Except.error.inj (hstep.symm.trans hfault')
          exact h fault rfl
        rw [advance_cons_error hdone hsame]
      | ok next =>
        rw [advance_cons_ok hdone hstep] at h ⊢
        have hsame : reading.step limit' index item = .ok next := by
          rw [← hstep]
          exact Reading.step_of_limit_le hle (by simp [hstep])
        rw [advance_cons_ok hdone hsame]
        exact ih h

theorem document_of_limit_le (hle : limit ≤ limit')
    (h : ∀ fault, (Parser.start tokens limit).document.1 = .error fault →
      fault.kind ≠ .nestingTooDeep) :
    (Parser.start tokens limit').document =
      ((Parser.start tokens limit).document.1,
        { (Parser.start tokens limit).document.2 with limit := limit' }) :=
  advance_of_limit_le hle h

/-! ## The scopes of a document -/

/-- An accepted document has all its pairs of brackets recorded. -/
theorem account_of_document_eq_ok (h : (Parser.start tokens limit).document.1 = .ok trees) :
    Account limit tokens (Parser.start tokens limit).document.2.scopes := by
  obtain ⟨reading, hreading, -⟩ := accepts_iff_reached.mp ⟨trees, h⟩
  have hposition := hreading.document_eq.2
  obtain ⟨read, rest, closed, rfl, -, haccount, hrun⟩ := Call.document.exists_account tokens limit
  have hdocument : (Parser.start (read ++ rest) limit).document.2 = ⟨rest, read.length, closed, limit⟩ :=
    hrun
  rw [hdocument, List.length_append] at hposition
  obtain rfl : rest = [] := List.eq_nil_of_length_eq_zero (by simpa using hposition)
  rw [hdocument, List.append_nil]
  exact haccount

/-- The limit is exceeded at an opener with as many openers unclosed before it. -/
theorem exists_opener_of_nestingTooDeep {fault : Diagnostic}
    (h : (Parser.start tokens limit).document.1 = .error fault) (hkind : fault.kind = .nestingTooDeep) :
    ∃ front item delimiter back, tokens = front ++ item :: back ∧
      item.token = .opener delimiter ∧ (unclosed front).length = limit := by
  rcases reads_or_stops limit tokens with ⟨reading, hreading⟩ |
    ⟨front, item, back, reading, fault', rfl, hreading, hfault⟩
  · rw [hreading.document_eq.1] at h
    simp [Reading.kind_of_finish_eq_error h] at hkind
  · obtain rfl := Except.error.inj ((hreading.document_eq_error hfault back).1.symm.trans h)
    have hat := hreading.atFault_of_error hfault
    rw [hkind] at hat
    cases hat with
    | nestingTooDeep opens full => exact ⟨front, item, _, back, rfl, opens, full⟩

/-- A document that nests deeper than a limit has a scope recorded that does. -/
theorem exists_deep_scope {fault : Diagnostic}
    (h : (Parser.start tokens limit).document.1 = .error fault) (hkind : fault.kind = .nestingTooDeep)
    (hlarger : (Parser.start tokens limit').document.1 = .ok trees) :
    ∃ scope ∈ (Parser.start tokens limit').document.2.scopes, limit < scope.depth := by
  have haccount := account_of_document_eq_ok hlarger
  have hbalanced := (body_of_document_eq_ok hlarger).balanced
  obtain ⟨front, opener, delimiter, back, rfl, hopener, hdeep⟩ :=
    exists_opener_of_nestingTooDeep h hkind
  obtain ⟨inner, closer, rest, rfl, hcloser, hinner⟩ := hbalanced.exists_closer hopener
  -- the depth of the pair is told by what is unclosed before its opener
  let scope : Scope :=
    ⟨delimiter, front.length + 1, front.length + 1 + inner.length, (unclosed front).length + 1⟩
  refine ⟨scope, (haccount.mem_iff scope).mpr ⟨?_, ?_⟩, ?_⟩
  · exact Scope.matches_iff.mpr
      ⟨inner, ⟨front, opener, closer, rest, rfl, rfl, hopener, hcloser, hinner⟩, rfl⟩
  · rw [depthIn, show scope.first - 1 = front.length from rfl, List.take_left]
  · simp only [scope]
    omega

/-- The nesting limit is transparent.  Under a larger one a document that does not exceed the smaller has
the same elements or the same fault, with the same position and the same recorded scopes.  And a document
that is accepted under the larger limit is accepted under the smaller one exactly when every scope that
was recorded is at most that deep. -/
theorem document_limit_transparent (hle : limit ≤ limit') (tokens : List Spanned) :
    ((∀ fault, (Parser.start tokens limit).document.1 = .error fault →
        fault.kind ≠ .nestingTooDeep) →
      (Parser.start tokens limit').document.1 = (Parser.start tokens limit).document.1 ∧
      (Parser.start tokens limit').document.2.position =
        (Parser.start tokens limit).document.2.position ∧
      (Parser.start tokens limit').document.2.scopes =
        (Parser.start tokens limit).document.2.scopes) ∧
    (Accepts limit' tokens →
      (Accepts limit tokens ↔
        ∀ scope ∈ (Parser.start tokens limit').document.2.scopes, scope.depth ≤ limit)) := by
  refine ⟨fun h => ?_, fun ⟨trees, hlarger⟩ => ⟨fun ⟨trees', haccepts⟩ => ?_, fun hdepth => ?_⟩⟩
  · rw [document_of_limit_le hle h]
    exact ⟨rfl, rfl, rfl⟩
  · rw [document_of_limit_le hle (by simp [haccepts])]
    exact (account_of_document_eq_ok haccepts).depth_le
  · cases hdocument : (Parser.start tokens limit).document.1 with
    | ok trees' => exact ⟨trees', hdocument⟩
    | error fault =>
      exfalso
      by_cases hkind : fault.kind = .nestingTooDeep
      · obtain ⟨scope, hscope, hdeep⟩ := exists_deep_scope hdocument hkind hlarger
        have hshallow := hdepth scope hscope
        omega
      · -- any other fault is one under the larger limit too
        have hsame := document_of_limit_le hle fun fault' hfault' => by
          rw [← Except.error.inj (hdocument.symm.trans hfault')]
          exact hkind
        rw [hsame, hdocument] at hlarger
        simp at hlarger

/-- The tokens of `(x [y])`. -/
def nestedScopes : List Spanned :=
  [⟨.opener .paren, ⟨0, 1⟩⟩, ⟨.word "x", ⟨1, 2⟩⟩, ⟨.opener .bracket, ⟨3, 4⟩⟩, ⟨.word "y", ⟨4, 5⟩⟩,
   ⟨.closer .square, ⟨5, 6⟩⟩, ⟨.closer .round, ⟨6, 7⟩⟩]

/-- The tokens of `(x]`, whose fault no limit has to do with. -/
def crossedScope : List Spanned :=
  [⟨.opener .paren, ⟨0, 1⟩⟩, ⟨.word "x", ⟨1, 2⟩⟩, ⟨.closer .square, ⟨2, 3⟩⟩]

/-- Two scopes inside each other are beyond a limit of one, which the scope recorded first shows. -/
theorem document_limit_transparent_nestedScopes :
    (Parser.start crossedScope 1).document.1 = .error (.about .unexpectedToken "]" ⟨2, 3⟩) ∧
      (Parser.start crossedScope 2).document.1 = (Parser.start crossedScope 1).document.1 ∧
      Accepts 2 nestedScopes ∧
      (Accepts 1 nestedScopes ↔
        ∀ scope ∈ [(⟨.bracket, 3, 4, 2⟩ : Scope), ⟨.paren, 1, 5, 1⟩], scope.depth ≤ 1) := by
  have hcrossed : (Parser.start crossedScope 1).document.1 =
      .error (.about .unexpectedToken "]" ⟨2, 3⟩) := by rfl
  have hkind : ∀ fault, (Parser.start crossedScope 1).document.1 = .error fault →
      fault.kind ≠ .nestingTooDeep := by
    intro fault hfault
    rw [← Except.error.inj (hcrossed.symm.trans hfault)]
    decide
  have haccepts : Accepts 2 nestedScopes := ⟨_, rfl⟩
  exact ⟨hcrossed, ((document_limit_transparent (by decide) crossedScope).1 hkind).1, haccepts,
    (document_limit_transparent (by decide) nestedScopes).2 haccepts⟩

end Desugar.Parser
