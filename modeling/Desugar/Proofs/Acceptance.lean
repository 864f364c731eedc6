import Desugar.Proofs.Faults

/-!
# Which documents are accepted

A document is accepted exactly when its brackets match, nest within the limit, hold no lone quote and
leave no key of a map literal without a value (`accepts_iff`).  The parser decides this as early
as it can be decided: it stops at the first token that no continuation can repair, and until then
there is a continuation that makes the document whole (`document_error_earliest`).
-/

namespace Desugar.Parser

open Brackets

variable {limit : Nat} {tokens front : List Spanned} {reading : Reading}

/-- A parser that allows `limit` scopes inside each other finds no fault in the tokens. -/
def Accepts (limit : Nat) (tokens : List Spanned) : Prop :=
  ∃ trees, (Parser.start tokens limit).document.1 = .ok trees

theorem Reading.kind_of_finish_eq_error {fault : Diagnostic} (h : reading.finish = .error fault) :
    fault.kind = .unterminatedScope := by
  unfold finish at h
  split at h
  · rw [← Except.error.inj h]
    rfl
  · simp at h

/-- A document is accepted when the parser reads all of it and has no scope open at the end. -/
theorem accepts_iff_reached :
    Accepts limit tokens ↔ ∃ reading, Reached limit tokens reading ∧ reading.frames = [] := by
  constructor
  · rintro ⟨trees, htrees⟩
    rcases reads_or_stops limit tokens with ⟨reading, hreading⟩ |
      ⟨front, item, back, reading, fault, rfl, hreading, hfault⟩
    · rw [hreading.document_eq.1] at htrees
      exact ⟨reading, hreading, (Reading.finish_eq_ok_iff.mp htrees).1⟩
    · rw [(hreading.document_eq_error hfault back).1] at htrees
      simp at htrees
  · rintro ⟨reading, hreading, hframes⟩
    rw [Accepts, hreading.document_eq.1]
    exact ⟨_, Reading.finish_eq_ok_iff.mpr ⟨hframes, rfl⟩⟩

/-- What stands at the start of the tokens was read on the way. -/
theorem Reached.exists_of_append {back : List Spanned} (h : Reached limit (front ++ back) reading) :
    ∃ before, Reached limit front before := by
  cases back with
  | nil => exact ⟨reading, by simpa using h⟩
  | cons item back =>
    obtain ⟨before, after, hbefore, -⟩ := h.exists_step rfl
    exact ⟨before, hbefore⟩

/-! ## Acceptance -/

/-- A document is accepted exactly when every closer matches the innermost unclosed opener and no
opener stays unclosed, at no point more than `limit` openers are unclosed, no string is a lone quote,
and every map literal has an even number of elements. -/
theorem accepts_iff (limit : Nat) (tokens : List Spanned) :
    Accepts limit tokens ↔
      Balanced tokens ∧
      (∀ front, front <+: tokens → (unclosed front).length ≤ limit) ∧
      (∀ item ∈ tokens, item.token ≠ .string "\"") ∧
      (∀ first inner, Pair tokens .shortMap first inner → Even (elementCount inner)) := by
  rw [accepts_iff_reached]
  constructor
  · rintro ⟨reading, hreading, hframes⟩
    have hlayout := hreading.layout
    refine ⟨⟨hlayout.closersMatch, by simp [hlayout.unclosed_eq, hframes]⟩, ?_,
      hlayout.ne_lone_quote, ?_⟩
    · rintro front ⟨back, rfl⟩
      obtain ⟨before, hbefore⟩ := hreading.exists_of_append
      rw [hbefore.layout.unclosed_eq, List.length_map]
      exact hbefore.length_frames_le
    · rintro first inner ⟨outer, opener, closer, back, rfl, -, hopener, hcloser, hinner⟩
      rw [← List.cons_append, ← List.append_assoc] at hreading
      obtain ⟨before, after, hbefore, hafter⟩ := hreading.exists_step rfl
      by_contra hodd
      exact hbefore.not_atFault_of_ok hafter .unpairedMapKey
        (.unpairedMapKey rfl hopener hinner hcloser (Nat.not_even_iff_odd.mp hodd))
  · rintro ⟨hbalanced, hdepth, hquotes, hmaps⟩
    rcases reads_or_stops limit tokens with ⟨reading, hreading⟩ |
      ⟨front, item, back, reading, fault, rfl, hreading, hfault⟩
    · refine ⟨reading, hreading, ?_⟩
      have hunclosed := hreading.layout.unclosed_eq
      rw [hbalanced.unclosed_eq_nil] at hunclosed
      exact List.map_eq_nil_iff.mp hunclosed.symm
    · -- each cause of a fault goes against one of the conditions
      exfalso
      have hat := hreading.atFault_of_error hfault
      generalize fault.kind = kind at hat
      cases hat with
      | unexpectedToken closes unawaited =>
        exact unawaited (hbalanced.closersMatch front item back _ rfl closes)
      | unexpectedQuote quote => exact hquotes item (by simp) quote
      | nestingTooDeep opens full =>
        have hlength := hdepth (front ++ [item]) ⟨back, by simp⟩
        rw [unclosed_concat, track_opener opens, List.length_cons] at hlength
        omega
      | @unpairedMapKey outer inner opener cut opens balanced closes odd =>
        refine Nat.not_even_iff_odd.mpr odd (hmaps (outer.length + 1) inner ?_)
        exact ⟨outer, opener, item, back, by simp [cut], rfl, opens, closes, balanced⟩

/-! ## Completion -/

/-- The closer that the innermost scope waits for closes it, if its elements pair up. -/
theorem Reached.exists_close (h : Reached limit tokens reading) {frame : Frame}
    {frames : List Frame} (hframes : reading.frames = frame :: frames)
    (hpairs : frame.delimiter = .shortMap → Even reading.elements.length) :
    ∃ item next, Reached limit (tokens ++ [item]) next ∧ next.frames = frames := by
  let item : Spanned := ⟨.closer frame.delimiter.closer, ⟨0, 0⟩⟩
  cases hstep : reading.step limit tokens.length item with
  | error fault =>
    exfalso
    rcases Reading.step_error_cases hstep with ⟨_, htoken, -⟩ | ⟨bracket, htoken, hother, -⟩ |
      ⟨frame', frames', _, hframes', hmap, -, hodd, -⟩ | ⟨htoken, -⟩
    · simp [item] at htoken
    · exact hother frame (by simp [hframes]) (by simpa [item] using htoken)
    · obtain ⟨rfl, -⟩ := List.cons.inj (hframes.symm.trans hframes')
      exact hodd (hpairs hmap)
    · simp [item] at htoken
  | ok next =>
    refine ⟨item, next, h.step hstep, ?_⟩
    rcases Reading.step_ok_cases hstep with ⟨_, htoken, -⟩ | ⟨_, frames', hframes', -, -, rfl⟩ |
      ⟨hatomic, -⟩
    · simp [item] at htoken
    · exact (List.cons.inj (hframes'.symm.trans hframes)).2
    · simp [item, Token.isAtomic] at hatomic

/-- A word that is no number is one more element of the innermost scope. -/
theorem Reached.exists_word (h : Reached limit tokens reading) :
    ∃ item next, Reached limit (tokens ++ [item]) next ∧ next.frames = reading.frames ∧
      next.elements.length = reading.elements.length + 1 := by
  let item : Spanned := ⟨.word "nil", ⟨0, 0⟩⟩
  cases hstep : reading.step limit tokens.length item with
  | error fault =>
    rcases Reading.step_error_cases hstep with ⟨_, htoken, -⟩ | ⟨_, htoken, -⟩ |
      ⟨_, _, _, -, -, htoken, -⟩ | ⟨htoken, -⟩ <;> simp [item] at htoken
  | ok next =>
    rcases Reading.step_ok_cases hstep with ⟨_, htoken, -⟩ | ⟨_, _, -, htoken, -⟩ | ⟨-, hgrows, hnext⟩
    · simp [item] at htoken
    · simp [item] at htoken
    · refine ⟨item, next, h.step hstep, by rw [hnext], ?_⟩
      generalize next.elements = elements at hgrows
      cases hgrows with
      | leaf => simp
      | lone token _ => simp [item] at token
      | stepped token _ _ => simp [item] at token
      | signed token _ joins =>
        obtain ⟨-, -, -, number, hnumber, hdigit⟩ := joins
        obtain rfl : "nil" = number := by simpa [item] using hnumber
        simp [Reading.startsWithDigit] at hdigit

/-- Whatever was read without a fault can be made whole: each open scope is closed, with one more
element where a key waits for its value. -/
theorem Reached.exists_completion (h : Reached limit tokens reading) :
    ∃ rest last, Reached limit (tokens ++ rest) last ∧ last.frames = [] := by
  -- one closer per frame, so the induction is on the open scopes
  induction hframes : reading.frames generalizing tokens reading with
  | nil => exact ⟨[], reading, by simpa using h, hframes⟩
  | cons frame frames ih =>
    by_cases hpairs : frame.delimiter = .shortMap → Even reading.elements.length
    · obtain ⟨closer, next, hnext, hnext'⟩ := h.exists_close hframes hpairs
      obtain ⟨rest, last, hlast, hclosed⟩ := ih hnext hnext'
      exact ⟨closer :: rest, last, by simpa using hlast, hclosed⟩
    · obtain ⟨hmap, hodd⟩ := Classical.not_imp.mp hpairs
      obtain ⟨word, middle, hmiddle, hmiddle', hlength⟩ := h.exists_word
      have heven : Even middle.elements.length := by
        rw [hlength, Nat.even_add_one]
        exact hodd
      obtain ⟨closer, next, hnext, hnext'⟩ :=
        hmiddle.exists_close (hmiddle'.trans hframes) fun _ => heven
      obtain ⟨rest, last, hlast, hclosed⟩ := ih hnext hnext'
      exact ⟨word :: closer :: rest, last, by simpa using hlast, hclosed⟩

theorem Reached.exists_accepts (h : Reached limit tokens reading) :
    ∃ rest, Accepts limit (tokens ++ rest) := by
  obtain ⟨rest, last, hlast, hclosed⟩ := h.exists_completion
  exact ⟨rest, accepts_iff_reached.mpr ⟨last, hlast, hclosed⟩⟩

/-- A document is refused as early as it can be.  What stands before the token at fault starts some
document that is accepted, and with that token it starts none; where a scope is left open, the whole
of it starts one. -/
theorem document_error_earliest {tokens : List Spanned} {limit : Nat} {fault : Diagnostic}
    (h : (Parser.start tokens limit).document.1 = .error fault) :
    let position := (Parser.start tokens limit).document.2.position
    (fault.kind ≠ .unterminatedScope →
      0 < position ∧ position ≤ tokens.length ∧
      (∃ rest, Accepts limit (tokens.take (position - 1) ++ rest)) ∧
      ∀ stream, tokens.take position <+: stream → ¬ Accepts limit stream) ∧
    (fault.kind = .unterminatedScope →
      position = tokens.length ∧ ∃ rest, Accepts limit (tokens ++ rest)) := by
  intro position
  rcases reads_or_stops limit tokens with ⟨reading, hreading⟩ |
    ⟨front, item, back, reading, fault', rfl, hreading, hfault⟩
  · obtain ⟨hdocument, hposition⟩ := hreading.document_eq
    rw [hdocument] at h
    refine ⟨fun hkind => absurd (Reading.kind_of_finish_eq_error h) hkind, fun _ => ?_⟩
    exact ⟨hposition, hreading.exists_accepts⟩
  · obtain ⟨hdocument, hposition⟩ := hreading.document_eq_error hfault back
    obtain rfl := Except.error.inj (hdocument.symm.trans h)
    have hposition' : position = front.length + 1 := hposition
    have hat := hreading.atFault_of_error hfault
    refine ⟨fun _ => ?_, fun hkind => ?_⟩
    · rw [hposition']
      refine ⟨by simp, by simp, ?_, ?_⟩
      · simpa using hreading.exists_accepts
      · rintro stream ⟨more, rfl⟩ ⟨trees, htrees⟩
        rw [List.take_length_add_append, List.append_assoc] at htrees
        have herror := (hreading.document_eq_error hfault more).1
        exact absurd (herror.symm.trans htrees) (by simp)
    · rw [hkind] at hat
      cases hat

/-- Behind the eighth token of `oddMap` a document can still be completed, behind the ninth not. -/
theorem document_error_earliest_oddMap :
    (Parser.start oddMap 2).document.1 = .error (.about .unpairedMapKey "(b).succ" ⟨0, 3⟩) ∧
      (∃ rest, Accepts 2 (oddMap.take 8 ++ rest)) ∧
      ∀ stream, oddMap.take 9 <+: stream → ¬ Accepts 2 stream := by
  have hfault : (Parser.start oddMap 2).document.1 =
    .error (.about .unpairedMapKey "(b).succ" ⟨0, 3⟩) := by rfl
  exact ⟨hfault, ((document_error_earliest hfault).1 (by decide)).2.2⟩

end Desugar.Parser
