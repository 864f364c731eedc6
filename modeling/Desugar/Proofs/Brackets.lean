import Desugar.Token.Basic
import Mathlib.Data.List.Basic
import Mathlib.Data.List.Induction

/-!
# The brackets of a token stream

Which openers a run of tokens leaves unclosed, and when its brackets match.  Nothing here knows of a
parser: `unclosed` walks the tokens with a stack of openers, and all else is said through it.

## Shape of the theory

* `ClosersMatch` says that every closer is the one that the innermost unclosed opener waits for, and
  `Balanced` that nothing is left unclosed besides.
* `unclosed_append` is the fact that carries the rest: tokens whose closers match only put openers on
  top of those that were unclosed before.
* `eq_of_append_opener` says that the innermost unclosed opener of a run of tokens is one token of
  it, so the tokens since then are determined.
-/

namespace Desugar

/-- An opener in a token stream: the scope it opens and where it stands. -/
structure Opener where
  delimiter : Delimiter
  span : Span
  deriving DecidableEq, Repr

/-- A token that is no bracket. -/
def Token.isAtomic : Token → Bool
  | .opener _ | .closer _ => false
  | _ => true

namespace Brackets

/-- The unclosed openers after one more token: an opener comes on top, and a closer takes the
innermost one off. -/
def track (openers : List Opener) (item : Spanned) : List Opener :=
  match item.token with
  | .opener delimiter => ⟨delimiter, item.span⟩ :: openers
  | .closer _ => openers.tail
  | _ => openers

/-- The openers that the tokens leave unclosed, the innermost one first. -/
def unclosed (tokens : List Spanned) : List Opener :=
  tokens.foldl track []

/-- The closer that the innermost unclosed opener waits for. -/
def awaited? (tokens : List Spanned) : Option Bracket :=
  (unclosed tokens).head?.map (·.delimiter.closer)

/-- Every closer is the one that the innermost opener unclosed before it waits for. -/
def ClosersMatch (tokens : List Spanned) : Prop :=
  ∀ front item back bracket, tokens = front ++ item :: back → item.token = .closer bracket →
    awaited? front = some bracket

/-- Every closer matches the innermost unclosed opener, and no opener stays unclosed. -/
structure Balanced (tokens : List Spanned) : Prop where
  closersMatch : ClosersMatch tokens
  unclosed_eq_nil : unclosed tokens = []

/-- `Pair tokens delimiter first inner`: the stream has a closed scope of this delimiter, and
`inner`, whose first token has the index `first`, is what stands between its brackets. -/
def Pair (tokens : List Spanned) (delimiter : Delimiter) (first : Nat) (inner : List Spanned) :
    Prop :=
  ∃ front opener closer back, tokens = front ++ opener :: (inner ++ closer :: back) ∧
    first = front.length + 1 ∧ opener.token = .opener delimiter ∧
    closer.token = .closer delimiter.closer ∧ Balanced inner

/-! ## Unclosed openers -/

@[simp]
theorem unclosed_nil : unclosed [] = [] := rfl

theorem unclosed_concat (tokens : List Spanned) (item : Spanned) :
    unclosed (tokens ++ [item]) = track (unclosed tokens) item := by
  simp [unclosed]

theorem track_opener {item : Spanned} {delimiter : Delimiter}
    (hitem : item.token = .opener delimiter) (openers : List Opener) :
    track openers item = ⟨delimiter, item.span⟩ :: openers := by
  simp [track, hitem]

theorem track_closer {item : Spanned} {bracket : Bracket} (hitem : item.token = .closer bracket)
    (openers : List Opener) : track openers item = openers.tail := by
  simp [track, hitem]

theorem track_atomic {item : Spanned} (hitem : item.token.isAtomic = true)
    (openers : List Opener) : track openers item = openers := by
  unfold track
  split <;> simp_all [Token.isAtomic]

/-- The condition on a closer only looks at what stands before it. -/
theorem closersMatch_concat_iff (tokens : List Spanned) (item : Spanned) :
    ClosersMatch (tokens ++ [item]) ↔
      ClosersMatch tokens ∧
        ∀ bracket, item.token = .closer bracket → awaited? tokens = some bracket := by
  constructor
  · intro h
    refine ⟨?_, fun bracket hitem => h tokens item [] bracket rfl hitem⟩
    intro front other back bracket htokens hother
    exact h front other (back ++ [item]) bracket (by simp [htokens]) hother
  · rintro ⟨htokens, hitem⟩ front other back bracket heq hother
    rcases List.eq_nil_or_concat' back with rfl | ⟨back', last, rfl⟩
    · obtain ⟨rfl, hlast⟩ := List.append_inj' heq rfl
      obtain rfl : item = other := by simpa using hlast
      exact hitem bracket hother
    · have heq' : tokens ++ [item] = (front ++ other :: back') ++ [last] := by simpa using heq
      obtain ⟨hfront, -⟩ := List.append_inj' heq' rfl
      exact htokens front other back' bracket hfront hother

theorem closersMatch_nil : ClosersMatch [] := by
  intro front item back bracket h
  simp at h

/-- What comes later cannot spoil the closers that were read. -/
theorem ClosersMatch.of_append {front back : List Spanned} (h : ClosersMatch (front ++ back)) :
    ClosersMatch front := by
  intro start item stop bracket heq hitem
  exact h start item (stop ++ back) bracket (by simp [heq]) hitem

/-- Tokens whose closers match leave the openers below them alone. -/
theorem ClosersMatch.foldl_track {tokens : List Spanned} (h : ClosersMatch tokens)
    (openers : List Opener) : tokens.foldl track openers = unclosed tokens ++ openers := by
  induction tokens using List.reverseRecOn with
  | nil => rfl
  | append_singleton tokens item ih =>
    obtain ⟨htokens, hitem⟩ := (closersMatch_concat_iff tokens item).mp h
    rw [List.foldl_append, List.foldl_cons, List.foldl_nil, ih htokens, unclosed_concat]
    cases htoken : item.token with
    | opener delimiter => simp [track, htoken]
    | closer bracket =>
      -- the closer takes off an opener of these tokens, for one of them waits for it
      have hawaited := hitem bracket htoken
      unfold awaited? at hawaited
      cases hunclosed : unclosed tokens with
      | nil => simp [hunclosed] at hawaited
      | cons opener others => simp [track, htoken]
    | _ => simp [track, htoken]

theorem unclosed_append {inner : List Spanned} (h : ClosersMatch inner) (front : List Spanned) :
    unclosed (front ++ inner) = unclosed inner ++ unclosed front := by
  rw [unclosed, List.foldl_append]
  exact h.foldl_track (unclosed front)

theorem ClosersMatch.append {front back : List Spanned} (hfront : ClosersMatch front)
    (hback : ClosersMatch back) : ClosersMatch (front ++ back) := by
  induction back using List.reverseRecOn with
  | nil => simpa using hfront
  | append_singleton back item ih =>
    obtain ⟨hback', hitem⟩ := (closersMatch_concat_iff back item).mp hback
    rw [← List.append_assoc, closersMatch_concat_iff]
    refine ⟨ih hback', fun bracket htoken => ?_⟩
    have hawaited := hitem bracket htoken
    unfold awaited? at hawaited ⊢
    rw [unclosed_append hback']
    cases hunclosed : unclosed back with
    | nil => simp [hunclosed] at hawaited
    | cons opener others => simpa [hunclosed] using hawaited

/-! ## Balanced runs -/

theorem balanced_nil : Balanced [] := ⟨closersMatch_nil, rfl⟩

theorem Balanced.append {front back : List Spanned} (hfront : Balanced front)
    (hback : Balanced back) : Balanced (front ++ back) := by
  refine ⟨hfront.closersMatch.append hback.closersMatch, ?_⟩
  rw [unclosed_append hback.closersMatch, hfront.unclosed_eq_nil, hback.unclosed_eq_nil]
  rfl

theorem closersMatch_singleton {item : Spanned} (hitem : item.token.isCloser = false) :
    ClosersMatch [item] := by
  rw [← List.nil_append [item], closersMatch_concat_iff]
  refine ⟨closersMatch_nil, fun bracket htoken => ?_⟩
  simp [htoken, Token.isCloser] at hitem

theorem balanced_atomic {item : Spanned} (hitem : item.token.isAtomic = true) :
    Balanced [item] := by
  refine ⟨closersMatch_singleton ?_, ?_⟩
  · cases htoken : item.token <;> simp_all [Token.isAtomic, Token.isCloser]
  · rw [← List.nil_append [item], unclosed_concat, track_atomic hitem]
    rfl

/-- Behind an opener and a balanced run that opener is the innermost one. -/
theorem unclosed_append_opener {opener : Spanned} {delimiter : Delimiter} {inner : List Spanned}
    (hopener : opener.token = .opener delimiter) (hinner : Balanced inner)
    (front : List Spanned) :
    unclosed (front ++ opener :: inner) = ⟨delimiter, opener.span⟩ :: unclosed front := by
  rw [List.append_cons, unclosed_append hinner.closersMatch, hinner.unclosed_eq_nil,
    unclosed_concat, track_opener hopener]
  rfl

theorem closersMatch_append_opener {front inner : List Spanned} {opener : Spanned}
    {delimiter : Delimiter} (hfront : ClosersMatch front)
    (hopener : opener.token = .opener delimiter) (hinner : ClosersMatch inner) :
    ClosersMatch (front ++ opener :: inner) := by
  rw [List.append_cons]
  refine (hfront.append (closersMatch_singleton ?_)).append hinner
  simp [hopener, Token.isCloser]

/-- A balanced run between an opener and its closer is balanced with them. -/
theorem Balanced.scope {opener closer : Spanned} {delimiter : Delimiter} {inner : List Spanned}
    (hinner : Balanced inner) (hopener : opener.token = .opener delimiter)
    (hcloser : closer.token = .closer delimiter.closer) :
    Balanced (opener :: (inner ++ [closer])) := by
  have hunclosed := unclosed_append_opener hopener hinner []
  simp only [List.nil_append, unclosed_nil] at hunclosed
  rw [← List.cons_append]
  refine ⟨(closersMatch_concat_iff _ _).mpr ⟨?_, fun bracket hbracket => ?_⟩, ?_⟩
  · exact closersMatch_append_opener closersMatch_nil hopener hinner.closersMatch
  · rw [awaited?, hunclosed]
    rw [hcloser, Token.closer.injEq] at hbracket
    simp [hbracket]
  · rw [unclosed_concat, track_closer hcloser, hunclosed]
    rfl

/-- The innermost unclosed opener is one token of the stream: there is only one way to cut a run of
tokens at an opener with a balanced run behind it. -/
theorem eq_of_append_opener {front front' inner inner' : List Spanned} {opener opener' : Spanned}
    {delimiter delimiter' : Delimiter} (hopener : opener.token = .opener delimiter)
    (hopener' : opener'.token = .opener delimiter') (hinner : Balanced inner)
    (hinner' : Balanced inner') (heq : front ++ opener :: inner = front' ++ opener' :: inner') :
    front = front' ∧ opener = opener' ∧ inner = inner' := by
  -- an opener inside a balanced run cannot have a balanced run behind it up to the end
  have inside : ∀ {run start stop : List Spanned} {item : Spanned} {kind : Delimiter},
      Balanced run → item.token = .opener kind → Balanced stop → run ≠ start ++ item :: stop := by
    intro run start stop item kind hrun hitem hstop hcut
    have hunclosed := hrun.unclosed_eq_nil
    rw [hcut, unclosed_append_opener hitem hstop] at hunclosed
    simp at hunclosed
  rcases List.append_eq_append_iff.mp heq with ⟨middle, hfront', hrest⟩ | ⟨middle, hfront, hrest⟩
  · cases middle with
    | nil =>
      obtain ⟨rfl, rfl⟩ := List.cons.inj hrest
      exact ⟨by simpa using hfront'.symm, rfl, rfl⟩
    | cons item middle =>
      obtain ⟨-, hcut⟩ := List.cons.inj hrest
      exact absurd hcut (inside hinner hopener' hinner')
  · cases middle with
    | nil =>
      obtain ⟨rfl, rfl⟩ := List.cons.inj hrest
      exact ⟨by simpa using hfront, rfl, rfl⟩
    | cons item middle =>
      obtain ⟨-, hcut⟩ := List.cons.inj hrest
      exact absurd hcut (inside hinner' hopener hinner)

/-- Where nothing is unclosed, no scope is cut in two: a scope that is still open at the end was
opened behind the cut. -/
theorem exists_middle_of_append_opener {front back start inner : List Spanned} {opener : Spanned}
    {delimiter : Delimiter} (hfront : unclosed front = [])
    (hopener : opener.token = .opener delimiter) (hinner : Balanced inner)
    (heq : front ++ back = start ++ opener :: inner) :
    ∃ middle, start = front ++ middle ∧ back = middle ++ opener :: inner := by
  rcases List.append_eq_append_iff.mp heq with ⟨middle, hstart, hback⟩ | ⟨middle, hcut, hrest⟩
  · exact ⟨middle, hstart, hback⟩
  · cases middle with
    | nil => exact ⟨[], by simpa using hcut.symm, by simpa using hrest.symm⟩
    | cons item middle =>
      -- the cut falls behind the opener, so the opener is unclosed there
      obtain ⟨rfl, hmiddle⟩ := List.cons.inj hrest
      have hmatch : ClosersMatch middle := (hmiddle ▸ hinner.closersMatch).of_append
      rw [hcut, List.append_cons, unclosed_append hmatch, unclosed_concat,
        track_opener hopener] at hfront
      simp at hfront

end Brackets

end Desugar
