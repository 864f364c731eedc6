import Desugar.Proofs.Reading

/-!
# What the parser does with a run of tokens

`Reading.step_ok_cases` says what a step that succeeded has done.  Here is the other direction: which
tokens are read without a fault, and what the parser is at behind them.  Runs of such steps
(`Reads`) are put together with `Reads.append`, and `Reads.document_eq` gives the whole outcome
of a document that is one run.

A run keeps the account of the parser, not only its reading: the index of the next token and the
scopes that were closed on the way, in the order in which they were closed.
-/

namespace Desugar.Parser

variable {limit index : Nat} {reading : Reading} {item : Spanned}

/-! ## Tokens that are read without a fault -/

namespace Reading

/-- An opener is read where fewer scopes are open than the limit allows. -/
theorem step_opener {delimiter : Delimiter} (hitem : item.token = .opener delimiter)
    (hroom : reading.frames.length < limit) :
    reading.step limit index item =
      .ok ⟨⟨delimiter, item.span, index + 1, reading.elements⟩ :: reading.frames, [],
        item.span.stop⟩ := by
  have hlimit : ¬ reading.frames.length + 1 > limit := by omega
  simp only [step, hitem, openScope, if_neg hlimit]
  rfl

/-- The closer that the innermost scope waits for is read if the elements pair up. -/
theorem step_closer {frame : Frame} {frames : List Frame} (hframes : reading.frames = frame :: frames)
    (hitem : item.token = .closer frame.delimiter.closer)
    (hpairs : frame.delimiter = .shortMap → Even reading.elements.length) :
    reading.step limit index item =
      .ok ⟨frames, .scope frame.delimiter reading.elements.reverse :: frame.before,
        item.span.stop⟩ := by
  have hkey : Form.unpairedKey? frame.delimiter reading.elements.reverse = none := by
    rw [Form.unpairedKey?_eq_none_iff, List.length_reverse]
    exact hpairs
  simp only [step, hitem, closeScope, hframes, if_pos, hkey]
  rfl

/-- A token that is no bracket is read as the elements grow by it. -/
theorem step_of_grows {elements : List Tree} (h : Grows reading item elements) :
    reading.step limit index item = .ok ⟨reading.frames, elements, item.span.stop⟩ := by
  cases h with
  | leaf plain apart =>
    cases htoken : item.token with
    | opener => simp [htoken, Token.isPlain] at plain
    | closer => simp [htoken, Token.isPlain] at plain
    | step => simp [htoken, Token.isPlain] at plain
    | string text =>
      have hquote : text ≠ "\"" := by simpa [htoken, Token.isPlain] using plain
      simp only [step, htoken, if_neg hquote]
      rfl
    | word text =>
      have hgrows := reading.grows_pushWord htoken
      have hframes := reading.frames_pushWord text item.span
      simp only [step, htoken]
      generalize reading.pushWord text item.span = next at hgrows hframes
      obtain ⟨frames, elements, edge⟩ := next
      obtain rfl : frames = reading.frames := hframes
      cases hgrows with
      | leaf => rw [htoken]; rfl
      | lone token _ => simp [htoken] at token
      | stepped token _ _ => simp [htoken] at token
      | signed token elements joins => exact absurd joins (apart _ _ elements)
    | _ =>
      simp only [step, htoken]
      rfl
  | @lone direction token steps =>
    have hpush : reading.pushStep direction = reading.push (.leaf (.step direction)) := by
      unfold pushStep
      split
      · next element others helements => rw [if_pos (steps element (by simp [helements]))]
      · rfl
    simp only [step, token, hpush]
    rfl
  | @stepped direction element others token elements other =>
    have hpush : reading.pushStep direction =
        { reading with elements := .stepped element direction :: others } := by
      simp [pushStep, elements, other]
    simp only [step, token, hpush]
    rfl
  | @signed sign number others token elements joins =>
    obtain ⟨hliteral, hsign, hedge, number', htoken, hdigit⟩ := joins
    obtain rfl : number = number' := by simpa [token] using htoken
    have hpush : reading.pushWord number item.span =
        { reading with elements := .signed sign number :: others } := by
      simp [pushWord, elements, inShortLiteral_eq, hliteral, hsign, hedge, hdigit]
    simp only [step, token, hpush]
    rfl

end Reading

/-! ## Runs -/

/-- `Reads limit index reading tokens next closed`: from `reading`, where the next token has the index
`index`, the parser reads the tokens without a fault, is then at `next` and has closed the scopes
`closed`. -/
inductive Reads (limit : Nat) : Nat → Reading → List Spanned → Reading → List Scope → Prop
  | nil {index : Nat} {reading : Reading} : Reads limit index reading [] reading []
  | cons {index : Nat} {reading middle next : Reading} {item : Spanned} {tokens : List Spanned}
      {closed : List Scope} (read : reading.step limit index item = .ok middle)
      (rest : Reads limit (index + 1) middle tokens next closed) :
      Reads limit index reading (item :: tokens) next
        ((reading.closed? index item.token).toList ++ closed)

namespace Reads

variable {middle next : Reading} {front back tokens : List Spanned} {closed more : List Scope}

theorem append (h : Reads limit index reading front middle closed)
    (h' : Reads limit (index + front.length) middle back next more) :
    Reads limit index reading (front ++ back) next (closed ++ more) := by
  induction h with
  | nil => simpa using h'
  | @cons index reading _ _ item tokens closed read rest ih =>
    rw [List.append_assoc]
    refine .cons read (ih ?_)
    rw [List.length_cons] at h'
    rwa [Nat.add_assoc, Nat.add_comm 1]

/-- A token that closes no scope is a run of its own. -/
theorem single (hitem : item.token.isCloser = false)
    (hread : reading.step limit index item = .ok next) :
    Reads limit index reading [item] next [] := by
  have hclosed : reading.closed? index item.token = none := by
    unfold Reading.closed?
    split
    · next htoken _ => simp [htoken, Token.isCloser] at hitem
    · rfl
  have h := Reads.cons hread .nil
  rwa [hclosed] at h

/-- The closer that the innermost scope waits for is a run that closes that scope. -/
theorem closer {frame : Frame} {frames : List Frame} (hframes : reading.frames = frame :: frames)
    (hitem : item.token = .closer frame.delimiter.closer)
    (hpairs : frame.delimiter = .shortMap → Even reading.elements.length) :
    Reads limit index reading [item]
      ⟨frames, .scope frame.delimiter reading.elements.reverse :: frame.before, item.span.stop⟩
      [⟨frame.delimiter, frame.first, index, frames.length + 1⟩] := by
  have hclosed : reading.closed? index item.token =
      some ⟨frame.delimiter, frame.first, index, frames.length + 1⟩ := by
    simp [Reading.closed?, hitem, hframes]
  have hread : reading.step limit index item = .ok _ := Reading.step_closer hframes hitem hpairs
  have h := Reads.cons hread .nil
  rwa [hclosed] at h

/-- A run over the body of a scope, from its opener on, makes a run of the scope. -/
theorem scope {delimiter : Delimiter} {opener : Span} (closer : Span) {body : List Spanned}
    {elements : List Tree} {edge : Nat} (hroom : reading.frames.length < limit)
    (hbody : Reads limit (index + 1)
      ⟨⟨delimiter, opener, index + 1, reading.elements⟩ :: reading.frames, [], opener.stop⟩ body
      ⟨⟨delimiter, opener, index + 1, reading.elements⟩ :: reading.frames, elements.reverse, edge⟩
      closed)
    (hpairs : delimiter = .shortMap → Even elements.length) :
    Reads limit index reading
      (⟨.opener delimiter, opener⟩ :: (body ++ [⟨.closer delimiter.closer, closer⟩]))
      ⟨reading.frames, .scope delimiter elements :: reading.elements, closer.stop⟩
      (closed ++ [⟨delimiter, index + 1, index + 1 + body.length, reading.frames.length + 1⟩]) := by
  have hopen : reading.step limit index ⟨.opener delimiter, opener⟩ = .ok _ :=
    Reading.step_opener rfl hroom
  have hclose : Reads limit (index + 1 + body.length)
      ⟨⟨delimiter, opener, index + 1, reading.elements⟩ :: reading.frames, elements.reverse, edge⟩
      [⟨.closer delimiter.closer, closer⟩] _ _ :=
    Reads.closer rfl rfl (by simpa using hpairs)
  rw [List.reverse_reverse] at hclose
  exact (single rfl hopen).append (hbody.append hclose)

/-- A parser goes over a run to the reading behind it. -/
theorem advance_eq (h : Reads limit index reading tokens next closed) (scopes : List Scope)
    (rest : List Spanned) :
    advance (fun _ _ => false) limit reading index scopes (tokens ++ rest) =
      advance (fun _ _ => false) limit next (index + tokens.length) (scopes ++ closed) rest := by
  induction h generalizing scopes with
  | nil => simp
  | @cons index reading middle _ item tokens closed read _ ih =>
    rw [List.cons_append, advance, if_neg (by simp), read]
    simp only [ih, List.append_assoc, List.length_cons, Nat.add_assoc, Nat.add_comm 1]

/-- A document that is one run from the start, and leaves no scope open, is accepted. -/
theorem document_eq (h : Reads limit 0 {} tokens next closed) (hframes : next.frames = []) :
    (Parser.start tokens limit).document =
      (.ok next.elements.reverse, ⟨[], tokens.length, closed, limit⟩) := by
  have hadvance := h.advance_eq [] []
  rw [List.append_nil, advance, Reading.finish_eq_ok_iff.mpr ⟨hframes, rfl⟩] at hadvance
  simpa [document, start] using hadvance

end Reads

end Desugar.Parser
