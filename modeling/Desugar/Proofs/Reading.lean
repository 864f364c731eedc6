import Desugar.Proofs.Elements

/-!
# What the parser holds while it reads

A parser that has read some tokens without a fault is at a `Reading`.  This module says once what a
step can do (`step_ok_cases`, `step_error_cases`), which readings a fresh parser gets to (`Reached`),
and what such a reading says about the tokens behind it (`Layout`).

## The invariant

The frames of a reading cut the tokens read so far at the openers that are unclosed.  Between two
such openers, and behind the last one, stands the body of a scope, and the elements held for that
scope are what the grammar makes of it.  `Layout` says just that, `Layout.step` that a step keeps it,
and `Reached.layout` that it holds of every reading a fresh parser gets to.  So the frames are the
unclosed openers of the stream (`Layout.unclosed_eq`), at every token.
-/

namespace Desugar

open Brackets

/-! ## The element left over -/

/-- Taking elements two by two leaves none over when their number is even. -/
theorem Form.unpaired?_eq_none_iff {α : Type} (elements : List α) :
    Form.unpaired? elements = none ↔ Even elements.length := by
  fun_induction Form.unpaired? elements with
  | case1 => simp
  | case2 => simp
  | case3 _ _ others ih =>
    rw [ih, List.length_cons, List.length_cons, Nat.even_add_one, Nat.even_add_one, not_not]

/-- The element left over is the last one. -/
theorem Form.getLast?_of_unpaired? {α : Type} {elements : List α} {key : α}
    (h : Form.unpaired? elements = some key) : elements.getLast? = some key := by
  fun_induction Form.unpaired? elements with
  | case1 => simp at h
  | case2 only => simpa using h
  | case3 first second others ih =>
    have hlast := ih h
    cases others with
    | nil => simp at hlast
    | cons third others => simpa [List.getLast?_cons_cons] using hlast

/-- Only a map literal with an odd number of elements has a key without a value. -/
theorem Form.unpairedKey?_eq_none_iff {α : Type} (delimiter : Delimiter) (elements : List α) :
    Form.unpairedKey? delimiter elements = none ↔
      (delimiter = .shortMap → Even elements.length) := by
  cases delimiter <;> simp [Form.unpairedKey?, Form.unpaired?_eq_none_iff]

theorem Form.of_unpairedKey?_eq_some {α : Type} {delimiter : Delimiter} {elements : List α}
    {key : α} (h : Form.unpairedKey? delimiter elements = some key) :
    delimiter = .shortMap ∧ ¬ Even elements.length ∧ elements.getLast? = some key := by
  cases delimiter with
  | shortMap =>
    rw [Form.unpairedKey?] at h
    refine ⟨rfl, ?_, Form.getLast?_of_unpaired? h⟩
    rw [← Form.unpaired?_eq_none_iff, h]
    simp
  | _ => simp [Form.unpairedKey?] at h

/-! ## What a step can do -/

theorem exists_of_map_ok {ε α β : Type} {f : α → β} {result : Except ε α} {value : β}
    (h : result.map f = .ok value) : ∃ a, result = .ok a ∧ f a = value := by
  cases result with
  | error fault => simp [Except.map] at h
  | ok a => exact ⟨a, rfl, Except.ok.inj h⟩

theorem eq_error_of_map_error {ε α β : Type} {f : α → β} {result : Except ε α} {fault : ε}
    (h : result.map f = .error fault) : result = .error fault := by
  cases result with
  | error other => exact congrArg Except.error (Except.error.inj h)
  | ok a => simp [Except.map] at h

namespace Parser

/-- Whether the innermost of these frames is a short literal. -/
def inLiteral (frames : List Frame) : Bool :=
  frames.head?.any (·.delimiter.isShortLiteral)

namespace Reading

theorem inShortLiteral_eq (reading : Reading) :
    reading.inShortLiteral = inLiteral reading.frames := by
  unfold inShortLiteral inLiteral
  cases reading.frames <;> simp

/-- The tokens at which a word is joined to the operator before it. -/
def joins (reading : Reading) (item : Spanned) (sign : String) : Prop :=
  inLiteral reading.frames = true ∧ (sign = "-" ∨ sign = "+") ∧
    item.span.start = reading.edge ∧
    ∃ number, item.token = .word number ∧ startsWithDigit number = true

/-- The elements of the innermost scope before and after a token that is no bracket. -/
inductive Grows (reading : Reading) (item : Spanned) : List Tree → Prop
  | leaf (plain : item.token.isPlain = true)
      (apart : ∀ sign others, reading.elements = .leaf (.operator sign) :: others →
        ¬ reading.joins item sign) :
      Grows reading item (.leaf item.token :: reading.elements)
  | lone {step : Step} (token : item.token = .step step)
      (steps : ∀ element ∈ reading.elements.head?, element.isLoneStep = true) :
      Grows reading item (.leaf item.token :: reading.elements)
  | stepped {step : Step} {element : Tree} {others : List Tree} (token : item.token = .step step)
      (elements : reading.elements = element :: others) (other : element.isLoneStep = false) :
      Grows reading item (.stepped element step :: others)
  | signed {sign number : String} {others : List Tree} (token : item.token = .word number)
      (elements : reading.elements = .leaf (.operator sign) :: others)
      (joins : reading.joins item sign) :
      Grows reading item (.signed sign number :: others)

theorem grows_pushStep (reading : Reading) {item : Spanned} {step : Step}
    (hitem : item.token = .step step) :
    Grows reading item (reading.pushStep step).elements := by
  unfold pushStep
  split
  · next element others helements =>
    split
    · next hlone =>
      rw [← hitem]
      exact .lone hitem (by simp [helements, hlone])
    · next hlone => exact .stepped hitem helements (by simpa using hlone)
  · next helements =>
    rw [← hitem]
    exact .lone hitem (by simp [helements])

theorem grows_pushWord (reading : Reading) {item : Spanned} {text : String}
    (hitem : item.token = .word text) :
    Grows reading item (reading.pushWord text item.span).elements := by
  have hplain : item.token.isPlain = true := by simp [hitem, Token.isPlain]
  unfold pushWord
  split
  · next sign others helements =>
    split
    · next hjoins =>
      refine .signed hitem helements ?_
      simp only [inShortLiteral_eq, Bool.and_eq_true, Bool.or_eq_true, decide_eq_true_eq] at hjoins
      obtain ⟨⟨⟨hliteral, hsign⟩, hedge⟩, hdigit⟩ := hjoins
      exact ⟨hliteral, hsign, hedge, text, hitem, hdigit⟩
    · next hapart =>
      rw [← hitem]
      refine .leaf hplain fun sign' others' helements' hjoins => hapart ?_
      obtain ⟨hliteral, hsign, hedge, number, hnumber, hdigit⟩ := hjoins
      obtain ⟨rfl, -⟩ : sign = sign' ∧ _ := by simpa [helements] using helements'
      rw [hitem, Token.word.injEq] at hnumber
      simp [inShortLiteral_eq, hliteral, hsign, hedge, hnumber, hdigit]
  · next helements =>
    rw [← hitem]
    refine .leaf hplain fun sign others helements' _ => ?_
    exact helements sign others helements'

/-- Closing succeeds on the closer that the innermost frame waits for, if its elements pair up. -/
theorem closeScope_ok_cases {reading next : Reading} {bracket : Bracket} {span : Span}
    (h : reading.closeScope bracket span = .ok next) :
    ∃ frame frames, reading.frames = frame :: frames ∧ bracket = frame.delimiter.closer ∧
      (frame.delimiter = .shortMap → Even reading.elements.length) ∧
      next = ⟨frames, .scope frame.delimiter reading.elements.reverse :: frame.before,
        reading.edge⟩ := by
  unfold closeScope at h
  split at h
  · next frame frames hframes =>
    split at h
    · next hcloser =>
      dsimp only at h
      split at h
      · simp at h
      · next hpairs =>
        rw [Form.unpairedKey?_eq_none_iff, List.length_reverse] at hpairs
        exact ⟨frame, frames, hframes, hcloser.symm, hpairs, (Except.ok.inj h).symm⟩
    · simp at h
  · simp at h

/-- Closing fails on any other closer, and on a map literal with a key left over. -/
theorem closeScope_error_cases {reading : Reading} {bracket : Bracket} {span : Span}
    {fault : Diagnostic} (h : reading.closeScope bracket span = .error fault) :
    ((∀ frame ∈ reading.frames.head?, frame.delimiter.closer ≠ bracket) ∧
      fault = .about .unexpectedToken bracket.closing span) ∨
    (∃ frame frames key, reading.frames = frame :: frames ∧ frame.delimiter = .shortMap ∧
      bracket = .curly ∧ ¬ Even reading.elements.length ∧ reading.elements.head? = some key ∧
      fault = .about .unpairedMapKey key.form.render frame.opener) := by
  unfold closeScope at h
  split at h
  · next frame frames hframes =>
    split at h
    · next hcloser =>
      dsimp only at h
      split at h
      · next key hkey =>
        obtain ⟨hmap, hodd, hlast⟩ := Form.of_unpairedKey?_eq_some hkey
        rw [List.length_reverse] at hodd
        rw [List.getLast?_reverse] at hlast
        refine .inr ⟨frame, frames, key, hframes, hmap, ?_, hodd, hlast, (Except.error.inj h).symm⟩
        rw [← hcloser, hmap]
        rfl
      · simp at h
    · next hcloser =>
      exact .inl ⟨by simpa [hframes] using hcloser, (Except.error.inj h).symm⟩
  · next hframes => exact .inl ⟨by simp [hframes], (Except.error.inj h).symm⟩

theorem frames_pushStep (reading : Reading) (step : Step) :
    (reading.pushStep step).frames = reading.frames := by
  unfold pushStep push
  split
  · split <;> rfl
  · rfl

theorem frames_pushWord (reading : Reading) (text : String) (span : Span) :
    (reading.pushWord text span).frames = reading.frames := by
  unfold pushWord push
  split
  · split <;> rfl
  · rfl

/-- What a step without a fault does: it opens a scope, closes the innermost one, or adds to the
elements of the innermost one. -/
theorem step_ok_cases {limit index : Nat} {reading next : Reading} {item : Spanned}
    (h : reading.step limit index item = .ok next) :
    (∃ delimiter, item.token = .opener delimiter ∧ reading.frames.length < limit ∧
      next = ⟨⟨delimiter, item.span, index + 1, reading.elements⟩ :: reading.frames, [],
        item.span.stop⟩) ∨
    (∃ frame frames, reading.frames = frame :: frames ∧
      item.token = .closer frame.delimiter.closer ∧
      (frame.delimiter = .shortMap → Even reading.elements.length) ∧
      next = ⟨frames, .scope frame.delimiter reading.elements.reverse :: frame.before,
        item.span.stop⟩) ∨
    (item.token.isAtomic = true ∧ Grows reading item next.elements ∧
      next = ⟨reading.frames, next.elements, item.span.stop⟩) := by
  obtain ⟨middle, hmiddle, rfl⟩ := exists_of_map_ok h
  split at hmiddle
  · next delimiter htoken =>
    unfold openScope at hmiddle
    split at hmiddle
    · simp at hmiddle
    · obtain rfl := Except.ok.inj hmiddle
      exact .inl ⟨delimiter, htoken, by omega, rfl⟩
  · next bracket htoken =>
    obtain ⟨frame, frames, hframes, rfl, hpairs, rfl⟩ := closeScope_ok_cases hmiddle
    exact .inr (.inl ⟨frame, frames, hframes, htoken, hpairs, rfl⟩)
  · next direction htoken =>
    obtain rfl := Except.ok.inj hmiddle
    refine .inr (.inr ⟨by simp [htoken, Token.isAtomic], grows_pushStep reading htoken, ?_⟩)
    rw [frames_pushStep]
  · next text htoken =>
    obtain rfl := Except.ok.inj hmiddle
    refine .inr (.inr ⟨by simp [htoken, Token.isAtomic], grows_pushWord reading htoken, ?_⟩)
    rw [frames_pushWord]
  · next text htoken =>
    split at hmiddle
    · simp at hmiddle
    · next hquote =>
      obtain rfl := Except.ok.inj hmiddle
      refine .inr (.inr ⟨by simp [htoken, Token.isAtomic], ?_, rfl⟩)
      rw [← htoken]
      refine .leaf (by simp [htoken, Token.isPlain, hquote]) fun _ _ _ hjoins => ?_
      obtain ⟨-, -, -, number, hnumber, -⟩ := hjoins
      simp [htoken] at hnumber
  · next hopener hcloser hstep hword hstring =>
    obtain rfl := Except.ok.inj hmiddle
    refine .inr (.inr ⟨?_, .leaf ?_ fun _ _ _ hjoins => ?_, rfl⟩)
    · cases htoken : item.token <;> simp_all [Token.isAtomic]
    · cases htoken : item.token <;> simp_all [Token.isPlain]
    · obtain ⟨-, -, -, number, hnumber, -⟩ := hjoins
      exact hword number hnumber

/-- What is wrong when a step faults. -/
theorem step_error_cases {limit index : Nat} {reading : Reading} {item : Spanned}
    {fault : Diagnostic} (h : reading.step limit index item = .error fault) :
    (∃ delimiter, item.token = .opener delimiter ∧ limit ≤ reading.frames.length ∧
      fault = .about .nestingTooDeep (Nat.repr limit) item.span) ∨
    (∃ bracket, item.token = .closer bracket ∧
      (∀ frame ∈ reading.frames.head?, frame.delimiter.closer ≠ bracket) ∧
      fault = .about .unexpectedToken bracket.closing item.span) ∨
    (∃ frame frames key, reading.frames = frame :: frames ∧ frame.delimiter = .shortMap ∧
      item.token = .closer .curly ∧ ¬ Even reading.elements.length ∧
      reading.elements.head? = some key ∧
      fault = .about .unpairedMapKey key.form.render frame.opener) ∨
    (item.token = .string "\"" ∧ fault = .about .unexpectedQuote "\"" item.span) := by
  have hmiddle := eq_error_of_map_error h
  split at hmiddle
  · next delimiter htoken =>
    unfold openScope at hmiddle
    split at hmiddle
    · next hlimit =>
      exact .inl ⟨delimiter, htoken, by omega, (Except.error.inj hmiddle).symm⟩
    · simp at hmiddle
  · next bracket htoken =>
    rcases closeScope_error_cases hmiddle with ⟨hframes, rfl⟩ |
      ⟨frame, frames, key, hframes, hmap, rfl, hodd, hkey, rfl⟩
    · exact .inr (.inl ⟨bracket, htoken, hframes, rfl⟩)
    · exact .inr (.inr (.inl ⟨frame, frames, key, hframes, hmap, htoken, hodd, hkey, rfl⟩))
  · simp at hmiddle
  · simp at hmiddle
  · next text htoken =>
    split at hmiddle
    · next hquote =>
      subst hquote
      exact .inr (.inr (.inr ⟨htoken, (Except.error.inj hmiddle).symm⟩))
    · simp at hmiddle
  · simp at hmiddle

end Reading

/-! ## The readings a fresh parser gets to -/

/-- `Reached limit tokens reading`: a fresh parser has read the tokens without a fault and is at the
reading. -/
inductive Reached (limit : Nat) : List Spanned → Reading → Prop
  | start : Reached limit [] {}
  | step {tokens : List Spanned} {item : Spanned} {reading next : Reading}
      (before : Reached limit tokens reading)
      (read : reading.step limit tokens.length item = .ok next) :
      Reached limit (tokens ++ [item]) next

variable {limit : Nat} {tokens front back : List Spanned} {item : Spanned}
  {reading : Reading} {fault : Diagnostic}

/-- Once it has read some tokens, the parser goes on from the reading it is at. -/
theorem Reached.exists_document_eq (h : Reached limit front reading) (back : List Spanned) :
    ∃ scopes, (Parser.start (front ++ back) limit).document =
      advance (fun _ _ => false) limit reading front.length scopes back := by
  induction h generalizing back with
  | start => exact ⟨[], rfl⟩
  | @step front item reading next before read ih =>
    obtain ⟨scopes, hscopes⟩ := ih (item :: back)
    refine ⟨scopes ++ (reading.closed? front.length item.token).toList, ?_⟩
    rw [← List.append_cons, hscopes, advance, if_neg (by simp), read]
    simp

theorem Reached.document_eq (h : Reached limit tokens reading) :
    (Parser.start tokens limit).document.1 = reading.finish ∧
      (Parser.start tokens limit).document.2.position = tokens.length := by
  obtain ⟨scopes, hscopes⟩ := h.exists_document_eq []
  rw [List.append_nil] at hscopes
  rw [hscopes, advance]
  exact ⟨rfl, rfl⟩

/-- A fault stops the parser behind the token at fault, whatever follows. -/
theorem Reached.document_eq_error (h : Reached limit front reading)
    (hfault : reading.step limit front.length item = .error fault) (back : List Spanned) :
    (Parser.start (front ++ item :: back) limit).document.1 = .error fault ∧
      (Parser.start (front ++ item :: back) limit).document.2.position = front.length + 1 := by
  obtain ⟨scopes, hscopes⟩ := h.exists_document_eq (item :: back)
  rw [hscopes, advance, if_neg (by simp), hfault]
  exact ⟨rfl, rfl⟩

/-- A parser reads all tokens or stops at the first one that is at fault. -/
theorem Reached.reads_or_stops (h : Reached limit front reading) (back : List Spanned) :
    (∃ last, Reached limit (front ++ back) last) ∨
      ∃ middle item rest last fault, back = middle ++ item :: rest ∧
        Reached limit (front ++ middle) last ∧
        last.step limit (front ++ middle).length item = .error fault := by
  induction back generalizing front reading with
  | nil => exact .inl ⟨reading, by simpa using h⟩
  | cons item back ih =>
    cases hstep : reading.step limit front.length item with
    | error fault =>
      exact .inr ⟨[], item, back, reading, fault, rfl, by simpa using h, by simpa using hstep⟩
    | ok next =>
      rcases ih (h.step hstep) with ⟨last, hlast⟩ |
        ⟨middle, other, rest, last, fault, rfl, hlast, hfault⟩
      · exact .inl ⟨last, by simpa using hlast⟩
      · exact .inr ⟨item :: middle, other, rest, last, fault, rfl, by simpa using hlast,
          by simpa using hfault⟩

theorem reads_or_stops (limit : Nat) (tokens : List Spanned) :
    (∃ reading, Reached limit tokens reading) ∨
      ∃ front item back reading fault, tokens = front ++ item :: back ∧
        Reached limit front reading ∧ reading.step limit front.length item = .error fault := by
  simpa using (Reached.start : Reached limit [] {}).reads_or_stops tokens

/-- On the way to a reading the parser passes every token before it. -/
theorem Reached.exists_step (h : Reached limit tokens reading)
    (htokens : tokens = front ++ item :: back) :
    ∃ before after, Reached limit front before ∧
      before.step limit front.length item = .ok after := by
  induction h generalizing back with
  | start => simp at htokens
  | @step tokens last reading next before read ih =>
    rcases List.eq_nil_or_concat' back with rfl | ⟨back, other, rfl⟩
    · obtain ⟨rfl, rfl⟩ := concat_inj htokens
      exact ⟨reading, next, before, read⟩
    · have hcut : tokens ++ [last] = (front ++ item :: back) ++ [other] := by simpa using htokens
      exact ih (concat_inj hcut).1

/-! ## The invariant -/

/-- `Layout frames elements tokens`: the frames cut the tokens at the unclosed openers, and what is
held of each scope are the trees of its tokens so far. -/
inductive Layout : List Frame → List Tree → List Spanned → Prop
  | top {elements : List Tree} {tokens : List Spanned} (body : Body false tokens elements.reverse) :
      Layout [] elements tokens
  | inside {frame : Frame} {frames : List Frame} {elements : List Tree}
      {front inner : List Spanned} {opener : Spanned} (outer : Layout frames frame.before front)
      (opens : opener.token = .opener frame.delimiter) (span : opener.span = frame.opener)
      (first : frame.first = front.length + 1)
      (body : Body frame.delimiter.isShortLiteral inner elements.reverse) :
      Layout (frame :: frames) elements (front ++ opener :: inner)

namespace Layout

variable {frames : List Frame} {elements : List Tree}

/-- The innermost scope can be looked at, and read on, without regard to the others. -/
theorem exists_body (h : Layout frames elements tokens) :
    ∃ outer body, tokens = outer ++ body ∧ Body (inLiteral frames) body elements.reverse ∧
      ∀ more elements', Body (inLiteral frames) (body ++ more) elements'.reverse →
        Layout frames elements' (tokens ++ more) := by
  cases h with
  | top body => exact ⟨[], tokens, rfl, body, fun more elements' hmore => .top hmore⟩
  | @inside frame _ _ front inner opener outer opens span first body =>
    refine ⟨front ++ [opener], inner, by simp, by simpa [inLiteral] using body, ?_⟩
    intro more elements' hmore
    rw [List.append_assoc, List.cons_append]
    exact .inside outer opens span first (by simpa [inLiteral] using hmore)

/-- The frames are the unclosed openers. -/
theorem unclosed_eq (h : Layout frames elements tokens) :
    unclosed tokens = frames.map fun frame => ⟨frame.delimiter, frame.opener⟩ := by
  induction h with
  | top body => exact body.balanced.unclosed_eq_nil
  | inside outer opens span first body ih =>
    rw [unclosed_append_opener opens body.balanced, ih, span]
    rfl

theorem closersMatch (h : Layout frames elements tokens) : ClosersMatch tokens := by
  induction h with
  | top body => exact body.balanced.closersMatch
  | inside outer opens _ _ body ih =>
    exact closersMatch_append_opener ih opens body.balanced.closersMatch

theorem ne_lone_quote (h : Layout frames elements tokens) :
    ∀ item ∈ tokens, item.token ≠ .string "\"" := by
  induction h with
  | top body => exact body.ne_lone_quote
  | inside outer opens _ _ body ih =>
    intro item hitem
    rcases List.mem_append.mp hitem with hitem | hitem
    · exact ih item hitem
    · rcases List.mem_cons.mp hitem with rfl | hitem
      · simp [opens]
      · exact body.ne_lone_quote item hitem

/-- A token that is no bracket is added to the body of the innermost scope as the grammar adds it. -/
theorem body_concat {outer body : List Spanned} {reading : Reading} {elements : List Tree}
    (hbody : Body (inLiteral reading.frames) body reading.elements.reverse)
    (hedge : ∀ last ∈ (outer ++ body).getLast?, reading.edge = last.span.stop)
    (hgrows : reading.Grows item elements) :
    Body (inLiteral reading.frames) (body ++ [item]) elements.reverse := by
  cases hgrows with
  | leaf plain apart =>
    rw [List.reverse_cons]
    refine .leaf hbody plain fun hliteral => ?_
    by_contra htouches
    obtain ⟨number, previous, htoken, hlast, hdigit, hsign, hstart⟩ :=
      touchesSign_iff.mp (by simpa using htouches)
    obtain ⟨start, rfl⟩ := List.getLast?_eq_some_iff.mp hlast
    obtain ⟨sign, hprevious, hsign⟩ := Token.isSign_iff.mp hsign
    obtain ⟨others, hothers, -⟩ := hbody.exists_last_leaf (by simp [hprevious, Token.isStep])
      (by simp [hprevious, Token.isCloser]) (by simp [hprevious])
    have helements : reading.elements = .leaf (.operator sign) :: others.reverse := by
      rw [← List.reverse_inj, hothers]
      simp [hprevious]
    refine apart sign _ helements ⟨hliteral, hsign, ?_, number, htoken, hdigit⟩
    rw [hstart, hedge previous (by simp)]
  | @lone step token steps =>
    rw [List.reverse_cons]
    refine .lone hbody token ?_
    cases helements : reading.elements with
    | nil =>
      have hempty : body = [] := by
        by_contra hne
        exact hbody.trees_ne_nil hne (by simp [helements])
      simp [hempty]
    | cons element others =>
      rw [helements, List.reverse_cons] at hbody
      exact hbody.isLoneStep_last_iff.mp (steps element (by simp [helements]))
  | @stepped step element others token elements other =>
    rw [elements, List.reverse_cons] at hbody
    rw [List.reverse_cons]
    refine .stepped hbody token ?_
    by_contra hnone
    have hlone := hbody.isLoneStep_last_iff.mpr fun item hitem => by
      by_contra hitem'
      exact hnone ⟨item, hitem, by simpa using hitem'⟩
    simp [hlone] at other
  | @signed sign number others token elements joins =>
    obtain ⟨hliteral, hsign, hstart, number', htoken', hdigit⟩ := joins
    rw [elements, List.reverse_cons] at hbody
    rw [hliteral] at hbody ⊢
    rw [List.reverse_cons]
    refine .signed hbody token ?_
    obtain ⟨start, previous, rfl, hprevious⟩ := hbody.exists_last_operator
    refine touchesSign_iff.mpr ⟨number', previous, htoken', by simp, hdigit, ?_, ?_⟩
    · exact Token.isSign_iff.mpr ⟨sign, hprevious, hsign⟩
    · rw [hstart, hedge previous (by simp)]

/-- A step keeps the layout. -/
theorem step {reading next : Reading}
    (h : Layout reading.frames reading.elements tokens)
    (hedge : ∀ last ∈ tokens.getLast?, reading.edge = last.span.stop)
    (hstep : reading.step limit tokens.length item = .ok next) :
    Layout next.frames next.elements (tokens ++ [item]) := by
  rcases Reading.step_ok_cases hstep with ⟨delimiter, htoken, -, rfl⟩ |
    ⟨frame, frames, hframes, htoken, hpairs, rfl⟩ | ⟨-, hgrows, hnext⟩
  · exact .inside h htoken rfl rfl .nil
  · rw [hframes] at h
    cases h with
    | @inside _ _ _ front inner opener outer opens span first body =>
      obtain ⟨start, around, -, haround, hmore⟩ := outer.exists_body
      rw [List.append_assoc, List.cons_append]
      refine hmore _ _ ?_
      rw [List.reverse_cons]
      exact .scope haround body opens htoken (by simpa using hpairs)
  · obtain ⟨outer, body, rfl, hbody, hmore⟩ := h.exists_body
    rw [hnext]
    exact hmore _ _ (body_concat hbody hedge hgrows)

end Layout

theorem Reached.edge_eq (h : Reached limit tokens reading) :
    ∀ last ∈ tokens.getLast?, reading.edge = last.span.stop := by
  cases h with
  | start => simp
  | step before read =>
    rcases Reading.step_ok_cases read with ⟨_, -, -, rfl⟩ | ⟨_, _, -, -, -, rfl⟩ | ⟨-, -, hnext⟩
    · simp
    · simp
    · rw [hnext]
      simp

/-- The invariant holds of every reading that a fresh parser gets to. -/
theorem Reached.layout (h : Reached limit tokens reading) :
    Layout reading.frames reading.elements tokens := by
  induction h with
  | start => exact .top .nil
  | step before read ih => exact ih.step before.edge_eq read

/-- No more scopes are open than the limit allows. -/
theorem Reached.length_frames_le (h : Reached limit tokens reading) :
    reading.frames.length ≤ limit := by
  induction h with
  | start => simp
  | step before read ih =>
    rcases Reading.step_ok_cases read with ⟨_, -, hlimit, rfl⟩ | ⟨_, _, hframes, -, -, rfl⟩ |
      ⟨-, -, hnext⟩
    · exact hlimit
    · rw [hframes, List.length_cons] at ih
      exact Nat.le_of_succ_le ih
    · rw [hnext]
      exact ih

/-! ## Whole documents -/

theorem Reading.finish_eq_ok_iff {trees : List Tree} :
    reading.finish = .ok trees ↔ reading.frames = [] ∧ trees = reading.elements.reverse := by
  unfold finish
  split
  · next frame frames hframes => simp [hframes]
  · next hframes => simp [hframes, eq_comm]

/-- The trees of a document are those that the grammar gives it. -/
theorem body_of_document_eq_ok {trees : List Tree}
    (h : (Parser.start tokens limit).document.1 = .ok trees) : Body false tokens trees := by
  rcases reads_or_stops limit tokens with ⟨reading, hreading⟩ |
    ⟨front, item, back, reading, fault, rfl, hreading, hfault⟩
  · rw [hreading.document_eq.1] at h
    obtain ⟨hframes, rfl⟩ := Reading.finish_eq_ok_iff.mp h
    have hlayout := hreading.layout
    rw [hframes] at hlayout
    cases hlayout with
    | top body => exact body
  · rw [(hreading.document_eq_error hfault back).1] at h
    simp at h

end Parser

end Desugar
