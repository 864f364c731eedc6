import Desugar.Proofs.Sessions

/-!
# One element at a time

Asking a parser for one element after the other, until there is none or a call faults
(`Parser.collect`), comes to the same as asking it once for all that is left: the same elements or the
same fault, and the same parser behind it (`collect_eq_document`).

## Shape of the argument

A call for one element goes over the tokens as a call for the document does, until it stops at an
element that is complete (`advance_isComplete`).  From there the call for the document goes on with
that element in hand, and a new call with nothing.  Elements that are complete make no difference to
what is read behind them: `Reading.onto` puts them below a reading, and a step does the same with them
and without (`Reading.step_onto`).
-/

namespace Desugar.Parser

variable {limit index : Nat} {reading : Reading} {item : Spanned} {base : List Tree}

/-! ## Readings on top of complete elements -/

/-- The frames when these elements, the last one first, stand before all others of the top level. -/
def framesOnto (base : List Tree) : List Frame → List Frame
  | [] => []
  | [frame] => [{ frame with before := frame.before ++ base }]
  | frame :: other :: frames => frame :: framesOnto base (other :: frames)

/-- The reading when these elements, the last one first, stand before all others of the top level. -/
def Reading.onto (base : List Tree) (reading : Reading) : Reading :=
  match reading.frames with
  | [] => { reading with elements := reading.elements ++ base }
  | frames => { reading with frames := framesOnto base frames }

/-- The token finds the same below it with the elements and without them: where nothing else was read,
it is no step operator, or the elements give it nothing to step. -/
def Reading.Ready (base : List Tree) (reading : Reading) (token : Token) : Prop :=
  reading.frames = [] → reading.elements = [] → token.isStep = true →
    ∀ element ∈ base.head?, element.isLoneStep = true

theorem length_framesOnto (base : List Tree) (frames : List Frame) :
    (framesOnto base frames).length = frames.length := by
  fun_induction framesOnto base frames with
  | case1 => rfl
  | case2 => rfl
  | case3 frame other frames ih => simp [ih]

namespace Reading

theorem length_frames_onto (base : List Tree) (reading : Reading) :
    (reading.onto base).frames.length = reading.frames.length := by
  obtain ⟨frames, elements, edge⟩ := reading
  cases frames with
  | nil => rfl
  | cons frame frames => exact length_framesOnto base (frame :: frames)

theorem openScope_onto (limit : Nat) (reading : Reading) (delimiter : Delimiter) (span : Span)
    (first : Nat) :
    openScope limit (reading.onto base) delimiter span first =
      (openScope limit reading delimiter span first).map (onto base) := by
  unfold openScope
  rw [length_frames_onto]
  split_ifs
  · rfl
  · obtain ⟨frames, elements, edge⟩ := reading
    cases frames <;> rfl

theorem closeScope_onto (reading : Reading) (bracket : Bracket) (span : Span) :
    (reading.onto base).closeScope bracket span =
      (reading.closeScope bracket span).map (onto base) := by
  obtain ⟨frames, elements, edge⟩ := reading
  rcases frames with _ | ⟨frame, _ | ⟨other, frames⟩⟩
  · rfl
  · simp only [closeScope, onto, framesOnto]
    split
    · split <;> rfl
    · rfl
  · simp only [closeScope, onto, framesOnto]
    split
    · split <;> rfl
    · rfl

theorem push_onto (reading : Reading) (tree : Tree) :
    (reading.onto base).push tree = (reading.push tree).onto base := by
  obtain ⟨frames, elements, edge⟩ := reading
  cases frames <;> rfl

theorem pushStep_onto {direction : Step} (hready : reading.Ready base (.step direction)) :
    (reading.onto base).pushStep direction = (reading.pushStep direction).onto base := by
  obtain ⟨frames, elements, edge⟩ := reading
  cases frames with
  | nil =>
    cases elements with
    | nil =>
      cases base with
      | nil => rfl
      | cons element others =>
        have hlone := hready rfl rfl rfl element (by simp)
        simp [pushStep, onto, push, hlone]
    | cons element others =>
      simp only [pushStep, onto, List.cons_append]
      split <;> rfl
  | cons frame frames =>
    cases elements with
    | nil => rfl
    | cons element others =>
      simp only [pushStep, onto]
      split <;> rfl

/-- At the top level no word is joined to a sign. -/
theorem pushWord_top (hframes : reading.frames = []) (text : String) (span : Span) :
    reading.pushWord text span = reading.push (.leaf (.word text)) := by
  unfold pushWord
  split
  · rw [if_neg (by simp [inShortLiteral, hframes])]
  · rfl

theorem inShortLiteral_onto (reading : Reading) :
    (reading.onto base).inShortLiteral = reading.inShortLiteral := by
  obtain ⟨frames, elements, edge⟩ := reading
  rcases frames with _ | ⟨frame, _ | ⟨other, frames⟩⟩ <;> rfl

theorem edge_onto (reading : Reading) : (reading.onto base).edge = reading.edge := by
  obtain ⟨frames, elements, edge⟩ := reading
  cases frames <;> rfl

theorem pushWord_onto (reading : Reading) (text : String) (span : Span) :
    (reading.onto base).pushWord text span = (reading.pushWord text span).onto base := by
  cases hframes : reading.frames with
  | nil =>
    have hframes' : (reading.onto base).frames = [] := by simp [onto, hframes]
    rw [pushWord_top hframes', pushWord_top hframes, push_onto]
  | cons frame frames =>
    -- the elements of the top level are not looked at
    have helements : (reading.onto base).elements = reading.elements := by simp [onto, hframes]
    unfold pushWord
    rw [helements]
    split
    · simp only [inShortLiteral_onto, edge_onto, apply_ite (onto base), push_onto]
      simp only [onto, hframes]
    · exact push_onto reading _

/-- A step does the same on top of complete elements. -/
theorem step_onto (limit index : Nat) (hready : reading.Ready base item.token) :
    (reading.onto base).step limit index item = (reading.step limit index item).map (onto base) := by
  have hedge : ∀ next : Reading, { next.onto base with edge := item.span.stop } =
      onto base { next with edge := item.span.stop } := by
    rintro ⟨frames, elements, edge⟩
    cases frames <;> rfl
  unfold step
  cases htoken : item.token with
  | opener delimiter =>
    simp only [openScope_onto]
    cases openScope limit reading delimiter item.span (index + 1) with
    | error fault => rfl
    | ok next => exact congrArg Except.ok (hedge next)
  | closer bracket =>
    simp only [closeScope_onto]
    cases reading.closeScope bracket item.span with
    | error fault => rfl
    | ok next => exact congrArg Except.ok (hedge next)
  | step direction =>
    rw [htoken] at hready
    simp only [pushStep_onto hready]
    exact congrArg Except.ok (hedge _)
  | word text =>
    simp only [pushWord_onto]
    exact congrArg Except.ok (hedge _)
  | string text =>
    dsimp only
    split
    · rfl
    · rw [push_onto]
      exact congrArg Except.ok (hedge _)
  | _ =>
    simp only [push_onto]
    exact congrArg Except.ok (hedge _)

end Reading

theorem Reading.closed?_onto (reading : Reading) (index : Nat) (token : Token) :
    (reading.onto base).closed? index token = reading.closed? index token := by
  obtain ⟨frames, elements, edge⟩ := reading
  rcases frames with _ | ⟨frame, _ | ⟨other, frames⟩⟩
  · cases token <;> rfl
  · cases token <;> rfl
  · cases token with
    | closer bracket => simp [closed?, onto, framesOnto, length_framesOnto]
    | _ => rfl

theorem Reading.finish_onto (reading : Reading) :
    (reading.onto base).finish = reading.finish.map (base.reverse ++ ·) := by
  obtain ⟨frames, elements, edge⟩ := reading
  rcases frames with _ | ⟨frame, _ | ⟨other, frames⟩⟩
  · simp [finish, onto, Except.map]
  · rfl
  · rfl

/-- Behind a token the top level holds an element, or a scope is open. -/
theorem Reading.ready_of_step {next : Reading} (h : reading.step limit index item = .ok next)
    (base : List Tree) (token : Token) : next.Ready base token := by
  intro hframes helements
  exfalso
  rcases step_ok_cases h with ⟨_, -, -, rfl⟩ | ⟨_, _, -, -, -, rfl⟩ | ⟨-, hgrows, -⟩
  · simp at hframes
  · simp at helements
  · rw [helements] at hgrows
    cases hgrows

/-- Reading on, the elements below are put in front of those that are read. -/
theorem advance_onto (limit index : Nat) (scopes : List Scope) (tokens : List Spanned)
    (hready : ∀ item ∈ tokens.head?, reading.Ready base item.token) :
    advance (fun _ _ => false) limit (reading.onto base) index scopes tokens =
      ((advance (fun _ _ => false) limit reading index scopes tokens).1.map (base.reverse ++ ·),
        (advance (fun _ _ => false) limit reading index scopes tokens).2) := by
  induction tokens generalizing reading index scopes with
  | nil => rw [advance, advance, Reading.finish_onto]
  | cons item tokens ih =>
    rw [advance, advance, if_neg (by simp), if_neg (by simp)]
    dsimp only
    rw [Reading.step_onto limit index (hready item (by simp)), Reading.closed?_onto]
    cases hstep : reading.step limit index item with
    | error fault => rfl
    | ok next => exact ih _ _ fun other _ => Reading.ready_of_step hstep base other.token

/-! ## One call -/

namespace Reading

/-- One element of the top level has been read at most, or the first one is being read. -/
structure Single (reading : Reading) : Prop where
  top : reading.frames = [] → reading.elements.length ≤ 1
  inside : ∀ frame ∈ reading.frames.getLast?, frame.before = []

theorem single_start : Single {} := ⟨by simp, by simp⟩

/-- An element of the top level that is not complete is one that the token steps. -/
theorem of_isComplete_eq_false (hframes : reading.frames = [])
    (h : reading.isComplete item.token = false) :
    reading.elements = [] ∨ item.token.isStep = true ∧
      ∀ element ∈ reading.elements.head?, element.isLoneStep = false := by
  unfold isComplete at h
  cases helements : reading.elements with
  | nil => exact .inl rfl
  | cons element others =>
    simp only [hframes, helements, Bool.or_eq_false_iff, Bool.not_eq_false'] at h
    exact .inr ⟨h.2, by simpa using h.1⟩

/-- A reading at which nothing is complete is still at its first element behind one more token. -/
theorem Single.step {next : Reading} (h : reading.Single)
    (hopen : reading.isComplete item.token = false)
    (hstep : reading.step limit index item = .ok next) : next.Single := by
  rcases step_ok_cases hstep with ⟨delimiter, htoken, -, rfl⟩ |
    ⟨frame, frames, hframes, -, -, rfl⟩ | ⟨-, hgrows, hnext⟩
  · refine ⟨by simp, ?_⟩
    cases hframes : reading.frames with
    | nil =>
      rcases of_isComplete_eq_false hframes hopen with helements | ⟨hsteps, -⟩
      · simp [helements]
      · simp [htoken, Token.isStep] at hsteps
    | cons frame frames => simpa [hframes, List.getLast?_cons_cons] using h.inside
  · have hinside := h.inside
    rw [hframes] at hinside
    cases frames with
    | nil =>
      refine ⟨fun _ => ?_, by simp⟩
      simp [hinside frame (by simp)]
    | cons other frames =>
      refine ⟨by simp, ?_⟩
      simpa [List.getLast?_cons_cons] using hinside
  · have hframes : next.frames = reading.frames := by rw [hnext]
    refine ⟨fun htop => ?_, by simpa [hframes] using h.inside⟩
    rw [hframes] at htop
    have hlength := h.top htop
    have hcases := of_isComplete_eq_false htop hopen
    generalize next.elements = elements at hgrows
    cases hgrows with
    | leaf plain _ =>
      rcases hcases with helements | ⟨hsteps, -⟩
      · simp [helements]
      · simp [Token.isStep_of_isPlain plain] at hsteps
    | lone token steps =>
      rcases hcases with helements | ⟨-, hother⟩
      · simp [helements]
      · cases helements : reading.elements with
        | nil => simp
        | cons element others =>
          have hlone := steps element (by simp [helements])
          simp [hother element (by simp [helements])] at hlone
    | stepped token elements other => simpa [elements] using hlength
    | signed token elements joins => simpa [elements] using hlength

theorem Single.eq_of_top (h : reading.Single) (hframes : reading.frames = []) :
    reading.elements = [] ∨ ∃ tree edge, reading = ⟨[], [tree], edge⟩ := by
  obtain ⟨frames, elements, edge⟩ := reading
  obtain rfl : frames = [] := hframes
  rcases elements with _ | ⟨tree, _ | ⟨other, others⟩⟩
  · exact .inl rfl
  · exact .inr ⟨tree, edge, rfl⟩
  · simpa using h.top rfl

/-- Where an element is complete, the token that follows does not step it. -/
theorem Single.of_isComplete (h : reading.Single) (hcomplete : reading.isComplete item.token = true) :
    ∃ tree edge, reading = ⟨[], [tree], edge⟩ ∧ Ready [tree] {} item.token := by
  unfold isComplete at hcomplete
  split at hcomplete
  · next element others hframes helements =>
    rcases h.eq_of_top hframes with hnone | ⟨tree, edge, rfl⟩
    · simp [hnone] at helements
    · obtain ⟨rfl, -⟩ := List.cons.inj helements
      refine ⟨tree, edge, rfl, fun _ _ hstep => ?_⟩
      simpa [hstep] using hcomplete
  · simp at hcomplete

/-- At the top level it does not matter where the last token ended. -/
theorem step_top (limit index : Nat) (elements : List Tree) (edge edge' : Nat) (item : Spanned) :
    step limit index ⟨[], elements, edge⟩ item = step limit index ⟨[], elements, edge'⟩ item := by
  unfold step
  cases item.token with
  | step direction => 
    cases elements with
    | nil => rfl
    | cons element others =>
      simp only [pushStep]
      split <;> rfl
  | word text => 
    simp only [pushWord_top]
    rfl
  | string text =>
    dsimp only
    split <;> rfl
  | opener delimiter =>
    simp only [openScope]
    split <;> rfl
  | _ => rfl

end Reading

theorem advance_top (limit index : Nat) (elements : List Tree) (edge edge' : Nat)
    (scopes : List Scope) (tokens : List Spanned) :
    advance (fun _ _ => false) limit ⟨[], elements, edge⟩ index scopes tokens =
      advance (fun _ _ => false) limit ⟨[], elements, edge'⟩ index scopes tokens := by
  cases tokens with
  | nil => rfl
  | cons item tokens =>
    rw [advance, advance, Reading.step_top limit index elements edge edge']
    rfl

/-- A call for one element does what a call for the document does, up to an element that is complete.
There the call for the document goes on with that element. -/
theorem advance_isComplete (index : Nat) (scopes : List Scope) (tokens : List Spanned)
    (h : reading.Single) :
    (∀ tree others, (advance Reading.isComplete limit reading index scopes tokens).1 ≠
        .ok (tree :: others)) ∧
      advance (fun _ _ => false) limit reading index scopes tokens =
        advance Reading.isComplete limit reading index scopes tokens ∨
    ∃ tree edge index' scopes' rest,
      advance Reading.isComplete limit reading index scopes tokens =
        (.ok [tree], ⟨rest, index', scopes', limit⟩) ∧
      (∀ item ∈ rest.head?, Reading.Ready [tree] {} item.token) ∧
      advance (fun _ _ => false) limit reading index scopes tokens =
        advance (fun _ _ => false) limit ⟨[], [tree], edge⟩ index' scopes' rest := by
  induction tokens generalizing reading index scopes with
  | nil =>
    rcases hframes : reading.frames with _ | ⟨frame, frames⟩
    · rcases h.eq_of_top hframes with helements | ⟨tree, edge, rfl⟩
      · exact .inl ⟨by simp [advance, Reading.finish, hframes, helements], rfl⟩
      · exact .inr ⟨tree, edge, index, scopes, [], rfl, by simp, rfl⟩
    · exact .inl ⟨by simp [advance, Reading.finish, hframes], rfl⟩
  | cons item tokens ih =>
    by_cases hcomplete : reading.isComplete item.token = true
    · obtain ⟨tree, edge, rfl, hready⟩ := h.of_isComplete hcomplete
      refine .inr ⟨tree, edge, index, scopes, item :: tokens, ?_, by simpa using hready, rfl⟩
      rw [advance, if_pos hcomplete]
      rfl
    · have hopen : reading.isComplete item.token = false := by simpa using hcomplete
      cases hstep : reading.step limit index item with
      | error fault =>
        rw [advance_cons_error hopen hstep, advance_cons_error rfl hstep]
        exact .inl ⟨by simp, rfl⟩
      | ok next =>
        rw [advance_cons_ok hopen hstep, advance_cons_ok rfl hstep]
        exact ih _ _ (h.step hopen hstep)

/-- The first element of a document is the next one, and the others are those of the document that is
left behind it. -/
theorem next_cases (parser : Parser) :
    (∃ fault, parser.next.1 = .error fault ∧ parser.document = (.error fault, parser.next.2)) ∨
    (parser.next.1 = .ok none ∧ parser.document = (.ok [], parser.next.2)) ∨
    ∃ tree, parser.next.1 = .ok (some tree) ∧
      parser.document =
        (parser.next.2.document.1.map (tree :: ·), parser.next.2.document.2) := by
  rcases advance_isComplete parser.position parser.scopes parser.rest Reading.single_start with
    ⟨hnone, hsame⟩ | ⟨tree, edge, index, scopes, rest, hnext, hready, hrest⟩
  · rw [document, hsame]
    cases hresult : (advance Reading.isComplete parser.limit {} parser.position parser.scopes
        parser.rest).1 with
    | error fault =>
      exact .inl ⟨fault, by simp [next, hresult, Except.map], Prod.ext hresult rfl⟩
    | ok trees =>
      cases trees with
      | nil => exact .inr (.inl ⟨by simp [next, hresult, Except.map], Prod.ext hresult rfl⟩)
      | cons tree others => exact absurd hresult (hnone tree others)
  · refine .inr (.inr ⟨tree, by simp [next, hnext, Except.map], ?_⟩)
    have hbehind : parser.next.2 = ⟨rest, index, scopes, parser.limit⟩ := by simp [next, hnext]
    rw [hbehind, document, hrest, advance_top parser.limit index [tree] edge 0]
    exact advance_onto parser.limit index scopes rest hready

/-! ## All calls -/

theorem rest_next_lt {parser : Parser} {tree : Tree} (h : parser.next.1 = .ok (some tree)) :
    parser.next.2.rest.length < parser.rest.length := by
  obtain ⟨read, rest, closed, hrest, hread, -, hrun⟩ :=
    Call.element.exists_account parser.rest parser.limit
  have hnext : parser.next.2 = Call.element.run parser := rfl
  have hne : parser.rest ≠ [] := by
    intro hnil
    simp [next, hnil, advance, Reading.finish, Except.map] at h
  rw [hnext, Call.run_eq, hrun, hrest, List.length_append]
  have hpos := List.length_pos_iff.mpr (hread hne)
  simp only [moved]
  omega

/-- What calls for one element give, one after the other, until there is none or a call faults: the
elements or the fault, and the parser behind the last call. -/
def collect (parser : Parser) : Except Diagnostic (List Tree) × Parser :=
  match _hnext : parser.next.1 with
  | .error fault => (.error fault, parser.next.2)
  | .ok none => (.ok [], parser.next.2)
  | .ok (some tree) =>
    let (result, last) := parser.next.2.collect
    (result.map (tree :: ·), last)
termination_by parser.rest.length
decreasing_by exact rest_next_lt _hnext

/-- From any state of a parser, calls for one element after the other come to the same as one call for
the document: the same elements or the same fault, the same position and the same scopes. -/
theorem collect_eq_document (parser : Parser) : parser.collect = parser.document := by
  fun_induction collect parser with
  | case1 parser fault h =>
    rcases next_cases parser with ⟨fault', hfault, hdocument⟩ | ⟨hnone, -⟩ | ⟨tree, hsome, -⟩
    · obtain rfl := Except.error.inj (hfault.symm.trans h)
      exact hdocument.symm
    · simp [h] at hnone
    · simp [h] at hsome
  | case2 parser h =>
    rcases next_cases parser with ⟨fault, hfault, -⟩ | ⟨-, hdocument⟩ | ⟨tree, hsome, -⟩
    · simp [h] at hfault
    · exact hdocument.symm
    · simp [h] at hsome
  | case3 parser tree h result last heq ih =>
    rcases next_cases parser with ⟨fault, hfault, -⟩ | ⟨hnone, -⟩ | ⟨tree', hsome, hdocument⟩
    · simp [h] at hfault
    · simp [h] at hnone
    · obtain rfl := Option.some.inj (Except.ok.inj (hsome.symm.trans h))
      rw [hdocument, ← ih, heq]

end Desugar.Parser
