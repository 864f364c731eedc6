import Desugar.Proofs.Sessions
import Mathlib.Data.List.Forall2

/-!
# The same tokens at other places

The parser looks at the place of a token to see whether a number touches the sign before it, and
otherwise only hands it on into faults.  So two streams with the same tokens, in which the same numbers
touch their signs (`Respanned`), cannot be told apart by any calls: each call gives the same elements in
both, or faults that differ in nothing but where one and the same token stands.

## Shape of the argument

* `Reading.Mirrors` relates the readings of the two streams behind as many tokens.  They have the same
  elements and the same open scopes, and the openers of these scopes are the same tokens.
* The edge of a reading counts only where a sign is its last element, and then it is the end of the
  token before (`Reading.EdgeAt`).  That is a fact about one stream, and it carries the comparison of
  edges over to the tokens.
* `Reading.Mirrors.step` is the step and `Reading.Mirrors.advance` the run; `Call.respanned` is one call
  and `after_respanned` all calls.

Nothing is assumed of the spans themselves: they may overlap, go back, or end before they start.
-/

namespace Desugar

/-- A word that starts with a digit. -/
def Token.isNumber : Token → Bool
  | .word text => Parser.Reading.startsWithDigit text
  | _ => false

/-- `Respanned tokens others`: the two streams have the same tokens, and a number right behind a sign
touches it in both of them or in neither. -/
structure Respanned (tokens others : List Spanned) : Prop where
  tokens_eq : tokens.map (·.token) = others.map (·.token)
  touches_iff : ∀ {index : Nat} {sign number sign' number' : Spanned},
    tokens[index]? = some sign → tokens[index + 1]? = some number →
    others[index]? = some sign' → others[index + 1]? = some number' →
    sign.token.isSign = true → number.token.isNumber = true →
    (number.span.start = sign.span.stop ↔ number'.span.start = sign'.span.stop)

variable {tokens others : List Spanned}

theorem Respanned.token_eq (h : Respanned tokens others) {index : Nat} {item item' : Spanned}
    (hitem : tokens[index]? = some item) (hitem' : others[index]? = some item') :
    item'.token = item.token := by
  have hmap := congrArg (·[index]?) h.tokens_eq
  simp only [List.getElem?_map, hitem, hitem', Option.map_some, Option.some.injEq] at hmap
  exact hmap.symm

theorem Respanned.length_eq (h : Respanned tokens others) : tokens.length = others.length := by
  simpa using congrArg List.length h.tokens_eq

/-! ## Results that differ in the places only -/

/-- The two spans are those of one token, which is at the same index in the two streams. -/
def SamePlace (tokens others : List Spanned) (span span' : Span) : Prop :=
  ∃ (index : Nat) (item item' : Spanned), tokens[index]? = some item ∧ others[index]? = some item' ∧
    item.span = span ∧ item'.span = span'

/-- The two faults are of one kind, about the same text, and at the same token of the two streams. -/
structure Diagnostic.Mirrors (tokens others : List Spanned) (fault fault' : Diagnostic) : Prop where
  kind_eq : fault.kind = fault'.kind
  token_eq : fault.token = fault'.token
  location_eq : fault.location = fault'.location
  span : ∃ span span', fault.span = some span ∧ fault'.span = some span' ∧
    SamePlace tokens others span span'

theorem Diagnostic.Mirrors.about (kind : Diagnostic.Kind) (text : String) {span span' : Span}
    (h : SamePlace tokens others span span') :
    Mirrors tokens others (.about kind text span) (.about kind text span') :=
  ⟨rfl, rfl, rfl, span, span', rfl, rfl, h⟩

/-- Both results are values that are related, or both are faults that differ in the places only. -/
inductive Agree {α : Type} (tokens others : List Spanned) (related : α → α → Prop) :
    Except Diagnostic α → Except Diagnostic α → Prop
  | ok {value value' : α} (values : related value value') :
      Agree tokens others related (.ok value) (.ok value')
  | error {fault fault' : Diagnostic} (faults : fault.Mirrors tokens others fault') :
      Agree tokens others related (.error fault) (.error fault')

theorem Agree.map {α β : Type} {related : α → α → Prop} {related' : β → β → Prop} {f g : α → β}
    {result result' : Except Diagnostic α} (h : Agree tokens others related result result')
    (hvalues : ∀ value value', related value value' → related' (f value) (g value')) :
    Agree tokens others related' (result.map f) (result'.map g) := by
  cases h with
  | ok values => exact .ok (hvalues _ _ values)
  | error faults => exact .error faults

theorem Agree.eq_ok {α : Type} {value : α} {result result' : Except Diagnostic α}
    (h : Agree tokens others (· = ·) result result') (hresult : result = .ok value) :
    result' = .ok value := by
  cases h with
  | ok values => rw [← values, hresult]
  | error faults => simp at hresult

namespace Parser

/-! ## Readings of the two streams -/

/-- The same open scope in the two streams. -/
structure Frame.Mirrors (tokens others : List Spanned) (frame frame' : Frame) : Prop where
  delimiter_eq : frame.delimiter = frame'.delimiter
  first_eq : frame.first = frame'.first
  before_eq : frame.before = frame'.before
  opener : SamePlace tokens others frame.opener frame'.opener

namespace Reading

/-- The readings of the two streams hold the same elements, in the same open scopes. -/
structure Mirrors (tokens others : List Spanned) (reading other : Reading) : Prop where
  frames : List.Forall₂ (Frame.Mirrors tokens others) reading.frames other.frames
  elements_eq : reading.elements = other.elements

/-- Where the last element is an operator, it is the token before `index`, and the edge is its end. -/
def EdgeAt (tokens : List Spanned) (index : Nat) (reading : Reading) : Prop :=
  ∀ text, reading.elements.head? = some (.leaf (.operator text)) →
    ∃ before item, index = before + 1 ∧ tokens[before]? = some item ∧
      item.token = .operator text ∧ reading.edge = item.span.stop

variable {reading other next : Reading} {item item' : Spanned} {limit index : Nat}

theorem mirrors_start (tokens others : List Spanned) : Mirrors tokens others {} {} :=
  ⟨.nil, rfl⟩

theorem edgeAt_start (tokens : List Spanned) (index : Nat) : EdgeAt tokens index {} := by
  intro text htext
  simp at htext

/-- An operator is the last element only behind its own token. -/
theorem edgeAt_of_step (hitem : tokens[index]? = some item)
    (h : reading.step limit index item = .ok next) : EdgeAt tokens (index + 1) next := by
  intro text hlast
  rcases step_ok_cases h with ⟨_, -, -, rfl⟩ | ⟨_, _, -, -, -, rfl⟩ | ⟨-, hgrows, hnext⟩
  · simp at hlast
  · simp at hlast
  · have hedge : next.edge = item.span.stop := by rw [hnext]
    generalize next.elements = elements at hgrows hlast
    cases hgrows with
    | leaf _ _ => exact ⟨index, item, rfl, hitem, by simpa using hlast, hedge⟩
    | lone _ _ => exact ⟨index, item, rfl, hitem, by simpa using hlast, hedge⟩
    | stepped _ _ _ => simp at hlast
    | signed _ _ _ => simp at hlast

namespace Mirrors

theorem length_frames (h : reading.Mirrors tokens others other) :
    reading.frames.length = other.frames.length :=
  h.frames.length_eq

theorem inShortLiteral_eq (h : reading.Mirrors tokens others other) :
    reading.inShortLiteral = other.inShortLiteral := by
  have hframes := h.frames
  unfold inShortLiteral
  generalize reading.frames = frames, other.frames = frames' at hframes
  cases hframes with
  | nil => rfl
  | cons hframe _ => exact congrArg Delimiter.isShortLiteral hframe.delimiter_eq

theorem isComplete_eq (h : reading.Mirrors tokens others other) (token : Token) :
    reading.isComplete token = other.isComplete token := by
  have hframes := h.frames
  unfold isComplete
  rw [h.elements_eq]
  generalize reading.frames = frames, other.frames = frames' at hframes
  cases hframes with
  | nil => rfl
  | cons _ _ => rfl

theorem closed?_eq (h : reading.Mirrors tokens others other) (index : Nat) (token : Token) :
    reading.closed? index token = other.closed? index token := by
  have hframes := h.frames
  unfold closed?
  generalize reading.frames = frames, other.frames = frames' at hframes
  cases hframes with
  | nil => rfl
  | cons hframe hothers =>
    cases token with
    | closer bracket =>
      dsimp only
      rw [hframe.delimiter_eq, hframe.first_eq, hothers.length_eq]
    | _ => rfl

theorem finish (h : reading.Mirrors tokens others other) :
    Agree tokens others (· = ·) reading.finish other.finish := by
  have hframes := h.frames
  unfold Reading.finish
  rw [h.elements_eq]
  generalize reading.frames = frames, other.frames = frames' at hframes
  cases hframes with
  | nil => exact .ok rfl
  | cons hframe _ =>
    dsimp only
    rw [hframe.delimiter_eq]
    exact .error (.about _ _ hframe.opener)

/-! ### One token -/

theorem push (h : reading.Mirrors tokens others other) (tree : Tree) :
    (reading.push tree).Mirrors tokens others (other.push tree) :=
  ⟨h.frames, congrArg (tree :: ·) h.elements_eq⟩

theorem pushStep (h : reading.Mirrors tokens others other) (direction : Step) :
    (reading.pushStep direction).Mirrors tokens others (other.pushStep direction) := by
  unfold Reading.pushStep
  rw [h.elements_eq]
  split
  · split
    · exact h.push _
    · exact ⟨h.frames, rfl⟩
  · exact h.push _

/-- A word is joined to a sign in both streams or in neither, for it touches the sign in both or in
neither. -/
theorem pushWord (h : reading.Mirrors tokens others other) {text : String} {span span' : Span}
    (htouches : ∀ sign, other.elements.head? = some (.leaf (.operator sign)) →
      sign = "-" ∨ sign = "+" → startsWithDigit text = true →
      (span.start = reading.edge ↔ span'.start = other.edge)) :
    (reading.pushWord text span).Mirrors tokens others (other.pushWord text span') := by
  unfold Reading.pushWord
  rw [h.elements_eq, h.inShortLiteral_eq]
  split
  · next sign elements helements =>
    -- the places decide only for a sign and a number; in the other cases both tests fail before
    by_cases hsign : sign = "-" ∨ sign = "+"
    · by_cases hdigit : startsWithDigit text = true
      · have htouch := htouches sign (by simp [helements]) hsign hdigit
        simp only [htouch]
        split
        · exact ⟨h.frames, rfl⟩
        · exact h.push _
      · rw [if_neg (by simp [hdigit]), if_neg (by simp [hdigit])]
        exact h.push _
    · have hother : (sign = "-" || sign = "+") = false := by simpa using hsign
      rw [if_neg (by simp [hother]), if_neg (by simp [hother])]
      exact h.push _
  · exact h.push _

theorem openScope (h : reading.Mirrors tokens others other) (limit : Nat) (delimiter : Delimiter)
    {span span' : Span} (hspan : SamePlace tokens others span span') (first : Nat) :
    Agree tokens others (Mirrors tokens others) (reading.openScope limit delimiter span first)
      (other.openScope limit delimiter span' first) := by
  unfold Reading.openScope
  rw [h.length_frames]
  split
  · exact .error (.about _ _ hspan)
  · exact .ok ⟨.cons ⟨rfl, rfl, h.elements_eq, hspan⟩ h.frames, rfl⟩

theorem closeScope (h : reading.Mirrors tokens others other) (bracket : Bracket)
    {span span' : Span} (hspan : SamePlace tokens others span span') :
    Agree tokens others (Mirrors tokens others) (reading.closeScope bracket span)
      (other.closeScope bracket span') := by
  have hframes := h.frames
  unfold Reading.closeScope
  rw [h.elements_eq]
  generalize reading.frames = frames, other.frames = frames' at hframes
  cases hframes with
  | nil => exact .error (.about _ _ hspan)
  | cons hframe hothers =>
    dsimp only
    rw [hframe.delimiter_eq, hframe.before_eq]
    split
    · split
      · exact .error (.about _ _ hframe.opener)
      · exact .ok ⟨hothers, rfl⟩
    · exact .error (.about _ _ hspan)

/-- A step of the two streams, at tokens with the same index, keeps the readings alike. -/
theorem step (h : reading.Mirrors tokens others other) (hstreams : Respanned tokens others)
    (hedge : reading.EdgeAt tokens index) (hedge' : other.EdgeAt others index)
    (hitem : tokens[index]? = some item) (hitem' : others[index]? = some item') (limit : Nat) :
    Agree tokens others (Mirrors tokens others) (reading.step limit index item)
      (other.step limit index item') := by
  have htoken : item'.token = item.token := hstreams.token_eq hitem hitem'
  have hspan : SamePlace tokens others item.span item'.span :=
    ⟨index, item, item', hitem, hitem', rfl, rfl⟩
  unfold Reading.step
  rw [htoken]
  -- the edge that is set last has no part in what is compared
  refine Agree.map (?_ : Agree tokens others (Mirrors tokens others) _ _) fun _ _ hnext =>
    ⟨hnext.frames, hnext.elements_eq⟩
  cases hkind : item.token with
  | opener delimiter => exact h.openScope limit delimiter hspan (index + 1)
  | closer bracket => exact h.closeScope bracket hspan
  | step direction => exact .ok (h.pushStep direction)
  | word text =>
    refine .ok (h.pushWord fun sign hlast hsign hdigit => ?_)
    obtain ⟨before, last', rfl, hlast', hlastToken', hstop'⟩ := hedge' sign hlast
    obtain ⟨_, last, heq, hlast, hlastToken, hstop⟩ := hedge sign (by rw [h.elements_eq, hlast])
    obtain rfl := Nat.succ.inj heq
    rw [hstop, hstop']
    refine hstreams.touches_iff hlast hitem hlast' hitem' ?_ ?_
    · exact Token.isSign_iff.mpr ⟨sign, hlastToken, hsign⟩
    · simpa [hkind, Token.isNumber] using hdigit
  | string text =>
    dsimp only
    split
    · exact .error (.about _ _ hspan)
    · exact .ok (h.push _)
  | _ => exact .ok (h.push _)

end Mirrors

end Reading

/-! ## Calls -/

theorem getElem?_of_cons_eq_drop {α : Type} {items rest : List α} {item : α} {index : Nat}
    (h : item :: rest = items.drop index) :
    items[index]? = some item ∧ rest = items.drop (index + 1) := by
  constructor
  · rw [← List.head?_drop, ← h, List.head?_cons]
  · rw [← List.tail_drop, ← h, List.tail_cons]

variable {reading other : Reading} {limit index : Nat}

/-- From readings that are alike, the two streams are read on alike to wherever a call stops. -/
theorem Reading.Mirrors.advance {done : Reading → Token → Bool} {rest rest' : List Spanned}
    (h : reading.Mirrors tokens others other) (hstreams : Respanned tokens others)
    (hedge : reading.EdgeAt tokens index) (hedge' : other.EdgeAt others index)
    (hdone : ∀ {reading other : Reading}, reading.Mirrors tokens others other → ∀ token,
      done reading token = done other token)
    (limit : Nat) (scopes : List Scope) (hrest : rest = tokens.drop index)
    (hrest' : rest' = others.drop index) :
    Agree tokens others (· = ·) (Parser.advance done limit reading index scopes rest).1
        (Parser.advance done limit other index scopes rest').1 ∧
      (Parser.advance done limit reading index scopes rest).2.position =
        (Parser.advance done limit other index scopes rest').2.position ∧
      (Parser.advance done limit reading index scopes rest).2.scopes =
        (Parser.advance done limit other index scopes rest').2.scopes := by
  have hlength : rest.length = rest'.length := by
    rw [hrest, hrest', List.length_drop, List.length_drop, hstreams.length_eq]
  induction rest generalizing rest' reading other index scopes with
  | nil =>
    obtain rfl : rest' = [] := List.eq_nil_of_length_eq_zero hlength.symm
    exact ⟨h.finish, rfl, rfl⟩
  | cons item rest ih =>
    obtain ⟨item', rest', rfl⟩ := List.exists_cons_of_length_eq_add_one hlength.symm
    obtain ⟨hitem, hnext⟩ := getElem?_of_cons_eq_drop hrest
    obtain ⟨hitem', hnext'⟩ := getElem?_of_cons_eq_drop hrest'
    have htoken : item'.token = item.token := hstreams.token_eq hitem hitem'
    cases hstop : done reading item.token with
    | true =>
      have hstop' : done other item'.token = true := by rw [htoken, ← hdone h, hstop]
      rw [Parser.advance, Parser.advance, if_pos hstop, if_pos hstop', h.elements_eq]
      exact ⟨.ok rfl, rfl, rfl⟩
    | false =>
      have hstop' : done other item'.token = false := by rw [htoken, ← hdone h, hstop]
      have hclosed : reading.closed? index item.token = other.closed? index item'.token := by
        rw [htoken, h.closed?_eq]
      have hstep := h.step hstreams hedge hedge' hitem hitem' limit
      generalize hread : reading.step limit index item = result,
        hread' : other.step limit index item' = result' at hstep
      cases hstep with
      | error faults =>
        rw [advance_cons_error hstop hread, advance_cons_error hstop' hread', hclosed]
        exact ⟨.error faults, rfl, rfl⟩
      | ok values =>
        rw [advance_cons_ok hstop hread, advance_cons_ok hstop' hread', hclosed]
        exact ih values (edgeAt_of_step hitem hread) (edgeAt_of_step hitem' hread') _ hnext hnext'
          (by simpa using hlength)

/-- What a call gives: the element, if there is one, or all elements that are left, or a fault. -/
def Call.answer (parser : Parser) : Call → Except Diagnostic (List Tree)
  | .element => parser.next.1.map Option.toList
  | .document => parser.document.1

/-- From the same place in the two streams, a call gives the same and comes to the same place. -/
theorem Call.respanned {parser other : Parser} (h : Respanned tokens others)
    (hparser : Session tokens limit parser) (hother : Session others limit other)
    (hposition : parser.position = other.position) (hscopes : parser.scopes = other.scopes)
    (call : Call) :
    Agree tokens others (· = ·) (call.answer parser) (call.answer other) ∧
      (call.run parser).position = (call.run other).position ∧
      (call.run parser).scopes = (call.run other).scopes := by
  have hstart := Reading.mirrors_start tokens others
  have hedge := Reading.edgeAt_start tokens parser.position
  have hedge' := Reading.edgeAt_start others parser.position
  have hrest' : other.rest = others.drop parser.position := by rw [hother.rest_eq, hposition]
  cases call with
  | element =>
    obtain ⟨hanswer, hrun⟩ := hstart.advance h hedge hedge' Reading.Mirrors.isComplete_eq limit
      parser.scopes hparser.rest_eq hrest'
    simp only [answer, run, next, hparser.limit_eq, hother.limit_eq, ← hposition, ← hscopes]
    refine ⟨(hanswer.map fun _ _ => congrArg List.getLast?).map fun _ _ => congrArg _, hrun⟩
  | document =>
    have hdone : ∀ {reading other : Reading}, reading.Mirrors tokens others other →
        ∀ token : Token, (fun _ _ => false) reading token = (fun _ _ => false) other token :=
      fun _ _ => rfl
    obtain ⟨hanswer, hrun⟩ := hstart.advance h hedge hedge' hdone limit parser.scopes
      hparser.rest_eq hrest'
    simp only [answer, run, Parser.document, hparser.limit_eq, hother.limit_eq, ← hposition, ← hscopes]
    exact ⟨hanswer, hrun⟩

/-- After the same calls two parsers over such streams are at the same place. -/
theorem after_respanned {parser other : Parser} (h : Respanned tokens others)
    (hparser : Session tokens limit parser) (hother : Session others limit other)
    (hposition : parser.position = other.position) (hscopes : parser.scopes = other.scopes)
    (calls : List Call) :
    (parser.after calls).position = (other.after calls).position ∧
      (parser.after calls).scopes = (other.after calls).scopes := by
  induction calls generalizing parser other with
  | nil => exact ⟨hposition, hscopes⟩
  | cons call calls ih =>
    obtain ⟨-, hposition', hscopes'⟩ := call.respanned h hparser hother hposition hscopes
    exact ih (hparser.run call) (hother.run call) hposition' hscopes'

/-- The spans of the tokens matter to the parser only where a number stands behind a sign.  Over two
streams with the same tokens, in which the same numbers touch their signs, the same calls lead to the
same place and the same recorded scopes, and every further call gives the same elements or faults of one
kind about one text, each at the same token. -/
theorem session_respanned (h : Respanned tokens others) (limit : Nat) (calls : List Call) :
    ((Parser.start tokens limit).after calls).position =
        ((Parser.start others limit).after calls).position ∧
      ((Parser.start tokens limit).after calls).scopes =
        ((Parser.start others limit).after calls).scopes ∧
      ∀ call : Call, Agree tokens others (· = ·)
        (call.answer ((Parser.start tokens limit).after calls))
        (call.answer ((Parser.start others limit).after calls)) := by
  have hsession := session_start tokens limit
  have hsession' := session_start others limit
  obtain ⟨hposition, hscopes⟩ := after_respanned h hsession hsession' rfl rfl calls
  refine ⟨hposition, hscopes, fun call => ?_⟩
  exact (call.respanned h (hsession.after calls) (hsession'.after calls) hposition hscopes).1

/-- The tokens of `\a[-1 + 2] (`: the first number touches its sign, the second does not. -/
def signedArray : List Spanned :=
  [⟨.opener .shortArray, ⟨0, 3⟩⟩, ⟨.operator "-", ⟨3, 4⟩⟩, ⟨.word "1", ⟨4, 5⟩⟩,
   ⟨.operator "+", ⟨6, 7⟩⟩, ⟨.word "2", ⟨8, 9⟩⟩, ⟨.closer .square, ⟨9, 10⟩⟩,
   ⟨.opener .paren, ⟨11, 12⟩⟩]

/-- The same tokens in disorder, some of them with an end before their start. -/
def scatteredArray : List Spanned :=
  [⟨.opener .shortArray, ⟨50, 40⟩⟩, ⟨.operator "-", ⟨9, 3⟩⟩, ⟨.word "1", ⟨3, 0⟩⟩,
   ⟨.operator "+", ⟨0, 1⟩⟩, ⟨.word "2", ⟨0, 0⟩⟩, ⟨.closer .square, ⟨7, 7⟩⟩,
   ⟨.opener .paren, ⟨2, 2⟩⟩]

/-- Behind the array, which is the same in both streams, a scope is left open. -/
theorem session_respanned_scatteredArray :
    Respanned signedArray scatteredArray ∧
      ((Parser.start signedArray 1).after [.element]).position =
        ((Parser.start scatteredArray 1).after [.element]).position ∧
      ((Parser.start signedArray 1).after [.element]).scopes =
        ((Parser.start scatteredArray 1).after [.element]).scopes ∧
      Agree signedArray scatteredArray (· = ·)
        (Call.element.answer (Parser.start signedArray 1))
        (Call.element.answer (Parser.start scatteredArray 1)) ∧
      Agree signedArray scatteredArray (· = ·)
        (.error (.about .unterminatedScope ")" ⟨11, 12⟩) : Except Diagnostic (List Tree))
        (.error (.about .unterminatedScope ")" ⟨2, 2⟩)) := by
  have hspans : Respanned signedArray scatteredArray := by
    refine ⟨rfl, fun {index} => ?_⟩
    intro sign number sign' number' hsign hnumber hsign' hnumber' hissign hisnumber
    rcases index with _ | _ | _ | _ | _ | _ | index <;>
      simp [signedArray, scatteredArray] at hsign hnumber hsign' hnumber' <;>
      subst hsign hnumber hsign' hnumber' <;>
      simp [Token.isSign, Token.isNumber] at hissign hisnumber ⊢
  obtain ⟨hposition, hscopes, hanswer⟩ := session_respanned hspans 1 [.element]
  exact ⟨hspans, hposition, hscopes, (session_respanned hspans 1 []).2.2 .element,
    hanswer .document⟩

end Parser

end Desugar
