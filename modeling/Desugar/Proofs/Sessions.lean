import Desugar.Proofs.Pairs
import Desugar.Proofs.Reading
import Mathlib.Data.List.Nodup

/-!
# Sessions

A parser can be called again and again, for one element or for all that is left, also after a call
that faulted.  Whatever the calls were, what it has recorded is right.

## Shape of the argument

* `Account` says what one call records: of the tokens it reads exactly the matched pairs of brackets,
  each with its depth.  `Account.step` is the step, `Reached.exists_account` the run; a scope that is
  closed at a token at fault is recorded too.
* A call knows the tokens before it only through their number: it does what a fresh parser does with
  the tokens that are left, and counts on (`Call.run_eq`).
* `Session` is the invariant of all calls, and `Session.run` says that a call keeps it.  What was
  recorded by earlier calls stands in front of all that a call records, so a scope and the scopes
  around it are of one call.
-/

namespace Desugar

open Brackets

namespace Scope

/-- The scope is a matched pair of brackets: its range has an opener in front of it, a balanced run of
tokens in it and the closer of that opener behind it. -/
structure Matches (tokens : List Spanned) (scope : Scope) : Prop where
  first_pos : 1 ≤ scope.first
  first_le_stop : scope.first ≤ scope.stop
  opener : tokens[scope.first - 1]?.map (·.token) = some (.opener scope.delimiter)
  closer : tokens[scope.stop]?.map (·.token) = some (.closer scope.delimiter.closer)
  balanced : Balanced ((tokens.drop scope.first).take (scope.stop - scope.first))

/-- The range of the scope and its brackets stand in the range of the other one. -/
def Inside (scope outer : Scope) : Prop :=
  outer.first < scope.first ∧ scope.stop < outer.stop

/-- Each scope is one deeper than the innermost of the scopes around it. -/
def Nested (scopes : List Scope) : Prop :=
  ∀ scope ∈ scopes, ∀ outer ∈ scopes, scope.Inside outer →
    (∀ other ∈ scopes, scope.Inside other → other = outer ∨ outer.Inside other) →
    scope.depth = outer.depth + 1

/-- The same scope when so many tokens stand before it. -/
def shift (offset : Nat) (scope : Scope) : Scope :=
  { scope with first := offset + scope.first, stop := offset + scope.stop }

variable {tokens : List Spanned} {scope outer : Scope}

theorem matches_iff :
    scope.Matches tokens ↔
      ∃ inner, Pair tokens scope.delimiter scope.first inner ∧
        scope.stop = scope.first + inner.length := by
  constructor
  · intro h
    obtain ⟨opener, hopener, hopens⟩ := Option.map_eq_some_iff.mp h.opener
    obtain ⟨closer, hcloser, hcloses⟩ := Option.map_eq_some_iff.mp h.closer
    obtain ⟨hfirst, rfl⟩ := List.getElem?_eq_some_iff.mp hopener
    obtain ⟨hstop, rfl⟩ := List.getElem?_eq_some_iff.mp hcloser
    have hpos := h.first_pos
    have hle := h.first_le_stop
    refine ⟨(tokens.drop scope.first).take (scope.stop - scope.first), ?_, ?_⟩
    · refine ⟨tokens.take (scope.first - 1), tokens[scope.first - 1], tokens[scope.stop],
        tokens.drop (scope.stop + 1), ?_, ?_, hopens, hcloses, h.balanced⟩
      · rw [← List.drop_eq_getElem_cons hstop]
        have hrest : (tokens.drop scope.first).drop (scope.stop - scope.first) =
            tokens.drop scope.stop := by
          rw [List.drop_drop]
          congr 1
          omega
        rw [← hrest, List.take_append_drop]
        have hnext : tokens.drop scope.first = tokens.drop (scope.first - 1 + 1) := by
          congr 1
          omega
        rw [hnext, ← List.drop_eq_getElem_cons hfirst, List.take_append_drop]
      · rw [List.length_take]
        omega
    · rw [List.length_take, List.length_drop]
      omega
  · rintro ⟨inner, ⟨front, opener, closer, back, rfl, hfirst, hopener, hcloser, hinner⟩, hstop⟩
    refine ⟨by omega, by omega, ?_, ?_, ?_⟩
    · have hindex : scope.first - 1 = front.length := by omega
      simp [hindex, hopener]
    · have hindex : scope.stop = (front ++ opener :: inner).length := by simp; omega
      have hcut : front ++ opener :: (inner ++ closer :: back) =
          front ++ opener :: inner ++ closer :: back := by simp
      rw [hcut, hindex, List.getElem?_append_right (Nat.le_refl _)]
      simp [hcloser]
    · have hcut : front ++ opener :: (inner ++ closer :: back) =
          front ++ [opener] ++ (inner ++ closer :: back) := by simp
      have hlength : scope.stop - scope.first = inner.length := by omega
      rw [hcut, List.drop_left' (by simp [hfirst]), hlength, List.take_left]
      exact hinner

theorem Matches.around (h : scope.Matches tokens) (front back : List Spanned) :
    (scope.shift front.length).Matches (front ++ tokens ++ back) := by
  obtain ⟨inner, hpair, hstop⟩ := matches_iff.mp h
  refine matches_iff.mpr ⟨inner, hpair.around front back, ?_⟩
  simp only [shift]
  omega

theorem Matches.stop_lt (h : scope.Matches tokens) : scope.stop < tokens.length := by
  obtain ⟨inner, hpair, hstop⟩ := matches_iff.mp h
  have hlt := hpair.stop_lt
  omega

/-- Two matched pairs do not overlap; they are one and the same range if they start together. -/
theorem Matches.laminar (h : scope.Matches tokens) (h' : outer.Matches tokens) :
    scope.stop = outer.stop ∨ scope.stop < outer.first ∨ outer.stop < scope.first ∨
      scope.Inside outer ∨ outer.Inside scope := by
  obtain ⟨inner, hpair, hstop⟩ := matches_iff.mp h
  obtain ⟨run, hpair', hstop'⟩ := matches_iff.mp h'
  rcases Nat.lt_trichotomy scope.first outer.first with hlt | heq | hgt
  · rcases hpair.behind_or_inside hpair' hlt with hbehind | ⟨index, hindex, hinside⟩
    · exact .inr (.inl (by omega))
    · have hlength := hinside.stop_lt
      exact .inr (.inr (.inr (.inr ⟨hlt, by omega⟩)))
  · rw [heq] at hpair
    obtain ⟨-, rfl⟩ := hpair.unique hpair'
    exact .inl (by omega)
  · rcases hpair'.behind_or_inside hpair hgt with hbehind | ⟨index, hindex, hinside⟩
    · exact .inr (.inr (.inl (by omega)))
    · have hlength := hinside.stop_lt
      exact .inr (.inr (.inr (.inl ⟨hgt, by omega⟩)))

/-- One more token leaves the matched pairs as they are, or closes one. -/
theorem matches_concat_iff {item : Spanned} :
    scope.Matches (tokens ++ [item]) ↔
      scope.Matches tokens ∨
        ∃ front opener run, tokens = front ++ opener :: run ∧ scope.first = front.length + 1 ∧
          opener.token = .opener scope.delimiter ∧ item.token = .closer scope.delimiter.closer ∧
          Balanced run ∧ scope.stop = tokens.length := by
  rw [matches_iff, matches_iff]
  constructor
  · rintro ⟨inner, hpair, hstop⟩
    rcases pair_concat_iff.mp hpair with
      hpair | ⟨front, opener, rfl, hfirst, hopener, hitem, hinner⟩
    · exact .inl ⟨inner, hpair, hstop⟩
    · exact .inr ⟨front, opener, inner, rfl, hfirst, hopener, hitem, hinner, by simp; omega⟩
  · rintro (⟨inner, hpair, hstop⟩ | ⟨front, opener, run, rfl, hfirst, hopener, hitem, hrun, hstop⟩)
    · exact ⟨inner, pair_concat_iff.mpr (.inl hpair), hstop⟩
    · refine ⟨run, pair_concat_iff.mpr (.inr ⟨front, opener, rfl, hfirst, hopener, hitem, hrun⟩), ?_⟩
      simp only [List.length_append, List.length_cons] at hstop
      omega

/-- Scopes that end before the others start neither enclose them nor stand in them. -/
theorem Nested.append {before behind : List Scope} {position : Nat}
    (hbefore : Nested before) (hbehind : Nested behind)
    (hstop : ∀ scope ∈ before, scope.stop < position)
    (hfirst : ∀ scope ∈ behind, position < scope.first)
    (hrange : ∀ scope ∈ before ++ behind, scope.first ≤ scope.stop) :
    Nested (before ++ behind) := by
  intro scope hscope outer houter hinside hinnermost
  have hle := hrange scope hscope
  obtain ⟨hstart, hend⟩ := hinside
  rcases List.mem_append.mp hscope with hmem | hmem
  · rcases List.mem_append.mp houter with hmem' | hmem'
    · refine hbefore scope hmem outer hmem' ⟨hstart, hend⟩ fun other hother => ?_
      exact hinnermost other (List.mem_append_left _ hother)
    · have hlt := hstop scope hmem
      have hgt := hfirst outer hmem'
      omega
  · rcases List.mem_append.mp houter with hmem' | hmem'
    · have hlt := hstop outer hmem'
      have hgt := hfirst scope hmem
      omega
    · refine hbehind scope hmem outer hmem' ⟨hstart, hend⟩ fun other hother => ?_
      exact hinnermost other (List.mem_append_right _ hother)

theorem shift_injective (offset : Nat) : Function.Injective (shift offset) := by
  rintro ⟨delimiter, first, stop, depth⟩ ⟨delimiter', first', stop', depth'⟩ h
  simpa [shift] using h

theorem inside_shift_iff (offset : Nat) (scope outer : Scope) :
    (scope.shift offset).Inside (outer.shift offset) ↔ scope.Inside outer := by
  simp [Inside, shift]

theorem Nested.shift {scopes : List Scope} (h : Nested scopes) (offset : Nat) :
    Nested (scopes.map (shift offset)) := by
  intro scope hscope outer houter hinside hinnermost
  obtain ⟨scope, hmem, rfl⟩ := List.mem_map.mp hscope
  obtain ⟨outer, hmem', rfl⟩ := List.mem_map.mp houter
  refine h scope hmem outer hmem' ((inside_shift_iff offset _ _).mp hinside) fun other hother hother' => ?_
  rcases hinnermost _ (List.mem_map_of_mem hother) ((inside_shift_iff offset _ _).mpr hother') with heq | hother''
  · exact .inl (shift_injective offset heq)
  · exact .inr ((inside_shift_iff offset _ _).mp hother'')

end Scope

namespace Parser

/-! ## What one call records -/

/-- How deep a scope of the tokens stands: the openers unclosed before its own, and that one. -/
def depthIn (tokens : List Spanned) (scope : Scope) : Nat :=
  (unclosed (tokens.take (scope.first - 1))).length + 1

/-- `Account limit tokens scopes`: the scopes are what is to be recorded of the tokens. -/
structure Account (limit : Nat) (tokens : List Spanned) (scopes : List Scope) : Prop where
  mem_iff : ∀ scope, scope ∈ scopes ↔
    scope.Matches tokens ∧ scope.depth = depthIn tokens scope
  stops : scopes.Pairwise (·.stop < ·.stop)
  depth_le : ∀ scope ∈ scopes, scope.depth ≤ limit

variable {limit : Nat} {tokens front : List Spanned} {item : Spanned} {reading : Reading}
  {scopes : List Scope} {scope outer : Scope}

theorem account_nil : Account limit [] [] := by
  refine ⟨fun scope => ?_, .nil, by simp⟩
  refine iff_of_false (by simp) fun h => ?_
  simpa using h.1.stop_lt

/-- How deep a scope stands is told by the tokens up to its opener. -/
theorem depthIn_append (hfirst : scope.first ≤ front.length + 1) (back : List Spanned) :
    depthIn (front ++ back) scope = depthIn front scope := by
  rw [depthIn, depthIn, List.take_append_of_le_length (by omega)]

/-- A closer closes the scope whose opener is the innermost one. -/
theorem Reached.closed?_eq_some_iff (h : Reached limit tokens reading) :
    reading.closed? tokens.length item.token = some scope ↔
      (∃ front opener run, tokens = front ++ opener :: run ∧ scope.first = front.length + 1 ∧
        opener.token = .opener scope.delimiter ∧ item.token = .closer scope.delimiter.closer ∧
        Balanced run ∧ scope.stop = tokens.length) ∧ scope.depth = depthIn tokens scope := by
  have hlayout := h.layout
  have hdepth : ∀ front opener run, front.length + 1 = scope.first →
      depthIn (front ++ opener :: run) scope = (unclosed front).length + 1 := by
    intro front opener run hfirst
    rw [depthIn, ← hfirst, Nat.add_sub_cancel, List.take_left]
  constructor
  · intro hclosed
    unfold Reading.closed? at hclosed
    split at hclosed
    · next bracket frame frames htoken hframes =>
      split at hclosed
      · next hcloser =>
        obtain rfl := Option.some.inj hclosed
        rw [hframes] at hlayout
        cases hlayout with
        | @inside _ _ _ front run opener around opens span first body =>
          refine ⟨⟨front, opener, run, rfl, first, opens, ?_, body.balanced, rfl⟩, ?_⟩
          · rw [htoken, hcloser]
          · rw [hdepth front opener run first.symm, around.unclosed_eq, List.length_map]
      · simp at hclosed
    · simp at hclosed
  · rintro ⟨⟨front, opener, run, htokens, hfirst, hopener, hitem, hrun, hstop⟩, hscope⟩
    have hunclosed := hlayout.unclosed_eq
    rw [htokens, unclosed_append_opener hopener hrun] at hunclosed
    cases hframes : reading.frames with
    | nil => simp [hframes] at hunclosed
    | cons frame frames =>
      rw [hframes] at hlayout
      generalize hcut : tokens = all at hlayout
      cases hlayout with
      | @inside _ _ _ front' run' opener' around opens span first body =>
        rw [htokens] at hcut
        obtain ⟨rfl, rfl, rfl⟩ := eq_of_append_opener hopener opens hrun body.balanced hcut
        obtain hdelimiter : scope.delimiter = frame.delimiter := by simpa [hopener] using opens
        have hdeep : scope.depth = frames.length + 1 := by
          rw [hscope, htokens, hdepth front opener run hfirst.symm, around.unclosed_eq,
            List.length_map]
        obtain ⟨delimiter, start, stop, depth⟩ := scope
        simp only at hfirst hstop hdelimiter hdeep hitem
        simp [Reading.closed?, hframes, hitem, hdelimiter, hstop, hdeep, hfirst, first, htokens]

/-- A token adds the scope it closes to the account, also when it is at fault. -/
theorem Account.step (h : Account limit tokens scopes) (hreached : Reached limit tokens reading)
    (item : Spanned) :
    Account limit (tokens ++ [item])
      (scopes ++ (reading.closed? tokens.length item.token).toList) := by
  have hclosed : ∀ scope, scope ∈ (reading.closed? tokens.length item.token).toList ↔ _ :=
    fun scope => Option.mem_toList.trans (Option.mem_def.trans hreached.closed?_eq_some_iff)
  refine ⟨fun scope => ?_, ?_, ?_⟩
  · rw [List.mem_append, h.mem_iff, hclosed, Scope.matches_concat_iff, ← or_and_right]
    refine and_congr_right fun hmatches => ?_
    have hfirst : scope.first ≤ tokens.length + 1 := by
      rcases hmatches with hmatches | ⟨front, opener, run, rfl, hfirst, -⟩
      · have hle := hmatches.first_le_stop
        have hlt := hmatches.stop_lt
        omega
      · rw [hfirst]
        simp
    rw [depthIn_append hfirst]
  · rw [List.pairwise_append]
    refine ⟨h.stops, by cases reading.closed? tokens.length item.token <;> simp, ?_⟩
    intro scope hscope last hlast
    obtain ⟨⟨_, _, _, -, -, -, -, -, hstop⟩, -⟩ := (hclosed last).mp hlast
    rw [hstop]
    exact ((h.mem_iff scope).mp hscope).1.stop_lt
  · intro scope hscope
    rcases List.mem_append.mp hscope with hscope | hscope
    · exact h.depth_le scope hscope
    · obtain ⟨⟨front, opener, run, rfl, hfirst, hopener, -, hrun, -⟩, hdepth⟩ :=
        (hclosed scope).mp hscope
      have hframes := hreached.length_frames_le
      have hunclosed := congrArg List.length hreached.layout.unclosed_eq
      rw [unclosed_append_opener hopener hrun, List.length_map, List.length_cons] at hunclosed
      rw [hdepth, depthIn, hfirst, Nat.add_sub_cancel, List.take_left]
      omega

variable {index : Nat} {rest : List Spanned} {done : Reading → Token → Bool}

/-- A token that is read takes the parser to the reading behind it. -/
theorem advance_cons_ok {next : Reading} (hdone : done reading item.token = false)
    (hstep : reading.step limit index item = .ok next) :
    advance done limit reading index scopes (item :: rest) =
      advance done limit next (index + 1)
        (scopes ++ (reading.closed? index item.token).toList) rest := by
  rw [advance, if_neg (by simp [hdone]), hstep]

/-- A token at fault stops the parser behind it. -/
theorem advance_cons_error {fault : Diagnostic} (hdone : done reading item.token = false)
    (hstep : reading.step limit index item = .error fault) :
    advance done limit reading index scopes (item :: rest) =
      (.error fault, ⟨rest, index + 1,
        scopes ++ (reading.closed? index item.token).toList, limit⟩) := by
  rw [advance, if_neg (by simp [hdone]), hstep]

/-- What a call has recorded, wherever it stops, is what is to be recorded of the tokens it read. -/
theorem Reached.exists_account (h : Reached limit front reading)
    (hscopes : Account limit front scopes) (done : Reading → Token → Bool) (back : List Spanned) :
    ∃ read rest closed, back = read ++ rest ∧ Account limit (front ++ read) closed ∧
      (advance done limit reading front.length scopes back).2 =
        ⟨rest, (front ++ read).length, closed, limit⟩ := by
  induction back generalizing front reading scopes with
  | nil => exact ⟨[], [], scopes, rfl, by simpa using hscopes, by simp [advance]⟩
  | cons item back ih =>
    by_cases hdone : done reading item.token = true
    · exact ⟨[], item :: back, scopes, rfl, by simpa using hscopes, by simp [advance, hdone]⟩
    have hopen : done reading item.token = false := by simpa using hdone
    have hnext := hscopes.step h item
    cases hstep : reading.step limit front.length item with
    | error fault =>
      refine ⟨[item], back, _, rfl, hnext, ?_⟩
      rw [advance_cons_error hopen hstep]
      simp
    | ok next =>
      obtain ⟨read, rest, closed, rfl, haccount, hadvance⟩ := ih (h.step hstep) hnext
      refine ⟨item :: read, rest, closed, rfl, by simpa using haccount, ?_⟩
      rw [advance_cons_ok hopen hstep]
      simpa using hadvance

/-- In an account depth grows by one from the innermost scope around a scope to that scope. -/
theorem Account.nested (h : Account limit tokens scopes) : Scope.Nested scopes := by
  intro scope hscope outer houter hinside hinnermost
  obtain ⟨hmatches, hdepth⟩ := (h.mem_iff scope).mp hscope
  obtain ⟨hmatches', hdepth'⟩ := (h.mem_iff outer).mp houter
  obtain ⟨run, hpair, hstop⟩ := Scope.matches_iff.mp hmatches
  obtain ⟨inner, hpair', hstop'⟩ := Scope.matches_iff.mp hmatches'
  obtain ⟨hfirst, hbefore⟩ := hinside
  rcases hpair'.behind_or_inside hpair hfirst with hbehind | ⟨index, hindex, hnested⟩
  · omega
  rcases hpair'.depth_or_between hnested with hnext | ⟨kind, start, between, hbetween, hlt, hgt⟩
  · rw [hdepth, hdepth', depthIn, depthIn, hindex, hnext]
  · -- the pair between the two was recorded, so the outer one is not the innermost
    exfalso
    let middle : Scope := ⟨kind, outer.first + start, outer.first + start + between.length, 0⟩
    have hmiddle : { middle with depth := depthIn tokens middle } ∈ scopes := by
      exact (h.mem_iff _).mpr ⟨Scope.matches_iff.mpr ⟨between, hpair'.nested hbetween, rfl⟩, rfl⟩
    have hpos := hbetween.first_pos
    have hlength := hbetween.stop_lt
    have haround : scope.Inside { middle with depth := depthIn tokens middle } := by
      simp only [Scope.Inside, middle]
      omega
    rcases hinnermost _ hmiddle haround with heq | ⟨hbehind, -⟩
    · have hsame := congrArg Scope.first heq
      simp only [middle] at hsame
      omega
    · simp only [middle] at hbehind
      omega

/-! ## Calls count on -/

/-- The reading when so many tokens stand before its own. -/
def Reading.shift (offset : Nat) (reading : Reading) : Reading :=
  { reading with
    frames := reading.frames.map fun frame => { frame with first := offset + frame.first } }

theorem Reading.elements_shift (offset : Nat) (reading : Reading) :
    (reading.shift offset).elements = reading.elements := rfl

theorem Reading.edge_shift (offset : Nat) (reading : Reading) :
    (reading.shift offset).edge = reading.edge := rfl

theorem Reading.inShortLiteral_shift (offset : Nat) (reading : Reading) :
    (reading.shift offset).inShortLiteral = reading.inShortLiteral := by
  obtain ⟨frames, elements, edge⟩ := reading
  cases frames <;> rfl

theorem Reading.pushWord_shift (offset : Nat) (reading : Reading) (text : String) (span : Span) :
    (reading.shift offset).pushWord text span = (reading.pushWord text span).shift offset := by
  unfold pushWord
  rw [elements_shift]
  split
  · simp only [inShortLiteral_shift, edge_shift, apply_ite (shift offset)]
    rfl
  · rfl

theorem Reading.step_shift (offset limit index : Nat) (reading : Reading) (item : Spanned) :
    (reading.shift offset).step limit (offset + index) item =
      (reading.step limit index item).map (shift offset) := by
  obtain ⟨frames, elements, edge⟩ := reading
  unfold step
  cases htoken : item.token with
  | opener delimiter =>
    simp only [openScope, shift, List.length_map]
    split <;> simp [Except.map, shift, Nat.add_assoc]
  | closer bracket =>
    cases frames with
    | nil => rfl
    | cons frame frames =>
      simp only [closeScope, shift, List.map_cons]
      split
      · split <;> simp [Except.map, shift]
      · rfl
  | step direction =>
    cases elements with
    | nil => rfl
    | cons element others =>
      simp only [pushStep, shift]
      split <;> rfl
  | word text =>
    exact congrArg (fun next => Except.ok { next with edge := item.span.stop })
      (pushWord_shift offset _ text item.span)
  | string text =>
    dsimp only
    split <;> rfl
  | _ => rfl

theorem Reading.closed?_shift (offset index : Nat) (reading : Reading) (token : Token) :
    (reading.shift offset).closed? (offset + index) token =
      (reading.closed? index token).map (Scope.shift offset) := by
  obtain ⟨frames, elements, edge⟩ := reading
  cases frames with
  | nil => cases token <;> rfl
  | cons frame frames =>
    cases token with
    | closer bracket =>
      simp only [closed?, shift, List.map_cons]
      split <;> simp [Scope.shift]
    | _ => rfl

/-- The parser when so many tokens were read before and these scopes were closed in them. -/
def moved (offset : Nat) (before : List Scope) (parser : Parser) : Parser :=
  { parser with
    position := offset + parser.position
    scopes := before ++ parser.scopes.map (Scope.shift offset) }

theorem advance_shift {done : Reading → Token → Bool} (offset limit : Nat)
    (hdone : ∀ reading token, done (reading.shift offset) token = done reading token)
    (reading : Reading) (index : Nat) (before scopes : List Scope) (tokens : List Spanned) :
    advance done limit (reading.shift offset) (offset + index)
        (before ++ scopes.map (Scope.shift offset)) tokens =
      ((advance done limit reading index scopes tokens).1,
        (advance done limit reading index scopes tokens).2.moved offset before) := by
  induction tokens generalizing reading index scopes with
  | nil =>
    have hfinish : (reading.shift offset).finish = reading.finish := by
      obtain ⟨frames, elements, edge⟩ := reading
      cases frames <;> rfl
    rw [advance, advance, hfinish]
    rfl
  | cons item tokens ih =>
    rw [advance, advance, hdone]
    split
    · rfl
    · dsimp only
      have hscopes : before ++ scopes.map (Scope.shift offset) ++
          ((reading.closed? index item.token).map (Scope.shift offset)).toList =
          before ++ (scopes ++ (reading.closed? index item.token).toList).map (Scope.shift offset) := by
        cases reading.closed? index item.token <;> simp
      rw [Reading.step_shift, Reading.closed?_shift, hscopes]
      cases reading.step limit index item with
      | error fault => rfl
      | ok next => exact ih next (index + 1) _

/-! ## Sessions -/

/-- What a parser can be asked for. -/
inductive Call where
  /-- The next element. -/
  | element
  /-- All that is left. -/
  | document
  deriving DecidableEq, Repr

/-- The parser behind a call. -/
def Call.run (parser : Parser) : Call → Parser
  | .element => parser.next.2
  | .document => parser.document.2

/-- The parser behind calls that are made one after the other. -/
def after (parser : Parser) (calls : List Call) : Parser :=
  calls.foldl Call.run parser

/-- A call does what it does with a fresh parser over the tokens that are left, and counts on. -/
theorem Call.run_eq (parser : Parser) (call : Call) :
    call.run parser =
      (call.run (Parser.start parser.rest parser.limit)).moved parser.position parser.scopes := by
  have hrun : ∀ {done : Reading → Token → Bool},
      (∀ reading token, done (reading.shift parser.position) token = done reading token) →
      (advance done parser.limit {} parser.position parser.scopes parser.rest).2 =
        (advance done parser.limit {} 0 [] parser.rest).2.moved parser.position parser.scopes := by
    intro done hdone
    have h := advance_shift parser.position parser.limit hdone {} 0 parser.scopes [] parser.rest
    rw [List.map_nil, List.append_nil] at h
    exact congrArg Prod.snd h
  cases call with
  | element =>
    refine hrun fun reading token => ?_
    obtain ⟨frames, elements, edge⟩ := reading
    cases frames <;> rfl
  | document => exact hrun fun reading token => rfl

/-- A call of a fresh parser reads some of the tokens, if there are any, and records their scopes. -/
theorem Call.exists_account (call : Call) (tokens : List Spanned) (limit : Nat) :
    ∃ read rest closed, tokens = read ++ rest ∧ (tokens ≠ [] → read ≠ []) ∧
      Account limit read closed ∧
      call.run (Parser.start tokens limit) = ⟨rest, read.length, closed, limit⟩ := by
  have hread : ∀ done : Reading → Token → Bool, (∀ token, done {} token = false) →
      ∃ read rest closed, tokens = read ++ rest ∧ (tokens ≠ [] → read ≠ []) ∧
        Account limit read closed ∧
        (advance done limit {} 0 [] tokens).2 = ⟨rest, read.length, closed, limit⟩ := by
    intro done hdone
    cases tokens with
    | nil => exact ⟨[], [], [], rfl, by simp, account_nil, rfl⟩
    | cons item back =>
      -- nothing is complete before the first token, so that one is read
      have hfirst := account_nil.step (Reached.start : Reached limit [] {}) item
      rw [List.length_nil, List.nil_append, List.nil_append] at hfirst
      cases hstep : Reading.step limit 0 {} item with
      | error fault =>
        rw [advance_cons_error (hdone item.token) hstep]
        exact ⟨[item], back, _, rfl, by simp, hfirst, rfl⟩
      | ok next =>
        obtain ⟨read, rest, closed, rfl, haccount, hadvance⟩ :=
          (Reached.start.step hstep).exists_account hfirst done back
        rw [advance_cons_ok (hdone item.token) hstep]
        exact ⟨item :: read, rest, closed, rfl, by simp, by simpa using haccount,
          by simpa using hadvance⟩
  cases call with
  | element => exact hread Reading.isComplete fun token => rfl
  | document => exact hread (fun _ _ => false) fun token => rfl

/-- What holds of a parser over the tokens after any calls. -/
structure Session (tokens : List Spanned) (limit : Nat) (parser : Parser) : Prop where
  limit_eq : parser.limit = limit
  position_le : parser.position ≤ tokens.length
  rest_eq : parser.rest = tokens.drop parser.position
  /-- Every scope that was recorded is a matched pair of brackets that was read whole. -/
  matches_tokens : ∀ scope ∈ parser.scopes, scope.Matches tokens
  stop_lt : ∀ scope ∈ parser.scopes, scope.stop < parser.position
  depth_pos : ∀ scope ∈ parser.scopes, 1 ≤ scope.depth
  depth_le : ∀ scope ∈ parser.scopes, scope.depth ≤ limit
  /-- The scopes are recorded in the order in which they were closed. -/
  stops : parser.scopes.Pairwise (·.stop < ·.stop)
  /-- Of two scopes one stands before the other, or one is inside the other. -/
  laminar : ∀ scope ∈ parser.scopes, ∀ other ∈ parser.scopes, scope = other ∨
    scope.stop < other.first ∨ other.stop < scope.first ∨ scope.Inside other ∨ other.Inside scope
  nested : Scope.Nested parser.scopes

/-- Scopes with increasing ends are told by their ends. -/
theorem eq_of_stop_eq (h : scopes.Pairwise (·.stop < ·.stop)) (hscope : scope ∈ scopes)
    (houter : outer ∈ scopes) (heq : scope.stop = outer.stop) : scope = outer := by
  have hnodup : (scopes.map Scope.stop).Nodup :=
    List.pairwise_map.mpr (h.imp fun hlt => Nat.ne_of_lt hlt)
  exact List.inj_on_of_nodup_map hnodup hscope houter heq

theorem session_start (tokens : List Spanned) (limit : Nat) :
    Session tokens limit (Parser.start tokens limit) := by
  constructor <;> simp [Parser.start, Scope.Nested]

/-- A call keeps the invariant. -/
theorem Session.run {parser : Parser} (h : Session tokens limit parser) (call : Call) :
    Session tokens limit (call.run parser) := by
  obtain ⟨read, rest, closed, hrest, -, haccount, hrun⟩ :=
    call.exists_account parser.rest parser.limit
  rw [h.limit_eq] at haccount hrun
  -- the tokens: those of earlier calls, those of this call and those that are left
  obtain ⟨before, rfl, hbefore⟩ : ∃ before, tokens = before ++ read ++ rest ∧
      before.length = parser.position := by
    refine ⟨tokens.take parser.position, ?_, by simp [h.position_le]⟩
    rw [List.append_assoc, ← hrest, h.rest_eq, List.take_append_drop]
  have hparser : call.run parser = ⟨rest, parser.position + read.length,
      parser.scopes ++ closed.map (Scope.shift parser.position), limit⟩ := by
    rw [call.run_eq, h.limit_eq, hrun]
    rfl
  rw [hparser]
  have hnew : ∀ scope ∈ closed, scope.Matches read := fun scope hscope =>
    ((haccount.mem_iff scope).mp hscope).1
  have hmatches : ∀ scope ∈ parser.scopes ++ closed.map (Scope.shift parser.position),
      scope.Matches (before ++ read ++ rest) := by
    intro scope hscope
    rcases List.mem_append.mp hscope with hscope | hscope
    · exact h.matches_tokens scope hscope
    · obtain ⟨scope, hclosed, rfl⟩ := List.mem_map.mp hscope
      rw [← hbefore]
      exact (hnew scope hclosed).around before rest
  have hstops : (parser.scopes ++ closed.map (Scope.shift parser.position)).Pairwise
      (·.stop < ·.stop) := by
    rw [List.pairwise_append, List.pairwise_map]
    refine ⟨h.stops, haccount.stops.imp fun hlt => Nat.add_lt_add_left hlt _, ?_⟩
    intro scope hscope other hother
    obtain ⟨other, -, rfl⟩ := List.mem_map.mp hother
    exact Nat.lt_of_lt_of_le (h.stop_lt scope hscope) (Nat.le_add_right _ _)
  refine ⟨rfl, by simp; omega, ?_, hmatches, ?_, ?_, ?_, hstops, ?_, ?_⟩
  · rw [← hbefore, ← List.length_append, List.drop_left]
  · rw [List.forall_mem_append, List.forall_mem_map]
    refine ⟨fun scope hscope => ?_, fun scope hscope => ?_⟩
    · exact Nat.lt_of_lt_of_le (h.stop_lt scope hscope) (Nat.le_add_right _ _)
    · exact Nat.add_lt_add_left (hnew scope hscope).stop_lt _
  · rw [List.forall_mem_append, List.forall_mem_map]
    refine ⟨h.depth_pos, fun scope hscope => ?_⟩
    have hdepth := ((haccount.mem_iff scope).mp hscope).2
    simp only [Scope.shift, hdepth, depthIn]
    omega
  · rw [List.forall_mem_append, List.forall_mem_map]
    exact ⟨h.depth_le, haccount.depth_le⟩
  · intro scope hscope other hother
    rcases (hmatches scope hscope).laminar (hmatches other hother) with hstop | hapart
    · exact .inl (eq_of_stop_eq hstops hscope hother hstop)
    · exact .inr hapart
  · refine h.nested.append (haccount.nested.shift _) h.stop_lt ?_ fun scope hscope =>
      (hmatches scope hscope).first_le_stop
    rw [List.forall_mem_map]
    intro scope hscope
    have hpos := (hnew scope hscope).first_pos
    simp only [Scope.shift]
    omega

theorem Session.after {parser : Parser} (h : Session tokens limit parser) (calls : List Call) :
    Session tokens limit (parser.after calls) := by
  induction calls generalizing parser with
  | nil => exact h
  | cons call calls ih => exact ih (h.run call)

/-- What a call does to the account of a parser: it goes on, past a token at least if there is one, and
adds to what was recorded. -/
structure GoesOn (parser next : Parser) : Prop where
  position_le : parser.position ≤ next.position
  position_lt : parser.atEnd = false → parser.position < next.position
  scopes_grow : parser.scopes <+: next.scopes

theorem Call.goesOn (parser : Parser) (call : Call) : GoesOn parser (call.run parser) := by
  obtain ⟨read, rest, closed, -, hread, -, hrun⟩ := call.exists_account parser.rest parser.limit
  rw [call.run_eq, hrun]
  refine ⟨Nat.le_add_right _ _, fun hend => ?_, List.prefix_append _ _⟩
  have hne : read ≠ [] := hread (by simpa [atEnd] using hend)
  simpa [moved, List.length_pos_iff] using hne

/-- Whatever calls are made of a parser, also behind a fault, it stays in the stream and every call
goes on; what it has recorded are matched pairs of brackets, each one deeper than the innermost one
around it.  One call for a whole document records exactly the matched pairs of the tokens it reads. -/
theorem session_invariant (tokens : List Spanned) (limit : Nat) (calls : List Call) :
    Session tokens limit ((Parser.start tokens limit).after calls) ∧
    (∀ call : Call, GoesOn ((Parser.start tokens limit).after calls)
      (call.run ((Parser.start tokens limit).after calls))) ∧
    (∀ scope, scope ∈ (Parser.start tokens limit).document.2.scopes ↔
      scope.Matches (tokens.take (Parser.start tokens limit).document.2.position) ∧
        scope.depth = depthIn tokens scope) := by
  refine ⟨(session_start tokens limit).after calls, Call.goesOn _, fun scope => ?_⟩
  obtain ⟨read, rest, closed, rfl, -, haccount, hrun⟩ := Call.document.exists_account tokens limit
  have hdocument : (Parser.start (read ++ rest) limit).document.2 = _ := hrun
  rw [hdocument, haccount.mem_iff, List.take_left]
  refine and_congr_right fun hmatches => ?_
  have hle := hmatches.first_le_stop
  have hlt := hmatches.stop_lt
  rw [depthIn_append (by omega)]

/-- Behind a fault the depth is counted anew: the openers of `([)` were given up. -/
example :
    ((Parser.start [⟨.opener .paren, ⟨0, 1⟩⟩, ⟨.opener .bracket, ⟨1, 2⟩⟩, ⟨.closer .round, ⟨2, 3⟩⟩,
      ⟨.opener .paren, ⟨3, 4⟩⟩, ⟨.closer .round, ⟨4, 5⟩⟩] 2).after [.document, .element]).scopes =
      [⟨.paren, 4, 4, 1⟩] := by
  rfl

end Parser

end Desugar
