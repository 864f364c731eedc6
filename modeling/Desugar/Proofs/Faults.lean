import Desugar.Proofs.Reading
import Mathlib.Algebra.Ring.Parity

/-!
# Where and why a document is refused

`AtFault limit front item kind` says on the tokens alone what is wrong with a token behind others.
A parser that has read `front` faults at `item` exactly when one of these causes is there
(`Reached.atFault_of_error`, `Reached.not_atFault_of_ok`), and no two of them ever are at once
(`AtFault.unique`).  With them `document_error_diagnosis` reads the cause, the token and the span of
a fault off the tokens.
-/

namespace Desugar

open Brackets

/-- What is wrong with the token `item` when the tokens `front` precede it. -/
inductive AtFault (limit : Nat) (front : List Spanned) (item : Spanned) : Diagnostic.Kind → Prop
  /-- A closer where nothing is unclosed, or where the innermost opener waits for another one. -/
  | unexpectedToken {bracket : Bracket} (closes : item.token = .closer bracket)
      (unawaited : awaited? front ≠ some bracket) : AtFault limit front item .unexpectedToken
  /-- A string that is a single quote. -/
  | unexpectedQuote (quote : item.token = .string "\"") : AtFault limit front item .unexpectedQuote
  /-- An opener where as many are unclosed as the limit allows. -/
  | nestingTooDeep {delimiter : Delimiter} (opens : item.token = .opener delimiter)
      (full : (unclosed front).length = limit) : AtFault limit front item .nestingTooDeep
  /-- The closer of a map literal with an odd number of elements. -/
  | unpairedMapKey {outer inner : List Spanned} {opener : Spanned}
      (cut : front = outer ++ opener :: inner) (opens : opener.token = .opener .shortMap)
      (balanced : Balanced inner) (closes : item.token = .closer .curly)
      (odd : Odd (elementCount inner)) : AtFault limit front item .unpairedMapKey

/-- A token is at fault for one cause at most. -/
theorem AtFault.unique {limit : Nat} {front : List Spanned} {item : Spanned}
    {kind kind' : Diagnostic.Kind} (h : AtFault limit front item kind)
    (h' : AtFault limit front item kind') : kind = kind' := by
  -- the causes differ in the kind of token, but for the two that are about closers
  have closers : ∀ {outer inner : List Spanned} {opener : Spanned} {bracket : Bracket},
      front = outer ++ opener :: inner → opener.token = .opener .shortMap → Balanced inner →
      item.token = .closer .curly → item.token = .closer bracket → awaited? front = some bracket := by
    intro outer inner opener bracket hcut hopens hbalanced hcurly hbracket
    rw [hcurly, Token.closer.injEq] at hbracket
    rw [awaited?, hcut, unclosed_append_opener hopens hbalanced, ← hbracket]
    rfl
  cases h with
  | unexpectedToken closes unawaited =>
    cases h' with
    | unexpectedToken => rfl
    | unexpectedQuote quote => simp [closes] at quote
    | nestingTooDeep opens _ => simp [closes] at opens
    | unpairedMapKey cut opens balanced curly _ =>
      exact absurd (closers cut opens balanced curly closes) unawaited
  | unexpectedQuote quote =>
    cases h' with
    | unexpectedQuote => rfl
    | unexpectedToken closes _ => simp [quote] at closes
    | nestingTooDeep opens _ => simp [quote] at opens
    | unpairedMapKey _ _ _ closes _ => simp [quote] at closes
  | nestingTooDeep opens _ =>
    cases h' with
    | nestingTooDeep => rfl
    | unexpectedToken closes _ => simp [opens] at closes
    | unexpectedQuote quote => simp [opens] at quote
    | unpairedMapKey _ _ _ closes _ => simp [opens] at closes
  | unpairedMapKey cut opens balanced curly _ =>
    cases h' with
    | unpairedMapKey => rfl
    | unexpectedToken closes unawaited =>
      exact absurd (closers cut opens balanced curly closes) unawaited
    | unexpectedQuote quote => simp [curly] at quote
    | nestingTooDeep opens' _ => simp [curly] at opens'

namespace Parser

variable {limit : Nat} {front : List Spanned} {item : Spanned} {reading next : Reading}
  {fault : Diagnostic}

theorem Layout.awaited?_eq {frames : List Frame} {elements : List Tree} {tokens : List Spanned}
    (h : Layout frames elements tokens) :
    awaited? tokens = frames.head?.map (·.delimiter.closer) := by
  rw [awaited?, h.unclosed_eq, List.head?_map, Option.map_map]
  rfl

/-- The innermost scope is a map literal: its opener, the tokens behind it and what they are. -/
theorem Layout.exists_map {frame : Frame} {frames : List Frame} {elements : List Tree}
    {tokens : List Spanned} (h : Layout (frame :: frames) elements tokens)
    (hmap : frame.delimiter = .shortMap) :
    ∃ outer opener inner, tokens = outer ++ opener :: inner ∧
      opener.token = .opener .shortMap ∧ opener.span = frame.opener ∧
      Body true inner elements.reverse := by
  cases h with
  | inside outer opens span first body =>
    rw [hmap] at opens body
    exact ⟨_, _, _, rfl, opens, span, body⟩

/-- A step that faults does so for the cause that the tokens show. -/
theorem Reached.atFault_of_error (h : Reached limit front reading)
    (hfault : reading.step limit front.length item = .error fault) :
    AtFault limit front item fault.kind := by
  rcases Reading.step_error_cases hfault with ⟨delimiter, htoken, hlimit, rfl⟩ |
    ⟨bracket, htoken, hframes, rfl⟩ | ⟨frame, frames, key, hframes, hmap, htoken, hodd, -, rfl⟩ |
    ⟨htoken, rfl⟩
  · refine .nestingTooDeep htoken ?_
    rw [h.layout.unclosed_eq, List.length_map]
    exact Nat.le_antisymm h.length_frames_le hlimit
  · refine .unexpectedToken htoken fun hawaited => ?_
    rw [h.layout.awaited?_eq, Option.map_eq_some_iff] at hawaited
    obtain ⟨frame, hframe, hcloser⟩ := hawaited
    exact hframes frame hframe hcloser
  · obtain ⟨outer, opener, inner, hcut, hopener, -, hbody⟩ := (hframes ▸ h.layout).exists_map hmap
    refine .unpairedMapKey hcut hopener hbody.balanced htoken ?_
    rw [← hbody.length_eq rfl, List.length_reverse]
    exact Nat.not_even_iff_odd.mp hodd
  · exact .unexpectedQuote htoken

/-- A step that succeeds is one at which the tokens show nothing wrong. -/
theorem Reached.not_atFault_of_ok (h : Reached limit front reading)
    (hnext : reading.step limit front.length item = .ok next) (kind : Diagnostic.Kind) :
    ¬ AtFault limit front item kind := by
  intro hfault
  have hlayout := h.layout
  rcases Reading.step_ok_cases hnext with ⟨delimiter, htoken, hlimit, -⟩ |
    ⟨frame, frames, hframes, htoken, hpairs, -⟩ | ⟨hatomic, -, hnext'⟩
  · cases hfault with
    | unexpectedToken closes _ => simp [htoken] at closes
    | unexpectedQuote quote => simp [htoken] at quote
    | nestingTooDeep _ full =>
      rw [hlayout.unclosed_eq, List.length_map] at full
      omega
    | unpairedMapKey _ _ _ closes _ => simp [htoken] at closes
  · rw [hframes] at hlayout
    cases hfault with
    | unexpectedToken closes unawaited =>
      rw [htoken, Token.closer.injEq] at closes
      exact unawaited (by simp [hlayout.awaited?_eq, closes])
    | unexpectedQuote quote => simp [htoken] at quote
    | nestingTooDeep opens _ => simp [htoken] at opens
    | @unpairedMapKey outer inner opener cut opens balanced _ odd =>
      -- the innermost opener is the one of the map literal, so its elements were counted
      cases hlayout with
      | @inside _ _ _ outer' inner' opener' _ opens' _ _ body =>
        obtain ⟨-, rfl, rfl⟩ := eq_of_append_opener opens opens' balanced body.balanced cut.symm
        rw [opens, Token.opener.injEq] at opens'
        rw [← opens'] at body hpairs
        rw [← body.length_eq rfl, List.length_reverse] at odd
        exact Nat.not_even_iff_odd.mpr odd (hpairs rfl)
  · have hquote := (h.step hnext).layout.ne_lone_quote item (by simp)
    cases hfault with
    | unexpectedToken closes _ => simp [closes, Token.isAtomic] at hatomic
    | unexpectedQuote quote => exact hquote quote
    | nestingTooDeep opens _ => simp [opens, Token.isAtomic] at hatomic
    | unpairedMapKey _ _ _ closes _ => simp [closes, Token.isAtomic] at hatomic

/-! ## The diagnosis -/

/-- What a fault tells about a document, where the parser stopped behind `item` with the tokens
`front` before it. -/
structure Diagnosis (limit : Nat) (tokens front : List Spanned) (item : Spanned)
    (fault : Diagnostic) : Prop where
  /-- The cause is the one for which the token is at fault. -/
  kind_iff : ∀ kind, kind ≠ .unterminatedScope →
    (fault.kind = kind ↔ AtFault limit front item kind)
  /-- With no token at fault, the tokens have ended inside a scope. -/
  unterminated_iff : fault.kind = .unterminatedScope ↔
    (∀ kind, ¬ AtFault limit front item kind) ∧ front.length + 1 = tokens.length ∧
      unclosed tokens ≠ []
  unexpectedToken : fault.kind = .unexpectedToken →
    fault = .about .unexpectedToken item.token.text item.span
  unexpectedQuote : fault.kind = .unexpectedQuote →
    fault = .about .unexpectedQuote "\"" item.span
  nestingTooDeep : fault.kind = .nestingTooDeep →
    fault = .about .nestingTooDeep (Nat.repr limit) item.span
  /-- The key left over is the last element of the map literal, told at its opener. -/
  unpairedMapKey : fault.kind = .unpairedMapKey →
    ∃ outer opener inner elements key, front = outer ++ opener :: inner ∧
      opener.token = .opener .shortMap ∧ Body true inner (elements ++ [key]) ∧
      fault = .about .unpairedMapKey key.form.render opener.span
  /-- The closer that is missing is told at the innermost opener. -/
  unterminatedScope : fault.kind = .unterminatedScope →
    ∃ opener others, unclosed tokens = opener :: others ∧
      fault = .about .unterminatedScope opener.delimiter.closer.closing opener.span

theorem Reached.diagnosis_of_error (h : Reached limit front reading)
    (hfault : reading.step limit front.length item = .error fault) (back : List Spanned) :
    Diagnosis limit (front ++ item :: back) front item fault := by
  have hat := h.atFault_of_error hfault
  have hkinds : ∀ kind, kind ≠ .unterminatedScope →
      (fault.kind = kind ↔ AtFault limit front item kind) :=
    fun kind _ => ⟨fun hkind => hkind ▸ hat, fun hkind => hat.unique hkind⟩
  have hother : fault.kind ≠ .unterminatedScope := by
    intro hkind
    rw [hkind] at hat
    cases hat
  have hunterminated : fault.kind = .unterminatedScope ↔
      (∀ kind, ¬ AtFault limit front item kind) ∧
        front.length + 1 = (front ++ item :: back).length ∧ unclosed (front ++ item :: back) ≠ [] :=
    iff_of_false hother fun hnone => hnone.1 _ hat
  rcases Reading.step_error_cases hfault with ⟨_, -, -, rfl⟩ | ⟨bracket, htoken, -, rfl⟩ |
    ⟨frame, frames, key, hframes, hmap, -, -, hkey, rfl⟩ | ⟨-, rfl⟩
  · exact ⟨hkinds, hunterminated, nofun, nofun, fun _ => rfl, nofun, nofun⟩
  · exact ⟨hkinds, hunterminated, fun _ => by rw [htoken]; rfl, nofun, nofun, nofun, nofun⟩
  · obtain ⟨outer, opener, inner, hcut, hopener, hspan, hbody⟩ :=
      (hframes ▸ h.layout).exists_map hmap
    obtain ⟨others, hothers⟩ := List.head?_eq_some_iff.mp hkey
    rw [hothers, List.reverse_cons] at hbody
    refine ⟨hkinds, hunterminated, nofun, nofun, nofun, fun _ => ?_, nofun⟩
    exact ⟨outer, opener, inner, others.reverse, key, hcut, hopener, hbody, by rw [hspan]⟩
  · exact ⟨hkinds, hunterminated, nofun, fun _ => rfl, nofun, nofun, nofun⟩

theorem Reached.diagnosis_of_unterminated {tokens : List Spanned}
    (h : Reached limit tokens reading) (hfault : reading.finish = .error fault) :
    ∃ front item, tokens = front ++ [item] ∧ Diagnosis limit tokens front item fault := by
  unfold Reading.finish at hfault
  split at hfault
  · next frame frames hframes =>
    obtain rfl := Except.error.inj hfault
    have hunclosed := h.layout.unclosed_eq
    rw [hframes, List.map_cons] at hunclosed
    rcases List.eq_nil_or_concat' tokens with rfl | ⟨front, item, rfl⟩
    · simp at hunclosed
    -- the last token was read without a fault
    obtain ⟨before, after, hbefore, hafter⟩ := h.exists_step rfl
    have hnone := hbefore.not_atFault_of_ok hafter
    refine ⟨front, item, rfl, fun kind hkind => ?_, ?_, nofun, nofun, nofun, nofun, fun _ => ?_⟩
    · exact iff_of_false (fun heq => hkind heq.symm) (hnone kind)
    · exact iff_of_true rfl ⟨hnone, by simp, by simp [hunclosed]⟩
    · exact ⟨_, _, hunclosed, rfl⟩
  · simp at hfault

/-- Every fault of a document names its cause, its token and its span as the tokens up to the place
where the parser stopped show them. -/
theorem document_error_diagnosis {tokens : List Spanned} {limit : Nat} {fault : Diagnostic}
    (h : (Parser.start tokens limit).document.1 = .error fault) :
    ∃ front item back, tokens = front ++ item :: back ∧
      (Parser.start tokens limit).document.2.position = front.length + 1 ∧
      Diagnosis limit tokens front item fault := by
  rcases reads_or_stops limit tokens with ⟨reading, hreading⟩ |
    ⟨front, item, back, reading, fault', rfl, hreading, hfault⟩
  · rw [hreading.document_eq.1] at h
    obtain ⟨front, item, rfl, hdiagnosis⟩ := hreading.diagnosis_of_unterminated h
    exact ⟨front, item, [], rfl, by simpa using hreading.document_eq.2, hdiagnosis⟩
  · obtain ⟨hdocument, hposition⟩ := hreading.document_eq_error hfault back
    obtain rfl := Except.error.inj (hdocument.symm.trans h)
    exact ⟨front, item, back, rfl, hposition, hreading.diagnosis_of_error hfault back⟩

/-- The tokens of `\h{:a -1 (b)++})`, whose map literal has three elements. -/
def oddMap : List Spanned :=
  [⟨.opener .shortMap, ⟨0, 3⟩⟩, ⟨.word ":a", ⟨3, 5⟩⟩, ⟨.operator "-", ⟨6, 7⟩⟩,
   ⟨.word "1", ⟨7, 8⟩⟩, ⟨.opener .paren, ⟨9, 10⟩⟩, ⟨.word "b", ⟨10, 11⟩⟩,
   ⟨.closer .round, ⟨11, 12⟩⟩, ⟨.step .increment, ⟨12, 14⟩⟩, ⟨.closer .curly, ⟨14, 15⟩⟩,
   ⟨.closer .round, ⟨15, 16⟩⟩]

theorem document_error_diagnosis_oddMap :
    (Parser.start oddMap 2).document.1 = .error (.about .unpairedMapKey "(b).succ" ⟨0, 3⟩) ∧
      ∃ front item back, oddMap = front ++ item :: back ∧
        (Parser.start oddMap 2).document.2.position = front.length + 1 ∧
        Diagnosis 2 oddMap front item (.about .unpairedMapKey "(b).succ" ⟨0, 3⟩) :=
  ⟨by rfl, document_error_diagnosis (by rfl)⟩

end Parser

end Desugar
