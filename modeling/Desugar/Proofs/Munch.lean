import Desugar.Proofs.Patterns

/-!
# Maximal munch

The lexer takes, at each place of a source, the longest text that matches the pattern of some class
(`Lexeme.IsLongest`), and goes on behind it.  `Munches` is the relation of a text, the tokens that
are found that way and what is left of the text.  It is said through the patterns alone, and
`Lexer.scan` does just that: it gives the tokens when the munching gets to the end of the text, and
a fault at the first place where no class matches anything.

A fault only looks at what stands at its place: up to there the text has the same tokens without the
rest (`Munches.shorten`).
-/

namespace Desugar

/-! ## Sizes -/

namespace Text

/-- The number of bytes that the characters take. -/
def size (cs : List Char) : Nat :=
  (String.ofList cs).utf8ByteSize

@[simp]
theorem size_nil : size [] = 0 := rfl

@[simp]
theorem size_append (front back : List Char) : size (front ++ back) = size front + size back := by
  simp [size, String.ofList_append]

@[simp]
theorem size_cons (c : Char) (cs : List Char) : size (c :: cs) = c.utf8Size + size cs := by
  rw [← List.singleton_append, size_append, size, ← String.singleton_eq_ofList,
    String.utf8ByteSize_singleton]

theorem size_toList (text : String) : size text.toList = text.utf8ByteSize := by
  rw [size, String.ofList_toList]

theorem size_pos {cs : List Char} (h : cs ≠ []) : 0 < size cs := by
  obtain ⟨c, rest, rfl⟩ := List.exists_cons_of_ne_nil h
  have hc := c.utf8Size_pos
  rw [size_cons]
  omega

theorem charsBefore?_append (front back : List Char) :
    charsBefore? (front ++ back) (size front) = some front := by
  induction front with
  | nil => cases back <;> simp [charsBefore?]
  | cons c front ih =>
    have hc := c.utf8Size_pos
    obtain ⟨offset, hoffset⟩ : ∃ offset, size (c :: front) = offset + 1 :=
      ⟨size (c :: front) - 1, by rw [size_cons]; omega⟩
    have hrest : offset + 1 - c.utf8Size = size front := by
      rw [← hoffset, size_cons]
      omega
    have hfits : c.utf8Size ≤ offset + 1 := by
      rw [← hoffset, size_cons]
      omega
    rw [hoffset, List.cons_append, charsBefore?, if_pos hfits, hrest, ih]
    rfl

end Text

/-- The place behind the first characters of a source is told from these characters alone. -/
theorem Location.ofOffset_size {source : String} {front back : List Char}
    (h : source.toList = front ++ back) :
    Location.ofOffset source (Text.size front) = Location.after front := by
  have hmin : min (Text.size front) source.utf8ByteSize = Text.size front := by
    rw [← Text.size_toList, h, Text.size_append]
    omega
  rw [Location.ofOffset, Text.charsBefore, hmin, h, Text.charsBefore?_append, Option.getD_some]

/-! ## The longest match -/

namespace Lexeme

/-- Of all texts that `cs` starts with and that some class matches, `text` is the longest, and
`lexeme` is the one class that matches it. -/
structure IsLongest (lexeme : Lexeme) (cs text : List Char) : Prop where
  starts : text <+: cs
  nonempty : text ≠ []
  mem : text ∈ lexeme.pattern.language
  longest : ∀ (other : Lexeme) (text' : List Char), text' <+: cs →
    text' ∈ other.pattern.language → text'.length ≤ text.length
  unique : ∀ other : Lexeme, text ∈ other.pattern.language → other = lexeme

/-- No class matches anything at the head of the text. -/
def Stuck (cs : List Char) : Prop :=
  ∀ (lexeme : Lexeme) (text : List Char), text <+: cs → text ∈ lexeme.pattern.language → text = []

variable {cs text rest : List Char} {lexeme : Lexeme} {lexemes : List Lexeme} {length : Nat}

theorem mem_all (lexeme : Lexeme) : lexeme ∈ all := by
  cases lexeme with
  | opener delimiter => cases delimiter <;> decide
  | closer bracket => cases bracket <;> decide
  | step direction => cases direction <;> decide
  | _ => decide

theorem reach_eq_zero_of_longest (h : longest cs lexemes = none) :
    ∀ lexeme ∈ lexemes, lexeme.reach cs = 0 := by
  induction lexemes with
  | nil => simp
  | cons first others ih =>
    rw [longest] at h
    split at h
    · next hnone =>
      split at h
      · next hzero => simpa [hzero] using ih hnone
      · simp at h
    · split at h <;> simp at h

/-- The class that is taken reaches as far as any other. -/
theorem reach_le_of_longest (h : longest cs lexemes = some (lexeme, length)) :
    ∀ other ∈ lexemes, other.reach cs ≤ length := by
  induction lexemes generalizing lexeme length with
  | nil => simp
  | cons first others ih =>
    rw [longest] at h
    rw [List.forall_mem_cons]
    split at h
    · next hnone =>
      split at h
      · simp at h
      · obtain ⟨rfl, rfl⟩ : first = lexeme ∧ first.reach cs = length := by simpa using h
        refine ⟨le_rfl, fun other hother => ?_⟩
        simp [reach_eq_zero_of_longest hnone other hother]
    · next second secondLength hsecond =>
      have hothers := ih hsecond
      split at h
      · next hle =>
        obtain ⟨rfl, rfl⟩ : first = lexeme ∧ first.reach cs = length := by simpa using h
        exact ⟨le_rfl, fun other hother => (hothers other hother).trans hle⟩
      · next hlt =>
        obtain ⟨rfl, rfl⟩ : second = lexeme ∧ secondLength = length := by simpa using h
        exact ⟨(Nat.lt_of_not_le hlt).le, hothers⟩

theorem length_take_of_longest (h : longest cs lexemes = some (lexeme, length)) :
    (cs.take length).length = length := by
  obtain ⟨rfl, -⟩ := of_longest_eq_some h
  exact List.length_take_of_le (reaches_reach lexeme cs).le_length

/-- What is taken at the head of a text is its longest match. -/
theorem isLongest_of_longest (h : longest cs all = some (lexeme, length)) :
    IsLongest lexeme cs (cs.take length) := by
  have hlength := length_take_of_longest h
  obtain ⟨rfl, hpositive⟩ := of_longest_eq_some h
  have hmem := (reaches_reach lexeme cs).mem hpositive
  refine ⟨List.take_prefix _ _, List.ne_nil_of_length_pos (by omega), hmem, ?_,
    fun other hother => eq_of_mem_language hmem hother⟩
  intro other text hstarts htext
  rw [hlength]
  exact ((reaches_reach other cs).le_of_mem text hstarts htext).trans
    (reach_le_of_longest h other (mem_all other))

theorem longest_eq_none_iff : longest cs all = none ↔ Stuck cs := by
  constructor
  · intro h lexeme text hstarts htext
    have hle := (reaches_reach lexeme cs).le_of_mem text hstarts htext
    rw [reach_eq_zero_of_longest h lexeme (mem_all lexeme)] at hle
    exact List.eq_nil_of_length_eq_zero (by omega)
  · intro h
    by_contra hsome
    obtain ⟨⟨lexeme, length⟩, hlongest⟩ := Option.ne_none_iff_exists'.mp hsome
    have hlonger := isLongest_of_longest hlongest
    exact hlonger.nonempty (h lexeme _ hlonger.starts hlonger.mem)

/-- The longest match of a text is the one that is taken. -/
theorem IsLongest.longest_eq (h : IsLongest lexeme cs text) :
    Lexeme.longest cs all = some (lexeme, text.length) := by
  cases hlongest : Lexeme.longest cs all with
  | none => exact absurd (longest_eq_none_iff.mp hlongest lexeme text h.starts h.mem) h.nonempty
  | some taken =>
    obtain ⟨other, length⟩ := taken
    have hother := isLongest_of_longest hlongest
    have hle := h.longest other _ hother.starts hother.mem
    have hge := hother.longest lexeme text h.starts h.mem
    rw [length_take_of_longest hlongest] at hle hge
    obtain rfl : length = text.length := Nat.le_antisymm hle hge
    rw [← List.prefix_iff_eq_take.mp h.starts] at hother
    rw [h.unique other hother.mem]

/-- Every text has a longest match at its head or is stuck. -/
theorem stuck_or_exists_isLongest (cs : List Char) :
    Stuck cs ∨ ∃ lexeme text rest, cs = text ++ rest ∧ IsLongest lexeme (text ++ rest) text := by
  cases hlongest : Lexeme.longest cs all with
  | none => exact .inl (longest_eq_none_iff.mp hlongest)
  | some taken =>
    have htaken := isLongest_of_longest hlongest
    obtain ⟨rest, hrest⟩ := htaken.starts
    exact .inr ⟨taken.1, _, rest, hrest.symm, by rwa [hrest]⟩

/-- Another rest that is part of the old one leaves the longest match what it is. -/
theorem IsLongest.shorten {shorter : List Char} (h : IsLongest lexeme (text ++ rest) text)
    (hshorter : shorter <+: rest) : IsLongest lexeme (text ++ shorter) text := by
  refine ⟨List.prefix_append _ _, h.nonempty, h.mem, fun other text' hstarts => ?_, h.unique⟩
  exact h.longest other text' (hstarts.trans ((List.prefix_append_right_inj text).mpr hshorter))

/-- No class matches one character more than the longest match. -/
theorem IsLongest.concat_not_mem {c : Char} (h : IsLongest lexeme (text ++ c :: rest) text)
    (other : Lexeme) : text ++ [c] ∉ other.pattern.language := by
  intro hmem
  have hle := h.longest other (text ++ [c]) ⟨rest, by simp⟩ hmem
  simp only [List.length_append, List.length_singleton] at hle
  omega

/-- The longest match is no open string where there is something for it to go on with. -/
theorem IsLongest.not_mem_openString (h : string.IsLongest (text ++ rest) text) (hrest : rest ≠ [])
    (hbackslash : rest ≠ ['\\']) : text ∉ openString.language := by
  intro hopen
  have hlonger := append_mem_string hopen (quoted_take_stringRest rest)
  have hstarts : text ++ rest.take (stringRest rest) <+: text ++ rest :=
    (List.prefix_append_right_inj text).mpr (List.take_prefix _ _)
  have hle := h.longest .string _ hstarts hlonger
  have hpositive := stringRest_pos hrest hbackslash
  have hlength := stringRest_le_length rest
  rw [List.length_append, List.length_take] at hle
  omega

/-- The token of a lexeme with its place, if the lexeme is a token. -/
def spanned? (offset : Nat) (text : List Char) (lexeme : Lexeme) : Option Spanned :=
  (lexeme.token? (String.ofList text)).map fun token => ⟨token, ⟨offset, offset + Text.size text⟩⟩

end Lexeme

/-! ## Lexeme after lexeme -/

namespace Lexer

/-- `Munches offset cs items final`: taking longest matches one after the other from the head of
`cs` on, which stands at byte `offset`, one finds the tokens `items` and comes to `final`. -/
inductive Munches : Nat → List Char → List Spanned → List Char → Prop
  | stop {offset : Nat} {final : List Char} : Munches offset final [] final
  | take {offset : Nat} {text rest final : List Char} {items : List Spanned} {lexeme : Lexeme}
      (longest : lexeme.IsLongest (text ++ rest) text)
      (more : Munches (offset + Text.size text) rest items final) :
      Munches offset (text ++ rest) ((lexeme.spanned? offset text).toList ++ items) final

variable {offset : Nat} {cs text rest final : List Char} {items : List Spanned} {lexeme : Lexeme}

/-- Scanning a text goes on behind its longest match. -/
theorem scan_append (h : lexeme.IsLongest (text ++ rest) text) :
    scan offset (text ++ rest) =
      (scan (offset + Text.size text) rest).map ((lexeme.spanned? offset text).toList ++ ·) := by
  have hlongest := h.longest_eq
  obtain ⟨c, tail, rfl⟩ := List.exists_cons_of_ne_nil h.nonempty
  have htext : (c :: (tail ++ rest)).take (c :: tail).length = c :: tail := by simp
  have hrest : (tail ++ rest).drop ((c :: tail).length - 1) = rest := by simp
  rw [List.cons_append] at hlongest ⊢
  -- only the scan on the left is opened, the one behind the match stays as it is
  conv_lhs => unfold scan
  simp only [hlongest, htext, hrest, Lexeme.spanned?, Text.size]
  cases scan (offset + (String.ofList (c :: tail)).utf8ByteSize) rest with
  | error fault => rfl
  | ok tokens => cases lexeme.token? (String.ofList (c :: tail)) <;> rfl

/-- Where no class matches, the character there is the fault. -/
theorem scan_of_stuck {c : Char} (h : Lexeme.Stuck (c :: rest)) :
    scan offset (c :: rest) =
      .error (.about .unexpectedCharacter (String.singleton c) ⟨offset, offset + c.utf8Size⟩) := by
  unfold scan
  simp only [Lexeme.longest_eq_none_iff.mpr h]

/-- The tokens that are found stand in front of those of what is left. -/
theorem Munches.scan_eq (h : Munches offset cs items final) :
    ∃ front, cs = front ++ final ∧
      scan offset cs = (scan (offset + Text.size front) final).map (items ++ ·) := by
  induction h with
  | @stop offset final =>
    refine ⟨[], rfl, ?_⟩
    rw [Text.size_nil, Nat.add_zero]
    cases scan offset final <;> rfl
  | @take offset text rest final items lexeme longest more ih =>
    obtain ⟨front, rfl, hscan⟩ := ih
    refine ⟨text ++ front, by simp, ?_⟩
    rw [scan_append longest, hscan, Text.size_append, Nat.add_assoc]
    cases scan (offset + (Text.size text + Text.size front)) final with
    | error fault => rfl
    | ok tokens => simp [Except.map]

/-- What is found does not hang on what stands behind the place where the munching stops. -/
theorem Munches.shorten {front shorter : List Char} (h : Munches offset cs items final)
    (hcs : cs = front ++ final) (hshorter : shorter <+: final) :
    Munches offset (front ++ shorter) items shorter := by
  induction h generalizing front with
  | stop =>
    obtain rfl : front = [] := by simpa using hcs
    exact .stop
  | @take offset text rest final items lexeme longest more ih =>
    obtain ⟨middle, rfl, -⟩ := more.scan_eq
    obtain rfl : text ++ middle = front := by simpa [← List.append_assoc] using hcs
    rw [List.append_assoc]
    refine .take (longest.shorten ?_) (ih rfl hshorter)
    exact (List.prefix_append_right_inj middle).mpr hshorter

/-- Each token that is found is a longest match, and behind it the munching goes on. -/
theorem Munches.exists_isLongest {front back : List Spanned} {item : Spanned}
    (h : Munches offset cs items final) (hitems : items = front ++ item :: back) :
    ∃ (lexeme : Lexeme) (start : Nat) (text rest : List Char),
      lexeme.IsLongest (text ++ rest) text ∧ lexeme.spanned? start text = some item ∧
      Munches (start + Text.size text) rest back final := by
  induction h generalizing front with
  | stop => simp at hitems
  | @take offset text rest final items lexeme longest more ih =>
    cases hspanned : lexeme.spanned? offset text with
    | none => exact ih (by simpa [hspanned] using hitems)
    | some first =>
      rw [hspanned, Option.toList_some, List.singleton_append] at hitems
      cases front with
      | nil =>
        obtain ⟨rfl, rfl⟩ := List.cons.inj hitems
        exact ⟨lexeme, offset, text, rest, longest, hspanned, more⟩
      | cons other front => exact ih (List.cons.inj hitems).2

/-- Taking longest matches gets to a place where none is left. -/
theorem exists_munches (offset : Nat) (cs : List Char) :
    ∃ items final, Munches offset cs items final ∧ Lexeme.Stuck final := by
  induction hlength : cs.length using Nat.strong_induction_on generalizing offset cs with
  | _ _ ih =>
    rcases Lexeme.stuck_or_exists_isLongest cs with hstuck | ⟨lexeme, text, rest, rfl, hlongest⟩
    · exact ⟨[], cs, .stop, hstuck⟩
    · -- a match is never empty, so what stands behind it is shorter
      have hpositive := List.length_pos_of_ne_nil hlongest.nonempty
      rw [List.length_append] at hlength
      obtain ⟨items, final, hmunches, hstuck⟩ :=
        ih rest.length (by omega) (offset + Text.size text) rest rfl
      exact ⟨_, final, .take hlongest hmunches, hstuck⟩

/-- A text has the tokens that are found by munching it to its end. -/
theorem Munches.scan_eq_ok (h : Munches offset cs items []) : scan offset cs = .ok items := by
  obtain ⟨front, -, hscan⟩ := h.scan_eq
  rw [hscan]
  unfold scan
  simp [Except.map]

/-- Nothing is found in an empty text. -/
theorem Munches.eq_nil (h : Munches offset [] items []) : items = [] := by
  have hscan := h.scan_eq_ok
  unfold scan at hscan
  exact (Except.ok.inj hscan).symm

/-- A text that is stuck somewhere has the fault there. -/
theorem Munches.scan_eq_error {c : Char} {front : List Char}
    (h : Munches offset cs items (c :: rest)) (hcs : cs = front ++ c :: rest) (hstuck : Lexeme.Stuck (c :: rest)) :
    scan offset cs = .error (.about .unexpectedCharacter (String.singleton c)
      ⟨offset + Text.size front, offset + Text.size front + c.utf8Size⟩) := by
  obtain ⟨front', hfront', hscan⟩ := h.scan_eq
  obtain rfl : front' = front := by simpa [hcs] using hfront'.symm
  rw [hscan, scan_of_stuck hstuck]
  rfl

end Lexer

/-- A string that nothing closes takes the rest of the source with it. -/
theorem Lexeme.IsLongest.not_open_of_munches {lexeme : Lexeme} {text rest : List Char}
    {offset : Nat} {items : List Spanned} (h : lexeme.IsLongest (text ++ rest) text)
    (hmore : Lexer.Munches offset rest items []) (hrest : rest ≠ []) :
    text ∉ Lexeme.openString.language := by
  intro hopen
  obtain rfl := Lexeme.eq_string_of_mem_openString hopen h.mem
  refine h.not_mem_openString hrest ?_ hopen
  -- a lone backslash, which no string can go on with, would have been a fault
  rintro rfl
  exact Lexer.scan_backslash_ne_ok offset items hmore.scan_eq_ok

/-- The fault of the character `c` behind `front`, where no class matches. -/
def Diagnostic.ofStray (front : List Char) (c : Char) : Diagnostic where
  kind := .unexpectedCharacter
  token := some (String.singleton c)
  span := some ⟨Text.size front, Text.size front + c.utf8Size⟩
  location := some (Location.after front)

open Lexer (Munches)

section

variable {source : String} {tokens items : List Spanned} {front rest : List Char} {c : Char}

theorem Lexer.Munches.tokenize_eq_ok (h : Munches 0 source.toList tokens []) :
    tokenize source = .ok tokens := by
  rw [tokenize, h.scan_eq_ok]
  rfl

theorem Lexer.Munches.tokenize_eq_error (h : Munches 0 source.toList items (c :: rest))
    (hsource : source.toList = front ++ c :: rest) (hstuck : Lexeme.Stuck (c :: rest)) :
    tokenize source = .error (.ofStray front c) := by
  rw [tokenize, h.scan_eq_error hsource hstuck]
  simp only [Except.mapError, Diagnostic.locate, Diagnostic.about, Nat.zero_add,
    Location.ofOffset_size hsource, Diagnostic.ofStray]

theorem Lexer.munches_of_tokenize_eq_ok (h : tokenize source = .ok tokens) :
    Munches 0 source.toList tokens [] := by
  obtain ⟨items, final, hmunches, hstuck⟩ := Lexer.exists_munches 0 source.toList
  obtain ⟨front, hsource, -⟩ := hmunches.scan_eq
  cases final with
  | nil =>
    obtain rfl := Except.ok.inj (h.symm.trans hmunches.tokenize_eq_ok)
    exact hmunches
  | cons c rest => exact absurd (h.symm.trans (hmunches.tokenize_eq_error hsource hstuck)) (by simp)

theorem Lexer.exists_stuck_of_tokenize_eq_error {fault : Diagnostic}
    (h : tokenize source = .error fault) :
    ∃ front c rest items, source.toList = front ++ c :: rest ∧
      Munches 0 source.toList items (c :: rest) ∧ Lexeme.Stuck (c :: rest) ∧
      fault = .ofStray front c := by
  obtain ⟨items, final, hmunches, hstuck⟩ := Lexer.exists_munches 0 source.toList
  obtain ⟨front, hsource, -⟩ := hmunches.scan_eq
  cases final with
  | nil => exact absurd (h.symm.trans hmunches.tokenize_eq_ok) (by simp)
  | cons c rest =>
    have herror := hmunches.tokenize_eq_error hsource hstuck
    exact ⟨front, c, rest, items, hsource, hmunches, hstuck, Except.error.inj (h.symm.trans herror)⟩

end

/-- A source is munched, longest match after longest match, either to its end, and then `tokenize`
gives the tokens that are found, or to a character where no class matches; then `tokenize` reports
this character at its place, and what stands in front of it has just the tokens found so far. -/
theorem tokenize_maximalMunch (source : String) :
    (∀ tokens, tokenize source = .ok tokens ↔ Munches 0 source.toList tokens []) ∧
    ∀ fault, tokenize source = .error fault ↔
      ∃ front c rest items, source.toList = front ++ c :: rest ∧
        Munches 0 source.toList items (c :: rest) ∧ Lexeme.Stuck (c :: rest) ∧
        fault = .ofStray front c ∧ tokenize (String.ofList front) = .ok items := by
  constructor
  · intro tokens
    exact ⟨Lexer.munches_of_tokenize_eq_ok, fun h => h.tokenize_eq_ok⟩
  · intro fault
    constructor
    · intro h
      obtain ⟨front, c, rest, items, hsource, hmunches, hstuck, hfault⟩ :=
        Lexer.exists_stuck_of_tokenize_eq_error h
      have hfront : Munches 0 (String.ofList front).toList items [] := by
        simpa using hmunches.shorten hsource List.nil_prefix
      exact ⟨front, c, rest, items, hsource, hmunches, hstuck, hfault, hfront.tokenize_eq_ok⟩
    · rintro ⟨front, c, rest, items, hsource, hmunches, hstuck, rfl, -⟩
      exact hmunches.tokenize_eq_error hsource hstuck

end Desugar
