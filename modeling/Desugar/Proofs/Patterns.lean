import Desugar.Proofs.Trimming
import Mathlib.Computability.Language

/-!
# Lexemes as regular languages

`Lexeme.reach` says how far a class of lexemes reaches into a text, by a function of its own for
each class.  Here each class has a regular pattern (`Lexeme.pattern`), and `reach` is shown to give the
length of the longest prefix in the language of the pattern (`Lexeme.reaches_reach`).

The languages have no text in common: the class of a lexeme can be told from its characters
(`Lexeme.class?_eq`), so two classes never match the same text.
-/

namespace Desugar.Lexeme

open scoped Computability

/-! ## Patterns -/

/-- Regular expressions over characters, with classes of characters for letters. -/
inductive Pattern where
  /-- One character of a class. -/
  | one (allowed : Char → Bool)
  | text (spelling : String)
  | seq (first second : Pattern)
  | either (first second : Pattern)
  /-- Any number of times, also none. -/
  | many (inner : Pattern)
  | optional (inner : Pattern)

namespace Pattern

/-- The texts that match a pattern. -/
def language : Pattern → Language Char
  | .one allowed => {text | ∃ c, allowed c = true ∧ text = [c]}
  | .text spelling => {spelling.toList}
  | .seq first second => first.language * second.language
  | .either first second => first.language + second.language
  | .many inner => inner.language∗
  | .optional inner => 1 + inner.language

/-- One of the characters. -/
def oneOf (chars : List Char) : Pattern :=
  .one fun c => chars.contains c

/-- At least one character of a class. -/
def run (allowed : Char → Bool) : Pattern :=
  .seq (.one allowed) (.many (.one allowed))

variable {allowed : Char → Bool} {text : List Char} {first second inner : Pattern}

theorem mem_one : text ∈ (one allowed).language ↔ ∃ c, allowed c = true ∧ text = [c] := Iff.rfl

theorem mem_oneOf {chars : List Char} :
    text ∈ (oneOf chars).language ↔ ∃ c ∈ chars, text = [c] := by
  simp [oneOf, mem_one]

theorem mem_text {spelling : String} :
    text ∈ (Pattern.text spelling).language ↔ text = spelling.toList := Iff.rfl

theorem mem_either :
    text ∈ (either first second).language ↔ text ∈ first.language ∨ text ∈ second.language :=
  Iff.rfl

theorem mem_seq :
    text ∈ (seq first second).language ↔
      ∃ front ∈ first.language, ∃ back ∈ second.language, text = front ++ back := by
  simp only [language, Language.mem_mul, eq_comm]

theorem mem_optional :
    text ∈ (optional inner).language ↔ text = [] ∨ text ∈ inner.language := Iff.rfl

theorem mem_seq_one :
    text ∈ (seq (one allowed) second).language ↔
      ∃ c rest, text = c :: rest ∧ allowed c = true ∧ rest ∈ second.language := by
  constructor
  · rintro ⟨_, ⟨c, hc, rfl⟩, rest, hrest, rfl⟩
    exact ⟨c, rest, rfl, hc, hrest⟩
  · rintro ⟨c, rest, rfl, hc, hrest⟩
    exact ⟨[c], ⟨c, hc, rfl⟩, rest, hrest, rfl⟩

theorem mem_seq_text {spelling : String} :
    text ∈ (seq (.text spelling) second).language ↔
      ∃ rest, text = spelling.toList ++ rest ∧ rest ∈ second.language := by
  constructor
  · rintro ⟨_, rfl, rest, hrest, rfl⟩
    exact ⟨rest, rfl, hrest⟩
  · rintro ⟨rest, rfl, hrest⟩
    exact ⟨_, rfl, rest, hrest, rfl⟩

theorem nil_mem_many : [] ∈ (many inner).language :=
  Language.nil_mem_kstar _

/-- One more match in front of a repetition. -/
theorem append_mem_many {front : List Char} (hfront : front ∈ inner.language)
    (htext : text ∈ (many inner).language) : front ++ text ∈ (many inner).language := by
  obtain ⟨pieces, rfl, hpieces⟩ := htext
  exact ⟨front :: pieces, rfl, by simpa using ⟨hfront, hpieces⟩⟩

/-- A repetition of one class is a text of that class. -/
theorem mem_many_one : text ∈ (many (one allowed)).language ↔ ∀ c ∈ text, allowed c = true := by
  constructor
  · rintro ⟨pieces, rfl, hpieces⟩ c hc
    obtain ⟨piece, hpiece, hmem⟩ := List.mem_flatten.mp hc
    obtain ⟨d, hd, rfl⟩ := hpieces piece hpiece
    rwa [List.mem_singleton.mp hmem]
  · intro h
    induction text with
    | nil => exact nil_mem_many
    | cons c text ih =>
      have htext := ih fun d hd => h d (by simp [hd])
      exact append_mem_many (mem_one.mpr ⟨c, h c (by simp), rfl⟩) htext

theorem mem_run :
    text ∈ (run allowed).language ↔
      ∃ c rest, text = c :: rest ∧ ∀ d ∈ c :: rest, allowed d = true := by
  simp [run, mem_seq_one, mem_many_one]

end Pattern

/-! ## The patterns of the classes -/

/-- A character of a string literal: no quote, and no backslash unless one more character is with
it. -/
def stringPiece : Pattern :=
  .either (.one fun c => c ≠ '"' && c ≠ '\\') (.seq (.text "\\") (.one fun _ => true))

/-- The texts of each class. -/
def pattern : Lexeme → Pattern
  | .gap => .run isGap
  | .comment => .seq (.text "#") (.many (.one (· ≠ '\n')))
  | .opener delimiter => .text delimiter.opening
  | .closer bracket => .text bracket.closing
  | .arrow => .text "->"
  | .step direction => .text direction.text
  | .operator =>
    .either (.text "**") <| .either (.text "<=>") <|
    .either (.seq (.oneOf ['<', '>']) (.optional (.oneOf ['<', '>', '=']))) <|
    .either (.text "!~") <|
    .either (.seq (.text "=") (.optional (.oneOf ['=', '~']))) <|
    .seq (.oneOf ['!', '+', '-', '*', '/', '^', '&', '|', '%']) (.optional (.text "="))
  | .string =>
    .seq (.text "\"") (.seq (.many stringPiece) (.optional (.text "\"")))
  | .methodRef => .seq (.text "&:") (.run isMethodChar)
  | .word => .seq (.one isWordStart) (.many (.one isWordChar))

variable {text rest cs : List Char}

/-- The operators are the listed ones. -/
theorem mem_operator :
    text ∈ operator.pattern.language ↔ ∃ spelling ∈ operators, text = spelling.toList := by
  simp only [pattern, Pattern.mem_either, Pattern.mem_text, Pattern.mem_seq, Pattern.mem_oneOf,
    Pattern.mem_optional]
  simp [operators, or_assoc]

theorem mem_gap :
    text ∈ gap.pattern.language ↔ ∃ c rest, text = c :: rest ∧ ∀ d ∈ c :: rest, isGap d = true :=
  Pattern.mem_run

theorem mem_comment :
    text ∈ comment.pattern.language ↔ ∃ body, text = '#' :: body ∧ ∀ c ∈ body, c ≠ '\n' := by
  simp [pattern, Pattern.mem_seq_text, Pattern.mem_many_one]

theorem mem_methodRef :
    text ∈ methodRef.pattern.language ↔
      ∃ c name, text = '&' :: ':' :: c :: name ∧ ∀ d ∈ c :: name, isMethodChar d = true := by
  simp only [pattern, Pattern.mem_seq_text, Pattern.mem_run]
  constructor
  · rintro ⟨_, rfl, c, name, rfl, hname⟩
    exact ⟨c, name, rfl, hname⟩
  · rintro ⟨c, name, rfl, hname⟩
    exact ⟨c :: name, rfl, c, name, rfl, hname⟩

theorem mem_word :
    text ∈ word.pattern.language ↔
      ∃ c rest, text = c :: rest ∧ isWordStart c = true ∧ ∀ d ∈ rest, isWordChar d = true := by
  simp only [pattern, Pattern.mem_seq_one, Pattern.mem_many_one]

/-! ### String literals -/

/-- What can stand behind the opening quote of a string literal, the closing quote included. -/
inductive Quoted : List Char → Prop
  | nil : Quoted []
  | close : Quoted ['"']
  | plain {c : Char} {rest : List Char} (quote : c ≠ '"') (backslash : c ≠ '\\')
      (more : Quoted rest) : Quoted (c :: rest)
  | escape {c : Char} {rest : List Char} (more : Quoted rest) : Quoted ('\\' :: c :: rest)

theorem mem_stringPiece :
    text ∈ stringPiece.language ↔
      (∃ c, c ≠ '"' ∧ c ≠ '\\' ∧ text = [c]) ∨ ∃ c, text = ['\\', c] := by
  simp [stringPiece, Pattern.mem_either, Pattern.mem_one, Pattern.mem_seq_text, and_assoc]

theorem quoted_cons_iff {c : Char} (hquote : c ≠ '"') (hbackslash : c ≠ '\\') :
    Quoted (c :: rest) ↔ Quoted rest := by
  constructor
  · intro h
    cases h with
    | close => exact absurd rfl hquote
    | plain _ _ more => exact more
    | escape _ => exact absurd rfl hbackslash
  · exact .plain hquote hbackslash

theorem quoted_escape_iff {c : Char} : Quoted ('\\' :: c :: rest) ↔ Quoted rest := by
  constructor
  · intro h
    cases h with
    | plain _ backslash _ => exact absurd rfl backslash
    | escape more => exact more
  · exact .escape

/-- Whole pieces of a literal say nothing about what can stand behind them. -/
theorem quoted_pieces_append_iff {pieces : List (List Char)}
    (h : ∀ piece ∈ pieces, piece ∈ stringPiece.language) :
    Quoted (pieces.flatten ++ rest) ↔ Quoted rest := by
  induction pieces with
  | nil => rfl
  | cons piece pieces ih =>
    have hpieces := ih fun other hother => h other (by simp [hother])
    rw [List.flatten_cons, List.append_assoc]
    rcases mem_stringPiece.mp (h piece (by simp)) with ⟨c, hquote, hbackslash, rfl⟩ | ⟨c, rfl⟩
    · rw [List.singleton_append, quoted_cons_iff hquote hbackslash]
      exact hpieces
    · rw [List.cons_append, List.singleton_append, quoted_escape_iff]
      exact hpieces

/-- The pattern behind the opening quote. -/
theorem mem_quoted :
    text ∈ (Pattern.seq (.many stringPiece) (.optional (.text "\""))).language ↔ Quoted text := by
  rw [Pattern.mem_seq]
  constructor
  · rintro ⟨_, ⟨pieces, rfl, hpieces⟩, last, rfl | rfl, rfl⟩
    · exact (quoted_pieces_append_iff hpieces).mpr .nil
    · exact (quoted_pieces_append_iff hpieces).mpr .close
  · intro h
    induction h with
    | nil => exact ⟨[], Pattern.nil_mem_many, [], .inl rfl, rfl⟩
    | close => exact ⟨[], Pattern.nil_mem_many, ['"'], .inr rfl, rfl⟩
    | plain quote backslash _ ih =>
      obtain ⟨front, hfront, last, hlast, rfl⟩ := ih
      have hpiece := mem_stringPiece.mpr (.inl ⟨_, quote, backslash, rfl⟩)
      exact ⟨_, Pattern.append_mem_many hpiece hfront, last, hlast, rfl⟩
    | @escape c _ _ ih =>
      obtain ⟨front, hfront, last, hlast, rfl⟩ := ih
      have hpiece := mem_stringPiece.mpr (.inr ⟨c, rfl⟩)
      exact ⟨_, Pattern.append_mem_many hpiece hfront, last, hlast, rfl⟩

theorem mem_string :
    text ∈ string.pattern.language ↔ ∃ rest, text = '"' :: rest ∧ Quoted rest := by
  simp only [pattern, Pattern.mem_seq_text, mem_quoted]
  rfl

/-- The string literals without a closing quote. -/
def openString : Pattern :=
  .seq (.text "\"") (.many stringPiece)

theorem mem_openString :
    text ∈ openString.language ↔
      ∃ pieces : List (List Char), (∀ piece ∈ pieces, piece ∈ stringPiece.language) ∧
        text = '"' :: pieces.flatten := by
  rw [openString, Pattern.mem_seq_text]
  constructor
  · rintro ⟨_, rfl, pieces, rfl, hpieces⟩
    exact ⟨pieces, hpieces, rfl⟩
  · rintro ⟨pieces, hpieces, rfl⟩
    exact ⟨pieces.flatten, rfl, pieces, rfl, hpieces⟩

/-- A literal is open, or it is an open one and its closing quote. -/
theorem openString_or_closed (h : text ∈ string.pattern.language) :
    text ∈ openString.language ∨ ∃ front ∈ openString.language, text = front ++ ['"'] := by
  obtain ⟨rest, rfl, hrest⟩ := mem_string.mp h
  obtain ⟨_, ⟨pieces, rfl, hpieces⟩, last, hlast, rfl⟩ := Pattern.mem_seq.mp (mem_quoted.mpr hrest)
  have hopen : '"' :: pieces.flatten ∈ openString.language :=
    mem_openString.mpr ⟨pieces, hpieces, rfl⟩
  rcases hlast with rfl | rfl
  · exact .inl (by simpa using hopen)
  · exact .inr ⟨_, hopen, rfl⟩

/-- An open literal can go on. -/
theorem append_mem_string (h : text ∈ openString.language) (hrest : Quoted rest) :
    text ++ rest ∈ string.pattern.language := by
  obtain ⟨pieces, hpieces, rfl⟩ := mem_openString.mp h
  exact mem_string.mpr ⟨_, rfl, (quoted_pieces_append_iff hpieces).mpr hrest⟩

/-- A closed literal cannot. -/
theorem eq_nil_of_closed_append (h : text ∈ openString.language)
    (hrest : text ++ '"' :: rest ∈ string.pattern.language) : rest = [] := by
  obtain ⟨pieces, hpieces, rfl⟩ := mem_openString.mp h
  obtain ⟨body, hbody, hquoted⟩ := mem_string.mp hrest
  obtain rfl : pieces.flatten ++ '"' :: rest = body := by simpa using hbody
  have hquote := (quoted_pieces_append_iff hpieces).mp hquoted
  cases hquote with
  | close => rfl
  | plain quote _ _ => exact absurd rfl quote

/-- `stringRest` goes over something that can stand behind an opening quote. -/
theorem quoted_take_stringRest (cs : List Char) : Quoted (cs.take (stringRest cs)) := by
  fun_induction stringRest cs with
  | case1 => exact .nil
  | case2 => exact .close
  | case3 => exact .nil
  | case4 c cs ih => exact .escape ih
  | case5 c cs hquote hlast hescape ih =>
    have hbackslash : c ≠ '\\' := by
      intro hc
      cases cs with
      | nil => exact hlast hc rfl
      | cons next cs => exact hescape next cs hc rfl
    exact .plain hquote hbackslash ih

/-- `stringRest` goes at least as far as anything that can stand behind an opening quote. -/
theorem Quoted.length_le_stringRest (h : Quoted rest) (hstarts : rest <+: cs) :
    rest.length ≤ stringRest cs := by
  induction h generalizing cs with
  | nil => simp
  | close =>
    obtain ⟨back, rfl⟩ := hstarts
    simp [stringRest]
  | @plain c rest quote backslash _ ih =>
    obtain ⟨back, rfl⟩ := hstarts
    have hrest := ih (List.prefix_append rest back)
    simpa [stringRest, quote, backslash] using hrest
  | @escape c rest _ ih =>
    obtain ⟨back, rfl⟩ := hstarts
    have hrest := ih (List.prefix_append rest back)
    simpa [stringRest] using hrest

theorem stringRest_le_length (cs : List Char) : stringRest cs ≤ cs.length := by
  fun_induction stringRest cs with
  | case1 => simp
  | case2 => simp
  | case3 => simp
  | case4 c cs ih => simpa using ih
  | case5 c cs _ _ _ ih => simpa using ih

/-- A string can go on unless the text ends, or ends in a backslash. -/
theorem stringRest_pos (hrest : rest ≠ []) (hbackslash : rest ≠ ['\\']) : 0 < stringRest rest := by
  fun_cases stringRest rest with
  | case1 => exact absurd rfl hrest
  | case3 => exact absurd rfl hbackslash
  | _ => omega

/-! ## How far a class reaches -/

/-- The class matches `length` characters at the head of the text and no more; zero stands for no
match. -/
structure Reaches (lexeme : Lexeme) (cs : List Char) (length : Nat) : Prop where
  le_length : length ≤ cs.length
  mem : 0 < length → cs.take length ∈ lexeme.pattern.language
  le_of_mem : ∀ text, text <+: cs → text ∈ lexeme.pattern.language → text.length ≤ length

theorem Reaches.zero {lexeme : Lexeme} (h : ∀ text, text <+: cs → text ∉ lexeme.pattern.language) :
    Reaches lexeme cs 0 :=
  ⟨by simp, by simp, fun text hstarts htext => absurd htext (h text hstarts)⟩

theorem length_le_takeWhile {p : Char → Bool} (hstarts : text <+: cs)
    (htext : ∀ c ∈ text, p c = true) : text.length ≤ (cs.takeWhile p).length := by
  obtain ⟨back, rfl⟩ := hstarts
  rw [List.takeWhile_append_of_pos htext, List.length_append]
  omega

theorem spelled_eq_length {spelling : String} (h : spelling.toList <+: cs) :
    spelled spelling cs = spelling.toList.length := by
  rw [spelled, if_pos (List.isPrefixOf_iff_prefix.mpr h)]

theorem spelled_eq_zero {spelling : String} (h : ¬ spelling.toList <+: cs) :
    spelled spelling cs = 0 := by
  rw [spelled, if_neg (by rwa [List.isPrefixOf_iff_prefix])]

theorem spelled_le_length (spelling : String) (cs : List Char) :
    spelled spelling cs ≤ cs.length := by
  by_cases h : spelling.toList <+: cs
  · rw [spelled_eq_length h]
    exact h.length_le
  · rw [spelled_eq_zero h]
    exact Nat.zero_le _

/-- A class of one spelling. -/
theorem reaches_spelled {lexeme : Lexeme} {spelling : String}
    (hpattern : lexeme.pattern = .text spelling) (cs : List Char) :
    Reaches lexeme cs (spelled spelling cs) := by
  refine ⟨spelled_le_length spelling cs, fun hpositive => ?_, fun text hstarts htext => ?_⟩
  · rw [hpattern, Pattern.mem_text, take_spelled hpositive]
  · rw [hpattern, Pattern.mem_text] at htext
    subst htext
    exact (spelled_eq_length hstarts).ge

theorem foldr_spelled_le_length (spellings : List String) (cs : List Char) :
    (spellings.map (spelled · cs)).foldr max 0 ≤ cs.length := by
  induction spellings with
  | nil => simp
  | cons spelling spellings ih => simpa using ⟨spelled_le_length spelling cs, ih⟩

theorem spelled_le_foldr {spellings : List String} {spelling : String} (h : spelling ∈ spellings)
    (cs : List Char) : spelled spelling cs ≤ (spellings.map (spelled · cs)).foldr max 0 := by
  induction spellings with
  | nil => simp at h
  | cons first others ih =>
    rw [List.map_cons, List.foldr_cons]
    rcases List.mem_cons.mp h with rfl | h
    · exact Nat.le_max_left _ _
    · exact Nat.le_trans (ih h) (Nat.le_max_right _ _)

/-- The operators reach as far as the longest of their spellings. -/
theorem reaches_operator (cs : List Char) : Reaches .operator cs (operator.reach cs) := by
  refine ⟨foldr_spelled_le_length operators cs, fun hpositive => ?_, fun text hstarts htext => ?_⟩
  · exact mem_operator.mpr (exists_operator hpositive)
  · obtain ⟨spelling, hspelling, rfl⟩ := mem_operator.mp htext
    have hle := spelled_le_foldr hspelling cs
    rwa [spelled_eq_length hstarts] at hle

theorem reaches_gap (cs : List Char) : Reaches .gap cs (gap.reach cs) := by
  have htake := take_length_takeWhile isGap cs
  refine ⟨(List.takeWhile_prefix isGap).length_le, fun hpositive => ?_,
    fun text hstarts htext => ?_⟩
  · rw [reach, htake, mem_gap]
    obtain ⟨c, rest, hrun⟩ := List.exists_cons_of_length_pos hpositive
    exact ⟨c, rest, hrun, fun d hd => List.mem_takeWhile_imp (hrun ▸ hd)⟩
  · obtain ⟨c, rest, rfl, hgap⟩ := mem_gap.mp htext
    exact length_le_takeWhile hstarts hgap

/-- Where every match starts with `front`, it is enough to look at what stands behind it. -/
theorem Reaches.behind {lexeme : Lexeme} (front : List Char) {length : Nat}
    (hle : length ≤ cs.length) (hmem : front ++ cs.take length ∈ lexeme.pattern.language)
    (hmax : ∀ text, text <+: front ++ cs → text ∈ lexeme.pattern.language →
      ∃ tail, text = front ++ tail ∧ (tail <+: cs → tail.length ≤ length)) :
    Reaches lexeme (front ++ cs) (length + front.length) := by
  refine ⟨by simp; omega, fun _ => ?_, fun text hstarts htext => ?_⟩
  · rwa [Nat.add_comm, List.take_length_add_append]
  · obtain ⟨tail, rfl, htail⟩ := hmax text hstarts htext
    have hlength := htail ((List.prefix_append_right_inj front).mp hstarts)
    rw [List.length_append]
    omega

theorem reaches_comment (cs : List Char) : Reaches .comment cs (comment.reach cs) := by
  simp only [reach]
  split
  · next cs =>
    refine .behind ['#'] (List.takeWhile_prefix _).length_le ?_ ?_
    · rw [take_length_takeWhile]
      exact mem_comment.mpr ⟨_, rfl, fun c hc => by simpa using List.mem_takeWhile_imp hc⟩
    · rintro _ - htext
      obtain ⟨body, rfl, hbody⟩ := mem_comment.mp htext
      exact ⟨body, rfl, fun hstarts => length_le_takeWhile hstarts (by simpa using hbody)⟩
  · next hother =>
    refine .zero fun text hstarts htext => ?_
    obtain ⟨body, rfl, -⟩ := mem_comment.mp htext
    obtain ⟨back, rfl⟩ := hstarts
    exact hother (body ++ back) rfl

theorem reaches_string (cs : List Char) : Reaches .string cs (string.reach cs) := by
  simp only [reach]
  split
  · next cs =>
    refine .behind ['"'] (stringRest_le_length cs) ?_ ?_
    · exact mem_string.mpr ⟨_, rfl, quoted_take_stringRest cs⟩
    · rintro _ - htext
      obtain ⟨rest, rfl, hrest⟩ := mem_string.mp htext
      exact ⟨rest, rfl, hrest.length_le_stringRest⟩
  · next hother =>
    refine .zero fun text hstarts htext => ?_
    obtain ⟨rest, rfl, -⟩ := mem_string.mp htext
    obtain ⟨back, rfl⟩ := hstarts
    exact hother (rest ++ back) rfl

theorem reaches_methodRef (cs : List Char) : Reaches .methodRef cs (methodRef.reach cs) := by
  simp only [reach]
  split
  · next c cs =>
    split
    · next hc =>
      refine .behind ['&', ':', c] (List.takeWhile_prefix _).length_le ?_ ?_
      · rw [take_length_takeWhile]
        refine mem_methodRef.mpr ⟨c, _, rfl, ?_⟩
        simpa [hc] using fun d hd => List.mem_takeWhile_imp hd
      · rintro _ hstarts htext
        obtain ⟨d, name, rfl, hname⟩ := mem_methodRef.mp htext
        obtain ⟨rfl, -⟩ : d = c ∧ _ := by simpa using hstarts
        exact ⟨name, rfl, fun hname' =>
          length_le_takeWhile hname' fun d hd => hname d (by simp [hd])⟩
    · next hc =>
      refine .zero fun text hstarts htext => ?_
      obtain ⟨d, name, rfl, hname⟩ := mem_methodRef.mp htext
      obtain ⟨rfl, -⟩ : d = c ∧ _ := by simpa using hstarts
      exact hc (hname d (by simp))
  · next hother =>
    refine .zero fun text hstarts htext => ?_
    obtain ⟨c, name, rfl, -⟩ := mem_methodRef.mp htext
    obtain ⟨back, rfl⟩ := hstarts
    exact hother c (name ++ back) rfl

theorem reaches_word (cs : List Char) : Reaches .word cs (word.reach cs) := by
  simp only [reach]
  split
  · next c cs =>
    split
    · next hc =>
      refine .behind [c] (List.takeWhile_prefix _).length_le ?_ ?_
      · rw [take_length_takeWhile]
        exact mem_word.mpr ⟨c, _, rfl, hc, fun d hd => List.mem_takeWhile_imp hd⟩
      · rintro _ hstarts htext
        obtain ⟨d, rest, rfl, -, hrest⟩ := mem_word.mp htext
        obtain ⟨rfl, -⟩ : d = c ∧ _ := by simpa using hstarts
        exact ⟨rest, rfl, fun hstarts' => length_le_takeWhile hstarts' hrest⟩
    · next hc =>
      refine .zero fun text hstarts htext => ?_
      obtain ⟨d, rest, rfl, hd, -⟩ := mem_word.mp htext
      obtain ⟨rfl, -⟩ : d = c ∧ _ := by simpa using hstarts
      exact hc hd
  · refine .zero fun text hstarts htext => ?_
    obtain ⟨c, rest, rfl, -⟩ := mem_word.mp htext
    simp at hstarts

/-- `reach` is the length of the longest match. -/
theorem reaches_reach (lexeme : Lexeme) (cs : List Char) : Reaches lexeme cs (lexeme.reach cs) := by
  cases lexeme with
  | gap => exact reaches_gap cs
  | comment => exact reaches_comment cs
  | opener delimiter => exact reaches_spelled rfl cs
  | closer bracket => exact reaches_spelled rfl cs
  | arrow => exact reaches_spelled rfl cs
  | step direction => exact reaches_spelled rfl cs
  | operator => exact reaches_operator cs
  | string => exact reaches_string cs
  | methodRef => exact reaches_methodRef cs
  | word => exact reaches_word cs

/-! ## No text is in two classes -/

/-- The class of the lexemes with these characters, if there are any. -/
def class? : List Char → Option Lexeme
  | [] => none
  | c :: rest =>
    if isGap c then
      some .gap
    else if isWordStart c then
      some .word
    else
      match c :: rest with
      | '#' :: _ => some .comment
      | '"' :: _ => some .string
      | '&' :: ':' :: _ => some .methodRef
      | ['-', '>'] => some .arrow
      | ['+', '+'] => some (.step .increment)
      | ['-', '-'] => some (.step .decrement)
      | ['('] => some (.opener .paren)
      | [')'] => some (.closer .round)
      | ['['] => some (.opener .bracket)
      | [']'] => some (.closer .square)
      | ['\x7b'] => some (.opener .brace)
      | ['\x7d'] => some (.closer .curly)
      | ['\\', 'h', '\x7b'] => some (.opener .shortMap)
      | ['\\', 'a', '['] => some (.opener .shortArray)
      | _ => some .operator

theorem isGap_of_isWordStart {c : Char} (h : isWordStart c = true) : isGap c = false := by
  have hblank : Text.isBlank c = false := isBlank_of_isWordChar (by simp [isWordChar, h])
  have hcomma : c ≠ ',' := by
    rintro rfl
    exact absurd h (by decide)
  simp [isGap, hblank, hcomma]

theorem class?_eq {lexeme : Lexeme} (h : text ∈ lexeme.pattern.language) :
    class? text = some lexeme := by
  cases lexeme with
  | gap =>
    obtain ⟨c, rest, rfl, hgap⟩ := mem_gap.mp h
    simp [class?, hgap c (by simp)]
  | comment =>
    obtain ⟨body, rfl, -⟩ := mem_comment.mp h
    rfl
  | opener delimiter =>
    obtain rfl := Pattern.mem_text.mp h
    cases delimiter <;> rfl
  | closer bracket =>
    obtain rfl := Pattern.mem_text.mp h
    cases bracket <;> rfl
  | arrow =>
    obtain rfl := Pattern.mem_text.mp h
    rfl
  | step direction =>
    obtain rfl := Pattern.mem_text.mp h
    cases direction <;> rfl
  | operator =>
    obtain ⟨spelling, hspelling, rfl⟩ := mem_operator.mp h
    have hall : ∀ spelling ∈ operators, class? spelling.toList = some .operator := by decide +kernel
    exact hall spelling hspelling
  | string =>
    obtain ⟨rest, rfl, -⟩ := mem_string.mp h
    rfl
  | methodRef =>
    obtain ⟨c, name, rfl, -⟩ := mem_methodRef.mp h
    rfl
  | word =>
    obtain ⟨c, rest, rfl, hc, -⟩ := mem_word.mp h
    simp [class?, isGap_of_isWordStart hc, hc]

/-- A text matches the pattern of one class at most. -/
theorem eq_of_mem_language {lexeme other : Lexeme} (h : text ∈ lexeme.pattern.language)
    (hother : text ∈ other.pattern.language) : other = lexeme :=
  Option.some.inj ((class?_eq hother).symm.trans (class?_eq h))

/-- Only strings are open literals. -/
theorem eq_string_of_mem_openString {lexeme : Lexeme} (h : text ∈ openString.language)
    (hmem : text ∈ lexeme.pattern.language) : lexeme = .string := by
  have hstring : text ∈ string.pattern.language := by simpa using append_mem_string h .nil
  exact eq_of_mem_language hstring hmem

end Desugar.Lexeme
