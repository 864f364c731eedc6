import Desugar.Token.Lexer
import Mathlib.Data.List.Basic
import Mathlib.Data.List.TakeWhile

/-!
# How tokens are spelled

A token carries the text it was read from, and the text tells the kind of token: tokens of two kinds
never start with the same character unless one of them is an operator, and the operators are listed.
So what a later stage recognises by its text is what it takes it for (`WellSpelled.eq_arrow`,
`WellSpelled.eq_word`), and this holds of every token of a source (`tokenize_wellSpelled`).
-/

namespace Desugar

/-- What the text of a token looks like when the token was read from a source. -/
def Token.WellSpelled : Token → Prop
  | .operator text => text ∈ Lexeme.operators
  | .string text => text.toList.head? = some '"'
  | .methodRef text => ∃ c name, text.toList = '&' :: ':' :: c :: name ∧
      ∀ d ∈ c :: name, Lexeme.isMethodChar d = true
  | .word text => ∃ c rest, text.toList = c :: rest ∧ Lexeme.isWordStart c = true ∧
      ∀ d ∈ rest, Lexeme.isWordChar d = true
  | _ => True

namespace Token.WellSpelled

variable {token : Token}

/-- Only the arrow reads as an arrow. -/
theorem eq_arrow (h : token.WellSpelled) (htext : token.text = "->") : token = .arrow := by
  cases token with
  | arrow => rfl
  | opener delimiter => cases delimiter <;> exact absurd htext (by decide)
  | closer bracket => cases bracket <;> exact absurd htext (by decide)
  | step direction => cases direction <;> exact absurd htext (by decide)
  | operator text =>
    obtain rfl : text = "->" := htext
    exact absurd h (by simp [WellSpelled, Lexeme.operators])
  | string text =>
    obtain rfl : text = "->" := htext
    exact absurd h (by simp [WellSpelled])
  | methodRef text =>
    obtain rfl : text = "->" := htext
    exact absurd h (by simp [WellSpelled])
  | word text =>
    obtain rfl : text = "->" := htext
    obtain ⟨c, rest, hc, hstart, -⟩ := h
    obtain ⟨rfl, -⟩ : '-' = c ∧ ['>'] = rest := by simpa using hc
    exact absurd hstart (by decide)

/-- Only words start with a dot. -/
theorem eq_word (h : token.WellSpelled) (htext : token.text.toList.head? = some '.') :
    ∃ text, token = .word text := by
  cases token with
  | word text => exact ⟨text, rfl⟩
  | arrow => exact absurd htext (by decide)
  | opener delimiter => cases delimiter <;> exact absurd htext (by decide)
  | closer bracket => cases bracket <;> exact absurd htext (by decide)
  | step direction => cases direction <;> exact absurd htext (by decide)
  | operator text =>
    have hnone : ∀ text ∈ Lexeme.operators, text.toList.head? ≠ some '.' := by decide
    exact absurd htext (hnone text h)
  | string text => exact absurd (h.symm.trans htext) (by decide)
  | methodRef text =>
    obtain ⟨c, name, hchars, -⟩ := h
    simp [Token.text, hchars] at htext

end Token.WellSpelled

/-! ## Reading tokens from a source -/

namespace Lexeme

/-- The longest lexeme is one, and it reaches somewhere. -/
theorem of_longest_eq_some {cs : List Char} {lexemes : List Lexeme} {lexeme : Lexeme} {length : Nat}
    (h : longest cs lexemes = some (lexeme, length)) : lexeme.reach cs = length ∧ 0 < length := by
  induction lexemes generalizing lexeme length with
  | nil => simp [longest] at h
  | cons first others ih =>
    rw [longest] at h
    split at h
    · split at h
      · simp at h
      · next hlength =>
        obtain ⟨rfl, rfl⟩ : first = lexeme ∧ first.reach cs = length := by simpa using h
        exact ⟨rfl, Nat.pos_of_ne_zero hlength⟩
    · next other otherLength hother =>
      obtain ⟨hreach, hpositive⟩ := ih hother
      split at h
      · next hle =>
        obtain ⟨rfl, rfl⟩ : first = lexeme ∧ first.reach cs = length := by simpa using h
        exact ⟨rfl, by omega⟩
      · obtain ⟨rfl, rfl⟩ : other = lexeme ∧ otherLength = length := by simpa using h
        exact ⟨hreach, hpositive⟩

theorem take_spelled {text : String} {cs : List Char} (h : 0 < spelled text cs) :
    cs.take (spelled text cs) = text.toList := by
  unfold spelled at h ⊢
  split
  · next hstarts => exact (List.prefix_iff_eq_take.mp (List.isPrefixOf_iff_prefix.mp hstarts)).symm
  · next hstarts => simp [hstarts] at h

/-- The longest operator is one of the operators. -/
theorem exists_operator {cs : List Char} {texts : List String}
    (h : 0 < (texts.map (spelled · cs)).foldr max 0) :
    ∃ text ∈ texts, cs.take ((texts.map (spelled · cs)).foldr max 0) = text.toList := by
  induction texts with
  | nil => simp at h
  | cons first others ih =>
    rw [List.map_cons, List.foldr_cons] at h ⊢
    rcases Nat.le_total ((others.map (spelled · cs)).foldr max 0) (spelled first cs) with hle | hle
    · rw [Nat.max_eq_left hle] at h ⊢
      exact ⟨first, by simp, take_spelled h⟩
    · rw [Nat.max_eq_right hle] at h ⊢
      obtain ⟨text, hmem, htake⟩ := ih h
      exact ⟨text, by simp [hmem], htake⟩

theorem take_length_takeWhile (p : Char → Bool) (cs : List Char) :
    cs.take (cs.takeWhile p).length = cs.takeWhile p :=
  (List.prefix_iff_eq_take.mp (List.takeWhile_prefix p)).symm

/-- What a class of lexemes reaches is a text of its tokens. -/
theorem wellSpelled_of_token? {cs : List Char} {lexeme : Lexeme} {token : Token}
    (hreach : 0 < lexeme.reach cs)
    (htoken : lexeme.token? (String.ofList (cs.take (lexeme.reach cs))) = some token) :
    token.WellSpelled := by
  cases lexeme with
  | gap => simp [token?] at htoken
  | comment => simp [token?] at htoken
  | operator =>
    obtain ⟨text, hmem, htake⟩ := exists_operator hreach
    obtain rfl := Option.some.inj htoken
    simp only [Token.WellSpelled, reach, htake, String.ofList_toList]
    exact hmem
  | string =>
    obtain rfl := Option.some.inj htoken
    simp only [reach] at hreach
    split at hreach
    · simp [Token.WellSpelled, reach]
    · simp at hreach
  | methodRef =>
    obtain rfl := Option.some.inj htoken
    simp only [reach] at hreach
    split at hreach
    · next c cs =>
      split at hreach
      · next hchar =>
        refine ⟨c, cs.takeWhile isMethodChar, ?_, ?_⟩
        · simp [reach, hchar, take_length_takeWhile]
        · simpa [hchar] using fun d hd => List.mem_takeWhile_imp hd
      · simp at hreach
    · simp at hreach
  | word =>
    obtain rfl := Option.some.inj htoken
    simp only [reach] at hreach
    split at hreach
    · next c cs =>
      split at hreach
      · next hstart =>
        refine ⟨c, cs.takeWhile isWordChar, ?_, hstart, fun d hd => List.mem_takeWhile_imp hd⟩
        simp [reach, hstart, take_length_takeWhile]
      · simp at hreach
    · simp at hreach
  | _ =>
    obtain rfl := Option.some.inj htoken
    trivial

end Lexeme

theorem Lexer.scan_wellSpelled {offset : Nat} {cs : List Char} {tokens : List Spanned}
    (h : Lexer.scan offset cs = .ok tokens) : ∀ item ∈ tokens, item.token.WellSpelled := by
  fun_induction Lexer.scan offset cs generalizing tokens with
  | case1 =>
    obtain rfl := Except.ok.inj h
    simp
  | case2 => simp at h
  | case3 => simp at h
  | case4 offset c cs lexeme length hlongest text stop rest hrest htoken =>
    obtain rfl := Except.ok.inj h
    rename_i ih
    exact ih hrest
  | case5 offset c cs lexeme length hlongest text stop rest hrest token htoken =>
    obtain rfl := Except.ok.inj h
    rename_i ih
    obtain ⟨rfl, hpositive⟩ := Lexeme.of_longest_eq_some hlongest
    intro item hitem
    rcases List.mem_cons.mp hitem with rfl | hitem
    · exact Lexeme.wellSpelled_of_token? hpositive htoken
    · exact ih hrest item hitem

/-- The tokens of a source are those that the scanner finds from its first byte on. -/
theorem Lexer.scan_of_tokenize_eq_ok {source : String} {tokens : List Spanned}
    (h : tokenize source = .ok tokens) : Lexer.scan 0 source.toList = .ok tokens := by
  unfold tokenize at h
  cases hscan : Lexer.scan 0 source.toList with
  | error fault => simp [hscan, Except.mapError] at h
  | ok scanned => simpa [hscan, Except.mapError] using h

/-- Every token of a source is spelled as its kind says. -/
theorem tokenize_wellSpelled {source : String} {tokens : List Spanned}
    (h : tokenize source = .ok tokens) : ∀ item ∈ tokens, item.token.WellSpelled :=
  Lexer.scan_wellSpelled (Lexer.scan_of_tokenize_eq_ok h)

end Desugar
