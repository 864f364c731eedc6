import Desugar.Proofs.Rules

/-!
# Trimming

The elements of a short literal are trimmed and the empty ones are left out before they are joined
(`Ruby.join`).  Neither does anything: a text is trimmed when it has a first and a last character and
neither is blank (`Text.IsTrimmed`), every token with another token behind it has such a text
(`tokenize_isTrimmed`), and every tree of such tokens is rendered as one (`Tree.isTrimmed_form`).  So
the elements are joined as they are (`Ruby.join_eq`).

The one token whose text can end in a blank is a string literal that nothing closes, and it takes the
rest of the source with it.
-/

namespace Desugar

/-! ## Texts that trimming leaves alone -/

namespace Text

/-- A text with a first and a last character, neither of them blank. -/
def IsTrimmed (text : String) : Prop :=
  text.toList.head?.any (!isBlank ·) = true ∧ text.toList.getLast?.any (!isBlank ·) = true

instance (text : String) : Decidable (IsTrimmed text) :=
  inferInstanceAs (Decidable (_ ∧ _))

theorem isTrimmed_iff {text : String} :
    IsTrimmed text ↔ (∃ c, text.toList.head? = some c ∧ isBlank c = false) ∧
      ∃ c, text.toList.getLast? = some c ∧ isBlank c = false := by
  simp only [IsTrimmed, Option.any_eq_true, Bool.not_eq_true']

theorem trimStart_eq_self {cs : List Char} {c : Char} (hhead : cs.head? = some c)
    (hblank : isBlank c = false) : trimStart cs = cs := by
  obtain ⟨rest, rfl⟩ := List.head?_eq_some_iff.mp hhead
  exact List.dropWhile_cons_of_neg (by simp [hblank])

theorem trimEnd_eq_self {cs : List Char} {c : Char} (hlast : cs.getLast? = some c)
    (hblank : isBlank c = false) : trimEnd cs = cs := by
  rw [← List.head?_reverse] at hlast
  have hreverse : cs.reverse.dropWhile isBlank = cs.reverse := trimStart_eq_self hlast hblank
  rw [trimEnd, hreverse, List.reverse_reverse]

namespace IsTrimmed

variable {text front back : String}

theorem ne_empty (h : IsTrimmed text) : text ≠ "" := by
  rintro rfl
  exact absurd h (by decide)

theorem trim_eq_self (h : IsTrimmed text) : trim text = text := by
  obtain ⟨⟨first, hhead, hfirst⟩, last, hend, hlast⟩ := isTrimmed_iff.mp h
  rw [trim, trimStart_eq_self hhead hfirst, trimEnd_eq_self hend hlast, String.ofList_toList]

/-- Only the two ends of a text count. -/
theorem around (hfront : IsTrimmed front) (middle : String) (hback : IsTrimmed back) :
    IsTrimmed (front ++ middle ++ back) := by
  obtain ⟨⟨first, hhead, hfirst⟩, -⟩ := isTrimmed_iff.mp hfront
  obtain ⟨-, last, hend, hlast⟩ := isTrimmed_iff.mp hback
  refine isTrimmed_iff.mpr ⟨⟨first, ?_, hfirst⟩, last, ?_, hlast⟩
  · simp [String.toList_append, List.head?_append, hhead]
  · simp [String.toList_append, List.getLast?_append, hend]

theorem append (hfront : IsTrimmed front) (hback : IsTrimmed back) : IsTrimmed (front ++ back) := by
  simpa using hfront.around "" hback

theorem of_forall {c : Char} {rest : List Char} (htext : text.toList = c :: rest)
    (h : ∀ d ∈ c :: rest, isBlank d = false) : IsTrimmed text := by
  refine isTrimmed_iff.mpr ⟨⟨c, by simp [htext], h c (by simp)⟩, ?_⟩
  obtain ⟨last, hlast⟩ : ∃ last, (c :: rest).getLast? = some last :=
    ⟨_, List.getLast?_eq_some_getLast (List.cons_ne_nil c rest)⟩
  exact ⟨last, by rw [htext, hlast], h last (List.mem_of_getLast? hlast)⟩

end IsTrimmed

/-- The visible ASCII characters are not blank. -/
theorem isBlank_eq_false {c : Char} (h : 0x21 ≤ c.toNat ∧ c.toNat < 0x7F) : isBlank c = false := by
  simp only [isBlank, blankRanges, List.any_cons, List.any_nil, Bool.or_false, Bool.or_eq_false_iff,
    Bool.and_eq_false_iff, decide_eq_false_iff_not]
  omega

end Text

/-! ## Trimmed tokens -/

namespace Lexeme

theorem visible_of_isNameChar {c : Char} (h : isNameChar c = true) :
    0x21 ≤ c.toNat ∧ c.toNat < 0x7F := by
  simp only [isNameChar, Bool.or_eq_true, decide_eq_true_eq] at h
  rcases h with h | rfl
  · delta Char.isAlphanum Char.isAlpha Char.isUpper Char.isLower Char.isDigit at h
    simp only [Bool.or_eq_true, Bool.and_eq_true, decide_eq_true_eq, UInt32.le_iff_toNat_le,
      ge_iff_le] at h
    have hval : c.toNat = c.val.toNat := rfl
    have hdigit : '0'.val.toNat = 48 ∧ '9'.val.toNat = 57 := by decide
    have hupper : 'A'.val.toNat = 65 ∧ 'Z'.val.toNat = 90 := by decide
    have hlower : 'a'.val.toNat = 97 ∧ 'z'.val.toNat = 122 := by decide
    omega
  · decide

theorem isBlank_of_isWordChar {c : Char} (h : isWordChar c = true) : Text.isBlank c = false := by
  simp only [isWordChar, isWordStart, Bool.or_eq_true, decide_eq_true_eq, or_assoc] at h
  rcases h with h | rfl | rfl | rfl | rfl | rfl | rfl | rfl
  · exact Text.isBlank_eq_false (visible_of_isNameChar h)
  all_goals decide

theorem isWordChar_of_isMethodChar {c : Char} (h : isMethodChar c = true) : isWordChar c = true := by
  simp only [isMethodChar, isWordChar, isWordStart, Bool.or_eq_true, decide_eq_true_eq] at h ⊢
  tauto

theorem isBlank_of_isMethodChar {c : Char} (h : isMethodChar c = true) : Text.isBlank c = false :=
  isBlank_of_isWordChar (isWordChar_of_isMethodChar h)

/-- A string literal ends in a quote, or it goes on to the end of the text, or to a backslash
there. -/
theorem stringRest_cases (cs : List Char) :
    cs.drop (stringRest cs) = [] ∨ cs.drop (stringRest cs) = ['\\'] ∨
      (cs.take (stringRest cs)).getLast? = some '"' := by
  fun_induction stringRest cs with
  | case1 => simp
  | case2 => simp
  | case3 => simp
  | case4 c cs ih =>
    refine ih.imp (by simp) (.imp (by simp) fun hlast => ?_)
    simp [List.getLast?_cons, hlast]
  | case5 c cs _ _ _ ih =>
    refine ih.imp (by simp) (.imp (by simp) fun hlast => ?_)
    simp [List.getLast?_cons, hlast]

end Lexeme

/-- Every token but a string literal is trimmed. -/
theorem Token.WellSpelled.isTrimmed {token : Token} (h : token.WellSpelled)
    (hstring : ∀ text, token ≠ .string text) : Text.IsTrimmed token.text := by
  cases token with
  | opener delimiter => cases delimiter <;> decide
  | closer bracket => cases bracket <;> decide
  | arrow => decide
  | step direction => cases direction <;> decide
  | operator text =>
    have hall : ∀ text ∈ Lexeme.operators, Text.IsTrimmed text := by decide
    exact hall text h
  | string text => exact absurd rfl (hstring text)
  | methodRef text =>
    obtain ⟨c, name, htext, hname⟩ := h
    refine .of_forall htext fun d hd => ?_
    rcases List.mem_cons.mp hd with rfl | hd
    · decide
    rcases List.mem_cons.mp hd with rfl | hd
    · decide
    exact Lexeme.isBlank_of_isMethodChar (hname d hd)
  | word text =>
    obtain ⟨c, rest, htext, hstart, hrest⟩ := h
    refine .of_forall htext fun d hd => Lexeme.isBlank_of_isWordChar ?_
    rcases List.mem_cons.mp hd with rfl | hd
    · simp [Lexeme.isWordChar, hstart]
    · exact hrest d hd

namespace Lexer

/-- A backslash starts nothing on its own. -/
theorem scan_backslash_ne_ok (offset : Nat) (tokens : List Spanned) :
    scan offset ['\\'] ≠ .ok tokens := by
  intro h
  have hnone : Lexeme.longest ['\\'] Lexeme.all = none := by decide +kernel
  unfold scan at h
  split at h
  · simp at h
  · next hlongest => simp [hnone] at hlongest

/-- A lexeme with tokens behind it is trimmed, if it is a token. -/
theorem isTrimmed_of_scan {offset : Nat} {cs : List Char} {lexeme : Lexeme} {token : Token}
    {rest : List Spanned} (hreach : 0 < lexeme.reach cs)
    (htoken : lexeme.token? (String.ofList (cs.take (lexeme.reach cs))) = some token)
    (hscan : scan offset (cs.drop (lexeme.reach cs)) = .ok rest) (hrest : rest ≠ []) :
    Text.IsTrimmed token.text := by
  have hspelled := Lexeme.wellSpelled_of_token? hreach htoken
  cases lexeme with
  | string =>
    obtain rfl := Option.some.inj htoken
    simp only [Lexeme.reach] at hreach ⊢
    split at hreach
    · next cs =>
      replace hscan : scan offset (cs.drop (Lexeme.stringRest cs)) = .ok rest := hscan
      rcases Lexeme.stringRest_cases cs with hend | hend | hlast
      · rw [hend] at hscan
        unfold scan at hscan
        exact absurd (Except.ok.inj hscan).symm hrest
      · rw [hend] at hscan
        exact absurd hscan (scan_backslash_ne_ok offset rest)
      · refine Text.isTrimmed_iff.mpr ⟨⟨'"', by simp [Token.text], by decide⟩, '"', ?_, by decide⟩
        simp [Token.text, List.getLast?_cons, hlast]
    · simp at hreach
  | gap => simp [Lexeme.token?] at htoken
  | comment => simp [Lexeme.token?] at htoken
  | _ =>
    obtain rfl := Option.some.inj htoken
    exact hspelled.isTrimmed (by simp)

/-- Every token with another one behind it is trimmed. -/
theorem scan_isTrimmed {offset : Nat} {cs : List Char} {tokens : List Spanned}
    (h : scan offset cs = .ok tokens) :
    ∀ item ∈ tokens.dropLast, Text.IsTrimmed item.token.text := by
  fun_induction scan offset cs generalizing tokens with
  | case1 =>
    obtain rfl := Except.ok.inj h
    simp
  | case2 => simp at h
  | case3 => simp at h
  | case4 offset c cs lexeme length hlongest text stop rest hrest htoken =>
    obtain rfl := Except.ok.inj h
    rename_i ih
    exact ih hrest
  | case5 offset c cs lexeme length hlongest text stop rest hrest token htoken =>
    obtain rfl := Except.ok.inj h
    rename_i ih
    obtain ⟨rfl, hpositive⟩ := Lexeme.of_longest_eq_some hlongest
    intro item hitem
    cases rest with
    | nil => simp at hitem
    | cons next rest =>
      rw [List.dropLast_cons_cons] at hitem
      rcases List.mem_cons.mp hitem with rfl | hitem
      · have hdrop : cs.drop (lexeme.reach (c :: cs) - 1) =
            (c :: cs).drop (lexeme.reach (c :: cs)) := by
          rw [List.drop_cons hpositive]
        rw [hdrop] at hrest
        exact isTrimmed_of_scan hpositive htoken hrest (by simp)
      · exact ih hrest item hitem

end Lexer

theorem tokenize_isTrimmed {source : String} {tokens : List Spanned}
    (h : tokenize source = .ok tokens) :
    ∀ item ∈ tokens.dropLast, Text.IsTrimmed item.token.text :=
  Lexer.scan_isTrimmed (Lexer.scan_of_tokenize_eq_ok h)

/-! ## Trimmed forms -/

theorem Ruby.isTrimmed_wrap {opening closing : String} (hopening : Text.IsTrimmed opening)
    (forms : List Form) (hclosing : Text.IsTrimmed closing) :
    Text.IsTrimmed (Ruby.wrap opening forms closing).render := by
  simpa [Ruby.wrap, Form.renderAll_append, String.append_assoc] using
    hopening.around (Form.renderAll forms) hclosing

theorem Ruby.isTrimmed_lambda (params : List String) (body : List Form) :
    Text.IsTrimmed (Ruby.lambda params body).render :=
  Ruby.isTrimmed_wrap (.around (by decide) _ (by decide)) body (by decide)

/-- A scope stands for something between brackets, whatever is in it. -/
theorem Form.isTrimmed_ofScope (delimiter : Delimiter) (forms : List Form) :
    Text.IsTrimmed (Form.ofScope delimiter forms).render := by
  have hrule := rule_ofScope delimiter forms
  generalize ofScope delimiter forms = form at hrule
  cases hrule with
  | receiver | methodRef | arrow | dispatch | block => exact Ruby.isTrimmed_lambda _ _
  | paren | bracket | shortMap | shortArray => exact Ruby.isTrimmed_wrap (by decide) _ (by decide)

theorem Ruby.isTrimmed_stepCall (step : Step) : Text.IsTrimmed (Ruby.stepCall step).render := by
  cases step <;> decide

/-- What is read from trimmed tokens is rendered trimmed. -/
theorem Tree.isTrimmed_form (tree : Tree) (h : ∀ token ∈ tree.tokens, Text.IsTrimmed token.text) :
    Text.IsTrimmed tree.form.render := by
  cases tree with
  | leaf token =>
    cases hstep : token.isStep with
    | true =>
      obtain ⟨step, rfl⟩ := Token.isStep_iff.mp hstep
      simpa [form, leafForm] using Ruby.isTrimmed_stepCall step
    | false =>
      rw [form, leafForm_eq_atom hstep, Form.render_atom]
      exact h token (by simp [tokens])
  | signed sign number =>
    rw [form, Form.render_atom]
    exact (h (.operator sign) (by simp [tokens])).append (h (.word number) (by simp [tokens]))
  | stepped element step =>
    have helement := element.isTrimmed_form fun token htoken => h token (by simp [tokens, htoken])
    simpa [form] using helement.append (Ruby.isTrimmed_stepCall step)
  | scope delimiter elements =>
    rw [form]
    exact Form.isTrimmed_ofScope delimiter _

/-- Trimmed forms are joined as they are. -/
theorem Ruby.join_eq {forms : List Form} (h : ∀ form ∈ forms, Text.IsTrimmed form.render) :
    Ruby.join forms = ", ".intercalate (forms.map Form.render) := by
  have htrim : (forms.map fun form => Text.trim form.render) = forms.map Form.render :=
    List.map_congr_left fun form hform => (h form hform).trim_eq_self
  rw [Ruby.join, htrim, List.filter_eq_self.mpr]
  intro text htext
  obtain ⟨form, hform, rfl⟩ := List.mem_map.mp htext
  simpa using (h form hform).ne_empty

end Desugar
