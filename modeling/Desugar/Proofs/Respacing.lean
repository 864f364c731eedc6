import Desugar.Proofs.Gaps

/-!
# Other layout between the same tokens

The tokens of a source can be written down again with other blanks, commas and comments between
them.  `Respaced` says which texts are allowed: tokens that stand apart in the source stand apart in
the text, tokens that touch may be moved apart, and nothing is written behind a string that nothing
closes.  Every such text has the same tokens (`tokenizePlain_respaced`).

## Why the longest match stays what it is

What stands behind a token in the new text is a part of what stood behind it before, followed by
nothing or by layout (`Lexeme.Trails`).  A longer match than the token would have to go over the
part that is the same, which the source rules out, and on into the layout.  No lexeme but a gap, a
comment or a string holds a character that layout starts with, and these three are told by their
first character; a string that is closed cannot go on (`Lexeme.IsLongest.respace`).
-/

namespace Desugar

/-- What two texts in a row start with ends in the first one or goes on into the second. -/
theorem prefix_append_cases {α : Type} {text front back : List α} (h : text <+: front ++ back) :
    text <+: front ∨ ∃ item extra, text = front ++ item :: extra ∧ back.head? = some item := by
  rcases prefix_append_split h with hshort | ⟨extra, hextra, rfl⟩
  · exact .inl hshort
  · cases extra with
    | nil => exact .inl (by simp)
    | cons item extra =>
      obtain ⟨rest, rfl⟩ := hextra
      exact .inr ⟨item, extra, rfl, rfl⟩

namespace Lexeme

variable {lexeme other : Lexeme} {text rest : List Char} {c : Char}

/-! ## Characters that layout starts with -/

/-- Layout starts with a blank, a comma or a comment. -/
def startsLayout (c : Char) : Bool :=
  isGap c || c = '#'

theorem startsLayout_of_isWordChar (h : isWordChar c = true) : startsLayout c = false := by
  have hblank : Text.isBlank c = false := isBlank_of_isWordChar h
  have hcomma : c ≠ ',' := by
    rintro rfl
    exact absurd h (by decide)
  have hmark : c ≠ '#' := by
    rintro rfl
    exact absurd h (by decide)
  simp [startsLayout, isGap, hblank, hcomma, hmark]

/-- A gap, a comment or a string is told by its first character. -/
theorem eq_of_head_eq (h : c :: text ∈ lexeme.pattern.language)
    (hother : c :: rest ∈ other.pattern.language)
    (hkind : other = .gap ∨ other = .comment ∨ other = .string) : lexeme = other := by
  have hclass : class? (c :: text) = some lexeme := class?_eq h
  rcases hkind with rfl | rfl | rfl
  · obtain ⟨d, tail, hcons, hgap⟩ := mem_gap.mp hother
    obtain ⟨rfl, rfl⟩ := List.cons.inj hcons
    rw [class?, if_pos (hgap c (by simp))] at hclass
    exact (Option.some.inj hclass).symm
  · obtain ⟨body, hcons, -⟩ := mem_comment.mp hother
    obtain ⟨rfl, -⟩ := List.cons.inj hcons
    exact (Option.some.inj hclass).symm
  · obtain ⟨body, hcons, -⟩ := mem_string.mp hother
    obtain ⟨rfl, -⟩ := List.cons.inj hcons
    exact (Option.some.inj hclass).symm

/-- The characters that brackets, steps, arrows and operators are written with. -/
def punctuation : List Char :=
  ['(', ')', '[', ']', '\x7b', '\x7d', '\\', '<', '>', '=', '~', '!', '+', '-', '*', '/', '^', '&',
   '|', '%']

/-- The characters that stand in tokens other than strings. -/
def isTokenChar (c : Char) : Bool :=
  isWordChar c || punctuation.contains c

theorem startsLayout_of_isTokenChar (h : isTokenChar c = true) : startsLayout c = false := by
  have hpunctuation : punctuation.all (fun c => !startsLayout c) = true := by decide
  rcases Bool.or_eq_true_iff.mp h with hword | hmem
  · exact startsLayout_of_isWordChar hword
  · simpa using List.all_eq_true.mp hpunctuation c (by simpa using hmem)

/-- No lexeme but a gap, a comment or a string holds other characters. -/
theorem isTokenChar_of_mem (h : text ∈ lexeme.pattern.language)
    (hkind : ¬ (lexeme = .gap ∨ lexeme = .comment ∨ lexeme = .string)) :
    ∀ c ∈ text, isTokenChar c = true := by
  have hword : ∀ {c : Char}, isWordChar c = true → isTokenChar c = true := by
    intro c hc
    simp [isTokenChar, hc]
  cases lexeme with
  | gap => simp at hkind
  | comment => simp at hkind
  | string => simp at hkind
  | opener delimiter =>
    obtain rfl := Pattern.mem_text.mp h
    cases delimiter <;> exact List.all_eq_true.mp (by decide)
  | closer bracket =>
    obtain rfl := Pattern.mem_text.mp h
    cases bracket <;> exact List.all_eq_true.mp (by decide)
  | arrow =>
    obtain rfl := Pattern.mem_text.mp h
    exact List.all_eq_true.mp (by decide)
  | step direction =>
    obtain rfl := Pattern.mem_text.mp h
    cases direction <;> exact List.all_eq_true.mp (by decide)
  | operator =>
    obtain ⟨spelling, hspelling, rfl⟩ := mem_operator.mp h
    have hspellings : ∀ spelling ∈ operators, spelling.toList.all isTokenChar = true := by decide
    exact List.all_eq_true.mp (hspellings spelling hspelling)
  | methodRef =>
    obtain ⟨c, name, rfl, hname⟩ := mem_methodRef.mp h
    refine List.forall_mem_cons.mpr ⟨by decide, List.forall_mem_cons.mpr ⟨by decide, ?_⟩⟩
    intro d hd
    exact hword (isWordChar_of_isMethodChar (hname d hd))
  | word =>
    obtain ⟨c, tail, rfl, hc, htail⟩ := mem_word.mp h
    refine List.forall_mem_cons.mpr ⟨hword (by simp [isWordChar, hc]), ?_⟩
    intro d hd
    exact hword (htail d hd)

/-! ## Longest matches with other layout behind them -/

/-- `Trails rest other`: the text `other` is a part that `rest` starts with, and behind it nothing or
layout. -/
def Trails (rest other : List Char) : Prop :=
  ∃ kept new, other = kept ++ new ∧ kept <+: rest ∧ ∀ c ∈ new.head?, startsLayout c = true

theorem Trails.nil (rest : List Char) : Trails rest [] :=
  ⟨[], [], rfl, List.nil_prefix, by simp⟩

theorem Trails.of_layout {behind : List Char} (h : ∀ c ∈ behind.head?, startsLayout c = true)
    (rest : List Char) : Trails rest behind :=
  ⟨[], behind, rfl, List.nil_prefix, h⟩

theorem Trails.append {behind : List Char} (h : Trails rest behind) (front : List Char) :
    Trails (front ++ rest) (front ++ behind) := by
  obtain ⟨kept, new, rfl, hkept, hnew⟩ := h
  refine ⟨front ++ kept, new, by simp, ?_, hnew⟩
  exact (List.prefix_append_right_inj front).mpr hkept

/-- The longest match at a token is the same whatever layout follows, unless the token is a string
that nothing closes. -/
theorem IsLongest.respace {behind : List Char} (h : lexeme.IsLongest (text ++ rest) text)
    (hgap : lexeme ≠ .gap) (hcomment : lexeme ≠ .comment) (htrails : Trails rest behind)
    (hclosed : behind ≠ [] → text ∉ openString.language) :
    lexeme.IsLongest (text ++ behind) text := by
  obtain ⟨kept, new, rfl, hkept, hnew⟩ := htrails
  refine ⟨List.prefix_append _ _, h.nonempty, h.mem, fun other longer hstarts hmem => ?_, h.unique⟩
  rw [← List.append_assoc] at hstarts
  rcases prefix_append_cases hstarts with hsame | ⟨d, into, rfl, hd⟩
  · -- the match ends in the part that is the same, so the source has it too
    refine h.longest other longer (hsame.trans ?_) hmem
    exact (List.prefix_append_right_inj text).mpr hkept
  · -- the match goes on into the layout
    exfalso
    have hlayout : startsLayout d = true := hnew d hd
    by_cases hkind : other = .gap ∨ other = .comment ∨ other = .string
    · obtain ⟨c, tail, rfl⟩ := List.exists_cons_of_ne_nil h.nonempty
      obtain rfl := eq_of_head_eq h.mem hmem hkind
      obtain rfl : lexeme = .string := by simpa [hgap, hcomment] using hkind
      have hbehind : kept ++ new ≠ [] := by
        rintro hnil
        simp [(List.append_eq_nil_iff.mp hnil).2] at hd
      rcases openString_or_closed h.mem with hopen | ⟨front, hfront, hquote⟩
      · exact hclosed hbehind hopen
      · have hlonger : front ++ '"' :: (kept ++ d :: into) ∈ string.pattern.language := by
          rw [hquote] at hmem
          simpa using hmem
        simpa using eq_nil_of_closed_append hfront hlonger
    · rw [startsLayout_of_isTokenChar (isTokenChar_of_mem hmem hkind d (by simp))] at hlayout
      exact Bool.noConfusion hlayout

end Lexeme

/-! ## Tokens without their places -/

namespace Lexer

variable {lexeme : Lexeme} {text rest gap cs : List Char} {token : Token} {tokens : List Token}

/-- `Finds cs tokens`: wherever the text `cs` stands, munching it to its end finds these tokens. -/
def Finds (cs : List Char) (tokens : List Token) : Prop :=
  ∀ offset, ∃ items, Munches offset cs items [] ∧ items.map (·.token) = tokens

theorem Finds.nil : Finds [] [] :=
  fun _ => ⟨[], .stop, rfl⟩

theorem Finds.skip (h : lexeme.IsLongest (text ++ rest) text)
    (htoken : lexeme.token? (String.ofList text) = none) (hrest : Finds rest tokens) :
    Finds (text ++ rest) tokens := by
  intro offset
  obtain ⟨items, hmunches, hitems⟩ := hrest (offset + Text.size text)
  refine ⟨_, .take h hmunches, ?_⟩
  rw [Lexeme.spanned?, htoken]
  exact hitems

theorem Finds.take (h : lexeme.IsLongest (text ++ rest) text)
    (htoken : lexeme.token? (String.ofList text) = some token) (hrest : Finds rest tokens) :
    Finds (text ++ rest) (token :: tokens) := by
  intro offset
  obtain ⟨items, hmunches, hitems⟩ := hrest (offset + Text.size text)
  refine ⟨_, .take h hmunches, ?_⟩
  rw [Lexeme.spanned?, htoken, ← hitems]
  rfl

theorem Finds.tokenizePlain_eq (h : Finds cs tokens) :
    tokenizePlain (String.ofList cs) = .ok tokens := by
  obtain ⟨items, hmunches, rfl⟩ := h 0
  have hsource : Munches 0 (String.ofList cs).toList items [] := by
    rwa [String.toList_ofList]
  rw [tokenizePlain, hsource.tokenize_eq_ok]
  rfl

end Lexer

/-! ### Layout is skipped -/

namespace Lexeme

variable {run body rest : List Char}

/-- A run of blanks and commas is the longest match where no other one follows. -/
theorem isLongest_gap (hrun : ∀ c ∈ run, isGap c = true) (hne : run ≠ [])
    (hrest : ∀ c ∈ rest.head?, isGap c = false) : gap.IsLongest (run ++ rest) run := by
  obtain ⟨c, tail, rfl⟩ := List.exists_cons_of_ne_nil hne
  have hmem : c :: tail ∈ gap.pattern.language := mem_gap.mpr ⟨c, tail, rfl, hrun⟩
  refine ⟨List.prefix_append _ _, hne, hmem, fun other text hstarts htext => ?_,
    fun other hother => eq_of_mem_language hmem hother⟩
  have hwhile : ((c :: tail) ++ rest).takeWhile isGap = c :: tail := by
    rw [List.takeWhile_append_of_pos hrun]
    cases rest with
    | nil => simp
    | cons d rest => simp [hrest d (by simp)]
  cases text with
  | nil => simp
  | cons d text =>
    obtain ⟨rfl, -⟩ : d = c ∧ _ := by simpa using hstarts
    obtain rfl := eq_of_head_eq htext hmem (.inl rfl)
    obtain ⟨d, text, hcons, hgap⟩ := mem_gap.mp htext
    have hle := length_le_takeWhile hstarts (hcons ▸ hgap)
    rwa [hwhile] at hle

/-- A comment is the longest match up to the end of its line. -/
theorem isLongest_comment (hbody : '\n' ∉ body) (hrest : rest = [] ∨ rest.head? = some '\n') :
    comment.IsLongest ('#' :: body ++ rest) ('#' :: body) := by
  have hmem : '#' :: body ∈ comment.pattern.language :=
    mem_comment.mpr ⟨body, rfl, fun c hc hnewline => hbody (hnewline ▸ hc)⟩
  refine ⟨List.prefix_append _ _, by simp, hmem, fun other text hstarts htext => ?_,
    fun other hother => eq_of_mem_language hmem hother⟩
  cases text with
  | nil => simp
  | cons d text =>
    obtain ⟨rfl, htail⟩ : d = '#' ∧ text <+: body ++ rest := by simpa using hstarts
    obtain rfl := eq_of_head_eq htext hmem (.inr (.inl rfl))
    obtain ⟨line, hline, hnewline⟩ := mem_comment.mp htext
    obtain ⟨-, rfl⟩ := List.cons.inj hline
    rcases prefix_append_cases htail with hshort | ⟨c, extra, rfl, hc⟩
    · simpa using hshort.length_le
    · -- the line would go on behind its end
      have hline : c ≠ '\n' := hnewline c (by simp)
      rcases hrest with rfl | hrest
      · simp at hc
      · exact absurd (Option.some.inj (hc.symm.trans hrest)) hline

end Lexeme

/-- Layout in front of a text is skipped. -/
theorem IsLayout.finds {rest gap : List Char} {tokens : List Token} (h : IsLayout rest gap)
    (hhead : ∀ c ∈ rest.head?, Lexeme.isGap c = false) (hrest : Lexer.Finds rest tokens) :
    Lexer.Finds (gap ++ rest) tokens := by
  -- a run of blanks and commas is one match, so those in front are carried along
  suffices hrun : ∀ run, (∀ c ∈ run, Lexeme.isGap c = true) →
      Lexer.Finds (run ++ (gap ++ rest)) tokens from hrun [] (by simp)
  have hskip : ∀ {run behind : List Char}, (∀ c ∈ run, Lexeme.isGap c = true) →
      (∀ c ∈ behind.head?, Lexeme.isGap c = false) → Lexer.Finds behind tokens →
      Lexer.Finds (run ++ behind) tokens := by
    intro run behind hrun hbehind hfinds
    by_cases hne : run = []
    · rwa [hne]
    · exact .skip (Lexeme.isLongest_gap hrun hne hbehind) rfl hfinds
  induction h with
  | nil =>
    intro run hrun
    exact hskip hrun hhead hrest
  | @blank c cs blank _ ih =>
    intro run hrun
    have hmore := ih (run ++ [c]) (by simpa [or_imp, forall_and, Lexeme.isGap, blank] using hrun)
    simpa using hmore
  | @comma cs _ ih =>
    intro run hrun
    have hmore := ih (run ++ [',']) (by simpa [or_imp, forall_and, Lexeme.isGap] using hrun)
    simpa using hmore
  | @comment body cs line ends _ ih =>
    intro run hrun
    refine hskip hrun (by simp; decide) ?_
    have hcomment := Lexeme.isLongest_comment line ends
    have hfinds := Lexer.Finds.skip hcomment rfl (ih [] (by simp))
    simpa using hfinds

/-! ## Texts with the same tokens -/

/-- A string literal without a closing quote. -/
def Token.IsOpenString : Token → Prop
  | .string text => text.toList ∈ Lexeme.openString.language
  | _ => False

theorem Token.isOpenString_of_mem {lexeme : Lexeme} {text : List Char} {token : Token}
    (hmem : text ∈ lexeme.pattern.language)
    (htoken : lexeme.token? (String.ofList text) = some token)
    (hopen : text ∈ Lexeme.openString.language) : token.IsOpenString := by
  obtain rfl := Lexeme.eq_string_of_mem_openString hopen hmem
  obtain rfl := Option.some.inj htoken
  simpa [Token.IsOpenString] using hopen

/-- `Respaced items text`: the text is made of the tokens `items`, in their order, each with a gap of
layout behind it.  Where two tokens stand apart in the source of `items`, their gap is not empty, and
there is no gap behind a string that nothing closes. -/
inductive Respaced : List Spanned → List Char → Prop
  | nil : Respaced [] []
  | last {item : Spanned} {gap : List Char} (layout : IsLayout [] gap)
      (closed : item.token.IsOpenString → gap = []) :
      Respaced [item] (item.token.text.toList ++ gap)
  | cons {item next : Spanned} {items : List Spanned} {gap rest : List Char}
      (layout : IsLayout rest gap) (apart : item.span.stop < next.span.start → gap ≠ [])
      (more : Respaced (next :: items) rest) :
      Respaced (item :: next :: items) (item.token.text.toList ++ (gap ++ rest))

theorem IsLayout.startsLayout_head {rest gap : List Char} (h : IsLayout rest gap) (hne : gap ≠ []) :
    ∀ c ∈ (gap ++ rest).head?, Lexeme.startsLayout c = true := by
  cases h with
  | nil => exact absurd rfl hne
  | blank blank _ => simp [Lexeme.startsLayout, Lexeme.isGap, blank]
  | comma _ => simp [Lexeme.startsLayout, Lexeme.isGap]
  | comment _ _ _ => simp [Lexeme.startsLayout]

/-- A token starts with no character of a gap. -/
theorem Lexeme.IsLongest.isGap_head {lexeme : Lexeme} {cs text : List Char}
    (h : lexeme.IsLongest cs text) (hgap : lexeme ≠ .gap) (behind : List Char) :
    ∀ c ∈ (text ++ behind).head?, Lexeme.isGap c = false := by
  obtain ⟨c, tail, rfl⟩ := List.exists_cons_of_ne_nil h.nonempty
  intro d hd
  obtain rfl : c = d := by simpa using hd
  by_contra hc
  have hmem : [c] ∈ Lexeme.gap.pattern.language :=
    Lexeme.mem_gap.mpr ⟨c, [], rfl, by simpa using hc⟩
  exact hgap (Lexeme.eq_of_head_eq h.mem hmem (.inl rfl))

/-- A gap that is a longest match takes all that is in it. -/
theorem Lexeme.IsLongest.isGap_rest {text rest : List Char}
    (h : Lexeme.gap.IsLongest (text ++ rest) text) : ∀ c ∈ rest.head?, Lexeme.isGap c = false := by
  obtain ⟨c, tail, rfl, hgap⟩ := Lexeme.mem_gap.mp h.mem
  intro d hd
  obtain ⟨behind, rfl⟩ := List.head?_eq_some_iff.mp hd
  by_contra hblank
  refine h.concat_not_mem .gap (Lexeme.mem_gap.mpr ⟨c, tail ++ [d], rfl, ?_⟩)
  rw [← List.cons_append]
  exact List.forall_mem_append.mpr ⟨hgap, by simpa using hblank⟩

namespace Lexer

variable {offset : Nat} {cs text : List Char} {items : List Spanned}

/-- A text with the same tokens munches like the source, and from a token on that stands at the head
of the source it trails the source. -/
theorem Munches.respace {final : List Char} (h : Munches offset cs items final)
    (hfinal : final = []) (hrespaced : Respaced items text) :
    Finds text (items.map (·.token)) ∧ (∀ c ∈ text.head?, Lexeme.isGap c = false) ∧
      ((∀ item ∈ items.head?, item.span.start = offset) → Lexeme.Trails cs text) := by
  induction h generalizing text with
  | stop =>
    cases hrespaced with
    | nil => exact ⟨.nil, by simp, fun _ => .nil _⟩
  | @take offset chars rest final items lexeme longest more ih =>
    subst hfinal
    have hlaid := Laid.of_munches more rfl
    cases htoken : lexeme.token? (String.ofList chars) with
    | none =>
      rw [Lexeme.spanned?, htoken] at hrespaced ⊢
      obtain ⟨hfinds, hhead, -⟩ := ih rfl hrespaced
      refine ⟨hfinds, hhead, fun hstart => ?_⟩
      cases items with
      | nil =>
        cases hrespaced with
        | nil => exact .nil _
      | cons item items =>
        -- the first token stands behind the layout, so not at the head
        have hle := hlaid.le_start item (by simp)
        have hsize := Text.size_pos longest.nonempty
        have hzero : item.span.start = offset := hstart item (by simp)
        omega
    | some token =>
      have htext := Lexeme.toList_text_of_token? longest.mem htoken
      obtain ⟨hgap, hcomment⟩ := Lexeme.not_layout_of_token? htoken
      have hhead : ∀ behind : List Char, ∀ c ∈ (chars ++ behind).head?, Lexeme.isGap c = false :=
        fun behind => longest.isGap_head hgap behind
      rw [Lexeme.spanned?, htoken, Option.map_some, Option.toList_some, List.singleton_append]
        at hrespaced ⊢
      rw [List.map_cons]
      cases hrespaced with
      | @last _ gap layout closed =>
        have htrails : Lexeme.Trails rest gap := by
          by_cases hnil : gap = []
          · rw [hnil]
            exact .nil rest
          · exact .of_layout (by simpa using layout.startsLayout_head hnil) rest
        have hlongest : lexeme.IsLongest (chars ++ gap) chars :=
          longest.respace hgap hcomment htrails fun hnil hopen =>
            hnil (closed (Token.isOpenString_of_mem longest.mem htoken hopen))
        have hfinds := layout.finds (by simp) .nil
        rw [List.append_nil] at hfinds
        simp only [htext]
        exact ⟨.take hlongest htoken hfinds, hhead gap, fun _ => htrails.append chars⟩
      | @cons _ next items gap behind layout apart more' =>
        obtain ⟨hfinds, hgapless, hsame⟩ := ih rfl more'
        have htrails : Lexeme.Trails rest (gap ++ behind) := by
          by_cases hnil : gap = []
          · -- the tokens touch, in the source too
            have hstart := hlaid.le_start next (by simp)
            have htouch : ¬ offset + Text.size chars < next.span.start := fun hlt => apart hlt hnil
            rw [hnil, List.nil_append]
            refine hsame fun item hitem => ?_
            obtain rfl : next = item := by simpa using hitem
            omega
          · exact .of_layout (layout.startsLayout_head hnil) rest
        have hrest : rest ≠ [] := by
          rintro rfl
          simpa using more.eq_nil
        have hlongest : lexeme.IsLongest (chars ++ (gap ++ behind)) chars :=
          longest.respace hgap hcomment htrails fun _ => longest.not_open_of_munches more hrest
        simp only [htext]
        exact ⟨.take hlongest htoken (layout.finds hgapless hfinds), hhead _,
          fun _ => htrails.append chars⟩

end Lexer

/-- Single blanks between the tokens are layout that keeps them apart. -/
theorem respaced_intercalate (items : List Spanned) :
    Respaced items (" ".intercalate (items.map (·.token.text))).toList := by
  induction items with
  | nil => exact .nil
  | cons item items ih =>
    cases items with
    | nil => simpa using @Respaced.last item [] .nil fun _ => rfl
    | cons next items =>
      have hblank : IsLayout (" ".intercalate ((next :: items).map (·.token.text))).toList [' '] :=
        .blank (by decide) .nil
      have hrespaced := @Respaced.cons item next items [' '] _ hblank (by simp) ih
      simpa [String.intercalate_cons_cons] using hrespaced

/-- The tokens of a source do not hang on its layout.  A text that is written with the same tokens
and other layout between them has the same tokens, if tokens that stand apart still do and nothing
follows a string without a closing quote.  So has the text with single blanks between the tokens. -/
theorem tokenizePlain_respaced {source : String} {tokens : List Spanned}
    (h : tokenize source = .ok tokens) :
    (∀ gap rest, IsLayout rest gap → Respaced tokens rest →
      tokenizePlain (String.ofList (gap ++ rest)) = .ok (tokens.map (·.token))) ∧
    tokenizePlain (" ".intercalate (tokens.map (·.token.text))) = .ok (tokens.map (·.token)) := by
  have hmunches := Lexer.munches_of_tokenize_eq_ok h
  have hrespaced : ∀ gap rest, IsLayout rest gap → Respaced tokens rest →
      tokenizePlain (String.ofList (gap ++ rest)) = .ok (tokens.map (·.token)) := by
    intro gap rest hgap hrest
    obtain ⟨hfinds, hhead, -⟩ := hmunches.respace rfl hrest
    exact (hgap.finds hhead hfinds).tokenizePlain_eq
  refine ⟨hrespaced, ?_⟩
  have hblanks := hrespaced [] _ .nil (respaced_intercalate tokens)
  rwa [List.nil_append, String.ofList_toList] at hblanks

/-- Tokens that touch are moved apart or left as they are, a comment with a quote and a bracket comes
in front, and the last token is a string that nothing closes. -/
theorem tokenizePlain_respaced_openString :
    tokenize "a+b,&:m.x\"q\"#\n\"r" = .ok
        [⟨.word "a", ⟨0, 1⟩⟩, ⟨.operator "+", ⟨1, 2⟩⟩, ⟨.word "b", ⟨2, 3⟩⟩,
         ⟨.methodRef "&:m", ⟨4, 7⟩⟩, ⟨.word ".x", ⟨7, 9⟩⟩, ⟨.string "\"q\"", ⟨9, 12⟩⟩,
         ⟨.string "\"r", ⟨14, 16⟩⟩] ∧
      tokenizePlain "# \"(\na +b\u00a0&:m.x\"q\" \"r" = .ok
        [.word "a", .operator "+", .word "b", .methodRef "&:m", .word ".x", .string "\"q\"",
         .string "\"r"] := by
  have htokens : tokenize "a+b,&:m.x\"q\"#\n\"r" = .ok
      [⟨.word "a", ⟨0, 1⟩⟩, ⟨.operator "+", ⟨1, 2⟩⟩, ⟨.word "b", ⟨2, 3⟩⟩,
       ⟨.methodRef "&:m", ⟨4, 7⟩⟩, ⟨.word ".x", ⟨7, 9⟩⟩, ⟨.string "\"q\"", ⟨9, 12⟩⟩,
       ⟨.string "\"r", ⟨14, 16⟩⟩] :=
    eq_ok_of_toOption_eq_some (by decide +kernel)
  have hcomment : IsLayout "a +b\u00a0&:m.x\"q\" \"r".toList "# \"(\n".toList :=
    @IsLayout.comment _ " \"(".toList ['\n'] (by decide) (.inr rfl) (.blank (by decide) .nil)
  have hrespaced : Respaced
      [⟨.word "a", ⟨0, 1⟩⟩, ⟨.operator "+", ⟨1, 2⟩⟩, ⟨.word "b", ⟨2, 3⟩⟩,
       ⟨.methodRef "&:m", ⟨4, 7⟩⟩, ⟨.word ".x", ⟨7, 9⟩⟩, ⟨.string "\"q\"", ⟨9, 12⟩⟩,
       ⟨.string "\"r", ⟨14, 16⟩⟩] "a +b\u00a0&:m.x\"q\" \"r".toList :=
    @Respaced.cons _ _ _ [' '] _ (.blank (by decide) .nil) (by simp) <|
    @Respaced.cons _ _ _ [] _ .nil (by simp) <|
    @Respaced.cons _ _ _ ['\u00a0'] _ (.blank (by decide) .nil) (by simp) <|
    @Respaced.cons _ _ _ [] _ .nil (by simp) <|
    @Respaced.cons _ _ _ [] _ .nil (by simp) <|
    @Respaced.cons _ _ _ [' '] _ (.blank (by decide) .nil) (by simp) <|
    @Respaced.last _ [] .nil fun _ => rfl
  have hplain := (tokenizePlain_respaced htokens).1 _ _ hcomment hrespaced
  rw [← String.toList_append, String.ofList_toList] at hplain
  exact ⟨htokens, hplain⟩

end Desugar
