import Desugar.Proofs.Munch

/-!
# Tokens and the gaps between them

A source that has tokens is a gap, a token, a gap, a token and so on up to a last gap (`Laid`).  A
gap holds blanks, commas and whole comments, nothing else (`IsLayout`), and the text of a token is
what the source has at its span.  So the tokens of a source, written one after the other, are the
source without its gaps.

That a comment goes up to the end of its line is what taking the longest match gives; the other
facts only need that each lexeme is one.
-/

namespace Desugar

/-! ## Layout -/

/-- Behind a comment that is a longest match the line ends. -/
theorem Lexeme.IsLongest.ends_line {text rest : List Char}
    (h : Lexeme.comment.IsLongest (text ++ rest) text) : rest = [] ∨ rest.head? = some '\n' := by
  obtain ⟨body, rfl, hbody⟩ := Lexeme.mem_comment.mp h.mem
  cases rest with
  | nil => exact .inl rfl
  | cons c rest =>
    refine .inr (congrArg some ?_)
    by_contra hc
    refine h.concat_not_mem .comment (Lexeme.mem_comment.mpr ⟨body ++ [c], rfl, ?_⟩)
    exact List.forall_mem_append.mpr ⟨hbody, by simpa using hc⟩

/-- Blanks, commas and comments that go up to the end of their line.  `rest` is what stands behind
the text, since a comment at its end has to end the line there. -/
inductive IsLayout (rest : List Char) : List Char → Prop
  | nil : IsLayout rest []
  | blank {c : Char} {cs : List Char} (blank : Text.isBlank c = true) (more : IsLayout rest cs) :
      IsLayout rest (c :: cs)
  | comma {cs : List Char} (more : IsLayout rest cs) : IsLayout rest (',' :: cs)
  | comment {body cs : List Char} (line : '\n' ∉ body)
      (ends : cs ++ rest = [] ∨ (cs ++ rest).head? = some '\n') (more : IsLayout rest cs) :
      IsLayout rest ('#' :: (body ++ cs))

namespace IsLayout

variable {text rest : List Char}

theorem append {more : List Char} (h : IsLayout (more ++ rest) text) (hmore : IsLayout rest more) :
    IsLayout rest (text ++ more) := by
  induction h with
  | nil => exact hmore
  | blank blank _ ih => exact .blank blank ih
  | comma _ ih => exact .comma ih
  | @comment body cs line ends _ ih =>
    rw [List.cons_append, List.append_assoc]
    exact .comment line (by rwa [List.append_assoc]) ih

theorem of_isGap (h : ∀ c ∈ text, Lexeme.isGap c = true) : IsLayout rest text := by
  induction text with
  | nil => exact .nil
  | cons c text ih =>
    have hmore := ih fun d hd => h d (by simp [hd])
    have hc : Text.isBlank c = true ∨ c = ',' := by simpa [Lexeme.isGap] using h c (by simp)
    rcases hc with hblank | rfl
    · exact .blank hblank hmore
    · exact .comma hmore

/-- A comment that no longer one could replace goes up to the end of its line. -/
theorem of_comment (h : Lexeme.comment.IsLongest (text ++ rest) text) : IsLayout rest text := by
  obtain ⟨body, rfl, hbody⟩ := Lexeme.mem_comment.mp h.mem
  simpa using @comment rest body [] (fun hmem => hbody _ hmem rfl) h.ends_line nil

/-- A longest match that is no token is layout. -/
theorem of_isLongest {lexeme : Lexeme} (h : lexeme.IsLongest (text ++ rest) text)
    (htoken : lexeme.token? (String.ofList text) = none) : IsLayout rest text := by
  cases lexeme with
  | gap =>
    obtain ⟨c, tail, rfl, hgap⟩ := Lexeme.mem_gap.mp h.mem
    exact of_isGap hgap
  | comment => exact of_comment h
  | _ => simp [Lexeme.token?] at htoken

end IsLayout

/-! ## Gaps and tokens in turn -/

/-- Gaps and comments are no tokens. -/
theorem Lexeme.not_layout_of_token? {lexeme : Lexeme} {text : String} {token : Token}
    (h : lexeme.token? text = some token) : lexeme ≠ .gap ∧ lexeme ≠ .comment := by
  constructor <;> (rintro rfl; simp [token?] at h)

/-- The text of a lexeme that is a token is the text of the token. -/
theorem Lexeme.toList_text_of_token? {lexeme : Lexeme} {text : List Char} {token : Token}
    (hmem : text ∈ lexeme.pattern.language)
    (htoken : lexeme.token? (String.ofList text) = some token) : token.text.toList = text := by
  cases lexeme with
  | gap => simp [token?] at htoken
  | comment => simp [token?] at htoken
  | operator | string | methodRef | word =>
    obtain rfl := Option.some.inj htoken
    exact String.toList_ofList
  | opener | closer | arrow | step =>
    obtain rfl := Option.some.inj htoken
    exact (Pattern.mem_text.mp hmem).symm

/-- `Laid offset cs items`: the text `cs`, which stands at byte `offset`, is made of gaps and the
tokens `items` in turn. -/
inductive Laid : Nat → List Char → List Spanned → Prop
  | last {offset : Nat} {gap : List Char} (layout : IsLayout [] gap) : Laid offset gap []
  | token {offset : Nat} {gap rest : List Char} {token : Token} {items : List Spanned}
      (layout : IsLayout (token.text.toList ++ rest) gap) (nonempty : token.text.toList ≠ [])
      (more : Laid (offset + Text.size gap + Text.size token.text.toList) rest items) :
      Laid offset (gap ++ token.text.toList ++ rest)
        (⟨token, ⟨offset + Text.size gap, offset + Text.size gap + Text.size token.text.toList⟩⟩ ::
          items)

namespace Laid

variable {offset : Nat} {cs text : List Char} {items : List Spanned}

/-- More layout in front of a text is part of its first gap. -/
theorem behind (h : Laid (offset + Text.size text) cs items) (htext : IsLayout cs text) :
    Laid offset (text ++ cs) items := by
  generalize hstart : offset + Text.size text = start at h
  cases h with
  | last layout => exact .last (.append (by simpa using htext) layout)
  | @token _ gap rest token items layout nonempty more =>
    have hsize : start + Text.size gap = offset + Text.size (text ++ gap) := by
      rw [Text.size_append, ← hstart, Nat.add_assoc]
    rw [hsize] at more ⊢
    rw [List.append_assoc] at htext
    rw [← List.append_assoc, ← List.append_assoc]
    exact .token (htext.append layout) nonempty more

theorem of_munches {final : List Char} (h : Lexer.Munches offset cs items final)
    (hfinal : final = []) : Laid offset cs items := by
  induction h with
  | stop =>
    subst hfinal
    exact .last .nil
  | @take offset text rest final items lexeme longest more ih =>
    have hrest := ih hfinal
    cases htoken : lexeme.token? (String.ofList text) with
    | none =>
      rw [Lexeme.spanned?, htoken]
      exact hrest.behind (.of_isLongest longest htoken)
    | some token =>
      obtain rfl := Lexeme.toList_text_of_token? longest.mem htoken
      rw [Lexeme.spanned?, htoken]
      exact @Laid.token offset [] rest token items .nil longest.nonempty hrest

end Laid

/-! ## What stands at a span -/

/-- `span.Covers source text back`: the characters of `source` at `span` are `text`, and `back`
stands behind them. -/
def Span.Covers (span : Span) (source text back : List Char) : Prop :=
  ∃ front, source = front ++ text ++ back ∧
    span = ⟨Text.size front, Text.size front + Text.size text⟩

namespace Span.Covers

variable {span : Span} {source : String} {text back : List Char}

theorem start_lt_stop (h : span.Covers source.toList text back) (htext : text ≠ []) :
    span.start < span.stop := by
  obtain ⟨front, -, rfl⟩ := h
  have hpositive := Text.size_pos htext
  simp only
  omega

theorem stop_le (h : span.Covers source.toList text back) : span.stop ≤ source.utf8ByteSize := by
  obtain ⟨front, hsource, rfl⟩ := h
  rw [← Text.size_toList, hsource, Text.size_append, Text.size_append]
  exact Nat.le_add_right _ _

/-- What a text starts with ends at a boundary between characters. -/
theorem isValid_size {front back : List Char} (h : source.toList = front ++ back) :
    String.Pos.Raw.IsValid source ⟨Text.size front⟩ := by
  refine String.Pos.Raw.isValid_iff_exists_append.mpr
    ⟨String.ofList front, String.ofList back, ?_, rfl⟩
  rw [← String.ofList_append, ← h, String.ofList_toList]

theorem isValid_start (h : span.Covers source.toList text back) :
    String.Pos.Raw.IsValid source ⟨span.start⟩ := by
  obtain ⟨front, hsource, rfl⟩ := h
  exact isValid_size (by rw [hsource, List.append_assoc])

theorem isValid_stop (h : span.Covers source.toList text back) :
    String.Pos.Raw.IsValid source ⟨span.stop⟩ := by
  obtain ⟨front, hsource, rfl⟩ := h
  rw [← Text.size_append]
  exact isValid_size hsource

/-- The bytes at the span are those of the characters. -/
theorem extract_eq (h : span.Covers source.toList text back) :
    source.toByteArray.extract span.start span.stop = (String.ofList text).toByteArray := by
  obtain ⟨front, hsource, rfl⟩ := h
  have hbytes : source = String.ofList front ++ String.ofList text ++ String.ofList back := by
    rw [← String.ofList_append, ← String.ofList_append, ← hsource, String.ofList_toList]
  rw [hbytes, String.append_assoc, String.toByteArray_append, String.toByteArray_append]
  calc (_ ++ (_ ++ _) : ByteArray).extract (Text.size front + 0) (Text.size front + Text.size text)
      = ((String.ofList text).toByteArray ++ (String.ofList back).toByteArray).extract 0
          (Text.size text) := ByteArray.extract_append_size_add' (String.size_toByteArray).symm
    _ = (String.ofList text).toByteArray :=
      ByteArray.extract_append_eq_left (String.size_toByteArray).symm

end Span.Covers

/-! ## A text without some spans -/

/-- The spans between the tokens: from `start` up to the first of them, between two of them, and
behind the last up to `stop`. -/
def gaps (stop : Nat) : Nat → List Spanned → List Span
  | start, [] => [⟨start, stop⟩]
  | start, item :: items => ⟨start, item.span.start⟩ :: gaps stop item.span.stop items

/-- The offset is one of the bytes of the span. -/
def Span.contains (span : Span) (offset : Nat) : Bool :=
  span.start ≤ offset && offset < span.stop

/-- The characters that start in none of the spans; the first character is at byte `offset`. -/
def Text.without (spans : List Span) : Nat → List Char → List Char
  | _, [] => []
  | offset, c :: cs =>
    let others := without spans (offset + c.utf8Size) cs
    if spans.any (·.contains offset) then others else c :: others

namespace Text

variable {spans : List Span} {span : Span} {offset : Nat} {cs : List Char}

theorem without_append (spans : List Span) (offset : Nat) (front back : List Char) :
    without spans offset (front ++ back) =
      without spans offset front ++ without spans (offset + size front) back := by
  induction front generalizing offset with
  | nil => rfl
  | cons c front ih =>
    simp only [List.cons_append, without, size_cons, ih, Nat.add_assoc]
    split <;> rfl

/-- Characters inside one of the spans go. -/
theorem without_of_inside (hmem : span ∈ spans) (hstart : span.start ≤ offset)
    (hstop : offset + size cs ≤ span.stop) : without spans offset cs = [] := by
  induction cs generalizing offset with
  | nil => rfl
  | cons c cs ih =>
    have hc := c.utf8Size_pos
    rw [size_cons] at hstop
    have hinside : spans.any (·.contains offset) = true :=
      List.any_eq_true.mpr ⟨span, hmem, by simp [Span.contains]; omega⟩
    simp only [without, hinside, if_true]
    exact ih (by omega) (by omega)

/-- Characters outside of all the spans stay. -/
theorem without_of_outside
    (h : ∀ span ∈ spans, span.stop ≤ offset ∨ offset + size cs ≤ span.start) :
    without spans offset cs = cs := by
  induction cs generalizing offset with
  | nil => rfl
  | cons c cs ih =>
    have hc := c.utf8Size_pos
    simp only [size_cons] at h
    have houtside : spans.any (·.contains offset) = false := by
      refine List.any_eq_false.mpr fun span hmem hcontains => ?_
      have hside := h span hmem
      simp only [Span.contains, Bool.and_eq_true, decide_eq_true_eq] at hcontains
      omega
    have hothers : without spans (offset + c.utf8Size) cs = cs := by
      refine ih fun span hmem => ?_
      have hside := h span hmem
      omega
    simp only [without, houtside, hothers, Bool.false_eq_true, if_false]

/-- A span that ends in front of the characters has no part in them. -/
theorem without_cons_of_le (h : span.stop ≤ offset) :
    without (span :: spans) offset cs = without spans offset cs := by
  induction cs generalizing offset with
  | nil => rfl
  | cons c cs ih =>
    have hcontains : span.contains offset = false := by simp [Span.contains]; omega
    simp only [without, List.any_cons, hcontains, Bool.false_or, ih (Nat.le_add_right_of_le h)]

end Text

namespace Laid

variable {offset : Nat} {front cs : List Char} {items : List Spanned}

theorem le_start (h : Laid offset cs items) : ∀ item ∈ items, offset ≤ item.span.start := by
  induction h with
  | last => simp
  | token _ _ _ ih =>
    refine List.forall_mem_cons.mpr ⟨by simp only; omega, fun item hitem => ?_⟩
    have hle := ih item hitem
    omega

theorem pairwise (h : Laid offset cs items) :
    items.Pairwise fun item other => item.span.stop ≤ other.span.start := by
  induction h with
  | last => exact .nil
  | token _ _ more ih => exact .cons more.le_start ih

/-- The text of each token stands at its span. -/
theorem covers (h : Laid offset cs items) (hoffset : offset = Text.size front) :
    ∀ item ∈ items, item.token.text.toList ≠ [] ∧
      ∃ back, item.span.Covers (front ++ cs) item.token.text.toList back := by
  induction h generalizing front with
  | last => simp
  | @token offset gap rest token items layout nonempty more ih =>
    subst hoffset
    refine List.forall_mem_cons.mpr ⟨⟨nonempty, rest, front ++ gap, by simp, by simp⟩, ?_⟩
    have hmore := @ih (front ++ gap ++ token.text.toList)
      (by rw [Text.size_append, Text.size_append])
    simpa using hmore

/-- A gap between the tokens is one of layout. -/
theorem covers_gaps (h : Laid offset cs items) (hoffset : offset = Text.size front) :
    ∀ gap ∈ gaps (Text.size (front ++ cs)) offset items,
      ∃ text back, gap.Covers (front ++ cs) text back ∧ IsLayout back text := by
  induction h generalizing front with
  | @last offset gap layout =>
    subst hoffset
    simpa [gaps] using ⟨gap, [], ⟨front, by simp, rfl⟩, layout⟩
  | @token offset gap rest token items layout nonempty more ih =>
    subst hoffset
    have hmore := @ih (front ++ gap ++ token.text.toList)
      (by rw [Text.size_append, Text.size_append])
    refine List.forall_mem_cons.mpr ⟨⟨gap, _, ⟨front, by simp, rfl⟩, layout⟩, ?_⟩
    simpa using hmore

theorem le_start_gaps (h : Laid offset cs items) (stop : Nat) :
    ∀ gap ∈ gaps stop offset items, offset ≤ gap.start := by
  induction h with
  | last => simp [gaps]
  | token _ _ _ ih =>
    refine List.forall_mem_cons.mpr ⟨le_rfl, fun gap hgap => ?_⟩
    have hle := ih gap hgap
    omega

/-- Without the gaps the texts of the tokens are left. -/
theorem without_gaps {stop : Nat} (h : Laid offset cs items)
    (hstop : stop = offset + Text.size cs) :
    Text.without (gaps stop offset items) offset cs = items.flatMap (·.token.text.toList) := by
  induction h with
  | last =>
    subst hstop
    exact Text.without_of_inside (List.mem_singleton.mpr rfl) le_rfl le_rfl
  | @token offset gap rest token items layout nonempty more ih =>
    have hmore := ih (by simp only [hstop, Text.size_append, Nat.add_assoc])
    -- The first gap ends where the token starts, and the other gaps start behind the token.
    have houtside : ∀ other ∈ (⟨offset, offset + Text.size gap⟩ : Span) :: gaps stop
        (offset + Text.size gap + Text.size token.text.toList) items,
        other.stop ≤ offset + Text.size gap ∨
          offset + Text.size gap + Text.size token.text.toList ≤ other.start :=
      List.forall_mem_cons.mpr
        ⟨.inl le_rfl, fun other hother => .inr (more.le_start_gaps stop other hother)⟩
    rw [gaps, Text.without_append, Text.without_append, Text.size_append, ← Nat.add_assoc,
      Text.without_of_outside houtside, Text.without_of_inside List.mem_cons_self le_rfl le_rfl,
      Text.without_cons_of_le (Nat.le_add_right _ _), hmore]
    rfl

end Laid

/-- The text of each token is what the source has at its span, the spans follow each other, what is
between them is layout, and the tokens written one after the other are the source without these
gaps. -/
theorem tokenize_lossless {source : String} {tokens : List Spanned}
    (h : tokenize source = .ok tokens) :
    (∀ item ∈ tokens, item.span.start < item.span.stop ∧ item.span.stop ≤ source.utf8ByteSize ∧
      String.Pos.Raw.IsValid source ⟨item.span.start⟩ ∧
      String.Pos.Raw.IsValid source ⟨item.span.stop⟩ ∧
      source.toByteArray.extract item.span.start item.span.stop = item.token.text.toByteArray) ∧
    tokens.Pairwise (fun item other => item.span.stop ≤ other.span.start) ∧
    (∀ gap ∈ gaps source.utf8ByteSize 0 tokens,
      ∃ text back, gap.Covers source.toList text back ∧ IsLayout back text) ∧
    Token.detokenize (tokens.map (·.token)) =
      String.ofList (Text.without (gaps source.utf8ByteSize 0 tokens) 0 source.toList) := by
  have hlaid := Laid.of_munches (Lexer.munches_of_tokenize_eq_ok h) rfl
  have hcovers := @Laid.covers 0 [] source.toList tokens hlaid rfl
  have hgaps := @Laid.covers_gaps 0 [] source.toList tokens hlaid rfl
  have hwithout := hlaid.without_gaps (Nat.zero_add _).symm
  rw [List.nil_append, Text.size_toList] at hgaps
  rw [Text.size_toList] at hwithout
  refine ⟨fun item hitem => ?_, hlaid.pairwise, hgaps, ?_⟩
  · obtain ⟨hnonempty, back, hcover⟩ := hcovers item hitem
    refine ⟨hcover.start_lt_stop hnonempty, hcover.stop_le, hcover.isValid_start,
      hcover.isValid_stop, ?_⟩
    rw [hcover.extract_eq, String.ofList_toList]
  · apply String.toList_inj.mp
    rw [hwithout, Token.detokenize, String.toList_join, String.toList_ofList, List.map_map,
      List.flatMap_map]
    rfl

/-- A no-break space, a comment with a comma and a bracket in it, a string with a number sign, and a
comment that ends the source. -/
theorem tokenize_lossless_comments :
    tokenize "\u00a0k,# é, [\n\"#é\"++#" = .ok
        [⟨.word "k", ⟨2, 3⟩⟩, ⟨.string "\"#é\"", ⟨12, 17⟩⟩, ⟨.step .increment, ⟨17, 19⟩⟩] ∧
      "\u00a0k,# é, [\n\"#é\"++#".toByteArray.extract 12 17 = "\"#é\"".toByteArray ∧
      (∀ gap ∈ [(⟨0, 2⟩ : Span), ⟨3, 12⟩, ⟨17, 17⟩, ⟨19, 20⟩], ∃ text back,
        gap.Covers "\u00a0k,# é, [\n\"#é\"++#".toList text back ∧ IsLayout back text) ∧
      "k\"#é\"++" = String.ofList (Text.without [(⟨0, 2⟩ : Span), ⟨3, 12⟩, ⟨17, 17⟩, ⟨19, 20⟩] 0
        "\u00a0k,# é, [\n\"#é\"++#".toList) := by
  have htokens : tokenize "\u00a0k,# é, [\n\"#é\"++#" = .ok
      [⟨.word "k", ⟨2, 3⟩⟩, ⟨.string "\"#é\"", ⟨12, 17⟩⟩, ⟨.step .increment, ⟨17, 19⟩⟩] :=
    eq_ok_of_toOption_eq_some (by decide +kernel)
  obtain ⟨hspans, -, hgaps, hdetokenize⟩ := tokenize_lossless htokens
  obtain ⟨-, -, -, -, hextract⟩ := hspans ⟨.string "\"#é\"", ⟨12, 17⟩⟩ (by simp)
  exact ⟨htokens, hextract, hgaps, hdetokenize⟩

end Desugar
