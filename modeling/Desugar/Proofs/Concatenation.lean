import Desugar.Proofs.Locality
import Desugar.Proofs.Respacing
import Desugar.Proofs.Respanning

/-!
# Sources one below the other

A source with another one on the lines below it is desugared to the texts of the two, one after the
other (`desugar_append_line`).  The first source may end in a comment, and the second may start with a
step operator, which then finds something to step that it did not have on its own.

## Shape of the argument

* No token goes over the end of a line but a string that is not closed, and a comment ends there too.
  So both sources have the tokens that they have alone (`Lexer.Munches.append_line`).  A gap does go
  over the end of a line, and those on the two sides of it are one (`Lexer.Munches.behind_gap`).
* The tokens of the second source are moved as a whole, so the same numbers touch their signs
  (`respanned_shift`), and the parser gives the same for them.
* A step operator adds its call to the text of what stands before it, no matter whether it has
  something to step (`Body.exists_step`).  That is why the trees of the two sources, which are not
  always those of the whole, still have the same text (`Body.append`).
* Where the second source starts nothing is unclosed, so what nests deep enough alone does so behind
  the first (`Parser.text_append`).
-/

namespace Desugar

open Brackets

/-! ## Moving tokens -/

/-- The token further on by a number of bytes. -/
def Spanned.shift (distance : Nat) (item : Spanned) : Spanned :=
  { item with span := ⟨distance + item.span.start, distance + item.span.stop⟩ }

/-- Tokens that are moved as a whole touch the same tokens as before. -/
theorem respanned_shift (distance : Nat) (tokens : List Spanned) :
    Respanned tokens (tokens.map (Spanned.shift distance)) := by
  refine ⟨by simp [Spanned.shift], ?_⟩
  intro index sign number sign' number' hsign hnumber hsign' hnumber' _ _
  obtain rfl : sign.shift distance = sign' := by simpa [hsign] using hsign'
  obtain rfl : number.shift distance = number' := by simpa [hnumber] using hnumber'
  simp [Spanned.shift]

theorem Lexeme.spanned?_add (lexeme : Lexeme) (distance offset : Nat) (text : List Char) :
    lexeme.spanned? (distance + offset) text =
      (lexeme.spanned? offset text).map (Spanned.shift distance) := by
  simp [spanned?, Spanned.shift, Function.comp_def, Nat.add_assoc]

/-- A text has the same tokens wherever it stands. -/
theorem Lexer.Munches.shift {offset : Nat} {cs final : List Char} {items : List Spanned}
    (h : Lexer.Munches offset cs items final) (distance : Nat) :
    Lexer.Munches (distance + offset) cs (items.map (Spanned.shift distance)) final := by
  induction h with
  | stop => exact .stop
  | take longest _ ih =>
    rw [List.map_append, ← Option.toList_map, ← Lexeme.spanned?_add]
    exact .take longest (by rwa [Nat.add_assoc])

/-! ## Munching over the end of a line -/

/-- Nothing but a gap and a string that is not closed can go on over the end of a line. -/
theorem Lexeme.IsLongest.append_line {lexeme : Lexeme} {text rest : List Char}
    (h : lexeme.IsLongest (text ++ rest) text) (hgap : lexeme ≠ .gap)
    (hclosed : text ∉ openString.language) (back : List Char) :
    lexeme.IsLongest (text ++ (rest ++ '\n' :: back)) text := by
  by_cases hcomment : lexeme = .comment
  · subst hcomment
    have hline : (rest ++ '\n' :: back).head? = some '\n' := by
      rcases h.ends_line with rfl | hhead
      · rfl
      · rw [List.head?_append, hhead, Option.some_or]
    obtain ⟨body, rfl, hbody⟩ := mem_comment.mp h.mem
    exact isLongest_comment (fun hmem => hbody _ hmem rfl) (.inr hline)
  · have hnewline : startsLayout '\n' = true := by decide
    have htrails : Trails rest (rest ++ '\n' :: back) :=
      ⟨rest, '\n' :: back, rfl, List.prefix_rfl, by simpa using hnewline⟩
    exact h.respace hgap hcomment htrails fun _ => hclosed

namespace Lexer.Munches

variable {offset : Nat} {front back run final : List Char} {items others : List Spanned}

/-- Blanks and commas in front of a text are skipped, together with those that the text starts with. -/
theorem behind_gap (h : Munches (offset + Text.size run) back items [])
    (hrun : ∀ c ∈ run, Lexeme.isGap c = true) : Munches offset (run ++ back) items [] := by
  by_cases hne : run = []
  · simpa [hne] using h
  -- where the text starts with no gap, the run is a lexeme of its own
  have hapart : (∀ c ∈ back.head?, Lexeme.isGap c = false) → Munches offset (run ++ back) items [] :=
    fun hhead => .take (Lexeme.isLongest_gap hrun hne hhead) h
  generalize hstart : offset + Text.size run = start, hfinal : ([] : List Char) = final at h
  cases h with
  | stop =>
    subst hfinal
    exact hapart (by simp)
  | @take _ text rest _ items lexeme longest more =>
    subst hfinal hstart
    by_cases hgap : lexeme = .gap
    · subst hgap
      obtain ⟨c, tail, rfl, htext⟩ := Lexeme.mem_gap.mp longest.mem
      have hlonger : Lexeme.gap.IsLongest (run ++ c :: tail ++ rest) (run ++ c :: tail) :=
        Lexeme.isLongest_gap (List.forall_mem_append.mpr ⟨hrun, htext⟩) (by simp) longest.isGap_rest
      rw [← List.append_assoc]
      refine .take hlonger ?_
      rwa [Text.size_append, ← Nat.add_assoc]
    · exact hapart (longest.isGap_head hgap rest)

/-- The tokens of a text are the same with a line end and another text behind it, whose tokens
follow. -/
theorem append_line (h : Munches offset front items final) (hfinal : final = [])
    (hlast : ∀ item ∈ items.getLast?, ¬ item.token.IsOpenString)
    (hback : Munches (offset + Text.size front + 1) back others []) :
    Munches offset (front ++ '\n' :: back) (items ++ others) [] := by
  induction h with
  | @stop offset final =>
    subst hfinal
    have hline : Munches (offset + Text.size ['\n']) back others [] := hback
    exact hline.behind_gap (List.forall_mem_singleton.mpr (by decide))
  | @take offset text rest final items lexeme longest more ih =>
    subst hfinal
    have hrest : Munches (offset + Text.size text) (rest ++ '\n' :: back) (items ++ others) [] := by
      refine ih rfl (fun item hitem => hlast item ?_) ?_
      · rw [List.getLast?_append, Option.mem_def.mp hitem]
        rfl
      · rwa [Text.size_append, ← Nat.add_assoc] at hback
    rw [List.append_assoc, List.append_assoc]
    by_cases hgap : lexeme = .gap
    · -- at the end of the first text the gap goes on over the end of the line
      subst hgap
      obtain ⟨c, tail, rfl, hrun⟩ := Lexeme.mem_gap.mp longest.mem
      exact hrest.behind_gap hrun
    · have hclosed : text ∉ Lexeme.openString.language := by
        intro hopen
        by_cases hempty : rest = []
        · -- the string would be the last token
          subst hempty
          obtain rfl := more.eq_nil
          obtain rfl := Lexeme.eq_string_of_mem_openString hopen longest.mem
          refine hlast ⟨.string (String.ofList text), _⟩ rfl ?_
          simpa [Token.IsOpenString] using hopen
        · exact longest.not_open_of_munches more hempty hopen
      exact .take (longest.append_line hgap hclosed back) hrest

end Lexer.Munches

/-! ## Bodies one after the other -/

namespace Body

variable {literal : Bool} {tokens front back : List Spanned} {trees before after : List Tree}

/-- Behind anything a step operator adds its call to the text, whether or not there is something to
step. -/
theorem exists_step {item : Spanned} {step : Step} (h : Body literal tokens trees)
    (hitem : item.token = .step step) :
    ∃ trees', Body literal (tokens ++ [item]) trees' ∧
      Form.renderAll (Tree.forms trees') =
        Form.renderAll (Tree.forms trees) ++ (Ruby.stepCall step).render := by
  by_cases hsteps : ∀ other ∈ tokens, other.token.isStep = true
  · refine ⟨_, .lone h hitem hsteps, ?_⟩
    rw [Tree.renderAll_forms_append]
    simp [Tree.forms, Tree.form, hitem, Tree.leafForm]
  · obtain ⟨other, hmem, hother⟩ : ∃ other ∈ tokens, other.token.isStep = false := by
      simpa using hsteps
    rcases List.eq_nil_or_concat' trees with rfl | ⟨others, last, rfl⟩
    · exact absurd rfl (h.trees_ne_nil (List.ne_nil_of_mem hmem))
    · refine ⟨_, .stepped h hitem ⟨other, hmem, hother⟩, ?_⟩
      rw [Tree.renderAll_forms_append, Tree.renderAll_forms_append]
      simp [Tree.forms, Tree.form, String.append_assoc]

/-- Two bodies one after the other are a body with the text of both. -/
theorem append (hfront : Body false front before) (hback : Body literal back after)
    (hliteral : literal = false) :
    ∃ trees, Body false (front ++ back) trees ∧
      Form.renderAll (Tree.forms trees) =
        Form.renderAll (Tree.forms before) ++ Form.renderAll (Tree.forms after) := by
  -- behind the first body only the step operators of the second can be read in another way
  induction hback with
  | nil => exact ⟨before, by simpa using hfront, by simp [Tree.forms]⟩
  | leaf _ plain apart ih =>
    obtain ⟨trees, hbody, htext⟩ := ih hliteral
    refine ⟨_, by simpa using Body.leaf hbody plain (by simp), ?_⟩
    rw [Tree.renderAll_forms_append, htext, Tree.renderAll_forms_append, String.append_assoc]
  | lone _ token _ ih =>
    obtain ⟨trees, hbody, htext⟩ := ih hliteral
    obtain ⟨trees', hbody', htext'⟩ := hbody.exists_step token
    refine ⟨trees', by simpa using hbody', ?_⟩
    rw [htext', htext, Tree.renderAll_forms_append, String.append_assoc]
    simp [Tree.forms, Tree.form, token, Tree.leafForm]
  | stepped _ token _ ih =>
    obtain ⟨trees, hbody, htext⟩ := ih hliteral
    obtain ⟨trees', hbody', htext'⟩ := hbody.exists_step token
    refine ⟨trees', by simpa using hbody', ?_⟩
    rw [htext', htext, Tree.renderAll_forms_append, Tree.renderAll_forms_append]
    simp [Tree.forms, Tree.form, String.append_assoc]
  | signed => simp at hliteral
  | scope _ body opens closes pairs ih _ =>
    obtain ⟨trees, hbody, htext⟩ := ih hliteral
    refine ⟨_, by simpa using Body.scope hbody body opens closes pairs, ?_⟩
    rw [Tree.renderAll_forms_append, htext, Tree.renderAll_forms_append, String.append_assoc]

end Body

namespace Parser

variable {limit : Nat} {tokens others front back : List Spanned} {text frontText backText : String}

/-- Tokens that are accepted have the same text at other places. -/
theorem text_respanned (h : Respanned tokens others) (htext : Parser.text limit tokens = .ok text) :
    Parser.text limit others = .ok text := by
  obtain ⟨trees, hdocument, rfl⟩ := exists_of_map_ok htext
  obtain ⟨hagree, -⟩ := Call.document.respanned h (session_start tokens limit)
    (session_start others limit) rfl rfl
  have hdocument' : (Parser.start others limit).document.1 = .ok trees := hagree.eq_ok hdocument
  rw [Parser.text, hdocument']
  rfl

/-- What is accepted alone is accepted behind other tokens that are, and the texts follow each other. -/
theorem text_append (hfront : Parser.text limit front = .ok frontText)
    (hback : Parser.text limit back = .ok backText) :
    Parser.text limit (front ++ back) = .ok (frontText ++ backText) := by
  obtain ⟨before, hbefore, rfl⟩ := exists_of_map_ok hfront
  obtain ⟨after, hafter, rfl⟩ := exists_of_map_ok hback
  have hbalanced := (body_of_document_eq_ok hbefore).balanced
  obtain ⟨trees, hbody, htext⟩ :=
    (body_of_document_eq_ok hbefore).append (body_of_document_eq_ok hafter) rfl
  rcases document_cases hbody limit with hdocument | ⟨_, deep, -, -, hdeep, hlimit⟩
  · rw [Parser.text, hdocument, ← htext]
    rfl
  · -- a part that nests too deep would do so in one of the two
    exfalso
    rcases prefix_append_split hdeep with hshort | ⟨extra, hextra, rfl⟩
    · have hle := length_unclosed_le hbefore hshort
      omega
    · have hle := length_unclosed_le hafter hextra
      have hseam : unclosed (front ++ extra) = unclosed extra := by
        rw [unclosed, List.foldl_append]
        exact congrArg (extra.foldl track) hbalanced.unclosed_eq_nil
      rw [hseam] at hlimit
      omega

end Parser

/-! ## Whole sources -/

/-- What a source is desugared to is the text of its tokens. -/
theorem desugar_eq_ok_iff {source text : String} {limit : Nat} :
    desugar source limit = .ok text ↔
      ∃ tokens, tokenize source = .ok tokens ∧ Parser.text limit tokens = .ok text := by
  constructor
  · intro h
    obtain ⟨tokens, trees, htokens, hdocument, rfl⟩ := exists_trees_of_desugar_eq_ok h
    refine ⟨tokens, htokens, ?_⟩
    rw [Parser.text, hdocument]
    rfl
  · rintro ⟨tokens, htokens, htext⟩
    obtain ⟨trees, hdocument, rfl⟩ := exists_of_map_ok htext
    simp [desugar, htokens, hdocument, bind, Except.bind, Except.mapError, pure, Except.pure]

/-- A source with another one below it is desugared to the texts of the two, one after the other,
unless the first ends in a string that nothing closes. -/
theorem desugar_append_line {front back frontText backText : String} {limit : Nat}
    {tokens : List Spanned} (hfront : desugar front limit = .ok frontText)
    (hback : desugar back limit = .ok backText) (htokens : tokenize front = .ok tokens)
    (hlast : ∀ item ∈ tokens.getLast?, ¬ item.token.IsOpenString) :
    desugar (front ++ "\n" ++ back) limit = .ok (frontText ++ backText) := by
  obtain ⟨tokens', htokens', htext⟩ := desugar_eq_ok_iff.mp hfront
  obtain rfl := Except.ok.inj (htokens.symm.trans htokens')
  obtain ⟨others, hothers, htext'⟩ := desugar_eq_ok_iff.mp hback
  have hmoved := (Lexer.munches_of_tokenize_eq_ok hothers).shift (Text.size front.toList + 1)
  have hwhole := (Lexer.munches_of_tokenize_eq_ok htokens).append_line rfl hlast
    (by simpa using hmoved)
  refine desugar_eq_ok_iff.mpr ⟨_, Lexer.Munches.tokenize_eq_ok (by simpa using hwhole), ?_⟩
  exact Parser.text_append htext (Parser.text_respanned (respanned_shift _ _) htext')

/-- The tokens of `f [a] # (`. -/
def commentedLine : List Spanned :=
  [⟨.word "f", ⟨0, 1⟩⟩, ⟨.opener .bracket, ⟨2, 3⟩⟩, ⟨.word "a", ⟨3, 4⟩⟩, ⟨.closer .square, ⟨4, 5⟩⟩]

/-- The first source ends in a comment with a bracket in it, and the second starts with a step operator
that has nothing to step on its own. -/
theorem desugar_append_line_commentedLine :
    desugar "f [a] # (" 1 = .ok "f[a]" ∧ desugar "++, \\a[-1 2]" 1 = .ok ".succ[-1, 2]" ∧
      tokenize "f [a] # (" = .ok commentedLine ∧
      (∀ item ∈ commentedLine.getLast?, ¬ item.token.IsOpenString) ∧
      desugar ("f [a] # (" ++ "\n" ++ "++, \\a[-1 2]") 1 = .ok ("f[a]" ++ ".succ[-1, 2]") := by
  have hfront : desugar "f [a] # (" 1 = .ok "f[a]" := eq_ok_of_toOption_eq_some (by decide +kernel)
  have hback : desugar "++, \\a[-1 2]" 1 = .ok ".succ[-1, 2]" :=
    eq_ok_of_toOption_eq_some (by decide +kernel)
  have htokens : tokenize "f [a] # (" = .ok commentedLine :=
    eq_ok_of_toOption_eq_some (by decide +kernel)
  have hlast : ∀ item ∈ commentedLine.getLast?, ¬ item.token.IsOpenString := by
    simp [commentedLine, Token.IsOpenString]
  exact ⟨hfront, hback, htokens, hlast, desugar_append_line hfront hback htokens hlast⟩

end Desugar
