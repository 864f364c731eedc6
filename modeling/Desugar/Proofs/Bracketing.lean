import Desugar.Proofs.Munch
import Desugar.Proofs.ShortLiterals

/-!
# The output is well bracketed

A `Ruby.Reader` goes over Ruby text, skips what is in strings and keeps the brackets that are open.
`Ruby.wellBracketed` says that it finds every closer to match the innermost open bracket, and none
open at the end.

Most texts are `Ruby.Neutral`: the reader goes over them in code and comes out as it went in.
Words, operators and closed strings are; a scope is when its elements are, by cases on the rule that
it follows (`Body.neutral_ofScope`).  The one text that is not is a string that nothing closes.  The
lexer takes it up to the end of the source, so it is the last token, and no scope holds it.
-/

namespace Desugar

namespace Ruby

/-! ## Reading brackets -/

/-- Where a reader of Ruby text is: in code, in a string, or behind a backslash in a string. -/
inductive Mode where
  | code
  | string
  | escape
  deriving DecidableEq, Repr

/-- A reader of Ruby text, with the brackets that are open around it, the innermost first. -/
structure Reader where
  mode : Mode
  opened : List Bracket
  deriving DecidableEq, Repr

def opening? : Char → Option Bracket
  | '(' => some .round
  | '[' => some .square
  | '\x7b' => some .curly
  | _ => none

def closing? : Char → Option Bracket
  | ')' => some .round
  | ']' => some .square
  | '\x7d' => some .curly
  | _ => none

namespace Reader

/-- Closes the innermost bracket, which has to be of this kind. -/
def close (reader : Reader) (bracket : Bracket) : Option Reader :=
  match reader.opened with
  | innermost :: others =>
    if innermost = bracket then some { reader with opened := others } else none
  | [] => none

/-- The reader behind one more character. -/
def step (reader : Reader) (c : Char) : Option Reader :=
  match reader.mode with
  | .escape => some { reader with mode := .string }
  | .string =>
    some { reader with mode := if c = '"' then .code else if c = '\\' then .escape else .string }
  | .code =>
    if c = '"' then
      some { reader with mode := .string }
    else
      match opening? c, closing? c with
      | some bracket, _ => some { reader with opened := bracket :: reader.opened }
      | none, some bracket => reader.close bracket
      | none, none => some reader

/-- The reader behind a text, or `none` where a closer does not match. -/
def read (reader : Reader) (text : String) : Option Reader :=
  text.toList.foldlM step reader

variable {reader middle last : Reader} {front back : String}

theorem read_append (reader : Reader) (front back : String) :
    reader.read (front ++ back) = (reader.read front).bind (·.read back) := by
  simp only [read, String.toList_append, List.foldlM_append]
  rfl

theorem read_append_eq_some (hfront : reader.read front = some middle)
    (hback : middle.read back = some last) : reader.read (front ++ back) = some last := by
  rw [read_append, hfront]
  exact hback

end Reader

/-- Outside of strings each closing bracket matches the innermost open one, and none is left
open. -/
def wellBracketed (text : String) : Bool :=
  (Reader.read ⟨.code, []⟩ text).any (·.opened.isEmpty)

theorem wellBracketed_of_read {text : String} {mode : Mode}
    (h : Reader.read ⟨.code, []⟩ text = some ⟨mode, []⟩) : wellBracketed text = true := by
  rw [wellBracketed, h]
  rfl

/-! ## Texts that leave the brackets as they are -/

/-- Read as code, the text closes the brackets `before` and leaves the brackets `after` open in
their place. -/
def Shifts (before after : List Bracket) (text : String) : Prop :=
  ∀ opened, Reader.read ⟨.code, before ++ opened⟩ text = some ⟨.code, after ++ opened⟩

/-- Read as code, the text closes what it opens and nothing else. -/
def Neutral (text : String) : Prop :=
  Shifts [] [] text

section

variable {before middle after : List Bracket} {front back text opening closing : String}
  {bracket : Bracket}

theorem Shifts.append (hfront : Shifts before middle front) (hback : Shifts middle after back) :
    Shifts before after (front ++ back) := by
  intro opened
  exact Reader.read_append_eq_some (hfront opened) (hback opened)

namespace Neutral

theorem shifts (h : Neutral text) (brackets : List Bracket) : Shifts brackets brackets text :=
  fun opened => h (brackets ++ opened)

theorem append (hfront : Neutral front) (hback : Neutral back) : Neutral (front ++ back) :=
  Shifts.append hfront hback

/-- What stands behind a neutral text is neutral when the whole is. -/
theorem of_append (h : Neutral (front ++ back)) (hfront : Neutral front) : Neutral back := by
  intro opened
  have hwhole := h opened
  rwa [Reader.read_append, hfront opened] at hwhole

theorem between (h : Neutral text) (hopening : Shifts [] [bracket] opening)
    (hclosing : Shifts [bracket] [] closing) : Neutral (opening ++ text ++ closing) :=
  (hopening.append (h.shifts [bracket])).append hclosing

theorem intercalate {texts : List String} (h : ∀ text ∈ texts, Neutral text) :
    Neutral (", ".intercalate texts) := by
  induction texts with
  | nil => exact fun _ => rfl
  | cons text texts ih =>
    have htext := h text (by simp)
    have htexts := ih fun other hother => h other (by simp [hother])
    cases texts with
    | nil => simpa using htext
    | cons next texts =>
      have hcomma : Neutral ", " := fun _ => rfl
      rw [String.intercalate_cons_cons]
      exact (htext.append hcomma).append htexts

theorem renderAll {forms : List Form} (h : ∀ form ∈ forms, Neutral form.render) :
    Neutral (Form.renderAll forms) := by
  induction forms with
  | nil => exact fun _ => rfl
  | cons form forms ih =>
    rw [Form.renderAll_cons]
    exact (h form (by simp)).append (ih fun other hother => h other (by simp [hother]))

theorem renderAll_forms {trees : List Tree} (h : ∀ tree ∈ trees, Neutral tree.form.render) :
    Neutral (Form.renderAll (Tree.forms trees)) :=
  renderAll (by simpa [Tree.forms_eq_map] using h)

theorem wrap {forms : List Form} (h : Neutral (Form.renderAll forms))
    (hopening : Shifts [] [bracket] opening) (hclosing : Shifts [bracket] [] closing) :
    Neutral (Ruby.wrap opening forms closing).render := by
  simpa [Ruby.wrap, Form.renderAll_append, String.append_assoc] using h.between hopening hclosing

theorem lambda {params : List String} {body : List Form} (hparams : ∀ param ∈ params, Neutral param)
    (hbody : Neutral (Form.renderAll body)) : Neutral (Ruby.lambda params body).render := by
  have hopens : Shifts [] [.curly] "\x7b|" := fun _ => rfl
  have hbar : Neutral "|" := fun _ => rfl
  refine hbody.wrap ((hopens.append ?_).append (hbar.shifts [.curly])) fun _ => rfl
  exact (intercalate hparams).shifts [.curly]

/-- A block with the parameter `it` alone. -/
theorem block {body : List Form} (hbody : Neutral (Form.renderAll body)) :
    Neutral (Ruby.lambda [Ruby.it] body).render := by
  refine lambda (fun param hparam => ?_) hbody
  rw [List.mem_singleton.mp hparam]
  exact fun _ => rfl

theorem stepCall (step : Step) : Neutral (Ruby.stepCall step).render := by
  cases step <;> exact fun _ => rfl

end Neutral

end

/-! ## Words, operators and strings -/

/-- The characters that a reader heeds, in code or in strings. -/
def marks : List Char :=
  ['"', '\\', '(', ')', '[', ']', '\x7b', '\x7d']

theorem Reader.step_of_not_mem_marks {c : Char} (hc : c ∉ marks) {reader : Reader}
    (hmode : reader.mode ≠ .escape) : reader.step c = some reader := by
  obtain ⟨mode, opened⟩ := reader
  cases mode with
  | escape => exact absurd rfl hmode
  | string =>
    have hquote : c ≠ '"' := fun h => hc (h ▸ by decide)
    have hbackslash : c ≠ '\\' := fun h => hc (h ▸ by decide)
    simp [step, hquote, hbackslash]
  | code =>
    have hquote : c ≠ '"' := fun h => hc (h ▸ by decide)
    have hopening : opening? c = none := by
      unfold opening?
      split
      case h_4 => rfl
      all_goals exact absurd (by decide) hc
    have hclosing : closing? c = none := by
      unfold closing?
      split
      case h_4 => rfl
      all_goals exact absurd (by decide) hc
    simp [step, hquote, hopening, hclosing]

theorem Reader.read_of_not_mem_marks {text : String} (h : ∀ c ∈ text.toList, c ∉ marks)
    {reader : Reader} (hmode : reader.mode ≠ .escape) : reader.read text = some reader := by
  rw [read]
  generalize text.toList = cs at h
  induction cs with
  | nil => rfl
  | cons c cs ih =>
    rw [List.foldlM_cons, step_of_not_mem_marks (h c (by simp)) hmode]
    exact ih fun d hd => h d (by simp [hd])

theorem neutral_of_not_mem_marks {text : String} (h : ∀ c ∈ text.toList, c ∉ marks) :
    Neutral text :=
  fun _ => Reader.read_of_not_mem_marks h (by simp)

theorem not_mem_marks_of_isWordChar {c : Char} (h : Lexeme.isWordChar c = true) : c ∉ marks := by
  have hmarks : marks.all (fun d => !Lexeme.isWordChar d) = true := by decide
  intro hc
  simpa [h] using List.all_eq_true.mp hmarks c hc

/-- The name is read twice in a string and once as code. -/
theorem neutral_dispatch {name : String} (h : ∀ c ∈ name.toList, c ∉ marks) :
    Neutral (dispatch name) := by
  intro opened
  have hasks : Reader.read ⟨.code, opened⟩ "it.respond_to?(:\"" =
      some ⟨.string, .round :: opened⟩ := rfl
  have hsends : Reader.read ⟨.string, .round :: opened⟩ "\") ? it.send(:\"" =
      some ⟨.string, .round :: opened⟩ := rfl
  have hcalls : Reader.read ⟨.string, .round :: opened⟩ "\") : " = some ⟨.code, opened⟩ := rfl
  have hargument : Reader.read ⟨.code, opened⟩ "(it)" = some ⟨.code, opened⟩ := rfl
  have hstring : Reader.read ⟨.string, .round :: opened⟩ name = some ⟨.string, .round :: opened⟩ :=
    Reader.read_of_not_mem_marks h (by simp)
  have hcode : Reader.read ⟨.code, opened⟩ name = some ⟨.code, opened⟩ :=
    Reader.read_of_not_mem_marks h (by simp)
  -- the pieces are put together as they stand; rewriting would compare the literals with each other
  delta dispatch
  exact Reader.read_append_eq_some (Reader.read_append_eq_some (Reader.read_append_eq_some
    (Reader.read_append_eq_some (Reader.read_append_eq_some (Reader.read_append_eq_some
      hasks hstring) hsends) hstring) hcalls) hcode) hargument

end Ruby

open Ruby (Neutral Reader)

theorem Token.WellSpelled.not_mem_marks {text : String} (h : (Token.word text).WellSpelled) :
    ∀ c ∈ text.toList, c ∉ Ruby.marks := by
  obtain ⟨c, rest, htext, hstart, hrest⟩ := h
  rw [htext]
  refine List.forall_mem_cons.mpr ⟨?_, fun d hd => Ruby.not_mem_marks_of_isWordChar (hrest d hd)⟩
  exact Ruby.not_mem_marks_of_isWordChar (by simp [Lexeme.isWordChar, hstart])

/-- A token that is a tree on its own is neutral, unless it is a string. -/
theorem Token.WellSpelled.neutral {token : Token} (h : token.WellSpelled)
    (hplain : token.isPlain = true) (hstring : ∀ text, token ≠ .string text) :
    Neutral token.text := by
  cases token with
  | opener | closer | step => simp [Token.isPlain] at hplain
  | arrow => exact fun _ => rfl
  | operator text =>
    have hall : ∀ text ∈ Lexeme.operators,
        text.toList.all (fun c => !Ruby.marks.contains c) = true := by decide
    refine Ruby.neutral_of_not_mem_marks fun c hc => ?_
    simpa using List.all_eq_true.mp (hall text h) c hc
  | string text => exact absurd rfl (hstring text)
  | methodRef text =>
    obtain ⟨c, name, htext, hname⟩ := h
    refine Ruby.neutral_of_not_mem_marks ?_
    rw [Token.text, htext, List.forall_mem_cons, List.forall_mem_cons]
    refine ⟨by decide, by decide, fun d hd => Ruby.not_mem_marks_of_isWordChar ?_⟩
    exact Lexeme.isWordChar_of_isMethodChar (hname d hd)
  | word text => exact Ruby.neutral_of_not_mem_marks (not_mem_marks h)

/-! ## Strings -/

namespace Lexeme

variable {text rest : List Char}

/-- A string that nothing closes leaves the reader in it. -/
theorem foldlM_step_of_openString (h : text ∈ openString.language) (opened : List Bracket) :
    text.foldlM Reader.step ⟨.code, opened⟩ = some ⟨.string, opened⟩ := by
  obtain ⟨pieces, hpieces, rfl⟩ := mem_openString.mp h
  have hbody : pieces.flatten.foldlM Reader.step ⟨.string, opened⟩ = some ⟨.string, opened⟩ := by
    clear h
    induction pieces with
    | nil => rfl
    | cons piece pieces ih =>
      have hmore := ih fun other hother => hpieces other (by simp [hother])
      rw [List.flatten_cons, List.foldlM_append]
      rcases mem_stringPiece.mp (hpieces piece (by simp)) with ⟨c, hquote, hbackslash, rfl⟩ | ⟨c, rfl⟩
      · have hstep : Reader.step ⟨.string, opened⟩ c = some ⟨.string, opened⟩ := by
          simp [Reader.step, hquote, hbackslash]
        rw [List.foldlM_cons, hstep]
        exact hmore
      · exact hmore
  exact hbody

/-- A closing quote takes the reader out of a string. -/
theorem foldlM_step_of_closed (h : text ∈ openString.language) (opened : List Bracket) :
    (text ++ ['"']).foldlM Reader.step ⟨.code, opened⟩ = some ⟨.code, opened⟩ := by
  rw [List.foldlM_append, foldlM_step_of_openString h]
  rfl

/-- A string with more of the source behind it is closed. -/
theorem IsLongest.neutral {offset : Nat} {items : List Spanned}
    (h : string.IsLongest (text ++ rest) text) (hmore : Lexer.Munches offset rest items [])
    (hrest : rest ≠ []) : Neutral (String.ofList text) := by
  rcases openString_or_closed h.mem with hopen | ⟨front, hfront, rfl⟩
  · exact absurd hopen (h.not_open_of_munches hmore hrest)
  · intro opened
    rw [Reader.read, String.toList_ofList]
    exact foldlM_step_of_closed hfront opened

end Lexeme

namespace Lexer

variable {source text : String} {tokens front back : List Spanned} {item : Spanned}

/-- A string of a source is a longest match, and behind it the munching goes on. -/
theorem exists_isLongest_string (h : tokenize source = .ok tokens)
    (htokens : tokens = front ++ item :: back) (hitem : item.token = .string text) :
    ∃ offset rest, Lexeme.string.IsLongest (text.toList ++ rest) text.toList ∧
      Munches offset rest back [] := by
  obtain ⟨lexeme, start, chars, rest, hlongest, hspanned, hmore⟩ :=
    (munches_of_tokenize_eq_ok h).exists_isLongest htokens
  obtain ⟨token, htoken, rfl⟩ := Option.map_eq_some_iff.mp hspanned
  obtain rfl : token = .string text := hitem
  cases lexeme with
  | string =>
    obtain rfl : String.ofList chars = text := by simpa [Lexeme.token?] using htoken
    exact ⟨_, rest, by simpa using hlongest, hmore⟩
  | _ => simp [Lexeme.token?] at htoken

/-- A string with a token behind it is closed. -/
theorem neutral_string (h : tokenize source = .ok tokens) (htokens : tokens = front ++ item :: back)
    (hitem : item.token = .string text) (hback : back ≠ []) : Neutral text := by
  obtain ⟨offset, rest, hlongest, hmore⟩ := exists_isLongest_string h htokens hitem
  have hrest : rest ≠ [] := by
    rintro rfl
    exact hback hmore.eq_nil
  simpa using hlongest.neutral hmore hrest

/-- A token that is a tree on its own is neutral if there is a token behind it. -/
theorem neutral_of_isPlain (h : tokenize source = .ok (front ++ back)) (hback : back ≠ []) :
    ∀ item ∈ front, item.token.isPlain = true → Neutral item.token.text := by
  intro item hitem hplain
  have hspelled := tokenize_wellSpelled h item (by simp [hitem])
  obtain ⟨before, behind, rfl⟩ := List.append_of_mem hitem
  by_cases hstring : ∃ text, item.token = .string text
  · obtain ⟨text, htoken⟩ := hstring
    have hsplit : before ++ item :: behind ++ back = before ++ item :: (behind ++ back) := by simp
    rw [htoken]
    exact neutral_string h hsplit htoken (by simp [hback])
  · exact hspelled.neutral hplain fun text htoken => hstring ⟨text, htoken⟩

/-- A string leaves the brackets as they are, closed or not. -/
theorem exists_read_string (h : tokenize source = .ok tokens) (hitem : item ∈ tokens)
    (htoken : item.token = .string text) :
    ∃ mode, Reader.read ⟨.code, []⟩ text = some ⟨mode, []⟩ := by
  obtain ⟨front, back, htokens⟩ := List.append_of_mem hitem
  obtain ⟨offset, rest, hlongest, -⟩ := exists_isLongest_string h htokens htoken
  rw [Reader.read]
  rcases Lexeme.openString_or_closed hlongest.mem with hopen | ⟨front, hfront, hclosed⟩
  · exact ⟨.string, Lexeme.foldlM_step_of_openString hopen []⟩
  · rw [hclosed]
    exact ⟨.code, Lexeme.foldlM_step_of_closed hfront []⟩

end Lexer

/-! ## Scopes -/

/-- A method reference is neutral without what marks it as one. -/
theorem Form.neutral_of_methodRef? {form : Form} {name : String} (h : Neutral form.render)
    (hname : form.methodRef? = some name) : Neutral name := by
  obtain ⟨text, rfl, htext⟩ := Form.of_methodRef?_eq_some hname
  have hwhole : text = "&:" ++ name := by
    rw [← String.toList_inj, htext, String.toList_append]
    rfl
  rw [Form.render_atom, hwhole] at h
  exact h.of_append fun _ => rfl

theorem Form.eq_it_of_mem_implicitParams {delimiter : Delimiter} {param : String}
    (h : param ∈ Form.implicitParams delimiter) : param = Ruby.it := by
  cases delimiter with
  | brace => exact List.mem_singleton.mp h
  | _ => simp [Form.implicitParams] at h

theorem Form.neutral_arrayText {elements : List String} (h : ∀ text ∈ elements, Neutral text) :
    Neutral (Form.arrayText elements) :=
  (Neutral.intercalate h).between (fun _ => rfl) (fun _ => rfl)

theorem Form.neutral_mapText {entries : List (String × String)}
    (h : ∀ entry ∈ entries, Neutral entry.1 ∧ Neutral entry.2) : Neutral (Form.mapText entries) := by
  have hentries : ∀ text ∈ entries.map fun entry => Form.arrayText [entry.1, entry.2],
      Neutral text := by
    intro text htext
    obtain ⟨entry, hentry, rfl⟩ := List.mem_map.mp htext
    exact Form.neutral_arrayText (by simpa using h entry hentry)
  exact (Neutral.intercalate hentries).between (fun _ => rfl) (fun _ => rfl)

namespace Body

variable {literal : Bool} {tokens inner : List Spanned} {trees elements : List Tree}
  {delimiter : Delimiter}

/-- What a scope stands for is neutral when its elements are. -/
theorem neutral_ofScope (h : Body delimiter.isShortLiteral inner elements)
    (hspelled : ∀ item ∈ inner, item.token.WellSpelled)
    (htrimmed : ∀ item ∈ inner, Text.IsTrimmed item.token.text)
    (helements : ∀ tree ∈ elements, Neutral tree.form.render) :
    Neutral (Form.ofScope delimiter (Tree.forms elements)).render := by
  have hrule := Form.rule_ofScope delimiter (Tree.forms elements)
  have hmem : ∀ form ∈ Tree.forms elements, Neutral form.render := by
    simpa [Tree.forms_eq_map] using helements
  have htrim : ∀ form ∈ Tree.forms elements, Text.IsTrimmed form.render := by
    simpa [Tree.forms_eq_map] using fun tree htree => h.isTrimmed_form htrimmed htree
  have hit : Neutral Ruby.it := fun _ => rfl
  generalize hforms : Tree.forms elements = forms at hrule hmem htrim ⊢
  generalize Form.ofScope delimiter forms = form at hrule
  cases hrule with
  | receiver =>
    refine .block ?_
    rw [Form.renderAll_cons, Form.render_atom]
    exact hit.append (.renderAll hmem)
  | @methodRef form name refers =>
    have hname := Form.neutral_of_methodRef? (hmem form (by simp)) refers
    have hdot : Neutral "." := fun _ => rfl
    refine .block ?_
    rw [Form.renderAll_singleton, Form.render_atom]
    exact (hit.append hdot).append hname
  | @arrow _ params body takes =>
    refine .lambda (fun param hparam => ?_)
      (.renderAll fun form hform => hmem form (by simp [hform]))
    rcases List.mem_append.mp hparam with hparam | hparam
    · rw [Form.eq_it_of_mem_implicitParams hparam]
      exact hit
    · obtain ⟨form, hform, rfl⟩ := List.mem_map.mp hparam
      exact hmem form (by simp [hform])
  | paren => exact .wrap (.renderAll hmem) (fun _ => rfl) (fun _ => rfl)
  | bracket => exact .wrap (.renderAll hmem) (fun _ => rfl) (fun _ => rfl)
  | @dispatch name symbol =>
    obtain ⟨-, hword⟩ := h.of_isSymbol hspelled hforms symbol
    refine .block ?_
    rw [Form.renderAll_singleton, Form.render_atom]
    exact Ruby.neutral_dispatch hword.not_mem_marks
  | block => exact .block (.renderAll hmem)
  | shortMap =>
    rw [Form.render_ofShortMap htrim]
    refine Form.neutral_mapText fun texts htexts => ?_
    obtain ⟨entry, hentry, rfl⟩ := List.mem_map.mp htexts
    obtain ⟨hkey, hvalue⟩ := Form.mem_of_mem_pairs hentry
    exact ⟨hmem _ hkey, hmem _ hvalue⟩
  | shortArray =>
    rw [Form.render_ofShortArray htrim]
    exact Form.neutral_arrayText (by simpa using hmem)

/-- Every tree of a body is neutral when its tokens are that stand for themselves. -/
theorem neutral (h : Body literal tokens trees) (hlegible : Legible tokens)
    (hplain : ∀ item ∈ tokens, item.token.isPlain = true → Neutral item.token.text) :
    ∀ tree ∈ trees, Neutral tree.form.render := by
  induction h with
  | nil => simp
  | @leaf _ _ _ item _ plain _ ih =>
    have hleaf : Neutral (Tree.leaf item.token).form.render := by
      rw [Tree.form, Tree.leafForm_eq_atom (Token.isStep_of_isPlain plain), Form.render_atom]
      exact hplain item (by simp) plain
    have htrees := ih hlegible.of_append fun other hother => hplain other (by simp [hother])
    exact List.forall_mem_append.mpr ⟨htrees, by simpa using hleaf⟩
  | @lone _ _ _ item step _ token _ ih =>
    have hleaf : Neutral (Tree.leaf item.token).form.render := by
      rw [token]
      exact .stepCall step
    have htrees := ih hlegible.of_append fun other hother => hplain other (by simp [hother])
    exact List.forall_mem_append.mpr ⟨htrees, by simpa using hleaf⟩
  | @stepped _ _ trees tree _ step _ _ _ ih =>
    have htrees := ih hlegible.of_append fun other hother => hplain other (by simp [hother])
    obtain ⟨hothers, htree⟩ := List.forall_mem_append.mp htrees
    have hstepped : Neutral (Tree.stepped tree step).form.render := by
      simpa [Tree.form] using (htree tree (by simp)).append (.stepCall step)
    exact List.forall_mem_append.mpr ⟨hothers, by simpa using hstepped⟩
  | @signed _ trees item sign number _ token _ ih =>
    have htrees := ih hlegible.of_append fun other hother => hplain other (by simp [hother])
    obtain ⟨hothers, hsign⟩ := List.forall_mem_append.mp htrees
    have hnumber := hplain item (by simp) (by simp [token, Token.isPlain])
    have hsigned : Neutral (Tree.signed sign number).form.render := by
      rw [token] at hnumber
      simpa [Tree.form, Tree.leafForm, Token.text] using
        (hsign (.leaf (.operator sign)) (by simp)).append hnumber
    exact List.forall_mem_append.mpr ⟨hothers, by simpa using hsigned⟩
  | @scope _ front inner _ elements opener closer delimiter _ body _ _ _ ih ihBody =>
    have htrees := ih hlegible.of_append fun other hother => hplain other (by simp [hother])
    obtain ⟨hinner, htrimmed⟩ := hlegible.of_scope
    have helements := ihBody hinner fun other hother => hplain other (by simp [hother])
    have hscope : Neutral (Tree.scope delimiter elements).form.render := by
      rw [Tree.form]
      exact body.neutral_ofScope hinner.spelled htrimmed helements
    exact List.forall_mem_append.mpr ⟨htrees, by simpa using hscope⟩

end Body

/-! ## Whole sources -/

/-- Whatever a source is desugared to is well bracketed, also when it ends in an open string. -/
theorem desugar_wellBracketed {source text : String} {limit : Nat}
    (h : desugar source limit = .ok text) : Ruby.wellBracketed text = true := by
  obtain ⟨tokens, trees, htokens, hdocument, rfl⟩ := exists_trees_of_desugar_eq_ok h
  have hbody := Parser.body_of_document_eq_ok hdocument
  have hlegible := Legible.of_tokenize htokens
  rcases tokens.eq_nil_or_concat' with rfl | ⟨front, last, rfl⟩
  · obtain rfl := hbody.trees_eq_nil
    decide
  · have hfront := Lexer.neutral_of_isPlain htokens (by simp)
    by_cases hlast : ∃ text, last.token = .string text
    · -- a string at the end may be open, and the rest of the output is in front of it
      obtain ⟨text, hlast⟩ := hlast
      obtain ⟨others, rfl, hothers⟩ := hbody.exists_last_leaf (by simp [hlast, Token.isStep])
        (by simp [hlast, Token.isCloser]) (by simp [hlast])
      have hneutral := Neutral.renderAll_forms (hothers.neutral hlegible.of_append hfront)
      obtain ⟨mode, hread⟩ := Lexer.exists_read_string htokens (by simp) hlast
      have hrender : Form.renderAll (Tree.forms (others ++ [.leaf last.token])) =
          Form.renderAll (Tree.forms others) ++ text := by
        simp [hlast, Tree.forms_eq_map, Form.renderAll_append, Tree.form, Tree.leafForm, Token.text]
      rw [hrender]
      exact Ruby.wellBracketed_of_read (Reader.read_append_eq_some (hneutral []) hread)
    · have hplain : ∀ item ∈ front ++ [last], item.token.isPlain = true →
          Neutral item.token.text := by
        refine List.forall_mem_append.mpr ⟨hfront, ?_⟩
        simpa using fun hplain =>
          (hlegible.spelled last (by simp)).neutral hplain fun text htext => hlast ⟨text, htext⟩
      have hneutral := Neutral.renderAll_forms (hbody.neutral hlegible hplain)
      exact Ruby.wellBracketed_of_read (hneutral [])

/-- A map with a dispatch, a string with brackets and an escaped quote in it and a lambda, and
behind it a string that is not closed. -/
theorem desugar_wellBracketed_openString :
    ∃ text, desugar "\\h\x7bk \x7bup\x7d \"[\\\"(\" (x -> [x ++])\x7d \"]" 3 = .ok text ∧
      text = "[[k, \x7b|it|it.respond_to?(:\"up\") ? it.send(:\"up\") : up(it)\x7d], " ++
        "[\"[\\\"(\", \x7b|x|[x.succ]\x7d]].to_h\"]" ∧
      Ruby.wellBracketed text = true := by
  have h : desugar "\\h\x7bk \x7bup\x7d \"[\\\"(\" (x -> [x ++])\x7d \"]" 3 =
      .ok ("[[k, \x7b|it|it.respond_to?(:\"up\") ? it.send(:\"up\") : up(it)\x7d], " ++
        "[\"[\\\"(\", \x7b|x|[x.succ]\x7d]].to_h\"]") :=
    eq_ok_of_toOption_eq_some (by decide +kernel)
  exact ⟨_, h, rfl, desugar_wellBracketed h⟩

end Desugar
