import Desugar.Proofs.Conservation
import Desugar.Proofs.Running

/-!
# Short literals keep their elements

The elements of a short literal are trimmed, and the empty ones are left out, before they are joined.
An element lost that way would shift the keys and values of a map against each other without any
fault.  It never happens: whatever a parser holds is rendered with a first and a last character that
are not blank, from one token to the next (`Reading.IsTrimmed.step`), and so is all that it hands to
the rule of a scope that closes (`HandsOver.isTrimmed`).  A short literal is thus rendered with every
one of its elements, each as it is.
-/

namespace Desugar

open Brackets

namespace Parser

/-! ## What a parser hands to the rules for scopes -/

/-- `HandsOver limit tokens delimiter elements`: a parser that starts somewhere in the stream reads on
to a closer and closes a scope there, whose elements these are.  The scope may turn out to be at
fault. -/
inductive HandsOver (limit : Nat) (tokens : List Spanned) : Delimiter → List Tree → Prop
  | intro {skipped front back : List Spanned} {item : Spanned} {reading : Reading}
      {closed : List Scope} {scope : Scope} (cut : tokens = skipped ++ (front ++ item :: back))
      (reads : Reads limit skipped.length {} front reading closed)
      (closes : reading.closed? (skipped.length + front.length) item.token = some scope) :
      HandsOver limit tokens scope.delimiter reading.elements.reverse

/-- Everything that a reading holds is rendered trimmed: the elements of the innermost scope, and
those that wait in the scopes around it. -/
structure Reading.IsTrimmed (reading : Reading) : Prop where
  elements : ∀ tree ∈ reading.elements, Text.IsTrimmed tree.form.render
  before : ∀ frame ∈ reading.frames, ∀ tree ∈ frame.before, Text.IsTrimmed tree.form.render

variable {limit index : Nat} {reading next : Reading} {item : Spanned} {tokens : List Spanned}

theorem Reading.isTrimmed_empty : Reading.IsTrimmed {} := by
  constructor <;> simp

/-- A token that is trimmed, and no bracket, leaves the elements trimmed. -/
theorem Reading.Grows.isTrimmed {elements : List Tree} (h : reading.Grows item elements)
    (helements : ∀ tree ∈ reading.elements, Text.IsTrimmed tree.form.render)
    (hitem : Text.IsTrimmed item.token.text) :
    ∀ tree ∈ elements, Text.IsTrimmed tree.form.render := by
  have hleaf : Text.IsTrimmed (Tree.leaf item.token).form.render :=
    Tree.isTrimmed_form _ (by simpa [Tree.tokens] using hitem)
  cases h with
  | leaf => simpa using ⟨hleaf, helements⟩
  | lone => simpa using ⟨hleaf, helements⟩
  | @stepped step element others _ hbefore _ =>
    rw [hbefore] at helements
    have helement := (helements element (by simp)).append (Ruby.isTrimmed_stepCall step)
    have hothers := fun tree htree => helements tree (List.mem_cons_of_mem _ htree)
    simpa [Tree.form] using ⟨helement, hothers⟩
  | @signed sign number others htoken hbefore _ =>
    rw [hbefore] at helements
    have hsign : Text.IsTrimmed sign := by
      simpa [Tree.form, Tree.leafForm, Token.text] using helements _ List.mem_cons_self
    have hnumber : Text.IsTrimmed number := by simpa [htoken, Token.text] using hitem
    have hothers := fun tree htree => helements tree (List.mem_cons_of_mem _ htree)
    simpa [Tree.form] using ⟨hsign.append hnumber, hothers⟩

/-- A step over a trimmed token keeps everything trimmed. -/
theorem Reading.IsTrimmed.step (h : reading.IsTrimmed) (hitem : Text.IsTrimmed item.token.text)
    (hstep : reading.step limit index item = .ok next) : next.IsTrimmed := by
  rcases step_ok_cases hstep with ⟨delimiter, -, -, rfl⟩ | ⟨frame, frames, hframes, -, -, rfl⟩ |
    ⟨-, hgrows, hnext⟩
  · exact ⟨by simp, by simpa using ⟨h.elements, h.before⟩⟩
  · -- the scope that closes becomes an element between those that waited before it
    have hbefore := h.before
    rw [hframes] at hbefore
    have hscope : Text.IsTrimmed
        (Tree.scope frame.delimiter reading.elements.reverse).form.render := by
      rw [Tree.form]
      exact Form.isTrimmed_ofScope _ _
    exact ⟨by simpa using ⟨hscope, hbefore frame (by simp)⟩,
      fun other hother => hbefore other (by simp [hother])⟩
  · rw [hnext]
    exact ⟨hgrows.isTrimmed h.elements hitem, h.before⟩

/-- A run over trimmed tokens keeps everything trimmed. -/
theorem Reads.isTrimmed {closed : List Scope} (h : Reads limit index reading tokens next closed)
    (hreading : reading.IsTrimmed) (htokens : ∀ item ∈ tokens, Text.IsTrimmed item.token.text) :
    next.IsTrimmed := by
  induction h with
  | nil => exact hreading
  | cons read _ ih =>
    have hmiddle := hreading.step (htokens _ (by simp)) read
    exact ih hmiddle fun item hitem => htokens item (by simp [hitem])

/-- Whatever is handed to the rule of a scope is rendered trimmed: the closer stands behind all tokens
it was read from. -/
theorem HandsOver.isTrimmed {delimiter : Delimiter} {elements : List Tree}
    (h : HandsOver limit tokens delimiter elements) (hlegible : Legible tokens) :
    ∀ tree ∈ elements, Text.IsTrimmed tree.form.render := by
  obtain ⟨cut, reads, -⟩ := h
  rw [cut, ← List.append_assoc] at hlegible
  have hfront := hlegible.trimmed_of_append (by simp)
  have hreading := reads.isTrimmed Reading.isTrimmed_empty
    fun item hitem => hfront item (List.mem_append_right _ hitem)
  intro tree htree
  exact hreading.elements tree (List.mem_reverse.mp htree)

end Parser

/-! ## The text of a short literal -/

namespace Form

/-- An array literal with all of its elements, each as it is. -/
def arrayText (elements : List String) : String :=
  "[" ++ ", ".intercalate elements ++ "]"

/-- A map literal with all of its entries, each of a key and a value. -/
def mapText (entries : List (String × String)) : String :=
  "[" ++ ", ".intercalate (entries.map fun entry => arrayText [entry.1, entry.2]) ++ "].to_h"

variable {forms : List Form}

theorem render_ofShortArray (h : ∀ form ∈ forms, Text.IsTrimmed form.render) :
    (ofShortArray forms).render = arrayText (forms.map render) := by
  simp [ofShortArray, Ruby.wrap, arrayText, Ruby.join_eq h, String.append_assoc]

theorem render_ofShortMap (h : ∀ form ∈ forms, Text.IsTrimmed form.render) :
    (ofShortMap forms).render = mapText ((pairs forms).map (Prod.map render render)) := by
  have hentries : ((pairs forms).map fun entry => "[" ++ Ruby.join [entry.1, entry.2] ++ "]") =
      (pairs forms).map fun entry => arrayText [entry.1.render, entry.2.render] := by
    refine List.map_congr_left fun entry hentry => ?_
    obtain ⟨hkey, hvalue⟩ := mem_of_mem_pairs hentry
    have hboth : ∀ form ∈ [entry.1, entry.2], Text.IsTrimmed form.render := by
      simp [h entry.1 hkey, h entry.2 hvalue]
    rw [Ruby.join_eq hboth]
    rfl
  have hpairs : (fun entry => arrayText [entry.1, entry.2]) ∘ Prod.map render render =
      fun entry : Form × Form => arrayText [entry.1.render, entry.2.render] := rfl
  simp only [ofShortMap, hentries, mapText, List.map_map, hpairs]
  simp [Ruby.wrap, String.append_assoc]

end Form

namespace Body

variable {literal : Bool} {tokens inner : List Spanned} {trees elements : List Tree}

/-- The map literals among the trees of a body have an even number of elements. -/
theorem even_of_mem_nodesAll (h : Body literal tokens trees) {start : Nat} {node : Tree.Node}
    (hnode : node ∈ Tree.nodesAll start trees) (hmap : node.delimiter = .shortMap) :
    Even node.elements.length := by
  induction h generalizing start with
  | nil => simp [Tree.nodesAll] at hnode
  | leaf _ _ _ ih =>
    exact ih (by simpa [Tree.nodesAll_concat, Tree.nodes] using hnode)
  | lone _ _ _ ih =>
    exact ih (by simpa [Tree.nodesAll_concat, Tree.nodes] using hnode)
  | stepped _ _ _ ih =>
    exact ih (by simpa [Tree.nodesAll_concat, Tree.nodes] using hnode)
  | signed _ _ _ ih =>
    exact ih (by simpa [Tree.nodesAll_concat, Tree.nodes] using hnode)
  | scope _ _ _ _ pairs ih ihBody =>
    simp only [Tree.nodesAll_concat, Tree.nodes, List.mem_append, List.mem_cons] at hnode
    rcases hnode with hnode | rfl | hnode
    · exact ih hnode
    · exact pairs hmap
    · exact ihBody hnode

theorem isTrimmed_forms (h : Body literal tokens trees)
    (htrimmed : ∀ item ∈ tokens, Text.IsTrimmed item.token.text) :
    ∀ form ∈ Tree.forms trees, Text.IsTrimmed form.render := by
  intro form hform
  rw [Tree.forms_eq_map, List.mem_map] at hform
  obtain ⟨tree, htree, rfl⟩ := hform
  exact h.isTrimmed_form htrimmed htree

/-- An array literal is rendered with all of its elements. -/
theorem render_shortArray (h : Body true inner elements)
    (htrimmed : ∀ item ∈ inner, Text.IsTrimmed item.token.text) :
    (Tree.scope .shortArray elements).form.render =
      Form.arrayText (elements.map (·.form.render)) := by
  have hforms := h.isTrimmed_forms htrimmed
  rw [Tree.form, Form.ofScope, Form.render_ofShortArray hforms, Tree.forms_eq_map, List.map_map]
  rfl

/-- The elements of a map literal are its keys and values in turn, and it is rendered with each of
them. -/
theorem exists_render_shortMap (h : Body true inner elements)
    (htrimmed : ∀ item ∈ inner, Text.IsTrimmed item.token.text) (heven : Even elements.length) :
    ∃ entries : List (Tree × Tree), elements = (entries.flatMap fun entry => [entry.1, entry.2]) ∧
      (Tree.scope .shortMap elements).form.render =
        Form.mapText (entries.map fun entry => (entry.1.form.render, entry.2.form.render)) := by
  have hforms := h.isTrimmed_forms htrimmed
  refine ⟨Form.pairs elements, ?_, ?_⟩
  · simpa using (Form.flatMap_pairs (fun tree => [tree]) heven).symm
  · rw [Tree.form, Form.ofScope, Form.render_ofShortMap hforms, Tree.forms_eq_map, Form.pairs_map,
      List.map_map]
    rfl

end Body

/-! ## Short literals of a source -/

/-- Every token inside a closed scope is trimmed, for the closer stands behind it. -/
theorem Legible.trimmed_of_pair {tokens inner : List Spanned} {delimiter : Delimiter} {first : Nat}
    (h : Legible tokens) (hpair : Pair tokens delimiter first inner) :
    ∀ item ∈ inner, Text.IsTrimmed item.token.text := by
  obtain ⟨front, opener, closer, back, rfl, -⟩ := hpair
  rw [← List.cons_append, ← List.append_assoc] at h
  intro item hitem
  exact h.trimmed_of_append (by simp) item (by simp [hitem])

/-- In a source that has tokens, all that a parser hands to the rule of a scope is rendered with a
first and a last character that are not blank.  In a source that is desugared, an array literal is
rendered with all of its elements, and a map literal with all of its elements two by two, each of them
as it is. -/
theorem shortLiterals_intact {source : String} {tokens : List Spanned}
    (htokens : tokenize source = .ok tokens) (limit : Nat) :
    (∀ delimiter elements, Parser.HandsOver limit tokens delimiter elements →
      ∀ tree ∈ elements, Text.IsTrimmed tree.form.render) ∧
    ∀ text, desugar source limit = .ok text →
      ∃ trees, (Parser.start tokens limit).document.1 = .ok trees ∧
        text = Form.renderAll (Tree.forms trees) ∧
        (∀ first inner, Pair tokens .shortArray first inner →
          ∃ elements, ⟨.shortArray, first, elements⟩ ∈ Tree.nodesAll 0 trees ∧
            Body true inner elements ∧ elements.length = elementCount inner ∧
            (Tree.scope .shortArray elements).form.render =
              Form.arrayText (elements.map (·.form.render))) ∧
        ∀ first inner, Pair tokens .shortMap first inner →
          ∃ (entries : List (Tree × Tree)) (elements : List Tree),
            ⟨.shortMap, first, elements⟩ ∈ Tree.nodesAll 0 trees ∧
            Body true inner elements ∧ elements.length = elementCount inner ∧
            elements = (entries.flatMap fun entry => [entry.1, entry.2]) ∧
            (Tree.scope .shortMap elements).form.render =
              Form.mapText (entries.map fun entry => (entry.1.form.render, entry.2.form.render)) := by
  have hlegible := Legible.of_tokenize htokens
  refine ⟨fun delimiter elements hhanded => hhanded.isTrimmed hlegible, fun text htext => ?_⟩
  obtain ⟨tokens', trees, htokens', hdocument, rfl⟩ := exists_trees_of_desugar_eq_ok htext
  obtain rfl : tokens' = tokens := Except.ok.inj (htokens'.symm.trans htokens)
  have hbody := Parser.body_of_document_eq_ok hdocument
  refine ⟨trees, hdocument, rfl, fun first inner hpair => ?_, fun first inner hpair => ?_⟩
  · obtain ⟨elements, hnode, helements⟩ := hbody.exists_node hpair 0
    rw [Nat.zero_add] at hnode
    exact ⟨elements, hnode, helements, helements.length_eq rfl,
      helements.render_shortArray (hlegible.trimmed_of_pair hpair)⟩
  · obtain ⟨elements, hnode, helements⟩ := hbody.exists_node hpair 0
    rw [Nat.zero_add] at hnode
    have heven := hbody.even_of_mem_nodesAll hnode rfl
    obtain ⟨entries, hentries, hrender⟩ :=
      helements.exists_render_shortMap (hlegible.trimmed_of_pair hpair) heven
    exact ⟨entries, elements, hnode, helements, helements.length_eq rfl, hentries, hrender⟩

/-- The tokens of `\a[" a " \h{k -1} x++]`. -/
def nestedLiterals : List Spanned :=
  [⟨.opener .shortArray, ⟨0, 3⟩⟩, ⟨.string "\" a \"", ⟨3, 8⟩⟩, ⟨.opener .shortMap, ⟨9, 12⟩⟩,
   ⟨.word "k", ⟨12, 13⟩⟩, ⟨.operator "-", ⟨14, 15⟩⟩, ⟨.word "1", ⟨15, 16⟩⟩,
   ⟨.closer .curly, ⟨16, 17⟩⟩, ⟨.word "x", ⟨18, 19⟩⟩, ⟨.step .increment, ⟨19, 21⟩⟩,
   ⟨.closer .square, ⟨21, 22⟩⟩]

/-- A string with blanks inside its quotes, a map with a signed number and a stepped name. -/
theorem shortLiterals_intact_nestedLiterals :
    tokenize "\\a[\" a \" \\h\x7bk -1\x7d x++]" = .ok nestedLiterals ∧
      (∀ tree ∈ [Tree.leaf (.word "k"), .signed "-" "1"], Text.IsTrimmed tree.form.render) ∧
      desugar "\\a[\" a \" \\h\x7bk -1\x7d x++]" 2 = .ok "[\" a \", [[k, -1]].to_h, x.succ]" ∧
      (∃ elements, Body true (nestedLiterals.extract 1 9) elements ∧ elements.length = 3 ∧
        (Tree.scope .shortArray elements).form.render =
          Form.arrayText (elements.map (·.form.render))) ∧
      ∃ (entries : List (Tree × Tree)) (elements : List Tree),
        Body true (nestedLiterals.extract 3 6) elements ∧ elements.length = 2 ∧
        elements = (entries.flatMap fun entry => [entry.1, entry.2]) ∧
        (Tree.scope .shortMap elements).form.render =
          Form.mapText (entries.map fun entry => (entry.1.form.render, entry.2.form.render)) := by
  have htokens : tokenize "\\a[\" a \" \\h\x7bk -1\x7d x++]" = .ok nestedLiterals :=
    eq_ok_of_toOption_eq_some (by decide +kernel)
  have htext : desugar "\\a[\" a \" \\h\x7bk -1\x7d x++]" 2 =
      .ok "[\" a \", [[k, -1]].to_h, x.succ]" := eq_ok_of_toOption_eq_some (by decide +kernel)
  have hhanded : Parser.HandsOver 2 nestedLiterals .shortMap
      [.leaf (.word "k"), .signed "-" "1"] :=
    @Parser.HandsOver.intro 2 nestedLiterals [] (nestedLiterals.take 6) (nestedLiterals.drop 7)
      ⟨.closer .curly, ⟨16, 17⟩⟩ _ _ ⟨.shortMap, 3, 6, 2⟩ rfl
      (.cons rfl (.cons rfl (.cons rfl (.cons rfl (.cons rfl (.cons rfl .nil)))))) rfl
  have hmap : Pair nestedLiterals .shortMap 3 (nestedLiterals.extract 3 6) := by
    have hinner := (Parser.body_of_document_eq_ok
      (rfl : (Parser.start (nestedLiterals.extract 3 6) 2).document.1 = .ok _)).balanced
    exact ⟨nestedLiterals.take 2, _, _, nestedLiterals.drop 7, rfl, rfl, rfl, rfl, hinner⟩
  have harray : Pair nestedLiterals .shortArray 1 (nestedLiterals.extract 1 9) := by
    have hinner := (Parser.body_of_document_eq_ok
      (rfl : (Parser.start (nestedLiterals.extract 1 9) 2).document.1 = .ok _)).balanced
    exact ⟨[], _, _, [], rfl, rfl, rfl, rfl, hinner⟩
  obtain ⟨htrimmed, hliterals⟩ := shortLiterals_intact htokens 2
  obtain ⟨trees, -, -, harrays, hmaps⟩ := hliterals _ htext
  obtain ⟨elements, -, hbody, hlength, hrender⟩ := harrays 1 _ harray
  obtain ⟨entries, pairs, -, hbody', hlength', hpairs, hrender'⟩ := hmaps 3 _ hmap
  exact ⟨htokens, htrimmed _ _ hhanded, htext, ⟨elements, hbody, hlength, hrender⟩,
    entries, pairs, hbody', hlength', hpairs, hrender'⟩

end Desugar
