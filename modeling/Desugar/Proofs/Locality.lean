import Desugar.Proofs.Acceptance
import Desugar.Proofs.ShortLiterals
import Mathlib.Data.List.Forall2

/-!
# Rewriting is local

A scope tells the scopes around it nothing but its text.  So a block, which is one opener up to its
matching closer, can be replaced by another one with the same text, at any depth and between any
brackets: the output stays the same, unless the new block nests too deep where it stands.

## Shape of the argument

* `Form.render_ofScope_map_flat`: the rule for a scope sees an atom as it is and of a group only the
  text.
* `Tree.Alike` is what two trees have to share so that nothing around them can tell them apart.
* `Body.replace`: tokens that the grammar reads are read with the new block too, as trees that are
  alike one by one.  The induction is on the grammar, for the block may stand in a scope of the body,
  be one, or stand between two of them.
* `Body.document_cases`: what the grammar reads a parser reads, unless it nests too deep.
-/

namespace Desugar

open Brackets

/-! ## What a rule sees of its forms -/

namespace Form

/-- The form without the parts of a group: an atom is kept, and of a group its text. -/
def flat : Form → Form
  | .atom text => .atom text
  | .group parts => .group [.atom (renderAll parts)]

@[simp]
theorem atom?_flat (form : Form) : form.flat.atom? = form.atom? := by
  cases form <;> rfl

@[simp]
theorem render_flat (form : Form) : form.flat.render = form.render := by
  cases form <;> simp [flat]

theorem flat_eq_of_atom?_eq_none {form : Form} (h : form.atom? = none) :
    form.flat = .group [.atom form.render] := by
  cases form with
  | atom text => simp [atom?] at h
  | group parts => simp [flat]

@[simp]
theorem renderAll_map_flat (forms : List Form) : renderAll (forms.map flat) = renderAll forms := by
  induction forms with
  | nil => rfl
  | cons form forms ih => simp [ih]

@[simp]
theorem render_comp_flat : render ∘ flat = render :=
  funext render_flat

@[simp]
theorem isBareCall_flat (form : Form) : form.flat.isBareCall = form.isBareCall := by
  simp [isBareCall]

@[simp]
theorem methodRef?_flat (form : Form) : form.flat.methodRef? = form.methodRef? := by
  simp [methodRef?]

theorem soleMethodRef?_map_flat (forms : List Form) :
    soleMethodRef? (forms.map flat) = soleMethodRef? forms := by
  rcases forms with _ | ⟨form, _ | ⟨other, forms⟩⟩
  · rfl
  · exact methodRef?_flat form
  · rfl

theorem splitArrow_map_flat (forms : List Form) :
    splitArrow (forms.map flat) =
      (splitArrow forms).map (Prod.map (List.map flat) (List.map flat)) := by
  induction forms with
  | nil => rfl
  | cons form forms ih =>
    rw [List.map_cons, splitArrow, splitArrow, atom?_flat]
    split
    · rfl
    · rw [ih, Option.map_map, Option.map_map]
      rfl

theorem render_wrap (opening closing : String) (forms : List Form) :
    (Ruby.wrap opening forms closing).render = opening ++ renderAll forms ++ closing := by
  simp [Ruby.wrap, renderAll_append, String.append_assoc]

theorem join_map_flat (forms : List Form) : Ruby.join (forms.map flat) = Ruby.join forms := by
  simp [Ruby.join, Function.comp_def]

theorem render_ofBlock_map_flat (forms : List Form) :
    (ofBlock (forms.map flat)).render = (ofBlock forms).render := by
  unfold ofBlock
  rw [splitArrow_map_flat]
  cases splitArrow forms with
  | none => simp [render_lambda]
  | some sides => simp [render_lambda]

theorem render_ofParen_map_flat (forms : List Form) :
    (ofParen (forms.map flat)).render = (ofParen forms).render := by
  have hhead : (forms.map flat).head?.any isBareCall = forms.head?.any isBareCall := by
    cases forms <;> simp
  unfold ofParen
  rw [hhead, soleMethodRef?_map_flat, splitArrow_map_flat]
  split
  · simp [render_lambda]
  · cases soleMethodRef? forms with
    | some name => rfl
    | none =>
      cases splitArrow forms with
      | none => simp [render_wrap]
      | some sides => simp [render_lambda]

theorem render_ofBrace_map_flat (forms : List Form) :
    (ofBrace (forms.map flat)).render = (ofBrace forms).render := by
  rcases forms with _ | ⟨⟨name⟩ | ⟨parts⟩, _ | ⟨other, forms⟩⟩
  · rfl
  · rfl
  · exact render_ofBlock_map_flat (.atom name :: other :: forms)
  · exact render_ofBlock_map_flat [.group parts]
  · exact render_ofBlock_map_flat (.group parts :: other :: forms)

/-- What a scope stands for has the same text if of its groups nothing but the text is known. -/
theorem render_ofScope_map_flat (delimiter : Delimiter) (forms : List Form) :
    (ofScope delimiter (forms.map flat)).render = (ofScope delimiter forms).render := by
  cases delimiter with
  | paren => exact render_ofParen_map_flat forms
  | bracket => simp [ofScope, render_wrap]
  | brace => exact render_ofBrace_map_flat forms
  | shortMap =>
    have hjoin : ∀ entry : Form × Form,
        Ruby.join [entry.1.flat, entry.2.flat] = Ruby.join [entry.1, entry.2] :=
      fun entry => join_map_flat [entry.1, entry.2]
    simp [ofScope, ofShortMap, pairs_map, Function.comp_def, hjoin]
  | shortArray => simp [ofScope, ofShortArray, join_map_flat]

end Form

/-! ## Trees that nothing around them tells apart -/

namespace Tree

/-- Two trees are alike if they are the same, or have the same text and neither is an atom. -/
def Alike (tree other : Tree) : Prop :=
  tree = other ∨
    tree.form.atom? = none ∧ other.form.atom? = none ∧ tree.form.render = other.form.render

variable {tree other : Tree} {trees others : List Tree}

theorem Alike.render_eq (h : tree.Alike other) : tree.form.render = other.form.render := by
  rcases h with rfl | ⟨-, -, hrender⟩
  · rfl
  · exact hrender

theorem Alike.flat_eq (h : tree.Alike other) : tree.form.flat = other.form.flat := by
  rcases h with rfl | ⟨hnone, hnone', hrender⟩
  · rfl
  · rw [Form.flat_eq_of_atom?_eq_none hnone, Form.flat_eq_of_atom?_eq_none hnone', hrender]

theorem map_flat_forms_eq (h : List.Forall₂ Alike trees others) :
    (forms trees).map Form.flat = (forms others).map Form.flat := by
  induction h with
  | nil => rfl
  | cons hhead _ ih => simp [forms, hhead.flat_eq, ih]

/-- A row of trees that are alike one by one is rendered the same. -/
theorem renderAll_forms_eq (h : List.Forall₂ Alike trees others) :
    Form.renderAll (forms trees) = Form.renderAll (forms others) := by
  rw [← Form.renderAll_map_flat, map_flat_forms_eq h, Form.renderAll_map_flat]

theorem Alike.eq_of_leaf {text : String} (h : (leaf (.operator text)).Alike other) :
    other = leaf (.operator text) := by
  rcases h with rfl | ⟨hnone, -⟩
  · rfl
  · simp [form, leafForm, Form.atom?] at hnone

theorem Alike.stepped (h : tree.Alike other) (step : Step) :
    (stepped tree step).Alike (stepped other step) := by
  refine .inr ⟨by simp [form, Form.atom?], by simp [form, Form.atom?], ?_⟩
  simp [form, h.render_eq]

theorem Alike.scope (h : List.Forall₂ Alike trees others) (delimiter : Delimiter) :
    (scope delimiter trees).Alike (scope delimiter others) := by
  refine .inr ⟨by simp [form], by simp [form], ?_⟩
  rw [form, form, ← Form.render_ofScope_map_flat, map_flat_forms_eq h, Form.render_ofScope_map_flat]

end Tree

/-! ## Blocks -/

/-- A block that the grammar reads: one opener up to its matching closer, with the elements between
them. -/
structure Block where
  delimiter : Delimiter
  opener : Spanned
  inner : List Spanned
  closer : Spanned
  elements : List Tree
  opens : opener.token = .opener delimiter
  closes : closer.token = .closer delimiter.closer
  body : Body delimiter.isShortLiteral inner elements
  pairs : delimiter = .shortMap → Even elements.length

namespace Block

/-- The tokens of the block. -/
def tokens (block : Block) : List Spanned :=
  block.opener :: (block.inner ++ [block.closer])

/-- The tree that the block is read as. -/
def tree (block : Block) : Tree :=
  .scope block.delimiter block.elements

variable {block other : Block} {front back tokens : List Spanned} {item : Spanned}

theorem tokens_eq_concat (block : Block) :
    block.tokens = block.opener :: block.inner ++ [block.closer] := rfl

theorem balanced (block : Block) : Balanced block.tokens :=
  block.body.balanced.scope block.opens block.closes

theorem opener_mem (front back : List Spanned) : block.opener ∈ front ++ block.tokens ++ back := by
  simp [Block.tokens]

/-- A last token that closes nothing stands behind the block. -/
theorem exists_of_concat (h : tokens ++ [item] = front ++ block.tokens ++ back)
    (hitem : item.token.isCloser = false) :
    ∃ rest, back = rest ++ [item] ∧ tokens = front ++ block.tokens ++ rest := by
  rcases List.eq_nil_or_concat' back with rfl | ⟨rest, last, rfl⟩
  · rw [List.append_nil, tokens_eq_concat, ← List.append_assoc] at h
    obtain ⟨-, rfl⟩ := concat_inj h
    simp [block.closes, Token.isCloser] at hitem
  · rw [← List.append_assoc] at h
    obtain ⟨rfl, rfl⟩ := concat_inj h
    exact ⟨rest, rfl, rfl⟩

/-- Whether a token touches a sign does not depend on the block before it. -/
theorem touchesSign_eq (block other : Block) (front back : List Spanned) (item : Spanned) :
    touchesSign (front ++ other.tokens ++ back) item =
      touchesSign (front ++ block.tokens ++ back) item := by
  have hcloser : ∀ block : Block, touchesSign (front ++ block.tokens) item = false := by
    intro block
    by_contra htouches
    obtain ⟨_, previous, -, hlast, -, hsign, -⟩ := touchesSign_iff.mp (by simpa using htouches)
    rw [tokens_eq_concat, ← List.append_assoc, List.getLast?_concat] at hlast
    obtain rfl := Option.some.inj hlast
    simp [block.closes, Token.isSign] at hsign
  rcases List.eq_nil_or_concat' back with rfl | ⟨rest, last, rfl⟩
  · rw [List.append_nil, List.append_nil, hcloser, hcloser]
  · simp [touchesSign]

/-- A pair of brackets where the block stands is the block. -/
theorem append_inj {start rest behind : List Spanned} {opener closer : Spanned}
    (h : start ++ opener :: (block.inner ++ closer :: rest) ++ behind =
      front ++ block.tokens ++ back)
    (hlength : start.length = front.length) :
    start = front ∧ opener = block.opener ∧ closer = block.closer ∧ back = rest ++ behind := by
  rw [List.append_assoc, List.append_assoc] at h
  obtain ⟨rfl, hrest⟩ := List.append_inj h hlength
  have htail : opener :: (block.inner ++ closer :: (rest ++ behind)) =
      block.opener :: (block.inner ++ block.closer :: back) := by
    simpa [Block.tokens] using hrest
  obtain ⟨rfl, hinner⟩ := List.cons.inj htail
  obtain ⟨rfl, rfl⟩ := List.cons.inj (List.append_cancel_left hinner)
  exact ⟨rfl, rfl, rfl, rfl⟩

end Block

/-- Related rows with a last item end in related items. -/
theorem forall₂_concat_iff {α β : Type} {r : α → β → Prop} {items : List α} {item : α}
    {others : List β} :
    List.Forall₂ r (items ++ [item]) others ↔
      ∃ others' other, others = others' ++ [other] ∧ List.Forall₂ r items others' ∧ r item other := by
  constructor
  · intro h
    rw [← List.forall₂_reverse_iff, List.reverse_append, List.reverse_singleton,
      List.singleton_append, List.forall₂_cons_left_iff] at h
    obtain ⟨other, others', hlast, hothers, heq⟩ := h
    refine ⟨others'.reverse, other, ?_, ?_, hlast⟩
    · rw [← List.reverse_inj, heq]
      simp
    · rwa [← List.forall₂_reverse_iff, List.reverse_reverse]
  · rintro ⟨others', other, rfl, hothers, hlast⟩
    exact List.rel_append hothers (.cons hlast .nil)

/-- Tokens with a block in them are read with another block in its place as well, as trees that are
alike one by one. -/
theorem Body.replace {literal : Bool} {tokens : List Spanned} {trees : List Tree} {block other : Block}
    (h : Body literal tokens trees) (halike : block.tree.Alike other.tree) {front back : List Spanned}
    (htokens : tokens = front ++ block.tokens ++ back) :
    ∃ trees', Body literal (front ++ other.tokens ++ back) trees' ∧
      List.Forall₂ Tree.Alike trees trees' := by
  induction h generalizing front back with
  | nil => simp [Block.tokens] at htokens
  | leaf before plain apart ih =>
    obtain ⟨rest, rfl, rfl⟩ := Block.exists_of_concat htokens (Token.isCloser_of_isPlain plain)
    obtain ⟨trees', hbody, htrees⟩ := ih rfl
    rw [← List.append_assoc]
    refine ⟨_, .leaf hbody plain fun hliteral => ?_, ?_⟩
    · rw [block.touchesSign_eq other]
      exact apart hliteral
    · exact forall₂_concat_iff.mpr ⟨_, _, rfl, htrees, .inl rfl⟩
  | lone before token steps ih =>
    obtain ⟨rest, rfl, rfl⟩ := Block.exists_of_concat htokens (by simp [token, Token.isCloser])
    have hstep := steps block.opener (Block.opener_mem front rest)
    simp [block.opens, Token.isStep] at hstep
  | stepped before token hother ih =>
    obtain ⟨rest, rfl, rfl⟩ := Block.exists_of_concat htokens (by simp [token, Token.isCloser])
    obtain ⟨_, hbody, hall⟩ := ih rfl
    obtain ⟨trees', tree', rfl, htrees, htree⟩ := forall₂_concat_iff.mp hall
    rw [← List.append_assoc]
    refine ⟨_, .stepped hbody token ⟨other.opener, Block.opener_mem front rest, ?_⟩, ?_⟩
    · simp [other.opens, Token.isStep]
    · exact forall₂_concat_iff.mpr ⟨_, _, rfl, htrees, htree.stepped _⟩
  | signed before token touches ih =>
    obtain ⟨rest, rfl, rfl⟩ := Block.exists_of_concat htokens (by simp [token, Token.isCloser])
    obtain ⟨_, hbody, hall⟩ := ih rfl
    obtain ⟨trees', tree', rfl, htrees, htree⟩ := forall₂_concat_iff.mp hall
    obtain rfl := htree.eq_of_leaf
    rw [← block.touchesSign_eq other] at touches
    rw [← List.append_assoc]
    refine ⟨_, .signed hbody token touches, ?_⟩
    exact forall₂_concat_iff.mpr ⟨_, _, rfl, htrees, .inl rfl⟩
  | @scope _ tokens inner trees elements opener closer delimiter before body opens closes pairs ih
      ihBody =>
    have hpair : Pair (tokens ++ opener :: (inner ++ [closer])) block.delimiter (front.length + 1)
        block.inner := by
      refine ⟨front, block.opener, block.closer, back, ?_, rfl, block.opens, block.closes,
        block.body.balanced⟩
      simpa [Block.tokens] using htokens
    rcases hpair.scope_cases opens body.balanced with
      ⟨start, _, _, rest, rfl, hfirst, -⟩ | ⟨rfl, hfirst, rfl⟩ |
      ⟨index, hfirst, start, opener', closer', rest, rfl, rfl, -⟩
    · -- the block stands before the scope
      obtain ⟨rfl, rfl, rfl, rfl⟩ := Block.append_inj htokens (by omega)
      have hcut : start ++ block.opener :: (block.inner ++ block.closer :: rest) =
          start ++ block.tokens ++ rest := by simp [Block.tokens]
      obtain ⟨trees', hbody, htrees⟩ := ih hcut
      rw [← List.append_assoc]
      refine ⟨_, .scope hbody body opens closes pairs, ?_⟩
      exact forall₂_concat_iff.mpr ⟨_, _, rfl, htrees, .inl rfl⟩
    · -- the block is the scope
      have hcut : tokens ++ opener :: (block.inner ++ closer :: []) ++ [] =
          front ++ block.tokens ++ back := by simpa using htokens
      obtain ⟨rfl, rfl, rfl, rfl⟩ := Block.append_inj hcut (by omega)
      obtain rfl := body.unique block.body
      refine ⟨_, ?_, forall₂_concat_iff.mpr
        ⟨trees, other.tree, rfl, List.forall₂_same.mpr fun _ _ => .inl rfl, halike⟩⟩
      simpa [Block.tokens, Block.tree] using
        Body.scope before other.body other.opens other.closes other.pairs
    · -- the block stands in the scope
      have hcut : tokens ++ opener :: start ++ opener' :: (block.inner ++ closer' :: rest) ++
          [closer] = front ++ block.tokens ++ back := by simpa using htokens
      obtain ⟨rfl, rfl, rfl, rfl⟩ := Block.append_inj hcut (by simp; omega)
      have hinner : start ++ block.opener :: (block.inner ++ block.closer :: rest) =
          start ++ block.tokens ++ rest := by simp [Block.tokens]
      obtain ⟨elements', hbody, helements⟩ := ihBody hinner
      refine ⟨_, ?_, forall₂_concat_iff.mpr
        ⟨trees, _, rfl, List.forall₂_same.mpr fun _ _ => .inl rfl, .scope helements delimiter⟩⟩
      have hscope := Body.scope before hbody opens closes fun hmap => helements.length_eq ▸ pairs hmap
      simpa using hscope

/-! ## What a parser makes of tokens that the grammar reads -/

/-- The map literals of a body have an even number of elements. -/
theorem Body.even_elementCount {literal : Bool} {tokens inner : List Spanned} {trees : List Tree}
    {first : Nat} (h : Body literal tokens trees) (hpair : Pair tokens .shortMap first inner) :
    Even (elementCount inner) := by
  obtain ⟨elements, hnode, hbody⟩ := h.exists_node hpair 0
  rw [← hbody.length_eq rfl]
  exact h.even_of_mem_nodesAll hnode rfl

namespace Parser

variable {limit : Nat} {tokens front back : List Spanned} {trees : List Tree}

/-- What the grammar reads a parser reads, unless more openers are unclosed than the limit allows. -/
theorem document_cases (h : Body false tokens trees) (limit : Nat) :
    (Parser.start tokens limit).document.1 = .ok trees ∨
      ∃ fault front, (Parser.start tokens limit).document.1 = .error fault ∧
        fault.kind = .nestingTooDeep ∧ front <+: tokens ∧ limit < (unclosed front).length := by
  rcases reads_or_stops limit tokens with ⟨reading, hreading⟩ |
    ⟨front, item, back, reading, fault, rfl, hreading, hfault⟩
  · left
    have hlayout := hreading.layout
    have hframes : reading.frames = [] := by
      have hunclosed := hlayout.unclosed_eq
      rw [h.balanced.unclosed_eq_nil] at hunclosed
      exact List.map_eq_nil_iff.mp hunclosed.symm
    rw [hframes] at hlayout
    cases hlayout with
    | top body =>
      rw [hreading.document_eq.1, Reading.finish_eq_ok_iff]
      exact ⟨hframes, h.unique body⟩
  · right
    refine ⟨fault, front ++ [item], (hreading.document_eq_error hfault back).1, ?_⟩
    -- any other cause would be one that the grammar excludes
    have hat := hreading.atFault_of_error hfault
    generalize fault.kind = kind at hat ⊢
    cases hat with
    | unexpectedToken closes unawaited =>
      exact absurd (h.balanced.closersMatch front item back _ rfl closes) unawaited
    | unexpectedQuote quote => exact absurd quote (h.ne_lone_quote item (by simp))
    | nestingTooDeep opens full =>
      refine ⟨rfl, ⟨back, by simp⟩, ?_⟩
      rw [unclosed_concat, track_opener opens, List.length_cons]
      omega
    | @unpairedMapKey outer inner opener cut opens balanced closes odd =>
      have hpair : Pair (front ++ item :: back) .shortMap (outer.length + 1) inner :=
        ⟨outer, opener, item, back, by simp [cut], rfl, opens, closes, balanced⟩
      exact absurd (h.even_elementCount hpair) (Nat.not_even_iff_odd.mpr odd)

/-- Where a document is accepted, no more openers are unclosed than the limit allows. -/
theorem length_unclosed_le (h : (Parser.start tokens limit).document.1 = .ok trees)
    (hfront : front <+: tokens) : (unclosed front).length ≤ limit := by
  obtain ⟨reading, hreading, -⟩ := accepts_iff_reached.mp ⟨trees, h⟩
  obtain ⟨back, rfl⟩ := hfront
  obtain ⟨before, hbefore⟩ := hreading.exists_of_append
  rw [hbefore.layout.unclosed_eq, List.length_map]
  exact hbefore.length_frames_le

/-- The text that the tokens stand for, or their first fault. -/
def text (limit : Nat) (tokens : List Spanned) : Except Diagnostic String :=
  (Parser.start tokens limit).document.1.map fun trees => Form.renderAll (Tree.forms trees)

end Parser

/-! ## Blocks in their surroundings -/

/-- The tokens are one opener up to its matching closer. -/
def Brackets.IsBlock (tokens : List Spanned) : Prop :=
  ∃ opener delimiter inner closer, tokens = opener :: (inner ++ [closer]) ∧
    opener.token = .opener delimiter ∧ closer.token = .closer delimiter.closer ∧ Balanced inner

/-- A balanced run can be replaced by another one without a change to what is unclosed. -/
theorem Brackets.unclosed_replace {run other : List Spanned} (hrun : Balanced run)
    (hother : Balanced other) (front back : List Spanned) :
    unclosed (front ++ run ++ back) = unclosed (front ++ other ++ back) := by
  have hfront : unclosed (front ++ run) = unclosed (front ++ other) := by
    rw [unclosed_append hrun.closersMatch, unclosed_append hother.closersMatch,
      hrun.unclosed_eq_nil, hother.unclosed_eq_nil]
  unfold unclosed at hfront ⊢
  rw [List.foldl_append, hfront, ← List.foldl_append]

/-- Where a balanced run takes the place of another one, what was deep enough before stays so, but for
the run itself. -/
theorem Brackets.exists_deep_part {run other front back deep : List Spanned} {limit : Nat}
    (hrun : Balanced run) (hother : Balanced other)
    (h : ∀ part, part <+: front ++ run ++ back → (unclosed part).length ≤ limit)
    (hdeep : deep <+: front ++ other ++ back) (hlimit : limit < (unclosed deep).length) :
    ∃ part, part <+: other ∧ limit < (unclosed (front ++ part)).length := by
  rcases prefix_append_split hdeep with hshort | ⟨extra, hextra, rfl⟩
  · rcases prefix_append_split hshort with hfront | ⟨part, hpart, rfl⟩
    · have hle := h deep (hfront.trans ⟨run ++ back, by simp⟩)
      omega
    · exact ⟨part, hpart, hlimit⟩
  · have hle := h (front ++ run ++ extra) ((List.prefix_append_right_inj _).mpr hextra)
    rw [unclosed_replace hrun hother] at hle
    omega

/-- A block that is read on its own is read as one scope. -/
theorem exists_block {tokens : List Spanned} {limit : Nat} {text : String} (h : IsBlock tokens)
    (htext : Parser.text limit tokens = .ok text) :
    ∃ block : Block, tokens = block.tokens ∧ block.tree.form.render = text := by
  obtain ⟨opener, delimiter, inner, closer, rfl, hopener, hcloser, hinner⟩ := h
  obtain ⟨trees, hdocument, hrender⟩ := exists_of_map_ok htext
  have hbody := Parser.body_of_document_eq_ok hdocument
  rw [← List.cons_append] at hbody
  rcases hbody.concat_cases with ⟨_, -, -, plain, -⟩ | ⟨_, _, -, -, step, -⟩ |
    ⟨_, _, _, -, -, step, -⟩ | ⟨_, _, _, -, -, -, word, -⟩ |
    ⟨front, opener', inner', delimiter', others, elements, hcut, rfl, hbefore, hbody', hopens,
      hcloses, hpairs⟩
  · simp [hcloser, Token.isPlain] at plain
  · simp [hcloser] at step
  · simp [hcloser] at step
  · simp [hcloser] at word
  · obtain ⟨rfl, rfl, rfl⟩ :=
      eq_of_append_opener hopener hopens hinner hbody'.balanced ((List.nil_append _).trans hcut)
    obtain rfl := hbefore.trees_eq_nil
    refine ⟨⟨delimiter', opener, inner, closer, elements, hopens, hcloses, hbody', hpairs⟩, rfl, ?_⟩
    rw [← hrender]
    simp [Block.tree, Tree.forms]

theorem Block.alike {block other : Block}
    (h : block.tree.form.render = other.tree.form.render) : block.tree.Alike other.tree :=
  .inr ⟨by simp [Block.tree, Tree.form], by simp [Block.tree, Tree.form], h⟩

/-- A block affects what stands around it only through its text: where it is replaced by another one
with the same text, the output stays the same, or the new block nests too deep there. -/
theorem text_replace_block {block other : List Spanned} {limit₁ limit₂ : Nat} {blockText : String}
    (hblock : IsBlock block) (hother : IsBlock other)
    (hblockText : Parser.text limit₁ block = .ok blockText)
    (hotherText : Parser.text limit₂ other = .ok blockText)
    (front back : List Spanned) (limit : Nat) {whole : String}
    (h : Parser.text limit (front ++ block ++ back) = .ok whole) :
    Parser.text limit (front ++ other ++ back) = .ok whole ∨
      ∃ fault part, Parser.text limit (front ++ other ++ back) = .error fault ∧
        fault.kind = .nestingTooDeep ∧ part <+: other ∧
        limit < (unclosed (front ++ part)).length := by
  obtain ⟨block, rfl, hrender⟩ := exists_block hblock hblockText
  obtain ⟨other, rfl, hrender'⟩ := exists_block hother hotherText
  obtain ⟨trees, hdocument, rfl⟩ := exists_of_map_ok h
  obtain ⟨trees', hbody, halike⟩ := (Parser.body_of_document_eq_ok hdocument).replace
    (Block.alike (hrender.trans hrender'.symm)) rfl
  rcases Parser.document_cases hbody limit with
    hdocument' | ⟨fault, deep, hfault, hkind, hdeep, hlimit⟩
  · left
    rw [Parser.text, hdocument', Tree.renderAll_forms_eq halike]
    rfl
  · right
    obtain ⟨part, hpart, hdepth⟩ := exists_deep_part block.balanced other.balanced
      (fun _ => Parser.length_unclosed_le hdocument) hdeep hlimit
    refine ⟨fault, part, ?_, hkind, hpart, hdepth⟩
    rw [Parser.text, hfault]
    rfl

/-- The tokens of `(.upcase)`, a call on the argument of a block. -/
def bareCall : List Spanned :=
  [⟨.opener .paren, ⟨9, 10⟩⟩, ⟨.word ".upcase", ⟨10, 17⟩⟩, ⟨.closer .round, ⟨17, 18⟩⟩]

/-- The tokens of `(&:upcase)`, a method reference to the same effect. -/
def methodReference : List Spanned :=
  [⟨.opener .paren, ⟨9, 10⟩⟩, ⟨.methodRef "&:upcase", ⟨10, 18⟩⟩, ⟨.closer .round, ⟨18, 19⟩⟩]

/-- The tokens of `{x -> \a[`, up to the place of a block. -/
def arrayStart : List Spanned :=
  [⟨.opener .brace, ⟨0, 1⟩⟩, ⟨.word "x", ⟨1, 2⟩⟩, ⟨.arrow, ⟨3, 5⟩⟩, ⟨.opener .shortArray, ⟨6, 9⟩⟩]

/-- The tokens of `++ -1]}` behind a block. -/
def arrayStop : List Spanned :=
  [⟨.step .increment, ⟨19, 21⟩⟩, ⟨.operator "-", ⟨22, 23⟩⟩, ⟨.word "1", ⟨23, 24⟩⟩,
   ⟨.closer .square, ⟨24, 25⟩⟩, ⟨.closer .curly, ⟨25, 26⟩⟩]

/-- Two ways to write one block, below a step operator in an array literal in a lambda. -/
theorem text_replace_block_methodReference :
    IsBlock bareCall ∧ IsBlock methodReference ∧
      Parser.text 1 bareCall = .ok "\x7b|it|it.upcase\x7d" ∧
      Parser.text 1 methodReference = .ok "\x7b|it|it.upcase\x7d" ∧
      Parser.text 3 (arrayStart ++ bareCall ++ arrayStop) =
        .ok "\x7b|it, x|[\x7b|it|it.upcase\x7d.succ, -1]\x7d" ∧
      (Parser.text 3 (arrayStart ++ methodReference ++ arrayStop) =
        .ok "\x7b|it, x|[\x7b|it|it.upcase\x7d.succ, -1]\x7d" ∨
      ∃ fault part, Parser.text 3 (arrayStart ++ methodReference ++ arrayStop) = .error fault ∧
        fault.kind = .nestingTooDeep ∧ part <+: methodReference ∧
        3 < (unclosed (arrayStart ++ part)).length) := by
  have hcall : IsBlock bareCall :=
    ⟨_, .paren, [_], _, rfl, rfl, rfl, balanced_atomic rfl⟩
  have hreference : IsBlock methodReference :=
    ⟨_, .paren, [_], _, rfl, rfl, rfl, balanced_atomic rfl⟩
  have htext : Parser.text 1 bareCall = .ok "\x7b|it|it.upcase\x7d" :=
    eq_ok_of_toOption_eq_some (by decide +kernel)
  have htext' : Parser.text 1 methodReference = .ok "\x7b|it|it.upcase\x7d" :=
    eq_ok_of_toOption_eq_some (by decide +kernel)
  have hwhole : Parser.text 3 (arrayStart ++ bareCall ++ arrayStop) =
      .ok "\x7b|it, x|[\x7b|it|it.upcase\x7d.succ, -1]\x7d" :=
    eq_ok_of_toOption_eq_some (by decide +kernel)
  exact ⟨hcall, hreference, htext, htext', hwhole,
    text_replace_block hcall hreference htext htext' arrayStart arrayStop 3 hwhole⟩

end Desugar
