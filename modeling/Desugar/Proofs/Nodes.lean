import Desugar.Proofs.Pairs
import Desugar.Proofs.Reading
import Desugar.Source

/-!
# The scopes of a document

A closed scope shows twice: on the tokens as a pair of brackets (`Brackets.Pair`), and in the trees
that were read from them as a node (`Tree.nodesAll`).  Both are told by the index of the first token
inside the brackets, and `Body.exists_node` finds the node of each pair, with the elements that the
grammar reads from the tokens between the brackets.  What a closed scope of a source becomes is thus
the form of its node (`exists_node_of_desugar_eq_ok`).
-/

namespace Desugar

open Brackets

namespace Tree

/-- A scope in a row of trees: its delimiter, the index that the first token behind its opener has
among the tokens of the row, and its elements. -/
structure Node where
  delimiter : Delimiter
  first : Nat
  elements : List Tree
  deriving DecidableEq, Repr

mutual

/-- The scopes in a tree whose first token has the index `start`, the outer ones first. -/
def nodes (start : Nat) : Tree → List Node
  | .leaf _ => []
  | .signed _ _ => []
  | .stepped element _ => nodes start element
  | .scope delimiter elements =>
    ⟨delimiter, start + 1, elements⟩ :: nodesAll (start + 1) elements

/-- The scopes in a row of trees whose first token has the index `start`. -/
def nodesAll (start : Nat) : List Tree → List Node
  | [] => []
  | tree :: trees => nodes start tree ++ nodesAll (start + tree.tokens.length) trees

end

theorem nodesAll_append (start : Nat) (front back : List Tree) :
    nodesAll start (front ++ back) =
      nodesAll start front ++ nodesAll (start + (tokensAll front).length) back := by
  induction front generalizing start with
  | nil => simp [nodesAll, tokensAll]
  | cons tree trees ih =>
    simp [nodesAll, tokensAll, ih, List.append_assoc, Nat.add_assoc]

theorem nodesAll_concat (start : Nat) (trees : List Tree) (tree : Tree) :
    nodesAll start (trees ++ [tree]) =
      nodesAll start trees ++ nodes (start + (tokensAll trees).length) tree := by
  simp [nodesAll_append, nodesAll]

end Tree

/-- Every closed scope of a body is a node of its trees, and the elements of the node are what the
tokens between the brackets are read as. -/
theorem Body.exists_node {literal : Bool} {tokens inner : List Spanned} {trees : List Tree}
    {delimiter : Delimiter} {first : Nat} (h : Body literal tokens trees)
    (hpair : Pair tokens delimiter first inner) (start : Nat) :
    ∃ elements, ⟨delimiter, start + first, elements⟩ ∈ Tree.nodesAll start trees ∧
      Body delimiter.isShortLiteral inner elements := by
  induction h generalizing first inner start with
  | nil =>
    obtain ⟨_, _, _, _, heq, -⟩ := hpair
    simp at heq
  | leaf _ plain _ ih =>
    obtain ⟨elements, hmem, hbody⟩ := ih (hpair.of_concat (Token.isCloser_of_isPlain plain)) start
    exact ⟨elements, by simp [Tree.nodesAll_concat, hmem], hbody⟩
  | lone _ token _ ih =>
    obtain ⟨elements, hmem, hbody⟩ := ih (hpair.of_concat (by simp [token, Token.isCloser])) start
    exact ⟨elements, by simp [Tree.nodesAll_concat, hmem], hbody⟩
  | stepped _ token _ ih =>
    obtain ⟨elements, hmem, hbody⟩ := ih (hpair.of_concat (by simp [token, Token.isCloser])) start
    exact ⟨elements, by simpa [Tree.nodesAll_concat, Tree.nodes] using hmem, hbody⟩
  | signed _ token _ ih =>
    obtain ⟨elements, hmem, hbody⟩ := ih (hpair.of_concat (by simp [token, Token.isCloser])) start
    exact ⟨elements, by simpa [Tree.nodesAll_concat, Tree.nodes] using hmem, hbody⟩
  | @scope _ front inner' trees elements' _ _ delimiter' before body opens _ _ ih ihBody =>
    have hlength : (Tree.tokensAll trees).length = front.length := by simp [before.tokensAll_eq]
    simp only [Tree.nodesAll_concat, Tree.nodes, List.mem_append, List.mem_cons, hlength]
    rcases hpair.scope_cases opens body.balanced with hfront | ⟨rfl, rfl, rfl⟩ | ⟨index, rfl, hinner⟩
    · obtain ⟨elements, hmem, hbody⟩ := ih hfront start
      exact ⟨elements, .inl hmem, hbody⟩
    · exact ⟨elements', .inr (.inl rfl), body⟩
    · obtain ⟨elements, hmem, hbody⟩ := ihBody hinner (start + front.length + 1)
      exact ⟨elements, .inr (.inr (by simpa [Nat.add_assoc] using hmem)), hbody⟩

/-- What a source is desugared to is the text of the trees of its tokens. -/
theorem exists_trees_of_desugar_eq_ok {source text : String} {limit : Nat}
    (h : desugar source limit = .ok text) :
    ∃ tokens trees, tokenize source = .ok tokens ∧
      (Parser.start tokens limit).document.1 = .ok trees ∧
      text = Form.renderAll (Tree.forms trees) := by
  cases htokens : tokenize source with
  | error fault => simp [desugar, htokens, bind, Except.bind] at h
  | ok tokens =>
    cases hdocument : (Parser.start tokens limit).document.1 with
    | error fault => simp [desugar, htokens, hdocument, bind, Except.bind, Except.mapError] at h
    | ok trees =>
      have htext : Form.renderAll (Tree.forms trees) = text := by
        simpa [desugar, htokens, hdocument, bind, Except.bind, Except.mapError, pure, Except.pure]
          using h
      exact ⟨tokens, trees, rfl, hdocument, htext.symm⟩

/-- Every closed scope of a source that is desugared is a node of the trees whose text is the
output. -/
theorem exists_node_of_desugar_eq_ok {source text : String} {limit : Nat}
    {tokens inner : List Spanned} {delimiter : Delimiter} {first : Nat}
    (h : desugar source limit = .ok text) (htokens : tokenize source = .ok tokens)
    (hpair : Pair tokens delimiter first inner) :
    ∃ trees elements, (Parser.start tokens limit).document.1 = .ok trees ∧
      text = Form.renderAll (Tree.forms trees) ∧
      ⟨delimiter, first, elements⟩ ∈ Tree.nodesAll 0 trees ∧
      Body delimiter.isShortLiteral inner elements := by
  obtain ⟨tokens', trees, htokens', hdocument, htext⟩ := exists_trees_of_desugar_eq_ok h
  obtain rfl : tokens' = tokens := Except.ok.inj (htokens'.symm.trans htokens)
  obtain ⟨elements, hnode, helements⟩ :=
    (Parser.body_of_document_eq_ok hdocument).exists_node hpair 0
  rw [Nat.zero_add] at hnode
  exact ⟨trees, elements, hdocument, htext, hnode, helements⟩

end Desugar
