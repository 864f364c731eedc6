import Desugar.Proofs.Elements

/-!
# Matched brackets

A pair of brackets (`Brackets.Pair`) is an opener, a balanced run and the closer that the opener waits
for.  It is a fact about the tokens between the brackets only, so it stays a pair with any tokens
around it, also where brackets before it were left unclosed.

Two pairs of one stream never overlap: the one that starts later starts behind the end of the other,
or it is a pair of what stands between the brackets of the other (`Pair.behind_or_inside`).  How deep
a pair stands is told by the openers unclosed in front of it, and it grows by one from a pair to the
pairs that stand in it with no other pair between them (`Pair.depth_or_between`).
-/

namespace Desugar.Brackets

variable {tokens front back inner run : List Spanned} {opener closer item : Spanned}
  {delimiter kind : Delimiter} {first other : Nat}

/-! ## Openers and their closers -/

/-- Behind a balanced run there is nothing to close. -/
theorem ClosersMatch.ne_append_closer {bracket : Bracket}
    (h : ClosersMatch inner) (hrun : Balanced run) (hcloser : closer.token = .closer bracket) :
    inner ≠ run ++ closer :: back := by
  intro heq
  have hawaited := h run closer back bracket heq hcloser
  simp [awaited?, hrun.unclosed_eq_nil] at hawaited

/-- Where something is unclosed, the tokens can be cut at the innermost unclosed opener. -/
theorem ClosersMatch.exists_innermost (h : ClosersMatch tokens) (hopen : unclosed tokens ≠ []) :
    ∃ front opener delimiter inner, tokens = front ++ opener :: inner ∧
      opener.token = .opener delimiter ∧ Balanced inner := by
  -- a closer uncovers an opener further in front, so the induction is on the length
  induction hlength : tokens.length using Nat.strong_induction_on generalizing tokens with
  | _ _ ih =>
  subst hlength
  rcases List.eq_nil_or_concat' tokens with rfl | ⟨tokens, item, rfl⟩
  · simp at hopen
  obtain ⟨htokens, hitem⟩ := (closersMatch_concat_iff tokens item).mp h
  cases htoken : item.token with
  | opener delimiter => exact ⟨tokens, item, delimiter, [], rfl, htoken, balanced_nil⟩
  | closer bracket =>
    rw [unclosed_concat, track_closer htoken] at hopen
    have hsome : unclosed tokens ≠ [] := by
      intro hnil
      simp [hnil] at hopen
    obtain ⟨front, opener, delimiter, inner, rfl, hopener, hinner⟩ :=
      ih tokens.length (by simp) htokens hsome rfl
    rw [unclosed_append_opener hopener hinner, List.tail_cons] at hopen
    obtain ⟨front, outer, kind, between, rfl, houter, hbetween⟩ :=
      ih front.length (by simp) htokens.of_append hopen rfl
    have hawaited := hitem bracket htoken
    rw [awaited?, unclosed_append_opener hopener hinner] at hawaited
    have hcloser : item.token = .closer delimiter.closer := by
      rw [htoken]
      simpa [eq_comm] using hawaited
    refine ⟨front, outer, kind, between ++ opener :: (inner ++ [item]), by simp, houter, ?_⟩
    exact hbetween.append (hinner.scope hopener hcloser)
  | _ =>
    have hatomic : item.token.isAtomic = true := by simp [htoken, Token.isAtomic]
    rw [unclosed_concat, track_atomic hatomic] at hopen
    obtain ⟨front, opener, delimiter, inner, rfl, hopener, hinner⟩ :=
      ih tokens.length (by simp) htokens hopen rfl
    refine ⟨front, opener, delimiter, inner ++ [item], by simp, hopener, ?_⟩
    exact hinner.append (balanced_atomic hatomic)

/-- Behind an opener the closers match up to the one that closes it. -/
theorem ClosersMatch.open_or_closed (hopener : opener.token = .opener delimiter)
    (h : ClosersMatch (front ++ opener :: back)) :
    ClosersMatch back ∨ ∃ inner closer rest, back = inner ++ closer :: rest ∧
      closer.token = .closer delimiter.closer ∧ Balanced inner := by
  induction back using List.reverseRecOn with
  | nil => exact .inl closersMatch_nil
  | append_singleton back item ih =>
    rw [← List.cons_append, ← List.append_assoc] at h
    obtain ⟨hback, hitem⟩ := (closersMatch_concat_iff _ item).mp h
    rcases ih hback with hmatch | ⟨inner, closer, rest, rfl, hcloser, hinner⟩
    · by_cases hunclosed : unclosed back = []
      · -- the opener is the innermost one, so the next closer is its own
        have hbalanced : Balanced back := ⟨hmatch, hunclosed⟩
        cases htoken : item.token with
        | closer bracket =>
          have hawaited := hitem bracket htoken
          rw [awaited?, unclosed_append_opener hopener hbalanced] at hawaited
          refine .inr ⟨back, item, [], rfl, ?_, hbalanced⟩
          rw [htoken]
          simpa [eq_comm] using hawaited
        | _ => exact .inl (hmatch.append (closersMatch_singleton (by simp [htoken, Token.isCloser])))
      · refine .inl ((closersMatch_concat_iff back item).mpr ⟨hmatch, fun bracket htoken => ?_⟩)
        have hawaited := hitem bracket htoken
        rw [awaited?, List.append_cons, unclosed_append hmatch] at hawaited
        rw [awaited?, ← hawaited, List.head?_append_of_ne_nil _ hunclosed]
    · exact .inr ⟨inner, closer, rest ++ [item], by simp, hcloser, hinner⟩

/-- In a balanced run every opener is closed. -/
theorem Balanced.exists_closer (h : Balanced (front ++ opener :: back))
    (hopener : opener.token = .opener delimiter) :
    ∃ inner closer rest, back = inner ++ closer :: rest ∧
      closer.token = .closer delimiter.closer ∧ Balanced inner := by
  rcases h.closersMatch.open_or_closed hopener with hmatch | hclosed
  · have hunclosed := h.unclosed_eq_nil
    rw [List.append_cons, unclosed_append hmatch, unclosed_concat, track_opener hopener] at hunclosed
    simp at hunclosed
  · exact hclosed

/-! ## Pairs and what stands around them -/

theorem Pair.subset (h : Pair tokens kind first run) : run ⊆ tokens := by
  obtain ⟨front, opener, closer, back, rfl, -⟩ := h
  intro item hitem
  simp [hitem]

/-- Tokens around a stream leave its pairs pairs. -/
theorem Pair.around (h : Pair tokens kind first run) (front back : List Spanned) :
    Pair (front ++ tokens ++ back) kind (front.length + first) run := by
  obtain ⟨start, opener, closer, rest, rfl, rfl, hopener, hcloser, hrun⟩ := h
  refine ⟨front ++ start, opener, closer, rest ++ back, by simp, ?_, hopener, hcloser, hrun⟩
  rw [List.length_append, Nat.add_assoc]

/-- A pair between the brackets of a pair is one of the whole stream. -/
theorem Pair.nested (h : Pair tokens delimiter first inner) (h' : Pair inner kind other run) :
    Pair tokens kind (first + other) run := by
  obtain ⟨front, opener, closer, back, rfl, rfl, -⟩ := h
  simpa using h'.around (front ++ [opener]) (closer :: back)

theorem Pair.first_pos (h : Pair tokens kind first run) : 0 < first := by
  obtain ⟨start, _, _, _, -, rfl, -⟩ := h
  omega

theorem Pair.stop_lt (h : Pair tokens kind first run) : first + run.length < tokens.length := by
  obtain ⟨start, opener, closer, rest, rfl, rfl, -⟩ := h
  simp only [List.length_append, List.length_cons]
  omega

/-- A further token closes a pair or none. -/
theorem pair_concat_iff :
    Pair (tokens ++ [item]) kind first run ↔
      Pair tokens kind first run ∨
        ∃ front opener, tokens = front ++ opener :: run ∧ first = front.length + 1 ∧
          opener.token = .opener kind ∧ item.token = .closer kind.closer ∧ Balanced run := by
  constructor
  · rintro ⟨front, opener, closer, back, heq, hfirst, hopener, hcloser, hrun⟩
    rcases List.eq_nil_or_concat' back with rfl | ⟨back, last, rfl⟩
    · have hcut : tokens ++ [item] = (front ++ opener :: run) ++ [closer] := by simpa using heq
      obtain ⟨rfl, rfl⟩ := concat_inj hcut
      exact .inr ⟨front, opener, rfl, hfirst, hopener, hcloser, hrun⟩
    · have hcut : tokens ++ [item] = (front ++ opener :: (run ++ closer :: back)) ++ [last] := by
        simpa using heq
      exact .inl ⟨front, opener, closer, back, (concat_inj hcut).1, hfirst, hopener, hcloser, hrun⟩
  · rintro (h | ⟨front, opener, rfl, hfirst, hopener, hitem, hrun⟩)
    · simpa using h.around [] [item]
    · exact ⟨front, opener, item, [], by simp, hfirst, hopener, hitem, hrun⟩

/-- A token that closes nothing ends no scope. -/
theorem Pair.of_concat (h : Pair (tokens ++ [item]) kind first run)
    (hitem : item.token.isCloser = false) : Pair tokens kind first run := by
  rcases pair_concat_iff.mp h with hpair | ⟨_, _, -, -, -, hcloser, -⟩
  · exact hpair
  · simp [hcloser, Token.isCloser] at hitem

/-- Of tokens that end in a scope, a closed scope is in front of it, it is that scope, or it is inside
it. -/
theorem Pair.scope_cases (hopener : opener.token = .opener delimiter) (hinner : Balanced inner)
    (h : Pair (front ++ opener :: (inner ++ [closer])) kind first run) :
    Pair front kind first run ∨
      (kind = delimiter ∧ first = front.length + 1 ∧ run = inner) ∨
      ∃ index, first = front.length + 1 + index ∧ Pair inner kind index run := by
  rw [← List.cons_append, ← List.append_assoc] at h
  rcases pair_concat_iff.mp h with
    ⟨start, opener', closer', back, heq, hfirst, hopener', hcloser', hrun⟩ |
    ⟨start, opener', heq, hfirst, hopener', -, hrun⟩
  swap
  · obtain ⟨rfl, rfl, rfl⟩ := eq_of_append_opener hopener hopener' hinner hrun heq
    rw [hopener, Token.opener.injEq] at hopener'
    exact .inr (.inl ⟨hopener'.symm, hfirst, rfl⟩)
  have hmatch := hinner.closersMatch
  rcases List.append_eq_append_iff.mp heq with ⟨middle, rfl, hrest⟩ | ⟨middle, rfl, hrest⟩
  · -- the pair starts behind `front`
    cases middle with
    | nil =>
      exact absurd (List.cons.inj hrest).2 (hmatch.ne_append_closer hrun hcloser')
    | cons item middle =>
      refine .inr (.inr ⟨middle.length + 1, by simp [hfirst]; omega, ?_⟩)
      exact ⟨middle, opener', closer', back, (List.cons.inj hrest).2, rfl, hopener', hcloser', hrun⟩
  · -- the pair starts in `front`, so it ends there
    cases middle with
    | nil =>
      exact absurd (List.cons.inj hrest).2.symm (hmatch.ne_append_closer hrun hcloser')
    | cons item middle =>
      obtain ⟨rfl, htail⟩ := List.cons.inj hrest
      rcases List.append_eq_append_iff.mp htail with ⟨middle', rfl, hrest'⟩ | ⟨middle', rfl, hrest'⟩
      · cases middle' with
        | nil =>
          obtain ⟨rfl, -⟩ := List.cons.inj hrest'
          simp [hopener] at hcloser'
        | cons item middle' =>
          obtain ⟨rfl, -⟩ := List.cons.inj hrest'
          exact .inl ⟨start, _, _, middle', by simp, hfirst, hopener', hcloser', hrun⟩
      · exfalso
        cases middle' with
        | nil =>
          obtain ⟨rfl, -⟩ := List.cons.inj hrest'
          simp [hopener] at hcloser'
        | cons item middle' =>
          -- the opener of the scope would be closed inside it
          obtain ⟨rfl, rfl⟩ := List.cons.inj hrest'
          have hunclosed := hrun.unclosed_eq_nil
          rw [List.append_cons, unclosed_append hmatch.of_append, unclosed_concat,
            track_opener hopener] at hunclosed
          simp at hunclosed

/-- Behind an opener stands one balanced run with a closer behind it. -/
theorem eq_of_append_closer {rest : List Spanned} {bracket bracket' : Bracket} {closer' : Spanned}
    (hinner : Balanced inner) (hrun : Balanced run) (hcloser : closer.token = .closer bracket)
    (hcloser' : closer'.token = .closer bracket')
    (h : inner ++ closer :: back = run ++ closer' :: rest) : inner = run := by
  rcases List.append_eq_append_iff.mp h with ⟨middle, rfl, hrest⟩ | ⟨middle, rfl, hrest⟩
  · cases middle with
    | nil => simp
    | cons item middle =>
      obtain ⟨rfl, -⟩ := List.cons.inj hrest
      exact absurd rfl (hrun.closersMatch.ne_append_closer hinner hcloser)
  · cases middle with
    | nil => simp
    | cons item middle =>
      obtain ⟨rfl, -⟩ := List.cons.inj hrest
      exact absurd rfl (hinner.closersMatch.ne_append_closer hrun hcloser')

/-- A pair is told by where it starts. -/
theorem Pair.unique (h : Pair tokens delimiter first inner) (h' : Pair tokens kind first run) :
    delimiter = kind ∧ inner = run := by
  obtain ⟨front, opener, closer, back, rfl, rfl, hopener, hcloser, hinner⟩ := h
  obtain ⟨front', opener', closer', back', heq, hlength, hopener', hcloser', hrun⟩ := h'
  obtain ⟨rfl, hrest⟩ := List.append_inj heq (by omega)
  obtain ⟨rfl, htail⟩ := List.cons.inj hrest
  rw [hopener, Token.opener.injEq] at hopener'
  exact ⟨hopener', eq_of_append_closer hinner hrun hcloser hcloser' htail⟩

/-- Of two pairs, the one that starts later starts behind the other or is inside it. -/
theorem Pair.behind_or_inside (h : Pair tokens delimiter first inner) (h' : Pair tokens kind other run)
    (hlt : first < other) :
    first + inner.length + 1 < other ∨
      ∃ index, other = first + index ∧ Pair inner kind index run := by
  obtain ⟨front, opener, closer, back, rfl, rfl, hopener, hcloser, hinner⟩ := h
  obtain ⟨front', opener', closer', back', heq, rfl, hopener', hcloser', hrun⟩ := h'
  -- the second opener stands behind the first
  obtain ⟨middle, rfl, hrest⟩ : ∃ middle, front' = front ++ opener :: middle ∧
      inner ++ closer :: back = middle ++ opener' :: (run ++ closer' :: back') := by
    rcases List.append_eq_append_iff.mp heq with ⟨middle, rfl, hrest⟩ | ⟨middle, rfl, hrest⟩
    · cases middle with
      | nil => simp at hlt
      | cons item middle =>
        obtain ⟨rfl, htail⟩ := List.cons.inj hrest
        exact ⟨middle, rfl, htail⟩
    · simp only [List.length_append] at hlt
      omega
  rcases List.append_eq_append_iff.mp hrest with ⟨extra, rfl, hextra⟩ | ⟨extra, rfl, hextra⟩
  · cases extra with
    | nil =>
      obtain ⟨rfl, -⟩ := List.cons.inj hextra
      simp [hcloser] at hopener'
    | cons item extra =>
      refine .inl ?_
      simp only [List.length_append, List.length_cons]
      omega
  · cases extra with
    | nil =>
      obtain ⟨rfl, -⟩ := List.cons.inj hextra
      simp [hcloser] at hopener'
    | cons item extra =>
      obtain ⟨rfl, htail⟩ := List.cons.inj hextra
      -- what closes the second opener stands in the balanced run
      obtain ⟨run', last, rest, rfl, hlast, hrun'⟩ := hinner.exists_closer hopener'
      have hcut : run ++ closer' :: back' = run' ++ last :: (rest ++ closer :: back) := by
        simpa using htail
      obtain rfl := eq_of_append_closer hrun hrun' hcloser' hlast hcut
      refine .inr ⟨middle.length + 1, by simp; omega, ?_⟩
      exact ⟨middle, opener', last, rest, rfl, rfl, hopener', hlast, hrun'⟩

/-! ## How deep a pair stands -/

/-- A pair inside another one stands one deeper, or there is a pair between them. -/
theorem Pair.depth_or_between (h : Pair tokens delimiter first inner)
    (h' : Pair inner kind other run) :
    (unclosed (tokens.take (first + other - 1))).length =
        (unclosed (tokens.take (first - 1))).length + 1 ∨
      ∃ delimiter' start between, Pair inner delimiter' start between ∧
        start < other ∧ other + run.length < start + between.length := by
  have hpair := h'
  obtain ⟨front, opener, closer, back, rfl, rfl, hopener, hcloser, hinner⟩ := h
  obtain ⟨middle, opener', closer', rest, rfl, rfl, hopener', hcloser', hrun⟩ := h'
  have hmatch : ClosersMatch middle := hinner.closersMatch.of_append
  by_cases hunclosed : unclosed middle = []
  · left
    have hbalanced : Balanced middle := ⟨hmatch, hunclosed⟩
    have houter : (front ++ opener :: (middle ++ opener' :: (run ++ closer' :: rest) ++
        closer :: back)).take (front.length + 1 - 1) = front := by simp
    have htake : (front ++ opener :: (middle ++ opener' :: (run ++ closer' :: rest) ++
        closer :: back)).take (front.length + 1 + (middle.length + 1) - 1) =
        front ++ opener :: middle := by
      rw [List.append_assoc, ← List.cons_append, ← List.append_assoc]
      exact List.take_left' (by simp; omega)
    rw [htake, houter, unclosed_append_opener hopener hbalanced, List.length_cons]
  · right
    obtain ⟨start, outer, delimiter', behind, rfl, houter, hbehind⟩ :=
      hmatch.exists_innermost hunclosed
    -- the innermost opener unclosed in front of the pair has its closer behind it
    have hcut := hinner
    rw [List.append_assoc, List.cons_append] at hcut
    obtain ⟨between, last, after, hafter, hlast, hbetween⟩ := hcut.exists_closer houter
    have hpair' : Pair (start ++ outer :: behind ++ opener' :: (run ++ closer' :: rest))
        delimiter' (start.length + 1) between := by
      refine ⟨start, outer, last, after, ?_, rfl, houter, hlast, hbetween⟩
      rw [List.append_assoc, List.cons_append, hafter]
    refine ⟨delimiter', start.length + 1, between, hpair', by simp, ?_⟩
    rcases hpair'.behind_or_inside hpair (by simp) with hbefore | ⟨index, hindex, hinside⟩
    · -- the run behind that opener is balanced, so it has no closer left for it
      exfalso
      simp only [List.length_append, List.length_cons] at hbefore
      have hclosed : between ++ [last] <+: behind ++ opener' :: (run ++ closer' :: rest) :=
        ⟨after, by simp [hafter]⟩
      obtain ⟨extra, hextra⟩ : between ++ [last] <+: behind := by
        apply List.prefix_of_prefix_length_le hclosed (List.prefix_append _ _)
        simp only [List.length_append, List.length_singleton]
        omega
      exact hbehind.closersMatch.ne_append_closer hbetween hlast (by simpa using hextra.symm)
    · have hstop := hinside.stop_lt
      omega

end Desugar.Brackets
