import Desugar.Preprocess.Markers
import Mathlib.Data.List.Basic
import Mathlib.Data.List.Infix

/-!
# Which lines the filter keeps

`Markers.keep` goes over the lines of a file with a flag that says whether a region is open.  What
it keeps can be said of each line on its own: the flag is what the nearest marker above the line
says (`Markers.nearest?`), and `Markers.keeps` decides by that and by the line alone.

## Shape of the proof

* `keep_inside_cons` carries the run: with some lines before, the flag is told by their nearest
  marker, and one more line changes the two in the same way.
* `lines_eq_iff` says what it is to be the lines of a text.  Leaving lines out keeps that
  (`AreLines.sublist`), so the lines of what was kept are the lines that were kept: none is lost and
  no two grow together.
-/

namespace Desugar

namespace Text

/-! ## Lines -/

/-- Texts that are the lines of a text: a line feed stands only at the end of a line, and at the end
of every line but the last one. -/
structure AreLines (parts : List (List Char)) : Prop where
  line : ∀ part ∈ parts, part ≠ [] ∧ '\n' ∉ part.dropLast
  ended : parts.Pairwise fun part _ => part.getLast? = some '\n'

theorem AreLines.sublist {parts others : List (List Char)} (h : AreLines parts)
    (hothers : others.Sublist parts) : AreLines others :=
  ⟨fun part hpart => h.line part (hothers.subset hpart), h.ended.sublist hothers⟩

theorem flatten_lines (cs : List Char) : (lines cs).flatten = cs := by
  induction cs with
  | nil => rfl
  | cons c cs ih =>
    rw [lines]
    split
    · rw [List.flatten_cons, ih, List.singleton_append]
    · split
      · next hlines =>
        rw [hlines] at ih
        rw [← ih]
        rfl
      · next part parts hlines =>
        rw [hlines] at ih
        rw [← ih]
        rfl

theorem areLines_lines (cs : List Char) : AreLines (lines cs) := by
  induction cs with
  | nil => exact ⟨by simp [lines], by simp [lines]⟩
  | cons c cs ih =>
    rw [lines]
    split
    · next hc =>
      subst hc
      refine ⟨?_, List.pairwise_cons.mpr ⟨fun _ _ => rfl, ih.ended⟩⟩
      intro part hpart
      rcases List.mem_cons.mp hpart with rfl | hpart
      · simp
      · exact ih.line part hpart
    · next hc =>
      split
      · exact ⟨by simp, by simp⟩
      · next part parts hlines =>
        rw [hlines] at ih
        obtain ⟨hne, hnewline⟩ := ih.line part (by simp)
        obtain ⟨hfirst, hothers⟩ := List.pairwise_cons.mp ih.ended
        refine ⟨?_, List.pairwise_cons.mpr ⟨?_, hothers⟩⟩
        · intro other hother
          rcases List.mem_cons.mp hother with rfl | hother
          · rw [List.dropLast_cons_of_ne_nil hne]
            exact ⟨by simp, by simp [hnewline, Ne.symm hc]⟩
          · exact ih.line other (by simp [hother])
        · intro other hother
          rw [List.getLast?_cons, hfirst other hother]
          rfl

/-- The first line of a text ends at its first line feed. -/
theorem lines_append_newline {text : List Char} (h : '\n' ∉ text) (rest : List Char) :
    lines (text ++ '\n' :: rest) = (text ++ ['\n']) :: lines rest := by
  induction text with
  | nil => rw [List.nil_append, lines, if_pos rfl, List.nil_append]
  | cons c text ih =>
    have hc : c ≠ '\n' := fun hc => h (by simp [hc])
    have htext : '\n' ∉ text := fun hmem => h (by simp [hmem])
    rw [List.cons_append, lines, if_neg hc, ih htext]
    rfl

/-- A text without a line feed is one line. -/
theorem lines_of_not_mem {text : List Char} (hne : text ≠ []) (h : '\n' ∉ text) :
    lines text = [text] := by
  induction text with
  | nil => exact absurd rfl hne
  | cons c text ih =>
    have hc : c ≠ '\n' := fun hc => h (by simp [hc])
    have htext : '\n' ∉ text := fun hmem => h (by simp [hmem])
    rw [lines, if_neg hc]
    cases text with
    | nil => rfl
    | cons d text => rw [ih (by simp) htext]

theorem AreLines.lines_flatten {parts : List (List Char)} (h : AreLines parts) :
    lines parts.flatten = parts := by
  induction parts with
  | nil => rfl
  | cons part parts ih =>
    obtain ⟨hne, hnewline⟩ := h.line part (by simp)
    have hrest := ih (h.sublist (List.sublist_cons_self part parts))
    by_cases hlast : part.getLast? = some '\n'
    · obtain ⟨text, rfl⟩ := List.getLast?_eq_some_iff.mp hlast
      rw [List.dropLast_concat] at hnewline
      rw [List.flatten_cons, List.append_assoc, List.singleton_append,
        lines_append_newline hnewline, hrest]
    · -- no line stands behind one without a line feed
      have hparts : parts = [] := by
        by_contra hparts
        obtain ⟨other, others, rfl⟩ := List.exists_cons_of_ne_nil hparts
        exact hlast ((List.pairwise_cons.mp h.ended).1 other (by simp))
      have hnone : '\n' ∉ part := by
        intro hmem
        rw [← List.dropLast_append_getLast hne, List.mem_append, List.mem_singleton] at hmem
        rcases hmem with hmem | hmem
        · exact hnewline hmem
        · exact hlast (by rw [List.getLast?_eq_some_getLast hne, ← hmem])
      rw [hparts, List.flatten_cons, List.flatten_nil, List.append_nil, lines_of_not_mem hne hnone]

theorem lines_eq_iff {cs : List Char} {parts : List (List Char)} :
    lines cs = parts ↔ AreLines parts ∧ parts.flatten = cs := by
  constructor
  · rintro rfl
    exact ⟨areLines_lines cs, flatten_lines cs⟩
  · rintro ⟨hparts, rfl⟩
    exact hparts.lines_flatten

/-- Where a text ends in a line feed, another text begins a new line. -/
theorem lines_append {cs : List Char} (h : ∀ c ∈ cs.getLast?, c = '\n') (more : List Char) :
    lines (cs ++ more) = lines cs ++ lines more := by
  rw [lines_eq_iff, List.flatten_append, flatten_lines, flatten_lines]
  refine ⟨⟨?_, ?_⟩, rfl⟩
  · intro part hpart
    rcases List.mem_append.mp hpart with hpart | hpart
    · exact (areLines_lines cs).line part hpart
    · exact (areLines_lines more).line part hpart
  · refine List.pairwise_append.mpr ⟨(areLines_lines cs).ended, (areLines_lines more).ended, ?_⟩
    intro part hpart other _
    -- a line is followed by another line of the text, or it is the last one
    obtain ⟨front, back, hlines⟩ := List.append_of_mem hpart
    cases back with
    | cons next back =>
      have hended := (areLines_lines cs).ended
      rw [hlines, List.pairwise_append, List.pairwise_cons] at hended
      exact hended.2.1.1 next (by simp)
    | nil =>
      obtain ⟨hne, -⟩ := (areLines_lines cs).line part hpart
      have hlast : cs.getLast? = part.getLast? := by
        rw [← flatten_lines cs, hlines, List.flatten_append, List.flatten_singleton,
          List.getLast?_append_of_ne_nil _ hne]
      rw [List.getLast?_eq_some_getLast hne] at hlast ⊢
      rw [h _ hlast]

end Text

namespace Markers

/-! ## The nearest marker -/

/-- A line without the blanks around it. -/
def content (line : List Char) : String :=
  Text.trim (String.ofList line)

def isMarker (markers : Markers) (line : List Char) : Bool :=
  content line = markers.start || content line = markers.stop

/-- The nearest marker above the place behind some lines. -/
def nearest? (markers : Markers) (before : List (List Char)) : Option String :=
  (before.reverse.find? markers.isMarker).map content

/-- Whether a line with these lines before it is kept: it is no marker, and it is no comment or
stands in a region. -/
def keeps (markers : Markers) (before : List (List Char)) (line : List Char) : Bool :=
  !markers.isMarker line &&
    ((content line).toList.head? ≠ some '#' || markers.nearest? before = some markers.start)

/-- The lines that are kept, each judged by the lines before it. -/
def kept (markers : Markers) (lines : List (List Char)) : List (List Char) :=
  ((lines.inits.zip lines).filter fun entry => markers.keeps entry.1 entry.2).map Prod.snd

variable {markers : Markers} {line : List Char}

/-- Behind a marker that marker is the nearest one; any other line changes nothing. -/
theorem nearest?_concat (markers : Markers) (before : List (List Char)) (line : List Char) :
    markers.nearest? (before ++ [line]) =
      if markers.isMarker line then some (content line) else markers.nearest? before := by
  rw [nearest?, List.reverse_concat, List.find?_cons]
  cases markers.isMarker line <;> rfl

/-- One line of the run, in the words of `keeps`. -/
theorem keep_cons (inside : Bool) (line : List Char) (others : List (List Char)) :
    markers.keep inside (line :: others) =
      if content line = markers.start then markers.keep true others
      else if content line = markers.stop then markers.keep false others
      else if !inside && (content line).toList.head? = some '#' then markers.keep inside others
      else line :: markers.keep inside others := rfl

/-- Whether a region is open behind some lines. -/
def inside (markers : Markers) (before : List (List Char)) : Bool :=
  markers.nearest? before = some markers.start

theorem inside_nil : markers.inside [] = false := rfl

/-- A line changes whether a region is open as the run does. -/
theorem keep_inside_cons (before : List (List Char)) (line : List Char)
    (others : List (List Char)) :
    markers.keep (markers.inside before) (line :: others) =
      (if markers.keeps before line then [line] else []) ++
        markers.keep (markers.inside (before ++ [line])) others := by
  have hnext : markers.inside (before ++ [line]) = decide
      ((if markers.isMarker line then some (content line) else markers.nearest? before) =
        some markers.start) := by
    rw [inside, nearest?_concat]
  rw [keep_cons]
  by_cases hstart : content line = markers.start
  · rw [if_pos hstart, hnext]
    simp [keeps, isMarker, hstart]
  · by_cases hstop : content line = markers.stop
    · rw [if_neg hstart, if_pos hstop, hnext]
      simp [keeps, isMarker, hstop, hstop ▸ hstart]
    · have hsame : markers.inside (before ++ [line]) = markers.inside before := by
        rw [hnext]
        simp [inside, isMarker, hstart, hstop]
      rw [if_neg hstart, if_neg hstop, hsame]
      by_cases hinside : markers.nearest? before = some markers.start
      · simp [keeps, isMarker, inside, hstart, hstop, hinside]
      · by_cases hcomment : (content line).toList.head? = some '#'
        · simp [keeps, isMarker, inside, hstart, hstop, hinside, hcomment]
        · simp [keeps, isMarker, inside, hstart, hstop, hinside, hcomment]

/-- A run over more lines goes on with the region that the first ones leave open. -/
theorem keep_append (markers : Markers) (before lines more : List (List Char)) :
    markers.keep (markers.inside before) (lines ++ more) =
      markers.keep (markers.inside before) lines ++
        markers.keep (markers.inside (before ++ lines)) more := by
  induction lines generalizing before with
  | nil => simp [keep]
  | cons line lines ih =>
    rw [List.cons_append, keep_inside_cons, keep_inside_cons, ih, List.append_assoc,
      List.append_assoc, List.singleton_append]

/-- The run keeps the lines that are kept each on its own. -/
theorem keep_eq_kept (markers : Markers) (lines : List (List Char)) :
    markers.keep false lines = markers.kept lines := by
  -- the lines before are carried along, so that the nearest marker stands for the flag
  have hrun : ∀ before, markers.keep (markers.inside before) lines =
      (((lines.inits.map (before ++ ·)).zip lines).filter
        fun entry => markers.keeps entry.1 entry.2).map Prod.snd := by
    induction lines with
    | nil => intro before; rfl
    | cons line lines ih =>
      intro before
      have hinits : (lines.inits.map fun init => line :: init).map (before ++ ·) =
          lines.inits.map (before ++ [line] ++ ·) := by
        simp
      rw [keep_inside_cons, ih, List.inits_cons, List.map_cons, List.append_nil, hinits,
        List.zip_cons_cons, List.filter_cons]
      split <;> rfl
  have hkept := hrun []
  rw [inside_nil] at hkept
  simpa [kept] using hkept

theorem kept_sublist (markers : Markers) (lines : List (List Char)) :
    (markers.kept lines).Sublist lines := by
  have hsublist : (markers.kept lines).Sublist ((lines.inits.zip lines).map Prod.snd) :=
    List.filter_sublist.map Prod.snd
  rwa [List.map_snd_zip (by simp)] at hsublist

/-- The filter keeps, in order and as they stand, just those lines that are no marker and, if they
are comments, stand below a start marker with no other marker between.  A text whose last marker
does not open a region is filtered on its own, whatever comes behind it. -/
theorem filter_keeps_lines (markers : Markers) :
    (∀ text : String,
      Text.lines (markers.filter text).toList = markers.kept (Text.lines text.toList)) ∧
    ∀ front : String, front.toList.getLast? = some '\n' →
      markers.nearest? (Text.lines front.toList) ≠ some markers.start →
      ∀ back : String,
        markers.filter (front ++ back) = markers.filter front ++ markers.filter back := by
  refine ⟨?_, ?_⟩
  · intro text
    have hlines := (Text.areLines_lines text.toList).sublist (markers.kept_sublist _)
    rw [filter, String.toList_ofList, keep_eq_kept, hlines.lines_flatten]
  · intro front hfront hmarker back
    have hends : ∀ c ∈ front.toList.getLast?, c = '\n' := by
      intro c hc
      rw [hfront] at hc
      exact (Option.some.inj hc).symm
    have hclosed : markers.inside ([] ++ Text.lines front.toList) = false := by
      simpa [inside] using hmarker
    have happend := markers.keep_append [] (Text.lines front.toList) (Text.lines back.toList)
    rw [hclosed, inside_nil] at happend
    rw [filter, filter, filter, String.toList_append, Text.lines_append hends, happend,
      List.flatten_append, String.ofList_append]

/-- A region with a directive, then a comment outside it. -/
theorem filter_keeps_lines_directive :
    Text.lines (filter ⟨"#pre", "#endpre"⟩ " #pre \r\n#if X\n#endpre\n# c\ny").toList =
        kept ⟨"#pre", "#endpre"⟩ (Text.lines " #pre \r\n#if X\n#endpre\n# c\ny".toList) ∧
      kept ⟨"#pre", "#endpre"⟩ (Text.lines " #pre \r\n#if X\n#endpre\n# c\ny".toList) =
        ["#if X\n".toList, "y".toList] ∧
      filter ⟨"#pre", "#endpre"⟩ (" #pre \r\n#if X\n#endpre\n" ++ "# c\ny") =
        filter ⟨"#pre", "#endpre"⟩ " #pre \r\n#if X\n#endpre\n" ++
          filter ⟨"#pre", "#endpre"⟩ "# c\ny" := by
  obtain ⟨hlines, happend⟩ := filter_keeps_lines ⟨"#pre", "#endpre"⟩
  exact ⟨hlines _, by decide, happend _ (by decide) (by decide) _⟩

end Markers

end Desugar
