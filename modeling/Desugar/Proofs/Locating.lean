import Desugar.Proofs.Gaps
import Mathlib.Data.Prod.Lex
import Mathlib.Order.Monotone.Defs

/-!
# Locations tell offsets

A location is found by counting back from an offset: the line feeds before it, and the characters
since the last of them.  `Location.offset?` goes the other way and shares nothing with that count:
it walks forward from the start of the text, over line feeds until the line is reached and then over
characters of that line.  The two are inverse to each other on the boundaries between characters, so
a location of an error stands for one place in the source and for no other.

Both directions rest on what one more character in front does to a location (`after_cons_newline`,
`after_cons`); the order of locations rests on what more characters at the
end do (`after_append`).
-/

namespace Desugar

open String (Pos.Raw.IsValid)

namespace Text

/-- The offsets between two characters of a text, its start and its end among them. -/
def boundaries (source : String) : Set Nat :=
  {offset | Pos.Raw.IsValid source ⟨offset⟩}

theorem mem_boundaries_iff {source : String} {offset : Nat} :
    offset ∈ boundaries source ↔
      ∃ front back, source.toList = front ++ back ∧ size front = offset := by
  constructor
  · intro hoffset
    obtain ⟨front, back, hsource, hsize⟩ := String.Pos.Raw.isValid_iff_exists_append.mp hoffset
    refine ⟨front.toList, back.toList, by rw [hsource, String.toList_append], ?_⟩
    rw [size_toList]
    exact (congrArg String.Pos.Raw.byteIdx hsize).symm
  · rintro ⟨front, back, hsource, rfl⟩
    exact Span.Covers.isValid_size hsource

/-- The characters before an offset end there. -/
theorem of_charsBefore?_eq_some {cs front : List Char} {offset : Nat}
    (h : charsBefore? cs offset = some front) :
    ∃ back, cs = front ++ back ∧ size front = offset := by
  fun_induction charsBefore? cs offset generalizing front with
  | case1 cs => exact ⟨cs, by simp_all⟩
  | case2 => simp at h
  | case3 offset c cs hfits ih =>
    obtain ⟨rest, hrest, rfl⟩ := Option.map_eq_some_iff.mp h
    obtain ⟨back, rfl, hsize⟩ := ih hrest
    refine ⟨back, rfl, ?_⟩
    rw [size_cons]
    omega
  | case4 => simp at h

end Text

namespace Location

open Text

/-! ## Going forward to a location -/

/-- The offset behind so many line feeds, and behind so many characters of the line that follows
them. -/
def seek : (lines columns : Nat) → List Char → Option Nat
  | 0, 0, _ => some 0
  | _, _, [] => none
  | 0, columns + 1, c :: cs => if c = '\n' then none else (seek 0 columns cs).map (c.utf8Size + ·)
  | lines + 1, columns, c :: cs =>
    (seek (if c = '\n' then lines else lines + 1) columns cs).map (c.utf8Size + ·)

/-- The offset of a location in a text, if the text has a place there. -/
def offset? (location : Location) (source : String) : Option Nat :=
  match location with
  | ⟨line + 1, column + 1⟩ => seek line column source.toList
  | _ => none

/-! ## One more character in front -/

theorem line_pos (cs : List Char) : 1 ≤ (after cs).line := by
  simp [after]

theorem column_pos (cs : List Char) : 1 ≤ (after cs).column := by
  simp [after]

theorem line_after_eq_one_iff {cs : List Char} : (after cs).line = 1 ↔ '\n' ∉ cs := by
  simp [after, List.count_eq_zero]

theorem column_after_of_not_mem {cs : List Char} (h : '\n' ∉ cs) :
    (after cs).column = cs.length + 1 := by
  have hline : ∀ c ∈ cs.reverse, decide (c ≠ '\n') = true := by
    intro c hc
    rw [List.mem_reverse] at hc
    exact decide_eq_true fun hnewline => h (hnewline ▸ hc)
  rw [after, List.takeWhile_eq_self_iff.mpr hline, List.length_reverse]

/-- A line feed in front starts one more line. -/
theorem after_cons_newline (cs : List Char) :
    after ('\n' :: cs) = ⟨(after cs).line + 1, (after cs).column⟩ := by
  have hcolumn : (cs.reverse ++ ['\n']).takeWhile (· ≠ '\n') = cs.reverse.takeWhile (· ≠ '\n') := by
    rw [List.takeWhile_append]
    split
    · next hall =>
      rw [List.takeWhile_cons_of_neg (by simp), List.append_nil,
        List.takeWhile_eq_self_iff.mpr (List.takeWhile_eq_self_iff.mp
          (List.IsPrefix.eq_of_length (List.takeWhile_prefix _) hall))]
    · rfl
  simp only [after, List.reverse_cons, hcolumn, List.count_cons_self]

theorem column_after_cons {c : Char} (hc : c ≠ '\n') (cs : List Char) :
    (after (c :: cs)).column =
      if (after cs).line = 1 then (after cs).column + 1 else (after cs).column := by
  by_cases hline : (after cs).line = 1
  · have hcs := line_after_eq_one_iff.mp hline
    have hall : '\n' ∉ c :: cs := by simp [hcs, hc.symm]
    rw [if_pos hline, column_after_of_not_mem hall, column_after_of_not_mem hcs, List.length_cons]
  · rw [if_neg hline]
    have hmem : '\n' ∈ cs.reverse := by
      rw [List.mem_reverse]
      exact not_not.mp (mt line_after_eq_one_iff.mpr hline)
    simp only [after, List.reverse_cons]
    rw [List.takeWhile_append, if_neg]
    intro hall
    have hself := List.IsPrefix.eq_of_length (List.takeWhile_prefix _) hall
    simpa using List.takeWhile_eq_self_iff.mp hself '\n' hmem

/-- Any other character in front counts for the column only as long as the line is the first. -/
theorem after_cons {c : Char} (hc : c ≠ '\n') (cs : List Char) :
    after (c :: cs) = ⟨(after cs).line,
      if (after cs).line = 1 then (after cs).column + 1 else (after cs).column⟩ := by
  rw [← column_after_cons hc]
  simp [after, List.count_cons_of_ne hc]

/-! ## There and back -/

/-- Going forward to where some characters end comes to their end. -/
theorem seek_after (front back : List Char) :
    seek ((after front).line - 1) ((after front).column - 1) (front ++ back) =
      some (size front) := by
  induction front with
  | nil => cases back <;> rfl
  | cons c front ih =>
    obtain ⟨line, hline⟩ := Nat.exists_eq_add_of_le' (line_pos front)
    obtain ⟨column, hcolumn⟩ := Nat.exists_eq_add_of_le' (column_pos front)
    rw [hline, hcolumn, Nat.add_sub_cancel, Nat.add_sub_cancel] at ih
    by_cases hc : c = '\n'
    · subst hc
      rw [after_cons_newline, hline, hcolumn, Nat.add_sub_cancel, Nat.add_sub_cancel,
        List.cons_append, seek, if_pos rfl, ih]
      simp
    · rw [after_cons hc, hline, hcolumn, Nat.add_sub_cancel, List.cons_append]
      cases line with
      | zero =>
        rw [if_pos rfl, Nat.add_sub_cancel, seek, if_neg hc, ih]
        simp
      | succ line =>
        rw [if_neg (by omega), Nat.add_sub_cancel, seek, if_neg hc, ih]
        simp

/-- Wherever going forward comes to, the location there is the one that was asked for. -/
theorem of_seek_eq_some {lines columns offset : Nat} {cs : List Char}
    (h : seek lines columns cs = some offset) :
    ∃ front back, cs = front ++ back ∧ size front = offset ∧
      after front = ⟨lines + 1, columns + 1⟩ := by
  fun_induction seek lines columns cs generalizing offset with
  | case1 cs => exact ⟨[], cs, rfl, Option.some.inj h, rfl⟩
  | case2 => simp at h
  | case3 => simp at h
  | case4 columns c cs hc ih =>
    obtain ⟨rest, hrest, rfl⟩ := Option.map_eq_some_iff.mp h
    obtain ⟨front, back, rfl, rfl, hfront⟩ := ih hrest
    refine ⟨c :: front, back, rfl, size_cons c front, ?_⟩
    rw [after_cons hc, hfront, if_pos rfl]
  | case5 lines columns c cs ih =>
    obtain ⟨rest, hrest, rfl⟩ := Option.map_eq_some_iff.mp h
    obtain ⟨front, back, rfl, rfl, hfront⟩ := ih hrest
    refine ⟨c :: front, back, rfl, size_cons c front, ?_⟩
    by_cases hc : c = '\n'
    · rw [if_pos hc] at hfront
      rw [hc, after_cons_newline, hfront]
    · rw [if_neg hc] at hfront
      rw [after_cons hc, hfront, if_neg (by simp)]

/-! ## The order of locations -/

/-- Line and column, compared by the line first. -/
def key (location : Location) : Nat ×ₗ Nat :=
  toLex (location.line, location.column)

theorem after_append_of_not_mem (front : List Char) {back : List Char} (h : '\n' ∉ back) :
    after (front ++ back) = ⟨(after front).line, (after front).column + back.length⟩ := by
  have hback : ∀ c ∈ back.reverse, decide (c ≠ '\n') = true := by
    intro c hc
    rw [List.mem_reverse] at hc
    exact decide_eq_true fun hnewline => h (hnewline ▸ hc)
  simp only [after, List.reverse_append, List.count_append, List.count_eq_zero.mpr h, Nat.add_zero,
    List.takeWhile_append_of_pos hback, List.length_append, List.length_reverse]
  congr 1
  omega

/-- More characters at the end lead on, on the same line or to a later one. -/
theorem key_after_lt_append (front : List Char) {back : List Char} (h : back ≠ []) :
    (after front).key < (after (front ++ back)).key := by
  rw [key, key, Prod.Lex.toLex_lt_toLex]
  by_cases hback : '\n' ∈ back
  · left
    have hcount := List.count_pos_iff.mpr hback
    simp only [after, List.count_append]
    omega
  · right
    have hlength := List.length_pos_iff.mpr h
    rw [after_append_of_not_mem front hback]
    exact ⟨rfl, Nat.lt_add_of_pos_right hlength⟩

variable {source : String} {offset : Nat}

theorem key_ofOffset_strictMonoOn (source : String) :
    StrictMonoOn (fun offset => (ofOffset source offset).key) (boundaries source) := by
  intro offset hoffset further hfurther hlt
  obtain ⟨front, back, hsource, rfl⟩ := mem_boundaries_iff.mp hoffset
  obtain ⟨long, short, hsource', rfl⟩ := mem_boundaries_iff.mp hfurther
  simp only [ofOffset_size hsource, ofOffset_size hsource']
  -- both are beginnings of the source, and the one that takes more bytes goes on
  rcases List.append_eq_append_iff.mp (hsource.symm.trans hsource') with
    ⟨more, rfl, -⟩ | ⟨more, rfl, -⟩
  · refine key_after_lt_append front ?_
    rintro rfl
    simp at hlt
  · rw [size_append] at hlt
    omega

/-- Off the boundaries, and behind the end, the location is that of the end. -/
theorem ofOffset_of_not_mem (h : offset ∉ boundaries source) :
    ofOffset source offset = ofOffset source source.utf8ByteSize := by
  have hend : ofOffset source source.utf8ByteSize = after source.toList := by
    rw [← size_toList]
    exact ofOffset_size (List.append_nil _).symm
  rw [hend]
  by_cases hle : offset ≤ source.utf8ByteSize
  · rw [ofOffset, charsBefore, Nat.min_eq_left hle]
    cases hchars : charsBefore? source.toList offset with
    | none => rfl
    | some front =>
      obtain ⟨back, hsource, hsize⟩ := of_charsBefore?_eq_some hchars
      exact absurd (mem_boundaries_iff.mpr ⟨front, back, hsource, hsize⟩) h
  · have hclamp : charsBefore source offset = charsBefore source source.utf8ByteSize := by
      rw [charsBefore, charsBefore, Nat.min_eq_right (by omega), Nat.min_self]
    rw [ofOffset, hclamp, ← hend, ofOffset]

/-- A location has an offset just where it is the location of a boundary. -/
theorem offset?_eq_some_iff {location : Location} :
    location.offset? source = some offset ↔
      offset ∈ boundaries source ∧ ofOffset source offset = location := by
  constructor
  · intro h
    obtain ⟨_ | line, _ | column⟩ := location
    · simp [offset?] at h
    · simp [offset?] at h
    · simp [offset?] at h
    · obtain ⟨front, back, hsource, rfl, hafter⟩ := of_seek_eq_some h
      exact ⟨mem_boundaries_iff.mpr ⟨front, back, hsource, rfl⟩,
        (ofOffset_size hsource).trans hafter⟩
  · rintro ⟨hoffset, rfl⟩
    obtain ⟨front, back, hsource, rfl⟩ := mem_boundaries_iff.mp hoffset
    obtain ⟨line, hline⟩ := Nat.exists_eq_add_of_le' (line_pos front)
    obtain ⟨column, hcolumn⟩ := Nat.exists_eq_add_of_le' (column_pos front)
    have hseek := seek_after front back
    have hafter : after front = ⟨line + 1, column + 1⟩ := by rw [← hline, ← hcolumn]
    rw [hline, hcolumn, Nat.add_sub_cancel, Nat.add_sub_cancel, ← hsource] at hseek
    rw [ofOffset_size hsource, hafter]
    exact hseek

/-- The location of a boundary of the source is the one place that is reached from the start over
`line - 1` line feeds and then `column - 1` characters of that line.  Different boundaries have
different locations, in the order of their offsets; any other offset counts as the end. -/
theorem ofOffset_identifies (source : String) :
    (∀ offset ∈ boundaries source, 1 ≤ (ofOffset source offset).line ∧
      1 ≤ (ofOffset source offset).column ∧
      (ofOffset source offset).offset? source = some offset) ∧
    (∀ location offset, location.offset? source = some offset →
      offset ∈ boundaries source ∧ ofOffset source offset = location) ∧
    Set.InjOn (ofOffset source) (boundaries source) ∧
    StrictMonoOn (fun offset => (ofOffset source offset).key) (boundaries source) ∧
    ∀ offset, offset ∉ boundaries source →
      ofOffset source offset = ofOffset source source.utf8ByteSize := by
  refine ⟨?_, ?_, ?_, key_ofOffset_strictMonoOn source, fun offset => ofOffset_of_not_mem⟩
  · intro offset hoffset
    exact ⟨line_pos _, column_pos _, offset?_eq_some_iff.mpr ⟨hoffset, rfl⟩⟩
  · intro location offset hlocation
    exact offset?_eq_some_iff.mp hlocation
  · intro offset hoffset other hother hsame
    have hfound := offset?_eq_some_iff.mpr ⟨hoffset, hsame⟩
    have hfound' := offset?_eq_some_iff.mpr ⟨hother, rfl⟩
    exact Option.some.inj (hfound.symm.trans hfound')

/-- The letter behind `cd` takes two bytes and one column, and offset 6 falls inside it. -/
theorem ofOffset_identifies_accent :
    ofOffset "ab\ncdé f" 3 = ⟨2, 1⟩ ∧ offset? ⟨2, 1⟩ "ab\ncdé f" = some 3 ∧
      ofOffset "ab\ncdé f" 7 = ⟨2, 4⟩ ∧ offset? ⟨2, 4⟩ "ab\ncdé f" = some 7 ∧
      (ofOffset "ab\ncdé f" 3).key < (ofOffset "ab\ncdé f" 7).key ∧
      ofOffset "ab\ncdé f" 6 = ofOffset "ab\ncdé f" 9 := by
  have hthree : 3 ∈ boundaries "ab\ncdé f" :=
    mem_boundaries_iff.mpr ⟨"ab\n".toList, "cdé f".toList, by decide, by decide⟩
  have hseven : 7 ∈ boundaries "ab\ncdé f" :=
    mem_boundaries_iff.mpr ⟨"ab\ncdé".toList, " f".toList, by decide, by decide⟩
  have hinside : ¬ Pos.Raw.IsValid "ab\ncdé f" ⟨6⟩ := by decide
  obtain ⟨hforth, -, -, horder, hend⟩ := ofOffset_identifies "ab\ncdé f"
  have h3 : ofOffset "ab\ncdé f" 3 = ⟨2, 1⟩ := by decide
  have h7 : ofOffset "ab\ncdé f" 7 = ⟨2, 4⟩ := by decide
  refine ⟨h3, h3 ▸ (hforth 3 hthree).2.2, h7, h7 ▸ (hforth 7 hseven).2.2,
    horder hthree hseven (by decide), hend 6 hinside⟩

end Location

end Desugar
