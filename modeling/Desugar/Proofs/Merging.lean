import Desugar.Settings.Basic
import Mathlib

/-!
# Merging tables

Tables hold their keys in lower case, and a table that is put on top of another one is merged into
it.  For a table whose keys are distinct in lower case the order of its entries does not matter, and
what becomes of a key can be said of that key alone (`Value.get?_mergeEntries`).

The keys at the top of a file and the names of overrides are read as paths first.  A bare key is a
path with one step, so a file of bare keys is merged as a table is
(`Value.addFile_eq_mergeEntries`); two keys with a dot between them are a path with two steps, in
whatever case they are written (`KeyPath.parse?_of_toLower`).
-/

namespace Desugar.Settings

/-! ## Keys -/

/-- Entries with their keys in lower case. -/
def caseless (entries : List (String × Value)) : List (String × Value) :=
  entries.map fun (key, value) => (key.toLower, value)

/-- A key that needs no quotes in a file. -/
def isBare (key : String) : Bool :=
  !key.toList.isEmpty && key.toList.all Toml.isBareKeyChar

/-- The keys of a table are bare, and distinct even when the case of letters does not count. -/
structure PlainKeys (keys : List String) : Prop where
  bare : ∀ key ∈ keys, isBare key = true
  distinct : (keys.map String.toLower).Nodup

/-- Unlike `String.toLower` the right side can be evaluated in a proof. -/
theorem toLower_eq_ofList (text : String) :
    text.toLower = String.ofList (text.toList.map Char.toLower) := by
  rw [← String.toList_inj, String.toLower, String.toList_map, String.toList_ofList]

theorem toLower_ofList {cs : List Char} {text : String}
    (h : cs.map Char.toLower = text.toList) : (String.ofList cs).toLower = text := by
  rw [toLower_eq_ofList, String.toList_ofList, h, String.ofList_toList]

theorem plainKeys_iff {keys : List String} : PlainKeys keys ↔
    keys.all isBare = true ∧
      (keys.map fun key => String.ofList (key.toList.map Char.toLower)).Nodup := by
  rw [List.all_eq_true, ← funext toLower_eq_ofList]
  exact ⟨fun h => ⟨h.bare, h.distinct⟩, fun h => ⟨h.1, h.2⟩⟩

instance : DecidablePred PlainKeys :=
  fun _ => decidable_of_iff _ plainKeys_iff.symm

theorem PlainKeys.tail {key : String} {keys : List String} (h : PlainKeys (key :: keys)) :
    PlainKeys keys :=
  ⟨fun other hother => h.bare other (List.mem_cons_of_mem key hother),
    (List.nodup_cons.mp h.distinct).2⟩

theorem lookup_cons_eq_ite (name : String) (new : Value) (entries : List (String × Value))
    (key : String) :
    ((name, new) :: entries).lookup key = if key = name then some new else entries.lookup key := by
  by_cases h : key = name
  · simp [h]
  · have hbeq : (key == name) = false := beq_eq_false_iff_ne.mpr h
    simp [List.lookup_cons, h, hbeq]

/-- The first of several entries is the only one with its key. -/
theorem PlainKeys.lookup_tail {key : String} {entries : List (String × Value)}
    (h : PlainKeys (key :: entries.map Prod.fst)) :
    (caseless entries).lookup key.toLower = none := by
  have hkey := (List.nodup_cons.mp h.distinct).1
  rw [List.lookup_eq_none_iff]
  intro entry hentry
  obtain ⟨other, hother, rfl⟩ := List.mem_map.mp hentry
  rw [bne_iff_ne]
  intro heq
  exact hkey (heq ▸ List.mem_map_of_mem (List.mem_map_of_mem hother))

/-! ## Paths -/

namespace KeyPath

theorem isKeyChar_of_toLower {c : Char} (h : isKeyChar c.toLower = true) : isKeyChar c = true := by
  by_cases hupper : c.isUpper = true
  · simp [isKeyChar, Char.isAlphanum, Char.isAlpha, hupper]
  · rwa [Char.toLower_eq_of_not_isUpper hupper] at h

/-- No letter becomes a dot in lower case. -/
theorem eq_dot_of_toLower {c : Char} (h : c.toLower = '.') : c = '.' := by
  have hletter : c.isAlpha = false := by
    rw [← Char.isAlpha_toLower_eq_isAlpha, h]
    rfl
  have hupper : ¬c.isUpper = true := by
    rw [Char.isAlpha, Bool.or_eq_false_iff] at hletter
    rw [hletter.1]
    exact Bool.false_ne_true
  rwa [Char.toLower_eq_of_not_isUpper hupper] at h

/-- A text that can be a key in a path. -/
def IsName (text : String) : Prop :=
  text.toList ≠ [] ∧ ∀ c ∈ text.toList, isKeyChar c = true

theorem isName_of_isBare {key : String} (h : isBare key = true) : IsName key := by
  simp only [isBare, Bool.and_eq_true, Bool.not_eq_true', List.isEmpty_eq_false_iff,
    List.all_eq_true] at h
  refine ⟨h.1, fun c hc => ?_⟩
  have hbare := h.2 c hc
  rw [Toml.isBareKeyChar] at hbare
  rw [isKeyChar, hbare, Bool.true_or]

namespace IsName

variable {text front back : String}

theorem of_toLower (h : IsName text.toLower) : IsName text := by
  rw [IsName, String.toLower, String.toList_map] at h
  refine ⟨fun hnil => h.1 (by rw [hnil, List.map_nil]), fun c hc => ?_⟩
  exact isKeyChar_of_toLower (h.2 _ (List.mem_map_of_mem hc))

theorem lowerKey_eq (h : IsName text) : Value.lowerKey text = text.toLower := by
  rw [Value.lowerKey, toLower_eq_ofList]
  refine congrArg String.ofList (List.map_congr_left fun c hc => ?_)
  rw [Value.lowerChar, if_neg]
  intro hkelvin
  have hchar := h.2 c hc
  rw [← Char.ofNat_toNat c, hkelvin] at hchar
  exact absurd hchar (by decide)

/-- A path starts with the longest name at its start. -/
theorem parse?_append (h : IsName front) {rest : String}
    (hrest : ∀ c ∈ rest.toList.head?, isKeyChar c = false) :
    parse? (front ++ rest) = (segments? rest.toList).map (.key front :: ·) := by
  have htake : rest.toList.takeWhile isKeyChar = [] := by
    cases hcs : rest.toList with
    | nil => rfl
    | cons c cs => simp [hrest c (by simp [hcs])]
  have hdrop : rest.toList.dropWhile isKeyChar = rest.toList := by
    have hparts := @List.takeWhile_append_dropWhile _ isKeyChar rest.toList
    rwa [htake, List.nil_append] at hparts
  rw [parse?, String.toList_append, List.takeWhile_append_of_pos h.2,
    List.dropWhile_append_of_pos h.2, htake, hdrop, List.append_nil, String.ofList_toList]
  simp [h.1]

theorem segments?_dot (h : IsName back) : segments? ('.' :: back.toList) = some [.key back] := by
  have hend : segments? [] = some [] := by rw [segments?]
  rw [segments?, List.takeWhile_eq_self_iff.mpr h.2, List.dropWhile_eq_nil_iff.mpr h.2, hend]
  simp [h.1]

theorem ofFileKey_eq (h : IsName text) : ofFileKey text = [.key text] := by
  have hparse : parse? (text ++ "") = (segments? []).map (.key text :: ·) :=
    h.parse?_append (by simp)
  rw [String.append_empty, segments?] at hparse
  rw [ofFileKey, hparse]
  rfl

end IsName

/-- Two names with a dot between them are a path, in whatever case they are written. -/
theorem parse?_of_toLower {text front back : String} (htext : text.toLower = front ++ "." ++ back)
    (hfront : IsName front) (hback : IsName back) :
    ∃ group key, parse? text = some [.key group, .key key] ∧
      Value.lowerKey group = front ∧ Value.lowerKey key = back := by
  -- only letters change their case, so the dot of the text is where the two names meet
  have hchars : text.toList.map Char.toLower = front.toList ++ '.' :: back.toList := by
    rw [← String.toList_map, ← String.toLower, htext]
    simp
  obtain ⟨group, others, hsplit, hgroup, hothers⟩ := List.map_eq_append_iff.mp hchars
  obtain ⟨dot, key, rfl, hdot, hkey⟩ := List.map_eq_cons_iff.mp hothers
  obtain rfl := eq_dot_of_toLower hdot
  have hgroupName : IsName (String.ofList group) := .of_toLower (toLower_ofList hgroup ▸ hfront)
  have hkeyName : IsName (String.ofList key) := .of_toLower (toLower_ofList hkey ▸ hback)
  have hparts : text = String.ofList group ++ ("." ++ String.ofList key) := by
    rw [← String.toList_inj, hsplit]
    simp
  have hrest : ("." ++ String.ofList key).toList = '.' :: (String.ofList key).toList := by simp
  have hdot : ∀ c ∈ ("." ++ String.ofList key).toList.head?, isKeyChar c = false := by
    rw [hrest]
    rintro c ⟨⟩
    decide
  refine ⟨String.ofList group, String.ofList key, ?_, ?_, ?_⟩
  · rw [hparts, hgroupName.parse?_append hdot, hrest, hkeyName.segments?_dot]
    rfl
  · rw [hgroupName.lowerKey_eq, toLower_ofList hgroup]
  · rw [hkeyName.lowerKey_eq, toLower_ofList hkey]

end KeyPath

/-! ## Merging -/

namespace Value

variable {value old : Value} {entries : List (String × Value)}

theorem lookup_insertEntry (key : String) (new : Value) (other : String) :
    (insertEntry key new entries).lookup other =
      if other = key then some new else entries.lookup other := by
  induction entries with
  | nil => rw [insertEntry, lookup_cons_eq_ite]
  | cons entry entries ih =>
    obtain ⟨name, old⟩ := entry
    rw [insertEntry]
    split
    · next hname =>
      subst hname
      rw [lookup_cons_eq_ite, lookup_cons_eq_ite]
      split <;> rfl
    · next hname =>
      rw [lookup_cons_eq_ite, lookup_cons_eq_ite, ih]
      by_cases h : other = name
      · rw [if_pos h, if_pos h, if_neg (h.trans_ne hname)]
      · rw [if_neg h, if_neg h]

theorem get?_insert (key : String) (new : Value) (other : String) :
    (value.insert key new).get? other = if other = key then some new else value.get? other :=
  lookup_insertEntry key new other

/-- A key that the new entries have is merged in turn, and any other key is kept. -/
theorem get?_mergeEntries (h : PlainKeys (entries.map Prod.fst)) (key : String) :
    (mergeEntries old entries).get? key =
      (((caseless entries).lookup key).map (merge (old.get? key))).or (old.get? key) := by
  induction entries generalizing old with
  | nil => rw [mergeEntries]; rfl
  | cons entry entries ih =>
    obtain ⟨name, new⟩ := entry
    have hname : lowerKey name = name.toLower :=
      (KeyPath.isName_of_isBare (h.bare name (by simp))).lowerKey_eq
    have hlookup : (caseless ((name, new) :: entries)).lookup key =
        if key = name.toLower then some new else (caseless entries).lookup key :=
      lookup_cons_eq_ite name.toLower new (caseless entries) key
    rw [mergeEntries, ih h.tail, hname, get?_insert, hlookup]
    by_cases hkey : key = name.toLower
    · -- no later entry comes back to this key
      subst hkey
      rw [h.lookup_tail]
      simp
    · rw [if_neg hkey, if_neg hkey]

theorem exists_mergeEntries_eq (members entries : List (String × Value)) :
    ∃ merged, mergeEntries (.table members) entries = .table merged := by
  induction entries generalizing members with
  | nil => exact ⟨members, by rw [mergeEntries]⟩
  | cons entry entries ih =>
    rw [mergeEntries]
    exact ih _

theorem addFile_eq_mergeEntries (h : PlainKeys (entries.map Prod.fst)) :
    addFile value entries = mergeEntries value entries := by
  induction entries generalizing value with
  | nil => rw [mergeEntries]; rfl
  | cons entry entries ih =>
    rw [mergeEntries, ← ih h.tail, addFile, List.foldl_cons,
      (KeyPath.isName_of_isBare (h.bare entry.1 (by simp))).ofFileKey_eq]
    rfl

end Value

end Desugar.Settings
