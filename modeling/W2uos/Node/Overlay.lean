import Mathlib.Data.List.Infix
import W2uos.Node.Environment

/-!
# Overlays, path by path

An overlay is merged into a file table by table.  What this comes to is read off the paths of keys:
at a path the result has what the overlay has there, and what the file has where the overlay says
nothing.

A table has every key once.  The merge keeps this, so it is a merge of such values (`Toml`).

* `valueAt_mergeToml` : what is at a path after a merge;
* `mergeToml_idem` : a second merge of the same overlay changes nothing;
* `merge_exact` : the merge, path by path.
-/

namespace W2uos

namespace TomlValue

/-! ### Paths -/

/-- The value at a path of keys, if there is one. -/
def valueAt : TomlValue → List String → Option TomlValue
  | value, [] => some value
  | .table entries, key :: path => (lookup key entries).bind fun value => value.valueAt path
  | _, _ :: _ => none

/-- The value is a table. -/
def IsTable (value : TomlValue) : Prop := ∃ entries, value = .table entries

/-- On the way along the path there is a value that is no table. -/
def Ends (value : TomlValue) (path : List String) : Prop :=
  ∃ start last, start <+: path ∧ value.valueAt start = some last ∧ ¬ last.IsTable

@[simp] theorem valueAt_nil (value : TomlValue) : value.valueAt [] = some value := by
  cases value <;> rfl

@[simp] theorem valueAt_table (entries : List (String × TomlValue)) (key : String)
    (path : List String) :
    (table entries).valueAt (key :: path) =
      (lookup key entries).bind fun value => value.valueAt path := rfl

theorem valueAt_of_not_isTable {value : TomlValue} (h : ¬ value.IsTable) (key : String)
    (path : List String) : value.valueAt (key :: path) = none := by
  cases value with
  | table entries => exact absurd ⟨entries, rfl⟩ h
  | _ => rfl

theorem not_ends_table {entries : List (String × TomlValue)} {key : String}
    (h : lookup key entries = none) (path : List String) :
    ¬ (table entries).Ends (key :: path) := by
  rintro ⟨start, last, hstart, hlast, hleaf⟩
  cases start with
  | nil =>
    rw [valueAt_nil, Option.some.injEq] at hlast
    exact hleaf ⟨entries, hlast.symm⟩
  | cons k start =>
    obtain ⟨rfl, -⟩ := List.cons_prefix_cons.1 hstart
    rw [valueAt_table, h] at hlast
    cases hlast

theorem ends_table_iff {entries : List (String × TomlValue)} {key : String} {value : TomlValue}
    (h : lookup key entries = some value) (path : List String) :
    (table entries).Ends (key :: path) ↔ value.Ends path := by
  constructor
  · rintro ⟨start, last, hstart, hlast, hleaf⟩
    cases start with
    | nil =>
      rw [valueAt_nil, Option.some.injEq] at hlast
      exact absurd ⟨entries, hlast.symm⟩ hleaf
    | cons k start =>
      obtain ⟨rfl, hrest⟩ := List.cons_prefix_cons.1 hstart
      rw [valueAt_table, h, Option.bind_some] at hlast
      exact ⟨start, last, hrest, hlast, hleaf⟩
  · rintro ⟨start, last, hstart, hlast, hleaf⟩
    refine ⟨key :: start, last, List.cons_prefix_cons.2 ⟨rfl, hstart⟩, ?_, hleaf⟩
    rw [valueAt_table, h, Option.bind_some, hlast]

/-! ### Keys -/

/-- Every table among the values at paths has each of its keys once. -/
inductive Keyed : TomlValue → Prop
  | table {entries : List (String × TomlValue)} (nodup : (entries.map Prod.fst).Nodup)
      (values : ∀ entry ∈ entries, Keyed entry.2) : Keyed (.table entries)
  | leaf {value : TomlValue} (h : ¬ value.IsTable) : Keyed value

theorem keyed_table {entries : List (String × TomlValue)} (h : Keyed (.table entries)) :
    (entries.map Prod.fst).Nodup ∧ ∀ entry ∈ entries, Keyed entry.2 := by
  cases h with
  | table nodup values => exact ⟨nodup, values⟩
  | leaf h => exact absurd ⟨entries, rfl⟩ h

theorem mem_of_lookup {entries : List (String × TomlValue)} {key : String} {value : TomlValue}
    (h : lookup key entries = some value) : (key, value) ∈ entries := by
  obtain ⟨⟨k, v⟩, hfind, rfl⟩ := Option.map_eq_some_iff.1 h
  have hkey : k = key := by simpa using List.find?_some hfind
  rw [← hkey]
  exact List.mem_of_find?_eq_some hfind

theorem lookup_of_mem {entries : List (String × TomlValue)} (hkeys : (entries.map Prod.fst).Nodup)
    {entry : String × TomlValue} (h : entry ∈ entries) : lookup entry.1 entries = some entry.2 := by
  induction entries with
  | nil => cases h
  | cons first entries ih =>
    obtain ⟨hfirst, hkeys⟩ := List.nodup_cons.1 hkeys
    rcases List.mem_cons.1 h with rfl | h
    · simp [lookup]
    · have hne : first.1 ≠ entry.1 := fun heq => hfirst (heq ▸ List.mem_map_of_mem h)
      have hrest := ih hkeys h
      rw [lookup] at hrest ⊢
      rw [List.find?_cons_of_neg (by simpa using hne), hrest]

theorem setKey_keys (entries : List (String × TomlValue)) (key : String) (value : TomlValue) :
    (setKey entries key value).map Prod.fst =
      if key ∈ entries.map Prod.fst then entries.map Prod.fst
      else entries.map Prod.fst ++ [key] := by
  induction entries with
  | nil => simp [setKey]
  | cons first entries ih =>
    obtain ⟨k, v⟩ := first
    by_cases hk : k = key
    · simp [setKey, hk]
    · rw [setKey, if_neg hk, List.map_cons, ih]
      by_cases hmem : key ∈ entries.map Prod.fst
      · simp [hmem]
      · simp [hmem, Ne.symm hk]

theorem mem_setKey {entries : List (String × TomlValue)} {key : String} {value : TomlValue}
    {entry : String × TomlValue} (h : entry ∈ setKey entries key value) :
    entry ∈ entries ∨ entry = (key, value) := by
  induction entries with
  | nil => exact Or.inr (List.mem_singleton.1 h)
  | cons first entries ih =>
    obtain ⟨k, v⟩ := first
    rw [setKey] at h
    split_ifs at h with hk
    · rcases List.mem_cons.1 h with rfl | h
      · exact Or.inr (by rw [hk])
      · exact Or.inl (List.mem_cons_of_mem _ h)
    · rcases List.mem_cons.1 h with rfl | h
      · exact Or.inl List.mem_cons_self
      · exact (ih h).imp (List.mem_cons_of_mem _) id

theorem setKey_self {entries : List (String × TomlValue)} {key : String} {value : TomlValue}
    (h : lookup key entries = some value) : setKey entries key value = entries := by
  induction entries with
  | nil => cases h
  | cons first entries ih =>
    obtain ⟨k, v⟩ := first
    rw [setKey]
    split_ifs with hk
    · simp only [lookup, List.find?_cons, hk, decide_true, Option.map_some,
        Option.some.injEq] at h
      rw [h]
    · have hrest : lookup key entries = some value := by
        simpa [lookup, List.find?_cons, hk] using h
      rw [ih hrest]

theorem Keyed.setKey {entries : List (String × TomlValue)} (h : Keyed (.table entries))
    {value : TomlValue} (hvalue : Keyed value) (key : String) :
    Keyed (.table (setKey entries key value)) := by
  obtain ⟨hkeys, hvalues⟩ := keyed_table h
  refine .table ?_ fun entry hentry => ?_
  · rw [setKey_keys]
    split_ifs with hmem
    · exact hkeys
    · rw [List.nodup_append]
      exact ⟨hkeys, List.nodup_singleton key, fun k hk k' hk' heq =>
        hmem (List.mem_singleton.1 hk' ▸ heq ▸ hk)⟩
  · rcases mem_setKey hentry with hentry | rfl
    · exact hvalues entry hentry
    · exact hvalue

end TomlValue

open TomlValue

/-! ### Merged values -/

/-- Only a table is merged; any other value of the overlay replaces that of the file. -/
theorem mergeToml_leaf {overlay : TomlValue} (h : ¬ overlay.IsTable) (base : TomlValue) :
    mergeToml base overlay = overlay := by
  cases overlay with
  | table entries => exact absurd ⟨entries, rfl⟩ h
  | _ => simp [mergeToml]

theorem mergeToml_over_leaf {base : TomlValue} (h : ¬ base.IsTable) (overlay : TomlValue) :
    mergeToml base overlay = overlay := by
  cases overlay with
  | table entries =>
    cases base with
    | table baseMap => exact absurd ⟨baseMap, rfl⟩ h
    | _ => simp [mergeToml]
  | _ => simp [mergeToml]

theorem mergeToml_table (baseMap overlayMap : List (String × TomlValue)) :
    mergeToml (.table baseMap) (.table overlayMap) = .table (mergeEntries baseMap overlayMap) := by
  simp [mergeToml]

/-- **What is at a path after a merge**: the value of the overlay, merged with that of the file; or
that of the file, unless the overlay has a value on the way that is no table. -/
theorem valueAt_mergeToml {overlay : TomlValue} (hkeyed : overlay.Keyed) (base : TomlValue)
    (path : List String) :
    (∀ above, overlay.valueAt path = some above →
      (mergeToml base overlay).valueAt path =
        some ((base.valueAt path).elim above fun value => mergeToml value above)) ∧
    (overlay.valueAt path = none →
      (overlay.Ends path → (mergeToml base overlay).valueAt path = none) ∧
      (¬ overlay.Ends path → (mergeToml base overlay).valueAt path = base.valueAt path)) := by
  induction path generalizing base overlay with
  | nil => simp
  | cons key path ih =>
    by_cases htable : overlay.IsTable
    · obtain ⟨overlayMap, rfl⟩ := htable
      obtain ⟨hkeys, hvalues⟩ := keyed_table hkeyed
      by_cases hbase : base.IsTable
      · obtain ⟨baseMap, rfl⟩ := hbase
        rw [mergeToml_table, valueAt_table, valueAt_table, valueAt_table,
          lookup_mergeEntries hkeys]
        cases hover : lookup key overlayMap with
        | none =>
          -- the overlay says nothing from here on
          have hends := not_ends_table hover path
          simp [hends]
        | some above =>
          have hover' := hvalues _ (mem_of_lookup hover)
          rw [ends_table_iff hover]
          cases hvalue : lookup key baseMap with
          | none => simp
          | some value => simpa using ih hover' value
      · -- the file ends here
        rw [mergeToml_over_leaf hbase, valueAt_of_not_isTable hbase]
        exact ⟨fun above hover => hover, fun hnone => ⟨fun _ => hnone, fun _ => hnone⟩⟩
    · -- the overlay ends here
      rw [mergeToml_leaf htable, valueAt_of_not_isTable htable]
      refine ⟨fun above hover => (by cases hover), fun _ => ⟨fun _ => rfl, fun hends => ?_⟩⟩
      exact absurd ⟨[], overlay, List.nil_prefix, valueAt_nil overlay, htable⟩ hends

theorem mergeEntries_absorbed {baseMap overlayMap : List (String × TomlValue)}
    (h : ∀ entry ∈ overlayMap, ∃ value, lookup entry.1 baseMap = some value ∧
      mergeToml value entry.2 = value) :
    mergeEntries baseMap overlayMap = baseMap := by
  induction overlayMap with
  | nil => simp [mergeEntries]
  | cons entry overlayMap ih =>
    obtain ⟨key, above⟩ := entry
    rw [List.forall_mem_cons] at h
    obtain ⟨⟨value, hvalue, habsorbed⟩, hrest⟩ := h
    rw [mergeEntries, hvalue]
    dsimp only
    rw [habsorbed, setKey_self hvalue, ih hrest]

/-- **A second merge** of the same overlay changes nothing. -/
theorem mergeToml_idem {overlay : TomlValue} (hkeyed : overlay.Keyed) (base : TomlValue) :
    mergeToml (mergeToml base overlay) overlay = mergeToml base overlay := by
  induction hkeyed generalizing base with
  | leaf h => rw [mergeToml_leaf h, mergeToml_leaf h]
  | @table overlayMap hkeys _ ih =>
    -- a value of the overlay absorbs itself, as after a merge into a value that is no table
    have hself : ∀ entry ∈ overlayMap, mergeToml entry.2 entry.2 = entry.2 := by
      intro entry hentry
      have hleaf : ¬ (boolean false).IsTable := fun ⟨_, h⟩ => by cases h
      have hmerge := ih entry hentry (boolean false)
      rwa [mergeToml_over_leaf hleaf] at hmerge
    by_cases hbase : base.IsTable
    · obtain ⟨baseMap, rfl⟩ := hbase
      rw [mergeToml_table, mergeToml_table]
      refine congrArg table (mergeEntries_absorbed fun entry hentry => ?_)
      have hover := lookup_of_mem hkeys hentry
      rw [lookup_mergeEntries hkeys, hover]
      cases hvalue : lookup entry.1 baseMap with
      | none => exact ⟨_, rfl, hself entry hentry⟩
      | some value => exact ⟨_, rfl, ih entry hentry value⟩
    · rw [mergeToml_over_leaf hbase, mergeToml_table]
      refine congrArg table (mergeEntries_absorbed fun entry hentry => ?_)
      exact ⟨_, lookup_of_mem hkeys hentry, hself entry hentry⟩

theorem TomlValue.Keyed.merge {base overlay : TomlValue} (hoverlay : overlay.Keyed)
    (hbase : base.Keyed) : (mergeToml base overlay).Keyed := by
  induction hoverlay generalizing base with
  | leaf h =>
    rw [mergeToml_leaf h]
    exact .leaf h
  | @table overlayMap hkeys hvalues ih =>
    by_cases htable : base.IsTable
    · obtain ⟨baseMap, rfl⟩ := htable
      rw [mergeToml_table]
      clear hkeys
      -- entry by entry
      induction overlayMap generalizing baseMap with
      | nil => simpa [mergeEntries] using hbase
      | cons entry overlayMap ihmap =>
        obtain ⟨key, above⟩ := entry
        rw [List.forall_mem_cons] at hvalues ih
        rw [mergeEntries]
        refine ihmap hvalues.2 ih.2 _ (hbase.setKey ?_ key)
        cases hvalue : lookup key baseMap with
        | none => exact hvalues.1
        | some value => exact ih.1 ((keyed_table hbase).2 _ (mem_of_lookup hvalue))
    · rw [mergeToml_over_leaf htable]
      exact .table hkeys hvalues

/-! ### Files -/

/-- A value of a file: every table has each of its keys once. -/
def Toml := { value : TomlValue // value.Keyed }

namespace Toml

/-- The value at a path of keys, if there is one. -/
def valueAt (file : Toml) (path : List String) : Option TomlValue := file.1.valueAt path

/-- `merge_toml`. -/
def merge (base overlay : Toml) : Toml := ⟨mergeToml base.1 overlay.1, overlay.2.merge base.2⟩

/-- **The merge, path by path.**  Where the overlay has a value that is no table, the result has
that value; where the overlay says nothing, neither there nor by a value on the way that is no
table, the result has what the file has; a path of the result is one of the file or of the overlay;
and a second merge of the same overlay changes nothing. -/
theorem merge_exact (base overlay : Toml) :
    (∀ path value, overlay.valueAt path = some value → ¬ value.IsTable →
      (base.merge overlay).valueAt path = some value) ∧
    (∀ path, overlay.valueAt path = none → ¬ overlay.1.Ends path →
      (base.merge overlay).valueAt path = base.valueAt path) ∧
    (∀ path, (base.merge overlay).valueAt path ≠ none →
      base.valueAt path ≠ none ∨ overlay.valueAt path ≠ none) ∧
    (base.merge overlay).merge overlay = base.merge overlay := by
  have hpath := valueAt_mergeToml overlay.2 base.1
  refine ⟨?_, fun path hnone hends => ((hpath path).2 hnone).2 hends, ?_,
    Subtype.ext (mergeToml_idem overlay.2 base.1)⟩
  · intro path value hvalue hleaf
    refine ((hpath path).1 value hvalue).trans (congrArg some ?_)
    cases base.1.valueAt path with
    | none => rfl
    | some above => exact mergeToml_leaf hleaf above
  · intro path hmerged
    by_cases hover : overlay.valueAt path = none
    · refine Or.inl fun hbase => hmerged ?_
      by_cases hends : overlay.1.Ends path
      · exact ((hpath path).2 hover).1 hends
      · exact (((hpath path).2 hover).2 hends).trans hbase
    · exact Or.inr hover

end Toml

end W2uos
