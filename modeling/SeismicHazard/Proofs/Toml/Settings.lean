import SeismicHazard.Proofs.Toml.Document
import SeismicHazard.Toml.Table

/-!
# Tables of settings are read back

A table is written as a header and a line for each setting that is made. The lines are read back as the
table of these settings, where each is found under its name.

* `Toml.Setting`: a name with the text of a value and the value itself, if the setting is made.
* `Toml.takes_settings`: the lines of the settings of a table.
* `Toml.section?_fieldsOf`: what is found under the names of settings.
-/

namespace SeismicHazard

namespace TomlNode

/-! ### Tables under construction -/

section

variable {name : String} {pre fields fields' : TomlFields} {origin : TomlOrigin} {node node' : TomlNode}
  {path : List String} {f : TomlFields → Option TomlFields} {v : Toml}

theorem find?_eq_none_of_notMem (h : name ∉ fields.map (·.1)) : find? fields name = none := by
  rw [find?, Option.map_eq_none_iff, List.find?_eq_none]
  intro p hp heq
  exact h (List.mem_map.2 ⟨p, hp, by simpa using heq⟩)

theorem find?_concat (h : name ∉ pre.map (·.1)) :
    find? (pre ++ [(name, node)]) name = some node := by
  have hpre := find?_eq_none_of_notMem h
  rw [find?, Option.map_eq_none_iff] at hpre
  rw [find?, List.find?_append, hpre]
  simp

theorem replace_concat (h : name ∉ pre.map (·.1)) :
    replace (pre ++ [(name, node)]) name node' = pre ++ [(name, node')] := by
  have hpre : (pre.map fun p => if p.1 == name then (name, node') else p) = pre := by
    conv_rhs => rw [← List.map_id pre]
    refine List.map_congr_left fun p hp => if_neg ?_
    intro heq
    exact h (List.mem_map.2 ⟨p, hp, by simpa using heq⟩)
  rw [replace, List.map_append, hpre]
  simp

/-- A change inside the last table. -/
theorem modifyAt_concat (h : name ∉ pre.map (·.1)) (hf : modifyAt f path fields = some fields') :
    modifyAt f (name :: path) (pre ++ [(name, table origin fields)]) =
      some (pre ++ [(name, table origin fields')]) := by
  rw [modifyAt, find?_concat h]
  simp only [hf, Option.bind_eq_bind, Option.bind_some, replace_concat h]
  rfl

/-- A change of the last table. -/
theorem modifyAt_last (h : name ∉ pre.map (·.1)) (hf : f fields = some fields') :
    modifyAt f [name] (pre ++ [(name, table origin fields)]) =
      some (pre ++ [(name, table origin fields')]) :=
  modifyAt_concat h hf

theorem openTable_of_notMem (h : name ∉ fields.map (·.1)) :
    openTable name fields = some (fields ++ [(name, table .header [])]) := by
  rw [openTable, find?_eq_none_of_notMem h]

theorem insertDotted_of_notMem (h : name ∉ fields.map (·.1)) :
    insertDotted [] name v fields = some (fields ++ [(name, value v)]) := by
  rw [insertDotted, find?_eq_none_of_notMem h]
  rfl

theorem fieldsToToml_append (fields fields' : TomlFields) :
    fieldsToToml (fields ++ fields') = fieldsToToml fields ++ fieldsToToml fields' := by
  induction fields with
  | nil => rfl
  | cons p fields ih => rw [List.cons_append, fieldsToToml, ih, fieldsToToml, List.cons_append]

theorem fieldsToToml_value (fields : List (String × Toml)) :
    fieldsToToml (fields.map fun p => (p.1, value p.2)) = fields := by
  induction fields with
  | nil => rfl
  | cons p fields ih => rw [List.map_cons, fieldsToToml, ih, toToml]

end

end TomlNode

namespace Toml

open TomlNode

/-! ### Settings -/

/-- A setting of a table: the text of its value and the value, if it is made. -/
structure Setting where
  name : String
  written : Option (String × Toml)

/-- The line of a setting, if it is made. -/
def Setting.line (s : Setting) : String :=
  match s.written with
  | none => ""
  | some w => Config.line (key s.name) w.1

/-- Whether the value of a setting is read from its text. -/
def Setting.Reads (s : Setting) : Prop := ∀ w ∈ s.written, ReadsLine w.1.toList w.2

def settingsText (settings : List Setting) : String := String.join (settings.map Setting.line)

/-- The settings that are made. -/
def fieldsOf (settings : List Setting) : List (String × Toml) :=
  settings.filterMap fun s => s.written.map fun w => (s.name, w.2)

section

variable {settings : List Setting}

theorem mem_names_of_mem_fieldsOf {p : String × Toml} (h : p ∈ fieldsOf settings) :
    p.1 ∈ settings.map (·.name) := by
  obtain ⟨s, hs, hp⟩ := List.mem_filterMap.1 h
  obtain ⟨w, -, rfl⟩ := Option.map_eq_some_iff.1 hp
  exact List.mem_map_of_mem hs

/-- What is found under the name of a setting is its value. -/
theorem find?_fieldsOf (h : (settings.map (·.name)).Nodup) {s : Setting} (hs : s ∈ settings) :
    ((fieldsOf settings).find? (·.1 == s.name)).map (·.2) = s.written.map (·.2) := by
  induction settings with
  | nil => cases hs
  | cons t settings ih =>
    rw [List.map_cons, List.nodup_cons] at h
    rcases List.mem_cons.1 hs with rfl | hs
    · cases hw : s.written with
      | none =>
        have hnone : (fieldsOf settings).find? (·.1 == s.name) = none := by
          rw [List.find?_eq_none]
          intro p hp heq
          refine h.1 ?_
          rw [← beq_iff_eq.1 heq]
          exact mem_names_of_mem_fieldsOf hp
        rw [fieldsOf, List.filterMap_cons_none (by rw [hw]; rfl), ← fieldsOf, hnone]
      | some w =>
        rw [fieldsOf, List.filterMap_cons_some (by rw [hw]; rfl),
          List.find?_cons_of_pos (by simp)]
        rfl
    · have hname : t.name ≠ s.name := fun heq => h.1 (heq ▸ List.mem_map_of_mem hs)
      rw [← ih h.2 hs]
      cases hw : t.written with
      | none => rw [fieldsOf, List.filterMap_cons_none (by rw [hw]; rfl), ← fieldsOf]
      | some w =>
        rw [fieldsOf, List.filterMap_cons_some (by rw [hw]; rfl),
          List.find?_cons_of_neg (by simpa using hname), ← fieldsOf]

/-- Settings are found by their names, in whatever order they are asked for. -/
theorem section?_fieldsOf {asked : List Setting} (h : (settings.map (·.name)).Nodup)
    (hasked : asked ⊆ settings) : section? (asked.map (·.name)) (.table (fieldsOf settings)) =
      some (asked.map fun s => s.written.map (·.2)) := by
  rw [section?, List.map_map]
  exact congrArg some (List.map_congr_left fun s hs => find?_fieldsOf h (hasked hs))

/-- The lines of the settings of a table, where `place` puts the table into the document. -/
theorem takes_settings {path : List String} {place : TomlFields → TomlFields}
    (hplace : ∀ f fields fields', f fields = some fields' →
      modifyAt f path (place fields) = some (place fields'))
    (hread : ∀ s ∈ settings, s.Reads) {fields : TomlFields}
    (hnodup : (fields.map (·.1) ++ settings.map (·.name)).Nodup) :
    Takes (settingsText settings).toList ⟨path, place fields⟩
      ⟨path, place (fields ++ (fieldsOf settings).map fun p => (p.1, value p.2))⟩ := by
  induction settings generalizing fields with
  | nil =>
    rw [fieldsOf, List.filterMap_nil, List.map_nil, List.append_nil]
    exact Takes.nil _
  | cons s settings ih =>
    rw [List.forall_mem_cons] at hread
    have htext : (settingsText (s :: settings)).toList =
        s.line.toList ++ (settingsText settings).toList := by
      simp only [settingsText, String.toList_join, List.map_cons, List.flatMap_cons]
    rw [htext]
    cases hw : s.written with
    | none =>
      rw [fieldsOf, List.filterMap_cons_none (by rw [hw]; rfl), ← fieldsOf, Setting.line, hw]
      refine ih hread.2 (hnodup.sublist ?_)
      exact List.Sublist.append_left (List.sublist_cons_self _ _) _
    | some w =>
      have hmem : s.name ∉ fields.map (·.1) := fun hmem =>
        List.disjoint_of_nodup_append hnodup hmem (by simp)
      have hline := takes_entry (hread.1 w hw)
        (hplace _ _ _ (insertDotted_of_notMem hmem))
      have hchars : s.line.toList =
          (key s.name).toList ++ [' ', '=', ' '] ++ w.1.toList ++ ['\n'] := by
        rw [Setting.line, hw]
        simp only [Config.line, String.toList_append]
        rfl
      rw [hchars]
      refine hline.append ?_
      have hrest := @ih hread.2 (fields ++ [(s.name, value w.2)]) (by simpa using hnodup)
      rw [fieldsOf, List.filterMap_cons_some (by rw [hw]; rfl), ← fieldsOf, List.map_cons]
      simpa using hrest

/-- The settings that are made, as a table under construction. -/
def values (settings : List Setting) : TomlFields :=
  (fieldsOf settings).map fun p => (p.1, value p.2)

theorem notMem_values {name : String} (h : name ∉ settings.map (·.name)) :
    name ∉ (values settings).map (·.1) := by
  rw [values, List.map_map]
  intro hmem
  obtain ⟨p, hp, rfl⟩ := List.mem_map.1 hmem
  exact h (mem_names_of_mem_fieldsOf hp)

variable {current : List String} {pre fields : TomlFields} {origin : TomlOrigin} {cs : List Char}
  {name outer : String}

/-- A table with its header. -/
theorem takes_table (hname : name ∉ pre.map (·.1)) (hhead : name.toList.head? ≠ some '[')
    (hpath : ∀ rest, keyPath? (name.toList ++ ']' :: rest) = some ([name], ']' :: rest))
    (hread : ∀ s ∈ settings, s.Reads) (hnodup : (settings.map (·.name)).Nodup) :
    Takes ('[' :: name.toList ++ [']', '\n'] ++ (settingsText settings).toList) ⟨current, pre⟩
      ⟨[name], pre ++ [(name, .table .header (values settings))]⟩ := by
  have hheader := @takes_header name.toList ⟨current, pre⟩ name [] _ hhead hpath
    (openTable_of_notMem hname)
  have hsettings := @takes_settings settings [name]
    (fun fields => pre ++ [(name, .table .header fields)])
    (fun f fields fields' hf => modifyAt_last hname hf) hread [] (by simpa using hnodup)
  simpa [values] using hheader.append hsettings

/-- A table inside the last one, with its header. -/
theorem takes_subtable (houter : outer ∉ pre.map (·.1)) (hname : name ∉ fields.map (·.1))
    (hhead : cs.head? ≠ some '[')
    (hpath : ∀ rest, keyPath? (cs ++ ']' :: rest) = some ([outer, name], ']' :: rest))
    (hread : ∀ s ∈ settings, s.Reads) (hnodup : (settings.map (·.name)).Nodup) :
    Takes ('[' :: cs ++ [']', '\n'] ++ (settingsText settings).toList)
      ⟨current, pre ++ [(outer, .table origin fields)]⟩
      ⟨[outer, name], pre ++
        [(outer, .table origin (fields ++ [(name, .table .header (values settings))]))]⟩ := by
  have hheader := @takes_header cs ⟨current, pre ++ [(outer, .table origin fields)]⟩ name [outer] _
    hhead hpath (modifyAt_last houter (openTable_of_notMem hname))
  have hsettings := @takes_settings settings [outer, name]
    (fun inner => pre ++ [(outer, .table origin (fields ++ [(name, .table .header inner)]))])
    (fun f inner inner' hf => modifyAt_concat houter (modifyAt_last hname hf)) hread []
    (by simpa using hnodup)
  simpa [values] using hheader.append hsettings

end

end Toml

end SeismicHazard
