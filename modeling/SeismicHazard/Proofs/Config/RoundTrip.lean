import SeismicHazard.Proofs.Config.Validation
import SeismicHazard.Proofs.Toml.Settings

/-!
# Configurations are read back

* `Config.Same`: configurations with the same settings.
* `Config.takes_text`: the text of a configuration is read as its document.
* `Config.exists_ofToml_text`: and so as the configuration, if its numbers are read back.
* `Config.ofToml_toToml`: the text of an allowed configuration gives the same configuration.
-/

namespace SeismicHazard

open Std (TreeMap)

namespace Config

/-! ### Configurations with the same settings -/

section

variable {α : Type}

/-- Whether two configurations have the same settings; the levels are compared measure by measure. -/
structure Same (c c' : Config α) : Prop where
  binning : c'.binning = c.binning
  request : c'.request = { c.request with levels := c'.request.levels }
  levels : c'.request.levels.toList = c.request.levels.toList
  execution : c'.execution = c.execution

/-- A map is given back by its pairs. -/
theorem ofList_toList_equiv (levels : TreeMap String α) :
    (TreeMap.ofList levels.toList).Equiv levels := by
  refine TreeMap.Equiv.of_forall_constGet?_eq fun name => ?_
  cases hname : levels[name]? with
  | some x =>
    exact TreeMap.getElem?_ofList_of_mem Std.ReflCmp.compare_self TreeMap.distinct_keys_toList
      (TreeMap.mem_toList_iff_getElem?_eq_some.2 hname)
  | none =>
    refine TreeMap.getElem?_ofList_of_contains_eq_false ?_
    rw [TreeMap.map_fst_toList_eq_keys, ← Bool.not_eq_true, List.contains_iff_mem, TreeMap.mem_keys,
      ← TreeMap.isSome_getElem?_iff_mem, hname]
    simp

/-- The rules only ask for the settings. -/
theorem validate_congr [Scalar α] {c c' : Config α} (h : Same c c') : c'.validate = c.validate := by
  obtain ⟨b, r, e⟩ := c
  obtain ⟨b', r', e'⟩ := c'
  obtain ⟨hbinning, hrequest, hlevels, hexecution⟩ := h
  obtain ⟨levels, hlevels'⟩ : ∃ levels, levels = r'.levels := ⟨_, rfl⟩
  simp only [← hlevels'] at hbinning hrequest hlevels hexecution
  subst hbinning hrequest hexecution
  have hequiv := TreeMap.equiv_iff_toList_eq.2 hlevels
  have hviolation : levelsViolation? (⟨b', { r with levels := levels }, e'⟩ : Config α) =
      levelsViolation? ⟨b', r, e'⟩ := by
    simp only [levelsViolation?, hasLevels, hlevels, hequiv.isEmpty_eq, hequiv.contains_eq]
  simp only [validate, violation?, hviolation]
  rfl

end

section

variable {α : Type} [DecimalText α] {x : α} {β : Type}

/-! ### Values with their texts -/

/-- A number as it is written, and what is read from that: digits around a point with the same value. -/
def realValue (x : α) : String × Toml :=
  (realText x, .float (match DecimalText.numeral Toml.layout.tie x with
    | .finite d => .finite (Toml.printed d)
    | y => y))

def naturalValue (n : ℕ) : String × Toml := (n.repr, .integer n)

def textValue (s : String) : String × Toml := (Toml.quote s, .text s)

def boolValue (b : Bool) : String × Toml := (if b then "true" else "false", .bool b)

def listValue (values : List (String × Toml)) : String × Toml :=
  (listText (values.map (·.1)), .list (values.map (·.2)))

theorem fst_realValue (x : α) : (realValue x).1 = realText x := rfl

theorem fst_naturalValue (n : ℕ) : (naturalValue n).1 = n.repr := rfl

theorem fst_textValue (s : String) : (textValue s).1 = Toml.quote s := rfl

theorem fst_boolValue (b : Bool) : (boolValue b).1 = if b then "true" else "false" := rfl

theorem fst_listValue (g : β → String × Toml) (xs : List β) :
    (listValue (xs.map g)).1 = listText (xs.map fun x => (g x).1) := by
  rw [listValue, List.map_map]
  rfl

theorem reads_realValue (h : Readable Toml.layout.tie x) :
    Toml.Reads (realValue x).1.toList (realValue x).2 := by
  obtain ⟨d, hd, hreduced, hsmall, -⟩ := h
  rw [realValue, realText, Layout.text, hd]
  exact Toml.reads_decimal hreduced hsmall

theorem real?_realValue [Scalar α] (h : Readable Toml.layout.tie x) :
    Toml.real? (realValue x).2 = some x := by
  obtain ⟨d, hd, -, -, hread⟩ := h
  rw [realValue, hd]
  exact congrArg some (hread _ rfl (Toml.magnitude_printed d))

theorem nat?_naturalValue (n : ℕ) : Toml.nat? (naturalValue n).2 = some n := rfl

theorem mode?_textValue (m : ExecutionMode) : Toml.mode? (textValue m.name).2 = some m := by
  cases m with
  | parallel => rfl
  | sequential => rfl

/-! ### Settings that are read back -/

theorem optional?_map {f : Toml → Option β} {g : β → String × Toml} {o : Option β}
    (h : ∀ x ∈ o, f (g x).2 = some x) : Toml.optional? f ((o.map g).map (·.2)) = some o := by
  cases o with
  | none => rfl
  | some x => exact congrArg (Option.map some) (h x rfl)

theorem list?_listValue {f : Toml → Option β} {g : β → String × Toml} {xs : List β}
    (h : ∀ x ∈ xs, f (g x).2 = some x) : Toml.list? f (listValue (xs.map g)).2 = some xs := by
  change ((xs.map g).map (·.2)).mapM f = some xs
  induction xs with
  | nil => rfl
  | cons x xs ih =>
    rw [List.forall_mem_cons] at h
    rw [List.map_cons, List.map_cons, List.mapM_cons, h.1, ih h.2]
    rfl

theorem readsLine_listValue {values : List (String × Toml)}
    (h : ∀ w ∈ values, Toml.Reads w.1.toList w.2) :
    Toml.ReadsLine (listValue values).1.toList (listValue values).2 :=
  Toml.readsLine_listText values h

/-! ### Lines -/

theorem line_map (name : String) (g : β → String × Toml) (o : Option β) :
    Toml.Setting.line ⟨name, o.map g⟩ = optionalLine (Toml.key name) (fun x => (g x).1) o := by
  cases o with
  | none => rfl
  | some x => rfl

theorem line_some (name : String) (w : String × Toml) :
    Toml.Setting.line ⟨name, some w⟩ = line (Toml.key name) w.1 := rfl

theorem key_eq_self {name : String} (h : name.toList ≠ [] ∧ name.toList.all Toml.isBare) :
    Toml.key name = name := if_pos h

/-! ### Sections -/

def binningSettings (b : BinningConfig α) : List Toml.Setting :=
  [⟨"mag_bin_width", b.magWidth.map realValue⟩,
    ⟨"distance_bin_width", b.distanceWidth.map realValue⟩,
    ⟨"coordinate_bin_width", b.coordinateWidth.map realValue⟩,
    ⟨"num_epsilon_bins", b.epsilonBins.map naturalValue⟩]

def requestSettings (r : RequestConfig α) : List Toml.Setting :=
  [⟨"truncation_level", r.truncation.map realValue⟩,
    ⟨"maximum_distance", r.maxDistance.map realValue⟩,
    ⟨"investigation_time", r.time.map realValue⟩,
    ⟨"poes_disagg", some (listValue (r.poes.map realValue))⟩,
    ⟨"intensity_measure_types", some (listValue (r.imts.map textValue))⟩]

def levelSettings (levels : TreeMap String α) : List Toml.Setting :=
  levels.toList.map fun p => ⟨p.1, some (realValue p.2)⟩

def executionSettings (e : ExecutionConfig α) : List Toml.Setting :=
  [⟨"mode", e.mode.map fun m => textValue m.name⟩,
    ⟨"threads", e.threads.map naturalValue⟩,
    ⟨"concurrent_tasks", e.taskCount.map naturalValue⟩,
    ⟨"point_source_weight", e.pointFactor.map realValue⟩,
    ⟨"pmf_views", some (listValue (e.views.map textValue))⟩,
    ⟨"sanity_tolerance", e.tolerance.map realValue⟩,
    ⟨"strict_sanity_check", e.strict.map boolValue⟩]

/-! The names of the settings are written without quotes, only those of levels may need some. -/

theorem binningText_eq (b : BinningConfig α) :
    binningText b = "[binning]\n" ++ Toml.settingsText (binningSettings b) := by
  unfold binningText Toml.settingsText binningSettings
  simp only [List.map_cons, List.map_nil, String.join_cons, String.join_nil, line_map]
  simp (disch := decide) only [key_eq_self]
  simp only [fst_realValue, fst_naturalValue, String.append_assoc, String.append_empty]

theorem requestText_eq (r : RequestConfig α) :
    requestText r = "[calculation]\n" ++ Toml.settingsText (requestSettings r) := by
  unfold requestText Toml.settingsText requestSettings
  simp only [List.map_cons, List.map_nil, String.join_cons, String.join_nil, line_map, line_some]
  simp (disch := decide) only [key_eq_self]
  simp only [fst_realValue, fst_listValue, fst_textValue, String.append_assoc, String.append_empty]

theorem levelsText_eq (levels : TreeMap String α) :
    levelsText levels = "[calculation.iml_disagg]\n" ++ Toml.settingsText (levelSettings levels) := by
  have hlines : (levels.toList.map fun p => line (Toml.key p.1) (realText p.2)) =
      (levelSettings levels).map Toml.Setting.line := by
    rw [levelSettings, List.map_map]
    exact List.map_congr_left fun _ _ => rfl
  exact congrArg (fun lines => "[calculation.iml_disagg]\n" ++ String.join lines) hlines

theorem executionText_eq (e : ExecutionConfig α) :
    executionText e = "[execution]\n" ++ Toml.settingsText (executionSettings e) := by
  unfold executionText Toml.settingsText executionSettings
  simp only [List.map_cons, List.map_nil, String.join_cons, String.join_nil, line_map, line_some]
  simp (disch := decide) only [key_eq_self]
  simp only [fst_realValue, fst_naturalValue, fst_textValue, fst_boolValue, fst_listValue,
    String.append_assoc, String.append_empty]

/-! ### The document -/

/-- The settings that are numbers. -/
def realSettings (c : Config α) : List (Option α) :=
  [c.binning.magWidth, c.binning.distanceWidth, c.binning.coordinateWidth, c.request.truncation,
    c.request.maxDistance, c.request.time, c.execution.pointFactor, c.execution.tolerance]

/-- Whether the numbers of a configuration are read back and its integers can stand in a document. -/
structure IsReadable (c : Config α) : Prop where
  settings : ∀ o ∈ c.realSettings, ∀ x ∈ o, Readable Toml.layout.tie x
  poes : ∀ x ∈ c.request.poes, Readable Toml.layout.tie x
  levels : ∀ p ∈ c.request.levels.toList, Readable Toml.layout.tie p.2
  fits : c.fits = true

/-- What is read from the text of a configuration. -/
def documentFields (c : Config α) : List (String × Toml) :=
  [("binning", .table (Toml.fieldsOf (binningSettings c.binning))),
    ("calculation", .table (Toml.fieldsOf (requestSettings c.request) ++
      [("iml_disagg", .table (Toml.fieldsOf (levelSettings c.request.levels)))])),
    ("execution", .table (Toml.fieldsOf (executionSettings c.execution)))]

variable {c : Config α}

theorem reads_map {name : String} {g : β → String × Toml} {o : Option β}
    (h : ∀ x ∈ o, Toml.Reads (g x).1.toList (g x).2) : Toml.Setting.Reads ⟨name, o.map g⟩ := by
  intro w hw
  obtain ⟨x, hx, rfl⟩ := Option.map_eq_some_iff.1 hw
  exact (h x hx).readsLine

theorem reads_list {name : String} {g : β → String × Toml} {xs : List β}
    (h : ∀ x ∈ xs, Toml.Reads (g x).1.toList (g x).2) :
    Toml.Setting.Reads ⟨name, some (listValue (xs.map g))⟩ := by
  rintro _ ⟨⟩
  refine readsLine_listValue fun w hw => ?_
  obtain ⟨x, hx, rfl⟩ := List.mem_map.1 hw
  exact h x hx

namespace IsReadable

theorem reads_natural (h : c.IsReadable) {o : Option ℕ}
    (ho : o ∈ [c.binning.epsilonBins, c.execution.threads, c.execution.taskCount]) :
    ∀ n ∈ o, Toml.Reads (naturalValue n).1.toList (naturalValue n).2 := by
  intro n hn
  have hfits := List.all_eq_true.1 h.fits o ho
  obtain rfl := Option.mem_def.1 hn
  have hle : n ≤ maxInteger := by simpa using hfits
  have hmax : maxInteger < 2 ^ 63 := by decide
  exact Toml.reads_natural (hle.trans_lt hmax)

theorem reads_real (h : c.IsReadable) {o : Option α} (ho : o ∈ c.realSettings) :
    ∀ x ∈ o, Toml.Reads (realValue x).1.toList (realValue x).2 := fun x hx =>
  reads_realValue (h.settings o ho x hx)

theorem reads_binning (h : c.IsReadable) : ∀ s ∈ binningSettings c.binning, s.Reads := by
  simp only [binningSettings, List.forall_mem_cons, List.not_mem_nil, false_imp_iff, implies_true,
    and_true]
  exact ⟨reads_map (h.reads_real (by simp [realSettings])),
    reads_map (h.reads_real (by simp [realSettings])),
    reads_map (h.reads_real (by simp [realSettings])),
    reads_map (h.reads_natural (by simp))⟩

theorem reads_request (h : c.IsReadable) : ∀ s ∈ requestSettings c.request, s.Reads := by
  simp only [requestSettings, List.forall_mem_cons, List.not_mem_nil, false_imp_iff, implies_true,
    and_true]
  exact ⟨reads_map (h.reads_real (by simp [realSettings])),
    reads_map (h.reads_real (by simp [realSettings])),
    reads_map (h.reads_real (by simp [realSettings])),
    reads_list fun x hx => reads_realValue (h.poes x hx),
    reads_list fun s _ => Toml.reads_quote s⟩

theorem reads_levels (h : c.IsReadable) : ∀ s ∈ levelSettings c.request.levels, s.Reads := by
  intro s hs
  obtain ⟨p, hp, rfl⟩ := List.mem_map.1 hs
  rintro _ ⟨⟩
  exact (reads_realValue (h.levels p hp)).readsLine

theorem reads_execution (h : c.IsReadable) : ∀ s ∈ executionSettings c.execution, s.Reads := by
  simp only [executionSettings, List.forall_mem_cons, List.not_mem_nil, false_imp_iff, implies_true,
    and_true]
  exact ⟨reads_map fun m _ => Toml.reads_quote m.name,
    reads_map (h.reads_natural (by simp)),
    reads_map (h.reads_natural (by simp)),
    reads_map (h.reads_real (by simp [realSettings])),
    reads_list fun s _ => Toml.reads_quote s,
    reads_map (h.reads_real (by simp [realSettings])),
    reads_map fun b _ => Toml.reads_bool b⟩

end IsReadable

open Toml TomlNode

/-- The tables of the document of a configuration. -/
def root (c : Config α) : TomlFields :=
  [("binning", .table .header (values (binningSettings c.binning))),
    ("calculation", .table .header (values (requestSettings c.request) ++
      [("iml_disagg", .table .header (values (levelSettings c.request.levels)))])),
    ("execution", .table .header (values (executionSettings c.execution)))]

theorem nodup_levelSettings (levels : TreeMap String α) :
    ((levelSettings levels).map (·.name)).Nodup := by
  have hnames : (levelSettings levels).map (·.name) = levels.keys := by
    rw [levelSettings, List.map_map, ← TreeMap.map_fst_toList_eq_keys]
    rfl
  rw [hnames]
  exact TreeMap.nodup_keys

/-- The text of a configuration is read as its document. -/
theorem takes_text (h : c.IsReadable) : Takes c.text.toList ⟨[], []⟩ ⟨["execution"], root c⟩ := by
  have hnew : "iml_disagg" ∉ (values (requestSettings c.request)).map (·.1) :=
    notMem_values (by simp [requestSettings])
  have hbinning := @takes_table (binningSettings c.binning) [] [] "binning" (by simp) (by decide)
    (fun _ => rfl) h.reads_binning (by simp [binningSettings])
  have hrequest := @takes_table (requestSettings c.request) ["binning"]
    [("binning", .table .header (values (binningSettings c.binning)))] "calculation" (by simp)
    (by decide) (fun _ => rfl) h.reads_request (by simp [requestSettings])
  have hlevels := @takes_subtable (levelSettings c.request.levels) ["calculation"]
    [("binning", .table .header (values (binningSettings c.binning)))]
    (values (requestSettings c.request)) .header "calculation.iml_disagg".toList "iml_disagg"
    "calculation" (by simp) hnew (by decide) (fun _ => rfl) h.reads_levels (nodup_levelSettings _)
  have hexecution := @takes_table (executionSettings c.execution) ["calculation", "iml_disagg"]
    [("binning", .table .header (values (binningSettings c.binning))),
      ("calculation", .table .header (values (requestSettings c.request) ++
        [("iml_disagg", .table .header (values (levelSettings c.request.levels)))]))]
    "execution" (by simp) (by decide) (fun _ => rfl) h.reads_execution (by simp [executionSettings])
  have hall := ((((((hbinning.append (takes_blank _)).append hrequest).append
    (takes_blank _)).append hlevels).append (takes_blank _)).append hexecution)
  have htext : c.text = binningText c.binning ++ "\n" ++ requestText c.request ++ "\n" ++
      levelsText c.request.levels ++ "\n" ++ executionText c.execution := by
    simp [text, String.append_assoc]
  rw [htext, binningText_eq, requestText_eq, levelsText_eq, executionText_eq]
  simp only [String.toList_append]
  exact hall

theorem fieldsToToml_root (c : Config α) : fieldsToToml (root c) = documentFields c := by
  simp only [root, documentFields, fieldsToToml, TomlNode.toToml, fieldsToToml_append, values,
    fieldsToToml_value]

theorem parse?_text (h : c.IsReadable) : Toml.parse? c.text = some (documentFields c) := by
  -- the text begins with a header and not with a byte-order mark
  have hmark : skipMark c.text.toList = c.text.toList := by
    have htext : ∃ rest, c.text.toList = '[' :: rest := by
      simp only [text, String.intercalate_cons_cons, binningText, String.toList_append]
      exact ⟨_, rfl⟩
    obtain ⟨rest, hrest⟩ := htext
    rw [hrest]
    rfl
  rw [Toml.parse?, hmark]
  simp only [(takes_text h).lines?_eq_some, Option.bind_eq_bind, Option.bind_some,
    fieldsToToml_root]
  rfl

/-! ### The configuration of a document -/

section

variable [Scalar α]

theorem IsReadable.optional?_real (h : c.IsReadable) {o : Option α} (ho : o ∈ c.realSettings) :
    optional? real? ((o.map realValue).map (·.2)) = some o :=
  optional?_map fun x hx => real?_realValue (h.settings o ho x hx)

theorem optional?_natural (o : Option ℕ) :
    optional? nat? ((o.map naturalValue).map (·.2)) = some o :=
  optional?_map fun n _ => nat?_naturalValue n

theorem binning?_fieldsOf (h : c.IsReadable) :
    Toml.binning? (.table (fieldsOf (binningSettings c.binning))) = some c.binning := by
  have hsection := @section?_fieldsOf (binningSettings c.binning) _ (by simp [binningSettings])
    (List.Subset.refl _)
  simp only [binningSettings, List.map_cons, List.map_nil] at hsection ⊢
  simp only [Toml.binning?, hsection, Option.bind_eq_bind, Option.bind_some]
  rw [h.optional?_real (by simp [realSettings]), h.optional?_real (by simp [realSettings]),
    h.optional?_real (by simp [realSettings]), optional?_natural]
  rfl

theorem execution?_fieldsOf (h : c.IsReadable) :
    Toml.execution? (.table (fieldsOf (executionSettings c.execution))) = some c.execution := by
  have hmode : optional? mode? ((c.execution.mode.map fun m => textValue m.name).map (·.2)) =
      some c.execution.mode := optional?_map fun m _ => mode?_textValue m
  have hviews : list? text? (listValue (c.execution.views.map textValue)).2 =
      some c.execution.views := list?_listValue fun _ _ => rfl
  have hstrict : optional? bool? ((c.execution.strict.map boolValue).map (·.2)) =
      some c.execution.strict := optional?_map fun _ _ => rfl
  have hsection := @section?_fieldsOf (executionSettings c.execution) _
    (by simp [executionSettings]) (List.Subset.refl _)
  simp only [executionSettings, List.map_cons, List.map_nil] at hsection ⊢
  simp only [Toml.execution?, hsection, Option.bind_eq_bind, Option.bind_some, Option.map_some,
    orElse?]
  rw [h.optional?_real (by simp [realSettings]), h.optional?_real (by simp [realSettings]),
    optional?_natural, optional?_natural, hmode, hviews, hstrict]
  rfl

theorem reals?_fieldsOf (h : c.IsReadable) :
    Toml.reals? (.table (fieldsOf (levelSettings c.request.levels))) =
      some (TreeMap.ofList c.request.levels.toList) := by
  have hfields : fieldsOf (levelSettings c.request.levels) =
      c.request.levels.toList.map fun p => (p.1, (realValue p.2).2) := by
    rw [fieldsOf, levelSettings, List.filterMap_map, ← List.filterMap_eq_map]
    rfl
  have hpairs : ∀ pairs : List (String × α), (∀ p ∈ pairs, Readable Toml.layout.tie p.2) →
      (pairs.map fun p => (p.1, (realValue p.2).2)).mapM (fun p => do
        return (p.1, ← real? p.2)) = some pairs := by
    intro pairs hreadable
    induction pairs with
    | nil => rfl
    | cons p pairs ih =>
      rw [List.forall_mem_cons] at hreadable
      rw [List.map_cons, List.mapM_cons, ih hreadable.2]
      simp only [real?_realValue hreadable.1]
      rfl
  rw [hfields]
  exact congrArg (Option.bind · fun pairs => some (TreeMap.ofList pairs)) (hpairs _ h.levels)

theorem request?_fieldsOf (h : c.IsReadable) :
    Toml.request? (.table (fieldsOf (requestSettings c.request) ++
      [("iml_disagg", .table (fieldsOf (levelSettings c.request.levels)))])) =
        some { c.request with levels := TreeMap.ofList c.request.levels.toList } := by
  obtain ⟨t, ht⟩ : ∃ t, t = Toml.table (fieldsOf (levelSettings c.request.levels)) := ⟨_, rfl⟩
  -- the table of levels is found like a setting that is made
  have hfields : fieldsOf (requestSettings c.request) ++ [("iml_disagg", t)] =
      fieldsOf (requestSettings c.request ++ [⟨"iml_disagg", some ("", t)⟩]) := by
    rw [fieldsOf, fieldsOf, List.filterMap_append]
    rfl
  have hpoes : list? real? (listValue (c.request.poes.map realValue)).2 = some c.request.poes :=
    list?_listValue fun x hx => real?_realValue (h.poes x hx)
  have himts : list? text? (listValue (c.request.imts.map textValue)).2 = some c.request.imts :=
    list?_listValue fun _ _ => rfl
  have hlevels := reals?_fieldsOf h
  rw [← ht] at hlevels ⊢
  -- the levels are asked for before the measures, but written last
  have hsection := @section?_fieldsOf (requestSettings c.request ++ [⟨"iml_disagg", some ("", t)⟩])
    [⟨"truncation_level", c.request.truncation.map realValue⟩,
      ⟨"maximum_distance", c.request.maxDistance.map realValue⟩,
      ⟨"investigation_time", c.request.time.map realValue⟩,
      ⟨"poes_disagg", some (listValue (c.request.poes.map realValue))⟩,
      ⟨"iml_disagg", some ("", t)⟩,
      ⟨"intensity_measure_types", some (listValue (c.request.imts.map textValue))⟩]
    (by simp [requestSettings]) (by simp [requestSettings])
  rw [hfields]
  simp only [List.map_cons, List.map_nil] at hsection
  simp only [Toml.request?, hsection, Option.bind_eq_bind, Option.bind_some, Option.map_some,
    orElse?]
  rw [h.optional?_real (by simp [realSettings]), h.optional?_real (by simp [realSettings]),
    h.optional?_real (by simp [realSettings]), hpoes, himts, hlevels]
  rfl

theorem ofDocument?_documentFields (h : c.IsReadable) : ofDocument? (documentFields c) =
    some ⟨c.binning, { c.request with levels := TreeMap.ofList c.request.levels.toList },
      c.execution⟩ := by
  obtain ⟨fields, hfields⟩ : ∃ fields, fields = documentFields c := ⟨_, rfl⟩
  have hsection := @section?_fieldsOf ((documentFields c).map fun p => ⟨p.1, some ("", p.2)⟩) _
    (by simp [documentFields]) (List.Subset.refl _)
  have hself : fieldsOf ((documentFields c).map fun p => ⟨p.1, some ("", p.2)⟩) = fields := hfields.symm
  rw [hself] at hsection
  rw [← hfields]
  simp only [documentFields, List.map_cons, List.map_nil] at hsection
  simp only [ofDocument?, hsection, Option.bind_eq_bind, Option.bind_some, Option.map_some, orElse?]
  rw [binning?_fieldsOf h, request?_fieldsOf h, execution?_fieldsOf h]
  rfl

/-- The text of a configuration whose numbers are read back. -/
theorem exists_ofToml_text (h : c.IsReadable) (hvalid : c.validate = .ok ()) :
    ∃ c', ofToml c.text = .ok c' ∧ Same c c' := by
  obtain ⟨c', hc'⟩ : ∃ c' : Config α, c' = ⟨c.binning,
    { c.request with levels := TreeMap.ofList c.request.levels.toList }, c.execution⟩ := ⟨_, rfl⟩
  have hsame : Same c c' := by
    rw [hc']
    exact ⟨rfl, rfl, (ofList_toList_equiv _).toList_eq, rfl⟩
  refine ⟨c', ?_, hsame⟩
  have hread : (read? c.text : Option (Config α)) = some c' := by
    rw [read?, parse?_text h]
    exact (ofDocument?_documentFields h).trans (congrArg some hc'.symm)
  simp only [ofToml, hread, validate_congr hsame, hvalid]

end

end

/-! ### Allowed configurations of doubles -/

section

variable {c : Config Float}

theorem readable_of_isFinite {x : Float} (h : Scalar.isFinite x) : Readable Toml.layout.tie x :=
  Double.readable _ (Double.exists_parts_of_isFinite h)

theorem readable_of_isPositive {x : Float} (h : Scalar.isPositive x) : Readable Toml.layout.tie x := by
  rw [Scalar.isPositive, Bool.and_eq_true] at h
  exact readable_of_isFinite h.1

/-- The numbers of an allowed configuration are finite, and so they are read back. -/
theorem isReadable_of_validate (h : c.validate = .ok ()) (hfits : c.fits) : c.IsReadable := by
  have hpositive : ∀ (setting : String) {o : Option Float}, (setting, o) ∈ c.positiveSettings →
      ∀ x ∈ o, Readable Toml.layout.tie x := by
    rintro setting _ ho x rfl
    exact readable_of_isPositive (isPositive_of_validate h ho)
  refine ⟨?_, fun p hp => ?_, fun level hlevel => ?_, hfits⟩
  · simp only [realSettings, List.forall_mem_cons, List.not_mem_nil, false_imp_iff, implies_true,
      and_true]
    exact ⟨hpositive "binning.mag_bin_width" (by simp [positiveSettings]),
      hpositive "binning.distance_bin_width" (by simp [positiveSettings]),
      hpositive "binning.coordinate_bin_width" (by simp [positiveSettings]),
      hpositive "calculation.truncation_level" (by simp [positiveSettings]),
      hpositive "calculation.maximum_distance" (by simp [positiveSettings]),
      hpositive "calculation.investigation_time" (by simp [positiveSettings]),
      fun x hx => readable_of_isFinite (isFinite_pointFactor h hx),
      hpositive "execution.sanity_tolerance" (by simp [positiveSettings])⟩
  · have hprobability : Scalar.IsPositiveProbability p := pos_and_le_one_of_mem h hp
    exact Double.readable _ (Double.isFinite_of_isPositiveProbability hprobability)
  · exact readable_of_isPositive (isPositive_level h hlevel)

/-- **Round trip.** The text of an allowed configuration is read as a configuration with the same
settings. -/
theorem ofToml_toToml {t : String} (h : c.validate = .ok ()) (ht : c.toToml = .ok t) :
    ∃ c' : Config Float, ofToml t = .ok c' ∧ Same c c' := by
  rw [toToml] at ht
  split at ht
  · next hfits =>
    obtain rfl := Except.ok.inj ht
    exact exists_ofToml_text (isReadable_of_validate h hfits) h
  · cases ht

/-- A configuration with names that need quotes, several thresholds and numbers of any size. -/
def quoted : Config Float where
  binning := ⟨some 0.1, none, some 5e-324, some 7⟩
  request := ⟨some 3, some 1e22, none, [0.1, 0.002105, 1],
    .ofList [("SA(0.2)", 0.30000000000000004), ("it's \"odd\"\n", 1.5e300)],
    ["SA(0.2)", "it's \"odd\"\n"]⟩
  execution := ⟨some .sequential, some 0, some (2 ^ 63 - 1), some (-0.0), ["Mag", "Lon_Lat_TRT"],
    none, some true⟩

theorem ofToml_toToml_quoted : quoted.validate = .ok () ∧ quoted.toToml = .ok quoted.text ∧
    ∃ c' : Config Float, ofToml quoted.text = .ok c' ∧ Same quoted c' := by
  have hvalid : quoted.validate = .ok () := by
    have hviolation : quoted.violation? = none := Option.isNone_iff_eq_none.1 (by decide +kernel)
    rw [validate, hviolation]
  have htext : quoted.toToml = .ok quoted.text := if_pos (by decide)
  exact ⟨hvalid, htext, ofToml_toToml hvalid htext⟩

end

end Config

end SeismicHazard
