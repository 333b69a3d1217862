import SeismicHazard.Config.Field
import SeismicHazard.Number.Double
import SeismicHazard.Proofs.Fallible

/-!
# The highest layer that makes a setting decides

* `Config.eq_of_value?_eq`: a configuration is made up of the values of its settings.
* `Config.value?_merge`, `Environment.value?_config`, `Overrides.value?_apply`: each kind of layer,
  setting by setting.
* `Config.merge_assoc`, `Config.empty_merge`, `Config.merge_empty`, `Config.merge_self`: the laws of
  merging, from those of the settings.
* `Config.load_eq_ok_iff_decided`: what is loaded, setting by setting.
* `Config.highest_layer_decides`: all of this, and which files are refused or passed over.
-/

namespace SeismicHazard

open Std (TreeMap)

section

variable {α β : Type} {c c' lower higher : Config α}

theorem nonempty?_inj {xs ys : List β} (h : nonempty? xs = nonempty? ys) : xs = ys := by
  cases xs with
  | nil => cases ys with
    | nil => rfl
    | cons y ys => cases h
  | cons x xs => cases ys with
    | nil => cases h
    | cons y ys => exact Option.some.inj h

theorem nonempty?_mergeList (lower higher : List β) :
    nonempty? (Config.mergeList lower higher) = (nonempty? higher).or (nonempty? lower) := by
  cases higher with
  | nil => rfl
  | cons x xs => rfl

theorem eq_empty_of_isEmpty {t : TreeMap String β} (h : t.isEmpty = true) : t = ∅ := by
  obtain ⟨⟨inner, balanced⟩⟩ := t
  cases inner with
  | leaf => rfl
  | inner => cases h

namespace Config

/-- Levels are told by whether there are any, and which. -/
theorem levels_eq_of_value?_eq (h : c.value? .levels = c'.value? .levels) :
    c.request.levels = c'.request.levels := by
  simp only [value?] at h
  split at h
  · next hempty =>
    split at h
    · next hempty' => rw [eq_empty_of_isEmpty hempty, eq_empty_of_isEmpty hempty']
    · cases h
  · split at h
    · cases h
    · simpa using h

/-- A configuration is made up of the values of its settings: none is left out. -/
theorem eq_of_value?_eq (h : ∀ f, c.value? f = c'.value? f) : c = c' := by
  have hoption : ∀ {γ : Type} {wrap : γ → ConfigValue α} {x y : Option γ},
      Function.Injective wrap → x.map wrap = y.map wrap → x = y := fun hwrap hxy =>
    Option.map_injective hwrap hxy
  have hnumber : Function.Injective (ConfigValue.number (α := α)) := fun _ _ h => by cases h; rfl
  have hcount : Function.Injective (ConfigValue.count (α := α)) := fun _ _ h => by cases h; rfl
  have hflag : Function.Injective (ConfigValue.flag (α := α)) := fun _ _ h => by cases h; rfl
  have hmode : Function.Injective (ConfigValue.mode (α := α)) := fun _ _ h => by cases h; rfl
  have hnumbers : Function.Injective (ConfigValue.numbers (α := α)) := fun _ _ h => by cases h; rfl
  have hnames : Function.Injective (ConfigValue.names (α := α)) := fun _ _ h => by cases h; rfl
  have hlevels := levels_eq_of_value?_eq (h .levels)
  obtain ⟨⟨mag, distance, coordinate, bins⟩, ⟨truncation, maxDistance, time, poes, levels, imts⟩,
    ⟨mode, threads, count, factor, views, tolerance, strict⟩⟩ := c
  obtain ⟨⟨mag', distance', coordinate', bins'⟩,
    ⟨truncation', maxDistance', time', poes', levels', imts'⟩,
    ⟨mode', threads', count', factor', views', tolerance', strict'⟩⟩ := c'
  obtain rfl : mag = mag' := hoption hnumber (h .magWidth)
  obtain rfl : distance = distance' := hoption hnumber (h .distanceWidth)
  obtain rfl : coordinate = coordinate' := hoption hnumber (h .coordinateWidth)
  obtain rfl : bins = bins' := hoption hcount (h .epsilonBins)
  obtain rfl : truncation = truncation' := hoption hnumber (h .truncation)
  obtain rfl : maxDistance = maxDistance' := hoption hnumber (h .maxDistance)
  obtain rfl : time = time' := hoption hnumber (h .time)
  obtain rfl : poes = poes' := nonempty?_inj (hoption hnumbers (h .poes))
  obtain rfl : levels = levels' := hlevels
  obtain rfl : imts = imts' := nonempty?_inj (hoption hnames (h .imts))
  obtain rfl : mode = mode' := hoption hmode (h .mode)
  obtain rfl : threads = threads' := hoption hcount (h .threads)
  obtain rfl : count = count' := hoption hcount (h .taskCount)
  obtain rfl : factor = factor' := hoption hnumber (h .pointFactor)
  obtain rfl : views = views' := nonempty?_inj (hoption hnames (h .views))
  obtain rfl : tolerance = tolerance' := hoption hnumber (h .tolerance)
  obtain rfl : strict = strict' := hoption hflag (h .strict)
  rfl

/-! ### Merging -/

theorem value?_empty (f : ConfigField) : (empty : Config α).value? f = none := by
  cases f <;> rfl

/-- Of two layers the higher one decides if it makes the setting. -/
theorem value?_merge (lower higher : Config α) (f : ConfigField) :
    (lower.merge higher).value? f = (higher.value? f).or (lower.value? f) := by
  cases f with
  | poes | imts | views => simp only [value?, merge, nonempty?_mergeList, Option.map_or]
  | levels =>
    simp only [value?, merge]
    split
    · rfl
    · rfl
  | _ => exact Option.map_or

theorem merge_assoc (a b c : Config α) : (a.merge b).merge c = a.merge (b.merge c) := by
  apply eq_of_value?_eq
  intro f
  rw [value?_merge, value?_merge, value?_merge, value?_merge, Option.or_assoc]

theorem empty_merge (c : Config α) : empty.merge c = c := by
  apply eq_of_value?_eq
  intro f
  rw [value?_merge, value?_empty, Option.or_none]

theorem merge_empty (c : Config α) : c.merge empty = c := by
  apply eq_of_value?_eq
  intro f
  rw [value?_merge, value?_empty, Option.none_or]

theorem merge_self (c : Config α) : c.merge c = c := by
  apply eq_of_value?_eq
  intro f
  rw [value?_merge, Option.or_self]

end Config

/-! ### Layers that are no files -/

theorem Overrides.value?_apply (o : Overrides α) (c : Config α) (f : ConfigField) :
    (o.apply c).value? f = (o.decision? f).getD (c.value? f) := by
  obtain ⟨mode, threads, count, poes⟩ := o
  cases f with
  | mode => cases mode <;> rfl
  | threads => cases threads <;> rfl
  | taskCount => cases count <;> rfl
  | poes => cases poes <;> rfl
  | _ => rfl

theorem Environment.value?_config [DecimalText α] (env : Environment) (f : ConfigField) :
    (env.config : Config α).value? f = env.value? f := by
  cases f with
  | time | poes | levels | imts | pointFactor | views | tolerance => rfl
  | _ => exact Option.map_bind

end

/-! ### Loading -/

namespace Config

/-- All layers together, setting by setting. -/
theorem value?_layers {α : Type} [DecimalText α] {env : Environment} {overrides : Overrides α}
    (u p : Config α) (f : ConfigField) :
    (overrides.apply (((empty.merge u).merge p).merge env.config)).value? f =
      decided? overrides env [p, u] f := by
  rw [Overrides.value?_apply, value?_merge, value?_merge, empty_merge, Environment.value?_config]
  unfold decided?
  cases hp : p.value? f with
  | none => cases hu : u.value? f with
    | none => simp [hp, hu]
    | some v => simp [hp, hu]
  | some v => simp [hp]

section

variable {α : Type} [Scalar α] [DecimalText α] {user project : ConfigFile} {env : Environment}
  {overrides : Overrides α} {c : Config α}

theorem layered_eq_ok : layered user project env overrides = .ok c ↔
    ∃ u p, readUserFile user = .ok u ∧ readFile project = .ok p ∧
      c = overrides.apply (((empty.merge u).merge p).merge env.config) := by
  simp only [layered, Fallible.bind_eq_ok]
  constructor
  · rintro ⟨u, hu, p, hp, h⟩
    cases h
    exact ⟨u, p, hu, hp, rfl⟩
  · rintro ⟨u, p, hu, hp, rfl⟩
    exact ⟨u, hu, p, hp, rfl⟩

theorem load_eq_ok : load user project env overrides = .ok c ↔
    layered user project env overrides = .ok c ∧ c.validate = .ok () := by
  simp only [load, Fallible.bind_eq_ok]
  constructor
  · rintro ⟨c', hc', ⟨⟩, hvalid, h⟩
    cases h
    exact ⟨hc', hvalid⟩
  · rintro ⟨hc, hvalid⟩
    exact ⟨c, hc, (), hvalid, rfl⟩

theorem readFile_eq_ok {file : ConfigFile} : readFile file = .ok c ↔ file.Makes c := by
  unfold readFile
  constructor
  · intro h
    split at h
    · next habsent =>
      cases h
      exact .absent habsent
    · cases h
    · next s hs =>
      split at h
      · next c' hread =>
        cases h
        exact .text hs hread
      · cases h
  · rintro (habsent | ⟨hs, hread⟩)
    · rw [habsent]
    · rw [hs]
      simp only [hread]

theorem readUserFile_eq_ok {file : ConfigFile} :
    readUserFile file = .ok c ↔ file.Makes c ∨ file.content = .unreadable ∧ c = empty := by
  unfold readUserFile
  split
  · next hunreadable =>
    constructor
    · intro h
      cases h
      exact .inr ⟨hunreadable, rfl⟩
    · rintro ((habsent | ⟨hs, -⟩) | ⟨-, rfl⟩)
      · cases habsent.symm.trans hunreadable
      · cases hs.symm.trans hunreadable
      · rfl
  · next hreadable =>
    rw [readFile_eq_ok]
    exact ⟨.inl, fun h => h.resolve_right fun h => hreadable h.1⟩

/-- What is loaded, setting by setting. -/
theorem load_eq_ok_iff_decided : load user project env overrides = .ok c ↔
    ∃ u p, (user.Makes u ∨ user.content = .unreadable ∧ u = empty) ∧ project.Makes p ∧
      (∀ f, c.value? f = decided? overrides env [p, u] f) ∧ c.validate = .ok () := by
  rw [load_eq_ok, layered_eq_ok]
  constructor
  · rintro ⟨⟨u, p, hu, hp, rfl⟩, hvalid⟩
    exact ⟨u, p, readUserFile_eq_ok.1 hu, readFile_eq_ok.1 hp, value?_layers u p, hvalid⟩
  · rintro ⟨u, p, hu, hp, hc, hvalid⟩
    refine ⟨⟨u, p, readUserFile_eq_ok.2 hu, readFile_eq_ok.2 hp, ?_⟩, hvalid⟩
    exact eq_of_value?_eq fun f => (hc f).trans (value?_layers u p f).symm

/-! ### Files that cannot be used -/

theorem readFile_of_unparsable {file : ConfigFile} {s : String} (hs : file.content = .text s)
    (h : (read? s : Option (Config α)) = none) :
    (readFile file : Except ConfigError (Config α)) = .error (.unparsable file.path none) := by
  simp only [readFile, hs, h]

theorem readUserFile_of_text {file : ConfigFile} {s : String} (hs : file.content = .text s) :
    (readUserFile file : Except ConfigError (Config α)) = readFile file := by
  simp only [readUserFile, hs]

/-- The file of a user is refused for its text only. -/
theorem eq_unparsable_of_readUserFile {file : ConfigFile} {e : ConfigError}
    (h : (readUserFile file : Except ConfigError (Config α)) = .error e) :
    e = .unparsable file.path none := by
  unfold readUserFile readFile at h
  split at h
  · cases h
  · next hreadable =>
    split at h
    · cases h
    · next hunreadable => exact absurd hunreadable hreadable
    · split at h
      · cases h
      · cases h
        rfl

theorem load_of_user_error {e : ConfigError}
    (h : (readUserFile user : Except ConfigError (Config α)) = .error e) :
    load user project env overrides = .error e := by
  unfold load layered
  rw [h]
  rfl

theorem load_of_project_error {u : Config α} {e : ConfigError} (hu : readUserFile user = .ok u)
    (h : (readFile project : Except ConfigError (Config α)) = .error e) :
    load user project env overrides = .error e := by
  unfold load layered
  rw [hu, h]
  rfl

/-- A file of the project that does not parse is reported, unless that of the user is. -/
theorem load_of_project_unparsable {s : String} (hs : project.content = .text s)
    (h : (read? s : Option (Config α)) = none) :
    ∃ file ∈ [user, project], load user project env overrides = .error (.unparsable file.path none) := by
  cases huser : (readUserFile user : Except ConfigError (Config α)) with
  | error e =>
    rw [eq_unparsable_of_readUserFile huser] at huser
    exact ⟨user, by simp, load_of_user_error huser⟩
  | ok u => exact ⟨project, by simp, load_of_project_error huser (readFile_of_unparsable hs h)⟩

theorem load_of_user_unreadable (h : user.content = .unreadable) :
    load user project env overrides = load ⟨user.path, .absent⟩ project env overrides := by
  have hskipped : (readUserFile user : Except ConfigError (Config α)) =
      readUserFile ⟨user.path, .absent⟩ := by
    unfold readUserFile
    rw [h]
    rfl
  unfold load layered
  rw [hskipped]

/-- What is loaded has each setting from the highest layer that makes it, and is told by its settings;
merging layers is associative and idempotent, and a layer that makes no setting changes nothing; a
file that does not parse is refused, and the file of a user that cannot be read is passed over. -/
theorem highest_layer_decides :
    (∀ (user project : ConfigFile) (env : Environment) (overrides : Overrides α) (c : Config α),
      load user project env overrides = .ok c ↔
        ∃ u p, (user.Makes u ∨ user.content = .unreadable ∧ u = empty) ∧ project.Makes p ∧
          (∀ f, c.value? f = decided? overrides env [p, u] f) ∧ c.validate = .ok ()) ∧
    (∀ c c' : Config α, (∀ f, c.value? f = c'.value? f) → c = c') ∧
    (∀ a b c : Config α, (a.merge b).merge c = a.merge (b.merge c)) ∧
    (∀ c : Config α, empty.merge c = c ∧ c.merge empty = c ∧ c.merge c = c) ∧
    ∀ (user project : ConfigFile) (env : Environment) (overrides : Overrides α),
      (∀ s, user.content = .text s → (read? s : Option (Config α)) = none →
        load user project env overrides = .error (.unparsable user.path none)) ∧
      (∀ s, project.content = .text s → (read? s : Option (Config α)) = none →
        ∃ file ∈ [user, project],
          load user project env overrides = .error (.unparsable file.path none)) ∧
      (user.content = .unreadable →
        load user project env overrides = load ⟨user.path, .absent⟩ project env overrides) := by
  refine ⟨fun _ _ _ _ _ => load_eq_ok_iff_decided, fun _ _ => eq_of_value?_eq, merge_assoc,
    fun c => ⟨empty_merge c, merge_empty c, merge_self c⟩, fun user project env overrides => ?_⟩
  refine ⟨fun s hs h => ?_, fun s hs h => load_of_project_unparsable hs h, load_of_user_unreadable⟩
  have huser := readFile_of_unparsable hs h
  rw [← readUserFile_of_text hs] at huser
  exact load_of_user_error huser

end

/-- The file of a user that cannot be read, a file of the project, two variables of which one has no
value, and an empty list of thresholds as an override. -/
theorem highest_layer_decides_sample :
    let user : ConfigFile := ⟨"home", .unreadable⟩
    let project : ConfigFile := ⟨"root", .text
      "calculation.poes_disagg = [0.1, 0.02]\n[execution]\nthreads = 2\nmode = \"parallel\"\n"⟩
    let env : Environment := fun name =>
      if name = "DISAGG_EXECUTION_THREADS" then some "+8"
      else if name = "DISAGG_EXECUTION_MODE" then some "swift" else none
    let overrides : Overrides Float := ⟨none, none, none, some []⟩
    ∃ c, load user project env overrides = .ok c ∧ c.value? .poes = none ∧
      c.value? .threads = some (.count 8) ∧ c.value? .mode = some (.mode .parallel) := by
  intro user project env overrides
  obtain ⟨c, hc⟩ : ∃ c, load user project env overrides = .ok c :=
    Fallible.exists_of_toBool (by decide +kernel)
  obtain ⟨u, p, -, hp, hvalue, -⟩ := (highest_layer_decides.1 user project env overrides c).1 hc
  have hmode : p.execution.mode = some .parallel := by
    have hproject : (readFile project : Except ConfigError (Config Float)).toOption.map
        (·.execution.mode) = some (some .parallel) := by decide +kernel
    rw [readFile_eq_ok.2 hp] at hproject
    exact Option.some.inj hproject
  have hlayer : p.value? .mode = some (.mode .parallel) :=
    congrArg (Option.map ConfigValue.mode) hmode
  refine ⟨c, hc, hvalue .poes, hvalue .threads, (hvalue .mode).trans ?_⟩
  change List.findSome? (·.value? .mode) [p, u] = _
  rw [List.findSome?_cons, hlayer]

end Config

end SeismicHazard
