import SeismicHazard.Proofs.Fallible
import SeismicHazard.Proofs.Number.Double
import SeismicHazard.Proofs.Storage.Payload
import SeismicHazard.Proofs.Storage.Tables

/-!
# What is read back from rows

The columns of a record are written and read in different ways: an array as bytes, which are all kept; a
realization as a number with a sign, which is refused below zero; the edges and the overall probabilities
as text, in which a number that is not finite has no place.

* `Record.textNumbers`: the numbers of a record that stand in text columns.
* `Record.Readable`: what a record must be like to be read back at all.
* `ResultRow.exists_record_iff`: the rows of a record are read back exactly if it is so.
* `ResultRow.record_eq`: they make the same record again if the texts give back their numbers.
-/

namespace SeismicHazard

/-! ### Lists of numbers -/

section

variable {β γ : Type} {f : β → Option γ} {xs : List β}

theorem isSome_mapM_iff : (xs.mapM f).isSome ↔ ∀ x ∈ xs, (f x).isSome := by
  induction xs with
  | nil => simp
  | cons x xs ih =>
    rw [List.mapM_cons, List.forall_mem_cons, ← ih]
    cases f x with
    | none => simp
    | some y =>
      cases xs.mapM f with
      | none => simp
      | some ys => simp

theorem mapM_eq_some_self {f : β → Option β} (h : ∀ x ∈ xs, f x = some x) : xs.mapM f = some xs := by
  induction xs with
  | nil => rfl
  | cons x xs ih =>
    rw [List.forall_mem_cons] at h
    rw [List.mapM_cons, h.1, ih h.2]
    rfl

end

/-! ### Records -/

/-- The edges along all dimensions. -/
def Grid.numbers {α : Type} (g : Grid α) : List α :=
  g.magnitude ++ g.distance ++ g.longitude ++ g.latitude ++ g.epsilon

namespace Record

section

variable {α : Type}

/-- The numbers of a record that stand in text columns. -/
def textNumbers (r : Record α) : List α := r.grid.numbers ++ r.aggregates

/-- Whether the views are no larger than arrays can be. -/
def ViewsFit (r : Record α) : Prop := ∀ v ∈ r.views, volume v.2.shape ≤ maxVolume

/-- Whether a record is read back: its realization is no negative number with a sign, and the numbers in
text columns are finite and can be read. -/
structure Readable [Scalar α] [DecimalText α] (r : Record α) : Prop where
  realization_lt : r.realization % 2 ^ 64 < 2 ^ 63
  text : ∀ x ∈ r.textNumbers, Scalar.isFinite x ∧ ∃ y : α, (Json.real x).real? = some y

end

end Record

namespace Grid

variable {α β : Type} {f : α → Option β} {g : Grid α}

theorem isSome_mapM?_iff : (g.mapM? f).isSome ↔ ∀ x ∈ g.numbers, (f x).isSome := by
  simp only [numbers, List.forall_mem_append, ← isSome_mapM_iff, mapM?]
  cases g.magnitude.mapM f with
  | none => simp
  | some magnitude =>
    cases g.distance.mapM f with
    | none => simp
    | some distance =>
      cases g.longitude.mapM f with
      | none => simp
      | some longitude =>
        cases g.latitude.mapM f with
        | none => simp
        | some latitude =>
          cases g.epsilon.mapM f with
          | none => simp
          | some epsilon => simp

theorem mapM?_eq_some_self {f : α → Option α} (h : ∀ x ∈ g.numbers, f x = some x) :
    g.mapM? f = some g := by
  simp only [numbers, List.forall_mem_append] at h
  obtain ⟨⟨⟨⟨hmagnitude, hdistance⟩, hlongitude⟩, hlatitude⟩, hepsilon⟩ := h
  rw [mapM?, mapM_eq_some_self hmagnitude, mapM_eq_some_self hdistance,
    mapM_eq_some_self hlongitude, mapM_eq_some_self hlatitude, mapM_eq_some_self hepsilon]
  rfl

theorem mapM?_map {γ : Type} {f : γ → Option β} (h : α → γ) :
    (g.map h).mapM? f = g.mapM? (f ∘ h) := by
  simp [mapM?, map]

end Grid

namespace ResultRow

section

variable {α : Type} [Scalar α] [DecimalText α]

theorem kept_eq_ok {β : Type} {x : Option β} {y : β} : kept x = .ok y ↔ x = some y := by
  cases x with
  | none => simp [kept]
  | some z => simp [kept]

/-- What a text column gives back of a number. -/
theorem reread?_finite? (x : α) : reread? (finite? x) =
    if Scalar.isFinite x then (Json.real x).real? else none := by
  unfold finite?
  split
  · rfl
  · rfl

theorem isSome_reread?_iff (x : α) : (reread? (finite? x)).isSome ↔
    Scalar.isFinite x ∧ ∃ y : α, (Json.real x).real? = some y := by
  rw [reread?_finite?, ← Option.isSome_iff_exists]
  split
  · next h => simp [h]
  · next h => simp [h]

omit [Scalar α] [DecimalText α] in
/-- The number of a realization is read back if it does not look negative with a sign. -/
theorem exists_realizationOf_iff (n : ℕ) :
    (∃ m, realizationOf (asSigned n) = .ok m) ↔ n % 2 ^ 64 < 2 ^ 63 := by
  have hsigned : 0 ≤ asSigned n ↔ n % 2 ^ 64 < 2 ^ 63 := by
    unfold asSigned
    rw [Int.bmod_def, show UInt64.size = 2 ^ 64 from rfl]
    split
    · omega
    · omega
  rw [← hsigned]
  unfold realizationOf
  split
  · next h => exact ⟨fun _ => h, fun _ => ⟨_, rfl⟩⟩
  · next h => exact ⟨fun ⟨m, hm⟩ => (nomatch hm), fun h' => absurd h' h⟩

omit [Scalar α] [DecimalText α] in
theorem realizationOf_asSigned {n : ℕ} (h : n < 2 ^ 63) : realizationOf (asSigned n) = .ok n := by
  have hsigned : asSigned n = n := by
    unfold asSigned
    rw [Int.bmod_def, show UInt64.size = 2 ^ 64 from rfl, if_pos (by omega)]
    omega
  rw [hsigned, realizationOf, if_pos (by omega)]
  rfl

variable [BitPattern α] {row : ResultRow α} {views : List ViewRow} {r : Record α}

/-- When rows make a record, and which one. -/
theorem record_eq_ok {r' : Record α} : row.record views = .ok r' ↔ ∃ arrays grid realization aggregates,
    views.mapM (fun v => v.array) = .ok arrays ∧ row.grid.mapM? reread? = some grid ∧
      realizationOf row.realization = .ok realization ∧
      row.aggregates.mapM reread? = some aggregates ∧
      r' = ⟨row.name, row.site, row.lon, row.lat, realization, row.imt, row.level, row.poe, row.time,
        row.regions, grid, arrays, aggregates⟩ := by
  unfold record
  simp only [Fallible.bind_eq_ok, kept_eq_ok]
  constructor
  · rintro ⟨arrays, harrays, grid, hgrid, realization, hrealization, aggregates, haggregates, h⟩
    cases h
    exact ⟨arrays, grid, realization, aggregates, harrays, hgrid, hrealization, haggregates, rfl⟩
  · rintro ⟨arrays, grid, realization, aggregates, harrays, hgrid, hrealization, haggregates, rfl⟩
    exact ⟨arrays, harrays, grid, hgrid, realization, hrealization, aggregates, haggregates, rfl⟩

variable [StoredNumber α]

omit [DecimalText α] in
/-- The arrays of a record are read back, whatever stands in them. -/
theorem mapM_array_numbered (hfit : r.ViewsFit) (id : ℤ) (ordinal : ℕ) :
    (Tables.numbered id ordinal (ViewColumns.ofRecord r)).mapM (fun v => v.array) = .ok r.views := by
  unfold Record.ViewsFit at hfit
  unfold ViewColumns.ofRecord Tables.numbered
  generalize r.views = views at *
  induction views generalizing ordinal with
  | nil => rfl
  | cons v views ih =>
    rw [List.forall_mem_cons] at hfit
    have hrest := ih (ordinal + 1) hfit.2
    rw [List.map_cons, List.mapIdx_cons]
    apply Fallible.mapM_cons_eq_ok.2
    refine ⟨v, views, ?_, ?_, rfl⟩
    · simp only [ViewColumns.array, Tensor.ofPayload_payload StoredNumber.ofBits_toBits v.2 hfit.1]
      rfl
    · simpa [Nat.add_assoc, Nat.add_comm 1] using hrest

/-- The rows of a record are read back exactly if the record is readable. -/
theorem exists_record_iff (hcolumns : row.toResultColumns = .ofRecord r) (hfit : r.ViewsFit)
    (hviews : views = Tables.numbered row.id 0 (ViewColumns.ofRecord r)) :
    (∃ r', row.record views = .ok r') ↔ r.Readable := by
  have harrays := mapM_array_numbered hfit row.id 0
  rw [← hviews] at harrays
  have hgrid : row.grid.mapM? reread? = r.grid.mapM? (reread? ∘ finite?) := by
    rw [hcolumns, ← Grid.mapM?_map, ResultColumns.ofRecord]
  have haggregates : row.aggregates.mapM reread? = r.aggregates.mapM (reread? ∘ finite?) := by
    rw [hcolumns, ← List.mapM_map, ResultColumns.ofRecord]
  have hrealization : row.realization = asSigned r.realization := by
    rw [hcolumns, ResultColumns.ofRecord]
  have htext : (∀ x ∈ r.textNumbers, Scalar.isFinite x ∧ ∃ y : α, (Json.real x).real? = some y) ↔
      (∃ grid, row.grid.mapM? reread? = some grid) ∧
        ∃ aggregates, row.aggregates.mapM reread? = some aggregates := by
    rw [hgrid, haggregates, ← Option.isSome_iff_exists, ← Option.isSome_iff_exists,
      Grid.isSome_mapM?_iff, isSome_mapM_iff, ← List.forall_mem_append]
    simp only [Function.comp_apply, isSome_reread?_iff]
    rfl
  constructor
  · rintro ⟨r', h⟩
    obtain ⟨arrays, grid, realization, aggregates, -, hg, hn, ha, -⟩ := record_eq_ok.1 h
    rw [hrealization] at hn
    exact ⟨(exists_realizationOf_iff _).1 ⟨_, hn⟩, htext.2 ⟨⟨_, hg⟩, ⟨_, ha⟩⟩⟩
  · rintro ⟨hlt, hnumbers⟩
    obtain ⟨⟨grid, hg⟩, ⟨aggregates, ha⟩⟩ := htext.1 hnumbers
    obtain ⟨realization, hn⟩ := (exists_realizationOf_iff _).2 hlt
    rw [← hrealization] at hn
    exact ⟨_, record_eq_ok.2 ⟨_, _, _, _, harrays, hg, hn, ha, rfl⟩⟩

/-- The rows of a record make the same record again if the texts of its numbers are read back exactly. -/
theorem record_eq (hcolumns : row.toResultColumns = .ofRecord r) (hfit : r.ViewsFit)
    (hviews : views = Tables.numbered row.id 0 (ViewColumns.ofRecord r))
    (hrealization : r.realization < 2 ^ 63) (hpoe : ∀ p ∈ r.poe, Scalar.isNumber p)
    (htext : ∀ x ∈ r.textNumbers, Scalar.isFinite x ∧ (Json.real x).real? = some x) :
    row.record views = .ok r := by
  obtain ⟨columns, id, run⟩ := row
  obtain rfl : columns = .ofRecord r := hcolumns
  have harrays := mapM_array_numbered hfit id 0
  rw [← hviews] at harrays
  have hexact : ∀ x ∈ r.textNumbers, (reread? ∘ finite?) x = some x := by
    intro x hx
    rw [Function.comp_apply, reread?_finite?, if_pos (htext x hx).1]
    exact (htext x hx).2
  have hgrid : (r.grid.map finite?).mapM? reread? = some r.grid := by
    rw [Grid.mapM?_map]
    exact Grid.mapM?_eq_some_self fun x hx => hexact x (List.mem_append_left _ hx)
  have haggregates : (r.aggregates.map finite?).mapM reread? = some r.aggregates := by
    rw [List.mapM_map]
    exact mapM_eq_some_self fun x hx => hexact x (List.mem_append_right _ hx)
  have hkept : r.poe.filter Scalar.isNumber = r.poe := by
    cases hp : r.poe with
    | none => rfl
    | some p => rw [Option.filter_some, if_pos (hpoe p hp)]
  have hn := realizationOf_asSigned hrealization
  rw [record_eq_ok]
  simp only [ResultColumns.ofRecord, hkept]
  exact ⟨_, _, _, _, harrays, hgrid, hn, haggregates, rfl⟩

end

end ResultRow

end SeismicHazard
