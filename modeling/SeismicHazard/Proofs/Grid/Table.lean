import Mathlib.Data.List.Induction
import Mathlib.Data.List.Nodup
import SeismicHazard.Grid.Extent

/-!
# The grid of every site

* `Sites.ofList_eq_ok`: when sites make a collection.
* `GridTable.ofExtents_eq_some`: the grids of sites that differ are those of their extents.
-/

namespace SeismicHazard

section

variable {α : Type} [Scalar α]

/-! ### Sites -/

theorem leastRepeated_eq_none {ids : List Nat} : leastRepeated ids = none ↔ ids.Nodup := by
  rw [leastRepeated, List.min?_eq_none_iff, List.filter_eq_nil_iff, List.nodup_iff_count_le_one]
  constructor
  · intro h id
    by_cases hid : id ∈ ids
    · simpa using h id hid
    · rw [List.count_eq_zero_of_not_mem hid]
      exact Nat.zero_le 1
  · intro h id _
    simpa using h id

/-- Sites make a collection if their ids differ and their distances are positive. -/
theorem Sites.ofList_eq_ok {sites : List (Site α)} {s : Sites α} :
    Sites.ofList sites = .ok s ↔ ((sites.map (·.id)).Nodup ∧
      ∀ site ∈ sites, Scalar.isPositive site.maxDistance) ∧ s = ⟨sites⟩ := by
  unfold Sites.ofList
  rw [← leastRepeated_eq_none]
  cases leastRepeated (sites.map (·.id)) with
  | some id => simp
  | none =>
    have hpositive : (sites.find? fun s => !Scalar.isPositive s.maxDistance) = none ↔
        ∀ site ∈ sites, Scalar.isPositive site.maxDistance := by
      simp [List.find?_eq_none]
    rw [← hpositive]
    cases sites.find? fun s => !Scalar.isPositive s.maxDistance with
    | some site => simp
    | none => simp [eq_comm]

/-! ### Grids -/

/-- The grid with the edges of a site and the common edges. -/
def SiteEdges.toGrid {α : Type} (e : SiteEdges α) (magnitude epsilon : List α) : Grid α :=
  ⟨magnitude, e.distance, e.longitude, e.latitude, epsilon⟩

namespace GridTable

variable {magnitude epsilon : List α} {widths : SiteWidths α} {extents : List (Nat × Extent α)}
  {site : Nat} {g : Grid α}

/-- One more extent, if it is not empty, gives a grid to its site. -/
theorem ofExtents_append (x : Nat × Extent α) :
    ofExtents magnitude epsilon widths (extents ++ [x]) =
      match x.2.edges? widths with
      | some e =>
        (ofExtents magnitude epsilon widths extents).insert x.1 (e.toGrid magnitude epsilon)
      | none => ofExtents magnitude epsilon widths extents := by
  rw [ofExtents, List.foldl_append]
  rfl

/-- The grids of sites that differ. -/
theorem ofExtents_eq_some (hnodup : (extents.map (·.1)).Nodup) :
    (ofExtents magnitude epsilon widths extents)[site]? = some g ↔
      ∃ extent e, (site, extent) ∈ extents ∧ extent.edges? widths = some e ∧
        g = e.toGrid magnitude epsilon := by
  induction extents using List.reverseRecOn generalizing g with
  | nil => simp [ofExtents]
  | append_singleton extents x ih =>
    obtain ⟨other, extent⟩ := x
    rw [List.map_append, List.nodup_append] at hnodup
    have hnew : ∀ e, (other, e) ∉ extents := by
      intro e he
      exact hnodup.2.2 other (List.mem_map_of_mem he) other (by simp) rfl
    have ih := @ih g hnodup.1
    rw [ofExtents_append]
    simp only [List.mem_append, List.mem_singleton, Prod.mk.injEq]
    cases hedges : extent.edges? widths with
    | none =>
      simp only [ih]
      constructor
      · rintro ⟨e, x, he, hx⟩
        exact ⟨e, x, Or.inl he, hx⟩
      · rintro ⟨e, x, he | ⟨rfl, rfl⟩, hx⟩
        · exact ⟨e, x, he, hx⟩
        · rw [hedges] at hx
          cases hx.1
    | some edges =>
      simp only [Std.TreeMap.getElem?_insert, Nat.compare_eq_eq]
      by_cases hsite : other = site
      · subst hsite
        rw [if_pos rfl]
        constructor
        · intro h
          exact ⟨extent, edges, Or.inr ⟨rfl, rfl⟩, hedges, (Option.some.inj h).symm⟩
        · rintro ⟨e, x, he | ⟨-, rfl⟩, hx, rfl⟩
          · exact absurd he (hnew e)
          · rw [hedges] at hx
            cases hx
            rfl
      · rw [if_neg hsite, ih]
        constructor
        · rintro ⟨e, x, he, hx⟩
          exact ⟨e, x, Or.inl he, hx⟩
        · rintro ⟨e, x, he | ⟨h, -⟩, hx⟩
          · exact ⟨e, x, he, hx⟩
          · exact absurd h.symm hsite

end GridTable

end

end SeismicHazard
