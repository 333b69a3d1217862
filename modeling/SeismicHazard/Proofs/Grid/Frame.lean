import Mathlib.Data.Rat.Floor
import SeismicHazard.Proofs.Grid.Extent

/-!
# The frame of the longitudes of an extent

An extent is laid out without a gap, also across the antimeridian. Every longitude that it was made
of lies between its edges, as it is or after a full turn, and the order in which the longitudes came
does not matter.

* `Extent.Holds.eq_of_perm`: an extent depends on which ruptures it is made of.
* `Extent.Frames`: the edges of an extent hold its longitudes.
* `Extent.longitudes_framed`: so they do for every width above zero that leaves the indices in words.
* `Extent.not_frames`: for a width below zero they need not.
-/

namespace SeismicHazard.Extent

section

variable {α : Type} [Field α] [LinearOrder α] [FloorRing α]

/-! ### The order of the ruptures -/

theorem Holds.eq_of_perm {e e' : Extent α} {rs rs' : List (α × α × α)} (h : e.Holds rs)
    (h' : e'.Holds rs') (hperm : rs'.Perm rs) : e' = e := by
  obtain ⟨distance, east, west, latitude⟩ := e
  obtain ⟨distance', east', west', latitude'⟩ := e'
  have hlongitude : (rs'.map (·.2.1)).Perm (rs.map (·.2.1)) := hperm.map _
  obtain rfl : distance' = distance :=
    Span.eq_of_holds h'.distance h.distance fun _ => (hperm.map _).mem_iff
  obtain rfl : east' = east :=
    Span.eq_of_holds h'.east h.east fun _ => (hlongitude.filter _).mem_iff
  obtain rfl : west' = west :=
    Span.eq_of_holds h'.west h.west fun _ => (hlongitude.filter _).mem_iff
  obtain rfl : latitude' = latitude :=
    Span.eq_of_holds h'.latitude h.latitude fun _ => (hperm.map _).mem_iff
  rfl

theorem ofRuptures_perm {rs rs' : List (α × α × α)} (h : rs'.Perm rs) :
    ofRuptures rs' = ofRuptures rs :=
  (holds_ofRuptures rs).eq_of_perm (holds_ofRuptures rs') h

/-! ### Longitudes between the edges -/

/-- Whether every longitude lies between the first and the last of the edges for the given widths once
it is in their frame, where it is the longitude itself or a full turn more. -/
def Frames (rs : List (α × α × α)) (widths : SiteWidths α) : Prop :=
  ∀ x, (ofRuptures rs).edges? widths = some x → ∀ r ∈ rs, ∃ lon, toFrame x.longitude r.2.1 = lon ∧
    (lon = r.2.1 ∨ lon = r.2.1 + (360 : Nat)) ∧ Edges.Enclose x.longitude lon

theorem longitude_of_edges? {e : Extent α} {s : Span α} (hs : e.longitude? = some s)
    {widths : SiteWidths α} {x : SiteEdges α} (hx : e.edges? widths = some x) :
    x.longitude = snappedEdges s.lo s.hi widths.coordinate := by
  unfold edges? at hx
  rw [hs] at hx
  cases hx
  rfl

variable [IsStrictOrderedRing α] {rs : List (α × α × α)}

theorem frames_of_fitsWord (hrange : HalfTurns rs) {s : Span α}
    (hs : (ofRuptures rs).longitude? = some s) {widths : SiteWidths α}
    (hwidth : 0 < widths.coordinate) (hfits : FitsWord widths.coordinate s) : Frames rs widths := by
  intro x hx r hr
  have haround := snappedEdges_around hwidth hfits
  obtain ⟨lon, hlon, hturn, hin⟩ :=
    toFrame_snappedEdges (holds_ofRuptures rs) hrange hwidth hs hfits hr
  rw [longitude_of_edges? hs hx]
  exact ⟨lon, hlon, hturn, haround.enclose hin⟩

/-- Edges of which every index fits reach around the range of longitudes. -/
theorem exists_edges?_around {s : Span α} (hs : (ofRuptures rs).longitude? = some s)
    {widths : SiteWidths α} (hdistance : 0 < widths.distance) (hcoordinate : 0 < widths.coordinate)
    (hfits : (ofRuptures rs).Fits widths) :
    ∃ x, (ofRuptures rs).edges? widths = some x ∧ Edges.Around x.longitude s := by
  have hsome : ((ofRuptures rs).edges? widths).isSome := by
    rw [isSome_edges?, hs]
    rfl
  obtain ⟨x, hx⟩ := Option.isSome_iff_exists.1 hsome
  obtain ⟨-, lon, -, -, hlon, -, -, haround, -, -⟩ :=
    edges?_around (holds_ofRuptures rs) hfits hdistance hcoordinate hx
  rw [hs] at hlon
  cases hlon
  exact ⟨x, hx, haround⟩

/-- A longitude that exceeds the last edge is not moved back. -/
theorem not_frames_of_lt {widths : SiteWidths α} {edges : List α} {last : α}
    (hedges : ((ofRuptures rs).edges? widths).map (·.longitude) = some edges)
    (hlast : edges.getLast? = some last) {r : α × α × α} (hr : r ∈ rs) (hlt : last < r.2.1) :
    ¬ Frames rs widths := by
  intro hframes
  obtain ⟨x, hx, rfl⟩ := Option.map_eq_some_iff.1 hedges
  obtain ⟨lon, -, hturn, -, -, last', hlast', -, hle⟩ := hframes x hx r hr
  rw [hlast] at hlast'
  cases hlast'
  rcases hturn with rfl | rfl
  · exact absurd hle (not_le.2 hlt)
  · linarith

/-- The range of the longitudes of an extent is a proper one of less than a full turn. For widths above
zero that leave the indices of the edges in words there are edges, and those of the longitudes reach
around their range; every longitude lies between them in their frame, for which only the indices of
these edges need to be words. The extent and its edges do not depend on the order of the ruptures. -/
theorem longitudes_framed (hne : rs ≠ []) (hrange : HalfTurns rs) :
    ∃ s, (ofRuptures rs).longitude? = some s ∧ s.lo ≤ s.hi ∧ s.hi - s.lo < 360 ∧
      (∀ widths, 0 < widths.distance → 0 < widths.coordinate → (ofRuptures rs).Fits widths →
        ∃ x, (ofRuptures rs).edges? widths = some x ∧ Edges.Around x.longitude s) ∧
      (∀ widths, 0 < widths.coordinate → FitsWord widths.coordinate s → Frames rs widths) ∧
      ∀ rs', rs'.Perm rs → ofRuptures rs' = ofRuptures rs ∧
        ∀ widths, (ofRuptures rs').edges? widths = (ofRuptures rs).edges? widths := by
  have hholds := holds_ofRuptures rs
  obtain ⟨s, hs⟩ := Option.isSome_iff_exists.1 (hholds.isSome_longitude?_iff.2 hne)
  obtain ⟨hle, hlt⟩ := hholds.longitude?_bounds hrange hs
  refine ⟨s, hs, hle, hlt, fun widths => exists_edges?_around hs,
    fun widths => frames_of_fitsWord hrange hs, fun rs' hperm => ?_⟩
  have hsame := ofRuptures_perm hperm
  exact ⟨hsame, fun widths => by rw [hsame]⟩

end

/-! ### Samples -/

/-- Two ruptures that lie a degree apart. -/
def pair : List (ℚ × ℚ × ℚ) := [(5, 10, 45), (6, 11, 46)]

/-- Ruptures on both sides of the antimeridian and on it. -/
def antimeridian : List (ℚ × ℚ × ℚ) :=
  [(5, 1796 / 10, 0), (5, -1797 / 10, 0), (7, 180, 1), (6, -180, -1)]

theorem longitudes_framed_antimeridian : antimeridian ≠ [] ∧ HalfTurns antimeridian ∧
    ∃ s x, (ofRuptures antimeridian).longitude? = some s ∧ s.lo ≤ s.hi ∧ s.hi - s.lo < 360 ∧
      (ofRuptures antimeridian).Fits ⟨10, 1 / 2⟩ ∧ FitsWord (1 / 2) s ∧
      (ofRuptures antimeridian).edges? ⟨10, 1 / 2⟩ = some x ∧ Edges.Around x.longitude s ∧
      Frames antimeridian ⟨10, 1 / 2⟩ ∧
      ofRuptures antimeridian.reverse = ofRuptures antimeridian := by
  have hne : antimeridian ≠ [] := List.cons_ne_nil _ _
  have hrange : HalfTurns antimeridian := by norm_num [HalfTurns, antimeridian]
  have hfits : (ofRuptures antimeridian).Fits ⟨10, 1 / 2⟩ := by
    refine ⟨?_, ?_, ?_⟩
    · exact show ∀ s ∈ (ofRuptures antimeridian).distance, FitsWord 10 (nonnegative s) by
        decide +kernel
    · exact show ∀ s ∈ (ofRuptures antimeridian).longitude?, FitsWord (1 / 2) s by decide +kernel
    · exact show ∀ s ∈ (ofRuptures antimeridian).latitude, FitsWord (1 / 2) s by decide +kernel
  obtain ⟨s, hs, hle, hlt, hedges, hframes, horder⟩ := longitudes_framed hne hrange
  obtain ⟨x, hx, haround⟩ := hedges ⟨10, 1 / 2⟩ (by norm_num) (by norm_num) hfits
  have hfitsWord : FitsWord (1 / 2) s := hfits.longitude s hs
  exact ⟨hne, hrange, s, x, hs, hle, hlt, hfits, hfitsWord, hx, haround,
    hframes ⟨10, 1 / 2⟩ (by norm_num) hfitsWord, (horder _ (List.reverse_perm _)).1⟩

/-- A width below zero turns the edges around, so that they do not hold their longitudes. -/
theorem not_frames : HalfTurns pair ∧
    ((ofRuptures pair).edges? ⟨10, -1 / 2⟩).map (·.longitude) = some [10, 19 / 2, 9] ∧
    ¬ Frames pair ⟨10, -1 / 2⟩ := by
  have hturned : ((ofRuptures pair).edges? ⟨10, -1 / 2⟩).map (·.longitude) =
      some [10, 19 / 2, 9] := by decide +kernel
  refine ⟨?_, hturned, ?_⟩
  · norm_num [HalfTurns, pair]
  · exact not_frames_of_lt hturned rfl (List.mem_cons_of_mem _ List.mem_cons_self) (by norm_num)

end SeismicHazard.Extent
