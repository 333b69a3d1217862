import Mathlib.Algebra.Order.Field.Basic
import SeismicHazard.Grid.Extent
import SeismicHazard.Proofs.Arrangement.Locate
import SeismicHazard.Proofs.Grid.Edges
import SeismicHazard.Proofs.Number.Span

/-!
# Ruptures lie within the edges of their extent

* `binOf?_toFrame`: a longitude is found as it is, or a full turn further east.
* `Extent.Holds`: the ranges of an extent are those of its ruptures.
* `Extent.Holds.isSome_longitude?_iff`: an extent has edges if it holds a rupture.
* `Extent.edges?_around`: the edges of an extent reach around its ranges.
* `Extent.longitude?_eq_some`: which range of longitudes an extent has.
* `Extent.longitude?_spec`: longitudes lie in the range of an extent, also on both sides of the
  antimeridian.
* `Extent.toFrame_snappedEdges`: so they do once they are brought into the frame of the edges.
* `Extent.exists_locate`: every rupture of an extent has bins.
-/

namespace SeismicHazard

section

variable {α : Type} [Field α] [LinearOrder α] [FloorRing α]

theorem Edges.Around.exists_locate {edges : List α} {s : Span α} (h : Edges.Around edges s) {x : α}
    (hx : s.lo ≤ x ∧ x ≤ s.hi) : ∃ i, locate? edges x = some i :=
  (exists_locate?_iff h.bins).2 (h.enclose hx)

/-! ### Frames -/

theorem toFrame_of_le {edges : List α} {a lon : α} (ha : edges.head? = some a) (h : a ≤ lon) :
    toFrame edges lon = lon := by
  unfold toFrame
  rw [ha]
  cases edges.getLast? with
  | none => rfl
  | some b =>
    simp only
    rw [if_neg]
    exact fun hlt => absurd hlt.1 (not_lt.2 h)

theorem toFrame_of_lt {edges : List α} {a b lon : α} (ha : edges.head? = some a)
    (hb : edges.getLast? = some b) (h : lon < a) (hturned : lon + 360 ≤ b) :
    toFrame edges lon = lon + 360 := by
  unfold toFrame
  rw [ha, hb]
  simp only [Scalar.ofNat_eq, Nat.cast_ofNat]
  rw [if_pos ⟨h, hturned⟩]

/-- A longitude that is brought into the frame of ascending edges has the bin that holds it, or the
one that holds it after a full turn. -/
theorem binOf?_toFrame [IsStrictOrderedRing α] {edges : List α} (hsorted : edges.Pairwise (· < ·))
    (lon : α) :
    binOf? edges (toFrame edges lon) = (binOf? edges lon).or (binOf? edges (lon + 360)) := by
  cases hturned : binOf? edges (lon + 360) with
  | none =>
    rw [Option.or_none]
    unfold toFrame
    split
    · next a b ha hb =>
      simp only [Scalar.ofNat_eq, Nat.cast_ofNat]
      split
      · next h => rw [hturned, binOf?_eq_none_of_lt hsorted ha h.1]
      · rfl
    · rfl
  | some j =>
    obtain ⟨a, b, ha, hb, hlength, hle, hge⟩ :=
      within_of_holds hsorted ((binOf?_eq_some_iff hsorted).1 hturned)
    rcases lt_or_ge lon a with hlt | hin
    · rw [toFrame_of_lt ha hb hlt hge, hturned, binOf?_eq_none_of_lt hsorted ha hlt]
      rfl
    · rw [toFrame_of_le ha hin]
      obtain ⟨i, hi⟩ := exists_locate?_eq_some hlength ha hb ⟨hin, by linarith⟩
      rw [locate?_eq_binOf? hsorted] at hi
      rw [hi]
      rfl

namespace Extent

/-! ### Ranges -/

/-- Whether the ranges of an extent are those of the given ruptures. -/
structure Holds (e : Extent α) (rs : List (α × α × α)) : Prop where
  distance : Span.Holds e.distance (rs.map (·.1))
  east : Span.Holds e.east ((rs.map (·.2.1)).filter fun lon => 0 ≤ lon)
  west : Span.Holds e.west ((rs.map (·.2.1)).filter fun lon => lon < 0)
  latitude : Span.Holds e.latitude (rs.map (·.2.2))

theorem holds_ofRuptures (rs : List (α × α × α)) : (ofRuptures rs).Holds rs := by
  induction rs using List.reverseRecOn with
  | nil => exact ⟨rfl, rfl, rfl, rfl⟩
  | append_singleton rs r ih =>
    obtain ⟨distance, lon, lat⟩ := r
    have happend : ofRuptures (rs ++ [(distance, lon, lat)]) =
        (ofRuptures rs).add distance lon lat := by
      rw [ofRuptures, List.foldl_append]
      rfl
    rw [happend]
    refine ⟨?_, ?_, ?_, ?_⟩
    · simp only [add, Span.extendByNumber_eq, List.map_append]
      exact Span.extend_holds ih.distance distance
    · rw [List.map_append, List.filter_append]
      by_cases hlon : 0 ≤ lon
      · simp only [add, hlon, if_true]
        have := Span.extend_holds ih.east lon
        simpa [hlon] using this
      · simp only [add, hlon, if_false]
        simpa [hlon] using ih.east
    · rw [List.map_append, List.filter_append]
      by_cases hlon : 0 ≤ lon
      · simp only [add, hlon, if_true]
        simpa [hlon] using ih.west
      · simp only [add, hlon, if_false]
        have := Span.extend_holds ih.west lon
        simpa [not_le.1 hlon] using this
    · simp only [add, Span.extendByNumber_eq, List.map_append]
      exact Span.extend_holds ih.latitude lat

/-- Whether the indices of the edges of an extent fit into words. -/
structure Fits (e : Extent α) (widths : SiteWidths α) : Prop where
  distance : ∀ s, e.distance = some s → FitsWord widths.distance (nonnegative s)
  longitude : ∀ s, e.longitude? = some s → FitsWord widths.coordinate s
  latitude : ∀ s, e.latitude = some s → FitsWord widths.coordinate s

variable {e : Extent α} {rs : List (α × α × α)} {widths : SiteWidths α} {x : SiteEdges α}

/-- Whether an extent has edges does not depend on the widths of the bins. -/
theorem isSome_edges? (e : Extent α) (widths : SiteWidths α) :
    (e.edges? widths).isSome = e.longitude?.isSome := by
  unfold edges?
  cases e.longitude? <;> rfl

/-- An extent has a range of longitudes if it holds a rupture. -/
theorem Holds.isSome_longitude?_iff (h : e.Holds rs) : e.longitude?.isSome ↔ rs ≠ [] := by
  have hranges : e.longitude?.isSome ↔ e.west.isSome ∨ e.east.isSome := by
    unfold longitude?
    cases e.west <;> cases e.east <;> simp [apply_ite]
  rw [hranges, Span.isSome_iff_of_holds h.west, Span.isSome_iff_of_holds h.east]
  constructor
  · rintro hne rfl
    simp at hne
  · intro hne
    obtain ⟨r, hr⟩ := List.exists_mem_of_ne_nil _ hne
    have hmem : r.2.1 ∈ rs.map (·.2.1) := List.mem_map_of_mem hr
    rcases lt_or_ge r.2.1 0 with hlon | hlon
    · exact Or.inl (List.ne_nil_of_mem (List.mem_filter.2 ⟨hmem, decide_eq_true hlon⟩))
    · exact Or.inr (List.ne_nil_of_mem (List.mem_filter.2 ⟨hmem, decide_eq_true hlon⟩))

/-! ### The two sides of Greenwich -/

/-- Whether no longitude is more than half a turn from Greenwich. -/
def HalfTurns (rs : List (α × α × α)) : Prop := ∀ r ∈ rs, -180 ≤ r.2.1 ∧ r.2.1 ≤ 180

theorem Holds.west_bounds (h : e.Holds rs) (hrange : HalfTurns rs) {w : Span α}
    (hw : e.west = some w) : -180 ≤ w.lo ∧ w.lo ≤ w.hi ∧ w.hi < 0 := by
  have hwest := h.west
  rw [hw] at hwest
  obtain ⟨hlo, hhi, hall⟩ := hwest
  obtain ⟨hlo', -⟩ := List.mem_filter.1 hlo
  obtain ⟨r, hr, hrlo⟩ := List.mem_map.1 hlo'
  refine ⟨hrlo ▸ (hrange r hr).1, (hall _ hhi).1, ?_⟩
  exact of_decide_eq_true (List.mem_filter.1 hhi).2

theorem Holds.east_bounds (h : e.Holds rs) (hrange : HalfTurns rs) {s : Span α}
    (hs : e.east = some s) : 0 ≤ s.lo ∧ s.lo ≤ s.hi ∧ s.hi ≤ 180 := by
  have heast := h.east
  rw [hs] at heast
  obtain ⟨hlo, hhi, hall⟩ := heast
  obtain ⟨hhi', -⟩ := List.mem_filter.1 hhi
  obtain ⟨r, hr, hrhi⟩ := List.mem_map.1 hhi'
  exact ⟨of_decide_eq_true (List.mem_filter.1 hlo).2, (hall _ hhi).1, hrhi ▸ (hrange r hr).2⟩

theorem Holds.exists_west (h : e.Holds rs) {r : α × α × α} (hr : r ∈ rs) (hneg : r.2.1 < 0) :
    ∃ w, e.west = some w ∧ w.lo ≤ r.2.1 ∧ r.2.1 ≤ w.hi :=
  Span.exists_some_of_holds h.west
    (List.mem_filter.2 ⟨List.mem_map_of_mem hr, decide_eq_true hneg⟩)

theorem Holds.exists_east (h : e.Holds rs) {r : α × α × α} (hr : r ∈ rs) (hpos : 0 ≤ r.2.1) :
    ∃ s, e.east = some s ∧ s.lo ≤ r.2.1 ∧ r.2.1 ≤ s.hi :=
  Span.exists_some_of_holds h.east
    (List.mem_filter.2 ⟨List.mem_map_of_mem hr, decide_eq_true hpos⟩)

/-- The range of longitudes is that of one side, or it runs through Greenwich from the west to the
east, or through the antimeridian from the east to the west. -/
theorem longitude?_eq_some {s : Span α} (hs : e.longitude? = some s) :
    (e.west = some s ∧ e.east = none) ∨ (e.west = none ∧ e.east = some s) ∨
      ∃ w t, e.west = some w ∧ e.east = some t ∧
        (t.hi - w.lo ≤ 180 ∧ s = ⟨w.lo, t.hi⟩ ∨ 180 < t.hi - w.lo ∧ s = ⟨t.lo, w.hi + 360⟩) := by
  unfold longitude? at hs
  split at hs
  · cases hs
  · next w hw he =>
    cases hs
    exact .inl ⟨hw, he⟩
  · next t hw he =>
    cases hs
    exact .inr (.inl ⟨hw, he⟩)
  · next w t hw he =>
    refine .inr (.inr ⟨w, t, hw, he, ?_⟩)
    simp only [Scalar.ofNat_eq, Nat.cast_ofNat] at hs
    split at hs
    · next hle => exact .inl ⟨hle, (Option.some.inj hs).symm⟩
    · next hgt => exact .inr ⟨not_le.1 hgt, (Option.some.inj hs).symm⟩

variable [IsStrictOrderedRing α]

/-! ### Edges -/

/-- The edges of an extent ascend, whether or not their indices fit. -/
theorem pairwise_edges? (hdistance : 0 < widths.distance) (hcoordinate : 0 < widths.coordinate)
    (hx : e.edges? widths = some x) : x.distance.Pairwise (· < ·) ∧ x.longitude.Pairwise (· < ·) ∧
      x.latitude.Pairwise (· < ·) := by
  have haround : ∀ {width : α}, 0 < width → ∀ s, (edgesAround width s).Pairwise (· < ·) := by
    intro width hwidth s
    cases s with
    | none => exact List.Pairwise.nil
    | some s => exact pairwise_snappedEdges hwidth _ _
  unfold edges? at hx
  split at hx
  · cases hx
  · cases hx
    exact ⟨haround hdistance _, pairwise_snappedEdges hcoordinate _ _, haround hcoordinate _⟩

/-- The edges of an extent reach around its ranges. -/
theorem edges?_around (h : e.Holds rs) (hfits : e.Fits widths) (hdistance : 0 < widths.distance)
    (hcoordinate : 0 < widths.coordinate) (hx : e.edges? widths = some x) :
    ∃ d lon lat, e.distance = some d ∧ e.longitude? = some lon ∧ e.latitude = some lat ∧
      Edges.Around x.distance (nonnegative d) ∧ Edges.Around x.longitude lon ∧
      Edges.Around x.latitude lat ∧ x.longitude = snappedEdges lon.lo lon.hi widths.coordinate := by
  unfold edges? at hx
  cases hlon : e.longitude? with
  | none =>
    rw [hlon] at hx
    cases hx
  | some lon =>
    rw [hlon] at hx
    cases hx
    have hne : rs ≠ [] := h.isSome_longitude?_iff.1 (by rw [hlon]; rfl)
    obtain ⟨r, hr⟩ := List.exists_mem_of_ne_nil _ hne
    obtain ⟨d, hd, -⟩ := Span.exists_some_of_holds h.distance (List.mem_map_of_mem hr)
    obtain ⟨lat, hlat, -⟩ := Span.exists_some_of_holds h.latitude (List.mem_map_of_mem hr)
    rw [hd, hlat]
    exact ⟨d, lon, lat, rfl, rfl, rfl, snappedEdges_around hdistance (hfits.distance d hd),
      snappedEdges_around hcoordinate (hfits.longitude lon hlon),
      snappedEdges_around hcoordinate (hfits.latitude lat hlat), rfl⟩

/-! ### Longitudes -/

/-- A range of longitudes is less than a full turn. -/
theorem Holds.longitude?_bounds (h : e.Holds rs) (hrange : HalfTurns rs) {s : Span α}
    (hs : e.longitude? = some s) : s.lo ≤ s.hi ∧ s.hi - s.lo < 360 := by
  rcases longitude?_eq_some hs with ⟨hw, -⟩ | ⟨-, he⟩ |
    ⟨w, t, hw, he, ⟨hspan, rfl⟩ | ⟨hspan, rfl⟩⟩
  · obtain ⟨hge, hle, hneg⟩ := h.west_bounds hrange hw
    exact ⟨hle, by linarith⟩
  · obtain ⟨hpos, hle, hmax⟩ := h.east_bounds hrange he
    exact ⟨hle, by linarith⟩
  · obtain ⟨-, hwle, hneg⟩ := h.west_bounds hrange hw
    obtain ⟨hpos, htle, -⟩ := h.east_bounds hrange he
    exact ⟨by simp only; linarith, by simp only; linarith⟩
  · obtain ⟨hwge, hwle, hneg⟩ := h.west_bounds hrange hw
    obtain ⟨hpos, htle, hmax⟩ := h.east_bounds hrange he
    exact ⟨by simp only; linarith, by simp only; linarith⟩

/-- A longitude of an extent lies in its range, or it is western and does so after a full turn. -/
theorem longitude?_spec (h : e.Holds rs) (hrange : HalfTurns rs)
    {s : Span α} (hs : e.longitude? = some s) {r : α × α × α} (hr : r ∈ rs) :
    (s.lo ≤ r.2.1 ∧ r.2.1 ≤ s.hi) ∨
      (r.2.1 < 0 ∧ 0 ≤ s.lo ∧ s.lo ≤ r.2.1 + 360 ∧ r.2.1 + 360 ≤ s.hi) := by
  rcases lt_or_ge r.2.1 0 with hneg | hpos
  · obtain ⟨w, hw, hge, hle⟩ := h.exists_west hr hneg
    rcases longitude?_eq_some hs with ⟨hw', -⟩ | ⟨hw', -⟩ |
      ⟨w', t, hw', he, ⟨-, rfl⟩ | ⟨-, rfl⟩⟩
    · cases hw.symm.trans hw'
      exact .inl ⟨hge, hle⟩
    · cases hw.symm.trans hw'
    · -- the range runs through Greenwich
      cases hw.symm.trans hw'
      obtain ⟨htpos, htle, -⟩ := h.east_bounds hrange he
      exact .inl ⟨hge, hneg.le.trans (htpos.trans htle)⟩
    · -- the range runs through the antimeridian
      cases hw.symm.trans hw'
      obtain ⟨htpos, htle, htmax⟩ := h.east_bounds hrange he
      have hmin := (hrange r hr).1
      exact .inr ⟨hneg, htpos, by simp only; linarith, by simp only; linarith⟩
  · left
    obtain ⟨t, ht, hge, hle⟩ := h.exists_east hr hpos
    rcases longitude?_eq_some hs with ⟨-, ht'⟩ | ⟨-, ht'⟩ |
      ⟨w, t', hw, ht', ⟨-, rfl⟩ | ⟨-, rfl⟩⟩
    · cases ht.symm.trans ht'
    · cases ht.symm.trans ht'
      exact ⟨hge, hle⟩
    · cases ht.symm.trans ht'
      obtain ⟨-, hwle, hwneg⟩ := h.west_bounds hrange hw
      exact ⟨(hwle.trans hwneg.le).trans hpos, hle⟩
    · cases ht.symm.trans ht'
      obtain ⟨hwge, hwle, -⟩ := h.west_bounds hrange hw
      have hmax := (hrange r hr).2
      exact ⟨hge, by simp only; linarith⟩

/-- A longitude of an extent is in the frame of the edges as it is or after a full turn, and there it
lies in the range. -/
theorem toFrame_snappedEdges (h : e.Holds rs) (hrange : HalfTurns rs)
    {width : α} (hwidth : 0 < width) {s : Span α} (hs : e.longitude? = some s)
    (hfits : FitsWord width s) {r : α × α × α} (hr : r ∈ rs) :
    ∃ lon, toFrame (snappedEdges s.lo s.hi width) r.2.1 = lon ∧
      (lon = r.2.1 ∨ lon = r.2.1 + 360) ∧ s.lo ≤ lon ∧ lon ≤ s.hi := by
  have haround := snappedEdges_around hwidth hfits
  obtain ⟨a, ha, hlo⟩ := haround.below
  obtain ⟨b, hb, hhi⟩ := haround.above
  rcases longitude?_spec h hrange hs hr with ⟨hge, hle⟩ | ⟨hneg, hpos, hge, hle⟩
  · exact ⟨_, toFrame_of_le ha (hlo.trans hge), .inl rfl, hge, hle⟩
  · -- west of Greenwich, hence west of the edges
    obtain ⟨a', ha', hapos⟩ := head?_snappedEdges_nonneg hwidth hfits hpos
    rw [ha] at ha'
    cases ha'
    exact ⟨_, toFrame_of_lt ha hb (hneg.trans_le hapos) (hle.trans hhi), .inr rfl, hge, hle⟩

/-- A longitude of an extent has a bin once it is in the frame of the edges. -/
theorem exists_locate_longitude (h : e.Holds rs) (hrange : HalfTurns rs)
    {width : α} (hwidth : 0 < width) {s : Span α} (hs : e.longitude? = some s)
    (hfits : FitsWord width s) {r : α × α × α} (hr : r ∈ rs) :
    ∃ i, locate? (snappedEdges s.lo s.hi width)
      (toFrame (snappedEdges s.lo s.hi width) r.2.1) = some i := by
  obtain ⟨lon, hlon, -, hin⟩ := toFrame_snappedEdges h hrange hwidth hs hfits hr
  rw [hlon]
  exact (snappedEdges_around hwidth hfits).exists_locate hin

/-- Every rupture of an extent has bins along the axes of its site. -/
theorem exists_locate (h : e.Holds rs) (hrange : HalfTurns rs)
    (hpositive : ∀ r ∈ rs, 0 ≤ r.1) (hfits : e.Fits widths) (hdistance : 0 < widths.distance)
    (hcoordinate : 0 < widths.coordinate) (hx : e.edges? widths = some x) {r : α × α × α}
    (hr : r ∈ rs) : (∃ i, locate? x.distance r.1 = some i) ∧
      (∃ i, locate? x.longitude (toFrame x.longitude r.2.1) = some i) ∧
      ∃ i, locate? x.latitude r.2.2 = some i := by
  obtain ⟨d, lon, lat, hd, hlon, hlat, hdAround, -, hlatAround, hlonEdges⟩ :=
    edges?_around h hfits hdistance hcoordinate hx
  refine ⟨?_, ?_, ?_⟩
  · obtain ⟨d', hd', hge, hle⟩ := Span.exists_some_of_holds h.distance (List.mem_map_of_mem hr)
    rw [hd] at hd'
    cases hd'
    refine hdAround.exists_locate ⟨?_, hle⟩
    rw [nonnegative, Scalar.max_eq]
    exact max_le hge (hpositive r hr)
  · rw [hlonEdges]
    exact exists_locate_longitude h hrange hcoordinate hlon (hfits.longitude lon hlon) hr
  · obtain ⟨lat', hlat', hge, hle⟩ :=
      Span.exists_some_of_holds h.latitude (List.mem_map_of_mem hr)
    rw [hlat] at hlat'
    cases hlat'
    exact hlatAround.exists_locate ⟨hge, hle⟩

end Extent

end

end SeismicHazard
