import Mathlib.Data.Rat.Floor
import SeismicHazard.Proofs.Arrangement.Gathered
import SeismicHazard.Proofs.Grid.Edges

/-!
# Arrangements row by row

The arrangement of a site is given its ruptures as rows: each rupture has as many probabilities of no
exceedance as there are epsilon bins. Rows may be exchanged, and they may be arranged in two parts.

* `Contribution.rows`, `exists_rows`: the rows of ruptures and probabilities, and that all
  probabilities are in them.
* `Grid.Encloses`: ruptures that lie within the edges.
* `Grid.cellHolds`, `Contribution.factorAt?`: which cells a rupture falls into, and its factor there.
* `arrange_take_drop`: an arrangement is combined from those of two parts.
* `arrangement_of_rows`: when rows can be arranged, and what their arrangement is.
-/

namespace SeismicHazard

/-! ### Rows -/

section

variable {α : Type}

/-- The rows of ruptures and the probabilities of all of them, `bins` for each. -/
def Contribution.rows (bins : Nat) (ruptures : List (SiteRupture α)) (pnes : List α) :
    List (Contribution α) :=
  ruptures.zipWith Contribution.mk (Tensor.chunks bins ruptures.length pnes)

variable {bins : Nat} {cs : List (Contribution α)}

theorem Contribution.rows_eq (h : ∀ c ∈ cs, c.pnes.length = bins) :
    rows bins (cs.map (·.rupture)) (cs.flatMap (·.pnes)) = cs := by
  rw [rows, List.length_map, Tensor.chunks_flatMap cs h, List.zipWith_map, List.zipWith_self]
  exact List.map_id cs

/-- All probabilities are in rows if there are as many as the rows ask for. -/
theorem exists_rows {ruptures : List (SiteRupture α)} {pnes : List α}
    (h : pnes.length = ruptures.length * bins) :
    ∃ cs : List (Contribution α), cs.map (·.rupture) = ruptures ∧ cs.flatMap (·.pnes) = pnes ∧
      ∀ c ∈ cs, c.pnes.length = bins := by
  induction ruptures generalizing pnes with
  | nil =>
    rw [List.length_nil, Nat.zero_mul, List.length_eq_zero_iff] at h
    exact ⟨[], rfl, h.symm, fun c hc => absurd hc List.not_mem_nil⟩
  | cons r ruptures ih =>
    rw [List.length_cons, Nat.succ_mul] at h
    have htake : (pnes.take bins).length = bins := by
      rw [List.length_take]
      omega
    have hdrop : (pnes.drop bins).length = ruptures.length * bins := by
      rw [List.length_drop]
      omega
    obtain ⟨cs, hruptures, hpnes, hlength⟩ := ih hdrop
    refine ⟨⟨r, pnes.take bins⟩ :: cs, ?_, ?_, List.forall_mem_cons.2 ⟨htake, hlength⟩⟩
    · rw [List.map_cons, hruptures]
    · rw [List.flatMap_cons, hpnes, List.take_append_drop]

/-- The probabilities of the first rows come first. -/
theorem take_drop_flatMap_pnes (h : ∀ c ∈ cs, c.pnes.length = bins) (k : Nat) :
    (cs.flatMap (·.pnes)).take (k * bins) = (cs.take k).flatMap (·.pnes) ∧
      (cs.flatMap (·.pnes)).drop (k * bins) = (cs.drop k).flatMap (·.pnes) := by
  induction cs generalizing k with
  | nil => simp
  | cons c cs ih =>
    rw [List.forall_mem_cons] at h
    cases k with
    | zero => simp
    | succ k =>
      obtain ⟨htake, hdrop⟩ := ih h.2 k
      have hk : (k + 1) * bins = c.pnes.length + k * bins := by
        rw [h.1, Nat.succ_mul, Nat.add_comm]
      simp only [List.flatMap_cons, List.take_succ_cons, List.drop_succ_cons, hk,
        List.take_length_add_append, List.drop_length_add_append, htake, hdrop, and_self]

end

section

variable {α : Type} [Field α] [LinearOrder α] [FloorRing α]

/-! ### Ruptures within the edges -/

namespace Grid

/-- Whether the coordinates of a rupture lie within the edges, its longitude in their frame, and its
tectonic region type is one of those that there are. -/
@[mk_iff]
structure Encloses (g : Grid α) (numRegions : Nat) (r : SiteRupture α) : Prop where
  magnitude : Edges.Enclose g.magnitude r.magnitude
  distance : Edges.Enclose g.distance r.distance
  longitude : Edges.Enclose g.longitude (toFrame g.longitude r.longitude)
  latitude : Edges.Enclose g.latitude r.latitude
  region : r.region < numRegions

instance (g : Grid α) (numRegions : Nat) (r : SiteRupture α) :
    Decidable (g.Encloses numRegions r) :=
  decidable_of_iff' _ (encloses_iff g numRegions r)

/-- Whether a rupture falls into a cell, which has any epsilon bin. -/
def cellHolds (g : Grid α) (r : SiteRupture α) : List Nat → Bool
  | [m, d, lo, la, _, t] =>
    holds g.magnitude m r.magnitude && holds g.distance d r.distance &&
      holds g.longitude lo (toFrame g.longitude r.longitude) && holds g.latitude la r.latitude &&
      t == r.region
  | _ => false

variable {g : Grid α} {numRegions : Nat} {r : SiteRupture α}

theorem exists_place?_iff (hg : g.validate = .ok ()) :
    (∃ at_, g.place? numRegions r = some at_) ↔ g.Encloses numRegions r := by
  have hbins := fun p hp => (validate_eq_ok_iff.1 hg p hp).1
  simp only [axes, List.forall_mem_cons] at hbins
  obtain ⟨hmagnitude, hdistance, hlongitude, hlatitude, -⟩ := hbins
  constructor
  · rintro ⟨at_, hat⟩
    obtain ⟨hm, hd, hlo, hla, ht, -⟩ := place?_eq_some.1 hat
    exact ⟨(exists_locate?_iff hmagnitude).1 ⟨_, hm⟩, (exists_locate?_iff hdistance).1 ⟨_, hd⟩,
      (exists_locate?_iff hlongitude).1 ⟨_, hlo⟩, (exists_locate?_iff hlatitude).1 ⟨_, hla⟩, ht⟩
  · intro h
    obtain ⟨m, hm⟩ := (exists_locate?_iff hmagnitude).2 h.magnitude
    obtain ⟨d, hd⟩ := (exists_locate?_iff hdistance).2 h.distance
    obtain ⟨lo, hlo⟩ := (exists_locate?_iff hlongitude).2 h.longitude
    obtain ⟨la, hla⟩ := (exists_locate?_iff hlatitude).2 h.latitude
    exact ⟨(m, d, lo, la, r.region), place?_eq_some.2 ⟨hm, hd, hlo, hla, h.region, rfl⟩⟩

/-- A rupture falls into the cells of its bins and into no others. -/
theorem cellHolds_iff (hg : g.validate = .ok ()) {at_ : Nat × Nat × Nat × Nat × Nat}
    (hat : g.place? numRegions r = some at_) {cell : List Nat} :
    g.cellHolds r cell = true ↔ ∃ e, cell = cellOf at_ e := by
  have hascending := fun p hp => (validate_eq_ok_iff.1 hg p hp).2
  simp only [axes, List.forall_mem_cons] at hascending
  obtain ⟨hmagnitude, hdistance, hlongitude, hlatitude, -⟩ := hascending
  obtain ⟨hm, hd, hlo, hla, -, ht⟩ := place?_eq_some.1 hat
  have hm' := holds_of_locate? hmagnitude hm
  have hd' := holds_of_locate? hdistance hd
  have hlo' := holds_of_locate? hlongitude hlo
  have hla' := holds_of_locate? hlatitude hla
  constructor
  · intro h
    unfold cellHolds at h
    split at h
    · next m d lo la e t =>
      simp only [Bool.and_eq_true, beq_iff_eq] at h
      obtain ⟨⟨⟨⟨hcm, hcd⟩, hclo⟩, hcla⟩, hct⟩ := h
      refine ⟨e, ?_⟩
      rw [cellOf, holds_unique hmagnitude hcm hm', holds_unique hdistance hcd hd',
        holds_unique hlongitude hclo hlo', holds_unique hlatitude hcla hla', hct, ht]
    · cases h
  · rintro ⟨e, rfl⟩
    simp [cellHolds, cellOf, hm', hd', hlo', hla', ht]

end Grid

/-! ### Factors of a cell -/

namespace Contribution

/-- The factor of a rupture in a cell, if it falls into the cell: its probability for the epsilon bin
of the cell. -/
def factorAt? (g : Grid α) (cell : List Nat) (c : Contribution α) : Option α :=
  if g.cellHolds c.rupture cell then cell[Axis.epsilon.index]?.bind (c.pnes[·]?) else none

/-- What a rupture multiplies into a cell is its factor there. -/
theorem productWhere_factors (hg : g.validate = .ok ()) {c : Contribution α}
    (hplaced : ∃ at_, g.place? numRegions c.rupture = some at_) (cell : List Nat) :
    productWhere (c.factors g numRegions) (· = cell) = (c.factorAt? g cell).getD 1 := by
  obtain ⟨at_, hat⟩ := hplaced
  rw [factors_eq hat, factorAt?]
  split
  · next hcell =>
    obtain ⟨e, rfl⟩ := (Grid.cellHolds_iff hg hat).1 hcell
    exact productWhere_mapIdx (cellOf_injective at_) c.pnes e
  · next hcell =>
    refine productWhere_eq_one fun x hx => ?_
    obtain ⟨e, he, rfl⟩ := List.mem_mapIdx.1 (Multiset.mem_coe.1 hx)
    exact fun heq => hcell ((Grid.cellHolds_iff hg hat).2 ⟨e, heq.symm⟩)

end Contribution

variable {cs : List (Contribution α)}

/-- What ruptures multiply into a cell is the product of their factors there. -/
theorem productWhere_factorsOf (hg : g.validate = .ok ())
    (hplaced : ∀ c ∈ cs, ∃ at_, g.place? numRegions c.rupture = some at_) (cell : List Nat) :
    productWhere (factorsOf g numRegions cs) (· = cell) =
      (cs.filterMap (·.factorAt? g cell)).prod := by
  induction cs with
  | nil => simp [factorsOf]
  | cons c cs ih =>
    rw [List.forall_mem_cons] at hplaced
    rw [← Multiset.cons_coe, factorsOf_cons, productWhere_add, ih hplaced.2,
      Contribution.productWhere_factors hg hplaced.1, List.filterMap_cons]
    cases c.factorAt? g cell <;> simp

/-! ### Two parts -/

variable {site : Nat} {kinds : List Marginal}

/-- The number of probabilities is checked before anything else. -/
theorem length_of_arrangeJoint {ruptures : List (SiteRupture α)} {pnes : List α} {joint : Tensor α}
    (h : arrangeJoint site g numRegions ruptures pnes = .ok joint) :
    pnes.length = ruptures.length * g.epsilonBins := by
  unfold arrangeJoint at h
  by_contra hne
  rw [if_pos hne] at h
  cases h

theorem length_of_arrange {ruptures : List (SiteRupture α)} {pnes : List α} {m : Marginals α}
    (h : arrange site g numRegions kinds ruptures pnes = .ok m) :
    pnes.length = ruptures.length * g.epsilonBins := by
  obtain ⟨joint, hjoint, -⟩ := Fallible.bind_eq_ok.1 h
  exact length_of_arrangeJoint hjoint

/-- An arrangement of rows is combined from those of the rows in front and of the rows behind. -/
theorem arrange_append {as bs : List (Contribution α)}
    (hlength : ∀ c ∈ as ++ bs, c.pnes.length = g.epsilonBins) {m : Marginals α} (place : String) :
    arrange site g numRegions kinds ((as ++ bs).map (·.rupture)) ((as ++ bs).flatMap (·.pnes)) =
        .ok m ↔
      ∃ first second,
        arrange site g numRegions kinds (as.map (·.rupture)) (as.flatMap (·.pnes)) = .ok first ∧
        arrange site g numRegions kinds (bs.map (·.rupture)) (bs.flatMap (·.pnes)) = .ok second ∧
        first.combine place second = (m, none) := by
  obtain ⟨hfront, hbehind⟩ := List.forall_mem_append.1 hlength
  constructor
  · intro hm
    have hfits := (exists_arrange_iff site hlength kinds).1 ⟨m, hm⟩
    obtain ⟨has, hbs⟩ := List.forall_mem_append.1 hfits
    refine ⟨_, _, arrange_eq site has kinds, arrange_eq site hbs kinds, ?_⟩
    rw [arrange_eq site hfits kinds] at hm
    cases hm
    rw [Marginals.combine_ofFactors, ← factorsOf_add, Multiset.coe_add]
  · rintro ⟨first, second, hfirst, hsecond, hcombine⟩
    have has := (exists_arrange_iff site hfront kinds).1 ⟨first, hfirst⟩
    have hbs := (exists_arrange_iff site hbehind kinds).1 ⟨second, hsecond⟩
    rw [arrange_eq site has kinds] at hfirst
    rw [arrange_eq site hbs kinds] at hsecond
    cases hfirst
    cases hsecond
    rw [Marginals.combine_ofFactors] at hcombine
    cases hcombine
    rw [arrange_eq site (List.forall_mem_append.2 ⟨has, hbs⟩) kinds, ← factorsOf_add,
      Multiset.coe_add]

/-- Parts that have a row for each of their ruptures make a whole that does. -/
theorem length_of_take_drop {β γ : Type} {xs : List β} {ys : List γ} {bins k : Nat}
    (htake : (ys.take (k * bins)).length = (xs.take k).length * bins)
    (hdrop : (ys.drop (k * bins)).length = (xs.drop k).length * bins) :
    ys.length = xs.length * bins := by
  rw [List.length_take, List.length_take] at htake
  rw [List.length_drop, List.length_drop] at hdrop
  rcases le_total k xs.length with hk | hk
  · have hwhole : xs.length * bins = k * bins + (xs.length - k) * bins := by
      rw [← Nat.add_mul, Nat.add_sub_cancel' hk]
    rw [min_eq_left hk] at htake
    omega
  · rw [min_eq_right hk] at htake
    rw [Nat.sub_eq_zero_of_le hk] at hdrop
    omega

/-- An arrangement is combined from those of the first ruptures and of the others. -/
theorem arrange_take_drop (ruptures : List (SiteRupture α)) (pnes : List α) (k : Nat)
    (m : Marginals α) (place : String) :
    arrange site g numRegions kinds ruptures pnes = .ok m ↔
      ∃ first second,
        arrange site g numRegions kinds (ruptures.take k) (pnes.take (k * g.epsilonBins)) =
          .ok first ∧
        arrange site g numRegions kinds (ruptures.drop k) (pnes.drop (k * g.epsilonBins)) =
          .ok second ∧
        first.combine place second = (m, none) := by
  by_cases hlength : pnes.length = ruptures.length * g.epsilonBins
  · obtain ⟨cs, rfl, rfl, hcs⟩ := exists_rows hlength
    obtain ⟨htake, hdrop⟩ := take_drop_flatMap_pnes hcs k
    rw [← List.map_take, ← List.map_drop, htake, hdrop, ← arrange_append, List.take_append_drop]
    rwa [List.take_append_drop]
  · -- a part that has too few or too many probabilities cannot be arranged either
    constructor
    · intro hm
      exact absurd (length_of_arrange hm) hlength
    · rintro ⟨first, second, hfirst, hsecond, -⟩
      exact absurd (length_of_take_drop (length_of_arrange hfirst) (length_of_arrange hsecond))
        hlength

/-! ### Whole arrangements -/

theorem exists_arrangeJoint_iff_encloses (hg : g.validate = .ok ())
    (ruptures : List (SiteRupture α)) (pnes : List α) :
    (∃ joint, arrangeJoint site g numRegions ruptures pnes = .ok joint) ↔
      pnes.length = ruptures.length * g.epsilonBins ∧ ∀ r ∈ ruptures, g.Encloses numRegions r := by
  by_cases hlength : pnes.length = ruptures.length * g.epsilonBins
  · obtain ⟨cs, rfl, rfl, hcs⟩ := exists_rows hlength
    rw [exists_arrangeJoint_iff site hcs, List.forall_mem_map]
    simp only [hlength, true_and, Grid.exists_place?_iff hg]
  · constructor
    · rintro ⟨joint, hjoint⟩
      exact absurd (length_of_arrangeJoint hjoint) hlength
    · rintro ⟨h, -⟩
      exact absurd h hlength

/-- A cell of the joint distribution holds the complement of the product of the factors that the
ruptures have in it. -/
theorem arrangeJoint_eq_ofCells (hg : g.validate = .ok ())
    (hlength : ∀ c ∈ cs, c.pnes.length = g.epsilonBins) {joint : Tensor α}
    (h : arrangeJoint site g numRegions (cs.map (·.rupture)) (cs.flatMap (·.pnes)) = .ok joint) :
    joint = Tensor.ofCells (g.shape numRegions) fun cell =>
      1 - (cs.filterMap (·.factorAt? g cell)).prod := by
  have hplaced := (exists_arrangeJoint_iff site hlength).1 ⟨joint, h⟩
  rw [arrangeJoint_eq hlength hplaced] at h
  cases h
  rw [Tensor.map_ofCells]
  refine Tensor.ofCells_congr fun cell _ => ?_
  rw [productWhere_factorsOf hg hplaced]
  rfl

theorem filterMap_factorAt?_eq_nil {cell : List Nat}
    (h : ∀ c ∈ cs, g.cellHolds c.rupture cell = false) : cs.filterMap (·.factorAt? g cell) = [] := by
  rw [List.filterMap_eq_nil_iff]
  intro c hc
  simp [Contribution.factorAt?, h c hc]

/-- The order of the rows does not matter. -/
theorem arrangeJoint_perm {cs' : List (Contribution α)}
    (hlength : ∀ c ∈ cs, c.pnes.length = g.epsilonBins) (hperm : cs'.Perm cs) {joint : Tensor α}
    (h : arrangeJoint site g numRegions (cs.map (·.rupture)) (cs.flatMap (·.pnes)) = .ok joint) :
    arrangeJoint site g numRegions (cs'.map (·.rupture)) (cs'.flatMap (·.pnes)) = .ok joint := by
  have hplaced := (exists_arrangeJoint_iff site hlength).1 ⟨joint, h⟩
  have hsame : (cs' : Multiset (Contribution α)) = cs := Multiset.coe_eq_coe.2 hperm
  rw [arrangeJoint_eq hlength hplaced] at h
  rw [arrangeJoint_eq (fun c hc => hlength c (hperm.subset hc))
    fun c hc => hplaced c (hperm.subset hc), hsame, h]

/-- The joint distribution of ruptures between sound edges is there if and only if there is a
probability for every rupture and epsilon bin and all ruptures lie within the edges. Then its cells
hold the complements of the products of what falls into them, whatever the order of the ruptures. Cut
in two anywhere, the ruptures have marginals that combine to those of the whole. -/
theorem arrangement_of_rows (hg : g.validate = .ok ()) (site numRegions : Nat)
    (ruptures : List (SiteRupture α)) (pnes : List α) :
    ((∃ joint, arrangeJoint site g numRegions ruptures pnes = .ok joint) ↔
      pnes.length = ruptures.length * g.epsilonBins ∧
        ∀ r ∈ ruptures, g.Encloses numRegions r) ∧
    (∀ joint, arrangeJoint site g numRegions ruptures pnes = .ok joint →
      joint.shape = g.shape numRegions ∧
      (∀ cell ∈ Tensor.cells (g.shape numRegions),
        joint.get? cell = some (1 - ((Contribution.rows g.epsilonBins ruptures pnes).filterMap
          (·.factorAt? g cell)).prod) ∧
        ((∀ r ∈ ruptures, g.cellHolds r cell = false) → joint.get? cell = some 0)) ∧
      ∀ ruptures' pnes', pnes'.length = ruptures'.length * g.epsilonBins →
        (Contribution.rows g.epsilonBins ruptures' pnes').Perm
          (Contribution.rows g.epsilonBins ruptures pnes) →
        arrangeJoint site g numRegions ruptures' pnes' = .ok joint) ∧
    ∀ kinds k m place, arrange site g numRegions kinds ruptures pnes = .ok m ↔
      ∃ first second,
        arrange site g numRegions kinds (ruptures.take k) (pnes.take (k * g.epsilonBins)) =
          .ok first ∧
        arrange site g numRegions kinds (ruptures.drop k) (pnes.drop (k * g.epsilonBins)) =
          .ok second ∧
        first.combine place second = (m, none) := by
  refine ⟨exists_arrangeJoint_iff_encloses hg ruptures pnes, fun joint h => ?_,
    fun kinds k m place => arrange_take_drop ruptures pnes k m place⟩
  obtain ⟨cs, rfl, rfl, hcs⟩ := exists_rows (length_of_arrangeJoint h)
  obtain rfl := arrangeJoint_eq_ofCells hg hcs h
  rw [Contribution.rows_eq hcs]
  refine ⟨rfl, fun cell hcell => ?_, fun ruptures' pnes' hlength' hperm => ?_⟩
  · rw [Tensor.get?_ofCells _ hcell]
    refine ⟨rfl, fun hempty => ?_⟩
    rw [filterMap_factorAt?_eq_nil (List.forall_mem_map.1 hempty)]
    simp
  · obtain ⟨cs', rfl, rfl, hcs'⟩ := exists_rows hlength'
    rw [Contribution.rows_eq hcs'] at hperm
    exact arrangeJoint_perm hcs hperm h

/-- Bins on both sides of the antimeridian. -/
def antimeridianGrid : Grid ℚ where
  magnitude := [5, 6, 7]
  distance := [0, 10, 20]
  longitude := [359 / 2, 180, 361 / 2]
  latitude := [0, 1 / 2]
  epsilon := [-3, 3]

/-- Two ruptures in one cell, and one beyond the antimeridian. -/
def antimeridianRuptures : List (SiteRupture ℚ) :=
  [⟨11 / 2, 5, 1797 / 10, 1 / 5, 0⟩, ⟨28 / 5, 6, 899 / 5, 3 / 10, 0⟩,
    ⟨13 / 2, 15, -899 / 5, 1 / 10, 0⟩]

theorem arrangement_of_rows_antimeridian : antimeridianGrid.validate = .ok () ∧
    ∃ joint, arrangeJoint 0 antimeridianGrid 1 antimeridianRuptures [9 / 10, 4 / 5, 1 / 2] =
        .ok joint ∧
      joint.get? [0, 0, 0, 0, 0, 0] = some (1 - 9 / 10 * (4 / 5)) ∧
      joint.get? [1, 1, 1, 0, 0, 0] = some (1 - 1 / 2) ∧
      joint.get? [0, 1, 0, 0, 0, 0] = some 0 ∧
      arrangeJoint 0 antimeridianGrid 1 antimeridianRuptures.reverse [1 / 2, 4 / 5, 9 / 10] =
        .ok joint ∧
      ∃ m first second,
        arrange 0 antimeridianGrid 1 [.mag] antimeridianRuptures [9 / 10, 4 / 5, 1 / 2] = .ok m ∧
        arrange 0 antimeridianGrid 1 [.mag] (antimeridianRuptures.take 1) [9 / 10] = .ok first ∧
        arrange 0 antimeridianGrid 1 [.mag] (antimeridianRuptures.drop 1) [4 / 5, 1 / 2] =
          .ok second ∧
        first.combine "site 0" second = (m, none) := by
  have hg : antimeridianGrid.validate = .ok () := Grid.validate_eq_ok_iff.2 (by decide +kernel)
  obtain ⟨hexists, hjoints, hparts⟩ :=
    arrangement_of_rows hg 0 1 antimeridianRuptures [9 / 10, 4 / 5, 1 / 2]
  obtain ⟨joint, hjoint⟩ := hexists.2 (by decide +kernel)
  obtain ⟨-, hcells, hreordered⟩ := hjoints joint hjoint
  refine ⟨hg, joint, hjoint, ?_, ?_, ?_, ?_, ?_⟩
  · rw [(hcells _ (by decide)).1]
    decide +kernel
  · rw [(hcells _ (by decide)).1]
    decide +kernel
  · exact (hcells _ (by decide)).2 (by decide +kernel)
  · have hreversed : Contribution.rows antimeridianGrid.epsilonBins antimeridianRuptures.reverse
        [1 / 2, 4 / 5, 9 / 10] = (Contribution.rows antimeridianGrid.epsilonBins
          antimeridianRuptures [9 / 10, 4 / 5, 1 / 2]).reverse := rfl
    exact hreordered _ _ rfl (hreversed ▸ List.reverse_perm _)
  · have harranged : arrange 0 antimeridianGrid 1 [.mag] antimeridianRuptures
        [9 / 10, 4 / 5, 1 / 2] = .ok (.ofJoint [.mag] joint) := by
      rw [arrange, hjoint]
      rfl
    obtain ⟨first, second, hfirst, hsecond, hcombined⟩ := (hparts [.mag] 1 _ "site 0").1 harranged
    exact ⟨_, first, second, harranged, hfirst, hsecond, hcombined⟩

end

end SeismicHazard
