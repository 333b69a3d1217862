import Mathlib.Algebra.Order.Floor.Ring
import SeismicHazard.Proofs.Arrangement.Locate
import SeismicHazard.Proofs.Fallible
import SeismicHazard.Proofs.Marginal.Projection

/-!
# Arranged contributions

The arrangement of the ruptures of a site depends only on the factors that each of them contributes,
not on their order.

* `Grid.place?`: the bins of a rupture, if it lies within the edges.
* `Contribution.factors`: what a rupture multiplies into the joint distribution, cell by cell.
* `arrange_eq`: the arrangement of contributions that lie within the edges.
* `exists_arrange_iff`: no other ruptures can be arranged.
-/

namespace SeismicHazard

/-- A rupture at a site with its probabilities of no exceedance for one target, by epsilon bin. -/
structure Contribution (α : Type) where
  rupture : SiteRupture α
  pnes : List α

theorem length_flatMap_pnes {α : Type} {cs : List (Contribution α)} {bins : Nat}
    (h : ∀ c ∈ cs, c.pnes.length = bins) : (cs.flatMap (·.pnes)).length = cs.length * bins := by
  rw [List.length_flatMap, List.map_congr_left h]
  simp

/-- The cell of a rupture's bins and an epsilon bin. -/
def cellOf (at_ : Nat × Nat × Nat × Nat × Nat) (e : Nat) : List Nat :=
  [at_.1, at_.2.1, at_.2.2.1, at_.2.2.2.1, e, at_.2.2.2.2]

/-- The factors of placed ruptures, as they are listed for the joint distribution. -/
theorem cellFactors_eq {α : Type} (cs : List (Contribution α))
    (at_ : Contribution α → Nat × Nat × Nat × Nat × Nat) (shape : List Nat) :
    (cs.flatMap fun c => cellFactors shape (at_ c) c.pnes) =
      (cs.flatMap fun c => c.pnes.mapIdx fun e pne => (cellOf (at_ c) e, pne)).map
        fun x => (Tensor.position shape x.1, x.2) := by
  rw [List.map_flatMap]
  refine List.flatMap_congr fun c _ => ?_
  apply List.ext_getElem
  · simp [cellFactors]
  · intro i h _
    simp [cellFactors, cellOf]

theorem cellOf_injective (at_ : Nat × Nat × Nat × Nat × Nat) : (cellOf at_).Injective := by
  intro e e' h
  simpa [cellOf] using h

theorem Grid.length_shape {α : Type} (g : Grid α) (numRegions : Nat) :
    (g.shape numRegions).length = 6 := rfl

section

variable {α : Type} [Field α] [LinearOrder α] [FloorRing α]

/-! ### The bins of a rupture -/

namespace Grid

/-- The bins of a rupture: magnitude, distance, longitude, latitude and region. -/
def place? (g : Grid α) (numRegions : Nat) (r : SiteRupture α) :
    Option (Nat × Nat × Nat × Nat × Nat) := do
  let m ← locate? g.magnitude r.magnitude
  let d ← locate? g.distance r.distance
  let lo ← locate? g.longitude (toFrame g.longitude r.longitude)
  let la ← locate? g.latitude r.latitude
  if r.region < numRegions then some (m, d, lo, la, r.region) else none

theorem place?_eq_some {g : Grid α} {numRegions : Nat} {r : SiteRupture α}
    {at_ : Nat × Nat × Nat × Nat × Nat} : g.place? numRegions r = some at_ ↔
      locate? g.magnitude r.magnitude = some at_.1 ∧ locate? g.distance r.distance = some at_.2.1 ∧
      locate? g.longitude (toFrame g.longitude r.longitude) = some at_.2.2.1 ∧
      locate? g.latitude r.latitude = some at_.2.2.2.1 ∧ r.region < numRegions ∧
      at_.2.2.2.2 = r.region := by
  obtain ⟨m, d, lo, la, t⟩ := at_
  simp only [place?, Option.bind_eq_bind, Option.bind_eq_some_iff, Option.ite_none_right_eq_some,
    Option.some.injEq, Prod.mk.injEq]
  constructor
  · rintro ⟨m, hm, d, hd, lo, hlo, la, hla, ht, rfl, rfl, rfl, rfl, rfl⟩
    exact ⟨hm, hd, hlo, hla, ht, rfl⟩
  · rintro ⟨hm, hd, hlo, hla, ht, rfl⟩
    exact ⟨m, hm, d, hd, lo, hlo, la, hla, ht, rfl, rfl, rfl, rfl, rfl⟩

/-- The cells of a rupture are among those of the joint distribution. -/
theorem cellOf_mem_cells {g : Grid α} {numRegions : Nat} {r : SiteRupture α}
    {at_ : Nat × Nat × Nat × Nat × Nat} (h : g.place? numRegions r = some at_) {e : Nat}
    (he : e < g.epsilonBins) : cellOf at_ e ∈ Tensor.cells (g.shape numRegions) := by
  obtain ⟨hm, hd, hlo, hla, ht, heq⟩ := place?_eq_some.1 h
  have hm' := locate?_lt hm
  have hd' := locate?_lt hd
  have hlo' := locate?_lt hlo
  have hla' := locate?_lt hla
  rw [epsilonBins] at he
  rw [Tensor.mem_cells]
  simp only [cellOf, shape, numBins, axes, List.map_cons, List.map_nil, List.cons_append,
    List.nil_append, List.forall₂_cons, List.forall₂_nil_right_iff, and_true]
  omega

end Grid

/-- The bins of a rupture do not depend on the site, only the message that there are none does. -/
theorem bins_eq_ok {site : Nat} {g : Grid α} {numRegions : Nat} {r : SiteRupture α}
    {at_ : Nat × Nat × Nat × Nat × Nat} :
    bins site g numRegions r = .ok at_ ↔ g.place? numRegions r = some at_ := by
  obtain ⟨m, d, lo, la, t⟩ := at_
  simp only [bins, Fallible.bind_eq_ok, locate_eq_ok, Grid.place?_eq_some]
  constructor
  · rintro ⟨m, hm, d, hd, lo, hlo, la, hla, h⟩
    split at h
    · next ht =>
      cases h
      exact ⟨hm, hd, hlo, hla, ht, rfl⟩
    · cases h
  · rintro ⟨hm, hd, hlo, hla, ht, rfl⟩
    exact ⟨m, hm, d, hd, lo, hlo, la, hla, by rw [if_pos ht]; rfl⟩

/-! ### Factors -/

namespace Contribution

/-- What a rupture contributes to the joint distribution: for each epsilon bin a factor in the cell of
its bins. A rupture outside the edges contributes nothing. -/
def factors (g : Grid α) (numRegions : Nat) (c : Contribution α) : Multiset (List Nat × α) :=
  match g.place? numRegions c.rupture with
  | some at_ => (c.pnes.mapIdx fun e pne => (cellOf at_ e, pne) : List _)
  | none => 0

/-- Whether a rupture lies within the edges and has a probability for every epsilon bin. -/
structure Fits (g : Grid α) (numRegions : Nat) (c : Contribution α) : Prop where
  length : c.pnes.length = g.epsilonBins
  placed : ∃ at_, g.place? numRegions c.rupture = some at_

theorem factors_eq {g : Grid α} {numRegions : Nat} {c : Contribution α}
    {at_ : Nat × Nat × Nat × Nat × Nat} (h : g.place? numRegions c.rupture = some at_) :
    c.factors g numRegions = (c.pnes.mapIdx fun e pne => (cellOf at_ e, pne) : List _) := by
  rw [factors, h]

theorem mem_cells_of_mem_factors {g : Grid α} {numRegions : Nat} {c : Contribution α}
    (hlength : c.pnes.length = g.epsilonBins) {x : List Nat × α} (hx : x ∈ c.factors g numRegions) :
    x.1 ∈ Tensor.cells (g.shape numRegions) := by
  cases h : g.place? numRegions c.rupture with
  | none => simp [factors, h] at hx
  | some at_ =>
    rw [factors_eq h, Multiset.mem_coe, List.mem_mapIdx] at hx
    obtain ⟨e, he, rfl⟩ := hx
    exact Grid.cellOf_mem_cells h (hlength ▸ he)

end Contribution

/-- The factors of several ruptures. -/
def factorsOf (g : Grid α) (numRegions : Nat) (cs : Multiset (Contribution α)) :
    Multiset (List Nat × α) :=
  cs.bind (·.factors g numRegions)

theorem factorsOf_cons (g : Grid α) (numRegions : Nat) (c : Contribution α)
    (cs : Multiset (Contribution α)) : factorsOf g numRegions (c ::ₘ cs) =
      c.factors g numRegions + factorsOf g numRegions cs :=
  Multiset.cons_bind _ _ _

theorem factorsOf_add (g : Grid α) (numRegions : Nat) (as bs : Multiset (Contribution α)) :
    factorsOf g numRegions (as + bs) = factorsOf g numRegions as + factorsOf g numRegions bs :=
  Multiset.add_bind _ _ _

theorem mem_cells_of_mem_factorsOf {g : Grid α} {numRegions : Nat} {cs : Multiset (Contribution α)}
    (hlength : ∀ c ∈ cs, c.pnes.length = g.epsilonBins) :
    ∀ x ∈ factorsOf g numRegions cs, x.1 ∈ Tensor.cells (g.shape numRegions) := by
  intro x hx
  obtain ⟨c, hc, hxc⟩ := Multiset.mem_bind.1 hx
  exact Contribution.mem_cells_of_mem_factors (hlength c hc) hxc

/-! ### The joint distribution -/

/-- Multiplying factors into cells, place by place. -/
theorem multiplyInto_ofCells {shape : List Nat} (f : List Nat → α) {F : List (List Nat × α)}
    (h : ∀ x ∈ F, x.1 ∈ Tensor.cells shape) :
    multiplyInto (.ofCells shape f) (F.map fun x => (Tensor.position shape x.1, x.2)) =
      .ofCells shape fun c => f c * productWhere (F : Multiset (List Nat × α)) (· = c) := by
  induction F generalizing f with
  | nil => exact Tensor.ofCells_congr fun c _ => by simp
  | cons x F ih =>
    have hx : x.1 ∈ Tensor.cells shape := h x List.mem_cons_self
    have hF := ih (fun c => if c = x.1 then f c * x.2 else f c)
      fun y hy => h y (List.mem_cons_of_mem _ hy)
    rw [← Tensor.modify_ofCells f (· * x.2) hx] at hF
    refine hF.trans ?_
    refine Tensor.ofCells_congr fun c _ => ?_
    rw [← Multiset.cons_coe, productWhere_cons]
    by_cases hc : c = x.1
    · subst hc
      simp [mul_assoc]
    · simp [hc, Ne.symm hc]

variable {site : Nat} {g : Grid α} {numRegions : Nat} {cs : List (Contribution α)}

theorem arrangeJoint_eq (hlength : ∀ c ∈ cs, c.pnes.length = g.epsilonBins)
    (hplaced : ∀ c ∈ cs, ∃ at_, g.place? numRegions c.rupture = some at_) :
    arrangeJoint site g numRegions (cs.map (·.rupture)) (cs.flatMap (·.pnes)) =
      .ok ((Tensor.ofCells (g.shape numRegions) fun c =>
        productWhere (factorsOf g numRegions cs) (· = c)).map Marginal.complement) := by
  choose! at_ hat using hplaced
  have hcount : (cs.flatMap (·.pnes)).length = cs.length * g.epsilonBins :=
    length_flatMap_pnes hlength
  have hplaces : (cs.map (·.rupture)).mapM (bins site g numRegions) = .ok (cs.map at_) := by
    rw [List.mapM_map]
    exact Fallible.mapM_eq_map fun c hc => bins_eq_ok.2 (hat c hc)
  have hrows : Tensor.chunks g.epsilonBins cs.length (cs.flatMap (·.pnes)) = cs.map (·.pnes) :=
    Tensor.chunks_flatMap cs hlength
  have hfactors : ((cs.flatMap fun c => c.pnes.mapIdx fun e pne => (cellOf (at_ c) e, pne) :
      List (List Nat × α)) : Multiset (List Nat × α)) = factorsOf g numRegions cs := by
    rw [factorsOf, ← Multiset.coe_bind]
    exact Multiset.bind_congr fun c hc => (Contribution.factors_eq (hat c hc)).symm
  have hcells : ∀ x ∈ cs.flatMap fun c => c.pnes.mapIdx fun e pne => (cellOf (at_ c) e, pne),
      x.1 ∈ Tensor.cells (g.shape numRegions) := by
    intro x hx
    rw [← Multiset.mem_coe, hfactors] at hx
    exact mem_cells_of_mem_factorsOf hlength x hx
  have hjoint : multiplyInto (Tensor.fill (g.shape numRegions) 1)
      (cs.flatMap fun c => cellFactors (g.shape numRegions) (at_ c) c.pnes) =
      Tensor.ofCells (g.shape numRegions) fun c =>
        productWhere (factorsOf g numRegions cs) (· = c) := by
    rw [cellFactors_eq cs at_, Tensor.fill_eq_ofCells,
      multiplyInto_ofCells _ hcells, hfactors]
    exact Tensor.ofCells_congr fun c _ => one_mul _
  rw [← hjoint]
  unfold arrangeJoint
  simp only [hcount, List.length_map, ne_eq, not_true_eq_false, if_false, hplaces, hrows]
  simp only [bind, Except.bind, pure, Except.pure, List.zip_map', List.flatMap_map]

/-- The arrangement of ruptures that lie within the edges. -/
theorem arrange_eq (site : Nat) (h : ∀ c ∈ cs, c.Fits g numRegions) (kinds : List Marginal) :
    arrange site g numRegions kinds (cs.map (·.rupture)) (cs.flatMap (·.pnes)) =
      .ok (Marginals.ofFactors kinds (g.shape numRegions) (factorsOf g numRegions cs)) := by
  have hlength : ∀ c ∈ cs, c.pnes.length = g.epsilonBins := fun c hc => (h c hc).length
  rw [arrange, arrangeJoint_eq hlength fun c hc => (h c hc).placed]
  exact congrArg Except.ok
    (Marginals.ofJoint_gathered kinds (mem_cells_of_mem_factorsOf hlength))

/-- A joint distribution needs every rupture to lie within the edges. -/
theorem exists_arrangeJoint_iff (site : Nat) (hlength : ∀ c ∈ cs, c.pnes.length = g.epsilonBins) :
    (∃ joint,
      arrangeJoint site g numRegions (cs.map (·.rupture)) (cs.flatMap (·.pnes)) = .ok joint) ↔
      ∀ c ∈ cs, ∃ at_, g.place? numRegions c.rupture = some at_ := by
  constructor
  · rintro ⟨joint, hjoint⟩ c hc
    unfold arrangeJoint at hjoint
    simp only [length_flatMap_pnes hlength, List.length_map, ne_eq, not_true_eq_false, if_false] at hjoint
    obtain ⟨-, -, hjoint⟩ := Fallible.bind_eq_ok.1 hjoint
    obtain ⟨places, hplaces, -⟩ := Fallible.bind_eq_ok.1 hjoint
    obtain ⟨at_, hat⟩ := Fallible.exists_mapM_eq_ok_iff.1 ⟨places, hplaces⟩ c.rupture
      (List.mem_map_of_mem hc)
    exact ⟨at_, bins_eq_ok.1 hat⟩
  · intro hplaced
    exact ⟨_, arrangeJoint_eq hlength hplaced⟩

/-- An arrangement needs every rupture to lie within the edges. -/
theorem exists_arrange_iff (site : Nat) (hlength : ∀ c ∈ cs, c.pnes.length = g.epsilonBins)
    (kinds : List Marginal) :
    (∃ m, arrange site g numRegions kinds (cs.map (·.rupture)) (cs.flatMap (·.pnes)) = .ok m) ↔
      ∀ c ∈ cs, c.Fits g numRegions := by
  constructor
  · rintro ⟨m, hm⟩ c hc
    obtain ⟨joint, hjoint, -⟩ := Fallible.bind_eq_ok.1 hm
    exact ⟨hlength c hc, (exists_arrangeJoint_iff site hlength).1 ⟨joint, hjoint⟩ c hc⟩
  · intro h
    exact ⟨_, arrange_eq site h kinds⟩

end

end SeismicHazard
