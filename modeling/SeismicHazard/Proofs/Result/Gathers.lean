import Mathlib.Algebra.BigOperators.Group.Multiset.Basic
import SeismicHazard.Proofs.Arrangement.Gathered
import SeismicHazard.Proofs.Result.KeyOrder
import SeismicHazard.Result.Reduction
import SeismicHazard.Task.Basic

/-!
# Results that gather contributions

Results gather contributions if they have a key for everything that ruptures contribute to, and under
it the marginals of the arrangement of all of these contributions together.

* `Results.Gathers`: what it means to gather contributions.
* `Results.Gathers.exists_gather`: what one result gathers.
* `Results.Gathers.add`: one more result adds its contributions.
* `Results.Gathers.addAll`: so do several results.
* `Reduction.merge_gathers`: merging the results of tasks adds up their contributions.
* `Results.Gathers.toList_eq`: the contributions determine the results.
-/

namespace SeismicHazard

/-- What ruptures contribute to each result. -/
abbrev Contributions (α : Type) : Type := ResultKey α → Multiset (Contribution α)

section

variable {α : Type} [Field α] [LinearOrder α] [FloorRing α]

/-- The marginals of contributions within the edges of a site. -/
def Setting.gather (st : Setting α) (g : Grid α) (cs : Multiset (Contribution α)) : Marginals α :=
  .ofFactors st.marginals (g.shape st.regions.length) (factorsOf g st.regions.length cs)

/-- Results that hold the given contributions and nothing else. -/
structure Results.Gathers (st : Setting α) (r : Results α) (C : Contributions α) : Prop where
  absent : ∀ k, C k = 0 → r[k]? = none
  present : ∀ k, C k ≠ 0 → ∃ g, st.grids[k.site]? = some g ∧
    (∀ c ∈ C k, c.Fits g st.regions.length) ∧ r[k]? = some (st.gather g (C k))

namespace Results.Gathers

variable {st : Setting α} {r r' : Results α} {C C' : Contributions α}

theorem empty (st : Setting α) : Gathers st (∅ : Results α) 0 where
  absent _ _ := Std.TreeMap.getElem?_emptyc
  present _ h := absurd rfl h

theorem congr (h : Gathers st r C) (hC : ∀ k, C k = C' k) : Gathers st r C' :=
  funext hC ▸ h

/-- There is a result exactly for what something is contributed to. -/
theorem isSome_iff (h : Gathers st r C) (k : ResultKey α) : r[k]?.isSome ↔ C k ≠ 0 := by
  constructor
  · intro hk h0
    rw [h.absent k h0] at hk
    cases hk
  · intro hk
    obtain ⟨g, -, -, hr⟩ := h.present k hk
    rw [hr]
    rfl

/-- A result gathers something, all of which lies within the edges of its site. -/
theorem exists_gather (h : Gathers st r C) {k : ResultKey α} {m : Marginals α}
    (hm : r[k]? = some m) : C k ≠ 0 ∧ ∃ g, st.grids[k.site]? = some g ∧
      (∀ c ∈ C k, c.Fits g st.regions.length) ∧ m = st.gather g (C k) := by
  have hne : C k ≠ 0 := (h.isSome_iff k).1 (by rw [hm]; rfl)
  obtain ⟨g, hg, hfits, hr⟩ := h.present k hne
  exact ⟨hne, g, hg, hfits, Option.some.inj (hm.symm.trans hr)⟩

/-- Results are determined by what they gather. -/
theorem toList_eq (h : Gathers st r C) (h' : Gathers st r' C) : r.toList = r'.toList := by
  refine Std.TreeMap.Equiv.toList_eq (Std.TreeMap.Equiv.of_forall_constGet?_eq fun k => ?_)
  by_cases hk : C k = 0
  · rw [h.absent k hk, h'.absent k hk]
  · obtain ⟨g, hg, -, hr⟩ := h.present k hk
    obtain ⟨g', hg', -, hr'⟩ := h'.present k hk
    rw [hg] at hg'
    cases hg'
    rw [hr, hr']

/-! ### One more result -/

variable {g : Grid α} {key : ResultKey α} {cs : Multiset (Contribution α)}

/-- One more result under a key adds its contributions there, and no shapes disagree. -/
theorem add (h : Gathers st r C) (hg : st.grids[key.site]? = some g) (hne : cs ≠ 0)
    (hfits : ∀ c ∈ cs, c.Fits g st.regions.length) :
    ∃ r', r.add key (st.gather g cs) = (r', none) ∧ Gathers st r' (C + Pi.single key cs) := by
  have hsum : (C + Pi.single key cs : Contributions α) key ≠ 0 := by
    rw [Pi.add_apply, Pi.single_eq_same]
    exact fun h0 => hne (Multiset.le_zero.1 (h0 ▸ Multiset.le_add_left cs (C key)))
  have hothers : ∀ k, k ≠ key → (C + Pi.single key cs : Contributions α) k = C k := by
    intro k hk
    rw [Pi.add_apply, Pi.single_eq_of_ne hk, add_zero]
  have hinsert : r.add key (st.gather g cs) = (r.insert key (st.gather g (C key + cs)), none) := by
    unfold Results.add
    by_cases hk : C key = 0
    · rw [h.absent key hk, hk, zero_add]
    · obtain ⟨g', hg', -, hr⟩ := h.present key hk
      rw [hg] at hg'
      cases hg'
      rw [hr]
      simp only [Setting.gather, Marginals.combine_ofFactors, factorsOf_add]
  refine ⟨_, hinsert, fun k hk => ?_, fun k hk => ?_⟩
  · have hne' : k ≠ key := by
      rintro rfl
      exact hsum hk
    rw [hothers k hne'] at hk
    rw [Std.TreeMap.getElem?_insert, if_neg, h.absent k hk]
    exact fun heq => hne' (Std.LawfulEqCmp.eq_of_compare heq).symm
  · by_cases hne' : k = key
    · subst hne'
      refine ⟨g, hg, ?_, ?_⟩
      · intro c hc
        rw [Pi.add_apply, Pi.single_eq_same, Multiset.mem_add] at hc
        rcases hc with hc | hc
        · obtain ⟨g', hg', hfits', -⟩ := h.present k fun h0 => by simp [h0] at hc
          rw [hg] at hg'
          cases hg'
          exact hfits' c hc
        · exact hfits c hc
      · rw [Std.TreeMap.getElem?_insert_self, Pi.add_apply, Pi.single_eq_same]
    · rw [hothers k hne'] at hk ⊢
      rw [Std.TreeMap.getElem?_insert, if_neg]
      · exact h.present k hk
      · exact fun heq => hne' (Std.LawfulEqCmp.eq_of_compare heq).symm

/-! ### Several more results -/

/-- Results of which each is about a key of its own. -/
theorem addAll (h : Gathers st r C) (h' : Gathers st r' C')
    {entries : List (ResultKey α × Marginals α)} (hnodup : (entries.map (·.1)).Nodup)
    (hentries : ∀ e ∈ entries, r'[e.1]? = some e.2) :
    ∃ r'', r.addAll entries = (r'', none) ∧
      Gathers st r'' fun k => C k + if k ∈ entries.map (·.1) then C' k else 0 := by
  induction entries generalizing r C with
  | nil => exact ⟨r, rfl, h.congr fun k => by simp⟩
  | cons e entries ih =>
    obtain ⟨key, m⟩ := e
    rw [List.map_cons, List.nodup_cons] at hnodup
    have hm : r'[key]? = some m := hentries (key, m) List.mem_cons_self
    obtain ⟨hkey, g, hg, hfits, hgather⟩ := h'.exists_gather hm
    obtain ⟨r₁, hadd, h₁⟩ := h.add hg hkey hfits
    obtain ⟨r₂, haddAll, h₂⟩ := ih h₁ hnodup.2 fun e he => hentries e (List.mem_cons_of_mem _ he)
    refine ⟨r₂, ?_, h₂.congr fun k => ?_⟩
    · rw [hgather, Results.addAll, hadd]
      exact haddAll
    · by_cases hk : k = key
      · subst hk
        simp [hnodup.1]
      · rw [Pi.add_apply, Pi.single_eq_of_ne hk, add_zero]
        simp only [List.map_cons, List.mem_cons, hk, false_or]

/-- The results of two sides taken together. -/
theorem union (h : Gathers st r C) (h' : Gathers st r' C') :
    ∃ r'', r.addAll r'.toList = (r'', none) ∧ Gathers st r'' (C + C') := by
  have hnodup : (r'.toList.map (·.1)).Nodup := by
    rw [Std.TreeMap.map_fst_toList_eq_keys]
    exact Std.TreeMap.nodup_keys
  have hentries : ∀ e ∈ r'.toList, r'[e.1]? = some e.2 := fun e he =>
    Std.TreeMap.mem_toList_iff_getElem?_eq_some.1 he
  obtain ⟨r'', haddAll, h''⟩ := h.addAll h' hnodup hentries
  refine ⟨r'', haddAll, h''.congr fun k => ?_⟩
  rw [Pi.add_apply]
  congr 1
  split
  · rfl
  · next hk =>
    by_contra h0
    have hsome := (h'.isSome_iff k).2 fun h => h0 h.symm
    obtain ⟨m, hm⟩ := Option.isSome_iff_exists.1 hsome
    exact hk (List.mem_map.2 ⟨(k, m), Std.TreeMap.mem_toList_iff_getElem?_eq_some.2 hm, rfl⟩)

end Results.Gathers

/-- Merging the results of a task adds its contributions. -/
theorem Reduction.merge_gathers {st : Setting α} {r : Reduction α} {p : PartialResult α}
    {C C' : Contributions α} (h : r.results.Gathers st C) (h' : p.results.Gathers st C') :
    ∃ r' : Reduction α, r.merge p = (r', none) ∧ r'.results.Gathers st (C + C') := by
  obtain ⟨results, haddAll, h''⟩ := h.union h'
  refine ⟨⟨results, r.merged + 1⟩, ?_, h''⟩
  unfold Reduction.merge
  rw [haddAll]

end

end SeismicHazard
