import SeismicHazard.Proofs.Number.Double
import SeismicHazard.Record

/-!
# Names tell results apart

A name is put together without escapes from numbers, which may have minus signs in them, and an intensity
measure type, which may be any text. It can be read all the same: no number has an `r` in it, so that the
first `r` behind a threshold opens the realization; the realization is digits up to the next minus; and
the place is the same for all results of a site.

* `Layout.text_inj`: finite numbers with the same text are the same.
* `ResultKey.eq_of_recordName_eq`: what two results with the same name share.
* `ResultKey.recordName_eq_iff`: the results of a place with the same name.
-/

namespace SeismicHazard

section

variable {α : Type} [Scalar α] [DecimalText α] [DistinctDecimals α]

namespace Layout

variable {l : Layout} {x y : α}

theorem text_inj (hx : Scalar.isFinite x) (hy : Scalar.isFinite y) (h : l.text x = l.text y) :
    x = y := by
  obtain ⟨d, hd, hreduced⟩ := DistinctDecimals.exists_decimal l.tie x hx
  obtain ⟨d', hd', hreduced'⟩ := DistinctDecimals.exists_decimal l.tie y hy
  unfold text at h
  rw [hd, hd'] at h
  apply DistinctDecimals.numeral_inj l.tie x y hx hy
  rw [hd, hd', write_finite_inj hreduced hreduced' h]

theorem r_notMem_text (hx : Scalar.isFinite x) : 'r' ∉ (l.text x).toList := by
  obtain ⟨d, hd, -⟩ := DistinctDecimals.exists_decimal l.tie x hx
  unfold text
  rw [hd]
  intro hmem
  rcases mem_write hmem with hdigit | hmem
  · exact absurd hdigit (by decide)
  · exact absurd hmem (by decide)

end Layout

namespace ResultKey

variable {k k' : ResultKey α} {place : Point α}

theorem minus_notMem_repr (n : ℕ) : '-' ∉ n.repr.toList := by
  rw [Nat.toList_repr]
  intro hmem
  exact absurd (Nat.isDigit_of_mem_toDigits (by omega) (by omega) hmem) (by decide)

/-- What stands between a threshold and the place. -/
def realizationChars (k : ResultKey α) : List Char :=
  'l' :: 'z' :: '-' :: k.realization.repr.toList ++ '-' :: k.imt.toList

omit [Scalar α] [DecimalText α] [DistinctDecimals α] in
theorem realizationChars_inj (h : k.realizationChars = k'.realizationChars) :
    k.realization = k'.realization ∧ k.imt = k'.imt := by
  simp only [realizationChars, List.cons_append, List.cons.injEq, true_and] at h
  obtain ⟨hrealization, himt⟩ := eq_and_eq_of_append_cons_eq (minus_notMem_repr _)
    (minus_notMem_repr _) h
  rw [Nat.toList_repr, Nat.toList_repr] at hrealization
  exact ⟨toDigits_inj hrealization, String.toList_inj.1 himt⟩

omit [Scalar α] [DistinctDecimals α] in
theorem toList_recordName (k : ResultKey α) (place : Point α) : (k.recordName place).toList =
    "disagg/".toList ++ ((poePart k.poe).toList ++ 'r' :: k.realizationChars) ++
      ("-" ++ nameLayout.text place.lon ++ "-" ++ nameLayout.text place.lat).toList := by
  delta recordName
  simp [realizationChars, String.toList_append]

omit [Scalar α] [DistinctDecimals α] in
theorem toList_poePart_some (p : α) : (poePart (some p)).toList =
    'p' :: 'o' :: 'e' :: '-' :: ((nameLayout.text p).toList ++ ['-']) := by
  simp [poePart, String.toList_append]

/-- Results of a place with the same name are about the same threshold, realization and intensity measure
type. -/
theorem eq_of_recordName_eq (hk : ∀ p ∈ k.poe, Scalar.isFinite p)
    (hk' : ∀ p ∈ k'.poe, Scalar.isFinite p) (h : k.recordName place = k'.recordName place) :
    k.poe = k'.poe ∧ k.realization = k'.realization ∧ k.imt = k'.imt := by
  have hchars := congrArg String.toList h
  rw [toList_recordName, toList_recordName] at hchars
  replace hchars := List.append_cancel_left (List.append_cancel_right hchars)
  cases hpoe : k.poe with
  | none =>
    cases hpoe' : k'.poe with
    | none =>
      rw [hpoe, hpoe'] at hchars
      exact ⟨rfl, realizationChars_inj (List.cons.inj (List.append_cancel_left hchars)).2⟩
    | some p' =>
      rw [hpoe, hpoe', toList_poePart_some] at hchars
      exact absurd (List.cons.inj hchars).1 (by decide)
  | some p =>
    cases hpoe' : k'.poe with
    | none =>
      rw [hpoe, hpoe', toList_poePart_some] at hchars
      exact absurd (List.cons.inj hchars).1 (by decide)
    | some p' =>
      have hp := hk p hpoe
      have hp' := hk' p' hpoe'
      rw [hpoe, hpoe', toList_poePart_some, toList_poePart_some] at hchars
      simp only [List.cons_append, List.cons.injEq, true_and] at hchars
      have hnotMem : ∀ {x : α}, Scalar.isFinite x → 'r' ∉ (nameLayout.text x).toList ++ ['-'] := by
        intro x hx hmem
        rcases List.mem_append.1 hmem with hmem | hmem
        · exact Layout.r_notMem_text hx hmem
        · exact absurd hmem (by decide)
      obtain ⟨htext, hrest⟩ := eq_and_eq_of_append_cons_eq (hnotMem hp) (hnotMem hp') hchars
      have hpp' := Layout.text_inj hp hp' (String.toList_inj.1 (List.append_cancel_right htext))
      exact ⟨congrArg some hpp', realizationChars_inj hrest⟩

/-- The results of a place have the same name exactly if they are about the same threshold, realization and
intensity measure type, whatever characters stand in the latter. -/
theorem recordName_eq_iff (hk : ∀ p ∈ k.poe, Scalar.isFinite p)
    (hk' : ∀ p ∈ k'.poe, Scalar.isFinite p) :
    k.recordName place = k'.recordName place ↔
      k.poe = k'.poe ∧ k.realization = k'.realization ∧ k.imt = k'.imt := by
  constructor
  · exact eq_of_recordName_eq hk hk'
  · rintro ⟨hpoe, hrealization, himt⟩
    apply String.toList_inj.1
    rw [toList_recordName, toList_recordName, realizationChars, realizationChars, hpoe, hrealization,
      himt]

/-- An intensity measure type that looks like the rest of a name does not make it ambiguous. -/
theorem recordName_eq_iff_sample :
    let place : Point Float := ⟨-70.5, 18, 0⟩
    let k : ResultKey Float := ⟨0, 1, some 2e-5, "05-rlz-1-PGA", 0.25, []⟩
    let k' : ResultKey Float := ⟨0, 1, some 0.02, "PGA", 0.25, []⟩
    Scalar.isFinite (2e-5 : Float) ∧ Scalar.isFinite (0.02 : Float) ∧
      k.recordName place = "disagg/poe-2e-05-rlz-1-05-rlz-1-PGA--70.5-18.0" ∧
      k.recordName place ≠ k'.recordName place := by
  have hfinite : Scalar.isFinite (2e-5 : Float) ∧ Scalar.isFinite (0.02 : Float) := by
    decide +kernel
  refine ⟨hfinite.1, hfinite.2, by decide +kernel, ?_⟩
  intro h
  have hk : ∀ p ∈ some (2e-5 : Float), Scalar.isFinite p := by
    intro p hp
    exact Option.mem_some.1 hp ▸ hfinite.1
  have hk' : ∀ p ∈ some (0.02 : Float), Scalar.isFinite p := by
    intro p hp
    exact Option.mem_some.1 hp ▸ hfinite.2
  exact absurd ((recordName_eq_iff hk hk').1 h).2.2 (by decide)

end ResultKey

end

end SeismicHazard
