import SeismicHazard.Proofs.Number.Double
import SeismicHazard.Proofs.Result.KeyOrder

/-!
# Keys of bit patterns

A double in a key is compared and hashed by its bit pattern, and every pattern may stand there, also one
that is no number or a zero with a sign. Keys of patterns are lawfully ordered, and they are hashed by
the same values exactly if they are equal.

* `ResultKey.patterns`: a key with the patterns of its numbers.
* `ResultKey.hashInputs_inj`: what a key is hashed by tells it.
* `ResultKey.Collected`: what a map is that results are inserted into.
* `ResultKey.lawfully_ordered`: the laws of keys, and what follows for maps.
-/

namespace SeismicHazard.ResultKey

open Std (TreeMap)

/-- The key with the bit patterns of its numbers. -/
def patterns {α : Type} [BitPattern α] (k : ResultKey α) : ResultKey UInt64 where
  site := k.site
  realization := k.realization
  poe := k.poe.map BitPattern.toBits
  imt := k.imt
  level := BitPattern.toBits k.level
  regions := k.regions

/-- Keys of doubles are compared by their patterns. -/
theorem compare_patterns (a b : ResultKey Float) : compare a.patterns b.patterns = compare a b := by
  have hpoe : compareOption TotalOrder.cmp a.patterns.poe b.patterns.poe =
      compareOption TotalOrder.cmp a.poe b.poe := by
    unfold patterns
    cases a.poe <;> cases b.poe <;> rfl
  unfold compare
  rw [hpoe]
  rfl

theorem hashInputs_patterns {α : Type} [BitPattern α] (k : ResultKey α) :
    k.patterns.hashInputs = k.hashInputs := by
  have hpoe : optionInputs k.patterns.poe = optionInputs k.poe := by
    unfold patterns
    cases k.poe <;> rfl
  unfold hashInputs
  rw [hpoe]
  rfl

/-! ### Hashing -/

variable {a b : ResultKey UInt64}

/-- The first of the values of an optional pattern tells how many follow, so that they can be told from
what comes after them. -/
theorem optionInputs_append_inj {x y : Option UInt64} {xs ys : List HashInput} :
    optionInputs x ++ xs = optionInputs y ++ ys ↔ x = y ∧ xs = ys := by
  cases x <;> cases y <;> simp [optionInputs, BitPattern.toBits]

/-- Keys that are hashed by the same values are equal. -/
theorem hashInputs_inj : a.hashInputs = b.hashInputs ↔ a = b := by
  constructor
  · intro h
    simp only [hashInputs, List.append_assoc, List.cons_append, List.nil_append, List.cons.injEq,
      HashInput.number.injEq, HashInput.text.injEq, HashInput.bits.injEq,
      optionInputs_append_inj] at h
    obtain ⟨hsite, hrealization, hpoe, himt, hlevel, -, hregions⟩ := h
    have hregions := (List.map_inj_right fun _ _ => HashInput.text.inj).1 hregions
    cases a
    cases b
    congr
  · rintro rfl
    rfl

/-! ### Equality -/

theorem same_iff : same a b ↔ a = b := by
  rw [same, beq_iff_eq]
  exact Std.LawfulEqCmp.compare_eq_iff_eq

theorem eq_iff : a = b ↔ a.site = b.site ∧ a.realization = b.realization ∧ a.poe = b.poe ∧
    a.imt = b.imt ∧ a.level = b.level ∧ a.regions = b.regions := by
  cases a
  cases b
  simp

/-! ### Maps -/

/-- Whether a map is what remains of a sequence of insertions: its keys ascend, each key that was
inserted is there once and no other, with the value that was inserted last. -/
structure Collected {β : Type} (insertions : List (ResultKey UInt64 × β))
    (m : TreeMap (ResultKey UInt64) β compare) : Prop where
  ascend : m.keys.Pairwise fun a b => compare a b = .lt
  once : ∀ k, m.keys.count k = if k ∈ insertions.map (·.1) then 1 else 0
  last : ∀ k, m[k]? = (insertions.reverse.find? fun e => same e.1 k).map (·.2)

section

variable {β : Type} {insertions : List (ResultKey UInt64 × β)}
  {m : TreeMap (ResultKey UInt64) β compare}

theorem getElem?_foldl_insert (insertions : List (ResultKey UInt64 × β)) (k : ResultKey UInt64) :
    (insertions.foldl (fun m e => m.insert e.1 e.2) (∅ : TreeMap _ β compare))[k]? =
      (insertions.reverse.find? fun e => same e.1 k).map (·.2) := by
  induction insertions using List.reverseRecOn with
  | nil => exact TreeMap.getElem?_emptyc
  | append_singleton insertions e ih =>
    rw [List.foldl_append, List.foldl_cons, List.foldl_nil, TreeMap.getElem?_insert, ih,
      List.reverse_append, List.reverse_singleton, List.singleton_append, List.find?_cons]
    by_cases he : compare e.1 k = .eq
    · rw [if_pos he, same, he]
      rfl
    · rw [if_neg he, show same e.1 k = false from beq_eq_false_iff_ne.2 he]

theorem collected_foldl_insert (insertions : List (ResultKey UInt64 × β)) :
    Collected insertions (insertions.foldl (fun m e => m.insert e.1 e.2) ∅) where
  ascend := TreeMap.ordered_keys
  once k := by
    rw [TreeMap.nodup_keys.count]
    congr 1
    rw [TreeMap.mem_keys, TreeMap.mem_iff_isSome_getElem?, getElem?_foldl_insert]
    simp [same_iff]
  last := getElem?_foldl_insert insertions

end

/-- Keys of bit patterns, which may be any, are lawfully ordered. The patterns are in their total order.
Comparing keys is reflexive, reversed when they are swapped, antisymmetric and transitive. Two keys are
the same exactly if all six fields are equal, and exactly if they are hashed by the same values. The keys
of a calculation, which runs on doubles, are compared and hashed by their patterns. A map that results
are inserted into has every key once, in ascending order, and the value that was inserted last. -/
theorem lawfully_ordered :
    (∀ x y : UInt64, TotalOrder.cmp x y = .lt ↔ Double.Precedes x y) ∧
    (∀ a : ResultKey UInt64, compare a a = .eq) ∧
    (∀ a b : ResultKey UInt64, compare b a = (compare a b).swap) ∧
    (∀ a b : ResultKey UInt64, (compare a b).isLE → (compare b a).isLE → same a b) ∧
    (∀ a b c : ResultKey UInt64,
      (compare a b).isLE → (compare b c).isLE → (compare a c).isLE) ∧
    (∀ a b : ResultKey UInt64, same a b ↔ a.site = b.site ∧ a.realization = b.realization ∧
      a.poe = b.poe ∧ a.imt = b.imt ∧ a.level = b.level ∧ a.regions = b.regions) ∧
    (∀ a b : ResultKey UInt64, same a b ↔ a.hashInputs = b.hashInputs) ∧
    (∀ a b : ResultKey Float, compare a.patterns b.patterns = compare a b ∧
      a.patterns.hashInputs = a.hashInputs) ∧
    ∀ (β : Type) (insertions : List (ResultKey UInt64 × β)),
      Collected insertions (insertions.foldl (fun m e => m.insert e.1 e.2) ∅) := by
  refine ⟨fun x y => Double.compareBits_eq_lt, fun a => Std.ReflCmp.compare_self,
    fun a b => Std.OrientedCmp.eq_swap, fun a b hab hba => ?_, fun a b c => Std.TransCmp.isLE_trans,
    fun a b => same_iff.trans eq_iff, fun a b => same_iff.trans hashInputs_inj.symm,
    fun a b => ⟨compare_patterns a b, hashInputs_patterns a⟩,
    fun β insertions => collected_foldl_insert insertions⟩
  rw [same_iff]
  exact Std.LawfulEqCmp.eq_of_compare (Std.OrientedCmp.isLE_antisymm hab hba)

/-- A key without a threshold comes before one whose threshold is no number with a sign, and this one
before one with the threshold zero. -/
theorem lawfully_ordered_sample : ∃ a b c : ResultKey UInt64, a.poe = none ∧
    b.poe = some 0xfff8000000000000 ∧ c.poe = some 0 ∧ (compare a b).isLE ∧ (compare b c).isLE ∧
    (compare a c).isLE := by
  let key (poe : Option UInt64) : ResultKey UInt64 := ⟨0, 0, poe, "PGA", 0, []⟩
  obtain ⟨-, -, -, -, htrans, -⟩ := lawfully_ordered
  have hab : (compare (key none) (key (some 0xfff8000000000000))).isLE := by decide +kernel
  have hbc : (compare (key (some 0xfff8000000000000)) (key (some 0))).isLE := by decide +kernel
  exact ⟨key none, _, _, rfl, rfl, rfl, hab, hbc, htrans _ _ _ hab hbc⟩

/-- Thresholds in ascending order: none, what is no number with a sign, the two zeros, what is no
number. The zero without a sign is inserted twice. -/
example : ([some 0, none, some 0x7ff8000000000000, some 0x8000000000000000, some 0xfff8000000000000,
    some 0].foldl (fun m poe => m.insert ⟨0, 0, poe, "PGA", 0, []⟩ poe)
      (∅ : TreeMap (ResultKey UInt64) (Option UInt64) compare)).values =
    [none, some 0xfff8000000000000, some 0x8000000000000000, some 0, some 0x7ff8000000000000] := by
  decide +kernel

end SeismicHazard.ResultKey
