import Mathlib.Data.List.Dedup
import Mathlib.Data.List.Induction
import SeismicHazard.Arrangement
import SeismicHazard.Proofs.Fallible

/-!
# Arrangements that are kept

Whoever asks a cache for an arrangement gets what would be made, whatever the fingerprints are. Something
is made only if nothing that was made of equal probabilities is kept, which is so exactly if nothing was
asked for them before or all of that failed.

* `bucket_openBucket`, `bucket_keep`: what is kept under a fingerprint.
* `Keeps`, `getOrArrange_keeps`: what has one property stays with it.
* `Faithful`, `getOrArrange_eq_make`: if what is kept is what would be made, so is what one gets.
* `Served`, `serve`: calls one after another, and what was made of what on the way.
* `Knows.step_met`, `Knows.step_not_met`, `serve_knows`: after any calls the cache keeps what was asked
  for with success.
-/

namespace SeismicHazard.ArrangementCache

section

variable {φ α : Type} {n : ℕ} [BEq φ]

/-! ### Buckets -/

theorem lookup_changeBucket [LawfulBEq φ] (print q : φ)
    (f : List (Fin n × Marginals α) → List (Fin n × Marginals α))
    (buckets : List (φ × List (Fin n × Marginals α))) :
    ((changeBucket print f buckets).lookup q).getD [] =
      if q == print then f ((buckets.lookup q).getD []) else (buckets.lookup q).getD [] := by
  induction buckets with
  | nil =>
    rw [changeBucket]
    cases hq : q == print <;> simp [List.lookup_cons, hq]
  | cons b buckets ih =>
    obtain ⟨p, kept⟩ := b
    rw [changeBucket]
    split
    · next hp =>
      obtain rfl := eq_of_beq hp
      cases hq : q == print <;> simp [List.lookup_cons, hq]
    · next hp =>
      cases hq : q == p with
      | true =>
        obtain rfl := eq_of_beq hq
        have hne : (q == print) = false := by
          rw [BEq.comm]
          exact Bool.eq_false_iff.2 hp
        simp [hne]
      | false => simpa [List.lookup_cons, hq] using ih

theorem size_changeBucket {print : φ} {k : ℕ}
    {f : List (Fin n × Marginals α) → List (Fin n × Marginals α)}
    (hf : ∀ kept, (f kept).length = kept.length + k)
    (buckets : List (φ × List (Fin n × Marginals α))) :
    size ⟨changeBucket print f buckets⟩ = size ⟨buckets⟩ + k := by
  induction buckets with
  | nil => simp [size, changeBucket, hf]
  | cons b buckets ih =>
    obtain ⟨p, kept⟩ := b
    rw [changeBucket]
    simp only [size] at ih ⊢
    split
    · simp only [List.flatMap_cons, List.length_append, hf]
      omega
    · simp only [List.flatMap_cons, List.length_append, ih]
      omega

variable {c : ArrangementCache φ α n} {print : φ}

@[simp]
theorem bucket_empty : (empty : ArrangementCache φ α n).bucket print = [] := rfl

@[simp]
theorem size_openBucket : (c.openBucket print).size = c.size := by
  have hsame : ∀ kept : List (Fin n × Marginals α), (id kept).length = kept.length + 0 :=
    fun _ => rfl
  exact size_changeBucket hsame c.buckets

@[simp]
theorem size_keep {i : Fin n} {m : Marginals α} : (c.keep print i m).size = c.size + 1 :=
  size_changeBucket (fun kept => by simp) c.buckets

variable [LawfulBEq φ] {q : φ}

@[simp]
theorem bucket_openBucket : (c.openBucket print).bucket q = c.bucket q := by
  have h := lookup_changeBucket print q id c.buckets
  rw [id, ite_self] at h
  exact h

theorem bucket_keep {i : Fin n} {m : Marginals α} : (c.keep print i m).bucket q =
    if q == print then c.bucket q ++ [(i, m)] else c.bucket q :=
  lookup_changeBucket print q (· ++ [(i, m)]) c.buckets

theorem mem_bucket_keep {i : Fin n} {m : Marginals α} {e : Fin n × Marginals α} :
    e ∈ (c.keep print i m).bucket q ↔ e ∈ c.bucket q ∨ q = print ∧ e = (i, m) := by
  rw [bucket_keep]
  split
  · next hq => simp [eq_of_beq hq]
  · next hq => simp [show q ≠ print by simpa using hq]

end

/-! ### One call -/

section

variable {φ α : Type} [BEq φ] [BEq α] {fingerprint : List α → φ} {arrays : List (List α)}
  {c : ArrangementCache φ α arrays.length} {i : Fin arrays.length}

/-- What is kept of probabilities that are equal to those asked for. -/
def found? (c : ArrangementCache φ α arrays.length) (fingerprint : List α → φ)
    (i : Fin arrays.length) : Option (Marginals α) :=
  ((c.bucket (fingerprint (arrays.get i))).find? fun e => arrays.get e.1 == arrays.get i).map (·.2)

/-- The cache after something was made. -/
def afterMaking (c : ArrangementCache φ α arrays.length) (fingerprint : List α → φ)
    (i : Fin arrays.length) : Except (Error α) (Marginals α) → ArrangementCache φ α arrays.length
  | .ok made => (c.openBucket (fingerprint (arrays.get i))).keep (fingerprint (arrays.get i)) i made
  | .error _ => c.openBucket (fingerprint (arrays.get i))

variable [LawfulBEq φ] {m : Type → Type} [Monad m]
  {make : List α → m (Except (Error α) (Marginals α))}

/-- What is kept is handed out, and nothing is made. -/
theorem getOrArrange_of_found {kept : Marginals α} (h : c.found? fingerprint i = some kept) :
    c.getOrArrange fingerprint make arrays i =
      pure (.ok kept, c.openBucket (fingerprint (arrays.get i))) := by
  obtain ⟨e, he, rfl⟩ := Option.map_eq_some_iff.1 h
  unfold getOrArrange
  simp only [bucket_openBucket, he]

/-- Otherwise it is made, and kept if that succeeds. -/
theorem getOrArrange_of_not_found (h : c.found? fingerprint i = none) :
    c.getOrArrange fingerprint make arrays i =
      (do let made ← make (arrays.get i); return (made, c.afterMaking fingerprint i made)) := by
  have hnone := Option.map_eq_none_iff.1 h
  unfold getOrArrange
  simp only [bucket_openBucket, hnone]
  refine congrArg (make (arrays.get i) >>= ·) (funext fun made => ?_)
  cases made <;> rfl

end

/-! ### What one gets -/

section

variable {φ α : Type} [BEq φ] {arrays : List (List α)}

/-- Whether all kept arrangements have a property, which may speak of their places. -/
def Keeps {n : ℕ} (c : ArrangementCache φ α n) (P : Fin n → Marginals α → Prop) : Prop :=
  ∀ print, ∀ e ∈ c.bucket print, P e.1 e.2

theorem keeps_empty {n : ℕ} (P : Fin n → Marginals α → Prop) :
    (empty : ArrangementCache φ α n).Keeps P :=
  fun _ _ he => absurd he List.not_mem_nil

/-- What is kept is what would be made of the probabilities at its place. -/
def Faithful (c : ArrangementCache φ α arrays.length)
    (make : List α → Except (Error α) (Marginals α)) : Prop :=
  c.Keeps fun i m => make (arrays.get i) = .ok m

variable [LawfulBEq φ] {fingerprint : List α → φ} {c : ArrangementCache φ α arrays.length}
  {i : Fin arrays.length} {P : Fin arrays.length → Marginals α → Prop}

theorem Keeps.openBucket (h : c.Keeps P) {print : φ} : (c.openBucket print).Keeps P := by
  intro q e he
  rw [bucket_openBucket] at he
  exact h q e he

theorem Keeps.afterMaking (h : c.Keeps P) {made : Except (Error α) (Marginals α)}
    (hmade : ∀ m, made = .ok m → P i m) : (c.afterMaking fingerprint i made).Keeps P := by
  intro q e he
  cases made with
  | error _ => exact h.openBucket q e he
  | ok m =>
    rw [ArrangementCache.afterMaking, mem_bucket_keep] at he
    rcases he with he | ⟨-, rfl⟩
    · exact h.openBucket q e he
    · exact hmade m rfl

variable [BEq α] {make : List α → Except (Error α) (Marginals α)}

/-- What is handed out and kept has the properties of what is kept and made, even where a number differs
from itself. -/
theorem getOrArrange_keeps (h : c.Keeps P) (fingerprint : List α → φ)
    (hmake : ∀ m, make (arrays.get i) = .ok m → P i m) :
    (∀ m, (c.getOrArrange (m := Id) fingerprint make arrays i).1 = .ok m → ∃ j, P j m) ∧
      (c.getOrArrange (m := Id) fingerprint make arrays i).2.Keeps P := by
  cases hfound : c.found? fingerprint i with
  | some kept =>
    rw [getOrArrange_of_found hfound]
    obtain ⟨e, he, rfl⟩ := Option.map_eq_some_iff.1 hfound
    refine ⟨fun m hm => ⟨e.1, ?_⟩, h.openBucket⟩
    cases hm
    exact h _ e (List.mem_of_find?_eq_some he)
  | none =>
    rw [getOrArrange_of_not_found hfound]
    exact ⟨fun m hm => ⟨i, hmake m hm⟩, h.afterMaking hmake⟩

variable [LawfulBEq α]

omit [LawfulBEq φ] in
theorem Faithful.make_of_found (h : c.Faithful make) {kept : Marginals α}
    (hfound : c.found? fingerprint i = some kept) : make (arrays.get i) = .ok kept := by
  obtain ⟨e, he, rfl⟩ := Option.map_eq_some_iff.1 hfound
  have hsame := List.find?_some he
  rw [beq_iff_eq] at hsame
  rw [← hsame]
  exact h _ e (List.mem_of_find?_eq_some he)

/-- One gets what would be made, whatever the fingerprints are, and the cache stays faithful. -/
theorem getOrArrange_eq_make (h : c.Faithful make) (fingerprint : List α → φ) (i : Fin arrays.length) :
    (c.getOrArrange (m := Id) fingerprint make arrays i).1 = make (arrays.get i) ∧
      (c.getOrArrange (m := Id) fingerprint make arrays i).2.Faithful make := by
  refine ⟨?_, (getOrArrange_keeps h fingerprint fun _ hm => hm).2⟩
  cases hfound : c.found? fingerprint i with
  | some kept =>
    rw [getOrArrange_of_found hfound]
    exact (h.make_of_found hfound).symm
  | none =>
    rw [getOrArrange_of_not_found hfound]
    rfl

end

/-! ### Calls one after another -/

section

variable {φ α : Type} [BEq φ] [BEq α]

/-- An arrangement that notes what it is asked for. -/
def noted (make : List α → Except (Error α) (Marginals α)) (xs : List α) :
    StateM (List (List α)) (Except (Error α) (Marginals α)) := do
  modify (· ++ [xs])
  return make xs

/-- What was answered to calls, the cache after them, and what was made of what on the way. -/
structure Served (φ α : Type) (n : ℕ) where
  answers : List (Except (Error α) (Marginals α))
  cache : ArrangementCache φ α n
  passed : List (List α)

/-- One more call. -/
def Served.next (fingerprint : List α → φ) (make : List α → Except (Error α) (Marginals α))
    (arrays : List (List α)) (s : Served φ α arrays.length) (i : Fin arrays.length) :
    Served φ α arrays.length :=
  let ((answer, cache), passed) :=
    (s.cache.getOrArrange fingerprint (noted make) arrays i).run s.passed
  ⟨s.answers ++ [answer], cache, passed⟩

/-- Calls for the lists at several places, from the first one on. -/
def serve (fingerprint : List α → φ) (make : List α → Except (Error α) (Marginals α))
    (arrays : List (List α)) (calls : List (Fin arrays.length)) : Served φ α arrays.length :=
  calls.foldl (Served.next fingerprint make arrays) ⟨[], .empty, []⟩

variable {fingerprint : List α → φ} {make : List α → Except (Error α) (Marginals α)}
  {arrays : List (List α)}

theorem serve_append_singleton (calls : List (Fin arrays.length)) (i : Fin arrays.length) :
    serve fingerprint make arrays (calls ++ [i]) =
      (serve fingerprint make arrays calls).next fingerprint make arrays i := by
  rw [serve, List.foldl_append]
  rfl

variable [LawfulBEq φ] {s : Served φ α arrays.length} {i : Fin arrays.length}

theorem next_of_found {kept : Marginals α} (h : s.cache.found? fingerprint i = some kept) :
    s.next fingerprint make arrays i =
      ⟨s.answers ++ [.ok kept], s.cache.openBucket (fingerprint (arrays.get i)), s.passed⟩ := by
  rw [Served.next, getOrArrange_of_found h]
  rfl

theorem next_of_not_found (h : s.cache.found? fingerprint i = none) :
    s.next fingerprint make arrays i = ⟨s.answers ++ [make (arrays.get i)],
      s.cache.afterMaking fingerprint i (make (arrays.get i)), s.passed ++ [arrays.get i]⟩ := by
  rw [Served.next, getOrArrange_of_not_found h]
  rfl

end

section

variable {φ α : Type} [BEq φ] {arrays : List (List α)}
  {make : List α → Except (Error α) (Marginals α)}

/-- Whether one of the calls was for the given probabilities and succeeded. -/
def Met (make : List α → Except (Error α) (Marginals α)) (arrays : List (List α))
    (calls : List (Fin arrays.length)) (xs : List α) : Prop :=
  ∃ j ∈ calls, arrays.get j = xs ∧ (make xs).toBool = true

theorem met_append_iff {calls : List (Fin arrays.length)} {i : Fin arrays.length} {xs : List α} :
    Met make arrays (calls ++ [i]) xs ↔
      Met make arrays calls xs ∨ arrays.get i = xs ∧ (make xs).toBool = true := by
  simp only [Met, List.mem_append, List.mem_singleton, or_and_right, exists_or, exists_eq_left]

/-- The different lists that were asked for with success. -/
def succeeded [DecidableEq α] (make : List α → Except (Error α) (Marginals α))
    (arrays : List (List α)) (calls : List (Fin arrays.length)) : List (List α) :=
  ((calls.map fun i => arrays.get i).filter fun xs => (make xs).toBool).dedup

variable [DecidableEq α]

theorem mem_succeeded {calls : List (Fin arrays.length)} {xs : List α} :
    xs ∈ succeeded make arrays calls ↔ Met make arrays calls xs := by
  simp only [succeeded, List.mem_dedup, List.mem_filter, List.mem_map, Met]
  constructor
  · rintro ⟨⟨j, hj, hxs⟩, hmake⟩
    exact ⟨j, hj, hxs, hmake⟩
  · rintro ⟨j, hj, hxs, hmake⟩
    exact ⟨⟨j, hj, hxs⟩, hmake⟩

/-- One more call adds its list if it succeeds and is new. -/
theorem length_succeeded_of_new {calls : List (Fin arrays.length)} {i : Fin arrays.length}
    (hmake : (make (arrays.get i)).toBool = true) (hnew : ¬ Met make arrays calls (arrays.get i)) :
    (succeeded make arrays (calls ++ [i])).length = (succeeded make arrays calls).length + 1 := by
  rw [← mem_succeeded, succeeded, List.mem_dedup] at hnew
  unfold succeeded
  rw [List.map_append, List.filter_append, List.map_singleton, List.filter_singleton, hmake, cond_true,
    (List.perm_append_singleton _ _).dedup.length_eq, List.dedup_cons_of_notMem hnew]
  rfl

theorem length_succeeded_of_met {calls : List (Fin arrays.length)} {i : Fin arrays.length}
    (hmet : Met make arrays calls (arrays.get i)) :
    (succeeded make arrays (calls ++ [i])).length = (succeeded make arrays calls).length := by
  have hmake := hmet.choose_spec.2.2
  rw [← mem_succeeded, succeeded, List.mem_dedup] at hmet
  unfold succeeded
  rw [List.map_append, List.filter_append, List.map_singleton, List.filter_singleton, hmake, cond_true,
    (List.perm_append_singleton _ _).dedup.length_eq, List.dedup_cons_of_mem hmet]

theorem succeeded_of_failed (calls : List (Fin arrays.length)) {i : Fin arrays.length}
    (hmake : (make (arrays.get i)).toBool = false) :
    succeeded make arrays (calls ++ [i]) = succeeded make arrays calls := by
  unfold succeeded
  rw [List.map_append, List.filter_append, List.map_singleton, List.filter_singleton, hmake, cond_false,
    List.append_nil]

/-- What holds after calls: everything was answered as if it were made, the cache keeps what was asked
for with success, and as much as that. -/
structure Knows (fingerprint : List α → φ) (make : List α → Except (Error α) (Marginals α))
    (arrays : List (List α)) (calls : List (Fin arrays.length)) (s : Served φ α arrays.length) :
    Prop where
  answers : s.answers = calls.map fun i => make (arrays.get i)
  faithful : s.cache.Faithful make
  kept : ∀ xs, (∃ e ∈ s.cache.bucket (fingerprint xs), arrays.get e.1 = xs) ↔ Met make arrays calls xs
  size : s.cache.size = (succeeded make arrays calls).length

variable {fingerprint : List α → φ} {calls : List (Fin arrays.length)}
  {s : Served φ α arrays.length} {i : Fin arrays.length}

theorem isSome_found?_iff {c : ArrangementCache φ α arrays.length} :
    (c.found? fingerprint i).isSome ↔
      ∃ e ∈ c.bucket (fingerprint (arrays.get i)), arrays.get e.1 = arrays.get i := by
  simp [found?]

variable [LawfulBEq φ]

/-- A call for what was asked for before with success. -/
theorem Knows.step_met (h : Knows fingerprint make arrays calls s)
    (hmet : Met make arrays calls (arrays.get i)) :
    Knows fingerprint make arrays (calls ++ [i]) (s.next fingerprint make arrays i) ∧
      (s.next fingerprint make arrays i).passed = s.passed := by
  obtain ⟨kept, hfound⟩ := Option.isSome_iff_exists.1 (isSome_found?_iff.2 ((h.kept _).2 hmet))
  rw [next_of_found hfound]
  refine ⟨⟨?_, Keeps.openBucket h.faithful, fun xs => ?_, ?_⟩, rfl⟩
  · rw [List.map_append, ← h.answers, ← h.faithful.make_of_found hfound]
    rfl
  · rw [met_append_iff, bucket_openBucket, h.kept]
    constructor
    · exact .inl
    · rintro (hxs | ⟨rfl, -⟩)
      · exact hxs
      · exact hmet
  · rw [length_succeeded_of_met hmet, size_openBucket, h.size]

/-- A call for anything else. -/
theorem Knows.step_not_met (h : Knows fingerprint make arrays calls s)
    (hmet : ¬ Met make arrays calls (arrays.get i)) :
    Knows fingerprint make arrays (calls ++ [i]) (s.next fingerprint make arrays i) ∧
      (s.next fingerprint make arrays i).passed = s.passed ++ [arrays.get i] := by
  have hfound : s.cache.found? fingerprint i = none := by
    rw [← Option.not_isSome_iff_eq_none, isSome_found?_iff, h.kept]
    exact hmet
  rw [next_of_not_found hfound]
  refine ⟨⟨?_, h.faithful.afterMaking fun _ hm => hm, fun xs => ?_, ?_⟩, rfl⟩
  · rw [List.map_append, ← h.answers]
    rfl
  · rw [met_append_iff, ← h.kept]
    cases hmade : make (arrays.get i) with
    | error e =>
      rw [afterMaking, bucket_openBucket]
      constructor
      · exact .inl
      · rintro (hxs | ⟨rfl, hxs⟩)
        · exact hxs
        · rw [hmade] at hxs
          cases hxs
    | ok made =>
      simp only [afterMaking, mem_bucket_keep, bucket_openBucket]
      constructor
      · rintro ⟨e, he | ⟨-, rfl⟩, rfl⟩
        · exact .inl ⟨e, he, rfl⟩
        · exact .inr ⟨rfl, by rw [hmade]; rfl⟩
      · rintro (⟨e, he, rfl⟩ | ⟨rfl, -⟩)
        · exact ⟨e, .inl he, rfl⟩
        · exact ⟨(i, made), .inr ⟨rfl, rfl⟩, rfl⟩
  · cases hmade : make (arrays.get i) with
    | error e =>
      rw [succeeded_of_failed calls (by rw [hmade]; rfl), ← h.size, afterMaking, size_openBucket]
    | ok made =>
      rw [length_succeeded_of_new (by rw [hmade]; rfl) hmet, ← h.size, afterMaking, size_keep,
        size_openBucket]

theorem serve_knows (calls : List (Fin arrays.length)) :
    Knows fingerprint make arrays calls (serve fingerprint make arrays calls) := by
  induction calls using List.reverseRecOn with
  | nil => exact ⟨rfl, keeps_empty _, fun xs => by simp [serve, Met], rfl⟩
  | append_singleton calls i ih =>
    rw [serve_append_singleton]
    by_cases hmet : Met make arrays calls (arrays.get i)
    · exact (ih.step_met hmet).1
    · exact (ih.step_not_met hmet).1

end

end SeismicHazard.ArrangementCache
