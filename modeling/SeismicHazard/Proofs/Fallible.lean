import Mathlib.Data.List.Forall2

/-!
# Computations that may fail, one after the other

* `mapM_eq_ok_iff`: when a list of computations succeeds, and with which values.
* `mapM_eq_map`: if every member has a known value, then so has the list.
* `exists_mapM_eq_ok_iff`: a list succeeds exactly if every member does.
* `foldlM_eq_ok_iff`: when steps that change a state succeed, and what they leave behind.
* `forIn_eq_foldlM`: a loop that is never left early is a fold of its steps.
* `foldlM_keeps`: steps that succeed and keep a property do so together.
* `keeps_of_foldlM`: the same where it is given that all steps succeed.
* `foldlM_eq_error_iff`: which step fails first.
-/

namespace SeismicHazard.Fallible

variable {ε β γ σ : Type}

theorem bind_eq_ok {x : Except ε β} {f : β → Except ε γ} {c : γ} :
    (x >>= f) = .ok c ↔ ∃ b, x = .ok b ∧ f b = .ok c := by
  cases x with
  | error e =>
    constructor
    · intro h
      cases h
    · rintro ⟨b, hb, -⟩
      cases hb
  | ok b =>
    constructor
    · intro h
      exact ⟨b, rfl, h⟩
    · rintro ⟨b', hb, h⟩
      cases hb
      exact h

theorem mapError_eq_ok {ε' : Type} {x : Except ε β} {f : ε → ε'} {b : β} :
    x.mapError f = .ok b ↔ x = .ok b := by
  cases x with
  | error e =>
    constructor
    · intro h
      cases h
    · intro h
      cases h
  | ok y =>
    constructor
    · intro h
      cases h
      rfl
    · intro h
      cases h
      rfl

theorem toOption_eq_some {x : Except ε β} {b : β} : x.toOption = some b ↔ x = .ok b := by
  cases x <;> simp [Except.toOption]

theorem exists_of_toBool {x : Except ε β} (h : x.toBool = true) : ∃ b, x = .ok b := by
  cases x with
  | error e => cases h
  | ok b => exact ⟨b, rfl⟩

theorem mapM_nil (f : β → Except ε γ) : ([] : List β).mapM f = .ok [] := rfl

theorem mapM_cons (f : β → Except ε γ) (x : β) (xs : List β) :
    (x :: xs).mapM f = (f x >>= fun y => xs.mapM f >>= fun ys => .ok (y :: ys)) := by
  rw [List.mapM_cons]
  rfl

theorem mapM_cons_eq_ok {f : β → Except ε γ} {x : β} {xs : List β} {zs : List γ} :
    (x :: xs).mapM f = .ok zs ↔ ∃ y ys, f x = .ok y ∧ xs.mapM f = .ok ys ∧ zs = y :: ys := by
  simp only [mapM_cons, bind_eq_ok]
  constructor
  · rintro ⟨y, hy, ys, hys, h⟩
    cases h
    exact ⟨y, ys, hy, hys, rfl⟩
  · rintro ⟨y, ys, hy, hys, rfl⟩
    exact ⟨y, hy, ys, hys, rfl⟩

/-- If it is known when the members succeed and with which values, then so it is of the list. -/
theorem mapM_eq_ok_iff {f : β → Except ε γ} {P : β → Prop} {g : β → γ} {xs : List β} {ys : List γ}
    (h : ∀ x ∈ xs, ∀ y, f x = .ok y ↔ P x ∧ y = g x) :
    xs.mapM f = .ok ys ↔ (∀ x ∈ xs, P x) ∧ ys = xs.map g := by
  induction xs generalizing ys with
  | nil =>
    rw [mapM_nil]
    constructor
    · intro h
      cases h
      exact ⟨fun x hx => absurd hx List.not_mem_nil, rfl⟩
    · rintro ⟨-, rfl⟩
      rfl
  | cons x xs ih =>
    have hx := h x List.mem_cons_self
    have hxs : ∀ zs, xs.mapM f = .ok zs ↔ (∀ y ∈ xs, P y) ∧ zs = xs.map g := fun zs =>
      ih fun y hy => h y (List.mem_cons_of_mem _ hy)
    rw [mapM_cons_eq_ok]
    constructor
    · rintro ⟨y, ys, hy, hys, rfl⟩
      obtain ⟨hP, rfl⟩ := (hx y).1 hy
      obtain ⟨hall, rfl⟩ := (hxs ys).1 hys
      exact ⟨List.forall_mem_cons.2 ⟨hP, hall⟩, rfl⟩
    · rintro ⟨hall, rfl⟩
      rw [List.forall_mem_cons] at hall
      exact ⟨g x, xs.map g, (hx _).2 ⟨hall.1, rfl⟩, (hxs _).2 ⟨hall.2, rfl⟩, rfl⟩

theorem mapM_eq_map {f : β → Except ε γ} {g : β → γ} {xs : List β}
    (h : ∀ x ∈ xs, f x = .ok (g x)) : xs.mapM f = .ok (xs.map g) := by
  induction xs with
  | nil => rfl
  | cons x xs ih =>
    have hxs := ih fun y hy => h y (List.mem_cons_of_mem _ hy)
    exact mapM_cons_eq_ok.2 ⟨_, _, h x List.mem_cons_self, hxs, rfl⟩

theorem mapM_eq_ok_of_forall₂ {f : β → Except ε γ} {xs : List β} {ys : List γ}
    (h : List.Forall₂ (fun x y => f x = .ok y) xs ys) : xs.mapM f = .ok ys := by
  induction h with
  | nil => rfl
  | cons hx _ ih => exact mapM_cons_eq_ok.2 ⟨_, _, hx, ih, rfl⟩

theorem exists_mapM_eq_ok_iff {f : β → Except ε γ} {xs : List β} :
    (∃ ys, xs.mapM f = .ok ys) ↔ ∀ x ∈ xs, ∃ y, f x = .ok y := by
  induction xs with
  | nil => exact ⟨fun _ x hx => absurd hx List.not_mem_nil, fun _ => ⟨[], rfl⟩⟩
  | cons x xs ih =>
    constructor
    · rintro ⟨ys, hys⟩
      obtain ⟨y, ys, hy, hys, -⟩ := mapM_cons_eq_ok.1 hys
      intro z hz
      rcases List.mem_cons.1 hz with rfl | hz
      · exact ⟨y, hy⟩
      · exact ih.1 ⟨ys, hys⟩ z hz
    · intro h
      obtain ⟨y, hy⟩ := h x List.mem_cons_self
      obtain ⟨ys, hys⟩ := ih.2 fun z hz => h z (List.mem_cons_of_mem _ hz)
      exact ⟨_, mapM_cons_eq_ok.2 ⟨y, ys, hy, hys, rfl⟩⟩

theorem exists_of_mem_mapM {f : β → Except ε γ} {xs : List β} {ys : List γ}
    (h : xs.mapM f = .ok ys) {y : γ} (hy : y ∈ ys) : ∃ x ∈ xs, f x = .ok y := by
  induction xs generalizing ys with
  | nil =>
    cases h
    cases hy
  | cons x xs ih =>
    obtain ⟨z, zs, hz, hzs, rfl⟩ := mapM_cons_eq_ok.1 h
    rcases List.mem_cons.1 hy with rfl | hy
    · exact ⟨x, List.mem_cons_self, hz⟩
    · obtain ⟨x', hx', hfx'⟩ := ih hzs hy
      exact ⟨x', List.mem_cons_of_mem x hx', hfx'⟩

/-- If it is known when each step succeeds and how it changes the state, then so it is of all steps. -/
theorem foldlM_eq_ok_iff {f : σ → β → Except ε σ} {P : β → Prop} {g : σ → β → σ} {xs : List β}
    {s s' : σ} (h : ∀ x ∈ xs, ∀ s s', f s x = .ok s' ↔ P x ∧ s' = g s x) :
    xs.foldlM f s = .ok s' ↔ (∀ x ∈ xs, P x) ∧ s' = xs.foldl g s := by
  induction xs generalizing s with
  | nil =>
    constructor
    · intro h
      cases h
      exact ⟨fun x hx => absurd hx List.not_mem_nil, rfl⟩
    · rintro ⟨-, rfl⟩
      rfl
  | cons x xs ih =>
    rw [List.forall_mem_cons] at h
    simp only [List.foldlM_cons, bind_eq_ok, h.1, ih h.2, List.forall_mem_cons, List.foldl_cons]
    constructor
    · rintro ⟨_, ⟨hx, rfl⟩, hxs, hs'⟩
      exact ⟨⟨hx, hxs⟩, hs'⟩
    · rintro ⟨⟨hx, hxs⟩, hs'⟩
      exact ⟨_, ⟨hx, rfl⟩, hxs, hs'⟩

/-- A loop whose body never stops it runs its steps in turn, up to the first error. -/
theorem forIn_eq_foldlM {f : β → σ → Except ε (ForInStep σ)} {g : σ → β → Except ε σ} {xs : List β}
    (h : ∀ x ∈ xs, ∀ s, f x s = (g s x >>= fun s' => .ok (.yield s'))) (s : σ) :
    forIn xs s f = xs.foldlM g s := by
  induction xs generalizing s with
  | nil => rfl
  | cons x xs ih =>
    rw [List.forall_mem_cons] at h
    rw [List.forIn_cons, h.1, List.foldlM_cons]
    cases g s x with
    | error e => rfl
    | ok s' => exact ih h.2 s'

/-- Steps that succeed and keep a property, which may speak of the members that are done. -/
theorem foldlM_keeps {f : σ → β → Except ε σ} {P : List β → σ → Prop} {xs : List β} {s : σ}
    (hstart : P [] s)
    (hstep : ∀ done x rest s, done ++ x :: rest = xs → P done s →
      ∃ s', f s x = .ok s' ∧ P (done ++ [x]) s') :
    ∃ s', xs.foldlM f s = .ok s' ∧ P xs s' := by
  suffices key : ∀ (rest done : List β) (s : σ), done ++ rest = xs → P done s →
      ∃ s', rest.foldlM f s = .ok s' ∧ P xs s' by
    exact key xs [] s rfl hstart
  intro rest
  induction rest with
  | nil =>
    intro done s hdone hs
    rw [List.append_nil] at hdone
    exact ⟨s, rfl, hdone ▸ hs⟩
  | cons x rest ih =>
    intro done s hdone hs
    obtain ⟨t, ht, hkept⟩ := hstep done x rest s hdone hs
    obtain ⟨s', hs', hend⟩ := ih (done ++ [x]) t (by rw [← hdone, ← List.append_cons]) hkept
    refine ⟨s', ?_, hend⟩
    rw [List.foldlM_cons, ht]
    exact hs'

/-- What every step keeps holds at the end, if all of them succeed. -/
theorem keeps_of_foldlM {f : σ → β → Except ε σ} {P : σ → Prop} {xs : List β} {s s' : σ}
    (hstart : P s) (hstep : ∀ x ∈ xs, ∀ t t', P t → f t x = .ok t' → P t')
    (h : xs.foldlM f s = .ok s') : P s' := by
  induction xs generalizing s with
  | nil =>
    cases h
    exact hstart
  | cons x xs ih =>
    rw [List.foldlM_cons, bind_eq_ok] at h
    obtain ⟨t, ht, h⟩ := h
    rw [List.forall_mem_cons] at hstep
    exact ih (hstep.1 s t hstart ht) hstep.2 h

/-- Steps that do the same with all members do so together. -/
theorem foldlM_congr {f g : σ → β → Except ε σ} {xs : List β} {s : σ}
    (h : ∀ x ∈ xs, ∀ t, f t x = g t x) : xs.foldlM f s = xs.foldlM g s := by
  induction xs generalizing s with
  | nil => rfl
  | cons x xs ih =>
    rw [List.forall_mem_cons] at h
    rw [List.foldlM_cons, List.foldlM_cons, h.1]
    exact bind_congr fun t => ih h.2

/-- If all steps together succeed then every single one did. -/
theorem exists_of_foldlM_eq_ok {f : σ → β → Except ε σ} {xs : List β} {s s' : σ}
    (h : xs.foldlM f s = .ok s') : ∀ x ∈ xs, ∃ t t', f t x = .ok t' := by
  induction xs generalizing s with
  | nil => exact fun x hx => absurd hx List.not_mem_nil
  | cons y xs ih =>
    rw [List.foldlM_cons, bind_eq_ok] at h
    obtain ⟨t, ht, h⟩ := h
    intro x hx
    rcases List.mem_cons.1 hx with rfl | hx
    · exact ⟨s, t, ht⟩
    · exact ih h x hx

/-- Steps that succeed in any state do so together. -/
theorem exists_foldlM_eq_ok {f : σ → β → Except ε σ} {xs : List β} (s : σ)
    (h : ∀ x ∈ xs, ∀ t, ∃ t', f t x = .ok t') : ∃ s', xs.foldlM f s = .ok s' := by
  induction xs generalizing s with
  | nil => exact ⟨s, rfl⟩
  | cons x xs ih =>
    rw [List.forall_mem_cons] at h
    obtain ⟨t, ht⟩ := h.1 s
    obtain ⟨s', hs'⟩ := ih t h.2
    refine ⟨s', ?_⟩
    rw [List.foldlM_cons, ht]
    exact hs'

/-- The error of a list of steps is that of the first step that fails. -/
theorem foldlM_eq_error_iff {f : σ → β → Except ε σ} {xs : List β} {s : σ} {e : ε} :
    xs.foldlM f s = .error e ↔ ∃ before x after s', xs = before ++ x :: after ∧
      before.foldlM f s = .ok s' ∧ f s' x = .error e := by
  induction xs generalizing s with
  | nil =>
    constructor
    · intro h
      cases h
    · rintro ⟨before, x, after, _, hxs, -⟩
      exact absurd hxs.symm (List.append_ne_nil_of_right_ne_nil _ (List.cons_ne_nil x after))
  | cons y xs ih =>
    rw [List.foldlM_cons]
    cases hy : f s y with
    | error e' =>
      constructor
      · intro h
        cases h
        exact ⟨[], y, xs, s, rfl, rfl, hy⟩
      · rintro ⟨before, x, after, s', hxs, hbefore, hx⟩
        cases before with
        | nil =>
          cases hxs
          cases hbefore
          exact hy.symm.trans hx
        | cons z before =>
          cases hxs
          rw [List.foldlM_cons, hy] at hbefore
          cases hbefore
    | ok t =>
      refine (ih (s := t)).trans ⟨?_, ?_⟩
      · rintro ⟨before, x, after, s', rfl, hbefore, hx⟩
        refine ⟨y :: before, x, after, s', rfl, ?_, hx⟩
        rw [List.foldlM_cons, hy]
        exact hbefore
      · rintro ⟨before, x, after, s', hxs, hbefore, hx⟩
        cases before with
        | nil =>
          cases hxs
          cases hbefore
          rw [hy] at hx
          cases hx
        | cons z before =>
          cases hxs
          rw [List.foldlM_cons, hy] at hbefore
          exact ⟨before, x, after, s', rfl, hbefore, hx⟩

end SeismicHazard.Fallible
