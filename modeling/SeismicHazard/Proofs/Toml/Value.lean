import SeismicHazard.Proofs.Toml.Number
import SeismicHazard.Toml.Parser

/-!
# Values in TOML are read back

* `Toml.Reads`: the characters of a value.
* `Toml.reads_quote`, `Toml.reads_natural`, `Toml.reads_bool`, `Toml.reads_decimal`: texts and numbers.
* `Toml.value?_one`, `Toml.value?_lines`: lists on one line and over several.
-/

namespace SeismicHazard

namespace Toml

variable {c : Char} {cs rest : List Char} {v : Toml} {fuel depth : Nat}

/-! ### Space -/

/-- Whether a character begins neither blanks, a line break nor a comment. -/
def Solid (c : Char) : Prop := c ∉ [' ', '\t', '\n', '\r', '#']

instance : DecidablePred Solid := fun _ => inferInstanceAs (Decidable (_ ∉ _))

namespace Solid

theorem isBlank_eq_false (h : Solid c) : isBlank c = false := by
  simp only [Solid, List.mem_cons, List.not_mem_nil, or_false, not_or] at h
  simp [isBlank, h.1, h.2.1]

theorem skipBlanks_cons (h : Solid c) (cs : List Char) : skipBlanks (c :: cs) = c :: cs :=
  List.dropWhile_cons_of_neg (by simp [h.isBlank_eq_false])

theorem skipComment_cons (h : Solid c) (cs : List Char) : skipComment (c :: cs) = c :: cs := by
  refine skipComment.eq_2 _ ?_
  rintro _ heq
  rw [(List.cons.inj heq).1] at h
  exact absurd h (by decide)

theorem lineBreak?_cons (h : Solid c) (cs : List Char) : lineBreak? (c :: cs) = none := by
  simp only [Solid, List.mem_cons, List.not_mem_nil, or_false, not_or] at h
  exact Toml.lineBreak?_cons h.2.2.1 h.2.2.2.1 cs

end Solid

theorem skipBlanks_append {bs : List Char} (hbs : ∀ b ∈ bs, isBlank b) (h : Solid c) :
    skipBlanks (bs ++ c :: cs) = c :: cs :=
  dropWhile_append_of_head hbs fun d hd => by
    rw [← Option.some.inj hd]
    exact h.isBlank_eq_false

/-- Blanks are skipped up to the next character that is no space. -/
theorem skipSpaces_append {bs : List Char} (hbs : ∀ b ∈ bs, isBlank b) (h : Solid c) :
    skipSpaces (bs ++ c :: cs) = c :: cs := by
  unfold skipSpaces
  rw [skipSpace.eq_2, skipBlanks_append hbs h, h.skipComment_cons, h.lineBreak?_cons]

theorem skipSpaces_cons (h : Solid c) (cs : List Char) : skipSpaces (c :: cs) = c :: cs :=
  @skipSpaces_append c cs [] (by simp) h

theorem skipSpaces_break (cs : List Char) : skipSpaces ('\n' :: cs) = skipSpaces cs := rfl

/-! ### Values that are no lists -/

/-- Whether what follows a value cannot be part of it. -/
def Ends (rest : List Char) : Prop := ∀ c ∈ rest.head?, c ∈ ['\n', ',', ']']

theorem Ends.isScalarChar (h : Ends rest) : ∀ c ∈ rest.head?, isScalarChar c = false := by
  intro c hc
  have hmem := h c hc
  simp only [List.mem_cons, List.not_mem_nil, or_false] at hmem
  rcases hmem with rfl | rfl | rfl <;> rfl

theorem Ends.ne_quote (h : Ends rest) : ∀ c ∈ rest.head?, c ≠ '"' ∧ c ≠ '\'' := by
  intro c hc
  have hmem := h c hc
  simp only [List.mem_cons, List.not_mem_nil, or_false] at hmem
  rcases hmem with rfl | rfl | rfl <;> decide

/-- Characters that stand for a value, whatever follows them. -/
structure Reads (cs : List Char) (v : Toml) : Prop where
  solid : ∃ c ds, cs = c :: ds ∧ Solid c ∧ c ≠ ']'
  value : ∀ (fuel depth : Nat) (rest : List Char), Ends rest →
    value? (fuel + 1) depth (cs ++ rest) = some (v, rest)

theorem QuotedForm.exists_write (f : QuotedForm) (cs : List Char) :
    ∃ ds, f.write cs = f.mark :: ds := by
  cases f <;> exact ⟨_, rfl⟩

theorem reads_quote (s : String) : Reads (quote s).toList (text s) := by
  obtain ⟨f, hf⟩ : ∃ f : QuotedForm, (quote s).toList = f.write s.toList :=
    ⟨_, by rw [quote, String.toList_ofList]⟩
  obtain ⟨ds, hds⟩ := f.exists_write s.toList
  have hmark : f.mark = '"' ∨ f.mark = '\'' := by
    cases f <;> decide
  constructor
  · refine ⟨f.mark, ds, hf.trans hds, ?_⟩
    rcases hmark with h | h <;> (rw [h]; decide)
  · intro fuel depth rest hrest
    have hread : string? ((quote s).toList ++ rest) = some (s.toList, rest) :=
      string?_quote s hrest.ne_quote
    rw [hf, hds, List.cons_append] at hread ⊢
    rw [value?.eq_3, if_pos hmark, hread]
    simp

/-- A run of characters that is neither a text nor a word. -/
theorem reads_scalar (hhead : ∃ c ds, cs = c :: ds ∧ (c.isDigit ∨ c = '-'))
    (hrun : ∀ c ∈ cs, isScalarChar c) (hdate : afterDate? cs = none) (hscalar : scalar? cs = some v) :
    Reads cs v := by
  obtain ⟨c, ds, rfl, hc⟩ := hhead
  have hne : ∀ d : Char, d.isDigit = false → d ≠ '-' → c ≠ d := by
    rintro d hdigit hminus rfl
    rcases hc with hc | hc
    · rw [hdigit] at hc
      cases hc
    · exact hminus hc
  constructor
  · refine ⟨c, ds, rfl, ?_, hne _ rfl (by decide)⟩
    simp only [Solid, List.mem_cons, List.not_mem_nil, or_false, not_or]
    exact ⟨hne _ rfl (by decide), hne _ rfl (by decide), hne _ rfl (by decide),
      hne _ rfl (by decide), hne _ rfl (by decide)⟩
  · intro fuel depth rest hrest
    have hsplit : scalarRun (c :: (ds ++ rest)) = (c :: ds, rest) :=
      scalarRun_append hrun hdate hrest.isScalarChar
    rw [List.cons_append, value?.eq_3, if_neg (by simp [hne '"' rfl (by decide), hne '\'' rfl (by decide)]),
      if_neg (hne _ rfl (by decide)), if_neg (hne _ rfl (by decide)), hsplit]
    split
    · next heq =>
      exact absurd (List.cons.inj (Prod.mk.inj heq).1).1 (hne _ rfl (by decide))
    · next heq =>
      exact absurd (List.cons.inj (Prod.mk.inj heq).1).1 (hne _ rfl (by decide))
    · next heq =>
      obtain ⟨rfl, rfl⟩ := Prod.mk.inj heq
      rw [hscalar]
      rfl

theorem reads_natural {n : Nat} (h : n < 2 ^ 63) : Reads n.repr.toList (integer n) := by
  rw [Nat.toList_repr]
  have hwhole := whole_toDigits n
  refine reads_scalar ?_ (fun c hc => isScalarChar_of_isDigit (hwhole.digits c hc)) ?_
    (scalar?_natural h)
  · obtain ⟨c, ds, hcs⟩ := List.exists_cons_of_ne_nil hwhole.ne_nil
    exact ⟨c, ds, hcs, .inl (hwhole.digits c (hcs ▸ List.mem_cons_self))⟩
  · refine afterDate?_eq_none fun hmem => ?_
    exact absurd (hwhole.digits _ (List.mem_of_mem_tail hmem)) (by decide)

theorem reads_bool (b : Bool) : Reads (if b then "true" else "false").toList (bool b) := by
  cases b with
  | true =>
    refine ⟨⟨_, _, rfl, by decide⟩, fun fuel depth rest hrest => ?_⟩
    have hsplit : scalarRun ('t' :: 'r' :: 'u' :: 'e' :: rest) = (['t', 'r', 'u', 'e'], rest) :=
      @scalarRun_append ['t', 'r', 'u', 'e'] _ (by simp [isScalarChar]) rfl hrest.isScalarChar
    change value? (fuel + 1) depth ('t' :: 'r' :: 'u' :: 'e' :: rest) = _
    rw [value?.eq_3, hsplit]
    rfl
  | false =>
    refine ⟨⟨_, _, rfl, by decide⟩, fun fuel depth rest hrest => ?_⟩
    have hsplit : scalarRun ('f' :: 'a' :: 'l' :: 's' :: 'e' :: rest) =
        (['f', 'a', 'l', 's', 'e'], rest) :=
      @scalarRun_append ['f', 'a', 'l', 's', 'e'] _ (by simp [isScalarChar]) rfl hrest.isScalarChar
    change value? (fuel + 1) depth ('f' :: 'a' :: 'l' :: 's' :: 'e' :: rest) = _
    rw [value?.eq_3, hsplit]
    rfl

theorem reads_decimal {d : Decimal} (h : d.IsReduced) (hsmall : d.magnitude < Double.limit) :
    Reads (layout.write (.finite d)).toList (float (.finite (printed d))) := by
  have hscalar := scalar?_write h hsmall
  rw [toList_write] at hscalar ⊢
  have hwhole := whole_split h
  have hfraction : ∀ c ∈ fractionChars d, c.isDigit := fun _ => isDigit_of_mem_fractionChars
  refine reads_scalar ?_ (fun c hc => ?_) ?_ hscalar
  · obtain ⟨c, ds, hcs⟩ := List.exists_cons_of_ne_nil hwhole.ne_nil
    cases hnegative : d.negative with
    | true => exact ⟨'-', _, rfl, .inr rfl⟩
    | false =>
      refine ⟨c, ds ++ '.' :: fractionChars d, ?_, .inl (hwhole.digits c (hcs ▸ List.mem_cons_self))⟩
      rw [hcs]
      rfl
  · rcases mem_pointChars hwhole hfraction hc with hc | rfl | rfl
    · exact isScalarChar_of_isDigit hc
    · rfl
    · rfl
  · refine afterDate?_eq_none fun hmem => ?_
    exact absurd (mem_tail_pointChars hwhole hfraction hmem) (by decide)

/-! ### Lists -/

theorem value?_list (cs : List Char) : value? (fuel + 1) (depth + 1) ('[' :: cs) =
    (items? fuel depth (skipSpaces cs)).map fun (xs, rest) => (list xs, rest) := by
  rw [value?.eq_3]
  rfl

/-- A list without items. -/
theorem value?_nil (rest : List Char) :
    value? (fuel + 2) (depth + 1) ('[' :: ']' :: rest) = some (list [], rest) := by
  rw [value?_list, skipSpaces_cons (by decide)]
  rfl

/-- A list with one item on the line of its brackets. -/
theorem value?_one (h : Reads cs v) (rest : List Char) :
    value? (fuel + 3) (depth + 1) ('[' :: (cs ++ ']' :: rest)) = some (list [v], rest) := by
  obtain ⟨c, ds, rfl, hc, hend⟩ := h.solid
  have hread : value? (fuel + 1) depth (c :: (ds ++ ']' :: rest)) = some (v, ']' :: rest) :=
    h.value _ _ _ fun d hd => by
      rw [← Option.some.inj hd]
      decide
  have hskip : skipSpaces (']' :: rest) = ']' :: rest := skipSpaces_cons (by decide) rest
  rw [List.cons_append, value?_list, skipSpaces_cons hc,
    items?.eq_3 _ _ _ (fun _ heq => hend (List.cons.inj heq).1), hread]
  simp only [Option.bind_eq_bind, Option.bind_some, hskip]
  rfl

/-- An item on a line of its own. -/
def itemLine (cs : List Char) : List Char := [' ', ' ', ' ', ' '] ++ cs ++ [',', '\n']

/-- The items of a list, each on a line of its own. -/
theorem items?_lines (items : List (List Char × Toml)) (h : ∀ p ∈ items, Reads p.1 p.2)
    (rest : List Char) {fuel : Nat} (hfuel : items.length < fuel) : items? fuel depth
      (skipSpaces ('\n' :: ((items.flatMap fun p => itemLine p.1) ++ ']' :: rest))) =
        some (items.map (·.2), rest) := by
  induction items generalizing fuel with
  | nil =>
    obtain ⟨k, rfl⟩ : ∃ k, fuel = k + 1 := ⟨fuel - 1, by simp at hfuel; omega⟩
    rw [skipSpaces_break, List.flatMap_nil, List.nil_append, skipSpaces_cons (by decide)]
    exact items?.eq_2 _ _ _
  | cons p items ih =>
    obtain ⟨k, rfl⟩ : ∃ k, fuel = k + 2 := ⟨fuel - 2, by simp at hfuel; omega⟩
    rw [List.forall_mem_cons] at h
    obtain ⟨c, ds, hcs, hc, hend⟩ := h.1.solid
    have ih := @ih h.2 (k + 1) (by simp at hfuel; omega)
    generalize hmore : '\n' :: ((items.flatMap fun p => itemLine p.1) ++ ']' :: rest) = more at ih
    have htext : (List.flatMap (fun p => itemLine p.1) (p :: items)) ++ ']' :: rest =
        [' ', ' ', ' ', ' '] ++ c :: (ds ++ ',' :: more) := by
      rw [List.flatMap_cons, itemLine, hcs, ← hmore]
      simp
    have hread : value? (k + 1) depth (c :: (ds ++ ',' :: more)) = some (p.2, ',' :: more) := by
      have hvalue := h.1.value k depth (',' :: more) fun d hd => by
        rw [← Option.some.inj hd]
        decide
      rwa [hcs] at hvalue
    have hskip : skipSpaces (',' :: more) = ',' :: more := skipSpaces_cons (by decide) more
    have hblank : ∀ b ∈ [' ', ' ', ' ', ' '], isBlank b := by simp [isBlank]
    rw [skipSpaces_break, htext, skipSpaces_append hblank hc,
      items?.eq_3 _ _ _ (fun _ heq => hend (List.cons.inj heq).1), hread]
    simp only [Option.bind_eq_bind, Option.bind_some, hskip, ih]
    rfl

/-- A list with several items, each on a line of its own. -/
theorem value?_lines (items : List (List Char × Toml)) (h : ∀ p ∈ items, Reads p.1 p.2)
    (rest : List Char) {fuel : Nat} (hfuel : items.length < fuel) : value? (fuel + 1) (depth + 1)
      ('[' :: '\n' :: ((items.flatMap fun p => itemLine p.1) ++ ']' :: rest)) =
        some (list (items.map (·.2)), rest) := by
  rw [value?_list, items?_lines items h rest hfuel]
  rfl

end Toml

end SeismicHazard
