import Mathlib.Data.List.Basic
import SeismicHazard.Toml.Quoted
import SeismicHazard.Toml.Text

/-!
# Texts in quotes are read back

Each of the four forms is read back to the text that was written, whatever follows it, as long as that is
no further quote.

* `Toml.Escaped`: how a character stands inside double quotes.
* `Toml.string?_quote`: a text in its form.
* `Toml.simpleKey?_key`: a name as a key.
-/

namespace SeismicHazard

/-- Where the characters that are taken from the front end. -/
theorem takeWhile_append_of_head {β : Type} {p : β → Bool} {xs ys : List β} (h : ∀ x ∈ xs, p x)
    (hstop : ∀ y ∈ ys.head?, p y = false) : (xs ++ ys).takeWhile p = xs := by
  rw [List.takeWhile_append_of_pos h]
  cases ys with
  | nil => simp
  | cons y ys =>
    rw [List.takeWhile_cons_of_neg (by simp [hstop y rfl]), List.append_nil]

theorem dropWhile_append_of_head {β : Type} {p : β → Bool} {xs ys : List β} (h : ∀ x ∈ xs, p x)
    (hstop : ∀ y ∈ ys.head?, p y = false) : (xs ++ ys).dropWhile p = ys := by
  rw [List.dropWhile_append_of_pos h]
  cases ys with
  | nil => rfl
  | cons y ys => rw [List.dropWhile_cons_of_neg (by simp [hstop y rfl])]

namespace Toml

variable {c q : Char} {cs cs' rest : List Char} {f : QuotedForm} {n fuel : Nat}

/-! ### Escapes -/

/-- How a character stands inside double quotes: as itself, as a backslash and a letter, or by its
number. -/
inductive Escaped (c : Char) : List Char → Prop where
  | plain : isPlain c → c ∉ ['"', '\\', '\n', '\r'] → Escaped c [c]
  | letter {d : Char} : simpleEscape? d = some c → Escaped c ['\\', d]
  | number {a b d e : Char} : charOfHex? [a, b, d, e] = some c → Escaped c ['\\', 'u', a, b, d, e]

theorem charOfHex?_hexDigits_fin : ∀ k : Fin 128, charOfHex? (hexDigits k) = some (Char.ofNat k) := by
  decide +kernel

theorem charOfHex?_hexDigits (h : c.toNat < 128) : charOfHex? (hexDigits c.toNat) = some c := by
  have := charOfHex?_hexDigits_fin ⟨c.toNat, h⟩
  rwa [Char.ofNat_toNat] at this

theorem isPlain_of_le (h : 32 ≤ c.toNat) (h' : c.toNat ≠ 127) : isPlain c = true := by
  simp [isPlain, h, h']

theorem escaped_quote : Escaped '"' ['\\', '"'] := .letter rfl

theorem escaped_escape (hc : c ≠ '"') : Escaped c (escape c) := by
  have hcode : ∀ {k : Nat} {d : Char}, c.toNat = k → simpleEscape? d = some (Char.ofNat k) →
      Escaped c ['\\', d] := by
    intro k d hk hd
    rw [← hk, Char.ofNat_toNat] at hd
    exact .letter hd
  unfold escape
  split
  · next h => exact hcode (congrArg Char.toNat h) rfl
  split
  · next h => exact hcode (congrArg Char.toNat h) rfl
  split
  · next h => exact hcode (congrArg Char.toNat h) rfl
  split
  · next h => exact hcode (congrArg Char.toNat h) rfl
  split
  · next h => exact hcode h rfl
  split
  · next h => exact hcode h rfl
  split
  · exact .number (charOfHex?_hexDigits (by omega))
  · next hslash hbreak hreturn _ _ _ h =>
    rw [not_or] at h
    exact .plain (isPlain_of_le (by omega) h.2) (by simp [hc, hslash, hbreak, hreturn])

theorem mem_of_simpleEscape? {d : Char} (h : simpleEscape? d = some c) :
    d ∈ ['b', 't', 'n', 'f', 'r', '"', '\\'] := by
  unfold simpleEscape? at h
  split at h <;> simp_all

namespace Escaped

theorem exists_cons (h : Escaped c cs') :
    ∃ d ds, cs' = d :: ds ∧ d ≠ '"' ∧ d ≠ '\n' ∧ d ≠ '\r' := by
  cases h with
  | plain _ hne => exact ⟨c, [], rfl, by simp_all⟩
  | letter _ => exact ⟨_, _, rfl, by decide⟩
  | number _ => exact ⟨_, _, rfl, by decide⟩

/-! ### Reading an escape -/

theorem basicString_append (h : Escaped c cs') (cs : List Char) :
    basicString (cs' ++ cs) = cons? (some c) (basicString cs) := by
  cases h with
  | plain hplain hne =>
    simp only [List.mem_cons, List.not_mem_nil, or_false, not_or] at hne
    rw [List.singleton_append, basicString.eq_6 _ _ hne.1 (fun _ _ _ _ _ h => absurd h hne.2.1)
      (fun _ _ _ _ _ _ _ _ _ h => absurd h hne.2.1) (fun _ _ h => absurd h hne.2.1)]
    simp [hplain, hne.2.1]
  | @letter d hd =>
    have hmem := mem_of_simpleEscape? hd
    rw [← hd]
    refine basicString.eq_5 _ _ ?_ ?_
    · rintro _ _ _ _ _ rfl
      exact absurd hmem (by decide)
    · rintro _ _ _ _ _ _ _ _ _ rfl
      exact absurd hmem (by decide)
  | number hhex =>
    rw [← hhex]
    rfl

end Escaped

theorem lineBreak?_cons (h : c ≠ '\n') (h' : c ≠ '\r') (cs : List Char) :
    lineBreak? (c :: cs) = none := by
  unfold lineBreak?
  split <;> simp_all

/-- A character of a long text with escapes that is no quote. -/
theorem longBasicString_cons (h : lineBreak? (c :: cs) = none) (hquote : c ≠ '"') :
    longBasicString (fuel + 1) false (c :: cs) =
      if c = '\\' then
        if breaksLine cs then longBasicString fuel true cs
        else
          match escaped? cs with
          | some (c, rest) => cons? (some c) (longBasicString fuel false rest)
          | none => none
      else if isPlain c then cons? (some c) (longBasicString fuel false cs)
      else none := by
  rw [longBasicString.eq_def]
  simp only [h, Bool.false_and, Bool.false_eq_true, if_false]
  exact if_neg hquote

theorem Escaped.longBasicString_append (h : Escaped c cs') (cs : List Char) :
    longBasicString (fuel + 1) false (cs' ++ cs) = cons? (some c) (longBasicString fuel false cs) := by
  cases h with
  | plain hplain hne =>
    simp only [List.mem_cons, List.not_mem_nil, or_false, not_or] at hne
    obtain ⟨hquote, hslash, hbreak, hreturn⟩ := hne
    rw [List.singleton_append, longBasicString_cons (lineBreak?_cons hbreak hreturn cs) hquote,
      if_neg hslash, if_pos hplain]
  | @letter d hd =>
    have hmem := mem_of_simpleEscape? hd
    have hbreaks : breaksLine (d :: cs) = false := by
      simp only [List.mem_cons, List.not_mem_nil, or_false] at hmem
      rcases hmem with rfl | rfl | rfl | rfl | rfl | rfl | rfl <;> rfl
    have hescaped : escaped? (d :: cs) = some (c, cs) := by
      rw [escaped?.eq_3, hd]
      · rfl
      · rintro _ _ _ _ _ rfl
        exact absurd hmem (by decide)
      · rintro _ _ _ _ _ _ _ _ _ rfl
        exact absurd hmem (by decide)
    rw [List.cons_append, List.singleton_append, longBasicString_cons rfl (by decide), if_pos rfl,
      hbreaks, hescaped]
    rfl
  | @number a b d e hhex =>
    have hbreaks : breaksLine ('u' :: a :: b :: d :: e :: cs) = false := rfl
    have hescaped : escaped? ('u' :: a :: b :: d :: e :: cs) = some (c, cs) := by
      rw [escaped?.eq_1, hhex]
      rfl
    simp only [List.cons_append, List.nil_append]
    rw [longBasicString_cons rfl (by decide), if_pos rfl, hbreaks, hescaped]
    rfl

/-! ### One line -/

/-- A text whose quotes are all escaped. -/
theorem basicString_escapeFrom (cs rest : List Char) (n : Nat) :
    basicString (QuotedForm.basic.escapeFrom n cs ++ '"' :: rest) = some (cs, rest) := by
  induction cs generalizing n with
  | nil => rfl
  | cons c cs ih =>
    unfold QuotedForm.escapeFrom
    split
    · next hc =>
      subst hc
      have hread := escaped_quote.basicString_append
        (QuotedForm.basic.escapeFrom 0 cs ++ '"' :: rest)
      rw [ih] at hread
      exact hread
    · next hc =>
      have hlong : (QuotedForm.basic.isLong && c == '\n') = false := rfl
      rw [if_neg (by simp [hlong]), List.append_assoc, (escaped_escape hc).basicString_append, ih]
      rfl

/-- The characters of a text that stands in quotes without escapes. -/
theorem isPlain_of_notMem_control (h : isControl c = false) (hbreak : c ≠ '\n') : isPlain c = true := by
  simp only [isControl, Bool.or_eq_false_iff, Bool.and_eq_false_iff, decide_eq_false_iff_not,
    bne_eq_false_iff_eq, beq_eq_false_iff_ne] at h
  simp only [isPlain, Bool.or_eq_true, beq_iff_eq, Bool.and_eq_true, decide_eq_true_eq, bne_iff_ne]
  by_cases htab : c = '\t'
  · exact .inl htab
  · simp only [htab, hbreak, or_false] at h
    exact .inr ⟨by omega, h.2⟩

theorem literalString_append (h : ∀ c ∈ cs, isPlain c ∧ c ≠ '\'') (rest : List Char) :
    literalString (cs ++ '\'' :: rest) = some (cs, rest) := by
  induction cs with
  | nil => rfl
  | cons c cs ih =>
    rw [List.forall_mem_cons] at h
    rw [List.cons_append, literalString.eq_3 _ _ h.1.2, if_pos h.1.1, ih h.2]
    rfl

/-! ### Several lines -/

theorem closing_of_ne (h : rest.head? ≠ some q) : closing q rest = ([], rest) := by
  match rest with
  | [] => rfl
  | [a] =>
    have ha : a ≠ q := fun h' => h (congrArg some h')
    simp [closing, ha]
  | a :: b :: rest =>
    have ha : a ≠ q := fun h' => h (congrArg some h')
    simp [closing, ha]

theorem closing_cons (h : rest.head? ≠ some q) : closing q (q :: rest) = ([q], rest) := by
  match rest with
  | [] => simp [closing]
  | a :: rest =>
    have ha : a ≠ q := fun h' => h (congrArg some h')
    simp [closing, ha]

theorem closing_cons_cons (rest : List Char) : closing q (q :: q :: rest) = ([q, q], rest) := by
  simp [closing]

/-- Three quotes end a long text. -/
theorem longBasicString_end (rest : List Char) :
    longBasicString (fuel + 1) false ('"' :: '"' :: '"' :: rest) = some (closing '"' rest) := rfl

/-- A single quote or two of them belong to a long text. -/
theorem longBasicString_quote (h : ∀ rest, cs ≠ '"' :: '"' :: rest) :
    longBasicString (fuel + 1) false ('"' :: cs) = cons? (some '"') (longBasicString fuel false cs) := by
  rw [longBasicString.eq_4 _ _ _ _ h]
  rfl

theorem longBasicString_break (cs : List Char) :
    longBasicString (fuel + 1) false ('\n' :: cs) =
      cons? (some '\n') (longBasicString fuel false cs) := by
  rw [longBasicString.eq_def]
  rfl

theorem longLiteralString_end (rest : List Char) :
    longLiteralString (fuel + 1) ('\'' :: '\'' :: '\'' :: rest) = some (closing '\'' rest) := rfl

theorem longLiteralString_cons (h : isPlain c ∨ c = '\n')
    (hquote : c = '\'' → ∀ rest, cs ≠ '\'' :: '\'' :: rest) :
    longLiteralString (fuel + 1) (c :: cs) = cons? (some c) (longLiteralString fuel cs) := by
  rw [longLiteralString.eq_4 _ _ _ fun rest hc hcs => hquote hc rest hcs]
  by_cases hbreak : c = '\n'
  · subst hbreak
    rfl
  · have hplain := h.resolve_right hbreak
    have hreturn : c ≠ '\r' := by
      rintro rfl
      cases hplain
    rw [lineBreak?_cons hbreak hreturn]
    exact if_pos hplain

theorem QuotedForm.exists_escapeFrom (f : QuotedForm) (cs : List Char)
    (h : c = '"' → f.quotesInside ≤ n) :
    ∃ d ds, f.escapeFrom n (c :: cs) = d :: ds ∧ d ≠ '"' := by
  unfold escapeFrom
  split
  · next hc =>
    rw [if_neg (by have := h hc; omega)]
    exact ⟨_, _, rfl, by decide⟩
  · next hc =>
    split
    · exact ⟨_, _, rfl, hc⟩
    · obtain ⟨d, ds, hds, hd, -⟩ := (escaped_escape hc).exists_cons
      exact ⟨d, _, by rw [hds]; rfl, hd⟩

theorem QuotedForm.length_le_escapeFrom (f : QuotedForm) (cs : List Char) (n : Nat) :
    cs.length ≤ (f.escapeFrom n cs).length := by
  induction cs generalizing n with
  | nil => exact Nat.zero_le _
  | cons c cs ih =>
    unfold escapeFrom
    split
    · split
      · exact Nat.succ_le_succ (ih _)
      · exact Nat.succ_le_succ (Nat.le_succ_of_le (ih _))
    · next hc =>
      split
      · exact Nat.succ_le_succ (ih _)
      · obtain ⟨d, ds, hds, -⟩ := (escaped_escape hc).exists_cons
        have := ih 0
        rw [hds, List.length_append, List.length_cons, List.length_cons]
        omega

/-- What follows a quote begins with two more only at the end of the text. -/
theorem QuotedForm.eq_of_two_quotes {d : Char} {ds rest' : List Char}
    (h : longBasic.escapeFrom (n + 1) (d :: ds) ++ rest = '"' :: '"' :: rest') :
    d = '"' ∧ n = 0 ∧ ds = [] := by
  by_cases hd : d = '"' → 2 ≤ n + 1
  · obtain ⟨e, es, hes, he⟩ := longBasic.exists_escapeFrom ds hd
    rw [hes, List.cons_append, List.cons.injEq] at h
    exact absurd h.1 he
  · rw [Classical.not_imp] at hd
    obtain ⟨rfl, hn⟩ := hd
    obtain rfl : n = 0 := by omega
    refine ⟨rfl, rfl, ?_⟩
    cases ds with
    | nil => rfl
    | cons d ds =>
      obtain ⟨e, es, hes, he⟩ := longBasic.exists_escapeFrom (c := d) (n := 2) ds fun _ => Nat.le_refl 2
      have hquote : longBasic.escapeFrom (0 + 1) ('"' :: d :: ds) =
          '"' :: longBasic.escapeFrom 2 (d :: ds) := rfl
      rw [hquote, hes, List.cons_append, List.cons_append, List.cons.injEq, List.cons.injEq] at h
      exact absurd h.2.1 he

/-- A long text with escapes, where `n` of its quotes have just been read. Up to two quotes may stand at
its end, where three more close it. -/
theorem longBasicString_escapeFrom (hrest : rest.head? ≠ some '"') (cs : List Char) {n fuel : Nat}
    (hfuel : cs.length < fuel) : longBasicString fuel false
      (QuotedForm.longBasic.escapeFrom n cs ++ '"' :: '"' :: '"' :: rest) = some (cs, rest) := by
  induction cs generalizing n fuel with
  | nil =>
    obtain ⟨k, rfl⟩ : ∃ k, fuel = k + 1 := ⟨fuel - 1, by simp at hfuel; omega⟩
    exact (longBasicString_end rest).trans (by rw [closing_of_ne hrest])
  | cons c cs ih =>
    obtain ⟨k, rfl⟩ : ∃ k, fuel = k + 1 := ⟨fuel - 1, by simp at hfuel; omega⟩
    rw [List.length_cons, Nat.add_lt_add_iff_right] at hfuel
    have hescaped : ∀ {cs'}, Escaped c cs' → longBasicString (k + 1) false
        (cs' ++ QuotedForm.longBasic.escapeFrom 0 cs ++ '"' :: '"' :: '"' :: rest) =
          some (c :: cs, rest) := by
      intro cs' h
      rw [List.append_assoc, h.longBasicString_append, ih hfuel]
      rfl
    by_cases hc : c = '"'
    · subst hc
      by_cases hn : n < 2
      · have hwritten : QuotedForm.longBasic.escapeFrom n ('"' :: cs) =
            '"' :: QuotedForm.longBasic.escapeFrom (n + 1) cs := by
          rw [QuotedForm.escapeFrom, if_pos rfl]
          exact if_pos hn
        rw [hwritten, List.cons_append]
        cases cs with
        | nil => exact (longBasicString_end _).trans (by rw [closing_cons hrest])
        | cons d ds =>
          by_cases hend : d = '"' ∧ n = 0 ∧ ds = []
          · obtain ⟨rfl, rfl, rfl⟩ := hend
            exact (longBasicString_end _).trans (by rw [closing_cons_cons])
          · rw [longBasicString_quote fun rest' heq => hend (QuotedForm.eq_of_two_quotes heq),
              ih hfuel]
            rfl
      · have hwritten : QuotedForm.longBasic.escapeFrom n ('"' :: cs) =
            ['\\', '"'] ++ QuotedForm.longBasic.escapeFrom 0 cs := by
          rw [QuotedForm.escapeFrom, if_pos rfl]
          exact if_neg hn
        rw [hwritten]
        exact hescaped escaped_quote
    · rw [QuotedForm.escapeFrom, if_neg hc]
      split
      · next hbreak =>
        obtain rfl : c = '\n' := by simpa [QuotedForm.isLong] using hbreak
        rw [List.cons_append, longBasicString_break, ih hfuel]
        rfl
      · exact hescaped (escaped_escape hc)

theorem le_longestRun (q : Char) (cs : List Char) (n : Nat) : n ≤ longestRun q n cs := by
  induction cs generalizing n with
  | nil => exact Nat.le_refl n
  | cons c cs ih =>
    unfold longestRun
    split
    · exact Nat.le_trans (Nat.le_succ n) (ih (n + 1))
    · exact Nat.le_max_left _ _

/-- A long text without escapes, where `n` of its quotes have just been read. -/
theorem longLiteralString_append (hrest : rest.head? ≠ some '\'') (cs : List Char) {n fuel : Nat}
    (hplain : ∀ c ∈ cs, isPlain c ∨ c = '\n') (hrun : longestRun '\'' n cs ≤ 2)
    (hfuel : cs.length < fuel) : longLiteralString fuel (cs ++ '\'' :: '\'' :: '\'' :: rest) =
      some (cs, rest) := by
  induction cs generalizing n fuel with
  | nil =>
    obtain ⟨k, rfl⟩ : ∃ k, fuel = k + 1 := ⟨fuel - 1, by simp at hfuel; omega⟩
    exact (longLiteralString_end rest).trans (by rw [closing_of_ne hrest])
  | cons c cs ih =>
    obtain ⟨k, rfl⟩ : ∃ k, fuel = k + 1 := ⟨fuel - 1, by simp at hfuel; omega⟩
    rw [List.length_cons, Nat.add_lt_add_iff_right] at hfuel
    rw [List.forall_mem_cons] at hplain
    have hstep : (c = '\'' → ∀ rest', cs ++ '\'' :: '\'' :: '\'' :: rest ≠ '\'' :: '\'' :: rest') →
        longLiteralString (k + 1) (c :: cs ++ '\'' :: '\'' :: '\'' :: rest) = some (c :: cs, rest) := by
      intro hquote
      have hrun' : ∃ n', longestRun '\'' n' cs ≤ 2 := by
        unfold longestRun at hrun
        split at hrun
        · exact ⟨_, hrun⟩
        · exact ⟨0, Nat.le_trans (Nat.le_max_right _ _) hrun⟩
      obtain ⟨n', hrun'⟩ := hrun'
      rw [List.cons_append, longLiteralString_cons hplain.1 hquote, ih hplain.2 hrun' hfuel]
      rfl
    by_cases hc : c = '\''
    · subst hc
      rw [longestRun, if_pos rfl] at hrun
      match cs with
      | [] => exact (longLiteralString_end _).trans (by rw [closing_cons hrest])
      | d :: ds =>
        by_cases hd : d = '\''
        · subst hd
          rw [longestRun, if_pos rfl] at hrun
          match ds with
          | [] => exact (longLiteralString_end _).trans (by rw [closing_cons_cons])
          | e :: es =>
            -- a third quote in a row would make the run too long
            refine hstep fun _ rest' heq => ?_
            simp only [List.cons_append, List.cons.injEq] at heq
            rw [longestRun, if_pos heq.2.1] at hrun
            have := le_longestRun '\'' es (n + 1 + 1 + 1)
            omega
        · refine hstep fun _ rest' heq => ?_
          rw [List.cons_append, List.cons.injEq] at heq
          exact hd heq.1
    · exact hstep fun h => absurd h hc

/-! ### The forms -/

namespace QuotedForm

/-- What is known of a text that a form holds without escapes. -/
theorem of_holds (h : f.holds cs) :
    (∀ c ∈ cs, isControl c = false ∧ (f.isLong = false → c ≠ '\n')) ∧
      longestRun f.mark 0 cs ≤ f.quotesInside := by
  simp only [holds, Bool.and_eq_true, Bool.not_eq_true', List.any_eq_false, Bool.and_eq_false_iff,
    List.contains_eq_mem, decide_eq_false_iff_not, Bool.not_eq_false', decide_eq_true_eq] at h
  obtain ⟨⟨⟨hcontrol, -⟩, hbreak⟩, hrun⟩ := h
  refine ⟨fun c hc => ⟨by simpa using hcontrol c hc, fun hlong => ?_⟩, hrun⟩
  rintro rfl
  rcases hbreak with hbreak | hbreak
  · rw [hlong] at hbreak
    cases hbreak
  · exact hbreak hc

theorem notMem_of_longestRun (h : longestRun q n cs ≤ 0) : q ∉ cs := by
  induction cs generalizing n with
  | nil => exact List.not_mem_nil
  | cons c cs ih =>
    unfold longestRun at h
    split at h
    · have := le_longestRun q cs (n + 1)
      omega
    · next hc =>
      rw [List.mem_cons, not_or]
      exact ⟨fun h' => hc h'.symm, ih (Nat.le_trans (Nat.le_max_right _ _) h)⟩

theorem write_of_short (hshort : f.isLong = false) (cs rest : List Char) :
    f.write cs ++ rest = f.mark :: (f.inside cs ++ f.mark :: rest) := by
  simp [write, delimiter, lead, hshort]

/-- A short form is read back as a text on one line. -/
theorem shortString?_write (hshort : f.isLong = false) (hheld : f.hasEscapes ∨ f.holds cs)
    (rest : List Char) : shortString? (f.write cs ++ rest) = some (cs, rest) := by
  rw [write_of_short hshort]
  cases f with
  | basic => exact basicString_escapeFrom cs rest 0
  | literal =>
    obtain ⟨hplain, hrun⟩ := of_holds (hheld.resolve_left (by decide))
    refine literalString_append (fun c hc => ⟨?_, ?_⟩) rest
    · exact isPlain_of_notMem_control (hplain c hc).1 ((hplain c hc).2 rfl)
    · rintro rfl
      exact notMem_of_longestRun hrun hc
  | longBasic => cases hshort
  | longLiteral => cases hshort

/-- Inside a short form the quote does not come first. -/
theorem ne_mark_of_inside_eq (hshort : f.isLong = false) (hheld : f.hasEscapes ∨ f.holds cs)
    {d : Char} {ds : List Char} (h : f.inside cs = d :: ds) : d ≠ f.mark := by
  cases f with
  | basic =>
    cases cs with
    | nil => cases h
    | cons c cs =>
      obtain ⟨d', ds', hds, hd⟩ := basic.exists_escapeFrom (c := c) (n := 0) cs fun _ => Nat.le_refl 0
      have heq : d' :: ds' = d :: ds := hds.symm.trans h
      rw [List.cons.injEq] at heq
      exact heq.1 ▸ hd
  | literal =>
    rintro rfl
    have hmem : literal.mark ∈ cs := by
      rw [show cs = literal.mark :: ds from h]
      exact List.mem_cons_self
    exact notMem_of_longestRun (of_holds (hheld.resolve_left (by decide))).2 hmem
  | longBasic => cases hshort
  | longLiteral => cases hshort

/-- A short form does not begin as a long one. -/
theorem string?_write_of_short (hshort : f.isLong = false) (hheld : f.hasEscapes ∨ f.holds cs)
    (hrest : rest.head? ≠ some f.mark) : string? (f.write cs ++ rest) = some (cs, rest) := by
  rw [← shortString?_write hshort hheld rest]
  have htwo : ∀ rest', f.inside cs ++ f.mark :: rest ≠ f.mark :: f.mark :: rest' := by
    intro rest' heq
    cases hinside : f.inside cs with
    | nil =>
      rw [hinside, List.nil_append, List.cons.injEq] at heq
      exact hrest (by rw [heq.2]; rfl)
    | cons d ds =>
      rw [hinside, List.cons_append, List.cons.injEq] at heq
      exact ne_mark_of_inside_eq hshort hheld hinside heq.1
  rw [write_of_short hshort]
  refine string?.eq_3 _ (fun rest' heq => ?_) (fun rest' heq => ?_)
  · obtain ⟨hmark, htail⟩ := List.cons.inj heq
    rw [← hmark] at htail
    exact htwo rest' htail
  · obtain ⟨hmark, htail⟩ := List.cons.inj heq
    rw [← hmark] at htail
    exact htwo rest' htail

theorem lineBreak?_escapeFrom (f : QuotedForm) (hc : c ≠ '\n') (cs rest : List Char) (n : Nat) :
    lineBreak? (f.escapeFrom n (c :: cs) ++ rest) = none := by
  unfold escapeFrom
  split
  · next hquote =>
    split
    · subst hquote
      rfl
    · rfl
  · next hquote =>
    rw [if_neg (by simp [hc])]
    obtain ⟨d, ds, hds, -, hbreak, hreturn⟩ := (escaped_escape hquote).exists_cons
    rw [hds]
    exact lineBreak?_cons hbreak hreturn _

/-- The line break after the opening quotes is taken away, and only that one. -/
theorem skipLineBreak_lead (hlong : f.isLong) (hheld : f.hasEscapes ∨ f.holds cs) (rest : List Char) :
    skipLineBreak (f.lead cs ++ (f.inside cs ++ f.mark :: rest)) = f.inside cs ++ f.mark :: rest := by
  by_cases hbreak : '\n' ∈ cs
  · have hlead : f.lead cs = ['\n'] := by simp [lead, hlong, hbreak]
    rw [hlead]
    rfl
  · have hlead : f.lead cs = [] := by simp [lead, hbreak]
    have hnone : lineBreak? (f.inside cs ++ f.mark :: rest) = none := by
      cases cs with
      | nil => cases f <;> rfl
      | cons c cs =>
        rw [List.mem_cons, not_or] at hbreak
        have hc : c ≠ '\n' := fun h => hbreak.1 h.symm
        cases hescapes : f.hasEscapes with
        | true =>
          have hinside : f.inside (c :: cs) = f.escapeFrom 0 (c :: cs) := if_pos hescapes
          rw [hinside]
          exact lineBreak?_escapeFrom f hc cs _ 0
        | false =>
          have hinside : f.inside (c :: cs) = c :: cs := if_neg (by simp [hescapes])
          rw [hinside]
          refine lineBreak?_cons hc ?_ _
          rintro rfl
          have hplain := (of_holds (hheld.resolve_left (by simp [hescapes]))).1 '\r' List.mem_cons_self
          exact absurd hplain.1 (by decide)
    unfold skipLineBreak
    rw [hlead, List.nil_append, hnone]
    rfl

/-- A form is read back, whatever follows it. -/
theorem string?_write (hheld : f.hasEscapes ∨ f.holds cs) (hrest : rest.head? ≠ some f.mark) :
    string? (f.write cs ++ rest) = some (cs, rest) := by
  cases hlong : f.isLong with
  | false => exact string?_write_of_short hlong hheld hrest
  | true =>
    have hwrite : f.write cs ++ rest = f.mark :: f.mark :: f.mark ::
        (f.lead cs ++ (f.inside cs ++ f.mark :: f.mark :: f.mark :: rest)) := by
      simp [write, delimiter, hlong, List.replicate_succ]
    rw [hwrite]
    cases f with
    | basic => cases hlong
    | literal => cases hlong
    | longBasic =>
      have hlength := longBasic.length_le_escapeFrom cs 0
      have hskip := skipLineBreak_lead hlong hheld ('"' :: '"' :: rest)
      refine (congrArg (longBasicString _ false) hskip).trans
        (longBasicString_escapeFrom hrest cs ?_)
      have hinside : longBasic.inside cs = longBasic.escapeFrom 0 cs := rfl
      simp only [List.length_append, hinside]
      omega
    | longLiteral =>
      obtain ⟨hplain, hrun⟩ := of_holds (hheld.resolve_left (by decide))
      have hskip := skipLineBreak_lead hlong hheld ('\'' :: '\'' :: rest)
      refine (congrArg (longLiteralString _) hskip).trans
        (longLiteralString_append hrest cs (fun c hc => ?_) hrun ?_)
      · by_cases hbreak : c = '\n'
        · exact .inr hbreak
        · exact .inl (isPlain_of_notMem_control (hplain c hc).1 hbreak)
      · have hinside : longLiteral.inside cs = cs := rfl
        simp only [List.length_append, hinside]
        omega

theorem ofText_held (cs : List Char) : (ofText cs).hasEscapes ∨ (ofText cs).holds cs := by
  unfold ofText
  cases h : [basic, literal, longBasic, longLiteral].find? (·.holds cs) with
  | some f =>
    have hf := List.find?_some h
    exact .inr hf
  | none =>
    rw [Option.getD_none]
    split
    · exact .inl rfl
    · exact .inl rfl

theorem ofKey_held (cs : List Char) :
    (ofKey cs).isLong = false ∧ ((ofKey cs).hasEscapes ∨ (ofKey cs).holds cs) := by
  unfold ofKey
  cases h : [basic, literal].find? (·.holds cs) with
  | some f =>
    have hf := List.find?_some h
    refine ⟨?_, .inr hf⟩
    have hmem := List.mem_of_find?_eq_some h
    simp only [List.mem_cons, List.not_mem_nil, or_false] at hmem
    rcases hmem with rfl | rfl
    · rfl
    · rfl
  | none => exact ⟨rfl, .inl rfl⟩

end QuotedForm

/-- A text is read back, whatever follows it except for a quote. -/
theorem string?_quote (s : String) (hrest : ∀ c ∈ rest.head?, c ≠ '"' ∧ c ≠ '\'') :
    string? ((quote s).toList ++ rest) = some (s.toList, rest) := by
  rw [quote, String.toList_ofList]
  refine QuotedForm.string?_write (QuotedForm.ofText_held _) fun h => ?_
  have := hrest _ h
  revert this
  cases QuotedForm.ofText s.toList <;> decide

/-- A key is read back, whatever follows it except for a character that may belong to a key. -/
theorem simpleKey?_key (s : String) (hrest : ∀ c ∈ rest.head?, isBare c = false) :
    simpleKey? ((key s).toList ++ rest) = some (s, rest) := by
  unfold key
  split
  · next hbare =>
    obtain ⟨hne, hall⟩ := hbare
    rw [List.all_eq_true] at hall
    obtain ⟨c, cs, hcs⟩ := List.exists_cons_of_ne_nil hne
    have hshort : shortString? (s.toList ++ rest) = none := by
      have hc := hall c (hcs ▸ List.mem_cons_self)
      rw [hcs, List.cons_append]
      unfold shortString?
      split
      · next heq =>
        rw [List.cons.injEq] at heq
        rw [heq.1] at hc
        cases hc
      · next heq =>
        rw [List.cons.injEq] at heq
        rw [heq.1] at hc
        cases hc
      · rfl
    unfold simpleKey?
    rw [hshort, takeWhile_append_of_head hall hrest, dropWhile_append_of_head hall hrest, hcs]
    simp only [← hcs, String.ofList_toList]
  · rw [String.toList_ofList]
    have hheld := QuotedForm.ofKey_held s.toList
    unfold simpleKey?
    rw [QuotedForm.shortString?_write hheld.1 hheld.2]
    simp only [String.ofList_toList]

end Toml

end SeismicHazard
