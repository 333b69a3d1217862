import SeismicHazard.Config.Document
import SeismicHazard.Proofs.Toml.Value

/-!
# Documents in TOML are read back

A document is read line by line. Lines that are put together change a document as they do one after the
other.

* `Toml.Takes`: how some lines change a document.
* `Toml.takes_header`, `Toml.takes_entry`: a header, and a key with its value.
* `Toml.ReadsLine`: the characters of a value, which may be a list over several lines.
-/

namespace SeismicHazard

namespace Toml

open TomlNode

variable {cs cs' rest : List Char} {d d' d'' : Document} {v : Toml} {name : String}

/-! ### Lines -/

/-- Whether reading the characters, at the beginning of a line, changes a document from `d` to `d'`,
whatever follows them. -/
def Takes (cs : List Char) (d d' : Document) : Prop := ∀ (rest : List Char) (fuel : Nat),
  (cs ++ rest).length < fuel → ∃ fuel', rest.length < fuel' ∧
    lines? fuel d (cs ++ rest) = lines? fuel' d' rest

namespace Takes

theorem nil (d : Document) : Takes [] d d := fun _ fuel hfuel => ⟨fuel, hfuel, rfl⟩

theorem append (h : Takes cs d d') (h' : Takes cs' d' d'') : Takes (cs ++ cs') d d'' := by
  intro rest fuel hfuel
  rw [List.append_assoc] at hfuel ⊢
  obtain ⟨fuel', hfuel', hread⟩ := h _ fuel hfuel
  obtain ⟨fuel'', hfuel'', hread'⟩ := h' _ fuel' hfuel'
  exact ⟨fuel'', hfuel'', hread.trans hread'⟩

/-- A document that has been read to its end. -/
theorem lines?_eq_some (h : Takes cs d d') : lines? (cs.length + 1) d cs = some d' := by
  obtain ⟨fuel, hfuel, hread⟩ := h [] (cs.length + 1) (by simp)
  obtain ⟨k, rfl⟩ : ∃ k, fuel = k + 1 := ⟨fuel - 1, by simp at hfuel; omega⟩
  rw [List.append_nil] at hread
  exact hread

end Takes

theorem endLine?_break (rest : List Char) : endLine? ('\n' :: rest) = some rest := rfl

theorem takes_blank (d : Document) : Takes ['\n'] d d := by
  intro rest fuel hfuel
  obtain ⟨k, rfl⟩ : ∃ k, fuel = k + 1 := ⟨fuel - 1, by simp at hfuel; omega⟩
  refine ⟨k, by simpa using hfuel, ?_⟩
  rw [lines?.eq_2, List.singleton_append, endLine?_break]
  cases rest with
  | nil =>
    obtain ⟨j, rfl⟩ : ∃ j, k = j + 1 := ⟨k - 1, by simp at hfuel; omega⟩
    rfl
  | cons c rest => rfl

/-- A line that neither is blank nor begins with blanks. -/
theorem takes_line (hsolid : ∃ c ds, cs = c :: ds ∧ Solid c)
    (h : ∀ rest, line? d (cs ++ '\n' :: rest) = some (d', '\n' :: rest)) :
    Takes (cs ++ ['\n']) d d' := by
  intro rest fuel hfuel
  obtain ⟨k, rfl⟩ : ∃ k, fuel = k + 1 := ⟨fuel - 1, by simp at hfuel; omega⟩
  refine ⟨k, by simp at hfuel; omega, ?_⟩
  have hread := h rest
  obtain ⟨c, ds, rfl, hc⟩ := hsolid
  rw [List.append_assoc, List.singleton_append, List.cons_append] at *
  have hend : endLine? (c :: (ds ++ '\n' :: rest)) = none := by
    rw [endLine?, hc.skipBlanks_cons, hc.skipComment_cons]
    exact hc.lineBreak?_cons _
  rw [lines?.eq_2, hend, hc.skipBlanks_cons, hread]
  simp only [Option.bind_eq_bind, Option.bind_some, endLine?_break]
  cases rest with
  | nil =>
    obtain ⟨j, rfl⟩ : ∃ j, k = j + 1 := ⟨k - 1, by simp at hfuel; omega⟩
    rfl
  | cons c rest => rfl

/-- The header of a table. -/
theorem takes_header {path : List String} {root : TomlFields}
    (hhead : cs.head? ≠ some '[')
    (hpath : ∀ rest, keyPath? (cs ++ ']' :: rest) = some (path ++ [name], ']' :: rest))
    (hroot : modifyAt (openTable name) path d.root = some root) :
    Takes ('[' :: cs ++ [']'] ++ ['\n']) d ⟨path ++ [name], root⟩ := by
  refine takes_line ⟨'[', _, rfl, by decide⟩ fun rest => ?_
  have hline : line? d ('[' :: (cs ++ ']' :: '\n' :: rest)) = header? d (cs ++ ']' :: '\n' :: rest) := by
    refine line?.eq_2 _ _ fun rest' heq => ?_
    cases cs with
    | nil => cases heq
    | cons c cs => exact hhead (congrArg some (List.cons.inj heq).1)
  have htext : '[' :: cs ++ [']'] ++ '\n' :: rest = '[' :: (cs ++ ']' :: '\n' :: rest) := by simp
  rw [htext, hline, header?, hpath]
  simp only [Option.bind_eq_bind, Option.bind_some, List.getLast?_append, List.getLast?_singleton,
    Option.some_or, List.dropLast_concat, hroot]
  rfl

/-! ### Keys with values -/

/-- The characters of a value at the end of a line. -/
structure ReadsLine (cs : List Char) (v : Toml) : Prop where
  solid : ∃ c ds, cs = c :: ds ∧ Solid c
  value : ∀ (fuel : Nat) (rest : List Char), cs.length < fuel →
    value? fuel maxDepth (cs ++ '\n' :: rest) = some (v, '\n' :: rest)

theorem Reads.readsLine (h : Reads cs v) : ReadsLine cs v where
  solid := by
    obtain ⟨c, ds, hcs, hc, -⟩ := h.solid
    exact ⟨c, ds, hcs, hc⟩
  value fuel rest hfuel := by
    obtain ⟨k, rfl⟩ : ∃ k, fuel = k + 1 := ⟨fuel - 1, by omega⟩
    exact h.value _ _ _ fun c hc => by
      rw [← Option.some.inj hc]
      decide

theorem length_le_flatMap_itemLine (items : List (List Char × Toml)) :
    items.length ≤ (items.flatMap fun p => itemLine p.1).length := by
  induction items with
  | nil => exact Nat.zero_le _
  | cons p items ih =>
    have hitem : 1 ≤ (itemLine p.1).length := by simp [itemLine]
    rw [List.flatMap_cons, List.length_append, List.length_cons]
    omega

/-- A list of several values has each on a line of its own. -/
theorem toList_listText_lines (p q : String × Toml) (items : List (String × Toml)) :
    (Config.listText ((p :: q :: items).map (·.1))).toList =
      '[' :: '\n' :: ((((p :: q :: items).map fun p => (p.1.toList, p.2)).flatMap
        fun p => itemLine p.1) ++ [']']) := by
  have htext : ∀ items : List (String × Toml),
      (String.join ((items.map (·.1)).map fun x => "    " ++ x ++ ",\n")).toList =
        (items.map fun p => (p.1.toList, p.2)).flatMap fun p => itemLine p.1 := by
    intro items
    rw [String.toList_join, List.map_map, List.flatMap_map, List.flatMap_map]
    exact List.flatMap_congr fun p _ => by simp [itemLine]
  rw [← htext, Config.listText.eq_3 _ (by simp) (by simp)]
  simp only [String.toList_append]
  rfl

/-- A list of values as it is written. -/
theorem readsLine_listText (items : List (String × Toml))
    (h : ∀ p ∈ items, Reads p.1.toList p.2) :
    ReadsLine (Config.listText (items.map (·.1))).toList (list (items.map (·.2))) := by
  match items with
  | [] =>
    refine ⟨⟨'[', [']'], rfl, by decide⟩, fun fuel rest hfuel => ?_⟩
    obtain ⟨k, rfl⟩ : ∃ k, fuel = k + 2 :=
      ⟨fuel - 2, by simp [Config.listText] at hfuel; omega⟩
    exact value?_nil _
  | [p] =>
    have hp := h p List.mem_cons_self
    have htext : (Config.listText [p.1]).toList = '[' :: (p.1.toList ++ [']']) := by
      simp [Config.listText]
    rw [List.map_singleton, htext]
    refine ⟨⟨'[', _, rfl, by decide⟩, fun fuel rest hfuel => ?_⟩
    obtain ⟨c, ds, hcs, -⟩ := hp.solid
    obtain ⟨k, rfl⟩ : ∃ k, fuel = k + 3 :=
      ⟨fuel - 3, by simp [hcs] at hfuel; omega⟩
    rw [List.cons_append, List.append_assoc, List.singleton_append]
    exact value?_one hp _
  | p :: q :: items =>
    have hvalues : ∀ p' ∈ (p :: q :: items).map fun p => (p.1.toList, p.2), Reads p'.1 p'.2 :=
      List.forall_mem_map.2 h
    rw [toList_listText_lines]
    refine ⟨⟨'[', _, rfl, by decide⟩, fun fuel rest hfuel => ?_⟩
    have hlength := length_le_flatMap_itemLine ((p :: q :: items).map fun p => (p.1.toList, p.2))
    obtain ⟨k, rfl⟩ : ∃ k, fuel = k + 1 := ⟨fuel - 1, by simp at hfuel; omega⟩
    rw [List.cons_append, List.cons_append, List.append_assoc, List.singleton_append]
    refine (value?_lines _ hvalues _ ?_).trans ?_
    · simp only [List.length_cons, List.length_append] at hfuel
      omega
    · rw [List.map_map]
      rfl

theorem solid_of_isBare {c : Char} (h : isBare c) : Solid c ∧ c ≠ '[' := by
  have hne : ∀ d : Char, isBare d = false → c ≠ d := by
    rintro d hd rfl
    rw [hd] at h
    cases h
  simp only [Solid, List.mem_cons, List.not_mem_nil, or_false, not_or]
  exact ⟨⟨hne _ rfl, hne _ rfl, hne _ rfl, hne _ rfl, hne _ rfl⟩, hne _ rfl⟩

theorem exists_key (s : String) : ∃ c ds, (key s).toList = c :: ds ∧ Solid c ∧ c ≠ '[' := by
  unfold key
  split
  · next h =>
    obtain ⟨c, ds, hcs⟩ := List.exists_cons_of_ne_nil h.1
    exact ⟨c, ds, hcs, solid_of_isBare (List.all_eq_true.1 h.2 c (hcs ▸ List.mem_cons_self))⟩
  · obtain ⟨ds, hds⟩ := (QuotedForm.ofKey s.toList).exists_write s.toList
    refine ⟨_, ds, (String.toList_ofList).trans hds, ?_⟩
    cases QuotedForm.ofKey s.toList <;> decide

/-- A key that is followed by its value. -/
theorem keyPath?_key (s : String) (rest : List Char) :
    keyPath? ((key s).toList ++ ' ' :: '=' :: rest) = some ([s], '=' :: rest) := by
  obtain ⟨c, ds, hkey, hc, -⟩ := exists_key s
  have hread : simpleKey? ((key s).toList ++ ' ' :: '=' :: rest) = some (s, ' ' :: '=' :: rest) :=
    simpleKey?_key s fun d hd => by
      rw [← Option.some.inj hd]
      rfl
  rw [keyPath?, maxDepth, keyParts?]
  rw [hkey, List.cons_append] at hread ⊢
  rw [hc.skipBlanks_cons, hread]
  rfl

/-- A key with its value. -/
theorem takes_entry {path : List String} {root root' : TomlFields} (h : ReadsLine cs v)
    (hroot : modifyAt (insertDotted [] name v) path root = some root') :
    Takes ((key name).toList ++ [' ', '=', ' '] ++ cs ++ ['\n']) ⟨path, root⟩ ⟨path, root'⟩ := by
  obtain ⟨c, ds, hkey, hc, hbracket⟩ := exists_key name
  refine takes_line ⟨c, _, by rw [hkey]; rfl, hc⟩ fun rest => ?_
  have htext : (key name).toList ++ [' ', '=', ' '] ++ cs ++ '\n' :: rest =
      (key name).toList ++ ' ' :: '=' :: ' ' :: (cs ++ '\n' :: rest) := by simp
  have hline : line? ⟨path, root⟩ ((key name).toList ++ ' ' :: '=' :: ' ' :: (cs ++ '\n' :: rest)) =
      entry? ⟨path, root⟩ ((key name).toList ++ ' ' :: '=' :: ' ' :: (cs ++ '\n' :: rest)) := by
    rw [hkey, List.cons_append]
    exact line?.eq_3 _ _ (fun _ heq => hbracket (List.cons.inj heq).1)
      fun _ heq => hbracket (List.cons.inj heq).1
  have hskip : skipBlanks (' ' :: (cs ++ '\n' :: rest)) = cs ++ '\n' :: rest := by
    obtain ⟨c, ds, rfl, hc⟩ := h.solid
    exact hc.skipBlanks_cons _
  rw [htext, hline, entry?, keyPath?_key]
  simp only [Option.bind_eq_bind, Option.bind_some, List.getLast?_singleton, List.dropLast_singleton]
  rw [hskip, h.value _ _ (by simp; omega)]
  simp only [Option.bind_some, hroot]
  rfl

end Toml

end SeismicHazard
