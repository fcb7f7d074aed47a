import Mathlib.Algebra.Group.Nat.Defs
import Mathlib.Data.List.TakeWhile
import Statechart.Time.Rfc3339

/-! The text of a timestamp. Each scanner takes from a written text just what was written for it, so
that the whole text is read as the moment it was written for. -/
namespace Statechart.Rfc3339

open Text

theorem isBlank_of_isDigit {c : Char} (h : c.isDigit = true) : isBlank c = false := by
  have hrange : 48 ≤ c.toNat ∧ c.toNat ≤ 57 := Char.isDigit_iff_toNat.mp h
  simp only [isBlank, List.mem_cons, List.not_mem_nil, or_false, Bool.or_eq_false_iff,
    Bool.and_eq_false_iff, decide_eq_false_iff_not]
  omega

theorem dropWhile_blank {c : Char} (h : isBlank c = false) (rest : List Char) :
    (c :: rest).dropWhile isBlank = c :: rest := by
  rw [List.dropWhile_cons, if_neg (by simp [h])]

theorem takeWhile_digits {ds : List Char} (hds : ∀ d ∈ ds, d.isDigit = true) {c : Char}
    (hc : c.isDigit = false) (rest : List Char) :
    (ds ++ c :: rest).takeWhile Char.isDigit = ds := by
  rw [List.takeWhile_append_of_pos hds, List.takeWhile_cons, if_neg (by simp [hc]),
    List.append_nil]

theorem length_padded {width n : Nat} (hpos : 0 < width) (h : n < 10 ^ width) :
    (padded width n).length = width := by
  rw [padded, List.length_leftpad]
  exact Nat.max_eq_left ((Nat.length_toDigits_le_iff (by decide) hpos).mpr h)

theorem padded_ne_nil {width : Nat} (hpos : 0 < width) (n : Nat) : padded width n ≠ [] := by
  have hlength : width ≤ (padded width n).length := by
    rw [padded, List.length_leftpad]
    exact Nat.le_max_left _ _
  exact List.length_pos_iff.mp (Nat.lt_of_lt_of_le hpos hlength)

theorem exists_digit {width : Nat} (hpos : 0 < width) (n : Nat) :
    ∃ d ds, padded width n = d :: ds ∧ d.isDigit = true := by
  obtain ⟨d, ds, hds⟩ := List.exists_cons_of_ne_nil (padded_ne_nil hpos n)
  exact ⟨d, ds, hds, isDigit_of_mem_padded (hds ▸ List.mem_cons_self)⟩

theorem number_padded (width n : Nat) : number (padded width n) = n :=
  ofDigitChars_padded width n

theorem mark_cons {c : Char} (h : isBlank c = false) (rest : List Char) :
    mark c (c :: rest) = some ((), rest) := by
  rw [mark, dropWhile_blank h]
  simp

theorem field_padded {most n : Nat} (hpos : 0 < most) (h : n < 10 ^ most) (rest : List Char) :
    field most (padded most n ++ rest) = some (n, rest) := by
  obtain ⟨d, ds, hds, hdigit⟩ := exists_digit hpos n
  have hblank : (padded most n ++ rest).dropWhile isBlank = padded most n ++ rest := by
    rw [hds, List.cons_append]
    exact dropWhile_blank (isBlank_of_isDigit hdigit) _
  have htake : (padded most n ++ rest).take most = padded most n :=
    List.take_left' (length_padded hpos h)
  have hdigits : (padded most n).takeWhile Char.isDigit = padded most n :=
    List.takeWhile_eq_self_iff.mpr fun _ => isDigit_of_mem_padded
  rw [field, hblank, htake, hdigits, List.drop_left, number_padded, if_neg]
  simpa using padded_ne_nil hpos n

theorem year_signed (n : Nat) (rest : List Char) :
    year ('-' :: padded 4 n ++ '-' :: rest) = some (-(n : Int), '-' :: rest) ∧
      year ('+' :: padded 4 n ++ '-' :: rest) = some ((n : Int), '-' :: rest) := by
  have htake : (padded 4 n ++ '-' :: rest).takeWhile Char.isDigit = padded 4 n :=
    takeWhile_digits (fun _ => isDigit_of_mem_padded) rfl rest
  have hne : (padded 4 n).isEmpty = false := by simpa using padded_ne_nil (by decide) n
  constructor
  all_goals
    rw [year, List.cons_append, dropWhile_blank rfl]
    simp only [htake, hne, number_padded, List.drop_left]
    rfl

theorem year_chars (y : Int) (rest : List Char) :
    year (yearChars y ++ '-' :: rest) = some (y, '-' :: rest) := by
  unfold yearChars
  split
  · rename_i hbare
    have hfield : field 4 (padded 4 y.natAbs ++ '-' :: rest) = some (y.natAbs, '-' :: rest) :=
      field_padded (by decide) (by omega) _
    obtain ⟨d, ds, hds, hdigit⟩ := exists_digit (show 0 < 4 by decide) y.natAbs
    have hblank := isBlank_of_isDigit hdigit
    rw [hds, List.cons_append] at hfield ⊢
    have hsigns : d ≠ '-' ∧ d ≠ '+' := by
      constructor <;> rintro rfl <;> cases hdigit
    unfold year
    rw [dropWhile_blank hblank]
    split
    · rename_i h
      exact absurd (List.cons.inj h).1 hsigns.1
    · rename_i h
      exact absurd (List.cons.inj h).1 hsigns.2
    · rw [hfield, Option.map_some, Int.natAbs_of_nonneg hbare.1]
  · rename_i hsigned
    split
    · rw [(year_signed y.natAbs rest).1]
      congr 2
      omega
    · rw [(year_signed y.natAbs rest).2]
      congr 2
      omega

theorem fraction_padded {places n : Nat} (hpos : 0 < places) (hplaces : places ≤ 9)
    (h : n < 10 ^ places) (rest : List Char) :
    fraction ('.' :: padded places n ++ 'Z' :: rest) =
      some (10 ^ (9 - places) * n, 'Z' :: rest) := by
  have htake : (padded places n ++ 'Z' :: rest).takeWhile Char.isDigit = padded places n :=
    takeWhile_digits (fun _ => isDigit_of_mem_padded) rfl rest
  have hne : (padded places n).isEmpty = false := by simpa using padded_ne_nil hpos n
  have hlength := length_padded hpos h
  have hwhole : (padded places n).take 9 = padded places n :=
    List.take_of_length_le (by rw [hlength]; exact hplaces)
  rw [fraction.eq_def, List.cons_append]
  simp only [htake, hne, hwhole, List.drop_left' hlength, number, List.rightpad, hlength,
    Nat.ofDigitChars_append, Nat.ofDigitChars_replicate_zero, ofDigitChars_padded]
  rfl

theorem fraction_chars {nanos : Nat} (h : nanos < 1000000000) (rest : List Char) :
    fraction (fractionChars nanos ++ 'Z' :: rest) = some (nanos, 'Z' :: rest) := by
  unfold fractionChars
  split
  · rename_i hzero
    rw [hzero]
    rfl
  split
  · rw [fraction_padded (by decide) (by decide) (by omega)]
    congr 2
    omega
  split
  · rw [fraction_padded (by decide) (by decide) (by omega)]
    congr 2
    omega
  · rw [fraction_padded (by decide) (by decide) (by omega)]
    congr 2
    omega

theorem dateOf?_eq (d : Date) : Date.of? d.year d.month d.day = some d :=
  dif_pos d.valid

theorem timestampOf?_eq (t : Timestamp) :
    Timestamp.of? t.date t.hour t.minute t.second t.nanos = some t :=
  dif_pos t.valid

theorem bind_of_eq_some {α β : Type} {o : Option α} {x : α} (h : o = some x) (f : α → Option β) :
    (o >>= f) = f x := by
  rw [h]
  rfl

theorem ofChars?_chars (t : Timestamp) : ofChars? (chars t) = some t := by
  obtain ⟨-, ⟨-, hmonth⟩, -, hday⟩ := t.date.valid
  obtain ⟨hhour, hminute, hsecond, hnanos⟩ := t.valid
  have hdays : daysInMonth t.date.year t.date.month ≤ 31 := by
    unfold daysInMonth
    split <;> split <;> omega
  have two {n : Nat} (h : n < 100) (rest : List Char) :
      field 2 (padded 2 n ++ rest) = some (n, rest) := field_padded (by decide) h rest
  have month := two (n := t.date.month) (by omega)
  have day := two (n := t.date.day) (by omega)
  have hour := two (n := t.hour) (by omega)
  have minute := two (n := t.minute) (by omega)
  have second := two (n := t.second) (by omega)
  have hchars : chars t = yearChars t.date.year ++ '-' :: (padded 2 t.date.month ++ '-' ::
      (padded 2 t.date.day ++ 'T' :: (padded 2 t.hour ++ ':' :: (padded 2 t.minute ++ ':' ::
        (padded 2 t.second ++ (fractionChars t.nanos ++ ['Z'])))))) := by
    simp only [chars, List.append_assoc, List.cons_append]
  -- the scanners one by one, each on what the one before it has left
  rw [hchars]
  refine (bind_of_eq_some (year_chars _ _) _).trans ?_
  refine (bind_of_eq_some (mark_cons rfl _) _).trans ?_
  refine (bind_of_eq_some (month _) _).trans ?_
  refine (bind_of_eq_some (mark_cons rfl _) _).trans ?_
  refine (bind_of_eq_some (day _) _).trans ?_
  refine (bind_of_eq_some List.head?_cons _).trans ?_
  refine (bind_of_eq_some (if_pos (by decide)) _).trans ?_
  refine (bind_of_eq_some (hour _) _).trans ?_
  refine (bind_of_eq_some (mark_cons rfl _) _).trans ?_
  refine (bind_of_eq_some (minute _) _).trans ?_
  refine (bind_of_eq_some (mark_cons rfl _) _).trans ?_
  refine (bind_of_eq_some (second _) _).trans ?_
  refine (bind_of_eq_some (fraction_chars hnanos _) _).trans ?_
  refine (bind_of_eq_some (x := (0, [])) rfl _).trans ?_
  refine (bind_of_eq_some (if_pos rfl) _).trans ?_
  refine (bind_of_eq_some (dateOf?_eq t.date) _).trans ?_
  refine (bind_of_eq_some (timestampOf?_eq t) _).trans ?_
  exact if_pos rfl

/-- A moment that is written is read as the same moment. -/
theorem read?_text (t : Timestamp) : read? (text t) = some t := by
  rw [read?, text, String.toList_ofList, ofChars?_chars]

end Statechart.Rfc3339
