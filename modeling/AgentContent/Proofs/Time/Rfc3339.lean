import AgentContent.Proofs.Text.Numeral

/-!
# AgentContent.Proofs.Time.Rfc3339

Timestamps read back: the form of data documents says every instant, leap seconds and signed years
included.

* `Instant.looseYear?_writeYear`, `Instant.fraction?_writeFraction`: the parts with a form of their
  own.
* `Instant.readLoose?_write`: the whole timestamp.
* `Instant.read?_write`: the strict form, which has years of four digits only.
-/

namespace AgentContent

theorem daysInMonth_le (year : Int) (month : Nat) :
    daysInMonth year month ≤ if month < 13 then 31 else 0 := by
  unfold daysInMonth
  split
  all_goals first
    | (split <;> simp; done)
    | simp

namespace Instant

theorem ofFields?_self (t : Instant) :
    ofFields? t.year t.month t.day t.hour t.minute t.second t.nano = some t := by
  simp only [ofFields?, t.day_valid, t.time_valid, dif_pos]

theorem fields_lt (t : Instant) :
    t.month < 13 ∧ t.day < 32 ∧ t.hour < 24 ∧ t.minute < 60 ∧ t.second < 60 := by
  have hd := t.day_valid
  have ht := t.time_valid
  simp only [isDay, isTime, Bool.and_eq_true, decide_eq_true_eq] at hd ht
  obtain ⟨⟨-, hday⟩, hle⟩ := hd
  obtain ⟨⟨⟨hh, hm⟩, hs⟩, -⟩ := ht
  have hmonth := daysInMonth_le t.year t.month
  refine ⟨?_, ?_, hh, hm, hs⟩ <;> (split at hmonth <;> omega)

/-! ## Fields -/

theorem trimStart_digits {w rest : List Char} (hne : w ≠ []) (h : ∀ c ∈ w, c.isDigit = true) :
    trimStart (w ++ rest) = w ++ rest := by
  obtain ⟨c, cs, rfl⟩ := List.exists_cons_of_ne_nil hne
  have hc := isBlank_of_isDigit (h c List.mem_cons_self)
  exact dropWhile_of_stops (Stops.cons hc)

theorem digits?_append {least most : Nat} {w rest : List Char} (h : ∀ c ∈ w, c.isDigit = true)
    (hl : least ≤ w.length) (hm : w.length ≤ most) (hr : Stops Char.isDigit rest) :
    digits? least most (w ++ rest) = some (natOfDigits w, rest) := by
  have hstop : Stops Char.isDigit (rest.take (most - w.length)) := by
    cases rest with
    | nil => simpa using hr
    | cons c cs =>
      cases most - w.length with
      | zero => exact Stops.nil
      | succ k => exact Stops.cons (hr c rfl)
  have htake : ((w ++ rest).take most).takeWhile Char.isDigit = w := by
    rw [List.take_append, List.take_of_length_le hm]
    exact takeWhile_append_stop h hstop
  simp [digits?, htake, Nat.not_lt.2 hl]

theorem looseDigits?_padded {n : Nat} {rest : List Char} (hn : n < 100)
    (hr : Stops Char.isDigit rest) : looseDigits? 2 (padded 2 n ++ rest) = some (n, rest) := by
  have hd : ∀ c ∈ padded 2 n, c.isDigit = true := fun _ => isDigit_of_mem_padded
  have hlen : (padded 2 n).length = 2 := length_padded (by decide) hn
  rw [looseDigits?, trimStart_digits (padded_ne_nil 2 n) hd,
    digits?_append hd (by omega) (by omega) hr, natOfDigits_padded]

/-- A year is followed by the sign between the fields. -/
theorem looseYear?_writeYear (year : Int) (rest : List Char) :
    looseYear? (writeYear year ++ '-' :: rest) = some (year, '-' :: rest) := by
  have hd : ∀ c ∈ padded 4 year.natAbs, c.isDigit = true := fun _ => isDigit_of_mem_padded
  have hstop : Stops Char.isDigit ('-' :: rest) := Stops.cons (by decide)
  have hpos : 1 ≤ (padded 4 year.natAbs).length :=
    List.length_pos_iff.2 (padded_ne_nil 4 year.natAbs)
  have hsigned : digits? 1 (padded 4 year.natAbs ++ '-' :: rest).length
      (padded 4 year.natAbs ++ '-' :: rest) = some (year.natAbs, '-' :: rest) := by
    rw [digits?_append hd hpos (by simp) hstop, natOfDigits_padded]
  unfold writeYear
  by_cases h : (0 ≤ year && year ≤ 9999) = true
  · rw [if_pos h]
    simp only [Bool.and_eq_true, decide_eq_true_eq] at h
    have hnat : year.toNat = year.natAbs := by omega
    have hlen : (padded 4 year.natAbs).length = 4 := length_padded (by decide) (by omega)
    rw [hnat, looseYear?, trimStart_digits (padded_ne_nil 4 _) hd]
    obtain ⟨c, cs, hc⟩ := List.exists_cons_of_ne_nil (padded_ne_nil 4 year.natAbs)
    have hne := ne_sign_of_isDigit (hd c (by rw [hc]; exact List.mem_cons_self))
    have hread : digits? 1 4 (padded 4 year.natAbs ++ '-' :: rest) =
        some (year.natAbs, '-' :: rest) := by
      rw [digits?_append hd hpos (by omega) hstop, natOfDigits_padded]
    rw [hc] at hread ⊢
    split
    · rename_i heq; cases heq; exact absurd rfl hne.1
    · rename_i heq; cases heq; exact absurd rfl hne.2
    · rw [hread]
      simp only [Option.map_some, Option.some.injEq, Prod.mk.injEq, and_true]
      omega
  · rw [if_neg h]
    by_cases hneg : year < 0
    · rw [if_pos hneg]
      have htrim : trimStart ('-' :: (padded 4 year.natAbs ++ '-' :: rest)) =
          '-' :: (padded 4 year.natAbs ++ '-' :: rest) := rfl
      rw [List.cons_append, looseYear?, htrim]
      simp only [hsigned, Option.map_some, Option.some.injEq, Prod.mk.injEq, and_true]
      omega
    · rw [if_neg hneg]
      have htrim : trimStart ('+' :: (padded 4 year.natAbs ++ '-' :: rest)) =
          '+' :: (padded 4 year.natAbs ++ '-' :: rest) := rfl
      rw [List.cons_append, looseYear?, htrim]
      simp only [hsigned, Option.map_some, Option.some.injEq, Prod.mk.injEq, and_true]
      omega

theorem fraction?_padded {width n : Nat} {rest : List Char} (hw : 0 < width) (h9 : width ≤ 9)
    (hn : n < 10 ^ width) (hr : Stops Char.isDigit rest) :
    fraction? ('.' :: padded width n ++ rest) = some (n * Nat.pow 10 (9 - width), rest) := by
  have hd : ∀ c ∈ padded width n, c.isDigit = true := fun _ => isDigit_of_mem_padded
  have hlen : (padded width n).length = width := length_padded hw hn
  have hne : (padded width n).isEmpty = false := by simp [padded_ne_nil]
  have hused : (padded width n).take 9 = padded width n := List.take_of_length_le (by omega)
  rw [List.cons_append, fraction?, takeWhile_append_stop hd hr, dropWhile_append_stop hd hr]
  simp [hne, hused, hlen, natOfDigits_padded]

theorem fraction?_writeFraction {nano : Nat} (h : nano < 1000000000) (rest : List Char) :
    fraction? (writeFraction nano ++ 'Z' :: rest) = some (nano, 'Z' :: rest) := by
  have hstop : Stops Char.isDigit ('Z' :: rest) := Stops.cons (by decide)
  unfold writeFraction
  by_cases h0 : nano = 0
  · rw [if_pos h0, h0]; rfl
  · rw [if_neg h0]
    by_cases h3 : nano % 1000000 = 0
    · rw [if_pos h3, fraction?_padded (by decide) (by decide) (by omega) hstop]
      have : nano / 1000000 * Nat.pow 10 (9 - 3) = nano :=
        Nat.div_mul_cancel (Nat.dvd_of_mod_eq_zero h3)
      rw [this]
    · rw [if_neg h3]
      by_cases h6 : nano % 1000 = 0
      · rw [if_pos h6, fraction?_padded (by decide) (by decide) (by omega) hstop]
        have : nano / 1000 * Nat.pow 10 (9 - 6) = nano :=
          Nat.div_mul_cancel (Nat.dvd_of_mod_eq_zero h6)
        rw [this]
      · rw [if_neg h6, fraction?_padded (by decide) (by decide) (by omega) hstop]
        exact congrArg (fun n => some (n, 'Z' :: rest)) (Nat.mul_one nano)

/-! ## The timestamp -/

theorem back?_zero (t : Instant) : t.back? 0 = some t := by
  obtain ⟨-, -, hh, hm, -⟩ := t.fields_lt
  have hmod : (((60 * t.hour + t.minute : Nat) : Int) - 0) % 1440 =
      (60 * t.hour + t.minute : Nat) := by omega
  have hlow : ¬((60 * t.hour + t.minute : Nat) : Int) - 0 < 0 := by omega
  have hhigh : ¬1440 ≤ ((60 * t.hour + t.minute : Nat) : Int) - 0 := by omega
  have hhour : (60 * t.hour + t.minute) / 60 = t.hour := by omega
  have hminute : (60 * t.hour + t.minute) % 60 = t.minute := by omega
  simp only [back?, hmod, if_neg hlow, if_neg hhigh, Int.toNat_natCast, hhour, hminute,
    ofFields?_self]

theorem ofZoned?_shown (t : Instant) :
    ofZoned? t.year t.month t.day t.hour t.minute t.shownSecond t.shownNano 0 = some t := by
  have ht := t.time_valid
  simp only [isTime, Bool.and_eq_true, Bool.or_eq_true, decide_eq_true_eq] at ht
  obtain ⟨⟨-, hs⟩, hn⟩ := ht
  have hsecond : (if t.shownSecond = 60 then 59 else t.shownSecond) = t.second := by
    unfold shownSecond; split <;> split <;> omega
  have hnano : (if t.shownSecond = 60 then 1000000000 + t.shownNano else t.shownNano) = t.nano := by
    unfold shownSecond shownNano; split <;> split <;> omega
  simp only [ofZoned?, hsecond, hnano, ofFields?_self]
  exact back?_zero t

theorem write_eq (t : Instant) (zone : List Char) : t.write zone =
    writeYear t.year ++ '-' :: (padded 2 t.month ++ '-' :: (padded 2 t.day ++ 'T' ::
      (padded 2 t.hour ++ ':' :: (padded 2 t.minute ++ ':' ::
        (padded 2 t.shownSecond ++ (writeFraction t.shownNano ++ zone)))))) := by
  simp [write]

theorem stops_writeFraction (nano : Nat) : Stops Char.isDigit (writeFraction nano ++ ['Z']) := by
  unfold writeFraction
  split
  · exact Stops.cons (by decide)
  · split
    · exact Stops.cons (by decide)
    · split <;> exact Stops.cons (by decide)

theorem shownSecond_lt (t : Instant) : t.shownSecond < 100 := by
  obtain ⟨-, -, -, -, hs⟩ := t.fields_lt
  unfold shownSecond
  split <;> omega

theorem shownNano_lt (t : Instant) : t.shownNano < 1000000000 :=
  Nat.mod_lt _ (by decide)

theorem readLoose?_write (t : Instant) : readLoose? (t.write ['Z']) = some t := by
  obtain ⟨hmo, hd, hh, hmi, -⟩ := t.fields_lt
  have hfield : ∀ c : Char, isBlank c = false → ∀ cs, looseChar? c (c :: cs) = some cs := by
    intro c hc cs
    rw [looseChar?, trimStart, dropWhile_of_stops (Stops.cons hc), char?, if_pos rfl]
  rw [write_eq]
  simp only [readLoose?, looseYear?_writeYear, hfield '-' (by decide), Option.bind_eq_bind,
    Option.bind_some]
  rw [looseDigits?_padded (by omega) (Stops.cons (by decide))]
  simp only [hfield '-' (by decide), Option.bind_some]
  rw [looseDigits?_padded (by omega) (Stops.cons (by decide))]
  have hseparator : ∀ cs, separator? ('T' :: cs) = some cs := fun _ => rfl
  simp only [hseparator, Option.bind_some]
  rw [looseDigits?_padded (by omega) (Stops.cons (by decide))]
  simp only [hfield ':' (by decide), Option.bind_some]
  rw [looseDigits?_padded (by omega) (Stops.cons (by decide))]
  simp only [hfield ':' (by decide), Option.bind_some]
  rw [looseDigits?_padded t.shownSecond_lt (stops_writeFraction _)]
  simp only [Option.bind_some, fraction?_writeFraction t.shownNano_lt]
  exact ofZoned?_shown t

/-- The document form of an instant says which one it is. -/
theorem readLoose?_toData (t : Instant) : readLoose? t.toData.toList = some t := by
  rw [toData, String.toList_ofList, readLoose?_write]

/-! ## The strict form -/

theorem digits?_padded {width n : Nat} {rest : List Char} (hw : 0 < width) (hn : n < 10 ^ width)
    (hr : Stops Char.isDigit rest) :
    digits? width width (padded width n ++ rest) = some (n, rest) := by
  have hd : ∀ c ∈ padded width n, c.isDigit = true := fun _ => isDigit_of_mem_padded
  have hlen : (padded width n).length = width := length_padded hw hn
  rw [digits?_append hd (by omega) (by omega) hr, natOfDigits_padded]

/-- A year of four digits, with no sign. -/
theorem writeYear_of_le {year : Int} (h0 : 0 ≤ year) (h1 : year ≤ 9999) :
    writeYear year = padded 4 year.toNat := by
  simp [writeYear, h0, h1]

theorem read?_write {t : Instant} (h0 : 0 ≤ t.year) (h1 : t.year ≤ 9999) :
    read? (t.write ['Z']) = some t := by
  obtain ⟨hmo, hd, hh, hmi, -⟩ := t.fields_lt
  have hfield : ∀ (c : Char) cs, char? c (c :: cs) = some cs := fun c cs => by
    rw [char?, if_pos rfl]
  rw [write_eq, writeYear_of_le h0 h1, read?, digits?_padded (by decide) (by omega)
    (Stops.cons (by decide))]
  simp only [hfield, Option.bind_eq_bind, Option.bind_some]
  rw [digits?_padded (by decide) (by omega) (Stops.cons (by decide))]
  simp only [hfield, Option.bind_some]
  rw [digits?_padded (by decide) (by omega) (Stops.cons (by decide))]
  have hseparator : ∀ cs, separator? ('T' :: cs) = some cs := fun _ => rfl
  simp only [hseparator, Option.bind_some]
  rw [digits?_padded (by decide) (by omega) (Stops.cons (by decide))]
  simp only [hfield, Option.bind_some]
  rw [digits?_padded (by decide) (by omega) (Stops.cons (by decide))]
  simp only [hfield, Option.bind_some]
  rw [digits?_padded (by decide) t.shownSecond_lt (stops_writeFraction _)]
  have hyear : (t.year.toNat : Int) = t.year := Int.toNat_of_nonneg h0
  simp only [Option.bind_some, fraction?_writeFraction t.shownNano_lt, hyear]
  exact ofZoned?_shown t

/-- The strict form of an instant says which one it is, in a year of four digits. -/
theorem read?_toData {t : Instant} (h0 : 0 ≤ t.year) (h1 : t.year ≤ 9999) :
    read? t.toData.toList = some t := by
  rw [toData, String.toList_ofList, read?_write h0 h1]

end Instant
end AgentContent
