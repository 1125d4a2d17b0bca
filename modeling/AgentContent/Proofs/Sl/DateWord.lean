import AgentContent.Proofs.Sl.Reread
import Mathlib.Tactic.IntervalCases

/-!
# AgentContent.Proofs.Sl.DateWord

Which words are dates, and of which instants.

* `padded_natOfDigits`: the digits of a number fill the width that they had.
* `isDay_iff`: the days that the months and leap years of the Gregorian calendar have.
* `DateFields`: a word without its zone, taken apart.
* `DateFields.Spelled.exists_iff`, `DateFields.Spelled.writeDate_of_read?`: fields of digits say an
  instant when the calendar and the clock have it, and it is written with the same digits.
* `exists_fields_of_readDate?`: whatever word is read is made of such fields.
* `dates_correspond`: words and instants correspond one to one, but for the letter of universal
  time, and every other word is refused.
-/

namespace AgentContent

/-! ## Numerals of a width -/

/-- So many characters, all of them digits. -/
def Digits (width : Nat) (cs : List Char) : Prop :=
  cs.length = width ∧ ∀ c ∈ cs, c.isDigit = true

instance (width : Nat) (cs : List Char) : Decidable (Digits width cs) :=
  inferInstanceAs (Decidable (_ ∧ _))

theorem natOfDigits_cons (c : Char) (cs : List Char) :
    natOfDigits (c :: cs) = 10 ^ cs.length * digitValue c + natOfDigits cs := by
  have hc : natOfDigits [c] = digitValue c := by simp [natOfDigits]
  rw [← hc]
  exact natOfDigits_append [c] cs

theorem digitValue_inj {c d : Char} (hc : c.isDigit = true) (hd : d.isDigit = true)
    (h : digitValue c = digitValue d) : c = d := by
  have hc := Char.isDigit_iff_toNat.1 hc
  have hd := Char.isDigit_iff_toNat.1 hd
  simp only [digitValue] at h
  exact Char.toNat_inj.1 (by omega)

/-- Numerals of one width differ where their numbers do. -/
theorem Digits.eq {width : Nat} {cs ds : List Char} (hc : Digits width cs) (hd : Digits width ds)
    (h : natOfDigits cs = natOfDigits ds) : cs = ds := by
  obtain ⟨hlen, hc⟩ := hc
  obtain ⟨hlen', hd⟩ := hd
  induction cs generalizing ds width with
  | nil => exact (List.length_eq_zero_iff.1 (hlen'.trans hlen.symm)).symm
  | cons c cs ih =>
    obtain ⟨d, ds, rfl⟩ := List.exists_cons_of_length_pos
      (l := ds) (by rw [hlen', ← hlen]; exact Nat.succ_pos _)
    obtain ⟨hc, hcs⟩ := List.forall_mem_cons.1 hc
    obtain ⟨hd, hds⟩ := List.forall_mem_cons.1 hd
    have hrest : ds.length = cs.length := Nat.succ.inj (hlen'.trans hlen.symm)
    rw [natOfDigits_cons, natOfDigits_cons, hrest] at h
    -- the rest is less than the place of the first digit
    have hlt := natOfDigits_lt hcs
    have hlt' := natOfDigits_lt hds
    rw [hrest] at hlt'
    have hpos : 0 < 10 ^ cs.length := Nat.pow_pos (by decide)
    have hfirst : digitValue c = digitValue d := by
      have hdiv := congrArg (· / 10 ^ cs.length) h
      simpa [Nat.mul_add_div hpos, Nat.div_eq_of_lt hlt, Nat.div_eq_of_lt hlt'] using hdiv
    rw [hfirst] at h
    have hvalues : natOfDigits cs = natOfDigits ds := Nat.add_left_cancel h
    rw [digitValue_inj hc hd hfirst, ih hvalues rfl hcs hrest hds]

theorem Digits.padded {width n : Nat} (hw : 0 < width) (hn : n < 10 ^ width) :
    Digits width (padded width n) :=
  ⟨length_padded hw hn, fun _ => isDigit_of_mem_padded⟩

theorem Digits.lt {width : Nat} {cs : List Char} (h : Digits width cs) :
    natOfDigits cs < 10 ^ width :=
  h.1 ▸ natOfDigits_lt h.2

theorem padded_natOfDigits {width : Nat} (hw : 0 < width) {cs : List Char} (h : Digits width cs) :
    padded width (natOfDigits cs) = cs :=
  (Digits.padded hw h.lt).eq h (natOfDigits_padded width _)

theorem readNat?_eq_some_iff {cs : List Char} {n : Nat} :
    readNat? cs = some n ↔ cs ≠ [] ∧ (∀ c ∈ cs, c.isDigit = true) ∧ natOfDigits cs = n := by
  rw [readNat?]
  split
  · rename_i h
    simp only [Bool.or_eq_true, List.isEmpty_iff, Bool.not_eq_true', List.all_eq_false] at h
    refine ⟨fun hn => (by cases hn), ?_⟩
    rintro ⟨hne, hdigits, -⟩
    rcases h with h | ⟨c, hc, hdigit⟩
    · exact absurd h hne
    · exact absurd (hdigits c hc) hdigit
  · rename_i h
    simp only [Bool.or_eq_true, List.isEmpty_iff, Bool.not_eq_true', not_or, Bool.not_eq_false,
      List.all_eq_true] at h
    simp only [Option.some.injEq]
    exact ⟨fun hn => ⟨h.1, h.2, hn⟩, fun hn => hn.2.2⟩

/-! ## The calendar -/

/-- February has a twenty-ninth day in the year. -/
def IsLeap (year : Nat) : Prop :=
  4 ∣ year ∧ (¬ 100 ∣ year ∨ 400 ∣ year)

instance (year : Nat) : Decidable (IsLeap year) :=
  inferInstanceAs (Decidable (_ ∧ _))

/-- The Gregorian calendar has the day. -/
def IsGregorian (year month day : Nat) : Prop :=
  1 ≤ month ∧ month ≤ 12 ∧ 1 ≤ day ∧ day ≤ 31 ∧
    (month = 4 ∨ month = 6 ∨ month = 9 ∨ month = 11 → day ≤ 30) ∧
    (month = 2 → day ≤ 28 ∨ day = 29 ∧ IsLeap year)

instance (year month day : Nat) : Decidable (IsGregorian year month day) :=
  inferInstanceAs (Decidable (_ ∧ _))

theorem isLeapYear_iff (year : Nat) : isLeapYear year = true ↔ IsLeap year := by
  simp only [isLeapYear, IsLeap, Bool.and_eq_true, Bool.or_eq_true, decide_eq_true_eq, bne_iff_ne]
  omega

/-- The days of a month are counted from one to thirty-one, but for the four short months and
February. -/
theorem le_daysInMonth_iff {year month day : Nat} (h1 : 1 ≤ month) (h12 : month ≤ 12) :
    day ≤ daysInMonth year month ↔ day ≤ 31 ∧
      (month = 4 ∨ month = 6 ∨ month = 9 ∨ month = 11 → day ≤ 30) ∧
        (month = 2 → day ≤ 28 ∨ day = 29 ∧ IsLeap year) := by
  by_cases hleap : IsLeap year
  · have hyear : isLeapYear year = true := (isLeapYear_iff year).2 hleap
    simp only [hleap, and_true]
    interval_cases month <;> grind [daysInMonth]
  · have hyear : isLeapYear year = false := Bool.eq_false_iff.2 (mt (isLeapYear_iff year).1 hleap)
    simp only [hleap, and_false, or_false]
    interval_cases month <;> grind [daysInMonth]

theorem isDay_iff {year month day : Nat} (h : year ≤ 9999) :
    isDay year month day = true ↔ IsGregorian year month day := by
  have hrange : -262143 ≤ (year : Int) ∧ (year : Int) ≤ 262142 := by omega
  simp only [isDay, IsGregorian, hrange, decide_true, Bool.true_and, Bool.and_eq_true,
    decide_eq_true_eq]
  by_cases hm : 1 ≤ month ∧ month ≤ 12
  · rw [le_daysInMonth_iff hm.1 hm.2]
    exact ⟨fun hday => ⟨hm.1, hm.2, hday⟩, fun hday => hday.2.2⟩
  · -- no other month has a day
    have hnone : daysInMonth year month = 0 := by
      have hle := daysInMonth_le year month
      split at hle
      · obtain rfl : month = 0 := by omega
        rfl
      · exact Nat.le_zero.1 hle
    rw [hnone]
    constructor
    · rintro ⟨hday, hle⟩
      omega
    · rintro ⟨h1, h12, -⟩
      exact absurd ⟨h1, h12⟩ hm

namespace Sl

/-! ## Words and their fields -/

/-- The characters of a date word without its zone. -/
structure DateFields where
  year : List Char
  month : List Char
  day : List Char
  hour : List Char
  minute : List Char
  second : List Char
  milli : List Char

namespace DateFields

variable {f : DateFields}

def chars (f : DateFields) : List Char :=
  f.year ++ f.month ++ f.day ++ 'T' :: f.hour ++ f.minute ++ f.second ++ f.milli

/-- The instant that the fields say. -/
def read? (f : DateFields) : Option Instant := do
  let year ← readNat? f.year
  let month ← readNat? f.month
  let day ← readNat? f.day
  let hour ← readNat? f.hour
  let minute ← readNat? f.minute
  let second ← readNat? f.second
  let milli ← readNat? f.milli
  Instant.ofFields? year month day hour minute second (milli * 1000000)

/-- The fields have their widths. -/
structure Sized (f : DateFields) : Prop where
  year : f.year.length = 4
  month : f.month.length = 2
  day : f.day.length = 2
  hour : f.hour.length = 2
  minute : f.minute.length = 2
  second : f.second.length = 2
  milli : f.milli.length = 3

/-- The fields have digits only. -/
structure Spelled (f : DateFields) : Prop where
  year : Digits 4 f.year
  month : Digits 2 f.month
  day : Digits 2 f.day
  hour : Digits 2 f.hour
  minute : Digits 2 f.minute
  second : Digits 2 f.second
  milli : Digits 3 f.milli

/-- The calendar has the day, and the day has the time. -/
structure Exists (f : DateFields) : Prop where
  day : IsGregorian (natOfDigits f.year) (natOfDigits f.month) (natOfDigits f.day)
  hour : natOfDigits f.hour < 24
  minute : natOfDigits f.minute < 60
  second : natOfDigits f.second < 60

theorem Spelled.sized (h : f.Spelled) : f.Sized :=
  ⟨h.year.1, h.month.1, h.day.1, h.hour.1, h.minute.1, h.second.1, h.milli.1⟩

/-- The fields of eighteen characters. -/
def ofChars (cs : List Char) : DateFields where
  year := cs.take 4
  month := (cs.drop 4).take 2
  day := (cs.drop 6).take 2
  hour := (cs.drop 9).take 2
  minute := (cs.drop 11).take 2
  second := (cs.drop 13).take 2
  milli := (cs.drop 15).take 3

theorem sized_ofChars {cs : List Char} (h : cs.length = 18) : (ofChars cs).Sized := by
  constructor <;> simp [ofChars, h]

theorem chars_ofChars {cs : List Char} (h : cs.length = 18) (hT : cs[8]? = some 'T') :
    (ofChars cs).chars = cs := by
  have hsplit : ∀ start width, (cs.drop start).take width ++ cs.drop (start + width) =
      cs.drop start := by
    intro start width
    rw [← List.drop_drop, List.take_append_drop]
  have hmark : cs.drop 8 = 'T' :: cs.drop 9 := by
    obtain ⟨h8, hT⟩ := List.getElem?_eq_some_iff.1 hT
    rw [List.drop_eq_getElem_cons h8, hT]
  have hend : (cs.drop 15).take 3 = cs.drop 15 := List.take_of_length_le (by simp [h])
  simp only [chars, ofChars, List.append_assoc, List.cons_append]
  rw [hend, hsplit 13 2, hsplit 11 2, hsplit 9 2, ← hmark, hsplit 6 2, hsplit 4 2,
    List.take_append_drop]

/-- Each field is read as the number of its digits. -/
theorem Spelled.read?_eq (h : f.Spelled) : f.read? =
    Instant.ofFields? (natOfDigits f.year) (natOfDigits f.month) (natOfDigits f.day)
      (natOfDigits f.hour) (natOfDigits f.minute) (natOfDigits f.second)
      (natOfDigits f.milli * 1000000) := by
  have hread : ∀ {width cs}, Digits (width + 1) cs → readNat? cs = some (natOfDigits cs) := by
    intro width cs hcs
    refine readNat?_of_digits ?_ hcs.2
    rintro rfl
    cases hcs.1
  simp only [read?, hread h.year, hread h.month, hread h.day, hread h.hour, hread h.minute,
    hread h.second, hread h.milli, Option.bind_eq_bind, Option.bind_some]

theorem Sized.spelled_of_read? (h : f.Sized) {t : Instant} (ht : f.read? = some t) :
    f.Spelled := by
  simp only [read?, Option.bind_eq_bind, Option.bind_eq_some_iff, readNat?_eq_some_iff] at ht
  obtain ⟨_, ⟨-, hy, -⟩, _, ⟨-, hmo, -⟩, _, ⟨-, hd, -⟩, _, ⟨-, hh, -⟩, _, ⟨-, hmi, -⟩, _,
    ⟨-, hs, -⟩, _, ⟨-, hms, -⟩, -⟩ := ht
  exact ⟨⟨h.year, hy⟩, ⟨h.month, hmo⟩, ⟨h.day, hd⟩, ⟨h.hour, hh⟩, ⟨h.minute, hmi⟩, ⟨h.second, hs⟩,
    ⟨h.milli, hms⟩⟩

theorem Spelled.exists_iff (h : f.Spelled) : f.Exists ↔ ∃ t, f.read? = some t := by
  have hyear := h.year.lt
  have hmilli := h.milli.lt
  have hday : isDay (natOfDigits f.year) (natOfDigits f.month) (natOfDigits f.day) = true ↔
      IsGregorian (natOfDigits f.year) (natOfDigits f.month) (natOfDigits f.day) :=
    isDay_iff (Nat.le_of_lt_succ hyear)
  have htime : isTime (natOfDigits f.hour) (natOfDigits f.minute) (natOfDigits f.second)
      (natOfDigits f.milli * 1000000) = true ↔
        natOfDigits f.hour < 24 ∧ natOfDigits f.minute < 60 ∧ natOfDigits f.second < 60 := by
    simp only [isTime, Bool.and_eq_true, Bool.or_eq_true, decide_eq_true_eq]
    omega
  rw [h.read?_eq]
  constructor
  · intro he
    rw [Instant.ofFields?, dif_pos (hday.2 he.day),
      dif_pos (htime.2 ⟨he.hour, he.minute, he.second⟩)]
    exact ⟨_, rfl⟩
  · rintro ⟨t, ht⟩
    unfold Instant.ofFields? at ht
    split at ht
    · rename_i hd
      split at ht
      · rename_i hti
        obtain ⟨hh, hmi, hs⟩ := htime.1 hti
        exact ⟨hday.1 hd, hh, hmi, hs⟩
      · cases ht
    · cases ht

/-- An instant is written with the digits that it was read from. -/
theorem Spelled.writeDate_of_read? (h : f.Spelled) {t : Instant} (ht : f.read? = some t) :
    writeDate t = f.chars ++ ['Z'] := by
  rw [h.read?_eq] at ht
  obtain ⟨hy, hmo, hd, hh, hmi, hs, hnano⟩ := Instant.ofFields?_eq_some ht
  have hyear := h.year.lt
  have hmilli := h.milli.lt
  have hn : t.nano < 1000000000 := by omega
  have hwritten : t.shownNano / 1000000 = natOfDigits f.milli := by
    rw [Instant.shownNano, Nat.mod_eq_of_lt hn, hnano, Nat.mul_div_cancel _ (by decide)]
  have hsecond : t.shownSecond = natOfDigits f.second := by
    rw [Instant.shownSecond, if_pos hn, hs]
  rw [writeDate, hy, hmo, hd, hh, hmi, hsecond, hwritten,
    writeYear_of_digits (Int.natCast_nonneg _) (by omega), Int.toNat_natCast,
    padded_natOfDigits (by decide) h.year, padded_natOfDigits (by decide) h.month,
    padded_natOfDigits (by decide) h.day, padded_natOfDigits (by decide) h.hour,
    padded_natOfDigits (by decide) h.minute, padded_natOfDigits (by decide) h.second,
    padded_natOfDigits (by decide) h.milli]
  rfl

end DateFields

/-! ## Reading words -/

/-- Only the letter at the end may be missing. -/
theorem readDate?_zoned (w : List Char) : readDate? (dropZone w ++ ['Z']) = readDate? w := by
  simp only [readDate?, dropZone_append]

theorem dropZone_cases (w : List Char) :
    w.getLast? = some 'Z' ∧ w = dropZone w ++ ['Z'] ∨ w.getLast? ≠ some 'Z' ∧ w = dropZone w := by
  rw [dropZone]
  split
  · rename_i hlast
    obtain ⟨cs, rfl⟩ := List.getLast?_eq_some_iff.1 hlast
    exact .inl ⟨hlast, by rw [List.dropLast_concat]⟩
  · rename_i hlast
    exact .inr ⟨hlast, rfl⟩

theorem DateFields.Sized.readDate? {f : DateFields} (h : f.Sized) :
    readDate? (f.chars ++ ['Z']) = f.read? :=
  readDate?_of_fields h.year h.month h.day h.hour h.minute h.second h.milli

theorem exists_fields_of_readDate? {w : List Char} {t : Instant} (h : readDate? w = some t) :
    ∃ f : DateFields, f.Spelled ∧ f.chars = dropZone w ∧ f.read? = some t := by
  have hbody : (dropZone w).length = 18 ∧ (dropZone w)[8]? = some 'T' := by
    simp only [Sl.readDate?] at h
    split at h
    · cases h
    · rename_i hbody
      simpa using hbody
  have hsized := DateFields.sized_ofChars hbody.1
  have hchars := DateFields.chars_ofChars hbody.1 hbody.2
  have hread := hsized.readDate?
  rw [hchars, readDate?_zoned, h] at hread
  exact ⟨_, hsized.spelled_of_read? hread.symm, hchars, hread.symm⟩

/-- The word has digits of a date that exists, and the letter of universal time or nothing. -/
def DateWord (w : List Char) : Prop :=
  ∃ f : DateFields, f.Spelled ∧ f.Exists ∧ (w = f.chars ∨ w = f.chars ++ ['Z'])

/-- Digits do not end in the letter. -/
theorem DateFields.Spelled.dropZone {f : DateFields} (h : f.Spelled) :
    dropZone f.chars = f.chars := by
  have hne : f.milli ≠ [] := by
    intro hnil
    have hlength := h.milli.1
    rw [hnil] at hlength
    cases hlength
  have hdigit := h.milli.2 _ (List.getLast_mem hne)
  rw [Sl.dropZone, if_neg]
  rw [chars, List.getLast?_append_of_ne_nil _ hne, List.getLast?_eq_some_getLast hne]
  intro hZ
  rw [Option.some.inj hZ] at hdigit
  cases hdigit

theorem isSome_readDate?_iff {w : List Char} : (readDate? w).isSome = true ↔ DateWord w := by
  rw [Option.isSome_iff_exists]
  constructor
  · rintro ⟨t, ht⟩
    obtain ⟨f, hf, hchars, hread⟩ := exists_fields_of_readDate? ht
    refine ⟨f, hf, hf.exists_iff.2 ⟨t, hread⟩, ?_⟩
    rw [hchars]
    rcases dropZone_cases w with ⟨-, hw⟩ | ⟨-, hw⟩
    · exact .inr hw
    · exact .inl hw
  · rintro ⟨f, hf, he, rfl | rfl⟩
    · rw [← readDate?_zoned, hf.dropZone, hf.sized.readDate?]
      exact hf.exists_iff.1 he
    · rw [hf.sized.readDate?]
      exact hf.exists_iff.1 he

theorem writeDate_of_readDate? {w : List Char} {t : Instant} (h : readDate? w = some t) :
    writeDate t = if w.getLast? = some 'Z' then w else w ++ ['Z'] := by
  obtain ⟨f, hf, hchars, hread⟩ := exists_fields_of_readDate? h
  rw [hf.writeDate_of_read? hread, hchars]
  rcases dropZone_cases w with ⟨hlast, hw⟩ | ⟨hlast, hw⟩
  · rw [if_pos hlast, ← hw]
  · rw [if_neg hlast, ← hw]

/-- An instant in whole milliseconds, in a year of four digits and no leap second, comes back from
its word. A word that is read is the word of its instant, but that the letter at the end may be
missing. The words that are read are those of digits that the calendar and the clock have, and every
other one is refused. -/
theorem dates_correspond :
    (∀ t : Instant, t.InMillis → readDate? (writeDate t) = some t) ∧
      (∀ w t, readDate? w = some t →
        writeDate t = if w.getLast? = some 'Z' then w else w ++ ['Z']) ∧
      ∀ w, readDate? w = none ↔ ¬ DateWord w := by
  refine ⟨fun t ht => readDate?_writeDate ht, fun w t h => writeDate_of_readDate? h, fun w => ?_⟩
  rw [← isSome_readDate?_iff, Option.not_isSome_iff_eq_none]

/-- The last millisecond of a leap day. -/
def leapDay : Instant where
  year := 2024
  month := 2
  day := 29
  hour := 23
  minute := 59
  second := 59
  nano := 999000000
  day_valid := by decide
  time_valid := by decide

/-- A word without the letter of universal time is read as a leap day, which other years do not
have. -/
theorem dates_correspond_leapDay : leapDay.InMillis ∧
    readDate? (writeDate leapDay) = some leapDay ∧
    readDate? "20240229T235959999".toList = some leapDay ∧
    writeDate leapDay = "20240229T235959999Z".toList ∧
    ¬ DateWord "20230229T235959999Z".toList := by
  obtain ⟨hread, hwrite, hrefused⟩ := dates_correspond
  have hmillis : leapDay.InMillis := by decide
  have hword : readDate? "20240229T235959999".toList = some leapDay := by decide
  have hnone : readDate? "20230229T235959999Z".toList = none := by decide
  refine ⟨hmillis, hread leapDay hmillis, hword, ?_, (hrefused _).1 hnone⟩
  rw [hwrite _ _ hword, if_neg (by decide)]
  decide

end Sl
end AgentContent
