import AgentContent.Proofs.Sl.Word

/-!
# AgentContent.Proofs.Sl.Reread

What the text of a primitive is read as.

* `Primitive.reread`: every primitive but a date is read as itself. A date loses what is less than a
  millisecond; in a year without four digits, or in a leap second, it is read as a string.
* `readDate?_writeDate_eq`: what the word of any date is read as.
* `reread_eq_iff`: nothing but dates that a word cannot say is altered.
* `writePrimitive_reread`: a primitive has no text, as only infinite floats, those that are no
  number, and byte sequences too long for a text do, or its text is one element, which stands for
  what the primitive is read as.
-/

namespace AgentContent

/-! ## Dates -/

theorem isTime_truncated {hour minute second nano : Nat}
    (h : isTime hour minute second nano = true) :
    isTime hour minute second (nano / 1000000 * 1000000) = true := by
  simp only [isTime, Bool.and_eq_true, Bool.or_eq_true, decide_eq_true_eq] at h ⊢
  omega

/-- The instant without what is less than a millisecond. -/
def Instant.truncated (t : Instant) : Instant where
  year := t.year
  month := t.month
  day := t.day
  hour := t.hour
  minute := t.minute
  second := t.second
  nano := t.nano / 1000000 * 1000000
  day_valid := t.day_valid
  time_valid := isTime_truncated t.time_valid

/-- A word has places for the year and the second of the instant. -/
def Instant.Placeable (t : Instant) : Prop :=
  0 ≤ t.year ∧ t.year ≤ 9999 ∧ t.nano < 1000000000

instance (t : Instant) : Decidable t.Placeable :=
  inferInstanceAs (Decidable (_ ∧ _))

theorem Instant.inMillis_iff {t : Instant} :
    t.InMillis ↔ t.Placeable ∧ t.nano % 1000000 = 0 := by
  simp only [InMillis, Placeable, and_assoc]

theorem Instant.inMillis_truncated {t : Instant} (h : t.Placeable) : t.truncated.InMillis := by
  obtain ⟨hy0, hy, hn⟩ := h
  refine ⟨hy0, hy, ?_, ?_⟩ <;> simp only [truncated] <;> omega

theorem Instant.truncated_eq_iff {t : Instant} : t.truncated = t ↔ t.nano % 1000000 = 0 := by
  obtain ⟨year, month, day, hour, minute, second, nano, hd, ht⟩ := t
  simp only [truncated, Instant.mk.injEq, true_and]
  omega

namespace Sl

theorem le_length_padded (width n : Nat) : width ≤ (padded width n).length := by
  simp only [padded, List.length_append, List.length_replicate]
  omega

theorem lt_length_writeYear {year : Int} (h : ¬(0 ≤ year ∧ year ≤ 9999)) :
    4 < (writeYear year).length := by
  have hpadded := le_length_padded 4 year.natAbs
  rw [writeYear, if_neg (by simpa using h), List.length_cons]
  omega

theorem writeDate_truncated {t : Instant} (h : t.Placeable) :
    writeDate t.truncated = writeDate t := by
  obtain ⟨-, -, hn⟩ := h
  have hn' : t.truncated.nano < 1000000000 := by simp only [Instant.truncated]; omega
  have hmilli : t.truncated.nano / 1000000 = t.nano / 1000000 := by
    simp only [Instant.truncated]
    omega
  simp only [writeDate, Instant.shownSecond, Instant.shownNano, hn, hn', if_true,
    Nat.mod_eq_of_lt hn, Nat.mod_eq_of_lt hn', hmilli]
  rfl

theorem dropZone_append (cs : List Char) : dropZone (cs ++ ['Z']) = cs := by
  simp [dropZone]

/-- Years with a sign make the word too long. -/
theorem readDate?_writeDate_of_year {t : Instant} (h : ¬(0 ≤ t.year ∧ t.year ≤ 9999)) :
    readDate? (writeDate t) = none := by
  have hyear := lt_length_writeYear h
  have hfields : ∀ w n, w ≤ (padded w n).length := le_length_padded
  have hlen : 18 < (dropZone (writeDate t)).length := by
    rw [writeDate, dropZone_append]
    simp only [List.length_append, List.length_cons]
    have := hfields 2 t.month
    have := hfields 2 t.day
    have := hfields 2 t.hour
    have := hfields 2 t.minute
    have := hfields 2 t.shownSecond
    have := hfields 3 (t.shownNano / 1000000)
    omega
  simp only [readDate?]
  rw [if_pos (by simp [Nat.ne_of_gt hlen])]

/-- A leap second is shown as one that the calendar does not have. -/
theorem readDate?_writeDate_of_leap {t : Instant} (hy : 0 ≤ t.year ∧ t.year ≤ 9999)
    (h : 1000000000 ≤ t.nano) : readDate? (writeDate t) = none := by
  obtain ⟨hmo, hd, hh, hmi, hs⟩ := t.fields_lt
  have hsecond : t.shownSecond = 60 := by
    have ht := t.time_valid
    simp only [isTime, Bool.and_eq_true, Bool.or_eq_true, decide_eq_true_eq] at ht
    rw [Instant.shownSecond, if_neg (by omega)]
    omega
  have hnano : t.shownNano < 1000000000 := Nat.mod_lt _ (by decide)
  rw [writeDate, writeYear_of_digits hy.1 hy.2, hsecond,
    readDate?_of_fields (length_padded (by decide) (by omega))
      (length_padded (by decide) (by omega)) (length_padded (by decide) (by omega))
      (length_padded (by decide) (by omega)) (length_padded (by decide) (by omega))
      (length_padded (by decide) (by omega)) (length_padded (by decide) (by omega))]
  simp only [readNat?_padded, Option.bind_eq_bind, Option.bind_some]
  simp [Instant.ofFields?, isTime]

theorem readDate?_writeDate_eq (t : Instant) :
    readDate? (writeDate t) = if t.Placeable then some t.truncated else none := by
  by_cases hy : 0 ≤ t.year ∧ t.year ≤ 9999
  · by_cases hn : t.nano < 1000000000
    · have hp : t.Placeable := ⟨hy.1, hy.2, hn⟩
      rw [if_pos hp, ← writeDate_truncated hp, readDate?_writeDate (Instant.inMillis_truncated hp)]
    · rw [readDate?_writeDate_of_leap hy (by omega), if_neg fun h => hn h.2.2]
  · rw [readDate?_writeDate_of_year hy, if_neg fun h => hy ⟨h.1, h.2.1⟩]

end Sl

/-! ## Primitives -/

open Sl

/-- What the text of a primitive is read as. -/
def Primitive.reread : Primitive → Primitive
  | .date t => if t.Placeable then .date t.truncated else .string (String.ofList (writeDate t))
  | p => p

namespace Sl

/-- Nothing is altered but dates that are no whole number of milliseconds, in years without four
digits or in leap seconds. -/
theorem reread_eq_iff {p : Primitive} : p.reread = p ↔ ∀ t, p = .date t → t.InMillis := by
  cases p with
  | date t =>
    simp only [Primitive.reread, Primitive.date.injEq, forall_eq', Instant.inMillis_iff]
    split
    · rename_i hp
      simp [hp, Instant.truncated_eq_iff]
    · rename_i hp
      simp [hp]
  | _ => simp [Primitive.reread]

theorem wordValue_writeDate_reread (t : Instant) :
    wordValue (String.ofList (writeDate t)) = (Primitive.date t).reread := by
  rw [wordValue_writeDate_eq, readDate?_writeDate_eq, Primitive.reread]
  split <;> simp_all

/-- The text of a primitive is one element, whatever ended text follows it. -/
theorem spells_reread {p : Primitive} {text : List Char} (hp : (Content.primitive p).Fits)
    (h : writePrimitive p = .ok text) :
    ∃ l, Spells text l ∧ l.content? = some (.primitive p.reread) := by
  cases p with
  | date t =>
    cases h
    exact ⟨_, spells_writeDate t, by rw [Lexeme.content?, wordValue_writeDate_reread]⟩
  | _ => exact spells_writePrimitive (hasWord_of_fits hp fun t ht => by cases ht) h

theorem writePrimitive_eq_error {p : Primitive} {e : EncodeError} (h : writePrimitive p = .error e) :
    (∃ x, p = .float x ∧ x.isFinite = false) ∨
      ∃ bs, p = .bytes bs ∧ maxCapacity < (Base64.encode bs).length ∧ e = .capacityOverflow := by
  cases p with
  | float x =>
    simp only [writePrimitive] at h
    split at h
    · cases h
    · rename_i hx
      exact .inl ⟨x, rfl, Bool.eq_false_iff.2 hx⟩
  | bytes bs =>
    simp only [writePrimitive] at h
    split at h
    · rename_i hlength
      cases h
      exact .inr ⟨bs, rfl, hlength, rfl⟩
    · cases h
  | _ => cases h

/-- A primitive has no text, and then is a float that is infinite or no number, or a byte sequence
whose text is longer than memory can be; or its text is one element, which stands for the primitive
itself unless that is a date that a word cannot say. -/
theorem writePrimitive_reread {p : Primitive} (hp : (Content.primitive p).Fits) :
    ((∃ x e, p = .float x ∧ x.isFinite = false ∧ writePrimitive p = .error e) ∨
        (∃ bs, p = .bytes bs ∧ maxCapacity < (Base64.encode bs).length ∧
          writePrimitive p = .error .capacityOverflow) ∨
        ∃ text l, writePrimitive p = .ok text ∧ Spells text l ∧
          l.content? = some (.primitive p.reread)) ∧
      (p.reread = p ↔ ∀ t, p = .date t → t.InMillis) := by
  refine ⟨?_, reread_eq_iff⟩
  cases h : writePrimitive p with
  | error e =>
    rcases writePrimitive_eq_error h with ⟨x, hx, hfinite⟩ | ⟨bs, hbs, hlength, rfl⟩
    · exact .inl ⟨x, e, hx, hfinite, rfl⟩
    · exact .inr (.inl ⟨bs, hbs, hlength, rfl⟩)
  | ok text =>
    obtain ⟨l, hl, hvalue⟩ := spells_reread hp h
    exact .inr (.inr ⟨text, l, rfl, hl, hvalue⟩)

/-- A quarter of a second past noon. -/
def quarter : Instant :=
  ⟨2024, 5, 1, 12, 0, 0, 250000000, by decide, by decide⟩

theorem writePrimitive_quarter : (Content.ofDate quarter).Fits ∧ ∃ text l,
    writePrimitive (.date quarter) = .ok text ∧ Spells text l ∧
      l.content? = some (.ofDate quarter) := by
  obtain ⟨⟨x, _, hx, -⟩ | ⟨bs, hbs, -⟩ | htext, hiff⟩ :=
    writePrimitive_reread (p := .date quarter) trivial
  · cases hx
  · cases hbs
  · have hself : (Primitive.date quarter).reread = .date quarter :=
      hiff.2 fun t ht => Primitive.date.inj ht ▸ by decide
    rw [hself] at htext
    exact ⟨trivial, htext⟩

/-! ## Dates that are altered -/

theorem spells_unique {text : List Char} {l l' : Lexeme} (h : Spells text l)
    (h' : Spells text l') : l = l' := by
  obtain ⟨c, cs, rfl, -, hread⟩ := h
  obtain ⟨c', cs', heq, -, hread'⟩ := h'
  cases heq
  have hsame := (hread [] Stops.nil).symm.trans (hread' [] Stops.nil)
  exact congrArg Prod.fst (Except.ok.inj hsame)

/-- The date has a text, and no element that the text is read as stands for the date. -/
def Altered (t : Instant) : Prop :=
  ∃ text, writePrimitive (.date t) = .ok text ∧
    ∀ l, Spells text l → l.content? ≠ some (.ofDate t)

theorem altered_of_not_inMillis {t : Instant} (h : ¬t.InMillis) : Altered t := by
  refine ⟨writeDate t, rfl, fun l hl hdate => h ?_⟩
  obtain ⟨l', hl', hvalue⟩ := spells_reread (p := .date t) trivial rfl
  rw [spells_unique hl hl', hvalue] at hdate
  exact reread_eq_iff.1 (Content.primitive.inj (Option.some.inj hdate)) t rfl

/-- A nanosecond past a second. -/
def tick : Instant :=
  ⟨2024, 5, 1, 10, 30, 0, 1, by decide, by decide⟩

/-- The leap second at the end of a year. -/
def leapSecond : Instant :=
  ⟨2016, 12, 31, 23, 59, 59, 1000000000, by decide, by decide⟩

/-- The first year of five digits. -/
def fiveDigits : Instant :=
  ⟨10000, 1, 1, 0, 0, 0, 0, by decide, by decide⟩

theorem altered_dates : Altered tick ∧ Altered leapSecond ∧ Altered fiveDigits :=
  ⟨altered_of_not_inMillis (by decide), altered_of_not_inMillis (by decide),
    altered_of_not_inMillis (by decide)⟩

end Sl
end AgentContent
