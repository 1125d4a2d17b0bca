import AgentContent.Proofs.Time.Rfc3339
import AgentContent.Sl.Word
import Mathlib.Data.List.Basic

/-!
# AgentContent.Proofs.Sl.Date

Dates as words read back.

* `Instant.InMillis`: the instants that a date word can say.
* `readDate?_writeDate`: such an instant comes back from its word.
* `inMillis_of_readDate?`: no other instant is read from a word.
-/

namespace AgentContent

/-- A whole number of milliseconds in a year of four digits, and no leap second. -/
def Instant.InMillis (t : Instant) : Prop :=
  0 ≤ t.year ∧ t.year ≤ 9999 ∧ t.nano < 1000000000 ∧ t.nano % 1000000 = 0

instance (t : Instant) : Decidable t.InMillis :=
  inferInstanceAs (Decidable (_ ∧ _))

theorem Instant.ofFields?_eq_some {year : Int} {month day hour minute second nano : Nat}
    {t : Instant} (h : ofFields? year month day hour minute second nano = some t) :
    t.year = year ∧ t.month = month ∧ t.day = day ∧ t.hour = hour ∧ t.minute = minute ∧
      t.second = second ∧ t.nano = nano := by
  unfold ofFields? at h
  split at h
  · split at h
    · cases h; exact ⟨rfl, rfl, rfl, rfl, rfl, rfl, rfl⟩
    · cases h
  · cases h

namespace Sl

/-- The characters of a word of four, two, two, two, two, two and three places, taken apart. -/
theorem readDate?_of_fields {y mo d h mi s ms : List Char} (hy : y.length = 4)
    (hmo : mo.length = 2) (hd : d.length = 2) (hh : h.length = 2) (hmi : mi.length = 2)
    (hs : s.length = 2) (hms : ms.length = 3) :
    readDate? (y ++ mo ++ d ++ 'T' :: h ++ mi ++ s ++ ms ++ ['Z']) = (do
      let year ← readNat? y
      let month ← readNat? mo
      let day ← readNat? d
      let hour ← readNat? h
      let minute ← readNat? mi
      let second ← readNat? s
      let milli ← readNat? ms
      Instant.ofFields? year month day hour minute second (milli * 1000000)) := by
  obtain ⟨y₁, y', rfl⟩ := List.exists_cons_of_length_eq_add_one hy
  obtain ⟨y₂, y₃, y₄, rfl⟩ := List.length_eq_three.1 (Nat.succ.inj hy)
  obtain ⟨mo₁, mo₂, rfl⟩ := List.length_eq_two.1 hmo
  obtain ⟨d₁, d₂, rfl⟩ := List.length_eq_two.1 hd
  obtain ⟨h₁, h₂, rfl⟩ := List.length_eq_two.1 hh
  obtain ⟨mi₁, mi₂, rfl⟩ := List.length_eq_two.1 hmi
  obtain ⟨s₁, s₂, rfl⟩ := List.length_eq_two.1 hs
  obtain ⟨ms₁, ms₂, ms₃, rfl⟩ := List.length_eq_three.1 hms
  rfl

theorem writeYear_of_digits {year : Int} (h0 : 0 ≤ year) (h : year ≤ 9999) :
    writeYear year = padded 4 year.toNat := by
  simp [writeYear, h0, h]

theorem readDate?_writeDate {t : Instant} (h : t.InMillis) : readDate? (writeDate t) = some t := by
  obtain ⟨hy0, hy, hn, hms⟩ := h
  obtain ⟨hmo, hd, hh, hmi, hs⟩ := t.fields_lt
  have hsec : t.shownSecond = t.second := by simp [Instant.shownSecond, hn]
  have hnano : t.shownNano = t.nano := by simp [Instant.shownNano, Nat.mod_eq_of_lt hn]
  have hmilli : t.nano / 1000000 * 1000000 = t.nano := by omega
  rw [writeDate, writeYear_of_digits hy0 hy, hsec, hnano,
    readDate?_of_fields (length_padded (by decide) (by omega))
      (length_padded (by decide) (by omega)) (length_padded (by decide) (by omega))
      (length_padded (by decide) (by omega)) (length_padded (by decide) (by omega))
      (length_padded (by decide) (by omega)) (length_padded (by decide) (by omega))]
  simp only [readNat?_padded, Option.bind_eq_bind, Option.bind_some]
  rw [hmilli, Int.toNat_of_nonneg hy0]
  exact t.ofFields?_self

theorem readNat?_take_lt {cs : List Char} {width n : Nat} (h : readNat? (cs.take width) = some n) :
    n < 10 ^ width := by
  unfold readNat? at h
  split at h
  · cases h
  · rename_i hc
    cases h
    simp only [Bool.or_eq_true, not_or, Bool.not_eq_true, Bool.not_eq_false', List.all_eq_true] at hc
    have hlen : (cs.take width).length ≤ width := List.length_take_le width cs
    exact Nat.lt_of_lt_of_le (natOfDigits_lt hc.2) (Nat.pow_le_pow_right (by decide) hlen)

theorem inMillis_of_readDate? {word : List Char} {t : Instant} (h : readDate? word = some t) :
    t.InMillis := by
  simp only [readDate?] at h
  split at h
  · cases h
  · simp only [Option.bind_eq_bind, Option.bind_eq_some_iff] at h
    obtain ⟨y, hy, mo, -, d, -, ho, -, mi, -, s, -, ms, hms, ht⟩ := h
    obtain ⟨hyear, -, -, -, -, -, hnano⟩ := Instant.ofFields?_eq_some ht
    have := readNat?_take_lt hy
    have := readNat?_take_lt hms
    refine ⟨?_, ?_, ?_, ?_⟩ <;> omega

end Sl
end AgentContent
