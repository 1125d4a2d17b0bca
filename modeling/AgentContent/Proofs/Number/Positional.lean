import AgentContent.Number.Numeral
import AgentContent.Proofs.Number.Shortest
import AgentContent.Proofs.Text.Numeral

/-!
# AgentContent.Proofs.Number.Positional

Positional decimals read back.

* `readFloat?_pointed`: digits around a point are read as the digits and a power of ten.
* `magnitude_plain`: the plain text of a finite number is digits, and places behind a point.
* `ofDecimal_plain`: those digits and places are the number.
-/

namespace AgentContent

open Binary64

/-- The sign in front of a numeral. -/
def signed (negative : Bool) (cs : List Char) : List Char :=
  if negative then '-' :: cs else cs

theorem splitSign_signed (negative : Bool) {c : Char} (cs : List Char) (hc : c.isDigit = true) :
    splitSign (signed negative (c :: cs)) = (negative, c :: cs) := by
  cases negative
  · exact splitSign_of_digit hc
  · rfl

/-! ## Reading -/

theorem toLower_of_isDigit {c : Char} (h : c.isDigit = true) : c.toLower = c := by
  have hu : ¬(c.val ≥ 'A'.val ∧ c.val ≤ 'Z'.val) := by
    simp only [Char.isDigit, Bool.and_eq_true, decide_eq_true_eq, UInt32.le_iff_toNat_le,
      ge_iff_le] at h ⊢
    have h9 : '9'.val.toNat = 57 := rfl
    have hA : 'A'.val.toNat = 65 := rfl
    omega
  exact dif_neg hu

theorem foldChars_ne {c : Char} {cs : List Char} (h : c.isDigit = true) {d : Char} {ds : List Char}
    (hd : d.isDigit = false) : foldChars (c :: cs) ≠ d :: ds := by
  intro he
  have hcd : c = d := by
    have := (List.cons.inj he).1
    rwa [toLower_of_isDigit h] at this
  rw [hcd, hd] at h
  cases h

theorem readFloat?_pointed (negative : Bool) {whole places : List Char} (hne : whole ≠ [])
    (hw : ∀ c ∈ whole, c.isDigit = true) (hp : ∀ c ∈ places, c.isDigit = true) :
    readFloat? (signed negative (whole ++ '.' :: places)) =
      some (ofDecimal negative (natOfDigits (whole ++ places)) (-(places.length : Int))) := by
  obtain ⟨c, cs, rfl⟩ := List.exists_cons_of_ne_nil hne
  have hc := hw c List.mem_cons_self
  have hword : ∀ {d : Char} {ds : List Char}, d.isDigit = false →
      foldChars (c :: (cs ++ '.' :: places)) ≠ d :: ds := fun hd => foldChars_ne hc hd
  have hinf : foldChars (c :: (cs ++ '.' :: places)) ≠ "inf".toList := hword (by decide)
  have hinfinity : foldChars (c :: (cs ++ '.' :: places)) ≠ "infinity".toList := hword (by decide)
  have hnan : foldChars (c :: (cs ++ '.' :: places)) ≠ "nan".toList := hword (by decide)
  have hpoint : Stops Char.isDigit ('.' :: places) := Stops.cons (by decide)
  have hwhole := takeWhile_append_stop hw hpoint
  have hafter := dropWhile_append_stop hw hpoint
  have hplaces : places.takeWhile Char.isDigit = places := by
    have := takeWhile_append_stop hp (Stops.nil (p := Char.isDigit))
    rwa [List.append_nil] at this
  have hend : places.dropWhile Char.isDigit = [] := by
    have := dropWhile_append_stop hp (Stops.nil (p := Char.isDigit))
    rwa [List.append_nil] at this
  rw [List.cons_append] at hwhole hafter
  simp only [readFloat?, List.cons_append, splitSign_signed negative _ hc, hinf, hinfinity, hnan,
    decide_false, Bool.or_self, Bool.false_eq_true, if_false, hwhole, hafter, hplaces, hend,
    List.isEmpty_cons, Bool.false_and, readExponent?, zero_sub]

/-! ## Writing -/

/-- Places behind a point, nothing when there is none. -/
def pointed : List Char → List Char
  | [] => []
  | c :: cs => '.' :: c :: cs

/-- Digits and places write a fraction. -/
structure Writes (whole places : List Char) (value : ℚ) : Prop where
  ne_nil : whole ≠ []
  wholeDigits : ∀ c ∈ whole, c.isDigit = true
  placesDigits : ∀ c ∈ places, c.isDigit = true
  value : (natOfDigits (whole ++ places) : ℚ) * 10 ^ (-(places.length : Int)) = value

theorem natOfDigits_zeros_append (k : Nat) (cs : List Char) :
    natOfDigits (List.replicate k '0' ++ cs) = natOfDigits cs := by
  rw [natOfDigits_append, natOfDigits_zeros, Nat.mul_zero, Nat.zero_add]

theorem isDigit_of_mem_zero {c : Char} (h : c ∈ ['0']) : c.isDigit = true := by
  rw [List.mem_singleton.1 h]; rfl

theorem isDigit_of_mem_zeros {k : Nat} {c : Char} (h : c ∈ List.replicate k '0') :
    c.isDigit = true := by
  rw [List.eq_of_mem_replicate h]; decide

/-- Positional notation without a zero after the point of a whole number. -/
theorem positional_plain {digits : List Char} (hne : digits ≠ [])
    (hd : ∀ c ∈ digits, c.isDigit = true) (e : Int) :
    ∃ whole places, FloatStyle.plain.positional digits (e + digits.length) = whole ++ pointed places ∧
      Writes whole places (natOfDigits digits * 10 ^ e) := by
  have hlen : 0 < digits.length := List.length_pos_of_ne_nil hne
  simp only [FloatStyle.positional, FloatStyle.plain, Bool.false_eq_true, if_false]
  split_ifs with hbelow hwhole
  · -- all digits are behind the point
    refine ⟨['0'], List.replicate (-(e + digits.length)).toNat '0' ++ digits, ?_, by simp,
      fun _ => isDigit_of_mem_zero, ?_, ?_⟩
    · cases h : List.replicate (-(e + digits.length)).toNat '0' ++ digits with
      | nil => exact absurd (List.append_eq_nil_iff.1 h).2 hne
      | cons c cs => simp only [List.cons_append, List.nil_append, pointed, ← h]
    · intro c hc
      rcases List.mem_append.1 hc with hz | hc
      · exact isDigit_of_mem_zeros hz
      · exact hd c hc
    · rw [List.cons_append, List.nil_append, natOfDigits_zero_cons, natOfDigits_zeros_append,
        List.length_append, List.length_replicate]
      congr 2
      omega
  · -- all digits are before the point
    refine ⟨digits ++ List.replicate ((e + digits.length).toNat - digits.length) '0', [], ?_,
      by simp [hne], ?_, by simp, ?_⟩
    · simp [pointed]
    · intro c hc
      rcases List.mem_append.1 hc with hc | hz
      · exact hd c hc
      · exact isDigit_of_mem_zeros hz
    · have he : (((e + digits.length).toNat - digits.length : Nat) : Int) = e := by omega
      rw [List.append_nil, natOfDigits_append, natOfDigits_zeros, List.length_replicate]
      push_cast
      rw [List.length_nil, Nat.cast_zero, neg_zero, zpow_zero, mul_one, add_zero, ← zpow_natCast, he,
        mul_comm]
  · refine ⟨digits.take (e + digits.length).toNat, digits.drop (e + digits.length).toNat, ?_, ?_,
      fun c hc => hd c (List.mem_of_mem_take hc), fun c hc => hd c (List.mem_of_mem_drop hc), ?_⟩
    · cases h : digits.drop (e + digits.length).toNat with
      | nil => rw [List.drop_eq_nil_iff] at h; omega
      | cons c cs => rfl
    · intro h
      rw [List.take_eq_nil_iff] at h
      rcases h with h | h
      · omega
      · exact hne h
    · rw [List.take_append_drop, List.length_drop]
      congr 2
      omega

/-- The plain text of a finite number, without its sign. -/
theorem magnitude_plain {x : Binary64} (hf : x.isFinite = true) :
    ∃ whole places, FloatStyle.plain.magnitude x = whole ++ pointed places ∧
      Writes whole places (shortest .up x).value := by
  have hnan : x.isNaN = false := by
    simp only [isFinite, bne_iff_ne, ne_eq] at hf
    simp [isNaN, hf]
  simp only [FloatStyle.magnitude, hnan, hf, Bool.not_true, Bool.false_eq_true, if_false]
  cases hz : x.isZero with
  | true =>
    refine ⟨['0'], [], rfl, by simp, fun _ => isDigit_of_mem_zero, by simp, ?_⟩
    have hzero : natOfDigits ['0'] = 0 := by decide
    simp [hzero, shortest, hz, Decimal.value]
  | false =>
    have hpoint : (shortest .up x).exponent + (Nat.toDigits 10 (shortest .up x).digits).length - 1 +
        1 = (shortest .up x).exponent + (Nat.toDigits 10 (shortest .up x).digits).length := by omega
    have h := positional_plain Nat.toDigits_ne_nil
      (fun _ => isDigit_of_mem_toDigits (n := (shortest .up x).digits)) (shortest .up x).exponent
    rw [natOfDigits_toDigits, ← hpoint] at h
    exact h

/-- The number read from what writes its shortest decimal. -/
theorem ofDecimal_plain {x : Binary64} (hf : x.isFinite = true) {whole places : List Char}
    (h : Writes whole places (shortest .up x).value) :
    ofDecimal x.isNegative (natOfDigits (whole ++ places)) (-(places.length : Int)) = x := by
  cases hz : x.isZero with
  | true =>
    have hvalue := h.value
    simp only [shortest, hz, if_true, Decimal.value, Nat.cast_zero, zero_mul] at hvalue
    have hzero : natOfDigits (whole ++ places) = 0 := by
      have hpow : (10 : ℚ) ^ (-(places.length : Int)) ≠ 0 := by positivity
      exact_mod_cast (mul_eq_zero.1 hvalue).resolve_right hpow
    have hparts := ofMagnitude_parts hf
    simp only [isZero, Bool.and_eq_true, beq_iff_eq] at hz
    simp only [scale, significand, hz.1, hz.2, if_true] at hparts
    rw [hzero]
    exact hparts
  | false =>
    have hnear := shortest_near .up hz
    have hm := significand_pos hz
    rw [← h.value] at hnear
    have hpos : 0 < natOfDigits (whole ++ places) :=
      Decimal.digits_pos (d := ⟨natOfDigits (whole ++ places), -(places.length : Int)⟩)
        (hnear.pos hm)
    exact ofDecimal_of_near hf hm hpos hnear

end AgentContent
