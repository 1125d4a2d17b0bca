import AgentContent.Number.Numeral
import AgentContent.Time.Rfc3339
import Mathlib.Algebra.Group.Nat.Defs

/-!
# AgentContent.Proofs.Text.Numeral

Decimal numerals read back. A reader of characters of a class takes exactly the written ones when
what follows stops it: it is empty or starts with a character outside the class.

* `takeWhile_append_stop`, `dropWhile_append_stop`: where such a reader ends.
* `readNat?_toDigits`, `readNat?_padded`: the digits of a number, also filled with zeros.
* `readInt64?_toString`: the text of an integer that 64 bits hold.
-/

namespace AgentContent

/-- Empty, or the first element fails the test. -/
def Stops {α : Type} (p : α → Bool) (rest : List α) : Prop :=
  ∀ c ∈ rest.head?, p c = false

section Stops

variable {α : Type} {p : α → Bool}

theorem Stops.nil : Stops p [] := by
  intro c hc; simp at hc

theorem Stops.cons {c : α} {rest : List α} (h : p c = false) : Stops p (c :: rest) := by
  intro d hd
  simp only [List.head?_cons, Option.mem_def, Option.some.injEq] at hd
  exact hd ▸ h

theorem takeWhile_of_stops {rest : List α} (h : Stops p rest) : rest.takeWhile p = [] := by
  cases rest with
  | nil => rfl
  | cons c r => simp [h c rfl]

theorem dropWhile_of_stops {rest : List α} (h : Stops p rest) : rest.dropWhile p = rest := by
  cases rest with
  | nil => rfl
  | cons c r => simp [h c rfl]

theorem takeWhile_append_stop {w rest : List α} (hw : ∀ c ∈ w, p c = true) (hr : Stops p rest) :
    (w ++ rest).takeWhile p = w := by
  rw [List.takeWhile_append_of_pos hw, takeWhile_of_stops hr, List.append_nil]

theorem dropWhile_append_stop {w rest : List α} (hw : ∀ c ∈ w, p c = true) (hr : Stops p rest) :
    (w ++ rest).dropWhile p = rest := by
  rw [List.dropWhile_append_of_pos hw, dropWhile_of_stops hr]

theorem takeWhile_append_rest (cs : List α) {rest : List α} (hr : Stops p rest) :
    (cs ++ rest).takeWhile p = cs.takeWhile p := by
  induction cs with
  | nil => exact takeWhile_of_stops hr
  | cons c cs ih => rw [List.cons_append, List.takeWhile_cons, List.takeWhile_cons, ih]

theorem dropWhile_append_rest (cs : List α) {rest : List α} (hr : Stops p rest) :
    (cs ++ rest).dropWhile p = cs.dropWhile p ++ rest := by
  induction cs with
  | nil => exact dropWhile_of_stops hr
  | cons c cs ih =>
    rw [List.cons_append, List.dropWhile_cons, List.dropWhile_cons, ih]
    split <;> rfl

end Stops

/-! ## Digits -/

theorem natOfDigits_append (a b : List Char) :
    natOfDigits (a ++ b) = 10 ^ b.length * natOfDigits a + natOfDigits b := by
  show Nat.ofDigitChars 10 (a ++ b) 0 = _
  rw [Nat.ofDigitChars_append, Nat.ofDigitChars_eq_ofDigitChars_zero]
  rfl

theorem natOfDigits_toDigits (n : Nat) : natOfDigits (Nat.toDigits 10 n) = n :=
  Nat.ofDigitChars_ten_toDigits

theorem natOfDigits_zeros (k : Nat) : natOfDigits (List.replicate k '0') = 0 := by
  show Nat.ofDigitChars 10 (List.replicate k '0') 0 = 0
  rw [Nat.ofDigitChars_replicate_zero, Nat.mul_zero]

theorem natOfDigits_zero_cons (cs : List Char) : natOfDigits ('0' :: cs) = natOfDigits cs := by
  have h := natOfDigits_append ['0'] cs
  have hz : natOfDigits ['0'] = 0 := by decide
  rw [hz, Nat.mul_zero, Nat.zero_add] at h
  exact h

theorem natOfDigits_lt {cs : List Char} (h : ∀ c ∈ cs, c.isDigit = true) :
    natOfDigits cs < 10 ^ cs.length := by
  induction cs with
  | nil => decide
  | cons c rest ih =>
    have hrest := ih fun d hd => h d (List.mem_cons_of_mem _ hd)
    have hc := Char.isDigit_iff_toNat.1 (h c List.mem_cons_self)
    have hv : natOfDigits [c] ≤ 9 := by
      show 10 * 0 + (c.toNat - '0'.toNat) ≤ 9
      have : '0'.toNat = 48 ∧ '9'.toNat = 57 := by decide
      omega
    have hsplit : natOfDigits (c :: rest) = 10 ^ rest.length * natOfDigits [c] + natOfDigits rest :=
      natOfDigits_append [c] rest
    rw [hsplit, List.length_cons, Nat.pow_succ]
    have := Nat.mul_le_mul_left (10 ^ rest.length) hv
    omega

theorem isDigit_of_mem_toDigits {n : Nat} {c : Char} (h : c ∈ Nat.toDigits 10 n) :
    c.isDigit = true :=
  Nat.isDigit_of_mem_toDigits (by decide) (by decide) h

theorem isBlank_of_isDigit {c : Char} (h : c.isDigit = true) : isBlank c = false := by
  have hd := Char.isDigit_iff_toNat.1 h
  have h0 : '0'.toNat = 48 ∧ '9'.toNat = 57 := by decide
  generalize hn : c.toNat = n at hd
  simp only [isBlank, inRanges, blankRanges, List.any_cons, List.any_nil, Bool.or_eq_false_iff,
    Bool.and_eq_false_iff, decide_eq_false_iff_not, hn, and_true]
  refine ⟨?_, ?_, ?_, ?_, ?_, ?_, ?_, ?_, ?_, ?_⟩ <;> omega

theorem natOfDigits_padded (width n : Nat) : natOfDigits (padded width n) = n := by
  simp only [padded]
  rw [natOfDigits_append, natOfDigits_zeros, natOfDigits_toDigits, Nat.mul_zero, Nat.zero_add]

theorem isDigit_of_mem_padded {width n : Nat} {c : Char} (h : c ∈ padded width n) :
    c.isDigit = true := by
  simp only [padded, List.mem_append, List.mem_replicate] at h
  rcases h with ⟨-, rfl⟩ | h
  · rfl
  · exact isDigit_of_mem_toDigits h

/-- A numeral starts with a zero only when it is nothing else. -/
theorem toDigits_leading {n : Nat} {cs : List Char} (h : Nat.toDigits 10 n = '0' :: cs) :
    cs = [] := by
  have hn : n = natOfDigits cs := by
    rw [← natOfDigits_toDigits n, h, natOfDigits_zero_cons]
  have hd : ∀ c ∈ cs, c.isDigit = true := by
    intro c hc
    refine isDigit_of_mem_toDigits (n := n) ?_
    rw [h]
    exact List.mem_cons_of_mem _ hc
  by_cases hcs : cs = []
  · exact hcs
  · have hpos : 0 < cs.length := List.length_pos_iff.2 hcs
    have hlt : n < 10 ^ cs.length := hn ▸ natOfDigits_lt hd
    have hlen := (Nat.length_toDigits_le_iff (by decide) hpos).2 hlt
    rw [h, List.length_cons] at hlen
    omega

theorem padded_ne_nil (width n : Nat) : padded width n ≠ [] := by
  simp [padded, Nat.toDigits_ne_nil]

theorem length_padded {width n : Nat} (hw : 0 < width) (h : n < 10 ^ width) :
    (padded width n).length = width := by
  have : (Nat.toDigits 10 n).length ≤ width := (Nat.length_toDigits_le_iff (by decide) hw).2 h
  simp only [padded, List.length_append, List.length_replicate]
  omega

theorem readNat?_of_digits {cs : List Char} (hne : cs ≠ []) (h : ∀ c ∈ cs, c.isDigit = true) :
    readNat? cs = some (natOfDigits cs) := by
  have he : cs.isEmpty = false := by simpa using hne
  have ha : cs.all Char.isDigit = true := List.all_eq_true.2 h
  simp [readNat?, he, ha]

theorem readNat?_toDigits (n : Nat) : readNat? (Nat.toDigits 10 n) = some n := by
  rw [readNat?_of_digits Nat.toDigits_ne_nil fun _ => isDigit_of_mem_toDigits,
    natOfDigits_toDigits]

theorem readNat?_padded (width n : Nat) : readNat? (padded width n) = some n := by
  rw [readNat?_of_digits (padded_ne_nil width n) fun _ => isDigit_of_mem_padded,
    natOfDigits_padded]

theorem readNat?_eq_none {cs : List Char} {c : Char} (hc : c ∈ cs) (h : c.isDigit = false) :
    readNat? cs = none := by
  have : cs.all Char.isDigit = false := List.all_eq_false.2 ⟨c, hc, by simp [h]⟩
  simp [readNat?, this]

/-! ## Signed integers -/

theorem ne_sign_of_isDigit {c : Char} (h : c.isDigit = true) : c ≠ '-' ∧ c ≠ '+' := by
  constructor <;> (rintro rfl; revert h; decide)

theorem splitSign_of_digit {c : Char} {cs : List Char} (h : c.isDigit = true) :
    splitSign (c :: cs) = (false, c :: cs) := by
  obtain ⟨hm, hp⟩ := ne_sign_of_isDigit h
  unfold splitSign
  split
  · rename_i heq; cases heq; exact absurd rfl hm
  · rename_i heq; cases heq; exact absurd rfl hp
  · rfl

theorem splitSign_toDigits (n : Nat) :
    splitSign (Nat.toDigits 10 n) = (false, Nat.toDigits 10 n) := by
  cases h : Nat.toDigits 10 n with
  | nil => exact absurd h Nat.toDigits_ne_nil
  | cons c cs =>
    refine splitSign_of_digit (isDigit_of_mem_toDigits (n := n) ?_)
    rw [h]; exact List.mem_cons_self

theorem toList_toString_ofNat (n : Nat) : (toString (n : Int)).toList = Nat.toDigits 10 n := by
  show (toString n).toList = _
  rw [Nat.toString_eq_ofList_toDigits, String.toList_ofList]

theorem toList_toString_negSucc (n : Nat) :
    (toString (Int.negSucc n)).toList = '-' :: Nat.toDigits 10 (n + 1) := by
  show ("-" ++ Nat.repr (n + 1)).toList = _
  rw [String.toList_append, Nat.toList_repr]
  rfl

theorem readInt?_toString (n : Int) : readInt? (toString n).toList = some n := by
  cases n with
  | ofNat n =>
    rw [Int.ofNat_eq_natCast, toList_toString_ofNat]
    simp only [readInt?, splitSign_toDigits, readNat?_toDigits]
    rfl
  | negSucc n =>
    rw [toList_toString_negSucc]
    simp only [readInt?, splitSign, readNat?_toDigits]
    rfl

theorem readInt64?_toString {n : Int} (h : fitsInt64 n = true) :
    readInt64? (toString n).toList = some n := by
  simp only [readInt64?, readInt?_toString, h, if_true]

theorem readInt64?_eq_none {cs : List Char} {c : Char} (hc : c ∈ cs) (hd : c.isDigit = false)
    (hm : c ≠ '-') (hp : c ≠ '+') : readInt64? cs = none := by
  have hrest : c ∈ (splitSign cs).2 := by
    unfold splitSign
    split
    · simpa [hm] using hc
    · simpa [hp] using hc
    · exact hc
  simp only [readInt64?, readInt?]
  rw [readNat?_eq_none hrest hd]

end AgentContent
