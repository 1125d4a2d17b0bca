import AgentContent.Json.Write
import AgentContent.Proofs.Json.Read
import AgentContent.Proofs.Text.Numeral

/-!
# AgentContent.Proofs.Json.Token

Scanning the words of a document text. A number is taken back whole when the text behind it is empty
or starts with a character that does not continue a number; every other word ends by itself.

* `scanNumber_append`, `scanNumber_writeInt`: numbers in front of other text.
* `stringBody_flatMap`: the characters of a string, each plain or escaped.
* `Scans`: a piece of text gives some words, whatever ended text follows.
-/

namespace AgentContent
namespace Json
namespace Token

/-- The characters that continue a number. -/
def isNumberChar (c : Char) : Bool :=
  c.isDigit || c = '.' || c = 'e' || c = 'E'

/-- Empty, or the first character does not continue a number. -/
abbrev Ends (rest : List Char) : Prop :=
  Stops isNumberChar rest

theorem Ends.stops_digit {rest : List Char} (h : Ends rest) : Stops Char.isDigit rest := by
  intro c hc
  have := h c hc
  simp only [isNumberChar, Bool.or_eq_false_iff] at this
  exact this.1.1.1

/-! ## Numbers -/

/-- The places after a point, if there is one, and the text after them. -/
def scanPlaces : List Char → Option (Option (List Char) × List Char)
  | '.' :: r =>
    let places := r.takeWhile Char.isDigit
    if places.isEmpty then none else some (some places, r.dropWhile Char.isDigit)
  | r => some (none, r)

/-- The power of ten after a mark, if there is one, and the text after it. -/
def scanPower (cs : List Char) : Option (Option Int × List Char) :=
  match cs with
  | c :: r =>
    if c = 'e' || c = 'E' then
      let (down, r) := splitSign r
      match readNat? (r.takeWhile Char.isDigit) with
      | none => none
      | some e => some (some (if down then -(e : Int) else e), r.dropWhile Char.isDigit)
    else some (none, cs)
  | [] => some (none, [])

/-- A number after its sign, and the text after it. -/
def scanMagnitude (negative : Bool) (body : List Char) : Option (Json × List Char) :=
  let whole := body.takeWhile Char.isDigit
  if whole.isEmpty || (whole.head? = some '0' && 1 < whole.length) then none
  else
    match scanPlaces (body.dropWhile Char.isDigit) with
    | none => none
    | some (places, rest) =>
      match scanPower rest with
      | none => none
      | some (power, rest) => (number? negative whole places power).map fun v => (v, rest)

theorem scanNumber_negative (cs : List Char) : scanNumber ('-' :: cs) = scanMagnitude true cs := rfl

theorem scanNumber_of_ne {c : Char} (h : c ≠ '-') (cs : List Char) :
    scanNumber (c :: cs) = scanMagnitude false (c :: cs) := by
  unfold scanNumber
  split
  rename_i negative body heq
  split at heq
  · rename_i hm; cases hm; exact absurd rfl h
  · cases heq; rfl

section Append

variable {rest : List Char}

theorem scanPlaces_of_ends (hr : Ends rest) : scanPlaces rest = some (none, rest) := by
  unfold scanPlaces
  split
  · exact absurd (hr _ rfl) (by decide)
  · rfl

theorem scanPlaces_append {cs after : List Char} {places : Option (List Char)}
    (h : scanPlaces cs = some (places, after)) (hr : Ends rest) :
    scanPlaces (cs ++ rest) = some (places, after ++ rest) := by
  unfold scanPlaces at h
  split at h
  · rename_i r
    rw [List.cons_append, scanPlaces, takeWhile_append_rest r hr.stops_digit,
      dropWhile_append_rest r hr.stops_digit]
    simp only at h ⊢
    split at h
    · cases h
    · rename_i hne
      cases h
      rw [if_neg hne]
  · rename_i hpoint
    cases h
    cases cs with
    | nil => exact scanPlaces_of_ends hr
    | cons c cs =>
      rw [List.cons_append, scanPlaces]
      intro r hc
      cases hc
      exact hpoint cs rfl

theorem scanPower_of_ends (hr : Ends rest) : scanPower rest = some (none, rest) := by
  cases rest with
  | nil => rfl
  | cons c cs =>
    have hc := hr c rfl
    simp only [isNumberChar, Bool.or_eq_false_iff, decide_eq_false_iff_not] at hc
    simp [scanPower, hc.1.2, hc.2]

theorem splitSign_append {cs : List Char} (hne : cs ≠ []) :
    splitSign (cs ++ rest) = ((splitSign cs).1, (splitSign cs).2 ++ rest) := by
  obtain ⟨c, cs, rfl⟩ := List.exists_cons_of_ne_nil hne
  rw [List.cons_append]
  by_cases hm : c = '-'
  · subst hm; rfl
  · by_cases hp : c = '+'
    · subst hp; rfl
    · have hplain : ∀ r, splitSign (c :: r) = (false, c :: r) := by
        intro r
        unfold splitSign
        split
        · rename_i heq; cases heq; exact absurd rfl hm
        · rename_i heq; cases heq; exact absurd rfl hp
        · rfl
      rw [hplain, hplain, List.cons_append]

theorem scanPower_append {cs after : List Char} {power : Option Int}
    (h : scanPower cs = some (power, after)) (hr : Ends rest) :
    scanPower (cs ++ rest) = some (power, after ++ rest) := by
  cases cs with
  | nil => cases h; exact scanPower_of_ends hr
  | cons c r =>
    simp only [List.cons_append, scanPower] at h ⊢
    split at h
    · rename_i hc
      rw [if_pos hc]
      have hne : r ≠ [] := by
        rintro rfl
        cases h
      rw [splitSign_append hne]
      simp only [takeWhile_append_rest _ hr.stops_digit, dropWhile_append_rest _ hr.stops_digit]
      split at h
      · cases h
      · cases h; rfl
    · rename_i hc
      cases h
      rw [if_neg hc]
      rfl

theorem scanMagnitude_append {negative : Bool} {cs after : List Char} {v : Json}
    (h : scanMagnitude negative cs = some (v, after)) (hr : Ends rest) :
    scanMagnitude negative (cs ++ rest) = some (v, after ++ rest) := by
  simp only [scanMagnitude, takeWhile_append_rest cs hr.stops_digit,
    dropWhile_append_rest cs hr.stops_digit] at h ⊢
  split at h
  · cases h
  · rename_i hwhole
    rw [if_neg hwhole]
    split at h
    · cases h
    · rename_i places afterPlaces hplaces
      rw [scanPlaces_append hplaces hr]
      simp only
      split at h
      · cases h
      · rename_i power afterPower hpower
        rw [scanPower_append hpower hr]
        simp only [Option.map_eq_some_iff, Prod.mk.injEq] at h ⊢
        obtain ⟨w, hw, rfl, rfl⟩ := h
        exact ⟨w, hw, rfl, rfl⟩

/-- What follows a number does not change it. -/
theorem scanNumber_append {cs after : List Char} {v : Json}
    (h : scanNumber cs = some (v, after)) (hr : Ends rest) :
    scanNumber (cs ++ rest) = some (v, after ++ rest) := by
  cases cs with
  | nil => cases h
  | cons c cs =>
    by_cases hc : c = '-'
    · subst hc
      exact scanMagnitude_append (h : scanMagnitude true cs = _) hr
    · rw [scanNumber_of_ne hc] at h
      rw [List.cons_append, scanNumber_of_ne hc]
      exact scanMagnitude_append h hr

end Append

/-- A number starts with a sign or a digit. -/
theorem scanNumber_head {c : Char} {cs after : List Char} {v : Json}
    (h : scanNumber (c :: cs) = some (v, after)) : c = '-' ∨ c.isDigit = true := by
  by_cases hc : c = '-'
  · exact Or.inl hc
  · refine Or.inr ?_
    by_cases hd : c.isDigit = true
    · exact hd
    · rw [scanNumber_of_ne hc, scanMagnitude, List.takeWhile_cons_of_neg hd] at h
      cases h

/-! ## Integers -/

theorem le_ofDigitChars (ds : List Char) (n : Nat) : n ≤ Nat.ofDigitChars 10 ds n := by
  rw [Nat.ofDigitChars_eq_ofDigitChars_zero]
  have : 1 * n ≤ 10 ^ ds.length * n := Nat.mul_le_mul_right n (Nat.pow_pos (by decide))
  omega

theorem significantDigits_of_lt {ds : List Char} {n : Nat}
    (h : Nat.ofDigitChars 10 ds n < 0x10000000000000000) :
    significantDigits n ds = (Nat.ofDigitChars 10 ds n, 0) := by
  induction ds generalizing n with
  | nil => rfl
  | cons c ds ih =>
    have hstep : Nat.ofDigitChars 10 (c :: ds) n = Nat.ofDigitChars 10 ds (10 * n + digitValue c) :=
      rfl
    rw [hstep] at h ⊢
    have hle := le_ofDigitChars ds (10 * n + digitValue c)
    rw [significantDigits, if_pos (by omega), ih h]

/-- An integer that 64 bits hold, with a sign or without. -/
def IsInt64 (n : Int) : Prop :=
  -0x8000000000000000 ≤ n ∧ n < 0x10000000000000000

instance (n : Int) : Decidable (IsInt64 n) :=
  inferInstanceAs (Decidable (_ ∧ _))

theorem scanMagnitude_toDigits (n : Nat) (negative : Bool) {rest : List Char} (hr : Ends rest) :
    scanMagnitude negative (Nat.toDigits 10 n ++ rest) =
      (number? negative (Nat.toDigits 10 n) none none).map fun v => (v, rest) := by
  have hd : ∀ c ∈ Nat.toDigits 10 n, c.isDigit = true := fun _ => isDigit_of_mem_toDigits
  have hne : (Nat.toDigits 10 n).isEmpty = false := by simp [Nat.toDigits_ne_nil]
  have hzero : ((Nat.toDigits 10 n).head? = some '0' && 1 < (Nat.toDigits 10 n).length) = false := by
    cases hds : Nat.toDigits 10 n with
    | nil => rfl
    | cons c cs =>
      by_cases hc : c = '0'
      · subst hc
        have := toDigits_leading hds
        subst this
        rfl
      · simp [hc]
  simp only [scanMagnitude, takeWhile_append_stop hd hr.stops_digit,
    dropWhile_append_stop hd hr.stops_digit, hne, hzero, Bool.or_self, Bool.false_eq_true, if_false,
    scanPlaces_of_ends hr, scanPower_of_ends hr]

theorem significantDigits_toDigits {n : Nat} (hn : n < 0x10000000000000000) :
    significantDigits 0 (Nat.toDigits 10 n) = (n, 0) := by
  have h : Nat.ofDigitChars 10 (Nat.toDigits 10 n) 0 = n := Nat.ofDigitChars_ten_toDigits
  rw [significantDigits_of_lt (by rw [h]; exact hn), h]

theorem scanNumber_writeInt {n : Int} (h : IsInt64 n) {rest : List Char} (hr : Ends rest) :
    scanNumber (writeInt n ++ rest) = some (.integer n, rest) := by
  obtain ⟨hlow, hhigh⟩ := h
  cases n with
  | ofNat n =>
    have hn : n < 0x10000000000000000 := by
      have : (Int.ofNat n) = (n : Int) := rfl
      omega
    have hread : number? false (Nat.toDigits 10 n) none none = some (.integer n) := by
      simp [number?, significantDigits_toDigits hn]
    rw [writeInt, Int.ofNat_eq_natCast, toList_toString_ofNat]
    obtain ⟨c, cs, hc⟩ := List.exists_cons_of_ne_nil (Nat.toDigits_ne_nil (b := 10) (n := n))
    have hdigit : c.isDigit = true := by
      refine isDigit_of_mem_toDigits (n := n) ?_
      rw [hc]
      exact List.mem_cons_self
    have hscan := scanMagnitude_toDigits n false hr
    rw [hc, List.cons_append] at hscan ⊢
    rw [scanNumber_of_ne (ne_sign_of_isDigit hdigit).1, hscan, ← hc, hread]
    rfl
  | negSucc n =>
    have hn : n + 1 ≤ 0x8000000000000000 := by omega
    have hread : number? true (Nat.toDigits 10 (n + 1)) none none = some (.integer (Int.negSucc n)) := by
      have hbig : ¬0x8000000000000000 < n + 1 := by omega
      simp only [number?, significantDigits_toDigits (by omega : n + 1 < 0x10000000000000000)]
      simp only [hbig]
      simp [Int.negSucc_eq]
    rw [writeInt, toList_toString_negSucc, List.cons_append, scanNumber_negative,
      scanMagnitude_toDigits (n + 1) true hr, hread]
    rfl

/-! ## Strings -/

theorem unit?_control : ∀ n < 32,
    unit? '0' '0' (Nat.digitChar (n / 16)) (Nat.digitChar (n % 16)) = some n := by
  decide

theorem charOfUnit?_control {c : Char} (h : c.toNat < 32) : charOfUnit? c.toNat = some c := by
  have : (decide (0xD800 ≤ c.toNat) && decide (c.toNat ≤ 0xDFFF)) = false := by
    simp; omega
  rw [charOfUnit?, this, if_neg (by decide), Char.ofNat_toNat]

theorem stringBody_controlEscape {c : Char} (h : c.toNat < 32) (done rest : List Char) :
    stringBody done (controlEscape c ++ rest) = stringBody (c :: done) rest := by
  have hunit := unit?_control c.toNat h
  have hchar := charOfUnit?_control h
  simp only [controlEscape, List.cons_append, List.nil_append]
  rw [stringBody.eq_def]
  split
  · rename_i heq; cases heq
  · rename_i heq; cases heq
  · rename_i heq
    cases heq
    simp only [hunit, hchar]
  · rename_i heq
    cases heq
    simp only [hunit, hchar, Option.bind_some]
  · rename_i hlong hshort heq
    cases heq
    exact (hshort _ _ _ _ _ rfl rfl).elim
  · rename_i hne heq
    cases heq
    exact (hne _ _ rfl rfl).elim

theorem stringBody_simple {e x : Char} (h : simpleEscape? e = some x) (done rest : List Char) :
    stringBody done ('\\' :: e :: rest) = stringBody (x :: done) rest := by
  have hu : e ≠ 'u' := by
    rintro rfl
    cases h
  rw [stringBody.eq_def]
  split
  · rename_i heq; cases heq
  · rename_i heq; cases heq
  · rename_i heq; cases heq; exact absurd rfl hu
  · rename_i heq; cases heq; exact absurd rfl hu
  · rename_i heq
    cases heq
    simp only [h]
  · rename_i hne heq
    cases heq
    exact (hne _ _ rfl rfl).elim

theorem stringBody_plain {c : Char} (h : 32 ≤ c.toNat) (hq : c ≠ '"') (hb : c ≠ '\\')
    (done rest : List Char) : stringBody done (c :: rest) = stringBody (c :: done) rest := by
  rw [stringBody.eq_def]
  split
  · rename_i heq; cases heq
  · rename_i heq; cases heq; exact absurd rfl hq
  · rename_i heq; cases heq; exact absurd rfl hb
  · rename_i heq; cases heq; exact absurd rfl hb
  · rename_i heq; cases heq; exact absurd rfl hb
  · rename_i heq
    cases heq
    simp [hb, Nat.not_lt.2 h]

theorem stringBody_stringChar (c : Char) (done rest : List Char) :
    stringBody done (stringChar c ++ rest) = stringBody (c :: done) rest := by
  unfold stringChar
  split
  · exact stringBody_simple rfl done rest
  · exact stringBody_simple rfl done rest
  · exact stringBody_simple rfl done rest
  · exact stringBody_simple rfl done rest
  · exact stringBody_simple rfl done rest
  · exact stringBody_simple rfl done rest
  · exact stringBody_simple rfl done rest
  · rename_i hq hb _ _ _ _ _
    split
    · rename_i h
      exact stringBody_controlEscape h done rest
    · rename_i h
      exact stringBody_plain (Nat.le_of_not_lt h) hq hb done rest

theorem stringBody_flatMap (s done rest : List Char) :
    stringBody done (s.flatMap stringChar ++ '"' :: rest) = some (done.reverse ++ s, rest) := by
  induction s generalizing done with
  | nil => simp [stringBody]
  | cons c s ih =>
    rw [List.flatMap_cons, List.append_assoc, stringBody_stringChar, ih, List.reverse_cons,
      List.append_assoc, List.singleton_append]

end Token
end Json
end AgentContent
