import AgentContent.Text.Base64

/-!
# AgentContent.Proofs.Text.Base64

The standard alphabet read back: decoding inverts encoding.

* `decode?_encode`: every sequence of bytes comes back.
* `length_of_decode?`: a text that is read is as long as the one that is written for its bytes.
-/

namespace AgentContent
namespace Base64

theorem value?_digit_of_lt : ∀ n : Nat, n < 64 → value? (digit n) = some n := by
  decide +kernel

theorem digit_ne_fill_of_lt : ∀ n : Nat, n < 64 → digit n ≠ '=' := by
  decide +kernel

theorem digit_mod (n : Nat) : digit (n % 64) = digit n := by
  simp [digit]

theorem value?_digit (n : Nat) : value? (digit n) = some (n % 64) := by
  rw [← digit_mod]
  exact value?_digit_of_lt _ (Nat.mod_lt _ (by decide))

theorem digit_ne_fill (n : Nat) : digit n ≠ '=' := by
  rw [← digit_mod]
  exact digit_ne_fill_of_lt _ (Nat.mod_lt _ (by decide))

/-- A byte is the number that is given modulo 256. -/
theorem ofNat_eq_of_mod {n : Nat} {b : UInt8} (h : n % 256 = b.toNat) : UInt8.ofNat n = b := by
  apply UInt8.toNat_inj.1
  simpa using h

theorem decode?_one {x y a : Nat} (h : x % 64 * 64 + y % 64 = a * 16) :
    decode? [digit x, digit y, '=', '='] = some [UInt8.ofNat a] := by
  simp only [decode?, value?_digit]
  rw [h]
  simp

theorem decode?_two {x y z n : Nat} (h : (x % 64 * 64 + y % 64) * 64 + z % 64 = n * 4) :
    decode? [digit x, digit y, digit z, '='] = some [UInt8.ofNat (n / 256), UInt8.ofNat n] := by
  have hz := digit_ne_fill z
  have h1 : n * 4 / 1024 = n / 256 := by omega
  rw [decode?]
  · simp only [value?_digit, h, Nat.mul_mod_left, if_true]
    rw [h1, Nat.mul_div_cancel _ (by decide)]
  · intro hz'; exact absurd hz' hz

theorem decode?_four {x y z w n : Nat} {rest : List Char} {bytes : List UInt8}
    (h : ((x % 64 * 64 + y % 64) * 64 + z % 64) * 64 + w % 64 = n)
    (hr : decode? rest = some bytes) :
    decode? (digit x :: digit y :: digit z :: digit w :: rest) =
      some (UInt8.ofNat (n / 65536) :: UInt8.ofNat (n / 256) :: UInt8.ofNat n :: bytes) := by
  have hw := digit_ne_fill w
  rw [decode?]
  · simp only [value?_digit, h, hr]
  · intro _ hw'; exact fun _ => absurd hw' hw
  · intro hw'; exact fun _ => absurd hw' hw

theorem decode?_encode (bytes : List UInt8) : decode? (encode bytes) = some bytes := by
  fun_induction encode bytes with
  | case1 => rfl
  | case2 a n =>
    have ha := a.toNat_lt
    rw [decode?_one (a := a.toNat) (by omega), ofNat_eq_of_mod (b := a) (by omega)]
  | case3 a b n =>
    have ha := a.toNat_lt
    have hb := b.toNat_lt
    rw [decode?_two (n := a.toNat * 256 + b.toNat) (by omega), ofNat_eq_of_mod (b := a) (by omega),
      ofNat_eq_of_mod (b := b) (by omega)]
  | case4 a b c rest n ih =>
    have ha := a.toNat_lt
    have hb := b.toNat_lt
    have hc := c.toNat_lt
    rw [decode?_four (n := n) (by omega) ih, ofNat_eq_of_mod (b := a) (by omega),
      ofNat_eq_of_mod (b := b) (by omega), ofNat_eq_of_mod (b := c) (by omega)]

theorem length_of_decode? {cs : List Char} {bytes : List UInt8}
    (h : decode? cs = some bytes) : (encode bytes).length = cs.length := by
  fun_induction decode? cs generalizing bytes with
  | case1 => cases h; rfl
  | case2 => cases h; rfl
  | case3 => cases h
  | case4 => cases h
  | case5 => cases h; rfl
  | case6 => cases h
  | case7 => cases h
  | case8 => cases h
  | case9 =>
    rename_i hrest ih
    cases h
    simp only [encode, List.length_cons, ih hrest]
  | case10 => cases h
  | case11 => cases h

end Base64
end AgentContent
