/-!
# AgentContent.Text.Basic

Blank characters, and names.

* `inRanges`: the character lies in one of the closed ranges of code points.
* `isBlank`: the white space of all scripts. `trim`: a text without its blanks at both ends.
* `sameName`: two names of types, slots, languages or ontologies are the same when they differ only
  in the case of ASCII letters; `foldName` picks one spelling for all of them.
* `sameName_refl`, `sameName_symm`, `sameName_trans`: it is an equivalence.
-/

namespace AgentContent

/-! ## Blanks -/

/-- The code point lies in one of the closed ranges. -/
def inRanges (ranges : List (Nat × Nat)) (c : Char) : Bool :=
  ranges.any fun r => r.1 ≤ c.toNat && c.toNat ≤ r.2

def blankRanges : List (Nat × Nat) := [
  (0x9, 0xD), (0x20, 0x20), (0x85, 0x85), (0xA0, 0xA0), (0x1680, 0x1680), (0x2000, 0x200A),
  (0x2028, 0x2029), (0x202F, 0x202F), (0x205F, 0x205F), (0x3000, 0x3000)]

/-- White space of any script. -/
def isBlank (c : Char) : Bool :=
  inRanges blankRanges c

def trimStart (cs : List Char) : List Char :=
  cs.dropWhile isBlank

def trimEnd (cs : List Char) : List Char :=
  (cs.reverse.dropWhile isBlank).reverse

def trim (cs : List Char) : List Char :=
  trimEnd (trimStart cs)

/-! ## Names -/

/-- The spelling under which names are compared: ASCII letters in lower case. -/
def foldName (name : String) : String :=
  String.ofList (name.toList.map Char.toLower)

def sameName (a b : String) : Bool :=
  foldName a == foldName b

theorem sameName_iff {a b : String} : sameName a b = true ↔ foldName a = foldName b := by
  simp [sameName]

@[simp] theorem sameName_refl (a : String) : sameName a a = true := by
  simp [sameName]

theorem sameName_symm {a b : String} (h : sameName a b = true) : sameName b a = true := by
  rw [sameName_iff] at h ⊢; exact h.symm

theorem sameName_trans {a b c : String} (h : sameName a b = true) (k : sameName b c = true) :
    sameName a c = true := by
  rw [sameName_iff] at h k ⊢; exact h.trans k

theorem sameName_comm (a b : String) : sameName a b = sameName b a := by
  rw [Bool.eq_iff_iff, sameName_iff, sameName_iff]; exact eq_comm

end AgentContent
