import AgentContent.Proofs.Content.Nodes
import AgentContent.Proofs.Number.Positional
import AgentContent.Proofs.Sl.Date
import AgentContent.Proofs.Sl.Token
import AgentContent.Sl.Decode

/-!
# AgentContent.Proofs.Sl.Word

The text of a primitive is one lexical element, which stands for the primitive.

* `Lexeme.content?`: the content that an element stands for by itself.
* `Spells`: a text is read as an element, whatever ended text follows it.
* `readFloat?_writeFloat`: the text of a finite float.
* `spells_writePrimitive`: the text of a primitive that its text determines.
-/

namespace AgentContent
namespace Sl

/-- The content that an element stands for by itself. -/
def Lexeme.content? : Lexeme → Option Content
  | .word w => some (.primitive (wordValue w))
  | .quoted s => some (.ofString s)
  | .variable name isMeta => some (.freeVariable name isMeta)
  | .bytes bs => some (.ofBytes bs)
  | .keyword _ | .open | .close => none

theorem expression_atom_eq_ok {o : Ontology} {finish offset : Nat} {e : Expect} {l : Lexeme}
    {c : Content} : expression o finish e (.atom l offset) = .ok c ↔ l.content? = some c := by
  cases l <;> simp [expression, Lexeme.content?]

/-- The text is read as the element, whatever ended text follows it. -/
def Spells (text : List Char) (l : Lexeme) : Prop :=
  ∃ c cs, text = c :: cs ∧ isBlank c = false ∧
    ∀ rest, Ends rest → readLexeme c (cs ++ rest) = .ok (l, rest)

theorem Spells.scans {text : List Char} {l : Lexeme} (h : Spells text l) (n : Nat) :
    Scans n text [⟨l, n⟩] := by
  obtain ⟨c, cs, rfl, hb, hr⟩ := h
  exact .lexeme hb hr

theorem spells_symbol {text : List Char} (h : isSymbol text = true) :
    Spells text (.word (String.ofList text)) := by
  obtain ⟨c, cs, rfl⟩ := exists_cons_of_isSymbol h
  obtain ⟨-, -, -, hd⟩ := isSymbol_cons h
  exact ⟨c, cs, rfl, isBlank_of_isDelimiter_false (hd c List.mem_cons_self),
    fun rest hr => readLexeme_word h hr⟩

theorem spells_keyword {name : List Char} (h : isSymbol name = true) :
    Spells (':' :: name) (.keyword (String.ofList name)) :=
  ⟨':', name, rfl, by decide, fun _ hr => readLexeme_keyword h hr⟩

theorem spells_variable {name : List Char} (h : isSymbol name = true) (isMeta : Bool) :
    Spells (variableMark isMeta ++ name) (.variable (String.ofList name) isMeta) := by
  refine ⟨'?', (variableMark isMeta).tail ++ name, ?_, by decide, fun rest hr => ?_⟩
  · cases isMeta <;> rfl
  · rw [List.append_assoc]
    exact readLexeme_variable h hr isMeta

theorem spells_quoted (s : String) : Spells (writeQuoted s) (.quoted s) := by
  refine ⟨'"', s.toList.flatMap quoteChar ++ ['"'], rfl, by decide, fun rest _ => ?_⟩
  rw [List.append_assoc, List.singleton_append, readLexeme_quoted, String.ofList_toList]

theorem spells_bytes {bytes : List UInt8}
    (h : (Base64.encode bytes).length ≤ maxCapacity) :
    Spells (writeBytes bytes) (.bytes bytes) := by
  refine ⟨'#', Nat.toDigits 10 (Base64.encode bytes).length ++ '"' :: Base64.encode bytes, rfl,
    by decide, fun rest _ => ?_⟩
  rw [List.append_assoc, List.cons_append]
  exact readLexeme_bytes rest h

/-! ## Numerals and dates are words -/

/-- The characters of the words that integers, floats and dates are written as. -/
def isWordDigit (c : Char) : Bool :=
  c.isDigit || ['+', '-', '.', 'e', 'E', 'T', 'Z'].contains c

theorem isWordDigit_plain {c : Char} (h : isWordDigit c = true) :
    isDelimiter c = false ∧ c ≠ '?' ∧ c ≠ ':' ∧ c ≠ '#' := by
  simp only [isWordDigit, Bool.or_eq_true] at h
  rcases h with hd | hm
  · have hn := Char.isDigit_iff_toNat.1 hd
    have h0 : '0'.toNat = 48 ∧ '9'.toNat = 57 := by decide
    have hne : ∀ d : Char, d.isDigit = false → c ≠ d := fun d hf he => by
      rw [he, hf] at hd; cases hd
    have hb := isBlank_of_isDigit hd
    refine ⟨?_, hne _ (by decide), hne _ (by decide), hne _ (by decide)⟩
    simp [isDelimiter, hb, hne '(' (by decide), hne ')' (by decide), hne '"' (by decide)]
  · simp only [List.contains_iff_mem, List.mem_cons, List.not_mem_nil, or_false] at hm
    rcases hm with rfl | rfl | rfl | rfl | rfl | rfl | rfl <;> decide

theorem isSymbol_of_isWordDigit {cs : List Char} (hne : cs ≠ [])
    (h : ∀ c ∈ cs, isWordDigit c = true) : isSymbol cs = true := by
  obtain ⟨c, cs, rfl⟩ := List.exists_cons_of_ne_nil hne
  obtain ⟨-, hq, hk, hb⟩ := isWordDigit_plain (h c List.mem_cons_self)
  have hd : (c :: cs).any isDelimiter = false :=
    List.any_eq_false.2 fun d hd => by simp [(isWordDigit_plain (h d hd)).1]
  simp [isSymbol, hq, hk, hb, hd]

theorem isWordDigit_of_isDigit {c : Char} (h : c.isDigit = true) : isWordDigit c = true := by
  simp [isWordDigit, h]

theorem isWordDigit_padded {width n : Nat} {c : Char} (h : c ∈ padded width n) :
    isWordDigit c = true :=
  isWordDigit_of_isDigit (isDigit_of_mem_padded h)

/-! ## The words of integers -/

theorem wordValue_of_readInt64? {w : String} {n : Int} (h : readInt64? w.toList = some n) :
    wordValue w = .integer n := by
  have hword : ∀ v : String, readInt64? v.toList = none → w ≠ v := by
    rintro v hv rfl
    rw [hv] at h
    cases h
  have htrue := hword "true" (by decide)
  have hfalse := hword "false" (by decide)
  simp only [wordValue, htrue, hfalse, if_false, h]

theorem isWordDigit_of_mem_toString {n : Int} {c : Char} (h : c ∈ (toString n).toList) :
    isWordDigit c = true := by
  cases n with
  | ofNat n =>
    rw [Int.ofNat_eq_natCast, toList_toString_ofNat] at h
    exact isWordDigit_of_isDigit (isDigit_of_mem_toDigits h)
  | negSucc n =>
    rw [toList_toString_negSucc, List.mem_cons] at h
    rcases h with rfl | h
    · decide
    · exact isWordDigit_of_isDigit (isDigit_of_mem_toDigits h)

theorem toString_ne_nil (n : Int) : (toString n).toList ≠ [] := by
  cases n with
  | ofNat n =>
    rw [Int.ofNat_eq_natCast, toList_toString_ofNat]
    exact Nat.toDigits_ne_nil
  | negSucc n =>
    rw [toList_toString_negSucc]
    exact List.cons_ne_nil _ _

/-! ## The words of floats -/

/-- Digits around a point behind the sign. -/
theorem exists_writeFloat {x : Binary64} (hf : x.isFinite = true) :
    ∃ whole places, writeFloat x = signed x.isNegative (whole ++ '.' :: places) ∧
      Writes whole places (shortest .up x).value := by
  obtain ⟨whole, places, htext, hw⟩ := magnitude_plain hf
  have hnan : x.isNaN = false := by
    simp only [Binary64.isFinite, bne_iff_ne, ne_eq] at hf
    simp [Binary64.isNaN, hf]
  have hwrite : FloatStyle.plain.write x = signed x.isNegative (whole ++ pointed places) := by
    simp only [FloatStyle.write, hnan, Bool.not_false, Bool.and_true, htext, signed]
  have hplain : ∀ c ∈ whole, ¬(c = '.' ∨ c = 'e' ∨ c = 'E') := by
    intro c hc hm
    have hd := hw.wholeDigits c hc
    rcases hm with rfl | rfl | rfl <;> revert hd <;> decide
  cases places with
  | nil =>
    refine ⟨whole, ['0'], ?_, hw.ne_nil, hw.wholeDigits, fun _ => isDigit_of_mem_zero, ?_⟩
    · have hnone : (signed x.isNegative whole).any
          (fun c => c = '.' || c = 'e' || c = 'E') = false := by
        rw [List.any_eq_false]
        intro c hc
        have hc' : c = '-' ∨ c ∈ whole := by
          cases hs : x.isNegative <;> rw [hs] at hc <;> simp [signed] at hc <;> simp [hc]
        rcases hc' with rfl | hc'
        · decide
        · simpa [and_assoc] using hplain c hc'
      simp only [writeFloat, hwrite, pointed, List.append_nil, hnone, Bool.false_eq_true, if_false]
      cases x.isNegative <;> simp [signed]
    · rw [← hw.value, List.append_nil, natOfDigits_append]
      have hzero : natOfDigits ['0'] = 0 := by decide
      simp only [hzero, List.length_singleton, Nat.add_zero, List.length_nil]
      push_cast
      norm_num
      ring
  | cons c cs =>
    refine ⟨whole, c :: cs, ?_, hw⟩
    have hany : (FloatStyle.plain.write x).any (fun c => c = '.' || c = 'e' || c = 'E') = true := by
      rw [hwrite, List.any_eq_true]
      exact ⟨'.', by cases x.isNegative <;> simp [signed, pointed], by decide⟩
    simp only [writeFloat, hany, if_true]
    rw [hwrite, pointed]

/-- The text of a finite float reads back as the float, bit by bit. -/
theorem readFloat?_writeFloat {x : Binary64} (hf : x.isFinite = true) :
    readFloat? (writeFloat x) = some x := by
  obtain ⟨whole, places, htext, hw⟩ := exists_writeFloat hf
  rw [htext, readFloat?_pointed x.isNegative hw.ne_nil hw.wholeDigits hw.placesDigits,
    ofDecimal_plain hf hw]

theorem writeFloat_chars {x : Binary64} (hf : x.isFinite = true) :
    '.' ∈ writeFloat x ∧ (∃ c ∈ writeFloat x, c.isDigit = true) ∧
      ∀ c ∈ writeFloat x, c.isDigit = true ∨ c = '-' ∨ c = '.' := by
  obtain ⟨whole, places, htext, hw⟩ := exists_writeFloat hf
  obtain ⟨d, ds, hd⟩ := List.exists_cons_of_ne_nil hw.ne_nil
  have hmem : ∀ c, c ∈ writeFloat x ↔
      (x.isNegative = true ∧ c = '-') ∨ c ∈ whole ∨ c = '.' ∨ c ∈ places := by
    intro c
    rw [htext]
    cases x.isNegative <;> simp [signed]
  refine ⟨(hmem _).2 (.inr (.inr (.inl rfl))), ⟨d, (hmem _).2 ?_, hw.wholeDigits d ?_⟩, ?_⟩
  · exact .inr (.inl (by rw [hd]; exact List.mem_cons_self))
  · rw [hd]; exact List.mem_cons_self
  · intro c hc
    rcases (hmem c).1 hc with ⟨-, rfl⟩ | hc | rfl | hc
    · exact .inr (.inl rfl)
    · exact .inl (hw.wholeDigits c hc)
    · exact .inr (.inr rfl)
    · exact .inl (hw.placesDigits c hc)

theorem wordValue_writeFloat {x : Binary64} (hf : x.isFinite = true) :
    wordValue (String.ofList (writeFloat x)) = .float x := by
  obtain ⟨hpoint, ⟨d, hd, hdigit⟩, hall⟩ := writeFloat_chars hf
  have hint : readInt64? (writeFloat x) = none :=
    readInt64?_eq_none hpoint (by decide) (by decide) (by decide)
  have hnumeric : looksNumeric (writeFloat x) = true := by
    simp only [looksNumeric, Bool.and_eq_true, List.any_eq_true, List.all_eq_true]
    refine ⟨⟨d, hd, hdigit⟩, fun c hc => ?_⟩
    rcases hall c hc with h | rfl | rfl
    · simp [h]
    · decide
    · decide
  have hword : ∀ w : String, '.' ∉ w.toList → String.ofList (writeFloat x) ≠ w := by
    rintro w hw rfl
    exact hw (by rwa [String.toList_ofList])
  simp only [wordValue, hword "true" (by decide), hword "false" (by decide), if_false,
    String.toList_ofList, hint, hnumeric, if_true, readFloat?_writeFloat hf]

/-! ## The words of dates -/

theorem isWordDigit_writeYear {year : Int} {c : Char} (h : c ∈ writeYear year) :
    isWordDigit c = true := by
  unfold writeYear at h
  split at h
  · exact isWordDigit_padded h
  · rcases List.mem_cons.1 h with rfl | h
    · split <;> decide
    · exact isWordDigit_padded h

theorem writeDate_chars (t : Instant) :
    'T' ∈ writeDate t ∧ ∀ c ∈ writeDate t, isWordDigit c = true := by
  constructor
  · simp [writeDate]
  · intro c hc
    simp only [writeDate, List.mem_append, List.mem_cons, List.not_mem_nil, or_false] at hc
    rcases hc with ((((((hc | hc) | hc) | hc) | hc) | hc) | hc) | hc
    all_goals first
      | exact isWordDigit_writeYear hc
      | exact isWordDigit_padded hc
      | (subst hc; decide)
      | (rcases hc with rfl | hc
         · decide
         · exact isWordDigit_padded hc)

/-- The word of a date is no truth value and no number. -/
theorem wordValue_writeDate_eq (t : Instant) : wordValue (String.ofList (writeDate t)) =
    match readDate? (writeDate t) with
    | some t => .date t
    | none => .string (String.ofList (writeDate t)) := by
  obtain ⟨hT, -⟩ := writeDate_chars t
  have hint : readInt64? (writeDate t) = none :=
    readInt64?_eq_none hT (by decide) (by decide) (by decide)
  have hnumeric : looksNumeric (writeDate t) = false := by
    simp only [looksNumeric, Bool.and_eq_false_iff]
    exact .inr (List.all_eq_false.2 ⟨'T', hT, by decide⟩)
  have hword : ∀ w : String, 'T' ∉ w.toList → String.ofList (writeDate t) ≠ w := by
    rintro w hw rfl
    exact hw (by rwa [String.toList_ofList])
  cases hread : readDate? (writeDate t) <;>
    simp only [wordValue, hword "true" (by decide), hword "false" (by decide), if_false,
      String.toList_ofList, hint, hnumeric, Bool.false_eq_true, hread]

theorem wordValue_writeDate {t : Instant} (h : t.InMillis) :
    wordValue (String.ofList (writeDate t)) = .date t := by
  rw [wordValue_writeDate_eq, readDate?_writeDate h]

theorem spells_writeDate (t : Instant) :
    Spells (writeDate t) (.word (String.ofList (writeDate t))) := by
  obtain ⟨hT, hall⟩ := writeDate_chars t
  exact spells_symbol (isSymbol_of_isWordDigit (List.ne_nil_of_mem hT) hall)

/-! ## Primitives -/

/-- The primitive is determined by its text, if it has one: an integer of 64 bits, a date in
milliseconds, all others always. -/
def HasWord : Primitive → Prop
  | .integer n => fitsInt64 n = true
  | .date t => t.InMillis
  | _ => True

theorem hasWord_of_fits {p : Primitive} (hp : (Content.primitive p).Fits)
    (hd : ∀ t, p = .date t → t.InMillis) : HasWord p := by
  cases p with
  | integer n => exact hp
  | date t => exact hd t rfl
  | _ => trivial

theorem spells_writePrimitive {p : Primitive} {text : List Char} (hp : HasWord p)
    (h : writePrimitive p = .ok text) :
    ∃ l, Spells text l ∧ l.content? = some (.primitive p) := by
  cases p with
  | string s =>
    simp only [writePrimitive, Except.ok.injEq] at h
    split at h
    · rename_i hbare
      subst h
      simp only [isBareWord, Bool.and_eq_true, decide_eq_true_eq] at hbare
      refine ⟨_, spells_symbol hbare.1, ?_⟩
      rw [String.ofList_toList, Lexeme.content?, hbare.2]
    · subst h
      exact ⟨_, spells_quoted s, rfl⟩
  | boolean b =>
    simp only [writePrimitive, Except.ok.injEq] at h
    subst h
    cases b
    · exact ⟨_, spells_symbol (by decide), rfl⟩
    · exact ⟨_, spells_symbol (by decide), rfl⟩
  | integer n =>
    simp only [writePrimitive, Except.ok.injEq] at h
    subst h
    refine ⟨_, spells_symbol (isSymbol_of_isWordDigit (toString_ne_nil n)
      fun c => isWordDigit_of_mem_toString), ?_⟩
    rw [String.ofList_toList, Lexeme.content?, wordValue_of_readInt64? (readInt64?_toString hp)]
  | float x =>
    simp only [writePrimitive] at h
    split at h
    · rename_i hf
      cases h
      obtain ⟨hpoint, -, hall⟩ := writeFloat_chars hf
      refine ⟨_, spells_symbol (isSymbol_of_isWordDigit (List.ne_nil_of_mem hpoint) ?_), ?_⟩
      · intro c hc
        rcases hall c hc with h | rfl | rfl
        · exact isWordDigit_of_isDigit h
        · decide
        · decide
      · rw [Lexeme.content?, wordValue_writeFloat hf]
    · cases h
  | date t =>
    simp only [writePrimitive, Except.ok.injEq] at h
    subst h
    refine ⟨_, spells_writeDate t, ?_⟩
    rw [Lexeme.content?, wordValue_writeDate hp]
  | bytes bs =>
    simp only [writePrimitive] at h
    split at h
    · cases h
    · rename_i hlength
      cases h
      exact ⟨_, spells_bytes (Nat.le_of_not_lt hlength), rfl⟩

end Sl
end AgentContent
