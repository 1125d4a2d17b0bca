import AgentContent.Proofs.Text.Base64
import AgentContent.Proofs.Text.Numeral
import AgentContent.Sl.Word

/-!
# AgentContent.Proofs.Sl.Token

Scanning what is written. A written element is taken back whole when the text behind it is empty or
starts with a character that ends words.

* `readLexeme_word`, `readLexeme_keyword`, `readLexeme_variable`, `readLexeme_quoted`,
  `readLexeme_bytes`: one lemma for each kind of element.
* `Scans`: a piece of text gives some tokens, whatever ended text follows.
* `Scans.append`, `Scans.blank`, `Scans.lexeme`: pieces are put together.
-/

namespace AgentContent
namespace Sl

/-- Empty, or the first character ends words. -/
abbrev Ends (rest : List Char) : Prop :=
  Stops (fun c => !isDelimiter c) rest

theorem Ends.cons {c : Char} {rest : List Char} (h : isDelimiter c = true) : Ends (c :: rest) :=
  Stops.cons (by simp [h])

/-! ## Symbols -/

theorem isSymbol_cons {c : Char} {cs : List Char} (h : isSymbol (c :: cs) = true) :
    c ≠ '?' ∧ c ≠ ':' ∧ c ≠ '#' ∧ ∀ d ∈ c :: cs, isDelimiter d = false := by
  simp only [isSymbol, Bool.and_eq_true, bne_iff_ne, Bool.not_eq_true', List.any_eq_false,
    Bool.not_eq_true] at h
  exact ⟨h.1.1.1, h.1.1.2, h.1.2, h.2⟩

theorem exists_cons_of_isSymbol {cs : List Char} (h : isSymbol cs = true) :
    ∃ c rest, cs = c :: rest := by
  cases cs with
  | nil => cases h
  | cons c rest => exact ⟨c, rest, rfl⟩

theorem isBlank_of_isDelimiter_false {c : Char} (h : isDelimiter c = false) :
    isBlank c = false := by
  simp only [isDelimiter, Bool.or_eq_false_iff] at h
  exact h.1.1.1

theorem wordChars_append {w rest : List Char} (hw : ∀ c ∈ w, isDelimiter c = false)
    (hr : Ends rest) : wordChars (w ++ rest) = w :=
  takeWhile_append_stop (fun c hc => by simp [hw c hc]) hr

theorem afterWord_append {w rest : List Char} (hw : ∀ c ∈ w, isDelimiter c = false)
    (hr : Ends rest) : afterWord (w ++ rest) = rest :=
  dropWhile_append_stop (fun c hc => by simp [hw c hc]) hr

/-! ## Elements -/

theorem readLexeme_word {c : Char} {cs rest : List Char} (h : isSymbol (c :: cs) = true)
    (hr : Ends rest) :
    readLexeme c (cs ++ rest) = .ok (.word (String.ofList (c :: cs)), rest) := by
  obtain ⟨hq, hk, hb, hd⟩ := isSymbol_cons h
  have hc := hd c List.mem_cons_self
  have hcs : ∀ d ∈ cs, isDelimiter d = false := fun d hd' => hd d (List.mem_cons_of_mem _ hd')
  unfold readLexeme
  split
  · exact absurd hc (by decide)
  · exact absurd hc (by decide)
  · exact absurd hc (by decide)
  · exact absurd rfl hb
  · exact absurd rfl hq
  · exact absurd rfl hk
  · rw [wordChars_append hcs hr, afterWord_append hcs hr]

theorem readLexeme_keyword {name rest : List Char} (h : isSymbol name = true) (hr : Ends rest) :
    readLexeme ':' (name ++ rest) = .ok (.keyword (String.ofList name), rest) := by
  obtain ⟨c, cs, rfl⟩ := exists_cons_of_isSymbol h
  obtain ⟨-, -, -, hd⟩ := isSymbol_cons h
  simp only [readLexeme]
  rw [wordChars_append hd hr, afterWord_append hd hr]
  rfl

/-- The marks in front of the name of a variable. -/
def variableMark (isMeta : Bool) : List Char :=
  if isMeta then ['?', '?'] else ['?']

theorem splitMeta_of_ne {c : Char} {cs : List Char} (h : c ≠ '?') :
    splitMeta (c :: cs) = (false, c :: cs) := by
  unfold splitMeta
  split
  · rename_i heq; cases heq; exact absurd rfl h
  · rfl

theorem readLexeme_variable {name rest : List Char} (h : isSymbol name = true) (hr : Ends rest)
    (isMeta : Bool) :
    readLexeme '?' ((variableMark isMeta).tail ++ (name ++ rest)) =
      .ok (.variable (String.ofList name) isMeta, rest) := by
  obtain ⟨c, cs, rfl⟩ := exists_cons_of_isSymbol h
  obtain ⟨hq, -, -, hd⟩ := isSymbol_cons h
  have hsplit : splitMeta ((variableMark isMeta).tail ++ (c :: cs ++ rest)) =
      (isMeta, c :: cs ++ rest) := by
    cases isMeta with
    | true => rfl
    | false => exact splitMeta_of_ne hq
  simp only [readLexeme, hsplit]
  rw [wordChars_append hd hr, afterWord_append hd hr]
  rfl

theorem readQuoted_quoteChar (c : Char) (rest : List Char) :
    readQuoted (quoteChar c ++ rest) = (readQuoted rest).map fun r => (c :: r.1, r.2) := by
  unfold quoteChar
  split
  · rename_i h
    simp only [List.cons_append, List.nil_append]
    rw [readQuoted]
    cases readQuoted rest <;> rfl
  · rename_i h
    simp only [Bool.or_eq_true, decide_eq_true_eq, not_or] at h
    simp only [List.cons_append, List.nil_append]
    rw [readQuoted]
    · cases readQuoted rest <;> rfl
    · exact h.1
    · intro _ _ hc; exact absurd hc h.2
    · intro hc; exact absurd hc h.2

theorem readQuoted_flatMap (s rest : List Char) :
    readQuoted (s.flatMap quoteChar ++ '"' :: rest) = some (s, rest) := by
  induction s with
  | nil => rfl
  | cons c cs ih => rw [List.flatMap_cons, List.append_assoc, readQuoted_quoteChar, ih]; rfl

theorem readLexeme_quoted (s rest : List Char) :
    readLexeme '"' (s.flatMap quoteChar ++ '"' :: rest) =
      .ok (.quoted (String.ofList s), rest) := by
  simp only [readLexeme, readQuoted_flatMap]

theorem readBytes_write {bytes : List UInt8} (rest : List Char)
    (h : (Base64.encode bytes).length ≤ maxCapacity) :
    readBytes (Nat.toDigits 10 (Base64.encode bytes).length ++ '"' :: (Base64.encode bytes ++ rest)) =
      .ok (bytes, rest) := by
  have hd : ∀ c ∈ Nat.toDigits 10 (Base64.encode bytes).length, c.isDigit = true :=
    fun _ => isDigit_of_mem_toDigits
  have hstop : Stops Char.isDigit ('"' :: (Base64.encode bytes ++ rest)) := Stops.cons (by decide)
  have hne : (Nat.toDigits 10 (Base64.encode bytes).length).isEmpty = false := by
    simp [Nat.toDigits_ne_nil]
  have hword : ¬ 0x10000000000000000 ≤ (Base64.encode bytes).length := by
    unfold maxCapacity at h
    omega
  simp only [readBytes]
  rw [takeWhile_append_stop hd hstop, dropWhile_append_stop hd hstop, natOfDigits_toDigits]
  simp [hne, hword, Nat.not_lt.2 h, Base64.decode?_encode]

theorem readLexeme_bytes {bytes : List UInt8} (rest : List Char)
    (h : (Base64.encode bytes).length ≤ maxCapacity) :
    readLexeme '#'
        (Nat.toDigits 10 (Base64.encode bytes).length ++ '"' :: (Base64.encode bytes ++ rest)) =
      .ok (.bytes bytes, rest) := by
  simp only [readLexeme, readBytes_write rest h]

/-! ## Scanning -/

theorem byteSize_append (a b : List Char) : byteSize (a ++ b) = byteSize a + byteSize b := by
  induction a with
  | nil => simp [byteSize]
  | cons c cs ih => simp only [List.cons_append, byteSize, ih, Nat.add_assoc]

/-- The equation of `scanFrom` without the proofs that it ends. -/
theorem scanFrom_eq (n : Nat) (cs : List Char) :
    scanFrom n cs =
      match cs.dropWhile isBlank with
      | [] => .ok []
      | c :: rest =>
        match readLexeme c rest with
        | .error f => .error (f.map (ParseError.mk (n + byteSize (cs.takeWhile isBlank))))
        | .ok (l, after) =>
          match scanFrom (n + byteSize (cs.takeWhile isBlank) +
            (byteSize (c :: rest) - byteSize after)) after with
          | .error e => .error e
          | .ok tokens => .ok (⟨l, n + byteSize (cs.takeWhile isBlank)⟩ :: tokens) := by
  rw [scanFrom]
  split
  · rename_i h; rw [h]
  · rename_i c rest h
    rw [h]
    split
    · rename_i hl
      simp only [hl]
    · rename_i after hl
      cases hs : scanFrom (n + byteSize (cs.takeWhile isBlank) +
          (byteSize (c :: rest) - byteSize after)) after with
      | error e => simp only [hl, hs]
      | ok tokens => simp only [hl, hs]

/-- No blank stands at the start of an element. -/
theorem isBlank_of_dropWhile {c : Char} {cs rest : List Char}
    (hc : cs.dropWhile isBlank = c :: rest) : isBlank c = false := by
  have hne : cs.dropWhile isBlank ≠ [] := by simp [hc]
  simpa [hc] using List.head_dropWhile_not isBlank hne

/-- Less of a text is left behind an element than before it. -/
theorem length_lt_of_readLexeme {c : Char} {cs rest after : List Char} {l : Lexeme}
    (hc : cs.dropWhile isBlank = c :: rest) (hl : readLexeme c rest = .ok (l, after)) :
    after.length < cs.length := by
  have hafter := readLexeme_length hl
  have hblank := length_dropWhile_le isBlank cs
  rw [hc, List.length_cons] at hblank
  omega

theorem scanFrom_blank {c : Char} (hc : isBlank c = true) (n : Nat) (cs : List Char) :
    scanFrom n (c :: cs) = scanFrom (n + c.utf8Size) cs := by
  rw [scanFrom_eq, scanFrom_eq (n + c.utf8Size) cs, List.dropWhile_cons_of_pos hc,
    List.takeWhile_cons_of_pos hc, byteSize, Nat.add_assoc]

theorem scanFrom_element {n : Nat} {c : Char} {rest after : List Char} {l : Lexeme}
    (hc : isBlank c = false) (hl : readLexeme c rest = .ok (l, after)) :
    scanFrom n (c :: rest) =
      (scanFrom (n + (byteSize (c :: rest) - byteSize after)) after).map (⟨l, n⟩ :: ·) := by
  rw [scanFrom_eq, List.dropWhile_cons_of_neg (by simp [hc]),
    List.takeWhile_cons_of_neg (by simp [hc])]
  simp only [hl, byteSize, Nat.add_zero]
  cases scanFrom (n + (c.utf8Size + byteSize rest - byteSize after)) after <;> rfl

theorem scanFrom_lexeme {n : Nat} {c : Char} {text rest : List Char} {l : Lexeme}
    (hb : isBlank c = false) (h : readLexeme c (text ++ rest) = .ok (l, rest)) :
    scanFrom n (c :: text ++ rest) =
      (scanFrom (n + byteSize (c :: text)) rest).map (⟨l, n⟩ :: ·) := by
  have hsize : byteSize (c :: (text ++ rest)) - byteSize rest = byteSize (c :: text) := by
    rw [← List.cons_append, byteSize_append]; omega
  rw [List.cons_append, scanFrom_element hb h, hsize]

theorem scanFrom_open (n : Nat) (cs : List Char) :
    scanFrom n ('(' :: cs) = (scanFrom (n + 1) cs).map (⟨.open, n⟩ :: ·) := by
  have h : readLexeme '(' ([] ++ cs) = .ok (.open, cs) := rfl
  exact scanFrom_lexeme (by decide) h

theorem scanFrom_close (n : Nat) (cs : List Char) :
    scanFrom n (')' :: cs) = (scanFrom (n + 1) cs).map (⟨.close, n⟩ :: ·) := by
  have h : readLexeme ')' ([] ++ cs) = .ok (.close, cs) := rfl
  exact scanFrom_lexeme (by decide) h

/-- The text that starts at byte `n` gives the tokens, whatever ended text follows it. -/
def Scans (n : Nat) (text : List Char) (tokens : List Token) : Prop :=
  ∀ rest, Ends rest →
    scanFrom n (text ++ rest) = (scanFrom (n + byteSize text) rest).map (tokens ++ ·)

namespace Scans

theorem nil (n : Nat) : Scans n [] [] := by
  intro rest _
  show scanFrom n rest = (scanFrom n rest).map (fun ts => ts)
  cases scanFrom n rest <;> rfl

theorem lexeme {n : Nat} {c : Char} {text : List Char} {l : Lexeme} (hb : isBlank c = false)
    (h : ∀ rest, Ends rest → readLexeme c (text ++ rest) = .ok (l, rest)) :
    Scans n (c :: text) [⟨l, n⟩] := by
  intro rest hr
  exact scanFrom_lexeme hb (h rest hr)

theorem append {n : Nat} {a b : List Char} {as bs : List Token} (ha : Scans n a as)
    (hb : Scans (n + byteSize a) b bs) (he : ∀ rest, Ends rest → Ends (b ++ rest)) :
    Scans n (a ++ b) (as ++ bs) := by
  intro rest hr
  rw [List.append_assoc, ha _ (he rest hr), hb rest hr, byteSize_append, Nat.add_assoc]
  cases scanFrom (n + (byteSize a + byteSize b)) rest with
  | error e => rfl
  | ok ts => show Except.ok (as ++ (bs ++ ts)) = Except.ok (as ++ bs ++ ts); rw [List.append_assoc]

theorem blank {n : Nat} {text : List Char} {tokens : List Token}
    (h : Scans (n + 1) text tokens) : Scans n (' ' :: text) tokens := by
  intro rest hr
  have hs : byteSize (' ' :: text) = 1 + byteSize text := rfl
  have hblank : scanFrom n (' ' :: (text ++ rest)) = scanFrom (n + 1) (text ++ rest) :=
    scanFrom_blank (by decide) n (text ++ rest)
  rw [List.cons_append, hblank, h rest hr, hs, Nat.add_assoc]

/-- A piece between parentheses. -/
theorem parens {n : Nat} {text : List Char} {tokens : List Token}
    (h : Scans (n + 1) text tokens) :
    Scans n ('(' :: text ++ [')'])
      (⟨.open, n⟩ :: tokens ++ [⟨.close, n + 1 + byteSize text⟩]) := by
  intro rest hr
  have hs : byteSize ('(' :: text ++ [')']) = 1 + byteSize text + 1 := by
    rw [byteSize_append]; rfl
  have hclose : Ends (')' :: rest) := Ends.cons (by decide)
  rw [List.append_assoc, List.cons_append, scanFrom_open, List.cons_append, List.nil_append,
    h _ hclose, scanFrom_close, hs]
  have he : n + (1 + byteSize text + 1) = n + 1 + byteSize text + 1 := by omega
  rw [he]
  cases scanFrom (n + 1 + byteSize text + 1) rest with
  | error e => rfl
  | ok ts => show Except.ok _ = Except.ok _; simp

end Scans

theorem scan_of_scans {text : List Char} {tokens : List Token} (h : Scans 0 text tokens) :
    Token.scan text = .ok tokens := by
  have := h [] Stops.nil
  rw [List.append_nil] at this
  rw [Token.scan, this, scanFrom_eq]
  show Except.ok (tokens ++ []) = _
  rw [List.append_nil]

/-! ## Texts that are known -/

/-- Scanning with a bound on the number of elements. -/
def scanWithin : Nat → Nat → List Char → Except (Failure ParseError) (List Token)
  | 0, _, _ => .ok []
  | most + 1, n, cs =>
    match cs.dropWhile isBlank with
    | [] => .ok []
    | c :: rest =>
      match readLexeme c rest with
      | .error f => .error (f.map (ParseError.mk (n + byteSize (cs.takeWhile isBlank))))
      | .ok (l, after) =>
        match scanWithin most (n + byteSize (cs.takeWhile isBlank) +
          (byteSize (c :: rest) - byteSize after)) after with
        | .error e => .error e
        | .ok tokens => .ok (⟨l, n + byteSize (cs.takeWhile isBlank)⟩ :: tokens)

theorem scanFrom_eq_scanWithin {most : Nat} {cs : List Char} (h : cs.length < most) (n : Nat) :
    scanFrom n cs = scanWithin most n cs := by
  induction most generalizing n cs with
  | zero => omega
  | succ most ih =>
    rw [scanFrom_eq, scanWithin]
    cases hc : cs.dropWhile isBlank with
    | nil => rfl
    | cons c rest =>
      simp only
      cases hl : readLexeme c rest with
      | error f => rfl
      | ok read =>
        obtain ⟨l, after⟩ := read
        have hlt := length_lt_of_readLexeme hc hl
        simp only
        rw [ih (by omega)]

/-- A text has no more elements than characters, so the bound does not matter. -/
theorem scan_eq_scanWithin (most : Nat) {cs : List Char} (h : cs.length < most) :
    Token.scan cs = scanWithin most 0 cs :=
  scanFrom_eq_scanWithin h 0

end Sl
end AgentContent
