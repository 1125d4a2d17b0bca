import AgentContent.Language.Error
import AgentContent.Number.Numeral
import AgentContent.Text.Base64
import AgentContent.Text.Basic

/-!
# AgentContent.Sl.Token

The lexical elements of the language: parentheses, words, quoted strings, variables, slot keywords
and byte sequences, each with the byte at which it starts.

* `Token.scan`: the elements of a text.
* `Lexeme.size`: every element takes at least a character, which is why scanning ends.
-/

namespace AgentContent
namespace Sl

inductive Lexeme where
  | open
  | close
  | word (text : String)
  | quoted (text : String)
  | variable (name : String) (isMeta : Bool)
  | keyword (name : String)
  | bytes (value : List UInt8)
  deriving DecidableEq

structure Token where
  lexeme : Lexeme
  offset : Nat
  deriving DecidableEq

/-- Characters that end a word. -/
def isDelimiter (c : Char) : Bool :=
  isBlank c || c = '(' || c = ')' || c = '"'

/-- The bytes of a text. -/
def byteSize : List Char → Nat
  | [] => 0
  | c :: rest => c.utf8Size + byteSize rest

def wordChars (cs : List Char) : List Char :=
  cs.takeWhile fun c => !isDelimiter c

def afterWord (cs : List Char) : List Char :=
  cs.dropWhile fun c => !isDelimiter c

/-- The characters of a string up to its closing quote, and the text after it. A backslash takes
the next character as it is. -/
def readQuoted : List Char → Option (List Char × List Char)
  | [] => none
  | '"' :: rest => some ([], rest)
  | '\\' :: c :: rest =>
    match readQuoted rest with
    | none => none
    | some (text, rest) => some (c :: text, rest)
  | '\\' :: [] => none
  | c :: rest =>
    match readQuoted rest with
    | none => none
    | some (text, rest) => some (c :: text, rest)

/-- The bytes behind a mark: their length in characters, a quote, and as many characters. Room for
all of them is asked for once the quote is there, before any of them is looked at. -/
def readBytes (cs : List Char) : Except (Failure Fault) (List UInt8 × List Char) :=
  let digits := cs.takeWhile Char.isDigit
  let length := natOfDigits digits
  if digits.isEmpty then .error (.reported .emptyLength)
  else if 0x10000000000000000 ≤ length then .error (.reported .lengthTooLarge)
  else
    match cs.dropWhile Char.isDigit with
    | '"' :: rest =>
      if maxCapacity < length then .error .capacityOverflow
      else
        let payload := rest.take length
        if payload.length < length then .error (.reported .truncatedBytes)
        else
          match Base64.decode? payload with
          | none => .error (.reported .badPayload)
          | some bytes => .ok (bytes, rest.drop length)
    | _ => .error (.reported .noQuoteAfterLength)

/-- Whether a second mark makes a variable a meta-variable, and the text after the marks. -/
def splitMeta : List Char → Bool × List Char
  | '?' :: rest => (true, rest)
  | rest => (false, rest)

/-- The element at the start of a text that starts with no blank, and the text after it. -/
def readLexeme (c : Char) (rest : List Char) : Except (Failure Fault) (Lexeme × List Char) :=
  match c with
  | '(' => .ok (.open, rest)
  | ')' => .ok (.close, rest)
  | '"' =>
    match readQuoted rest with
    | none => .error (.reported .unterminatedString)
    | some (text, rest) => .ok (.quoted (String.ofList text), rest)
  | '#' =>
    match readBytes rest with
    | .error f => .error f
    | .ok (bytes, rest) => .ok (.bytes bytes, rest)
  | '?' =>
    let body := (splitMeta rest).2
    if (wordChars body).isEmpty then .error (.reported .variableWithoutName)
    else .ok (.variable (String.ofList (wordChars body)) (splitMeta rest).1, afterWord body)
  | ':' =>
    if (wordChars rest).isEmpty then .error (.reported .keywordWithoutName)
    else .ok (.keyword (String.ofList (wordChars rest)), afterWord rest)
  | c => .ok (.word (String.ofList (c :: wordChars rest)), afterWord rest)

theorem length_dropWhile_le {α : Type} (p : α → Bool) (xs : List α) :
    (xs.dropWhile p).length ≤ xs.length :=
  (List.dropWhile_suffix p).length_le

theorem readQuoted_length {cs text rest : List Char} (h : readQuoted cs = some (text, rest)) :
    rest.length < cs.length := by
  fun_induction readQuoted cs generalizing text with
  | case1 => simp at h
  | case2 r => simp only [Option.some.injEq, Prod.mk.injEq] at h; rw [← h.2]; simp
  | case3 => simp at h
  | case4 c r t r' hr ih =>
    simp only [Option.some.injEq, Prod.mk.injEq] at h
    have := ih (h.2 ▸ hr); simp; omega
  | case5 => simp at h
  | case6 => simp at h
  | case7 c r t r' _ _ _ hr ih =>
    simp only [Option.some.injEq, Prod.mk.injEq] at h
    have := ih (h.2 ▸ hr); simp; omega

/-- What stands behind the mark when bytes are read. -/
theorem readBytes_eq_ok {cs rest : List Char} {bs : List UInt8}
    (h : readBytes cs = .ok (bs, rest)) : ∃ behind length,
      cs.dropWhile Char.isDigit = '"' :: behind ∧ length ≤ maxCapacity ∧
        Base64.decode? (behind.take length) = some bs ∧ rest = behind.drop length := by
  simp only [readBytes] at h
  split at h
  · cases h
  · split at h
    · cases h
    · split at h
      · rename_i behind hbehind
        split at h
        · cases h
        · rename_i hroom
          split at h
          · cases h
          · split at h
            · cases h
            · rename_i hdecode
              cases h
              exact ⟨behind, _, hbehind, Nat.le_of_not_lt hroom, hdecode, rfl⟩
      · cases h

theorem readBytes_length {cs rest : List Char} {bs : List UInt8}
    (h : readBytes cs = .ok (bs, rest)) : rest.length ≤ cs.length := by
  obtain ⟨behind, length, hbehind, -, -, rfl⟩ := readBytes_eq_ok h
  have := length_dropWhile_le Char.isDigit cs
  rw [hbehind] at this
  simp at this ⊢; omega

theorem splitMeta_length (cs : List Char) : (splitMeta cs).2.length ≤ cs.length := by
  unfold splitMeta; split <;> simp

theorem readLexeme_length {c : Char} {cs rest : List Char} {l : Lexeme}
    (h : readLexeme c cs = .ok (l, rest)) : rest.length ≤ cs.length := by
  unfold readLexeme at h
  split at h
  · cases h; exact Nat.le_refl _
  · cases h; exact Nat.le_refl _
  · split at h
    · cases h
    · rename_i hr; cases h; exact Nat.le_of_lt (readQuoted_length hr)
  · split at h
    · cases h
    · rename_i hr; cases h; exact readBytes_length hr
  · simp only at h
    split at h
    · cases h
    · cases h; exact Nat.le_trans (length_dropWhile_le _ _) (splitMeta_length cs)
  · split at h
    · cases h
    · cases h; exact length_dropWhile_le _ cs
  · cases h; exact length_dropWhile_le _ cs

/-- The elements of the rest of a text that starts at a byte. -/
def scanFrom (offset : Nat) (cs : List Char) : Except (Failure ParseError) (List Token) :=
  match _hc : cs.dropWhile isBlank with
  | [] => .ok []
  | c :: rest =>
    let start := offset + byteSize (cs.takeWhile isBlank)
    match _hl : readLexeme c rest with
    | .error f => .error (f.map (ParseError.mk start))
    | .ok (l, after) =>
      let taken := byteSize (c :: rest) - byteSize after
      match scanFrom (start + taken) after with
      | .error e => .error e
      | .ok tokens => .ok (⟨l, start⟩ :: tokens)
termination_by cs.length
decreasing_by
  have h₁ := readLexeme_length _hl
  have h₂ := length_dropWhile_le isBlank cs
  rw [_hc] at h₂
  simp at h₂; omega

/-- The elements of a text. -/
def Token.scan (cs : List Char) : Except (Failure ParseError) (List Token) :=
  scanFrom 0 cs

end Sl
end AgentContent
