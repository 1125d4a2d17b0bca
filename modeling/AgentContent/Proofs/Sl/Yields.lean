import AgentContent.Proofs.Sl.Form
import AgentContent.Proofs.Sl.Word
import AgentContent.Sl.Encode

/-!
# AgentContent.Proofs.Sl.Yields

From texts to forms, without bytes and places. A text yields forms with a property if they are
whole and scanning the text gives their lexical elements, wherever the text starts.

* `Yields.append`, `Yields.blank`, `Yields.parens`: how texts are put together.
* `spacedText`, `exists_of_spaced`: texts behind blanks.
* `Yields.decodeChars`: what is read from the text of one group.
-/

namespace AgentContent
namespace Sl

/-- Wherever it starts, the text is made of whole forms with the property. -/
def Yields (text : List Char) (P : List Form → Prop) : Prop :=
  ∀ n, ∃ fs, (∀ f ∈ fs, f.Whole) ∧ Scans n text (Form.tokensAll fs) ∧ P fs

namespace Yields

variable {a b text : List Char} {P Q R : List Form → Prop}

theorem mono (h : Yields text P) (hpq : ∀ fs, P fs → Q fs) : Yields text Q := by
  intro n
  obtain ⟨fs, hw, hs, hp⟩ := h n
  exact ⟨fs, hw, hs, hpq fs hp⟩

theorem nil (h : P []) : Yields [] P :=
  fun n => ⟨[], by simp, Scans.nil n, h⟩

theorem append (ha : Yields a P) (hb : Yields b Q) (he : ∀ rest, Ends rest → Ends (b ++ rest))
    (h : ∀ fs gs, P fs → Q gs → R (fs ++ gs)) : Yields (a ++ b) R := by
  intro n
  obtain ⟨fs, hfw, hfs, hp⟩ := ha n
  obtain ⟨gs, hgw, hgs, hq⟩ := hb (n + byteSize a)
  refine ⟨fs ++ gs, ?_, ?_, h fs gs hp hq⟩
  · intro f hf
    rcases List.mem_append.1 hf with hf | hf
    · exact hfw f hf
    · exact hgw f hf
  · rw [Form.tokensAll_append]
    exact hfs.append hgs he

theorem blank (h : Yields text P) : Yields (' ' :: text) P := by
  intro n
  obtain ⟨fs, hw, hs, hp⟩ := h (n + 1)
  exact ⟨fs, hw, hs.blank, hp⟩

/-- A group around a text. -/
theorem parens (h : Yields text P) : Yields ('(' :: text ++ [')']) fun fs =>
    ∃ n items m, fs = [.group n items (some m)] ∧ P items := by
  intro n
  obtain ⟨items, hw, hs, hp⟩ := h (n + 1)
  refine ⟨[.group n items (some (n + 1 + byteSize text))], ?_, ?_, n, items, _, rfl, hp⟩
  · intro f hf
    rw [List.mem_singleton.1 hf]
    exact .group hw
  · have := hs.parens
    simpa [Form.tokensAll, Form.tokens, Form.closeToken] using this

theorem ofSpells {l : Lexeme} (h : Spells text l) (hl : l ≠ .open ∧ l ≠ .close) :
    Yields text fun fs => ∃ n, fs = [.atom l n] := by
  intro n
  refine ⟨[.atom l n], ?_, ?_, n, rfl⟩
  · intro f hf
    rw [List.mem_singleton.1 hf]
    exact .atom hl
  · exact h.scans n

end Yields

/-! ## Texts behind blanks -/

/-- Texts one after the other, each behind a blank. -/
def spacedText (texts : List (List Char)) : List Char :=
  texts.flatMap (' ' :: ·)

theorem ends_spacedText (texts : List (List Char)) {rest : List Char} (hr : Ends rest) :
    Ends (spacedText texts ++ rest) := by
  cases texts with
  | nil => exact hr
  | cons t ts => exact Ends.cons (by decide)

/-- The next text starts with a blank, so the one before it ends. -/
theorem Yields.spaced_cons {t : List Char} {ts : List (List Char)} {P Q R : List Form → Prop}
    (ht : Yields t P) (hts : Yields (spacedText ts) Q)
    (h : ∀ fs gs, P fs → Q gs → R (fs ++ gs)) : Yields (spacedText (t :: ts)) R :=
  ht.blank.append hts (fun _ => ends_spacedText ts) h

theorem exists_of_spaced {results : List (Except EncodeError (List Char))} {text : List Char}
    (h : spaced results = .ok text) :
    ∃ texts, results = texts.map Except.ok ∧ text = spacedText texts := by
  fun_induction spaced results generalizing text with
  | case1 =>
    cases h
    exact ⟨[], rfl, rfl⟩
  | case2 e rest => cases h
  | case3 t rest e hrest ih => cases h
  | case4 t rest more hrest ih =>
    cases h
    obtain ⟨texts, rfl, rfl⟩ := ih hrest
    exact ⟨t :: texts, rfl, rfl⟩

theorem symbol_eq_ok {what : Symbol} {name : String} {text : List Char} :
    symbol what name = .ok text ↔ isSymbol name.toList = true ∧ text = name.toList := by
  simp only [symbol]
  split
  · rename_i h
    simp [h, eq_comm]
  · rename_i h
    simp [h]

theorem exists_of_parenthesised {type : String} {results : List (Except EncodeError (List Char))}
    {text : List Char} (h : parenthesised type results = .ok text) :
    isSymbol type.toList = true ∧
      ∃ texts, results = texts.map Except.ok ∧
        text = '(' :: (type.toList ++ spacedText texts) ++ [')'] := by
  simp only [parenthesised] at h
  split at h
  · cases h
  · rename_i head hhead
    split at h
    · cases h
    · rename_i more hmore
      cases h
      obtain ⟨hsymbol, rfl⟩ := symbol_eq_ok.1 hhead
      obtain ⟨texts, hresults, rfl⟩ := exists_of_spaced hmore
      exact ⟨hsymbol, texts, hresults, rfl⟩

/-- A group with a type at its head. -/
theorem Yields.headed {type : String} (hs : isSymbol type.toList = true)
    {texts : List (List Char)} {P : List Form → Prop} (h : Yields (spacedText texts) P) :
    Yields ('(' :: (type.toList ++ spacedText texts) ++ [')']) fun fs =>
      ∃ n m args k, fs = [.group n (.atom (.word type) m :: args) (some k)] ∧ P args := by
  have hhead : Yields type.toList fun fs => ∃ m, fs = [.atom (.word type) m] := by
    have := Yields.ofSpells (spells_symbol hs) (by simp)
    rwa [String.ofList_toList] at this
  have hbody : Yields (type.toList ++ spacedText texts) fun fs =>
      ∃ m args, fs = .atom (.word type) m :: args ∧ P args := by
    refine hhead.append h (fun _ => ends_spacedText texts) ?_
    rintro fs gs ⟨m, rfl⟩ hp
    exact ⟨m, gs, rfl, hp⟩
  refine hbody.parens.mono ?_
  rintro fs ⟨n, items, k, rfl, m, args, rfl, hp⟩
  exact ⟨n, m, args, k, rfl, hp⟩

/-! ## Texts -/

/-- What the elements of a text say is what the text says, and their fault is reported. -/
theorem decodeChars_of_scan {o : Ontology} {cs : List Char} {tokens : List Token}
    (h : Token.scan cs = .ok tokens) : decodeChars o cs =
      (contentOf o (byteSize cs) (Form.ofTokens tokens)).mapError .reported := by
  simp only [decodeChars, h]
  cases contentOf o (byteSize cs) (Form.ofTokens tokens) with
  | error e => rfl
  | ok c => rfl

theorem reported_of_decodeChars {o : Ontology} {cs : List Char} {tokens : List Token}
    {e : Failure ParseError} (h : Token.scan cs = .ok tokens) (he : decodeChars o cs = .error e) :
    ∃ err, e = .reported err := by
  rw [decodeChars_of_scan h] at he
  cases hread : contentOf o (byteSize cs) (Form.ofTokens tokens) with
  | error err =>
    rw [hread] at he
    cases he
    exact ⟨err, rfl⟩
  | ok c =>
    rw [hread] at he
    cases he

theorem decodeChars_eq_ok_iff {o : Ontology} {cs : List Char} {c : Content} :
    decodeChars o cs = .ok c ↔ ∃ tokens, Token.scan cs = .ok tokens ∧
      contentOf o (byteSize cs) (Form.ofTokens tokens) = .ok c := by
  unfold decodeChars
  cases Token.scan cs with
  | error e => simp
  | ok tokens =>
    simp only [Except.ok.injEq, exists_eq_left']
    cases contentOf o (byteSize cs) (Form.ofTokens tokens) <;> simp

/-- The text of one group is read as what its items say. -/
theorem Yields.decodeChars {o : Ontology} {text : List Char} {P : List Form → Prop}
    (h : Yields text P) (hP : ∀ fs, P fs → ∃ f, fs = [f]) :
    ∃ f, P [f] ∧ ∀ c, contentOf o (byteSize text) [f] = .ok c →
      Sl.decodeChars o text = .ok c := by
  obtain ⟨fs, hw, hs, hp⟩ := h 0
  obtain ⟨f, rfl⟩ := hP fs hp
  have htokens : Form.tokensAll [f] = f.tokens := by simp [Form.tokensAll]
  rw [htokens] at hs
  refine ⟨f, hp, fun c hc => decodeChars_eq_ok_iff.2 ⟨_, scan_of_scans hs, ?_⟩⟩
  rw [Form.ofTokens_tokens (hw f (List.mem_singleton.2 rfl)), hc]

end Sl
end AgentContent
