import AgentContent.Language.Basic
import AgentContent.Proofs.Json.Token

/-!
# AgentContent.Proofs.Json.Write

The text of a document is read as the document, on one line and on indented ones. This holds for
every document of a permitted depth whose numbers are read back from their own texts.

* `Json.Exact`: the text of the document gives it back when the document is a number.
* `Scans`: a piece of text gives some words, whatever ended text follows.
* `scans_write`, `scans_writePretty`: the two texts have the words of the document.
* `ofBytes?_compact`, `ofBytes?_pretty`: the documents in bytes.
-/

namespace AgentContent
namespace Json
namespace Token

/-! ## One word -/

theorem next_text (s : String) (rest : List Char) :
    next (writeString s ++ rest) = some (.text s, rest) := by
  have htext : writeString s ++ rest = '"' :: (s.toList.flatMap stringChar ++ '"' :: rest) := by
    simp [writeString]
  have hbody := stringBody_flatMap s.toList [] rest
  rw [htext]
  simp only [next, hbody, Option.map_some, List.reverse_nil, List.nil_append, String.ofList_toList]

theorem next_mark {c : Char} {t : Token} (h : mark? c = some t) (rest : List Char) :
    isSpace c = false ∧ next (c :: rest) = some (t, rest) := by
  unfold mark? at h
  split at h
  all_goals first
    | (cases h; exact ⟨by decide, rfl⟩)
    | cases h

theorem next_number {c : Char} {cs rest : List Char} {v : Json} (hc : c = '-' ∨ c.isDigit = true)
    (h : scanNumber (c :: cs) = some (v, rest)) : next (c :: cs) = some (.literal v, rest) := by
  have hne : ∀ d : Char, d ≠ '-' → d.isDigit = false → c ≠ d := by
    rintro d hm hd rfl
    rcases hc with hc | hc
    · exact hm hc
    · rw [hd] at hc; cases hc
  have hmark : mark? c = none := by
    unfold mark?
    split
    all_goals first
      | exact absurd rfl (hne _ (by decide) (by decide))
      | rfl
  unfold next
  split
  · rename_i heq; cases heq
  · rename_i heq; cases heq; exact absurd rfl (hne _ (by decide) (by decide))
  · rename_i heq; cases heq; exact absurd rfl (hne _ (by decide) (by decide))
  · rename_i heq; cases heq; exact absurd rfl (hne _ (by decide) (by decide))
  · rename_i heq; cases heq; exact absurd rfl (hne _ (by decide) (by decide))
  · rename_i heq
    cases heq
    simp only [hmark, h, Option.map_some]

/-! ## Pieces of text -/

theorem scanFrom_space {c : Char} (h : isSpace c = true) (fuel : Nat) (done : List Token)
    (cs : List Char) : scanFrom fuel done (c :: cs) = scanFrom fuel done cs := by
  cases fuel with
  | zero => rfl
  | succ fuel => rw [scanFrom, scanFrom, List.dropWhile_cons_of_pos h]

theorem scanFrom_next {c : Char} {cs rest : List Char} {t : Token} (hs : isSpace c = false)
    (h : next (c :: cs) = some (t, rest)) (fuel : Nat) (done : List Token) :
    scanFrom (fuel + 1) done (c :: cs) = scanFrom fuel (t :: done) rest := by
  rw [scanFrom, List.dropWhile_cons_of_neg (by simp [hs])]
  simp only [h]

/-- The text gives the words, each from a character of its own, whatever ended text follows. -/
def Scans (text : List Char) (tokens : List Token) : Prop :=
  tokens.length ≤ text.length ∧ ∀ fuel done rest, Ends rest →
    scanFrom (tokens.length + fuel) done (text ++ rest) =
      scanFrom fuel (tokens.reverse ++ done) rest

namespace Scans

theorem nil : Scans [] [] := by
  refine ⟨Nat.le_refl _, ?_⟩
  intro fuel done rest _
  simp

theorem append {a b : List Char} {as bs : List Token} (ha : Scans a as) (hb : Scans b bs)
    (he : ∀ rest, Ends rest → Ends (b ++ rest)) : Scans (a ++ b) (as ++ bs) := by
  refine ⟨?_, ?_⟩
  · have := ha.1
    have := hb.1
    simp only [List.length_append]
    omega
  · intro fuel done rest hr
    rw [List.append_assoc, List.length_append, Nat.add_assoc, ha.2 _ _ _ (he rest hr),
      hb.2 _ _ _ hr, List.reverse_append, List.append_assoc]

theorem space {c : Char} (hc : isSpace c = true) {text : List Char} {tokens : List Token}
    (h : Scans text tokens) : Scans (c :: text) tokens := by
  refine ⟨Nat.le_succ_of_le h.1, ?_⟩
  intro fuel done rest hr
  rw [List.cons_append, scanFrom_space hc, h.2 _ _ _ hr]

theorem spaces {text : List Char} {tokens : List Token} (h : Scans text tokens) (level : Nat) :
    Scans (newline level ++ text) tokens := by
  have hspaces : ∀ k, Scans (List.replicate k ' ' ++ text) tokens := by
    intro k
    induction k with
    | zero => exact h
    | succ k ih => exact space (by decide) ih
  exact space (by decide) (hspaces _)

theorem mark {c : Char} {t : Token} (ht : mark? c = some t) {text : List Char}
    {tokens : List Token} (h : Scans text tokens) : Scans (c :: text) (t :: tokens) := by
  refine ⟨Nat.succ_le_succ h.1, ?_⟩
  intro fuel done rest hr
  obtain ⟨hs, hn⟩ := next_mark ht (text ++ rest)
  have hfuel : (t :: tokens).length + fuel = tokens.length + fuel + 1 := by
    rw [List.length_cons]; omega
  rw [List.cons_append, hfuel, scanFrom_next hs hn, h.2 _ _ _ hr, List.reverse_cons,
    List.append_assoc, List.singleton_append]

theorem word {c : Char} {cs : List Char} {t : Token} (hs : isSpace c = false)
    (h : ∀ rest, Ends rest → next (c :: (cs ++ rest)) = some (t, rest)) : Scans (c :: cs) [t] := by
  refine ⟨by simp, ?_⟩
  intro fuel done rest hr
  rw [List.cons_append, List.length_singleton, Nat.add_comm, scanFrom_next hs (h rest hr)]
  rfl

theorem string (s : String) : Scans (writeString s) [.text s] :=
  word (by decide) fun rest _ => next_text s rest

theorem number {cs : List Char} {v : Json} (h : scanNumber cs = some (v, [])) :
    Scans cs [.literal v] := by
  cases cs with
  | nil => cases h
  | cons c cs =>
    have hc := scanNumber_head h
    have hs : isSpace c = false := by
      rcases hc with rfl | hd
      · decide
      · cases hb : isSpace c with
        | false => rfl
        | true =>
          simp only [isSpace, Bool.or_eq_true, decide_eq_true_eq] at hb
          rcases hb with ((rfl | rfl) | rfl) | rfl <;> cases hd
    exact word hs fun rest hr => next_number hc (scanNumber_append h hr)

end Scans

theorem scan_of_scans {text : List Char} {tokens : List Token} (h : Scans text tokens) :
    scan text = some tokens := by
  obtain ⟨k, hk⟩ : ∃ k, text.length + 1 = tokens.length + (k + 1) :=
    ⟨text.length - tokens.length, by have := h.1; omega⟩
  have := h.2 (k + 1) [] [] Stops.nil
  rw [List.append_nil, List.append_nil] at this
  rw [scan, hk, this, scanFrom]
  simp

end Token

open Token

/-! ## Documents -/

/-- A number is read back from its own text. -/
def Exact : Json → Prop
  | .integer n => IsInt64 n
  | .float x => scanNumber (writeFloat x) = some (.float x, [])
  | _ => True

theorem ends_mark {c : Char} {t : Token} (h : mark? c = some t) (cs : List Char) :
    Ends (c :: cs) := by
  refine Stops.cons ?_
  unfold mark? at h
  split at h
  all_goals first
    | decide
    | cases h

theorem scans_writeItems {v : Json} {items : List Json}
    (h : ∀ w ∈ v :: items, Scans w.write w.words) :
    Scans (writeItems (v :: items)) (wordsItems (v :: items)) := by
  induction items generalizing v with
  | nil => exact h v List.mem_cons_self
  | cons w items ih =>
    obtain ⟨hv, hitems⟩ := List.forall_mem_cons.1 h
    exact hv.append (.mark rfl (ih hitems)) fun rest _ => ends_mark rfl _

theorem scans_member (k : String) {text : List Char} {tokens : List Token}
    (h : Scans text tokens) : Scans (writeString k ++ ':' :: text) (.text k :: .colon :: tokens) :=
  (Scans.string k).append (.mark rfl h) fun _ _ => ends_mark rfl _

theorem scans_writeMembers {m : String × Json} {members : List (String × Json)}
    (h : ∀ w ∈ m :: members, Scans w.2.write w.2.words) :
    Scans (writeMembers (m :: members)) (wordsMembers (m :: members)) := by
  induction members generalizing m with
  | nil => exact scans_member m.1 (h m List.mem_cons_self)
  | cons n members ih =>
    obtain ⟨hm, hmembers⟩ := List.forall_mem_cons.1 h
    exact (scans_member m.1 hm).append (.mark rfl (ih hmembers)) fun _ _ => ends_mark rfl _

/-- Text between marks. -/
theorem scans_between {c d : Char} {s t : Token} (hc : mark? c = some s) (hd : mark? d = some t)
    {text : List Char} {tokens : List Token} (h : Scans text tokens) :
    Scans (c :: text ++ [d]) (s :: tokens ++ [t]) := by
  rw [List.cons_append, List.cons_append]
  exact .mark hc (h.append (.mark hd .nil) fun _ _ => ends_mark hd _)

theorem scans_literal {v : Json} {c : Char} {cs : List Char} (hs : isSpace c = false)
    (h : ∀ rest, next (c :: (cs ++ rest)) = some (.literal v, rest)) :
    Scans (c :: cs) [.literal v] :=
  .word hs fun rest _ => h rest

theorem scans_bool (b : Bool) :
    Scans (if b then "true".toList else "false".toList) [.literal (.bool b)] := by
  cases b with
  | true => exact scans_literal (by decide) fun _ => rfl
  | false => exact scans_literal (by decide) fun _ => rfl

theorem scans_null : Scans "null".toList [.literal .null] :=
  scans_literal (by decide) fun _ => rfl

theorem scans_writeInt {n : Int} (h : IsInt64 n) : Scans (writeInt n) [.literal (.integer n)] := by
  have hread := scanNumber_writeInt h Stops.nil
  rw [List.append_nil] at hread
  exact .number hread

theorem scans_write {v : Json} (h : v.Each Exact) : Scans v.write v.words := by
  induction v using Json.induction with
  | null => exact scans_null
  | bool b => exact scans_bool b
  | integer n => exact scans_writeInt h.self
  | float x => exact .number h.self
  | string s => exact .string s
  | array items ih =>
    obtain ⟨-, hitems⟩ := Each.array_iff.1 h
    refine scans_between rfl rfl ?_
    cases items with
    | nil => exact .nil
    | cons v items => exact scans_writeItems fun w hw => ih w hw (hitems w hw)
  | object members ih =>
    obtain ⟨-, hmembers⟩ := Each.object_iff.1 h
    refine scans_between rfl rfl ?_
    cases members with
    | nil => exact .nil
    | cons m members => exact scans_writeMembers fun w hw => ih w hw (hmembers w hw)

/-! ## Documents on indented lines -/

theorem scans_writePrettyItems {level : Nat} {v : Json} {items : List Json}
    (h : ∀ w ∈ v :: items, Scans (w.writePretty level) w.words) :
    Scans (v.writePretty level ++ writePrettyItems level items) (wordsItems (v :: items)) := by
  induction items generalizing v with
  | nil =>
    rw [writePrettyItems, List.append_nil]
    exact h v List.mem_cons_self
  | cons w items ih =>
    obtain ⟨hv, hitems⟩ := List.forall_mem_cons.1 h
    have hrest := Scans.spaces (ih hitems) level
    rw [writePrettyItems, List.append_assoc, List.cons_append]
    exact hv.append (.mark rfl hrest) fun _ _ => ends_mark rfl _

theorem scans_writePrettyMembers {level : Nat} {k : String} {v : Json}
    {members : List (String × Json)}
    (h : ∀ w ∈ (k, v) :: members, Scans (w.2.writePretty level) w.2.words) :
    Scans (writeString k ++ ':' :: ' ' :: v.writePretty level ++ writePrettyMembers level members)
      (wordsMembers ((k, v) :: members)) := by
  induction members generalizing k v with
  | nil =>
    have hv : Scans (v.writePretty level) v.words := h (k, v) List.mem_cons_self
    rw [writePrettyMembers, List.append_nil]
    exact scans_member k (.space (by decide) hv)
  | cons m members ih =>
    obtain ⟨k', w⟩ := m
    obtain ⟨hv, hmembers⟩ := List.forall_mem_cons.1 h
    have hblank : isSpace ' ' = true := by decide
    have hmember := scans_member k (.space hblank (hv : Scans (v.writePretty level) v.words))
    have hrest := Scans.spaces (ih hmembers) level
    have htext : writePrettyMembers level ((k', w) :: members) =
        ',' :: (newline level ++ (writeString k' ++ ':' :: ' ' :: w.writePretty level ++
          writePrettyMembers level members)) := by
      simp [writePrettyMembers]
    rw [htext]
    exact hmember.append (.mark rfl hrest) fun _ _ => ends_mark rfl _

/-- Indented text between marks. -/
theorem scans_betweenLines {c d : Char} {s t : Token} (hc : mark? c = some s)
    (hd : mark? d = some t) (level : Nat) {text : List Char} {tokens : List Token}
    (h : Scans text tokens) :
    Scans (c :: newline (level + 1) ++ text ++ newline level ++ [d]) (s :: tokens ++ [t]) := by
  have hclose : Scans (newline level ++ [d]) [t] := .spaces (.mark hd .nil) level
  have hlines : ∀ rest, Ends rest → Ends (newline level ++ [d] ++ rest) :=
    fun rest _ => Stops.cons (by decide)
  have := Scans.mark hc (.spaces (h.append hclose hlines) (level + 1))
  simpa [List.append_assoc] using this

theorem scans_writePretty {v : Json} (h : v.Each Exact) (level : Nat) :
    Scans (v.writePretty level) v.words := by
  induction v using Json.induction generalizing level with
  | null => exact scans_null
  | bool b => exact scans_bool b
  | integer n => exact scans_writeInt h.self
  | float x => exact .number h.self
  | string s => exact .string s
  | array items ih =>
    obtain ⟨-, hitems⟩ := Each.array_iff.1 h
    cases items with
    | nil => exact .mark rfl (.mark rfl .nil)
    | cons v items =>
      have := scans_writePrettyItems fun w hw => ih w hw (hitems w hw) (level + 1)
      have := scans_betweenLines (c := '[') (d := ']') rfl rfl level this
      simpa [writePretty, words] using this
  | object members ih =>
    obtain ⟨-, hmembers⟩ := Each.object_iff.1 h
    cases members with
    | nil => exact .mark rfl (.mark rfl .nil)
    | cons m members =>
      obtain ⟨k, v⟩ := m
      have := scans_writePrettyMembers fun w hw => ih w hw (hmembers w hw) (level + 1)
      have := scans_betweenLines (c := '\x7b') (d := '\x7d') rfl rfl level this
      simpa [writePretty, words] using this

/-! ## Texts and bytes -/

theorem ofText?_of_scans {v : Json} {text : String} (h : Scans text.toList v.words)
    (hd : v.depth ≤ maxDepth) : ofText? text = some v := by
  rw [ofText?, scan_of_scans h, Option.bind_some, ofTokens?_words hd]

theorem ofBytes?_bytesOf (text : String) : ofBytes? (Language.bytesOf text) = ofText? text := by
  have hbytes : (⟨(Language.bytesOf text).toArray⟩ : ByteArray) = text.toByteArray := rfl
  have hvalid : text.toByteArray.IsValidUTF8 := text.isValidUTF8
  rw [ofBytes?, hbytes, String.fromUTF8?, dif_pos hvalid, Option.bind_some]
  rfl

/-- The text on one line. -/
theorem ofBytes?_compact {v : Json} (h : v.Each Exact) (hd : v.depth ≤ maxDepth) :
    ofBytes? (Language.bytesOf v.compact) = some v := by
  rw [ofBytes?_bytesOf, ofText?_of_scans ?_ hd]
  rw [compact, String.toList_ofList]
  exact scans_write h

/-- The text on indented lines. -/
theorem ofBytes?_pretty {v : Json} (h : v.Each Exact) (hd : v.depth ≤ maxDepth) :
    ofBytes? (Language.bytesOf v.pretty) = some v := by
  rw [ofBytes?_bytesOf, ofText?_of_scans ?_ hd]
  rw [pretty, String.toList_ofList]
  exact scans_writePretty h 0

end Json
end AgentContent
