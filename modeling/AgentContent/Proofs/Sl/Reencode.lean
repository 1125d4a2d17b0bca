import AgentContent.Proofs.Sl.Built
import AgentContent.Proofs.Sl.Grammar

/-!
# AgentContent.Proofs.Sl.Reencode

Which of what was read can be written again.

* `Lexeme.Legible`: what the words and the names in a text are like.
* `AsRead`: what every node is like that was read from a text; `asRead_of_derives` follows the
  productions.
* `Recodable`: what a node that was read has to be for a text to hold it.
* `exists_text_iff`: content with nodes as they are read has a text just when all are recodable.
* `exists_encode_iff_of_decode`: what was read can be written again just when all nodes are
  recodable. An infinite float, a variable and a slot with a mark in front of the name are read and
  cannot be.
-/

namespace AgentContent
namespace Sl

/-! ## Names -/

/-- Not empty, and nothing in it ends words. -/
def Unbroken (name : String) : Prop :=
  name.toList ≠ [] ∧ ∀ c ∈ name.toList, isDelimiter c = false

/-- The name starts with the mark of a variable, a keyword or a byte sequence. -/
def marked (name : String) : Bool :=
  match name.toList with
  | [] => false
  | c :: _ => c = '?' || c = ':' || c = '#'

theorem isSymbol_iff {name : String} :
    isSymbol name.toList = true ↔ Unbroken name ∧ marked name = false := by
  rw [Unbroken, marked]
  cases name.toList with
  | nil => simp [isSymbol]
  | cons c cs => simp [isSymbol, and_comm, and_assoc]

theorem isDelimiter_of_mem_wordChars {cs : List Char} {c : Char} (h : c ∈ wordChars cs) :
    isDelimiter c = false := by
  simpa using List.all_eq_true.1 List.all_takeWhile c h

theorem unbroken_wordChars {cs : List Char} (h : (wordChars cs).isEmpty = false) :
    Unbroken (String.ofList (wordChars cs)) := by
  rw [Unbroken, String.toList_ofList]
  exact ⟨by simpa using h, fun c hc => isDelimiter_of_mem_wordChars hc⟩

/-- A word is a symbol, the name of a variable has no end of a word in it, and there is room for the
text of a byte sequence. -/
def Lexeme.Legible : Lexeme → Prop
  | .word w => isSymbol w.toList = true
  | .variable name _ => Unbroken name
  | .bytes bs => (Base64.encode bs).length ≤ maxCapacity
  | _ => True

/-- Room for the text of a byte sequence was asked for when it was read. -/
theorem length_of_readBytes {cs rest : List Char} {bytes : List UInt8}
    (h : readBytes cs = .ok (bytes, rest)) : (Base64.encode bytes).length ≤ maxCapacity := by
  obtain ⟨behind, length, -, hroom, hdecode, -⟩ := readBytes_eq_ok h
  rw [Base64.length_of_decode? hdecode]
  exact (List.length_take_le length behind).trans hroom

theorem legible_of_readLexeme {c : Char} {cs rest : List Char} {l : Lexeme}
    (hb : isBlank c = false) (h : readLexeme c cs = .ok (l, rest)) : l.Legible := by
  unfold readLexeme at h
  split at h
  · cases h; trivial
  · cases h; trivial
  · split at h <;> cases h
    trivial
  · split at h
    · cases h
    · rename_i hbytes
      cases h
      exact length_of_readBytes hbytes
  · simp only at h
    split at h
    · cases h
    · rename_i hne
      cases h
      exact unbroken_wordChars (Bool.eq_false_iff.2 hne)
  · split at h <;> cases h
    trivial
  · rename_i hopen hclose hquote hbytes hvariable hkeyword
    cases h
    have hc : isDelimiter c = false := by simp_all [isDelimiter]
    refine isSymbol_iff.2 ⟨?_, ?_⟩
    · rw [Unbroken, String.toList_ofList]
      exact ⟨List.cons_ne_nil _ _,
        List.forall_mem_cons.2 ⟨hc, fun d hd => isDelimiter_of_mem_wordChars hd⟩⟩
    · rw [marked, String.toList_ofList]
      simp_all

/-! ## Words -/

theorem mem_of_mem_splitSign {cs : List Char} {c : Char} (h : c ∈ (splitSign cs).2) : c ∈ cs := by
  unfold splitSign at h
  split at h
  · exact List.mem_cons_of_mem _ h
  · exact List.mem_cons_of_mem _ h
  · exact h

/-- A word of digits, signs, points and exponent marks is not the one for no number. -/
theorem foldChars_ne_nan {cs : List Char} (hn : looksNumeric cs = true) :
    foldChars (splitSign cs).2 ≠ "nan".toList := by
  intro hnan
  have hmem : 'n' ∈ foldChars (splitSign cs).2 := by rw [hnan]; decide
  obtain ⟨c, hc, hlower⟩ := List.mem_map.1 hmem
  have hall := List.all_eq_true.1 (Bool.and_eq_true_iff.1 hn).2 c (mem_of_mem_splitSign hc)
  simp only [Bool.or_eq_true, decide_eq_true_eq] at hall
  rcases hall with ((((hdigit | rfl) | rfl) | rfl) | rfl) | rfl
  · rw [toLower_of_isDigit hdigit] at hlower
    rw [hlower] at hdigit
    cases hdigit
  all_goals revert hlower; decide

theorem isNaN_of_readFloat? {cs : List Char} {x : Binary64} (hn : looksNumeric cs = true)
    (h : readFloat? cs = some x) : x.isNaN = false := by
  simp only [readFloat?, foldChars_ne_nan hn, if_false] at h
  split at h
  · cases h
    exact Binary64.isNaN_ofMagnitude (Nat.le_refl _) _
  · -- with a point behind the whole digits or without
    split at h
    all_goals
      simp only at h
      split at h
      · cases h
      · split at h
        · cases h
        · cases h
          exact Binary64.isNaN_ofDecimal _ _ _

theorem isNaN_of_wordValue {w : String} {x : Binary64} (h : wordValue w = .float x) :
    x.isNaN = false := by
  simp only [wordValue] at h
  split at h
  · cases h
  · split at h
    · cases h
    · split at h
      · cases h
      · split at h
        · rename_i hfloat
          cases h
          split at hfloat
          · rename_i hn
            exact isNaN_of_readFloat? hn hfloat
          · cases hfloat
        · split at h <;> cases h

theorem wordValue_ne_bytes (w : String) (bs : List UInt8) : wordValue w ≠ .bytes bs := by
  intro h
  simp only [wordValue] at h
  split at h
  · cases h
  · split at h
    · cases h
    · split at h
      · cases h
      · split at h
        · cases h
        · split at h <;> cases h

/-! ## What nodes are read as -/

/-- A node that was read from a text: heads are symbols, no float is no number, there is room for the
text of a byte sequence, and no list is inside. -/
def AsRead (o : Ontology) : Content → Prop
  | .primitive (.float x) => x.isNaN = false
  | .primitive (.bytes bs) => (Base64.encode bs).length ≤ maxCapacity
  | .primitive _ => True
  | .slotted _ type slots => isSymbol type.toList = true ∧ Slots.Distinct slots ∧
      ∃ declared, declaredSlots o (o.find? type) = .ok declared
  | .aggregate type _ _ => isSymbol type.toList = true
  | .variable slots _ => ∃ name, slots = [(Content.nameSlot, .ofString name)] ∧ Unbroken name
  | .ire type _ _ => isSymbol type.toList = true
  | .list _ => False

theorem asRead_wordValue (o : Ontology) (w : String) : AsRead o (.primitive (wordValue w)) := by
  cases h : wordValue w with
  | float x => exact isNaN_of_wordValue h
  | bytes bs => exact absurd h (wordValue_ne_bytes w bs)
  | _ => trivial

theorem exists_mem_of_mem_ofList {α : Type} {entries : List (String × α)} :
    ∀ e ∈ Slots.ofList entries, ∃ e' ∈ entries, e'.2 = e.2 := by
  refine Slots.ofList_induction (P := fun slots => ∀ e ∈ slots, ∃ e' ∈ entries, e'.2 = e.2)
    (List.forall_mem_nil _) ?_
  rintro e' he' slots ih ⟨k, v⟩ he
  rcases Slots.mem_insert he with he | ⟨-, rfl⟩
  · exact ih _ he
  · exact ⟨e', he', rfl⟩

theorem mem_grouped {n k : Nat} {t : Token} {ts : List Token} (h : t ∈ ts) : t ∈ grouped n ts k :=
  List.mem_cons_of_mem _ (List.mem_append_left _ h)

variable {o : Ontology}

/-- What legible tokens say has such nodes only. -/
theorem asRead_of_derives {g : Category} {e : Expect} {ts : List Token} {c : Content}
    (h : Derives o g e ts c) (hl : ∀ t ∈ ts, t.lexeme.Legible) : c.Each false (AsRead o) := by
  induction h with
  | word w => exact .of_primitive (asRead_wordValue o w)
  | quoted s => exact .of_primitive trivial
  | @«variable» e n name isMeta =>
    have hname : Unbroken name := hl ⟨.variable name isMeta, n⟩ (List.mem_singleton_self _)
    exact .of_variable ⟨name, rfl, hname⟩ (List.forall_mem_singleton.2 (.of_primitive trivial))
  | @bytes e n bs =>
    have hroom : (Base64.encode bs).length ≤ maxCapacity :=
      hl ⟨.bytes bs, n⟩ (List.mem_singleton_self _)
    exact .of_primitive hroom
  | compound _ ih => exact ih hl
  | @aggregate e n m k type parts hk _ ih =>
    have hhead : isSymbol type.toList = true := hl ⟨.word type, m⟩ (mem_grouped List.mem_cons_self)
    refine .of_aggregate hhead (List.forall_mem_map.2 fun p hp => ih p hp fun t ht => hl t ?_)
      fun h => by cases h
    exact mem_grouped (List.mem_cons_of_mem _ (List.mem_flatMap.2 ⟨p, hp, ht⟩))
  | @ire e n m k type ts us referent proposition hk _ _ ihr ihp =>
    have hhead : isSymbol type.toList = true := hl ⟨.word type, m⟩ (mem_grouped List.mem_cons_self)
    refine .of_ire hhead (ihr fun t ht => hl t ?_) (ihp fun t ht => hl t ?_)
    · exact mem_grouped (List.mem_cons_of_mem _ (List.mem_append_left _ ht))
    · exact mem_grouped (List.mem_cons_of_mem _ (List.mem_append_right _ ht))
  | @slotted e n m k type declared args hk hd _ _ ih =>
    have hhead : isSymbol type.toList = true := hl ⟨.word type, m⟩ (mem_grouped List.mem_cons_self)
    refine .of_slotted ⟨hhead, .ofList _, declared, hd⟩ fun s hs => ?_
    obtain ⟨s', hs', hvalue⟩ := exists_mem_of_mem_ofList s hs
    obtain ⟨a, ha, rfl⟩ := List.mem_map.1 hs'
    rw [← hvalue]
    refine ih a ha fun t ht => hl t ?_
    have htokens : t ∈ a.tokens := List.mem_append_right _ ht
    exact mem_grouped (List.mem_cons_of_mem _ (List.mem_flatMap.2 ⟨a, ha, htokens⟩))

/-! ## Texts -/

theorem exists_spaced_iff {results : List (Except EncodeError (List Char))} :
    (∃ text, spaced results = .ok text) ↔ ∀ r ∈ results, ∃ t, r = .ok t := by
  induction results with
  | nil => simp [spaced]
  | cons r rest ih =>
    rw [List.forall_mem_cons, ← ih]
    cases r with
    | error e => simp [spaced]
    | ok t =>
      rw [spaced]
      cases spaced rest <;> simp

theorem exists_parenthesised_iff {type : String} {results : List (Except EncodeError (List Char))} :
    (∃ text, parenthesised type results = .ok text) ↔
      isSymbol type.toList = true ∧ ∀ r ∈ results, ∃ t, r = .ok t := by
  rw [parenthesised, symbol, ← exists_spaced_iff]
  by_cases hs : isSymbol type.toList = true
  · rw [if_pos hs]
    cases spaced results <;> simp [hs]
  · simp [hs]

theorem exists_separated_iff {results : List (Except EncodeError (List Char))} :
    (∃ text, separated results = .ok text) ↔ ∀ r ∈ results, ∃ t, r = .ok t := by
  cases results with
  | nil => simp [separated]
  | cons r rest =>
    rw [List.forall_mem_cons, ← exists_spaced_iff]
    cases r with
    | error e => simp [separated]
    | ok t =>
      rw [separated]
      cases spaced rest <;> simp

theorem exists_named_iff {name : String} {result : Except EncodeError (List Char)} :
    (∃ t, named name result = .ok t) ↔ isSymbol name.toList = true ∧ ∃ t, result = .ok t := by
  by_cases hs : isSymbol name.toList = true
  · cases result <;> simp [named, symbol, hs]
  · simp [named, symbol, hs]

/-- What a node that was read has to be for a text to hold it: no infinite float, no variable with a
mark in front of its name, and slots that go without their names or have symbols for names. -/
def Recodable (o : Ontology) : Content → Prop
  | .primitive (.float x) => ∀ negative, x ≠ .infinity negative
  | .variable slots _ => marked (Content.variableName slots) = false
  | .slotted _ type slots =>
    (positionalOrder? o type slots).isSome = true ∨ ∀ s ∈ slots, isSymbol s.1.toList = true
  | _ => True

instance : DecidablePred (Recodable o)
  | .primitive (.float x) =>
    decidable_of_iff (x ≠ .infinity false ∧ x ≠ .infinity true)
      (Bool.forall_bool (p := fun negative => x ≠ .infinity negative)).symm
  | .primitive (.string _) => isTrue trivial
  | .primitive (.boolean _) => isTrue trivial
  | .primitive (.integer _) => isTrue trivial
  | .primitive (.date _) => isTrue trivial
  | .primitive (.bytes _) => isTrue trivial
  | .variable slots _ =>
    inferInstanceAs (Decidable (marked (Content.variableName slots) = false))
  | .slotted _ type slots => inferInstanceAs (Decidable
      ((positionalOrder? o type slots).isSome = true ∨ ∀ s ∈ slots, isSymbol s.1.toList = true))
  | .aggregate _ _ _ => isTrue trivial
  | .ire _ _ _ => isTrue trivial
  | .list _ => isTrue trivial

theorem exists_text_slotted_iff {role : Role} {type : String} {slots : Slots Content}
    {declared : List SlotDescriptor} (hs : isSymbol type.toList = true)
    (hd : declaredSlots o (o.find? type) = .ok declared) (hdistinct : Slots.Distinct slots) :
    (∃ t, encodeExpression o (.slotted role type slots) = .ok t) ↔
      Recodable o (.slotted role type slots) ∧
        ∀ s ∈ slots, ∃ t, encodeExpression o s.2 = .ok t := by
  constructor
  · rintro ⟨text, htext⟩
    refine ⟨?_, fun s hmem => exists_text_of_slot hd hdistinct htext hmem⟩
    rw [Recodable]
    rw [encodeExpression] at htext
    cases hp : positionalOrder? o type slots with
    | some names => exact .inl rfl
    | none =>
      rw [hp] at htext
      obtain ⟨-, texts, htexts, -⟩ := exists_of_parenthesised htext
      refine .inr fun s hmem => ?_
      obtain ⟨t, -, hname, -⟩ := exists_of_forall₂_left (forall₂_of_named htexts).flip hmem
      exact hname
  · rintro ⟨hnames, htexts⟩
    rw [encodeExpression]
    cases hp : positionalOrder? o type slots with
    | some names =>
      refine exists_parenthesised_iff.2 ⟨hs, fun r hr => ?_⟩
      obtain ⟨n, -, hget⟩ := List.mem_filterMap.1 hr
      rw [get?_encodeSlots, Option.map_eq_some_iff] at hget
      obtain ⟨c, hc, rfl⟩ := hget
      obtain ⟨k, -, hmem⟩ := Slots.mem_of_get? hc
      exact htexts _ hmem
    | none =>
      have hsymbols := hnames.resolve_left (by simp [hp])
      refine exists_parenthesised_iff.2 ⟨hs, ?_⟩
      rw [encodeSlots_eq_map, List.map_map, List.forall_mem_map]
      exact fun s hmem => exists_named_iff.2 ⟨hsymbols s hmem, htexts s hmem⟩

theorem exists_text_variable_iff {name : String} {isMeta : Bool} (h : Unbroken name) :
    (∃ t, encodeExpression o (.freeVariable name isMeta) = .ok t) ↔
      Recodable o (.freeVariable name isMeta) := by
  have hname : Content.variableName [(Content.nameSlot, .ofString name)] = name := by
    simp [Content.variableName, Slots.get?, Content.string?, Content.ofString]
  rw [Content.freeVariable, encodeExpression, Recodable, hname, symbol]
  by_cases hs : isSymbol name.toList = true
  · simp [hs, (isSymbol_iff.1 hs).2]
  · have hmarked : marked name = true := by simpa [isSymbol_iff, h] using hs
    simp [hs, hmarked]

/-- Content with nodes as they are read has a text just when all nodes are recodable. -/
theorem exists_text_iff {c : Content} (h : c.Each false (AsRead o)) :
    (∃ t, encodeExpression o c = .ok t) ↔ c.Each false (Recodable o) := by
  induction c using Content.induction with
  | primitive p =>
    refine Iff.trans ?_ ⟨.of_primitive, Content.Each.self⟩
    cases p with
    | float x =>
      have hnan : x.isNaN = false := h.self
      rw [encodeExpression, writePrimitive, Recodable, ← Binary64.isFinite_iff_ne_infinity hnan]
      by_cases hx : x.isFinite = true <;> simp [hx]
    | bytes bs =>
      have hroom : (Base64.encode bs).length ≤ maxCapacity := h.self
      simp [encodeExpression, writePrimitive, Recodable, Nat.not_lt.2 hroom]
    | _ => simp [encodeExpression, writePrimitive, Recodable]
  | slotted role type slots ih =>
    obtain ⟨hs, hdistinct, declared, hd⟩ := h.self
    rw [exists_text_slotted_iff hs hd hdistinct]
    constructor
    · rintro ⟨hself, htexts⟩
      exact .of_slotted hself fun s hmem => (ih s hmem (h.slot hmem)).1 (htexts s hmem)
    · intro hall
      exact ⟨hall.self, fun s hmem => (ih s hmem (h.slot hmem)).2 (hall.slot hmem)⟩
  | aggregate type elements template ih _ =>
    have hs : isSymbol type.toList = true := h.self
    rw [encodeExpression, encodeAll_eq_map, exists_parenthesised_iff, List.forall_mem_map]
    constructor
    · rintro ⟨-, htexts⟩
      exact .of_aggregate trivial (fun c hc => (ih c hc (h.element hc)).1 (htexts c hc))
        fun h => by cases h
    · intro hall
      exact ⟨hs, fun c hc => (ih c hc (h.element hc)).2 (hall.element hc)⟩
  | «variable» slots isMeta _ =>
    obtain ⟨name, rfl, hname⟩ := h.self
    refine (exists_text_variable_iff hname).trans ⟨fun hself => .of_variable hself ?_, fun hall =>
      hall.self⟩
    exact List.forall_mem_singleton.2 (.of_primitive trivial)
  | ire type referent proposition ihr ihp =>
    have hs : isSymbol type.toList = true := h.self
    rw [encodeExpression, exists_parenthesised_iff]
    simp only [List.forall_mem_cons, ihr h.referent, ihp h.proposition]
    constructor
    · rintro ⟨-, hr, hp, -⟩
      exact .of_ire trivial hr hp
    · intro hall
      exact ⟨hs, hall.referent, hall.proposition, List.forall_mem_nil _⟩
  | list elements _ => exact h.self.elim

/-! ## Messages -/

theorem exists_encode_list_iff {cs : List Content} (hne : cs ≠ []) :
    (∃ text, encode o (.list cs) = .ok text) ↔ ∀ c ∈ cs, ∃ t, encodeExpression o c = .ok t := by
  have hall : (∀ c ∈ cs, ∃ t, encodeExpression o c = .ok t) ↔
      ∃ inner, separated (cs.map (encodeExpression o)) = .ok inner := by
    rw [exists_separated_iff, List.forall_mem_map]
  have htexts : (cs.map (encodeExpression o)).isEmpty = false := by simpa using hne
  rw [hall]
  simp only [encode, encodeChars, encodeAll_eq_map, htexts, Bool.false_eq_true, if_false]
  cases separated (cs.map (encodeExpression o)) <;> simp

theorem exists_encode_compound_iff {c : Content} (hc : isCompound c = true) :
    (∃ text, encode o c = .ok text) ↔ ∃ t, encodeExpression o c = .ok t := by
  have hlist : encode o (.list [c]) = encode o c := by
    cases c <;> first | cases hc; done | rfl
  rw [← hlist, exists_encode_list_iff (List.cons_ne_nil c []), List.forall_mem_singleton]

theorem isCompound_of_derives {e : Expect} {ts : List Token} {c : Content}
    (h : Derives o .compound e ts c) : isCompound c = true := by
  cases h <;> rfl

theorem exists_encode_iff_of_sentence {ts : List Token} {c : Content} (h : Sentence o ts c)
    (hl : ∀ t ∈ ts, t.lexeme.Legible) :
    (∃ text, encode o c = .ok text) ↔ c.Each false (Recodable o) := by
  cases h with
  | one h =>
    have hread := asRead_of_derives h fun t ht => hl t (mem_grouped ht)
    rw [exists_encode_compound_iff (isCompound_of_derives h), exists_text_iff hread]
  | @many n k parts hlen hparts =>
    have hread : ∀ p ∈ parts, p.2.Each false (AsRead o) := fun p hp =>
      asRead_of_derives (hparts p hp) fun t ht =>
        hl t (mem_grouped (List.mem_flatMap.2 ⟨p, hp, ht⟩))
    have hne : parts.map Prod.snd ≠ [] := by
      rw [Ne, List.map_eq_nil_iff]
      rintro rfl
      cases hlen
    rw [exists_encode_list_iff hne, List.forall_mem_map]
    constructor
    · intro htexts
      refine .of_list trivial (List.forall_mem_map.2 fun p hp => ?_)
      exact (exists_text_iff (hread p hp)).1 (htexts p hp)
    · intro hall p hp
      exact (exists_text_iff (hread p hp)).2 (hall.item (List.mem_map_of_mem hp))

/-- What was read can be written again just when no float in it is infinite, no name of a variable
starts with a mark, and the slots that go with their names have symbols for names. -/
theorem exists_encode_iff_of_decode {text : String} {c : Content} (h : decode o text = .ok c) :
    (∃ text', encode o c = .ok text') ↔ c.Each false (Recodable o) := by
  obtain ⟨tokens, hscan, hread⟩ := decodeChars_eq_ok_iff.1 h
  exact exists_encode_iff_of_sentence (contentOf_eq_ok_iff.1 hread)
    (forall_mem_scanFrom legible_of_readLexeme hscan)

theorem encode_unheard : decode descriptions
      "( (unheard :A \"1\" :b (iota ?x (p)) :a \"2\"))" = .ok unheard ∧
    ∃ text', encode descriptions unheard = .ok text' :=
  ⟨decode_unheard, (exists_encode_iff_of_decode decode_unheard).2 (by decide)⟩

/-- A predicate with one slot and its tokens. -/
theorem decode_slot {text : String} {name : String} {l : Lexeme} {v : Content} {n k m : Nat}
    (hscan : Token.scan text.toList = .ok (grouped 0 (grouped 1 (⟨.word "p", 2⟩ ::
      [⟨.keyword name, 4⟩, ⟨l, n⟩]) k) m))
    (hv : l.content? = some v) :
    decode descriptions text = .ok (.slotted .predicate "p" [(name, v)]) := by
  have hplaced : Placed [] 0 [⟨[⟨.keyword name, 4⟩], [⟨l, n⟩], name, .term, v⟩] := .named .nil
  have hp : Derives descriptions .compound .proposition (grouped 1 (⟨.word "p", 2⟩ ::
      [⟨.keyword name, 4⟩, ⟨l, n⟩]) k) (.slotted .predicate "p" [(name, v)]) :=
    .slotted ⟨by decide, by decide⟩ rfl hplaced
      (List.forall_mem_singleton.2 (derives_of_content? hv))
  exact decodeChars_eq_ok_iff.2 ⟨_, hscan, contentOf_of_sentence (.one hp)⟩

/-- A float beyond every number, a variable and a slot whose names start with a mark. -/
theorem encode_of_decode_fails :
    (∃ c, decode descriptions "((p :x 1e999))" = .ok c ∧
        ∀ text, encode descriptions c ≠ .ok text) ∧
      (∃ c, decode descriptions "((p :x ?:y))" = .ok c ∧
        ∀ text, encode descriptions c ≠ .ok text) ∧
      ∃ c, decode descriptions "((p ::x 1))" = .ok c ∧
        ∀ text, encode descriptions c ≠ .ok text := by
  have hfloat : (Lexeme.word "1e999").content? = some (.ofFloat (.infinity false)) := by
    have hword : wordValue "1e999" = .float (.infinity false) := by decide +kernel
    rw [Lexeme.content?, hword, Content.ofFloat]
  have hone : (Lexeme.word "1").content? = some (.ofInt 1) := by
    have hword : wordValue "1" = .integer 1 := by decide +kernel
    rw [Lexeme.content?, hword, Content.ofInt]
  refine ⟨⟨.slotted .predicate "p" [("x", .ofFloat (.infinity false))], ?_, ?_⟩,
    ⟨.slotted .predicate "p" [("x", .freeVariable ":y" false)], ?_, ?_⟩,
    ⟨.slotted .predicate "p" [(":x", .ofInt 1)], ?_, ?_⟩⟩
  · refine decode_slot (l := .word "1e999") (n := 7) (k := 12) (m := 13) ?_ hfloat
    rw [scan_eq_scanWithin 50 (by decide)]
    rfl
  · intro text h
    cases h
  · refine decode_slot (l := .variable ":y" false) (n := 7) (k := 10) (m := 11) ?_ rfl
    rw [scan_eq_scanWithin 50 (by decide)]
    rfl
  · intro text h
    cases h
  · refine decode_slot (l := .word "1") (n := 8) (k := 9) (m := 10) ?_ hone
    rw [scan_eq_scanWithin 50 (by decide)]
    rfl
  · intro text h
    cases h

end Sl
end AgentContent
