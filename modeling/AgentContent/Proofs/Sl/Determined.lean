import AgentContent.Proofs.Ontology.Slots
import AgentContent.Proofs.Sl.Yields

/-!
# AgentContent.Proofs.Sl.Determined

What it takes for a text to be read as a given content, for the parts that expressions are made of.

* `Determined`: the content is one that its text determines, at a place that asks for something.
* `Says`: a text is read, at such a place, as a content that equals a given one.
* `yields_terms`, `yields_named`, `yields_positional`: what rows of such texts are read as.
-/

namespace AgentContent
namespace Sl

/-- The kind of the schema of a head. -/
def kindOf (o : Ontology) (type : String) : Option SchemaKind :=
  (o.find? type).map Schema.kind

/-- The text of the content, if it has one, determines it at a place that asks for something. -/
inductive Determined (o : Ontology) : Expect → Content → Prop where
  | primitive {e : Expect} {p : Primitive} (h : HasWord p) : Determined o e (.primitive p)
  | variable {e : Expect} {slots : Slots Content} {isMeta : Bool} (hs : Slots.Distinct slots)
    (hn : ∀ s ∈ slots, sameName s.1 Content.nameSlot = true) :
    Determined o e (.variable slots isMeta)
  | aggregate {e : Expect} {type : String} {elements : List Content} {template : Option Content}
    (hk : kindOf o type = some .aggregate) (h : ∀ c ∈ elements, Determined o .term c) :
    Determined o e (.aggregate type elements template)
  | ire {e : Expect} {type : String} {referent proposition : Content}
    (hk : kindOf o type = some .ire) (hr : Determined o .term referent)
    (hp : Determined o .proposition proposition) : Determined o e (.ire type referent proposition)
  | slotted {e : Expect} {type : String} {slots : Slots Content} {declared : List SlotDescriptor}
    (hk : kindOf o type ≠ some .aggregate ∧ kindOf o type ≠ some .ire)
    (hd : declaredSlots o (o.find? type) = .ok declared) (hs : Slots.Distinct slots)
    (h : ∀ s ∈ slots, Determined o (expectOfKeyword declared s.1) s.2) :
    Determined o e (.slotted (roleOf (kindOf o type) e) type slots)
  | list {e : Expect} {elements : List Content} : Determined o e (.list elements)

/-- Wherever the text starts, it is one form that is read as a content equal to the given one. -/
def Says (o : Ontology) (finish : Nat) (e : Expect) (text : List Char) (c : Content) : Prop :=
  Yields text fun fs => ∃ f c', fs = [f] ∧ expression o finish e f = .ok c' ∧ c'.same c = true

section

variable {o : Ontology} {finish : Nat} {e : Expect} {text type : String} {closing : Option Nat}

/-! ## Reading a form -/

theorem not_keyword_of_expression {f : Form} {c : Content} (h : expression o finish e f = .ok c)
    (name : String) (offset : Nat) : f ≠ .atom (.keyword name) offset := by
  rintro rfl
  rw [expression] at h
  cases h

theorem expression_aggregate {n m : Nat} {args : List Form} {elements : List Content}
    (hk : kindOf o type = some .aggregate) (h : terms o finish closing args = .ok elements) :
    expression o finish e (.group n (.atom (.word type) m :: args) closing) =
      .ok (.aggregate type elements none) := by
  rw [kindOf] at hk
  unfold expression
  simp only [hk, h]

theorem expression_ire {n m k : Nat} {v p : Form} {referent proposition : Content}
    (hk : kindOf o type = some .ire) (hv : expression o finish .term v = .ok referent)
    (hp : expression o finish .proposition p = .ok proposition) :
    expression o finish e (.group n [.atom (.word type) m, v, p] (some k)) =
      .ok (.ire type referent proposition) := by
  rw [kindOf] at hk
  simp only [expression, hk, hv, hp, requireClose]

theorem expression_slotted {n m : Nat} {args : List Form} {slots : Slots Content}
    {declared : List SlotDescriptor}
    (hk : kindOf o type ≠ some .aggregate ∧ kindOf o type ≠ some .ire)
    (hd : declaredSlots o (o.find? type) = .ok declared)
    (h : arguments o finish type declared closing 0 [] args = .ok slots) :
    expression o finish e (.group n (.atom (.word type) m :: args) closing) =
      .ok (.slotted (roleOf (kindOf o type) e) type slots) := by
  simp only [kindOf] at hk ⊢
  unfold expression
  simp only
  split
  · rename_i hkind; exact absurd hkind hk.1
  · rename_i hkind; exact absurd hkind hk.2
  · simp only [hd, h]

theorem arguments_named {position : Nat} {slots : Slots Content} {declared : List SlotDescriptor}
    {name : String} {m : Nat} {v : Form} {c : Content} {rest : List Form}
    (h : expression o finish (expectOfKeyword declared name) v = .ok c) :
    arguments o finish type declared closing position slots
        (.atom (.keyword name) m :: v :: rest) =
      arguments o finish type declared closing position (Slots.insert name c slots) rest := by
  rw [arguments]
  simp only [h]

theorem arguments_positional {position : Nat} {slots : Slots Content}
    {declared : List SlotDescriptor} {d : SlotDescriptor} {f : Form} {c : Content}
    {rest : List Form} (hd : declared[position]? = some d)
    (h : expression o finish (.ofSlot d.type) f = .ok c) :
    arguments o finish type declared closing position slots (f :: rest) =
      arguments o finish type declared closing (position + 1) (Slots.insert d.name c slots) rest := by
  have hf := not_keyword_of_expression h
  rw [arguments]
  · simp only [hd, h]
  · intro name offset heq; exact absurd heq (hf name offset)
  · intro name offset v rest heq; exact absurd heq (hf name offset)

/-! ## Elements and arguments -/

theorem says_atom {text : List Char} {l : Lexeme} {c c' : Content} (hs : Spells text l)
    (hl : l.content? = some c') (hc : c'.same c = true) : Says o finish e text c := by
  have hparen : l ≠ .open ∧ l ≠ .close := by
    constructor <;> (rintro rfl; cases hl)
  refine (Yields.ofSpells hs hparen).mono ?_
  rintro fs ⟨n, rfl⟩
  exact ⟨_, c', rfl, expression_atom_eq_ok.2 hl, hc⟩

theorem yields_terms {texts : List (List Char)} {elements : List Content}
    (h : List.Forall₂ (fun t c => Says o finish .term t c) texts elements) :
    Yields (spacedText texts) fun fs => ∃ elements',
      List.Forall₂ (fun c d => c.same d = true) elements' elements ∧
        ∀ k, terms o finish (some k) fs = .ok elements' := by
  induction h with
  | nil => exact .nil ⟨[], .nil, fun k => by simp [terms, requireClose]⟩
  | @cons t c ts cs ht _ ih =>
    refine Yields.spaced_cons ht ih ?_
    rintro fs gs ⟨f, c', rfl, hf, hc⟩ ⟨cs', hcs, hgs⟩
    refine ⟨c' :: cs', .cons hc hcs, fun k => ?_⟩
    simp only [List.cons_append, List.nil_append, terms, hf, hgs k]

/-- The slots behind their names. -/
theorem yields_named (type : String) {declared : List SlotDescriptor} {texts : List (List Char)}
    {slots : Slots Content}
    (h : List.Forall₂ (fun t s => isSymbol s.1.toList = true ∧ ∃ u,
      t = ':' :: s.1.toList ++ ' ' :: u ∧ Says o finish (expectOfKeyword declared s.1) u s.2)
      texts slots) :
    Yields (spacedText texts) fun fs => ∃ slots' : Slots Content,
      List.Forall₂ (fun s' s => s'.1 = s.1 ∧ s'.2.same s.2 = true) slots' slots ∧
        ∀ k done, arguments o finish type declared (some k) 0 done fs =
          .ok (slots'.foldl (fun slots s => Slots.insert s.1 s.2 slots) done) := by
  induction h with
  | nil => exact .nil ⟨[], .nil, fun k done => by simp [arguments, requireClose]⟩
  | @cons t s ts slots ht _ ih =>
    obtain ⟨hs, u, rfl, hu⟩ := ht
    have hkey := Yields.ofSpells (spells_keyword hs) (by simp)
    rw [String.ofList_toList] at hkey
    have hone : Yields (':' :: s.1.toList ++ ' ' :: u) fun fs => ∃ m f c',
        fs = [.atom (.keyword s.1) m, f] ∧
          expression o finish (expectOfKeyword declared s.1) f = .ok c' ∧ c'.same s.2 = true := by
      refine hkey.append hu.blank (fun _ _ => Ends.cons (by decide)) ?_
      rintro fs gs ⟨m, rfl⟩ ⟨f, c', rfl, hf, hc⟩
      exact ⟨m, f, c', rfl, hf, hc⟩
    refine Yields.spaced_cons hone ih ?_
    rintro fs gs ⟨m, f, c', rfl, hf, hc⟩ ⟨slots', hsame, hgs⟩
    refine ⟨(s.1, c') :: slots', .cons ⟨rfl, hc⟩ hsame, fun k done => ?_⟩
    simp only [List.cons_append, List.nil_append, arguments_named hf, hgs, List.foldl_cons]

/-- The first slots of a schema without their names. -/
theorem yields_positional (type : String) (position : Nat) {declared filled : List SlotDescriptor}
    {texts : List (List Char)} {slots : Slots Content}
    (hfilled : filled <+: declared.drop position)
    (h : List.Forall₂ (fun t d => ∃ c, Slots.get? d.name slots = some c ∧
      Says o finish (.ofSlot d.type) t c) texts filled) :
    Yields (spacedText texts) fun fs => ∃ slots' : Slots Content,
      List.Forall₂ (fun s d => s.1 = d.name ∧
        ∃ c, Slots.get? d.name slots = some c ∧ s.2.same c = true) slots' filled ∧
        ∀ k done, arguments o finish type declared (some k) position done fs =
          .ok (slots'.foldl (fun slots s => Slots.insert s.1 s.2 slots) done) := by
  induction h generalizing position with
  | nil => exact .nil ⟨[], .nil, fun k done => by simp [arguments, requireClose]⟩
  | @cons t d ts filled ht _ ih =>
    obtain ⟨c, hget, hsays⟩ := ht
    obtain ⟨rest, hrest⟩ := hfilled
    have hd : declared[position]? = some d := by
      rw [← List.head?_drop, ← hrest]
      rfl
    have htail : filled <+: declared.drop (position + 1) := by
      refine ⟨rest, ?_⟩
      rw [← List.tail_drop, ← hrest]
      rfl
    refine Yields.spaced_cons hsays (ih (position + 1) htail) ?_
    rintro fs gs ⟨f, c', rfl, hf, hc⟩ ⟨slots', hsame, hgs⟩
    refine ⟨(d.name, c') :: slots', .cons ⟨rfl, c, hget, hc⟩ hsame, fun k done => ?_⟩
    simp only [List.cons_append, List.nil_append, arguments_positional hd hf, hgs, List.foldl_cons]

end

end Sl
end AgentContent
