import AgentContent.Proofs.Conversion.RoundTrip
import AgentContent.Proofs.Ontology.Ancestors
import AgentContent.Proofs.Vocabulary.Basic

/-!
# AgentContent.Proofs.Ontology.WellFormed

Validation looks at one node at a time: content is valid just when every node that can be reached
in it is well formed for itself.

* `Accepts`: what a facet asks of a value.
* `Part`: one step down in content: to the value of a declared slot, to an element, or to a side of
  an identifying expression.
* `WellFormed`: what a node has to be, whatever its parts are.
* `VariableFits`: what a variable has to be where its name is taken by a type that has no
  variables.
* `validateContent_iff_forall_reachable`: valid content, node by node.
-/

namespace AgentContent

/-- The type that a variable declares for its values. -/
def Content.declaredType? : Content → Option String
  | .variable slots _ => valueType? slots
  | _ => none

namespace Ontology

variable {o : Ontology} {s : Schema} {c : Content}

/-! ## Facets -/

/-- The facet accepts the value, which is known. -/
def Accepts (o : Ontology) (value : Content) : Facet → Prop
  | .cardinality least most =>
    ∃ elements, value.aggregate? = some elements ∧ least ≤ elements.length ∧
      ∀ bound, most = some bound → elements.length ≤ bound
  | .elementType type =>
    ∃ elements expected, value.aggregate? = some elements ∧ o.find? type = some expected ∧
      ∀ e ∈ elements, isOpen e = false →
        ∃ actual, o.find? e.typeName = some actual ∧ o.compatible actual expected = true
  | .permitted values => ∃ p ∈ values, value.primitive? = some p
  | .pattern p => ∃ text, value.string? = some text ∧ p.finds text = true
  | .custom rule => rule.check o.contains value = none

theorem checkElements_eq_ok_iff {slot type : String} {expected : Schema}
    {elements : List Content} : o.checkElements slot type expected elements = .ok () ↔
      ∀ e ∈ elements, isOpen e = false →
        ∃ actual, o.find? e.typeName = some actual ∧ o.compatible actual expected = true := by
  induction elements with
  | nil => simp [checkElements]
  | cons e rest ih =>
    rw [checkElements, List.forall_mem_cons, ← ih]
    by_cases he : isOpen e = true
    · simp [he]
    · rw [if_neg he]
      simp only [Bool.not_eq_true] at he
      simp only [he, forall_const, ← schema_eq_ok_iff]
      cases o.schema e.typeName with
      | error err => simp
      | ok actual =>
        by_cases hcompat : o.compatible actual expected = true
        · simp [hcompat]
        · simp [hcompat]

/-- A value keeps a facet that accepts it. Values that are not known yet keep all. -/
theorem checkFacet_eq_ok_iff {slot : String} {f : Facet} :
    o.checkFacet slot c f = .ok () ↔ isOpen c = true ∨ o.Accepts c f := by
  by_cases ho : isOpen c = true
  · simp [checkFacet, ho]
  · simp only [checkFacet, ho, Bool.false_eq_true, if_false, false_or]
    cases f with
    | cardinality least most =>
      simp only [Accepts]
      cases c.aggregate? with
      | none => simp
      | some elements =>
        by_cases hleast : elements.length < least
        · simp [hleast, Nat.not_le.2 hleast]
        · cases most with
          | none => simp [hleast, Nat.not_lt.1 hleast]
          | some bound => simp [hleast, Nat.not_lt.1 hleast]
    | elementType type =>
      have hknown : ∀ expected, o.find? type = some expected ↔ o.schema type = .ok expected :=
        fun _ => schema_eq_ok_iff.symm
      simp only [Accepts, hknown]
      cases c.aggregate? with
      | none => simp
      | some elements =>
        cases o.schema type with
        | error e => simp
        | ok expected => simp [checkElements_eq_ok_iff]
    | permitted values =>
      simp only [Accepts]
      cases c.primitive? with
      | none => simp
      | some p => simp
    | pattern p =>
      simp only [Accepts]
      cases c.string? with
      | none => simp
      | some text => simp
    | custom rule =>
      simp only [Accepts]
      cases rule.check o.contains c with
      | none => simp
      | some reason => simp

/-! ## Slots -/

/-- The value may stand in a slot of the type: its own type is known and compatible, and so is the
one that it declares if it is a variable. -/
def TypedFor (o : Ontology) (type : String) (value : Content) : Prop :=
  ∃ expected, o.find? type = some expected ∧
    (∃ actual, o.find? value.typeName = some actual ∧ o.compatible actual expected = true) ∧
    ∀ declared, value.declaredType? = some declared →
      ∃ t, o.find? declared = some t ∧ o.compatible t expected = true

/-- Every facet that the schema or an ancestor attaches to the slot accepts the value. -/
def KeepsFacets (o : Ontology) (s : Schema) (slot : String) (value : Content) : Prop :=
  ∀ t, o.Ancestor s t → ∀ f ∈ t.ownFacets slot, isOpen value = true ∨ o.Accepts value f

/-- The slot is empty where it may be, or has a value that may stand there. -/
def SlotFits (o : Ontology) (s : Schema) (slots : Slots Content) (d : SlotDescriptor) : Prop :=
  (Slots.get? d.name slots = none → d.optional = true) ∧
    ∀ value, Slots.get? d.name slots = some value →
      o.TypedFor d.type value ∧ o.KeepsFacets s d.name value

theorem checkDeclared_eq_ok_iff {slot : String} {expected : Schema} :
    o.checkDeclared slot expected c = .ok () ↔
      ∀ declared, c.declaredType? = some declared →
        ∃ t, o.find? declared = some t ∧ o.compatible t expected = true := by
  unfold checkDeclared Content.declaredType?
  cases c with
  | «variable» slots isMeta =>
    simp only
    cases Content.valueType? slots with
    | none => simp
    | some type =>
      simp only [Option.some.injEq, forall_eq', ← schema_eq_ok_iff]
      cases o.schema type with
      | error e => simp
      | ok declared =>
        by_cases hcompat : o.compatible declared expected = true
        · simp [hcompat]
        · simp [hcompat]
  | _ => simp

/-- A value has a fitting schema just when it is typed for the slot. -/
theorem exists_fitting_iff {d : SlotDescriptor} :
    (∃ actual, o.fitting d c = .ok actual ∧ o.validate actual c = .ok ()) ↔
      o.TypedFor d.type c ∧ o.validateContent c = .ok () := by
  simp only [fitting_eq_ok_iff, checkDeclared_eq_ok_iff, validateContent_eq_ok_iff, TypedFor,
    schema_eq_ok_iff]
  constructor
  · rintro ⟨actual, ⟨expected, hexpected, hactual, hcompat, hdeclared⟩, hvalid⟩
    exact ⟨⟨expected, hexpected, ⟨actual, hactual, hcompat⟩, hdeclared⟩, actual, hactual, hvalid⟩
  · rintro ⟨⟨expected, hexpected, ⟨actual, hactual, hcompat⟩, hdeclared⟩, own, hown, hvalid⟩
    rw [hactual] at hown
    cases hown
    exact ⟨actual, ⟨expected, hexpected, hactual, hcompat, hdeclared⟩, hvalid⟩

theorem exists_checkFacets_iff (hs : o.Registered s) (hr : Resolves o s) {slot : String} :
    (∃ facets, o.facetsOf s slot = .ok facets ∧ o.checkFacets slot c facets = .ok ()) ↔
      o.KeepsFacets s slot c := by
  obtain ⟨facets, hfacets⟩ := hr.facetsOf_eq_ok slot
  simp only [hfacets, Except.ok.injEq, exists_eq_left', checkFacets_eq_ok_iff,
    checkFacet_eq_ok_iff, mem_facetsOf_iff hs hfacets, KeepsFacets]
  constructor
  · intro h t ht f hf
    exact h f ⟨t, ht, hf⟩
  · rintro h f ⟨t, ht, hf⟩
    exact h t ht f hf

theorem slotHolds_iff (hs : o.Registered s) (hr : Resolves o s) {slots : Slots Content}
    {d : SlotDescriptor} :
    o.SlotHolds s slots d ↔ o.SlotFits s slots d ∧
      ∀ value, Slots.get? d.name slots = some value → o.validateContent value = .ok () := by
  have hvalue : ∀ value, (∃ actual facets, o.fitting d value = .ok actual ∧
      o.validate actual value = .ok () ∧ o.facetsOf s d.name = .ok facets ∧
        o.checkFacets d.name value facets = .ok ()) ↔
      (o.TypedFor d.type value ∧ o.KeepsFacets s d.name value) ∧
        o.validateContent value = .ok () := by
    intro value
    rw [← exists_checkFacets_iff hs hr, and_right_comm, ← exists_fitting_iff]
    constructor
    · rintro ⟨actual, facets, hfit, hvalid, hfacets, hcheck⟩
      exact ⟨⟨actual, hfit, hvalid⟩, facets, hfacets, hcheck⟩
    · rintro ⟨⟨actual, hfit, hvalid⟩, facets, hfacets, hcheck⟩
      exact ⟨actual, facets, hfit, hvalid, hfacets, hcheck⟩
  unfold SlotHolds SlotFits
  cases hget : Slots.get? d.name slots with
  | none => simp
  | some value =>
    simp only [reduceCtorEq, false_and, false_or, Option.some.injEq, exists_and_left,
      exists_eq_left', forall_eq', false_implies, true_and] at hvalue ⊢
    exact hvalue value

/-! ## Nodes -/

/-- One step down in content. Slots that nobody declares do not lead anywhere. -/
inductive Part (o : Ontology) : Content → Content → Prop where
  | slot {role : Role} {type name : String} {slots : Slots Content} {s : Schema} {value : Content}
    (hs : o.find? type = some s) (hd : o.Declares s name)
    (hv : Slots.get? name slots = some value) : Part o (.slotted role type slots) value
  | element {type : String} {elements : List Content} {template : Option Content} {e : Content}
    (he : e ∈ elements) : Part o (.aggregate type elements template) e
  | item {elements : List Content} {e : Content} (he : e ∈ elements) : Part o (.list elements) e
  | referent {type : String} {referent proposition : Content} :
    Part o (.ire type referent proposition) referent
  | proposition {type : String} {referent proposition : Content} :
    Part o (.ire type referent proposition) proposition

/-- What the schema of a node asks of the node itself. -/
def FitsSchema (o : Ontology) (s : Schema) : Content → Prop
  | .slotted _ _ slots =>
    Resolves o s ∧ ∀ name, o.Declares s name →
      ∃ d, o.slot? s name = .ok (some d) ∧ o.SlotFits s slots d
  | .aggregate _ _ _ => s.kind.isSlotted = false
  | .list elements => ∀ e ∈ elements, e.isContentElement = true
  | .ire _ _ proposition => proposition.isContentElement = true
  | .primitive _ => True
  | .variable _ _ => True

/-- The type of the node is known, and its schema has nothing to say against it. -/
def WellFormed (o : Ontology) (c : Content) : Prop :=
  ∃ s, o.find? c.typeName = some s ∧ o.FitsSchema s c

/-- Where the type of variables is taken by a schema of another kind, what a variable declares is
known and compatible with that schema. -/
def VariableFits (o : Ontology) (c : Content) : Prop :=
  ∀ s, o.find? c.typeName = some s → s.kind ≠ .variable →
    ∀ declared, c.declaredType? = some declared →
      ∃ t, o.find? declared = some t ∧ o.compatible t s = true

theorem variableFits_of_declaredType?_eq_none (h : c.declaredType? = none) :
    o.VariableFits c := by
  intro s _ _ declared hd
  rw [h] at hd
  cases hd

theorem not_part_primitive {p : Primitive} {d : Content} : ¬ o.Part (.primitive p) d := by
  rintro ⟨⟩

theorem not_part_variable {slots : Slots Content} {isMeta : Bool} {d : Content} :
    ¬ o.Part (.variable slots isMeta) d := by
  rintro ⟨⟩

theorem part_aggregate_iff {type : String} {elements : List Content} {template : Option Content}
    {d : Content} : o.Part (.aggregate type elements template) d ↔ d ∈ elements :=
  ⟨by rintro ⟨⟩; assumption, .element⟩

theorem part_list_iff {elements : List Content} {d : Content} :
    o.Part (.list elements) d ↔ d ∈ elements :=
  ⟨by rintro ⟨⟩; assumption, .item⟩

theorem part_ire_iff {type : String} {referent proposition d : Content} :
    o.Part (.ire type referent proposition) d ↔ d = referent ∨ d = proposition := by
  constructor
  · rintro ⟨⟩
    · exact .inl rfl
    · exact .inr rfl
  · rintro (rfl | rfl)
    · exact .referent
    · exact .proposition

/-- The slots of a node, declared by its schema or an ancestor, one after the other. -/
theorem validate_slotted_iff {role : Role} {type : String} {slots : Slots Content}
    (hs : o.find? type = some s) :
    o.validate s (.slotted role type slots) = .ok () ↔
      o.FitsSchema s (.slotted role type slots) ∧
        ∀ d, o.Part (.slotted role type slots) d → o.validateContent d = .ok () := by
  have hreg := registered_of_find? hs
  rw [validate_slotted_eq_ok_iff]
  constructor
  · rintro ⟨ds, hds, hall⟩
    have hr := (slots_isOk_iff hreg).1 ⟨ds, hds⟩
    have hslot : ∀ name, o.Declares s name → ∃ d, o.slot? s name = .ok (some d) ∧
        o.SlotHolds s slots d := by
      intro name hname
      obtain ⟨d, hd⟩ := (exists_slot?_iff hreg hr).2 hname
      exact ⟨d, hd, hall d ((mem_slots_iff hds).2 ⟨name, hd⟩)⟩
    refine ⟨⟨hr, fun name hname => ?_⟩, ?_⟩
    · obtain ⟨d, hd, hholds⟩ := hslot name hname
      exact ⟨d, hd, ((slotHolds_iff hreg hr).1 hholds).1⟩
    · rintro value (@⟨_, _, name, _, t, _, ht, hname, hget⟩)
      rw [hs] at ht
      cases ht
      obtain ⟨d, hd, hholds⟩ := hslot name hname
      have hsame : sameName d.name name = true := sameName_of_firstSlot hd
      rw [← Slots.get?_congr hsame] at hget
      exact ((slotHolds_iff hreg hr).1 hholds).2 value hget
  · rintro ⟨⟨hr, hfits⟩, hparts⟩
    obtain ⟨ds, hds⟩ := hr.slots_eq_ok
    refine ⟨ds, hds, fun d hd => ?_⟩
    obtain ⟨name, hname⟩ := (mem_slots_iff hds).1 hd
    have hdeclares := (exists_slot?_iff hreg hr).1 ⟨d, slot?_name hname⟩
    obtain ⟨e, he, hslot⟩ := hfits d.name hdeclares
    rw [slot?_name hname] at he
    cases he
    exact (slotHolds_iff hreg hr).2 ⟨hslot, fun value hget =>
      hparts value (.slot hs hdeclares hget)⟩

theorem validate_variable_iff {slots : Slots Content} {isMeta : Bool}
    (hs : o.find? (Content.variable slots isMeta).typeName = some s) :
    o.validate s (.variable slots isMeta) = .ok () ↔ o.VariableFits (.variable slots isMeta) := by
  unfold VariableFits
  simp only [hs, Option.some.injEq, forall_eq', Content.declaredType?]
  rw [validate]
  cases Content.valueType? slots with
  | none => simp
  | some type =>
    by_cases hkind : s.kind = .variable
    · simp [hkind]
    · simp only [hkind, if_false, ne_eq, not_false_eq_true, forall_const, Option.some.injEq,
        forall_eq', ← schema_eq_ok_iff]
      cases o.schema type with
      | error e => simp
      | ok declared =>
        by_cases hcompat : o.compatible declared s = true
        · simp [hcompat]
        · simp [hcompat]

/-- A schema takes a node that fits it and has valid parts. -/
theorem validate_iff_part (hs : o.find? c.typeName = some s) : o.validate s c = .ok () ↔
    (o.FitsSchema s c ∧ o.VariableFits c) ∧ ∀ d, o.Part c d → o.validateContent d = .ok () := by
  cases c with
  | primitive p =>
    have hself : o.validate s (.primitive p) = .ok () :=
      validate_primitive_eq_ok_iff.2 ⟨s, schema_eq_ok_iff.2 hs, o.compatible_refl s⟩
    have hfits : o.VariableFits (.primitive p) := variableFits_of_declaredType?_eq_none rfl
    simp [hself, hfits, FitsSchema, not_part_primitive]
  | slotted role type slots =>
    have hfits : o.VariableFits (.slotted role type slots) :=
      variableFits_of_declaredType?_eq_none rfl
    have hslots : o.validate s (.slotted role type slots) = .ok () ↔
        o.FitsSchema s (.slotted role type slots) ∧
          ∀ d, o.Part (.slotted role type slots) d → o.validateContent d = .ok () :=
      validate_slotted_iff hs
    rw [hslots]
    simp [hfits]
  | aggregate type elements template =>
    have hfits : o.VariableFits (.aggregate type elements template) :=
      variableFits_of_declaredType?_eq_none rfl
    rw [validate_aggregate_eq_ok_iff]
    simp [hfits, FitsSchema, part_aggregate_iff]
  | «variable» slots isMeta =>
    rw [validate_variable_iff hs]
    simp [FitsSchema, not_part_variable]
  | ire type referent proposition =>
    have hfits : o.VariableFits (.ire type referent proposition) :=
      variableFits_of_declaredType?_eq_none rfl
    rw [validate_ire_eq_ok_iff]
    simp [hfits, FitsSchema, part_ire_iff]
  | list elements =>
    have hfits : o.VariableFits (.list elements) := variableFits_of_declaredType?_eq_none rfl
    rw [validate_list_eq_ok_iff]
    simp [hfits, FitsSchema, part_list_iff, forall_and]

/-- One node and its parts. -/
theorem validateContent_iff_part : o.validateContent c = .ok () ↔
    (o.WellFormed c ∧ o.VariableFits c) ∧ ∀ d, o.Part c d → o.validateContent d = .ok () := by
  rw [validateContent_eq_ok_iff]
  simp only [schema_eq_ok_iff, WellFormed]
  cases hfind : o.find? c.typeName with
  | none => simp
  | some s =>
    simp only [Option.some.injEq, exists_eq_left']
    exact validate_iff_part hfind

theorem sizeOf_lt_of_part {d : Content} (h : o.Part c d) : sizeOf d < sizeOf c := by
  cases h with
  | slot _ _ hget =>
    have := Slots.sizeOf_lt_of_get? hget
    simp only [Content.slotted.sizeOf_spec]
    omega
  | element he =>
    have := List.sizeOf_lt_of_mem he
    simp only [Content.aggregate.sizeOf_spec]
    omega
  | item he =>
    have := List.sizeOf_lt_of_mem he
    simp only [Content.list.sizeOf_spec]
    omega
  | referent =>
    simp only [Content.ire.sizeOf_spec]
    omega
  | proposition =>
    simp only [Content.ire.sizeOf_spec]
    omega

theorem validateContent_of_reachable {d : Content} (hd : Relation.ReflTransGen o.Part c d)
    (h : o.validateContent c = .ok ()) : o.validateContent d = .ok () := by
  induction hd with
  | refl => exact h
  | tail _ hpart ih => exact (validateContent_iff_part.1 ih).2 _ hpart

/-- Content is valid just when every node in it is well formed for itself, and no variable declares
more than a schema in the place of variables takes. -/
theorem validateContent_iff_forall_reachable (o : Ontology) (c : Content) :
    o.validateContent c = .ok () ↔
      ∀ d, Relation.ReflTransGen o.Part c d → o.WellFormed d ∧ o.VariableFits d := by
  constructor
  · intro h d hd
    exact (validateContent_iff_part.1 (validateContent_of_reachable hd h)).1
  · intro h
    induction hsize : sizeOf c using Nat.strongRecOn generalizing c with
    | _ n ih =>
      refine validateContent_iff_part.2 ⟨h c .refl, fun d hd => ?_⟩
      exact ih (sizeOf d) (hsize ▸ sizeOf_lt_of_part hd) d
        (fun e he => h e (.head hd he)) rfl

/-- Where the basic vocabulary is kept, variables are of their own kind. -/
theorem variableFits_of_keeps (h : o.Keeps Vocabulary.basic) (c : Content) : o.VariableFits c := by
  cases c with
  | «variable» slots isMeta =>
    intro s hs hkind
    have hroot : o.find? TypeName.ofVariable = some (.root .variable) := h _ _ rfl
    rw [Content.typeName, hroot] at hs
    cases hs
    exact absurd rfl hkind
  | _ => exact variableFits_of_declaredType?_eq_none rfl

/-- The basic vocabulary below an ontology that takes the name of variables for a concept. -/
def unknowns : Ontology :=
  (compose "unknowns" [Vocabulary.basic]).push { name := "Variable", kind := .concept }

/-- Being well formed is not enough where the name of variables is taken: a variable that declares
strings is no such concept. -/
theorem unknowns_refuses_variable :
    ¬ (unknowns.validateContent (.typedVariable "x" TypeName.string) = .ok () ↔
      ∀ d, Relation.ReflTransGen unknowns.Part (.typedVariable "x" TypeName.string) d →
        unknowns.WellFormed d) := by
  have hname : unknowns.find? TypeName.ofVariable =
      some { name := "Variable", kind := .concept } := rfl
  have hstring : unknowns.find? TypeName.string =
      some { name := TypeName.string, kind := .primitive } := rfl
  intro hiff
  have hwell : ∀ d, Relation.ReflTransGen unknowns.Part (.typedVariable "x" TypeName.string) d →
      unknowns.WellFormed d := by
    intro d hd
    cases hd using Relation.ReflTransGen.head_induction_on with
    | refl => exact ⟨_, hname, trivial⟩
    | head hpart _ => exact absurd hpart not_part_variable
  have hfits := (validateContent_iff_part.1 (hiff.2 hwell)).1.2
  obtain ⟨t, ht, hcompat⟩ := hfits _ hname (by decide) TypeName.string rfl
  rw [hstring] at ht
  cases ht
  simp only [compatible, descendsFrom, lineage_of_supers_nil] at hcompat
  revert hcompat
  decide

end Ontology
end AgentContent
