import AgentContent.Proofs.Conversion.NormalForm
import AgentContent.Proofs.Ontology.Abstraction
import AgentContent.Proofs.Ontology.Strict
import AgentContent.Proofs.Template.Outline

/-!
# AgentContent.Proofs.Template.Valid

Templates are content like any other: they are valid, and have no slots but those of their schemas.

* `Facet.AllowsEmpty`: facets that an empty aggregate keeps.
* `SlotsOfTerms`: what a schema asks of its slots so that there are templates for them.
* `passes_slotted`: a node with a value in each slot that passes the checks and fits there.
* `Outlines.fits`: what stands in a place of a template passes the checks and fits the place.
* `validateContent_template`: where all schemas that a template leads to have slots of terms, the
  template passes the checks.
-/

namespace AgentContent

/-- An aggregate without elements keeps the facet. -/
def Facet.AllowsEmpty : Facet → Prop
  | .elementType _ => True
  | .cardinality least _ => least = 0
  | _ => False

namespace Ontology

variable {o : Ontology} {s t : Schema} {c : Content} {around : List String} {place : Place}

/-- The values of the slots are terms, and only slots of aggregates have facets: the type of the
elements, and a bound on their number that leaves them out. -/
def SlotsOfTerms (o : Ontology) (s : Schema) : Prop :=
  ∀ ds, o.slots s = .ok ds → ∀ d ∈ ds, ∃ t, o.find? d.type = some t ∧ t.kind.isTerm = true ∧
    ∀ u, o.Ancestor s u → ∀ f ∈ u.ownFacets d.name, t.kind = .aggregate ∧ f.AllowsEmpty

theorem slotsOfTerms_of_slots_nil (h : o.slots s = .ok []) : o.SlotsOfTerms s := by
  intro ds hds d hd
  rw [h] at hds
  cases hds
  cases hd

/-- The content passes both checks: it is valid and has no undeclared slot. -/
def Passes (o : Ontology) (c : Content) : Prop :=
  o.validateContent c = .ok () ∧ o.Declared c

/-! ## Nodes of a template -/

theorem passes_numberedVariable (hroots : o.KeepsRoots) (s : Schema) (n : Nat) :
    o.Passes (numberedVariable s n) := by
  have hroot : o.schema TypeName.ofVariable = .ok (.root .variable) :=
    schema_eq_ok_iff.2 (hroots .variable)
  constructor
  · rw [validateContent_eq_ok_iff]
    refine ⟨_, hroot, ?_⟩
    rw [numberedVariable, Content.typedVariable, validate]
    rfl
  · refine ⟨_, hroot, ?_⟩
    rw [numberedVariable, Content.typedVariable, checkUndeclared]

theorem passes_emptyAggregate (hs : o.Registered s) (hk : s.kind = .aggregate)
    (template : Option Content) : o.Passes (.aggregate s.name [] template) := by
  constructor
  · exact validateContent_aggregate_iff.2 ⟨s, hs, by rw [hk]; rfl, List.forall_mem_nil _⟩
  · refine ⟨s, schema_eq_ok_iff.2 hs, ?_⟩
    rw [checkUndeclared, checkUndeclaredAll]

theorem passes_emptyList (hroots : o.KeepsRoots) : o.Passes (.list []) := by
  have hroot := hroots .contentElementList
  constructor
  · exact validateContent_list_iff.2 ⟨_, hroot, List.forall_mem_nil _⟩
  · refine ⟨_, schema_eq_ok_iff.2 hroot, ?_⟩
    rw [checkUndeclared, checkUndeclaredAll]

/-- The value that a node has in a slot is the one beside the name of the slot. -/
theorem mem_of_get?_of_names {ds : List SlotDescriptor} {slots : Slots Content} {d : SlotDescriptor}
    (hdistinct : DistinctNames ds) (hnames : slots.map (·.1) = ds.map (·.name)) (hd : d ∈ ds)
    (h : Slots.get? d.name slots = some c) : (d.name, c) ∈ slots := by
  obtain ⟨k, hk, hmem⟩ := Slots.mem_of_get? h
  have hname : k ∈ ds.map (·.name) := hnames ▸ List.mem_map_of_mem hmem
  obtain ⟨e, he, rfl⟩ := List.mem_map.1 hname
  obtain rfl : e = d := List.inj_on_of_nodup_map hdistinct he hd (sameName_iff.1 hk)
  exact hmem

theorem passes_slotted {role : Role} {ds : List SlotDescriptor} {slots : Slots Content}
    (hs : o.Registered s) (hds : o.slots s = .ok ds)
    (hnames : slots.map (·.1) = ds.map (·.name))
    (h : ∀ d ∈ ds, ∀ c, (d.name, c) ∈ slots →
      o.Passes c ∧ o.TypedFor d.type c ∧ o.KeepsFacets s d.name c) :
    o.Passes (.slotted role s.name slots) := by
  have hresolves := (slots_isOk_iff hs).1 ⟨ds, hds⟩
  constructor
  · refine (validateContent_slotted_iff hs).2 ⟨ds, hds, fun d hd => ?_⟩
    have hvalue : ∀ c, Slots.get? d.name slots = some c →
        o.Passes c ∧ o.TypedFor d.type c ∧ o.KeepsFacets s d.name c := fun c hc =>
      h d hd c (mem_of_get?_of_names (distinct_slots hds) hnames hd hc)
    refine (slotHolds_iff hs hresolves).2 ⟨⟨fun hnone => ?_, fun c hc => (hvalue c hc).2⟩,
      fun c hc => (hvalue c hc).1.1⟩
    -- every slot has a value
    have hname : d.name ∈ slots.map (·.1) := hnames ▸ List.mem_map_of_mem hd
    obtain ⟨e, he, hsame⟩ := List.mem_map.1 hname
    have hcontains := Slots.contains_of_mem he (sameName_iff.2 (congrArg foldName hsame))
    rw [Slots.contains_eq_isSome_get?, hnone] at hcontains
    cases hcontains
  · refine ⟨s, schema_eq_ok_iff.2 hs, ?_⟩
    rw [checkUndeclared, checkUndeclaredSlots_eq_ok_iff]
    intro e he
    have hname : e.1 ∈ ds.map (·.name) := hnames ▸ List.mem_map_of_mem he
    obtain ⟨d, hd, hsame⟩ := List.mem_map.1 hname
    obtain ⟨name, hslot⟩ := (mem_slots_iff hds).1 hd
    refine ⟨containsSlot_eq_true_iff.2 ⟨d, hsame ▸ slot?_name hslot⟩, ?_⟩
    exact (h d hd e.2 (by rwa [hsame])).1.2

/-! ## Values in slots -/

theorem typedFor_of_own (hs : o.Registered s) (hname : c.typeName = s.name)
    (hdeclared : c.declaredType? = none) : o.TypedFor s.name c := by
  refine ⟨s, hs, ⟨s, hname ▸ hs, o.compatible_refl s⟩, fun declared h => ?_⟩
  rw [hdeclared] at h
  cases h

theorem typedFor_numberedVariable (hroots : o.KeepsRoots) (hs : o.Registered s)
    (hterm : s.kind.isTerm = true) (n : Nat) : o.TypedFor s.name (numberedVariable s n) := by
  refine ⟨s, hs, ⟨.root .variable, hroots .variable, ?_⟩, fun declared h => ?_⟩
  · simp [compatible, Schema.root, hterm]
  · cases h
    exact ⟨s, hs, o.compatible_refl s⟩

theorem TypedFor.of_find? {type : String} (ht : o.find? type = some t)
    (h : o.TypedFor t.name c) : o.TypedFor type c := by
  obtain ⟨expected, hexpected, hactual⟩ := h
  rw [find?_name ht] at hexpected
  cases hexpected
  exact ⟨t, ht, hactual⟩

theorem keepsFacets_emptyAggregate (hclosed : o.Closed) (hs : o.Registered s) {slot type : String}
    {template : Option Content}
    (h : ∀ u, o.Ancestor s u → ∀ f ∈ u.ownFacets slot, f.AllowsEmpty) :
    o.KeepsFacets s slot (.aggregate type [] template) := by
  intro u hu f hf
  have hallows := h u hu f hf
  refine .inr ?_
  cases f with
  | cardinality least most =>
    obtain rfl : least = 0 := hallows
    exact ⟨[], rfl, Nat.le_refl 0, fun bound _ => Nat.zero_le bound⟩
  | elementType element =>
    obtain ⟨e, he, heq⟩ := List.mem_map.1 hf
    have hknown := hclosed.element (registered_of_ancestor hs hu) (List.mem_of_mem_filter he)
      (by rw [heq]; rfl)
    obtain ⟨expected, hexpected⟩ := Option.isSome_iff_exists.1 hknown
    exact ⟨[], expected, rfl, hexpected, List.forall_mem_nil _⟩
  | permitted values => exact hallows.elim
  | pattern p => exact hallows.elim
  | custom rule => exact hallows.elim

/-! ## Templates -/

/-- A slot of the place is one that its schema has. -/
def Place.Declared (o : Ontology) : Place → Prop
  | .of _ => True
  | .slot s d => ∃ ds, o.slots s = .ok ds ∧ d ∈ ds

/-- The content passes the checks, and it may stand in the place. -/
def Place.Fits (o : Ontology) : Place → Content → Prop
  | .of s, c => o.Passes c ∧ (s.kind.isTerm = true → o.TypedFor s.name c)
  | .slot s d, c => o.Passes c ∧ o.TypedFor d.type c ∧ o.KeepsFacets s d.name c

theorem Outlines.fits (hroots : o.KeepsRoots) (hclosed : o.Closed) (h : Outlines o around place c)
    (hs : o.Registered place.schema) (hplace : place.Declared o)
    (hterms : ∀ t, Relation.ReflTransGen o.Uses place.schema t → o.SlotsOfTerms t) :
    place.Fits o c := by
  induction h with
  | @hole _ s n =>
    exact ⟨passes_numberedVariable hroots s n, fun hterm =>
      typedFor_numberedVariable hroots hs hterm n⟩
  | aggregate hk =>
    exact ⟨passes_emptyAggregate hs hk none, fun _ => typedFor_of_own hs rfl rfl⟩
  | @list _ s hk =>
    have hterm : s.kind.isTerm = false := by rw [hk]; rfl
    exact ⟨passes_emptyList hroots, fun h => absurd (hterm.symm.trans h) Bool.false_ne_true⟩
  | slotted _ _ _ hds hnames _ ih =>
    refine ⟨passes_slotted hs hds hnames fun d hd c hc => ?_, fun _ => typedFor_of_own hs rfl rfl⟩
    exact ih d hd c hc hs ⟨_, hds, hd⟩ hterms
  | @plain _ s t d c ht hk _ ih =>
    obtain ⟨ds, hds, hd⟩ := hplace
    obtain ⟨t', ht', hterm, hfacets⟩ := hterms s .refl ds hds d hd
    obtain rfl : t' = t := Option.some.inj (ht'.symm.trans ht)
    obtain ⟨hpasses, htyped⟩ := ih (registered_of_find? ht) trivial fun u hu =>
      hterms u (.head ⟨d.type, .slot hds hd, ht⟩ hu)
    exact ⟨hpasses, (htyped hterm).of_find? ht, fun u hu f hf => absurd (hfacets u hu f hf).1 hk⟩
  | @untyped _ s t d ht hk _ =>
    obtain ⟨ds, hds, hd⟩ := hplace
    obtain ⟨_, _, _, hfacets⟩ := hterms s .refl ds hds d hd
    have hreg := registered_of_find? ht
    exact ⟨passes_emptyAggregate hreg hk none, (typedFor_of_own hreg rfl rfl).of_find? ht,
      keepsFacets_emptyAggregate hclosed hs fun u hu f hf => (hfacets u hu f hf).2⟩
  | @typed _ s t u d type c ht hk _ _ _ _ =>
    obtain ⟨ds, hds, hd⟩ := hplace
    obtain ⟨_, _, _, hfacets⟩ := hterms s .refl ds hds d hd
    have hreg := registered_of_find? ht
    exact ⟨passes_emptyAggregate hreg hk (some c), (typedFor_of_own hreg rfl rfl).of_find? ht,
      keepsFacets_emptyAggregate hclosed hs fun u hu f hf => (hfacets u hu f hf).2⟩

/-- The template of a schema is valid and has no undeclared slots, if all schemas that its slots and
the elements in them lead to have slots of terms, in an ontology with the basic root types where
every type that is extended, or asked of elements, is known. -/
theorem validateContent_template (hroots : o.KeepsRoots) (hclosed : o.Closed)
    (hs : o.Registered s) (hterms : ∀ t, Relation.ReflTransGen o.Uses s t → o.SlotsOfTerms t)
    (h : o.template s = .ok c) : o.validateContent c = .ok () ∧ o.Declared c :=
  ((outlines_of_template h).fits hroots hclosed hs trivial hterms).1

/-! ## Agent identifiers -/

theorem closed_basic : Vocabulary.basic.Closed :=
  closed_of_layers (by decide)

theorem eq_of_mem_identifier {d : SlotDescriptor} (h : d ∈ identifier.slots) :
    d = ⟨"name", TypeName.string, false⟩ ∨ d = ⟨"addresses", TypeName.sequence, true⟩ ∨
      d = ⟨"resolvers", TypeName.sequence, true⟩ := by
  change d ∈ [⟨"name", TypeName.string, false⟩, ⟨"addresses", TypeName.sequence, true⟩,
    ⟨"resolvers", TypeName.sequence, true⟩] at h
  simpa using h

/-- An identifier leads to texts, to sequences, and to identifiers again. -/
theorem slots_of_uses_identifier
    (h : Relation.ReflTransGen Vocabulary.basic.Uses identifier t) :
    t = identifier ∨ Vocabulary.basic.slots t = .ok [] := by
  have hstring : Vocabulary.basic.slots stringSchema = .ok [] := slots_of_supers_nil rfl (by decide)
  have hsequence : Vocabulary.basic.slots sequenceSchema = .ok [] :=
    slots_of_supers_nil rfl (by decide)
  induction h with
  | refl => exact .inl rfl
  | @tail t u _ huses ih =>
    obtain ⟨type, hask, hu⟩ := huses
    rcases ih with rfl | hnil
    · cases hask with
      | slot hds hd =>
        rw [slots_identifier] at hds
        cases hds
        rcases eq_of_mem_identifier hd with rfl | rfl | rfl
        · obtain rfl := Option.some.inj (registered_string.symm.trans hu)
          exact .inr hstring
        · obtain rfl := Option.some.inj (registered_sequence.symm.trans hu)
          exact .inr hsequence
        · obtain rfl := Option.some.inj (registered_sequence.symm.trans hu)
          exact .inr hsequence
      | element hds hd _ _ he =>
        rw [slots_identifier] at hds
        cases hds
        rw [elementType?, facetsOf_of_supers_nil rfl] at he
        rcases eq_of_mem_identifier hd with rfl | rfl | rfl
        · cases he
        · cases he
          obtain rfl := Option.some.inj (registered_string.symm.trans hu)
          exact .inr hstring
        · cases he
          exact .inl (Option.some.inj hu).symm
    · exact absurd hask (not_asks_of_slots_nil hnil)

theorem eq_of_ancestor_identifier (h : Vocabulary.basic.Ancestor identifier s) :
    s = identifier := by
  have hmem := mem_lineage_of_ancestor registered_identifier h
  rw [lineage_of_supers_nil rfl] at hmem
  simpa using hmem

theorem slotsOfTerms_identifier : Vocabulary.basic.SlotsOfTerms identifier := by
  intro ds hds d hd
  rw [slots_identifier] at hds
  cases hds
  rcases eq_of_mem_identifier hd with rfl | rfl | rfl
  · refine ⟨stringSchema, registered_string, rfl, fun u hu f hf => ?_⟩
    obtain rfl := eq_of_ancestor_identifier hu
    cases hf
  · refine ⟨sequenceSchema, registered_sequence, rfl, fun u hu f hf => ⟨rfl, ?_⟩⟩
    obtain rfl := eq_of_ancestor_identifier hu
    change f ∈ [.elementType TypeName.string, .cardinality 0 none] at hf
    rcases List.mem_pair.1 hf with rfl | rfl
    · trivial
    · rfl
  · refine ⟨sequenceSchema, registered_sequence, rfl, fun u hu f hf => ⟨rfl, ?_⟩⟩
    obtain rfl := eq_of_ancestor_identifier hu
    change f ∈ [.elementType "agent-identifier", .cardinality 0 none] at hf
    rcases List.mem_pair.1 hf with rfl | rfl
    · trivial
    · rfl

/-- The template of an agent identifier passes both checks. -/
theorem validateContent_identifierTemplate :
    Vocabulary.basic.template identifier = .ok identifierTemplate ∧
      Vocabulary.basic.validateContent identifierTemplate = .ok () ∧
        Vocabulary.basic.Declared identifierTemplate := by
  refine ⟨template_identifier, ?_⟩
  refine validateContent_template Vocabulary.find?_root closed_basic registered_identifier
    (fun t ht => ?_) template_identifier
  rcases slots_of_uses_identifier ht with rfl | hnil
  · exact slotsOfTerms_identifier
  · exact slotsOfTerms_of_slots_nil hnil

end Ontology
end AgentContent
