import AgentContent.Proofs.Ontology.Extension

/-!
# AgentContent.Proofs.Ontology.Abstraction

Valid content stays valid when a variable takes the place of one of its terms, however deep the term
is. This is how questions are made from statements.

* `KeepsRoots`: the root types are the basic ones, as in all that keeps the basic vocabulary.
* `Abstracts`: the places at which a term may give way, and the ways down to them.
* `Abstracts.keepsFacet`: the values on the way keep the facets that they have kept.
* `validateContent_slotted_iff` and the like: when a node is valid, in terms of its parts.
* `validateContent_replace`: a slot whose value gives way to one that fits there.
* `validateContent_of_abstracts`: where variables are of their own kind and no rule of an
  application has a say, the content stays valid.
-/

namespace AgentContent

/-- A variable that declares no type for its values. -/
def Content.IsFree (c : Content) : Prop :=
  ∃ slots isMeta, c = .variable slots isMeta ∧ valueType? slots = none

namespace Ontology

variable {o : Ontology} {s : Schema} {x c c' : Content} {f : Facet}

/-- The root types are those of the basic vocabulary. -/
def KeepsRoots (o : Ontology) : Prop :=
  ∀ k : SchemaKind, o.find? k.rootName = some (.root k)

theorem Keeps.keepsRoots (h : o.Keeps Vocabulary.basic) : o.KeepsRoots :=
  fun k => h _ _ (Vocabulary.find?_root k)

/-- The second content is the first one with `x` in the place of one term: of the value of a slot
whose type is one of terms, of an element of an aggregate, or of what an expression identifies. The
term may be below slots that are declared, elements, items of lists and parts of expressions. -/
inductive Abstracts (o : Ontology) (x : Content) : Content → Content → Prop where
  | slot {role : Role} {type name : String} {slots : Slots Content} {s expected : Schema}
    {d : SlotDescriptor} {value : Content} (hs : o.find? type = some s)
    (hd : o.slot? s name = .ok (some d)) (hexpected : o.find? d.type = some expected)
    (hterm : expected.kind.isTerm = true) (hv : Slots.get? name slots = some value) :
    Abstracts o x (.slotted role type slots)
      (.slotted role type (Slots.replace name x slots))
  | element {type : String} {before after : List Content} {e : Content}
    {template : Option Content} : Abstracts o x (.aggregate type (before ++ e :: after) template)
      (.aggregate type (before ++ x :: after) template)
  | referent {type : String} {referent proposition : Content} :
    Abstracts o x (.ire type referent proposition) (.ire type x proposition)
  | inSlot {role : Role} {type name : String} {slots : Slots Content} {s : Schema}
    {value value' : Content} (hs : o.find? type = some s) (hd : o.Declares s name)
    (hv : Slots.get? name slots = some value) (h : Abstracts o x value value') :
    Abstracts o x (.slotted role type slots)
      (.slotted role type (Slots.replace name value' slots))
  | inElement {type : String} {before after : List Content} {e e' : Content}
    {template : Option Content} (h : Abstracts o x e e') :
    Abstracts o x (.aggregate type (before ++ e :: after) template)
      (.aggregate type (before ++ e' :: after) template)
  | inItem {before after : List Content} {e e' : Content} (h : Abstracts o x e e') :
    Abstracts o x (.list (before ++ e :: after)) (.list (before ++ e' :: after))
  | inReferent {type : String} {referent referent' proposition : Content}
    (h : Abstracts o x referent referent') :
    Abstracts o x (.ire type referent proposition) (.ire type referent' proposition)
  | inProposition {type : String} {referent proposition proposition' : Content}
    (h : Abstracts o x proposition proposition') :
    Abstracts o x (.ire type referent proposition) (.ire type referent proposition')

/-! ## What the nodes on the way keep -/

theorem Abstracts.typeName (h : o.Abstracts x c c') : c'.typeName = c.typeName := by
  cases h <;> rfl

theorem Abstracts.isOpen (h : o.Abstracts x c c') : isOpen c' = isOpen c := by
  cases h <;> rfl

theorem Abstracts.declaredType? (h : o.Abstracts x c c') : c'.declaredType? = none := by
  cases h <;> rfl

theorem Abstracts.isContentElement (h : o.Abstracts x c c') :
    c'.isContentElement = c.isContentElement := by
  cases h with
  | @slot role => cases role <;> rfl
  | @inSlot role => cases role <;> rfl
  | _ => rfl

/-- A value without elements that is no primitive keeps facets of an application only. -/
theorem isCustom_of_accepts (ha : o.Accepts c f) (haggregate : c.aggregate? = none)
    (hprimitive : c.primitive? = none) (hstring : c.string? = none) : f.isCustom = true := by
  cases f with
  | custom rule => rfl
  | cardinality least most => simp [Accepts, haggregate] at ha
  | elementType type => simp [Accepts, haggregate] at ha
  | permitted values => simp [Accepts, hprimitive] at ha
  | pattern p => simp [Accepts, hstring] at ha

/-- An element may give way to one of its type, or to one that is not known. -/
theorem Accepts.element {type : String} {before after : List Content} {e e' : Content}
    {template : Option Content} (hf : f.isCustom = false)
    (ha : o.Accepts (.aggregate type (before ++ e :: after) template) f)
    (he : Ontology.isOpen e' = true ∨
      (Ontology.isOpen e' = Ontology.isOpen e ∧ e'.typeName = e.typeName)) :
    o.Accepts (.aggregate type (before ++ e' :: after) template) f := by
  cases f with
  | cardinality least most =>
    obtain ⟨_, helements, hleast, hmost⟩ := ha
    cases helements
    refine ⟨_, rfl, ?_, fun bound hbound => ?_⟩
    · simpa using hleast
    · simpa using hmost bound hbound
  | elementType element =>
    obtain ⟨_, expected, helements, hexpected, hall⟩ := ha
    cases helements
    refine ⟨_, expected, rfl, hexpected, forall_mem_replace hall fun hknown => ?_⟩
    rcases he with hopen | ⟨hopen, hname⟩
    · rw [hopen] at hknown
      cases hknown
    · rw [hname]
      exact hall e (by simp) (hopen ▸ hknown)
  | permitted values => simp [Accepts, Content.primitive?] at ha
  | pattern p => simp [Accepts, Content.string?] at ha
  | custom rule => cases hf

theorem Abstracts.keepsFacet (hx : Ontology.isOpen x = true) (h : o.Abstracts x c c')
    (hf : f.isCustom = false) (hk : Ontology.isOpen c = true ∨ o.Accepts c f) :
    Ontology.isOpen c' = true ∨ o.Accepts c' f := by
  rw [h.isOpen]
  refine hk.imp_right fun ha => ?_
  cases h with
  | element => exact ha.element hf (.inl hx)
  | inElement he => exact ha.element hf (.inr ⟨he.isOpen, he.typeName⟩)
  | _ =>
    rw [isCustom_of_accepts ha rfl rfl rfl] at hf
    cases hf

/-! ## Valid nodes -/

theorem validateContent_slotted_iff {role : Role} {type : String} {slots : Slots Content}
    (hs : o.find? type = some s) : o.validateContent (.slotted role type slots) = .ok () ↔
      ∃ ds, o.slots s = .ok ds ∧ ∀ d ∈ ds, o.SlotHolds s slots d := by
  rw [validateContent, Content.typeName, schema_eq_ok_iff.2 hs, validate_slotted_eq_ok_iff]

theorem validateContent_aggregate_iff {type : String} {elements : List Content}
    {template : Option Content} : o.validateContent (.aggregate type elements template) = .ok () ↔
      ∃ t, o.find? type = some t ∧ t.kind.isSlotted = false ∧
        ∀ e ∈ elements, o.validateContent e = .ok () := by
  simp only [validateContent_eq_ok_iff (c := .aggregate type elements template),
    validate_aggregate_eq_ok_iff, schema_eq_ok_iff, Content.typeName]

theorem validateContent_list_iff {elements : List Content} :
    o.validateContent (.list elements) = .ok () ↔
      ∃ t, o.find? TypeName.contentElementList = some t ∧
        ∀ e ∈ elements, e.isContentElement = true ∧ o.validateContent e = .ok () := by
  simp only [validateContent_eq_ok_iff (c := .list elements), validate_list_eq_ok_iff,
    schema_eq_ok_iff, Content.typeName]

theorem validateContent_ire_iff {type : String} {referent proposition : Content} :
    o.validateContent (.ire type referent proposition) = .ok () ↔
      ∃ t, o.find? type = some t ∧ proposition.isContentElement = true ∧
        o.validateContent referent = .ok () ∧ o.validateContent proposition = .ok () := by
  simp only [validateContent_eq_ok_iff (c := .ire type referent proposition),
    validate_ire_eq_ok_iff, schema_eq_ok_iff, Content.typeName]

/-! ## Slots -/

/-- A value gives way to a valid one that fits the slot wherever the former value does. -/
theorem validateContent_replace {role : Role} {type name : String} {slots : Slots Content}
    {value value' : Content} (hs : o.find? type = some s)
    (hget : Slots.get? name slots = some value)
    (h : o.validateContent (.slotted role type slots) = .ok ())
    (hvalid : o.validateContent value' = .ok ())
    (hfits : ∀ d, o.slot? s name = .ok (some d) → o.TypedFor d.type value →
      o.KeepsFacets s d.name value → o.TypedFor d.type value' ∧ o.KeepsFacets s d.name value') :
    o.validateContent (.slotted role type (Slots.replace name value' slots)) = .ok () := by
  have hreg := registered_of_find? hs
  have hcontains : Slots.contains name slots = true := by
    rw [Slots.contains_eq_isSome_get?, hget]
    rfl
  obtain ⟨ds, hds, hholds⟩ := (validateContent_slotted_iff hs).1 h
  have hr := (slots_isOk_iff hreg).1 ⟨ds, hds⟩
  refine (validateContent_slotted_iff hs).2 ⟨ds, hds, fun d hd => ?_⟩
  have hslot := (slotHolds_iff hreg hr).1 (hholds d hd)
  rw [slotHolds_iff hreg hr]
  cases hname : sameName name d.name with
  | true =>
    obtain ⟨n, hn⟩ := (mem_slots_iff hds).1 hd
    have hdescriptor : o.slot? s name = .ok (some d) := by rw [slot?_congr hname, slot?_name hn]
    obtain ⟨htyped, hfacets⟩ := hslot.1.2 value (by rw [← Slots.get?_congr hname, hget])
    have hget' := Slots.get?_replace_of_same hname hcontains value'
    simp only [SlotFits, hget', reduceCtorEq, false_implies, Option.some.injEq, forall_eq',
      true_and]
    exact ⟨hfits d hdescriptor htyped hfacets, hvalid⟩
  | false =>
    simp only [SlotFits, Slots.get?_replace_of_ne hname]
    exact hslot

/-! ## Abstraction -/

theorem isOpen_of_isFree (hx : x.IsFree) : isOpen x = true := by
  obtain ⟨slots, isMeta, rfl, -⟩ := hx
  rfl

theorem validateContent_of_isFree (hroots : o.KeepsRoots) (hx : x.IsFree) :
    o.validateContent x = .ok () := by
  obtain ⟨slots, isMeta, rfl, hnone⟩ := hx
  have hroot : o.schema TypeName.ofVariable = .ok (.root .variable) :=
    schema_eq_ok_iff.2 (hroots .variable)
  simp only [validateContent, Content.typeName, hroot, validate, hnone]

/-- A variable that declares no type fits every slot of terms. -/
theorem typedFor_of_isFree (hroots : o.KeepsRoots) (hx : x.IsFree) {type : String}
    {expected : Schema} (hexpected : o.find? type = some expected)
    (hterm : expected.kind.isTerm = true) : o.TypedFor type x := by
  obtain ⟨slots, isMeta, rfl, hnone⟩ := hx
  refine ⟨expected, hexpected, ⟨.root .variable, hroots .variable, ?_⟩, fun declared h => ?_⟩
  · simp [compatible, Schema.root, hterm]
  · rw [Content.declaredType?, hnone] at h
    cases h

theorem Abstracts.keepsFacets (hplain : o.Plain) (hs : o.Registered s)
    (hx : Ontology.isOpen x = true) (h : o.Abstracts x c c') {slot : String}
    (hk : o.KeepsFacets s slot c) : o.KeepsFacets s slot c' := by
  intro t ht f hf
  have hcustom := (hplain t.name t (registered_of_ancestor hs ht)).ownFacets hf
  exact h.keepsFacet hx hcustom (hk t ht f hf)

theorem Abstracts.typedFor (h : o.Abstracts x c c') {type : String} (ht : o.TypedFor type c) :
    o.TypedFor type c' := by
  obtain ⟨expected, hexpected, hactual, -⟩ := ht
  refine ⟨expected, hexpected, h.typeName ▸ hactual, fun declared hd => ?_⟩
  rw [h.declaredType?] at hd
  cases hd

/-- Valid content stays valid when a variable that declares no type takes the place of a term in
it. -/
theorem validateContent_of_abstracts (hroots : o.KeepsRoots) (hplain : o.Plain) (hx : x.IsFree)
    (h : o.Abstracts x c c') (hv : o.validateContent c = .ok ()) :
    o.validateContent c' = .ok () := by
  have hfree := validateContent_of_isFree hroots hx
  have hopen := isOpen_of_isFree hx
  induction h with
  | slot hs hd hexpected hterm hget =>
    refine validateContent_replace hs hget hv hfree fun e he _ _ => ?_
    rw [hd] at he
    cases he
    exact ⟨typedFor_of_isFree hroots hx hexpected hterm, fun _ _ _ _ => .inl hopen⟩
  | inSlot hs hd hget hinner ih =>
    have hvalue := (validateContent_iff_part.1 hv).2 _ (.slot hs hd hget)
    refine validateContent_replace hs hget hv (ih hvalue) fun e _ htyped hfacets => ?_
    exact ⟨hinner.typedFor htyped,
      hinner.keepsFacets hplain (registered_of_find? hs) hopen hfacets⟩
  | element =>
    obtain ⟨t, ht, hkind, hall⟩ := validateContent_aggregate_iff.1 hv
    exact validateContent_aggregate_iff.2 ⟨t, ht, hkind, forall_mem_replace hall hfree⟩
  | inElement _ ih =>
    obtain ⟨t, ht, hkind, hall⟩ := validateContent_aggregate_iff.1 hv
    have hvalid := ih (hall _ (List.mem_append_right _ List.mem_cons_self))
    exact validateContent_aggregate_iff.2 ⟨t, ht, hkind, forall_mem_replace hall hvalid⟩
  | inItem hinner ih =>
    obtain ⟨t, ht, hall⟩ := validateContent_list_iff.1 hv
    obtain ⟨helement, hvalid⟩ := hall _ (List.mem_append_right _ List.mem_cons_self)
    exact validateContent_list_iff.2
      ⟨t, ht, forall_mem_replace hall ⟨hinner.isContentElement ▸ helement, ih hvalid⟩⟩
  | referent =>
    obtain ⟨t, ht, helement, -, hproposition⟩ := validateContent_ire_iff.1 hv
    exact validateContent_ire_iff.2 ⟨t, ht, helement, hfree, hproposition⟩
  | inReferent _ ih =>
    obtain ⟨t, ht, helement, hreferent, hproposition⟩ := validateContent_ire_iff.1 hv
    exact validateContent_ire_iff.2 ⟨t, ht, helement, ih hreferent, hproposition⟩
  | inProposition hinner ih =>
    obtain ⟨t, ht, helement, hreferent, hproposition⟩ := validateContent_ire_iff.1 hv
    exact validateContent_ire_iff.2
      ⟨t, ht, hinner.isContentElement ▸ helement, hreferent, ih hproposition⟩

/-- Gauges whose level is asked for, in a list of statements. -/
theorem validateContent_askedGauge : gauges.validateContent (.list [gaugeAtTwo]) = .ok () ∧
    gauges.Abstracts (.freeVariable "x" false) (.list [gaugeAtTwo])
      (.list [.slotted .predicate "gauge" [("Level", .freeVariable "x" false)]]) ∧
    gauges.validateContent
      (.list [.slotted .predicate "gauge" [("Level", .freeVariable "x" false)]]) = .ok () := by
  have hkeeps : gauges.Keeps Vocabulary.basic :=
    keeps_of_own (List.append_nil _) (List.forall_mem_singleton.2 rfl)
  have hfree : (Content.freeVariable "x" false).IsFree := ⟨_, _, rfl, rfl⟩
  have hlevel : gauges.slot? gauge "level" = .ok (some ⟨"level", TypeName.integer, false⟩) :=
    slot?_gauge rfl
  have hgauge : gauges.Abstracts (.freeVariable "x" false) gaugeAtTwo
      (.slotted .predicate "gauge" [("Level", .freeVariable "x" false)]) :=
    .slot rfl hlevel rfl rfl rfl
  have hlist : gauges.validateContent (.list [gaugeAtTwo]) = .ok () :=
    validateContent_list_iff.2
      ⟨_, rfl, List.forall_mem_singleton.2 ⟨rfl, validateContent_gaugeAtTwo⟩⟩
  have habstracts : gauges.Abstracts (.freeVariable "x" false) (.list ([] ++ [gaugeAtTwo]))
      (.list ([] ++ [.slotted .predicate "gauge" [("Level", .freeVariable "x" false)]])) :=
    .inItem hgauge
  exact ⟨hlist, habstracts,
    validateContent_of_abstracts hkeeps.keepsRoots plain_gauges hfree habstracts hlist⟩

end Ontology
end AgentContent
