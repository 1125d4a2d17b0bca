import AgentContent.Proofs.Content.Json
import AgentContent.Proofs.Conversion.Externalise
import AgentContent.Proofs.Conversion.Internalise

/-!
# AgentContent.Proofs.Conversion.RoundTrip

What data gives and what passes the checks stands for data again.

* `IsInstance`: the schema, the slots and the valid parts of a value with slots.
* `exists_toData`: content that is built of schemas, valid, and without infinite floats has data.
-/

namespace AgentContent
namespace Ontology

section

variable {o : Ontology} {s : Schema} {c : Content}

theorem keyed_of_built (h : Built o c) : c.Keyed := by
  cases c with
  | slotted role type slots => exact h.1
  | «variable» slots isMeta => exact h.elim
  | _ => trivial

/-- Content of known values has no templates, so that nothing more is asked of them. -/
theorem each_with_templates {P : Content → Prop} (hb : c.Each false (Built o))
    (h : c.Each false P) : c.Each true P := by
  induction c using Content.induction with
  | primitive p => exact .of_primitive h.self
  | slotted role type slots ih =>
    exact .of_slotted h.self fun e he => ih e he (hb.slot he) (h.slot he)
  | aggregate type elements template ih _ =>
    refine .of_aggregate h.self (fun e he => ih e he (hb.element he) (h.element he)) ?_
    intro _ t ht
    rw [hb.self.1] at ht
    cases ht
  | «variable» slots isMeta _ => exact hb.self.elim
  | ire type referent proposition _ _ => exact hb.self.elim
  | list elements _ => exact hb.self.elim

theorem finiteVariable_of_built (h : Built o c) : c.FiniteVariable := by
  cases c with
  | «variable» slots isMeta => exact h.elim
  | _ => trivial

/-! ## Valid parts -/

theorem checkFacets_eq_ok_iff {slot : String} {facets : List Facet} :
    o.checkFacets slot c facets = .ok () ↔ ∀ f ∈ facets, o.checkFacet slot c f = .ok () := by
  induction facets with
  | nil => simp [checkFacets]
  | cons f rest ih =>
    rw [checkFacets, List.forall_mem_cons, ← ih]
    cases o.checkFacet slot c f with
    | error e => simp
    | ok u => simp

theorem elementType_mem {facets : List Facet} {type : String}
    (h : elementTypeIn? facets = some type) : .elementType type ∈ facets := by
  induction facets with
  | nil => cases h
  | cons f rest ih =>
    unfold elementTypeIn? at h
    split at h
    · cases h
    · rename_i heq
      cases heq
      cases h
      exact List.mem_cons_self
    · rename_i heq
      cases heq
      exact List.mem_cons_of_mem _ (ih h)

theorem schema_of_checkFacet {slot type : String} (ho : isOpen c = false)
    (h : o.checkFacet slot c (.elementType type) = .ok ()) : ∃ t, o.schema type = .ok t := by
  simp only [checkFacet, ho, Bool.false_eq_true, if_false] at h
  split at h
  · cases h
  · split at h
    · cases h
    · rename_i t ht
      exact ⟨t, ht⟩

/-- A value that holds in a declared slot is valid, and what the slot says of its elements is
known. -/
theorem SlotHolds.value {slots : Slots Content} {d : SlotDescriptor} (h : o.SlotHolds s slots d)
    (hget : Slots.get? d.name slots = some c) (ho : isOpen c = false) :
    o.validateContent c = .ok () ∧ (∃ t, o.schema d.type = .ok t) ∧
      ∃ element, o.elementSchema? s d.name = .ok element := by
  rcases h with ⟨hnone, -⟩ | ⟨value, actual, facets, hvalue, hfit, hvalid, hfacets, hcheck⟩
  · rw [hget] at hnone
    cases hnone
  · rw [hget] at hvalue
    cases hvalue
    obtain ⟨expected, hexpected, hactual, -⟩ := fitting_eq_ok_iff.1 hfit
    refine ⟨validateContent_eq_ok_iff.2 ⟨actual, hactual, hvalid⟩, ⟨expected, hexpected⟩, ?_⟩
    unfold elementSchema? elementType?
    rw [hfacets]
    simp only
    cases helement : elementTypeIn? facets with
    | none => exact ⟨none, rfl⟩
    | some type =>
      obtain ⟨t, ht⟩ := schema_of_checkFacet ho
        (checkFacets_eq_ok_iff.1 hcheck _ (elementType_mem helement))
      simp only [ht]
      exact ⟨some t, rfl⟩

theorem isOpen_of_built (h : Built o c) : isOpen c = false := by
  cases c with
  | «variable» slots isMeta => exact h.elim
  | ire type referent proposition => exact h.elim
  | _ => rfl

/-- A value with slots is an instance of a schema with such slots, and so are its parts. -/
structure IsInstance (o : Ontology) (role : Role) (type : String) (slots : Slots Content)
    (s : Schema) (ds : List SlotDescriptor) : Prop where
  find : o.find? type = some s
  isSlotted : s.kind.isSlotted = true
  role : role = roleOfKind s.kind
  declared : o.slots s = .ok ds
  distinct : Slots.Distinct slots
  holds : ∀ d ∈ ds, ∀ c, Slots.get? d.name slots = some c → o.validateContent c = .ok () ∧
    (∃ t, o.schema d.type = .ok t) ∧ ∃ element, o.elementSchema? s d.name = .ok element
  valid : ∀ e ∈ slots, o.validateContent e.2 = .ok ()

theorem exists_isInstance {role : Role} {type : String} {slots : Slots Content}
    (hb : (Content.slotted role type slots).Each false (Built o))
    (hv : o.validateContent (.slotted role type slots) = .ok ()) :
    ∃ s ds, IsInstance o role type slots s ds := by
  obtain ⟨hdistinct, s, hs, hk, hrole, hdeclared⟩ := hb.self
  obtain ⟨t, ht, hvalid⟩ := validateContent_eq_ok_iff.1 hv
  rw [Content.typeName, schema_eq_ok_iff, hs] at ht
  cases ht
  obtain ⟨ds, hds, hholds⟩ := validate_slotted_eq_ok_iff.1 hvalid
  have hvalue : ∀ d ∈ ds, ∀ c, Slots.get? d.name slots = some c →
      o.validateContent c = .ok () ∧ (∃ t, o.schema d.type = .ok t) ∧
        ∃ element, o.elementSchema? s d.name = .ok element := by
    intro d hd c hget
    obtain ⟨k, -, hmem⟩ := Slots.mem_of_get? hget
    exact (hholds d hd).value hget (isOpen_of_built (hb.slot hmem).self)
  refine ⟨s, ds, hs, hk, hrole, hds, hdistinct, hvalue, ?_⟩
  intro e he
  obtain ⟨ds', d, hds', hd, hname⟩ := hdeclared e he
  rw [hds] at hds'
  cases hds'
  exact (hvalue d hd e.2 (Slots.get?_of_mem hdistinct he (by rw [hname]; exact sameName_refl _))).1

theorem valid_elements {type : String} {elements : List Content} {template : Option Content}
    (hv : o.validateContent (.aggregate type elements template) = .ok ()) :
    ∀ c ∈ elements, o.validateContent c = .ok () := by
  obtain ⟨t, -, hvalid⟩ := validateContent_eq_ok_iff.1 hv
  exact (validate_aggregate_eq_ok_iff.1 hvalid).2

/-! ## Data -/

theorem exists_toDataAll {element : Option Schema} {elements : List Content}
    (h : ∀ c ∈ elements, (∃ s, o.schema c.typeName = .ok s) ∧
      ∀ s, ∃ v, o.toData s none c = .ok v) :
    ∃ vs, o.toDataAll element elements = .ok vs := by
  induction elements with
  | nil => exact ⟨[], by rw [toDataAll]⟩
  | cons c rest ih =>
    obtain ⟨⟨⟨t, ht⟩, hdata⟩, hrest⟩ := List.forall_mem_cons.1 h
    obtain ⟨vs, hvs⟩ := ih hrest
    have hschema : ∃ s, o.elementOr element c = .ok s := by
      cases element with
      | some s => exact ⟨s, rfl⟩
      | none => exact ⟨t, ht⟩
    obtain ⟨s, hs⟩ := hschema
    obtain ⟨v, hv⟩ := hdata s
    exact ⟨v :: vs, toDataAll_cons_eq_ok_iff.2 ⟨s, v, vs, hs, hv, hvs, rfl⟩⟩

theorem exists_toFields {own : Schema} {slots : Slots Content} {ds : List SlotDescriptor}
    (h : ∀ d ∈ ds, ∀ c, Slots.get? d.name slots = some c → ∃ t element v,
      o.schema d.type = .ok t ∧ o.elementSchema? own d.name = .ok element ∧
        o.toData t element c = .ok v) :
    ∃ fields, o.toFields own slots ds = .ok fields := by
  induction ds with
  | nil => exact ⟨[], by rw [toFields]⟩
  | cons d ds ih =>
    obtain ⟨hd, hrest⟩ := List.forall_mem_cons.1 h
    obtain ⟨fields, hfields⟩ := ih hrest
    cases hget : Slots.get? d.name slots with
    | none => exact ⟨fields, toFields_cons_eq_ok_iff.2 (.inl ⟨hget, hfields⟩)⟩
    | some c =>
      obtain ⟨t, element, v, ht, helement, hv⟩ := hd c hget
      exact ⟨(d.name, v) :: fields, toFields_cons_eq_ok_iff.2
        (.inr ⟨c, t, element, v, fields, hget, ht, helement, hv, hfields, rfl⟩)⟩

theorem exists_toData_primitive {p : Primitive} (h : Content.Finite (.primitive p)) :
    ∃ v, p.toData = .ok v := by
  cases p with
  | float x =>
    have hx : x.isFinite = true := h
    exact ⟨.float x, by rw [Primitive.toData, if_pos hx]⟩
  | _ => exact ⟨_, rfl⟩

/-- Content that is built of schemas, valid, and without floats that are infinite or no number has
data, whatever is expected of it. -/
theorem exists_toData (hb : c.Each false (Built o)) (hv : o.validateContent c = .ok ())
    (hf : c.Each false Content.Finite) (expected : Schema) (element : Option Schema) :
    ∃ v, o.toData expected element c = .ok v := by
  induction c using Content.induction generalizing expected element with
  | primitive p =>
    rw [toData]
    exact exists_toData_primitive hf.self
  | slotted role type slots ih =>
    obtain ⟨s, ds, hi⟩ := exists_isInstance hb hv
    have hfields : ∃ fields, o.toFields s slots ds = .ok fields := by
      refine exists_toFields ?_
      intro d hd c hget
      obtain ⟨hvalid, ⟨t, ht⟩, element, helement⟩ := hi.holds d hd c hget
      obtain ⟨k, -, hmem⟩ := Slots.mem_of_get? hget
      obtain ⟨v, hdata⟩ := ih (k, c) hmem (hb.slot hmem) hvalid (hf.slot hmem) t element
      exact ⟨t, element, v, ht, helement, hdata⟩
    obtain ⟨fields, hfields⟩ := hfields
    exact ⟨_, toData_slotted_eq_ok_iff.2
      ⟨s, ds, fields, schema_eq_ok_iff.2 hi.find, hi.declared, hfields, rfl⟩⟩
  | aggregate type elements template ih _ =>
    have hitems : ∃ vs, o.toDataAll element elements = .ok vs := by
      refine exists_toDataAll ?_
      intro c hc
      have hvalid := valid_elements hv c hc
      obtain ⟨t, ht, -⟩ := validateContent_eq_ok_iff.1 hvalid
      exact ⟨⟨t, ht⟩, fun s => ih c hc (hb.element hc) hvalid (hf.element hc) s none⟩
    obtain ⟨vs, hvs⟩ := hitems
    exact ⟨.array vs, toData_aggregate_eq_ok_iff.2 ⟨vs, hvs, rfl⟩⟩
  | «variable» slots isMeta _ => exact hb.self.elim
  | ire type referent proposition _ _ => exact hb.self.elim
  | list elements _ => exact hb.self.elim

end

end Ontology
end AgentContent
