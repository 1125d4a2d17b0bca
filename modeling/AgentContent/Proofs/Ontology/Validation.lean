import AgentContent.Ontology.Validation
import AgentContent.Proofs.Ontology.Slots

/-!
# AgentContent.Proofs.Ontology.Validation

When content passes the checks, as statements about all its parts.

* `SlotHolds`: a declared slot has a fitting value that is valid itself, or may be empty.
* `validateSlots_eq_ok_iff`, `validateAll_eq_ok_iff`, `validateElements_eq_ok_iff`: a row of parts
  is valid when each of them is.
* `checkUndeclaredSlots_eq_ok_iff`, `checkUndeclaredAll_eq_ok_iff`: the same for undeclared slots.
-/

namespace AgentContent
namespace Ontology

section

variable {o : Ontology} {s : Schema} {slots : Slots Content}

/-! ## Validation -/

theorem validateContent_eq_ok_iff {c : Content} :
    o.validateContent c = .ok () ↔ ∃ t, o.schema c.typeName = .ok t ∧ o.validate t c = .ok () := by
  unfold validateContent
  cases o.schema c.typeName with
  | error e => simp
  | ok t => simp

/-- A declared slot has a fitting value that is valid itself and keeps its facets, or is empty where
it may be. -/
def SlotHolds (o : Ontology) (s : Schema) (slots : Slots Content) (d : SlotDescriptor) : Prop :=
  (Slots.get? d.name slots = none ∧ d.optional = true) ∨
    ∃ value actual facets, Slots.get? d.name slots = some value ∧
      o.fitting d value = .ok actual ∧ o.validate actual value = .ok () ∧
      o.facetsOf s d.name = .ok facets ∧ o.checkFacets d.name value facets = .ok ()

theorem validateSlots_cons_eq_ok_iff {d : SlotDescriptor} {ds : List SlotDescriptor} :
    o.validateSlots s slots (d :: ds) = .ok () ↔
      o.SlotHolds s slots d ∧ o.validateSlots s slots ds = .ok () := by
  rw [validateSlots]
  unfold SlotHolds
  split
  · rename_i hget
    by_cases hopt : d.optional = true
    · simp [hget, hopt]
    · simp [hget, hopt]
  · rename_i value hget
    cases hfit : o.fitting d value with
    | error e => simp [hget, hfit]
    | ok actual =>
      cases hvalid : o.validate actual value with
      | error e => simp [hget, hfit, hvalid]
      | ok u =>
        cases hfacets : o.facetsOf s d.name with
        | error e => simp [hget, hvalid]
        | ok facets =>
          cases hcheck : o.checkFacets d.name value facets with
          | error e => simp [hget, hfit, hvalid, hcheck]
          | ok u => simp [hget, hfit, hvalid, hcheck]

theorem validateSlots_eq_ok_iff {ds : List SlotDescriptor} :
    o.validateSlots s slots ds = .ok () ↔ ∀ d ∈ ds, o.SlotHolds s slots d := by
  induction ds with
  | nil => simp [validateSlots]
  | cons d ds ih => rw [validateSlots_cons_eq_ok_iff, ih, List.forall_mem_cons]

theorem validate_slotted_eq_ok_iff {role : Role} {type : String} :
    o.validate s (.slotted role type slots) = .ok () ↔
      ∃ ds, o.slots s = .ok ds ∧ ∀ d ∈ ds, o.SlotHolds s slots d := by
  rw [validate]
  cases o.slots s with
  | error e => simp
  | ok ds => simp [validateSlots_eq_ok_iff]

theorem validateAll_eq_ok_iff {elements : List Content} :
    o.validateAll elements = .ok () ↔ ∀ e ∈ elements, o.validateContent e = .ok () := by
  induction elements with
  | nil => simp [validateAll]
  | cons e rest ih =>
    rw [validateAll, List.forall_mem_cons, ← ih, validateContent]
    cases o.schema e.typeName with
    | error err => simp
    | ok t =>
      simp only
      cases o.validate t e with
      | error err => simp
      | ok u => simp

theorem validateElements_eq_ok_iff {elements : List Content} :
    o.validateElements elements = .ok () ↔
      ∀ e ∈ elements, e.isContentElement = true ∧ o.validateContent e = .ok () := by
  induction elements with
  | nil => simp [validateElements]
  | cons e rest ih =>
    rw [validateElements, List.forall_mem_cons, ← ih, validateContent]
    by_cases he : e.isContentElement = true
    · rw [if_pos he]
      cases o.schema e.typeName with
      | error err => simp
      | ok t =>
        simp only
        cases o.validate t e with
        | error err => simp
        | ok u => simp [he]
    · rw [if_neg he]
      simp [he]

theorem validate_aggregate_eq_ok_iff {type : String} {elements : List Content}
    {template : Option Content} : o.validate s (.aggregate type elements template) = .ok () ↔
      s.kind.isSlotted = false ∧ ∀ e ∈ elements, o.validateContent e = .ok () := by
  rw [validate, ← validateAll_eq_ok_iff]
  cases s.kind.isSlotted with
  | true => simp
  | false => simp

theorem validate_primitive_eq_ok_iff {p : Primitive} : o.validate s (.primitive p) = .ok () ↔
    ∃ actual, o.schema p.typeName = .ok actual ∧ o.compatible actual s = true := by
  rw [validate]
  cases o.schema p.typeName with
  | error e => simp
  | ok actual => simp

theorem validate_list_eq_ok_iff {elements : List Content} :
    o.validate s (.list elements) = .ok () ↔
      ∀ e ∈ elements, e.isContentElement = true ∧ o.validateContent e = .ok () := by
  rw [validate, validateElements_eq_ok_iff]

theorem validate_ire_eq_ok_iff {type : String} {referent proposition : Content} :
    o.validate s (.ire type referent proposition) = .ok () ↔
      proposition.isContentElement = true ∧ o.validateContent referent = .ok () ∧
        o.validateContent proposition = .ok () := by
  rw [validate, validateContent, validateContent]
  by_cases hp : proposition.isContentElement = true
  · rw [if_pos hp]
    cases o.schema referent.typeName with
    | error e => simp
    | ok r =>
      simp only
      cases o.validate r referent with
      | error e => simp
      | ok u => simp [hp]
  · rw [if_neg hp]
    simp [hp]

/-! ## Undeclared slots -/

/-- The content has no undeclared slot, judged by the schema of its own type. -/
def Declared (o : Ontology) (c : Content) : Prop :=
  ∃ t, o.schema c.typeName = .ok t ∧ o.checkUndeclared t c = .ok ()

theorem checkUndeclaredAll_eq_ok_iff {elements : List Content} :
    o.checkUndeclaredAll elements = .ok () ↔ ∀ e ∈ elements, o.Declared e := by
  induction elements with
  | nil => simp [checkUndeclaredAll]
  | cons e rest ih =>
    rw [checkUndeclaredAll, List.forall_mem_cons, ← ih, Declared]
    cases o.schema e.typeName with
    | error err => simp
    | ok t =>
      cases h : o.checkUndeclared t e with
      | error err => simp [h]
      | ok u => simp [h]

theorem checkUndeclaredSlots_eq_ok_iff {slots : List (String × Content)} :
    o.checkUndeclaredSlots s slots = .ok () ↔
      ∀ e ∈ slots, o.containsSlot s e.1 = .ok true ∧ o.Declared e.2 := by
  induction slots with
  | nil => simp [checkUndeclaredSlots]
  | cons e rest ih =>
    obtain ⟨name, value⟩ := e
    rw [checkUndeclaredSlots, List.forall_mem_cons, ← ih, Declared]
    cases hc : o.containsSlot s name with
    | error err => simp
    | ok found =>
      cases found with
      | false => simp
      | true =>
        cases o.schema value.typeName with
        | error err => simp
        | ok t =>
          cases h : o.checkUndeclared t value with
          | error err => simp [h]
          | ok u => simp [h]

theorem checkUndeclared_ire_eq_ok_iff {type : String} {referent proposition : Content} :
    o.checkUndeclared s (.ire type referent proposition) = .ok () ↔ o.Declared proposition := by
  rw [checkUndeclared, Declared]
  cases o.schema proposition.typeName with
  | error e => simp
  | ok p => simp

end

end Ontology
end AgentContent
