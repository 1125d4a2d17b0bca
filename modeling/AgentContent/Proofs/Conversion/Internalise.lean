import AgentContent.Conversion.Internalise
import AgentContent.Proofs.Ontology.Equality

/-!
# AgentContent.Proofs.Conversion.Internalise

The data that content stands for.

* `toFields_cons_eq_ok_iff`, `toDataAll_cons_eq_ok_iff`: the data of the parts.
* `toData_of_same`: equal contents stand for equal data.
-/

namespace AgentContent
namespace Ontology

section

variable {o : Ontology}

theorem toFields_cons_eq_ok_iff {own : Schema} {slots : Slots Content} {d : SlotDescriptor}
    {ds : List SlotDescriptor} {fields : List (String × Json)} :
    o.toFields own slots (d :: ds) = .ok fields ↔
      (Slots.get? d.name slots = none ∧ o.toFields own slots ds = .ok fields) ∨
        ∃ c t element v rest, Slots.get? d.name slots = some c ∧ o.schema d.type = .ok t ∧
          o.elementSchema? own d.name = .ok element ∧ o.toData t element c = .ok v ∧
          o.toFields own slots ds = .ok rest ∧ fields = (d.name, v) :: rest := by
  rw [toFields]
  split
  · rename_i hget
    simp [hget]
  · rename_i c hget
    cases o.schema d.type with
    | error e => simp [hget]
    | ok t =>
      simp only
      cases o.elementSchema? own d.name with
      | error e => simp [hget]
      | ok element =>
        simp only
        cases hv : o.toData t element c with
        | error e => simp [hget, hv]
        | ok v =>
          simp only
          cases o.toFields own slots ds with
          | error e => simp [hget]
          | ok rest => simp [hget, hv, eq_comm]

/-- The schema under which an element is read: the declared one, else that of its own type. -/
def elementOr (o : Ontology) (element : Option Schema) (c : Content) :
    Except OntologyError Schema :=
  match element with
  | some s => .ok s
  | none => o.schema c.typeName

theorem toDataAll_cons_eq_ok_iff {element : Option Schema} {c : Content} {cs : List Content}
    {vs : List Json} : o.toDataAll element (c :: cs) = .ok vs ↔
      ∃ s v rest, o.elementOr element c = .ok s ∧ o.toData s none c = .ok v ∧
        o.toDataAll element cs = .ok rest ∧ vs = v :: rest := by
  unfold elementOr
  cases element with
  | some s =>
    rw [toDataAll]
    cases hv : o.toData s none c with
    | error e => simp [hv]
    | ok v =>
      cases hrest : o.toDataAll (some s) cs with
      | error e => simp
      | ok rest => simp [hv, eq_comm]
  | none =>
    rw [toDataAll]
    cases o.schema c.typeName with
    | error e => simp
    | ok s =>
      cases hv : o.toData s none c with
      | error e => simp [hv]
      | ok v =>
        cases hrest : o.toDataAll none cs with
        | error e => simp [hv]
        | ok rest => simp [hv, eq_comm]

theorem toData_slotted_eq_ok_iff {expected : Schema} {element : Option Schema} {role : Role}
    {type : String} {slots : Slots Content} {v : Json} :
    o.toData expected element (.slotted role type slots) = .ok v ↔
      ∃ own ds fields, o.schema type = .ok own ∧ o.slots own = .ok ds ∧
        o.toFields own slots ds = .ok fields ∧ v = tagObject own expected fields := by
  rw [toData]
  cases o.schema type with
  | error e => simp
  | ok own =>
    simp only
    cases hds : o.slots own with
    | error e => simp [hds]
    | ok ds =>
      simp only
      cases hfields : o.toFields own slots ds with
      | error e => simp [hds, hfields]
      | ok fields => simp [hds, hfields, eq_comm]

theorem toData_aggregate_eq_ok_iff {expected : Schema} {element : Option Schema} {type : String}
    {elements : List Content} {template : Option Content} {v : Json} :
    o.toData expected element (.aggregate type elements template) = .ok v ↔
      ∃ items, o.toDataAll element elements = .ok items ∧ v = .array items := by
  rw [toData]
  cases o.toDataAll element elements with
  | error e => simp
  | ok items => simp [eq_comm]

/-! ## Equal content -/

theorem toDataAll_of_forall₂ {element : Option Schema} {xs ys : List Content}
    (h : List.Forall₂ (fun c d => c.same d = true ∧ ∀ expected element v,
      o.toData expected element c = .ok v ↔ o.toData expected element d = .ok v) xs ys)
    (vs : List Json) : o.toDataAll element xs = .ok vs ↔ o.toDataAll element ys = .ok vs := by
  induction h generalizing vs with
  | nil => exact Iff.rfl
  | @cons c d xs ys hcd _ ih =>
    have hschema : o.elementOr element c = o.elementOr element d := by
      simp only [elementOr, Content.typeName_of_same hcd.1]
    rw [toDataAll_cons_eq_ok_iff, toDataAll_cons_eq_ok_iff]
    simp only [hschema, hcd.2, ih]

theorem toFields_of_rel {own : Schema} {xs ys : Slots Content}
    (h : ∀ name, Option.Rel (fun c d => c.same d = true ∧ ∀ expected element v,
      o.toData expected element c = .ok v ↔ o.toData expected element d = .ok v)
      (Slots.get? name xs) (Slots.get? name ys))
    (ds : List SlotDescriptor) (fields : List (String × Json)) :
    o.toFields own xs ds = .ok fields ↔ o.toFields own ys ds = .ok fields := by
  induction ds generalizing fields with
  | nil => rw [toFields, toFields]
  | cons d ds ih =>
    rw [toFields_cons_eq_ok_iff, toFields_cons_eq_ok_iff]
    have hd := h d.name
    generalize Slots.get? d.name xs = x at hd
    generalize Slots.get? d.name ys = y at hd
    cases hd with
    | none => simp only [ih]
    | some hcd => simp [ih, hcd.2]

/-- Equal contents stand for equal data, or neither stands for any. -/
theorem toData_of_same {c d : Content} (h : c.same d = true) (hc : c.Each false Content.Keyed)
    (hd : d.Each false Content.Keyed) : ∀ expected element v,
      o.toData expected element c = .ok v ↔ o.toData expected element d = .ok v := by
  refine Content.same_induction (M := fun c d => ∀ expected element v,
    o.toData expected element c = .ok v ↔ o.toData expected element d = .ok v)
    ?primitive ?slotted ?aggregate ?«open» ?ire ?list h hc hd
  case primitive =>
    intro p expected element v
    exact Iff.rfl
  case slotted =>
    intro role type xs ys _ _ hrel expected element v
    simp only [toData_slotted_eq_ok_iff, toFields_of_rel hrel]
  case aggregate =>
    intro type xs ys template template' hall expected element v
    simp only [toData_aggregate_eq_ok_iff, toDataAll_of_forall₂ hall]
  case «open» =>
    intro xs ys isMeta _ _ _ expected element v
    simp [toData]
  case ire =>
    intro type r r' p p' _ _ expected element v
    simp [toData]
  case list =>
    intro xs ys _ expected element v
    simp [toData]

end

end Ontology
end AgentContent
