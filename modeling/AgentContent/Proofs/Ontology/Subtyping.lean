import AgentContent.Proofs.Ontology.Compatibility

/-!
# AgentContent.Proofs.Ontology.Subtyping

Values of a type are values of what it extends. Validation under an ancestor looks up slots and
facets on a part of the lineage only, so it can ask for nothing else, unless a slot is declared anew
on the way down.

* `KeepsFacets.ancestor`: an ancestor has no facets beyond those that the schema has.
* `SlotHolds.ancestor`: a slot that is filled for the schema is filled for an ancestor.
* `KeepsSlots`: the slots of the ancestor are those of the schema, as they were declared.
* `validate_of_descendsFrom`: a valid value of the schema is a valid value of the ancestor.
-/

namespace AgentContent
namespace Ontology

variable {o : Ontology} {s t : Schema} {slots : Slots Content}

theorem KeepsFacets.ancestor {slot : String} {value : Content}
    (h : o.KeepsFacets s slot value) (ht : o.Ancestor s t) : o.KeepsFacets t slot value :=
  fun u hu => h u (ht.trans hu)

theorem SlotHolds.ancestor {d : SlotDescriptor} (hs : o.Registered s) (hr : Resolves o s)
    (ht : o.Ancestor s t) (h : o.SlotHolds s slots d) : o.SlotHolds t slots d := by
  obtain ⟨⟨hempty, hvalue⟩, hvalid⟩ := (slotHolds_iff hs hr).1 h
  refine (slotHolds_iff (registered_of_ancestor hs ht) (hr.ancestor ht)).2
    ⟨⟨hempty, fun value hget => ?_⟩, hvalid⟩
  obtain ⟨htyped, hfacets⟩ := hvalue value hget
  exact ⟨htyped, hfacets.ancestor ht⟩

/-- Each slot that the second schema has with what it extends is a slot of the first one too, under
the same descriptor. -/
def KeepsSlots (o : Ontology) (s t : Schema) : Prop :=
  ∀ ds, o.slots t = .ok ds → ∀ d ∈ ds, o.slot? s d.name = .ok (some d)

/-- A concept, an agent action or a predicate that is valid under a schema is valid under every
schema that this one descends from with its slots as they were. -/
theorem validate_of_descendsFrom (hs : o.Registered s) (ht : o.Registered t)
    (hdescends : o.descendsFrom s t.name = true) (hkeeps : o.KeepsSlots s t) {role : Role}
    {type : String} (h : o.validate s (.slotted role type slots) = .ok ()) :
    o.validate t (.slotted role type slots) = .ok () := by
  have hancestor := (descendsFrom_iff_ancestor hs ht).1 hdescends
  obtain ⟨ds, hds, hholds⟩ := validate_slotted_eq_ok_iff.1 h
  have hr := (slots_isOk_iff hs).1 ⟨ds, hds⟩
  obtain ⟨es, hes⟩ := (hr.ancestor hancestor).slots_eq_ok
  refine validate_slotted_eq_ok_iff.2 ⟨es, hes, fun e he => ?_⟩
  have hslot := (mem_slots_iff hds).2 ⟨e.name, hkeeps es hes e he⟩
  exact (hholds e hslot).ancestor hs hr hancestor

def parcel : Schema where
  name := "parcel"
  kind := .concept
  slots := [⟨"weight", TypeName.integer, false⟩]
  facets := [("Weight", .permitted [.integer 1, .integer 2])]

def express : Schema where
  name := "express"
  kind := .concept
  supers := ["Parcel"]
  slots := [⟨"hour", TypeName.integer, true⟩]

/-- Parcels, and parcels with an hour at which they are due. -/
def post : Ontology :=
  ((compose "post" [Vocabulary.basic]).push parcel).push express

theorem lineage_express :
    post.lineage express = [.enter express, .enter parcel, .leave parcel, .leave express] :=
  lineage_of_supers_singleton rfl rfl (by decide) rfl

theorem slot?_express_weight :
    post.slot? express "weight" = .ok (some ⟨"weight", TypeName.integer, false⟩) := by
  rw [slot?, lineage_express]
  rfl

theorem keepsSlots_express : post.KeepsSlots express parcel := by
  intro ds hds d hd
  obtain ⟨name, hname⟩ := (mem_slots_iff hds).1 hd
  rw [slot?, lineage_of_supers_nil rfl] at hname
  obtain ⟨u, hu, hown⟩ := exists_mem_of_firstSlot hname
  simp only [List.mem_cons, Visit.enter.injEq, reduceCtorEq, List.not_mem_nil, or_false] at hu
  cases hu
  cases List.mem_singleton.1 (List.mem_of_find?_eq_some hown)
  exact slot?_express_weight

theorem validate_express : post.validate express
    (.slotted .concept "express" [("weight", .ofInt 2)]) = .ok () := by
  have hhour : post.slot? express "hour" = .ok (some ⟨"hour", TypeName.integer, true⟩) := by
    rw [slot?, lineage_express]
    rfl
  have hslots : post.slots express =
      .ok [⟨"weight", TypeName.integer, false⟩, ⟨"hour", TypeName.integer, true⟩] := by
    rw [slots, lineage_express]
    show post.describe express ["weight", "hour"] = _
    simp only [describe, slot?_express_weight, hhour]
  have hfacets : post.facetsOf express "weight" = .ok [.permitted [.integer 1, .integer 2]] := by
    rw [facetsOf, lineage_express]
    rfl
  refine validate_slotted_eq_ok_iff.2 ⟨_, hslots, List.forall_mem_cons.2
    ⟨.inr ⟨.ofInt 2, _, _, rfl, fitting_eq_ok_iff.2 ⟨_, rfl, rfl, rfl, rfl⟩,
      validate_primitive_eq_ok_iff.2 ⟨_, rfl, rfl⟩, hfacets, rfl⟩,
    List.forall_mem_singleton.2 (.inl ⟨rfl, rfl⟩)⟩⟩

theorem express_is_parcel : post.descendsFrom express "parcel" = true ∧
    post.KeepsSlots express parcel ∧
      post.validate express (.slotted .concept "express" [("weight", .ofInt 2)]) = .ok () ∧
        post.validate parcel (.slotted .concept "express" [("weight", .ofInt 2)]) = .ok () := by
  have hexpress : post.Registered express := rfl
  have hparcel : post.Registered parcel := rfl
  have hdescends : post.descendsFrom express "parcel" = true := by
    rw [descendsFrom, lineage_express]
    rfl
  exact ⟨hdescends, keepsSlots_express, validate_express,
    validate_of_descendsFrom hexpress hparcel hdescends keepsSlots_express validate_express⟩

end Ontology
end AgentContent
