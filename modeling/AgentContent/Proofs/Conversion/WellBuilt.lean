import AgentContent.Proofs.Conversion.NormalForm
import AgentContent.Proofs.Ontology.Strict

/-!
# AgentContent.Proofs.Conversion.WellBuilt

Content from data is what its types say, whatever the data: lists, members, tags of sub-types or
values of which no schema says more.

* `FitsPlace`: a value with slots is of a type that may stand where it stands.
* `WellBuilt`: a node of a concrete type of its role, with declared slots in their order that hold
  values of types that fit.
* `wellBuilt_of_gives`: a step from data to content keeps that.
* `declared_of_wellBuilt`: such content has no undeclared slots.
* `wellBuilt_externalise`: all content from data is built in this way.
-/

namespace AgentContent

theorem Content.groundedAll_iff {cs : List Content} :
    groundedAll cs = true ↔ ∀ c ∈ cs, c.grounded = true := by
  induction cs with
  | nil => simp [groundedAll]
  | cons c cs ih => simp [groundedAll, ih]

theorem Content.groundedSlots_iff {slots : Slots Content} :
    groundedSlots slots = true ↔ ∀ e ∈ slots, e.2.grounded = true := by
  induction slots with
  | nil => simp [groundedSlots]
  | cons e slots ih => simp [groundedSlots, ih]

namespace Ontology

/-- A value with slots is of a type that may stand where values of the schema are asked for. -/
def FitsPlace (o : Ontology) (s : Schema) : Content → Prop
  | .slotted _ type _ => ∃ t, o.find? type = some t ∧ o.compatible t s = true
  | _ => True

/-- The slots are declared ones in the order of their declarations, each once and spelled as it is
declared, with values that fit the types of the slots. -/
structure HasSlots (o : Ontology) (s : Schema) (slots : Slots Content) : Prop where
  names : slots = [] ∨ ∃ ds, o.slots s = .ok ds ∧ (slots.map (·.1)).Sublist (ds.map (·.name))
  distinct : Slots.Distinct slots
  fits : ∀ e ∈ slots, ∃ d t, o.slot? s e.1 = .ok (some d) ∧ d.name = e.1 ∧
    o.find? d.type = some t ∧ o.FitsPlace t e.2

/-- The node is of a concrete type of its role with slots of that type, or is an aggregate of a
type of aggregates, or a primitive. -/
def WellBuilt (o : Ontology) : Content → Prop
  | .primitive _ => True
  | .slotted role type slots => ∃ s, o.find? type = some s ∧ s.isAbstract = false ∧
      s.kind.isSlotted = true ∧ role = roleOfKind s.kind ∧ o.HasSlots s slots
  | .aggregate type _ template =>
    template = none ∧ ∃ s, o.find? type = some s ∧ s.kind = .aggregate
  | _ => False

section

variable {o : Ontology} {s : Schema} {c : Content}

/-! ## One step -/

theorem wellBuilt_of_gives
    (h : Gives o (fun s c => c.Each true (WellBuilt o) ∧ o.FitsPlace s c) s c) :
    c.Each true (WellBuilt o) ∧ o.FitsPlace s c := by
  cases h with
  | primitive _ => exact ⟨.of_primitive trivial, trivial⟩
  | aggregate ht hk h =>
    refine ⟨.of_aggregate ⟨rfl, _, ht, hk⟩ (fun c hc => ?_) (fun _ t ht => by cases ht), trivial⟩
    obtain ⟨_, hbuilt, -⟩ := h c hc
    exact hbuilt
  | @slotted t slots ht hk hfits hconcrete hnames h =>
    refine ⟨.of_slotted ⟨t, ht, hconcrete, hk, rfl, hnames, ?_, ?_⟩ ?_, t, ht, hfits⟩
    · rcases hnames with rfl | ⟨ds, hds, hnames⟩
      · exact .nil
      · exact distinct_of_sublist hds hnames
    · intro e he
      obtain ⟨d, u, hd, hname, hu, -, hplace⟩ := h e he
      exact ⟨d, u, hd, hname, hu, hplace⟩
    · intro e he
      obtain ⟨_, _, _, _, _, hbuilt, -⟩ := h e he
      exact hbuilt

/-! ## What follows for the whole -/

theorem grounded_of_wellBuilt (h : c.Each true (WellBuilt o)) : c.grounded = true := by
  induction c using Content.induction with
  | primitive p => rfl
  | slotted role type slots ih =>
    exact Content.groundedSlots_iff.2 fun e he => ih e he (h.slot he)
  | aggregate type elements template ih _ =>
    obtain ⟨rfl, -⟩ := h.self
    exact Content.groundedAll_iff.2 fun c hc => ih c hc (h.element hc)
  | «variable» slots isMeta _ => exact h.self.elim
  | ire type referent proposition _ _ => exact h.self.elim
  | list elements _ => exact h.self.elim

theorem declared_of_wellBuilt (ho : o.Keeps Vocabulary.basic) (h : c.Each true (WellBuilt o)) :
    o.Declared c := by
  induction c using Content.induction with
  | primitive p =>
    refine ⟨_, schema_eq_ok_iff.2 (ho _ _ (Vocabulary.find?_primitive p)), ?_⟩
    rw [checkUndeclared]
  | slotted role type slots ih =>
    obtain ⟨s, hs, -, -, -, hslots⟩ := h.self
    refine ⟨s, schema_eq_ok_iff.2 hs, ?_⟩
    rw [checkUndeclared, checkUndeclaredSlots_eq_ok_iff]
    intro e he
    obtain ⟨d, _, hd, -⟩ := hslots.fits e he
    exact ⟨containsSlot_eq_true_iff.2 ⟨d, hd⟩, ih e he (h.slot he)⟩
  | aggregate type elements template ih _ =>
    obtain ⟨-, s, hs, -⟩ := h.self
    refine ⟨s, schema_eq_ok_iff.2 hs, ?_⟩
    rw [checkUndeclared, checkUndeclaredAll_eq_ok_iff]
    exact fun c hc => ih c hc (h.element hc)
  | «variable» slots isMeta _ => exact h.self.elim
  | ire type referent proposition _ _ => exact h.self.elim
  | list elements _ => exact h.self.elim

/-- Under a schema of an ontology that keeps the basic vocabulary, data gives content without
variables, all of whose nodes are well built, of a type that may stand for the schema, and without
undeclared slots. -/
theorem wellBuilt_externalise (ho : o.Keeps Vocabulary.basic) {type : String}
    (hs : o.find? type = some s) {v : Json} (h : o.externalise s v = .ok c) :
    c.grounded = true ∧ c.Each true (WellBuilt o) ∧ o.FitsPlace s c ∧ o.Declared c := by
  obtain ⟨hbuilt, hplace⟩ := toContent_induction ho.hasSequence
    (P := fun s c => c.Each true (WellBuilt o) ∧ o.FitsPlace s c)
    (fun _ _ hgives => wellBuilt_of_gives hgives) v.sorted (find?_name hs) h
  exact ⟨grounded_of_wellBuilt hbuilt, hbuilt, hplace, declared_of_wellBuilt ho hbuilt⟩

theorem wellBuilt_drawnDot : drawings.externalise drawing dotInCircle = .ok drawnDot ∧
    drawnDot.grounded = true ∧ drawnDot.Each true (WellBuilt drawings) ∧
      drawings.FitsPlace drawing drawnDot ∧ drawings.Declared drawnDot := by
  have hfind : drawings.find? "drawing" = some drawing := rfl
  exact ⟨externalise_dotInCircle, wellBuilt_externalise keeps_drawings hfind externalise_dotInCircle⟩

end

end Ontology
end AgentContent
