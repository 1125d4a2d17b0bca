import AgentContent.Proofs.Conversion.WellBuilt
import AgentContent.Proofs.Template.Outline
import AgentContent.Proofs.Vocabulary.Basic

/-!
# AgentContent.Proofs.Template.Open

Which templates leave something open. Slots alone do not: aggregates whose elements are of no
particular type are empty in a template, and so are lists.

* `Opens`: the schemas lead from a place to one where a template has a variable.
* `Outlines.grounded_eq_false_iff`: just then the content in the place has a variable.
* `isTemplate_iff_opens`: just then the template of a schema is one that is to be filled.
* `grounded_crate`: a schema with a slot whose template is complete.
-/

namespace AgentContent
namespace Ontology

variable {o : Ontology} {s : Schema} {c : Content} {around : List String} {place : Place}

/-- Values in the place lead to values for which a template has a variable: through slots, and
through the elements of aggregates that say of which type those are. -/
inductive Opens (o : Ontology) : List String → Place → Prop where
  | hole {around : List String} {s : Schema} (h : IsHole around s) : Opens o around (.of s)
  | slotted {around : List String} {s : Schema} {ds : List SlotDescriptor} {d : SlotDescriptor}
    (hk : s.kind.isSlotted = true) (hnew : foldName s.name ∉ around)
    (hconcrete : s.isAbstract = false) (hds : o.slots s = .ok ds) (hd : d ∈ ds)
    (h : Opens o (foldName s.name :: around) (.slot s d)) : Opens o around (.of s)
  | plain {around : List String} {s t : Schema} {d : SlotDescriptor} (ht : o.find? d.type = some t)
    (hk : t.kind ≠ .aggregate) (h : Opens o around (.of t)) : Opens o around (.slot s d)
  | element {around : List String} {s t u : Schema} {d : SlotDescriptor} {type : String}
    (ht : o.find? d.type = some t) (hk : t.kind = .aggregate)
    (he : o.elementType? s d.name = .ok (some type)) (hu : o.find? type = some u)
    (h : Opens o (foldName t.name :: around) (.of u)) : Opens o around (.slot s d)

/-! ## One node -/

theorem opens_iff_of_not_slotted (hk : s.kind.isSlotted = false) :
    o.Opens around (.of s) ↔ IsHole around s := by
  refine ⟨fun h => ?_, .hole⟩
  cases h with
  | hole h => exact h
  | slotted hslotted =>
    rw [hk] at hslotted
    cases hslotted

theorem not_opens_of_aggregate (hk : s.kind = .aggregate) : ¬ o.Opens around (.of s) := by
  rw [opens_iff_of_not_slotted (by rw [hk]; rfl), IsHole, hk]
  exact fun h => h.1 rfl

theorem not_opens_of_list (hk : s.kind = .contentElementList) : ¬ o.Opens around (.of s) := by
  rw [opens_iff_of_not_slotted (by rw [hk]; rfl), IsHole, hk]
  exact fun h => h.2 rfl

theorem opens_slotted_iff {ds : List SlotDescriptor} (hk : s.kind.isSlotted = true)
    (hnew : foldName s.name ∉ around) (hconcrete : s.isAbstract = false)
    (hds : o.slots s = .ok ds) :
    o.Opens around (.of s) ↔ ∃ d ∈ ds, o.Opens (foldName s.name :: around) (.slot s d) := by
  constructor
  · intro h
    cases h with
    | hole h =>
      rw [IsHole, if_pos hk, hconcrete] at h
      rcases h with h | h
      · exact (hnew h).elim
      · cases h
    | slotted _ _ _ hds' hd h =>
      rw [hds] at hds'
      cases hds'
      exact ⟨_, hd, h⟩
  · rintro ⟨d, hd, h⟩
    exact .slotted hk hnew hconcrete hds hd h

theorem opens_plain_iff {t : Schema} {d : SlotDescriptor} (ht : o.find? d.type = some t)
    (hk : t.kind ≠ .aggregate) : o.Opens around (.slot s d) ↔ o.Opens around (.of t) := by
  refine ⟨fun h => ?_, .plain ht hk⟩
  cases h with
  | plain ht' _ h =>
    rw [ht] at ht'
    cases ht'
    exact h
  | element ht' hk' =>
    rw [ht] at ht'
    cases ht'
    exact (hk hk').elim

theorem opens_aggregate_iff {t : Schema} {d : SlotDescriptor} (ht : o.find? d.type = some t)
    (hk : t.kind = .aggregate) : o.Opens around (.slot s d) ↔ ∃ type u,
      o.elementType? s d.name = .ok (some type) ∧ o.find? type = some u ∧
        o.Opens (foldName t.name :: around) (.of u) := by
  constructor
  · intro h
    cases h with
    | plain ht' hk' =>
      rw [ht] at ht'
      cases ht'
      exact (hk' hk).elim
    | element ht' _ he hu h =>
      rw [ht] at ht'
      cases ht'
      exact ⟨_, _, he, hu, h⟩
  · rintro ⟨type, u, he, hu, h⟩
    exact .element ht hk he hu h

/-! ## Templates -/

theorem grounded_slotted_eq_false_iff {role : Role} {type : String} {slots : Slots Content} :
    (Content.slotted role type slots).grounded = false ↔ ∃ e ∈ slots, e.2.grounded = false := by
  rw [Content.grounded, ← Bool.not_eq_true, Content.groundedSlots_iff]
  simp

theorem Outlines.grounded_eq_false_iff (h : Outlines o around place c) :
    c.grounded = false ↔ o.Opens around place := by
  induction h with
  | hole h => exact iff_of_true rfl (.hole h)
  | aggregate hk => exact iff_of_false Bool.false_ne_true.symm (not_opens_of_aggregate hk)
  | list hk => exact iff_of_false Bool.false_ne_true.symm (not_opens_of_list hk)
  | @slotted _ s ds slots hk hnew hconcrete hds hnames _ ih =>
    rw [grounded_slotted_eq_false_iff, opens_slotted_iff hk hnew hconcrete hds]
    constructor
    · rintro ⟨⟨name, c⟩, he, hc⟩
      have hname : name ∈ ds.map (·.name) := hnames ▸ List.mem_map_of_mem he
      obtain ⟨d, hd, rfl⟩ := List.mem_map.1 hname
      exact ⟨d, hd, (ih d hd c he).1 hc⟩
    · rintro ⟨d, hd, hopens⟩
      have hname : d.name ∈ slots.map (·.1) := hnames ▸ List.mem_map_of_mem hd
      obtain ⟨⟨name, c⟩, he, rfl⟩ := List.mem_map.1 hname
      exact ⟨_, he, (ih d hd c he).2 hopens⟩
  | plain ht hk _ ih => rw [ih, opens_plain_iff ht hk]
  | untyped ht hk he =>
    rw [opens_aggregate_iff ht hk]
    refine iff_of_false Bool.false_ne_true.symm ?_
    rintro ⟨type, u, he', -⟩
    rw [he] at he'
    cases he'
  | @typed _ s t u d type c ht hk he hu _ ih =>
    have hgrounded : (Content.aggregate t.name [] (some c)).grounded = c.grounded := rfl
    rw [hgrounded, ih, opens_aggregate_iff ht hk]
    constructor
    · intro h
      exact ⟨type, u, he, hu, h⟩
    · rintro ⟨type', u', he', hu', h⟩
      rw [he] at he'
      cases he'
      rw [hu] at hu'
      cases hu'
      exact h

theorem Outlines.isTemplate_iff (h : Outlines o around (.of s) c) :
    c.isTemplate = true ↔ c.grounded = false := by
  cases h with
  | list hk => exact iff_of_false Bool.false_ne_true Bool.false_ne_true.symm
  | _ => simp [Content.isTemplate, numberedVariable, Content.typedVariable]

/-- The template of a schema has a variable, and counts as a template, just when the schema leads to
values for which templates have variables. -/
theorem isTemplate_iff_opens (h : o.template s = .ok c) :
    (c.grounded = false ↔ o.Opens [] (.of s)) ∧ (c.isTemplate = true ↔ o.Opens [] (.of s)) := by
  have houtlines := outlines_of_template h
  rw [houtlines.isTemplate_iff, houtlines.grounded_eq_false_iff]
  exact ⟨.rfl, .rfl⟩

/-- In the template of an agent identifier there is something to be filled in. -/
theorem opens_identifier : Vocabulary.basic.template identifier = .ok identifierTemplate ∧
    Vocabulary.basic.Opens [] (.of identifier) :=
  ⟨template_identifier, (isTemplate_iff_opens template_identifier).2.1 rfl⟩

/-! ## Crates -/

def crate : Schema where
  name := "crate"
  kind := .concept
  slots := [⟨"items", TypeName.sequence, false⟩]

def crates : Ontology :=
  (compose "crates" [Vocabulary.basic]).push crate

theorem template_crate : crates.template crate =
    .ok (.slotted .concept "crate" [("items", .aggregate TypeName.sequence [] none)]) := by
  have hslots : crates.slots crate = .ok crate.slots := slots_of_supers_nil rfl (by decide)
  have hitems : crates.elementType? crate "items" = .ok none := by
    rw [elementType?, facetsOf_of_supers_nil rfl]
    rfl
  have hslot : templateSlot crates ["crate"] crate ⟨"items", TypeName.sequence, false⟩ 0 =
      .ok (.aggregate TypeName.sequence [] none, 0) := by
    rw [templateSlot, hitems]
    rfl
  have hall : templateSlots crates ["crate"] crate crate.slots 0 =
      .ok ([("items", .aggregate TypeName.sequence [] none)], 0) := by
    show templateSlots _ _ _ [⟨"items", TypeName.sequence, false⟩] 0 = _
    simp only [templateSlots, hslot]
  exact template_of_slots rfl rfl hslots hall

/-- The template of a crate is complete, although crates have a slot. -/
theorem grounded_crate : ¬ ∀ (o : Ontology) (s : Schema), o.Keeps Vocabulary.basic →
    o.Registered s → s.kind.isSlotted = true → s.isAbstract = false →
      (∃ d ds, o.slots s = .ok (d :: ds)) → ∀ c, o.template s = .ok c →
        c.grounded = false ∧ c.isTemplate = true := by
  intro h
  have hkeeps : crates.Keeps Vocabulary.basic :=
    keeps_of_own (List.append_nil _) (List.forall_mem_singleton.2 rfl)
  have hslots : crates.slots crate = .ok crate.slots := slots_of_supers_nil rfl (by decide)
  have hopen := h crates crate hkeeps rfl rfl rfl ⟨_, _, hslots⟩ _ template_crate
  cases hopen.1

end Ontology
end AgentContent
