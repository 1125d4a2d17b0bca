import AgentContent.Proofs.Content.Equality
import AgentContent.Proofs.Ontology.WellFormed

/-!
# AgentContent.Proofs.Ontology.Strict

What the check for undeclared slots finds. It comes to the values of slots, to elements and to
propositions, but never to the referent of an identifying expression.

* `Below`: one step down in content, to referents only when they are asked for.
* `OnlyDeclared`: the node has no slot that neither its schema nor an ancestor declares.
* `Declared.below`, `Declared.onlyDeclared`: a step of the check, and what it says of one node.
* `Clean.passes`: valid content without undeclared slots passes the check.
* `onlyDeclared_of_declared`: what is free of undeclared slots after the check, and what it takes
  for the rest to be so too.
-/

namespace AgentContent
namespace Ontology

variable {o : Ontology} {s : Schema} {c d : Content} {referents : Bool}

/-! ## Nodes -/

/-- One step down in content, whoever declares the slots. Referents of identifying expressions count
only when they are asked for. -/
inductive Below (referents : Bool) : Content → Content → Prop where
  | slot {role : Role} {type : String} {slots : Slots Content} {e : String × Content}
    (he : e ∈ slots) : Below referents (.slotted role type slots) e.2
  | element {type : String} {elements : List Content} {template : Option Content} {e : Content}
    (he : e ∈ elements) : Below referents (.aggregate type elements template) e
  | item {elements : List Content} {e : Content} (he : e ∈ elements) :
    Below referents (.list elements) e
  | referent {type : String} {referent proposition : Content} (h : referents = true) :
    Below referents (.ire type referent proposition) referent
  | proposition {type : String} {referent proposition : Content} :
    Below referents (.ire type referent proposition) proposition

/-- All slots of the node are declared by the schema of its type or by an ancestor of it. -/
def OnlyDeclared (o : Ontology) : Content → Prop
  | .slotted _ type slots => ∃ s, o.find? type = some s ∧ ∀ e ∈ slots, o.Declares s e.1
  | _ => True

theorem Below.cases_referent (h : Below true c d) :
    Below false c d ∨ ∃ type proposition, c = .ire type d proposition := by
  cases h with
  | slot he => exact .inl (.slot he)
  | element he => exact .inl (.element he)
  | item he => exact .inl (.item he)
  | referent _ => exact .inr ⟨_, _, rfl⟩
  | proposition => exact .inl .proposition

theorem Below.withReferents (h : Below false c d) : Below true c d := by
  cases h with
  | slot he => exact .slot he
  | element he => exact .element he
  | item he => exact .item he
  | referent h => cases h
  | proposition => exact .proposition

theorem containsSlot_eq_true_iff {name : String} :
    o.containsSlot s name = .ok true ↔ ∃ d, o.slot? s name = .ok (some d) := by
  unfold containsSlot
  cases o.slot? s name with
  | error e => simp
  | ok found => cases found <;> simp

/-! ## What the check leaves -/

theorem Declared.onlyDeclared (h : o.Declared c) : o.OnlyDeclared c := by
  cases c with
  | slotted role type slots =>
    obtain ⟨s, hs, hcheck⟩ := h
    rw [checkUndeclared, checkUndeclaredSlots_eq_ok_iff] at hcheck
    refine ⟨s, schema_eq_ok_iff.1 hs, fun e he => ?_⟩
    obtain ⟨d, hd⟩ := containsSlot_eq_true_iff.1 (hcheck e he).1
    obtain ⟨t, ht, hown⟩ := exists_mem_of_firstSlot hd
    exact ⟨t, ancestor_of_mem_lineage ht, d, hown⟩
  | _ => trivial

theorem Declared.below (h : o.Declared c) (hd : Below false c d) : o.Declared d := by
  obtain ⟨s, -, hcheck⟩ := h
  cases hd with
  | slot he =>
    rw [checkUndeclared, checkUndeclaredSlots_eq_ok_iff] at hcheck
    exact (hcheck _ he).2
  | element he =>
    rw [checkUndeclared, checkUndeclaredAll_eq_ok_iff] at hcheck
    exact hcheck d he
  | item he =>
    rw [checkUndeclared, checkUndeclaredAll_eq_ok_iff] at hcheck
    exact hcheck d he
  | referent h => cases h
  | proposition => exact checkUndeclared_ire_eq_ok_iff.1 hcheck

theorem Declared.reachable (h : o.Declared c) (hd : Relation.ReflTransGen (Below false) c d) :
    o.Declared d := by
  induction hd with
  | refl => exact h
  | tail _ hbelow ih => exact ih.below hbelow

/-- Where every referent passes the check for itself, so does whatever stands in the content. -/
theorem Declared.reachable_of_referents (h : o.Declared c)
    (hreferents : ∀ type r p, Relation.ReflTransGen (Below true) c (.ire type r p) → o.Declared r)
    (hd : Relation.ReflTransGen (Below true) c d) : o.Declared d := by
  induction hd with
  | refl => exact h
  | tail hreach hbelow ih =>
    rcases hbelow.cases_referent with hbelow | ⟨type, proposition, rfl⟩
    · exact ih.below hbelow
    · exact hreferents type _ proposition hreach

/-! ## What the check refuses -/

/-- Where nothing undeclared is in the way, one step down leads to a part that validation looks at. -/
theorem Below.part (hd : Below referents c d) (hkeyed : c.Keyed) (hdeclared : o.OnlyDeclared c) :
    o.Part c d := by
  cases hd with
  | @slot role type slots e he =>
    obtain ⟨s, hs, hslots⟩ := hdeclared
    exact .slot hs (hslots e he) (Slots.get?_of_mem hkeyed he (sameName_refl e.1))
  | element he => exact .element he
  | item he => exact .item he
  | referent _ => exact .referent
  | proposition => exact .proposition

theorem Below.each {P : Content → Prop} (hd : Below referents c d) (h : c.Each false P) :
    d.Each false P := by
  cases hd with
  | slot he => exact h.slot he
  | element he => exact h.element he
  | item he => exact h.item he
  | referent _ => exact h.referent
  | proposition => exact h.proposition

/-- Valid content, stored by names, without undeclared slots at any depth; referents are part of it
only when they are asked for. -/
structure Clean (o : Ontology) (referents : Bool) (c : Content) : Prop where
  valid : o.validateContent c = .ok ()
  keyed : c.Each false Content.Keyed
  declared : ∀ d, Relation.ReflTransGen (Below referents) c d → o.OnlyDeclared d

theorem Clean.part (h : o.Clean referents c) {below : Bool} (hd : Below below c d) : o.Part c d :=
  hd.part h.keyed.self (h.declared c .refl)

theorem Clean.below (h : o.Clean referents c) (hd : Below referents c d) :
    o.Clean referents d where
  valid := (validateContent_iff_part.1 h.valid).2 d (h.part hd)
  keyed := hd.each h.keyed
  declared := fun e he => h.declared e (.head hd he)

theorem Clean.reachable (h : o.Clean referents c)
    (hd : Relation.ReflTransGen (Below referents) c d) : o.Clean referents d := by
  induction hd with
  | refl => exact h
  | tail _ hbelow ih => exact ih.below hbelow

theorem Clean.withoutReferents (h : o.Clean true c) : o.Clean false c where
  valid := h.valid
  keyed := h.keyed
  declared := fun d hd => h.declared d (Relation.ReflTransGen.mono (fun _ _ => Below.withReferents) c d hd)

/-- The check refuses a node for an undeclared slot of its own or for something below it. -/
theorem declared_of_below (hvalid : o.validateContent c = .ok ()) (hown : o.OnlyDeclared c)
    (hbelow : ∀ d, Below false c d → o.Declared d) : o.Declared c := by
  obtain ⟨s, hs, hinstance⟩ := validateContent_eq_ok_iff.1 hvalid
  refine ⟨s, hs, ?_⟩
  cases c with
  | primitive p => rw [checkUndeclared]
  | slotted role type slots =>
    obtain ⟨t, ht, hslots⟩ := hown
    obtain rfl : s = t := by
      rw [Content.typeName, schema_eq_ok_iff, ht] at hs
      exact (Option.some.inj hs).symm
    obtain ⟨ds, hds, -⟩ := validate_slotted_eq_ok_iff.1 hinstance
    have hreg := registered_of_find? ht
    have hresolves := (slots_isOk_iff hreg).1 ⟨ds, hds⟩
    rw [checkUndeclared, checkUndeclaredSlots_eq_ok_iff]
    intro e he
    have hslot := (exists_slot?_iff hreg hresolves).2 (hslots e he)
    exact ⟨containsSlot_eq_true_iff.2 hslot, hbelow e.2 (.slot he)⟩
  | aggregate type elements template =>
    rw [checkUndeclared, checkUndeclaredAll_eq_ok_iff]
    exact fun e he => hbelow e (.element he)
  | «variable» slots isMeta => rw [checkUndeclared]
  | ire type referent proposition =>
    exact checkUndeclared_ire_eq_ok_iff.2 (hbelow proposition .proposition)
  | list elements =>
    rw [checkUndeclared, checkUndeclaredAll_eq_ok_iff]
    exact fun e he => hbelow e (.item he)

theorem Clean.passes (h : o.Clean false c) : o.Declared c := by
  -- on the size, since a step down is a step of validation here
  induction hsize : sizeOf c using Nat.strongRecOn generalizing c with
  | _ n ih =>
    refine declared_of_below h.valid (h.declared c .refl) fun d hd => ?_
    exact ih (sizeOf d) (hsize ▸ sizeOf_lt_of_part (h.part hd)) (h.below hd) rfl

/-- Valid content that passes the check has no undeclared slots outside of the referents of its
identifying expressions, and none at all if these referents pass it for themselves. Without
undeclared slots, content and referents pass. -/
theorem onlyDeclared_of_declared (o : Ontology) {c : Content}
    (hvalid : o.validateContent c = .ok ()) :
    (o.Declared c → ∀ d, Relation.ReflTransGen (Below false) c d → o.OnlyDeclared d) ∧
      (o.Declared c →
        (∀ type r p, Relation.ReflTransGen (Below true) c (.ire type r p) → o.Declared r) →
          ∀ d, Relation.ReflTransGen (Below true) c d → o.OnlyDeclared d) ∧
        (c.Each false Content.Keyed →
          (∀ d, Relation.ReflTransGen (Below true) c d → o.OnlyDeclared d) →
            o.Declared c ∧
              ∀ type r p, Relation.ReflTransGen (Below true) c (.ire type r p) → o.Declared r) := by
  refine ⟨fun h d hd => (h.reachable hd).onlyDeclared,
    fun h hreferents d hd => (h.reachable_of_referents hreferents hd).onlyDeclared, ?_⟩
  intro hkeyed hdeclared
  have hclean : o.Clean true c := ⟨hvalid, hkeyed, hdeclared⟩
  refine ⟨hclean.withoutReferents.passes, fun type r p hd => ?_⟩
  exact ((hclean.reachable hd).below (.referent rfl)).withoutReferents.passes

/-! ## Nicknames -/

def person : Schema where
  name := "person"
  kind := .concept
  slots := [⟨"name", TypeName.string, true⟩]

def people : Ontology :=
  (compose "people" [Vocabulary.basic]).push person

/-- The person with a value in a slot of which nothing more is said. -/
def thePerson (slot : String) : Content :=
  .ire "iota" (.slotted .concept "person" [(slot, .ofString "x")]) (.slotted .predicate "true" [])

theorem slots_person : people.slots person = .ok [⟨"name", TypeName.string, true⟩] :=
  slots_of_supers_nil rfl (by decide)

theorem slots_true : people.slots { name := "true", kind := .predicate } = .ok [] :=
  slots_of_supers_nil rfl (by decide)

theorem schema_person : people.schema "person" = .ok person := rfl

theorem schema_iota : people.schema "iota" = .ok { name := "iota", kind := .ire } := rfl

/-- A referent is valid whatever undeclared slots it has. -/
theorem validateContent_thePerson {slot : String}
    (h : people.SlotHolds person [(slot, .ofString "x")] ⟨"name", TypeName.string, true⟩) :
    people.validateContent (thePerson slot) = .ok () := by
  have hperson : people.validateContent (.slotted .concept "person" [(slot, .ofString "x")]) =
      .ok () :=
    validateContent_eq_ok_iff.2 ⟨person, schema_person, validate_slotted_eq_ok_iff.2
      ⟨_, slots_person, List.forall_mem_singleton.2 h⟩⟩
  have htrue : people.validateContent (.slotted .predicate "true" []) = .ok () :=
    validateContent_eq_ok_iff.2 ⟨_, rfl, validate_slotted_eq_ok_iff.2
      ⟨_, slots_true, List.forall_mem_nil _⟩⟩
  exact validateContent_eq_ok_iff.2
    ⟨_, schema_iota, validate_ire_eq_ok_iff.2 ⟨rfl, hperson, htrue⟩⟩

theorem declared_thePerson (slot : String) : people.Declared (thePerson slot) := by
  refine ⟨_, schema_iota, checkUndeclared_ire_eq_ok_iff.2 ⟨_, rfl, ?_⟩⟩
  rw [checkUndeclared, checkUndeclaredSlots]

theorem validateContent_named : people.validateContent (thePerson "name") = .ok () := by
  have hfacets : people.facetsOf person "name" = .ok [] := facetsOf_of_supers_nil rfl "name"
  refine validateContent_thePerson (.inr ⟨.ofString "x",
    { name := TypeName.string, kind := .primitive }, [], rfl, ?_, ?_, hfacets, rfl⟩)
  · exact fitting_eq_ok_iff.2 ⟨_, rfl, rfl, rfl, rfl⟩
  · exact validate_primitive_eq_ok_iff.2 ⟨_, rfl, rfl⟩

theorem declared_person : people.Declared (.slotted .concept "person" [("name", .ofString "x")]) := by
  refine ⟨person, schema_person, ?_⟩
  rw [checkUndeclared, checkUndeclaredSlots_eq_ok_iff]
  refine List.forall_mem_singleton.2 ⟨?_, _, rfl, ?_⟩
  · rw [containsSlot, slot?_of_supers_nil rfl]
    rfl
  · rw [Content.ofString, checkUndeclared]

/-- A person that is given by a name that it may have. -/
theorem onlyDeclared_named : people.validateContent (thePerson "name") = .ok () ∧
    ∀ d, Relation.ReflTransGen (Below true) (thePerson "name") d → people.OnlyDeclared d := by
  refine ⟨validateContent_named, ?_⟩
  refine (onlyDeclared_of_declared people validateContent_named).2.1 (declared_thePerson "name") ?_
  intro type r p hd
  rcases hd.cases_head with heq | ⟨d, hbelow, hd⟩
  · cases heq
    exact declared_person
  · -- further down there are no identifying expressions
    exfalso
    cases hbelow with
    | referent _ =>
      rcases hd.cases_head with heq | ⟨d, hbelow, hd⟩
      · cases heq
      · cases hbelow with
        | slot he =>
          cases List.mem_singleton.1 he
          rcases hd.cases_head with heq | ⟨d, hbelow, hd⟩
          · cases heq
          · cases hbelow
    | proposition =>
      rcases hd.cases_head with heq | ⟨d, hbelow, hd⟩
      · cases heq
      · cases hbelow with
        | slot he => cases he

/-- A nickname passes both checks as a slot of a referent, although nobody declares it. -/
theorem nickname_passes : ¬ ∀ (o : Ontology) (c : Content), o.validateContent c = .ok () →
    o.Declared c → ∀ d, Relation.ReflTransGen (Below true) c d → o.OnlyDeclared d := by
  intro h
  have hget : Slots.get? "name" [("nickname", Content.ofString "x")] = none := rfl
  obtain ⟨s, hs, hslots⟩ := h people (thePerson "nickname")
    (validateContent_thePerson (.inl ⟨hget, rfl⟩)) (declared_thePerson "nickname") _
    (.single (.referent rfl))
  rw [← schema_eq_ok_iff, schema_person] at hs
  cases hs
  obtain ⟨t, ht, d, hd⟩ := hslots _ List.mem_cons_self
  have hreg : people.Registered person := schema_eq_ok_iff.1 schema_person
  have hmem := mem_lineage_of_ancestor hreg ht
  rw [lineage_of_supers_nil rfl] at hmem
  obtain rfl : t = person := by simpa using hmem
  have hnone : person.ownSlot? "nickname" = none := rfl
  rw [hnone] at hd
  cases hd

end Ontology
end AgentContent
