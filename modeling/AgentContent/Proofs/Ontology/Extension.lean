import AgentContent.Proofs.Ontology.WellFormed
import AgentContent.Vocabulary.Basic

/-!
# AgentContent.Proofs.Ontology.Extension

More definitions never make content invalid. `p.Keeps o` says that `p` defines what `o` defines in
the same way; a name that `o` leaves undefined may get a meaning in `p`.

* `Keeps.ancestor_iff`: a schema whose super types are all defined extends nothing more.
* `Keeps.compatible`, `Keeps.slot?`: compatible schemas stay compatible, and slots that are found
  stay what they are.
* `Keeps.wellFormed`, `Keeps.validateContent`: neither a node nor a whole content gets invalid, if
  no rule of an application has a say in it (`NoRules`).
* `compose_of_valid`: a vocabulary composed with an ontology keeps all that the ontology accepts.
-/

namespace AgentContent
namespace Ontology

variable {o p : Ontology} {s t : Schema} {c d : Content}

/-- The schema of the content has no rule of an application, nor has anything that it extends. -/
def NoRules (o : Ontology) (c : Content) : Prop :=
  ∀ s t, o.find? c.typeName = some s → o.Ancestor s t → t.Plain

theorem Plain.noRules (ho : o.Plain) (c : Content) : o.NoRules c :=
  fun _ t hs ht => ho t.name t (registered_of_ancestor (registered_of_find? hs) ht)

namespace Keeps

section

variable (h : p.Keeps o)

include h

/-! ## Super types -/

theorem super (hs : o.Super s t) : p.Super s t := by
  obtain ⟨name, hname, hfind⟩ := hs
  exact ⟨name, hname, h name t hfind⟩

theorem ancestor (ht : o.Ancestor s t) : p.Ancestor s t := by
  induction ht with
  | refl => exact .refl
  | tail _ hsuper ih => exact ih.tail (h.super hsuper)

/-- A super type that is defined has no other meaning, so the way up is the same. -/
theorem ancestor_iff (hr : Resolves o s) : p.Ancestor s t ↔ o.Ancestor s t := by
  refine ⟨fun ht => ?_, h.ancestor⟩
  induction ht using Relation.ReflTransGen.head_induction_on with
  | refl => exact .refl
  | @head u v hsuper _ ih =>
    obtain ⟨name, hname, hfind⟩ := hsuper
    obtain ⟨w, hw, hrw⟩ := hr.super hname
    rw [h name w hw] at hfind
    cases hfind
    exact .head ⟨name, hname, hw⟩ (ih hrw)

theorem resolves (hr : Resolves o s) : Resolves p s := by
  intro name hextends
  obtain ⟨t, ht, hname⟩ := exists_ancestor_of_extends hextends
  obtain ⟨u, hu⟩ := Option.isSome_iff_exists.1
    (hr name (extends_of_ancestor ((h.ancestor_iff hr).1 ht) hname))
  rw [h name u hu]
  rfl

theorem declares_iff (hr : Resolves o s) {name : String} :
    p.Declares s name ↔ o.Declares s name := by
  simp only [Declares, h.ancestor_iff hr]

/-- Descent is only ever gained: a super type that was not defined counts for nothing before. -/
theorem compatible (hs : o.Registered s) (hc : o.compatible s t = true) :
    p.compatible s t = true := by
  have hdescends : o.descendsFrom s t.name = true → p.descendsFrom s t.name = true := by
    intro hd
    obtain ⟨u, hu, hname⟩ := (descendsFrom_iff hs).1 hd
    exact (descendsFrom_iff (h s.name s hs)).2 ⟨u, h.ancestor hu, hname⟩
  simp only [Ontology.compatible, Bool.or_eq_true] at hc ⊢
  exact hc.imp_right hdescends

/-! ## Slots -/

/-- Where the first declaration of a slot is found, nothing undefined was met before, so that the
searches agree up to there. -/
theorem firstSlot_search {seen : List String} {tasks : List Task} {name : String}
    {e : SlotDescriptor} (hd : o.firstSlot name (o.search seen tasks) = .ok (some e)) :
    p.firstSlot name (p.search seen tasks) = .ok (some e) := by
  fun_induction Ontology.search o seen tasks with
  | case1 => cases hd
  | case2 seen r rest ih =>
    rw [search]
    exact ih hd
  | case3 seen super rest _ _ => cases hd
  | case4 seen super rest r hr hseen ih =>
    rw [search_seen (h super r hr) hseen]
    exact ih hd
  | case5 seen super rest r hr hseen ih =>
    rw [search_new (h super r hr) hseen]
    rw [firstSlot] at hd ⊢
    cases hown : r.ownSlot? name with
    | some own =>
      rw [hown] at hd
      exact hd
    | none =>
      rw [hown] at hd
      exact ih hd

theorem slot? {name : String} {e : SlotDescriptor} (hd : o.slot? s name = .ok (some e)) :
    p.slot? s name = .ok (some e) := by
  rw [Ontology.slot?, lineage, firstSlot] at hd ⊢
  cases hown : s.ownSlot? name with
  | some own =>
    rw [hown] at hd
    exact hd
  | none =>
    rw [hown] at hd
    exact h.firstSlot_search hd

theorem containsSlot {name : String} (hc : o.containsSlot s name = .ok true) :
    p.containsSlot s name = .ok true := by
  rw [Ontology.containsSlot] at hc ⊢
  split at hc
  · cases hc
  · rename_i found hfound
    cases found with
    | none => cases hc
    | some e => rw [h.slot? hfound]; rfl

/-! ## Values of slots -/

theorem typedFor {type : String} (ht : o.TypedFor type c) : p.TypedFor type c := by
  obtain ⟨expected, hexpected, ⟨actual, hactual, hcompat⟩, hdeclared⟩ := ht
  refine ⟨expected, h _ _ hexpected,
    ⟨actual, h _ _ hactual, h.compatible (registered_of_find? hactual) hcompat⟩, ?_⟩
  intro name hname
  obtain ⟨t, ht, hfits⟩ := hdeclared name hname
  exact ⟨t, h _ _ ht, h.compatible (registered_of_find? ht) hfits⟩

theorem accepts {f : Facet} (hf : f.isCustom = false) (ha : o.Accepts c f) : p.Accepts c f := by
  cases f with
  | cardinality least most => exact ha
  | elementType type =>
    obtain ⟨elements, expected, helements, hexpected, hall⟩ := ha
    refine ⟨elements, expected, helements, h _ _ hexpected, ?_⟩
    intro e he hopen
    obtain ⟨actual, hactual, hcompat⟩ := hall e he hopen
    exact ⟨actual, h _ _ hactual, h.compatible (registered_of_find? hactual) hcompat⟩
  | permitted values => exact ha
  | pattern pattern => exact ha
  | custom rule => cases hf

theorem keepsFacets (hplain : ∀ t, o.Ancestor s t → t.Plain) (hr : Resolves o s) {slot : String}
    (hk : o.KeepsFacets s slot c) : p.KeepsFacets s slot c := by
  intro t ht f hf
  have htop := (h.ancestor_iff hr).1 ht
  exact (hk t htop f hf).imp_right (h.accepts ((hplain t htop).ownFacets hf))

theorem slotFits (hplain : ∀ t, o.Ancestor s t → t.Plain) (hr : Resolves o s)
    {slots : Slots Content} {e : SlotDescriptor} (hf : o.SlotFits s slots e) :
    p.SlotFits s slots e := by
  refine ⟨hf.1, fun value hvalue => ?_⟩
  obtain ⟨htyped, hkeeps⟩ := hf.2 value hvalue
  exact ⟨h.typedFor htyped, h.keepsFacets hplain hr hkeeps⟩

/-! ## Nodes -/

theorem fitsSchema (hplain : ∀ t, o.Ancestor s t → t.Plain) (hf : o.FitsSchema s c) :
    p.FitsSchema s c := by
  cases c with
  | slotted role type slots =>
    obtain ⟨hr, hslots⟩ := hf
    refine ⟨h.resolves hr, fun name hname => ?_⟩
    obtain ⟨e, he, hfits⟩ := hslots name ((h.declares_iff hr).1 hname)
    exact ⟨e, h.slot? he, h.slotFits hplain hr hfits⟩
  | _ => exact hf

theorem wellFormed (hrules : o.NoRules c) (hw : o.WellFormed c) : p.WellFormed c := by
  obtain ⟨s, hs, hfits⟩ := hw
  exact ⟨s, h _ _ hs, h.fitsSchema (fun t => hrules s t hs) hfits⟩

theorem variableFits (hw : o.WellFormed c) (hv : o.VariableFits c) : p.VariableFits c := by
  obtain ⟨s, hs, -⟩ := hw
  intro s' hs' hkind declared hdeclared
  rw [h _ _ hs] at hs'
  cases hs'
  obtain ⟨t, ht, hcompat⟩ := hv s hs hkind declared hdeclared
  exact ⟨t, h _ _ ht, h.compatible (registered_of_find? ht) hcompat⟩

/-- The schema of a well-formed node declares no further slots, so that nothing more is looked
at. -/
theorem part (hw : o.WellFormed c) (hp : p.Part c d) : o.Part c d := by
  cases hp with
  | @slot role type name slots s' value hs' hd hv =>
    obtain ⟨s, hs, hr, -⟩ := hw
    rw [Content.typeName] at hs
    rw [h _ _ hs] at hs'
    cases hs'
    exact .slot hs ((h.declares_iff hr).1 hd) hv
  | element he => exact .element he
  | item he => exact .item he
  | referent => exact .referent
  | proposition => exact .proposition

/-! ## Content -/

theorem validateContent (hrules : ∀ d, Relation.ReflTransGen o.Part c d → o.NoRules d)
    (hv : o.validateContent c = .ok ()) : p.validateContent c = .ok () := by
  induction hsize : sizeOf c using Nat.strongRecOn generalizing c with
  | _ n ih =>
    obtain ⟨⟨hwell, hvariable⟩, hparts⟩ := validateContent_iff_part.1 hv
    refine validateContent_iff_part.2
      ⟨⟨h.wellFormed (hrules c .refl) hwell, h.variableFits hwell hvariable⟩, fun d hd => ?_⟩
    have hpart := h.part hwell hd
    exact ih (sizeOf d) (hsize ▸ sizeOf_lt_of_part hpart)
      (fun e he => hrules e (.head hpart he)) (hparts d hpart) rfl

theorem checkUndeclared (hc : o.checkUndeclared s c = .ok ()) :
    p.checkUndeclared s c = .ok () := by
  have hdeclared : ∀ {d : Content}, (∀ s : Schema, o.checkUndeclared s d = .ok () →
      p.checkUndeclared s d = .ok ()) → o.Declared d → p.Declared d := by
    rintro d hd ⟨t, ht, hcheck⟩
    exact ⟨t, schema_eq_ok_iff.2 (h _ _ (schema_eq_ok_iff.1 ht)), hd t hcheck⟩
  induction c using Content.induction generalizing s with
  | primitive v => rfl
  | slotted role type slots ih =>
    rw [Ontology.checkUndeclared, checkUndeclaredSlots_eq_ok_iff] at hc ⊢
    intro e he
    obtain ⟨hslot, hvalue⟩ := hc e he
    exact ⟨h.containsSlot hslot, hdeclared (fun s => ih e he) hvalue⟩
  | aggregate type elements template ih _ =>
    rw [Ontology.checkUndeclared, checkUndeclaredAll_eq_ok_iff] at hc ⊢
    intro e he
    exact hdeclared (fun s => ih e he) (hc e he)
  | «variable» slots isMeta _ => rfl
  | ire type referent proposition _ ih =>
    rw [checkUndeclared_ire_eq_ok_iff] at hc ⊢
    exact hdeclared (fun s => ih) hc
  | list elements ih =>
    rw [Ontology.checkUndeclared, checkUndeclaredAll_eq_ok_iff] at hc ⊢
    intro e he
    exact hdeclared (fun s => ih e he) (hc e he)

end

end Keeps

/-- What an ontology defines and accepts without a rule of an application, it defines and accepts
with the vocabulary of a language behind it. -/
theorem compose_of_valid (name : String) (declared inner : Ontology) :
    (∀ type s, declared.find? type = some s →
        (compose name [declared, inner]).find? type = some s) ∧
      ∀ c, (∀ d, Relation.ReflTransGen declared.Part c d → declared.NoRules d) →
        declared.validateContent c = .ok () →
          (compose name [declared, inner]).validateContent c = .ok () ∧
            ∀ s, declared.checkUndeclared s c = .ok () →
              (compose name [declared, inner]).checkUndeclared s c = .ok () := by
  have hkeeps : (compose name [declared, inner]).Keeps declared :=
    Keeps.compose (fun _ _ h => h) name [inner]
  exact ⟨hkeeps, fun c hrules hc =>
    ⟨hkeeps.validateContent hrules hc, fun s => hkeeps.checkUndeclared⟩⟩

/-! ## Gauges -/

def gauge : Schema where
  name := "gauge"
  kind := .predicate
  slots := [⟨"level", TypeName.integer, false⟩]
  facets := [("level", .permitted [.integer 1, .integer 2])]

def gauges : Ontology :=
  (compose "gauges" [Vocabulary.basic]).push gauge

def gaugeAtTwo : Content :=
  .slotted .predicate "gauge" [("Level", .ofInt 2)]

theorem plain_gauges : gauges.Plain := by
  have hfacets : ∀ l ∈ gauges.layers, ∀ s ∈ l.schemas, ∀ f ∈ s.facets,
      f.2.isCustom = false := by decide
  exact plain_of_layers hfacets

theorem slot?_gauge {name : String} (hname : sameName "level" name = true) :
    gauges.slot? gauge name = .ok (some ⟨"level", TypeName.integer, false⟩) := by
  rw [slot?_of_supers_nil rfl, Schema.ownSlot?]
  simp only [gauge, List.find?_cons, hname]

theorem validateContent_gaugeAtTwo : gauges.validateContent gaugeAtTwo = .ok () := by
  have hslots : gauges.slots gauge = .ok [⟨"level", TypeName.integer, false⟩] :=
    slots_of_supers_nil rfl (by decide)
  have hfacets : gauges.facetsOf gauge "level" =
      .ok [.permitted [.integer 1, .integer 2]] := facetsOf_of_supers_nil rfl "level"
  refine validateContent_eq_ok_iff.2 ⟨gauge, rfl, validate_slotted_eq_ok_iff.2
    ⟨_, hslots, List.forall_mem_singleton.2 (.inr ?_)⟩⟩
  exact ⟨.ofInt 2, { name := TypeName.integer, kind := .primitive }, _, rfl,
    fitting_eq_ok_iff.2 ⟨_, rfl, rfl, rfl, rfl⟩,
    validate_primitive_eq_ok_iff.2 ⟨_, rfl, rfl⟩, hfacets, rfl⟩

theorem checkUndeclared_gaugeAtTwo : gauges.checkUndeclared gauge gaugeAtTwo = .ok () := by
  rw [gaugeAtTwo, checkUndeclared, checkUndeclaredSlots_eq_ok_iff]
  refine List.forall_mem_singleton.2 ⟨?_, _, rfl, ?_⟩
  · rw [containsSlot, slot?_gauge rfl]
    rfl
  · rw [Content.ofInt, checkUndeclared]

/-- A gauge is as good with the operators of the semantic language at hand. -/
theorem gaugeAtTwo_with_operators :
    (compose "spoken" [gauges, Vocabulary.operators]).validateContent gaugeAtTwo = .ok () ∧
      (compose "spoken" [gauges, Vocabulary.operators]).checkUndeclared gauge gaugeAtTwo =
        .ok () := by
  obtain ⟨hvalid, hdeclared⟩ := (compose_of_valid "spoken" gauges Vocabulary.operators).2
    gaugeAtTwo (fun d _ => plain_gauges.noRules d) validateContent_gaugeAtTwo
  exact ⟨hvalid, hdeclared gauge checkUndeclared_gaugeAtTwo⟩

end Ontology
end AgentContent
