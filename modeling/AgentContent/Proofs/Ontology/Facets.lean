import AgentContent.Proofs.Ontology.EffectiveSlots

/-!
# AgentContent.Proofs.Ontology.Facets

The search over super types reaches just what a schema extends, also when it starts at a schema
that is not registered: nothing is required but that no other schema has its name.

* `Unrivalled.mem_lineage_iff`: it enters the ancestors.
* `collectFacets_eq_flatMap`: the facets read off its visits are those of the schemas that it
  enters, in their order.
* `lineage_exact`: descent is reachability, and the facets of a slot are those that each ancestor
  attaches to it, own ones first.
-/

namespace AgentContent
namespace Ontology

variable {o : Ontology} {s t : Schema}

theorem Unrivalled.mem_lineage_iff (hs : o.Unrivalled s) :
    .enter t ∈ o.lineage s ↔ o.Ancestor s t :=
  ⟨ancestor_of_mem_lineage, hs.mem_lineage⟩

/-- Facets are collected from one schema after the other, in the order in which the search comes to
them. -/
theorem collectFacets_eq_flatMap {visits : List Visit} (h : ∀ super, .missing super ∉ visits)
    (slot : String) : collectFacets o slot visits =
      .ok ((visits.filterMap Visit.entered?).flatMap (·.ownFacets slot)) := by
  induction visits with
  | nil => rfl
  | cons visit rest ih =>
    have hrest := ih fun super hm => h super (List.mem_cons_of_mem _ hm)
    cases visit with
    | enter u =>
      rw [collectFacets, hrest, List.filterMap_cons, Visit.entered?, List.flatMap_cons]
    | missing super => exact absurd List.mem_cons_self (h super)
    | leave u => exact hrest

/-- Let a schema be the one that its name stands for, or its name unknown. It descends from a name
just when super types, each resolved, lead from it to a schema of that name. Where all that it
extends is defined, a depth-first walk over its super types comes to each further ancestor once, and
every slot has the facets that the schema attaches to it, and then those of the schemas on that walk
in turn. -/
theorem lineage_exact (hs : o.find? s.name = some s ∨ o.find? s.name = none) :
    (∀ name, o.descendsFrom s name = true ↔
      ∃ t, o.Ancestor s t ∧ sameName t.name name = true) ∧
    (Resolves o s → ∃ above last, o.Walk [foldName s.name] s.supers above last ∧
      ((s :: above).map fun t => foldName t.name).Nodup ∧ (∀ t, t ∈ s :: above ↔ o.Ancestor s t) ∧
        ∀ slot, o.facetsOf s slot =
          .ok (s.ownFacets slot ++ above.flatMap (·.ownFacets slot))) := by
  have hsole : o.Unrivalled s := unrivalled_iff.2 hs
  refine ⟨fun name => hsole.descendsFrom_iff, fun hr => ?_⟩
  obtain ⟨above, last, hwalk⟩ := exists_walk [foldName s.name] fun name hname => hr.super hname
  obtain ⟨visits, hfollows, hlineage⟩ := exists_visits hwalk
  have hentered : (o.lineage s).filterMap Visit.entered? = s :: above := by
    simp [hlineage, List.filterMap_cons, Visit.entered?, hfollows.entered]
  obtain ⟨hnodup, hfresh⟩ := hwalk.nodup
  refine ⟨above, last, hwalk, ?_, fun t => ?_, fun slot => ?_⟩
  · rw [List.map_cons, List.nodup_cons]
    exact ⟨fun hmem => hfresh _ hmem List.mem_cons_self, hnodup⟩
  · rw [← hentered, mem_entered_iff, hsole.mem_lineage_iff]
  · rw [facetsOf, collectFacets_eq_flatMap hr.not_missing, hentered, List.flatMap_cons]

def medium : Schema where
  name := "medium"
  kind := .concept
  facets := [("authors", .cardinality 1 none), ("title", .cardinality 0 none)]

def printed : Schema where
  name := "printed"
  kind := .concept
  supers := ["MEDIUM"]
  facets := [("AUTHORS", .elementType "person")]

def digital : Schema where
  name := "digital"
  kind := .concept
  supers := ["medium"]
  facets := [("Authors", .cardinality 0 (some 9))]

def issue : Schema where
  name := "issue"
  kind := .concept
  supers := ["printed", "digital", "Issue"]

/-- A diamond of types with facets that leads back to itself. -/
def catalogue : Ontology where
  name := "catalogue"
  own := { schemas := [medium, printed, digital, issue] }

/-- Not registered in the catalogue. -/
def zine : Schema where
  name := "zine"
  kind := .concept
  supers := ["Issue", "medium"]
  facets := [("authors", .cardinality 2 none)]

theorem resolves_zine : catalogue.Resolves zine := by
  have hall : ∀ l ∈ catalogue.layers, ∀ s ∈ l.schemas, ∀ super ∈ s.supers,
      (catalogue.find? super).isSome = true := by decide
  have hissue : catalogue.Registered issue := rfl
  have hmedium : catalogue.Registered medium := rfl
  refine resolves_of_supers fun super hsuper => ?_
  simp only [zine, List.mem_cons, List.not_mem_nil, or_false] at hsuper
  rcases hsuper with rfl | rfl
  · exact ⟨issue, rfl, Registered.resolves (fun _ ht => forall_of_layers hall ht) hissue⟩
  · exact ⟨medium, rfl, Registered.resolves (fun _ ht => forall_of_layers hall ht) hmedium⟩

/-- A schema that the ontology does not know descends from what it extends, and its slot has facets
of its own before those of the others. -/
theorem lineage_exact_zine : catalogue.find? zine.name = none ∧ catalogue.Resolves zine ∧
    catalogue.descendsFrom zine "DIGITAL" = true ∧
      ∃ above last, catalogue.Walk ["zine"] zine.supers above last ∧
        (∀ t, t ∈ zine :: above ↔ catalogue.Ancestor zine t) ∧
          catalogue.facetsOf zine "authors" =
            .ok (.cardinality 2 none :: above.flatMap (·.ownFacets "authors")) := by
  have hunknown : catalogue.find? zine.name = none := rfl
  obtain ⟨hdescends, hfacets⟩ := lineage_exact (.inr hunknown)
  obtain ⟨above, last, hwalk, -, hancestors, hall⟩ := hfacets resolves_zine
  have hdigital : catalogue.Ancestor zine digital :=
    .tail (.single ⟨"Issue", List.mem_cons_self, rfl⟩) ⟨"digital", by decide, rfl⟩
  exact ⟨hunknown, resolves_zine, (hdescends "DIGITAL").2 ⟨digital, hdigital, rfl⟩, above, last,
    hwalk, hancestors, hall "authors"⟩

end Ontology
end AgentContent
