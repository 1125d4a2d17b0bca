import AgentContent.Proofs.Conversion.Externalise
import AgentContent.Vocabulary.Basic

/-!
# AgentContent.Proofs.Vocabulary.Basic

Ontologies over others, over the basic one above all.

* `Ontology.Keeps`: an ontology defines what another one defines, in the same way.
* `Ontology.keeps_of_own`: one over another does so when it takes no name of it.
* `Ontology.find?_compose`: what composed ontologies define.
* `Vocabulary.find?_primitive`, `Vocabulary.find?_root`: the types of primitives and the root types.
* `Vocabulary.plain_operators`: the operators come without rules of an application.
-/

namespace AgentContent
namespace Ontology

/-- What the other ontology defines, the ontology defines in the same way. -/
def Keeps (o base : Ontology) : Prop :=
  ∀ name s, base.find? name = some s → o.find? name = some s

/-- An ontology over another keeps it when its own schemas have other names. -/
theorem keeps_of_own {o base : Ontology} (hi : o.inherited = base.layers)
    (h : ∀ s ∈ o.own.schemas, base.find? s.name = none) : o.Keeps base := by
  intro name s hs
  have hown : o.own.find? name = none := by
    cases hfound : o.own.find? name with
    | none => rfl
    | some t =>
      have ht := List.mem_of_find?_eq_some hfound
      have hname := List.find?_some (p := fun s : Schema => sameName s.name name) hfound
      rw [← find?_congr hname, h t ht] at hs
      cases hs
  rw [find?, layers, List.findSome?_cons, hown, hi]
  exact hs

theorem find?_compose (name : String) (bases : List Ontology) (key : String) :
    (compose name bases).find? key = bases.findSome? (·.find? key) := by
  have hflat : (bases.flatMap layers).findSome? (·.find? key) =
      bases.findSome? (·.find? key) := by
    induction bases with
    | nil => rfl
    | cons b rest ih =>
      rw [List.flatMap_cons, List.findSome?_append, ih, List.findSome?_cons, find?]
      cases b.layers.findSome? (·.find? key) <;> rfl
  rw [← hflat]
  rfl

theorem Keeps.compose {o base : Ontology} (h : o.Keeps base) (name : String)
    (bases : List Ontology) : (compose name (o :: bases)).Keeps base := by
  intro key s hs
  rw [find?_compose, List.findSome?_cons, h key s hs]

theorem Plain.compose {bases : List Ontology} (h : ∀ b ∈ bases, b.Plain) (name : String) :
    (compose name bases).Plain := by
  intro key s hs
  rw [find?_compose] at hs
  obtain ⟨b, hmem, hb⟩ := List.exists_of_findSome?_eq_some hs
  exact h b hmem key s hb

theorem plain_of_layers {o : Ontology} (h : ∀ l ∈ o.layers, ∀ s ∈ l.schemas, s.Plain) :
    o.Plain :=
  fun _ _ hs => forall_of_layers h hs

theorem Keeps.hasSequence {o : Ontology} (h : o.Keeps Vocabulary.basic) : o.HasSequence :=
  ⟨_, h TypeName.sequence _ rfl, rfl⟩

end Ontology

namespace Vocabulary

/-- The type of a primitive extends nothing and asks for nothing. -/
theorem find?_primitive (p : Primitive) :
    basic.find? p.typeName = some { name := p.typeName, kind := .primitive } := by
  cases p with
  | string s => show basic.find? TypeName.string = _; rfl
  | boolean b => show basic.find? TypeName.boolean = _; rfl
  | integer n => show basic.find? TypeName.integer = _; rfl
  | float x => show basic.find? TypeName.float = _; rfl
  | date t => show basic.find? TypeName.date = _; rfl
  | bytes bs => show basic.find? TypeName.byteSequence = _; rfl

theorem find?_root (k : SchemaKind) : basic.find? k.rootName = some (.root k) := by
  cases k <;> exact rfl

theorem plain_operators : operators.Plain := by
  have hfacets : ∀ l ∈ operators.layers, ∀ s ∈ l.schemas, ∀ f ∈ s.facets,
      f.2.isCustom = false := by decide
  exact Ontology.plain_of_layers hfacets

end Vocabulary
end AgentContent
