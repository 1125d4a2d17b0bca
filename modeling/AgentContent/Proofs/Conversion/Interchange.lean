import AgentContent.Proofs.Content.Equivalence
import AgentContent.Proofs.Content.History
import AgentContent.Proofs.Conversion.Internalise
import AgentContent.Proofs.Vocabulary.Basic

/-!
# AgentContent.Proofs.Conversion.Interchange

Equal contents are interchangeable, whatever edits they come from.

* `Ontology.Interchangeable`: two contents pass the same checks and stand for the same data.
* `Node.equivalence_same`: equality is an equivalence on the contents that edits lead to.
* `Node.interchangeable_of_same`: equal contents are interchangeable under every ontology without
  rules of an application, and what is equal differs in style only.
-/

namespace AgentContent
namespace Ontology

/-- Neither validation nor the search for undeclared slots nor the conversion to data tells the two
contents apart, whatever schema they are held against. -/
structure Interchangeable (o : Ontology) (c d : Content) : Prop where
  validates : o.validateContent c = .ok () ↔ o.validateContent d = .ok ()
  validatesAs : ∀ s : Schema, s.Plain → (o.validate s c = .ok () ↔ o.validate s d = .ok ())
  declares : ∀ s : Schema, o.checkUndeclared s c = .ok () ↔ o.checkUndeclared s d = .ok ()
  data : ∀ (expected : Schema) (v : Json),
    o.internalise expected c = .ok v ↔ o.internalise expected d = .ok v

theorem interchangeable_of_same {o : Ontology} (ho : o.Plain) {c d : Content}
    (h : c.same d = true) (hc : c.Each false Content.Keyed) (hd : d.Each false Content.Keyed) :
    o.Interchangeable c d where
  validates := validateContent_of_same ho h hc hd
  validatesAs := (validate_of_same ho h hc hd).2
  declares := checkUndeclared_of_same h hc hd
  data := fun expected => toData_of_same h hc hd expected none

end Ontology

namespace Node

variable {h : HashFunction}

theorem Reached.keyed {n : Node} (hn : Reached h n) : n.content.Each false Content.Keyed :=
  hn.sound.keyed.without

/-- Equality is an equivalence on the contents that edits lead to. -/
theorem equivalence_same (h : HashFunction) :
    Equivalence fun m n : { n : Node // Reached h n } => m.1.content.same n.1.content = true where
  refl := fun n => Content.same_refl n.2.keyed
  symm := fun {m n} hs => Content.same_symm hs m.2.keyed n.2.keyed
  trans := fun {m n k} hmn hnk =>
    Content.same_trans hmn m.2.keyed n.2.keyed k.1.content k.2.keyed hnk

/-- On the contents that edits lead to, equality is an equivalence that overlooks the order of
slots, the letter case of their names and templates, and nothing else; and equal contents are
interchangeable. -/
theorem same_equivalence_and_interchangeable (h : HashFunction) :
    (Equivalence fun m n : { n : Node // Reached h n } =>
        m.1.content.same n.1.content = true) ∧
      (∀ m n : { n : Node // Reached h n },
        m.1.content.same n.1.content = true ↔ Content.Restyled m.1.content n.1.content) ∧
      ∀ o : Ontology, o.Plain → ∀ m n : { n : Node // Reached h n },
        m.1.content.same n.1.content = true → o.Interchangeable m.1.content n.1.content :=
  ⟨equivalence_same h, fun m n => Content.same_iff_restyled m.2.keyed n.2.keyed,
    fun _ ho m n hs => Ontology.interchangeable_of_same ho hs m.2.keyed n.2.keyed⟩

/-- Books with the words on their covers. -/
def shelf : Ontology where
  name := "shelf"
  own := { schemas := [
    { name := "Book", kind := .concept, slots := [⟨"title", TypeName.string, false⟩,
      ⟨"words", TypeName.set, true⟩] },
    { name := TypeName.set, kind := .aggregate },
    { name := TypeName.string, kind := .primitive }] }

theorem plain_shelf : shelf.Plain :=
  Ontology.plain_of_layers (by simp [shelf, Ontology.layers, Schema.Plain])

/-- The one book is filled slot by slot, the other one is built in another order, with other
spellings and with a template. -/
theorem interchangeable_books :
    let words := Content.aggregate TypeName.set [.ofString "sand"]
    let m : Content := .slotted .concept "Book" [("title", .ofString "Dune"), ("words", words none)]
    let n : Content := .slotted .concept "Book"
      [("WORDS", words (some (.ofString "spice"))), ("Title", .ofString "Dune")]
    shelf.Plain ∧ m.same n = true ∧ shelf.Interchangeable m n := by
  intro words m n
  have hm : Reached mixing (ofContent m) := .ofContent (by decide)
  have hn : Reached mixing (ofContent n) := .ofContent (by decide)
  have hs : m.same n = true := by decide +kernel
  obtain ⟨-, -, hall⟩ := same_equivalence_and_interchangeable mixing
  have hbooks := hall shelf plain_shelf ⟨_, hm⟩ ⟨_, hn⟩
  simp only [content_ofContent] at hbooks
  exact ⟨plain_shelf, hs, hbooks hs⟩

end Node
end AgentContent
