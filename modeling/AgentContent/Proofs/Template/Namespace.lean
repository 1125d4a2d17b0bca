import AgentContent.Proofs.Content.Nodes
import AgentContent.Template.Edit
import AgentContent.Vocabulary.Basic

/-!
# AgentContent.Proofs.Template.Namespace

Type names that are moved into a namespace and out of it again are what they were, and the other way
round, as long as no move meets a name of the base.

* `Content.renameTypes_renameTypes`, `Content.renameTypes_eq_self`: renaming twice, and renaming to
  the same names.
* `Content.Qualifies`, `Content.Unqualifies`: what becomes of one name.
* `Content.Retyped`: contents that differ in the types of slotted values and aggregates only.
* `Content.namespaces_undo`: each move undoes the other and changes nothing but such types.
-/

namespace AgentContent
namespace Content

variable {f g : String → String} {base : Ontology} {space name : String} {c : Content}

/-! ## Renaming -/

theorem renameAll_eq_map (f : String → String) (cs : List Content) :
    renameAll f cs = cs.map (renameTypes f) := by
  induction cs with
  | nil => rfl
  | cons c cs ih => rw [renameAll, ih, List.map_cons]

theorem renameSlots_eq_map (f : String → String) (slots : Slots Content) :
    renameSlots f slots = slots.map fun e => (e.1, e.2.renameTypes f) := by
  induction slots with
  | nil => rfl
  | cons e slots ih =>
    obtain ⟨k, c⟩ := e
    rw [renameSlots, ih, List.map_cons]

theorem renameTypes_renameTypes (f g : String → String) (c : Content) :
    (c.renameTypes f).renameTypes g = c.renameTypes (g ∘ f) := by
  induction c using Content.induction with
  | primitive p => rfl
  | slotted role type slots ih =>
    simp only [renameTypes, renameSlots_eq_map, List.map_map, Function.comp_apply]
    congr 1
    exact List.map_congr_left fun e he => congrArg (Prod.mk e.1) (ih e he)
  | aggregate type elements template ih _ =>
    simp only [renameTypes, renameAll_eq_map, List.map_map, Function.comp_apply]
    congr 1
    exact List.map_congr_left ih
  | «variable» slots isMeta _ => rfl
  | ire type referent proposition ihr ihp => simp only [renameTypes, ihr, ihp]
  | list elements ih =>
    simp only [renameTypes, renameAll_eq_map, List.map_map]
    congr 1
    exact List.map_congr_left ih

/-- The type of a slotted value or an aggregate. -/
def ownType? : Content → Option String
  | .slotted _ type _ => some type
  | .aggregate type _ _ => some type
  | _ => none

/-- A renaming that keeps the type of every node keeps the content. -/
theorem renameTypes_eq_self (h : c.Each false fun d => ∀ n ∈ d.ownType?, f n = n) :
    c.renameTypes f = c := by
  induction c using Content.induction with
  | primitive p => rfl
  | slotted role type slots ih =>
    have hslots : (slots.map fun e => (e.1, e.2.renameTypes f)) = slots :=
      map_eq_self fun e he => congrArg (Prod.mk e.1) (ih e he (h.slot he))
    rw [renameTypes, renameSlots_eq_map, hslots, h.self type rfl]
  | aggregate type elements template ih _ =>
    have helements : elements.map (renameTypes f) = elements :=
      map_eq_self fun d hd => ih d hd (h.element hd)
    rw [renameTypes, renameAll_eq_map, helements, h.self type rfl]
  | «variable» slots isMeta _ => rfl
  | ire type referent proposition ihr ihp =>
    rw [renameTypes, ihr h.referent, ihp h.proposition]
  | list elements ih =>
    have helements : elements.map (renameTypes f) = elements :=
      map_eq_self fun d hd => ih d hd (h.item hd)
    rw [renameTypes, renameAll_eq_map, helements]

/-! ## One name -/

/-- A name that is moved into the namespace. -/
inductive Qualifies (base : Ontology) (space : String) : String → String → Prop where
  | known {name : String} (h : base.contains name = true) : Qualifies base space name name
  | moved {name : String} (h : base.contains name = false) :
    Qualifies base space name (space ++ name)

/-- A name that is moved out of the namespace. -/
inductive Unqualifies (base : Ontology) (space : String) : String → String → Prop where
  | known {name : String} (h : base.contains name = true) : Unqualifies base space name name
  | moved {name : String} (h : base.contains (space ++ name) = false) :
    Unqualifies base space (space ++ name) name
  | other {name : String} (h : base.contains name = false) (hother : ∀ rest, name ≠ space ++ rest) :
    Unqualifies base space name name

theorem qualifies (base : Ontology) (space name : String) :
    Qualifies base space name (qualify base space name) := by
  unfold qualify
  split
  · rename_i h
    exact .known h
  · rename_i h
    exact .moved (Bool.not_eq_true _ ▸ h)

theorem Qualifies.eq {n n' : String} (h : Qualifies base space n n') : qualify base space n = n' := by
  cases h with
  | known h => exact if_pos h
  | moved h => rw [qualify, h, if_neg Bool.false_ne_true]

theorem unqualify_append (h : base.contains (space ++ name) = false) :
    unqualify base space (space ++ name) = name := by
  have hprefix : space.toList.isPrefixOf (space ++ name).toList = true := by
    rw [List.isPrefixOf_iff_prefix, String.toList_append]
    exact List.prefix_append _ _
  rw [unqualify, h, if_neg Bool.false_ne_true, if_pos hprefix, String.toList_append,
    List.drop_left, String.ofList_toList]

theorem unqualifies (base : Ontology) (space name : String) :
    Unqualifies base space name (unqualify base space name) := by
  cases hknown : base.contains name with
  | true =>
    rw [unqualify, if_pos hknown]
    exact .known hknown
  | false =>
    by_cases hmoved : ∃ rest, name = space ++ rest
    · obtain ⟨rest, rfl⟩ := hmoved
      rw [unqualify_append hknown]
      exact .moved hknown
    · have hprefix : space.toList.isPrefixOf name.toList = false := by
        rw [← Bool.not_eq_true, List.isPrefixOf_iff_prefix]
        rintro ⟨rest, hrest⟩
        refine hmoved ⟨String.ofList rest, String.toList_inj.1 ?_⟩
        rw [String.toList_append, String.toList_ofList, hrest]
      rw [unqualify, hknown, if_neg Bool.false_ne_true, hprefix, if_neg Bool.false_ne_true]
      exact .other hknown fun rest h => hmoved ⟨rest, h⟩

theorem unqualify_of_contains (h : base.contains name = true) : unqualify base space name = name :=
  if_pos h

/-! ## Whole contents -/

/-- The base knows the type of the node, or knows it neither alone nor behind the text of the
namespace. -/
def Enters (base : Ontology) (space : String) (d : Content) : Prop :=
  ∀ n ∈ d.ownType?, base.contains n = false → base.contains (space ++ n) = false

instance (base : Ontology) (space : String) : DecidablePred (Enters base space) := fun d =>
  inferInstanceAs (Decidable (∀ n ∈ d.ownType?, base.contains n = false →
    base.contains (space ++ n) = false))

/-- The base knows the type of the node, or the type is the text of the namespace before a name that
the base does not know. -/
def Leaves (base : Ontology) (space : String) (d : Content) : Prop :=
  ∀ n ∈ d.ownType?, base.contains n = false →
    ∃ rest, n = space ++ rest ∧ base.contains rest = false

theorem removeNamespace_addNamespace (h : c.Each false (Enters base space)) :
    removeNamespace base space (addNamespace base space c) = c := by
  rw [removeNamespace, addNamespace, renameTypes_renameTypes]
  refine renameTypes_eq_self fun d hd n hn => ?_
  rw [Function.comp_apply]
  have hname := qualifies base space n
  generalize qualify base space n = n' at hname ⊢
  cases hname with
  | known hknown => exact unqualify_of_contains hknown
  | moved hunknown => exact unqualify_append (h d hd n hn hunknown)

theorem addNamespace_removeNamespace (h : c.Each false (Leaves base space)) :
    addNamespace base space (removeNamespace base space c) = c := by
  rw [removeNamespace, addNamespace, renameTypes_renameTypes]
  refine renameTypes_eq_self fun d hd n hn => ?_
  rw [Function.comp_apply]
  cases hknown : base.contains n with
  | true => rw [unqualify_of_contains hknown, (Qualifies.known hknown).eq]
  | false =>
    obtain ⟨rest, rfl, hrest⟩ := h d hd n hn hknown
    rw [unqualify_append hknown, (Qualifies.moved hrest).eq]

/-- The contents have the same nodes in the same places, and differ at most in the types of slotted
values and aggregates, which are related. -/
inductive Retyped (R : String → String → Prop) : Content → Content → Prop where
  | primitive (p : Primitive) : Retyped R (.primitive p) (.primitive p)
  | slotted {role : Role} {type type' : String} {xs ys : Slots Content} (types : R type type')
    (names : xs.map (·.1) = ys.map (·.1))
    (values : List.Forall₂ (fun a b => Retyped R a.2 b.2) xs ys) :
    Retyped R (.slotted role type xs) (.slotted role type' ys)
  | aggregate {type type' : String} {xs ys : List Content} {template : Option Content}
    (types : R type type') (elements : List.Forall₂ (Retyped R) xs ys) :
    Retyped R (.aggregate type xs template) (.aggregate type' ys template)
  | variable (slots : Slots Content) (isMeta : Bool) :
    Retyped R (.variable slots isMeta) (.variable slots isMeta)
  | ire {type : String} {r r' p p' : Content} (referent : Retyped R r r')
    (proposition : Retyped R p p') : Retyped R (.ire type r p) (.ire type r' p')
  | list {xs ys : List Content} (elements : List.Forall₂ (Retyped R) xs ys) :
    Retyped R (.list xs) (.list ys)

theorem retyped_renameTypes {R : String → String → Prop} (h : ∀ n, R n (f n)) (c : Content) :
    Retyped R c (c.renameTypes f) := by
  have hall : ∀ cs : List Content, (∀ d ∈ cs, Retyped R d (d.renameTypes f)) →
      List.Forall₂ (Retyped R) cs (renameAll f cs) := by
    intro cs hcs
    rw [renameAll_eq_map, List.forall₂_map_right_iff]
    exact List.forall₂_same.2 hcs
  induction c using Content.induction with
  | primitive p => exact .primitive p
  | slotted role type slots ih =>
    rw [renameTypes, renameSlots_eq_map]
    refine .slotted (h type) ?_ ?_
    · rw [List.map_map]
      rfl
    · rw [List.forall₂_map_right_iff]
      exact List.forall₂_same.2 ih
  | aggregate type elements template ih _ => exact .aggregate (h type) (hall elements ih)
  | «variable» slots isMeta _ => exact .variable slots isMeta
  | ire type referent proposition ihr ihp => exact .ire ihr ihp
  | list elements ih => exact .list (hall elements ih)

/-- Content that is moved into a namespace and out of it again, or out of it and into it again, is
what it was, as long as no move makes a name of the base. Each move changes the types of slotted
values and aggregates that the base does not know, and nothing else. -/
theorem namespaces_undo (base : Ontology) (space : String) (c : Content) :
    (c.Each false (Enters base space) →
      removeNamespace base space (addNamespace base space c) = c) ∧
    (c.Each false (Leaves base space) →
      addNamespace base space (removeNamespace base space c) = c) ∧
    Retyped (Qualifies base space) c (addNamespace base space c) ∧
    Retyped (Unqualifies base space) c (removeNamespace base space c) :=
  ⟨removeNamespace_addNamespace, addNamespace_removeNamespace,
    retyped_renameTypes (qualifies base space) c, retyped_renameTypes (unqualifies base space) c⟩

/-- A book with a tag and an owner, whose types belong to a library apart from the owner's. -/
def libraryBook : Content :=
  .slotted .concept "lib:Book" [
    ("tags", .aggregate TypeName.sequence [.slotted .concept "lib:Tag" []] none),
    ("owner", .slotted .concept Vocabulary.agentIdentifier [("name", .ofString "a@p")])]

def plainBook : Content :=
  .slotted .concept "Book" [
    ("tags", .aggregate TypeName.sequence [.slotted .concept "Tag" []] none),
    ("owner", .slotted .concept Vocabulary.agentIdentifier [("name", .ofString "a@p")])]

theorem leaves_libraryBook : libraryBook.Each false (Leaves Vocabulary.basic "lib:") := by
  have hbase : ∀ n, Vocabulary.basic.contains n = true → Vocabulary.basic.contains n = false →
      ∃ rest, n = "lib:" ++ rest ∧ Vocabulary.basic.contains rest = false := by
    intro n h h'
    rw [h] at h'
    cases h'
  show ∀ d ∈ [libraryBook, .aggregate TypeName.sequence [.slotted .concept "lib:Tag" []] none,
    .slotted .concept "lib:Tag" [],
    .slotted .concept Vocabulary.agentIdentifier [("name", .ofString "a@p")], .ofString "a@p"],
    Leaves Vocabulary.basic "lib:" d
  simp only [List.forall_mem_cons, Leaves, libraryBook, ownType?, Option.mem_some_iff,
    forall_eq']
  refine ⟨fun _ => ⟨"Book", rfl, by decide⟩, hbase _ (by decide), fun _ => ⟨"Tag", rfl, by decide⟩,
    hbase _ (by decide), ?_, List.forall_mem_nil _⟩
  rintro n ⟨⟩

theorem namespaces_undo_book :
    plainBook.Each false (Enters Vocabulary.basic "lib:") ∧
      removeNamespace Vocabulary.basic "lib:" libraryBook = plainBook ∧
      libraryBook.Each false (Leaves Vocabulary.basic "lib:") ∧
      addNamespace Vocabulary.basic "lib:" plainBook = libraryBook := by
  have henters : plainBook.Each false (Enters Vocabulary.basic "lib:") := by decide
  have hadd : addNamespace Vocabulary.basic "lib:" plainBook = libraryBook := rfl
  have hremove : removeNamespace Vocabulary.basic "lib:" libraryBook = plainBook :=
    hadd ▸ (namespaces_undo Vocabulary.basic "lib:" plainBook).1 henters
  refine ⟨henters, hremove, leaves_libraryBook, ?_⟩
  exact hremove ▸ (namespaces_undo Vocabulary.basic "lib:" libraryBook).2.1 leaves_libraryBook

end Content
end AgentContent
