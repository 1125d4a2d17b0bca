import AgentContent.Template.Create
import AgentContent.Proofs.Content.Nodes
import AgentContent.Proofs.Ontology.Ancestors
import AgentContent.Vocabulary.Basic
import Mathlib.Data.List.Nodup

/-!
# AgentContent.Proofs.Template.Outline

What the template of a schema is, whatever the types lead to: a type may lead back to itself through
its slots and through the elements of aggregates.

* `Content.variableNames`: the names of all variables, in the order of the nodes.
* `Uses`: a schema asks for values of another one in a slot, or among the elements of one.
* `IsHole`: where a template has a variable.
* `Outlines`: what stands where in a template, with the types of all nodes around it.
* `Makes`: what the making of a part comes to, with the numbers that its variables take.
* `template_outline`: every schema has such a template, with numbers from zero on, or it leads to a
  type that nobody defines.
-/

namespace AgentContent

/-! ## Variables -/

/-- The name of the variable with a number in a template. -/
def holeName (n : Nat) : String :=
  "v" ++ toString n

theorem holeName_injective : Function.Injective holeName := by
  intro n m h
  have hdigits := congrArg String.toList h
  simp only [holeName, String.toList_append, List.append_cancel_left_eq] at hdigits
  have hnumber := congrArg (fun ds => Nat.ofDigitChars 10 ds 0) hdigits
  simpa [Nat.toString_eq_ofList_toDigits] using hnumber

/-- The names are those of the numbers from the first one on, up to the second one. -/
def Numbered (n m : Nat) (names : List String) : Prop :=
  ∃ k, m = n + k ∧ names = (List.range' n k).map holeName

theorem Numbered.nil (n : Nat) : Numbered n n [] :=
  ⟨0, rfl, rfl⟩

theorem Numbered.single (n : Nat) : Numbered n (n + 1) [holeName n] :=
  ⟨1, rfl, rfl⟩

theorem Numbered.append {n m l : Nat} {names names' : List String} (h : Numbered n m names)
    (h' : Numbered m l names') : Numbered n l (names ++ names') := by
  obtain ⟨k, rfl, rfl⟩ := h
  obtain ⟨k', rfl, rfl⟩ := h'
  exact ⟨k + k', Nat.add_assoc n k k', by rw [← List.range'_append_1, List.map_append]⟩

namespace Content

def nameOfVariable? : Content → Option String
  | .variable slots _ => some (variableName slots)
  | _ => none

/-- The names of the variables of a content, those in templates of elements included. -/
def variableNames (c : Content) : List String :=
  (c.nodes true).filterMap nameOfVariable?

theorem variableNames_slotted (role : Role) (type : String) (slots : Slots Content) :
    (slotted role type slots).variableNames = slots.flatMap fun e => e.2.variableNames := by
  rw [variableNames, nodes_slotted, List.filterMap_cons_none rfl, List.filterMap_flatMap]
  rfl

theorem variableNames_aggregate_nil (type : String) (template : Option Content) :
    (aggregate type [] template).variableNames = template.toList.flatMap variableNames := by
  rw [variableNames, nodes_aggregate, List.filterMap_cons_none rfl, if_pos rfl, List.flatMap_nil,
    List.nil_append, List.filterMap_flatMap]
  rfl

end Content

theorem variableNames_numberedVariable (s : Schema) (n : Nat) :
    (Ontology.numberedVariable s n).variableNames = [holeName n] :=
  rfl

namespace Ontology

variable {o : Ontology} {s t : Schema} {c : Content} {path around : List String}

/-! ## Types that a template asks for -/

/-- Values of the schema have values of the type in a slot, or among the elements of one. -/
inductive Asks (o : Ontology) (s : Schema) : String → Prop where
  | slot {ds : List SlotDescriptor} {d : SlotDescriptor} (hds : o.slots s = .ok ds) (hd : d ∈ ds) :
    Asks o s d.type
  | element {ds : List SlotDescriptor} {d : SlotDescriptor} {t : Schema} {type : String}
    (hds : o.slots s = .ok ds) (hd : d ∈ ds) (ht : o.find? d.type = some t)
    (hk : t.kind = .aggregate) (he : o.elementType? s d.name = .ok (some type)) : Asks o s type

theorem not_asks_of_slots_nil (h : o.slots s = .ok []) {type : String} : ¬ o.Asks s type := by
  intro hask
  cases hask with
  | slot hds hd =>
    rw [h] at hds
    cases hds
    cases hd
  | element hds hd =>
    rw [h] at hds
    cases hds
    cases hd

/-- The second schema is that of a type for which the first one asks. -/
def Uses (o : Ontology) (s t : Schema) : Prop :=
  ∃ type, o.Asks s type ∧ o.find? type = some t

/-- The error is about a type that nobody defines and that the schema, or one that it uses on and
on, extends or asks for. -/
def Unresolved (o : Ontology) (s : Schema) (e : OntologyError) : Prop :=
  ∃ t name, Relation.ReflTransGen o.Uses s t ∧ (Extends o t name ∨ o.Asks t name) ∧ o.Unknown name e

theorem Unresolved.uses {e : OntologyError} (hs : o.Uses s t) (h : o.Unresolved t e) :
    o.Unresolved s e := by
  obtain ⟨u, name, hu, hname⟩ := h
  exact ⟨u, name, .head hs hu, hname⟩

theorem unresolved_of_extends {e : OntologyError}
    (h : ∃ super, Extends o s super ∧ o.Unknown super e) : o.Unresolved s e := by
  obtain ⟨super, hextends, he⟩ := h
  exact ⟨s, super, .refl, .inl hextends, he⟩

theorem unresolved_of_asks {type : String} (hask : o.Asks s type) (hnone : o.find? type = none) :
    o.Unresolved s (.schemaNotFound type o.name) :=
  ⟨s, type, .refl, .inr hask, hnone, rfl⟩

/-! ## Outlines -/

/-- Where values of the schema are asked for, a template has a variable: they have neither slots nor
elements, or the schema is abstract, or it is one of the types around the place. -/
def IsHole (around : List String) (s : Schema) : Prop :=
  if s.kind.isSlotted then foldName s.name ∈ around ∨ s.isAbstract = true
  else s.kind ≠ .aggregate ∧ s.kind ≠ .contentElementList

/-- A place in a template: where values of a schema are asked for, or a slot of values of one. -/
inductive Place where
  | of (s : Schema)
  | slot (s : Schema) (d : SlotDescriptor)

def Place.schema : Place → Schema
  | .of s => s
  | .slot s _ => s

/-- The content is what a template has in a place, given the types of the nodes around it.
Aggregates are empty, and in slots that say of which type their elements are they have an outline of
those. -/
inductive Outlines (o : Ontology) : List String → Place → Content → Prop where
  | hole {around : List String} {s : Schema} {n : Nat} (h : IsHole around s) :
    Outlines o around (.of s) (numberedVariable s n)
  | aggregate {around : List String} {s : Schema} (hk : s.kind = .aggregate) :
    Outlines o around (.of s) (.aggregate s.name [] none)
  | list {around : List String} {s : Schema} (hk : s.kind = .contentElementList) :
    Outlines o around (.of s) (.list [])
  | slotted {around : List String} {s : Schema} {ds : List SlotDescriptor} {slots : Slots Content}
    (hk : s.kind.isSlotted = true) (hnew : foldName s.name ∉ around)
    (hconcrete : s.isAbstract = false) (hds : o.slots s = .ok ds)
    (hnames : slots.map (·.1) = ds.map (·.name))
    (h : ∀ d ∈ ds, ∀ c, (d.name, c) ∈ slots →
      Outlines o (foldName s.name :: around) (.slot s d) c) :
    Outlines o around (.of s) (.slotted (roleOfKind s.kind) s.name slots)
  | plain {around : List String} {s t : Schema} {d : SlotDescriptor} {c : Content}
    (ht : o.find? d.type = some t) (hk : t.kind ≠ .aggregate) (h : Outlines o around (.of t) c) :
    Outlines o around (.slot s d) c
  | untyped {around : List String} {s t : Schema} {d : SlotDescriptor}
    (ht : o.find? d.type = some t) (hk : t.kind = .aggregate)
    (he : o.elementType? s d.name = .ok none) :
    Outlines o around (.slot s d) (.aggregate t.name [] none)
  | typed {around : List String} {s t u : Schema} {d : SlotDescriptor} {type : String} {c : Content}
    (ht : o.find? d.type = some t) (hk : t.kind = .aggregate)
    (he : o.elementType? s d.name = .ok (some type)) (hu : o.find? type = some u)
    (h : Outlines o (foldName t.name :: around) (.of u) c) :
    Outlines o around (.slot s d) (.aggregate t.name [] (some c))

/-! ## Making a template -/

/-- The template where values of the schema are asked for, inside the types of the path. -/
def templateAt (o : Ontology) (path : List String) (s : Schema) (n : Nat) :
    Except OntologyError (Content × Nat) :=
  if s.kind.isSlotted then
    if foldName s.name ∈ path ∨ s.isAbstract = true then .ok (numberedVariable s n, n + 1)
    else templateValue o (foldName s.name :: path) s n
  else if s.kind = .aggregate then .ok (.aggregate s.name [] none, n)
  else if s.kind = .contentElementList then .ok (.list [], n)
  else .ok (numberedVariable s n, n + 1)

theorem templateOf_eq (o : Ontology) (path : List String) (type : String) (n : Nat) :
    templateOf o path type n = match o.find? type with
      | none => .error (.schemaNotFound type o.name)
      | some t => templateAt o path t n := by
  rw [templateOf]
  split
  · rename_i hnone
    rw [hnone]
  · rename_i t ht
    simp only [ht, templateAt]
    cases hk : t.kind with
    | concept | agentAction | predicate =>
      by_cases hp : foldName t.name ∈ path
      · simp [SchemaKind.isSlotted, hp]
      · simp [SchemaKind.isSlotted, hp]
    | _ => rfl

theorem template_eq (o : Ontology) (s : Schema) :
    o.template s = (templateAt o [] s 0).map Prod.fst := by
  rw [template, templateAt]
  cases hk : s.kind with
  | concept | agentAction | predicate =>
    cases s.isAbstract with
    | true => rfl
    | false =>
      cases templateValue o [foldName s.name] s 0 with
      | error e => simp [SchemaKind.isSlotted, Except.map]
      | ok r => simp [SchemaKind.isSlotted, Except.map]
  | _ => rfl

theorem template_of_slots {ds : List SlotDescriptor} {slots : Slots Content} {n : Nat}
    (hk : s.kind.isSlotted = true) (hconcrete : s.isAbstract = false) (hds : o.slots s = .ok ds)
    (h : templateSlots o [foldName s.name] s ds 0 = .ok (slots, n)) :
    o.template s = .ok (.slotted (roleOfKind s.kind) s.name slots) := by
  have hvalue : templateValue o [foldName s.name] s 0 =
      .ok (.slotted (roleOfKind s.kind) s.name slots, n) := by
    rw [templateValue, hds]
    simp only [h]
  rw [template_eq, templateAt, if_pos hk, if_neg (by simp [hconcrete]), hvalue]
  rfl

/-- The path has the types around a place whose values have slots. -/
def Tracks (o : Ontology) (path around : List String) : Prop :=
  ∀ t, o.Registered t → t.kind.isSlotted = true →
    (foldName t.name ∈ around ↔ foldName t.name ∈ path)

theorem Tracks.cons (h : o.Tracks path around) (name : String) :
    o.Tracks (name :: path) (name :: around) := by
  intro t ht hk
  rw [List.mem_cons, List.mem_cons, h t ht hk]

theorem Tracks.aggregate (h : o.Tracks path around) (hs : o.Registered s)
    (hk : s.kind = .aggregate) : o.Tracks path (foldName s.name :: around) := by
  intro t ht hslotted
  have hne : foldName t.name ≠ foldName s.name := by
    intro hname
    rw [hs.eq ht hname, hk] at hslotted
    cases hslotted
  rw [List.mem_cons, h t ht hslotted, or_iff_right hne]

/-- The answer is content with the property, whose variables take the numbers from the first free
one on, or it is about a type that the schema leaves unresolved. -/
def Makes (o : Ontology) (s : Schema) (n : Nat) (P : Content → Prop) :
    Except OntologyError (Content × Nat) → Prop
  | .ok (c, m) => P c ∧ Numbered n m c.variableNames
  | .error e => o.Unresolved s e

theorem Makes.imp {n : Nat} {P Q : Content → Prop} {answer : Except OntologyError (Content × Nat)}
    (h : o.Makes s n P answer) (hPQ : ∀ c, P c → Q c) : o.Makes s n Q answer := by
  cases answer with
  | error e => exact h
  | ok r => exact ⟨hPQ _ h.1, h.2⟩

theorem Makes.uses {n : Nat} {P : Content → Prop} {answer : Except OntologyError (Content × Nat)}
    (hs : o.Uses s t) (h : o.Makes t n P answer) : o.Makes s n P answer := by
  cases answer with
  | error e => exact Unresolved.uses hs h
  | ok r => exact h

/-! One lemma a function, each over what the functions that it calls come to. -/

theorem makes_hole {n : Nat} (h : IsHole around s) : o.Makes s n (Outlines o around (.of s))
    (.ok (numberedVariable s n, n + 1)) := by
  refine ⟨.hole h, ?_⟩
  rw [variableNames_numberedVariable]
  exact Numbered.single n

theorem makes_templateAt {n : Nat}
    (htracks : s.kind.isSlotted = true → (foldName s.name ∈ around ↔ foldName s.name ∈ path))
    (hvalue : s.kind.isSlotted = true → foldName s.name ∉ path → foldName s.name ∉ around →
      s.isAbstract = false →
      o.Makes s n (Outlines o around (.of s)) (templateValue o (foldName s.name :: path) s n)) :
    o.Makes s n (Outlines o around (.of s)) (templateAt o path s n) := by
  rw [templateAt]
  split_ifs with hk hhole haggregate hlist
  · refine makes_hole ?_
    rwa [IsHole, if_pos hk, htracks hk]
  · rw [not_or, Bool.not_eq_true] at hhole
    exact hvalue hk hhole.1 (mt (htracks hk).1 hhole.1) hhole.2
  · exact ⟨.aggregate haggregate, Numbered.nil n⟩
  · exact ⟨.list hlist, Numbered.nil n⟩
  · refine makes_hole ?_
    rw [IsHole, if_neg hk]
    exact ⟨haggregate, hlist⟩

theorem makes_templateSlot {ds : List SlotDescriptor} {d : SlotDescriptor}
    (hds : o.slots s = .ok ds) (hd : d ∈ ds) (htracks : o.Tracks path around)
    (hof : ∀ type around' m, o.Asks s type → o.Tracks path around' →
      o.Makes s m (fun c => ∃ t, o.find? type = some t ∧ Outlines o around' (.of t) c)
        (templateOf o path type m)) (n : Nat) :
    o.Makes s n (Outlines o around (.slot s d)) (templateSlot o path s d n) := by
  have hask : o.Asks s d.type := .slot hds hd
  rw [templateSlot, schema]
  cases ht : o.find? d.type with
  | none => exact unresolved_of_asks hask ht
  | some t =>
    simp only
    split
    · rename_i hk
      split
      · rename_i he
        exact unresolved_of_extends (exists_unknown_of_elementType? he)
      · rename_i he
        exact ⟨.untyped ht hk he, Numbered.nil n⟩
      · rename_i type he
        have hmade := hof type _ n (.element hds hd ht hk he)
          (htracks.aggregate (registered_of_find? ht) hk)
        split
        · rename_i hfails
          rw [hfails] at hmade
          exact hmade
        · rename_i c m hc
          rw [hc] at hmade
          obtain ⟨⟨u, hu, houtlines⟩, hnumbers⟩ := hmade
          refine ⟨.typed ht hk he hu houtlines, ?_⟩
          rwa [Content.variableNames_aggregate_nil, Option.toList_some, List.flatMap_singleton]
    · rename_i hk
      refine (hof d.type around n hask htracks).imp fun c hc => ?_
      obtain ⟨u, hu, houtlines⟩ := hc
      rw [ht] at hu
      cases hu
      exact .plain ht hk houtlines

/-- The slots are made one after the other, each with the number that the one before has left. -/
theorem makes_templateSlots {ds : List SlotDescriptor}
    (h : ∀ d ∈ ds, ∀ m, o.Makes s m (Outlines o around (.slot s d)) (templateSlot o path s d m))
    (n : Nat) : match templateSlots o path s ds n with
      | .ok (slots, m) =>
        List.Forall₂ (fun d e => e.1 = d.name ∧ Outlines o around (.slot s d) e.2) ds slots ∧
          Numbered n m (slots.flatMap fun e => e.2.variableNames)
      | .error e => o.Unresolved s e := by
  induction ds generalizing n with
  | nil =>
    rw [templateSlots]
    exact ⟨.nil, Numbered.nil n⟩
  | cons d rest ih =>
    obtain ⟨hd, hrest⟩ := List.forall_mem_cons.1 h
    rw [templateSlots]
    have hslot := hd n
    cases hc : templateSlot o path s d n with
    | error e =>
      rw [hc] at hslot
      exact hslot
    | ok r =>
      obtain ⟨c, m⟩ := r
      rw [hc] at hslot
      have hslots := ih hrest m
      cases hcs : templateSlots o path s rest m with
      | error e =>
        rw [hcs] at hslots
        simp only [hcs]
        exact hslots
      | ok r =>
        obtain ⟨slots, l⟩ := r
        rw [hcs] at hslots
        simp only [hcs]
        exact ⟨.cons ⟨rfl, hslot.1⟩ hslots.1, hslot.2.append hslots.2⟩

theorem makes_templateValue (hk : s.kind.isSlotted = true) (hnew : foldName s.name ∉ around)
    (hconcrete : s.isAbstract = false)
    (h : ∀ ds d m, o.slots s = .ok ds → d ∈ ds →
      o.Makes s m (Outlines o (foldName s.name :: around) (.slot s d)) (templateSlot o path s d m))
    (n : Nat) : o.Makes s n (Outlines o around (.of s)) (templateValue o path s n) := by
  rw [templateValue]
  cases hds : o.slots s with
  | error e => exact unresolved_of_extends (exists_unknown_of_slots hds)
  | ok ds =>
    have hslots := makes_templateSlots (fun d hd m => h ds d m hds hd) n
    simp only
    split
    · rename_i hfails
      rw [hfails] at hslots
      exact hslots
    · rename_i slots m hmade
      rw [hmade] at hslots
      obtain ⟨hall, hnumbers⟩ := hslots
      have hnames : slots.map (·.1) = ds.map (·.name) :=
        map_eq_of_forall₂ (hall.imp fun _ _ h => h.1).flip
      refine ⟨.slotted hk hnew hconcrete hds hnames ?_, ?_⟩
      · intro d hd c hc
        obtain ⟨d', hd', hname, houtlines⟩ := exists_of_forall₂_left hall.flip hc
        have heq : d' = d :=
          List.inj_on_of_nodup_map (distinct_slots hds) hd' hd (congrArg foldName hname.symm)
        exact heq ▸ houtlines
      · rwa [Content.variableNames_slotted]

/-- Whatever types are around the place, the template of a type comes to an outline of it or to a
type that is not defined. -/
theorem makes_type {type : String} (hask : o.Asks s type) (htracks : o.Tracks path around)
    (n : Nat) : o.Makes s n (fun c => ∃ t, o.find? type = some t ∧ Outlines o around (.of t) c)
      (templateOf o path type n) := by
  -- on the types that are not on the path yet
  induction hsize : unseen o.keys path using Nat.strongRecOn
    generalizing path around s type n with
  | _ size ih =>
    rw [templateOf_eq]
    cases ht : o.find? type with
    | none => exact unresolved_of_asks hask ht
    | some t =>
      suffices hof : o.Makes t n (Outlines o around (.of t)) (templateAt o path t n) from
        (hof.uses ⟨type, hask, ht⟩).imp fun c hc => ⟨t, rfl, hc⟩
      have htype := htracks t (registered_of_find? ht)
      refine makes_templateAt htype fun hk hnew haround hconcrete => ?_
      have hlt : unseen o.keys (foldName t.name :: path) < size :=
        hsize ▸ unseen_cons_lt (find?_mem_keys ht) hnew
      refine makes_templateValue hk haround hconcrete (fun ds d l hds hd => ?_) n
      exact makes_templateSlot hds hd (htracks.cons _)
        (fun type' around' k hask' htracks' => ih _ hlt hask' htracks' k rfl) l

theorem makes_template (o : Ontology) (s : Schema) :
    o.Makes s 0 (Outlines o [] (.of s)) (templateAt o [] s 0) := by
  refine makes_templateAt (fun _ => .rfl) fun hk hnew _ hconcrete => ?_
  refine makes_templateValue hk hnew hconcrete (fun ds d m hds hd => ?_) 0
  have htracks : o.Tracks [foldName s.name] [foldName s.name] := fun _ _ _ => .rfl
  exact makes_templateSlot hds hd htracks (fun _ _ _ hask h => makes_type hask h _) m

theorem outlines_of_template (h : o.template s = .ok c) : Outlines o [] (.of s) c := by
  have hmade := makes_template o s
  rw [template_eq] at h
  cases hanswer : templateAt o [] s 0 with
  | error e =>
    rw [hanswer] at h
    cases h
  | ok r =>
    rw [hanswer] at h hmade
    cases h
    exact hmade.1

/-- A schema has a template that outlines it, with variables that are numbered from zero on without
a gap; or it leads to a type that nobody defines, and the error says which one. -/
theorem template_outline (o : Ontology) (s : Schema) :
    (∃ c n, o.template s = .ok c ∧ Outlines o [] (.of s) c ∧
        c.variableNames = (List.range n).map holeName ∧ c.variableNames.Nodup) ∨
      ∃ e, o.template s = .error e ∧ o.Unresolved s e := by
  have hmade := makes_template o s
  rw [template_eq]
  cases hanswer : templateAt o [] s 0 with
  | error e =>
    rw [hanswer] at hmade
    exact .inr ⟨e, rfl, hmade⟩
  | ok r =>
    obtain ⟨c, m⟩ := r
    rw [hanswer] at hmade
    obtain ⟨houtlines, k, -, hnames⟩ := hmade
    rw [← List.range_eq_range'] at hnames
    refine .inl ⟨c, k, rfl, houtlines, hnames, ?_⟩
    rw [hnames]
    exact List.Nodup.map holeName_injective List.nodup_range

/-! ## Agent identifiers -/

def stringSchema : Schema where
  name := TypeName.string
  kind := .primitive

def sequenceSchema : Schema where
  name := TypeName.sequence
  kind := .aggregate

/-- Agent identifiers, as the basic vocabulary has them. -/
def identifier : Schema :=
  { Vocabulary.identifierSchema with pending := [] }

/-- The resolvers of an agent identifier are agent identifiers again. -/
def identifierSlots : Slots Content :=
  [("name", .typedVariable "v0" TypeName.string),
    ("addresses", .aggregate TypeName.sequence [] (some (.typedVariable "v1" TypeName.string))),
    ("resolvers", .aggregate TypeName.sequence [] (some (.typedVariable "v2" "agent-identifier")))]

def identifierTemplate : Content :=
  .slotted .concept "agent-identifier" identifierSlots

theorem registered_string : Vocabulary.basic.Registered stringSchema := rfl

theorem registered_sequence : Vocabulary.basic.Registered sequenceSchema := rfl

theorem registered_identifier : Vocabulary.basic.Registered identifier := rfl

theorem slots_identifier :
    Vocabulary.basic.slots identifier = .ok identifier.slots :=
  slots_of_supers_nil rfl (by decide)

theorem elementType?_addresses :
    Vocabulary.basic.elementType? identifier "addresses" = .ok (some TypeName.string) := by
  rw [elementType?, facetsOf_of_supers_nil rfl]
  rfl

theorem elementType?_resolvers :
    Vocabulary.basic.elementType? identifier "resolvers" = .ok (some "agent-identifier") := by
  rw [elementType?, facetsOf_of_supers_nil rfl]
  rfl

theorem template_identifier :
    Vocabulary.basic.template identifier = .ok identifierTemplate := by
  have hname : ∀ path n, templateOf Vocabulary.basic path TypeName.string n =
      .ok (.typedVariable (holeName n) TypeName.string, n + 1) := by
    intro path n
    rw [templateOf_eq]
    rfl
  have hidentifier : templateOf Vocabulary.basic ["agent-identifier"] "agent-identifier" 2 =
      .ok (.typedVariable "v2" "agent-identifier", 3) := by
    rw [templateOf_eq]
    rfl
  have hfirst : templateSlot Vocabulary.basic ["agent-identifier"] identifier
      ⟨"name", TypeName.string, false⟩ 0 = .ok (.typedVariable "v0" TypeName.string, 1) := by
    rw [templateSlot, hname]
    rfl
  have hsecond : templateSlot Vocabulary.basic ["agent-identifier"] identifier
      ⟨"addresses", TypeName.sequence, true⟩ 1 = .ok (.aggregate TypeName.sequence []
        (some (.typedVariable "v1" TypeName.string)), 2) := by
    rw [templateSlot, elementType?_addresses]
    simp only [hname]
    rfl
  have hthird : templateSlot Vocabulary.basic ["agent-identifier"] identifier
      ⟨"resolvers", TypeName.sequence, true⟩ 2 = .ok (.aggregate TypeName.sequence []
        (some (.typedVariable "v2" "agent-identifier")), 3) := by
    rw [templateSlot, elementType?_resolvers]
    simp only [hidentifier]
    rfl
  have hslots : templateSlots Vocabulary.basic ["agent-identifier"] identifier
      identifier.slots 0 = .ok (identifierSlots, 3) := by
    show templateSlots _ _ _ [⟨"name", TypeName.string, false⟩,
      ⟨"addresses", TypeName.sequence, true⟩, ⟨"resolvers", TypeName.sequence, true⟩] 0 = _
    simp only [templateSlots, hfirst, hsecond, hthird, identifierSlots]
  exact template_of_slots rfl rfl slots_identifier hslots

end Ontology
end AgentContent
