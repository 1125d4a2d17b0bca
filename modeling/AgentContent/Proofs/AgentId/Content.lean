import AgentContent.AgentId.Content
import AgentContent.Conversion.AppClass
import AgentContent.Proofs.Template.Valid

/-!
# AgentContent.Proofs.AgentId.Content

An agent identifier has two forms as content. `toContent` leaves out the addresses and the resolvers
when there are none, the schema of identifiers leads to a sequence of them in any case. Both ways
back read both forms, and any that mixes them below.

* `Shows`: slots that an identifier can be read from.
* `validateContent_of_shows`, `ofSlots_of_shows`, `exists_toData_of_shows`: what shows an identifier
  is valid, and gives that identifier with a schema and without.
* `shows_toContent`, `exists_drawn`: both forms show the identifier, resolvers to any depth.
-/

namespace AgentContent

open Vocabulary Ontology

namespace AgentId

/-! ## Slots that show an identifier -/

/-- The slot has a sequence of the elements, or no value if there are none. -/
def Lists (slots : Slots Content) (slot : String) (elements : List Content) : Prop :=
  Slots.get? slot slots = some (.aggregate TypeName.sequence elements none) ∨
    (Slots.get? slot slots = none ∧ elements = [])

mutual
/-- The slots have what makes up the identifier: its name, its addresses, and concepts that show its
resolvers, all in their order. -/
inductive Shows : AgentId → Slots Content → Prop where
  | mk {name : String} {addresses : List String} {resolvers : List AgentId} {slots : Slots Content}
    {elements : List Content} (hname : Slots.get? nameSlot slots = some (.ofString name))
    (haddresses : Lists slots addressesSlot (addresses.map .ofString))
    (hresolvers : Lists slots resolversSlot elements) (hall : ShowAll resolvers elements) :
    Shows (.mk name addresses resolvers) slots

inductive ShowAll : List AgentId → List Content → Prop where
  | nil : ShowAll [] []
  | cons {a : AgentId} {as : List AgentId} {slots : Slots Content} {elements : List Content}
    (h : Shows a slots) (hall : ShowAll as elements) :
    ShowAll (a :: as) (.slotted .concept agentIdentifier slots :: elements)
end

variable {a : AgentId} {as : List AgentId} {slots : Slots Content} {elements : List Content}
  {slot : String}

theorem ShowAll.typeName (h : ShowAll as elements) :
    ∀ e ∈ elements, e.typeName = agentIdentifier := by
  intro e he
  induction elements generalizing as with
  | nil => cases he
  | cons c rest ih =>
    cases h with
    | cons _ hall =>
      rcases List.mem_cons.1 he with rfl | he
      · rfl
      · exact ih hall he

/-! ## The two forms -/

theorem lists_addressSlots (name : String) (addresses : List String) (resolvers : List Content) :
    Lists ((nameSlot, .ofString name) :: (addressSlots addresses ++ resolverSlots resolvers))
      addressesSlot (addresses.map .ofString) := by
  cases addresses with
  | nil =>
    cases resolvers with
    | nil => exact .inr ⟨rfl, rfl⟩
    | cons => exact .inr ⟨rfl, rfl⟩
  | cons => exact .inl rfl

theorem lists_resolverSlots (name : String) (addresses : List String) (resolvers : List Content) :
    Lists ((nameSlot, .ofString name) :: (addressSlots addresses ++ resolverSlots resolvers))
      resolversSlot resolvers := by
  cases resolvers with
  | nil =>
    cases addresses with
    | nil => exact .inr ⟨rfl, rfl⟩
    | cons => exact .inr ⟨rfl, rfl⟩
  | cons =>
    cases addresses with
    | nil => exact .inl rfl
    | cons => exact .inl rfl

mutual
theorem shows_toContent : ∀ a : AgentId, ∃ slots,
    a.toContent = .slotted .concept agentIdentifier slots ∧ Shows a slots
  | .mk name addresses resolvers =>
    ⟨_, rfl, .mk rfl (lists_addressSlots name addresses _) (lists_resolverSlots name addresses _)
      (showAll_allToContent resolvers)⟩

theorem showAll_allToContent : ∀ as : List AgentId, ShowAll as (allToContent as)
  | [] => .nil
  | a :: as => by
    obtain ⟨slots, hslots, h⟩ := shows_toContent a
    rw [allToContent, hslots]
    exact .cons h (showAll_allToContent as)
end

/-! ## The data of an identifier -/

theorem sortedItems_strings (texts : List String) :
    Json.sortedItems (texts.map .string) = texts.map .string := by
  rw [Json.sortedItems_eq, List.map_map]
  rfl

/-- The data of a list: a member, or nothing if there are no items. -/
def Writes (slot : String) (items : List Json) (members : List (String × Json)) : Prop :=
  members = [(slot, .array items)] ∨ (members = [] ∧ items = [])

/-- Of the members, the addresses come before the name and the resolvers after it. -/
theorem sortMembers_of_writes {value : Json} {addresses resolvers : List Json}
    {own more : List (String × Json)} (hown : Writes addressesSlot addresses own)
    (hmore : Writes resolversSlot resolvers more) :
    Json.sortMembers ((nameSlot, value) :: (own ++ more)) = own ++ (nameSlot, value) :: more := by
  rcases hown with rfl | ⟨rfl, -⟩ <;> rcases hmore with rfl | ⟨rfl, -⟩ <;>
    simp only [nameSlot, addressesSlot, resolversSlot, Json.sortMembers, Json.insertSorted,
      List.cons_append, List.nil_append, List.foldl_cons, List.foldl_nil, String.reduceEq,
      String.reduceLT, if_true, if_false]

theorem sorted_toJson (name : String) (addresses : List String) (resolvers : List AgentId) :
    (AgentId.mk name addresses resolvers).toJson.sorted =
      .object [("addresses", .array (addresses.map .string)), ("name", .string name),
        ("resolvers", .array (Json.sortedItems (allToJson resolvers)))] := by
  simp only [toJson, Json.sorted, Json.sortedMembers, sortedItems_strings]
  exact congrArg Json.object (sortMembers_of_writes (.inl rfl) (.inl rfl))

theorem schema_identifier : basic.schema agentIdentifier = .ok identifier :=
  schema_eq_ok_iff.2 registered_identifier

theorem schema_string : basic.schema TypeName.string = .ok stringSchema :=
  schema_eq_ok_iff.2 registered_string

theorem schema_sequence : basic.schema TypeName.sequence = .ok sequenceSchema :=
  schema_eq_ok_iff.2 registered_sequence

theorem toContent_string (text : String) :
    basic.toContent stringSchema none (.string text) = .ok (.ofString text) := by
  rw [Ontology.toContent.eq_def]
  rfl

theorem toContents_strings (texts : List String) :
    basic.toContents stringSchema (texts.map .string) = .ok (texts.map .ofString) := by
  induction texts with
  | nil => rw [List.map_nil, List.map_nil, toContents]
  | cons text rest ih =>
    rw [List.map_cons, List.map_cons, toContents]
    simp only [toContent_string, ih]

theorem elementType?_name : basic.elementType? identifier nameSlot = .ok none := by
  rw [elementType?, facetsOf_of_supers_nil rfl]
  rfl

/-- A list where a sequence is expected whose elements have a schema. -/
theorem toContent_sequence {type : String} {s : Schema} {items : List Json}
    (hs : basic.schema type = .ok s) (h : basic.toContents s items = .ok elements) :
    basic.toContent sequenceSchema (some type) (.array items) =
      .ok (.aggregate TypeName.sequence elements none) := by
  rw [Ontology.toContent.eq_def]
  simp only [sequenceSchema, hs, h]
  rfl

/-- What the schema draws from the three members of an identifier. -/
theorem toContent_identifier {name : String} {addresses : List String} {items : List Json}
    (h : basic.toContents identifier items = .ok elements) :
    basic.toContent identifier none (.object [("addresses", .array (addresses.map .string)),
      ("name", .string name), ("resolvers", .array items)]) =
        .ok (.slotted .concept agentIdentifier [(nameSlot, .ofString name),
          (addressesSlot, .aggregate TypeName.sequence (addresses.map .ofString) none),
          (resolversSlot, .aggregate TypeName.sequence elements none)]) := by
  have haddresses := toContent_sequence schema_string (toContents_strings addresses)
  have hresolvers := toContent_sequence schema_identifier h
  have hslots : basic.toSlots identifier [("addresses", .array (addresses.map .string)),
      ("name", .string name), ("resolvers", .array items)] identifier.slots =
        .ok [(nameSlot, .ofString name),
          (addressesSlot, .aggregate TypeName.sequence (addresses.map .ofString) none),
          (resolversSlot, .aggregate TypeName.sequence elements none)] :=
    toSlots_cons_of_get? rfl (by simp) schema_string elementType?_name (toContent_string name)
      (toSlots_cons_of_get? rfl (by simp) schema_sequence elementType?_addresses
        haddresses
        (toSlots_cons_of_get? rfl (by simp) schema_sequence elementType?_resolvers
          hresolvers (by rw [toSlots])))
  rw [toContent_of_slotted rfl rfl, toSlotted]
  simp only [slots_identifier, hslots]
  rfl

mutual
/-- The content that the schema draws from the data of an identifier. -/
theorem exists_drawn : ∀ a : AgentId, ∃ slots,
    basic.toContent identifier none a.toJson.sorted =
      .ok (.slotted .concept agentIdentifier slots) ∧ Shows a slots
  | .mk name addresses resolvers => by
    obtain ⟨elements, helements, hall⟩ := exists_allDrawn resolvers
    rw [sorted_toJson, toContent_identifier helements]
    exact ⟨_, rfl, .mk rfl (.inl rfl) (.inl rfl) hall⟩

theorem exists_allDrawn : ∀ as : List AgentId, ∃ elements,
    basic.toContents identifier (Json.sortedItems (allToJson as)) = .ok elements ∧
      ShowAll as elements
  | [] => ⟨[], by rw [allToJson, Json.sortedItems, toContents], .nil⟩
  | a :: as => by
    obtain ⟨slots, hslots, h⟩ := exists_drawn a
    obtain ⟨elements, helements, hall⟩ := exists_allDrawn as
    refine ⟨_, ?_, .cons h hall⟩
    rw [allToJson, Json.sortedItems, toContents]
    simp only [hslots, helements]
end

/-! ## Validity -/

/-- A slot that lists valid elements of the type that its schema asks for. -/
theorem slotHolds_of_lists {type : String} {s : Schema}
    (hfacets : identifier.ownFacets slot = [.elementType type, .cardinality 0 none])
    (hs : basic.find? type = some s) (hlists : Lists slots slot elements)
    (htype : ∀ e ∈ elements, e.typeName = type)
    (hvalid : ∀ e ∈ elements, basic.validateContent e = .ok ()) :
    basic.SlotHolds identifier slots ⟨slot, TypeName.sequence, true⟩ := by
  rw [slotHolds_iff registered_identifier (closed_basic.resolves registered_identifier)]
  rcases hlists with hget | ⟨hget, -⟩
  · simp only [SlotFits, hget, reduceCtorEq, false_implies, true_and, Option.some.injEq,
      forall_eq']
    refine ⟨⟨?_, fun u hu f hf => .inr ?_⟩, ?_⟩
    · exact typedFor_of_own (s := sequenceSchema) registered_sequence rfl rfl
    · obtain rfl := eq_of_ancestor_identifier hu
      rw [hfacets] at hf
      rcases List.mem_pair.1 hf with rfl | rfl
      · refine ⟨elements, s, rfl, hs, fun e he _ => ⟨s, ?_, compatible_refl basic s⟩⟩
        rw [htype e he, hs]
      · exact ⟨elements, rfl, Nat.zero_le _, fun bound h => by cases h⟩
    · exact validateContent_aggregate_iff.2 ⟨_, registered_sequence, rfl, hvalid⟩
  · simp [SlotFits, hget]

theorem validateContent_string (text : String) :
    basic.validateContent (.ofString text) = .ok () := by
  refine validateContent_eq_ok_iff.2 ⟨_, schema_string, ?_⟩
  exact validate_primitive_eq_ok_iff.2 ⟨_, schema_string, rfl⟩

theorem slotHolds_name {name : String} (hname : Slots.get? nameSlot slots = some (.ofString name)) :
    basic.SlotHolds identifier slots ⟨nameSlot, TypeName.string, false⟩ := by
  rw [slotHolds_iff registered_identifier (closed_basic.resolves registered_identifier)]
  simp only [SlotFits, hname, reduceCtorEq, false_implies, true_and, Option.some.injEq,
    forall_eq']
  refine ⟨⟨typedFor_of_own (s := stringSchema) registered_string rfl rfl, fun u hu f hf => ?_⟩,
    validateContent_string name⟩
  obtain rfl := eq_of_ancestor_identifier hu
  cases hf

mutual
/-- What shows an identifier is valid. -/
theorem validateContent_of_shows : ∀ {a : AgentId} {slots : Slots Content}, Shows a slots →
    basic.validateContent (.slotted .concept agentIdentifier slots) = .ok ()
  | _, _, @Shows.mk _ addresses _ slots _ hname haddresses hresolvers hall => by
    have hstrings : ∀ e ∈ addresses.map Content.ofString, e.typeName = TypeName.string ∧
        basic.validateContent e = .ok () := by
      intro e he
      obtain ⟨text, -, rfl⟩ := List.mem_map.1 he
      exact ⟨rfl, validateContent_string text⟩
    refine (validateContent_slotted_iff registered_identifier).2
      ⟨_, slots_identifier, fun d hd => ?_⟩
    rcases eq_of_mem_identifier hd with rfl | rfl | rfl
    · exact slotHolds_name hname
    · exact slotHolds_of_lists rfl registered_string haddresses (fun e he => (hstrings e he).1)
        fun e he => (hstrings e he).2
    · exact slotHolds_of_lists rfl registered_identifier hresolvers hall.typeName
        (validateContent_of_showAll hall)

theorem validateContent_of_showAll : ∀ {as : List AgentId} {elements : List Content},
    ShowAll as elements → ∀ e ∈ elements, basic.validateContent e = .ok ()
  | _, _, .nil => List.forall_mem_nil _
  | _, _, .cons h hall => List.forall_mem_cons.2
    ⟨validateContent_of_shows h, validateContent_of_showAll hall⟩
end

/-! ## Reading without a schema -/

theorem addressesOf_strings (whole : Content) (addresses : List String) :
    addressesOf whole (addresses.map .ofString) = .ok addresses := by
  induction addresses with
  | nil => rfl
  | cons address rest ih =>
    rw [List.map_cons, addressesOf, ih]
    rfl

theorem addressesIn_of_lists {addresses : List String} (whole : Content)
    (h : Lists slots addressesSlot (addresses.map .ofString)) :
    addressesIn whole slots = .ok addresses := by
  unfold addressesIn
  rcases h with hget | ⟨hget, hnone⟩
  · rw [hget]
    exact addressesOf_strings whole addresses
  · rw [hget, List.map_eq_nil_iff.1 hnone]

theorem ofSlots_of_lists {name : String} {addresses : List String} {resolvers : List AgentId}
    (hname : Slots.get? nameSlot slots = some (.ofString name))
    (haddresses : Lists slots addressesSlot (addresses.map .ofString))
    (hresolvers : Lists slots resolversSlot elements)
    (hread : ∀ whole, ofElements whole elements = .ok resolvers) (type : String) :
    ofSlots type slots = .ok (.mk name addresses resolvers) := by
  have hstring : (some (Content.ofString name)).bind Content.string? = some name := rfl
  rw [ofSlots, hname]
  simp only [hstring, addressesIn_of_lists _ haddresses]
  rcases hresolvers with hget | ⟨hget, rfl⟩
  · split
    · rename_i hfound
      rw [hget] at hfound
      cases hfound
    · rename_i hfound
      rw [hget] at hfound
      cases hfound
      simp only [hread]
    · rename_i hother hfound
      rw [hget] at hfound
      cases hfound
      exact (hother _ _ _ rfl).elim
  · -- nobody is listed
    have hnone : resolvers = [] := by
      have h := hread (.slotted .concept type slots)
      rw [ofElements] at h
      cases h
      rfl
    split <;> rename_i hfound <;> rw [hget] at hfound <;> cases hfound
    rw [hnone]

mutual
/-- What shows an identifier is read as that identifier. -/
theorem ofSlots_of_shows : ∀ {a : AgentId} {slots : Slots Content}, Shows a slots →
    ∀ type, ofSlots type slots = .ok a
  | _, _, .mk hname haddresses hresolvers hall =>
    ofSlots_of_lists hname haddresses hresolvers (ofElements_of_showAll hall)

theorem ofElements_of_showAll : ∀ {as : List AgentId} {elements : List Content},
    ShowAll as elements → ∀ whole, ofElements whole elements = .ok as
  | _, _, .nil => fun whole => by rw [ofElements]
  | _, _, .cons h hall => fun whole => by
    rw [ofElements]
    simp only [ofSlots_of_shows h, ofElements_of_showAll hall]
end

/-! ## Reading with a schema -/

theorem elementSchema?_name : basic.elementSchema? identifier nameSlot = .ok none := by
  rw [elementSchema?, elementType?_name]

theorem elementSchema?_addresses :
    basic.elementSchema? identifier addressesSlot = .ok (some stringSchema) := by
  simp only [elementSchema?, addressesSlot, elementType?_addresses, schema_string]

theorem elementSchema?_resolvers :
    basic.elementSchema? identifier resolversSlot = .ok (some identifier) := by
  have hschema : basic.schema "agent-identifier" = .ok identifier := schema_identifier
  simp only [elementSchema?, resolversSlot, elementType?_resolvers, hschema]

theorem toDataAll_strings (texts : List String) :
    basic.toDataAll (some stringSchema) (texts.map .ofString) = .ok (texts.map .string) := by
  induction texts with
  | nil => rw [List.map_nil, List.map_nil, toDataAll]
  | cons text rest ih =>
    refine toDataAll_cons_eq_ok_iff.2 ⟨_, _, _, rfl, ?_, ih, rfl⟩
    rw [Content.ofString, toData]
    rfl

theorem exists_toFields_of_lists {s : Schema} {items : List Json} {fields : List (String × Json)}
    {ds : List SlotDescriptor} (hlists : Lists slots slot elements)
    (hs : basic.elementSchema? identifier slot = .ok (some s))
    (hitems : basic.toDataAll (some s) elements = .ok items)
    (hrest : basic.toFields identifier slots ds = .ok fields) :
    ∃ members, Writes slot items members ∧
      basic.toFields identifier slots (⟨slot, TypeName.sequence, true⟩ :: ds) =
        .ok (members ++ fields) := by
  rcases hlists with hget | ⟨hget, rfl⟩
  · refine ⟨_, .inl rfl, toFields_cons_eq_ok_iff.2 (.inr ?_)⟩
    exact ⟨_, _, _, _, _, hget, schema_sequence, hs,
      toData_aggregate_eq_ok_iff.2 ⟨items, hitems, rfl⟩, hrest, rfl⟩
  · rw [toDataAll] at hitems
    cases hitems
    exact ⟨[], .inr ⟨rfl, rfl⟩, toFields_cons_eq_ok_iff.2 (.inl ⟨hget, hrest⟩)⟩

theorem addressesOf?_strings (addresses : List String) :
    addressesOf? (.array (addresses.map .string)) = some addresses := by
  show (addresses.map Json.string).mapM Json.string? = some addresses
  induction addresses with
  | nil => rfl
  | cons address rest ih => simp [ih, Json.string?]

theorem resolversMember?_of_writes {items : List Json} {members own : List (String × Json)}
    {resolvers : List AgentId} (hown : Writes resolversSlot items own)
    (hmember : Json.member? "resolvers" members = Json.member? "resolvers" own)
    (hitems : allOfJson? items = some resolvers) : resolversMember? members = some resolvers := by
  rw [resolversMember?]
  rcases hown with rfl | ⟨rfl, rfl⟩
  · split
    · rename_i hfound
      cases hmember.symm.trans hfound
    · rename_i hfound
      cases hmember.symm.trans hfound
      exact hitems
    · rename_i hother hfound
      cases hmember.symm.trans hfound
      exact (hother _ rfl).elim
  · -- nobody is listed
    rw [allOfJson?] at hitems
    cases hitems
    split
    · rfl
    · rename_i hfound
      cases hmember.symm.trans hfound
    · rename_i hfound
      cases hmember.symm.trans hfound

theorem addressesMember?_of_writes {addresses : List String} {members own : List (String × Json)}
    (hown : Writes addressesSlot (addresses.map .string) own)
    (hmember : Json.member? "addresses" members = Json.member? "addresses" own) :
    addressesMember? members = some addresses := by
  rw [addressesMember?, hmember]
  rcases hown with rfl | ⟨rfl, hnone⟩
  · exact addressesOf?_strings addresses
  · rw [List.map_eq_nil_iff.1 hnone]
    rfl

/-- Members in the order of their names are read as the identifier, whichever of the two lists are
among them. -/
theorem ofJson?_of_writes {name : String} {addresses : List String} {resolvers : List AgentId}
    {items : List Json} {own more : List (String × Json)}
    (hown : Writes addressesSlot (addresses.map .string) own)
    (hmore : Writes resolversSlot items more) (hitems : allOfJson? items = some resolvers) :
    ofJson? (.object (Json.sortMembers ((nameSlot, .string name) :: (own ++ more)))) =
      some (.mk name addresses resolvers) := by
  have honce : Json.once ["name", "addresses", "resolvers"]
      (own ++ (nameSlot, .string name) :: more) = true := by
    rcases hown with rfl | ⟨rfl, -⟩ <;> rcases hmore with rfl | ⟨rfl, -⟩ <;> rfl
  have hname : Json.member? "name" (own ++ (nameSlot, .string name) :: more) =
      some (.string name) := by
    rcases hown with rfl | ⟨rfl, -⟩ <;> rfl
  have haddresses : addressesMember? (own ++ (nameSlot, .string name) :: more) =
      some addresses := by
    refine addressesMember?_of_writes hown ?_
    rcases hown with rfl | ⟨rfl, -⟩ <;> rcases hmore with rfl | ⟨rfl, -⟩ <;> rfl
  have hresolvers : resolversMember? (own ++ (nameSlot, .string name) :: more) =
      some resolvers := by
    refine resolversMember?_of_writes hmore ?_ hitems
    rcases hown with rfl | ⟨rfl, -⟩ <;> rfl
  rw [sortMembers_of_writes hown hmore, ofJson?, if_pos honce]
  simp only [hname, haddresses, hresolvers, Option.bind_some, Json.string?]

mutual
theorem exists_toData_of_shows : ∀ {a : AgentId} {slots : Slots Content}, Shows a slots →
    ∃ v, basic.toData identifier none (.slotted .concept agentIdentifier slots) = .ok v ∧
      ofJson? v = some a
  | _, _, @Shows.mk name addresses resolvers slots elements hname haddresses hresolvers hall => by
    obtain ⟨items, hitems, hread⟩ := exists_toDataAll_of_showAll hall
    have hnil : basic.toFields identifier slots [] = .ok [] := by rw [toFields]
    obtain ⟨more, hmore, hfields⟩ := exists_toFields_of_lists hresolvers
      elementSchema?_resolvers hitems hnil
    obtain ⟨own, hown, hfields⟩ := exists_toFields_of_lists haddresses
      elementSchema?_addresses (toDataAll_strings addresses) hfields
    have hstring : basic.toData stringSchema none (.ofString name) = .ok (.string name) := by
      rw [Content.ofString, toData]
      rfl
    have hthree := (toFields_cons_eq_ok_iff (d := ⟨nameSlot, TypeName.string, false⟩)).2
      (.inr ⟨_, _, _, _, _, hname, schema_string, elementSchema?_name, hstring, hfields, rfl⟩)
    refine ⟨_, toData_slotted_eq_ok_iff.2
      ⟨_, _, _, schema_identifier, slots_identifier, hthree, rfl⟩, ?_⟩
    rw [tagObject, if_pos (sameName_refl _), List.append_nil]
    exact ofJson?_of_writes hown hmore hread

theorem exists_toDataAll_of_showAll : ∀ {as : List AgentId} {elements : List Content},
    ShowAll as elements → ∃ items, basic.toDataAll (some identifier) elements = .ok items ∧
      allOfJson? items = some as
  | _, _, .nil => ⟨[], by rw [toDataAll], by rw [allOfJson?]⟩
  | _, _, .cons h hall => by
    obtain ⟨v, hv, hread⟩ := exists_toData_of_shows h
    obtain ⟨items, hitems, hreadAll⟩ := exists_toDataAll_of_showAll hall
    refine ⟨v :: items, ?_, ?_⟩
    · exact toDataAll_cons_eq_ok_iff.2 ⟨_, _, _, rfl, hv, hitems, rfl⟩
    · rw [allOfJson?, hread, hreadAll]
end

mutual
theorem ofJson?_sorted_toJson : ∀ a : AgentId, ofJson? a.toJson.sorted = some a
  | .mk name addresses resolvers => by
    simp only [toJson, Json.sorted, Json.sortedMembers, sortedItems_strings]
    exact ofJson?_of_writes (.inl rfl) (.inl rfl) (allOfJson?_sorted_allToJson resolvers)

theorem allOfJson?_sorted_allToJson : ∀ as : List AgentId,
    allOfJson? (Json.sortedItems (allToJson as)) = some as
  | [] => by rw [allToJson, Json.sortedItems, allOfJson?]
  | a :: as => by
    rw [allToJson, Json.sortedItems, allOfJson?, ofJson?_sorted_toJson a,
      allOfJson?_sorted_allToJson as]
end

theorem toObject_of_shows (h : Shows a slots) :
    basic.toObject .agentId (.slotted .concept agentIdentifier slots) = .ok a.toJson.sorted := by
  obtain ⟨v, hv, hread⟩ := exists_toData_of_shows h
  have hclass : basic.class? .agentId = some agentIdentifier := rfl
  have hidentifier : basic.find? agentIdentifier = some identifier := registered_identifier
  have hschema : basic.schemaFor .agentId = .ok identifier := by
    simp only [schemaFor, hclass, Option.bind_some, hidentifier]
  simp only [toObject, hschema, internalise, hv, AppClass.accept?, hread,
    Option.map_some]

/-- An identifier has content of its own and content by the schema of the basic vocabulary. Both are
valid, and each gives exactly the identifier, without the schema and with it. Data of an identifier
is of no other. -/
theorem conversions_agree (a : AgentId) : ofJson? a.toJson.sorted = some a ∧
    ∃ own drawn : Slots Content,
      a.toContent = .slotted .concept agentIdentifier own ∧
      basic.fromObject .agentId a.toJson = .ok (.slotted .concept agentIdentifier drawn) ∧
      ∀ slots ∈ [own, drawn],
        basic.validateContent (.slotted .concept agentIdentifier slots) = .ok () ∧
        ofSlots agentIdentifier slots = .ok a ∧
        basic.toObject .agentId (.slotted .concept agentIdentifier slots) =
          .ok a.toJson.sorted := by
  obtain ⟨own, hown, howns⟩ := shows_toContent a
  obtain ⟨drawn, hdrawn, hdraws⟩ := exists_drawn a
  have hboth : ∀ slots ∈ [own, drawn], Shows a slots := by
    simp only [List.forall_mem_cons]
    exact ⟨howns, hdraws, List.forall_mem_nil _⟩
  refine ⟨ofJson?_sorted_toJson a, own, drawn, hown, hdrawn, fun slots hslots => ?_⟩
  have h := hboth slots hslots
  exact ⟨validateContent_of_shows h, ofSlots_of_shows h agentIdentifier, toObject_of_shows h⟩

end AgentId
end AgentContent
