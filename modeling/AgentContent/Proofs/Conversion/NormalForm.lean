import AgentContent.Proofs.Conversion.Inferred
import AgentContent.Proofs.Conversion.RoundTrip
import AgentContent.Proofs.Ontology.Ancestors

/-!
# AgentContent.Proofs.Conversion.NormalForm

The data of content that was found in data gives just this content again, so that content keeps
all that it took from the data, and one trip reaches a normal form.

* `Closed`: the types that schemas extend, or ask of elements, are defined.
* `Restores`: data for content under a schema that gives the content again.
* `Rows`: the slots of a value beside the members of its data, in the order of the descriptors.
* `tagged?_name`, `restores_tagged`: a sub-type that data has named is named again.
* `exists_internalise`: the trip from data to content, to data, and to the same content.
-/

namespace AgentContent

/-- The type that the facet asks of the elements of an aggregate. -/
def Facet.elementType? : Facet → Option String
  | .elementType type => some type
  | _ => none

namespace Ontology

/-- Every type that a schema extends, and every one that it asks of the elements of an aggregate, is
defined. -/
structure Closed (o : Ontology) : Prop where
  super {name super : String} {s : Schema} (hs : o.find? name = some s) (h : super ∈ s.supers) :
    (o.find? super).isSome = true
  element {name type : String} {s : Schema} {f : String × Facet} (hs : o.find? name = some s)
    (hf : f ∈ s.facets) (h : f.2.elementType? = some type) : (o.find? type).isSome = true

/-- The schema of the elements of an aggregate beside its name, or nothing for nothing. -/
inductive ElementOf (o : Ontology) : Option String → Option Schema → Prop where
  | none : ElementOf o none none
  | some {name : String} {t : Schema} (h : o.find? name = some t) : ElementOf o (some name) (some t)

/-- Data for content where a schema is expected, which gives the content again. -/
structure Restores (o : Ontology) (s : Schema) (name : Option String) (element : Option Schema)
    (c : Content) (w : Json) : Prop where
  data : o.toData s element c = .ok w
  again : o.toContent s name w = .ok c
  notNull : w ≠ .null
  sorted : w.sorted = w

section

variable {o : Ontology} {s t sub : Schema} {c : Content} {name : Option String}
  {element : Option Schema}

theorem Closed.resolves (h : o.Closed) (hs : o.Registered s) : Resolves o s :=
  hs.resolves fun _ ht _ hmem => h.super ht hmem

theorem Closed.elementSchema? (h : o.Closed) (hs : o.Registered s) {slot : String}
    (he : o.elementType? s slot = .ok name) :
    ∃ element, o.elementSchema? s slot = .ok element ∧ ElementOf o name element := by
  unfold Ontology.elementSchema?
  rw [he]
  cases name with
  | none => exact ⟨none, rfl, .none⟩
  | some type =>
    obtain ⟨facets, hfacets⟩ := (h.resolves hs).facetsOf_eq_ok slot
    rw [elementType?, hfacets] at he
    obtain ⟨u, hu, hf⟩ := (mem_facetsOf_iff hs hfacets).1
      (elementType_mem (Except.ok.inj he))
    obtain ⟨f, hmem, heq⟩ := List.mem_map.1 hf
    obtain ⟨t, ht⟩ := Option.isSome_iff_exists.1 (h.element (registered_of_ancestor hs hu)
      (List.mem_of_mem_filter hmem) (by rw [heq, Facet.elementType?]))
    simp only [schema_eq_ok_iff.2 ht]
    exact ⟨some t, rfl, .some ht⟩

/-! ## Slots and members -/

/-- Slots of a value and members of its data, for the descriptors that have one. -/
inductive Rows (o : Ontology) (s : Schema) :
    List SlotDescriptor → Slots Content → List (String × Json) → Prop where
  | nil : Rows o s [] [] []
  | skip {d : SlotDescriptor} {ds : List SlotDescriptor} {slots : Slots Content}
    {data : List (String × Json)} (h : Rows o s ds slots data) : Rows o s (d :: ds) slots data
  | take {d : SlotDescriptor} {ds : List SlotDescriptor} {slots : Slots Content}
    {data : List (String × Json)} {t : Schema} {name : Option String} {element : Option Schema}
    {c : Content} {w : Json} (ht : o.schema d.type = .ok t)
    (hn : o.elementType? s d.name = .ok name) (he : o.elementSchema? s d.name = .ok element)
    (hw : o.Restores t name element c w) (h : Rows o s ds slots data) :
    Rows o s (d :: ds) ((d.name, c) :: slots) ((d.name, w) :: data)

namespace Rows

variable {ds : List SlotDescriptor} {slots : Slots Content} {data : List (String × Json)}

theorem eq_nil (h : Rows o s ds slots data) (hd : data = []) : slots = [] := by
  induction h with
  | nil => rfl
  | skip _ ih => exact ih hd
  | take _ _ _ _ _ _ => cases hd

theorem names (h : Rows o s ds slots data) : (data.map (·.1)).Sublist (ds.map (·.name)) := by
  induction h with
  | nil => exact .refl _
  | skip _ ih => exact ih.cons _
  | take _ _ _ _ _ ih => exact ih.cons_cons _

theorem distinct (h : Rows o s ds slots data) (hd : DistinctNames ds) : Slots.Distinct data := by
  have hfolded := h.names.map foldName
  rw [List.map_map, List.map_map] at hfolded
  exact hfolded.nodup hd

theorem sorted (h : Rows o s ds slots data) : ∀ m ∈ data, m.2.sorted = m.2 := by
  induction h with
  | nil => exact List.forall_mem_nil _
  | skip _ ih => exact ih
  | take _ _ _ hw _ ih => exact List.forall_mem_cons.2 ⟨hw.sorted, ih⟩

/-- A name that no descriptor has is that of no slot and of no member. -/
theorem get?_eq_none (h : Rows o s ds slots data) {key : String}
    (hk : ∀ d ∈ ds, sameName d.name key = false) :
    Slots.get? key slots = none ∧ Slots.get? key data = none := by
  induction h with
  | nil => exact ⟨rfl, rfl⟩
  | skip _ ih => exact ih (List.forall_mem_cons.1 hk).2
  | take _ _ _ _ _ ih =>
    obtain ⟨hfirst, hrest⟩ := List.forall_mem_cons.1 hk
    simpa [Slots.get?, hfirst] using ih hrest

theorem distinct_cons {d : SlotDescriptor} (h : DistinctNames (d :: ds)) :
    (∀ e ∈ ds, sameName e.name d.name = false) ∧ (∀ e ∈ ds, sameName d.name e.name = false) ∧
      DistinctNames ds := by
  simp only [DistinctNames, List.map_cons, List.nodup_cons, List.mem_map, not_exists, not_and] at h
  have hne : ∀ e ∈ ds, sameName e.name d.name = false := fun e he =>
    sameName_eq_false_iff.2 (h.1 e he)
  exact ⟨hne, fun e he => sameName_comm d.name e.name ▸ hne e he, h.2⟩

/-- The members are those of the data of any slots that agree with these. -/
theorem toFields (h : Rows o s ds slots data) (hd : DistinctNames ds) {all : Slots Content}
    (ha : ∀ d ∈ ds, Slots.get? d.name all = Slots.get? d.name slots) :
    o.toFields s all ds = .ok data := by
  induction h with
  | nil => rw [Ontology.toFields]
  | @skip d ds slots data h ih =>
    obtain ⟨hne, -, hrest⟩ := distinct_cons hd
    obtain ⟨hfirst, ha⟩ := List.forall_mem_cons.1 ha
    rw [(h.get?_eq_none hne).1] at hfirst
    exact toFields_cons_eq_ok_iff.2 (.inl ⟨hfirst, ih hrest ha⟩)
  | @take d ds slots data t name element c w ht hn he hw h ih =>
    obtain ⟨-, hne, hrest⟩ := distinct_cons hd
    obtain ⟨hfirst, ha⟩ := List.forall_mem_cons.1 ha
    simp only [Slots.get?, sameName_refl, if_true] at hfirst
    refine toFields_cons_eq_ok_iff.2 (.inr
      ⟨c, t, element, w, data, hfirst, ht, he, hw.data, ih hrest fun e hmem => ?_, rfl⟩)
    rw [ha e hmem, Slots.get?, hne e hmem, if_neg Bool.false_ne_true]

/-- The slots are those of any members that agree with these. -/
theorem toSlots (h : Rows o s ds slots data) (hd : DistinctNames ds) {all : List (String × Json)}
    (ha : ∀ d ∈ ds, Slots.get? d.name all = Slots.get? d.name data) :
    o.toSlots s all ds = .ok slots := by
  induction h with
  | nil => rw [Ontology.toSlots]
  | @skip d ds slots data h ih =>
    obtain ⟨hne, -, hrest⟩ := distinct_cons hd
    obtain ⟨hfirst, ha⟩ := List.forall_mem_cons.1 ha
    rw [(h.get?_eq_none hne).2] at hfirst
    rw [Ontology.toSlots]
    split
    · exact ih hrest ha
    · exact ih hrest ha
    · rename_i w _ hw
      rw [hfirst] at hw
      cases hw
  | @take d ds slots data t name element c w ht hn he hw h ih =>
    obtain ⟨-, hne, hrest⟩ := distinct_cons hd
    obtain ⟨hfirst, ha⟩ := List.forall_mem_cons.1 ha
    simp only [Slots.get?, sameName_refl, if_true] at hfirst
    refine toSlots_cons_of_get? hfirst hw.notNull ht hn hw.again (ih hrest fun e hmem => ?_)
    rw [ha e hmem, Slots.get?, hne e hmem, if_neg Bool.false_ne_true]

end Rows

/-- Data below a size has content that is restored from data of its own. -/
def RestoresBelow (o : Ontology) (n : Nat) : Prop :=
  ∀ v : Json, sizeOf v < n → v.Each Json.InRange → ∀ s name element c, o.Registered s →
    ElementOf o name element → o.toContent s name v = .ok c → c.Each false Content.FourDigitYear →
      ∃ w, o.Restores s name element c w

theorem RestoresBelow.mono {n k : Nat} (h : o.RestoresBelow n) (hk : k ≤ n) : o.RestoresBelow k :=
  fun v hv => h v (Nat.lt_of_lt_of_le hv hk)

theorem each_of_get? {key : String} {fields : List (String × Json)} {v : Json}
    (hf : ∀ m ∈ fields, m.2.Each Json.InRange) (h : Slots.get? key fields = some v) :
    v.Each Json.InRange := by
  obtain ⟨k, -, hmem⟩ := Slots.mem_of_get? h
  exact hf _ hmem

theorem exists_rows (hc : o.Closed) (hs : o.Registered s) {fields : List (String × Json)}
    (ih : o.RestoresBelow (sizeOf fields)) (hf : ∀ m ∈ fields, m.2.Each Json.InRange)
    {ds : List SlotDescriptor} {slots : Slots Content} (h : o.toSlots s fields ds = .ok slots)
    (hy : ∀ e ∈ slots, e.2.Each false Content.FourDigitYear) : ∃ data, Rows o s ds slots data := by
  induction ds generalizing slots with
  | nil =>
    rw [toSlots] at h
    cases h
    exact ⟨[], .nil⟩
  | cons d ds irest =>
    rw [toSlots] at h
    split at h
    · obtain ⟨data, hdata⟩ := irest h hy
      exact ⟨data, .skip hdata⟩
    · obtain ⟨data, hdata⟩ := irest h hy
      exact ⟨data, .skip hdata⟩
    · rename_i v _ hget
      split at h
      · cases h
      · rename_i t ht
        split at h
        · cases h
        · rename_i name hname
          split at h
          · cases h
          · rename_i c hcontent
            split at h
            · cases h
            · rename_i rest hrest
              cases h
              obtain ⟨hfirst, hy⟩ := List.forall_mem_cons.1 hy
              obtain ⟨data, hdata⟩ := irest hrest hy
              obtain ⟨element, helement, hof⟩ := hc.elementSchema? hs hname
              obtain ⟨w, hw⟩ := ih v (Slots.sizeOf_lt_of_get? hget) (each_of_get? hf hget) t name
                element c (registered_of_find? (schema_eq_ok_iff.1 ht)) hof hcontent hfirst
              exact ⟨_, .take ht hname helement hw hdata⟩

/-! ## Values with slots -/

/-- The value is an instance of a schema of which data can be written down and read again. -/
structure Instance (o : Ontology) (s : Schema) (slots : Slots Content) (ds : List SlotDescriptor)
    (data : List (String × Json)) : Prop where
  registered : o.Registered s
  concrete : s.isAbstract = false
  declared : o.slots s = .ok ds
  rows : Rows o s ds slots data

theorem exists_instance (hc : o.Closed) (hs : o.Registered s) {fields : List (String × Json)}
    (ih : o.RestoresBelow (sizeOf fields)) (hf : ∀ m ∈ fields, m.2.Each Json.InRange)
    (h : o.toSlotted s fields = .ok c) (hy : c.Each false Content.FourDigitYear) :
    ∃ slots ds data,
      c = .slotted (roleOfKind s.kind) s.name slots ∧ Instance o s slots ds data := by
  rw [toSlotted] at h
  split at h
  · cases h
  · rename_i habstract
    split at h
    · cases h
    · rename_i ds hds
      split at h
      · cases h
      · rename_i slots hslots
        cases h
        obtain ⟨data, hdata⟩ := exists_rows hc hs ih hf hslots fun e he => hy.slot he
        exact ⟨slots, ds, data, rfl, hs, by simpa using habstract, hds, hdata⟩

theorem exists_instance_bareValue (hc : o.Closed) (hs : o.Registered s)
    (h : bareValue s = .ok c) :
    ∃ ds, c = .slotted (roleOfKind s.kind) s.name [] ∧ Instance o s [] ds [] := by
  unfold bareValue at h
  split at h
  · cases h
  · rename_i habstract
    cases h
    obtain ⟨ds, hds⟩ := (hc.resolves hs).slots_eq_ok
    refine ⟨ds, rfl, hs, by simpa using habstract, hds, ?_⟩
    clear hds
    induction ds with
    | nil => exact .nil
    | cons d ds ih => exact .skip ih

namespace Instance

variable {slots : Slots Content} {ds : List SlotDescriptor} {data : List (String × Json)}

theorem toData (h : Instance o s slots ds data) (expected : Schema) (element : Option Schema) :
    o.toData expected element (.slotted (roleOfKind s.kind) s.name slots) =
      .ok (tagObject s expected data) :=
  toData_slotted_eq_ok_iff.2 ⟨s, ds, data, schema_eq_ok_iff.2 h.registered, h.declared,
    h.rows.toFields (distinct_slots h.declared) fun _ _ => rfl, rfl⟩

theorem toSlotted (h : Instance o s slots ds data) :
    o.toSlotted s (Json.sortMembers data) =
      .ok (.slotted (roleOfKind s.kind) s.name slots) := by
  have hd := distinct_slots h.declared
  rw [Ontology.toSlotted]
  simp only [h.concrete, Bool.false_eq_true, if_false, h.declared,
    h.rows.toSlots hd fun d _ => Json.get?_sortMembers (h.rows.distinct hd) d.name]

theorem bareValue (h : Instance o s [] ds data) :
    Ontology.bareValue s = .ok (.slotted (roleOfKind s.kind) s.name []) := by
  rw [Ontology.bareValue, h.concrete, if_neg Bool.false_ne_true]

theorem sorted (h : Instance o s slots ds data) :
    (Json.object (Json.sortMembers data)).sorted = .object (Json.sortMembers data) :=
  Json.sorted_object (Json.ascending_sortMembers data) fun m hm =>
    h.rows.sorted m (Json.mem_sortMembers hm)

/-- An only member is named for a slot and is no tag. -/
theorem tagged?_eq_none (h : Instance o s slots ds data) :
    o.tagged? s (.object (Json.sortMembers data)) = none := by
  unfold tagged?
  split
  · rename_i heq
    cases heq
  · rename_i key inner heq
    have hmem : (key, inner) ∈ data :=
      Json.mem_sortMembers (by rw [Json.object.inj heq]; exact List.mem_cons_self)
    obtain ⟨d, hd, hname⟩ := List.mem_map.1 (h.rows.names.subset (List.mem_map_of_mem hmem))
    obtain ⟨_, hslot⟩ := (mem_slots_iff h.declared).1 hd
    have hhas : o.hasSlot s key = true := by
      have hkey : d.name = key := hname
      rw [hasSlot, ← hkey, slot?_name hslot]
    rw [if_pos hhas]
  · rfl

end Instance

/-! ## Tags -/

theorem hasSlot_congr {a b : String} (h : sameName a b = true) (s : Schema) :
    o.hasSlot s a = o.hasSlot s b := by
  rw [hasSlot, hasSlot, slot?_congr h]

/-- A tag that stands for a sub-type has its name, which is one too. -/
theorem subtype?_name {tag : String} (h : o.subtype? s tag = some sub) :
    sameName sub.name tag = true ∧ sameName sub.name s.name = false ∧
      o.subtype? s sub.name = some sub := by
  unfold subtype? at h ⊢
  split at h
  · cases h
  · rename_i t hfind
    split at h
    · rename_i hcheck
      cases h
      rw [find?_name hfind]
      simp only [hcheck, if_true, and_true]
      simp only [Bool.and_eq_true, Bool.not_eq_true'] at hcheck
      exact ⟨sameName_of_find? hfind, hcheck.1.2⟩
    · cases h

/-- What data can be that names a sub-type: an object with the slots behind the tag, which is not
that of a slot, or the tag with nothing behind it. -/
theorem tagged?_cases {v : Json} {fields : Option (List (String × Json))}
    (h : o.tagged? s v = some (sub, fields)) : ∃ tag, o.subtype? s tag = some sub ∧
      (fields = none ∨ ∃ inner, fields = some inner ∧ v = .object [(tag, .object inner)] ∧
        o.hasSlot s tag = false) := by
  unfold tagged? at h
  split at h
  · rename_i tag
    obtain ⟨t, ht, heq⟩ := Option.map_eq_some_iff.1 h
    cases heq
    exact ⟨tag, ht, .inl rfl⟩
  · rename_i tag inner
    split at h
    · cases h
    · rename_i hslot
      split at h
      · rename_i ht
        cases h
        exact ⟨tag, ht, .inr ⟨_, rfl, rfl, by simpa using hslot⟩⟩
      · rename_i ht
        cases h
        exact ⟨tag, ht, .inl rfl⟩
      · cases h
  · cases h

/-- Data may name a sub-type where a schema of the kind is expected. -/
def TakesTags : SchemaKind → Bool
  | .concept | .agentAction | .predicate | .object | .contentElement | .term => true
  | _ => false

theorem toContent_of_tagged {v : Json} {fields : Option (List (String × Json))}
    (hk : TakesTags s.kind = true) (h : o.tagged? s v = some (sub, fields)) :
    o.toContent s name v =
      match fields with
      | some fields => o.toSlotted sub fields
      | none => bareValue sub := by
  rw [toContent.eq_def]
  cases hkind : s.kind with
  | primitive | aggregate | «variable» | ire | contentElementList =>
    rw [hkind] at hk
    cases hk
  | concept | agentAction | predicate | object | contentElement | term =>
    simp only
    split <;> rename_i htag <;> rw [h] at htag <;> cases htag <;> rfl

theorem toContent_of_slotted {fields : List (String × Json)} (hk : s.kind.isSlotted = true)
    (h : o.tagged? s (.object fields) = none) :
    o.toContent s name (.object fields) = o.toSlotted s fields := by
  rw [toContent.eq_def]
  cases hkind : s.kind with
  | concept | agentAction | predicate =>
    simp only
    split <;> rename_i htag <;> rw [h] at htag <;> cases htag
  | _ =>
    rw [hkind] at hk
    cases hk

theorem toContent_of_open {v : Json} (hk : TakesTags s.kind = true) (hs : s.kind.isSlotted = false)
    (h : o.tagged? s v = none) : o.toContent s name v = infer s.name v := by
  rw [toContent.eq_def]
  cases hkind : s.kind with
  | object | contentElement | term =>
    simp only
    split <;> rename_i htag <;> rw [h] at htag <;> cases htag
  | concept | agentAction | predicate =>
    rw [hkind] at hs
    cases hs
  | _ =>
    rw [hkind] at hk
    cases hk

namespace Instance

variable {slots : Slots Content} {ds : List SlotDescriptor} {data : List (String × Json)}

theorem restores (h : Instance o s slots ds data) (hk : s.kind.isSlotted = true) :
    o.Restores s name element (.slotted (roleOfKind s.kind) s.name slots)
      (.object (Json.sortMembers data)) where
  data := by rw [h.toData, tagObject, if_pos (sameName_refl _)]
  again := by rw [toContent_of_slotted hk h.tagged?_eq_none, h.toSlotted]
  notNull := by simp
  sorted := h.sorted

/-- A value of a sub-type is tagged with its name, and the tag is taken for the sub-type again. -/
theorem restores_tagged (h : Instance o sub slots ds data) (hk : TakesTags s.kind = true)
    (hne : sameName sub.name s.name = false) (ht : o.subtype? s sub.name = some sub)
    (hslot : data ≠ [] → o.hasSlot s sub.name = false) :
    o.Restores s name element (.slotted (roleOfKind sub.kind) sub.name slots)
      (tagObject sub s data) := by
  have hdata := h.toData s element
  rw [tagObject, if_neg (by simp [hne])] at hdata ⊢
  by_cases hnil : data = []
  · subst hnil
    cases h.rows.eq_nil rfl
    have htag : o.tagged? s (.string sub.name) = some (sub, none) := by
      rw [tagged?, ht]
      rfl
    exact ⟨hdata, (toContent_of_tagged hk htag).trans h.bareValue, by simp, rfl⟩
  · rw [if_neg (by simpa using hnil)] at hdata ⊢
    have htag : o.tagged? s (.object [(sub.name, .object (Json.sortMembers data))]) =
        some (sub, some (Json.sortMembers data)) := by
      simp only [tagged?, hslot hnil, Bool.false_eq_true, if_false, ht]
    refine ⟨hdata, (toContent_of_tagged hk htag).trans h.toSlotted, by simp, ?_⟩
    exact Json.sorted_object (List.pairwise_singleton _ _)
      (List.forall_mem_singleton.2 h.sorted)

end Instance

theorem exists_restores_tagged (hc : o.Closed) (hk : TakesTags s.kind = true) {v : Json}
    (ih : o.RestoresBelow (sizeOf v)) (hv : v.Each Json.InRange)
    {fields : Option (List (String × Json))} (htag : o.tagged? s v = some (sub, fields))
    (h : o.toContent s name v = .ok c) (hy : c.Each false Content.FourDigitYear) :
    ∃ w, o.Restores s name element c w := by
  rw [toContent_of_tagged hk htag] at h
  have hreg : o.Registered sub := (find?_of_tagged? htag).1
  obtain ⟨tag, ht, hcases⟩ := tagged?_cases htag
  obtain ⟨hname, hne, hself⟩ := subtype?_name ht
  rcases hcases with rfl | ⟨inner, rfl, rfl, hslot⟩
  · obtain ⟨ds, rfl, hi⟩ := exists_instance_bareValue hc hreg h
    exact ⟨_, hi.restores_tagged hk hne hself fun hnil => absurd rfl hnil⟩
  · have hinner : (Json.object inner).Each Json.InRange :=
      (Json.Each.object_iff.1 hv).2 _ List.mem_cons_self
    have hbelow := ih.mono (Nat.le_of_lt (sizeOf_lt_of_tagged? htag))
    obtain ⟨slots, ds, data, rfl, hi⟩ :=
      exists_instance hc hreg hbelow (Json.Each.object_iff.1 hinner).2 h hy
    exact ⟨_, hi.restores_tagged hk hne hself fun _ => by rw [hasSlot_congr hname, hslot]⟩

/-! ## Aggregates -/

/-- The elements of an aggregate whose elements have a declared type. -/
theorem exists_restoresAll {items : List Json} {elements : List Content}
    (ih : ∀ v ∈ items, ∀ c ∈ elements, o.toContent s none v = .ok c →
      ∃ w, o.Restores s none none c w)
    (h : o.toContents s items = .ok elements) :
    ∃ ws, o.toDataAll (some s) elements = .ok ws ∧ o.toContents s ws = .ok elements ∧
      ∀ w ∈ ws, w.sorted = w := by
  induction items generalizing elements with
  | nil =>
    rw [toContents] at h
    cases h
    exact ⟨[], by rw [toDataAll], by rw [toContents], List.forall_mem_nil _⟩
  | cons v rest irest =>
    rw [toContents] at h
    split at h
    · cases h
    · rename_i c hcontent
      split at h
      · cases h
      · rename_i cs hcs
        cases h
        obtain ⟨w, hw⟩ := ih v List.mem_cons_self c List.mem_cons_self hcontent
        obtain ⟨ws, hdata, hagain, hsorted⟩ := irest (fun v hv c hc =>
          ih v (List.mem_cons_of_mem _ hv) c (List.mem_cons_of_mem _ hc)) hcs
        refine ⟨w :: ws, ?_, ?_, List.forall_mem_cons.2 ⟨hw.sorted, hsorted⟩⟩
        · exact toDataAll_cons_eq_ok_iff.2 ⟨s, w, ws, rfl, hw.data, hdata, rfl⟩
        · rw [toContents]
          simp only [hw.again, hagain]

theorem exists_restores_aggregate (ho : o.Keeps Vocabulary.basic) (hk : s.kind = .aggregate)
    {v : Json} (ih : o.RestoresBelow (sizeOf v)) (hv : v.Each Json.InRange)
    (he : ElementOf o name element) (h : o.toContent s name v = .ok c)
    (hy : c.Each false Content.FourDigitYear) : ∃ w, o.Restores s name element c w := by
  rw [toContent.eq_def, hk] at h
  simp only at h
  split at h
  · rename_i items
    have hitems := (Json.Each.array_iff.1 hv).2
    cases he with
    | none =>
      simp only at h
      split at h
      · cases h
      · rename_i elements helements
        cases h
        obtain ⟨ws, hdata, hagain, hsorted⟩ := exists_inferredAll
          (fun v hmem c hc => exists_inferred ho (hitems v hmem) hc) helements
        refine ⟨.array ws, toData_aggregate_eq_ok_iff.2 ⟨ws, hdata none, rfl⟩, ?_, by simp,
          Json.sorted_array hsorted⟩
        rw [toContent.eq_def, hk]
        simp only [hagain]
    | @some type t ht =>
      simp only [schema_eq_ok_iff.2 ht] at h
      split at h
      · cases h
      · rename_i elements helements
        cases h
        have hbelow : ∀ v ∈ items, ∀ c ∈ elements, o.toContent t none v = .ok c →
            ∃ w, o.Restores t none none c w := by
          intro v hmem c hcontent hc
          have hlt : sizeOf v < sizeOf (Json.array items) := by
            have := List.sizeOf_lt_of_mem hmem
            simp
            omega
          exact ih v hlt (hitems v hmem) t none none c (registered_of_find? ht) .none hc
            (hy.element hcontent)
        obtain ⟨ws, hdata, hagain, hsorted⟩ := exists_restoresAll hbelow helements
        refine ⟨.array ws, toData_aggregate_eq_ok_iff.2 ⟨ws, hdata, rfl⟩, ?_, by simp,
          Json.sorted_array hsorted⟩
        rw [toContent.eq_def, hk]
        simp only [schema_eq_ok_iff.2 ht, hagain]
  · cases h

/-! ## Any data -/

/-- Content that data gives under a schema is restored from data of its own. -/
theorem exists_restores (ho : o.Keeps Vocabulary.basic) (hc : o.Closed) {v : Json}
    (hv : v.Each Json.InRange) (hs : o.Registered s) (he : ElementOf o name element)
    (h : o.toContent s name v = .ok c) (hy : c.Each false Content.FourDigitYear) :
    ∃ w, o.Restores s name element c w := by
  -- on the size, since the members behind a tag are two levels inside the data
  induction hn : sizeOf v using Nat.strongRecOn generalizing v s name element c with
  | _ n ih =>
    subst hn
    have hbelow : o.RestoresBelow (sizeOf v) := fun w hw hrange t name element d ht hof hd hyear =>
      ih _ hw hrange ht hof hd hyear rfl
    cases hkind : s.kind with
    | primitive =>
      have hcontent : ∀ w, o.toContent s name w = primitiveOf s.name w := fun w => by
        rw [toContent.eq_def, hkind]
      obtain ⟨w, hw, hagain⟩ := exists_means_primitive ho hv ((hcontent v).symm.trans h) hy.self
      exact ⟨w, hw.data s element, (hcontent w).trans hagain, hw.notNull, hw.sorted⟩
    | aggregate => exact exists_restores_aggregate ho hkind hbelow hv he h hy
    | concept | agentAction | predicate =>
      have hslotted : s.kind.isSlotted = true := by rw [hkind]; rfl
      cases htag : o.tagged? s v with
      | some found =>
        exact exists_restores_tagged hc (by rw [hkind]; rfl) hbelow hv htag h hy
      | none =>
        cases v with
        | object fields =>
          rw [toContent_of_slotted hslotted htag] at h
          obtain ⟨slots, ds, data, rfl, hi⟩ := exists_instance hc hs (hbelow.mono (by simp))
            (Json.Each.object_iff.1 hv).2 h hy
          exact ⟨_, hi.restores hslotted⟩
        | _ =>
          rw [toContent.eq_def, hkind] at h
          simp only at h
          split at h <;> rename_i htag' <;> rw [htag] at htag' <;> cases htag'
          cases h
    | object | contentElement | term =>
      have htakes : TakesTags s.kind = true := by rw [hkind]; rfl
      have hopen : s.kind.isSlotted = false := by rw [hkind]; rfl
      cases htag : o.tagged? s v with
      | some found => exact exists_restores_tagged hc htakes hbelow hv htag h hy
      | none =>
        rw [toContent_of_open htakes hopen htag] at h
        obtain ⟨w, hw⟩ := exists_inferred ho hv h
        refine ⟨w, hw.data s element, ?_, hw.notNull, hw.sorted⟩
        rw [toContent_of_open htakes hopen (hw.untagged s htag), hw.again]
    | «variable» | ire | contentElementList =>
      rw [toContent.eq_def, hkind] at h
      cases h

/-- Content from data has data that gives it again, slot for slot in the same order. -/
theorem exists_internalise (ho : o.Keeps Vocabulary.basic) (hc : o.Closed) {type : String}
    (hs : o.find? type = some s) {v : Json} (hv : v.Each Json.InRange)
    (h : o.externalise s v = .ok c) (hy : c.Each false Content.FourDigitYear) :
    ∃ w, o.internalise s c = .ok w ∧ o.externalise s w = .ok c := by
  have hsorted : v.sorted.Each Json.InRange :=
    hv.sorted (fun _ => trivial) (fun _ => trivial)
  obtain ⟨w, hw⟩ := exists_restores ho hc hsorted (registered_of_find? hs) .none h hy
  refine ⟨w, hw.data, ?_⟩
  rw [externalise, hw.sorted]
  exact hw.again

end

/-! ## Drawings

A vocabulary of drawings with two figures, each of which may be of any type. -/

theorem closed_of_layers {o : Ontology} (h : ∀ l ∈ o.layers, ∀ s ∈ l.schemas,
    (∀ super ∈ s.supers, (o.find? super).isSome = true) ∧
      ∀ f ∈ s.facets, ∀ type ∈ f.2.elementType?, (o.find? type).isSome = true) : o.Closed :=
  ⟨fun hs hmem => (forall_of_layers h hs).1 _ hmem,
    fun hs hf ht => (forall_of_layers h hs).2 _ hf _ ht⟩

def circle : Schema where
  name := "circle"
  kind := .concept
  slots := [⟨"radius", TypeName.integer, false⟩]

def dot : Schema where
  name := "dot"
  kind := .concept

def drawing : Schema where
  name := "drawing"
  kind := .concept
  slots := [⟨"outer", SchemaKind.term.rootName, false⟩, ⟨"inner", SchemaKind.term.rootName, false⟩]

def drawings : Ontology :=
  { compose "drawings" [Vocabulary.basic] with own := { schemas := [circle, dot, drawing] } }

/-- A dot in a circle, each under a tag. -/
def dotInCircle : Json :=
  .object [("inner", .string "dot"),
    ("outer", .object [("circle", .object [("radius", .integer 3)])])]

def drawnDot : Content :=
  .slotted .concept "drawing" [("outer", .slotted .concept "circle" [("radius", .ofInt 3)]),
    ("inner", .slotted .concept "dot" [])]

theorem keeps_drawings : drawings.Keeps Vocabulary.basic := by
  refine keeps_of_own (List.append_nil _) ?_
  intro s hs
  simp only [drawings, List.mem_cons, List.not_mem_nil, or_false] at hs
  rcases hs with rfl | rfl | rfl <;> rfl

theorem closed_drawings : drawings.Closed :=
  closed_of_layers (by decide)

theorem slots_circle : drawings.slots circle = .ok circle.slots :=
  slots_of_supers_nil rfl (by decide)

theorem slots_drawing : drawings.slots drawing = .ok drawing.slots :=
  slots_of_supers_nil rfl (by decide)

theorem elementType?_drawings {s : Schema} (hs : s.supers = []) (hf : s.facets = [])
    (slot : String) : drawings.elementType? s slot = .ok none := by
  rw [elementType?, facetsOf_of_supers_nil hs]
  simp [Schema.ownFacets, hf, elementTypeIn?]

theorem toContent_circle : drawings.toContent (.root .term) none
    (.object [("circle", .object [("radius", .integer 3)])]) =
      .ok (.slotted .concept "circle" [("radius", .ofInt 3)]) := by
  have hslot : drawings.hasSlot (.root .term) "circle" = false := by
    rw [hasSlot, slot?_of_supers_nil rfl]
    rfl
  have htag : drawings.tagged? (.root .term)
      (.object [("circle", .object [("radius", .integer 3)])]) =
        some (circle, some [("radius", .integer 3)]) := by
    have hsub : drawings.subtype? (.root .term) "circle" = some circle := rfl
    simp only [tagged?, hslot, Bool.false_eq_true, if_false, hsub]
  have hradius : drawings.toContent { name := TypeName.integer, kind := .primitive } none
      (.integer 3) = .ok (.ofInt 3) := by
    rw [toContent.eq_def]
    rfl
  have hslots : drawings.toSlots circle [("radius", .integer 3)] circle.slots =
      .ok [("radius", .ofInt 3)] :=
    toSlots_cons_of_get? rfl (by simp) rfl (elementType?_drawings rfl rfl _) hradius
      (by rw [toSlots])
  rw [toContent_of_tagged rfl htag]
  show drawings.toSlotted circle [("radius", .integer 3)] = _
  rw [toSlotted]
  simp only [slots_circle, hslots]
  rfl

theorem toContent_dot : drawings.toContent (.root .term) none (.string "dot") =
    .ok (.slotted .concept "dot" []) := by
  have htag : drawings.tagged? (.root .term) (.string "dot") = some (dot, none) := rfl
  rw [toContent_of_tagged rfl htag]
  rfl

theorem externalise_dotInCircle : drawings.externalise drawing dotInCircle = .ok drawnDot := by
  have hslots : drawings.toSlots drawing [("inner", .string "dot"),
      ("outer", .object [("circle", .object [("radius", .integer 3)])])] drawing.slots =
        .ok [("outer", .slotted .concept "circle" [("radius", .ofInt 3)]),
          ("inner", .slotted .concept "dot" [])] :=
    toSlots_cons_of_get? rfl (by simp) rfl (elementType?_drawings rfl rfl _) toContent_circle
      (toSlots_cons_of_get? rfl (by simp) rfl (elementType?_drawings rfl rfl _) toContent_dot
        (by rw [toSlots]))
  show drawings.toContent drawing none dotInCircle = _
  rw [dotInCircle, toContent_of_slotted rfl rfl, toSlotted]
  simp only [slots_drawing, hslots]
  rfl

theorem internalise_drawnDot : ∃ w, drawings.internalise drawing drawnDot = .ok w ∧
    drawings.externalise drawing w = .ok drawnDot := by
  have hrange : dotInCircle.Each Json.InRange := by
    show ∀ w ∈ [dotInCircle, .string "dot", .object [("circle", .object [("radius", .integer 3)])],
      .object [("radius", .integer 3)], .integer 3], w.InRange
    simp only [List.forall_mem_cons]
    exact ⟨trivial, trivial, trivial, trivial, ⟨by decide, by decide⟩, List.forall_mem_nil _⟩
  have hyear : drawnDot.Each false Content.FourDigitYear := by
    show ∀ c ∈ [drawnDot, .slotted .concept "circle" [("radius", .ofInt 3)], .ofInt 3,
      .slotted .concept "dot" []], c.FourDigitYear
    simp only [List.forall_mem_cons]
    exact ⟨trivial, trivial, trivial, trivial, List.forall_mem_nil _⟩
  have hfind : drawings.find? "drawing" = some drawing := rfl
  exact exists_internalise keeps_drawings closed_drawings hfind hrange externalise_dotInCircle hyear

end Ontology
end AgentContent
