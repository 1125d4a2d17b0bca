import AgentContent.Proofs.Content.Nodes
import AgentContent.Proofs.Json.Write
import AgentContent.Proofs.Time.Rfc3339

/-!
# AgentContent.Proofs.Content.Json

Content comes back from its data document, with the spelling and the order of its slots, its
templates and the marks of its variables.

* `Content.ofJson?_toJson`: the document of a content is read as the content.
* `Content.nonFinite?_eq_none_iff`: the search for a float that has no document form visits every
  place where a float can be.
* `Content.exact_toJson`: the numbers of the document are read back from their texts when the floats
  of the content are.
-/

namespace AgentContent

/-! ## Primitives -/

theorem Json.bytes?_integers (bs : List UInt8) :
    Json.bytes? (bs.map fun b => .integer b.toNat) = some bs := by
  induction bs with
  | nil => rfl
  | cons b bs ih =>
    have hb : Json.byte? (.integer b.toNat) = some b := by
      have := b.toNat_lt
      have h : (decide ((0 : Int) ≤ b.toNat) && decide ((b.toNat : Int) ≤ 255)) = true := by
        simp; omega
      rw [Json.byte?, if_pos h]
      simp
    simp only [Json.bytes?, List.map_cons, List.mapM_cons, hb, Option.bind_eq_bind,
      Option.bind_some] at ih ⊢
    rw [ih]
    rfl

theorem Primitive.ofJson?_toJson {p : Primitive} (h : Content.Fits (.primitive p)) :
    Primitive.ofJson? p.toJson = some p := by
  cases p with
  | string s => rfl
  | boolean b => rfl
  | integer n =>
    have hn : fitsInt64 n = true := h
    simp [toJson, ofJson?, Json.int64?, hn]
  | float x => rfl
  | date t => simp [toJson, ofJson?, Instant.readLoose?_toData]
  | bytes bs => simp [toJson, ofJson?, Json.bytes?_integers]

namespace Content

/-! ## The parts of a document -/

theorem itemsOfJson?_allToJson {cs : List Content}
    (h : ∀ c ∈ cs, ofJsonAt? true c.toJson = some c) :
    itemsOfJson? (allToJson cs) = some cs := by
  induction cs with
  | nil => simp [allToJson, itemsOfJson?]
  | cons c cs ih =>
    obtain ⟨hc, hcs⟩ := List.forall_mem_cons.1 h
    rw [allToJson, itemsOfJson?, hc, ih hcs]

theorem entriesOfJson?_slotsToJson {slots : List (String × Content)}
    (h : ∀ e ∈ slots, ofJsonAt? true e.2.toJson = some e.2) :
    entriesOfJson? (slotsToJson slots) = some slots := by
  induction slots with
  | nil => simp [slotsToJson, entriesOfJson?]
  | cons e slots ih =>
    obtain ⟨k, c⟩ := e
    obtain ⟨hc, hslots⟩ := List.forall_mem_cons.1 h
    rw [slotsToJson, entriesOfJson?, hc, ih hslots]

/-- No document of a content is `null`. -/
theorem toJson_ne_null (c : Content) : c.toJson ≠ .null := by
  unfold toJson
  split <;> simp

theorem templateMember?_of_some {members : List (String × Json)} {v : Json} {c : Content}
    (hm : Json.member? "element_template" members = some v) (hn : v ≠ .null)
    (hc : ofJsonAt? true v = some c) : templateMember? members = some (some c) := by
  rw [templateMember?]
  split
  · rename_i h
    rw [hm] at h
    cases h
  · rename_i h
    rw [hm] at h
    cases h
    exact absurd rfl hn
  · rename_i w _ h
    rw [hm] at h
    cases h
    rw [hc, Option.map_some]

theorem ofJsonAt?_toJson {c : Content} (h : c.Each true Fits) (inner : Bool) :
    ofJsonAt? inner c.toJson = some c := by
  induction c using Content.induction generalizing inner with
  | primitive p =>
    have hp := Primitive.ofJson?_toJson h.self
    rw [toJson, ofJsonAt?]
    simp [Json.occurrences, Json.member?, Json.once, hp, Kind.ofTag?, Kind.all, Kind.tag]
  | slotted role type slots ih =>
    have hslots := entriesOfJson?_slotsToJson fun e he => ih e he (h.slot he) true
    have hd : Slots.Distinct slots := h.self
    have hread : ∀ tag, slottedOfJson? role [("kind", tag), ("type", .string type),
        ("slots", .object (slotsToJson slots))] = some (.slotted role type slots) := by
      simp [slottedOfJson?, slotsMember?, Json.occurrences, Json.member?, Json.once, typeMember?,
        Json.string?, hslots, Slots.ofList_of_distinct hd]
    cases role
    all_goals
      rw [toJson, ofJsonAt?]
      simp [Json.occurrences, Json.member?, Kind.ofTag?, Kind.all, Kind.tag, kind, hread]
  | aggregate type elements template ihe iht =>
    have helements := itemsOfJson?_allToJson fun c hc => ihe c hc (h.element hc) true
    cases template with
    | none =>
      rw [toJson, ofJsonAt?]
      simp [Json.occurrences, Json.member?, Json.once, Kind.ofTag?, Kind.all, Kind.tag,
        typeMember?, elementsMember?, templateMember?, Json.string?, helements]
    | some t =>
      have htemplate : ∀ tag, templateMember? [("kind", tag), ("type", .string type),
          ("elements", .array (allToJson elements)), ("element_template", t.toJson)] =
          some (some t) := by
        intro tag
        refine templateMember?_of_some ?_ (toJson_ne_null t) (iht t rfl h.template true)
        simp [Json.member?]
      rw [toJson, ofJsonAt?]
      simp [Json.occurrences, Json.member?, Json.once, Kind.ofTag?, Kind.all, Kind.tag,
        typeMember?, elementsMember?, htemplate, Json.string?, helements]
  | «variable» slots isMeta ih =>
    have hslots := entriesOfJson?_slotsToJson fun e he => ih e he (h.variableSlot he) true
    have hd : Slots.Distinct slots := h.self
    rw [toJson, ofJsonAt?]
    simp [Json.occurrences, Json.member?, Json.once, Kind.ofTag?, Kind.all, Kind.tag,
      requiredSlots?, metaMember?, Json.bool?, hslots, Slots.ofList_of_distinct hd]
  | ire type referent proposition ihr ihp =>
    have hr := ihr h.referent true
    have hp := ihp h.proposition true
    rw [toJson, ofJsonAt?]
    simp [Json.occurrences, Json.member?, Json.once, Kind.ofTag?, Kind.all, Kind.tag,
      typeMember?, contentMember?, Json.string?, hr, hp]
  | list elements ih =>
    have helements := itemsOfJson?_allToJson fun c hc => ih c hc (h.item hc) true
    rw [toJson, ofJsonAt?]
    simp [Json.occurrences, Json.member?, Json.once, Kind.ofTag?, Kind.all, Kind.tag,
      elementsMember?, helements]

/-- The document of a content is read as the content. -/
theorem ofJson?_toJson {c : Content} (h : c.Each true Fits) : ofJson? c.toJson = some c :=
  ofJsonAt?_toJson h false

/-! ## Floats -/

/-- The node is no float that is infinite or no number. -/
def Finite : Content → Prop
  | .primitive (.float x) => x.isFinite = true
  | _ => True

instance : DecidablePred Finite := fun c => by
  unfold Finite
  split <;> infer_instance

/-- The node is no variable with a slot that holds something else than a string. -/
def StringVariable : Content → Prop
  | .variable slots _ => ∀ e ∈ slots, e.2.string?.isSome = true
  | _ => True

instance : DecidablePred StringVariable
  | .variable slots _ => inferInstanceAs (Decidable (∀ e ∈ slots, e.2.string?.isSome = true))
  | .primitive _ => isTrue trivial
  | .slotted _ _ _ => isTrue trivial
  | .aggregate _ _ _ => isTrue trivial
  | .ire _ _ _ => isTrue trivial
  | .list _ => isTrue trivial

/-- The node is no variable with a float in it that is infinite or no number. -/
def FiniteVariable : Content → Prop
  | .variable slots _ => ∀ e ∈ slots, e.2.Each true Finite
  | _ => True

instance : DecidablePred FiniteVariable
  | .variable slots _ => inferInstanceAs (Decidable (∀ e ∈ slots, e.2.Each true Finite))
  | .primitive _ => isTrue trivial
  | .slotted _ _ _ => isTrue trivial
  | .aggregate _ _ _ => isTrue trivial
  | .ire _ _ _ => isTrue trivial
  | .list _ => isTrue trivial

theorem finiteVariable_of_stringVariable {c : Content} (h : c.StringVariable) :
    c.FiniteVariable := by
  cases c with
  | «variable» slots isMeta =>
    intro e he
    have hs : e.2.string?.isSome = true := h e he
    unfold string? at hs
    split at hs
    · rename_i s heq
      rw [heq]
      exact .of_primitive trivial
    · cases hs
  | _ => trivial

theorem nonFiniteAll?_eq_none_iff {cs : List Content} :
    nonFiniteAll? cs = none ↔ ∀ c ∈ cs, c.nonFinite? = none := by
  induction cs with
  | nil => simp [nonFiniteAll?]
  | cons c cs ih => simp [nonFiniteAll?, ih]

theorem nonFiniteSlots?_eq_none_iff {slots : List (String × Content)} :
    nonFiniteSlots? slots = none ↔ ∀ e ∈ slots, e.2.nonFinite? = none := by
  induction slots with
  | nil => simp [nonFiniteSlots?]
  | cons e slots ih =>
    obtain ⟨k, c⟩ := e
    simp [nonFiniteSlots?, ih]

/-- The search visits every place where a float can be. -/
theorem nonFinite?_eq_none_iff {c : Content} (h : c.Each true FiniteVariable) :
    c.nonFinite? = none ↔ c.Each true Finite := by
  induction c using Content.induction with
  | primitive p =>
    have hiff : Content.nonFinite? (.primitive p) = none ↔ Finite (.primitive p) := by
      cases p with
      | float x => simp [nonFinite?, Finite]
      | _ => simp [nonFinite?, Finite]
    exact hiff.trans ⟨Each.of_primitive, Each.self⟩
  | slotted role type slots ih =>
    rw [nonFinite?, nonFiniteSlots?_eq_none_iff]
    constructor
    · intro hn
      exact .of_slotted trivial fun e he => (ih e he (h.slot he)).1 (hn e he)
    · intro hf e he
      exact (ih e he (h.slot he)).2 (hf.slot he)
  | aggregate type elements template ihe iht =>
    have helements : nonFiniteAll? elements = none ↔ ∀ c ∈ elements, c.Each true Finite := by
      rw [nonFiniteAll?_eq_none_iff]
      constructor
      · intro hn c hc
        exact (ihe c hc (h.element hc)).1 (hn c hc)
      · intro hf c hc
        exact (ihe c hc (h.element hc)).2 (hf c hc)
    cases template with
    | none =>
      rw [nonFinite?, helements]
      constructor
      · intro hn
        exact .of_aggregate trivial hn fun _ t ht => by cases ht
      · intro hf c hc
        exact hf.element hc
    | some t =>
      rw [nonFinite?, Option.or_eq_none_iff, helements, iht t rfl h.template]
      constructor
      · rintro ⟨hn, ht⟩
        refine .of_aggregate trivial hn ?_
        intro _
        rintro s ⟨⟩
        exact ht
      · intro hf
        exact ⟨fun c hc => hf.element hc, hf.template⟩
  | «variable» slots isMeta ih =>
    constructor
    · intro _
      exact .of_variable trivial h.self
    · intro _
      rfl
  | ire type referent proposition ihr ihp =>
    rw [nonFinite?, Option.or_eq_none_iff, ihr h.referent, ihp h.proposition]
    constructor
    · rintro ⟨hr, hp⟩
      exact .of_ire trivial hr hp
    · intro hf
      exact ⟨hf.referent, hf.proposition⟩
  | list elements ih =>
    rw [nonFinite?, nonFiniteAll?_eq_none_iff]
    constructor
    · intro hn
      exact .of_list trivial fun c hc => (ih c hc (h.item hc)).1 (hn c hc)
    · intro hf c hc
      exact (ih c hc (h.item hc)).2 (hf.item hc)

/-! ## Numbers in the text of the document -/

/-- A finite float of the node is read back from its own text. -/
def ExactFloat : Content → Prop
  | .primitive (.float x) => x.isFinite = true → Json.Exact (.float x)
  | _ => True

theorem each_exact_string (s : String) : (Json.string s).Each Json.Exact :=
  List.forall_mem_singleton.2 trivial

theorem exact_member {k : String} {v : Json} (h : v.Each Json.Exact) :
    (Json.object [(k, v)]).Each Json.Exact :=
  Json.Each.object_iff.2 ⟨trivial, List.forall_mem_singleton.2 h⟩

theorem exact_primitive {p : Primitive} (hf : Fits (.primitive p)) (he : ExactFloat (.primitive p))
    (hx : Finite (.primitive p)) : p.toJson.Each Json.Exact := by
  cases p with
  | string s => exact exact_member (List.forall_mem_singleton.2 trivial)
  | boolean b => exact exact_member (List.forall_mem_singleton.2 trivial)
  | integer n =>
    have hn : fitsInt64 n = true := hf
    simp only [fitsInt64, Bool.and_eq_true, decide_eq_true_eq] at hn
    simp only [leastInt64, greatestInt64] at hn
    exact exact_member (List.forall_mem_singleton.2 ⟨hn.1, by omega⟩)
  | float x => exact exact_member (List.forall_mem_singleton.2 (he hx))
  | date t => exact exact_member (List.forall_mem_singleton.2 trivial)
  | bytes bs =>
    refine exact_member (Json.Each.array_iff.2 ⟨trivial, ?_⟩)
    intro v hv
    obtain ⟨b, -, rfl⟩ := List.mem_map.1 hv
    have hb := b.toNat_lt
    exact List.forall_mem_singleton.2 ⟨by omega, by omega⟩

theorem exact_allToJson {cs : List Content} (h : ∀ c ∈ cs, c.toJson.Each Json.Exact) :
    (Json.array (allToJson cs)).Each Json.Exact := by
  refine Json.Each.array_iff.2 ⟨trivial, ?_⟩
  induction cs with
  | nil => exact List.forall_mem_nil _
  | cons c cs ih =>
    obtain ⟨hc, hcs⟩ := List.forall_mem_cons.1 h
    exact List.forall_mem_cons.2 ⟨hc, ih hcs⟩

theorem exact_slotsToJson {slots : List (String × Content)}
    (h : ∀ e ∈ slots, e.2.toJson.Each Json.Exact) :
    (Json.object (slotsToJson slots)).Each Json.Exact := by
  refine Json.Each.object_iff.2 ⟨trivial, ?_⟩
  induction slots with
  | nil => exact List.forall_mem_nil _
  | cons e slots ih =>
    obtain ⟨k, c⟩ := e
    obtain ⟨hc, hslots⟩ := List.forall_mem_cons.1 h
    exact List.forall_mem_cons.2 ⟨hc, ih hslots⟩

theorem exact_toJson {c : Content} (hf : c.Each true Fits) (he : c.Each true ExactFloat)
    (hx : c.Each true Finite) : c.toJson.Each Json.Exact := by
  have hstring := each_exact_string
  induction c using Content.induction with
  | primitive p =>
    have hp := exact_primitive hf.self he.self hx.self
    refine Json.Each.object_iff.2 ⟨trivial, ?_⟩
    simp [hp, hstring]
  | slotted role type slots ih =>
    have hs := exact_slotsToJson fun e h => ih e h (hf.slot h) (he.slot h) (hx.slot h)
    refine Json.Each.object_iff.2 ⟨trivial, ?_⟩
    simp [hs, hstring]
  | aggregate type elements template ihe iht =>
    have hs := exact_allToJson fun c h => ihe c h (hf.element h) (he.element h) (hx.element h)
    cases template with
    | none =>
      refine Json.Each.object_iff.2 ⟨trivial, ?_⟩
      simp [hs, hstring]
    | some t =>
      have ht := iht t rfl hf.template he.template hx.template
      refine Json.Each.object_iff.2 ⟨trivial, ?_⟩
      simp [hs, ht, hstring]
  | «variable» slots isMeta ih =>
    have hs := exact_slotsToJson fun e h =>
      ih e h (hf.variableSlot h) (he.variableSlot h) (hx.variableSlot h)
    have hb : (Json.bool isMeta).Each Json.Exact := List.forall_mem_singleton.2 trivial
    refine Json.Each.object_iff.2 ⟨trivial, ?_⟩
    simp [hs, hb, hstring]
  | ire type referent proposition ihr ihp =>
    have hr := ihr hf.referent he.referent hx.referent
    have hp := ihp hf.proposition he.proposition hx.proposition
    refine Json.Each.object_iff.2 ⟨trivial, ?_⟩
    simp [hr, hp, hstring]
  | list elements ih =>
    have hs := exact_allToJson fun c h => ih c h (hf.item h) (he.item h) (hx.item h)
    refine Json.Each.object_iff.2 ⟨trivial, ?_⟩
    simp [hs, hstring]

end Content
end AgentContent
