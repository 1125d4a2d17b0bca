import AgentContent.Conversion.Externalise
import AgentContent.Proofs.Json.Read
import AgentContent.Proofs.Ontology.Ancestors

/-!
# AgentContent.Proofs.Conversion.Externalise

What content application data can give.

* `Gives`: one step from data to content, whatever is known of the parts: a primitive, an aggregate
  of a defined type, or a value of a concrete schema that fits the place, with declared slots in
  their order.
* `toContent_induction`: what holds of such steps holds of all content that data gives.
* `Built`, `built_externalise`: values of defined schemas in the roles of their kinds, with declared
  slots only, aggregates of defined types, and primitives.
-/

namespace AgentContent
namespace Ontology

/-- The slot is one that the schema declares, under the declared spelling. -/
def DeclaresSlot (o : Ontology) (s : Schema) (name : String) : Prop :=
  ∃ ds d, o.slots s = .ok ds ∧ d ∈ ds ∧ d.name = name

/-- The node is one that data can give. -/
def Built (o : Ontology) : Content → Prop
  | .primitive (.integer n) => fitsInt64 n = true
  | .primitive _ => True
  | .slotted role type slots => Slots.Distinct slots ∧ ∃ s, o.find? type = some s ∧
      s.kind.isSlotted = true ∧ role = roleOfKind s.kind ∧ ∀ e ∈ slots, o.DeclaresSlot s e.1
  | .aggregate type _ template =>
    template = none ∧ ∃ s, o.find? type = some s ∧ s.kind = .aggregate
  | _ => False

section

variable {o : Ontology} {s : Schema} {type : String} {c : Content}

/-! ## Primitives and aggregates -/

/-- The ontology has the aggregate type of data that says nothing of its type. -/
def HasSequence (o : Ontology) : Prop :=
  ∃ s, o.find? TypeName.sequence = some s ∧ s.kind = .aggregate

theorem exists_of_inferAll {items : List Json} {elements : List Content}
    (h : inferAll type items = .ok elements) (hc : c ∈ elements) :
    ∃ v ∈ items, infer type v = .ok c := by
  induction items generalizing elements with
  | nil =>
    cases h
    cases hc
  | cons v rest ih =>
    rw [inferAll] at h
    split at h
    · cases h
    · rename_i d hd
      split at h
      · cases h
      · rename_i ds hds
        cases h
        rcases List.mem_cons.1 hc with rfl | hc
        · exact ⟨v, List.mem_cons_self, hd⟩
        · obtain ⟨w, hw, hwc⟩ := ih hds hc
          exact ⟨w, List.mem_cons_of_mem _ hw, hwc⟩

/-- What data gives where values of a schema are asked for, when `P` holds of the parts beside the
schemas of their places. -/
inductive Gives (o : Ontology) (P : Schema → Content → Prop) (s : Schema) : Content → Prop where
  | primitive {p : Primitive} (h : Built o (.primitive p)) : Gives o P s (.primitive p)
  | aggregate {type : String} {t : Schema} {elements : List Content}
    (ht : o.find? type = some t) (hk : t.kind = .aggregate) (h : ∀ c ∈ elements, ∃ u, P u c) :
    Gives o P s (.aggregate type elements none)
  | slotted {t : Schema} {slots : Slots Content} (ht : o.find? t.name = some t)
    (hk : t.kind.isSlotted = true) (hfits : o.compatible t s = true)
    (hconcrete : t.isAbstract = false)
    (hnames : slots = [] ∨
      ∃ ds, o.slots t = .ok ds ∧ (slots.map (·.1)).Sublist (ds.map (·.name)))
    (h : ∀ e ∈ slots, ∃ d u, o.slot? t e.1 = .ok (some d) ∧ d.name = e.1 ∧
      o.find? d.type = some u ∧ P u e.2) :
    Gives o P s (.slotted (roleOfKind t.kind) t.name slots)

variable {P : Schema → Content → Prop}

theorem gives_infer (hseq : o.HasSequence) (hP : ∀ s c, Gives o P s c → P s c) (s : Schema)
    (v : Json) {c : Content} (h : infer type v = .ok c) : Gives o P s c := by
  induction v using Json.induction generalizing c with
  | null => cases h
  | bool b =>
    cases h
    exact .primitive trivial
  | integer n =>
    rw [infer] at h
    cases h
    split
    · rename_i hn
      exact .primitive hn
    · exact .primitive trivial
  | float x =>
    cases h
    exact .primitive trivial
  | string s =>
    cases h
    exact .primitive trivial
  | array items ih =>
    rw [infer] at h
    split at h
    · cases h
    · rename_i elements helements
      cases h
      obtain ⟨t, ht, hk⟩ := hseq
      refine .aggregate ht hk fun c hc => ⟨s, hP s c ?_⟩
      obtain ⟨v, hv, hvc⟩ := exists_of_inferAll helements hc
      exact ih v hv hvc
  | object members _ => cases h

theorem fitsInt64_of_int64? {v : Json} {n : Int} (h : v.int64? = some n) : fitsInt64 n = true := by
  unfold Json.int64? at h
  split at h
  · split at h
    · rename_i hn
      cases h
      exact hn
    · cases h
  · cases h

theorem gives_primitiveOf (hseq : o.HasSequence) (hP : ∀ s c, Gives o P s c → P s c) {v : Json}
    (h : primitiveOf type v = .ok c) : Gives o P s c := by
  have hfound : ∀ {α : Type} {f : α → Content} {x : Option α} {d : Content},
      x.map f = some d → (∀ a, x = some a → Gives o P s (f a)) → Gives o P s d := by
    intro α f x d hd hf
    obtain ⟨a, ha, rfl⟩ := Option.map_eq_some_iff.1 hd
    exact hf a ha
  simp only [primitiveOf] at h
  split_ifs at h with hstring hinteger hfloat hboolean hdate hbytes
  · split at h
    · rename_i hd
      cases h
      exact hfound hd fun _ _ => .primitive trivial
    · cases h
  · split at h
    · rename_i hd
      cases h
      exact hfound hd fun _ hn => .primitive (fitsInt64_of_int64? hn)
    · cases h
  · split at h
    · rename_i hd
      cases h
      exact hfound hd fun _ _ => .primitive trivial
    · cases h
  · split at h
    · rename_i hd
      cases h
      exact hfound hd fun _ _ => .primitive trivial
    · cases h
  · split at h
    · cases h
    · split at h
      · cases h
        exact .primitive trivial
      · cases h
  · split at h
    · rename_i hd
      cases h
      exact hfound hd fun _ _ => .primitive trivial
    · cases h
  · exact gives_infer hseq hP s v h

/-! ## Values with slots -/

theorem find?_of_subtype? {tag : String} {sub : Schema} (h : o.subtype? s tag = some sub) :
    o.find? sub.name = some sub ∧ sub.kind.isSlotted = true ∧ o.compatible sub s = true := by
  unfold subtype? at h
  split at h
  · cases h
  · rename_i t ht
    split at h
    · rename_i hcheck
      cases h
      simp only [Bool.and_eq_true] at hcheck
      exact ⟨find?_name ht, hcheck.1.1, hcheck.2⟩
    · cases h

theorem find?_of_tagged? {v : Json} {sub : Schema} {fields : Option (List (String × Json))}
    (h : o.tagged? s v = some (sub, fields)) :
    o.find? sub.name = some sub ∧ sub.kind.isSlotted = true ∧ o.compatible sub s = true := by
  unfold tagged? at h
  split at h
  · obtain ⟨t, ht, heq⟩ := Option.map_eq_some_iff.1 h
    cases heq
    exact find?_of_subtype? ht
  · split at h
    · cases h
    · split at h
      · rename_i ht
        cases h
        exact find?_of_subtype? ht
      · rename_i ht
        cases h
        exact find?_of_subtype? ht
      · cases h
  · cases h

theorem gives_bareValue {t : Schema} (ht : o.find? t.name = some t) (hk : t.kind.isSlotted = true)
    (hfits : o.compatible t s = true) (h : bareValue t = .ok c) : Gives o P s c := by
  unfold bareValue at h
  split at h
  · cases h
  · rename_i hconcrete
    cases h
    exact .slotted ht hk hfits (by simpa using hconcrete) (.inl rfl) (List.forall_mem_nil _)

theorem toSlots_cons_of_get? {t : Schema} {fields : List (String × Json)} {d : SlotDescriptor}
    {ds : List SlotDescriptor} {v : Json} {element : Option String} {slots : Slots Content}
    (hget : Slots.get? d.name fields = some v) (hv : v ≠ .null)
    (ht : o.schema d.type = .ok t) (he : o.elementType? s d.name = .ok element)
    (hc : o.toContent t element v = .ok c) (hrest : o.toSlots s fields ds = .ok slots) :
    o.toSlots s fields (d :: ds) = .ok ((d.name, c) :: slots) := by
  rw [toSlots]
  split
  · rename_i hnone
    rw [hget] at hnone
    cases hnone
  · rename_i hnull
    rw [hget] at hnull
    exact absurd (Option.some.inj hnull) hv
  · rename_i w _ hw
    rw [hget] at hw
    cases hw
    simp only [ht, he, hc, hrest]

/-- The slots of data: some of the declared ones in their order, with content from members. -/
theorem toSlots_eq_ok {fields : List (String × Json)} {ds : List SlotDescriptor}
    {slots : Slots Content} (h : o.toSlots s fields ds = .ok slots) :
    (slots.map (·.1)).Sublist (ds.map (·.name)) ∧ ∀ e ∈ slots, ∃ d ∈ ds, ∃ v t element,
      d.name = e.1 ∧ sizeOf v < sizeOf fields ∧ o.find? d.type = some t ∧
        o.toContent t element v = .ok e.2 := by
  induction ds generalizing slots with
  | nil =>
    rw [toSlots] at h
    cases h
    exact ⟨.refl _, List.forall_mem_nil _⟩
  | cons d ds ih =>
    have hcons : ∀ {rest : Slots Content}, o.toSlots s fields ds = .ok rest →
        (rest.map (·.1)).Sublist (ds.map (·.name)) ∧ ∀ e ∈ rest, ∃ d' ∈ d :: ds, ∃ v t element,
          d'.name = e.1 ∧ sizeOf v < sizeOf fields ∧ o.find? d'.type = some t ∧
            o.toContent t element v = .ok e.2 := by
      intro rest hrest
      refine ⟨(ih hrest).1, fun e he => ?_⟩
      obtain ⟨d', hd', hslot⟩ := (ih hrest).2 e he
      exact ⟨d', List.mem_cons_of_mem _ hd', hslot⟩
    rw [toSlots] at h
    split at h
    · exact ⟨(hcons h).1.cons _, (hcons h).2⟩
    · exact ⟨(hcons h).1.cons _, (hcons h).2⟩
    · rename_i v hv hget
      split at h
      · cases h
      · rename_i t ht
        split at h
        · cases h
        · rename_i element helement
          split at h
          · cases h
          · rename_i c hc
            split at h
            · cases h
            · rename_i rest hrest
              cases h
              obtain ⟨hnames, hall⟩ := hcons hrest
              refine ⟨hnames.cons_cons _, List.forall_mem_cons.2 ⟨?_, hall⟩⟩
              exact ⟨d, List.mem_cons_self, v, t, element, rfl, Slots.sizeOf_lt_of_get? hget,
                schema_eq_ok_iff.1 ht, hc⟩

/-- `P` holds of what data below a size gives. -/
def HoldsBelow (o : Ontology) (P : Schema → Content → Prop) (n : Nat) : Prop :=
  ∀ v : Json, sizeOf v < n → ∀ (s : Schema) element c, o.find? s.name = some s →
    o.toContent s element v = .ok c → P s c

theorem HoldsBelow.mono {n k : Nat} (h : o.HoldsBelow P n) (hk : k ≤ n) : o.HoldsBelow P k :=
  fun v hv => h v (Nat.lt_of_lt_of_le hv hk)

theorem gives_toSlotted {t : Schema} {fields : List (String × Json)} (ht : o.find? t.name = some t)
    (hk : t.kind.isSlotted = true) (hfits : o.compatible t s = true)
    (ih : o.HoldsBelow P (sizeOf fields)) (h : o.toSlotted t fields = .ok c) : Gives o P s c := by
  rw [toSlotted] at h
  split at h
  · cases h
  · rename_i hconcrete
    split at h
    · cases h
    · rename_i ds hds
      split at h
      · cases h
      · rename_i slots hslots
        cases h
        obtain ⟨hnames, hall⟩ := toSlots_eq_ok hslots
        refine .slotted ht hk hfits (by simpa using hconcrete) (.inr ⟨ds, hds, hnames⟩) ?_
        intro e he
        obtain ⟨d, hd, v, u, element, hname, hlt, hu, hc⟩ := hall e he
        obtain ⟨_, hslot⟩ := (mem_slots_iff hds).1 hd
        have hown := slot?_name hslot
        rw [hname] at hown
        exact ⟨d, u, hown, hname, hu, ih v hlt u element e.2 (find?_name hu) hc⟩

theorem exists_of_toContents {items : List Json} {elements : List Content}
    (h : o.toContents s items = .ok elements) (hc : c ∈ elements) :
    ∃ v ∈ items, o.toContent s none v = .ok c := by
  induction items generalizing elements with
  | nil =>
    rw [toContents] at h
    cases h
    cases hc
  | cons v rest ih =>
    rw [toContents] at h
    split at h
    · cases h
    · rename_i d hd
      split at h
      · cases h
      · rename_i ds hds
        cases h
        rcases List.mem_cons.1 hc with rfl | hc
        · exact ⟨v, List.mem_cons_self, hd⟩
        · obtain ⟨w, hw, hwc⟩ := ih hds hc
          exact ⟨w, List.mem_cons_of_mem _ hw, hwc⟩

/-! ## Data under a schema -/

theorem gives_toContent_aggregate (hseq : o.HasSequence) (hP : ∀ s c, Gives o P s c → P s c)
    (hs : o.find? s.name = some s) (hk : s.kind = .aggregate) {v : Json}
    (ih : o.HoldsBelow P (sizeOf v)) {element : Option String}
    (h : o.toContent s element v = .ok c) : Gives o P s c := by
  rw [toContent.eq_def, hk] at h
  simp only at h
  split at h
  · rename_i items
    have htype : ∃ t, o.find? (if s.isRoot then TypeName.sequence else s.name) = some t ∧
        t.kind = .aggregate := by
      split
      · exact hseq
      · exact ⟨s, hs, hk⟩
    obtain ⟨t, ht, htk⟩ := htype
    split at h
    · split at h
      · cases h
      · rename_i elements helements
        cases h
        refine .aggregate ht htk fun c hc => ⟨s, hP s c ?_⟩
        obtain ⟨w, -, hw⟩ := exists_of_inferAll helements hc
        exact gives_infer hseq hP s w hw
    · split at h
      · cases h
      · rename_i name es hes
        split at h
        · cases h
        · rename_i elements helements
          cases h
          refine .aggregate ht htk fun c hc => ⟨es, ?_⟩
          obtain ⟨w, hw, hwc⟩ := exists_of_toContents helements hc
          have hlt : sizeOf w < sizeOf (Json.array items) := by
            have := List.sizeOf_lt_of_mem hw
            simp
            omega
          exact ih w hlt es none c (find?_name (schema_eq_ok_iff.1 hes)) hwc
  · cases h

/-- What names a sub-type gives a value of it. -/
theorem gives_tagged {v : Json} (ih : o.HoldsBelow P (sizeOf v)) {sub : Schema} :
    (∀ fields, o.tagged? s v = some (sub, some fields) → o.toSlotted sub fields = .ok c →
      Gives o P s c) ∧
    (o.tagged? s v = some (sub, none) → bareValue sub = .ok c → Gives o P s c) := by
  constructor
  · intro fields htag h
    obtain ⟨hsub, hk, hfits⟩ := find?_of_tagged? htag
    exact gives_toSlotted hsub hk hfits (ih.mono (Nat.le_of_lt (sizeOf_lt_of_tagged? htag))) h
  · intro htag h
    obtain ⟨hsub, hk, hfits⟩ := find?_of_tagged? htag
    exact gives_bareValue hsub hk hfits h

/-- What holds of every step holds of the content that data gives under a schema of the ontology. -/
theorem toContent_induction (hseq : o.HasSequence) (hP : ∀ s c, Gives o P s c → P s c) (v : Json)
    (hs : o.find? s.name = some s) {element : Option String}
    (h : o.toContent s element v = .ok c) : P s c := by
  -- on the size, since the members behind a tag are two levels inside the data
  induction hn : sizeOf v using Nat.strongRecOn generalizing v s element c with
  | _ n ih =>
    subst hn
    have hbelow : o.HoldsBelow P (sizeOf v) := fun w hw t e d ht hd => ih _ hw w ht hd rfl
    refine hP s c ?_
    by_cases hk : s.kind = .aggregate
    · exact gives_toContent_aggregate hseq hP hs hk hbelow h
    rw [toContent.eq_def] at h
    split at h
    case h_1 => exact gives_primitiveOf hseq hP h
    case h_2 heq => exact absurd heq hk
    case h_3 heq | h_4 heq | h_5 heq =>
      split at h
      · rename_i htag
        exact (gives_tagged hbelow).1 _ htag h
      · rename_i htag
        exact (gives_tagged hbelow).2 htag h
      · split at h
        · exact gives_toSlotted hs (by rw [heq]; rfl) (o.compatible_refl s)
            (hbelow.mono (by simp)) h
        · cases h
    case h_6 heq | h_7 heq | h_8 heq =>
      split at h
      · rename_i htag
        exact (gives_tagged hbelow).1 _ htag h
      · rename_i htag
        exact (gives_tagged hbelow).2 htag h
      · exact gives_infer hseq hP s v h
    case h_9 => cases h

/-! ## Nodes -/

theorem distinct_of_sublist {ds : List SlotDescriptor} {slots : Slots Content}
    (hds : o.slots s = .ok ds) (h : (slots.map (·.1)).Sublist (ds.map (·.name))) :
    Slots.Distinct slots := by
  have hfolded := h.map foldName
  rw [List.map_map, List.map_map] at hfolded
  exact hfolded.nodup (distinct_slots hds)

/-- A step to parts that are built gives what is built. -/
theorem built_of_gives (h : Gives o (fun _ c => c.Each false (Built o)) s c) :
    c.Each false (Built o) := by
  cases h with
  | primitive h => exact .of_primitive h
  | aggregate ht hk h =>
    refine .of_aggregate ⟨rfl, _, ht, hk⟩ (fun c hc => ?_) (fun h => by cases h)
    obtain ⟨_, hbuilt⟩ := h c hc
    exact hbuilt
  | @slotted t slots ht hk _ _ hnames h =>
    refine .of_slotted ⟨?_, t, ht, hk, rfl, fun e he => ?_⟩ fun e he => ?_
    · rcases hnames with rfl | ⟨ds, hds, hnames⟩
      · exact .nil
      · exact distinct_of_sublist hds hnames
    · rcases hnames with rfl | ⟨ds, hds, hnames⟩
      · cases he
      · obtain ⟨d, hd, hname⟩ := List.mem_map.1 (hnames.subset (List.mem_map_of_mem he))
        exact ⟨ds, d, hds, hd, hname⟩
    · obtain ⟨_, _, _, _, _, hbuilt⟩ := h e he
      exact hbuilt

/-- Whatever data gives is built of schemas of the ontology. -/
theorem built_externalise (hseq : o.HasSequence) (hs : o.find? s.name = some s) {v : Json}
    (h : o.externalise s v = .ok c) : c.Each false (Built o) :=
  toContent_induction (P := fun _ c => c.Each false (Built o)) hseq
    (fun _ _ hgives => built_of_gives hgives) v.sorted hs h

end

end Ontology
end AgentContent
