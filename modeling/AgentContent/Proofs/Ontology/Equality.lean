import AgentContent.Proofs.Content.Equality
import AgentContent.Proofs.Ontology.Validation

/-!
# AgentContent.Proofs.Ontology.Equality

Equal content passes the same checks, unless a rule of an application looks closer.

* `Ontology.Plain`: no schema of the ontology has a rule of an application.
* `validateContent_of_same`: validation does not tell equal contents apart.
* `declared_of_same`: neither does the search for undeclared slots.
-/

namespace AgentContent

def Facet.isCustom : Facet → Bool
  | .custom _ => true
  | _ => false

/-- No slot of the schema has a rule of an application. -/
def Schema.Plain (s : Schema) : Prop :=
  ∀ f ∈ s.facets, f.2.isCustom = false

theorem Schema.Plain.ownFacets {s : Schema} (h : s.Plain) {slot : String} {f : Facet}
    (hf : f ∈ s.ownFacets slot) : f.isCustom = false := by
  obtain ⟨e, he, rfl⟩ := List.mem_map.1 hf
  exact h e (List.mem_of_mem_filter he)

namespace Ontology

/-- No schema of the ontology has a rule of an application. -/
def Plain (o : Ontology) : Prop :=
  ∀ name s, o.find? name = some s → s.Plain

theorem schema_eq_ok_iff {o : Ontology} {name : String} {s : Schema} :
    o.schema name = .ok s ↔ o.find? name = some s := by
  unfold schema
  cases o.find? name with
  | none => simp
  | some t => simp

theorem find?_congr {a b : String} (h : sameName a b = true) (o : Ontology) :
    o.find? a = o.find? b := by
  simp only [find?, Layer.find?, sameName_congr_right h]

/-- A schema that is found under some name is found under its own. -/
theorem find?_name {o : Ontology} {name : String} {s : Schema} (h : o.find? name = some s) :
    o.find? s.name = some s := by
  rw [find?_congr (sameName_of_find? h), h]

section

variable {o : Ontology}

/-! ## Facets -/

theorem find?_of_mem_search {seen : List String} {tasks : List Task} {s : Schema}
    (h : .enter s ∈ o.search seen tasks) : ∃ name, o.find? name = some s := by
  fun_induction search o seen tasks with
  | case1 => cases h
  | case2 seen t rest ih =>
    rcases List.mem_cons.1 h with h | h
    · cases h
    · exact ih h
  | case3 seen name rest _ ih =>
    rcases List.mem_cons.1 h with h | h
    · cases h
    · exact ih h
  | case4 seen name rest t _ _ ih => exact ih h
  | case5 seen name rest t ht _ ih =>
    rcases List.mem_cons.1 h with h | h
    · cases h
      exact ⟨name, ht⟩
    · exact ih h

theorem plain_of_collectFacets {slot : String} {visits : List Visit}
    (h : ∀ s, .enter s ∈ visits → s.Plain) {facets : List Facet}
    (hf : o.collectFacets slot visits = .ok facets) : ∀ f ∈ facets, f.isCustom = false := by
  induction visits generalizing facets with
  | nil =>
    cases hf
    exact List.forall_mem_nil _
  | cons visit rest ih =>
    have hrest := fun s hs => h s (List.mem_cons_of_mem _ hs)
    cases visit with
    | enter s =>
      rw [collectFacets] at hf
      split at hf
      · cases hf
      · rename_i fs hfs
        cases hf
        intro f hmem
        rcases List.mem_append.1 hmem with hown | hinherited
        · exact (h s List.mem_cons_self).ownFacets hown
        · exact ih hrest hfs f hinherited
    | missing name => cases hf
    | leave s => exact ih hrest hf

theorem plain_of_facetsOf (ho : o.Plain) {s : Schema} (hs : s.Plain) {slot : String}
    {facets : List Facet} (hf : o.facetsOf s slot = .ok facets) :
    ∀ f ∈ facets, f.isCustom = false := by
  refine plain_of_collectFacets ?_ hf
  intro t ht
  rcases List.mem_cons.1 ht with ht | ht
  · cases ht
    exact hs
  · obtain ⟨name, hname⟩ := find?_of_mem_search ht
    exact ho name t hname

theorem isOpen_of_same {c d : Content} (h : c.same d = true) : isOpen c = isOpen d :=
  Content.eq_of_same (fun e => by cases e <;> rfl) h

theorem checkElements_of_same {slot type : String} {expected : Schema} {xs ys : List Content}
    (h : List.Forall₂ (fun c d => c.same d = true) xs ys) :
    o.checkElements slot type expected xs = .ok () ↔
      o.checkElements slot type expected ys = .ok () := by
  induction h with
  | nil => exact Iff.rfl
  | @cons c d xs ys hcd _ ih =>
    rw [checkElements, checkElements, isOpen_of_same hcd, Content.typeName_of_same hcd]
    split
    · exact ih
    · cases o.schema d.typeName with
      | error e => simp
      | ok actual =>
        simp only
        split
        · exact ih
        · simp

theorem aggregate?_of_same {c d : Content} (h : c.same d = true) :
    Option.Rel (List.Forall₂ fun c d => c.same d = true) c.aggregate? d.aggregate? := by
  cases c with
  | aggregate type xs template =>
    obtain ⟨ys, template', rfl, hs⟩ := Content.exists_of_same_aggregate h
    exact .some hs
  | primitive p => cases Content.eq_of_same_primitive h; exact .none
  | slotted role type xs => obtain ⟨ys, rfl, -⟩ := Content.exists_of_same_slotted h; exact .none
  | «variable» xs isMeta => obtain ⟨ys, rfl, -⟩ := Content.exists_of_same_variable h; exact .none
  | ire type r p => obtain ⟨r', p', rfl, -⟩ := Content.exists_of_same_ire h; exact .none
  | list xs => obtain ⟨ys, rfl, -⟩ := Content.exists_of_same_list h; exact .none

theorem checkFacet_of_same {slot : String} {c d : Content} (h : c.same d = true) {f : Facet}
    (hf : f.isCustom = false) :
    o.checkFacet slot c f = .ok () ↔ o.checkFacet slot d f = .ok () := by
  have haggregate := aggregate?_of_same h
  unfold checkFacet
  rw [isOpen_of_same h]
  split
  · exact Iff.rfl
  · cases f with
    | cardinality least most =>
      simp only
      cases hc : c.aggregate? <;> cases hd : d.aggregate? <;> rw [hc, hd] at haggregate
      · simp
      · cases haggregate
      · cases haggregate
      · cases haggregate with
        | some hall =>
          simp only [hall.length_eq]
    | elementType type =>
      simp only
      cases hc : c.aggregate? <;> cases hd : d.aggregate? <;> rw [hc, hd] at haggregate
      · simp
      · cases haggregate
      · cases haggregate
      · cases haggregate with
        | some hall =>
          simp only
          cases o.schema type with
          | error e => exact Iff.rfl
          | ok expected => exact checkElements_of_same hall
    | permitted values =>
      simp only [Content.primitive?_of_same h]
      cases d.primitive? with
      | none => simp
      | some p => simp only; split <;> simp
    | pattern p =>
      simp only [Content.string?_of_same h]
      cases d.string? with
      | none => simp
      | some s => simp only; split <;> simp
    | custom rule => cases hf

theorem checkFacets_of_same {slot : String} {c d : Content} (h : c.same d = true)
    {facets : List Facet} (hf : ∀ f ∈ facets, f.isCustom = false) :
    o.checkFacets slot c facets = .ok () ↔ o.checkFacets slot d facets = .ok () := by
  induction facets with
  | nil => exact Iff.rfl
  | cons f rest ih =>
    obtain ⟨hfirst, hrest⟩ := List.forall_mem_cons.1 hf
    have hiff : o.checkFacet slot c f = .ok () ↔ o.checkFacet slot d f = .ok () :=
      checkFacet_of_same h hfirst
    rw [checkFacets, checkFacets]
    cases hc : o.checkFacet slot c f with
    | error e =>
      cases hd : o.checkFacet slot d f with
      | error e => simp
      | ok u => rw [hc, hd] at hiff; simp at hiff
    | ok u =>
      cases hd : o.checkFacet slot d f with
      | error e => rw [hc, hd] at hiff; simp at hiff
      | ok u => exact ih hrest

/-! ## Validation -/

theorem valueType?_of_rel {R : Content → Content → Prop} (hr : ∀ c d, R c d → c.same d = true)
    {xs ys : Slots Content} (h : Option.Rel R (Slots.get? Content.valueTypeSlot xs)
      (Slots.get? Content.valueTypeSlot ys)) :
    Content.valueType? xs = Content.valueType? ys := by
  unfold Content.valueType?
  generalize Slots.get? Content.valueTypeSlot xs = x at h
  generalize Slots.get? Content.valueTypeSlot ys = y at h
  cases h with
  | none => rfl
  | some hcd => exact Content.string?_of_same (hr _ _ hcd)

theorem checkDeclared_of_same {slot : String} {expected : Schema} {c d : Content}
    (h : c.same d = true) (hc : c.Keyed) :
    o.checkDeclared slot expected c = .ok () ↔ o.checkDeclared slot expected d = .ok () := by
  cases c with
  | «variable» xs isMeta =>
    obtain ⟨ys, rfl, hl, hs⟩ := Content.exists_of_same_variable h
    rw [checkDeclared, checkDeclared,
      valueType?_of_rel (fun _ _ h => h) (Content.rel_get?_of_sameSlots hc hl hs _)]
    cases Content.valueType? ys with
    | none => exact Iff.rfl
    | some type =>
      simp only
      cases o.schema type with
      | error e => exact Iff.rfl
      | ok declared => simp only; split <;> simp
  | primitive p => cases Content.eq_of_same_primitive h; exact Iff.rfl
  | slotted role type xs =>
    obtain ⟨ys, rfl, -⟩ := Content.exists_of_same_slotted h
    exact Iff.rfl
  | aggregate type xs template =>
    obtain ⟨ys, template', rfl, -⟩ := Content.exists_of_same_aggregate h
    exact Iff.rfl
  | ire type r p => obtain ⟨r', p', rfl, -⟩ := Content.exists_of_same_ire h; exact Iff.rfl
  | list xs => obtain ⟨ys, rfl, -⟩ := Content.exists_of_same_list h; exact Iff.rfl

theorem fitting_eq_ok_iff {d : SlotDescriptor} {c : Content} {actual : Schema} :
    o.fitting d c = .ok actual ↔ ∃ expected, o.schema d.type = .ok expected ∧
      o.schema c.typeName = .ok actual ∧ o.compatible actual expected = true ∧
        o.checkDeclared d.name expected c = .ok () := by
  unfold fitting
  cases o.schema d.type with
  | error e => simp
  | ok expected =>
    simp only
    cases o.schema c.typeName with
    | error e => simp
    | ok own =>
      simp only
      by_cases hcompat : o.compatible own expected = true
      · rw [if_pos hcompat]
        cases hdecl : o.checkDeclared d.name expected c with
        | error e => simp [hdecl]
        | ok u =>
          simp only [Except.ok.injEq, exists_eq_left', hdecl]
          constructor
          · rintro rfl
            exact ⟨rfl, hcompat, trivial⟩
          · exact And.left
      · rw [if_neg hcompat]
        simp only [reduceCtorEq, Except.ok.injEq, exists_eq_left', false_iff, not_and]
        rintro rfl hc
        exact absurd hc hcompat

theorem fitting_of_same {d : SlotDescriptor} {c c' : Content} (h : c.same c' = true)
    (hc : c.Keyed) {actual : Schema} :
    o.fitting d c = .ok actual ↔ o.fitting d c' = .ok actual := by
  simp only [fitting_eq_ok_iff, Content.typeName_of_same h, checkDeclared_of_same h hc]

theorem slotHolds_of_rel (ho : o.Plain) {s : Schema} (hs : s.Plain) {d : SlotDescriptor}
    {xs ys : Slots Content}
    (h : Option.Rel (fun c c' => c.same c' = true ∧ c.Keyed ∧
      ∀ s : Schema, s.Plain → (o.validate s c = .ok () ↔ o.validate s c' = .ok ()))
      (Slots.get? d.name xs) (Slots.get? d.name ys)) :
    o.SlotHolds s xs d ↔ o.SlotHolds s ys d := by
  unfold SlotHolds
  generalize Slots.get? d.name xs = x at h
  generalize Slots.get? d.name ys = y at h
  cases h with
  | none => simp
  | @some c c' hcc' =>
    obtain ⟨hsame, hkeyed, hvalid⟩ := hcc'
    have hplain : ∀ actual, o.fitting d c = .ok actual → actual.Plain := by
      intro actual hfit
      obtain ⟨_, _, hactual, _⟩ := fitting_eq_ok_iff.1 hfit
      exact ho _ actual (schema_eq_ok_iff.1 hactual)
    simp only [reduceCtorEq, false_and, false_or, Option.some.injEq, exists_and_left,
      exists_eq_left', ← fitting_of_same hsame hkeyed]
    constructor
    · rintro ⟨actual, hfit, hv, facets, hfacets, hcheck⟩
      exact ⟨actual, hfit, (hvalid actual (hplain actual hfit)).1 hv, facets, hfacets,
        (checkFacets_of_same hsame (plain_of_facetsOf ho hs hfacets)).1 hcheck⟩
    · rintro ⟨actual, hfit, hv, facets, hfacets, hcheck⟩
      exact ⟨actual, hfit, (hvalid actual (hplain actual hfit)).2 hv, facets, hfacets,
        (checkFacets_of_same hsame (plain_of_facetsOf ho hs hfacets)).2 hcheck⟩

theorem validateContent_iff_of_validate (ho : o.Plain) {c d : Content} (h : c.same d = true)
    (hv : ∀ s : Schema, s.Plain → (o.validate s c = .ok () ↔ o.validate s d = .ok ())) :
    o.validateContent c = .ok () ↔ o.validateContent d = .ok () := by
  rw [validateContent_eq_ok_iff, validateContent_eq_ok_iff, Content.typeName_of_same h]
  constructor
  · rintro ⟨t, ht, hc⟩
    exact ⟨t, ht, (hv t (ho _ t (schema_eq_ok_iff.1 ht))).1 hc⟩
  · rintro ⟨t, ht, hd⟩
    exact ⟨t, ht, (hv t (ho _ t (schema_eq_ok_iff.1 ht))).2 hd⟩

/-- A statement about all elements, for equal elements. -/
theorem forall_mem_iff_of_forall₂ {α β : Type} {P : α → Prop} {Q : β → Prop} {xs : List α}
    {ys : List β} (h : List.Forall₂ (fun x y => P x ↔ Q y) xs ys) :
    (∀ x ∈ xs, P x) ↔ ∀ y ∈ ys, Q y := by
  induction h with
  | nil => simp
  | cons hxy _ ih => rw [List.forall_mem_cons, List.forall_mem_cons, hxy, ih]

/-- Validation does not tell equal contents apart. -/
theorem validate_of_same (ho : o.Plain) {c d : Content} (h : c.same d = true)
    (hc : c.Each false Content.Keyed) (hd : d.Each false Content.Keyed) :
    c.Keyed ∧ ∀ s : Schema, s.Plain → (o.validate s c = .ok () ↔ o.validate s d = .ok ()) := by
  refine Content.same_induction (M := fun c d => c.Keyed ∧
    ∀ s : Schema, s.Plain → (o.validate s c = .ok () ↔ o.validate s d = .ok ()))
    ?primitive ?slotted ?aggregate ?«open» ?ire ?list h hc hd
  case primitive =>
    intro p
    exact ⟨trivial, fun s _ => Iff.rfl⟩
  case slotted =>
    intro role type xs ys hx hy hrel
    refine ⟨hx, fun s hs => ?_⟩
    rw [validate_slotted_eq_ok_iff, validate_slotted_eq_ok_iff]
    simp only [slotHolds_of_rel ho hs (hrel _)]
  case aggregate =>
    intro type xs ys template template' hall
    refine ⟨trivial, fun s hs => ?_⟩
    have hiff : (∀ e ∈ xs, o.validateContent e = .ok ()) ↔
        ∀ e ∈ ys, o.validateContent e = .ok () :=
      forall_mem_iff_of_forall₂ (hall.imp fun c d h =>
        validateContent_iff_of_validate ho h.1 h.2.2)
    rw [validate_aggregate_eq_ok_iff, validate_aggregate_eq_ok_iff, hiff]
  case «open» =>
    intro xs ys isMeta hx hy hrel
    refine ⟨hx, fun s hs => ?_⟩
    have htype : Content.valueType? xs = Content.valueType? ys :=
      valueType?_of_rel (fun _ _ h => h.1) (hrel _)
    rw [validate, validate, htype]
    cases Content.valueType? ys with
    | none => exact Iff.rfl
    | some type =>
      simp only
      split
      · exact Iff.rfl
      · cases o.schema type with
        | error e => exact Iff.rfl
        | ok declared => simp only; split <;> simp
  case ire =>
    intro type r r' p p' hr hp
    refine ⟨trivial, fun s hs => ?_⟩
    rw [validate_ire_eq_ok_iff, validate_ire_eq_ok_iff, Content.isContentElement_of_same hp.1,
      validateContent_iff_of_validate ho hr.1 hr.2.2,
      validateContent_iff_of_validate ho hp.1 hp.2.2]
  case list =>
    intro xs ys hall
    refine ⟨trivial, fun s hs => ?_⟩
    rw [validate_list_eq_ok_iff, validate_list_eq_ok_iff]
    refine forall_mem_iff_of_forall₂ (hall.imp fun c d h => ?_)
    rw [Content.isContentElement_of_same h.1, validateContent_iff_of_validate ho h.1 h.2.2]

theorem validateContent_of_same (ho : o.Plain) {c d : Content} (h : c.same d = true)
    (hc : c.Each false Content.Keyed) (hd : d.Each false Content.Keyed) :
    o.validateContent c = .ok () ↔ o.validateContent d = .ok () :=
  validateContent_iff_of_validate ho h (validate_of_same ho h hc hd).2

/-! ## Undeclared slots -/

theorem ownSlot?_congr {a b : String} (h : sameName a b = true) (s : Schema) :
    s.ownSlot? a = s.ownSlot? b := by
  simp only [Schema.ownSlot?, sameName_congr_right h]

theorem firstSlot_congr {a b : String} (h : sameName a b = true) (visits : List Visit) :
    o.firstSlot a visits = o.firstSlot b visits := by
  induction visits with
  | nil => rfl
  | cons visit rest ih =>
    cases visit with
    | enter s => rw [firstSlot, firstSlot, ownSlot?_congr h, ih]
    | missing name => rfl
    | leave s => exact ih

theorem slot?_congr {a b : String} (h : sameName a b = true) (s : Schema) :
    o.slot? s a = o.slot? s b :=
  firstSlot_congr h _

theorem containsSlot_congr {a b : String} (h : sameName a b = true) (s : Schema) :
    o.containsSlot s a = o.containsSlot s b := by
  rw [containsSlot, containsSlot, slot?_congr h]

/-- The search for undeclared slots does not tell equal contents apart. -/
theorem checkUndeclared_of_same {c d : Content} (h : c.same d = true)
    (hc : c.Each false Content.Keyed) (hd : d.Each false Content.Keyed) (s : Schema) :
    o.checkUndeclared s c = .ok () ↔ o.checkUndeclared s d = .ok () := by
  have hdeclared : ∀ {c d : Content}, c.same d = true ∧ (∀ s : Schema,
      o.checkUndeclared s c = .ok () ↔ o.checkUndeclared s d = .ok ()) →
      (o.Declared c ↔ o.Declared d) := by
    rintro c d ⟨hsame, hiff⟩
    simp only [Declared, Content.typeName_of_same hsame, hiff]
  revert s
  refine Content.same_induction (M := fun c d => ∀ s : Schema,
    o.checkUndeclared s c = .ok () ↔ o.checkUndeclared s d = .ok ())
    ?primitive ?slotted ?aggregate ?«open» ?ire ?list h hc hd
  case primitive =>
    intro p s
    exact Iff.rfl
  case slotted =>
    intro role type xs ys hx hy hrel s
    rw [checkUndeclared, checkUndeclared, checkUndeclaredSlots_eq_ok_iff,
      checkUndeclaredSlots_eq_ok_iff]
    have hname : ∀ a b c, sameName a b = true →
        (o.containsSlot s a = .ok true ∧ o.Declared c ↔
          o.containsSlot s b = .ok true ∧ o.Declared c) := by
      intro a b c hab
      rw [containsSlot_congr hab]
    rw [Slots.forall_mem_iff_get? hx hname, Slots.forall_mem_iff_get? hy hname]
    refine forall_congr' ?_
    intro name
    have hn := hrel name
    generalize Slots.get? name xs = x at hn
    generalize Slots.get? name ys = y at hn
    cases hn with
    | none => exact Iff.rfl
    | some hcd => simp [hdeclared hcd]
  case aggregate =>
    intro type xs ys template template' hall s
    rw [checkUndeclared, checkUndeclared, checkUndeclaredAll_eq_ok_iff,
      checkUndeclaredAll_eq_ok_iff]
    exact forall_mem_iff_of_forall₂ (hall.imp fun c d h => hdeclared h)
  case «open» =>
    intro xs ys isMeta _ _ _ s
    exact Iff.rfl
  case ire =>
    intro type r r' p p' _ hp s
    rw [checkUndeclared_ire_eq_ok_iff, checkUndeclared_ire_eq_ok_iff, hdeclared hp]
  case list =>
    intro xs ys hall s
    rw [checkUndeclared, checkUndeclared, checkUndeclaredAll_eq_ok_iff,
      checkUndeclaredAll_eq_ok_iff]
    exact forall_mem_iff_of_forall₂ (hall.imp fun c d h => hdeclared h)

end

end Ontology
end AgentContent
