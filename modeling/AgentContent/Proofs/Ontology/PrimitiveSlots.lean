import AgentContent.Proofs.Ontology.WellFormed

/-!
# AgentContent.Proofs.Ontology.PrimitiveSlots

What valid content has in slots of primitive types.

* `Labelled`: a node is of the sort that the schema of its type asks for.
* `HoldsPrimitive`: what may stand where a primitive type is declared.
* `compatible_cases`: the ways in which one schema can be compatible with another.
* `holdsPrimitive_of_validateContent`: what stands in such a slot of valid content.
* `HoldsPrimitive.exact`, `HoldsPrimitive.not_list`: above the basic vocabulary a primitive there is
  of just that type, and there are no lists.
-/

namespace AgentContent

/-- The kind of the schemas that nodes of a kind are instances of. -/
def Content.Kind.schemaKind : Content.Kind → SchemaKind
  | .primitive => .primitive
  | .concept => .concept
  | .agentAction => .agentAction
  | .predicate => .predicate
  | .aggregate => .aggregate
  | .variable => .variable
  | .ire => .ire
  | .contentElementList => .contentElementList

namespace Ontology

variable {o : Ontology} {s t : Schema} {c : Content} {type : String}

/-- The type of the node is one for nodes of its kind. -/
def Labelled (o : Ontology) (c : Content) : Prop :=
  ∀ s, o.find? c.typeName = some s → s.kind = c.kind.schemaKind

/-- A primitive of the type, or something not known yet. Of other content only what has a type that
inherits from the primitive one, what is of the type itself where its name is given to another kind
of schema, and nodes with a label that their type does not bear out. -/
inductive HoldsPrimitive (o : Ontology) (type : String) : Content → Prop where
  | primitive {p : Primitive} (h : sameName p.typeName type = true) :
    HoldsPrimitive o type (.primitive p)
  | variable {slots : Slots Content} {isMeta : Bool} :
    HoldsPrimitive o type (.variable slots isMeta)
  | ire {operator : String} {referent proposition : Content} :
    HoldsPrimitive o type (.ire operator referent proposition)
  | inherits {c : Content} {t : Schema} {super : String} (ht : o.find? c.typeName = some t)
    (hs : Extends o t super) (hn : sameName super type = true) : HoldsPrimitive o type c
  | redefined {c : Content} {t : Schema} (ht : o.find? c.typeName = some t)
    (hn : sameName t.name type = true) (hk : t.kind ≠ .primitive) : HoldsPrimitive o type c
  | mislabelled {c : Content} (h : ¬ o.Labelled c) : HoldsPrimitive o type c

/-! ## Compatible schemas -/

theorem compatible_cases (h : o.compatible s t = true) :
    sameName s.name t.name = true ∨ (t.isRoot = true ∧ t.kind.accepts s.kind = true) ∨
      ((s.kind = .variable ∨ s.kind = .ire) ∧ t.kind.isTerm = true) ∨
        ∃ super, Extends o s super ∧ sameName super t.name = true := by
  simp only [compatible, Bool.or_eq_true, Bool.and_eq_true, decide_eq_true_eq] at h
  rcases h with ((h | h) | h) | h
  · exact .inl h
  · exact .inr (.inl h)
  · exact .inr (.inr (.inl h))
  · obtain ⟨visit, hvisit, henters⟩ := List.any_eq_true.1 h
    cases visit with
    | enter u =>
      rcases eq_or_extends_of_ancestor (ancestor_of_mem_lineage hvisit) with rfl | ⟨super, hs, hu⟩
      · exact .inl henters
      · have hname := sameName_symm (sameName_of_find? hu)
        exact .inr (.inr (.inr ⟨super, hs, sameName_trans hname henters⟩))
    | missing name => cases henters
    | leave u => cases henters

theorem compatible_of_ancestor (hs : o.Registered s) (h : o.Ancestor s t) :
    o.compatible s t = true := by
  have hany : o.descendsFrom s t.name = true :=
    (descendsFrom_iff hs).2 ⟨t, h, sameName_refl t.name⟩
  simp [compatible, hany]

theorem not_extends_of_supers_nil (h : s.supers = []) (name : String) : ¬ Extends o s name := by
  rintro (⟨hn⟩ | ⟨hn, -, -⟩)
  · rw [h] at hn
    cases hn
  · rw [h] at hn
    cases hn

/-! ## Primitive types -/

theorem isPrimitive_congr {a b : String} (h : sameName a b = true) :
    Vocabulary.isPrimitive a = Vocabulary.isPrimitive b := by
  simp only [Vocabulary.isPrimitive, sameName_congr_right h]

theorem not_isPrimitive_rootName (k : SchemaKind) :
    Vocabulary.isPrimitive k.rootName = false := by
  cases k <;> decide

theorem isRoot_of_isPrimitive (h : Vocabulary.isPrimitive s.name = true) : s.isRoot = false := by
  by_contra hroot
  have hname : s.name = s.kind.rootName := by simpa [Schema.isRoot] using hroot
  rw [hname, not_isPrimitive_rootName] at h
  cases h

theorem holdsPrimitive_of_compatible (ht : o.find? type = some t)
    (hp : Vocabulary.isPrimitive type = true) (hs : o.find? c.typeName = some s)
    (hc : o.compatible s t = true) : o.HoldsPrimitive type c := by
  by_cases hl : o.Labelled c
  · have hkind := hl s hs
    have hname := sameName_of_find? ht
    rcases compatible_cases hc with h | h | h | ⟨super, hsuper, h⟩
    · have htype := sameName_trans h hname
      by_cases hk : s.kind = .primitive
      · rw [hk] at hkind
        cases c with
        | primitive p =>
          exact .primitive (sameName_trans (sameName_symm (sameName_of_find? hs)) htype)
        | slotted role type slots => cases role <;> cases hkind
        | _ => cases hkind
      · exact .redefined hs htype hk
    · rw [isRoot_of_isPrimitive ((isPrimitive_congr hname).trans hp)] at h
      cases h.1
    · cases c with
      | «variable» slots isMeta => exact .variable
      | ire operator referent proposition => exact .ire
      | slotted role type slots =>
        cases role <;> simp [hkind, Content.kind, Content.Kind.schemaKind] at h
      | _ => simp [hkind, Content.kind, Content.Kind.schemaKind] at h
    · exact .inherits hs hsuper (sameName_trans h hname)
  · exact .mislabelled hl

/-- A slot of a primitive type, its own or inherited, of valid content. -/
theorem holdsPrimitive_of_validateContent {role : Role} {slots : Slots Content} {name : String}
    {d : SlotDescriptor} {value : Content}
    (h : o.validateContent (.slotted role type slots) = .ok ()) (hs : o.find? type = some s)
    (hd : o.slot? s name = .ok (some d)) (hp : Vocabulary.isPrimitive d.type = true)
    (hv : Slots.get? name slots = some value) : o.HoldsPrimitive d.type value := by
  obtain ⟨s', hs', hr, hfits⟩ := (validateContent_iff_part.1 h).1.1
  rw [Content.typeName, hs] at hs'
  cases hs'
  obtain ⟨e, he, -, hvalue⟩ :=
    hfits name ((exists_slot?_iff (registered_of_find? hs) hr).1 ⟨d, hd⟩)
  rw [hd] at he
  cases he
  have hname : sameName d.name name = true := sameName_of_firstSlot hd
  obtain ⟨⟨expected, hexpected, ⟨actual, hactual, hcompat⟩, -⟩, -⟩ :=
    hvalue value (by rw [Slots.get?_congr hname, hv])
  exact holdsPrimitive_of_compatible hexpected hp hactual hcompat

/-! ## Letters

A vocabulary in which a type of values with slots inherits from the type of strings. -/

def email : Schema where
  name := "email"
  kind := .concept
  supers := [TypeName.string]

def letter : Schema where
  name := "letter"
  kind := .concept
  slots := [⟨"sender", TypeName.string, false⟩]

def mail : Ontology :=
  ((compose "mail" [Vocabulary.basic]).push email).push letter

def letterFrom (sender : Content) : Content :=
  .slotted .concept "letter" [("sender", sender)]

theorem slot?_letter : mail.slot? letter "sender" =
    .ok (some ⟨"sender", TypeName.string, false⟩) :=
  slot?_of_supers_nil rfl "sender"

theorem slots_letter : mail.slots letter = .ok [⟨"sender", TypeName.string, false⟩] :=
  slots_of_supers_nil rfl (by decide)

theorem ancestor_email : mail.Ancestor email { name := TypeName.string, kind := .primitive } :=
  .single ⟨TypeName.string, List.mem_singleton_self _, rfl⟩

theorem resolves_email : mail.Resolves email := by
  refine resolves_of_supers fun name hname => ?_
  cases List.mem_singleton.1 hname
  exact ⟨{ name := TypeName.string, kind := .primitive }, rfl, fun super hs =>
    absurd hs (not_extends_of_supers_nil rfl super)⟩

theorem not_declares_email (name : String) : ¬ mail.Declares email name := by
  rintro ⟨t, ht, d, hd⟩
  rcases eq_or_extends_of_ancestor ht with rfl | ⟨super, hs, hfind⟩
  · cases hd
  · cases hs with
    | super hmem =>
      cases List.mem_singleton.1 hmem
      cases hfind
      cases hd
    | further hmem hr hs =>
      cases List.mem_singleton.1 hmem
      cases hr
      exact absurd hs (not_extends_of_supers_nil rfl super)

theorem validate_email : mail.validate email (.slotted .concept "email" []) = .ok () := by
  refine (validate_iff_part rfl).2 ⟨⟨⟨resolves_email, fun name hname => ?_⟩, ?_⟩, ?_⟩
  · exact absurd hname (not_declares_email name)
  · exact variableFits_of_declaredType?_eq_none rfl
  · rintro d (@⟨_, _, name, _, _, _, _, _, hget⟩)
    cases hget

theorem validateContent_letterFrom {sender : Content} {t : Schema}
    (hs : mail.schema sender.typeName = .ok t)
    (hc : mail.compatible t { name := TypeName.string, kind := .primitive } = true)
    (hd : sender.declaredType? = none) (hv : mail.validate t sender = .ok ()) :
    mail.validateContent (letterFrom sender) = .ok () := by
  have hfacets : mail.facetsOf letter "sender" = .ok [] := facetsOf_of_supers_nil rfl "sender"
  have hdeclared : mail.checkDeclared "sender" { name := TypeName.string, kind := .primitive }
      sender = .ok () := checkDeclared_eq_ok_iff.2 fun declared h => by rw [hd] at h; cases h
  have hletter : mail.find? "letter" = some letter := rfl
  refine validateContent_eq_ok_iff.2 ⟨letter, schema_eq_ok_iff.2 hletter,
    validate_slotted_eq_ok_iff.2 ⟨_, slots_letter, List.forall_mem_singleton.2 (.inr ?_)⟩⟩
  exact ⟨sender, t, [], rfl, fitting_eq_ok_iff.2 ⟨_, rfl, hs, hc, hdeclared⟩, hv, hfacets, rfl⟩

/-- A letter from a string. -/
theorem holdsPrimitive_letterFrom : mail.HoldsPrimitive TypeName.string (.ofString "ann") :=
  holdsPrimitive_of_validateContent (validateContent_letterFrom rfl rfl rfl
    (validate_primitive_eq_ok_iff.2 ⟨_, rfl, rfl⟩)) rfl slot?_letter (by decide) rfl

/-- A letter from an address that has slots of its own. -/
theorem mail_takes_email : ¬ ∀ (role : Role) (type name : String) (slots : Slots Content)
    (s : Schema) (d : SlotDescriptor) (value : Content),
    mail.validateContent (.slotted role type slots) = .ok () → mail.find? type = some s →
      mail.slot? s name = .ok (some d) → Vocabulary.isPrimitive d.type = true →
        Slots.get? name slots = some value →
          (∃ p, value = .primitive p ∧ sameName p.typeName d.type = true) ∨
            isOpen value = true := by
  intro h
  have hvalid : mail.validateContent (letterFrom (.slotted .concept "email" [])) = .ok () :=
    validateContent_letterFrom rfl (compatible_of_ancestor rfl ancestor_email) rfl
      validate_email
  rcases h _ _ _ _ _ _ _ hvalid rfl slot?_letter (by decide) rfl with ⟨p, hp, -⟩ | hopen
  · cases hp
  · cases hopen

/-! ## Above the basic vocabulary -/

/-- A value whose type extends nothing and bears out its label is a primitive, not known yet, or of
the declared type itself. -/
theorem HoldsPrimitive.cases_of_supers_nil (h : o.HoldsPrimitive type c)
    (ht : o.find? c.typeName = some t) (hs : t.supers = []) (hk : t.kind = c.kind.schemaKind) :
    (∃ p, c = .primitive p ∧ sameName p.typeName type = true) ∨ isOpen c = true ∨
      (sameName t.name type = true ∧ t.kind ≠ .primitive) := by
  cases h with
  | primitive h => exact .inl ⟨_, rfl, h⟩
  | «variable» => exact .inr (.inl rfl)
  | ire => exact .inr (.inl rfl)
  | inherits hu hextends _ =>
    rw [ht] at hu
    cases hu
    exact absurd hextends (not_extends_of_supers_nil hs _)
  | redefined hu hname hkind =>
    rw [ht] at hu
    cases hu
    exact .inr (.inr ⟨hname, hkind⟩)
  | mislabelled h =>
    refine absurd ?_ h
    intro u hu
    rw [ht] at hu
    cases hu
    exact hk

/-- Where the basic vocabulary is kept, a primitive stands only where its own type is declared. -/
theorem HoldsPrimitive.exact (ho : o.Keeps Vocabulary.basic) {p : Primitive}
    (h : o.HoldsPrimitive type (.primitive p)) : sameName p.typeName type = true := by
  have hfind := ho _ _ (Vocabulary.find?_primitive p)
  rcases h.cases_of_supers_nil hfind rfl rfl with ⟨q, hq, hname⟩ | hopen | ⟨-, hkind⟩
  · cases hq
    exact hname
  · cases hopen
  · exact absurd rfl hkind

/-- Where the basic vocabulary is kept, no list stands where a primitive type is declared. -/
theorem HoldsPrimitive.not_list (ho : o.Keeps Vocabulary.basic)
    (hp : Vocabulary.isPrimitive type = true) {elements : List Content} :
    ¬ o.HoldsPrimitive type (.list elements) := by
  intro h
  have hfind : o.find? TypeName.contentElementList = some (.root .contentElementList) :=
    ho _ _ rfl
  rcases h.cases_of_supers_nil hfind rfl rfl with ⟨p, hp, -⟩ | hopen | ⟨hname, -⟩
  · cases hp
  · cases hopen
  · rw [← isPrimitive_congr hname] at hp
    exact absurd hp (by decide)

end Ontology
end AgentContent
