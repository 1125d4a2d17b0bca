import AgentContent.Proofs.Ontology.PrimitiveSlots

/-!
# AgentContent.Proofs.Ontology.Compatibility

Compatibility orders the types. Variables and identifying expressions stand where any term is asked
for and so are left out of the order; what is compatible with another type is never below one of
them.

* `compatible_iff`: compatibility of schemas that the ontology defines, rule by rule.
* `BareRoots`, `RespectsKinds`: root types extend nothing, and what a type extends is of a kind that
  accepts its own.
* `accepts_of_ancestor`: then kinds only get wider on the way up.
* `compatible_preorder`: among types of the other kinds compatibility is a preorder.
-/

namespace AgentContent

/-- Values of the schema are neither variables nor identifying expressions. -/
def Schema.Ordinary (s : Schema) : Prop :=
  s.kind ≠ .variable ∧ s.kind ≠ .ire

theorem Schema.Ordinary.of_accepts {s t : Schema} (hord : s.Ordinary)
    (h : t.kind.accepts s.kind = true) : t.Ordinary :=
  ⟨fun ht => hord.1 (ht ▸ SchemaKind.eq_of_accepts (.inl ht) h),
    fun ht => hord.2 (ht ▸ SchemaKind.eq_of_accepts (.inr ht) h)⟩

namespace Ontology

variable {o : Ontology} {s t : Schema}

/-! ## Rules of compatibility -/

theorem descendsFrom_iff_ancestor (hs : o.Registered s) (ht : o.Registered t) :
    o.descendsFrom s t.name = true ↔ o.Ancestor s t := by
  rw [descendsFrom_iff hs]
  constructor
  · rintro ⟨u, hu, hname⟩
    rwa [ht.eq (registered_of_ancestor hs hu) (sameName_iff.1 hname)] at hu
  · intro h
    exact ⟨t, h, sameName_refl t.name⟩

/-- Of two schemas that are defined, the first one extends the second, or the second is a root that
accepts its kind, or the first stands for a term that is not known yet. -/
theorem compatible_iff (hs : o.Registered s) (ht : o.Registered t) :
    o.compatible s t = true ↔ o.Ancestor s t ∨ (t.isRoot = true ∧ t.kind.accepts s.kind = true) ∨
      ((s.kind = .variable ∨ s.kind = .ire) ∧ t.kind.isTerm = true) := by
  have hself : sameName s.name t.name = true → o.Ancestor s t := by
    intro h
    rw [ht.eq hs (sameName_iff.1 h)]
    exact .refl
  simp only [compatible, Bool.or_eq_true, Bool.and_eq_true, decide_eq_true_eq,
    descendsFrom_iff_ancestor hs ht]
  constructor
  · rintro (((h | h) | h) | h)
    · exact .inl (hself h)
    · exact .inr (.inl h)
    · exact .inr (.inr h)
    · exact .inl h
  · rintro (h | h | h)
    · exact .inr h
    · exact .inl (.inl (.inr h))
    · exact .inl (.inr h)

theorem compatible_iff_of_ordinary (hord : s.Ordinary) (hs : o.Registered s)
    (ht : o.Registered t) : o.compatible s t = true ↔
      o.Ancestor s t ∨ (t.isRoot = true ∧ t.kind.accepts s.kind = true) := by
  rw [compatible_iff hs ht]
  simp [hord.1, hord.2]

/-! ## Kinds on the way up -/

/-- The schemas that are named after their kind extend nothing. -/
def BareRoots (o : Ontology) : Prop :=
  ∀ s, o.Registered s → s.isRoot = true → s.supers = []

/-- What a schema extends is of a kind that accepts its own. -/
def RespectsKinds (o : Ontology) : Prop :=
  ∀ s t, o.Registered s → o.Super s t → t.kind.accepts s.kind = true

theorem BareRoots.eq_of_ancestor (hroots : o.BareRoots) (hs : o.Registered s)
    (hroot : s.isRoot = true) (h : o.Ancestor s t) : t = s := by
  refine (eq_or_extends_of_ancestor h).resolve_right ?_
  rintro ⟨name, hextends, -⟩
  exact not_extends_of_supers_nil (hroots s hs hroot) name hextends

theorem accepts_of_ancestor (hkinds : o.RespectsKinds) (hs : o.Registered s)
    (h : o.Ancestor s t) : t.kind.accepts s.kind = true := by
  induction h with
  | refl => exact SchemaKind.accepts_refl _
  | tail hancestor hsuper ih =>
    exact SchemaKind.accepts_trans
      (hkinds _ _ (registered_of_ancestor hs hancestor) hsuper) ih

/-- A type accepts the kinds of the ordinary types that are compatible with it. -/
theorem accepts_of_compatible (hkinds : o.RespectsKinds) (hord : s.Ordinary)
    (hs : o.Registered s) (ht : o.Registered t) (h : o.compatible s t = true) :
    t.kind.accepts s.kind = true := by
  rcases (compatible_iff_of_ordinary hord hs ht).1 h with h | h
  · exact accepts_of_ancestor hkinds hs h
  · exact h.2

/-! ## The order -/

/-- Where root types extend nothing and kinds are respected, an ordinary type is compatible with
itself, and with all that a type it is compatible with is compatible with. -/
theorem compatible_preorder (hroots : o.BareRoots) (hkinds : o.RespectsKinds) {a b c : Schema}
    (ha : o.Registered a) (hb : o.Registered b) (hc : o.Registered c) (hord : a.Ordinary) :
    o.compatible a a = true ∧
      (o.compatible a b = true → o.compatible b c = true → o.compatible a c = true) := by
  refine ⟨o.compatible_refl a, fun hab hbc => ?_⟩
  have haccepts := accepts_of_compatible hkinds hord ha hb hab
  have hord' := hord.of_accepts haccepts
  rw [compatible_iff_of_ordinary hord ha hc]
  rcases (compatible_iff_of_ordinary hord' hb hc).1 hbc with hup | ⟨hroot, hkind⟩
  · rcases (compatible_iff_of_ordinary hord ha hb).1 hab with hdown | ⟨hroot, -⟩
    · exact .inl (hdown.trans hup)
    · -- a root has nothing above it, so that the third type is the second
      obtain rfl := hroots.eq_of_ancestor hb hroot hup
      exact .inr ⟨hroot, haccepts⟩
  · exact .inr ⟨hroot, SchemaKind.accepts_trans hkind haccepts⟩

def chore : Schema where
  name := "chore"
  kind := .concept

def errand : Schema where
  name := "errand"
  kind := .agentAction
  supers := ["Chore"]

/-- Actions below a concept, above the basic vocabulary. -/
def errands : Ontology :=
  ((compose "errands" [Vocabulary.basic]).push chore).push errand

theorem bareRoots_errands : errands.BareRoots := by
  have hall : ∀ l ∈ errands.layers, ∀ s ∈ l.schemas, s.isRoot = true → s.supers = [] := by decide
  exact fun _ hs => forall_of_layers hall hs

theorem respectsKinds_errands : errands.RespectsKinds := by
  have hall : ∀ l ∈ errands.layers, ∀ s ∈ l.schemas, ∀ name ∈ s.supers,
      ∀ t ∈ errands.find? name, t.kind.accepts s.kind = true := by decide
  rintro s t hs ⟨name, hname, ht⟩
  exact forall_of_layers hall hs name hname t ht

theorem errand_below_term : errand.Ordinary ∧ errands.compatible errand chore = true ∧
    errands.compatible chore (.root .term) = true ∧
      errands.compatible errand (.root .term) = true := by
  have hord : errand.Ordinary := ⟨by decide, by decide⟩
  have herrand : errands.Registered errand := rfl
  have hchore : errands.Registered chore := rfl
  have hroot : errands.Registered (.root .term) := rfl
  have hsuper : errands.compatible errand chore = true :=
    compatible_of_ancestor rfl (.single ⟨"Chore", List.mem_singleton_self _, rfl⟩)
  have hterm : errands.compatible chore (.root .term) = true := rfl
  exact ⟨hord, hsuper, hterm, (compatible_preorder bareRoots_errands respectsKinds_errands
    herrand hchore hroot hord).2 hsuper hterm⟩

end Ontology
end AgentContent
