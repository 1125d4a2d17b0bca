import AgentContent.Proofs.Content.Nodes
import AgentContent.Proofs.Sl.Message

/-!
# AgentContent.Proofs.Sl.RoundTrip

A content that is typed by an ontology comes back from its text.

* `Typed`: what a node asks of the ontology, and of the words of the language.
* `determined_of_typed`: the text of a typed content determines it, in every place.
* `decode_encode_of_typed`: a message of typed nodes is read back as an equal one.
-/

namespace AgentContent

/-- The kind of schemas whose values have the role. -/
def Role.kind : Role → SchemaKind
  | .concept => .concept
  | .agentAction => .agentAction
  | .predicate => .predicate

namespace Sl

variable {o : Ontology}

/-- The type of a node is defined and of the node's kind, with all that it extends; a variable has
a name only, and a date is a whole number of milliseconds in a year of four digits. -/
def Typed (o : Ontology) : Content → Prop
  | .slotted role type _ => ∃ s, o.find? type = some s ∧ s.kind = role.kind ∧ o.Resolves s
  | .aggregate type _ _ => ∃ s, o.find? type = some s ∧ s.kind = .aggregate
  | .ire type _ _ => ∃ s, o.find? type = some s ∧ s.kind = .ire
  | .variable slots _ => ∀ s ∈ slots, sameName s.1 Content.nameSlot = true
  | .primitive (.date t) => t.InMillis
  | _ => True

/-- A compound, or a list of two compounds or more. -/
def IsMessage : Content → Prop
  | .list cs => 2 ≤ cs.length ∧ ∀ c ∈ cs, isCompound c = true
  | c => isCompound c = true

theorem roleOf_kind (role : Role) (e : Expect) : roleOf (some role.kind) e = role := by
  cases role <;> rfl

theorem hasWord_of_typed {p : Primitive} (hf : (Content.primitive p).Fits)
    (ht : Typed o (.primitive p)) : HasWord p :=
  hasWord_of_fits hf fun t hdate => by subst hdate; exact ht

/-- The text of a typed content determines it, whatever its place asks for. -/
theorem determined_of_typed (c : Content) (hf : c.Each false Content.Fits)
    (ht : c.Each false (Typed o)) (e : Expect) : Determined o e c := by
  induction c using Content.induction generalizing e with
  | primitive p => exact .primitive (hasWord_of_typed hf.self ht.self)
  | slotted role type slots ih =>
    obtain ⟨s, hs, hkind, hres⟩ := ht.self
    obtain ⟨declared, hd⟩ := hres.slots_eq_ok
    have hk : kindOf o type = some role.kind := by rw [kindOf, hs, Option.map_some, hkind]
    have hne : kindOf o type ≠ some .aggregate ∧ kindOf o type ≠ some .ire := by
      rw [hk]
      cases role <;> exact ⟨by decide, by decide⟩
    have hd' : declaredSlots o (o.find? type) = .ok declared := by rw [hs]; exact hd
    have hdet : Determined o e (.slotted (roleOf (kindOf o type) e) type slots) := by
      refine .slotted hne hd' hf.self ?_
      intro s hs
      exact ih s hs (hf.slot hs) (ht.slot hs) _
    rwa [hk, roleOf_kind] at hdet
  | aggregate type elements template ih _ =>
    obtain ⟨s, hs, hkind⟩ := ht.self
    refine .aggregate (by rw [kindOf, hs, Option.map_some, hkind]) ?_
    intro c hc
    exact ih c hc (hf.element hc) (ht.element hc) _
  | «variable» slots isMeta _ => exact .variable hf.self ht.self
  | ire type referent proposition ihr ihp =>
    obtain ⟨s, hs, hkind⟩ := ht.self
    exact .ire (by rw [kindOf, hs, Option.map_some, hkind]) (ihr hf.referent ht.referent _)
      (ihp hf.proposition ht.proposition _)
  | list elements _ => exact .list

theorem stated_of_typed {c : Content} (hm : IsMessage c) (hf : c.Each false Content.Fits)
    (ht : c.Each false (Typed o)) : Stated o c := by
  cases c with
  | list cs =>
    refine ⟨hm.1, fun c hc => ⟨hm.2 c hc, ?_⟩⟩
    exact determined_of_typed c (hf.item hc) (ht.item hc) .proposition
  | _ => exact ⟨hm, determined_of_typed _ hf ht .proposition⟩

/-- Decoding undoes encoding, up to the order and the spelling of slots and the templates of
aggregates, for every message of typed nodes. -/
theorem decode_encode_of_typed {c : Content} {text : String} (hm : IsMessage c)
    (hf : c.Each false Content.Fits) (ht : c.Each false (Typed o)) (h : encode o c = .ok text) :
    ∃ c', decode o text = .ok c' ∧ c'.same c = true :=
  decode_encode (stated_of_typed hm hf ht) h

/-- A small vocabulary: discs are products, and products are offered. -/
def shop : Ontology where
  name := "shop"
  own := { schemas := [
    { name := "product", kind := .concept },
    { name := "disc", kind := .concept, supers := ["product"],
      slots := [⟨"title", TypeName.string, false⟩, ⟨"tracks", TypeName.sequence, true⟩] },
    { name := "offers", kind := .predicate, slots := [⟨"what", "product", false⟩] },
    { name := "iota", kind := .ire },
    { name := TypeName.sequence, kind := .aggregate }] }

/-- An offer of a disc, and the question which products are offered. -/
def offerAndQuestion : Content :=
  .list [
    .slotted .predicate "offers" [("What", .slotted .concept "disc"
      [("tracks", .aggregate TypeName.sequence [.ofInt (-1), .ofBool true] none),
        ("title", .ofString "say \"x\"")])],
    .ire "iota" (.freeVariable "x" true)
      (.slotted .predicate "offers" [("what", .freeVariable "x" true)])]

theorem typed_offerAndQuestion : offerAndQuestion.Each false (Typed shop) := by
  have hproduct : shop.Resolves { name := "product", kind := .concept } :=
    Ontology.resolves_of_supers (by simp)
  have hdisc : ∀ slots, shop.Resolves
      { name := "disc", kind := .concept, supers := ["product"], slots := slots } := fun slots =>
    Ontology.resolves_of_supers (by simpa using ⟨_, rfl, hproduct⟩)
  have hoffers : ∀ slots, shop.Resolves { name := "offers", kind := .predicate, slots := slots } :=
    fun slots => Ontology.resolves_of_supers (by simp)
  intro d hd
  simp only [offerAndQuestion, Content.nodes, Content.nodesAll, Content.nodesSlots, Content.ofInt,
    Content.ofBool, Content.ofString, Content.freeVariable, List.append_nil, List.nil_append,
    List.cons_append, List.mem_cons, List.not_mem_nil, or_false] at hd
  rcases hd with rfl | rfl | rfl | rfl | rfl | rfl | rfl | rfl | rfl | rfl | rfl | rfl | rfl
  all_goals first
    | trivial
    | exact ⟨_, rfl, rfl⟩
    | exact ⟨_, rfl, rfl, hdisc _⟩
    | exact ⟨_, rfl, rfl, hoffers _⟩
    | simp [Typed, Content.nameSlot]

theorem decode_offerAndQuestion : ∃ c', decode shop
    "((offers :What (disc :tracks (sequence -1 true) :title \"say \\\"x\\\"\")) (iota ??x (offers :what ??x)))" =
      .ok c' ∧ c'.same offerAndQuestion = true :=
  decode_encode_of_typed ⟨by decide, by decide⟩ (by decide) typed_offerAndQuestion rfl

end Sl
end AgentContent
