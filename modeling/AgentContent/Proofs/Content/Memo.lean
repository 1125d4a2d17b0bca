import AgentContent.Content.Node
import AgentContent.Proofs.Content.Digest
import Mathlib.Logic.Relation

/-!
# AgentContent.Proofs.Content.Memo

Trees that remember digests. A tree is sound if all that it remembers, at every depth and in
templates, are digests of what it holds now; reading it gives the digest of its content.

* `Node.induction`: induction on trees, with an assumption for each part.
* `Node.content_ofContent`: a tree made of a content holds that content.
* `Node.Part`, `Node.Sound`: in every part the memo is right and names of slots are distinct.
* `Node.reads_of_sound`: reading a sound tree gives the digest of its content and keeps it sound.
-/

namespace AgentContent
namespace Node

variable {h : HashFunction} {m n : Node}

section Induction

variable {P : Node → Prop}
  (primitive : ∀ p, P (.primitive p))
  (slotted : ∀ memo role type slots, (∀ e ∈ slots, P e.2) → P (.slotted memo role type slots))
  (aggregate : ∀ memo type elements template, (∀ e ∈ elements, P e) →
    (∀ t, template = some t → P t) → P (.aggregate memo type elements template))
  («variable» : ∀ slots isMeta, (∀ e ∈ slots, P e.2) → P (.variable slots isMeta))
  (ire : ∀ type referent proposition, P referent → P proposition →
    P (.ire type referent proposition))
  (list : ∀ memo elements, (∀ e ∈ elements, P e) → P (.list memo elements))

include primitive slotted aggregate «variable» ire list

set_option linter.unusedSectionVars false in
mutual
@[elab_as_elim]
theorem induction : ∀ n : Node, P n
  | .primitive p => primitive p
  | .slotted memo role type slots => slotted memo role type slots (induction_slots slots)
  | .aggregate memo type elements none =>
    aggregate memo type elements none (induction_all elements) (fun _ h => by cases h)
  | .aggregate memo type elements (some t) =>
    aggregate memo type elements (some t) (induction_all elements)
      (fun _ h => by cases h; exact induction t)
  | .variable slots isMeta => «variable» slots isMeta (induction_slots slots)
  | .ire type referent proposition =>
    ire type referent proposition (induction referent) (induction proposition)
  | .list memo elements => list memo elements (induction_all elements)

theorem induction_all : ∀ ns : List Node, ∀ n ∈ ns, P n
  | [] => List.forall_mem_nil _
  | n :: ns => List.forall_mem_cons.2 ⟨induction n, induction_all ns⟩

theorem induction_slots : ∀ slots : List (String × Node), ∀ e ∈ slots, P e.2
  | [] => List.forall_mem_nil _
  | (_, n) :: slots => List.forall_mem_cons.2 ⟨induction n, induction_slots slots⟩
end

end Induction

/-! ## Contents of trees -/

theorem contentAll_eq_map (ns : List Node) : contentAll ns = ns.map content := by
  induction ns with
  | nil => rfl
  | cons n ns ih => rw [contentAll, ih, List.map_cons]

theorem contentSlots_eq_map (slots : Slots Node) :
    contentSlots slots = slots.map fun e => (e.1, e.2.content) := by
  induction slots with
  | nil => rfl
  | cons e slots ih =>
    obtain ⟨k, n⟩ := e
    rw [contentSlots, ih, List.map_cons]

theorem ofAll_eq_map (cs : List Content) : ofAll cs = cs.map ofContent := by
  induction cs with
  | nil => rfl
  | cons c cs ih => rw [ofAll, ih, List.map_cons]

theorem ofSlots_eq_map (slots : Slots Content) :
    ofSlots slots = slots.map fun e => (e.1, ofContent e.2) := by
  induction slots with
  | nil => rfl
  | cons e slots ih =>
    obtain ⟨k, c⟩ := e
    rw [ofSlots, ih, List.map_cons]

theorem content_slotted (memo : Option UInt64) (role : Role) (type : String) (slots : Slots Node) :
    (slotted memo role type slots).content =
      .slotted role type (slots.map fun e => (e.1, e.2.content)) := by
  rw [content, contentSlots_eq_map]

theorem content_aggregate (memo : Option UInt64) (type : String) (elements : List Node)
    (template : Option Node) : (aggregate memo type elements template).content =
      .aggregate type (elements.map content) (template.map content) := by
  cases template <;> rw [content, contentAll_eq_map] <;> rfl

theorem content_variable (slots : Slots Node) (isMeta : Bool) :
    (Node.variable slots isMeta).content =
      .variable (slots.map fun e => (e.1, e.2.content)) isMeta := by
  rw [content, contentSlots_eq_map]

theorem content_list (memo : Option UInt64) (elements : List Node) :
    (list memo elements).content = .list (elements.map content) := by
  rw [content, contentAll_eq_map]

theorem ofContent_aggregate (type : String) (elements : List Content) (template : Option Content) :
    ofContent (.aggregate type elements template) =
      .aggregate none type (elements.map ofContent) (template.map ofContent) := by
  cases template <;> rw [ofContent, ofAll_eq_map] <;> rfl

theorem content_ofContent (c : Content) : (ofContent c).content = c := by
  induction c using Content.induction with
  | primitive p => rfl
  | slotted role type slots ih =>
    rw [ofContent, content_slotted, ofSlots_eq_map, List.map_map]
    exact congrArg _ (map_eq_self fun e he => Prod.ext rfl (ih e he))
  | aggregate type elements template ih iht =>
    have helements : elements.map (content ∘ ofContent) = elements := map_eq_self ih
    rw [ofContent_aggregate, content_aggregate, List.map_map, helements]
    cases template with
    | none => rfl
    | some t => rw [Option.map_some, Option.map_some, iht t rfl]
  | «variable» slots isMeta ih =>
    rw [ofContent, content_variable, ofSlots_eq_map, List.map_map]
    exact congrArg (Content.variable · isMeta)
      (map_eq_self fun e he => Prod.ext rfl (ih e he))
  | ire type referent proposition ihr ihp => rw [ofContent, content, ihr, ihp]
  | list elements ih =>
    rw [ofContent, content_list, ofAll_eq_map, List.map_map]
    exact congrArg _ (map_eq_self ih)

/-! ## Parts -/

/-- The node is directly below the other one. -/
inductive Part : Node → Node → Prop where
  | slot {memo : Option UInt64} {role : Role} {type : String} {slots : Slots Node}
    {e : String × Node} (he : e ∈ slots) : Part (.slotted memo role type slots) e.2
  | element {memo : Option UInt64} {type : String} {elements : List Node} {template : Option Node}
    {e : Node} (he : e ∈ elements) : Part (.aggregate memo type elements template) e
  | template {memo : Option UInt64} {type : String} {elements : List Node} {t : Node} :
    Part (.aggregate memo type elements (some t)) t
  | variableSlot {slots : Slots Node} {isMeta : Bool} {e : String × Node} (he : e ∈ slots) :
    Part (.variable slots isMeta) e.2
  | referent {type : String} {referent proposition : Node} :
    Part (.ire type referent proposition) referent
  | proposition {type : String} {referent proposition : Node} :
    Part (.ire type referent proposition) proposition
  | item {memo : Option UInt64} {elements : List Node} {e : Node} (he : e ∈ elements) :
    Part (.list memo elements) e

/-- The digest that the node itself remembers. -/
def memo? : Node → Option UInt64
  | .slotted memo _ _ _ => memo
  | .aggregate memo _ _ _ => memo
  | .list memo _ => memo
  | _ => none

/-- The node remembers nothing but the digest of its content, and its slots are stored by their
names. -/
structure Right (h : HashFunction) (n : Node) : Prop where
  memo : ∀ d, n.memo? = some d → d = n.content.digest h
  keyed : n.content.Keyed

/-- The node and all below it are right. -/
def Sound (h : HashFunction) (n : Node) : Prop :=
  ∀ m, Relation.ReflTransGen Part n m → m.Right h

theorem sound_iff : Sound h n ↔ n.Right h ∧ ∀ m, n.Part m → Sound h m := by
  constructor
  · exact fun hn => ⟨hn n .refl, fun m hm k hk => hn k (.head hm hk)⟩
  · rintro ⟨hself, hparts⟩ m hm
    cases hm using Relation.ReflTransGen.head_induction_on with
    | refl => exact hself
    | head hpart hrest => exact hparts _ hpart m hrest

theorem Sound.right (hn : Sound h n) : n.Right h :=
  (sound_iff.1 hn).1

theorem Sound.part (hn : Sound h n) (hm : n.Part m) : Sound h m :=
  (sound_iff.1 hn).2 m hm

section

variable {memo : Option UInt64} {role : Role} {type : String} {slots : Slots Node}
  {elements : List Node} {template : Option Node} {isMeta : Bool}

theorem Sound.distinct_slots (hn : Sound h (.slotted memo role type slots)) : Slots.Distinct slots := by
  have hkeyed := hn.right.keyed
  rw [content_slotted] at hkeyed
  exact Slots.Distinct.of_names hkeyed (by simp)

theorem Sound.distinct_variableSlots (hn : Sound h (.variable slots isMeta)) :
    Slots.Distinct slots := by
  have hkeyed := hn.right.keyed
  rw [content_variable] at hkeyed
  exact Slots.Distinct.of_names hkeyed (by simp)

/-! From the parts to the whole. -/

theorem sound_primitive (p : Primitive) : Sound h (.primitive p) :=
  sound_iff.2 ⟨⟨nofun, trivial⟩, nofun⟩

theorem sound_slotted
    (hmemo : ∀ d, memo = some d → d = (slotted memo role type slots).content.digest h)
    (hd : Slots.Distinct slots) (hs : ∀ e ∈ slots, Sound h e.2) :
    Sound h (.slotted memo role type slots) := by
  refine sound_iff.2 ⟨⟨hmemo, ?_⟩, fun m hm => ?_⟩
  · rw [content_slotted]
    exact hd.map content
  · cases hm with
    | slot he => exact hs _ he

theorem sound_aggregate
    (hmemo : ∀ d, memo = some d → d = (aggregate memo type elements template).content.digest h)
    (he : ∀ e ∈ elements, Sound h e) (ht : ∀ t, template = some t → Sound h t) :
    Sound h (.aggregate memo type elements template) := by
  refine sound_iff.2 ⟨⟨hmemo, ?_⟩, fun m hm => ?_⟩
  · rw [content_aggregate]
    trivial
  · cases hm with
    | element hm => exact he _ hm
    | template => exact ht _ rfl

theorem sound_variable (hd : Slots.Distinct slots) (hs : ∀ e ∈ slots, Sound h e.2) :
    Sound h (.variable slots isMeta) := by
  refine sound_iff.2 ⟨⟨nofun, ?_⟩, fun m hm => ?_⟩
  · rw [content_variable]
    exact hd.map content
  · cases hm with
    | variableSlot he => exact hs _ he

theorem sound_ire {referent proposition : Node} (hr : Sound h referent)
    (hp : Sound h proposition) : Sound h (.ire type referent proposition) := by
  refine sound_iff.2 ⟨⟨nofun, trivial⟩, fun m hm => ?_⟩
  cases hm with
  | referent => exact hr
  | proposition => exact hp

theorem sound_list (hmemo : ∀ d, memo = some d → d = (list memo elements).content.digest h)
    (he : ∀ e ∈ elements, Sound h e) : Sound h (.list memo elements) := by
  refine sound_iff.2 ⟨⟨hmemo, ?_⟩, fun m hm => ?_⟩
  · rw [content_list]
    trivial
  · cases hm with
    | item hm => exact he _ hm

end

/-- The slots of a sound tree are stored by their names everywhere, in templates too. -/
theorem Sound.keyed (hn : Sound h n) : n.content.Each true Content.Keyed := by
  induction n using Node.induction with
  | primitive p => exact .of_primitive hn.right.keyed
  | slotted memo role type slots ih =>
    have hkeyed := hn.right.keyed
    rw [content_slotted] at hkeyed ⊢
    refine .of_slotted hkeyed (List.forall_mem_map.2 fun e he => ?_)
    exact ih e he (hn.part (.slot he))
  | aggregate memo type elements template ihe iht =>
    rw [content_aggregate]
    refine .of_aggregate trivial (List.forall_mem_map.2 fun e he => ?_) fun _ c hc => ?_
    · exact ihe e he (hn.part (.element he))
    · obtain ⟨t, rfl, rfl⟩ := Option.map_eq_some_iff.1 hc
      exact iht t rfl (hn.part .template)
  | «variable» slots isMeta ih =>
    have hkeyed := hn.right.keyed
    rw [content_variable] at hkeyed ⊢
    refine .of_variable hkeyed (List.forall_mem_map.2 fun e he => ?_)
    exact ih e he (hn.part (.variableSlot he))
  | ire type referent proposition ihr ihp =>
    rw [content]
    exact .of_ire trivial (ihr (hn.part .referent)) (ihp (hn.part .proposition))
  | list memo elements ih =>
    rw [content_list]
    refine .of_list trivial (List.forall_mem_map.2 fun e he => ?_)
    exact ih e he (hn.part (.item he))

/-! ## Reading -/

theorem readAll_eq_map (ns : List Node) :
    readAll h ns = (ns.map fun n => (n.read h).1, ns.map fun n => (n.read h).2) := by
  induction ns with
  | nil => rfl
  | cons n ns ih => simp only [readAll, ih, List.map_cons]

theorem readSlots_eq_map (slots : Slots Node) :
    readSlots h slots =
      (slots.map fun e => (e.1, (e.2.read h).1), slots.map fun e => (e.1, (e.2.read h).2)) := by
  induction slots with
  | nil => rfl
  | cons e slots ih =>
    obtain ⟨k, n⟩ := e
    simp only [readSlots, ih, List.map_cons]

/-- Reading gives the digest of the content and leaves a sound tree of the same content. -/
structure Reads (h : HashFunction) (n : Node) : Prop where
  digest : (n.read h).1 = n.content.digest h
  content : (n.read h).2.content = n.content
  sound : Sound h (n.read h).2

section

variable {slots : Slots Node} (hs : ∀ e ∈ slots, Reads h e.2)

include hs

theorem digests_of_slots : (slots.map fun e => (e.1, (e.2.read h).1)) =
    Content.digestSlots h (slots.map fun e => (e.1, e.2.content)) := by
  rw [Content.digestSlots_eq_map, List.map_map]
  exact List.map_congr_left fun e he => Prod.ext rfl (hs e he).digest

theorem contents_of_slots :
    (slots.map fun e => (e.1, (e.2.read h).2)).map (fun e => (e.1, e.2.content)) =
      slots.map fun e => (e.1, e.2.content) := by
  rw [List.map_map]
  exact List.map_congr_left fun e he => Prod.ext rfl (hs e he).content

end

section

variable {elements : List Node} (he : ∀ e ∈ elements, Reads h e)

include he

theorem digests_of_elements : (elements.map fun e => (e.read h).1) =
    Content.digestAll h (elements.map content) := by
  rw [Content.digestAll_eq_map, List.map_map]
  exact List.map_congr_left fun e hm => (he e hm).digest

theorem contents_of_elements :
    (elements.map fun e => (e.read h).2).map content = elements.map content := by
  rw [List.map_map]
  exact List.map_congr_left fun e hm => (he e hm).content

end

theorem reads_of_memo {d : UInt64} (hn : Sound h n) (hd : n.memo? = some d)
    (hread : n.read h = (d, n)) : Reads h n := by
  refine ⟨?_, ?_, ?_⟩
  · rw [hread]
    exact hn.right.memo d hd
  · rw [hread]
  · rw [hread]
    exact hn

theorem reads_of_eq (hread : n.read h = (n.content.digest h, m)) (hcontent : m.content = n.content)
    (hm : Sound h m) : Reads h n :=
  ⟨by rw [hread], by rw [hread, hcontent], by rwa [hread]⟩

/-- A memo is read as it is; where there is none, the digest is computed from those of the parts and
becomes the memo. -/
theorem reads_of_sound (hn : Sound h n) : Reads h n := by
  induction n using Node.induction with
  | primitive p => exact reads_of_eq (by rw [read, content, Content.digest]) rfl (sound_primitive p)
  | slotted memo role type slots ih =>
    cases memo with
    | some d => exact reads_of_memo hn rfl (by rw [read])
    | none =>
      have hs : ∀ e ∈ slots, Reads h e.2 := fun e he => ih e he (hn.part (.slot he))
      have hread : (slotted none role type slots).read h =
          ((slotted none role type slots).content.digest h,
            .slotted (some ((slotted none role type slots).content.digest h)) role type
              (slots.map fun e => (e.1, (e.2.read h).2))) := by
        rw [read, readSlots_eq_map, digests_of_slots hs, content_slotted, Content.digest]
      refine reads_of_eq hread ?_ (sound_slotted ?_ ?_ ?_)
      · rw [content_slotted, content_slotted, contents_of_slots hs]
      · rintro d ⟨⟩
        rw [content_slotted, content_slotted, contents_of_slots hs]
      · exact hn.distinct_slots.map fun e => (e.read h).2
      · exact List.forall_mem_map.2 fun e he => (hs e he).sound
  | aggregate memo type elements template ih _ =>
    cases memo with
    | some d => exact reads_of_memo hn rfl (by rw [read])
    | none =>
      have he : ∀ e ∈ elements, Reads h e := fun e he => ih e he (hn.part (.element he))
      have hread : (aggregate none type elements template).read h =
          ((aggregate none type elements template).content.digest h,
            .aggregate (some ((aggregate none type elements template).content.digest h)) type
              (elements.map fun e => (e.read h).2) template) := by
        rw [read, readAll_eq_map, digests_of_elements he, content_aggregate, Content.digest]
      refine reads_of_eq hread ?_ (sound_aggregate ?_ ?_ ?_)
      · rw [content_aggregate, content_aggregate, contents_of_elements he]
      · rintro d ⟨⟩
        rw [content_aggregate, content_aggregate, contents_of_elements he]
      · exact List.forall_mem_map.2 fun e hm => (he e hm).sound
      · rintro t rfl
        exact hn.part .template
  | «variable» slots isMeta ih =>
    have hs : ∀ e ∈ slots, Reads h e.2 := fun e he => ih e he (hn.part (.variableSlot he))
    have hread : (Node.variable slots isMeta).read h =
        ((Node.variable slots isMeta).content.digest h,
          .variable (slots.map fun e => (e.1, (e.2.read h).2)) isMeta) := by
      rw [read, readSlots_eq_map, digests_of_slots hs, content_variable, Content.digest]
    refine reads_of_eq hread ?_ (sound_variable ?_ ?_)
    · rw [content_variable, content_variable, contents_of_slots hs]
    · exact hn.distinct_variableSlots.map fun e => (e.read h).2
    · exact List.forall_mem_map.2 fun e he => (hs e he).sound
  | ire type referent proposition ihr ihp =>
    have hr := ihr (hn.part .referent)
    have hp := ihp (hn.part .proposition)
    have hread : (ire type referent proposition).read h =
        ((ire type referent proposition).content.digest h,
          .ire type (referent.read h).2 (proposition.read h).2) := by
      rw [read, content, Content.digest, ← hr.digest, ← hp.digest]
    refine reads_of_eq hread ?_ (sound_ire hr.sound hp.sound)
    rw [content, content, hr.content, hp.content]
  | list memo elements ih =>
    cases memo with
    | some d => exact reads_of_memo hn rfl (by rw [read])
    | none =>
      have he : ∀ e ∈ elements, Reads h e := fun e he => ih e he (hn.part (.item he))
      have hread : (list none elements).read h =
          ((list none elements).content.digest h,
            .list (some ((list none elements).content.digest h))
              (elements.map fun e => (e.read h).2)) := by
        rw [read, readAll_eq_map, digests_of_elements he, content_list, Content.digest]
      refine reads_of_eq hread ?_ (sound_list ?_ ?_)
      · rw [content_list, content_list, contents_of_elements he]
      · rintro d ⟨⟩
        rw [content_list, content_list, contents_of_elements he]
      · exact List.forall_mem_map.2 fun e hm => (he e hm).sound

end Node
end AgentContent
