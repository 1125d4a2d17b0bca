import AgentContent.Proofs.Content.Slots

/-!
# AgentContent.Proofs.Content.Nodes

The nodes of a content, and what holds at each of them.

* `Content.induction`: induction on content, with an assumption for each part.
* `Content.nodes`: a content and all that it is made of, with or without the templates of its
  aggregates.
* `Content.Fits`: what a node holds fits its machine type.
-/

namespace AgentContent
namespace Content

section Induction

variable {P : Content → Prop}
  (primitive : ∀ p, P (.primitive p))
  (slotted : ∀ role type slots, (∀ e ∈ slots, P e.2) → P (.slotted role type slots))
  (aggregate : ∀ type elements template, (∀ c ∈ elements, P c) → (∀ t, template = some t → P t) →
    P (.aggregate type elements template))
  («variable» : ∀ slots isMeta, (∀ e ∈ slots, P e.2) → P (.variable slots isMeta))
  (ire : ∀ type referent proposition, P referent → P proposition →
    P (.ire type referent proposition))
  (list : ∀ elements, (∀ c ∈ elements, P c) → P (.list elements))

include primitive slotted aggregate «variable» ire list

set_option linter.unusedSectionVars false in
mutual
@[elab_as_elim]
theorem induction : ∀ c : Content, P c
  | .primitive p => primitive p
  | .slotted role type slots => slotted role type slots (induction_slots slots)
  | .aggregate type elements none =>
    aggregate type elements none (induction_all elements) (fun _ h => by cases h)
  | .aggregate type elements (some t) =>
    aggregate type elements (some t) (induction_all elements)
      (fun _ h => by cases h; exact induction t)
  | .variable slots isMeta => «variable» slots isMeta (induction_slots slots)
  | .ire type referent proposition =>
    ire type referent proposition (induction referent) (induction proposition)
  | .list elements => list elements (induction_all elements)

theorem induction_all : ∀ cs : List Content, ∀ c ∈ cs, P c
  | [] => List.forall_mem_nil _
  | c :: cs => List.forall_mem_cons.2 ⟨induction c, induction_all cs⟩

theorem induction_slots : ∀ slots : List (String × Content), ∀ e ∈ slots, P e.2
  | [] => List.forall_mem_nil _
  | (_, c) :: slots => List.forall_mem_cons.2 ⟨induction c, induction_slots slots⟩
end

end Induction

/-! ## Nodes -/

mutual
/-- A content and all that it is made of, the templates of aggregates only when they are asked
for. -/
def nodes (templates : Bool) : Content → List Content
  | .primitive p => [.primitive p]
  | .slotted role type slots => .slotted role type slots :: nodesSlots templates slots
  | .aggregate type elements none => .aggregate type elements none :: nodesAll templates elements
  | .aggregate type elements (some t) =>
    .aggregate type elements (some t) ::
      (nodesAll templates elements ++ if templates then t.nodes templates else [])
  | .variable slots isMeta => .variable slots isMeta :: nodesSlots templates slots
  | .ire type referent proposition =>
    .ire type referent proposition :: (referent.nodes templates ++ proposition.nodes templates)
  | .list elements => .list elements :: nodesAll templates elements

def nodesAll (templates : Bool) : List Content → List Content
  | [] => []
  | c :: cs => c.nodes templates ++ nodesAll templates cs

def nodesSlots (templates : Bool) : List (String × Content) → List Content
  | [] => []
  | (_, c) :: slots => c.nodes templates ++ nodesSlots templates slots
end

variable {templates : Bool}

theorem nodesAll_cons (c : Content) (cs : List Content) :
    nodesAll templates (c :: cs) = c.nodes templates ++ nodesAll templates cs := rfl

theorem nodesSlots_cons (k : String) (c : Content) (slots : List (String × Content)) :
    nodesSlots templates ((k, c) :: slots) =
      c.nodes templates ++ nodesSlots templates slots := rfl

theorem nodesAll_eq (cs : List Content) : nodesAll templates cs = cs.flatMap (nodes templates) := by
  induction cs with
  | nil => rfl
  | cons c cs ih => rw [nodesAll_cons, ih, List.flatMap_cons]

theorem nodesSlots_eq (slots : List (String × Content)) :
    nodesSlots templates slots = slots.flatMap fun e => e.2.nodes templates := by
  induction slots with
  | nil => rfl
  | cons e slots ih =>
    obtain ⟨k, c⟩ := e
    rw [nodesSlots_cons, ih, List.flatMap_cons]

theorem nodes_slotted (role : Role) (type : String) (slots : List (String × Content)) :
    (slotted role type slots).nodes templates =
      .slotted role type slots :: slots.flatMap fun e => e.2.nodes templates :=
  congrArg (_ :: ·) (nodesSlots_eq slots)

theorem nodes_aggregate (type : String) (elements : List Content) (template : Option Content) :
    (aggregate type elements template).nodes templates =
      .aggregate type elements template :: (elements.flatMap (nodes templates) ++
        if templates then template.toList.flatMap (nodes templates) else []) := by
  rw [← nodesAll_eq]
  cases template with
  | none => cases templates <;> exact congrArg (_ :: ·) (List.append_nil _).symm
  | some t => rw [Option.toList_some, List.flatMap_singleton]; rfl

theorem nodes_variable (slots : List (String × Content)) (isMeta : Bool) :
    (Content.variable slots isMeta).nodes templates =
      .variable slots isMeta :: slots.flatMap fun e => e.2.nodes templates :=
  congrArg (_ :: ·) (nodesSlots_eq slots)

theorem nodes_list (elements : List Content) :
    (list elements).nodes templates = .list elements :: elements.flatMap (nodes templates) :=
  congrArg (_ :: ·) (nodesAll_eq elements)

/-- Something holds at every node. -/
def Each (templates : Bool) (P : Content → Prop) (c : Content) : Prop :=
  ∀ d ∈ c.nodes templates, P d

instance (P : Content → Prop) [DecidablePred P] (c : Content) : Decidable (Each templates P c) :=
  inferInstanceAs (Decidable (∀ d ∈ c.nodes templates, P d))

namespace Each

variable {P : Content → Prop}

theorem self {c : Content} (h : Each templates P c) : P c := by
  cases c with
  | aggregate type elements template => cases template <;> exact h _ List.mem_cons_self
  | _ => exact h _ List.mem_cons_self

theorem slot {role : Role} {type : String} {slots : List (String × Content)}
    (h : Each templates P (.slotted role type slots)) {e : String × Content} (he : e ∈ slots) :
    Each templates P e.2 := by
  intro d hd
  refine h d ?_
  rw [nodes_slotted]
  exact List.mem_cons_of_mem _ (List.mem_flatMap.2 ⟨e, he, hd⟩)

theorem element {type : String} {elements : List Content} {template : Option Content}
    (h : Each templates P (.aggregate type elements template)) {c : Content} (hc : c ∈ elements) :
    Each templates P c := by
  intro d hd
  refine h d ?_
  rw [nodes_aggregate]
  exact List.mem_cons_of_mem _ (List.mem_append_left _ (List.mem_flatMap.2 ⟨c, hc, hd⟩))

theorem template {type : String} {elements : List Content} {t : Content}
    (h : Each true P (.aggregate type elements (some t))) : Each true P t := by
  intro d hd
  refine h d (List.mem_cons_of_mem _ (List.mem_append_right _ ?_))
  rwa [if_pos rfl]

theorem variableSlot {slots : List (String × Content)} {isMeta : Bool}
    (h : Each templates P (.variable slots isMeta)) {e : String × Content} (he : e ∈ slots) :
    Each templates P e.2 := by
  intro d hd
  refine h d ?_
  rw [nodes_variable]
  exact List.mem_cons_of_mem _ (List.mem_flatMap.2 ⟨e, he, hd⟩)

theorem referent {type : String} {referent proposition : Content}
    (h : Each templates P (.ire type referent proposition)) : Each templates P referent :=
  fun d hd => h d (List.mem_cons_of_mem _ (List.mem_append_left _ hd))

theorem proposition {type : String} {referent proposition : Content}
    (h : Each templates P (.ire type referent proposition)) : Each templates P proposition :=
  fun d hd => h d (List.mem_cons_of_mem _ (List.mem_append_right _ hd))

theorem item {elements : List Content} (h : Each templates P (.list elements)) {c : Content}
    (hc : c ∈ elements) : Each templates P c := by
  intro d hd
  refine h d ?_
  rw [nodes_list]
  exact List.mem_cons_of_mem _ (List.mem_flatMap.2 ⟨c, hc, hd⟩)

/-! From the parts to the whole. -/

theorem of_primitive {p : Primitive} (h : P (.primitive p)) : Each templates P (.primitive p) :=
  List.forall_mem_singleton.2 h

theorem of_slotted {role : Role} {type : String} {slots : List (String × Content)}
    (h : P (.slotted role type slots)) (hs : ∀ e ∈ slots, Each templates P e.2) :
    Each templates P (.slotted role type slots) := by
  rw [Each, nodes_slotted, List.forall_mem_cons, List.forall_mem_flatMap]
  exact ⟨h, hs⟩

theorem of_aggregate {type : String} {elements : List Content} {template : Option Content}
    (h : P (.aggregate type elements template)) (he : ∀ c ∈ elements, Each templates P c)
    (ht : templates = true → ∀ t, template = some t → Each templates P t) :
    Each templates P (.aggregate type elements template) := by
  rw [Each, nodes_aggregate, List.forall_mem_cons, List.forall_mem_append, List.forall_mem_flatMap]
  refine ⟨h, he, ?_⟩
  cases templates with
  | false => exact List.forall_mem_nil _
  | true =>
    rw [if_pos rfl, List.forall_mem_flatMap]
    exact fun t hmem => ht rfl t (Option.mem_toList.1 hmem)

theorem of_variable {slots : List (String × Content)} {isMeta : Bool}
    (h : P (.variable slots isMeta)) (hs : ∀ e ∈ slots, Each templates P e.2) :
    Each templates P (.variable slots isMeta) := by
  rw [Each, nodes_variable, List.forall_mem_cons, List.forall_mem_flatMap]
  exact ⟨h, hs⟩

theorem of_ire {type : String} {referent proposition : Content}
    (h : P (.ire type referent proposition)) (hr : Each templates P referent)
    (hp : Each templates P proposition) : Each templates P (.ire type referent proposition) :=
  List.forall_mem_cons.2 ⟨h, List.forall_mem_append.2 ⟨hr, hp⟩⟩

theorem of_list {elements : List Content} (h : P (.list elements))
    (he : ∀ c ∈ elements, Each templates P c) : Each templates P (.list elements) := by
  rw [Each, nodes_list, List.forall_mem_cons, List.forall_mem_flatMap]
  exact ⟨h, he⟩

theorem without {c : Content} (h : Each true P c) : Each false P c := by
  induction c using Content.induction with
  | primitive p => exact .of_primitive h.self
  | slotted role type slots ih => exact .of_slotted h.self fun e he => ih e he (h.slot he)
  | aggregate type elements template ih _ =>
    exact .of_aggregate h.self (fun c hc => ih c hc (h.element hc)) fun h => by cases h
  | «variable» slots isMeta ih => exact .of_variable h.self fun e he => ih e he (h.variableSlot he)
  | ire type referent proposition ihr ihp =>
    exact .of_ire h.self (ihr h.referent) (ihp h.proposition)
  | list elements ih => exact .of_list h.self fun c hc => ih c hc (h.item hc)

end Each

/-- What the node itself holds fits its machine type: integers have 64 bits, byte sequences are no
longer than memory, and slots are stored by their names. -/
def Fits : Content → Prop
  | .primitive (.integer n) => fitsInt64 n = true
  | .primitive (.bytes bs) => bs.length < 0x8000000000000000
  | .slotted _ _ slots => Slots.Distinct slots
  | .variable slots _ => Slots.Distinct slots
  | _ => True

instance : DecidablePred Fits := fun c => by
  unfold Fits
  split <;> infer_instance

end Content
end AgentContent
