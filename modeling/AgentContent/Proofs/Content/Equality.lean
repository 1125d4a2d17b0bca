import AgentContent.Proofs.Content.Nodes

/-!
# AgentContent.Proofs.Content.Equality

What structurally equal content has in common.

* `Content.Keyed`: the slots of a node are stored by their names.
* `Content.rel_get?_of_sameSlots`: equal slots hold equal values under every spelling of a name.
* `Content.same_induction`: induction on two equal contents at once.
-/

namespace AgentContent
namespace Content

/-- The slots of the node are stored by their names. -/
def Keyed : Content → Prop
  | .slotted _ _ slots => Slots.Distinct slots
  | .variable slots _ => Slots.Distinct slots
  | _ => True

instance : DecidablePred Keyed
  | .slotted _ _ slots => inferInstanceAs (Decidable (Slots.Distinct slots))
  | .variable slots _ => inferInstanceAs (Decidable (Slots.Distinct slots))
  | .primitive _ => isTrue trivial
  | .aggregate _ _ _ => isTrue trivial
  | .ire _ _ _ => isTrue trivial
  | .list _ => isTrue trivial

/-! ## Equal slots -/

theorem contains_of_sameSlots {xs ys : Slots Content} (hx : Slots.Distinct xs)
    (hl : xs.length = ys.length) (h : sameSlots xs ys = true) {name : String}
    (hc : Slots.contains name ys = true) : Slots.contains name xs = true := by
  obtain ⟨e, he, hname⟩ := List.any_eq_true.1 hc
  have hpartner : ∀ x ∈ xs, ∃ y ∈ ys, foldName y.1 = foldName x.1 := by
    intro x hx
    obtain ⟨d, hd, -⟩ := sameSlots_iff.1 h x hx
    obtain ⟨k, hk, hmem⟩ := Slots.mem_of_get? hd
    exact ⟨(k, d), hmem, sameName_iff.1 hk⟩
  obtain ⟨x, hx, heq⟩ := exists_of_keys hx hpartner hl he
  exact Slots.contains_of_mem hx (sameName_trans (sameName_iff.2 heq) hname)

/-- Equal slots hold equal values, under every spelling of a name. -/
theorem rel_get?_of_sameSlots {xs ys : Slots Content} (hx : Slots.Distinct xs)
    (hl : xs.length = ys.length) (h : sameSlots xs ys = true) (name : String) :
    Option.Rel (fun c d => c.same d = true) (Slots.get? name xs) (Slots.get? name ys) := by
  cases hg : Slots.get? name xs with
  | some c =>
    obtain ⟨k, hk, hmem⟩ := Slots.mem_of_get? hg
    obtain ⟨d, hd, hcd⟩ := sameSlots_iff.1 h (k, c) hmem
    rw [Slots.get?_congr hk] at hd
    rw [hd]
    exact .some hcd
  | none =>
    cases hg' : Slots.get? name ys with
    | none => exact .none
    | some d =>
      have hc : Slots.contains name ys = true := by
        rw [Slots.contains_eq_isSome_get?, hg']
        rfl
      have := contains_of_sameSlots hx hl h hc
      rw [Slots.contains_eq_isSome_get?, hg] at this
      cases this

/-! ## Equal content -/

theorem exists_of_same_slotted {role : Role} {type : String} {xs : Slots Content} {d : Content}
    (h : (slotted role type xs).same d = true) :
    ∃ ys, d = .slotted role type ys ∧ xs.length = ys.length ∧ sameSlots xs ys = true := by
  cases d with
  | slotted role' type' ys =>
    obtain ⟨rfl, rfl, hl, hs⟩ := same_slotted_iff.1 h
    exact ⟨ys, rfl, hl, hs⟩
  | _ => exact absurd h Bool.false_ne_true

theorem exists_of_same_variable {xs : Slots Content} {isMeta : Bool} {d : Content}
    (h : (Content.variable xs isMeta).same d = true) :
    ∃ ys, d = .variable ys isMeta ∧ xs.length = ys.length ∧ sameSlots xs ys = true := by
  cases d with
  | «variable» ys isMeta' =>
    obtain ⟨hl, hs, rfl⟩ := same_variable_iff.1 h
    exact ⟨ys, rfl, hl, hs⟩
  | _ => exact absurd h Bool.false_ne_true

theorem exists_of_same_aggregate {type : String} {xs : List Content} {template : Option Content}
    {d : Content} (h : (aggregate type xs template).same d = true) :
    ∃ ys template', d = .aggregate type ys template' ∧
      List.Forall₂ (fun c d => c.same d = true) xs ys := by
  cases d with
  | aggregate type' ys template' =>
    obtain ⟨rfl, hs⟩ := same_aggregate_iff.1 h
    exact ⟨ys, template', rfl, hs⟩
  | _ => exact absurd h Bool.false_ne_true

theorem exists_of_same_ire {type : String} {referent proposition d : Content}
    (h : (ire type referent proposition).same d = true) :
    ∃ referent' proposition', d = .ire type referent' proposition' ∧
      referent.same referent' = true ∧ proposition.same proposition' = true := by
  cases d with
  | ire type' referent' proposition' =>
    obtain ⟨rfl, hr, hp⟩ := same_ire_iff.1 h
    exact ⟨referent', proposition', rfl, hr, hp⟩
  | _ => exact absurd h Bool.false_ne_true

theorem exists_of_same_list {xs : List Content} {d : Content} (h : (list xs).same d = true) :
    ∃ ys, d = .list ys ∧ List.Forall₂ (fun c d => c.same d = true) xs ys := by
  cases d with
  | list ys => exact ⟨ys, rfl, same_list_iff.1 h⟩
  | _ => exact absurd h Bool.false_ne_true

theorem eq_of_same_primitive {p : Primitive} {d : Content} (h : (primitive p).same d = true) :
    d = .primitive p := by
  cases d with
  | primitive q => rw [same_primitive_iff.1 h]
  | _ => exact absurd h Bool.false_ne_true

theorem forall₂_and_of_mem {α β : Type} {R S : α → β → Prop} {xs : List α} {ys : List β}
    (h : List.Forall₂ R xs ys) (hs : ∀ x ∈ xs, ∀ y ∈ ys, R x y → S x y) :
    List.Forall₂ (fun x y => R x y ∧ S x y) xs ys := by
  induction h with
  | nil => exact .nil
  | @cons x y xs ys hxy _ ih =>
    have hrest := ih fun a ha b hb =>
      hs a (List.mem_cons_of_mem _ ha) b (List.mem_cons_of_mem _ hb)
    exact .cons ⟨hxy, hs x List.mem_cons_self y List.mem_cons_self hxy⟩ hrest

section Induction

variable {M : Content → Content → Prop}
  (primitive : ∀ p, M (.primitive p) (.primitive p))
  (slotted : ∀ role type xs ys, Slots.Distinct xs → Slots.Distinct ys →
    (∀ name, Option.Rel (fun c d => c.same d = true ∧ M c d) (Slots.get? name xs)
      (Slots.get? name ys)) →
    M (.slotted role type xs) (.slotted role type ys))
  (aggregate : ∀ type xs ys template template',
    List.Forall₂ (fun c d => c.same d = true ∧ M c d) xs ys →
    M (.aggregate type xs template) (.aggregate type ys template'))
  («variable» : ∀ xs ys isMeta, Slots.Distinct xs → Slots.Distinct ys →
    (∀ name, Option.Rel (fun c d => c.same d = true ∧ M c d) (Slots.get? name xs)
      (Slots.get? name ys)) →
    M (.variable xs isMeta) (.variable ys isMeta))
  (ire : ∀ type r r' p p', r.same r' = true ∧ M r r' → p.same p' = true ∧ M p p' →
    M (.ire type r p) (.ire type r' p'))
  (list : ∀ xs ys, List.Forall₂ (fun c d => c.same d = true ∧ M c d) xs ys →
    M (.list xs) (.list ys))

include primitive slotted aggregate «variable» ire list

/-- What holds of two equal contents when it holds of their parts. -/
theorem same_induction {c d : Content} (h : c.same d = true) (hc : c.Each false Keyed)
    (hd : d.Each false Keyed) : M c d := by
  have hslots : ∀ {xs ys : Slots Content}, (∀ e ∈ xs, ∀ d, e.2.same d = true →
      e.2.Each false Keyed → d.Each false Keyed → M e.2 d) → (∀ e ∈ xs, e.2.Each false Keyed) →
      (∀ e ∈ ys, e.2.Each false Keyed) → Slots.Distinct xs → xs.length = ys.length →
      sameSlots xs ys = true → ∀ name, Option.Rel (fun c d => c.same d = true ∧ M c d)
        (Slots.get? name xs) (Slots.get? name ys) := by
    intro xs ys ih hx hy hdist hl hs name
    have hrel := rel_get?_of_sameSlots hdist hl hs name
    generalize hgx : Slots.get? name xs = x at hrel
    generalize hgy : Slots.get? name ys = y at hrel
    cases hrel with
    | none => exact .none
    | @some c d hcd =>
      obtain ⟨k, -, hk⟩ := Slots.mem_of_get? hgx
      obtain ⟨k', -, hk'⟩ := Slots.mem_of_get? hgy
      exact .some ⟨hcd, ih (k, c) hk d hcd (hx (k, c) hk) (hy (k', d) hk')⟩
  induction c using Content.induction generalizing d with
  | primitive p =>
    cases eq_of_same_primitive h
    exact primitive p
  | slotted role type xs ih =>
    obtain ⟨ys, rfl, hl, hs⟩ := exists_of_same_slotted h
    refine slotted role type xs ys hc.self hd.self ?_
    exact hslots (fun e he d hed hce hde => ih e he hed hce hde) (fun e he => hc.slot he)
      (fun e he => hd.slot he) hc.self hl hs
  | aggregate type xs template ih _ =>
    obtain ⟨ys, template', rfl, hs⟩ := exists_of_same_aggregate h
    refine aggregate type xs ys template template' (forall₂_and_of_mem hs ?_)
    intro x hx y hy hxy
    exact ih x hx hxy (hc.element hx) (hd.element hy)
  | «variable» xs isMeta ih =>
    obtain ⟨ys, rfl, hl, hs⟩ := exists_of_same_variable h
    refine «variable» xs ys isMeta hc.self hd.self ?_
    exact hslots (fun e he d hed hce hde => ih e he hed hce hde) (fun e he => hc.variableSlot he)
      (fun e he => hd.variableSlot he) hc.self hl hs
  | ire type r p ihr ihp =>
    obtain ⟨r', p', rfl, hr, hp⟩ := exists_of_same_ire h
    exact ire type r r' p p' ⟨hr, ihr hr hc.referent hd.referent⟩
      ⟨hp, ihp hp hc.proposition hd.proposition⟩
  | list xs ih =>
    obtain ⟨ys, rfl, hs⟩ := exists_of_same_list h
    refine list xs ys (forall₂_and_of_mem hs ?_)
    intro x hx y hy hxy
    exact ih x hx hxy (hc.item hx) (hd.item hy)

end Induction

/-- Content whose slots are stored by their names equals itself. -/
theorem same_refl {c : Content} (h : c.Each false Keyed) : c.same c = true := by
  have hslots : ∀ {xs : Slots Content}, Slots.Distinct xs → (∀ e ∈ xs, e.2.same e.2 = true) →
      sameSlots xs xs = true := by
    intro xs hd hx
    refine sameSlots_iff.2 fun e he => ⟨e.2, ?_, hx e he⟩
    exact Slots.get?_of_mem hd he (sameName_refl _)
  induction c using Content.induction with
  | primitive p => exact same_primitive_iff.2 rfl
  | slotted role type slots ih =>
    exact same_slotted_iff.2 ⟨rfl, rfl, rfl, hslots h.self fun e he => ih e he (h.slot he)⟩
  | aggregate type elements template ih _ =>
    have hall : List.Forall₂ (fun c d => c.same d = true) elements elements :=
      List.forall₂_same.2 fun c hc => ih c hc (h.element hc)
    exact same_aggregate_iff.2 ⟨rfl, hall⟩
  | «variable» slots isMeta ih =>
    exact same_variable_iff.2 ⟨rfl, hslots h.self fun e he => ih e he (h.variableSlot he), rfl⟩
  | ire type referent proposition ihr ihp =>
    exact same_ire_iff.2 ⟨rfl, ihr h.referent, ihp h.proposition⟩
  | list elements ih =>
    have hall : List.Forall₂ (fun c d => c.same d = true) elements elements :=
      List.forall₂_same.2 fun c hc => ih c hc (h.item hc)
    exact same_list_iff.2 hall

/-! ## What equal content has in common -/

/-- A content without its parts. -/
def head : Content → Content
  | .primitive p => .primitive p
  | .slotted role type _ => .slotted role type []
  | .aggregate type _ _ => .aggregate type [] none
  | .variable _ isMeta => .variable [] isMeta
  | .ire type _ _ => .ire type (.list []) (.list [])
  | .list _ => .list []

theorem head_of_same {c d : Content} (h : c.same d = true) : c.head = d.head := by
  cases c with
  | primitive p => cases eq_of_same_primitive h; rfl
  | slotted role type xs => obtain ⟨ys, rfl, -⟩ := exists_of_same_slotted h; rfl
  | aggregate type xs template => obtain ⟨ys, template', rfl, -⟩ := exists_of_same_aggregate h; rfl
  | «variable» xs isMeta => obtain ⟨ys, rfl, -⟩ := exists_of_same_variable h; rfl
  | ire type r p => obtain ⟨r', p', rfl, -⟩ := exists_of_same_ire h; rfl
  | list xs => obtain ⟨ys, rfl, -⟩ := exists_of_same_list h; rfl

/-- What is read off a content without looking at its parts is equal for equal contents. -/
theorem eq_of_same {α : Type} {f : Content → α} (hf : ∀ e : Content, f e.head = f e)
    {c d : Content} (h : c.same d = true) : f c = f d := by
  rw [← hf c, head_of_same h, hf d]

theorem typeName_of_same {c d : Content} (h : c.same d = true) : c.typeName = d.typeName :=
  eq_of_same (fun e => by cases e <;> rfl) h

theorem isContentElement_of_same {c d : Content} (h : c.same d = true) :
    c.isContentElement = d.isContentElement :=
  eq_of_same (fun e => by cases e with
    | slotted role type slots => cases role <;> rfl
    | _ => rfl) h

theorem primitive?_of_same {c d : Content} (h : c.same d = true) : c.primitive? = d.primitive? :=
  eq_of_same (fun e => by cases e <;> rfl) h

theorem string?_of_same {c d : Content} (h : c.same d = true) : c.string? = d.string? :=
  eq_of_same (fun e => by cases e <;> rfl) h

end Content
end AgentContent
