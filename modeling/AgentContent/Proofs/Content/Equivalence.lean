import AgentContent.Proofs.Content.Equality

/-!
# AgentContent.Proofs.Content.Equivalence

Structural equality is an equivalence on content whose slots are stored by their names, and it
overlooks nothing but style.

* `Slots.exists_aligned`: slots with related entries under every name are related one by one, once
  they are put in one order.
* `Content.same_symm`, `Content.same_trans`: with `Content.same_refl`, an equivalence.
* `Content.Restyled`: contents that differ in the order of slots, in the letter case of their
  names and in templates only.
* `Content.same_iff_restyled`: these are the equal ones.
-/

namespace AgentContent

/-! ## Related optional values and lists -/

theorem rel_imp {α β : Type} {R S : α → β → Prop} {x : Option α} {y : Option β}
    (h : Option.Rel R x y) (hi : ∀ a b, y = some b → R a b → S a b) : Option.Rel S x y := by
  cases h with
  | none => exact .none
  | some hab => exact .some (hi _ _ rfl hab)

theorem rel_flip {α β : Type} {R : α → β → Prop} {x : Option α} {y : Option β}
    (h : Option.Rel R x y) : Option.Rel (fun b a => R a b) y x := by
  cases h with
  | none => exact .none
  | some hab => exact .some hab

theorem rel_trans {α β γ : Type} {R : α → β → Prop} {S : β → γ → Prop} {x : Option α}
    {y : Option β} {z : Option γ} (h : Option.Rel R x y) (k : Option.Rel S y z) :
    Option.Rel (fun a c => ∃ b, R a b ∧ S b c) x z := by
  cases h with
  | none => cases k; exact .none
  | some hab => cases k with | some hbc => exact .some ⟨_, hab, hbc⟩

theorem forall₂_and {α β : Type} {R S : α → β → Prop} {xs : List α} {ys : List β}
    (h : List.Forall₂ R xs ys) (k : List.Forall₂ S xs ys) :
    List.Forall₂ (fun x y => R x y ∧ S x y) xs ys := by
  induction h with
  | nil => exact .nil
  | cons hxy _ ih =>
    cases k with
    | cons hxy' hrest => exact .cons ⟨hxy, hxy'⟩ (ih hrest)

namespace Slots

variable {α β : Type} {R : α → β → Prop}

theorem perm_cons_remove {slots : Slots α} {name : String} {v : α}
    (h : get? name slots = some v) :
    ∃ k, sameName k name = true ∧ slots.Perm ((k, v) :: remove name slots) := by
  induction slots with
  | nil => cases h
  | cons e rest ih =>
    obtain ⟨k', w⟩ := e
    simp only [get?] at h
    split at h
    · rename_i hk
      cases h
      exact ⟨k', hk, by simp [remove, hk]⟩
    · rename_i hk
      obtain ⟨k, hname, hperm⟩ := ih h
      refine ⟨k, hname, ?_⟩
      rw [remove, if_neg hk]
      exact (hperm.cons _).trans (.swap _ _ _)

/-- The entry of another name is found behind the first one. -/
theorem get?_cons_of_ne {k name : String} (h : sameName k name = false) (v : α) (slots : Slots α) :
    get? name ((k, v) :: slots) = get? name slots := by
  simp [get?, h]

theorem get?_eq_none_of_not_contains {name : String} {slots : Slots α}
    (h : contains name slots = false) : get? name slots = none := by
  rw [contains_eq_isSome_get?] at h
  simpa using h

/-- Slots with related entries under every name are related one by one, once the ones are put in the
order of the others. -/
theorem exists_aligned {xs : Slots α} {ys : Slots β} (hx : Distinct xs) (hy : Distinct ys)
    (h : ∀ name, Option.Rel R (get? name xs) (get? name ys)) :
    ∃ zs, xs.Perm zs ∧
      List.Forall₂ (fun a b => sameName a.1 b.1 = true ∧ R a.2 b.2) zs ys := by
  induction ys generalizing xs with
  | nil =>
    cases xs with
    | nil => exact ⟨[], .nil, .nil⟩
    | cons e xs =>
      have hnone := h e.1
      simp [get?] at hnone
  | cons e ys ih =>
    obtain ⟨k, d⟩ := e
    obtain ⟨hfree, hy'⟩ := distinct_cons.1 hy
    have hk := h k
    rw [show get? k ((k, d) :: ys) = some d by simp [get?]] at hk
    generalize hget : get? k xs = found at hk
    obtain @⟨c, _, hR⟩ := hk
    obtain ⟨k', hname, hperm⟩ := perm_cons_remove hget
    obtain ⟨hfree', hx'⟩ := distinct_cons.1 (hx.perm hperm)
    have hrest : ∀ name, Option.Rel R (get? name (remove k xs)) (get? name ys) := by
      intro name
      have hrel := h name
      rw [get?_perm hx hperm] at hrel
      by_cases hsame : sameName k name = true
      · rw [get?_congr (sameName_symm hsame), get?_congr (sameName_symm hsame),
          get?_eq_none_of_not_contains hfree, get?_congr (sameName_symm hname),
          get?_eq_none_of_not_contains hfree']
        exact .none
      · have hne : sameName k name = false := Bool.eq_false_iff.2 hsame
        rw [get?_cons_of_ne hne, get?_cons_of_ne] at hrel
        · exact hrel
        · rw [sameName_congr_left hname, hne]
    obtain ⟨zs, hzs, hall⟩ := ih hx' hy' hrest
    exact ⟨(k', c) :: zs, hperm.trans (hzs.cons _), .cons ⟨hname, hR⟩ hall⟩

theorem rel_get?_of_forall₂ {xs : Slots α} {ys : Slots β}
    (h : List.Forall₂ (fun a b => sameName a.1 b.1 = true ∧ R a.2 b.2) xs ys) (name : String) :
    Option.Rel R (get? name xs) (get? name ys) := by
  induction h with
  | nil => exact .none
  | @cons a b xs ys hab _ ih =>
    obtain ⟨hname, hR⟩ := hab
    simp only [get?, sameName_congr_left hname]
    split
    · exact .some hR
    · exact ih

end Slots

namespace Content

/-! ## An equivalence -/

theorem sameSlots_of_rel {xs ys : Slots Content} (hx : Slots.Distinct xs)
    (h : ∀ name, Option.Rel (fun c d => c.same d = true) (Slots.get? name xs)
      (Slots.get? name ys)) : sameSlots xs ys = true := by
  refine sameSlots_iff.2 fun e he => ?_
  have hrel := h e.1
  rw [Slots.get?_of_mem hx he (sameName_refl e.1)] at hrel
  generalize Slots.get? e.1 ys = found at hrel
  cases hrel with
  | some hed => exact ⟨_, rfl, hed⟩

theorem length_eq_of_rel {xs ys : Slots Content} {R : Content → Content → Prop}
    (hx : Slots.Distinct xs) (hy : Slots.Distinct ys)
    (h : ∀ name, Option.Rel R (Slots.get? name xs) (Slots.get? name ys)) :
    xs.length = ys.length := by
  obtain ⟨zs, hperm, hall⟩ := Slots.exists_aligned hx hy h
  exact hperm.length_eq.trans hall.length_eq

theorem same_slotted_of_rel {role : Role} {type : String} {xs ys : Slots Content}
    (hx : Slots.Distinct xs) (hy : Slots.Distinct ys)
    (h : ∀ name, Option.Rel (fun c d => c.same d = true) (Slots.get? name xs)
      (Slots.get? name ys)) : (slotted role type xs).same (slotted role type ys) = true :=
  same_slotted_iff.2 ⟨rfl, rfl, length_eq_of_rel hx hy h, sameSlots_of_rel hx h⟩

theorem same_variable_of_rel {isMeta : Bool} {xs ys : Slots Content}
    (hx : Slots.Distinct xs) (hy : Slots.Distinct ys)
    (h : ∀ name, Option.Rel (fun c d => c.same d = true) (Slots.get? name xs)
      (Slots.get? name ys)) :
    (Content.variable xs isMeta).same (Content.variable ys isMeta) = true :=
  same_variable_iff.2 ⟨length_eq_of_rel hx hy h, sameSlots_of_rel hx h, rfl⟩

theorem same_symm {c d : Content} (h : c.same d = true) (hc : c.Each false Keyed)
    (hd : d.Each false Keyed) : d.same c = true := by
  refine same_induction (M := fun c d => d.same c = true)
    ?primitive ?slotted ?aggregate ?«open» ?ire ?list h hc hd
  case primitive =>
    intro p
    exact same_primitive_iff.2 rfl
  case slotted =>
    intro role type xs ys hx hy hrel
    exact same_slotted_of_rel hy hx fun name => rel_imp (rel_flip (hrel name)) fun _ _ _ h => h.2
  case aggregate =>
    intro type xs ys template template' hall
    have hflip := (hall.imp fun c d h => h.2).flip
    exact same_aggregate_iff.2 ⟨rfl, hflip⟩
  case «open» =>
    intro xs ys isMeta hx hy hrel
    exact same_variable_of_rel hy hx fun name => rel_imp (rel_flip (hrel name)) fun _ _ _ h => h.2
  case ire =>
    rintro type r r' p p' ⟨-, hr⟩ ⟨-, hp⟩
    exact same_ire_iff.2 ⟨rfl, hr, hp⟩
  case list =>
    intro xs ys hall
    have hflip := (hall.imp fun c d h => h.2).flip
    exact same_list_iff.2 hflip

/-- What is equal to the values of the one slots is equal to those of the other. -/
theorem rel_get?_trans {xs ys zs : Slots Content} (hy : Slots.Distinct ys)
    (hrel : ∀ name, Option.Rel (fun c d => c.same d = true ∧
      ∀ e : Content, e.Each false Keyed → d.same e = true → c.same e = true)
      (Slots.get? name xs) (Slots.get? name ys))
    (hz : ∀ e ∈ zs, e.2.Each false Keyed) (hl : ys.length = zs.length)
    (hs : sameSlots ys zs = true) (name : String) :
    Option.Rel (fun c d => c.same d = true) (Slots.get? name xs) (Slots.get? name zs) := by
  refine rel_imp (rel_trans (hrel name) (rel_get?_of_sameSlots hy hl hs name)) ?_
  rintro c e he ⟨d, ⟨-, htrans⟩, hde⟩
  obtain ⟨k, -, hmem⟩ := Slots.mem_of_get? he
  exact htrans e (hz _ hmem) hde

theorem forall₂_trans_of_mem {xs ys zs : List Content}
    (h : List.Forall₂ (fun c d : Content => c.same d = true ∧
      ∀ e : Content, e.Each false Keyed → d.same e = true → c.same e = true) xs ys)
    (hz : ∀ e ∈ zs, e.Each false Keyed) (hs : List.Forall₂ (fun c d => c.same d = true) ys zs) :
    List.Forall₂ (fun c d => c.same d = true) xs zs := by
  induction h generalizing zs with
  | nil => cases hs; exact .nil
  | cons hcd _ ih =>
    cases hs with
    | cons hde hs =>
      obtain ⟨he, hz⟩ := List.forall_mem_cons.1 hz
      exact .cons (hcd.2 _ he hde) (ih hz hs)

theorem same_trans {c d : Content} (h : c.same d = true) (hc : c.Each false Keyed)
    (hd : d.Each false Keyed) :
    ∀ e : Content, e.Each false Keyed → d.same e = true → c.same e = true := by
  refine same_induction (M := fun c d => ∀ e : Content, e.Each false Keyed → d.same e = true →
    c.same e = true) ?primitive ?slotted ?aggregate ?«open» ?ire ?list h hc hd
  case primitive =>
    intro p e _ k
    exact k
  case slotted =>
    intro role type xs ys hx hy hrel e he k
    obtain ⟨zs, rfl, hl, hs⟩ := exists_of_same_slotted k
    exact same_slotted_of_rel hx he.self (rel_get?_trans hy hrel (fun _ hm => he.slot hm) hl hs)
  case aggregate =>
    intro type xs ys template template' hall e he k
    obtain ⟨zs, template'', rfl, hs⟩ := exists_of_same_aggregate k
    have hxz := forall₂_trans_of_mem hall (fun _ hm => he.element hm) hs
    exact same_aggregate_iff.2 ⟨rfl, hxz⟩
  case «open» =>
    intro xs ys isMeta hx hy hrel e he k
    obtain ⟨zs, rfl, hl, hs⟩ := exists_of_same_variable k
    exact same_variable_of_rel hx he.self
      (rel_get?_trans hy hrel (fun _ hm => he.variableSlot hm) hl hs)
  case ire =>
    rintro type r r' p p' ⟨-, hr⟩ ⟨-, hp⟩ e he k
    obtain ⟨r'', p'', rfl, hr', hp'⟩ := exists_of_same_ire k
    exact same_ire_iff.2 ⟨rfl, hr _ he.referent hr', hp _ he.proposition hp'⟩
  case list =>
    intro xs ys hall e he k
    obtain ⟨zs, rfl, hs⟩ := exists_of_same_list k
    have hxz := forall₂_trans_of_mem hall (fun _ hm => he.item hm) hs
    exact same_list_iff.2 hxz

/-! ## Style -/

/-- The contents differ in the order of slots, in the letter case of their names and in templates
only. -/
inductive Restyled : Content → Content → Prop where
  | primitive (p : Primitive) : Restyled (.primitive p) (.primitive p)
  | slotted {role : Role} {type : String} {xs zs ys : Slots Content} (order : xs.Perm zs)
    (names : List.Forall₂ (fun a b => sameName a.1 b.1 = true) zs ys)
    (values : List.Forall₂ (fun a b => Restyled a.2 b.2) zs ys) :
    Restyled (.slotted role type xs) (.slotted role type ys)
  | aggregate {type : String} {xs ys : List Content} (template template' : Option Content)
    (elements : List.Forall₂ Restyled xs ys) :
    Restyled (.aggregate type xs template) (.aggregate type ys template')
  | variable {isMeta : Bool} {xs zs ys : Slots Content} (order : xs.Perm zs)
    (names : List.Forall₂ (fun a b => sameName a.1 b.1 = true) zs ys)
    (values : List.Forall₂ (fun a b => Restyled a.2 b.2) zs ys) :
    Restyled (.variable xs isMeta) (.variable ys isMeta)
  | ire {type : String} {r r' p p' : Content} (referent : Restyled r r')
    (proposition : Restyled p p') : Restyled (.ire type r p) (.ire type r' p')
  | list {xs ys : List Content} (elements : List.Forall₂ Restyled xs ys) :
    Restyled (.list xs) (.list ys)

theorem exists_restyled {xs ys : Slots Content} (hx : Slots.Distinct xs) (hy : Slots.Distinct ys)
    (h : ∀ name, Option.Rel (fun c d => c.same d = true ∧ Restyled c d) (Slots.get? name xs)
      (Slots.get? name ys)) :
    ∃ zs, xs.Perm zs ∧ List.Forall₂ (fun a b => sameName a.1 b.1 = true) zs ys ∧
      List.Forall₂ (fun a b => Restyled a.2 b.2) zs ys := by
  obtain ⟨zs, hperm, hall⟩ := Slots.exists_aligned hx hy h
  exact ⟨zs, hperm, hall.imp fun _ _ h => h.1, hall.imp fun _ _ h => h.2.2⟩

theorem restyled_of_same {c d : Content} (h : c.same d = true) (hc : c.Each false Keyed)
    (hd : d.Each false Keyed) : Restyled c d := by
  refine same_induction (M := Restyled) ?primitive ?slotted ?aggregate ?«open» ?ire ?list h hc hd
  case primitive => exact .primitive
  case slotted =>
    intro role type xs ys hx hy hrel
    obtain ⟨zs, hperm, hnames, hvalues⟩ := exists_restyled hx hy hrel
    exact .slotted hperm hnames hvalues
  case aggregate =>
    intro type xs ys template template' hall
    exact .aggregate template template' (hall.imp fun _ _ h => h.2)
  case «open» =>
    intro xs ys isMeta hx hy hrel
    obtain ⟨zs, hperm, hnames, hvalues⟩ := exists_restyled hx hy hrel
    exact .variable hperm hnames hvalues
  case ire =>
    intro type r r' p p' hr hp
    exact .ire hr.2 hp.2
  case list =>
    intro xs ys hall
    exact .list (hall.imp fun _ _ h => h.2)

theorem rel_get?_of_restyled {xs zs ys : Slots Content} (hx : Slots.Distinct xs)
    (hperm : xs.Perm zs) (hnames : List.Forall₂ (fun a b => sameName a.1 b.1 = true) zs ys)
    (hvalues : List.Forall₂ (fun a b => Restyled a.2 b.2) zs ys)
    (ih : ∀ a ∈ xs, ∀ b ∈ ys, Restyled a.2 b.2 → a.2.same b.2 = true) (name : String) :
    Option.Rel (fun c d => c.same d = true) (Slots.get? name xs) (Slots.get? name ys) := by
  rw [Slots.get?_perm hx hperm]
  have hall := forall₂_and_of_mem (forall₂_and hnames hvalues)
    (S := fun a b => a.2.same b.2 = true) fun a ha b hb h => ih a (hperm.mem_iff.2 ha) b hb h.2
  exact Slots.rel_get?_of_forall₂ (hall.imp fun _ _ h => ⟨h.1.1, h.2⟩) name

theorem same_of_restyled {c d : Content} (h : Restyled c d) (hc : c.Each false Keyed)
    (hd : d.Each false Keyed) : c.same d = true := by
  induction c using Content.induction generalizing d with
  | primitive p =>
    cases h
    exact same_primitive_iff.2 rfl
  | slotted role type xs ih =>
    cases h with
    | slotted hperm hnames hvalues =>
      refine same_slotted_of_rel hc.self hd.self
        (rel_get?_of_restyled hc.self hperm hnames hvalues ?_)
      intro a ha b hb hab
      exact ih a ha hab (hc.slot ha) (hd.slot hb)
  | aggregate type xs template ih _ =>
    cases h with
    | aggregate _ template' hall =>
      have hsame := forall₂_and_of_mem hall (S := fun c d => c.same d = true)
        fun a ha b hb hab => ih a ha hab (hc.element ha) (hd.element hb)
      exact same_aggregate_iff.2 ⟨rfl, hsame.imp fun _ _ h => h.2⟩
  | «variable» xs isMeta ih =>
    cases h with
    | «variable» hperm hnames hvalues =>
      refine same_variable_of_rel hc.self hd.self
        (rel_get?_of_restyled hc.self hperm hnames hvalues ?_)
      intro a ha b hb hab
      exact ih a ha hab (hc.variableSlot ha) (hd.variableSlot hb)
  | ire type r p ihr ihp =>
    cases h with
    | ire hr hp =>
      exact same_ire_iff.2 ⟨rfl, ihr hr hc.referent hd.referent,
        ihp hp hc.proposition hd.proposition⟩
  | list xs ih =>
    cases h with
    | list hall =>
      have hsame := forall₂_and_of_mem hall (S := fun c d => c.same d = true)
        fun a ha b hb hab => ih a ha hab (hc.item ha) (hd.item hb)
      exact same_list_iff.2 (hsame.imp fun _ _ h => h.2)

/-- Contents are equal just when they differ in style only. -/
theorem same_iff_restyled {c d : Content} (hc : c.Each false Keyed) (hd : d.Each false Keyed) :
    c.same d = true ↔ Restyled c d :=
  ⟨fun h => restyled_of_same h hc hd, fun h => same_of_restyled h hc hd⟩

end Content
end AgentContent
