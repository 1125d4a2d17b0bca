import AgentContent.Content.Equality
import Mathlib.Data.List.Forall2
import Mathlib.Data.List.Perm.Subperm

/-!
# AgentContent.Proofs.Content.Slots

Slots whose names are distinct, and what structural equality says about slots and elements.

* `Slots.Distinct`: no two entries have one name. Every insertion keeps it.
* `foldl_insert`: distinct entries that are inserted one after the other stay as they are.
* `Distinct.sublist`, `Distinct.of_names`: removals, and other values under the same names, keep it.
* `Slots.get?_perm`: the order of distinct entries does not matter when they are looked up.
* `sameSlots_iff`, `sameAll_iff`: equality of slots by name and of elements by place.
* `same_primitive_iff`, `same_slotted_iff`, ...: equality of two contents of one form.
-/

namespace AgentContent

/-! ## Lists -/

theorem exists_of_forall₂_left {α β : Type} {R : α → β → Prop} {xs : List α} {ys : List β}
    (h : List.Forall₂ R xs ys) {x : α} (hx : x ∈ xs) : ∃ y ∈ ys, R x y := by
  induction h with
  | nil => cases hx
  | @cons a b _ _ hab _ ih =>
    rcases List.mem_cons.1 hx with rfl | hx
    · exact ⟨b, List.mem_cons_self, hab⟩
    · obtain ⟨y, hy, hxy⟩ := ih hx
      exact ⟨y, List.mem_cons_of_mem _ hy, hxy⟩

theorem forall₂_imp_of_mem {α β : Type} {R S : α → β → Prop} {xs : List α} {ys : List β}
    (h : List.Forall₂ R xs ys) (hi : ∀ x, ∀ y ∈ ys, R x y → S x y) : List.Forall₂ S xs ys := by
  induction h with
  | nil => exact .nil
  | @cons a b _ _ hab _ ih =>
    exact .cons (hi a b List.mem_cons_self hab)
      (ih fun x y hy => hi x y (List.mem_cons_of_mem _ hy))

theorem map_eq_of_forall₂ {α β γ : Type} {f : α → γ} {g : β → γ} {xs : List α} {ys : List β}
    (h : List.Forall₂ (fun a b => f a = g b) xs ys) : xs.map f = ys.map g :=
  List.forall₂_eq_eq_eq ▸ List.forall₂_map_left_iff.2 (List.forall₂_map_right_iff.2 h)

/-- Different keys that are all among as many others are all of them. -/
theorem exists_of_keys {α β : Type} {f : α → String} {g : β → String} {xs : List α} {ys : List β}
    (hx : (xs.map f).Nodup) (hs : ∀ x ∈ xs, ∃ y ∈ ys, g y = f x) (hl : xs.length = ys.length)
    {y : β} (hy : y ∈ ys) : ∃ x ∈ xs, f x = g y := by
  have hsubset : xs.map f ⊆ ys.map g := by
    intro key hkey
    obtain ⟨x, hx, rfl⟩ := List.mem_map.1 hkey
    exact List.mem_map.2 (hs x hx)
  have hperm := (List.Nodup.subperm hx hsubset).perm_of_length_le (by simp [hl])
  exact List.mem_map.1 (hperm.mem_iff.2 (List.mem_map_of_mem hy))

theorem map_eq_self {α : Type} {f : α → α} {xs : List α} (h : ∀ x ∈ xs, f x = x) :
    xs.map f = xs :=
  (List.map_congr_left h).trans (List.map_id' xs)

theorem forall_mem_replace {α : Type} {P : α → Prop} {xs ys : List α} {a b : α}
    (hall : ∀ x ∈ xs ++ a :: ys, P x) (hb : P b) : ∀ x ∈ xs ++ b :: ys, P x := by
  rw [List.forall_mem_append, List.forall_mem_cons] at hall ⊢
  exact ⟨hall.1, hb, hall.2.2⟩

/-! ## Names -/

theorem sameName_congr_left {a b : String} (h : sameName a b = true) (c : String) :
    sameName a c = sameName b c := by
  rw [Bool.eq_iff_iff, sameName_iff, sameName_iff, sameName_iff.1 h]

theorem sameName_congr_right {a b : String} (h : sameName a b = true) (c : String) :
    sameName c a = sameName c b := by
  rw [Bool.eq_iff_iff, sameName_iff, sameName_iff, sameName_iff.1 h]

theorem sameName_eq_false_iff {a b : String} : sameName a b = false ↔ foldName a ≠ foldName b := by
  rw [← Bool.not_eq_true, sameName_iff]

namespace Slots

variable {α : Type}

/-- No two entries have one name. -/
def Distinct (slots : Slots α) : Prop :=
  (slots.map fun e => foldName e.1).Nodup

instance (slots : Slots α) : Decidable (Distinct slots) :=
  inferInstanceAs (Decidable (List.Nodup _))

theorem Distinct.nil : Distinct ([] : Slots α) :=
  List.nodup_nil

theorem distinct_cons {k : String} {v : α} {slots : Slots α} :
    Distinct ((k, v) :: slots) ↔ contains k slots = false ∧ Distinct slots := by
  simp only [Distinct, List.map_cons, List.nodup_cons, List.mem_map, not_exists, not_and, contains,
    List.any_eq_false, sameName_iff]

/-! ## Looking up -/

theorem get?_congr {a b : String} (h : sameName a b = true) (slots : Slots α) :
    get? a slots = get? b slots := by
  induction slots with
  | nil => rfl
  | cons e rest ih =>
    obtain ⟨k, v⟩ := e
    simp only [get?, sameName_congr_right h k, ih]

theorem contains_congr {a b : String} (h : sameName a b = true) (slots : Slots α) :
    contains a slots = contains b slots := by
  rw [contains_eq_isSome_get?, contains_eq_isSome_get?, get?_congr h]

theorem contains_of_mem {slots : Slots α} {e : String × α} (h : e ∈ slots) {name : String}
    (hs : sameName e.1 name = true) : contains name slots = true :=
  List.any_eq_true.2 ⟨e, h, hs⟩

theorem get?_of_mem {slots : Slots α} (hd : Distinct slots) {k name : String} {v : α}
    (hm : (k, v) ∈ slots) (hs : sameName k name = true) : get? name slots = some v := by
  induction slots with
  | nil => cases hm
  | cons e rest ih =>
    obtain ⟨k', v'⟩ := e
    obtain ⟨hfree, hrest⟩ := distinct_cons.1 hd
    rcases List.mem_cons.1 hm with he | hm
    · cases he
      simp only [get?, hs, if_true]
    · have hk : sameName k' name = false := by
        rw [Bool.eq_false_iff]
        intro hk
        have := contains_of_mem hm (sameName_trans hs (sameName_symm hk))
        rw [hfree] at this
        cases this
      simp only [get?, hk, Bool.false_eq_true, if_false]
      exact ih hrest hm

/-- A statement about all slots is one about all names, however they are spelled. -/
theorem forall_mem_iff_get? {slots : Slots α} (hd : Distinct slots) {P : String → α → Prop}
    (hp : ∀ a b v, sameName a b = true → (P a v ↔ P b v)) :
    (∀ e ∈ slots, P e.1 e.2) ↔ ∀ name v, get? name slots = some v → P name v := by
  constructor
  · intro h name v hget
    obtain ⟨k, hk, hm⟩ := mem_of_get? hget
    exact (hp k name v hk).1 (h (k, v) hm)
  · rintro h ⟨k, v⟩ hm
    exact h k v (get?_of_mem hd hm (sameName_refl k))

theorem exists_of_contains {name : String} {slots : Slots α} (h : contains name slots = true) :
    ∃ v, get? name slots = some v := by
  rw [contains_eq_isSome_get?] at h
  exact Option.isSome_iff_exists.1 h

/-! ## Inserting -/

theorem insert_of_not_contains {name : String} {slots : Slots α} (h : contains name slots = false)
    (v : α) : insert name v slots = slots ++ [(name, v)] := by
  induction slots with
  | nil => rfl
  | cons e rest ih =>
    obtain ⟨k, w⟩ := e
    simp only [contains, List.any_cons, Bool.or_eq_false_iff] at h
    simp only [insert, h.1, Bool.false_eq_true, if_false, List.cons_append]
    rw [ih h.2]

theorem insert_of_get? {name : String} {v : α} {slots : Slots α} (h : get? name slots = some v) :
    insert name v slots = slots := by
  induction slots with
  | nil => cases h
  | cons e rest ih =>
    obtain ⟨k, w⟩ := e
    rw [get?] at h
    rw [insert]
    split_ifs at h ⊢ with hk
    · cases h
      rfl
    · rw [ih h]

/-- Names stay where they are, and a new one comes last. -/
theorem names_insert (name : String) (v : α) (slots : Slots α) :
    slots.map (·.1) <+: (insert name v slots).map (·.1) := by
  induction slots with
  | nil => exact List.nil_prefix
  | cons e rest ih =>
    obtain ⟨k, w⟩ := e
    rw [insert]
    split_ifs
    · exact List.prefix_rfl
    · exact (List.prefix_cons_inj k).2 ih

theorem contains_insert (name other : String) (v : α) (slots : Slots α) :
    contains other (insert name v slots) = (contains other slots || sameName name other) := by
  induction slots with
  | nil => simp [contains, insert]
  | cons e rest ih =>
    obtain ⟨k, w⟩ := e
    simp only [contains, List.any_cons] at ih ⊢
    simp only [insert]
    split
    · rename_i hk
      simp only [List.any_cons, ← sameName_congr_left hk]
      cases sameName k other <;> simp
    · simp only [List.any_cons, ih, Bool.or_assoc]

theorem Distinct.insert {slots : Slots α} (h : Distinct slots) (name : String) (v : α) :
    Distinct (Slots.insert name v slots) := by
  induction slots with
  | nil => exact distinct_cons.2 ⟨rfl, .nil⟩
  | cons e rest ih =>
    obtain ⟨k, w⟩ := e
    obtain ⟨hfree, hrest⟩ := distinct_cons.1 h
    simp only [Slots.insert]
    split
    · exact distinct_cons.2 ⟨hfree, hrest⟩
    · rename_i hk
      refine distinct_cons.2 ⟨?_, ih hrest⟩
      rw [contains_insert, hfree, sameName_comm, Bool.false_or]
      exact Bool.eq_false_iff.2 hk

theorem mem_insert {slots : Slots α} {name k : String} {v w : α}
    (h : (k, w) ∈ insert name v slots) : (k, w) ∈ slots ∨ sameName k name = true ∧ w = v := by
  induction slots with
  | nil =>
    simp only [insert, List.mem_singleton, Prod.mk.injEq] at h
    obtain ⟨rfl, rfl⟩ := h
    exact .inr ⟨sameName_refl k, rfl⟩
  | cons e rest ih =>
    obtain ⟨k', w'⟩ := e
    simp only [insert] at h
    split at h
    · rename_i hk
      rcases List.mem_cons.1 h with he | h
      · cases he
        exact .inr ⟨hk, rfl⟩
      · exact .inl (List.mem_cons_of_mem _ h)
    · rcases List.mem_cons.1 h with he | h
      · cases he
        exact .inl List.mem_cons_self
      · rcases ih h with h | h
        · exact .inl (List.mem_cons_of_mem _ h)
        · exact .inr h

theorem not_contains_of_distinct {done rest : Slots α} {k : String} {v : α}
    (h : Distinct (done ++ (k, v) :: rest)) : contains k done = false := by
  simp only [Distinct, List.map_append, List.map_cons, List.nodup_append] at h
  simp only [contains, List.any_eq_false, sameName_iff]
  intro e he
  exact h.2.2 _ (List.mem_map.2 ⟨e, he, rfl⟩) _ List.mem_cons_self

theorem foldl_insert {done entries : Slots α} (h : Distinct (done ++ entries)) :
    entries.foldl (fun slots e => insert e.1 e.2 slots) done = done ++ entries := by
  induction entries generalizing done with
  | nil => simp
  | cons e rest ih =>
    obtain ⟨k, v⟩ := e
    have hfree : contains k done = false := not_contains_of_distinct h
    have hd : Distinct ((done ++ [(k, v)]) ++ rest) := by simpa using h
    rw [List.foldl_cons, insert_of_not_contains hfree, ih hd]
    simp

theorem ofList_of_distinct {entries : Slots α} (h : Distinct entries) : ofList entries = entries :=
  foldl_insert h

/-- What holds of no slots and is kept by every insertion holds of slots made from a list. -/
theorem ofList_induction {P : Slots α → Prop} (hnil : P []) {entries : List (String × α)}
    (hinsert : ∀ e ∈ entries, ∀ slots, P slots → P (insert e.1 e.2 slots)) :
    P (ofList entries) := by
  rw [ofList]
  generalize [] = slots at hnil ⊢
  induction entries generalizing slots with
  | nil => exact hnil
  | cons e rest ih =>
    exact ih (fun e he => hinsert e (List.mem_cons_of_mem _ he)) _
      (hinsert e List.mem_cons_self slots hnil)

theorem Distinct.ofList (entries : List (String × α)) : Distinct (Slots.ofList entries) :=
  ofList_induction .nil fun e _ _ h => h.insert e.1 e.2

/-! ## Other changes -/

theorem remove_sublist (name : String) (slots : Slots α) : (remove name slots).Sublist slots := by
  induction slots with
  | nil => exact .slnil
  | cons e rest ih =>
    obtain ⟨k, v⟩ := e
    rw [remove]
    split
    · exact List.sublist_cons_self _ _
    · exact ih.cons_cons _

theorem remove_of_not_contains {name : String} {slots : Slots α}
    (h : contains name slots = false) : remove name slots = slots := by
  induction slots with
  | nil => rfl
  | cons e rest ih =>
    obtain ⟨k, v⟩ := e
    simp only [contains, List.any_cons, Bool.or_eq_false_iff] at h
    rw [remove, if_neg (Bool.eq_false_iff.1 h.1), ih h.2]

/-! Names that only the later one of two parts has. -/

theorem get?_append {name : String} {done : Slots α} (h : contains name done = false)
    (slots : Slots α) : get? name (done ++ slots) = get? name slots := by
  induction done with
  | nil => rfl
  | cons e done ih =>
    obtain ⟨k, v⟩ := e
    simp only [contains, List.any_cons, Bool.or_eq_false_iff] at h
    rw [List.cons_append, get?, if_neg (Bool.eq_false_iff.1 h.1), ih h.2]

theorem insert_append {name : String} {done : Slots α} (h : contains name done = false) (v : α)
    (slots : Slots α) : insert name v (done ++ slots) = done ++ insert name v slots := by
  induction done with
  | nil => rfl
  | cons e done ih =>
    obtain ⟨k, w⟩ := e
    simp only [contains, List.any_cons, Bool.or_eq_false_iff] at h
    rw [List.cons_append, insert, if_neg (Bool.eq_false_iff.1 h.1), ih h.2, List.cons_append]

theorem remove_append {name : String} {done : Slots α} (h : contains name done = false)
    (slots : Slots α) : remove name (done ++ slots) = done ++ remove name slots := by
  induction done with
  | nil => rfl
  | cons e done ih =>
    obtain ⟨k, v⟩ := e
    simp only [contains, List.any_cons, Bool.or_eq_false_iff] at h
    rw [List.cons_append, remove, if_neg (Bool.eq_false_iff.1 h.1), ih h.2, List.cons_append]

theorem retain_sublist (keep : String → α → Bool) (slots : Slots α) :
    (retain keep slots).Sublist slots :=
  List.filter_sublist

theorem Distinct.sublist {xs ys : Slots α} (h : Distinct ys) (hs : xs.Sublist ys) : Distinct xs :=
  List.Nodup.sublist (hs.map _) h

theorem Distinct.perm {xs ys : Slots α} (h : Distinct xs) (hp : xs.Perm ys) : Distinct ys :=
  (hp.map _).nodup_iff.1 h

theorem get?_perm {xs ys : Slots α} (h : Distinct xs) (hp : xs.Perm ys) (name : String) :
    get? name xs = get? name ys := by
  cases hx : get? name xs with
  | some v =>
    obtain ⟨k, hk, hmem⟩ := mem_of_get? hx
    exact (get?_of_mem (h.perm hp) (hp.mem_iff.1 hmem) hk).symm
  | none =>
    cases hy : get? name ys with
    | none => rfl
    | some v =>
      obtain ⟨k, hk, hmem⟩ := mem_of_get? hy
      rw [get?_of_mem h (hp.mem_iff.2 hmem) hk] at hx
      cases hx

theorem get?_replace_of_same {a b : String} (h : sameName a b = true) {slots : Slots α}
    (hc : contains a slots = true) (v : α) : get? b (replace a v slots) = some v := by
  rw [← get?_congr h, replace, if_pos hc, get?_insert_self]

theorem get?_replace_of_ne {a b : String} (h : sameName a b = false) (slots : Slots α) (v : α) :
    get? b (replace a v slots) = get? b slots := by
  rw [replace]
  split
  · exact get?_insert_of_ne v slots h
  · rfl

/-- Other values under the same names. -/
theorem Distinct.of_names {β : Type} {xs : Slots α} {ys : Slots β} (h : Distinct xs)
    (hn : ys.map (·.1) = xs.map (·.1)) : Distinct ys := by
  have hnames : (ys.map fun e => foldName e.1) = xs.map fun e => foldName e.1 := by
    simpa only [List.map_map, Function.comp_def] using congrArg (List.map foldName) hn
  rw [Distinct, hnames]
  exact h

theorem get?_map {β : Type} (f : α → β) (name : String) (slots : Slots α) :
    get? name (slots.map fun e => (e.1, f e.2)) = (get? name slots).map f := by
  induction slots with
  | nil => rfl
  | cons e rest ih =>
    obtain ⟨k, v⟩ := e
    simp only [List.map_cons, get?, ih]
    split <;> rfl

theorem Distinct.map {β : Type} {slots : Slots α} (h : Distinct slots) (f : α → β) :
    Distinct (slots.map fun e => (e.1, f e.2)) :=
  h.of_names (by simp)

end Slots

/-! ## Structural equality -/

namespace Content

theorem sameAll_iff {xs ys : List Content} :
    sameAll xs ys = true ↔ List.Forall₂ (fun c d => c.same d = true) xs ys := by
  induction xs generalizing ys with
  | nil => cases ys <;> simp [sameAll]
  | cons c xs ih =>
    cases ys with
    | nil => simp [sameAll]
    | cons d ys => simp [sameAll, ih]

theorem sameSlots_iff {xs ys : List (String × Content)} :
    sameSlots xs ys = true ↔
      ∀ e ∈ xs, ∃ d, Slots.get? e.1 ys = some d ∧ e.2.same d = true := by
  induction xs with
  | nil => simp [sameSlots]
  | cons e xs ih =>
    obtain ⟨k, c⟩ := e
    simp only [sameSlots, Bool.and_eq_true, ih, List.forall_mem_cons]
    cases h : Slots.get? k ys with
    | none => simp
    | some d => simp

theorem same_primitive_iff {p q : Primitive} :
    (primitive p).same (primitive q) = true ↔ p = q :=
  decide_eq_true_iff

theorem same_slotted_iff {role role' : Role} {type type' : String} {xs ys : Slots Content} :
    (slotted role type xs).same (slotted role' type' ys) = true ↔
      role = role' ∧ type = type' ∧ xs.length = ys.length ∧ sameSlots xs ys = true := by
  change (decide (role = role') && decide (type = type') && decide (xs.length = ys.length) &&
    sameSlots xs ys) = true ↔ _
  simp only [Bool.and_eq_true, decide_eq_true_eq, and_assoc]

theorem same_aggregate_iff {type type' : String} {xs ys : List Content}
    {template template' : Option Content} :
    (aggregate type xs template).same (aggregate type' ys template') = true ↔
      type = type' ∧ List.Forall₂ (fun c d => c.same d = true) xs ys := by
  change (decide (type = type') && sameAll xs ys) = true ↔ _
  rw [Bool.and_eq_true, decide_eq_true_eq, sameAll_iff]

theorem same_variable_iff {xs ys : Slots Content} {isMeta isMeta' : Bool} :
    (Content.variable xs isMeta).same (Content.variable ys isMeta') = true ↔
      xs.length = ys.length ∧ sameSlots xs ys = true ∧ isMeta = isMeta' := by
  change (decide (xs.length = ys.length) && sameSlots xs ys && decide (isMeta = isMeta')) = true ↔ _
  simp only [Bool.and_eq_true, decide_eq_true_eq, and_assoc]

theorem same_ire_iff {type type' : String} {r p r' p' : Content} :
    (ire type r p).same (ire type' r' p') = true ↔
      type = type' ∧ r.same r' = true ∧ p.same p' = true := by
  change (decide (type = type') && r.same r' && p.same p') = true ↔ _
  simp only [Bool.and_eq_true, decide_eq_true_eq, and_assoc]

theorem same_list_iff {xs ys : List Content} :
    (list xs).same (list ys) = true ↔ List.Forall₂ (fun c d => c.same d = true) xs ys :=
  sameAll_iff

end Content

end AgentContent
