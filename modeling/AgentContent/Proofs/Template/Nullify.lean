import AgentContent.Proofs.Content.Equivalence
import AgentContent.Proofs.Content.Json
import AgentContent.Template.Edit

/-!
# AgentContent.Proofs.Template.Nullify

Content without its variables: what goes away, what stays, and that nothing goes away when it is
done again.

* `Content.surface`: the nodes of a content outside of identifying expressions.
* `Content.Vanishes`: the content that goes away.
* `Content.Thinned`: a content with some of its slots and elements, in their order.
* `Content.Nullified`: what is left of a content.
* `Content.nullify_projects`: when nothing is left, what is left otherwise, and when all of it is.
* `Content.nullifyInPlace_eq`: the slots of a node may be edited one after the other.
-/

namespace AgentContent
namespace Content

variable {dropEmpty templates : Bool} {c d v w : Content}

/-! ## Lists -/

theorem forall₂_filterMap {α β : Type} {R : α → β → Prop} {f : α → Option β} {xs : List α}
    (h : ∀ x ∈ xs, ∀ y, f x = some y → R x y) :
    List.Forall₂ R (xs.filter fun x => (f x).isSome) (xs.filterMap f) := by
  induction xs with
  | nil => exact .nil
  | cons x xs ih =>
    obtain ⟨hx, hxs⟩ := List.forall_mem_cons.1 h
    cases hfx : f x with
    | none => simpa [hfx] using ih hxs
    | some y => simpa [hfx] using ⟨hx y hfx, ih hxs⟩

theorem filterMap_eq_self {α : Type} {f : α → Option α} {xs : List α}
    (h : ∀ x ∈ xs, f x = some x) : xs.filterMap f = xs :=
  (List.filterMap_congr h).trans List.filterMap_some

theorem flatMap_filterMap {α β γ : Type} (f : α → Option β) (g : β → List γ) (xs : List α) :
    (xs.filterMap f).flatMap g = xs.flatMap fun x => (f x).elim [] g := by
  induction xs with
  | nil => rfl
  | cons x xs ih => cases hfx : f x <;> simp [hfx, ih]

/-! ## Nodes outside of identifying expressions -/

mutual
/-- The nodes outside of identifying expressions, which count themselves, the templates of aggregates
only when they are asked for. A variable has its name and its type, but no parts. -/
def surface (templates : Bool) : Content → List Content
  | .primitive p => [.primitive p]
  | .slotted role type slots => .slotted role type slots :: surfaceSlots templates slots
  | .aggregate type elements none => .aggregate type elements none :: surfaceAll templates elements
  | .aggregate type elements (some t) =>
    .aggregate type elements (some t) ::
      (surfaceAll templates elements ++ if templates then t.surface templates else [])
  | .variable slots isMeta => [.variable slots isMeta]
  | .ire type referent proposition => [.ire type referent proposition]
  | .list elements => .list elements :: surfaceAll templates elements

def surfaceAll (templates : Bool) : List Content → List Content
  | [] => []
  | c :: cs => c.surface templates ++ surfaceAll templates cs

def surfaceSlots (templates : Bool) : List (String × Content) → List Content
  | [] => []
  | (_, c) :: slots => c.surface templates ++ surfaceSlots templates slots
end

theorem surfaceAll_eq (cs : List Content) :
    surfaceAll templates cs = cs.flatMap (surface templates) := by
  induction cs with
  | nil => rfl
  | cons c cs ih => rw [surfaceAll, ih, List.flatMap_cons]

theorem surfaceSlots_eq (slots : Slots Content) :
    surfaceSlots templates slots = slots.flatMap fun e => e.2.surface templates := by
  induction slots with
  | nil => rfl
  | cons e slots ih =>
    obtain ⟨k, c⟩ := e
    rw [surfaceSlots, ih, List.flatMap_cons]

def isIre : Content → Bool
  | .ire _ _ _ => true
  | _ => false

def isEmptyAggregate : Content → Bool
  | .aggregate _ elements _ => elements.isEmpty
  | _ => false

/-- The outermost identifying expressions, those of templates apart. -/
def ires (c : Content) : List Content :=
  (c.surface false).filter isIre

theorem ires_slotted (role : Role) (type : String) (slots : Slots Content) :
    (slotted role type slots).ires = slots.flatMap fun e => e.2.ires := by
  rw [ires, surface, surfaceSlots_eq, List.filter_cons_of_neg Bool.false_ne_true,
    List.filter_flatMap]
  rfl

theorem ires_aggregate (type : String) (elements : List Content) (template : Option Content) :
    (aggregate type elements template).ires = elements.flatMap ires := by
  have hsurface : (aggregate type elements template).surface false =
      aggregate type elements template :: elements.flatMap (surface false) := by
    cases template <;> simp [surface, surfaceAll_eq]
  rw [ires, hsurface, List.filter_cons_of_neg Bool.false_ne_true, List.filter_flatMap]
  rfl

theorem ires_list (elements : List Content) : (list elements).ires = elements.flatMap ires := by
  rw [ires, surface, surfaceAll_eq, List.filter_cons_of_neg Bool.false_ne_true,
    List.filter_flatMap]
  rfl

/-! ## What goes away -/

theorem nullifyAll_eq (cs : List Content) :
    nullifyAll dropEmpty cs = cs.filterMap (nullify dropEmpty) := by
  induction cs with
  | nil => rfl
  | cons c cs ih =>
    rw [nullifyAll, List.filterMap_cons, ih]
    cases c.nullify dropEmpty <;> rfl

/-- What is left of an entry of slots. -/
def nullifyEntry (dropEmpty : Bool) (e : String × Content) : Option (String × Content) :=
  (e.2.nullify dropEmpty).map (Prod.mk e.1)

theorem nullifySlots_eq (slots : Slots Content) :
    nullifySlots dropEmpty slots = slots.filterMap (nullifyEntry dropEmpty) := by
  induction slots with
  | nil => rfl
  | cons e slots ih =>
    obtain ⟨k, c⟩ := e
    rw [nullifySlots, List.filterMap_cons, nullifyEntry, ih]
    cases c.nullify dropEmpty <;> rfl

theorem nullifyEntry_eq_some {e e' : String × Content}
    (h : nullifyEntry dropEmpty e = some e') :
    e.1 = e'.1 ∧ e.2.nullify dropEmpty = some e'.2 := by
  obtain ⟨c, hc, rfl⟩ := Option.map_eq_some_iff.1 h
  exact ⟨rfl, hc⟩

/-- A variable, or an aggregate all of whose elements go away, if that is asked for. -/
inductive Vanishes (dropEmpty : Bool) : Content → Prop where
  | variable (slots : Slots Content) (isMeta : Bool) :
    Vanishes dropEmpty (.variable slots isMeta)
  | aggregate {type : String} {elements : List Content} {template : Option Content}
    (hdrop : dropEmpty = true) (h : ∀ c ∈ elements, Vanishes dropEmpty c) :
    Vanishes dropEmpty (.aggregate type elements template)

theorem nullify_aggregate_eq_none_iff {type : String} {elements : List Content}
    {template : Option Content} :
    (aggregate type elements template).nullify dropEmpty = none ↔
      dropEmpty = true ∧ ∀ c ∈ elements, c.nullify dropEmpty = none := by
  simp [nullify, nullifyAll_eq]

theorem nullify_aggregate_eq_some {type : String} {elements : List Content}
    {template : Option Content} (h : (aggregate type elements template).nullify dropEmpty = some w) :
    w = .aggregate type (elements.filterMap (nullify dropEmpty)) none ∧
      (dropEmpty = true → elements.filterMap (nullify dropEmpty) ≠ []) := by
  rw [nullify, nullifyAll_eq] at h
  split_ifs at h with hempty
  cases h
  refine ⟨rfl, fun hdrop hnil => hempty ?_⟩
  rw [hnil, hdrop]
  rfl

theorem nullify_eq_none_iff : c.nullify dropEmpty = none ↔ Vanishes dropEmpty c := by
  induction c using Content.induction with
  | aggregate type elements template ih _ =>
    rw [nullify_aggregate_eq_none_iff]
    constructor
    · rintro ⟨hdrop, h⟩
      exact .aggregate hdrop fun c hc => (ih c hc).1 (h c hc)
    · rintro (_ | ⟨hdrop, h⟩)
      exact ⟨hdrop, fun c hc => (ih c hc).2 (h c hc)⟩
  | «variable» slots isMeta _ => exact ⟨fun _ => .variable slots isMeta, fun _ => rfl⟩
  | _ => exact ⟨nofun, nofun⟩

/-! ## What is left -/

section Induction

variable {M : Content → Content → Prop}
  (primitive : ∀ p, M (.primitive p) (.primitive p))
  (slotted : ∀ role type slots,
    (∀ e ∈ slots, ∀ c, e.2.nullify dropEmpty = some c → M e.2 c) →
    M (.slotted role type slots)
      (.slotted role type (slots.filterMap (nullifyEntry dropEmpty))))
  (aggregate : ∀ type elements template,
    (∀ c ∈ elements, ∀ d, c.nullify dropEmpty = some d → M c d) →
    (dropEmpty = true → elements.filterMap (nullify dropEmpty) ≠ []) →
    M (.aggregate type elements template)
      (.aggregate type (elements.filterMap (nullify dropEmpty)) none))
  (ire : ∀ type referent proposition,
    M (.ire type referent proposition) (.ire type referent proposition))
  (list : ∀ elements, (∀ c ∈ elements, ∀ d, c.nullify dropEmpty = some d → M c d) →
    M (.list elements) (.list (elements.filterMap (nullify dropEmpty))))

include primitive slotted aggregate ire list

/-- What holds of a content and what is left of it when it does of its parts that are left. -/
theorem nullify_induction (h : v.nullify dropEmpty = some w) : M v w := by
  induction v using Content.induction generalizing w with
  | primitive p =>
    cases h
    exact primitive p
  | slotted role type slots ih =>
    rw [nullify, nullifySlots_eq] at h
    cases h
    exact slotted role type slots fun e he c hc => ih e he hc
  | aggregate type elements template ih _ =>
    obtain ⟨rfl, hfull⟩ := nullify_aggregate_eq_some h
    exact aggregate type elements template (fun c hc d hd => ih c hc hd) hfull
  | «variable» slots isMeta _ => cases h
  | ire type referent proposition _ _ =>
    cases h
    exact ire type referent proposition
  | list elements ih =>
    rw [nullify, nullifyAll_eq] at h
    cases h
    exact list elements fun c hc d hd => ih c hc hd

end Induction

/-- The content with those slots and elements that are kept, one by one thinned themselves, and
without templates. Primitives and identifying expressions are as they were. -/
inductive Thinned (keep : Content → Bool) : Content → Content → Prop where
  | primitive (p : Primitive) : Thinned keep (.primitive p) (.primitive p)
  | slotted {role : Role} {type : String} {xs ys : Slots Content}
    (names : List.Forall₂ (fun a b => a.1 = b.1) (xs.filter fun e => keep e.2) ys)
    (values : List.Forall₂ (fun a b => Thinned keep a.2 b.2) (xs.filter fun e => keep e.2) ys) :
    Thinned keep (.slotted role type xs) (.slotted role type ys)
  | aggregate {type : String} {xs ys : List Content} (template : Option Content)
    (elements : List.Forall₂ (Thinned keep) (xs.filter keep) ys) :
    Thinned keep (.aggregate type xs template) (.aggregate type ys none)
  | ire (type : String) (referent proposition : Content) :
    Thinned keep (.ire type referent proposition) (.ire type referent proposition)
  | list {xs ys : List Content} (elements : List.Forall₂ (Thinned keep) (xs.filter keep) ys) :
    Thinned keep (.list xs) (.list ys)

theorem thinned_of_nullify (h : v.nullify dropEmpty = some w) :
    Thinned (fun c => (c.nullify dropEmpty).isSome) v w := by
  refine nullify_induction .primitive ?slotted ?aggregate .ire ?list h
  case slotted =>
    intro role type slots ih
    have hentries : List.Forall₂ (fun a b => a.1 = b.1 ∧
        Thinned (fun c => (c.nullify dropEmpty).isSome) a.2 b.2)
        (slots.filter fun e => (nullifyEntry dropEmpty e).isSome)
        (slots.filterMap (nullifyEntry dropEmpty)) := by
      refine forall₂_filterMap fun e he e' h => ?_
      obtain ⟨hname, hvalue⟩ := nullifyEntry_eq_some h
      exact ⟨hname, ih e he e'.2 hvalue⟩
    simp only [nullifyEntry, Option.isSome_map] at hentries
    exact .slotted (hentries.imp fun _ _ h => h.1) (hentries.imp fun _ _ h => h.2)
  case aggregate =>
    intro type elements template ih _
    exact .aggregate template (forall₂_filterMap ih)
  case list =>
    intro elements ih
    exact .list (forall₂_filterMap ih)

/-- The node is no variable and, where aggregates go away, no aggregate without elements. -/
def Stays (dropEmpty : Bool) (d : Content) : Prop :=
  d.isVariable = false ∧ (dropEmpty = true → d.isEmptyAggregate = false)

theorem stays_of_nullify (h : v.nullify dropEmpty = some w) :
    ∀ d ∈ w.surface true, d.Stays dropEmpty := by
  have hall : ∀ cs : List Content, (∀ c ∈ cs, ∀ w, c.nullify dropEmpty = some w →
      ∀ d ∈ w.surface true, d.Stays dropEmpty) →
      ∀ d ∈ surfaceAll true (cs.filterMap (nullify dropEmpty)), d.Stays dropEmpty := by
    intro cs ih d hd
    rw [surfaceAll_eq] at hd
    obtain ⟨c', hc', hd⟩ := List.mem_flatMap.1 hd
    obtain ⟨c, hc, hcc'⟩ := List.mem_filterMap.1 hc'
    exact ih c hc c' hcc' d hd
  refine nullify_induction (M := fun _ w => ∀ d ∈ w.surface true, d.Stays dropEmpty)
    ?primitive ?slotted ?aggregate ?ire ?list h
  case primitive => exact fun p => List.forall_mem_singleton.2 ⟨rfl, fun _ => rfl⟩
  case slotted =>
    intro role type slots ih
    rw [surface, surfaceSlots_eq]
    refine List.forall_mem_cons.2 ⟨⟨rfl, fun _ => rfl⟩, fun d hd => ?_⟩
    obtain ⟨e', he', hd⟩ := List.mem_flatMap.1 hd
    obtain ⟨e, he, hee'⟩ := List.mem_filterMap.1 he'
    exact ih e he e'.2 (nullifyEntry_eq_some hee').2 d hd
  case aggregate =>
    intro type elements template ih hfull
    refine List.forall_mem_cons.2 ⟨⟨rfl, fun hdrop => ?_⟩, hall elements ih⟩
    rw [isEmptyAggregate, ← Bool.not_eq_true, List.isEmpty_iff]
    exact hfull hdrop
  case ire => exact fun _ _ _ => List.forall_mem_singleton.2 ⟨rfl, fun _ => rfl⟩
  case list =>
    intro elements ih
    exact List.forall_mem_cons.2 ⟨⟨rfl, fun _ => rfl⟩, hall elements ih⟩

theorem nullify_of_nullify (h : v.nullify dropEmpty = some w) :
    w.nullify dropEmpty = some w := by
  have hall : ∀ cs : List Content, (∀ c ∈ cs, ∀ d, c.nullify dropEmpty = some d →
      d.nullify dropEmpty = some d) →
      (cs.filterMap (nullify dropEmpty)).filterMap (nullify dropEmpty) =
        cs.filterMap (nullify dropEmpty) := by
    intro cs ih
    refine filterMap_eq_self fun d hd => ?_
    obtain ⟨c, hc, hcd⟩ := List.mem_filterMap.1 hd
    exact ih c hc d hcd
  refine nullify_induction (M := fun _ w => w.nullify dropEmpty = some w)
    (fun _ => rfl) ?slotted ?aggregate (fun _ _ _ => rfl) ?list h
  case slotted =>
    intro role type slots ih
    rw [nullify, nullifySlots_eq, filterMap_eq_self fun e' he' => ?_]
    obtain ⟨e, he, hee'⟩ := List.mem_filterMap.1 he'
    rw [nullifyEntry, ih e he e'.2 (nullifyEntry_eq_some hee').2]
    rfl
  case aggregate =>
    intro type elements template ih hfull
    rw [nullify, nullifyAll_eq, hall elements ih]
    refine if_neg fun hempty => ?_
    obtain ⟨hdrop, hnil⟩ := Bool.and_eq_true_iff.1 hempty
    exact hfull hdrop (List.isEmpty_iff.1 hnil)
  case list =>
    intro elements ih
    rw [nullify, nullifyAll_eq, hall elements ih]

/-! ## Identifying expressions -/

theorem Vanishes.ires_eq_nil (h : Vanishes dropEmpty c) : c.ires = [] := by
  induction h with
  | «variable» => rfl
  | aggregate _ _ ih =>
    rw [ires_aggregate, List.flatMap_eq_nil_iff]
    exact ih

/-- No identifying expression goes away, none is changed, and they stay in their order. -/
theorem ires_of_nullify (h : v.nullify dropEmpty = some w) : w.ires = v.ires := by
  have hpart : ∀ c : Content, (∀ d, c.nullify dropEmpty = some d → d.ires = c.ires) →
      (c.nullify dropEmpty).elim [] ires = c.ires := by
    intro c ih
    cases hc : c.nullify dropEmpty with
    | none => exact (nullify_eq_none_iff.1 hc).ires_eq_nil.symm
    | some d => exact ih d hc
  have hall : ∀ cs : List Content, (∀ c ∈ cs, ∀ d, c.nullify dropEmpty = some d →
      d.ires = c.ires) → (cs.filterMap (nullify dropEmpty)).flatMap ires = cs.flatMap ires := by
    intro cs ih
    rw [flatMap_filterMap]
    exact List.flatMap_congr fun c hc => hpart c (ih c hc)
  refine nullify_induction (M := fun v w => w.ires = v.ires)
    (fun _ => rfl) ?slotted ?aggregate (fun _ _ _ => rfl) ?list h
  case slotted =>
    intro role type slots ih
    rw [ires_slotted, ires_slotted, flatMap_filterMap]
    refine List.flatMap_congr fun e he => ?_
    rw [← hpart e.2 (ih e he), nullifyEntry, Option.elim_map]
    rfl
  case aggregate =>
    intro type elements template ih _
    rw [ires_aggregate, ires_aggregate, hall elements ih]
  case list =>
    intro elements ih
    rw [ires_list, ires_list, hall elements ih]

/-- All identifying expressions are among the outermost ones and their nodes, if variables hold
texts. -/
theorem exists_ires_of_mem_nodes (hc : c.Each false StringVariable) (hd : d ∈ c.nodes false)
    (hire : d.isIre = true) : ∃ i ∈ c.ires, d ∈ i.nodes false := by
  have hself : ∀ c : Content, c.isIre = false → d ≠ c := by
    rintro c hc rfl
    exact Bool.false_ne_true (hc.symm.trans hire)
  have hall : ∀ cs : List Content, (∀ c ∈ cs, d ∈ c.nodes false →
      ∃ i ∈ c.ires, d ∈ i.nodes false) → d ∈ cs.flatMap (nodes false) →
      ∃ i ∈ cs.flatMap ires, d ∈ i.nodes false := by
    intro cs ih hd
    obtain ⟨c, hc, hd⟩ := List.mem_flatMap.1 hd
    obtain ⟨i, hi, hdi⟩ := ih c hc hd
    exact ⟨i, List.mem_flatMap.2 ⟨c, hc, hi⟩, hdi⟩
  induction c using Content.induction with
  | primitive p => exact absurd (List.mem_singleton.1 hd) (hself _ rfl)
  | slotted role type slots ih =>
    rw [nodes_slotted] at hd
    rcases List.mem_cons.1 hd with hd | hd
    · exact absurd hd (hself _ rfl)
    · obtain ⟨e, he, hd⟩ := List.mem_flatMap.1 hd
      obtain ⟨i, hi, hdi⟩ := ih e he (hc.slot he) hd
      rw [ires_slotted]
      exact ⟨i, List.mem_flatMap.2 ⟨e, he, hi⟩, hdi⟩
  | aggregate type elements template ih _ =>
    rw [nodes_aggregate, if_neg Bool.false_ne_true, List.append_nil] at hd
    rcases List.mem_cons.1 hd with hd | hd
    · exact absurd hd (hself _ rfl)
    · rw [ires_aggregate]
      exact hall elements (fun c hmem h => ih c hmem (hc.element hmem) h) hd
  | «variable» slots isMeta _ =>
    rw [nodes_variable] at hd
    rcases List.mem_cons.1 hd with hd | hd
    · exact absurd hd (hself _ rfl)
    · obtain ⟨e, he, hd⟩ := List.mem_flatMap.1 hd
      have htext : e.2.string?.isSome = true := hc.self e he
      unfold string? at htext
      split at htext
      · rename_i text heq
        rw [heq] at hd
        exact absurd (List.mem_singleton.1 hd) (hself _ rfl)
      · cases htext
  | ire type referent proposition _ _ => exact ⟨_, List.mem_singleton_self _, hd⟩
  | list elements ih =>
    rw [nodes_list] at hd
    rcases List.mem_cons.1 hd with hd | hd
    · exact absurd hd (hself _ rfl)
    · rw [ires_list]
      exact hall elements (fun c hmem h => ih c hmem (hc.item hmem) h) hd

/-! ## Content without variables -/

theorem forall₂_filterMap_of_exists {α β : Type} {R : α → β → Prop} {f : α → Option β}
    {xs : List α} (h : ∀ x ∈ xs, ∃ y, f x = some y ∧ R x y) :
    List.Forall₂ R xs (xs.filterMap f) := by
  induction xs with
  | nil => exact .nil
  | cons x xs ih =>
    obtain ⟨⟨y, hy, hR⟩, hxs⟩ := List.forall_mem_cons.1 h
    rw [List.filterMap_cons, hy]
    exact .cons hR (ih hxs)

/-- Where aggregates stay, content without variables stays as a whole, but for templates. -/
theorem exists_same_of_nullify (hv : ∀ d ∈ v.surface false, d.isVariable = false)
    (hk : v.Each false Keyed) : ∃ w, v.nullify false = some w ∧ v.same w = true := by
  have hall : ∀ cs : List Content, (∀ c ∈ cs, ∃ w, c.nullify false = some w ∧ c.same w = true) →
      List.Forall₂ (fun c d => c.same d = true) cs (cs.filterMap (nullify false)) := fun cs h =>
    forall₂_filterMap_of_exists h
  have hparts : ∀ cs : List Content, (∀ d ∈ surfaceAll false cs, d.isVariable = false) →
      ∀ c ∈ cs, ∀ d ∈ c.surface false, d.isVariable = false := by
    intro cs h c hc d hd
    rw [surfaceAll_eq] at h
    exact h d (List.mem_flatMap.2 ⟨c, hc, hd⟩)
  induction v using Content.induction with
  | primitive p => exact ⟨_, rfl, same_primitive_iff.2 rfl⟩
  | slotted role type slots ih =>
    have hentries : List.Forall₂ (fun a b => a.1 = b.1 ∧ a.2.same b.2 = true) slots
        (slots.filterMap (nullifyEntry false)) := by
      refine forall₂_filterMap_of_exists fun e he => ?_
      have hparts : ∀ d ∈ e.2.surface false, d.isVariable = false := by
        rw [surface, surfaceSlots_eq] at hv
        exact fun d hd => hv d (List.mem_cons_of_mem _ (List.mem_flatMap.2 ⟨e, he, hd⟩))
      obtain ⟨w, hw, hsame⟩ := ih e he hparts (hk.slot he)
      exact ⟨(e.1, w), by rw [nullifyEntry, hw]; rfl, rfl, hsame⟩
    have hnames : (slots.filterMap (nullifyEntry false)).map (·.1) = slots.map (·.1) :=
      (map_eq_of_forall₂ (hentries.imp fun _ _ h => h.1)).symm
    refine ⟨_, rfl, ?_⟩
    rw [nullifySlots_eq]
    refine same_slotted_of_rel hk.self (hk.self.of_names hnames) (Slots.rel_get?_of_forall₂ ?_)
    exact hentries.imp fun a b h => ⟨sameName_iff.2 (congrArg foldName h.1), h.2⟩
  | aggregate type elements template ih _ =>
    have hv : ∀ d ∈ surfaceAll false elements, d.isVariable = false := by
      cases template <;> exact fun d hd => hv d (List.mem_cons_of_mem _ (by simpa using hd))
    refine ⟨_, rfl, ?_⟩
    have hsame := hall elements fun c hc => ih c hc (hparts elements hv c hc) (hk.element hc)
    rw [nullifyAll_eq]
    exact same_aggregate_iff.2 ⟨rfl, hsame⟩
  | «variable» slots isMeta _ => cases hv _ List.mem_cons_self
  | ire type referent proposition _ _ => exact ⟨_, rfl, same_refl hk⟩
  | list elements ih =>
    have hv : ∀ d ∈ surfaceAll false elements, d.isVariable = false := fun d hd =>
      hv d (List.mem_cons_of_mem _ hd)
    refine ⟨_, rfl, ?_⟩
    rw [nullifyAll_eq]
    refine same_list_iff.2 ?_
    exact hall elements fun c hc => ih c hc (hparts elements hv c hc) (hk.item hc)

/-! ## Whole contents -/

instance : DecidablePred (Vanishes dropEmpty) := fun c =>
  decidable_of_iff ((c.nullify dropEmpty).isNone = true)
    (Option.isNone_iff_eq_none.trans nullify_eq_none_iff)

theorem isSome_nullify (c : Content) :
    (c.nullify dropEmpty).isSome = !decide (Vanishes dropEmpty c) := by
  cases h : c.nullify dropEmpty with
  | none => simp [nullify_eq_none_iff.1 h]
  | some d =>
    have hstays : ¬ Vanishes dropEmpty c := by
      rw [← nullify_eq_none_iff, h]
      exact nofun
    simp [hstays]

/-- What is left of a content. -/
structure Nullified (dropEmpty : Bool) (v w : Content) : Prop where
  stays : ∀ d ∈ w.surface true, d.Stays dropEmpty
  ires : w.ires = v.ires
  fixed : w.nullify dropEmpty = some w
  thinned : Thinned (fun c => !decide (Vanishes dropEmpty c)) v w

theorem nullified_of_nullify (h : v.nullify dropEmpty = some w) : Nullified dropEmpty v w := by
  refine ⟨stays_of_nullify h, ires_of_nullify h, nullify_of_nullify h, ?_⟩
  have hthinned := thinned_of_nullify h
  simpa only [isSome_nullify] using hthinned

/-- Whoever is asked for, with a name that is not known, notes without any text yet, and a tag. -/
def askedAuthor : Content :=
  .slotted .concept "Book" [
    ("title", .freeVariable "t" false),
    ("author", .ire "iota" (.freeVariable "x" false) (.slotted .predicate "wrote" [
      ("who", .freeVariable "x" false)])),
    ("notes", .aggregate TypeName.sequence [.freeVariable "n" false] (some (.freeVariable "m" false))),
    ("tags", .aggregate TypeName.set [.ofString "old", .freeVariable "y" true] none)]

def knownAuthor : Content :=
  .slotted .concept "Book" [
    ("author", .ire "iota" (.freeVariable "x" false) (.slotted .predicate "wrote" [
      ("who", .freeVariable "x" false)])),
    ("tags", .aggregate TypeName.set [.ofString "old"] none)]

/-- The slots after the value of each name was replaced by what is left of it, or was removed. -/
def nullifyInPlace (dropEmpty : Bool) (names : List String) (slots : Slots Content) :
    Slots Content :=
  names.foldl (fun slots name =>
    match (Slots.get? name slots).bind (nullify dropEmpty) with
    | some c => Slots.insert name c slots
    | none => Slots.remove name slots) slots

theorem nullifyInPlace_append {done slots : Slots Content} (h : Slots.Distinct (done ++ slots)) :
    nullifyInPlace dropEmpty (slots.map (·.1)) (done ++ slots) =
      done ++ nullifySlots dropEmpty slots := by
  induction slots generalizing done with
  | nil => rfl
  | cons e rest ih =>
    obtain ⟨k, c⟩ := e
    have hfree : Slots.contains k done = false := Slots.not_contains_of_distinct h
    rw [List.map_cons, nullifyInPlace, List.foldl_cons, Slots.get?_append hfree, nullifySlots]
    simp only [Slots.get?, sameName_refl, if_true, Option.bind_some]
    cases hc : c.nullify dropEmpty with
    | none =>
      simp only [Slots.remove_append hfree, Slots.remove, sameName_refl, if_true]
      exact ih (h.sublist ((List.sublist_cons_self _ _).append_left done))
    | some d =>
      have hnext : Slots.Distinct ((done ++ [(k, d)]) ++ rest) := h.of_names (by simp)
      have hlater := ih hnext
      simp only [Slots.insert_append hfree, Slots.insert, sameName_refl, if_true]
      rw [List.append_assoc, List.append_assoc] at hlater
      exact hlater

/-- Editing the slots of a node one after the other, by the names that it has at the start, leaves
what is left of them. -/
theorem nullifyInPlace_eq {slots : Slots Content} (h : Slots.Distinct slots) :
    nullifyInPlace dropEmpty (slots.map (·.1)) slots = nullifySlots dropEmpty slots :=
  @nullifyInPlace_append dropEmpty [] slots h

end Content
end AgentContent
