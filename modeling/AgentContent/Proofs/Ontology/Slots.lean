import AgentContent.Ontology.Lineage
import AgentContent.Proofs.Content.Slots

/-!
# AgentContent.Proofs.Ontology.Slots

The slots that a schema has with all that it extends.

* `distinct_slots`: no two of them have one name.
* `slots_of_supers_nil`: a schema that extends nothing has its own ones.
* `Resolves`: every type that the schema extends is defined, directly or not.
* `Resolves.slots_eq_ok`: then its slots can be listed.
-/

namespace AgentContent
namespace Ontology

variable {o : Ontology} {s : Schema}

/-- No two descriptors have one name. -/
def DistinctNames (ds : List SlotDescriptor) : Prop :=
  (ds.map fun d => foldName d.name).Nodup

instance (ds : List SlotDescriptor) : Decidable (DistinctNames ds) :=
  inferInstanceAs (Decidable (List.Nodup _))

theorem DistinctNames.sublist {ds ds' : List SlotDescriptor} (h : DistinctNames ds)
    (hs : ds'.Sublist ds) : DistinctNames ds' := by
  have hmap := hs.map fun d : SlotDescriptor => foldName d.name
  exact hmap.nodup h

/-! ## Names are listed once -/

theorem addNames_nodup {names : List String} (h : (names.map foldName).Nodup)
    (slots : List SlotDescriptor) : ((addNames names slots).map foldName).Nodup := by
  induction slots generalizing names with
  | nil => exact h
  | cons d rest ih =>
    simp only [addNames, List.foldl_cons] at ih ⊢
    split
    · exact ih h
    · rename_i hfree
      simp only [List.any_eq_true, not_exists, not_and, sameName_iff] at hfree
      apply ih
      rw [List.map_append, List.nodup_append]
      refine ⟨h, by simp, ?_⟩
      intro a ha b hb
      simp only [List.map_cons, List.map_nil, List.mem_singleton] at hb
      obtain ⟨n, hn, rfl⟩ := List.mem_map.1 ha
      rw [hb]
      exact hfree n hn

theorem collectNames_nodup {names all : List String} (h : (names.map foldName).Nodup)
    {visits : List Visit} (hc : collectNames o names visits = .ok all) :
    (all.map foldName).Nodup := by
  induction visits generalizing names with
  | nil =>
    simp only [collectNames, Except.ok.injEq] at hc
    exact hc ▸ h
  | cons visit rest ih =>
    cases visit with
    | enter t => exact ih h hc
    | missing t => cases hc
    | leave t => exact ih (addNames_nodup h t.slots) hc

theorem sameName_of_firstSlot {visits : List Visit} {name : String} {d : SlotDescriptor}
    (h : firstSlot o name visits = .ok (some d)) : sameName d.name name = true := by
  induction visits with
  | nil => cases h
  | cons visit rest ih =>
    cases visit with
    | enter t =>
      simp only [firstSlot] at h
      split at h
      · rename_i hown
        cases h
        exact List.find?_some (p := fun d : SlotDescriptor => sameName d.name name) hown
      · exact ih h
    | missing t => cases h
    | leave t => exact ih h

/-- The descriptors are named like some of the names, in their order. -/
theorem describe_sublist {names : List String} {ds : List SlotDescriptor}
    (h : describe o s names = .ok ds) :
    (ds.map fun d => foldName d.name).Sublist (names.map foldName) := by
  induction names generalizing ds with
  | nil =>
    simp only [describe, Except.ok.injEq] at h
    subst h
    exact List.Sublist.refl _
  | cons name rest ih =>
    simp only [describe] at h
    split at h
    · cases h
    · cases h
    · rename_i ds' _ hrest
      cases h
      exact (ih hrest).cons _
    · rename_i d ds' hd hrest
      cases h
      rw [List.map_cons, List.map_cons, sameName_iff.1 (sameName_of_firstSlot hd)]
      exact (ih hrest).cons_cons _

theorem distinct_slots {ds : List SlotDescriptor} (h : o.slots s = .ok ds) : DistinctNames ds := by
  simp only [slots] at h
  split at h
  · cases h
  · rename_i names hnames
    exact (describe_sublist h).nodup (collectNames_nodup (by simp) hnames)

theorem lineage_of_supers_nil (h : s.supers = []) :
    o.lineage s = [.enter s, .leave s] := by
  rw [lineage, tasksOf, h, List.map_nil, List.nil_append, search, search]

theorem lineage_of_supers_singleton {t : Schema} {name : String} (hs : s.supers = [name])
    (ht : o.find? name = some t) (hne : foldName t.name ≠ foldName s.name) (hnil : t.supers = []) :
    o.lineage s = [.enter s, .enter t, .leave t, .leave s] := by
  have hnew : foldName t.name ∉ [foldName s.name] := fun h => hne (List.mem_singleton.1 h)
  rw [lineage, tasksOf, hs, List.map_singleton, List.singleton_append, search_new ht hnew, tasksOf,
    hnil, List.map_nil, List.nil_append, List.singleton_append, search, search, search]

/-- A slot is found under every spelling of its name. -/
theorem find?_of_mem {ds : List SlotDescriptor} (h : DistinctNames ds) {d : SlotDescriptor}
    (hd : d ∈ ds) {name : String} (hn : sameName d.name name = true) :
    ds.find? (fun d => sameName d.name name) = some d := by
  induction ds with
  | nil => cases hd
  | cons e rest ih =>
    simp only [DistinctNames, List.map_cons, List.nodup_cons, List.mem_map, not_exists,
      not_and] at h
    rcases List.mem_cons.1 hd with rfl | hd
    · simp only [List.find?_cons, hn]
    · have he : sameName e.name name = false := by
        rw [sameName_eq_false_iff]
        intro he
        exact h.1 d hd ((sameName_iff.1 hn).trans he.symm)
      simp only [List.find?_cons, he]
      exact ih h.2 hd

/-! ## Schemas that extend nothing -/

theorem slot?_of_supers_nil (h : s.supers = []) (name : String) :
    o.slot? s name = .ok (s.ownSlot? name) := by
  rw [slot?, lineage_of_supers_nil h, firstSlot]
  cases s.ownSlot? name with
  | some d => rfl
  | none => rfl

theorem facetsOf_of_supers_nil (h : s.supers = []) (slot : String) :
    o.facetsOf s slot = .ok (s.ownFacets slot) := by
  rw [facetsOf, lineage_of_supers_nil h]
  simp [collectFacets]

theorem addNames_of_distinct {names : List String} {ds : List SlotDescriptor}
    (h : (names.map foldName ++ ds.map fun d => foldName d.name).Nodup) :
    addNames names ds = names ++ ds.map (·.name) := by
  induction ds generalizing names with
  | nil => simp [addNames]
  | cons d rest ih =>
    have hfresh : names.any (sameName · d.name) = false := by
      rw [List.any_eq_false]
      intro name hname
      rw [sameName_iff]
      exact (List.nodup_append.1 h).2.2 _ (List.mem_map_of_mem hname) _ List.mem_cons_self
    have hrest : ((names ++ [d.name]).map foldName ++ rest.map fun d => foldName d.name).Nodup := by
      simpa using h
    have hadd : addNames names (d :: rest) = addNames (names ++ [d.name]) rest := by
      rw [addNames, List.foldl_cons, hfresh]
      rfl
    rw [hadd, ih hrest]
    simp

theorem describe_of_slot? {ds : List SlotDescriptor}
    (h : ∀ d ∈ ds, o.slot? s d.name = .ok (some d)) : o.describe s (ds.map (·.name)) = .ok ds := by
  induction ds with
  | nil => rfl
  | cons d rest ih =>
    obtain ⟨hd, hrest⟩ := List.forall_mem_cons.1 h
    simp only [List.map_cons, describe, hd, ih hrest]

theorem slots_of_supers_nil (h : s.supers = []) (hd : DistinctNames s.slots) :
    o.slots s = .ok s.slots := by
  have hnames : addNames [] s.slots = s.slots.map (·.name) := addNames_of_distinct hd
  rw [slots, lineage_of_supers_nil h]
  simp only [collectNames, hnames]
  refine describe_of_slot? fun d hmem => ?_
  rw [slot?_of_supers_nil h, Schema.ownSlot?, find?_of_mem hd hmem (sameName_refl d.name)]

/-! ## Schemas whose super types are all defined -/

/-- The schema extends a type of the name, directly or through types that are defined. -/
inductive Extends (o : Ontology) : Schema → String → Prop where
  | super {s : Schema} {name : String} (h : name ∈ s.supers) : Extends o s name
  | further {s t : Schema} {name super : String} (h : name ∈ s.supers)
    (ht : o.find? name = some t) (hs : Extends o t super) : Extends o s super

/-- Every type that the schema extends is defined. -/
def Resolves (o : Ontology) (s : Schema) : Prop :=
  ∀ name, Extends o s name → (o.find? name).isSome = true

theorem Resolves.super (h : Resolves o s) {name : String} (hn : name ∈ s.supers) :
    ∃ t, o.find? name = some t ∧ Resolves o t := by
  obtain ⟨t, ht⟩ := Option.isSome_iff_exists.1 (h name (.super hn))
  exact ⟨t, ht, fun super hs => h super (.further hn ht hs)⟩

theorem resolves_of_supers
    (h : ∀ name ∈ s.supers, ∃ t, o.find? name = some t ∧ Resolves o t) : Resolves o s := by
  intro name hn
  cases hn with
  | super hn =>
    obtain ⟨t, ht, -⟩ := h name hn
    simp [ht]
  | further hn ht hs =>
    obtain ⟨t', ht', hr⟩ := h _ hn
    rw [ht] at ht'
    cases ht'
    exact hr name hs

/-- The task only leads to types that are defined. -/
def Task.Resolves (o : Ontology) : Task → Prop
  | .climb name => ∃ t, o.find? name = some t ∧ o.Resolves t
  | .leave _ => True

theorem Resolves.tasksOf (h : Resolves o s) : ∀ t ∈ tasksOf s, t.Resolves o := by
  intro t ht
  simp only [Ontology.tasksOf, List.mem_append, List.mem_map, List.mem_singleton] at ht
  rcases ht with ⟨name, hn, rfl⟩ | rfl
  · exact h.super hn
  · trivial

/-- A search that only meets defined types finds none missing. -/
theorem not_missing_of_search {seen : List String} {tasks : List Task}
    (h : ∀ t ∈ tasks, t.Resolves o) (name : String) : .missing name ∉ o.search seen tasks := by
  fun_induction search o seen tasks with
  | case1 => simp
  | case2 seen s rest ih =>
    have := ih fun t ht => h t (List.mem_cons_of_mem _ ht)
    simpa using this
  | case3 seen super rest hnone ih =>
    obtain ⟨t, ht, -⟩ := h _ List.mem_cons_self
    rw [hnone] at ht
    cases ht
  | case4 seen super rest s hs hseen ih =>
    exact ih fun t ht => h t (List.mem_cons_of_mem _ ht)
  | case5 seen super rest s hs hseen ih =>
    obtain ⟨t, ht, hr⟩ := h _ List.mem_cons_self
    rw [hs] at ht
    cases ht
    have := ih fun t ht => by
      rcases List.mem_append.1 ht with ht | ht
      · exact hr.tasksOf t ht
      · exact h t (List.mem_cons_of_mem _ ht)
    simpa using this

theorem Resolves.not_missing (h : Resolves o s) (name : String) : .missing name ∉ o.lineage s := by
  have hsearch : .missing name ∉ o.search [foldName s.name] (Ontology.tasksOf s) :=
    not_missing_of_search h.tasksOf name
  simpa [lineage] using hsearch

theorem exists_firstSlot {visits : List Visit} (h : ∀ super, .missing super ∉ visits)
    (name : String) : ∃ d, firstSlot o name visits = .ok d := by
  induction visits with
  | nil => exact ⟨none, rfl⟩
  | cons visit rest ih =>
    have hrest := ih fun super hm => h super (List.mem_cons_of_mem _ hm)
    cases visit with
    | enter t =>
      simp only [firstSlot]
      cases t.ownSlot? name with
      | none => exact hrest
      | some d => exact ⟨some d, rfl⟩
    | missing t => exact absurd List.mem_cons_self (h t)
    | leave t => exact hrest

theorem exists_collectNames {visits : List Visit} (h : ∀ super, .missing super ∉ visits)
    (names : List String) : ∃ all, collectNames o names visits = .ok all := by
  induction visits generalizing names with
  | nil => exact ⟨names, rfl⟩
  | cons visit rest ih =>
    have hrest := ih fun super hm => h super (List.mem_cons_of_mem _ hm)
    cases visit with
    | enter t => exact hrest names
    | missing t => exact absurd List.mem_cons_self (h t)
    | leave t => exact hrest _

theorem exists_describe (h : ∀ name, ∃ d, o.slot? s name = .ok d) (names : List String) :
    ∃ ds, describe o s names = .ok ds := by
  induction names with
  | nil => exact ⟨[], rfl⟩
  | cons name rest ih =>
    obtain ⟨d, hd⟩ := h name
    obtain ⟨ds, hds⟩ := ih
    simp only [describe, hd, hds]
    cases d with
    | none => exact ⟨ds, rfl⟩
    | some d => exact ⟨d :: ds, rfl⟩

theorem Resolves.slots_eq_ok (h : Resolves o s) : ∃ ds, o.slots s = .ok ds := by
  obtain ⟨names, hnames⟩ := exists_collectNames (o := o) h.not_missing []
  obtain ⟨ds, hds⟩ := exists_describe (o := o) (s := s)
    (fun name => exists_firstSlot h.not_missing name) names
  exact ⟨ds, by simp only [slots, hnames, hds]⟩

end Ontology
end AgentContent
