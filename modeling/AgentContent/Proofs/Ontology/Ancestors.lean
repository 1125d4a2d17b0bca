import AgentContent.Proofs.Ontology.Equality
import Mathlib.Logic.Relation

/-!
# AgentContent.Proofs.Ontology.Ancestors

The search over super types finds what a schema extends: all of it, and nothing else.

* `Ancestor`: the schema itself, or one that it extends through types that are defined.
* `Unrivalled`: no other schema goes by the name of the schema, be it defined or not.
* `met_of_search`: every super type that the search comes to is missing, entered, or was seen
  before.
* `mem_lineage_iff`: the schemas that the search enters are the ancestors.
* `descendsFrom_iff`: a schema descends from the names of its ancestors.
* `slots_isOk_iff`: the slots of a schema can be listed just when all that it extends is defined.
* `mem_slots_iff`, `exists_slot?_iff`: the slots listed are those that some ancestor declares, each
  with the descriptor that its name resolves to.
* `mem_facetsOf_iff`: the facets of a slot are those that some ancestor attaches to it.
* `exists_unknown_of_slots`: what it takes for the slots of a schema not to be listed.
-/

namespace AgentContent
namespace Ontology

variable {o : Ontology} {s t : Schema}

/-- The first schema extends the second one directly. -/
def Super (o : Ontology) (s t : Schema) : Prop :=
  ∃ name ∈ s.supers, o.find? name = some t

/-- The second schema is the first one or one that it extends. -/
def Ancestor (o : Ontology) : Schema → Schema → Prop :=
  Relation.ReflTransGen o.Super

/-- The schema is the one that its name stands for. -/
def Registered (o : Ontology) (s : Schema) : Prop :=
  o.find? s.name = some s

theorem registered_of_find? {name : String} (h : o.find? name = some s) : o.Registered s :=
  find?_name h

/-- The name of the schema stands for no other schema: it stands for this one, or for none. -/
def Unrivalled (o : Ontology) (s : Schema) : Prop :=
  ∀ t, o.find? s.name = some t → t = s

theorem unrivalled_iff : o.Unrivalled s ↔ o.find? s.name = some s ∨ o.find? s.name = none := by
  constructor
  · intro h
    cases hfind : o.find? s.name with
    | none => exact .inr rfl
    | some t => exact .inl (by rw [h t hfind])
  · rintro (h | h) t ht
    · rw [h] at ht
      exact (Option.some.inj ht).symm
    · rw [h] at ht
      cases ht

theorem Registered.unrivalled (hs : o.Registered s) : o.Unrivalled s :=
  unrivalled_iff.2 (.inl hs)

theorem Unrivalled.eq (hs : o.Unrivalled s) (ht : o.Registered t)
    (h : foldName t.name = foldName s.name) : t = s := by
  rw [Registered, find?_congr (sameName_iff.2 h)] at ht
  exact hs t ht

theorem Registered.eq (hs : o.Registered s) (ht : o.Registered t)
    (h : foldName t.name = foldName s.name) : t = s :=
  hs.unrivalled.eq ht h

/-! ## What the search enters -/

theorem ancestor_of_mem_search {seen : List String} {tasks : List Task}
    (h : .enter t ∈ o.search seen tasks) :
    ∃ name u, .climb name ∈ tasks ∧ o.find? name = some u ∧ o.Ancestor u t := by
  fun_induction search o seen tasks with
  | case1 => cases h
  | case2 seen r rest ih =>
    rcases List.mem_cons.1 h with h | h
    · cases h
    · obtain ⟨name, u, hname, hu, ht⟩ := ih h
      exact ⟨name, u, List.mem_cons_of_mem _ hname, hu, ht⟩
  | case3 seen super rest _ ih =>
    rcases List.mem_cons.1 h with h | h
    · cases h
    · obtain ⟨name, u, hname, hu, ht⟩ := ih h
      exact ⟨name, u, List.mem_cons_of_mem _ hname, hu, ht⟩
  | case4 seen super rest r _ _ ih =>
    obtain ⟨name, u, hname, hu, ht⟩ := ih h
    exact ⟨name, u, List.mem_cons_of_mem _ hname, hu, ht⟩
  | case5 seen super rest r hr _ ih =>
    rcases List.mem_cons.1 h with h | h
    · cases h
      exact ⟨super, t, List.mem_cons_self, hr, .refl⟩
    · obtain ⟨name, u, hname, hu, ht⟩ := ih h
      rcases List.mem_append.1 hname with hname | hname
      · -- a super type of the schema just entered
        have hsuper : name ∈ r.supers := by simpa [tasksOf] using hname
        exact ⟨super, r, List.mem_cons_self, hr, .head ⟨name, hsuper, hu⟩ ht⟩
      · exact ⟨name, u, List.mem_cons_of_mem _ hname, hu, ht⟩

/-- The search was at the schema of the name: it has entered it, or had seen it before. -/
def Reached (o : Ontology) (seen : List String) (visits : List Visit) (name : String) : Prop :=
  ∃ u, o.find? name = some u ∧ (foldName u.name ∈ seen ∨ .enter u ∈ visits)

theorem Reached.cons {seen : List String} {visits : List Visit} {name : String} (visit : Visit)
    (h : o.Reached seen visits name) : o.Reached seen (visit :: visits) name := by
  obtain ⟨u, hu, hseen | hmem⟩ := h
  · exact ⟨u, hu, .inl hseen⟩
  · exact ⟨u, hu, .inr (List.mem_cons_of_mem _ hmem)⟩

/-- What counts as seen since a schema was entered is that schema. -/
theorem Reached.entered {seen : List String} {visits : List Visit} {name : String}
    (hs : o.Unrivalled s) (h : o.Reached (foldName s.name :: seen) visits name) :
    o.Reached seen (.enter s :: visits) name := by
  obtain ⟨u, hu, hseen | hmem⟩ := h
  · rcases List.mem_cons.1 hseen with hname | hseen
    · rw [(hs.eq (registered_of_find? hu) hname)] at hu
      exact ⟨s, hu, .inr List.mem_cons_self⟩
    · exact ⟨u, hu, .inl hseen⟩
  · exact ⟨u, hu, .inr (List.mem_cons_of_mem _ hmem)⟩

/-- The search has dealt with the name: it was at its schema, or has found that there is none. -/
def Met (o : Ontology) (seen : List String) (visits : List Visit) (name : String) : Prop :=
  .missing name ∈ visits ∨ o.Reached seen visits name

theorem Met.cons {seen : List String} {visits : List Visit} {name : String} (visit : Visit)
    (h : o.Met seen visits name) : o.Met seen (visit :: visits) name :=
  h.imp (List.mem_cons_of_mem _) (Reached.cons visit)

theorem Met.entered {seen : List String} {visits : List Visit} {name : String}
    (hs : o.Unrivalled s) (h : o.Met (foldName s.name :: seen) visits name) :
    o.Met seen (.enter s :: visits) name :=
  h.imp (List.mem_cons_of_mem _) (Reached.entered hs)

/-- A search deals with every type that it set out for, and with the super types of every schema on
its way. -/
theorem met_of_search (seen : List String) (tasks : List Task) :
    (∀ name, .climb name ∈ tasks → o.Met seen (o.search seen tasks) name) ∧
      ∀ t, .enter t ∈ o.search seen tasks →
        ∀ name ∈ t.supers, o.Met seen (o.search seen tasks) name := by
  fun_induction search o seen tasks with
  | case1 => exact ⟨fun _ h => (List.not_mem_nil h).elim, fun _ h => (List.not_mem_nil h).elim⟩
  | case2 seen r rest ih =>
    obtain ⟨hclimb, henter⟩ := ih
    constructor
    · intro name hname
      exact (hclimb name (by simpa using hname)).cons _
    · intro t ht name hname
      exact (henter t (by simpa using ht) name hname).cons _
  | case3 seen super rest _ ih =>
    obtain ⟨hclimb, henter⟩ := ih
    constructor
    · intro name hname
      rcases List.mem_cons.1 hname with hname | hname
      · cases hname
        exact .inl List.mem_cons_self
      · exact (hclimb name hname).cons _
    · intro t ht name hname
      exact (henter t (by simpa using ht) name hname).cons _
  | case4 seen super rest r hr hseen ih =>
    obtain ⟨hclimb, henter⟩ := ih
    refine ⟨?_, henter⟩
    intro name hname
    rcases List.mem_cons.1 hname with hname | hname
    · cases hname
      exact .inr ⟨r, hr, .inl hseen⟩
    · exact hclimb name hname
  | case5 seen super rest r hr hseen ih =>
    obtain ⟨hclimb, henter⟩ := ih
    have hr' := (registered_of_find? hr).unrivalled
    constructor
    · intro name hname
      rcases List.mem_cons.1 hname with hname | hname
      · cases hname
        exact .inr ⟨r, hr, .inr List.mem_cons_self⟩
      · exact (hclimb name (List.mem_append_right _ hname)).entered hr'
    · intro t ht name hname
      rcases List.mem_cons.1 ht with ht | ht
      · cases ht
        have htask : .climb name ∈ tasksOf r := by simpa [tasksOf] using hname
        exact (hclimb name (List.mem_append_left _ htask)).entered hr'
      · exact (henter t ht name hname).entered hr'

theorem find?_of_missing_mem_search {seen : List String} {tasks : List Task} {name : String}
    (h : .missing name ∈ o.search seen tasks) : o.find? name = none := by
  fun_induction search o seen tasks with
  | case1 => cases h
  | case2 seen r rest ih => exact ih (by simpa using h)
  | case3 seen super rest hnone ih =>
    rcases List.mem_cons.1 h with h | h
    · cases h
      exact hnone
    · exact ih h
  | case4 seen super rest r _ _ ih => exact ih h
  | case5 seen super rest r _ _ ih => exact ih (by simpa using h)

theorem mem_lineage_self (o : Ontology) (s : Schema) : .enter s ∈ o.lineage s :=
  List.mem_cons_self

theorem ancestor_of_mem_lineage (h : .enter t ∈ o.lineage s) : o.Ancestor s t := by
  rcases List.mem_cons.1 h with h | h
  · cases h
    exact .refl
  · obtain ⟨name, u, hname, hu, ht⟩ := ancestor_of_mem_search h
    have hsuper : name ∈ s.supers := by simpa [tasksOf] using hname
    exact .head ⟨name, hsuper, hu⟩ ht

/-- The lineage deals with the super types of all that is in it. -/
theorem met_of_mem_lineage (hs : o.Unrivalled s) (ht : .enter t ∈ o.lineage s) {name : String}
    (hname : name ∈ t.supers) : o.Met [] (o.lineage s) name := by
  obtain ⟨hclimb, henter⟩ :=
    met_of_search (o := o) [foldName s.name] (tasksOf s)
  have hmet : o.Met [foldName s.name] (o.search [foldName s.name] (tasksOf s)) name := by
    rcases List.mem_cons.1 ht with ht | ht
    · cases ht
      exact hclimb name (by simpa [tasksOf] using hname)
    · exact henter t ht name hname
  exact hmet.entered hs

theorem Unrivalled.mem_lineage (hs : o.Unrivalled s) (ht : o.Ancestor s t) :
    .enter t ∈ o.lineage s := by
  induction ht with
  | refl => exact mem_lineage_self o s
  | tail _ hsuper ih =>
    obtain ⟨name, hname, hfind⟩ := hsuper
    rcases met_of_mem_lineage hs ih hname with hmissing | ⟨u, hu, hseen | hmem⟩
    · have hnone : o.find? name = none :=
        find?_of_missing_mem_search (by simpa [lineage] using hmissing)
      rw [hfind] at hnone
      cases hnone
    · cases hseen
    · rw [hfind] at hu
      cases hu
      exact hmem

theorem mem_lineage_of_ancestor (hs : o.Registered s) (ht : o.Ancestor s t) :
    .enter t ∈ o.lineage s :=
  hs.unrivalled.mem_lineage ht

/-- The schemas that the search enters are the ancestors. -/
theorem mem_lineage_iff (hs : o.Registered s) : .enter t ∈ o.lineage s ↔ o.Ancestor s t :=
  ⟨ancestor_of_mem_lineage, mem_lineage_of_ancestor hs⟩

theorem Unrivalled.descendsFrom_iff (hs : o.Unrivalled s) {name : String} :
    o.descendsFrom s name = true ↔ ∃ t, o.Ancestor s t ∧ sameName t.name name = true := by
  constructor
  · intro h
    obtain ⟨visit, hvisit, henters⟩ := List.any_eq_true.1 h
    cases visit with
    | enter t => exact ⟨t, ancestor_of_mem_lineage hvisit, henters⟩
    | missing name => cases henters
    | leave t => cases henters
  · rintro ⟨t, ht, hname⟩
    exact List.any_eq_true.2 ⟨.enter t, hs.mem_lineage ht, hname⟩

theorem descendsFrom_iff (hs : o.Registered s) {name : String} :
    o.descendsFrom s name = true ↔ ∃ t, o.Ancestor s t ∧ sameName t.name name = true :=
  hs.unrivalled.descendsFrom_iff

/-! ## Schemas whose super types are all defined -/

theorem extends_of_ancestor (ht : o.Ancestor s t) {name : String} (hname : name ∈ t.supers) :
    Extends o s name := by
  induction ht using Relation.ReflTransGen.head_induction_on with
  | refl => exact .super hname
  | head hsuper _ ih =>
    obtain ⟨super, hmem, hfind⟩ := hsuper
    exact .further hmem hfind ih

theorem exists_ancestor_of_extends {name : String} (h : Extends o s name) :
    ∃ t, o.Ancestor s t ∧ name ∈ t.supers := by
  induction h with
  | super hname => exact ⟨_, .refl, hname⟩
  | further hmem hfind _ ih =>
    obtain ⟨t, ht, hname⟩ := ih
    exact ⟨t, .head ⟨_, hmem, hfind⟩ ht, hname⟩

theorem eq_or_extends_of_ancestor (h : o.Ancestor s t) :
    t = s ∨ ∃ name, Extends o s name ∧ o.find? name = some t := by
  rcases Relation.ReflTransGen.cases_tail h with h | ⟨r, hr, name, hname, hfind⟩
  · exact .inl h
  · exact .inr ⟨name, extends_of_ancestor hr hname, hfind⟩

theorem registered_of_ancestor (hs : o.Registered s) (h : o.Ancestor s t) : o.Registered t := by
  rcases eq_or_extends_of_ancestor h with rfl | ⟨name, -, hfind⟩
  · exact hs
  · exact registered_of_find? hfind

theorem Resolves.ancestor (hr : Resolves o s) (h : o.Ancestor s t) : Resolves o t := by
  intro name hextends
  obtain ⟨u, hu, hname⟩ := exists_ancestor_of_extends hextends
  exact hr name (extends_of_ancestor (h.trans hu) hname)

/-- Where what registered schemas extend is defined, so is all that they extend further up. -/
theorem Registered.resolves
    (h : ∀ t, o.Registered t → ∀ super ∈ t.supers, (o.find? super).isSome = true)
    (hs : o.Registered s) : Resolves o s := by
  intro super hextends
  obtain ⟨t, ht, hmem⟩ := exists_ancestor_of_extends hextends
  exact h t (registered_of_ancestor hs ht) super hmem

theorem resolves_iff_not_missing (hs : o.Registered s) :
    Resolves o s ↔ ∀ name, .missing name ∉ o.lineage s := by
  refine ⟨Resolves.not_missing, ?_⟩
  intro h name hextends
  obtain ⟨t, ht, hname⟩ := exists_ancestor_of_extends hextends
  obtain ⟨u, hu, -⟩ :=
    (met_of_mem_lineage hs.unrivalled (mem_lineage_of_ancestor hs ht) hname).resolve_left (h name)
  rw [hu]
  rfl

/-! ## What the search leaves -/

theorem leave_mem_search {seen : List String} {tasks : List Task} (h : .leave t ∈ tasks) :
    .leave t ∈ o.search seen tasks := by
  fun_induction search o seen tasks with
  | case1 => cases h
  | case2 seen r rest ih =>
    rcases List.mem_cons.1 h with h | h
    · cases h
      exact List.mem_cons_self
    · exact List.mem_cons_of_mem _ (ih h)
  | case3 seen super rest _ ih => exact List.mem_cons_of_mem _ (ih (by simpa using h))
  | case4 seen super rest r _ _ ih => exact ih (by simpa using h)
  | case5 seen super rest r _ _ ih =>
    exact List.mem_cons_of_mem _ (ih (List.mem_append_right _ (by simpa using h)))

theorem leave_mem_search_of_enter {seen : List String} {tasks : List Task}
    (h : .enter t ∈ o.search seen tasks) : .leave t ∈ o.search seen tasks := by
  fun_induction search o seen tasks with
  | case1 => cases h
  | case2 seen r rest ih => exact List.mem_cons_of_mem _ (ih (by simpa using h))
  | case3 seen super rest _ ih => exact List.mem_cons_of_mem _ (ih (by simpa using h))
  | case4 seen super rest r _ _ ih => exact ih h
  | case5 seen super rest r _ _ ih =>
    refine List.mem_cons_of_mem _ ?_
    rcases List.mem_cons.1 h with h | h
    · cases h
      exact leave_mem_search (by simp [tasksOf])
    · exact ih h

theorem leave_mem_lineage (h : .enter t ∈ o.lineage s) : .leave t ∈ o.lineage s := by
  refine List.mem_cons_of_mem _ ?_
  rcases List.mem_cons.1 h with h | h
  · cases h
    exact leave_mem_search (by simp [tasksOf])
  · exact leave_mem_search_of_enter h

/-! ## Slots -/

/-- Some ancestor of the schema declares a slot of the name. -/
def Declares (o : Ontology) (s : Schema) (name : String) : Prop :=
  ∃ t, o.Ancestor s t ∧ ∃ d, t.ownSlot? name = some d

theorem not_missing_of_collectNames {visits : List Visit} {names all : List String}
    (h : collectNames o names visits = .ok all) (super : String) : .missing super ∉ visits := by
  induction visits generalizing names with
  | nil => exact List.not_mem_nil
  | cons visit rest ih =>
    cases visit with
    | enter t => simpa using ih h
    | missing t => cases h
    | leave t => simpa using ih h

theorem slots_isOk_iff (hs : o.Registered s) : (∃ ds, o.slots s = .ok ds) ↔ Resolves o s := by
  refine ⟨?_, Resolves.slots_eq_ok⟩
  rintro ⟨ds, hds⟩
  rw [slots] at hds
  split at hds
  · cases hds
  · rename_i names hnames
    exact (resolves_iff_not_missing hs).2 (not_missing_of_collectNames hnames)

/-- A descriptor that the name resolves to is declared by a schema that the search enters. -/
theorem exists_mem_of_firstSlot {visits : List Visit} {name : String} {d : SlotDescriptor}
    (h : firstSlot o name visits = .ok (some d)) :
    ∃ t, .enter t ∈ visits ∧ t.ownSlot? name = some d := by
  induction visits with
  | nil => cases h
  | cons visit rest ih =>
    cases visit with
    | enter t =>
      simp only [firstSlot] at h
      split at h
      · rename_i hown
        cases h
        exact ⟨t, List.mem_cons_self, hown⟩
      · obtain ⟨u, hu, hown⟩ := ih h
        exact ⟨u, List.mem_cons_of_mem _ hu, hown⟩
    | missing t => cases h
    | leave t =>
      obtain ⟨u, hu, hown⟩ := ih h
      exact ⟨u, List.mem_cons_of_mem _ hu, hown⟩

theorem exists_firstSlot_of_mem {visits : List Visit} (h : ∀ super, .missing super ∉ visits)
    {name : String} (ht : .enter t ∈ visits) {d : SlotDescriptor} (hd : t.ownSlot? name = some d) :
    ∃ e, firstSlot o name visits = .ok (some e) := by
  induction visits with
  | nil => cases ht
  | cons visit rest ih =>
    have hrest := fun super hm => h super (List.mem_cons_of_mem _ hm)
    cases visit with
    | enter u =>
      rw [firstSlot]
      cases hown : u.ownSlot? name with
      | some e => exact ⟨e, rfl⟩
      | none =>
        rcases List.mem_cons.1 ht with ht | ht
        · cases ht
          rw [hd] at hown
          cases hown
        · exact ih hrest ht
    | missing u => exact absurd List.mem_cons_self (h u)
    | leave u => exact ih hrest (by simpa using ht)

theorem exists_slot?_iff (hs : o.Registered s) (hr : Resolves o s) {name : String} :
    (∃ d, o.slot? s name = .ok (some d)) ↔ o.Declares s name := by
  constructor
  · rintro ⟨d, hd⟩
    obtain ⟨t, ht, hown⟩ := exists_mem_of_firstSlot hd
    exact ⟨t, ancestor_of_mem_lineage ht, d, hown⟩
  · rintro ⟨t, ht, d, hd⟩
    exact exists_firstSlot_of_mem hr.not_missing (mem_lineage_of_ancestor hs ht) hd

theorem slot?_name {name : String} {d : SlotDescriptor} (h : o.slot? s name = .ok (some d)) :
    o.slot? s d.name = .ok (some d) := by
  have hname : sameName d.name name = true := sameName_of_firstSlot h
  rw [slot?_congr hname, h]

theorem mem_addNames {names : List String} {ds : List SlotDescriptor} {name : String}
    (h : (∃ n ∈ names, sameName n name = true) ∨ ∃ d ∈ ds, sameName d.name name = true) :
    ∃ n ∈ addNames names ds, sameName n name = true := by
  induction ds generalizing names with
  | nil => simpa [addNames] using h
  | cons d rest ih =>
    simp only [addNames, List.foldl_cons] at ih ⊢
    apply ih
    rcases h with ⟨n, hn, hname⟩ | ⟨e, he, hname⟩
    · refine .inl ⟨n, ?_, hname⟩
      split
      · exact hn
      · exact List.mem_append_left _ hn
    · rcases List.mem_cons.1 he with rfl | he
      · split
        · rename_i hany
          obtain ⟨n, hn, hsame⟩ := List.any_eq_true.1 hany
          exact .inl ⟨n, hn, sameName_trans hsame hname⟩
        · exact .inl ⟨e.name, by simp, hname⟩
      · exact .inr ⟨e, he, hname⟩

theorem mem_collectNames {visits : List Visit} {names all : List String}
    (h : collectNames o names visits = .ok all) {name : String}
    (hname : (∃ n ∈ names, sameName n name = true) ∨
      ∃ t, .leave t ∈ visits ∧ ∃ d, t.ownSlot? name = some d) :
    ∃ n ∈ all, sameName n name = true := by
  induction visits generalizing names with
  | nil =>
    cases h
    simpa using hname
  | cons visit rest ih =>
    cases visit with
    | enter u => exact ih h (by simpa using hname)
    | missing u => cases h
    | leave u =>
      apply ih h
      rcases hname with hname | ⟨t, ht, d, hd⟩
      · exact .inl (mem_addNames (.inl hname))
      · rcases List.mem_cons.1 ht with ht | ht
        · cases ht
          have hsame := List.find?_some (p := fun d : SlotDescriptor => sameName d.name name) hd
          exact .inl (mem_addNames (.inr ⟨d, List.mem_of_find?_eq_some hd, hsame⟩))
        · exact .inr ⟨t, ht, d, hd⟩

theorem mem_describe_iff {names : List String} {ds : List SlotDescriptor}
    (h : describe o s names = .ok ds) {d : SlotDescriptor} :
    d ∈ ds ↔ ∃ name ∈ names, o.slot? s name = .ok (some d) := by
  induction names generalizing ds with
  | nil =>
    cases h
    simp
  | cons name rest ih =>
    rw [describe] at h
    split at h
    · cases h
    · cases h
    · rename_i hnone hrest
      cases h
      simp [ih hrest, hnone]
    · rename_i e ds' hsome hrest
      cases h
      simp [ih hrest, hsome, eq_comm]

/-- The slots listed are the descriptors that names of slots resolve to. -/
theorem mem_slots_iff {ds : List SlotDescriptor} (h : o.slots s = .ok ds) {d : SlotDescriptor} :
    d ∈ ds ↔ ∃ name, o.slot? s name = .ok (some d) := by
  rw [slots] at h
  split at h
  · cases h
  · rename_i names hnames
    rw [mem_describe_iff h]
    constructor
    · rintro ⟨name, -, hd⟩
      exact ⟨name, hd⟩
    · rintro ⟨name, hd⟩
      obtain ⟨t, ht, hown⟩ := exists_mem_of_firstSlot hd
      obtain ⟨n, hn, hsame⟩ :=
        mem_collectNames hnames (.inr ⟨t, leave_mem_lineage ht, d, hown⟩)
      refine ⟨n, hn, ?_⟩
      rw [slot?_congr hsame, hd]

/-! ## Facets -/

theorem mem_collectFacets_iff {visits : List Visit} {slot : String} {facets : List Facet}
    (h : collectFacets o slot visits = .ok facets) {f : Facet} :
    f ∈ facets ↔ ∃ t, .enter t ∈ visits ∧ f ∈ t.ownFacets slot := by
  induction visits generalizing facets with
  | nil =>
    cases h
    simp
  | cons visit rest ih =>
    cases visit with
    | enter t =>
      simp only [collectFacets] at h
      split at h
      · cases h
      · rename_i hrest
        cases h
        simp [ih hrest, or_and_right, exists_or]
    | missing t => cases h
    | leave t => simp [ih h]

theorem mem_facetsOf_iff (hs : o.Registered s) {slot : String} {facets : List Facet}
    (h : o.facetsOf s slot = .ok facets) {f : Facet} :
    f ∈ facets ↔ ∃ t, o.Ancestor s t ∧ f ∈ t.ownFacets slot := by
  simp only [mem_collectFacets_iff h, mem_lineage_iff hs]

theorem exists_collectFacets {visits : List Visit} (h : ∀ super, .missing super ∉ visits)
    (slot : String) : ∃ facets, collectFacets o slot visits = .ok facets := by
  induction visits with
  | nil => exact ⟨[], rfl⟩
  | cons visit rest ih =>
    obtain ⟨facets, hfacets⟩ := ih fun super hm => h super (List.mem_cons_of_mem _ hm)
    cases visit with
    | enter t => exact ⟨t.ownFacets slot ++ facets, by simp only [collectFacets, hfacets]⟩
    | missing t => exact absurd List.mem_cons_self (h t)
    | leave t => exact ⟨facets, hfacets⟩

theorem Resolves.facetsOf_eq_ok (h : Resolves o s) (slot : String) :
    ∃ facets, o.facetsOf s slot = .ok facets :=
  exists_collectFacets h.not_missing slot

/-! ## What is missing -/

/-- What the search finds missing is a type that it set out for, or one that such a type extends. -/
theorem extends_of_missing_mem_search {seen : List String} {tasks : List Task} {name : String}
    (h : .missing name ∈ o.search seen tasks) : .climb name ∈ tasks ∨
      ∃ super u, .climb super ∈ tasks ∧ o.find? super = some u ∧ Extends o u name := by
  fun_induction search o seen tasks with
  | case1 => cases h
  | case2 seen r rest ih => simpa using ih (by simpa using h)
  | case3 seen super rest _ ih =>
    rcases List.mem_cons.1 h with h | h
    · cases h
      exact .inl List.mem_cons_self
    · rcases ih h with hname | ⟨super, u, hsuper, hu, hextends⟩
      · exact .inl (List.mem_cons_of_mem _ hname)
      · exact .inr ⟨super, u, List.mem_cons_of_mem _ hsuper, hu, hextends⟩
  | case4 seen super rest r _ _ ih =>
    rcases ih h with hname | ⟨super, u, hsuper, hu, hextends⟩
    · exact .inl (List.mem_cons_of_mem _ hname)
    · exact .inr ⟨super, u, List.mem_cons_of_mem _ hsuper, hu, hextends⟩
  | case5 seen super rest r hr _ ih =>
    have hsupers : ∀ {n}, Task.climb n ∈ tasksOf r → n ∈ r.supers := by simp [tasksOf]
    simp only [List.mem_cons, reduceCtorEq, false_or, List.mem_append] at h ih
    rcases ih h with (hname | hname) | ⟨n, u, hn | hn, hu, hextends⟩
    · exact .inr ⟨super, r, List.mem_cons_self, hr, .super (hsupers hname)⟩
    · exact .inl (List.mem_cons_of_mem _ hname)
    · exact .inr ⟨super, r, List.mem_cons_self, hr, .further (hsupers hn) hu hextends⟩
    · exact .inr ⟨n, u, List.mem_cons_of_mem _ hn, hu, hextends⟩

/-- The error says that a type is not defined, and it is not. -/
def Unknown (o : Ontology) (name : String) (e : OntologyError) : Prop :=
  o.find? name = none ∧ e = .schemaNotFound name o.name

/-- The error names a type that the search has found missing. -/
def Misses (o : Ontology) (visits : List Visit) (e : OntologyError) : Prop :=
  ∃ super, .missing super ∈ visits ∧ e = .schemaNotFound super o.name

theorem Misses.cons {visits : List Visit} {e : OntologyError} (visit : Visit)
    (h : o.Misses visits e) : o.Misses (visit :: visits) e := by
  obtain ⟨super, hmem, he⟩ := h
  exact ⟨super, List.mem_cons_of_mem _ hmem, he⟩

theorem Misses.exists_unknown {e : OntologyError} (h : o.Misses (o.lineage s) e) :
    ∃ super, Extends o s super ∧ o.Unknown super e := by
  obtain ⟨name, hmem, rfl⟩ := h
  have hsearch : .missing name ∈ o.search [foldName s.name] (tasksOf s) := by
    simpa [lineage] using hmem
  refine ⟨name, ?_, find?_of_missing_mem_search hsearch, rfl⟩
  have hsupers : ∀ {n}, Task.climb n ∈ tasksOf s → n ∈ s.supers := by simp [tasksOf]
  rcases extends_of_missing_mem_search hsearch with hname | ⟨super, u, hsuper, hu, hextends⟩
  · exact .super (hsupers hname)
  · exact .further (hsupers hsuper) hu hextends

theorem misses_of_firstSlot {visits : List Visit} {name : String} {e : OntologyError}
    (h : firstSlot o name visits = .error e) : o.Misses visits e := by
  induction visits with
  | nil => cases h
  | cons visit rest ih =>
    cases visit with
    | enter t =>
      simp only [firstSlot] at h
      split at h
      · cases h
      · exact (ih h).cons _
    | missing super =>
      cases h
      exact ⟨super, List.mem_cons_self, rfl⟩
    | leave t => exact (ih h).cons _

theorem misses_of_collectNames {visits : List Visit} {names : List String} {e : OntologyError}
    (h : collectNames o names visits = .error e) : o.Misses visits e := by
  induction visits generalizing names with
  | nil => cases h
  | cons visit rest ih =>
    cases visit with
    | enter t => exact (ih h).cons _
    | missing super =>
      cases h
      exact ⟨super, List.mem_cons_self, rfl⟩
    | leave t => exact (ih h).cons _

theorem misses_of_collectFacets {visits : List Visit} {slot : String} {e : OntologyError}
    (h : collectFacets o slot visits = .error e) : o.Misses visits e := by
  induction visits with
  | nil => cases h
  | cons visit rest ih =>
    cases visit with
    | enter t =>
      simp only [collectFacets] at h
      split at h
      · rename_i hrest
        cases h
        exact (ih hrest).cons _
      · cases h
    | missing super =>
      cases h
      exact ⟨super, List.mem_cons_self, rfl⟩
    | leave t => exact (ih h).cons _

theorem exists_slot?_of_describe {names : List String} {e : OntologyError}
    (h : describe o s names = .error e) : ∃ name ∈ names, o.slot? s name = .error e := by
  induction names with
  | nil => cases h
  | cons name rest ih =>
    rw [describe] at h
    split at h
    · rename_i hslot
      cases h
      exact ⟨name, List.mem_cons_self, hslot⟩
    · rename_i hrest
      cases h
      obtain ⟨n, hn, hslot⟩ := ih hrest
      exact ⟨n, List.mem_cons_of_mem _ hn, hslot⟩
    · cases h
    · cases h

/-- The slots of a schema cannot be listed only because it extends a type that nobody defines. -/
theorem exists_unknown_of_slots {e : OntologyError} (h : o.slots s = .error e) :
    ∃ super, Extends o s super ∧ o.Unknown super e := by
  apply Misses.exists_unknown
  rw [slots] at h
  split at h
  · rename_i hnames
    cases h
    exact misses_of_collectNames hnames
  · obtain ⟨name, -, hslot⟩ := exists_slot?_of_describe h
    exact misses_of_firstSlot hslot

theorem exists_unknown_of_elementType? {slot : String} {e : OntologyError}
    (h : o.elementType? s slot = .error e) : ∃ super, Extends o s super ∧ o.Unknown super e := by
  rw [elementType?] at h
  split at h
  · rename_i hfacets
    cases h
    exact (misses_of_collectFacets hfacets).exists_unknown
  · cases h

end Ontology
end AgentContent
