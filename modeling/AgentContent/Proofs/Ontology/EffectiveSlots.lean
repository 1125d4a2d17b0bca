import AgentContent.Proofs.Ontology.Ancestors

/-!
# AgentContent.Proofs.Ontology.EffectiveSlots

Which slots a schema has with all that it extends, whatever the graph of super types looks like:
one type may be reached on many ways, and a type may extend itself.

* `Walk`: a depth-first search as a recursion over names that hands on what it has seen.
* `exists_walk`, `Walk.unique`: there is just one such walk where all super types are defined.
* `Walk.search`: the search over tasks makes the same visits.
* `firstSlot_eq_findSome?`, `exists_addNames`: what the two readings of the visits come to.
* `EffectiveSlots`: what the list of all slots has to be.
* `exists_effectiveSlots`: the slots of every schema are that.
-/

namespace AgentContent
namespace Ontology

variable {o : Ontology} {s t : Schema}

/-! ## Depth-first walks -/

/-- A walk over the types of the names, in their order. It leaves out the types that it has seen,
and of every other one goes through the super types before it goes on. The list has the schemas in
the order in which the walk comes to them, and the last names are those seen in the end. -/
inductive Walk (o : Ontology) : List String → List String → List Schema → List String → Prop where
  | done {seen : List String} : Walk o seen [] [] seen
  | again {seen last rest : List String} {name : String} {s : Schema} {order : List Schema}
    (hs : o.find? name = some s) (hseen : foldName s.name ∈ seen)
    (hrest : Walk o seen rest order last) : Walk o seen (name :: rest) order last
  | new {seen mid last rest : List String} {name : String} {s : Schema} {above order : List Schema}
    (hs : o.find? name = some s) (hnew : foldName s.name ∉ seen)
    (habove : Walk o (foldName s.name :: seen) s.supers above mid)
    (hrest : Walk o mid rest order last) :
    Walk o seen (name :: rest) (s :: above ++ order) last

/-- What is seen in the end was seen before, or is a name of a schema on the way. -/
theorem Walk.mem_last_iff {seen names last : List String} {order : List Schema}
    (h : o.Walk seen names order last) {key : String} :
    key ∈ last ↔ key ∈ seen ∨ key ∈ order.map fun t => foldName t.name := by
  induction h with
  | done => simp
  | again _ _ _ ih => exact ih
  | new _ _ _ _ ihabove ihrest =>
    rw [ihrest, ihabove]
    simp only [List.mem_cons, List.cons_append, List.map_cons, List.map_append, List.mem_append,
      or_assoc]
    exact or_left_comm

/-- A walk comes to each schema once, and to none that it has seen before. -/
theorem Walk.nodup {seen names last : List String} {order : List Schema}
    (h : o.Walk seen names order last) : (order.map fun t => foldName t.name).Nodup ∧
      ∀ key ∈ order.map fun t => foldName t.name, key ∉ seen := by
  induction h with
  | done => simp
  | again _ _ _ ih => exact ih
  | new hs hnew habove _ ihabove ihrest =>
    obtain ⟨hnodup, hfresh⟩ := ihabove
    obtain ⟨hnodup', hfresh'⟩ := ihrest
    simp only [habove.mem_last_iff, List.mem_cons, not_or] at hfresh hfresh'
    rw [List.cons_append, List.map_cons, List.map_append, List.nodup_cons, List.nodup_append,
      List.forall_mem_cons, List.forall_mem_append, List.mem_append, not_or]
    refine ⟨⟨⟨fun h => (hfresh _ h).1 rfl, fun h => (hfresh' _ h).1.1 rfl⟩, hnodup, hnodup', ?_⟩,
      hnew, fun key h => (hfresh key h).2, fun key h => (hfresh' key h).1.2⟩
    rintro key hkey _ hkey' rfl
    exact (hfresh' key hkey').2 hkey

/-- Names of types with all that they extend defined have a walk. -/
theorem exists_walk (seen : List String) {names : List String}
    (h : ∀ name ∈ names, ∃ t, o.find? name = some t ∧ Resolves o t) :
    ∃ order last, o.Walk seen names order last := by
  -- the walk over super types has less unseen, the one over further names has fewer names
  suffices hall : ∀ n seen, unseen o.keys seen ≤ n → ∀ names : List String,
      (∀ name ∈ names, ∃ t, o.find? name = some t ∧ Resolves o t) →
        ∃ order last, o.Walk seen names order last from hall _ seen (Nat.le_refl _) names h
  intro n
  induction n using Nat.strongRecOn with
  | _ n ih =>
    intro seen hseen names h
    induction names generalizing seen with
    | nil => exact ⟨[], seen, .done⟩
    | cons name rest ihrest =>
      obtain ⟨⟨t, ht, hr⟩, hrest⟩ := List.forall_mem_cons.1 h
      by_cases hmem : foldName t.name ∈ seen
      · obtain ⟨order, last, hwalk⟩ := ihrest seen hseen hrest
        exact ⟨order, last, .again ht hmem hwalk⟩
      · have hlt := unseen_cons_lt (find?_mem_keys ht) hmem
        obtain ⟨above, mid, habove⟩ := ih _ (Nat.lt_of_lt_of_le hlt hseen) _ (Nat.le_refl _) t.supers
          fun name hname => hr.super hname
        have hsub : seen ⊆ mid := fun key hkey =>
          habove.mem_last_iff.2 (.inl (List.mem_cons_of_mem _ hkey))
        obtain ⟨order, last, hwalk⟩ :=
          ihrest mid (Nat.le_trans (unseen_le_of_subset _ hsub) hseen) hrest
        exact ⟨_, last, .new ht hmem habove hwalk⟩

theorem Walk.unique {seen names last last' : List String} {order order' : List Schema}
    (h : o.Walk seen names order last) (h' : o.Walk seen names order' last') :
    order' = order ∧ last' = last := by
  induction h generalizing order' last' with
  | done =>
    cases h'
    exact ⟨rfl, rfl⟩
  | again hs hseen _ ih =>
    cases h' with
    | again hs' _ hrest => exact ih hrest
    | new hs' hnew _ _ =>
      rw [hs] at hs'
      cases hs'
      exact absurd hseen hnew
  | new hs hnew _ _ ihabove ihrest =>
    cases h' with
    | again hs' hseen _ =>
      rw [hs] at hs'
      cases hs'
      exact absurd hseen hnew
    | new hs' _ habove hrest =>
      rw [hs] at hs'
      cases hs'
      obtain ⟨rfl, rfl⟩ := ihabove habove
      obtain ⟨rfl, rfl⟩ := ihrest hrest
      exact ⟨rfl, rfl⟩

/-! ## Visits -/

/-- The schema that the visit comes to. -/
def Visit.entered? : Visit → Option Schema
  | .enter s => some s
  | _ => none

theorem mem_entered_iff {visits : List Visit} :
    t ∈ visits.filterMap Visit.entered? ↔ .enter t ∈ visits := by
  rw [List.mem_filterMap]
  constructor
  · rintro ⟨visit, hvisit, ht⟩
    cases visit with
    | enter u =>
      cases ht
      exact hvisit
    | missing super => cases ht
    | leave u => cases ht
  · intro ht
    exact ⟨.enter t, ht, rfl⟩

/-- The visits come to the schemas of the list, leave no others, and find none missing. -/
structure Follows (order : List Schema) (visits : List Visit) : Prop where
  entered : visits.filterMap Visit.entered? = order
  left {t : Schema} : .leave t ∈ visits → t ∈ order
  found (super : String) : .missing super ∉ visits

/-- The search over tasks goes on behind the names as if it had seen what the walk has seen. -/
theorem Walk.search {seen names last : List String} {order : List Schema}
    (h : o.Walk seen names order last) : ∃ visits, Follows order visits ∧
      ∀ tasks, o.search seen (names.map .climb ++ tasks) = visits ++ o.search last tasks := by
  induction h with
  | done => exact ⟨[], ⟨rfl, by simp, by simp⟩, fun _ => rfl⟩
  | again hs hseen _ ih =>
    obtain ⟨visits, hfollows, hsearch⟩ := ih
    refine ⟨visits, hfollows, fun tasks => ?_⟩
    rw [List.map_cons, List.cons_append, search_seen hs hseen, hsearch]
  | @new _ _ _ _ _ s _ _ hs hnew _ _ ihabove ihrest =>
    obtain ⟨above, habove, hsearch⟩ := ihabove
    obtain ⟨visits, hvisits, hsearch'⟩ := ihrest
    refine ⟨.enter s :: above ++ .leave s :: visits, ⟨?_, ?_, ?_⟩, fun tasks => ?_⟩
    · simp [List.filterMap_cons, Visit.entered?, habove.entered, hvisits.entered]
    · intro t ht
      simp only [List.cons_append, List.mem_cons, List.mem_append, reduceCtorEq, false_or,
        Visit.leave.injEq] at ht ⊢
      rcases ht with ht | rfl | ht
      · exact .inr (.inl (habove.left ht))
      · exact .inl rfl
      · exact .inr (.inr (hvisits.left ht))
    · intro super hsuper
      have := habove.found super
      have := hvisits.found super
      simp_all
    · rw [List.map_cons, List.cons_append, search_new hs hnew, tasksOf, List.append_assoc, hsearch,
        List.singleton_append, Ontology.search, hsearch']
      simp

/-- A lineage enters the schema first and leaves it last. In between it follows the walk over the
super types. -/
theorem exists_visits {order : List Schema} {last : List String}
    (h : o.Walk [foldName s.name] s.supers order last) :
    ∃ visits, Follows order visits ∧ o.lineage s = .enter s :: (visits ++ [.leave s]) := by
  obtain ⟨visits, hfollows, hsearch⟩ := h.search
  refine ⟨visits, hfollows, ?_⟩
  rw [lineage, tasksOf, hsearch, search, search]

/-! ## What is read off the visits -/

/-- A slot is looked up in one schema after the other, in the order in which the search comes to
them. -/
theorem firstSlot_eq_findSome? {visits : List Visit} (h : ∀ super, .missing super ∉ visits)
    (name : String) : firstSlot o name visits =
      .ok ((visits.filterMap Visit.entered?).findSome? (·.ownSlot? name)) := by
  induction visits with
  | nil => rfl
  | cons visit rest ih =>
    have hrest := ih fun super hm => h super (List.mem_cons_of_mem _ hm)
    cases visit with
    | enter u =>
      rw [firstSlot, hrest]
      cases hown : u.ownSlot? name with
      | none => simp [Visit.entered?, hown]
      | some d => simp [Visit.entered?, hown]
    | missing super => exact absurd List.mem_cons_self (h super)
    | leave u => exact hrest

/-- Names of further slots go behind the names that there are, and are others. -/
theorem exists_addNames (names : List String) (slots : List SlotDescriptor) :
    ∃ further, addNames names slots = names ++ further ∧
      ∀ n ∈ further, ∀ m ∈ names, sameName m n = false := by
  induction slots generalizing names with
  | nil => exact ⟨[], (List.append_nil names).symm, by simp⟩
  | cons d rest ih =>
    simp only [addNames, List.foldl_cons] at ih ⊢
    split
    · exact ih names
    · rename_i hfree
      simp only [List.any_eq_true, not_exists, not_and, Bool.not_eq_true] at hfree
      obtain ⟨further, hfurther, hnew⟩ := ih (names ++ [d.name])
      refine ⟨d.name :: further, by rw [hfurther, List.append_assoc, List.singleton_append], ?_⟩
      refine List.forall_mem_cons.2 ⟨hfree, ?_⟩
      intro n hn m hm
      exact hnew n hn m (List.mem_append_left _ hm)

theorem mem_or_exists_of_mem_addNames {names : List String} {slots : List SlotDescriptor}
    {name : String} (h : name ∈ addNames names slots) :
    name ∈ names ∨ ∃ d ∈ slots, d.name = name := by
  induction slots generalizing names with
  | nil => exact .inl h
  | cons d rest ih =>
    simp only [addNames, List.foldl_cons] at ih h
    rw [List.exists_mem_cons_iff]
    rcases ih h with h | h
    · split at h
      · exact .inl h
      · rcases List.mem_append.1 h with h | h
        · exact .inl h
        · exact .inr (.inl (List.mem_singleton.1 h).symm)
    · exact .inr (.inr h)

theorem collectNames_append {visits : List Visit} {names all : List String}
    (h : collectNames o names visits = .ok all) (rest : List Visit) :
    collectNames o names (visits ++ rest) = collectNames o all rest := by
  induction visits generalizing names with
  | nil =>
    cases h
    rfl
  | cons visit visits ih =>
    cases visit with
    | enter t => exact ih h
    | missing super => cases h
    | leave t => exact ih h

/-- A collected name was there before, or is the name of a slot of a schema that was left. -/
theorem exists_of_mem_collectNames {visits : List Visit} {names all : List String}
    (h : collectNames o names visits = .ok all) {name : String} (hname : name ∈ all) :
    name ∈ names ∨ ∃ t, .leave t ∈ visits ∧ ∃ d ∈ t.slots, d.name = name := by
  induction visits generalizing names with
  | nil =>
    cases h
    exact .inl hname
  | cons visit rest ih =>
    cases visit with
    | enter u => simpa using ih h
    | missing super => cases h
    | leave u =>
      rcases ih h with hadded | ⟨t, ht, hd⟩
      · refine (mem_or_exists_of_mem_addNames hadded).imp_right fun hd => ?_
        exact ⟨u, List.mem_cons_self, hd⟩
      · exact .inr ⟨t, List.mem_cons_of_mem _ ht, hd⟩

theorem exists_describe_append {names further : List String} {ds : List SlotDescriptor}
    (h : describe o s (names ++ further) = .ok ds) : ∃ first second, ds = first ++ second ∧
      describe o s names = .ok first ∧ describe o s further = .ok second := by
  induction names generalizing ds with
  | nil => exact ⟨[], ds, rfl, rfl, h⟩
  | cons name rest ih =>
    rw [List.cons_append, describe] at h
    split at h
    · cases h
    · cases h
    · rename_i hnone hrest
      cases h
      obtain ⟨first, second, rfl, hfirst, hsecond⟩ := ih hrest
      exact ⟨first, second, rfl, by simp only [describe, hnone, hfirst], hsecond⟩
    · rename_i d ds' hd hrest
      cases h
      obtain ⟨first, second, rfl, hfirst, hsecond⟩ := ih hrest
      exact ⟨d :: first, second, rfl, by simp only [describe, hd, hfirst], hsecond⟩

/-! ## The slots of a schema -/

/-- Another schema that the schema extends declares a slot of the name. -/
def Inherits (o : Ontology) (s : Schema) (name : String) : Prop :=
  ∃ t, o.Ancestor s t ∧ t ≠ s ∧ ∃ d, t.ownSlot? name = some d

theorem exists_inherited_first (hs : o.Registered s) (hr : Resolves o s)
    {ds : List SlotDescriptor} (hds : o.slots s = .ok ds) : ∃ inherited own,
      ds = inherited ++ own ∧ (∀ d ∈ inherited, o.Inherits s d.name) ∧
        ∀ d ∈ own, ¬ o.Inherits s d.name := by
  obtain ⟨order, last, hwalk⟩ := exists_walk [foldName s.name] fun name hname => hr.super hname
  obtain ⟨visits, hfollows, hlineage⟩ := exists_visits hwalk
  obtain ⟨names, hnames⟩ := exists_collectNames (o := o) hfollows.found []
  obtain ⟨further, hfurther, hnew⟩ := exists_addNames names s.slots
  have hall : collectNames o [] (o.lineage s) = .ok (names ++ further) := by
    rw [hlineage, collectNames, collectNames_append hnames, collectNames, collectNames, hfurther]
  simp only [slots, hall] at hds
  obtain ⟨inherited, own, rfl, hinherited, hown⟩ := exists_describe_append hds
  refine ⟨inherited, own, rfl, ?_, ?_⟩
  · intro d hd
    obtain ⟨name, hname, hslot⟩ := (mem_describe_iff hinherited).1 hd
    obtain ⟨t, ht, e, he, rfl⟩ :=
      (exists_of_mem_collectNames hnames hname).resolve_left List.not_mem_nil
    have horder := hfollows.left ht
    have hvisit : .enter t ∈ visits := mem_entered_iff.1 (hfollows.entered ▸ horder)
    have henter : .enter t ∈ o.lineage s := by
      rw [hlineage]
      exact List.mem_cons_of_mem _ (List.mem_append_left _ hvisit)
    refine ⟨t, ancestor_of_mem_lineage henter, ?_, ?_⟩
    · rintro rfl
      exact hwalk.nodup.2 _ (List.mem_map_of_mem horder) List.mem_cons_self
    · have hsame := sameName_symm (sameName_of_firstSlot hslot)
      exact Option.isSome_iff_exists.1 (List.find?_isSome.2 ⟨e, he, hsame⟩)
  · rintro d hd ⟨t, ht, hne, e, he⟩
    obtain ⟨name, hname, hslot⟩ := (mem_describe_iff hown).1 hd
    have hleave := leave_mem_lineage (mem_lineage_of_ancestor hs ht)
    simp only [hlineage, List.mem_cons, List.mem_append, reduceCtorEq, Visit.leave.injEq, hne,
      List.not_mem_nil, or_false, false_or] at hleave
    obtain ⟨n, hn, hsame⟩ := mem_collectNames hnames (.inr ⟨t, hleave, e, he⟩)
    have hfree := hnew name hname n hn
    rw [sameName_trans hsame (sameName_of_firstSlot hslot)] at hfree
    cases hfree

/-- The descriptors are all slots that the schema has with what it extends, given the schemas that
declare them in the order in which they take precedence. -/
structure EffectiveSlots (o : Ontology) (s : Schema) (order : List Schema)
    (ds : List SlotDescriptor) : Prop where
  listed : o.slots s = .ok ds
  distinct : DistinctNames ds
  declared (name : String) : (∃ d ∈ ds, sameName d.name name = true) ↔ o.Declares s name
  resolved {d : SlotDescriptor} : d ∈ ds → o.slot? s d.name = .ok (some d)
  first (name : String) : o.slot? s name = .ok (order.findSome? (·.ownSlot? name))
  undeclared (name : String) : o.slot? s name = .ok none ↔ ¬ o.Declares s name
  inheritedFirst : ∃ inherited own, ds = inherited ++ own ∧
    (∀ d ∈ inherited, o.Inherits s d.name) ∧ ∀ d ∈ own, ¬ o.Inherits s d.name

/-- Where all that a schema extends is defined, one depth-first walk comes to each of its ancestors
once, and its slots can be listed: each name that an ancestor declares, under the descriptor of the
first schema on the walk that declares it, inherited names first. -/
theorem exists_effectiveSlots (hs : o.Registered s) (hr : Resolves o s) :
    ∃ order last, o.Walk [] [s.name] order last ∧
      (∀ order' last', o.Walk [] [s.name] order' last' → order' = order) ∧
      (order.map fun t => foldName t.name).Nodup ∧ (∀ t, t ∈ order ↔ o.Ancestor s t) ∧
        ∃ ds, o.EffectiveSlots s order ds := by
  obtain ⟨above, last, habove⟩ := exists_walk [foldName s.name] fun name hname => hr.super hname
  obtain ⟨visits, hfollows, hlineage⟩ := exists_visits habove
  obtain ⟨ds, hds⟩ := hr.slots_eq_ok
  have hwalk : o.Walk [] [s.name] (s :: above) last := by
    simpa using Walk.new hs List.not_mem_nil habove .done
  have hentered : (o.lineage s).filterMap Visit.entered? = s :: above := by
    simp [hlineage, List.filterMap_cons, Visit.entered?, hfollows.entered]
  have hfirst : ∀ name, o.slot? s name = .ok ((s :: above).findSome? (·.ownSlot? name)) := by
    intro name
    rw [slot?, firstSlot_eq_findSome? hr.not_missing, hentered]
  refine ⟨s :: above, last, hwalk, fun _ _ h => (hwalk.unique h).1, hwalk.nodup.1, fun t => ?_, ds,
    hds, distinct_slots hds, fun name => ?_, fun hd => ?_, hfirst, fun name => ?_,
    exists_inherited_first hs hr hds⟩
  · rw [← hentered, mem_entered_iff, mem_lineage_iff hs]
  · rw [← exists_slot?_iff hs hr]
    constructor
    · rintro ⟨d, hd, hname⟩
      obtain ⟨n, hn⟩ := (mem_slots_iff hds).1 hd
      exact ⟨d, by rw [← slot?_congr hname, slot?_name hn]⟩
    · rintro ⟨d, hd⟩
      exact ⟨d, (mem_slots_iff hds).2 ⟨name, hd⟩, sameName_of_firstSlot hd⟩
  · obtain ⟨n, hn⟩ := (mem_slots_iff hds).1 hd
    exact slot?_name hn
  · rw [← exists_slot?_iff hs hr, hfirst]
    cases (s :: above).findSome? (·.ownSlot? name) with
    | none => simp
    | some d => simp

def craft : Schema where
  name := "craft"
  kind := .concept
  supers := ["Amphibian"]
  slots := [⟨"hull", TypeName.string, false⟩]

def boat : Schema where
  name := "boat"
  kind := .concept
  supers := ["craft"]
  slots := [⟨"HULL", "material", false⟩, ⟨"draft", TypeName.float, true⟩]

def car : Schema where
  name := "car"
  kind := .concept
  supers := ["craft"]
  slots := [⟨"wheels", TypeName.integer, false⟩]

def amphibian : Schema where
  name := "amphibian"
  kind := .concept
  supers := ["car", "boat", "amphibian"]
  slots := [⟨"Draft", TypeName.integer, true⟩, ⟨"gears", TypeName.integer, true⟩]

/-- A diamond of types that leads back to itself. -/
def vehicles : Ontology where
  name := "vehicles"
  own := { schemas := [craft, boat, car, amphibian] }

theorem resolves_amphibian : vehicles.Resolves amphibian := by
  have hall : ∀ l ∈ vehicles.layers, ∀ s ∈ l.schemas, ∀ super ∈ s.supers,
      (vehicles.find? super).isSome = true := by decide
  exact Registered.resolves (fun _ ht => forall_of_layers hall ht) rfl

theorem exists_effectiveSlots_amphibian : vehicles.Registered amphibian ∧
    vehicles.Resolves amphibian ∧ ∃ order last, vehicles.Walk [] ["amphibian"] order last ∧
      (∀ t, t ∈ order ↔ vehicles.Ancestor amphibian t) ∧
        ∃ ds, vehicles.EffectiveSlots amphibian order ds := by
  have hreg : vehicles.Registered amphibian := rfl
  obtain ⟨order, last, hwalk, -, -, hancestors, hds⟩ :=
    exists_effectiveSlots hreg resolves_amphibian
  exact ⟨hreg, resolves_amphibian, order, last, hwalk, hancestors, hds⟩

end Ontology
end AgentContent
