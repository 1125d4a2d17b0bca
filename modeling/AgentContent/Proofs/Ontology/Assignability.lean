import AgentContent.Ontology.Compatibility
import AgentContent.Proofs.Ontology.Ancestors

/-!
# AgentContent.Proofs.Ontology.Assignability

Assignability is the greatest structural simulation between schemas.

* `Simulation`: a relation on registered schemas whose pairs are compatible, or slotted with
  related slots.
* `allAssignable_sound`: the pairs that a run takes for assignable, those met before among them,
  all pass the check of their slots in the end.
* `Simulation.allAssignable`: a run over pairs of a simulation never fails.
* `simulation_assignableFrom`: assignability is a simulation itself.
* `assignableFrom_iff_exists_simulation`: a schema is assignable from another one just when some
  simulation relates them.
-/

namespace AgentContent
namespace Ontology

variable {o : Ontology} {dest source : Schema} {R : Schema → Schema → Prop}

/-! ## Simulations -/

/-- Both names stand for schemas, and these are related. -/
def RelatesTypes (o : Ontology) (R : Schema → Schema → Prop) (d s : String) : Prop :=
  ∃ dest source, o.find? d = some dest ∧ o.find? s = some source ∧ R dest source

/-- The slot has a counterpart in the source whose type is related to its own, or it is optional and
has none. -/
def Fills (o : Ontology) (P : String → String → Prop) (source : Schema) (d : SlotDescriptor) :
    Prop :=
  (∃ e, o.slot? source d.name = .ok (some e) ∧ P d.type e.type) ∨
    (o.slot? source d.name = .ok none ∧ d.optional = true)

/-- The slots of the first schema can be listed, and the second one fills them all. -/
def Supplies (o : Ontology) (P : String → String → Prop) (dest source : Schema) : Prop :=
  ∃ ds, o.slots dest = .ok ds ∧ ∀ d ∈ ds, o.Fills P source d

/-- Each pair of registered schemas is compatible, or matches slot by slot up to the relation
itself. -/
structure Simulation (o : Ontology) (R : Schema → Schema → Prop) : Prop where
  registered {d s : Schema} : R d s → o.Registered d ∧ o.Registered s
  step {d s : Schema} : R d s → o.compatible s d = true ∨
    (d.kind.isSlotted = true ∧ s.kind.isSlotted = true ∧ o.Supplies (o.RelatesTypes R) d s)

theorem RelatesTypes.mono {R' : Schema → Schema → Prop} {d s : String}
    (h : o.RelatesTypes R d s)
    (himp : ∀ dest source, o.Registered dest → o.Registered source → R dest source →
      R' dest source) : o.RelatesTypes R' d s := by
  obtain ⟨dest, source, hd, hs, hR⟩ := h
  exact ⟨dest, source, hd, hs,
    himp dest source (registered_of_find? hd) (registered_of_find? hs) hR⟩

theorem Supplies.mono {P Q : String → String → Prop} (h : o.Supplies P dest source)
    (himp : ∀ d s, P d s → Q d s) : o.Supplies Q dest source := by
  obtain ⟨ds, hds, hfills⟩ := h
  refine ⟨ds, hds, fun d hd => (hfills d hd).imp ?_ id⟩
  rintro ⟨e, he, hP⟩
  exact ⟨e, he, himp _ _ hP⟩

/-! ## Pairs of slot types -/

theorem pairSlots_iff {P : String → String → Prop} {ds : List SlotDescriptor} :
    (∃ ps, pairSlots o source ds = some ps ∧ ∀ p ∈ ps, P p.1 p.2) ↔
      ∀ d ∈ ds, o.Fills P source d := by
  induction ds with
  | nil => simp [pairSlots]
  | cons d rest ih =>
    rw [List.forall_mem_cons, ← ih, pairSlots]
    cases hslot : o.slot? source d.name with
    | error e => simp [Fills, hslot]
    | ok found =>
      cases found with
      | none => by_cases hopt : d.optional = true <;> simp [Fills, hslot, hopt]
      | some e =>
        simp only [Option.map_eq_some_iff, Fills, hslot]
        constructor
        · rintro ⟨_, ⟨ps, hps, rfl⟩, hP⟩
          obtain ⟨hd, hrest⟩ := List.forall_mem_cons.1 hP
          exact ⟨.inl ⟨e, rfl, hd⟩, ps, hps, hrest⟩
        · rintro ⟨⟨_, he, hd⟩ | ⟨he, -⟩, ps, hps, hrest⟩
          · cases he
            exact ⟨_, ⟨ps, hps, rfl⟩, List.forall_mem_cons.2 ⟨hd, hrest⟩⟩
          · cases he

/-- The pairs of slot types to be compared are all related just when the source supplies the
slots. -/
theorem slotPairs_iff {P : String → String → Prop} :
    (∃ ps, o.slotPairs dest source = some ps ∧ ∀ p ∈ ps, P p.1 p.2) ↔
      o.Supplies P dest source := by
  rw [slotPairs, Supplies]
  cases o.slots dest with
  | error e => simp
  | ok ds => simpa using @pairSlots_iff o source P ds

/-! ## What a run takes for assignable -/

/-- The pair is compatible, or it is one of slotted schemas whose key is on the list. -/
def Admits (o : Ontology) (keys : List (String × String)) (dest source : Schema) : Prop :=
  o.compatible source dest = true ∨
    (dest.kind.isSlotted = true ∧ source.kind.isSlotted = true ∧ pairKey dest source ∈ keys)

theorem pairKey_inj {d s : Schema} (hd : o.Registered d) (hs : o.Registered s)
    (hdest : o.Registered dest) (hsource : o.Registered source)
    (h : pairKey d s = pairKey dest source) : d = dest ∧ s = source := by
  obtain ⟨hdname, hsname⟩ := Prod.mk.inj h
  exact ⟨hdest.eq hd hdname, hsource.eq hs hsname⟩

/-- Of a run that succeeds, the keys met in it: all pairs that it was given are admitted by them,
and the slots of each pair that it has opened match up to admitted pairs. A key may have been
assumed before its pair was through, so this is said of the keys at the end of the run. -/
theorem allAssignable_sound {assumed pairs : List (String × String)}
    (h : o.allAssignable assumed pairs = true) :
    ∃ keys, assumed ⊆ keys ∧
      (∀ p ∈ pairs, o.RelatesTypes (o.Admits keys) p.1 p.2) ∧
      ∀ d s, o.Registered d → o.Registered s → pairKey d s ∈ keys → pairKey d s ∉ assumed →
        o.Supplies (o.RelatesTypes (o.Admits keys)) d s := by
  fun_induction allAssignable o assumed pairs with
  | case1 assumed => exact ⟨assumed, fun _ h => h, by simp, fun d s _ _ hin hnot => absurd hin hnot⟩
  | case2 assumed d s rest dest source hd hs hcomp ih =>
    obtain ⟨keys, hsub, hpend, hopened⟩ := ih h
    exact ⟨keys, hsub, List.forall_mem_cons.2 ⟨⟨dest, source, hd, hs, .inl hcomp⟩, hpend⟩, hopened⟩
  | case3 assumed d s rest dest source hd hs hcomp hslotted hmem ih =>
    obtain ⟨keys, hsub, hpend, hopened⟩ := ih h
    obtain ⟨hdslot, hsslot⟩ := Bool.and_eq_true_iff.1 hslotted
    have hadmits : o.Admits keys dest source := .inr ⟨hdslot, hsslot, hsub hmem⟩
    exact ⟨keys, hsub, List.forall_mem_cons.2 ⟨⟨dest, source, hd, hs, hadmits⟩, hpend⟩, hopened⟩
  | case4 => cases h
  | case5 assumed d s rest dest source hd hs hcomp hslotted hmem ps hps ih =>
    obtain ⟨keys, hsub, hpend, hopened⟩ := ih h
    obtain ⟨hdslot, hsslot⟩ := Bool.and_eq_true_iff.1 hslotted
    obtain ⟨hkey, hsub⟩ := List.cons_subset.1 hsub
    obtain ⟨hps', hrest⟩ := List.forall_mem_append.1 hpend
    have hadmits : o.Admits keys dest source := .inr ⟨hdslot, hsslot, hkey⟩
    refine ⟨keys, hsub, List.forall_mem_cons.2 ⟨⟨dest, source, hd, hs, hadmits⟩, hrest⟩, ?_⟩
    intro d' s' hd' hs' hin hnot
    by_cases hsame : pairKey d' s' = pairKey dest source
    · -- the pair that was opened just now
      obtain ⟨rfl, rfl⟩ :=
        pairKey_inj hd' hs' (registered_of_find? hd) (registered_of_find? hs) hsame
      exact slotPairs_iff.1 ⟨ps, hps, hps'⟩
    · exact hopened d' s' hd' hs' hin (by simp [hsame, hnot])
  | case6 => cases h
  | case7 => cases h

/-- The registered pairs that the keys of a whole run admit are a simulation. -/
theorem simulation_of_opened {keys : List (String × String)}
    (h : ∀ d s, o.Registered d → o.Registered s → pairKey d s ∈ keys →
      o.Supplies (o.RelatesTypes (o.Admits keys)) d s) :
    o.Simulation fun d s => o.Registered d ∧ o.Registered s ∧ o.Admits keys d s where
  registered := fun ⟨hd, hs, _⟩ => ⟨hd, hs⟩
  step := by
    rintro d s ⟨hd, hs, hcomp | ⟨hdslot, hsslot, hkey⟩⟩
    · exact .inl hcomp
    · refine .inr ⟨hdslot, hsslot, (h d s hd hs hkey).mono ?_⟩
      intro _ _ hnames
      exact hnames.mono fun _ _ hd' hs' hadmits => ⟨hd', hs', hadmits⟩

/-! ## Runs over the pairs of a simulation -/

theorem RelatesTypes.related {d s : String} (h : o.RelatesTypes R d s) (hd : o.find? d = some dest)
    (hs : o.find? s = some source) : R dest source := by
  obtain ⟨dest', source', hd', hs', hR⟩ := h
  cases hd.symm.trans hd'
  cases hs.symm.trans hs'
  exact hR

/-- A run over pairs of a simulation succeeds, whatever it assumes. -/
theorem Simulation.allAssignable (hR : o.Simulation R) {pairs : List (String × String)}
    (hpairs : ∀ p ∈ pairs, o.RelatesTypes R p.1 p.2) (assumed : List (String × String)) :
    o.allAssignable assumed pairs = true := by
  fun_induction Ontology.allAssignable o assumed pairs with
  | case1 => rfl
  | case2 assumed d s rest dest source hd hs hcomp ih =>
    exact ih (List.forall_mem_cons.1 hpairs).2
  | case3 assumed d s rest dest source hd hs hcomp hslotted hmem ih =>
    exact ih (List.forall_mem_cons.1 hpairs).2
  | case4 assumed d s rest dest source hd hs hcomp hslotted hmem hnone =>
    have hrel := (List.forall_mem_cons.1 hpairs).1.related hd hs
    obtain ⟨-, -, hsupplies⟩ := (hR.step hrel).resolve_left hcomp
    obtain ⟨ps, hps, -⟩ := slotPairs_iff.2 hsupplies
    rw [hnone] at hps
    cases hps
  | case5 assumed d s rest dest source hd hs hcomp hslotted hmem ps hps ih =>
    obtain ⟨hpair, hrest⟩ := List.forall_mem_cons.1 hpairs
    obtain ⟨-, -, hsupplies⟩ := (hR.step (hpair.related hd hs)).resolve_left hcomp
    obtain ⟨ps', hps', hrelated⟩ := slotPairs_iff.2 hsupplies
    cases hps.symm.trans hps'
    exact ih (List.forall_mem_append.2 ⟨hrelated, hrest⟩)
  | case6 assumed d s rest dest source hd hs hcomp hslotted =>
    have hrel := (List.forall_mem_cons.1 hpairs).1.related hd hs
    obtain ⟨hdslot, hsslot, -⟩ := (hR.step hrel).resolve_left hcomp
    simp [hdslot, hsslot] at hslotted
  | case7 assumed d s rest hnone =>
    obtain ⟨⟨dest, source, hd, hs, -⟩, -⟩ := List.forall_mem_cons.1 hpairs
    exact (hnone dest source hd hs).elim

/-! ## Assignability -/

theorem assignableFrom_eq_allAssignable (hd : o.Registered dest) (hs : o.Registered source) :
    o.assignableFrom dest source = o.allAssignable [] [(dest.name, source.name)] := by
  have hnil : ∀ assumed, o.allAssignable assumed [] = true := fun _ => by rw [allAssignable]
  have hrun : o.allAssignable [] [(dest.name, source.name)] = o.assignableFrom dest source := by
    rw [allAssignable]
    split
    · rename_i d s hfindd hfinds
      cases hd.symm.trans hfindd
      cases hs.symm.trans hfinds
      simp [assignableFrom, hnil]
    · rename_i hnone
      exact (hnone dest source hd hs).elim
  exact hrun.symm

theorem exists_simulation_of_assignableFrom (hd : o.Registered dest) (hs : o.Registered source)
    (h : o.assignableFrom dest source = true) : ∃ R, o.Simulation R ∧ R dest source := by
  rw [assignableFrom_eq_allAssignable hd hs] at h
  obtain ⟨keys, -, hpairs, hopened⟩ := allAssignable_sound h
  have hsim := simulation_of_opened fun d s hd' hs' hkey =>
    hopened d s hd' hs' hkey List.not_mem_nil
  have hadmits := (hpairs _ (List.mem_singleton_self _)).related hd hs
  exact ⟨_, hsim, hd, hs, hadmits⟩

theorem Simulation.assignableFrom (hR : o.Simulation R) (h : R dest source) :
    o.assignableFrom dest source = true := by
  obtain ⟨hd, hs⟩ := hR.registered h
  rw [assignableFrom_eq_allAssignable hd hs]
  refine hR.allAssignable (fun p hp => ?_) []
  cases List.mem_singleton.1 hp
  exact ⟨dest, source, hd, hs, h⟩

/-- Assignability between registered schemas is a simulation itself, which every other one is part
of. -/
theorem simulation_assignableFrom (o : Ontology) :
    o.Simulation fun d s =>
      o.Registered d ∧ o.Registered s ∧ o.assignableFrom d s = true where
  registered := fun ⟨hd, hs, _⟩ => ⟨hd, hs⟩
  step := by
    rintro d s ⟨hd, hs, h⟩
    obtain ⟨R, hR, hrel⟩ := exists_simulation_of_assignableFrom hd hs h
    refine (hR.step hrel).imp_right fun ⟨hdslot, hsslot, hsupplies⟩ =>
      ⟨hdslot, hsslot, hsupplies.mono fun _ _ hnames => ?_⟩
    exact hnames.mono fun _ _ hd' hs' hrel' => ⟨hd', hs', hR.assignableFrom hrel'⟩

/-- A schema is assignable from another one just when some simulation relates the two: what is
assumed on the way, also of pairs that fail later, never decides. -/
theorem assignableFrom_iff_exists_simulation (hd : o.Registered dest) (hs : o.Registered source) :
    o.assignableFrom dest source = true ↔ ∃ R, o.Simulation R ∧ R dest source := by
  constructor
  · exact exists_simulation_of_assignableFrom hd hs
  · rintro ⟨R, hR, hrel⟩
    exact hR.assignableFrom hrel

/-- A schema of list nodes, which refers to itself. -/
def node (name : String) : Schema where
  name := name
  kind := .concept
  slots := [⟨"value", TypeName.integer, false⟩, ⟨"next", name, true⟩]

def integers : Schema where
  name := TypeName.integer
  kind := .primitive

def nodeLists : Ontology where
  name := "lists"
  own := { schemas := [integers, node "NodeA", node "NodeB"] }

/-- Nodes of either list, and what they hold. -/
inductive NodePair : Schema → Schema → Prop where
  | nodes : NodePair (node "NodeA") (node "NodeB")
  | values : NodePair integers integers

theorem slot?_node (o : Ontology) (name : String) :
    ∀ d ∈ (node name).slots, o.slot? (node name) d.name = .ok (some d) := by
  have hne : sameName "value" "next" = false := by decide
  simp only [slot?_of_supers_nil (s := node name) rfl]
  simp [Schema.ownSlot?, node, hne]

theorem slots_node (o : Ontology) (name : String) :
    o.slots (node name) = .ok (node name).slots := by
  have hdistinct : (["value", "next"].map foldName).Nodup := by decide
  exact slots_of_supers_nil rfl hdistinct

theorem simulation_nodePair : nodeLists.Simulation NodePair where
  registered := by
    rintro d s (_ | _)
    · exact ⟨rfl, rfl⟩
    · exact ⟨rfl, rfl⟩
  step := by
    rintro d s (_ | _)
    · obtain ⟨hvalue, hnext⟩ := List.forall_mem_cons.1 (slot?_node nodeLists "NodeB")
      rw [List.forall_mem_singleton] at hnext
      refine .inr ⟨rfl, rfl, _, slots_node _ _, List.forall_mem_cons.2
        ⟨.inl ⟨_, hvalue, _, _, rfl, rfl, .values⟩, List.forall_mem_singleton.2
          (.inl ⟨_, hnext, _, _, rfl, rfl, .nodes⟩)⟩⟩
    · exact .inl rfl

theorem assignableFrom_nodes :
    nodeLists.Registered (node "NodeA") ∧ nodeLists.Registered (node "NodeB") ∧
      nodeLists.assignableFrom (node "NodeA") (node "NodeB") = true :=
  have ⟨ha, hb⟩ := simulation_nodePair.registered .nodes
  ⟨ha, hb, (assignableFrom_iff_exists_simulation ha hb).2
    ⟨NodePair, simulation_nodePair, .nodes⟩⟩

end Ontology
end AgentContent
