import AgentContent.Ontology.Basic

/-!
# AgentContent.Ontology.Lineage

A schema and all that it extends, directly or not. `lineage` lists the visits of a depth-first
search over super types, each schema once: it is entered before its super types and left after
them, and a super type that nobody defines leaves a mark.

* `unseen`: how much of a finite universe a search has not seen yet, the measure by which searches
  over schemas end. It falls when a member is seen for the first time, and never grows.
* `search_seen`, `search_new`: where the search comes to a schema again, and for the first time.
* `slot?`: the descriptor of a slot, from the first schema entered that declares it.
* `slots`: all slots, those of super types first.
* `facetsOf`: the facets of a slot, own ones first.
* `descendsFrom`: some schema entered has the name.
-/

namespace AgentContent

section Unseen

variable {α : Type} [DecidableEq α]

/-- How many members of the universe are not seen yet. -/
def unseen (keys seen : List α) : Nat :=
  (keys.filter fun k => !seen.contains k).length

theorem unseen_le_of_subset (keys : List α) {seen seen' : List α} (h : seen ⊆ seen') :
    unseen keys seen' ≤ unseen keys seen := by
  simp only [unseen, ← List.countP_eq_length_filter]
  refine List.countP_mono_left fun k _ hk => ?_
  simp only [Bool.not_eq_true', List.contains_eq_mem, decide_eq_false_iff_not] at hk ⊢
  exact fun hmem => hk (h hmem)

theorem unseen_cons_lt {keys seen : List α} {k : α} (hk : k ∈ keys) (hs : k ∉ seen) :
    unseen keys (k :: seen) < unseen keys seen := by
  induction keys with
  | nil => cases hk
  | cons a rest ih =>
    have le : unseen rest (k :: seen) ≤ unseen rest seen :=
      unseen_le_of_subset rest (List.subset_cons_self k seen)
    simp only [unseen, List.filter_cons] at ih le ⊢
    by_cases ha : a = k
    · subst ha; simp [hs]; simp at le; omega
    · have hk' : k ∈ rest := by
        rcases List.mem_cons.1 hk with rfl | h
        · exact absurd rfl ha
        · exact h
      have := ih hk'
      by_cases has : a ∈ seen <;> simp_all

end Unseen

namespace Ontology

inductive Visit where
  | enter (s : Schema)
  | missing (name : String)
  | leave (s : Schema)

/-- What is left to do in a search. -/
inductive Task where
  | climb (name : String)
  | leave (s : Schema)

/-- The tasks that entering a schema gives. -/
def tasksOf (s : Schema) : List Task :=
  s.supers.map .climb ++ [.leave s]

def search (o : Ontology) (seen : List String) : List Task → List Visit
  | [] => []
  | .leave s :: rest => .leave s :: search o seen rest
  | .climb name :: rest =>
    match _h : o.find? name with
    | none => .missing name :: search o seen rest
    | some s =>
      if foldName s.name ∈ seen then search o seen rest
      else .enter s :: search o (foldName s.name :: seen) (tasksOf s ++ rest)
termination_by tasks => (unseen o.keys seen, tasks.length)
decreasing_by
  · exact Prod.Lex.right _ (Nat.lt_succ_self _)
  · exact Prod.Lex.right _ (Nat.lt_succ_self _)
  · exact Prod.Lex.right _ (Nat.lt_succ_self _)
  · exact Prod.Lex.left _ _ (unseen_cons_lt (find?_mem_keys _h) ‹_›)

theorem search_seen {o : Ontology} {seen : List String} {name : String} {s : Schema}
    (hs : o.find? name = some s) (hseen : foldName s.name ∈ seen) (rest : List Task) :
    o.search seen (.climb name :: rest) = o.search seen rest := by
  rw [search]
  split
  · rename_i hnone
    rw [hs] at hnone
    cases hnone
  · rename_i t ht
    rw [hs] at ht
    cases ht
    rw [if_pos hseen]

theorem search_new {o : Ontology} {seen : List String} {name : String} {s : Schema}
    (hs : o.find? name = some s) (hnew : foldName s.name ∉ seen) (rest : List Task) :
    o.search seen (.climb name :: rest) =
      .enter s :: o.search (foldName s.name :: seen) (tasksOf s ++ rest) := by
  rw [search]
  split
  · rename_i hnone
    rw [hs] at hnone
    cases hnone
  · rename_i t ht
    rw [hs] at ht
    cases ht
    rw [if_neg hnew]

/-- The visits of the search that starts at a schema. -/
def lineage (o : Ontology) (s : Schema) : List Visit :=
  .enter s :: search o [foldName s.name] (tasksOf s)

/-- The first declaration of a slot, unless a missing super type comes before it. -/
def firstSlot (o : Ontology) (name : String) :
    List Visit → Except OntologyError (Option SlotDescriptor)
  | [] => .ok none
  | .enter s :: rest =>
    match s.ownSlot? name with
    | some d => .ok (some d)
    | none => firstSlot o name rest
  | .missing super :: _ => .error (.schemaNotFound super o.name)
  | .leave _ :: rest => firstSlot o name rest

/-- The descriptor of a slot, nothing if neither the schema nor what it extends declares it. -/
def slot? (o : Ontology) (s : Schema) (name : String) :
    Except OntologyError (Option SlotDescriptor) :=
  firstSlot o name (o.lineage s)

/-- The names, each once, with the names of further slots behind them. -/
def addNames (names : List String) (slots : List SlotDescriptor) : List String :=
  slots.foldl (fun names d => if names.any (sameName · d.name) then names else names ++ [d.name])
    names

def collectNames (o : Ontology) (names : List String) :
    List Visit → Except OntologyError (List String)
  | [] => .ok names
  | .enter _ :: rest => collectNames o names rest
  | .missing super :: _ => .error (.schemaNotFound super o.name)
  | .leave s :: rest => collectNames o (addNames names s.slots) rest

/-- The descriptors of the names that have one. -/
def describe (o : Ontology) (s : Schema) : List String → Except OntologyError (List SlotDescriptor)
  | [] => .ok []
  | name :: rest =>
    match o.slot? s name, describe o s rest with
    | .error e, _ => .error e
    | .ok _, .error e => .error e
    | .ok none, .ok ds => .ok ds
    | .ok (some d), .ok ds => .ok (d :: ds)

/-- All slots of a schema, its own and those of the schemas that it extends. -/
def slots (o : Ontology) (s : Schema) : Except OntologyError (List SlotDescriptor) :=
  match collectNames o [] (o.lineage s) with
  | .error e => .error e
  | .ok names => describe o s names

def slotNames (o : Ontology) (s : Schema) : Except OntologyError (List String) :=
  match o.slots s with
  | .error e => .error e
  | .ok ds => .ok (ds.map (·.name))

def containsSlot (o : Ontology) (s : Schema) (name : String) : Except OntologyError Bool :=
  match o.slot? s name with
  | .error e => .error e
  | .ok d => .ok d.isSome

def collectFacets (o : Ontology) (slot : String) : List Visit → Except OntologyError (List Facet)
  | [] => .ok []
  | .enter s :: rest =>
    match collectFacets o slot rest with
    | .error e => .error e
    | .ok fs => .ok (s.ownFacets slot ++ fs)
  | .missing super :: _ => .error (.schemaNotFound super o.name)
  | .leave _ :: rest => collectFacets o slot rest

/-- All facets of a slot. -/
def facetsOf (o : Ontology) (s : Schema) (slot : String) : Except OntologyError (List Facet) :=
  collectFacets o slot (o.lineage s)

def elementTypeIn? : List Facet → Option String
  | [] => none
  | .elementType type :: _ => some type
  | _ :: rest => elementTypeIn? rest

/-- The type that the elements of an aggregate in a slot should have. -/
def elementType? (o : Ontology) (s : Schema) (slot : String) :
    Except OntologyError (Option String) :=
  match o.facetsOf s slot with
  | .error e => .error e
  | .ok fs => .ok (elementTypeIn? fs)

/-- The schema that the elements of an aggregate in a slot should have. -/
def elementSchema? (o : Ontology) (s : Schema) (slot : String) :
    Except OntologyError (Option Schema) :=
  match o.elementType? s slot with
  | .error e => .error e
  | .ok none => .ok none
  | .ok (some type) =>
    match o.schema type with
    | .error e => .error e
    | .ok t => .ok (some t)

def Visit.enters (ancestor : String) : Visit → Bool
  | .enter s => sameName s.name ancestor
  | _ => false

/-- The schema or one that it extends has the name. Super types that nobody defines do not count. -/
def descendsFrom (o : Ontology) (s : Schema) (ancestor : String) : Bool :=
  (o.lineage s).any (Visit.enters ancestor)

end Ontology
end AgentContent
