import AgentContent.Ontology.Lineage

/-!
# AgentContent.Ontology.Compatibility

When values of one schema may stand where another schema is asked for.

* `compatible`: by name, by the kind of a root schema, as a variable or expression in place of a
  term, or by descent.
* `assignableFrom`: by compatibility, or slot by slot; a pair of types that is being compared
  already counts as assignable.
-/

namespace AgentContent
namespace Ontology

/-- Values of `s` may stand where `t` is asked for. -/
def compatible (o : Ontology) (s t : Schema) : Bool :=
  sameName s.name t.name ||
    (t.isRoot && t.kind.accepts s.kind) ||
    ((s.kind = .variable || s.kind = .ire) && t.kind.isTerm) ||
    o.descendsFrom s t.name

theorem compatible_refl (o : Ontology) (s : Schema) : o.compatible s s = true := by
  simp [compatible]

/-- The pairs of slot types to be compared for two slotted schemas, none when a slot of the first
cannot be filled from the second. -/
def pairSlots (o : Ontology) (source : Schema) :
    List SlotDescriptor → Option (List (String × String))
  | [] => some []
  | d :: rest =>
    match o.slot? source d.name with
    | .error _ => none
    | .ok (some e) => (pairSlots o source rest).map ((d.type, e.type) :: ·)
    | .ok none => if d.optional then pairSlots o source rest else none

def slotPairs (o : Ontology) (dest source : Schema) : Option (List (String × String)) :=
  match o.slots dest with
  | .error _ => none
  | .ok ds => pairSlots o source ds

def pairKey (dest source : Schema) : String × String :=
  (foldName dest.name, foldName source.name)

/-- All pairs of folded names. -/
def pairKeys (o : Ontology) : List (String × String) :=
  o.keys.flatMap fun a => o.keys.map fun b => (a, b)

theorem pairKey_mem {o : Ontology} {d s : String} {dest source : Schema}
    (hd : o.find? d = some dest) (hs : o.find? s = some source) :
    pairKey dest source ∈ o.pairKeys := by
  simp only [pairKeys, List.mem_flatMap, List.mem_map, pairKey]
  exact ⟨_, find?_mem_keys hd, _, find?_mem_keys hs, rfl⟩

/-- All pairs of type names are assignable, the assumed ones without being looked at. -/
def allAssignable (o : Ontology) (assumed : List (String × String)) :
    List (String × String) → Bool
  | [] => true
  | (d, s) :: rest =>
    match _hd : o.find? d, _hs : o.find? s with
    | some dest, some source =>
      if o.compatible source dest then allAssignable o assumed rest
      else if dest.kind.isSlotted && source.kind.isSlotted then
        if pairKey dest source ∈ assumed then allAssignable o assumed rest
        else
          match o.slotPairs dest source with
          | none => false
          | some pairs => allAssignable o (pairKey dest source :: assumed) (pairs ++ rest)
      else false
    | _, _ => false
termination_by pairs => (unseen o.pairKeys assumed, pairs.length)
decreasing_by
  · exact Prod.Lex.right _ (Nat.lt_succ_self _)
  · exact Prod.Lex.right _ (Nat.lt_succ_self _)
  · exact Prod.Lex.left _ _ (unseen_cons_lt (pairKey_mem _hd _hs) ‹_›)

/-- A value of `source` has what a value of `dest` needs. -/
def assignableFrom (o : Ontology) (dest source : Schema) : Bool :=
  if o.compatible source dest then true
  else if dest.kind.isSlotted && source.kind.isSlotted then
    match o.slotPairs dest source with
    | none => false
    | some pairs => allAssignable o [pairKey dest source] pairs
  else false

end Ontology
end AgentContent
