import AgentContent.Proofs.Vocabulary.Basic
import AgentContent.Vocabulary.Basic
import Mathlib.Data.List.Nodup

/-!
# AgentContent.Proofs.Ontology.Registration

What calls add to an ontology, and that they keep it consistent.

* `append`: schemas that come after those that are there. `find?_append_of_unlisted`,
  `find?_append_of_listed`: what is found then.
* `needed`: the aggregate types that come with a schema. `insert_eq`: the schema follows them.
* `Call`, `attempt_ok`: what a call that succeeds has added and bound.
* `Consistent`: local names are distinct, and every class that is bound anywhere has a schema.
* `Assembled`, `Assembled.consistent`: ontologies that come from compositions and calls are
  consistent.
* `Settled`, `Assembled.settled`: what is registered anywhere in them needs nothing any more.
* `Extended`, `attempt_extended`: what a call that succeeds changes.
-/

namespace AgentContent

theorem Layer.class?_bindClass (l : Layer) (c d : AppClass) (type : String) :
    (l.bindClass c type).class? d = if c = d then some type else l.class? d := by
  unfold class? bindClass
  rw [List.find?_cons]
  by_cases h : c = d
  · subst h
    simp
  · have hothers : ∀ e : AppClass × String,
        decide (decide (e.1 ≠ c) = true ∧ decide (e.1 = d) = true) = decide (e.1 = d) := by
      intro e
      by_cases he : e.1 = d
      · simp [he, Ne.symm h]
      · simp [he]
    rw [if_neg h, decide_eq_false h, List.find?_filter]
    simp only [hothers]

namespace Schema

/-- The schema of an aggregate type that comes with another schema. -/
def ofAggregate (type : String) : Schema where
  name := type
  kind := .aggregate

/-- The schema needs an aggregate type, spelled in this way or another. -/
def Asks (s : Schema) (type : String) : Prop :=
  ∃ asked ∈ s.pending, sameName asked type = true

end Schema

namespace Ontology

variable {o p : Ontology}

/-! ## Schemas at the end -/

def append (o : Ontology) (added : List Schema) : Ontology :=
  { o with own := { o.own with schemas := o.own.schemas ++ added } }

theorem append_append (o : Ontology) (xs ys : List Schema) :
    (o.append xs).append ys = o.append (xs ++ ys) := by
  simp only [append, List.append_assoc]

theorem append_nil (o : Ontology) : o.append [] = o := by
  simp only [append, List.append_nil]

theorem names_append (o : Ontology) (added : List Schema) :
    (o.append added).names = o.names ++ added.map (·.name) := by
  simp only [names, append, List.map_append]

/-- Own schemas come first, then those of the bases. -/
theorem find?_eq_or (o : Ontology) (name : String) :
    o.find? name = (o.own.find? name).or (o.inherited.findSome? (·.find? name)) := by
  rw [find?, layers, List.findSome?_cons]
  cases o.own.find? name with
  | none => rfl
  | some s => rfl

/-- The new ones come between them. -/
theorem find?_append (o : Ontology) (added : List Schema) (name : String) :
    (o.append added).find? name = (o.own.find? name).or
      ((added.find? fun s => sameName s.name name).or
        (o.inherited.findSome? (·.find? name))) := by
  have hown : (o.append added).own.find? name =
      (o.own.find? name).or (added.find? fun s => sameName s.name name) := List.find?_append
  rw [find?_eq_or, hown, Option.or_assoc]
  rfl

theorem find?_none_of_unlisted {added : List Schema} {name : String}
    (h : ∀ s ∈ added, sameName s.name name = false) :
    added.find? (fun s => sameName s.name name) = none := by
  rw [List.find?_eq_none]
  intro s hs
  rw [h s hs]
  exact Bool.false_ne_true

/-- A name that nothing new has means what it meant. -/
theorem find?_append_of_unlisted {added : List Schema} {name : String}
    (h : ∀ s ∈ added, sameName s.name name = false) :
    (o.append added).find? name = o.find? name := by
  rw [find?_append, find?_none_of_unlisted h, Option.none_or, find?_eq_or]

/-- A name that is not local means the first of the new ones that has it. -/
theorem find?_append_of_listed {before rest : List Schema} {s : Schema} {name : String}
    (hlocal : o.containsLocal name = false) (hbefore : ∀ t ∈ before, sameName t.name name = false)
    (hs : sameName s.name name = true) :
    (o.append (before ++ s :: rest)).find? name = some s := by
  have hown : o.own.find? name = none := by
    rw [← Option.not_isSome_iff_eq_none]
    exact Bool.eq_false_iff.1 hlocal
  rw [find?_append, hown, List.find?_append, find?_none_of_unlisted hbefore, List.find?_cons, hs]
  rfl

theorem contains_append (o : Ontology) (added : List Schema) (name : String) :
    (o.append added).contains name =
      (o.contains name || added.any fun s => sameName s.name name) := by
  rw [contains, contains, find?_append, find?_eq_or]
  simp only [Option.isSome_or, List.isSome_find?]
  ac_rfl

theorem find?_eq_none_iff {name : String} : o.find? name = none ↔ o.contains name = false := by
  rw [contains, Option.isSome_eq_false_iff, Option.isNone_iff_eq_none]

theorem containsLocal_iff {name : String} :
    o.containsLocal name = true ↔ foldName name ∈ o.names.map foldName := by
  rw [containsLocal, Layer.find?, List.isSome_find?, List.any_eq_true, names, List.map_map,
    List.mem_map]
  simp only [sameName_iff, Function.comp_apply]

theorem containsLocal_congr {a b : String} (h : sameName a b = true) :
    o.containsLocal a = o.containsLocal b := by
  rw [Bool.eq_iff_iff, containsLocal_iff, containsLocal_iff, sameName_iff.1 h]

theorem contains_of_containsLocal {name : String} (h : o.containsLocal name = true) :
    o.contains name = true := by
  obtain ⟨s, hs⟩ := Option.isSome_iff_exists.1 h
  rw [contains, find?_eq_or, hs]
  rfl

theorem containsLocal_of_not_contains {name : String} (h : o.contains name = false) :
    o.containsLocal name = false :=
  Bool.eq_false_iff.2 fun hlocal => by
    rw [contains_of_containsLocal hlocal] at h
    cases h

/-! ## The aggregate types that come with a schema -/

/-- The types that nobody in the chain knows, each once, apart from the name itself. -/
def needed (name : String) (o : Ontology) : List String → List String
  | [] => []
  | type :: rest =>
    if o.contains type || sameName type name then needed name o rest
    else type :: needed name (o.push (.ofAggregate type)) rest

theorem contains_push (o : Ontology) (s : Schema) (name : String) :
    (o.push s).contains name = (o.contains name || sameName s.name name) := by
  have happend : o.push s = o.append [s] := rfl
  rw [happend, contains_append, List.any_cons, List.any_nil, Bool.or_false]

theorem foldl_needAggregate (name : String) (o : Ontology) (types : List String) :
    types.foldl (needAggregate name) o = o.append ((needed name o types).map .ofAggregate) := by
  induction types generalizing o with
  | nil => exact (append_nil o).symm
  | cons type rest ih =>
    rw [List.foldl_cons, needAggregate, needed]
    by_cases hskip : (o.contains type || sameName type name) = true
    · rw [if_pos hskip, if_pos hskip]
      exact ih o
    · rw [if_neg hskip, if_neg hskip, List.map_cons]
      exact (ih _).trans (append_append o [.ofAggregate type] _)

theorem insert_eq (o : Ontology) (s : Schema) :
    o.insert s = o.append
      ((needed s.name o s.pending).map .ofAggregate ++ [{ s with pending := [] }]) := by
  rw [insert, foldl_needAggregate, ← append_append]
  rfl

theorem mem_of_mem_needed {name type : String} {types : List String}
    (h : type ∈ needed name o types) : type ∈ types := by
  induction types generalizing o with
  | nil => exact h
  | cons first rest ih =>
    rw [needed] at h
    split at h
    · exact List.mem_cons_of_mem _ (ih h)
    · rcases List.mem_cons.1 h with rfl | h
      · exact List.mem_cons_self
      · exact List.mem_cons_of_mem _ (ih h)

theorem unknown_of_mem_needed {name type : String} {types : List String}
    (h : type ∈ needed name o types) : o.contains type = false ∧ sameName type name = false := by
  induction types generalizing o with
  | nil => cases h
  | cons first rest ih =>
    rw [needed] at h
    split at h
    · exact ih h
    · rename_i hskip
      rcases List.mem_cons.1 h with rfl | h
      · exact Bool.or_eq_false_iff.1 (Bool.eq_false_iff.2 hskip)
      · obtain ⟨hunknown, hname⟩ := ih h
        rw [contains_push] at hunknown
        exact ⟨(Bool.or_eq_false_iff.1 hunknown).1, hname⟩

theorem needed_distinct (name : String) (o : Ontology) (types : List String) :
    ((needed name o types).map foldName).Nodup := by
  induction types generalizing o with
  | nil => exact List.nodup_nil
  | cons first rest ih =>
    rw [needed]
    split
    · exact ih o
    · -- a later type of this name is known once this one is there
      refine List.nodup_cons.2 ⟨?_, ih _⟩
      intro hmem
      obtain ⟨type, htype, hkey⟩ := List.mem_map.1 hmem
      have hunknown := (unknown_of_mem_needed htype).1
      rw [contains_push, Schema.ofAggregate, sameName_iff.2 hkey.symm, Bool.or_true] at hunknown
      cases hunknown

theorem exists_needed {name type : String} {types : List String} (h : type ∈ types)
    (hunknown : o.contains type = false) (hname : sameName type name = false) :
    ∃ first ∈ needed name o types, sameName first type = true := by
  induction types generalizing o with
  | nil => cases h
  | cons first rest ih =>
    rw [needed]
    -- a type of the same name ahead of it comes in its stead
    by_cases hfirst : sameName first type = true
    · have hskip : (o.contains first || sameName first name) = false := by
        rw [contains, find?_congr hfirst, sameName_congr_left hfirst, hname, Bool.or_false]
        exact hunknown
      rw [hskip]
      exact ⟨first, List.mem_cons_self, hfirst⟩
    · have hrest : type ∈ rest := by
        rcases List.mem_cons.1 h with rfl | hrest
        · exact absurd (sameName_refl type) hfirst
        · exact hrest
      split
      · exact ih hrest hunknown
      · have hpushed : (o.push (.ofAggregate first)).contains type = false := by
          rw [contains_push, hunknown]
          exact Bool.eq_false_iff.2 hfirst
        obtain ⟨u, hu, hsame⟩ := ih hrest hpushed
        exact ⟨u, List.mem_cons_of_mem _ hu, hsame⟩

/-! ## Schemas with the aggregate types that they need -/

theorem names_insert (o : Ontology) (s : Schema) :
    (o.insert s).names = o.names ++ needed s.name o s.pending ++ [s.name] := by
  rw [insert_eq, names_append, List.map_append, List.map_map, ← List.append_assoc]
  congr 2
  exact List.map_id' _

theorem find?_insert_self {s : Schema} (hnew : o.containsLocal s.name = false) {name : String}
    (hname : sameName s.name name = true) :
    (o.insert s).find? name = some { s with pending := [] } := by
  rw [insert_eq]
  refine find?_append_of_listed (containsLocal_congr hname ▸ hnew) ?_ hname
  intro t ht
  obtain ⟨type, htype, rfl⟩ := List.mem_map.1 ht
  rw [← sameName_congr_right hname]
  exact (unknown_of_mem_needed htype).2

/-- Another name means what it meant, or nothing before and then an aggregate type. -/
theorem find?_insert_of_ne {s : Schema} {name : String} (hname : sameName s.name name = false) :
    (o.insert s).find? name = o.find? name ∨
      o.find? name = none ∧ ∃ type ∈ s.pending, sameName type name = true ∧
        (o.insert s).find? name = some (.ofAggregate type) := by
  rw [insert_eq]
  cases hneeded : (needed s.name o s.pending).find? (sameName · name) with
  | none =>
    refine .inl (find?_append_of_unlisted fun t ht => ?_)
    rcases List.mem_append.1 ht with ht | ht
    · obtain ⟨type, htype, rfl⟩ := List.mem_map.1 ht
      exact Bool.eq_false_iff.2 (List.find?_eq_none.1 hneeded type htype)
    · rw [List.mem_singleton.1 ht]
      exact hname
  | some type =>
    -- the first of the needed types that has the name is found, as nobody had it before
    obtain ⟨hsame, before, rest, hsplit, hbefore⟩ := List.find?_eq_some_iff_append.1 hneeded
    have hmem : type ∈ needed s.name o s.pending := List.mem_of_find?_eq_some hneeded
    have hunknown : o.contains name = false := by
      rw [contains, ← find?_congr hsame]
      exact (unknown_of_mem_needed hmem).1
    refine .inr ⟨find?_eq_none_iff.2 hunknown, type, mem_of_mem_needed hmem, hsame, ?_⟩
    rw [hsplit, List.map_append, List.map_cons, List.append_assoc, List.cons_append]
    refine find?_append_of_listed (containsLocal_of_not_contains hunknown) ?_ hsame
    intro t ht
    obtain ⟨u, hu, rfl⟩ := List.mem_map.1 ht
    exact Bool.not_eq_true' _ ▸ hbefore u hu

theorem contains_insert (o : Ontology) (s : Schema) (name : String) :
    (o.insert s).contains name = (o.contains name ||
      ((needed s.name o s.pending).any (sameName · name) || sameName s.name name)) := by
  rw [insert_eq, contains_append, List.any_append, List.any_map, List.any_cons, List.any_nil,
    Bool.or_false]
  rfl

/-- What a schema needs is known with it. -/
theorem contains_insert_of_pending {s : Schema} {type : String} (h : type ∈ s.pending) :
    (o.insert s).contains type = true := by
  rw [contains_insert]
  by_cases hknown : o.contains type = true
  · rw [hknown, Bool.true_or]
  · by_cases hname : sameName type s.name = true
    · rw [sameName_symm hname, Bool.or_true, Bool.or_true]
    · obtain ⟨first, hfirst, hsame⟩ :=
        exists_needed h (Bool.eq_false_iff.2 hknown) (Bool.eq_false_iff.2 hname)
      rw [List.any_eq_true.2 ⟨first, hfirst, hsame⟩, Bool.true_or, Bool.or_true]

/-- With a schema come its name and what it needs, and nothing else. -/
theorem contains_insert_iff {s : Schema} {type : String} : (o.insert s).contains type = true ↔
    o.contains type = true ∨ sameName s.name type = true ∨ s.Asks type := by
  constructor
  · intro h
    rw [contains_insert, Bool.or_eq_true, Bool.or_eq_true, List.any_eq_true] at h
    rcases h with h | ⟨asked, hasked, hsame⟩ | h
    · exact .inl h
    · exact .inr (.inr ⟨asked, mem_of_mem_needed hasked, hsame⟩)
    · exact .inr (.inl h)
  · rintro (h | h | ⟨asked, hasked, hsame⟩)
    · rw [contains_insert, h, Bool.true_or]
    · rw [contains_insert, h, Bool.or_true, Bool.or_true]
    · rw [contains, ← find?_congr hsame]
      exact contains_insert_of_pending hasked

/-! ## Calls -/

/-- Calls that register. -/
inductive Call where
  | add (s : Schema)
  | addClass (c : AppClass) (s : Schema)
  | registerClass (c : AppClass) (type : String)

namespace Call

/-- The schema that a call brings. -/
def schema? : Call → Option Schema
  | .add s | .addClass _ s => some s
  | .registerClass _ _ => none

/-- The class that a call binds, and to which name. -/
def binding? : Call → Option (AppClass × String)
  | .add _ => none
  | .addClass c s => some (c, s.name)
  | .registerClass c type => some (c, type)

end Call

def attempt (o : Ontology) : Call → Except OntologyError Ontology
  | .add s => o.add s
  | .addClass c s => o.addClass c s
  | .registerClass c type => o.registerClass c type

/-- A call that fails leaves the ontology. -/
def after (o : Ontology) (call : Call) : Ontology :=
  match o.attempt call with
  | .ok p => p
  | .error _ => o

def run (o : Ontology) (calls : List Call) : Ontology :=
  calls.foldl after o

def enter (o : Ontology) : Option Schema → Ontology
  | some s => o.insert s
  | none => o

theorem class?_enter (o : Ontology) (entering : Option Schema) (c : AppClass) :
    (o.enter entering).class? c = o.class? c := by
  cases entering with
  | none => rfl
  | some s =>
    rw [enter, insert_eq]
    rfl

def bind (o : Ontology) : Option (AppClass × String) → Ontology
  | some e => o.bindClass e.1 e.2
  | none => o

theorem class?_bind (o : Ontology) (binding : Option (AppClass × String)) (c : AppClass) :
    (o.bind binding).class? c = match binding with
      | some e => if e.1 = c then some e.2 else o.class? c
      | none => o.class? c := by
  cases binding with
  | none => rfl
  | some e =>
    simp only [bind, class?, layers, bindClass, List.findSome?_cons, Layer.class?_bindClass]
    by_cases he : e.1 = c
    · simp only [if_pos he]
    · simp only [if_neg he]

theorem find?_bind (o : Ontology) (binding : Option (AppClass × String)) (name : String) :
    (o.bind binding).find? name = o.find? name := by
  cases binding with
  | none => rfl
  | some e => rfl

theorem contains_bind (o : Ontology) (binding : Option (AppClass × String)) (name : String) :
    (o.bind binding).contains name = o.contains name := by
  rw [contains, find?_bind, contains]

theorem names_bind (o : Ontology) (binding : Option (AppClass × String)) :
    (o.bind binding).names = o.names := by
  cases binding with
  | none => rfl
  | some e => rfl

theorem add_ok {s : Schema} (h : o.add s = .ok p) :
    o.containsLocal s.name = false ∧ p = o.insert s := by
  unfold add at h
  split at h
  · cases h
  · rename_i hnew
    cases h
    exact ⟨Bool.eq_false_iff.2 hnew, rfl⟩

/-- Everything that a call does when it succeeds: its schema was not there and enters, and what it
binds is bound, to a name that is known then. -/
theorem attempt_ok {call : Call} (h : o.attempt call = .ok p) :
    p = (o.enter call.schema?).bind call.binding? ∧
      (∀ s, call.schema? = some s → o.containsLocal s.name = false) ∧
      ∀ e, call.binding? = some e → (o.enter call.schema?).contains e.2 = true := by
  cases call with
  | add s =>
    obtain ⟨hnew, rfl⟩ := add_ok h
    refine ⟨rfl, fun t ht => ?_, fun e he => (by cases he)⟩
    cases ht
    exact hnew
  | addClass c s =>
    rw [attempt, addClass] at h
    split at h
    · rename_i q hq
      cases h
      obtain ⟨hnew, rfl⟩ := add_ok hq
      refine ⟨rfl, fun t ht => ?_, fun e he => ?_⟩
      · cases ht
        exact hnew
      · cases he
        exact (contains_insert o s s.name).trans (by simp)
    · cases h
  | registerClass c type =>
    rw [attempt, registerClass] at h
    split at h
    · rename_i s hs
      cases h
      refine ⟨rfl, fun t ht => (by cases ht), fun e he => ?_⟩
      cases he
      exact Option.isSome_iff_exists.2 ⟨s, schema_eq_ok_iff.1 hs⟩
    · cases h

/-! ## Consistency -/

/-- Local names are distinct, and what is bound anywhere in the chain is known. -/
structure Consistent (o : Ontology) : Prop where
  distinct : (o.names.map foldName).Nodup
  bound : ∀ l ∈ o.layers, ∀ e ∈ l.classes, o.contains e.2 = true

namespace Consistent

/-- A local name, however it is spelled, means the schema that carries it. -/
theorem find?_local (h : o.Consistent) {own name : String} (hown : own ∈ o.names)
    (hname : sameName own name = true) : ∃ s, o.find? name = some s ∧ s.name = own := by
  have hlocal : o.containsLocal name = true :=
    containsLocal_iff.2 (List.mem_map.2 ⟨own, hown, sameName_iff.1 hname⟩)
  obtain ⟨s, hs⟩ := Option.isSome_iff_exists.1 hlocal
  refine ⟨s, by rw [find?_eq_or, hs, Option.some_or], ?_⟩
  have hsame : sameName s.name name = true :=
    List.find?_some (p := fun s : Schema => sameName s.name name) hs
  have hmem : s.name ∈ o.names := List.mem_map_of_mem (List.mem_of_find?_eq_some hs)
  refine List.inj_on_of_nodup_map h.distinct hmem hown ?_
  rw [sameName_iff.1 hsame, sameName_iff.1 hname]

/-- A class that is bound has a schema, under the name that it is bound to. -/
theorem schemaFor (h : o.Consistent) {c : AppClass} {type : String}
    (hc : o.class? c = some type) :
    ∃ s, o.schemaFor c = .ok s ∧ sameName s.name type = true := by
  obtain ⟨l, hl, hlayer⟩ := List.exists_of_findSome?_eq_some hc
  obtain ⟨e, he, rfl⟩ := Option.map_eq_some_iff.1 hlayer
  have hknown := h.bound l hl e (List.mem_of_find?_eq_some he)
  obtain ⟨s, hs⟩ := Option.isSome_iff_exists.1 hknown
  refine ⟨s, ?_, sameName_of_find? hs⟩
  rw [Ontology.schemaFor, hc, Option.bind_some, hs]

/-- New names that are not local, each once, and classes bound to what is known then. -/
theorem append (h : o.Consistent) {added : List Schema}
    (hdistinct : (added.map fun s => foldName s.name).Nodup)
    (hnew : ∀ s ∈ added, o.containsLocal s.name = false) : (o.append added).Consistent where
  distinct := by
    rw [names_append, List.map_append, List.map_map]
    refine List.nodup_append.2 ⟨h.distinct, hdistinct, ?_⟩
    intro key hkey key' hkey' heq
    subst heq
    obtain ⟨s, hs, rfl⟩ := List.mem_map.1 hkey'
    have hlocal := containsLocal_iff.2 hkey
    rw [hnew s hs] at hlocal
    cases hlocal
  bound l hl e he := by
    -- no binding changes, and what was known stays known
    rw [contains_append, Bool.or_eq_true]
    rcases List.mem_cons.1 hl with rfl | hl
    · exact .inl (h.bound o.own List.mem_cons_self e he)
    · exact .inl (h.bound l (List.mem_cons_of_mem _ hl) e he)

theorem bind (h : o.Consistent) {binding : Option (AppClass × String)}
    (hknown : ∀ e, binding = some e → o.contains e.2 = true) : (o.bind binding).Consistent := by
  cases binding with
  | none => exact h
  | some e =>
    refine ⟨h.distinct, fun l hl d hd => ?_⟩
    rcases List.mem_cons.1 hl with rfl | hl
    · rcases List.mem_cons.1 hd with rfl | hd
      · exact hknown _ rfl
      · exact h.bound o.own List.mem_cons_self d (List.mem_of_mem_filter hd)
    · exact h.bound l (List.mem_cons_of_mem _ hl) d hd

theorem insert (h : o.Consistent) {s : Schema} (hnew : o.containsLocal s.name = false) :
    (o.insert s).Consistent := by
  rw [insert_eq]
  refine h.append ?_ ?_
  · rw [List.map_append, List.map_map]
    refine List.nodup_append.2 ⟨needed_distinct s.name o s.pending, List.nodup_singleton _, ?_⟩
    intro key hkey key' hkey' heq
    rw [List.mem_singleton.1 hkey'] at heq
    obtain ⟨type, htype, rfl⟩ := List.mem_map.1 hkey
    exact sameName_eq_false_iff.1 (unknown_of_mem_needed htype).2 heq
  · intro t ht
    rcases List.mem_append.1 ht with ht | ht
    · obtain ⟨type, htype, rfl⟩ := List.mem_map.1 ht
      exact containsLocal_of_not_contains (unknown_of_mem_needed htype).1
    · rw [List.mem_singleton.1 ht]
      exact hnew

theorem attempt (h : o.Consistent) {call : Call} (hp : o.attempt call = .ok p) :
    p.Consistent := by
  obtain ⟨rfl, hnew, hknown⟩ := attempt_ok hp
  cases hschema : call.schema? with
  | none =>
    rw [hschema] at hknown
    exact h.bind hknown
  | some s =>
    rw [hschema] at hknown
    exact (h.insert (hnew s hschema)).bind hknown

theorem after (h : o.Consistent) (call : Call) : (o.after call).Consistent := by
  unfold Ontology.after
  cases hp : o.attempt call with
  | error e => exact h
  | ok p => exact h.attempt hp

theorem compose {bases : List Ontology} (h : ∀ b ∈ bases, b.Consistent) (name : String) :
    (compose name bases).Consistent where
  distinct := List.nodup_nil
  bound l hl e he := by
    rcases List.mem_cons.1 hl with rfl | hl
    · cases he
    · obtain ⟨b, hb, hl⟩ := List.mem_flatMap.1 hl
      rw [contains, find?_compose, List.isSome_findSome?, List.any_eq_true]
      exact ⟨b, hb, (h b hb).bound l hl e he⟩

end Consistent

/-- Ontologies that come from compositions and calls. -/
inductive Assembled : Ontology → Prop where
  | compose (name : String) {bases : List Ontology} (h : ∀ b ∈ bases, Assembled b) :
    Assembled (compose name bases)
  | after {o : Ontology} (h : Assembled o) (call : Call) : Assembled (o.after call)

theorem Assembled.consistent (h : o.Assembled) : o.Consistent := by
  induction h with
  | compose name _ ih => exact .compose ih name
  | after _ call ih => exact ih.after call

/-- Schemas that are registered need nothing any more. -/
def Settled (o : Ontology) : Prop :=
  ∀ l ∈ o.layers, ∀ s ∈ l.schemas, s.pending = []

namespace Settled

theorem append (h : o.Settled) {added : List Schema} (hadded : ∀ s ∈ added, s.pending = []) :
    (o.append added).Settled := by
  intro l hl s hs
  rcases List.mem_cons.1 hl with rfl | hl
  · rcases List.mem_append.1 hs with hs | hs
    · exact h o.own List.mem_cons_self s hs
    · exact hadded s hs
  · exact h l (List.mem_cons_of_mem _ hl) s hs

theorem insert (h : o.Settled) (s : Schema) : (o.insert s).Settled := by
  rw [insert_eq]
  refine h.append fun t ht => ?_
  rcases List.mem_append.1 ht with ht | ht
  · obtain ⟨type, -, rfl⟩ := List.mem_map.1 ht
    rfl
  · rw [List.mem_singleton.1 ht]

theorem bind (h : o.Settled) (binding : Option (AppClass × String)) : (o.bind binding).Settled := by
  cases binding with
  | none => exact h
  | some e =>
    intro l hl s hs
    rcases List.mem_cons.1 hl with rfl | hl
    · exact h o.own List.mem_cons_self s hs
    · exact h l (List.mem_cons_of_mem _ hl) s hs

theorem after (h : o.Settled) (call : Call) : (o.after call).Settled := by
  unfold Ontology.after
  cases hp : o.attempt call with
  | error e => exact h
  | ok p =>
    obtain ⟨rfl, -, -⟩ := attempt_ok hp
    cases call.schema? with
    | none => exact h.bind _
    | some s => exact (h.insert s).bind _

theorem compose {bases : List Ontology} (h : ∀ b ∈ bases, b.Settled) (name : String) :
    (compose name bases).Settled := by
  intro l hl s hs
  rcases List.mem_cons.1 hl with rfl | hl
  · cases hs
  · obtain ⟨b, hb, hl⟩ := List.mem_flatMap.1 hl
    exact h b hb l hl s hs

end Settled

theorem Assembled.settled (h : o.Assembled) : o.Settled := by
  induction h with
  | compose name _ ih => exact .compose ih name
  | after _ call ih => exact ih.after call

theorem Assembled.run (h : o.Assembled) (calls : List Call) : (o.run calls).Assembled := by
  induction calls generalizing o with
  | nil => exact h
  | cons call rest ih => exact ih (h.after call)

/-- Each schema has a name that the ones before have not. -/
def takes (o : Ontology) : List Schema → Bool
  | [] => true
  | s :: rest => !o.containsLocal s.name && (o.insert s).takes rest

theorem after_add {s : Schema} (h : o.containsLocal s.name = false) :
    o.after (.add s) = o.insert s := by
  rw [after, attempt, add, h]
  rfl

theorem after_registerClass {type : String} (h : o.contains type = true) (c : AppClass) :
    o.after (.registerClass c type) = o.bindClass c type := by
  obtain ⟨s, hs⟩ := Option.isSome_iff_exists.1 h
  rw [after, attempt, registerClass, schema_eq_ok_iff.2 hs]

theorem Assembled.inserts (h : o.Assembled) {schemas : List Schema}
    (hnew : o.takes schemas = true) : (schemas.foldl Ontology.insert o).Assembled := by
  induction schemas generalizing o with
  | nil => exact h
  | cons s rest ih =>
    rw [takes, Bool.and_eq_true, Bool.not_eq_true'] at hnew
    exact ih (after_add hnew.1 ▸ h.after (.add s)) hnew.2

theorem Assembled.binds (h : o.Assembled) {bindings : List (AppClass × String)}
    (hknown : ∀ e ∈ bindings, o.contains e.2 = true) :
    (bindings.foldl (fun o e => o.bindClass e.1 e.2) o).Assembled := by
  induction bindings generalizing o with
  | nil => exact h
  | cons e rest ih =>
    obtain ⟨hfirst, hrest⟩ := List.forall_mem_cons.1 hknown
    have hbound : (o.bindClass e.1 e.2).Assembled :=
      after_registerClass hfirst e.1 ▸ h.after (.registerClass e.1 e.2)
    exact ih hbound fun d hd => (contains_bind o (some e) d.2).trans (hrest d hd)

/-! ## What a call that succeeds changes -/

/-- The ontology after a call that succeeds, against the one before. -/
structure Extended (o : Ontology) (call : Call) (p : Ontology) : Prop where
  /-- Behind the old names come those of aggregate types that nobody knew and that the schema of the
  call needs, then that of the schema. -/
  names : ∃ fresh, p.names = o.names ++ fresh ++ (call.schema?.map (·.name)).toList ∧
    ∀ type ∈ fresh, o.find? type = none ∧
      ∃ s, call.schema? = some s ∧ type ∈ s.pending ∧ sameName type s.name = false
  /-- The schema is found under its name. -/
  found : ∀ s, call.schema? = some s → ∀ name, sameName s.name name = true →
    p.find? name = some { s with pending := [] }
  /-- What was known is known, and so are its name and what it needs. -/
  known : ∀ s, call.schema? = some s → ∀ type, p.contains type = true ↔
    o.contains type = true ∨ sameName s.name type = true ∨ s.Asks type
  /-- Other names mean what they meant, unless they meant nothing and the schema needs them. -/
  unchanged : ∀ name, p.find? name = o.find? name ∨ ∃ s, call.schema? = some s ∧
    (sameName s.name name = true ∨
      o.find? name = none ∧ ∃ type ∈ s.pending, sameName type name = true ∧
        p.find? name = some (.ofAggregate type))
  /-- No class but the one of the call is bound anew. -/
  classes : ∀ c, p.class? c = match call.binding? with
    | some e => if e.1 = c then some e.2 else o.class? c
    | none => o.class? c

theorem attempt_extended {call : Call} (h : o.attempt call = .ok p) : o.Extended call p := by
  obtain ⟨rfl, hnew, -⟩ := attempt_ok h
  constructor
  case names =>
    rw [names_bind]
    cases hschema : call.schema? with
    | none => exact ⟨[], by rw [enter, Option.map_none, Option.toList_none, List.append_nil,
        List.append_nil], List.forall_mem_nil _⟩
    | some s =>
      refine ⟨needed s.name o s.pending, names_insert o s, fun type htype => ?_⟩
      obtain ⟨hunknown, hname⟩ := unknown_of_mem_needed htype
      exact ⟨find?_eq_none_iff.2 hunknown, s, rfl, mem_of_mem_needed htype, hname⟩
  case found =>
    intro s hschema name hname
    rw [find?_bind, hschema]
    exact find?_insert_self (hnew s hschema) hname
  case known =>
    intro s hschema type
    rw [contains_bind, hschema]
    exact contains_insert_iff
  case unchanged =>
    intro name
    rw [find?_bind]
    cases hschema : call.schema? with
    | none => exact .inl rfl
    | some s =>
      by_cases hname : sameName s.name name = true
      · exact .inr ⟨s, rfl, .inl hname⟩
      · rcases find?_insert_of_ne (Bool.eq_false_iff.2 hname) with hsame | hfresh
        · exact .inl hsame
        · exact .inr ⟨s, rfl, .inr hfresh⟩
  case classes =>
    intro c
    rw [class?_bind, class?_enter]

/-- What is known stays known. -/
theorem contains_after {name : String} (h : o.contains name = true) (call : Call) :
    (o.after call).contains name = true := by
  unfold after
  cases hp : o.attempt call with
  | error e => exact h
  | ok p =>
    obtain ⟨rfl, -, -⟩ := attempt_ok hp
    rw [contains_bind]
    cases call.schema? with
    | none => exact h
    | some s => rw [enter, contains_insert, h, Bool.true_or]

theorem contains_run {name : String} (h : o.contains name = true) (calls : List Call) :
    (o.run calls).contains name = true := by
  induction calls generalizing o with
  | nil => exact h
  | cons call rest ih => exact ih (contains_after h call)

end Ontology

namespace Vocabulary

theorem assembled_basic : basic.Assembled := by
  have hempty : Ontology.Assembled { name := "BASIC_ONTOLOGY" } :=
    .compose "BASIC_ONTOLOGY" (List.forall_mem_nil _)
  exact (hempty.inserts (by decide +kernel)).binds (by decide +kernel)

theorem assembled_operators : operators.Assembled := by
  have hover : (Ontology.compose "FIPA-SL-ontology" [basic]).Assembled :=
    .compose "FIPA-SL-ontology" (List.forall_mem_singleton.2 assembled_basic)
  exact hover.inserts (by decide +kernel)

end Vocabulary
end AgentContent
