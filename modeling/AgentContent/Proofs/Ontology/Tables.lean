import AgentContent.Proofs.Ontology.Registration
import Mathlib.Logic.Function.Basic

/-!
# AgentContent.Proofs.Ontology.Tables

An ontology keeps its schemas in a map by folded name, and beside it the order of their names. Calls
work on these tables in place, and keep them together.

* `Tables`, `Tables.perform`: the calls in place. What a call did before it failed stays done.
* `tables_perform`, `tables_run`: on the tables of an ontology they do what the calls on the
  ontology say.
* `Schema.withParts`, `asks_withParts`: a schema that is declared part by part asks for its aggregate
  types.
* `Schema.withDeeds`, `asks_withDeeds`: a copy of a schema that is registered asks only for those that
  are named after it was made.
* `run_lawful`: what holds after every run of calls, and of the next one.
* `copied_rack`: a copy in another ontology, without the aggregate type of its slot.
-/

namespace AgentContent

/-! ## Schemas, part by part -/

namespace Schema

/-- What a declaration adds to a schema. -/
inductive Part where
  | slot (name type : String) (optional : Bool)
  | aggregate (name elements : String) (least : Nat) (most : Option Nat) (type : String)
  | facet (slot : String) (facet : Facet)
  | super (type : String)
  | abstract (isAbstract : Bool)

/-- The aggregate type that a declaration names. -/
def Part.aggregateType? : Part → Option String
  | .aggregate _ _ _ _ type => some type
  | _ => none

def withPart (s : Schema) : Part → Schema
  | .slot name type optional => s.addSlot name type optional
  | .aggregate name elements least most type => s.addAggregate name elements least most type
  | .facet slot facet => s.addFacet slot facet
  | .super type => s.addSuper type
  | .abstract isAbstract => { s with isAbstract := isAbstract }

def withParts (s : Schema) (parts : List Part) : Schema :=
  parts.foldl withPart s

theorem pending_addAggregate (s : Schema) (name elements : String) (least : Nat)
    (most : Option Nat) (type : String) :
    (s.addAggregate name elements least most type).pending =
      if s.pending.any (sameName · type) then s.pending else s.pending ++ [type] :=
  apply_ite pending _ _ _

theorem pending_addSuper (s : Schema) (type : String) : (s.addSuper type).pending = s.pending := by
  unfold addSuper
  split
  · rfl
  · rfl

/-- A declaration asks for the aggregate type that it names, and takes back nothing. -/
theorem asks_withPart {s : Schema} {part : Part} {type : String} : (s.withPart part).Asks type ↔
    s.Asks type ∨ ∃ named, part.aggregateType? = some named ∧ sameName named type = true := by
  cases part with
  | aggregate name elements least most aggregateType =>
    simp only [Asks, withPart, pending_addAggregate, Part.aggregateType?, Option.some.injEq,
      exists_eq_left']
    split
    · -- another declaration has asked already, maybe in other letters
      rename_i hasked
      obtain ⟨asked, hmem, hsame⟩ := List.any_eq_true.1 hasked
      exact ⟨.inl, fun h => h.elim id fun h => ⟨asked, hmem, sameName_trans hsame h⟩⟩
    · simp only [List.mem_append, List.mem_singleton, or_and_right, exists_or, exists_eq_left]
  | super superType =>
    simp only [Asks, withPart, pending_addSuper, Part.aggregateType?, reduceCtorEq, false_and,
      exists_false, or_false]
  | slot name slotType optional => exact ⟨.inl, fun h => h.elim id fun ⟨_, h, _⟩ => by cases h⟩
  | facet slot facet => exact ⟨.inl, fun h => h.elim id fun ⟨_, h, _⟩ => by cases h⟩
  | abstract isAbstract => exact ⟨.inl, fun h => h.elim id fun ⟨_, h, _⟩ => by cases h⟩

theorem asks_withParts (s : Schema) {parts : List Part} {part : Part} (hpart : part ∈ parts)
    {type : String} (h : part.aggregateType? = some type) : (s.withParts parts).Asks type := by
  have hlater : ∀ (rest : List Part) {s : Schema}, s.Asks type → (s.withParts rest).Asks type := by
    intro rest
    induction rest with
    | nil => exact id
    | cons first rest ih => exact fun hs => ih (asks_withPart.2 (.inl hs))
  obtain ⟨before, rest, rfl⟩ := List.append_of_mem hpart
  rw [withParts, List.foldl_append, List.foldl_cons]
  exact hlater rest (asks_withPart.2 (.inr ⟨type, h, sameName_refl type⟩))

/-! ## Copies of schemas -/

/-- What is done to a schema before it is added: it is declared further, or it is copied from an
ontology that has it, as it is kept there. -/
inductive Deed where
  | declare (part : Part)
  | copy

def withDeed (s : Schema) : Deed → Schema
  | .declare part => s.withPart part
  | .copy => { s with pending := [] }

def withDeeds (s : Schema) (deeds : List Deed) : Schema :=
  deeds.foldl withDeed s

namespace Deed

def aggregateType? : Deed → Option String
  | .declare part => part.aggregateType?
  | .copy => none

/-- The aggregate types that are named in deeds. -/
def named (deeds : List Deed) : List String :=
  deeds.filterMap aggregateType?

/-- What was named, and not lost in a copy, with one more deed. -/
def keep (names : List String) : Deed → List String
  | .declare part => names ++ part.aggregateType?.toList
  | .copy => []

/-- The aggregate types that are named after the last copy. -/
def namedSinceCopy (deeds : List Deed) : List String :=
  deeds.foldl keep []

end Deed

theorem asks_withDeed {s : Schema} {names : List String}
    (h : ∀ type, s.Asks type ↔ ∃ named ∈ names, sameName named type = true) (deed : Deed)
    (type : String) : (s.withDeed deed).Asks type ↔
      ∃ named ∈ deed.keep names, sameName named type = true := by
  cases deed with
  | declare part =>
    simp only [withDeed, asks_withPart, h, Deed.keep, List.mem_append, Option.mem_toList,
      or_and_right, exists_or]
  | copy => exact ⟨fun ⟨_, h, _⟩ => (by cases h), fun ⟨_, h, _⟩ => (by cases h)⟩

/-- A schema that asked for nothing asks for what was named in deeds since it was last copied. -/
theorem asks_withDeeds {s : Schema} (h : s.pending = []) (deeds : List Deed) (type : String) :
    (s.withDeeds deeds).Asks type ↔
      ∃ named ∈ Deed.namedSinceCopy deeds, sameName named type = true := by
  have hstart : ∀ type, s.Asks type ↔ ∃ named ∈ ([] : List String), sameName named type = true := by
    simp [Asks, h]
  unfold withDeeds Deed.namedSinceCopy
  clear h
  generalize ([] : List String) = names at hstart
  induction deeds generalizing s names with
  | nil => exact hstart type
  | cons deed rest ih => exact ih _ (asks_withDeed hstart deed)

end Schema

namespace Ontology

/-! ## Calls in place -/

/-- A map of schemas by folded name, the names in the order in which they came, and the names that
classes are bound to. -/
structure Tables where
  name : String
  entries : String → Option Schema
  order : List String
  classes : AppClass → Option String
  bases : List String
  inherited : List Layer

namespace Tables

def find? (t : Tables) (name : String) : Option Schema :=
  (t.entries (foldName name)).or (t.inherited.findSome? (·.find? name))

/-- Enters a schema under its name. A name that was there already is not listed again. -/
def place (t : Tables) (s : Schema) : Tables :=
  { t with
    entries := Function.update t.entries (foldName s.name) (some s)
    order := if (t.entries (foldName s.name)).isNone then t.order ++ [s.name] else t.order }

/-- An aggregate type needs no other. -/
def need (name : String) (t : Tables) (type : String) : Tables :=
  if (t.find? type).isNone && !sameName type name then t.place (.ofAggregate type) else t

def insert (t : Tables) (s : Schema) : Tables :=
  (s.pending.foldl (need s.name) t).place { s with pending := [] }

def bindClass (t : Tables) (c : AppClass) (type : String) : Tables :=
  { t with classes := Function.update t.classes c (some type) }

def add (t : Tables) (s : Schema) : Except OntologyError Unit × Tables :=
  if (t.entries (foldName s.name)).isSome then (.error (.duplicateSchema s.name t.name), t)
  else (.ok (), t.insert s)

def addClass (t : Tables) (c : AppClass) (s : Schema) : Except OntologyError Unit × Tables :=
  match t.add s with
  | (.ok (), t) => (.ok (), t.bindClass c s.name)
  | (.error e, t) => (.error e, t)

def registerClass (t : Tables) (c : AppClass) (type : String) :
    Except OntologyError Unit × Tables :=
  match t.find? type with
  | some _ => (.ok (), t.bindClass c type)
  | none => (.error (.schemaNotFound type t.name), t)

/-- The answer of a call, and the tables as the call has left them. -/
def perform (t : Tables) : Call → Except OntologyError Unit × Tables
  | .add s => t.add s
  | .addClass c s => t.addClass c s
  | .registerClass c type => t.registerClass c type

def run (t : Tables) (calls : List Call) : Tables :=
  calls.foldl (fun t call => (t.perform call).2) t

end Tables

variable {o p : Ontology}

/-- The tables of an ontology. -/
def tables (o : Ontology) : Tables where
  name := o.name
  entries key := o.own.schemas.find? fun s => foldName s.name == key
  order := o.names
  classes := o.own.class?
  bases := o.bases
  inherited := o.inherited

theorem tables_find? (o : Ontology) (name : String) : o.tables.find? name = o.find? name :=
  (find?_eq_or o name).symm

/-- Map and order list have the same names. -/
theorem tables_entries_isSome (o : Ontology) (key : String) :
    (o.tables.entries key).isSome = true ↔ key ∈ o.tables.order.map foldName := by
  simp only [tables, List.isSome_find?, List.any_eq_true, beq_iff_eq, names, List.map_map,
    List.mem_map, Function.comp_apply]

theorem tables_entries_of_new {s : Schema} (h : o.containsLocal s.name = false) :
    o.tables.entries (foldName s.name) = none :=
  Option.isNone_iff_eq_none.1 (Option.isSome_eq_false_iff.1 h)

theorem tables_push_entries {s : Schema} (h : o.containsLocal s.name = false) :
    (o.push s).tables.entries =
      Function.update o.tables.entries (foldName s.name) (some s) := by
  funext key
  have hpush : (o.push s).tables.entries key =
      (o.tables.entries key).or ([s].find? fun s => foldName s.name == key) := List.find?_append
  rw [hpush, List.find?_singleton]
  by_cases hkey : key = foldName s.name
  · subst hkey
    rw [tables_entries_of_new h, Function.update_self, beq_self_eq_true, if_pos rfl, Option.none_or]
  · rw [Function.update_of_ne hkey, beq_eq_false_iff_ne.2 (Ne.symm hkey)]
    exact Option.or_none

/-- A name that is not there yet is entered at the end. -/
theorem tables_push {s : Schema} (h : o.containsLocal s.name = false) :
    (o.push s).tables = o.tables.place s := by
  have horder : (o.push s).tables.order = o.tables.order ++ [s.name] := List.map_append
  rw [Tables.place, tables_entries_of_new h, Option.isNone_none, if_pos rfl,
    ← tables_push_entries h, ← horder]
  rfl

theorem tables_needAggregate (name : String) (o : Ontology) (type : String) :
    (o.needAggregate name type).tables = o.tables.need name type := by
  have hcond : ((o.find? type).isNone && !sameName type name) =
      !(o.contains type || sameName type name) := by
    rw [contains, Bool.not_or, Option.not_isSome]
  rw [needAggregate, Tables.need, tables_find?, hcond]
  cases hskip : o.contains type || sameName type name with
  | true => rfl
  | false =>
    have hunknown := (Bool.or_eq_false_iff.1 hskip).1
    exact tables_push (s := .ofAggregate type) (containsLocal_of_not_contains hunknown)

theorem tables_foldl_needAggregate (name : String) (o : Ontology) (types : List String) :
    (types.foldl (needAggregate name) o).tables = types.foldl (Tables.need name) o.tables := by
  induction types generalizing o with
  | nil => rfl
  | cons type rest ih => rw [List.foldl_cons, List.foldl_cons, ih, tables_needAggregate]

theorem tables_insert {s : Schema} (h : o.containsLocal s.name = false) :
    (o.insert s).tables = o.tables.insert s := by
  -- the aggregate types that come first have other names, so the map has room for the schema
  have hstill : (s.pending.foldl (needAggregate s.name) o).containsLocal s.name = false := by
    rw [Bool.eq_false_iff, Ne, containsLocal_iff, foldl_needAggregate, names_append,
      List.map_append, List.mem_append, ← containsLocal_iff, List.map_map, List.map_map]
    rintro (hlocal | hneeded)
    · rw [h] at hlocal
      cases hlocal
    · obtain ⟨type, htype, hkey⟩ := List.mem_map.1 hneeded
      exact sameName_eq_false_iff.1 (unknown_of_mem_needed htype).2 hkey
  rw [insert, Tables.insert, ← tables_foldl_needAggregate]
  exact tables_push (s := { s with pending := [] }) hstill

theorem tables_bindClass (o : Ontology) (c : AppClass) (type : String) :
    (o.bindClass c type).tables = o.tables.bindClass c type := by
  have hclasses : (o.bindClass c type).own.class? =
      Function.update o.own.class? c (some type) := by
    funext d
    rw [Function.update_apply]
    refine (Layer.class?_bindClass o.own c d type).trans ?_
    simp only [eq_comm]
  rw [Tables.bindClass, tables, hclasses]
  rfl

/-- In place, a call has the answer of the call on the ontology, and leaves the tables of what that
gives, or when it fails the tables as they were. -/
theorem tables_perform (o : Ontology) (call : Call) : o.tables.perform call =
    match o.attempt call with
    | .ok p => (.ok (), p.tables)
    | .error e => (.error e, o.tables) := by
  have hadd : ∀ s, o.tables.add s =
      match o.add s with
      | .ok p => (.ok (), p.tables)
      | .error e => (.error e, o.tables) := by
    intro s
    have hlocal : (o.tables.entries (foldName s.name)).isSome = o.containsLocal s.name := rfl
    rw [Tables.add, hlocal, add]
    cases hnew : o.containsLocal s.name with
    | true => rfl
    | false => exact congrArg (Prod.mk (Except.ok ())) (tables_insert hnew).symm
  cases call with
  | add s => exact hadd s
  | addClass c s =>
    rw [Tables.perform, Tables.addClass, hadd, attempt, addClass]
    cases o.add s with
    | error e => rfl
    | ok p => exact congrArg _ (tables_bindClass p c s.name).symm
  | registerClass c type =>
    rw [Tables.perform, Tables.registerClass, tables_find?, attempt, registerClass, schema]
    cases o.find? type with
    | none => rfl
    | some s => exact congrArg _ (tables_bindClass o c type).symm

theorem tables_run (o : Ontology) (calls : List Call) :
    o.tables.run calls = (o.run calls).tables := by
  induction calls generalizing o with
  | nil => rfl
  | cons call rest ih =>
    have hstep : (o.tables.perform call).2 = (o.after call).tables := by
      rw [tables_perform, after]
      cases o.attempt call with
      | error e => rfl
      | ok p => rfl
    exact (congrArg (Tables.run · rest) hstep).trans (ih (o.after call))

/-! ## Runs -/

/-- The schema enters with a call of the run, one that succeeds. -/
def Enters (o : Ontology) (calls : List Call) (s : Schema) : Prop :=
  ∃ before call rest p, calls = before ++ call :: rest ∧ call.schema? = some s ∧
    (o.run before).attempt call = .ok p

theorem contains_of_enters {calls : List Call} {s : Schema} (h : o.Enters calls s) {type : String}
    (htype : s.Asks type) : (o.run calls).contains type = true := by
  obtain ⟨before, call, rest, p, rfl, hschema, hp⟩ := h
  have hafter : (o.run before).after call = p := by rw [after, hp]
  rw [run, List.foldl_append, List.foldl_cons]
  refine contains_run ?_ rest
  exact hafter ▸ ((attempt_extended hp).known s hschema type).2 (.inr (.inr htype))

/-- What holds after a run of calls on an ontology, in place, and of the next call. -/
structure Lawful (o : Ontology) (calls : List Call) : Prop where
  /-- In place, the calls come to what they come to on the ontology. -/
  inPlace : o.tables.run calls = (o.run calls).tables
  /-- The order list has the names that the map has, -/
  listed : ∀ key, ((o.tables.run calls).entries key).isSome = true ↔
    key ∈ (o.tables.run calls).order.map foldName
  /-- each once. -/
  distinct : ((o.tables.run calls).order.map foldName).Nodup
  /-- A local name, however it is spelled, means the schema that carries it. -/
  found : ∀ own ∈ (o.run calls).names, ∀ name, sameName own name = true →
    ∃ s, (o.run calls).find? name = some s ∧ s.name = own
  /-- All that is bound anywhere in the chain is known, -/
  bound : ∀ l ∈ (o.run calls).layers, ∀ e ∈ l.classes, (o.run calls).contains e.2 = true
  /-- so a class that is bound has its schema. -/
  schemaFor : ∀ c type, (o.run calls).class? c = some type →
    ∃ s, (o.run calls).schemaFor c = .ok s ∧ sameName s.name type = true
  /-- The aggregate types named where a schema is declared are known once it has entered. -/
  aggregates : ∀ (s : Schema) (parts : List Schema.Part), o.Enters calls (s.withParts parts) →
    ∀ part ∈ parts, ∀ type, part.aggregateType? = some type →
      (o.run calls).contains type = true
  /-- What is found asks for nothing any more, and neither does a copy of it. -/
  settled : ∀ name s, (o.run calls).find? name = some s → s.pending = []
  /-- An aggregate type that was named in what was done to a schema is known after the call that the
  schema enters with just when it was known before, is that of the schema itself, or was named after
  the schema had last been copied. -/
  named : ∀ (s : Schema) (deeds : List Schema.Deed) call p, s.pending = [] →
    call.schema? = some (s.withDeeds deeds) → (o.run calls).attempt call = .ok p →
      ∀ type ∈ Schema.Deed.named deeds, p.contains type = true ↔
        (o.run calls).contains type = true ∨ sameName (s.withDeeds deeds).name type = true ∨
          ∃ named ∈ Schema.Deed.namedSinceCopy deeds, sameName named type = true
  /-- What is known stays known. -/
  lasting : ∀ type, (o.run calls).contains type = true →
    ∀ more, (o.run (calls ++ more)).contains type = true
  /-- The next call leaves everything as it is, or extends it. -/
  next : ∀ call, match (o.run calls).attempt call with
    | .error e => (o.tables.run calls).perform call = (.error e, o.tables.run calls)
    | .ok p => (o.tables.run calls).perform call = (.ok (), p.tables) ∧
        (o.run calls).Extended call p

theorem run_lawful (h : o.Assembled) (calls : List Call) : o.Lawful calls := by
  have hconsistent := (h.run calls).consistent
  have hrun := tables_run o calls
  constructor
  case inPlace => exact hrun
  case listed =>
    rw [hrun]
    exact tables_entries_isSome (o.run calls)
  case distinct =>
    rw [hrun]
    exact hconsistent.distinct
  case found => exact fun own hown name hname => hconsistent.find?_local hown hname
  case bound => exact hconsistent.bound
  case schemaFor => exact fun c type hc => hconsistent.schemaFor hc
  case aggregates =>
    intro s parts henters part hpart type htype
    exact contains_of_enters henters (s.asks_withParts hpart htype)
  case settled => exact fun name s hs => forall_of_layers (h.run calls).settled hs
  case named =>
    intro s deeds call p hpending hschema hp type _
    rw [(attempt_extended hp).known _ hschema, Schema.asks_withDeeds hpending]
  case lasting =>
    intro type htype more
    rw [run, List.foldl_append]
    exact contains_run htype more
  case next =>
    intro call
    have hperform := tables_perform (o.run calls) call
    rw [hrun]
    cases hcall : (o.run calls).attempt call with
    | error e =>
      rw [hcall] at hperform
      exact hperform
    | ok p =>
      rw [hcall] at hperform
      exact ⟨hperform, attempt_extended hcall⟩

/-! A rack of books in bags, declared twice, and a class that is bound to nothing and then to it. -/

def archive : Ontology :=
  compose "archive" [Vocabulary.basic]

def rackParts : List Schema.Part :=
  [.slot "label" TypeName.string false, .aggregate "books" TypeName.string 0 none "bag"]

def rack : Schema :=
  Schema.withParts { name := "Rack", kind := .concept } rackParts

def racking : List Call :=
  [.add rack, .addClass (.document 0) { name := "RACK", kind := .concept },
    .registerClass (.document 0) "Robot", .registerClass (.document 0) "rack"]

theorem enters_rack : archive.Enters racking rack :=
  ⟨[], .add rack, racking.tail, archive.insert rack, rfl, rfl, by rfl⟩

theorem run_lawful_racking : archive.Assembled ∧ (archive.run racking).names = ["bag", "Rack"] ∧
    (archive.run racking).class? (.document 0) = some "rack" ∧
    (archive.run racking).contains "bag" = true ∧ archive.Lawful racking := by
  have harchive : archive.Assembled :=
    .compose "archive" (List.forall_mem_singleton.2 Vocabulary.assembled_basic)
  have hlawful := run_lawful harchive racking
  refine ⟨harchive, by decide +kernel, by decide +kernel, ?_, hlawful⟩
  exact hlawful.aggregates _ rackParts enters_rack _ (List.mem_cons_of_mem _ List.mem_cons_self)
    "bag" rfl

/-! The rack that the archive has is copied into another ontology. -/

def shop : Ontology :=
  compose "shop" [Vocabulary.basic]

def rackDeeds : List Schema.Deed :=
  rackParts.map .declare ++ [.copy]

def copiedRack : Schema :=
  Schema.withDeeds { name := "Rack", kind := .concept } rackDeeds

/-- The copy has books in bags, but it comes without the bags. -/
theorem copied_rack : (archive.run racking).find? "rack" = some copiedRack ∧
    copiedRack.slots = [⟨"label", TypeName.string, false⟩, ⟨"books", "bag", true⟩] ∧
    "bag" ∈ Schema.Deed.named rackDeeds ∧ shop.Assembled ∧
    shop.Enters [.add copiedRack] copiedRack ∧
    (shop.run [.add copiedRack]).find? "bag" = none :=
  ⟨by rfl, by decide, by decide,
    .compose "shop" (List.forall_mem_singleton.2 Vocabulary.assembled_basic),
    ⟨[], .add copiedRack, [], shop.insert copiedRack, rfl, rfl, by rfl⟩, by rfl⟩

end Ontology
end AgentContent
