import AgentContent.AgentId.Basic
import AgentContent.Conversion.Internalise

/-!
# AgentContent.Conversion.AppClass

Objects of application classes, given by the data that they are written as.

* `AppClass.accept?`: the data of the object that data reads as, if there is one.
* `Ontology.fromObject`, `Ontology.toObject`: an object as content and back, by the schema that is
  bound to its class.
-/

namespace AgentContent

/-- The data of an object of the class that some data reads as. -/
def AppClass.accept? (c : AppClass) (v : Json) : Option Json :=
  match c with
  | .string => v.string?.map .string
  | .bool => v.bool?.map .bool
  | .int64 => v.int64?.map .integer
  | .int32 =>
    match v.int64? with
    | some n => if -0x80000000 ≤ n && n < 0x80000000 then some (.integer n) else none
    | none => none
  | .float64 => v.float?.map .float
  | .date => (v.string?.bind fun s => Instant.readLoose? s.toList).map fun t => .string t.toData
  | .bytes => (v.array?.bind Json.bytes?).map fun bs => .array (bs.map fun b => .integer b.toNat)
  | .agentId => (AgentId.ofJson? v).map fun a => a.toJson.sorted
  | .document _ => some v

namespace Ontology

/-- The content of an object, given by its data. -/
def fromObject (o : Ontology) (c : AppClass) (v : Json) : Except OntologyError Content :=
  match o.schemaFor c with
  | .error e => .error e
  | .ok s => o.externalise s v

/-- The data of the object that content stands for. -/
def toObject (o : Ontology) (c : AppClass) (content : Content) : Except OntologyError Json :=
  match o.schemaFor c with
  | .error e => .error e
  | .ok s =>
    match o.internalise s content with
    | .error e => .error e
    | .ok v =>
      match c.accept? v with
      | some v => .ok v
      | none => .error (.conversion c.label .notOfClass)

end Ontology
end AgentContent
