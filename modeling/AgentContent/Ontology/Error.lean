import AgentContent.Content.Display
import AgentContent.Json.Write
import AgentContent.Schema.Kind

/-!
# AgentContent.Ontology.Error

What an ontology refuses, and the text that says so.
-/

namespace AgentContent

/-- The classes of application values that can be bound to a schema. A document class holds any
data document. -/
inductive AppClass where
  | string
  | bool
  | int64
  | int32
  | float64
  | date
  | bytes
  | agentId
  | document (index : Nat)
  deriving DecidableEq

def AppClass.label : AppClass → String
  | .string => "string"
  | .bool => "bool"
  | .int64 => "i64"
  | .int32 => "i32"
  | .float64 => "f64"
  | .date => "date"
  | .bytes => "bytes"
  | .agentId => "aid"
  | .document i => "D" ++ toString i

/-- How a value breaks a facet. -/
inductive Violation where
  | notAggregate (value : Content)
  | tooFew (size least : Nat)
  | tooMany (size most : Nat)
  | wrongElement (element : Content) (type : String)
  | notPermitted (value : Content)
  | noMatch (value : Content) (pattern : String)
  | rule (name reason : String)

def Violation.message : Violation → String
  | .notAggregate v => v.display ++ " is not an aggregate"
  | .tooFew size least => toString size ++ " elements, at least " ++ toString least ++ " required"
  | .tooMany size most => toString size ++ " elements, at most " ++ toString most ++ " allowed"
  | .wrongElement e type =>
    "element " ++ e.display ++ " of type " ++ e.typeName ++ " is not a " ++ type
  | .notPermitted v => v.display ++ " is not a permitted value"
  | .noMatch v pattern => v.display ++ " does not match " ++ pattern
  | .rule name reason => name ++ ": " ++ reason

/-- Why a value is no instance of a schema. -/
inductive Invalidity where
  | declaredAs (type : String)
  | primitiveOf (type : String)
  | notSlotted
  | noProposition
  | addressesNotAggregate
  | addressNotString (address : Content)
  | resolversNotAggregate
  | resolverNotConcept (resolver : Content)
  | elementNotPrimitive

def Invalidity.message : Invalidity → String
  | .declaredAs type => "variable declared as " ++ type
  | .primitiveOf type => "primitive of type " ++ type
  | .notSlotted => "expected a slotted value"
  | .noProposition => "proposition is not a content element"
  | .addressesNotAggregate => "addresses is not an aggregate"
  | .addressNotString a => "address " ++ a.display ++ " is not a string"
  | .resolversNotAggregate => "resolvers is not an aggregate"
  | .resolverNotConcept r => "resolver " ++ r.display ++ " is not an agent identifier"
  | .elementNotPrimitive => "element is not a primitive"

/-- Why a value has no counterpart on the other side of a conversion. -/
inductive ConversionFault where
  | notList (found : Json)
  | notObject (found : Json)
  | kindNotBuilt (kind : SchemaKind)
  | unexpected (found : Json)
  | unreadableDate
  | cannotInfer (found : Json)
  | unbound (name : String)
  | kindNotConverted (kind : Content.Kind)
  | notFinite (value : Binary64)
  | notOfClass

/-- The reason of a fault; an unreadable date and data that is not of the class give none. -/
def ConversionFault.message? : ConversionFault → Option String
  | .notList v => some ("expected a list, found " ++ v.compact)
  | .notObject v => some ("expected an object, found " ++ v.compact)
  | .kindNotBuilt k => some (k.rootName ++ " values cannot be built from application data")
  | .unexpected v => some ("unexpected value " ++ v.compact)
  | .unreadableDate => none
  | .cannotInfer v => some ("cannot infer a schema for " ++ v.compact)
  | .unbound name => some ("unbound variable ?" ++ name)
  | .kindNotConverted k => some (k.label ++ " cannot be converted to application data")
  | .notFinite x => some (String.ofList (FloatStyle.plain.write x) ++ " is not finite")
  | .notOfClass => none

/-- Which shape a template asks of its defaults. -/
inductive Mismatch where
  | notAggregate (found : Content)
  | notSlotted (found : Content)

def Mismatch.message : Mismatch → String
  | .notAggregate d => "expected an aggregate default, found " ++ d.display
  | .notSlotted d => "expected a concept default, found " ++ d.display

inductive OntologyError where
  | unknownOntology (name : String)
  | schemaNotFound (type ontology : String)
  | classNotRegistered (appClass : AppClass) (ontology : String)
  | incompatibleSchema (schema : String) (value : Content) (expected slot : String)
  | missingMandatorySlot (schema slot : String)
  | undeclaredSlot (schema slot : String)
  | facetViolation (slot : String) (violation : Violation)
  | invalid (schema : String) (value : Content) (reason : Invalidity)
  | badPattern (pattern : String)
  | conversion (type : String) (fault : ConversionFault)
  | templateMismatch (slot : String) (mismatch : Mismatch)
  | duplicateSchema (type ontology : String)
  | notContentElement (value : Content)
  | abstractSchema (name : String)

namespace OntologyError

def message : OntologyError → String
  | .unknownOntology name => "unknown ontology: " ++ name
  | .schemaNotFound type ontology =>
    "no schema found for type " ++ type ++ " in ontology " ++ ontology
  | .classNotRegistered c ontology =>
    "no schema registered for class " ++ c.label ++ " in ontology " ++ ontology
  | .incompatibleSchema schema value expected slot =>
    "schema " ++ schema ++ " of value " ++ value.display ++ " is not compatible with schema " ++
      expected ++ " of slot " ++ slot
  | .missingMandatorySlot schema slot =>
    "missing value for mandatory slot " ++ slot ++ " of schema " ++ schema
  | .undeclaredSlot schema slot => "slot " ++ slot ++ " is not declared by schema " ++ schema
  | .facetViolation slot v => "facet violation on slot " ++ slot ++ ": " ++ v.message
  | .invalid schema value reason =>
    "value " ++ value.display ++ " is not a valid " ++ schema ++ ": " ++ reason.message
  | .badPattern pattern => "not a pattern: " ++ pattern
  | .conversion type fault =>
    match fault.message? with
    | some reason => "introspection failed for " ++ type ++ ": " ++ reason
    | none => "introspection failed for " ++ type
  | .templateMismatch slot m => "template mismatch at slot " ++ slot ++ ": " ++ m.message
  | .duplicateSchema type ontology =>
    "schema " ++ type ++ " is already defined in ontology " ++ ontology
  | .notContentElement value => value.display ++ " is not a content element"
  | .abstractSchema name => "schema " ++ name ++ " is abstract"

end OntologyError

end AgentContent
