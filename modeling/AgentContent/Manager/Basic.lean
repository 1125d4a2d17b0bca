import AgentContent.Config.Basic
import AgentContent.Conversion.AppClass
import AgentContent.Language.Basic
import AgentContent.Ontology.Validation

/-!
# AgentContent.Manager.Basic

The content manager of an agent: languages and ontologies by name, and what is done with the
content of messages.

* `Manager.lock`: the way into the registries, which a thread that panicked there has closed.
* `Manager.merge`: the ontology of a message, its own and the vocabulary of its language.
* `Manager.merged`: the same, remembered until the next registration.
* `Manager.fill`, `Manager.extract`: content into a message and out of it.
-/

namespace AgentContent

/-- Entries by names that differ in more than the case of letters, each with its spelling. -/
abbrev Registry (α : Type) := List (String × α)

namespace Registry

variable {α : Type}

def get? (name : String) (r : Registry α) : Option α :=
  (r.find? fun e => sameName e.1 name).map (·.2)

/-- The entry of a name, in place of an earlier one. -/
def put (name : String) (value : α) (r : Registry α) : Registry α :=
  (name, value) :: r.filter fun e => !sameName e.1 name

/-- The spellings of all names in order. -/
def names (r : Registry α) : List String :=
  (r.map (·.1)).mergeSort fun a b => a ≤ b

end Registry

/-- What a name was given for. -/
inductive NameUse where
  | language
  | ontology

inductive ContentError where
  | codec (error : CodecError)
  | ontology (error : OntologyError)
  | emptyName (use : NameUse)
  | registryPoisoned

def ContentError.message : ContentError → String
  | .codec e => e.message
  | .ontology e => e.message
  | .emptyName .language => "invalid argument: language name is empty"
  | .emptyName .ontology => "invalid argument: ontology name is empty"
  | .registryPoisoned => "content manager registry is poisoned"

/-- A language and an ontology, by their folded names. -/
abbrev MergeKey := String × Option String

/-- A manager. It is `poisoned` once a thread has panicked in the middle of its registries. -/
structure Manager where
  languages : Registry Language := []
  ontologies : Registry Ontology := []
  merges : List (MergeKey × Ontology) := []
  poisoned : Bool := false
  validating : Bool := true
  strict : Bool := false
  defaultLanguage : Option String := none

namespace Manager

def ofSettings (s : ContentSettings) : Manager where
  validating := s.validationMode
  strict := s.rejectUndeclaredSlots
  defaultLanguage := s.defaultLanguage

/-- A thread panics in the middle of the registries, as when a language of an application panics
where it is to give its vocabulary. What it leaves there is seen by nobody. -/
def poison (m : Manager) : Manager :=
  { m with poisoned := true }

/-- What is done inside the registries, unless they are poisoned. -/
def lock {α : Type} (m : Manager) (inside : Except ContentError α) : Except ContentError α :=
  if m.poisoned then .error .registryPoisoned else inside

/-- The name has nothing but blanks. -/
def isEmptyName (name : String) : Bool :=
  name.toList.all isBlank

def registerLanguageAs (m : Manager) (name : String) (l : Language) : Except ContentError Manager :=
  if isEmptyName name then .error (.emptyName .language)
  else m.lock (.ok { m with languages := Registry.put name l m.languages, merges := [] })

def registerLanguage (m : Manager) (l : Language) : Except ContentError Manager :=
  m.registerLanguageAs l.name l

def registerOntologyAs (m : Manager) (name : String) (o : Ontology) : Except ContentError Manager :=
  if isEmptyName name then .error (.emptyName .ontology)
  else m.lock (.ok { m with ontologies := Registry.put name o m.ontologies, merges := [] })

def registerOntology (m : Manager) (o : Ontology) : Except ContentError Manager :=
  m.registerOntologyAs o.name o

/-- Registers languages one after the other. -/
def registerAll (m : Manager) : List Language → Except ContentError Manager
  | [] => .ok m
  | l :: rest =>
    match m.registerLanguage l with
    | .error e => .error e
    | .ok m => registerAll m rest

def language? (m : Manager) (name : String) : Option Language :=
  Registry.get? name m.languages

def ontology? (m : Manager) (name : String) : Option Ontology :=
  Registry.get? name m.ontologies

def lookUpLanguage (m : Manager) (name : String) : Except ContentError (Option Language) :=
  m.lock (.ok (m.language? name))

def lookUpOntology (m : Manager) (name : String) : Except ContentError (Option Ontology) :=
  m.lock (.ok (m.ontology? name))

def languageNames (m : Manager) : Except ContentError (List String) :=
  m.lock (.ok (Registry.names m.languages))

def ontologyNames (m : Manager) : Except ContentError (List String) :=
  m.lock (.ok (Registry.names m.ontologies))

/-- The language of a name that a call is about. -/
def requireLanguage (m : Manager) (name : String) : Except ContentError Language :=
  match m.lookUpLanguage name with
  | .error e => .error e
  | .ok none => .error (.codec (.unknownLanguage name))
  | .ok (some l) => .ok l

/-- A declared ontology with the vocabulary of a language; one of them where there is only one, the
basic ontology where there is none. -/
def combine (declared vocabulary : Option Ontology) : Ontology :=
  match declared, vocabulary with
  | some d, some v => .compose (d.name ++ "+" ++ v.name) [d, v]
  | some d, none => d
  | none, some v => v
  | none, none => Vocabulary.basic

/-- The ontology for a language and the name of a declared ontology. -/
def merge (m : Manager) (l : Language) (ontology : Option String) : Except ContentError Ontology :=
  match ontology with
  | none => .ok (combine none l.vocabulary?)
  | some name =>
    match m.ontology? name with
    | none => .error (.ontology (.unknownOntology name))
    | some o => .ok (combine (some o) l.vocabulary?)

def mergeKey (language : String) (ontology : Option String) : MergeKey :=
  (foldName language, ontology.map foldName)

/-- The ontology for a language under a name, from what is remembered or else merged and
remembered. -/
def merged (m : Manager) (name : String) (l : Language) (ontology : Option String) :
    Except ContentError (Ontology × Manager) :=
  m.lock <|
    match m.merges.lookup (mergeKey name ontology) with
    | some o => .ok (o, m)
    | none =>
      match m.merge l ontology with
      | .error e => .error e
      | .ok o => .ok (o, { m with merges := (mergeKey name ontology, o) :: m.merges })

/-- The name of the language of a message, and the language. -/
def resolveLanguage (m : Manager) (msg : Message) : Except ContentError (String × Language) :=
  match msg.language.or m.defaultLanguage with
  | none => .error (.codec .missingLanguage)
  | some name =>
    match m.requireLanguage name with
    | .error e => .error e
    | .ok l => .ok (name, l)

/-- The language and the ontology of a message. -/
def resolve (m : Manager) (msg : Message) :
    Except ContentError (String × Language × Ontology × Manager) :=
  match m.resolveLanguage msg with
  | .error e => .error e
  | .ok (name, l) =>
    match m.merged name l msg.ontology with
    | .error e => .error e
    | .ok (o, m) => .ok (name, l, o, m)

/-- What the flags ask of content. -/
def check (m : Manager) (o : Ontology) (c : Content) : Except ContentError Unit :=
  if m.validating then
    match o.schema c.typeName with
    | .error e => .error (.ontology e)
    | .ok s =>
      match o.validate s c with
      | .error e => .error (.ontology e)
      | .ok () =>
        if m.strict then
          match o.checkUndeclared s c with
          | .error e => .error (.ontology e)
          | .ok () => .ok ()
        else .ok ()
  else .ok ()

/-- The message with the content in it. -/
def put (m : Manager) (l : Language) (o : Ontology) (msg : Message) (c : Content) :
    Except ContentError Message :=
  if c.isContentElement then
    match m.check o c with
    | .error e => .error e
    | .ok () =>
      match l.encode o c with
      | .error e => .error (.codec e)
      | .ok p => .ok { msg with content := some p }
  else .error (.ontology (.notContentElement c))

/-- Puts content into a message. The first part is what the call gives, the second the manager
after it. -/
def fill (m : Manager) (msg : Message) (c : Content) : Except ContentError Message × Manager :=
  match m.resolve msg with
  | .error e => (.error e, m)
  | .ok (_, l, o, m) => (m.put l o msg c, m)

/-- Puts an object, given by its data, into a message. -/
def fillObject (m : Manager) (msg : Message) (c : AppClass) (v : Json) :
    Except ContentError Message × Manager :=
  match m.resolve msg with
  | .error e => (.error e, m)
  | .ok (_, l, o, m) =>
    match o.fromObject c v with
    | .error e => (.error (.ontology e), m)
    | .ok content => (m.put l o msg content, m)

/-- The checked content of a payload that a message may have. -/
def take (m : Manager) (name : String) (l : Language) (o : Ontology) (p : Option Payload) :
    Except ContentError Content :=
  match p with
  | none => .error (.codec .missingContent)
  | some p =>
    match l.decode o name p with
    | .error e => .error (.codec e)
    | .ok c =>
      match m.check o c with
      | .error e => .error e
      | .ok () => .ok c

/-- The content of a message. -/
def extract (m : Manager) (msg : Message) : Except ContentError Content × Manager :=
  match m.resolve msg with
  | .error e => (.error e, m)
  | .ok (name, l, o, m) => (m.take name l o msg.content, m)

/-- The data of the object that a message holds. -/
def extractObject (m : Manager) (msg : Message) (c : AppClass) :
    Except ContentError Json × Manager :=
  match m.resolve msg with
  | .error e => (.error e, m)
  | .ok (name, l, o, m) =>
    match m.take name l o msg.content with
    | .error e => (.error e, m)
    | .ok content =>
      match o.toObject c content with
      | .error e => (.error (.ontology e), m)
      | .ok v => (.ok v, m)

/-- The ontology for the names of a language and of an ontology. -/
def ontologyFor (m : Manager) (language : String) (ontology : Option String) :
    Except ContentError Ontology × Manager :=
  match m.requireLanguage language with
  | .error e => (.error e, m)
  | .ok l =>
    match m.merged language l ontology with
    | .error e => (.error e, m)
    | .ok (o, m) => (.ok o, m)

end Manager

end AgentContent
