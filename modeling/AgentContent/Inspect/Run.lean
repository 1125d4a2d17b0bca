import AgentContent.Config.Read
import AgentContent.Inspect.Arguments
import AgentContent.Manager.Basic

/-!
# AgentContent.Inspect.Run

The inspection tool: content in one of the standard languages is read, checked and shown as a data
document.

* `Host`: the files and the input that the tool sees.
* `run`: what the tool prints for a command line, or why it fails.
-/

namespace AgentContent
namespace Inspect

/-- What a path leads to. -/
inductive Entry where
  | missing
  | unreadable
  | file (bytes : List UInt8)

/-- What the tool sees of the machine that it runs on. -/
structure Host (m : Type → Type) where
  entry : String → m Entry
  input : m (List UInt8)

inductive ConfigError where
  | unreadable
  | malformed

def ConfigError.message : ConfigError → String
  | .unreadable => "failed to read config file"
  | .malformed => "failed to parse config YAML"

/-- What cannot be done, although the command line is in order. -/
inductive UsageError where
  | missingConfig (path : String)
  | unknownLanguage (name : String) (known : List String)
  | notText (language : String)

def UsageError.message : UsageError → String
  | .missingConfig path => "config file " ++ path ++ " does not exist"
  | .unknownLanguage name known =>
    "unknown language " ++ name ++ "; available: " ++ String.intercalate ", " known
  | .notText language => language ++ " content must be UTF-8"

inductive InspectError where
  | config (error : ConfigError)
  | unreadable
  | content (error : ContentError)
  | usage (error : UsageError)

def InspectError.message : InspectError → String
  | .config e => "config error: " ++ e.message
  | .unreadable => "I/O error"
  | .content e => "content error: " ++ e.message
  | .usage e => "usage: " ++ e.message

/-- How a run ends. -/
inductive Outcome where
  | printed (text : String)
  | failed (error : InspectError)
  | refused
  | panicked

def Outcome.exitCode : Outcome → Nat
  | .printed _ => 0
  | .failed _ => 1
  | .refused => 2
  | .panicked => 101

/-- The text on standard output. -/
def Outcome.output : Outcome → String
  | .printed text => text
  | _ => ""

/-- The configuration file that is read when none is named. -/
def defaultConfigPath : String := "jade-content.yaml"

/-- The configuration in a file, with the default language that the environment has. -/
def configOfFile (e : Environment) (bytes : List UInt8) : Except ConfigError Config :=
  match String.fromUTF8? ⟨bytes.toArray⟩ with
  | none => .error .unreadable
  | some text =>
    match Config.ofText? text with
    | none => .error .malformed
    | some c => .ok (c.withLanguage e.defaultLanguage)

/-- The configuration at a path; the defaults if it is not named and nothing is there. -/
def configOfEntry (e : Environment) (named : Option String) : Entry → Except InspectError Config
  | .missing =>
    match named with
    | some path => .error (.usage (.missingConfig path))
    | none => .ok {}
  | .unreadable => .error (.config .unreadable)
  | .file bytes =>
    match configOfFile e bytes with
    | .error e => .error (.config e)
    | .ok c => .ok c

/-- The manager of the tool: the standard languages and the ontologies that come with them. -/
def managerOf (c : Config) : Except ContentError Manager :=
  match (Manager.ofSettings c.content).registerAll Language.standard with
  | .error e => .error e
  | .ok m =>
    match m.registerOntology Vocabulary.basic with
    | .error e => .error e
    | .ok m => m.registerOntology Vocabulary.operators

/-- The input as the payload of a language. Blanks around a text do not count. -/
def payloadOf (name : String) (l : Language) (bytes : List UInt8) : Except InspectError Payload :=
  match l.carrier with
  | .bytes => .ok (.bytes bytes)
  | .text =>
    match String.fromUTF8? ⟨bytes.toArray⟩ with
    | none => .error (.usage (.notText name))
    | some text => .ok (.text (String.ofList (trim text.toList)))

/-- The document of the content that an input has in a language. -/
def show? (m : Manager) (c : Config) (name : String) (l : Language) (ontology : Option String)
    (bytes : List UInt8) : Except InspectError String :=
  match payloadOf name l bytes with
  | .error e => .error e
  | .ok p =>
    let msg : Message :=
      { performative := .inform, language := some name, ontology := ontology, content := some p }
    match (m.extract msg).1 with
    | .error e => .error (.content e)
    | .ok content =>
      let doc := content.toJson
      .ok ((if c.inspect.pretty then doc.pretty else doc.compact) ++ "\n")

/-- A panic ends the tool without a report. -/
def outcomeOf : Except InspectError String → Outcome
  | .ok text => .printed text
  | .error (.content (.codec .capacityOverflow)) => .panicked
  | .error e => .failed e

/-- The bytes of the input: of a file, or of what is given to the tool. -/
def inputBytes {m : Type → Type} [Monad m] (h : Host m) (path : Option String) :
    m (Except InspectError (List UInt8)) :=
  match path with
  | none => do return .ok (← h.input)
  | some path => do
    match ← h.entry path with
    | .file bytes => return .ok bytes
    | _ => return .error .unreadable

/-- Shows the input under a configuration. The language is looked up before the input is read. -/
def inspectWith {m : Type → Type} [Monad m] (h : Host m) (a : Arguments) (c : Config) :
    m Outcome := do
  match managerOf c with
  | .error e => return .failed (.content e)
  | .ok manager =>
    let name := a.language.getD c.inspect.language
    match manager.lookUpLanguage name with
    | .error e => return .failed (.content e)
    | .ok none =>
      match manager.languageNames with
      | .error e => return .failed (.content e)
      | .ok known => return .failed (.usage (.unknownLanguage name known))
    | .ok (some l) =>
      match ← inputBytes h a.input with
      | .error e => return .failed e
      | .ok bytes =>
        return outcomeOf (show? manager c name l (a.ontology.or c.inspect.ontology) bytes)

/-- What the tool does for a command line. -/
def run {m : Type → Type} [Monad m] (h : Host m) (e : Environment) (args : List String) :
    m Outcome := do
  match Request.ofArguments e args with
  | .refused => return .refused
  | .help => return .printed (helpText e)
  | .version => return .printed versionText
  | .inspect a =>
    match configOfEntry e a.config (← h.entry (a.config.getD defaultConfigPath)) with
    | .error e => return .failed e
    | .ok c => inspectWith h a c

end Inspect
end AgentContent
