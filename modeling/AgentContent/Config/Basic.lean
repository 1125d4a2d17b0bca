/-!
# AgentContent.Config.Basic

Settings of content handling, of the log, and of the inspection tool, each with a default.
-/

namespace AgentContent

structure ContentSettings where
  validationMode : Bool := true
  rejectUndeclaredSlots : Bool := false
  defaultLanguage : Option String := none
  deriving DecidableEq

structure LogSettings where
  level : String := "info"
  json : Bool := false
  deriving DecidableEq

structure InspectSettings where
  language : String := "fipa-sl"
  ontology : Option String := none
  pretty : Bool := true
  deriving DecidableEq

structure Config where
  content : ContentSettings := {}
  logging : LogSettings := {}
  inspect : InspectSettings := {}
  deriving DecidableEq

/-- The configuration with another default language, if one is given from outside. -/
def Config.withLanguage (c : Config) (language : Option String) : Config :=
  match language with
  | none => c
  | some name => { c with content := { c.content with defaultLanguage := some name } }

end AgentContent
