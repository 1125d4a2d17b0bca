import AgentContent.Inspect.Run

/-!
# AgentContent.Main

The command line of the inspection tool.
-/

namespace AgentContent
namespace Inspect

/-- The files and the standard input of the machine. -/
def machine : Host IO where
  entry path := do
    match ← (IO.FS.readBinFile path).toBaseIO with
    | .ok bytes => return .file bytes.data.toList
    | .error (.noFileOrDirectory _ _ _) => return .missing
    | .error _ => return .unreadable
  input := do
    return (← (← IO.getStdin).readBinToEnd).data.toList

/-- What the environment of the process has for the tool. -/
def environment : IO Environment := do
  return ⟨← IO.getEnv "JADE_CONTENT_CONFIG", ← IO.getEnv "JADE_INSPECT_LANGUAGE",
    ← IO.getEnv "JADE_CONTENT_LANGUAGE"⟩

/-- Prints an outcome, with what went wrong on standard error. -/
def report (o : Outcome) : IO UInt32 := do
  IO.print o.output
  match o with
  | .printed _ => pure ()
  | .failed e => IO.eprintln ("Error: " ++ e.message)
  | .refused => IO.eprintln "For more information, try '--help'."
  | .panicked => IO.eprintln "capacity overflow"
  return UInt32.ofNat o.exitCode

end Inspect
end AgentContent

def main (args : List String) : IO UInt32 := do
  AgentContent.Inspect.report
    (← AgentContent.Inspect.run AgentContent.Inspect.machine (← AgentContent.Inspect.environment) args)
