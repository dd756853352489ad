import FeSyntax.Command.Run

/-
  This file is the program: it collects the arguments, the
  standard input and the files that they name, and prints
  the result of the run.
-/

namespace FeSyntax

namespace Program

------------------------------------------------------------
-- Reading
------------------------------------------------------------

/-
  The code of an error as the system counts them.  Some
  codes come negated, as numbers of 32 bits.
-/
def systemCode
    (code : UInt32) : Nat :=
  if code.toNat < Nat.pow 2 31 then
    code.toNat
  else
    Nat.pow 2 32 - code.toNat

/- Why the system did not give the contents of a file. -/
def readErrorOf : IO.Error → ReadError
  | .noFileOrDirectory _ code _ => .system (systemCode code)
  | .inappropriateType _ code _ => .system (systemCode code)
  | .invalidArgument _ code _ => .system (systemCode code)
  | .permissionDenied _ code _ => .system (systemCode code)
  | .resourceExhausted _ code _ => .system (systemCode code)
  | .otherError code _ => .system (systemCode code)
  | _ => .system 5

/- The contents of a file, or why there are none. -/
def readPath
    (path : String) : IO (Except ReadError ByteArray) := do
  try
    pure (.ok (← IO.FS.readBinFile path))
  catch e =>
    pure (.error (readErrorOf e))

/- The files that a request names. -/
def pathsOf : Except UsageError Request → List String
  | .ok (.run o) => o.artifact.toList ++ o.files
  | _ => []

/- Whether a request reads the standard input. -/
def readsInput : Except UsageError Request → Bool
  | .ok (.run o) =>
      o.files.isEmpty && !o.languageInfo && !o.dumpArtifact
  | _ => false

/- The contents of files that were read before. -/
def lookUp
    (contents : List (String × Except ReadError ByteArray))
    (path : String) : Except ReadError ByteArray :=
  (contents.lookup path).getD (.error (.system 2))

/- All that a request needs to know. -/
def surroundingsOf
    (request : Except UsageError Request) :
    IO Surroundings := do
  let contents ←
    (pathsOf request).mapM fun path => do
      pure (path, ← readPath path)
  let input ←
    if readsInput request then
      (← IO.getStdin).readBinToEnd
    else
      pure ByteArray.empty
  pure ⟨.ok input, lookUp contents⟩

end Program

end FeSyntax

------------------------------------------------------------
-- Program
------------------------------------------------------------

open FeSyntax in
/- Run the command with its arguments. -/
def main
    (arguments : List String) : IO UInt32 := do
  let request := Request.ofArguments arguments
  let surroundings ← Program.surroundingsOf request
  let result := Request.result request surroundings
  IO.print result.stdout
  IO.eprint result.stderr
  pure (UInt32.ofNat result.code)
