import LosslessSyntax.CommandLine
/-!
The program: it reads the file that the arguments name and writes the answer.
-/
namespace LosslessSyntax.CommandLine

/-- The number of a system error, which some operations give negated. -/
def errorNumber (code : UInt32) : Nat := min code.toNat (0 - code).toNat

def ReadFailure.ofSystem (failure : IO.Error) : ReadFailure :=
  match failure with
  | .noFileOrDirectory .. => .notFound
  | .permissionDenied .. => .permissionDenied
  | .inappropriateType _ code _ =>
    if errorNumber code = 21 then .isDirectory else .notDirectory
  | .invalidArgument _ code _ =>
    if errorNumber code = 36 then .nameTooLong else .other (toString failure)
  | failure => .other (toString failure)

def readText (file : String) : IO (Except ReadFailure String) := do
  try
    let bytes ← IO.FS.readBinFile file
    match String.fromUTF8? bytes with
    | some text => return .ok text
    | none => return .error .notText
  catch failure => return .error (.ofSystem failure)

def Answer.write (answer : Answer) : IO UInt32 := do
  IO.print answer.stdout
  IO.eprint answer.stderr
  return UInt32.ofNat answer.code

def timedAnswer (request : Request) (source : String) : IO Answer := do
  if request.output = .tokens then return answerSource request source ""
  let started ← IO.monoNanosNow
  let parsed ← IO.lazyPure fun _ => SyntaxTree.parse source request.dialect
  let stopped ← IO.monoNanosNow
  return answerTree request source parsed (duration (stopped - started))

end LosslessSyntax.CommandLine

open LosslessSyntax.CommandLine in
def main (arguments : List String) : IO UInt32 := do
  let dialect ← IO.getEnv "FLANG_DIALECT"
  match plan arguments dialect with
  | .error answer => answer.write
  | .ok request =>
    match ← readText request.file with
    | .error failure => (answerUnread request failure).write
    | .ok source => (← timedAnswer request source).write
