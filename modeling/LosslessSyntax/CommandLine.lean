import LosslessSyntax.Report
import LosslessSyntax.Schema
import LosslessSyntax.Tree.Parse
/-!
The command line: what a list of arguments asks for, and what is answered. Files are read through
a function, so the answer is a value like any other.
-/
namespace LosslessSyntax.CommandLine

def usage : String :=
  "Usage: flang-parse <file> [--sexp | --json | --tokens] [--dialect canonical|extended]\n" ++
    "       flang-parse --node-types"

inductive ReadFailure where
  | notFound
  | isDirectory
  | notDirectory
  | permissionDenied
  | nameTooLong
  | notText
  | other (message : String)
deriving DecidableEq, Repr

def ReadFailure.message : ReadFailure → String
  | .notFound => "No such file or directory (os error 2)"
  | .isDirectory => "Is a directory (os error 21)"
  | .notDirectory => "Not a directory (os error 20)"
  | .permissionDenied => "Permission denied (os error 13)"
  | .nameTooLong => "File name too long (os error 36)"
  | .notText => "stream did not contain valid UTF-8"
  | .other message => message

inductive Output where
  | summary
  | sexp
  | json
  | tokens
deriving DecidableEq, Repr

structure Request where
  file : String
  output : Output
  dialect : Dialect
deriving DecidableEq, Repr

structure Answer where
  code : Nat
  stdout : String
  stderr : String
deriving DecidableEq, Repr

/-- Arguments read one by one. Later ones win, but there can be one file only. -/
def parseArguments (file : Option String) (output : Output) (dialect : Dialect) :
    List String → Except String Request
  | [] =>
    match file with
    | some file => .ok ⟨file, output, dialect⟩
    | none => .error "no input file given"
  | "--sexp" :: rest => parseArguments file .sexp dialect rest
  | "--json" :: rest => parseArguments file .json dialect rest
  | "--tokens" :: rest => parseArguments file .tokens dialect rest
  | ["--dialect"] => .error "--dialect needs a value"
  | "--dialect" :: value :: rest => do
    let dialect ← Dialect.parse value
    parseArguments file output dialect rest
  | argument :: rest =>
    if ['-', '-'].isPrefixOf argument.toList then .error ("unknown flag `" ++ argument ++ "`")
    else
      match file with
      | none => parseArguments (some argument) output dialect rest
      | some _ => .error ("unexpected argument `" ++ argument ++ "`")

/-- The dialect that the environment asks for. What is no dialect is ignored. -/
def environmentDialect (value : Option String) : Dialect :=
  match value.map Dialect.parse with
  | some (.ok dialect) => dialect
  | _ => .canonical

def listTokens (source : String) : String :=
  String.join ((tokenize source).map fun token => token.summary ++ "\n")

def summary (file : String) (tree : SyntaxTree) (elapsed : String) : String :=
  s!"Parsed {file} ({tree.dialect.name} dialect, {tree.items.length} items) in {elapsed}"

def view (request : Request) (tree : SyntaxTree) (elapsed : String) : String :=
  match request.output with
  | .sexp => tree.sexp
  | .json => tree.json
  | .summary | .tokens => summary request.file tree elapsed

def report (file source : String) (errors : List Diagnostic) : String :=
  if errors.isEmpty then ""
  else String.join (errors.map (·.render source file)) ++ s!"{errors.length} syntax error(s)\n"

def answerTree (request : Request) (source : String) (parsed : Except Diagnostic SyntaxTree)
    (elapsed : String) : Answer :=
  match parsed with
  | .error diagnostic => ⟨1, "", diagnostic.render source request.file⟩
  | .ok tree =>
    ⟨if tree.errors.isEmpty then 0 else 1, view request tree elapsed ++ "\n",
      report request.file source tree.errors⟩

def answerSource (request : Request) (source elapsed : String) : Answer :=
  if request.output = .tokens then ⟨0, listTokens source, ""⟩
  else answerTree request source (SyntaxTree.parse source request.dialect) elapsed

def plan (arguments : List String) (dialect : Option String) : Except Answer Request :=
  if arguments.contains "--node-types" then .error ⟨0, Schema.json ++ "\n", ""⟩
  else
    match parseArguments none .summary (environmentDialect dialect) arguments with
    | .error message => .error ⟨2, "", message ++ "\n" ++ usage ++ "\n"⟩
    | .ok request => .ok request

def answerUnread (request : Request) (failure : ReadFailure) : Answer :=
  ⟨1, "", "Failed to read " ++ request.file ++ ": " ++ failure.message ++ "\n"⟩

/-- The answer to arguments, with files read by `read`. -/
def run (arguments : List String) (dialect : Option String)
    (read : String → Except ReadFailure String) (elapsed : String) : Answer :=
  match plan arguments dialect with
  | .error answer => answer
  | .ok request =>
    match read request.file with
    | .error failure => answerUnread request failure
    | .ok source => answerSource request source elapsed

def fraction (digits part : Nat) : String :=
  let text := (padLeft '0' digits (toString part)).toList.reverse.dropWhile (· = '0')
  if text.isEmpty then "" else "." ++ String.ofList text.reverse

def duration (nanoseconds : Nat) : String :=
  let inUnit := fun (digits : Nat) (unit : String) =>
    let size := Nat.pow 10 digits
    toString (nanoseconds / size) ++ fraction digits (nanoseconds % size) ++ unit
  if 1000000000 ≤ nanoseconds then inUnit 9 "s"
  else if 1000000 ≤ nanoseconds then inUnit 6 "ms"
  else if 1000 ≤ nanoseconds then inUnit 3 "µs"
  else inUnit 0 "ns"

end LosslessSyntax.CommandLine
