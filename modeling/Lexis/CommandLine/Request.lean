/-!
# Requests on the command line

The arguments are read from left to right and make one request, or a usage error. A request for
help or for the version is final as soon as it is read.
-/

namespace Lexis

inductive Request where
  | help
  | version
  | evaluate (code : String)
  | file (path : String)
  | prompt
  deriving Repr, DecidableEq

inductive UsageError where
  | missingCode
  | unknownOption (argument : String)
  | unexpectedArgument (argument : String)
  | codeAndFile
  deriving Repr, DecidableEq

def UsageError.message : UsageError → String
  | .missingCode => "-e requires an argument"
  | .unknownOption argument => "Unknown option: " ++ argument
  | .unexpectedArgument argument => "Unexpected argument: " ++ argument
  | .codeAndFile => "-e cannot be combined with a file"

namespace Request

/-- The request when no argument is left: the code, the file, or neither was given. -/
def settle : Option String → Option String → Except UsageError Request
  | some _, some _ => .error .codeAndFile
  | some code, none => .ok (.evaluate code)
  | none, some path => .ok (.file path)
  | none, none => .ok .prompt

def isOption (argument : String) : Bool := argument.toList.head? == some '-'

/-- Reads the arguments that are left when `code` and `path` were given by those before. A later
code takes the place of an earlier one; a second path is an error. -/
def read (code path : Option String) : List String → Except UsageError Request
  | [] => settle code path
  | argument :: later =>
      if argument = "-h" ∨ argument = "--help" then .ok .help
      else if argument = "-v" ∨ argument = "--version" then .ok .version
      else if argument = "-e" ∨ argument = "--eval" then
        match later with
        | [] => .error .missingCode
        | next :: later => read (some next) path later
      else if isOption argument then .error (.unknownOption argument)
      else if path.isSome then .error (.unexpectedArgument argument)
      else read code (some argument) later

def ofArguments (arguments : List String) : Except UsageError Request := read none none arguments

theorem ofArguments_nil : ofArguments [] = .ok .prompt := rfl

example : ofArguments ["-e", "1", "-e", "-h"] = .ok (.evaluate "-h") := by rfl
example : ofArguments ["a.toy", "b.toy", "-h"] = .error (.unexpectedArgument "b.toy") := by
  rfl

end Request

end Lexis
