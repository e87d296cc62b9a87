import Scaffold.Path

/-!
Why a run fails, and the wording of each cause.
-/
namespace Scaffold

inductive Failure
  | noFileSelected
  | unreadable (path : Path) (reason : String)
  | unsupportedLanguage (path : Path)
  | unparsable (path : Path)
  | noClass (path : Path)
  | untypedField (className field : String)
  | directoryNotCreated (path : Path) (reason : String)
  | notWritten (path : Path) (reason : String)
  | artifactsExist (paths : List Path)
  | commitFailed (rolledBack : Nat) (cause : Failure)
  deriving DecidableEq, Repr

namespace Failure

/-- Names stand between grave accents. -/
def quote (text : String) : String := "`" ++ text ++ "`"

def message : Failure → String
  | noFileSelected => "No file selected"
  | unreadable path reason => "Failed to read " ++ quote path.spelling ++ ": " ++ reason
  | unsupportedLanguage path => "Unsupported language for " ++ quote path.spelling
  | unparsable path => "Failed to parse " ++ quote path.spelling
  | noClass path => "No class found in " ++ quote path.spelling
  | untypedField className field =>
    "Field " ++ quote field ++ " of " ++ quote className ++ " has no declared type"
  | directoryNotCreated path reason =>
    "Failed to create directory " ++ quote path.spelling ++ ": " ++ reason
  | notWritten path reason => "Failed to write " ++ quote path.spelling ++ ": " ++ reason
  | artifactsExist paths =>
    "Refusing to overwrite existing file(s): " ++
      ", ".intercalate (paths.map fun path => quote path.spelling)
  | commitFailed rolledBack cause =>
    "Commit failed after " ++ toString rolledBack ++ " file(s) were rolled back: " ++ cause.message

end Failure

end Scaffold
