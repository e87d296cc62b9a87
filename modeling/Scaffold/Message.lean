import Scaffold.Failure

/-!
What a user is told: one sentence with a level and a title.
-/
namespace Scaffold

inductive Level
  | info
  | error
  deriving DecidableEq, Repr

def Level.label : Level → String
  | info => "info"
  | error => "error"

inductive Message
  | noFileSelected
  | noClassFound
  | generating (className : String)
  | failed (reason : String)
  deriving DecidableEq, Repr

namespace Message

def text : Message → String
  | noFileSelected => "No file selected"
  | noClassFound => "No class found in the selected file."
  | generating className => "Generating REST components for " ++ className
  | failed reason => reason

def level : Message → Level
  | generating _ => .info
  | _ => .error

def title (m : Message) : String :=
  match m.level with
  | .info => "In Progress"
  | .error => "Error"

/-- A file that holds no class, for whatever reason, is reported without its name. -/
def ofFailure : Failure → Message
  | .noFileSelected => noFileSelected
  | .unsupportedLanguage _ | .unparsable _ | .noClass _ => noClassFound
  | failure => failed failure.message

end Message

end Scaffold
