/-!
The seven kinds of artifact, each with the ending of its type name and the place below the base
package and the base directory where it goes.
-/
namespace Scaffold

inductive Kind
  | repository
  | dto
  | request
  | searchRequest
  | mapper
  | service
  | controller
  deriving DecidableEq, Repr

namespace Kind

/-- All kinds in the order in which artifacts are generated. -/
def all : List Kind :=
  [repository, dto, request, searchRequest, mapper, service, controller]

def label : Kind → String
  | repository => "repository"
  | dto => "dto"
  | request => "request"
  | searchRequest => "search-request"
  | mapper => "mapper"
  | service => "service"
  | controller => "controller"

def ending : Kind → String
  | repository => "Repository"
  | dto => "Dto"
  | request => "Request"
  | searchRequest => "SearchRequest"
  | mapper => "Mapper"
  | service => "Service"
  | controller => "Controller"

/-- The directories from the base directory down to the artifact. -/
def place : Kind → List String
  | repository => ["data", "access"]
  | dto => ["service", "model"]
  | request => ["web", "model"]
  | searchRequest => ["web", "model"]
  | mapper => ["mapper"]
  | service => ["service"]
  | controller => ["web"]

def subpackage (k : Kind) : String :=
  ".".intercalate k.place

def relativePath (k : Kind) : String :=
  "/".intercalate k.place

def typeName (k : Kind) (className : String) : String :=
  className ++ k.ending

def fileName (k : Kind) (className : String) : String :=
  k.typeName className ++ ".java"

end Kind

end Scaffold
