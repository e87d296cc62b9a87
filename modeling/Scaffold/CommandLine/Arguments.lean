import Scaffold.Transaction

/-!
The arguments of the command line. They are read one after the other; the first that does not fit,
or that asks for help or for the version, decides.
-/
namespace Scaffold.CommandLine

inductive Subcommand
  | generate
  | inspect
  | completions
  deriving DecidableEq, Repr

def Subcommand.all : List Subcommand := [.generate, .inspect, .completions]

def Subcommand.name : Subcommand → String
  | .generate => "generate"
  | .inspect => "inspect"
  | .completions => "completions"

/-- What the options set. -/
structure Options where
  json : Bool := false
  plain : Bool := false
  config : Option Path := none
  roots : List Path := []
  policy : Option CollisionPolicy := none
  strictTypes : Bool := false
  dryRun : Bool := false
  deriving DecidableEq, Repr

/-- Options that take a value. -/
inductive Valued
  | config
  | sourceRoot
  | onCollision
  deriving DecidableEq, Repr

/-- Why reading stops early. -/
inductive Stop
  | help
  | version
  | usage
  deriving DecidableEq, Repr

inductive Place
  /-- Before the subcommand. -/
  | front
  | behind (command : Subcommand)
  /-- Behind `help`, with the number of names read. -/
  | helping (names : Nat)
  deriving DecidableEq, Repr

structure Reading where
  place : Place := .front
  /-- Options given before the subcommand. -/
  general : Options := {}
  /-- Options given behind the subcommand. -/
  own : Options := {}
  pending : Option Valued := none
  /-- Only values follow a `--`. -/
  valuesOnly : Bool := false
  file : Option String := none
  deriving DecidableEq, Repr

namespace Reading

/-- The options of the place that is being read. -/
def options (r : Reading) : Options :=
  match r.place with
  | .front => r.general
  | _ => r.own

def setOptions (r : Reading) (o : Options) : Reading :=
  match r.place with
  | .front => { r with general := o }
  | _ => { r with own := o }

def isGenerate (r : Reading) : Bool := r.place = .behind .generate

def takesTypes (r : Reading) : Bool := r.isGenerate || r.place = .behind .inspect

/-- Sets a flag that may be given only once. -/
def flag (r : Reading) (given : Bool) (o : Options) : Except Stop Reading :=
  if given then .error .usage else .ok (r.setOptions o)

/-- The value of an option. Paths are not empty, and only roots may be given more than once. -/
def setValue (r : Reading) (option : Valued) (value : String) : Except Stop Reading :=
  let r := { r with pending := none }
  let o := r.options
  match option with
  | .config => r.flag (value = "" || o.config.isSome) { o with config := some ⟨value⟩ }
  | .sourceRoot => r.flag (value = "") { o with roots := o.roots ++ [⟨value⟩] }
  | .onCollision =>
    let policy := CollisionPolicy.all.find? (·.label = value)
    r.flag (policy.isNone || o.policy.isSome) { o with policy := policy }

/-- The option that a long name stands for, if it takes a value. -/
def valued? (r : Reading) (name : String) : Option Valued :=
  if name = "config" then some .config
  else if name = "source-root" && r.takesTypes then some .sourceRoot
  else if name = "on-collision" && r.isGenerate then some .onCollision
  else none

def long (r : Reading) (name : String) (value : Option String) : Except Stop Reading :=
  match r.valued? name, value with
  | some option, some value => r.setValue option value
  | some option, none => .ok { r with pending := some option }
  | none, some _ => .error .usage
  | none, none =>
    let o := r.options
    if name = "json" then r.flag o.json { o with json := true }
    else if name = "plain" then r.flag o.plain { o with plain := true }
    else if name = "verbose" then .ok r
    else if name = "help" then .error .help
    else if name = "version" && r.place = .front then .error .version
    else if name = "strict-types" && r.takesTypes then
      r.flag o.strictTypes { o with strictTypes := true }
    else if name = "dry-run" && r.isGenerate then r.flag o.dryRun { o with dryRun := true }
    else .error .usage

/-- The letters behind one dash. -/
def short (r : Reading) : List Char → Except Stop Reading
  | [] => .ok r
  | c :: cs =>
    if c = 'v' then r.short cs
    else if c = 'h' then .error .help
    else if c = 'V' && r.place = .front then .error .version
    else .error .usage

def shells : List String := ["bash", "elvish", "fish", "powershell", "zsh"]

/-- A value that belongs to no option: the subcommand, then one file or shell. -/
def value (r : Reading) (s : String) : Except Stop Reading :=
  match r.place with
  | .front =>
    if r.valuesOnly then .error .usage
    else if s = "help" then .ok { r with place := .helping 0 }
    else
      match Subcommand.all.find? (·.name = s) with
      | some command => .ok { r with place := .behind command }
      | none => .error .usage
  | .helping names =>
    if names = 0 && (s = "help" || Subcommand.all.any (·.name = s)) then
      .ok { r with place := .helping (names + 1) }
    else .error .usage
  | .behind command =>
    if r.file.isSome || s = "" || (command = .completions && s ∉ shells) then .error .usage
    else .ok { r with file := some s }

/-- The name and the value of an argument of the form `name=value`. -/
def splitValue (cs : List Char) : String × Option String :=
  let name := cs.takeWhile (· ≠ '=')
  (String.ofList name,
    if name.length < cs.length then some (String.ofList (cs.drop (name.length + 1))) else none)

def step (r : Reading) (argument : String) : Except Stop Reading :=
  match r.place with
  | .helping _ => r.value argument
  | _ =>
    if r.valuesOnly then r.value argument
    else
      match r.pending, argument.toList with
      | some option, cs =>
        if cs.head? = some '-' && cs ≠ ['-'] then .error .usage else r.setValue option argument
      | none, ['-', '-'] => .ok { r with valuesOnly := true }
      | none, '-' :: '-' :: cs =>
        let (name, value) := splitValue cs
        r.long name value
      | none, ['-'] => r.value argument
      | none, '-' :: cs => r.short cs
      | none, _ => r.value argument

end Reading

/-- What is to be done. Options behind the subcommand win over those before it. -/
structure Invocation where
  command : Subcommand
  options : Options
  file : Option Path
  deriving DecidableEq, Repr

def Reading.finish (r : Reading) : Except Stop Invocation :=
  match r.place, r.pending with
  | .behind command, none =>
    if command = .completions && r.file.isNone then .error .usage
    else
      .ok
        { command := command
          options :=
            { r.own with
              json := r.own.json || r.general.json
              plain := r.own.plain || r.general.plain
              config := r.own.config.or r.general.config }
          file := r.file.map Path.mk }
  | .helping _, _ => .error .help
  | _, _ => .error .usage

def parse (arguments : List String) : Except Stop Invocation := do
  (← arguments.foldlM Reading.step {}).finish

end Scaffold.CommandLine
