import TileOffload.Command.Basic
import TileOffload.Command.Number

/-! # Command lines

A command line names a command and gives its flags, in any order and each at most once. A flag with a
value is written `--flag value` or `--flag=value`; in the first form the value may not begin with a
hyphen, unless it is a hyphen alone. Anything else is no command. -/

namespace TileOffload.Command

/-- Flags that have been given, with their values. -/
abbrev Given := List (String × String)

/-- A flag of a command. -/
structure Flag where
  name : String
  takesValue : Bool

/-- A flag as it is written: its name, and the value after an equals sign. -/
def written? (arg : String) : Option (String × Option String) :=
  match arg.toList with
  | '-' :: '-' :: body =>
    let name := String.ofList (body.takeWhile (· != '='))
    match body.dropWhile (· != '=') with
    | [] => some (name, none)
    | _ :: value => some (name, some (String.ofList value))
  | _ => none

/-- Whether an argument can be the value of the flag before it. -/
def isValue (arg : String) : Bool :=
  match arg.toList with
  | '-' :: _ :: _ => false
  | _ => true

/-- The flags given by arguments, after those in `given`. Two hyphens alone may end the arguments. -/
def collect? (flags : List Flag) (given : Given) : List String → Option Given
  | [] => some given
  | ["--"] => some given
  | arg :: rest => do
    let (name, value) ← written? arg
    let flag ← flags.find? (·.name == name)
    if given.any (·.1 == name) then none
    else match flag.takesValue, value, rest with
      | true, some v, rest => collect? flags (given ++ [(name, v)]) rest
      | true, none, v :: rest => if isValue v then collect? flags (given ++ [(name, v)]) rest else none
      | true, none, [] => none
      | false, some _, _ => none
      | false, none, rest => collect? flags (given ++ [(name, "")]) rest

namespace Given

/-- The value of a flag that must be given. -/
def required {α : Type} (g : Given) (name : String) (read : String → Option α) : Option α :=
  (g.lookup name).bind read

/-- The value of a flag, if it is given. -/
def optional {α : Type} (g : Given) (name : String) (read : String → Option α) : Option (Option α) :=
  match g.lookup name with
  | none => some none
  | some v => (read v).map some

/-- The value of a flag, or the default if it is not given. -/
def withDefault {α : Type} (g : Given) (name : String) (default : α) (read : String → Option α) : Option α :=
  (g.optional name read).map (·.getD default)

end Given

/-- The depth of a name. -/
def depth? (s : String) : Option BufferDepth :=
  [BufferDepth.single, .double, .resident].find? (·.name == s)

/-- The kernel of a name. -/
def kernel? (s : String) : Option Kernel.BuiltIn :=
  if s = "mac" then some .mac
  else ([AluMode.add, .sub, .mul, .xor].find? fun m => s!"alu-{m.name}" == s).map .alu

/-- A path that is not empty. -/
def path? (s : String) : Option String := if s = "" then none else some s

def topologyFlags : List Flag := [⟨"units", true⟩, ⟨"mover", true⟩, ⟨"compute", true⟩]
def dataFlags : List Flag := [⟨"len", true⟩, ⟨"kernel", true⟩, ⟨"seed", true⟩]
def clusterFlags : List Flag :=
  [⟨"latency", true⟩, ⟨"max-polls", true⟩, ⟨"timeout-ms", true⟩, ⟨"stuck", false⟩] ++ topologyFlags
def wordFlags : List Flag := [⟨"resource", true⟩, ⟨"offset", true⟩, ⟨"base", true⟩, ⟨"size", true⟩]

namespace Given

def topology? (g : Given) : Option TopologyOptions := do
  let units ← g.withDefault "units" 9 Number.word?
  let mover ← g.withDefault "mover" 8 Number.word?
  let compute ← g.withDefault "compute" 0 Number.word?
  return ⟨units, mover, compute⟩

def data? (g : Given) : Option DataOptions := do
  let length ← g.withDefault "len" 20 Number.size?
  let kernel ← g.withDefault "kernel" .mac kernel?
  let seed ← g.optional "seed" Number.size?
  return ⟨length, kernel, seed⟩

def cluster? (g : Given) : Option ClusterOptions := do
  let latency ← g.withDefault "latency" Cluster.defaultLatency Number.word?
  let maxPolls ← g.optional "max-polls" Number.size?
  let timeout ← g.optional "timeout-ms" Number.size?
  let topology ← g.topology?
  return ⟨latency, maxPolls, timeout, (g.lookup "stuck").isSome, topology⟩

def tile? (g : Given) : Option Nat := g.withDefault "tile" 4 Number.size?

def depth? (g : Given) : Option BufferDepth := g.withDefault "depth" .double Command.depth?

def word? (g : Given) : Option WordOptions := do
  let resource ← g.required "resource" path?
  let offset ← g.required "offset" Number.flexible?
  let base ← g.withDefault "base" 0 Number.flexible?
  let size ← g.withDefault "size" 0 Number.size?
  return ⟨resource, offset, base, size⟩

end Given

/-- The command of a name with the given flags. -/
def ofName? (name : String) (args : List String) : Option Command :=
  match name with
  | "run" => do
    let g ← collect? (dataFlags ++ [⟨"tile", true⟩, ⟨"depth", true⟩] ++ clusterFlags) [] args
    return .run (← g.data?) (← g.tile?) (← g.depth?) (← g.cluster?)
  | "untiled" => do
    let g ← collect? (dataFlags ++ clusterFlags) [] args
    return .untiled (← g.data?) (← g.cluster?)
  | "layout" => do
    let g ← collect? [⟨"len", true⟩, ⟨"tile", true⟩, ⟨"depth", true⟩] [] args
    return .layout (← g.withDefault "len" 20 Number.size?) (← g.tile?) (← g.depth?)
  | "schedule" => do
    let g ← collect? [⟨"tiles", true⟩] [] args
    return .schedule (← g.withDefault "tiles" 5 Number.size?)
  | "roles" => do
    let g ← collect? topologyFlags [] args
    return .roles (← g.topology?)
  | "peek" => do
    let g ← collect? wordFlags [] args
    return .peek (← g.word?)
  | "poke" => do
    let g ← collect? (wordFlags ++ [⟨"value", true⟩]) [] args
    return .poke (← g.word?) (← g.required "value" Number.flexible?)
  | _ => none

/-- Whether an argument asks for the version: by the long flag, or by the short one at the head of any
    short flags, none of which is looked at. -/
def asksVersion (arg : String) : Bool :=
  match arg.toList with
  | '-' :: 'V' :: _ => true
  | _ => arg == "--version"

/-- The command that the arguments ask for. -/
def parse? : List String → Option Command
  | [] => none
  | arg :: args => if asksVersion arg then some .version else ofName? arg args

end TileOffload.Command
