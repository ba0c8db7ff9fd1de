import TileOffload.Command.Basic
import TileOffload.FileTree
import TileOffload.Window

/-! # Executing commands

What a command prints, how it fails, and what it leaves in the file it was given. A failure is told from
the outside in: what could not be done, and what that was caused by. -/

namespace TileOffload.Command

open Numeral

/-- A failure and its causes, the outermost first. -/
abbrev Failure := List String

/-- What a command has done: the lines printed, the failure, and the new bytes of the file, if it was
    written. -/
structure Output where
  lines : List String
  failure : Option Failure
  file : Option ByteArray

namespace Output

/-- Lines and success. -/
def success (lines : List String) : Output := ⟨lines, none, none⟩

/-- A failure before anything was printed. -/
def failed (f : Failure) : Output := ⟨[], some f, none⟩

/-- The text printed. -/
def stdout (o : Output) : String := String.join (o.lines.map (· ++ "\n"))

/-- The causes of a failure; more than one are numbered. -/
def causes : Failure → List String
  | [] => []
  | [cause] => [s!"    {cause}"]
  | many => many.mapIdx fun i cause => s!"    {i}: {cause}"

/-- The text that tells of the failure. -/
def stderr (o : Output) : String :=
  match o.failure with
  | none => ""
  | some [] => "Error\n"
  | some [only] => s!"Error: {only}\n"
  | some (outer :: inner) => s!"Error: {outer}\n\nCaused by:\n" ++ String.join ((causes inner).map (· ++ "\n"))

/-- The exit code. -/
def exitCode (o : Output) : Nat := if o.failure.isSome then 1 else 0

end Output

/-- The failure that an error is; a failed access to a file also tells the system's reason. -/
def failureOf (e : Error) : Failure :=
  match e with
  | .io cause => [e.message, cause.reason]
  | _ => [e.message]

/-- More moves than any run takes. -/
def patience : Nat := 0x4000000000000000

/-- How long to wait for the accelerator. -/
def ClusterOptions.waitPolicy (c : ClusterOptions) : WaitPolicy :=
  { WaitPolicy.standard with
    maxPolls := c.maxPolls.or WaitPolicy.standard.maxPolls
    deadline := c.timeout.or WaitPolicy.standard.deadline }

/-- The dataset of a run: the reference vectors if nothing but their length is asked for, else random
    ones. -/
def dataset (d : DataOptions) (k : Kernel) : Dataset :=
  let base :=
    if d.seed = none ∧ d.length = Dataset.reference.length then Dataset.reference
    else Dataset.random d.length (UInt64.ofNat (d.seed.getD 1))
  base.goldenFor k

/-- The lines that tell of a run. -/
def reportLines (r : RunReport) (length : Nat) : List String :=
  let v := r.verification
  [s!"Kernel      {r.kernel}",
    s!"Tiles       {r.tiles} x {length / r.tiles} elements ({r.depth.name} buffering)",
    s!"Iterations  {r.iterations}",
    s!"Launches    {r.launches}   polls {r.polls}",
    s!"Transfers   {r.transfers}",
    s!"Mismatches  device {v.device}  host {v.host}  of {v.checked}"]

/-- The outcome of a run. -/
def runOutput (length : Nat) : Except Error RunReport → Output
  | .error e => .failed ("pipeline run failed" :: failureOf e)
  | .ok r =>
    let lines := reportLines r length
    if r.verification.passed then .success (lines ++ ["PASS"])
    else ⟨lines, some [s!"{r.verification.total} mismatches"], none⟩

/-- Runs a dataset. -/
def runCluster (data : DataOptions) (options : ClusterOptions) (config : PipelineConfig) : Output :=
  match Topology.make options.topology.units options.topology.mover options.topology.compute with
  | .error e => .failed ("invalid cluster topology" :: failureOf e)
  | .ok topology =>
    let cluster := { Cluster.make topology .tcdm with latency := options.latency, stuck := options.stuck }
    let kernel := data.kernel.kernel
    let dataset := dataset data kernel
    let (token, flags) := CancelFlags.empty.create
    match cluster.run patience dataset kernel { config with wait := ClusterOptions.waitPolicy options } token flags with
    | none => .failed ["pipeline run did not end"]
    | some (result, _) => runOutput dataset.length result

/-- The line of a region. -/
def regionLine (name : String) (r : Region) : String :=
  s!"  {name}  {wideHex r.addr.toNat}..{wideHex (r.addr.toNat + r.len)}  {column 6 (toString r.len)} bytes"

/-- The line of a tile. -/
def tileLine (p : TilePlan) (t : Tile) : String :=
  s!"{column 4 (toString t.index)}  {column 4 (toString (t.index % p.slots))}  " ++
    s!"{wideHex t.a.toNat}  {wideHex t.b.toNat}  {wideHex t.o.toNat}"

/-- The lines that come before the tiles. -/
def layoutHeader (p : TilePlan) : List String :=
  [s!"{p.tiles} tiles of {p.tileLength} elements, {p.depth.name} buffering, {p.slots} slots per operand",
    s!"TCDM {wideHex Chip.tcdmBase.toNat}: {p.layout.used} of {p.layout.capacity} bytes used"] ++
  (p.layout.regions.map fun r => regionLine r.1 r.2) ++
  [s!"Backing  a={wideHex p.backing.a.toNat}  b={wideHex p.backing.b.toNat}  o={wideHex p.backing.o.toNat}",
    "",
    "tile  slot  a           b           o"]

/-- The plan of a dataset of a length. -/
def layoutPlan (length tile : Nat) (depth : BufferDepth) : Except Error TilePlan := do
  let (backing, _) ← Cluster.backingFor length
  TilePlan.make length { PipelineConfig.tiled tile with depth } .tcdm backing

/-- The lines of tiles, up to the first that has no place. -/
def tileLines (p : TilePlan) : List Nat → List String × Option Error
  | [] => ([], none)
  | t :: rest =>
    match p.scratchpadTile t with
    | .error e => ([], some e)
    | .ok tile =>
      let (lines, error) := tileLines p rest
      (tileLine p tile :: lines, error)

/-- Shows the places of a plan. -/
def showLayout (length tile : Nat) (depth : BufferDepth) : Output :=
  match layoutPlan length tile depth with
  | .error e => .failed (failureOf e)
  | .ok p =>
    let (lines, error) := tileLines p (List.range p.tiles)
    ⟨layoutHeader p ++ lines, error.map failureOf, none⟩

/-- A tile in the schedule. -/
def tileName : Option Nat → String
  | none => "-"
  | some t => s!"t{t}"

/-- The line of an iteration. -/
def scheduleLine (tiles i : Nat) : String :=
  let s := Stages.at i tiles
  s!"{column 9 (toString i)}  {column 4 (tileName s.load)}  " ++
    s!"{column 7 (tileName s.compute)}  {column 5 (tileName s.store)}"

/-- Shows which tile each stage has in each iteration. -/
def showSchedule (tiles : Nat) : Output :=
  .success ("iteration  load  compute  store" ::
    (List.range (Size.wrap (tiles + Chip.pipelineStages - 1))).map (scheduleLine tiles))

/-- Shows the roles of the units. -/
def showRoles (t : TopologyOptions) : Output :=
  match Topology.make t.units t.mover t.compute with
  | .error e => .failed ("invalid cluster topology" :: failureOf e)
  | .ok topology =>
    let header :=
      if topology = .snax then [s!"SNAX cluster: {Chip.computeCores} compute cores + 1 data mover"] else []
    .success (header ++ (List.range topology.units).map fun u =>
      s!"unit {column 2 (toString u)}  {(topology.roleOf u).name}")

/-- Opens the window of a word. -/
def openWindow (mapper : Mapper) (w : WordOptions) (file : Except FileFault ByteArray) : Except Failure Window :=
  match Window.open? mapper w.resource file w.base w.size with
  | .ok window => .ok window
  | .error e => .error (s!"cannot map {w.resource}" :: failureOf e)

/-- Reads a word of a window. -/
def peekWord (mapper : Mapper) (w : WordOptions) (file : Except FileFault ByteArray) : Output :=
  match openWindow mapper w file with
  | .error f => .failed f
  | .ok window =>
    match window.read w.offset with
    | .error e => .failed (failureOf e)
    | .ok value => .success [s!"{wideHex w.offset}: {wideHex value.toNat}"]

/-- Writes a word of a window. -/
def pokeWord (mapper : Mapper) (w : WordOptions) (value : Nat) (file : Except FileFault ByteArray) : Output :=
  match Word.ofSize? value with
  | none => .failed ["value does not fit in 32 bits", "number too large to fit in target type"]
  | some value =>
    match openWindow mapper w file with
    | .error f => .failed f
    | .ok window =>
      match window.write w.offset value with
      | .error e => .failed (failureOf e)
      | .ok window => ⟨[s!"{wideHex w.offset} <- {wideHex value.toNat}"], none, some window.file⟩

/-- Executes a command with the bytes of the file that it needs, or the reason why that cannot be opened, on a system
    that maps files. -/
def execute (mapper : Mapper) (file : Except FileFault ByteArray) : Command → Output
  | .run data tile depth options => runCluster data options { PipelineConfig.tiled tile with depth }
  | .untiled data options => runCluster data options (.untiled data.length)
  | .layout length tile depth => showLayout length tile depth
  | .schedule tiles => showSchedule tiles
  | .roles topology => showRoles topology
  | .peek word => peekWord mapper word file
  | .poke word value => pokeWord mapper word value file
  | .version => .success ["snax 0.1.0"]

/-- Executes a command on a tree of files. -/
def executeOn (mapper : Mapper) (tree : FileTree) (c : Command) : Output × FileTree :=
  match c.resource? with
  | none => (c.execute mapper (.error .notFound), tree)
  | some path =>
    let output := c.execute mapper (tree.read path)
    (output, output.file.elim tree (tree.write path))

end TileOffload.Command
