import TileOffload.Cluster

/-! # Commands

What can be asked for on the command line. -/

namespace TileOffload

/-- The vectors of a run. -/
structure DataOptions where
  length : Nat
  kernel : Kernel.BuiltIn
  seed : Option Nat
deriving DecidableEq, Repr

/-- The units of a cluster. -/
structure TopologyOptions where
  units : Nat
  mover : Nat
  compute : Nat
deriving DecidableEq, Repr

/-- The cluster of a run, and how to wait for its accelerator. -/
structure ClusterOptions where
  latency : Nat
  maxPolls : Option Nat
  timeout : Option Nat
  stuck : Bool
  topology : TopologyOptions
deriving DecidableEq, Repr

/-- A word of a register window. -/
structure WordOptions where
  resource : String
  offset : Nat
  base : Nat
  size : Nat
deriving DecidableEq, Repr

/-- A command. -/
inductive Command
  /-- Run a dataset tile by tile. -/
  | run (data : DataOptions) (tile : Nat) (depth : BufferDepth) (cluster : ClusterOptions)
  /-- Run a dataset as one tile. -/
  | untiled (data : DataOptions) (cluster : ClusterOptions)
  /-- Show the places of a plan. -/
  | layout (length tile : Nat) (depth : BufferDepth)
  /-- Show which tile each stage has in each iteration. -/
  | schedule (tiles : Nat)
  /-- Show the roles of the units. -/
  | roles (topology : TopologyOptions)
  /-- Read a word of a window. -/
  | peek (word : WordOptions)
  /-- Write a word of a window. -/
  | poke (word : WordOptions) (value : Nat)
  /-- Show the version. -/
  | version
deriving DecidableEq, Repr

namespace Command

/-- The file that a command needs. -/
def resource? : Command → Option String
  | peek word | poke word _ => some word.resource
  | _ => none

end Command

end TileOffload
