import ReturnFlow.Pool

/-!
Settings of a simulation and of an analysis.
-/

namespace ReturnFlow

/-- How a simulation goes about calls and variables. -/
structure SimulationConfig where
  /-- How many calls may be nested. -/
  maxCallDepth : Nat := 32
  /-- The names of variables that slicing does not follow. -/
  ignored : List String := ["this"]
  deriving DecidableEq

/-- A simulation config together with the project whose methods are followed. -/
structure Setting extends SimulationConfig where
  resolver : Resolver

/-- The settings of an analysis of many methods. -/
structure AnalysisConfig extends SimulationConfig where
  /-- The number of workers; zero stands for as many as the machine has. -/
  threads : Nat := 0
  deriving DecidableEq

namespace AnalysisConfig

/-- The number of workers, if the config fixes it. -/
def threadCount? (c : AnalysisConfig) : Option Nat :=
  if c.threads = 0 then none else some c.threads

/-- The setting for the methods of a project. -/
def setting (c : AnalysisConfig) (resolver : Resolver) : Setting where
  toSimulationConfig := c.toSimulationConfig
  resolver := resolver

end AnalysisConfig

end ReturnFlow
