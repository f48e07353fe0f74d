import ResourceMerge.MergedClass

/-! The settings of a merge, where they come from, and what a merge makes of them. Settings may be
    given in a file or chosen for one run; what is chosen for the run wins over the file, and what
    neither gives has a default. How many inputs make a merge use several threads is a setting too,
    but no result depends on it. -/

namespace ResourceMerge

/-- What a settings file may say. -/
structure Settings where
  filter : Option String
  className : Option String
  classVersion : Option UInt16
  parallelThreshold : Option Nat
  deriving DecidableEq

/-- The file that says nothing. -/
def Settings.empty : Settings := ⟨none, none, none, none⟩

/-- What is chosen for one merge. -/
structure MergeRequest where
  inputs : List String
  outputDirectory : String
  filter : Option String
  className : Option String
  parallelThreshold : Option Nat
  deriving DecidableEq

/-- All that a merge needs to know; without a threshold the machine decides. -/
structure MergePlan where
  inputs : List String
  outputDirectory : String
  filter : String
  parallelThreshold : Option Nat
  target : MergedClass.Target
  deriving DecidableEq

namespace MergePlan

/-- The plan of a settings file alone. -/
def ofSettings (inputs : List String) (outputDirectory : String) (settings : Settings) :
    MergePlan where
  inputs := inputs
  outputDirectory := outputDirectory
  filter := settings.filter.getD NameFilter.defaultGlob
  parallelThreshold := settings.parallelThreshold
  target :=
    ⟨settings.className.getD MergedClass.defaultName,
     settings.classVersion.getD MergedClass.defaultVersion⟩

/-- The plan of a request over a settings file. -/
def ofRequest (request : MergeRequest) (settings : Settings) : MergePlan :=
  let plan := ofSettings request.inputs request.outputDirectory settings
  { plan with
    filter := request.filter.getD plan.filter
    parallelThreshold := request.parallelThreshold.or plan.parallelThreshold
    target := { plan.target with className := request.className.getD plan.target.className } }

end MergePlan

end ResourceMerge
