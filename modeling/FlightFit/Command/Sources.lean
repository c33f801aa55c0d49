import FlightFit.Command.Arguments
import FlightFit.Run.Config

/-!
Module: FlightFit.Command.Sources
Purpose: Which files a command reads, so that they can be fetched before it is done. A run names its
  files in a description, which has to be fetched first.
Main exports: RunConfig.sources, Command.sources, Command.furtherSources
-/

namespace FlightFit

/-- The files that a run reads. -/
def RunConfig.sources (c : RunConfig) : List String := c.units.toList ++ c.trainFiles ++ c.testFiles

namespace Command

/-- The files that a command names itself. -/
def sources : Command → List String
  | .fit config => [config]
  | .segment inputs _ _ _ _ units => units.toList ++ inputs
  | .evaluate model inputs _ units _ _ => model :: units.toList ++ inputs
  | .models => []

/-- The files that are named in the files a command names. -/
def furtherSources (store : Store) : Command → List String
  | .fit config => match (RunConfig.load config).runOn ⟨store, []⟩ with
    | (.ok config, _) => config.sources
    | (.error _, _) => []
  | _ => []

end Command

end FlightFit
