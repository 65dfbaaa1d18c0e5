import Enumerant.Directory
import Enumerant.Event
import Enumerant.Header.Fault
import Enumerant.Patch.Region
import Enumerant.Registry.Entry
import Enumerant.Settings.Reading

/-!
# Failures

Why a run cannot go on: what failed, and where it matters on which file. The wording leads from the
file to the cause.
-/

namespace Enumerant

/-- Why a run cannot go on. -/
inductive Failure where
  | settingsMissing (path : String)
  | settingsUnread (path : String) (fault : Directory.Fault)
  | settingsFaulty (path : String) (fault : Settings.Fault)
  | sourceMissing
  | sourceUnread (path : String) (fault : Directory.Fault)
  | headerFaulty (path : String) (fault : Header.Fault)
  | registryFaulty (path : String) (fault : Registry.Fault)
  | groupMissing (group : String)
  | valueFaulty (value : String)
  | valueNegative (value : String)
  | requestsUnopened (path : String) (fault : Directory.Fault)
  | requestsUnread (fault : Directory.Fault)
  | inputUnread (fault : Directory.Fault)
  | patchUnread (path : String) (fault : Directory.Fault)
  | markersFaulty (path : String) (fault : Region.Fault)
  | backupUnwritten (path : String) (fault : Directory.Fault)
  | patchUnwritten (path : String) (fault : Directory.Fault)
  deriving DecidableEq, Repr

/-- The wording of a failure. -/
def Failure.message : Failure → String
  | settingsMissing path => "config file not found: " ++ path
  | settingsUnread path fault => "failed to read config " ++ path ++ ": " ++ fault.message
  | settingsFaulty path fault => "failed to parse " ++ path ++ ": " ++ fault.message
  | sourceMissing => "no enum source given: pass --source or set Source in .enumgen.yml"
  | sourceUnread path fault => "failed to read " ++ path ++ ": " ++ fault.message
  | headerFaulty path fault => "failed to parse " ++ path ++ ": " ++ fault.message
  | registryFaulty path fault => "failed to parse " ++ path ++ ": " ++ fault.message
  | groupMissing group => missingGroupMessage group
  | valueFaulty value => "`" ++ value ++ "` is not an integer"
  | valueNegative value => "flag value `" ++ value ++ "` is negative"
  | requestsUnopened path fault => "failed to open " ++ path ++ ": " ++ fault.message
  | requestsUnread fault => "failed to read requests: " ++ fault.message
  | inputUnread fault => "failed to read input: " ++ fault.message
  | patchUnread path fault => "failed to read " ++ path ++ ": " ++ fault.message
  | markersFaulty path fault => "no code generated for " ++ path ++ ": " ++ fault.message
  | backupUnwritten path fault => "failed to back up " ++ path ++ ": " ++ fault.message
  | patchUnwritten path fault => "failed to write " ++ path ++ ": " ++ fault.message

end Enumerant
