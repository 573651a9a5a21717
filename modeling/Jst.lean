import Jst.Verif.ShapeIndependence
import Jst.Verif.StringBuiltins
import Jst.Verif.TreeRoundTrip
import Jst.Verif.ReferenceStrings
import Jst.Verif.RemoteActions
import Jst.Verif.BatchTransfers
import Jst.Verif.RepoClasses
import Jst.Verif.RepoImports
import Jst.Verif.Chunking
import Jst.Verif.IncrementalReading
import Jst.Verif.ByteStreamNames
import Jst.Verif.Layout
import Jst.Verif.Imports
import Jst.Verif.TaskSystem
import Jst.Verif.FailedArtifacts
import Jst.Verif.Precedence
import Jst.Verif.RepositoryKeyUpdates
import Jst.Verif.AsyncMap
import Jst.Verif.Synchronisation
import Jst.Verif.GitLookups
import Jst.Verif.TreeListings
import Jst.Verif.TreeUploads
import Jst.Verif.GitUploads
import Jst.Verif.RebuiltGraphs
import Jst.Verif.TreeResponses
import Jst.Verif.CasUpdates
import Jst.Verif.TargetCacheEntries
import Jst.Verif.RebasedOutputs
import Jst.Verif.WorkingDirectories
import Jst.Verif.ActionIdentifiers
import Jst.Verif.CapabilityLimits
import Jst.Verif.DigestFormat
import Jst.Verif.EntityNames
import Jst.Verif.ReachableRepos
import Jst.Verif.UserRules
import Jst.Verif.RcMerging
import Jst.Verif.SortedMirrors
import Jst.Verif.TreeStructures
import Jst.Verif.QuasiQuotes
import Jst.Verif.TruthValues
import Jst.Verif.ServedActions
import Jst.Verif.ArgumentBinding
import Jst.Verif.Operations
import Jst.Verif.HexStrings
import Jst.Verif.CycleStack
import Jst.Verif.RetryBackoff
import Jst.Verif.ShellWords
import Jst.Verif.StageConflicts
import Jst.Verif.ReferenceSpelling
import Jst.Verif.StringTokens
import Jst.Verif.GraphBuilding
import Jst.Verif.Abbreviation
