import KeyValueStore.Lib.ByteFile
import KeyValueStore.Lib.LittleEndian
import KeyValueStore.Lib.VersionLog
import KeyValueStore.Lib.CyclicSearch
import KeyValueStore.Lib.SearchTree
import KeyValueStore.Lib.OrderedSet
import KeyValueStore.Lib.Runs
import KeyValueStore.Lib.Clients
import KeyValueStore.Lib.Resources
import KeyValueStore.Submission.Append
import KeyValueStore.Submission.Backed
import KeyValueStore.Submission.Replay
import KeyValueStore.Submission.Reopen
import KeyValueStore.Submission.WellFormed
import KeyValueStore.Submission.Recovery
import KeyValueStore.Submission.Serving
import KeyValueStore.Submission.Refinement
import KeyValueStore.Submission.Consistency
import KeyValueStore.Submission.Faults
import KeyValueStore.Submission.AnyFile
import KeyValueStore.Submission.Crash
import KeyValueStore.Submission.FailedUpdate
import KeyValueStore.Submission.Rotation
import KeyValueStore.Submission.Codes
import KeyValueStore.Submission.Adopted
import KeyValueStore.Submission.Resources
import KeyValueStore.Submission.AnyLog
import KeyValueStore.Submission.CopyBounds
import KeyValueStore.Class.Store
import KeyValueStore.Submission.DirectoryHistory
import KeyValueStore.Submission.Bitmap
import KeyValueStore.Submission.Blocks
import KeyValueStore.Class.LiveBlocks
import KeyValueStore.Class.Deletions
import KeyValueStore.Class.Refinement
import KeyValueStore.Class.TakesEffect
import KeyValueStore.Class.Faults
import KeyValueStore.Class.Recovery
import KeyValueStore.Class.Resources
import KeyValueStore.Class.OneFile
import KeyValueStore.Windows.Tsearch
import KeyValueStore.Windows.Destroy
import KeyValueStore.Windows.Directory
import KeyValueStore.TestDirector.Judgement
import KeyValueStore.Programs.Session
import KeyValueStore.Programs.Stress
import KeyValueStore.Programs.Rules
import KeyValueStore.Programs.Harness
import KeyValueStore.Programs.HarnessReport
import KeyValueStore.Programs.Reopening
import KeyValueStore.Programs.Agreement
import KeyValueStore.Programs.HarnessClass
