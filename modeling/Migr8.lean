import Migr8.Fingerprint
import Migr8.Verdicts
import Migr8.Transitions
import Migr8.LatchAuthority
import Migr8.Untouched
import Migr8.Reporting
import Migr8.ReservedNames
import Migr8.Inquiry
import Migr8.Acceptance
import Migr8.Prediction
import Migr8.SourceErrors
import Migr8.Projection
import Migr8.Capturing
import Migr8.Submission
import Migr8.Prose
import Migr8.Newlines
import Migr8.Conditions
import Migr8.CommonTables
import Migr8.Modifying
import Migr8.Ranges
import Migr8.ObjectNames
import Migr8.Lib.Folders
import Migr8.Lib.Bodies
import Migr8.Staging
import Migr8.Partition
import Migr8.Checks
import Migr8.Collisions
import Migr8.CommandLine
import Migr8.Ending
import Migr8.IndexDefinitions
import Migr8.Lib.Documents
import Migr8.Baseline
import Migr8.Interleaving
import Migr8.Storage
import Migr8.ExitCodes
import Migr8.Convergence
import Migr8.ExactlyOnce
import Migr8.Batches
import Migr8.Tripwire
import Migr8.Lib.Marking
