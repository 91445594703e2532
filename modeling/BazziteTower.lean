import BazziteTower.Lib.Program
import BazziteTower.Lib.Sha256
import BazziteTower.Lib.Base64
import BazziteTower.Lib.Json
import BazziteTower.Common
import BazziteTower.Deny.Backup
import BazziteTower.Deny.Commands
import BazziteTower.Deny.Coverage
import BazziteTower.Deny.Crash
import BazziteTower.Deny.Effective
import BazziteTower.Ci.Channels
import BazziteTower.Lib.Strings
import BazziteTower.Ci.Artifact
import BazziteTower.Ci.Inventory
import BazziteTower.Lib.JsonHook
import BazziteTower.Ci.BlastRadius
import BazziteTower.Lib.Tree
import BazziteTower.Build.Handoff
import BazziteTower.Ci.Image
import BazziteTower.Lib.FindAll
import BazziteTower.Readiness.ExecStart
import BazziteTower.Lib.JsonReplace
import BazziteTower.Deny.Token
import BazziteTower.Deny.Publication
import BazziteTower.Deny.Restore
import BazziteTower.Deny.Binding
import BazziteTower.Deny.Snapshot
import BazziteTower.Deny.Enable
import BazziteTower.Deny.Starting
import BazziteTower.Lib.Dict
import BazziteTower.Lib.Telescope
import BazziteTower.Tokens.Report
import BazziteTower.Tokens.Codex
import BazziteTower.Tokens.Claude
import BazziteTower.Ci.Spdx
import BazziteTower.Ci.SignaturePolicy
import BazziteTower.Desktop.StallDetect
import BazziteTower.Readiness.Resources
import BazziteTower.Build.Toolchain
import BazziteTower.Desktop.WifiBackend
import BazziteTower.Build.Leftovers
import BazziteTower.Build.SelfCheck
import BazziteTower.Deny.Race
import BazziteTower.Migrate.Model
import BazziteTower.Migrate.Frame
import BazziteTower.Migrate.Failure
import BazziteTower.Migrate.Undo
import BazziteTower.Migrate.Apply
import BazziteTower.Migrate.Rollback
import BazziteTower.Migrate.Sessions
import BazziteTower.Migrate.Archive
import BazziteTower.Migrate.History
import BazziteTower.Network.Forwarding
import BazziteTower.Network.Reconcile
import BazziteTower.Network.Convergence
