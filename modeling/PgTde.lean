import PgTde.Prune.Theorems.Repair
import PgTde.Prune.Theorems.Geometry
import PgTde.Prune.Theorems.Inside
import PgTde.Index.Theorems.Validate
import PgTde.Index.Theorems.HotChains
import PgTde.Scan.Theorems.Gettup
import PgTde.Page.Theorems.Plaintext
import PgTde.Prune.Theorems.Plaintext
import PgTde.Prune.Theorems.Execute
import PgTde.Prune.Theorems.Replay
import PgTde.Encryption.Theorems.Ctr
import PgTde.Encryption.Theorems.Counters
import PgTde.Encryption.Theorems.Reuse
import PgTde.Toast.Theorems.Insert
import PgTde.Toast.Theorems.Slice
import PgTde.Update.Theorems.Log
import PgTde.Update.Theorems.Hot
import PgTde.Update.Theorems.Identity
import PgTde.Page.Theorems.RoundTrip
import PgTde.Page.Theorems.Rejected
import PgTde.Insert.Theorems.Replay
import PgTde.Toast.Theorems.Compressed
import PgTde.Toast.Theorems.Relation
import PgTde.Transaction.Theorems.Prepare
import PgTde.Keyring.Theorems.Backends
import PgTde.Keyring.Theorems.File
import PgTde.Keyring.Theorems.Store
import PgTde.Keyring.Theorems.Vault
import PgTde.Keyring.Theorems.Versions
import PgTde.Keyring.Theorems.Bounds
import PgTde.Keyring.Theorems.Restart
import PgTde.Keys.Theorems.RoundTrip
import PgTde.Keys.Theorems.Cache
import PgTde.Keys.Theorems.Map
import PgTde.Keys.Theorems.CopyData
import PgTde.Keys.Theorems.Ddl
import PgTde.Toast.Theorems.Release
import PgTde.Library.Chains
import PgTde.Rewrite.Chains
import PgTde.Rewrite.Table
import PgTde.Rewrite.Theorems.Chains
import PgTde.Rewrite.Theorems.Table
import PgTde.Visibility.Theorems.Isolation
import PgTde.Library.FirstHit
import PgTde.Hot.Search
import PgTde.Hot.Prune
import PgTde.Hot.Pruned
import PgTde.Hot.Tested
import PgTde.Hot.PagePrune
import PgTde.Hot.Theorems.PagePrune
import PgTde.Vacuum.Table
import PgTde.Vacuum.Lazy
import PgTde.Vacuum.Run
import PgTde.Vacuum.Asserts
import PgTde.Vacuum.Theorems.Safety
import PgTde.Vacuum.Theorems.Pruned
import PgTde.Library.Circular
import PgTde.Freeze.Prepare
import PgTde.Freeze.Page
import PgTde.Freeze.Row
import PgTde.Freeze.Theorems.Frozen
import PgTde.Freeze.Theorems.Page
import PgTde.Freeze.Theorems.Row
