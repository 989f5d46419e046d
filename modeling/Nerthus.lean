import Nerthus.Bft.Equivocation
import Nerthus.Bft.Backlog
import Nerthus.Bft.Proposer
import Nerthus.Bft.Agreement
import Nerthus.Realtime.Refinement
import Nerthus.Realtime.Compare
import Nerthus.Bysolt.PointRun
import Nerthus.Bysolt.Complete
import Nerthus.Arbitration.StopRun
import Nerthus.Chain.Check
import Nerthus.Council.Halts
import Nerthus.Council.Blacklist
import Nerthus.Council.Agreement
import Nerthus.TxPool.Bookkeeping
import Nerthus.Sc.Settlement
import Nerthus.Sc.ChainGroups
import Nerthus.Bft.Timer
import Nerthus.Wconn.Connections
import Nerthus.Common.ObjectPool
import Nerthus.Witness.Generate
import Nerthus.Witness.JobCenter
import Nerthus.Witness.MyChains
import Nerthus.Bft.Validators
import Nerthus.Core.Votes
import Nerthus.Rawdb.Batch
import Nerthus.Core.TxStatus
import Nerthus.Rawdb.Receipts
import Nerthus.Rawdb.Keys
import Nerthus.Sc.SetRun
import Nerthus.Sc.GroupNeed
import Nerthus.Sc.PublicVote
import Nerthus.Sc.Coin
import Nerthus.Rwit.Pending
