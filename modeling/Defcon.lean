import Defcon.InstantSend.ConflictDetection
import Defcon.InstantSend.LockAuthentication
import Defcon.Llmq.SigSharesVerified
import Defcon.InstantSend.InputVotes
import Defcon.Evo.BanDomains
import Defcon.Evo.ListCalls
import Defcon.Validation.StakeModifier
import Defcon.Validation.Disconnect
import Defcon.CoinsStack
import Defcon.Validation.BlockBodies
import Defcon.Masternode.FillPayments
import Defcon.Dsl.EarlyHold
import Defcon.Evo.ServicePenalties
import Defcon.Llmq.ChainLocks
import Defcon.Pos.DoubleSign
import Defcon.Pow
import Defcon.Evo.MnhfSignals
import Defcon.Evo.CreditPoolChain
import Defcon.Evo.SimplifiedList
import Defcon.Evo.StoredData
import Defcon.Evo.CollateralLock
import Defcon.Llmq.DkgShares
import Defcon.Pos.Kernel
import Defcon.Dsl.SentinelAssignment
import Defcon.Llmq.RelayMembers
import Defcon.Llmq.Options
