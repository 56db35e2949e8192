import ElektronPool.Vardiff
import ElektronPool.SubmittedBlock
import ElektronPool.Work.Step
import ElektronPool.Work.Provenance
import ElektronPool.HeaderAgreement
import ElektronPool.Payout
import ElektronPool.JobRetention
import ElektronPool.Shares.Adds
import ElektronPool.Shares.Follow
import ElektronPool.StaleWork
import ElektronPool.Shares.Deal
import ElektronPool.Shares.Ledger
import ElektronPool.BlockSubmission
import ElektronPool.DoubleCredit
import ElektronPool.Shares.Memory
import ElektronPool.Shares.Records
import ElektronPool.ShareOwnership
import ElektronPool.JobReferences
import ElektronPool.Lib.Grouping
import ElektronPool.RecentAccounting
import ElektronPool.DistinctWork
import ElektronPool.Talk.Says
import ElektronPool.Talk.Turn
import ElektronPool.DifficultyAgreement
import ElektronPool.DestroyedSession
import ElektronPool.Model.SubmitMessage
import ElektronPool.SubmitVerdict
import ElektronPool.RefreshOrder
import ElektronPool.Shares.Account
import ElektronPool.Shares.Course
import ElektronPool.ShareCrediting
import ElektronPool.ClientRows
import ElektronPool.BestDifficulty
import ElektronPool.Lib.Merkle
import ElektronPool.MerkleBranch
import ElektronPool.Suggestion
import ElektronPool.TargetComparison
import ElektronPool.CoinbaseLayout
import ElektronPool.HeaderProbes
import ElektronPool.BlockRecords
import ElektronPool.HeightPush
import ElektronPool.TipChange
import ElektronPool.Lib.Hysteresis
import ElektronPool.Model.StratumService
import ElektronPool.Backpressure
import ElektronPool.Lib.MapData
import ElektronPool.Lib.Regex
import ElektronPool.Model.PoolRegistry
import ElektronPool.BlockConfirmation
import ElektronPool.ExternalShares
import ElektronPool.RegistryParser
import ElektronPool.HashRate
import ElektronPool.Framing
import ElektronPool.Lib.Subject
import ElektronPool.Model.ClientQueue
import ElektronPool.InsertQueue
import ElektronPool.Model.SubscribeMessage
import ElektronPool.UserAgents
import ElektronPool.Model.JsonReader
import ElektronPool.Json.Text
import ElektronPool.Json.Reading
import ElektronPool.Model.Requests
import ElektronPool.Model.Responses
import ElektronPool.Wire
import ElektronPool.Requests
import ElektronPool.Lib.Replay
import ElektronPool.Model.BitcoinRpc
import ElektronPool.NewBlocks
import ElektronPool.Lib.Calendar
import ElektronPool.Lib.Query
import ElektronPool.Model.Charts
import ElektronPool.Charts
import ElektronPool.Introduction
import ElektronPool.Moves
import ElektronPool.Crashes
import ElektronPool.Identity
import ElektronPool.Federation
import ElektronPool.Lib.HashPath
import ElektronPool.WorkBinding
import ElektronPool.Lib.Inbox
import ElektronPool.Model.Telegram
import ElektronPool.Telegram
import ElektronPool.UnsavedShares
import ElektronPool.Lib.Log
import ElektronPool.JobLookup
import ElektronPool.HonestShare
import ElektronPool.NodeBlocks
import ElektronPool.SiteChart
