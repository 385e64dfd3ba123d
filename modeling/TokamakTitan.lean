import TokamakTitan.Batch.Pipeline
import TokamakTitan.Batch.Proposer
import TokamakTitan.Rollup.Accounting
import TokamakTitan.FaultDetector.Helpers
import TokamakTitan.Messaging.Authenticity
import TokamakTitan.Messaging.Replay
import TokamakTitan.Bridge.Solvency
import TokamakTitan.Derive.Consolidation
import TokamakTitan.Derive.Sequencer
import TokamakTitan.Derive.Finality
import TokamakTitan.Derive.HeadsOrder
import TokamakTitan.Derive.Pipeline
import TokamakTitan.Portal.DepositAgreement
import TokamakTitan.Portal.Checkpoints
import TokamakTitan.Portal.GasMarket
import TokamakTitan.Bedrock.MinimumGas
import TokamakTitan.Bedrock.BridgeConservation
import TokamakTitan.L2Geth.Recovery
import TokamakTitan.L2Geth.VerifierChain
import TokamakTitan.L2Geth.Sequencer
import TokamakTitan.Derive.FirstSeenBatch
import TokamakTitan.Derive.ChannelBankRuns
import TokamakTitan.Fees.Agreement
import TokamakTitan.Fees.FeeCheck
import TokamakTitan.Sdk.LiveBatches
import TokamakTitan.Proxyd.Transparency
import TokamakTitan.Proxyd.Routing
import TokamakTitan.Ingestion.NoGaps
import TokamakTitan.Derive.ChannelRoundTrip
import TokamakTitan.Trie.RlpValues
import TokamakTitan.Bedrock.RLPReader
import TokamakTitan.Derive.DepositLog
