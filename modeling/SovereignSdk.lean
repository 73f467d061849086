import SovereignSdk.BlobStorage.PreferredSlots
import SovereignSdk.SequencerRegistry.Operations
import SovereignSdk.StfBlueprint.Fees
import SovereignSdk.StfBlueprint.SlotGasLimits
import SovereignSdk.StfBlueprint.Escrows
import SovereignSdk.StfBlueprint.VisibleRoots
import SovereignSdk.State.Authentication
import SovereignSdk.Celestia.Observations
import SovereignSdk.Celestia.Provability
import SovereignSdk.Authentication.Signatures
import SovereignSdk.State.PinnedReads
import SovereignSdk.Paymaster.Reservations
import SovereignSdk.Paymaster.PolicyKeys
import SovereignSdk.AttesterIncentives.Attestations
import SovereignSdk.ProverIncentives
import SovereignSdk.Sequencer.BlockExecutor
import SovereignSdk.Sequencer.SoftConfirmations
import SovereignSdk.Sequencer.BackendAgreement
import SovereignSdk.Sequencer.EventDelivery
import SovereignSdk.Sequencer.NonceBufferProgress
import SovereignSdk.BlobSender.Completeness
import SovereignSdk.Sequencer.VisibleSlots
import SovereignSdk.Sequencer.ReplayCatchup
import SovereignSdk.Sequencer.BlobSizes
import SovereignSdk.Sequencer.RateLimiter
import SovereignSdk.Sequencer.StateRootCache
import SovereignSdk.State.SequencerChanges
import SovereignSdk.ChainState.BaseFee
import SovereignSdk.Bank.Failures
import SovereignSdk.StfInfoManager
import SovereignSdk.Runner
import SovereignSdk.Uniqueness
import SovereignSdk.UniversalWallet.Eip712
import SovereignSdk.UniversalWallet.FixedPoint
import SovereignSdk.Hyperlane
import SovereignSdk.Evm
