import ResumableEvm.Machine
import ResumableEvm.Address
import ResumableEvm.Gas
import ResumableEvm.Digest.Keccak
import ResumableEvm.Digest.Sha256
import ResumableEvm.Digest.Ripemd160
import ResumableEvm.Curve.Secp256k1
import ResumableEvm.Curve.AltBn128
import ResumableEvm.Precompile
import ResumableEvm.Overlay
import ResumableEvm.Transaction
import ResumableEvm.World
import ResumableEvm.Engine
import ResumableEvm.Main
import ResumableEvm.Proofs.KnownAccount
import ResumableEvm.Proofs.Interruption
import ResumableEvm.Proofs.Agreement
import ResumableEvm.Proofs.Effect
import ResumableEvm.Proofs.FrameAgreement
import ResumableEvm.Proofs.Acceptance
import ResumableEvm.Proofs.LazyAnswers
import ResumableEvm.Proofs.FrameGas
import ResumableEvm.Proofs.GasBudget
import ResumableEvm.Proofs.Moves
import ResumableEvm.Proofs.EngineRun
import ResumableEvm.Proofs.TransactionGas
import ResumableEvm.Proofs.MemoryRegion
import ResumableEvm.Proofs.Isolation
import ResumableEvm.Proofs.FrameInvariant
import ResumableEvm.Proofs.Settlement
import ResumableEvm.Proofs.Requests
import ResumableEvm.Proofs.HostedRun
import ResumableEvm.Proofs.Hosting
import ResumableEvm.Proofs.AccountView
import ResumableEvm.Proofs.AnchoredOverlay
import ResumableEvm.Proofs.Replay
import ResumableEvm.Proofs.ExactChanges
import ResumableEvm.Proofs.TotalBalance
import ResumableEvm.Proofs.Conservation
import ResumableEvm.Proofs.FailedTransaction
import ResumableEvm.Proofs.WrittenOnce
import ResumableEvm.Proofs.KeptOutput
import ResumableEvm.Proofs.Validation
import ResumableEvm.Proofs.StaticFrames
import ResumableEvm.Proofs.Progress
import ResumableEvm.Proofs.Termination
import ResumableEvm.Proofs.CallStackShape
import ResumableEvm.Proofs.StackInvariant
import ResumableEvm.Proofs.RefundCoverage
import ResumableEvm.Proofs.SurvivingLogs
import ResumableEvm.Proofs.AttestedOverlay
import ResumableEvm.Proofs.Courses
import ResumableEvm.Proofs.SettledAlike
import ResumableEvm.Proofs.Interchange
import ResumableEvm.Proofs.ReservedMemory
import ResumableEvm.Proofs.MeteredFrame
import ResumableEvm.Proofs.FinalOutput
import ResumableEvm.Proofs.Announcements
import ResumableEvm.Proofs.Traces
import ResumableEvm.Proofs.CheckedArithmetic
import ResumableEvm.Proofs.CheckedMemory
import ResumableEvm.Proofs.CheckedPrice
import ResumableEvm.Proofs.CheckedMachine
import ResumableEvm.Proofs.CheckedAccounts
import ResumableEvm.Proofs.CheckedFrame
import ResumableEvm.Proofs.CheckedCallStack
import ResumableEvm.Proofs.CheckedEngine
import ResumableEvm.Proofs.PushData
import ResumableEvm.Proofs.NetMetering
import ResumableEvm.Proofs.FrameOrigins
import ResumableEvm.Proofs.StackDiscipline
import ResumableEvm.Proofs.SparedMemory
import ResumableEvm.Proofs.PaidMemory
import ResumableEvm.Proofs.DestructionRefund
import ResumableEvm.Proofs.RetainedGas
import ResumableEvm.Proofs.StateClearing
import ResumableEvm.Proofs.DeployedCode
import ResumableEvm.Proofs.Creations
import ResumableEvm.Proofs.CreatorNonces
import ResumableEvm.Proofs.PowerPrice
import ResumableEvm.Proofs.PaddedPower
import ResumableEvm.Proofs.GasGate
import ResumableEvm.Proofs.UnsignedArithmetic
import ResumableEvm.Proofs.SignedArithmetic
import ResumableEvm.Proofs.PaddedCode
import ResumableEvm.Proofs.Refusals
import ResumableEvm.Proofs.WrittenMemory
import ResumableEvm.Proofs.RefundCounter
import ResumableEvm.Proofs.PlainAccounts
import ResumableEvm.Proofs.NewAccounts
import ResumableEvm.Proofs.LengthPrefix
import ResumableEvm.Proofs.ContractAddresses
