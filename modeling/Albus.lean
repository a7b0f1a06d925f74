import Albus.Lib.Run
import Albus.Lib.Primality
import Albus.Prime
import Albus.Lib.Bytes
import Albus.Lib.Trie
import Albus.Program.Signals
import Albus.Program.SignalDecls
import Albus.Program.Rules
import Albus.Program.Groth16
import Albus.Program.ProofRequest
import Albus.Program.StoredProof
import Albus.Program.PolicyBinding
import Albus.Program.FreshProof
import Albus.Program.IssuerBinding
import Albus.Program.ClockInputs
import Albus.Program.Investigation
import Albus.Program.Ledger
import Albus.Program.WriteAuthority
import Albus.Program.VerifiedData
import Albus.Program.Reveals
import Albus.Program.ListedTrustees
import Albus.Sdk.InvestigationManager
import Albus.Program.Reconstruction
import Albus.Circuits.Circomlib
import Albus.Circuits.Country
import Albus.Circuits.Strings
import Albus.Circuits.Date
import Albus.Circuits.Credential
import Albus.Circuits.Encryption
import Albus.Circuits.Age
import Albus.Circuits.Templates
import Albus.Circuits.ExpirySoundness
import Albus.Circuits.AgeSoundness
import Albus.Core.F1Field
import Albus.Core.Smt
import Albus.Core.SmtTree
import Albus.Core.SmtPlans
import Albus.Core.SmtSteps
import Albus.Core.SmtRefinement
import Albus.Core.ClaimsTree
import Albus.Core.CredentialTree
import Albus.Core.CredentialRoot
import Albus.Core.SmtInclusion
import Albus.Circuits.NamedClaims
import Albus.Circuits.PoseidonDecryption
import Albus.Circuits.PoseidonEncryption
import Albus.Circuits.Recovery
import Albus.Sdk.DecryptData
import Albus.Program.TrusteeInputs
import Albus.Lib.LittleEndian
import Albus.Core.ByteCodecs
import Albus.Core.Zkp
import Albus.Lib.Pairing
import Albus.Core.Bn128Curve
import Albus.Program.ClientEquation
import Albus.Lib.Sha256
import Albus.Program.AccountData
import Albus.Integration.SolanaVerifier
import Albus.Lib.JsNumber
import Albus.Sdk.ValidateProofRequest
import Albus.Sdk.ChunkedUploads
import Albus.Sdk.SignalLayout
import Albus.Circuits.Symbols
import Albus.Lib.Census
import Albus.Integration.Accounts
import Albus.Integration.Swap
import Albus.Integration.StakePool
import Albus.Integration.PolicyGate
import Albus.Program.ProofReplay
import Albus.Program.Services
import Albus.Program.PolicyAuthority
import Albus.Program.ServiceCounters
import Albus.Program.Retention
import Albus.Program.Recreation
import Albus.Program.CircuitVk
import Albus.Program.Credential
import Albus.Program.CredentialAuthority
import Albus.Program.RuleSpans
import Albus.Program.RuleInfluence
import Albus.Sdk.ProofInputBuilder
import Albus.Sdk.PolicyInputs
import Albus.Program.InvestigationClosure
import Albus.Lib.Shares
import Albus.Integration.Curves
import Albus.Integration.PoolAmounts
import Albus.Integration.ConstantProductShares
import Albus.Integration.ConstantPriceShares
import Albus.Lib.TokenLedger
import Albus.Integration.SwapMachine
import Albus.Integration.SwapEffects
import Albus.Integration.PoolFunds
import Albus.Integration.OffsetDeposits
import Albus.Integration.PoolRefinement
import Albus.Integration.StakePoolWithdrawals
import Albus.Integration.StakePoolShares
import Albus.Groth16.Poly
import Albus.Groth16.Completeness
import Albus.Groth16.Circuit
import Albus.Lib.WhileLoop
import Albus.Circuits.SkippedDays
import Albus.Sdk.CountryLookup
import Albus.Lib.Utf8
import Albus.Lib.Sponge
import Albus.Core.ClaimEncoding
import Albus.Core.ClaimDecoding
import Albus.Core.Flattening
import Albus.Sdk.MetadataSignals
import Albus.Circuits.MerkleProofs
import Albus.Lib.Calls
import Albus.Core.SmtCalls
import Albus.Core.TreeCalls
import Albus.Lib.ArrayHeap
import Albus.Core.ZkpArrays
import Albus.Lib.TonelliShanks
import Albus.Core.FieldRoots
import Albus.Lib.Edwards
import Albus.Core.BabyJubGroup
import Albus.Core.Eddsa
import Albus.Core.PointPacking
import Albus.Program.SharingConfig
import Albus.Integration.TradingFees
import Albus.Integration.StakePoolFees
import Albus.Groth16.Transforms
import Albus.Lib.ByteView
import Albus.Core.ByteLoops
import Albus.Lib.Records
import Albus.Integration.BigVec
import Albus.Lib.Simulation
import Albus.Integration.ValidatorListBytes
import Albus.Lib.SparseRounds
import Albus.Core.PoseidonHash
import Albus.Core.PoseidonTables
import Albus.Lib.WordHalves
import Albus.Lib.BlockBuffer
import Albus.Core.Blake512
import Albus.Core.BlakeCompression
import Albus.Core.BlakeDigest
import Albus.Lib.Redistribution
import Albus.Integration.ValidatorBalances
import Albus.Integration.BalanceAccounting
