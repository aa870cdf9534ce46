import DecentralizedIDP.LedgerBinding
import DecentralizedIDP.RegistrationConsistency
import DecentralizedIDP.RegistrationAtomicity
import DecentralizedIDP.FaultTolerance
import DecentralizedIDP.ByzantineAnswer
import DecentralizedIDP.AuthenticationAgreement
import DecentralizedIDP.ChallengeBinding
import DecentralizedIDP.SessionBinding
import DecentralizedIDP.QuorumRecord
import DecentralizedIDP.ApiHandlers
import DecentralizedIDP.RegistrationFrame
import DecentralizedIDP.ShareSecrecy
import DecentralizedIDP.ProofBlinding
import DecentralizedIDP.CommitStability
import DecentralizedIDP.LedgerRuns
import DecentralizedIDP.ArrivalOrder
import DecentralizedIDP.LedgerHandles
import DecentralizedIDP.TokenAuthenticity
import DecentralizedIDP.ShareReconstruction
import DecentralizedIDP.ShareTheft
import DecentralizedIDP.BlindedRecovery
import DecentralizedIDP.LyingNode
import DecentralizedIDP.MajorityAgreement
import DecentralizedIDP.LedgerEdits
import DecentralizedIDP.ShareStoreRefinement
import DecentralizedIDP.ShareStoreIntegrity
import DecentralizedIDP.TokenRoundTrip
import DecentralizedIDP.ProofRequests
import DecentralizedIDP.TokenMalleability
import DecentralizedIDP.ChallengeCleanup
import DecentralizedIDP.CommitmentBinding
import DecentralizedIDP.KeyfileIntegrity
import DecentralizedIDP.SystemKeyCrashes
import DecentralizedIDP.InterpolationAtZero
import DecentralizedIDP.IdentityProviderRefinement
import DecentralizedIDP.SessionRestarts
import DecentralizedIDP.DeploymentDecisions
import DecentralizedIDP.CommandLineLogins
import DecentralizedIDP.StoreKeyRaces
import DecentralizedIDP.AuditLog
import DecentralizedIDP.LoginAgreement
