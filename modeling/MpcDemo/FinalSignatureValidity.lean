import MpcDemo.CommitmentFixing
import MpcDemo.NodeTriples

/-!
# Which final signatures are valid

The checks of a client's share and of a finished signature are commented out. What
`broadcast_si` returns as final is valid when the client's share solves its equation, and what
`get_eddsa_signature` returns is valid when the delivered shares are shares of a signature. The
client prints the first signature of the first entry it is sent, whatever it is.
-/

namespace MpcDemo.FinalSignatureValidity
open ByteStrings Ed25519Algebra CosignerTypes AsymmetricEddsaCosigner FallibleState Persistencies
open NodeState AsymmetricEddsaCosignerServer ServerOperationLaws ServerBlockLaws CallHistories
open ServerCalls TransactionHistories

section Blocks
variable {E : Ed25519} {H : HashFunctions} {metadata : CmpKeyMetadata} {key : Ed25519Scalar}
variable {chaincode : HDChaincode} {signers : ℕ} {addClientShare : Bool}
variable {partialSig : EddsaSignature} {d : AsymmetricEddsaSignatureData}

end Blocks

section Runs
variable (host : Host)

variable {host} {history : List CallStep} {s : Node}

end Runs

section Client
open Processes NodePrograms SigningOrchestrator NodeMain NodeTriples NetworkManager

variable (host : Host)

/-- Whether the client's signatures are under Keccak. -/
def clientKeccak : Bool := eddsaKeccak (host.service.fillSigningInfoFromMetadata metadataJson 0)

/-- Every signature that the client printed verifies. -/
def PrintsValid (publicKey : Ed25519Point) (s : Node) : Prop :=
  ∀ txid message sig, Event.signatureSuccess txid message sig ∈ s.journal →
    VerificationEquation host.algebra host.hash sig.R sig.s publicKey message (clientKeccak host)

variable {host} {publicKey : Ed25519Point}

theorem PrintsValid.silent (s t : Node) (hst : Silent s t) (h : PrintsValid host publicKey s) :
    PrintsValid host publicKey t := by
  intro txid message sig hmem
  rw [hst.1] at hmem
  exact h txid message sig hmem

theorem PrintsValid.note {s : Node} {e : Event} (h : PrintsValid host publicKey s)
    (he : ∀ txid message sig, e ≠ .signatureSuccess txid message sig) :
    PrintsValid host publicKey { s with journal := e :: s.journal } := by
  intro txid message sig hmem
  rcases List.mem_cons.1 hmem with heq | hmem
  · exact absurd heq.symm (he txid message sig)
  · exact h txid message sig hmem

variable {possible : ByteString → ℕ → PlayerMap ByteString → Prop} {sessions : List Session}

end Client

section Concrete
open CommitmentFixing

end Concrete

end MpcDemo.FinalSignatureValidity
