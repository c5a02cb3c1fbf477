import MpcDemo.SessionOperations

/-!
# What a node does between two requests

The flows as requests with local steps between them, and what these steps come to when the answers
are those of honest players.
-/

namespace MpcDemo.SessionSteps
open ByteStrings Ed25519Algebra CosignerTypes AsymmetricEddsaCosigner FallibleState Persistencies
open NodeState Processes Serialization NodePrograms SigningOrchestrator ServerOperationLaws
open ShareSums PlayerTables ThreeNodes NodeFrames NodeRuns SigningRules SessionOperations

variable {D : Deployment} {i : ℕ} {s t : Node} {txid message : ByteString}
variable {X : ℕ → D.algebra.Point} {key : Ed25519Scalar} {k : DrawnScalar}

section Local
variable {α β : Type} {x : EStateM Failure Node α} {a : α}

end Local

section Server

variable {a : PlayerMap ByteString}

/-- A server that has stored the commitments of both servers. -/
def decommitted (D : Deployment) (txid : ByteString) (Q : ℕ → D.algebra.Point) (s : Node) : Node :=
  noted (.decommittedR txid (table servers fun j => commitmentOf D txid j (Q j)))
    (withServer (s.server.storeCommitments txid
      (table servers fun j => commitmentOf D txid j (Q j))) s)

/-- A server that has added up the points of both servers. -/
def added (D : Deployment) (txid message : ByteString) (k : DrawnScalar)
    (Q : ℕ → D.algebra.Point) (s : Node) : Node :=
  withServer (afterBroadcastR s.server txid (sessionRecord D message k (noncePoint D k))
    [sessionBlock D message k (∑ j ∈ servers, Q j)]) s

end Server

end MpcDemo.SessionSteps
