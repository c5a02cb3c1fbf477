import MpcDemo.CallHistories
import MpcDemo.ServerOperationLaws

/-!
# Calls on one signing server

Arbitrary sequences of calls on an `asymmetric_eddsa_cosigner_server` over
`MockServerPersistency`. A call that throws leaves every store as it was; at most it has made
random draws.
-/

namespace MpcDemo.ServerCalls
open ByteStrings Ed25519Algebra CosignerTypes AsymmetricEddsaCosigner FallibleState Persistencies
open NodeState AsymmetricEddsaCosignerServer ServerOperationLaws CallHistories

inductive Call
  | storePresigningData (keyId requestId : ByteString) (startIndex count totalCount : ℕ)
      (playersIds : Finset ℕ) (sender : ℕ) (RCommitments : List EddsaCommitment)
  | eddsaSignOffline (keyId txid : ByteString) (data : SigningData) (metadataJson : ByteString)
      (players : Finset ByteString) (playersIds : Finset ℕ) (preprocessedDataIndex : ℕ)
  | decommitR (txid : ByteString) (commitments : PlayerMap (List EddsaCommitment))
  | broadcastR (txid : ByteString) (playersR : PlayerMap (List EllipticCurvePoint))
  | broadcastSi (txid : ByteString) (sender version : ℕ) (partialSigs : List EddsaSignature)
  | getEddsaSignature (txid : ByteString) (partialSigs : PlayerMap (List EddsaSignature))
  | cancelSigning (txid : ByteString)

inductive Output
  | done
  | offline (out : SignOfflineOutput)
  | decommitted (Rs : List EllipticCurvePoint)
  | aggregated (out : BroadcastROutput)
  | shares (out : BroadcastSiOutput)
  | signatures (sigs : List EddsaSignature)

abbrev Outcome := Except Failure Output

variable (host : Host)

def operation : Call → EStateM Failure Node Output
  | .storePresigningData keyId requestId startIndex count totalCount playersIds sender Rs =>
    (fun _ => .done) <$> storePresigningData host.server keyId requestId startIndex count
      totalCount playersIds sender Rs
  | .eddsaSignOffline keyId txid data metadataJson players playersIds index =>
    .offline <$> eddsaSignOffline host.server keyId txid data metadataJson players playersIds index
  | .decommitR txid commitments => .decommitted <$> decommitR host.server txid commitments
  | .broadcastR txid playersR => .aggregated <$> broadcastR host.server txid playersR
  | .broadcastSi txid sender version partialSigs =>
    .shares <$> broadcastSi host.server txid sender version partialSigs
  | .getEddsaSignature txid partialSigs =>
    .signatures <$> getEddsaSignature host.server txid partialSigs
  | .cancelSigning txid => (fun _ => .done) <$> cancelSigning host.server txid

def exec (c : Call) (s : Node) : Outcome × Node :=
  match (operation host c).run s with
  | .ok out t => (.ok out, t)
  | .error e t => (.error e, t)

abbrev CallStep := Step Node Call Outcome

/-- A fresh server store; the rest of the node is arbitrary. -/
def Fresh (s : Node) : Prop := s.server = .empty

/-- What may happen between two calls: anything that leaves the server's store alone and takes
back no draw. -/
def Elsewhere (s t : Node) : Prop := t.server = s.server ∧ s.draws ≤ t.draws

abbrev ServerRun (host : Host) : List CallStep → Node → Prop := Run (exec host) Fresh Elsewhere

section Frames
variable {host}

private theorem keeps_retryRand (attempts : ℕ) (status : Except AlgebraStatus DrawnScalar) :
    Keeps OnlyDraws (retryRand host.server attempts status) := by
  induction attempts generalizing status with
  | zero => exact keeps_pure status
  | succ attempts ih =>
    cases status with
    | ok k => exact keeps_pure _
    | error e => exact keeps_hostRand.bind fun status => ih status

private theorem keeps_drawNonces (status : Except AlgebraStatus DrawnScalar)
    (blocks : List SigningBlockData) : Keeps OnlyDraws (drawNonces host.server status blocks) := by
  induction blocks generalizing status with
  | nil => exact keeps_pure []
  | cons block blocks ih =>
    exact (keeps_retryRand 1024 status).bind fun status => (keeps_ofExcept _).bind fun k =>
      (keeps_ofExcept _).bind fun R => (ih (.ok k)).bind fun sigData => keeps_pure _

theorem storePresigningData_failsKeeping (keyId requestId : ByteString)
    (startIndex count totalCount : ℕ) (playersIds : Finset ℕ) (sender : ℕ)
    (RCommitments : List EddsaCommitment) : FailsKeeping OnlyDraws (storePresigningData host.server
      keyId requestId startIndex count totalCount playersIds sender RCommitments) := by
  refine .bind keeps_verifyTenantId fun _ => .bind (keeps_require _ _) fun _ =>
    .bind (keeps_inspect _) fun metadata => .bind (keeps_require _ _) fun _ =>
    .bind (keeps_require _ _) fun _ => .bind (keeps_require _ _) fun _ =>
    .bind (keeps_require _ _) fun _ => failsKeeping_of_total fun s => ?_
  exact ⟨(), _, run_storeAll { s with server := s.server.createPreprocessedData keyId totalCount }⟩

theorem eddsaSignOffline_failsKeeping (keyId txid : ByteString) (data : SigningData)
    (metadataJson : ByteString) (players : Finset ByteString) (playersIds : Finset ℕ)
    (preprocessedDataIndex : ℕ) : FailsKeeping OnlyDraws (eddsaSignOffline host.server keyId txid
      data metadataJson players playersIds preprocessedDataIndex) := by
  refine .bind keeps_verifyTenantId fun _ => .bind (keeps_inspect _) fun metadata =>
    .bind (keeps_require _ _) fun _ => .bind (keeps_require _ _) fun _ =>
    .bind (keeps_require _ _) fun _ => .bind (keeps_require _ _) fun _ =>
    .bind (keeps_ofExcept _) fun _ => .bind (keeps_require _ _) fun _ =>
    .bind (keeps_drawNonces _ _) fun sigData => failsKeeping_of_total fun s => ?_
  by_cases hn : metadata.n = 2
  · simp only [hn, if_true]
    exact ⟨_, _, rfl⟩
  · simp only [hn, if_false]
    exact ⟨_, _, rfl⟩

theorem decommitR_failsKeeping (txid : ByteString)
    (commitments : PlayerMap (List EddsaCommitment)) :
    FailsKeeping OnlyDraws (decommitR host.server txid commitments) :=
  .bind (keeps_inspect _) fun _ => .bind keeps_verifyTenantId fun _ =>
    .bind (keeps_require _ _) fun _ => .bind (keeps_require _ _) fun _ =>
    .bind (keeps_require _ _) fun _ => .bind (keeps_require _ _) fun _ =>
    .bind (keeps_require _ _) fun _ => failsKeeping_of_total fun _ => ⟨_, _, rfl⟩

theorem broadcastR_failsKeeping (txid : ByteString)
    (playersR : PlayerMap (List EllipticCurvePoint)) :
    FailsKeeping OnlyDraws (broadcastR host.server txid playersR) :=
  .bind (keeps_inspect _) fun _ => .bind keeps_verifyTenantId fun _ =>
    .bind (keeps_require _ _) fun _ => .bind (keeps_require _ _) fun _ =>
    .bind (keeps_require _ _) fun _ => .bind (keeps_inspect _) fun _ =>
    .bind (keeps_ofExcept _) fun _ => failsKeeping_of_total fun _ => ⟨_, _, rfl⟩

private theorem keeps_signBlocks {data : AsymmetricEddsaSigningMetadata} {sender : ℕ}
    {metadata : CmpKeyMetadata} {key : Ed25519Scalar} {finalSig addClientShare : Bool}
    {partialSigs : List EddsaSignature} : Keeps OnlyDraws (signBlocks host.server data sender
      metadata key finalSig addClientShare partialSigs) := by
  rw [signBlocks]
  refine keeps_mapM (fun b => ?_) _
  have hload : Keeps OnlyDraws (signingPersistency.loadPreprocessedData data.keyId
    (data.startIndex + b.2)) :=
    keeps_inspect fun s : Node => Except.ok (s.server.loadPreprocessedData data.keyId _)
  exact hload.bind fun c => .bind (keeps_require _ _) fun _ => keeps_ofExcept _

theorem broadcastSi_failsKeeping (txid : ByteString) (sender version : ℕ)
    (partialSigs : List EddsaSignature) :
    FailsKeeping OnlyDraws (broadcastSi host.server txid sender version partialSigs) := by
  refine .bind (keeps_inspect _) fun data => .bind keeps_verifyTenantId fun _ =>
    .bind (keeps_require _ _) fun _ => .bind (keeps_require _ _) fun _ =>
    .bind (keeps_inspect _) fun _ => .bind (keeps_require _ _) fun _ =>
    .bind (keeps_inspect _) fun _ => .bind (keeps_require _ _) fun _ =>
    .bind (keeps_require _ _) fun _ => .bind keeps_signBlocks fun blocks =>
    failsKeeping_of_total fun s => ?_
  by_cases hcard : data.signersIds.card = 2
  · simp only [hcard, decide_true, if_true]
    exact ⟨_, _, rfl⟩
  · simp only [hcard, decide_false, Bool.false_eq_true, if_false]
    exact ⟨_, _, rfl⟩

theorem getEddsaSignature_failsKeeping (txid : ByteString)
    (partialSigs : PlayerMap (List EddsaSignature)) :
    FailsKeeping OnlyDraws (getEddsaSignature host.server txid partialSigs) :=
  .bind (keeps_inspect _) fun _ => .bind keeps_verifyTenantId fun _ =>
    .bind (keeps_require _ _) fun _ => .bind (keeps_require _ _) fun _ =>
    .bind (keeps_inspect _) fun _ => .bind (keeps_ofExcept _) fun _ =>
    failsKeeping_of_total fun _ => ⟨_, _, rfl⟩

/-- The server's store is the same: preprocessed commitments, commitments and signing data. -/
def SameStore (s t : Node) : Prop := t.server = s.server

theorem failsKeeping_sameStore {α : Type} {x : EStateM Failure Node α}
    (h : FailsKeeping OnlyDraws x) : FailsKeeping SameStore x := by
  intro s e t hx
  obtain ⟨-, ht⟩ := h s e t hx
  rw [SameStore, ht]

/-- Whatever the state and the arguments, an operation that throws has not touched the store. -/
theorem failedOperations_keepStore (host : Host) :
    (∀ keyId requestId startIndex count totalCount playersIds sender RCommitments,
      FailsKeeping SameStore (storePresigningData host.server keyId requestId startIndex count
        totalCount playersIds sender RCommitments)) ∧
    (∀ keyId txid data metadataJson players playersIds preprocessedDataIndex,
      FailsKeeping SameStore (eddsaSignOffline host.server keyId txid data metadataJson players
        playersIds preprocessedDataIndex)) ∧
    (∀ txid commitments, FailsKeeping SameStore (decommitR host.server txid commitments)) ∧
    (∀ txid playersR, FailsKeeping SameStore (broadcastR host.server txid playersR)) ∧
    (∀ txid sender version partialSigs,
      FailsKeeping SameStore (broadcastSi host.server txid sender version partialSigs)) ∧
    ∀ txid partialSigs, FailsKeeping SameStore (getEddsaSignature host.server txid partialSigs) :=
  ⟨fun _ _ _ _ _ _ _ _ =>
      failsKeeping_sameStore (storePresigningData_failsKeeping _ _ _ _ _ _ _ _),
    fun _ _ _ _ _ _ _ => failsKeeping_sameStore (eddsaSignOffline_failsKeeping _ _ _ _ _ _ _),
    fun _ _ => failsKeeping_sameStore (decommitR_failsKeeping _ _),
    fun _ _ => failsKeeping_sameStore (broadcastR_failsKeeping _ _),
    fun _ _ _ _ => failsKeeping_sameStore (broadcastSi_failsKeeping _ _ _ _),
    fun _ _ => failsKeeping_sameStore (getEddsaSignature_failsKeeping _ _)⟩

theorem operation_failsKeeping (c : Call) : FailsKeeping OnlyDraws (operation host c) := by
  cases c with
  | storePresigningData => exact FailsKeeping.map (storePresigningData_failsKeeping _ _ _ _ _ _ _ _) _
  | eddsaSignOffline => exact FailsKeeping.map (eddsaSignOffline_failsKeeping _ _ _ _ _ _ _) _
  | decommitR => exact FailsKeeping.map (decommitR_failsKeeping _ _) _
  | broadcastR => exact FailsKeeping.map (broadcastR_failsKeeping _ _) _
  | broadcastSi => exact FailsKeeping.map (broadcastSi_failsKeeping _ _ _ _) _
  | getEddsaSignature => exact FailsKeeping.map (getEddsaSignature_failsKeeping _ _) _
  | cancelSigning =>
    exact FailsKeeping.map (failsKeeping_of_total fun _ => ⟨_, _, run_cancelSigning _⟩) _

end Frames

variable {host}

theorem exec_eq_error {c : Call} {s : Node} {e : Failure} (h : (exec host c s).1 = .error e) :
    OnlyDraws s (exec host c s).2 := by
  rw [exec] at h ⊢
  cases hr : (operation host c).run s with
  | ok out t =>
    rw [hr] at h
    cases h
  | error e' t => exact operation_failsKeeping c s e' t hr

theorem exec_eq_ok {c : Call} {s : Node} {out : Output} (h : (exec host c s).1 = .ok out) :
    (operation host c).run s = .ok out (exec host c s).2 := by
  rw [exec] at h ⊢
  cases hr : (operation host c).run s with
  | ok out' t =>
    rw [hr] at h
    cases h
    rfl
  | error e t =>
    rw [hr] at h
    cases h

section Concrete

/-- Three players with the key shares 1, 2 and 3. -/
def concreteMetadata : CmpKeyMetadata where
  publicKey := Ed25519Point.generic (concretePoint 6)
  algorithm := .eddsaEd25519
  t := 3
  n := 3
  playersInfo := (((∅ : PlayerMap CmpPlayerInfo).insert
    1 ⟨Ed25519Point.generic (concretePoint 1)⟩).insert
    2 ⟨Ed25519Point.generic (concretePoint 2)⟩).insert
    3 ⟨Ed25519Point.generic (concretePoint 3)⟩

/-- Server 2 after keygen. -/
def concreteNode : Node :=
  { Node.initial with keys := (InMemoryKeyPersistency.empty.storeKey configKeyId .eddsaEd25519
      (beBytes 32 2)).storeKeyMetadata configKeyId concreteMetadata true }

/-- Client shares of one block under the client nonce 9, and its preprocessing. -/
def concretePartialSigs : List EddsaSignature := [⟨concretePoint 9, beBytes 32 4⟩]

def concretePresigning : Call :=
  .storePresigningData configKeyId [] 0 1 1 {1, 2, 3} 1
    [commitToR prefixHash configKeyId 0 1 (concretePoint 9)]

/-- A request of the three players to sign the message `[1]`. -/
def concreteSignOffline (txid : ByteString) : Call :=
  .eddsaSignOffline configKeyId txid ⟨zeroBytes 32, [⟨[1], []⟩]⟩ [] ∅ {1, 2, 3} 0

theorem fresh_concreteNode : Fresh concreteNode := rfl

/-- The run of server 2 that makes some given calls, the latest first. -/
def concreteRun (calls : List Call) : List CallStep × Node :=
  follow (exec (concreteHost 2)) concreteNode calls

theorem serverRun_concreteRun (calls : List Call) :
    ServerRun (concreteHost 2) (concreteRun calls).1 (concreteRun calls).2 :=
  run_follow fresh_concreteNode calls

end Concrete

end MpcDemo.ServerCalls
