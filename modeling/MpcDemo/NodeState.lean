import MpcDemo.Persistencies
import MpcDemo.AsymmetricEddsaCosignerServer
import MpcDemo.AsymmetricEddsaCosignerClient

/-!
# The state of one node

A node holds its three stores, the number of random draws it has made and a journal of what
it did that matters later. A `Host` fixes the rest: the algebra and the hashes, the platform
and the outcome of every random draw. The cosigners of a node are the generic ones over its
stores.
-/

namespace MpcDemo.NodeState
open ByteStrings Ed25519Algebra CosignerTypes FallibleState Persistencies
open AsymmetricEddsaCosignerServer (Server)
open AsymmetricEddsaCosignerClient (Client)

/-- The outcomes of the random draws, by the number of the draw: the platform's
`gen_random`, the algebra's `rand`, OpenSSL's `RAND_bytes` and the generation of the
auxiliary keys. -/
structure Tape where
  genRandom : ℕ → Bytes 32
  rand : ℕ → Except AlgebraStatus (Fin order)
  randBytes : ℕ → Option (Bytes 32)
  auxiliaryKeys : ℕ → Except Failure AuxiliaryKeys

/-- No source of randomness fails, and a key share is always found within 1024 attempts. -/
structure Tape.Works (tape : Tape) : Prop where
  genRandom : ∀ n, ∃ k < 1024, ∃ key, reduce (tape.genRandom (n + k)) = .ok key
  rand : ∀ n, ∃ v, tape.rand n = .ok v
  randBytes : ∀ n, ∃ b, tape.randBytes n = some b
  auxiliaryKeys : ∀ n, ∃ a, tape.auxiliaryKeys n = .ok a

structure Host where
  algebra : Ed25519
  hash : HashFunctions
  service : PlatformService
  tape : Tape

/-- What the journal records: the argument of a `decommit_r`, the draws behind the shares a
client is about to broadcast, a server's final signatures, the signature a client prints,
and a signing flow that ended in a caught exception. -/
inductive Event
  | decommittedR (txid : ByteString) (commitments : PlayerMap (List EddsaCommitment))
  | broadcastShares (txid : ByteString) (draws : List ℕ)
  | finalSignatures (txid : ByteString) (sigs : List EddsaSignature)
  | signatureSuccess (txid message : ByteString) (sig : EddsaSignature)
  | signingFailed (txid : ByteString) (failure : Failure)

structure Node where
  draws : ℕ
  keys : InMemoryKeyPersistency
  server : MockServerPersistency
  client : MockClientPersistency
  journal : List Event

def Node.initial : Node := ⟨0, .empty, .empty, .empty, []⟩

def keyPersistency : CmpKeyPersistency Node where
  keyExist id s := s.keys.keyExist id
  loadKey id s := s.keys.loadKey id
  getTenantidFromKeyid _ _ := InMemoryKeyPersistency.getTenantidFromKeyid
  loadKeyMetadata id s := s.keys.loadKeyMetadata id

def modifyServer (f : MockServerPersistency → MockServerPersistency) :
    EStateM Failure Node Unit := modify fun s => { s with server := f s.server }

def modifyClient (f : MockClientPersistency → MockClientPersistency) :
    EStateM Failure Node Unit := modify fun s => { s with client := f s.client }

def modifyKeys (f : InMemoryKeyPersistency → InMemoryKeyPersistency) :
    EStateM Failure Node Unit := modify fun s => { s with keys := f s.keys }

def signingPersistency : SigningPersistency Node where
  createPreprocessedData keyId size := modifyServer (·.createPreprocessedData keyId size)
  storePreprocessedData keyId i c := modifyServer (·.storePreprocessedData keyId i c)
  loadPreprocessedData keyId i := inspect fun s => .ok (s.server.loadPreprocessedData keyId i)
  deletePreprocessedData keyId := modifyServer (·.deletePreprocessedData keyId)
  storeCommitments txid comms := modifyServer (·.storeCommitments txid comms)
  loadCommitments txid := inspect fun s => s.server.loadCommitments txid
  deleteCommitments txid := modifyServer (·.deleteCommitments txid)
  storeSigningData txid data update := modifyServer (·.storeSigningData txid data update)
  loadSigningData txid := inspect fun s => s.server.loadSigningData txid
  deleteTemporarySigningData txid := modifyServer (·.deleteTemporarySigningData txid)

def preprocessingPersistency : PreprocessingPersistency Node where
  createPreprocessedData keyId size := modifyClient (·.createPreprocessedData keyId size)
  storePreprocessedData keyId i k := modifyClient (·.storePreprocessedData keyId i k)
  loadPreprocessedData keyId i := inspect fun s => s.client.loadPreprocessedData keyId i
  deletePreprocessedData keyId := modifyClient (·.deletePreprocessedData keyId)

/-- Make a draw: the number of the draw, and one more draw made. -/
def nextDraw : EStateM Failure Node ℕ := fun s => .ok s.draws { s with draws := s.draws + 1 }

theorem run_nextDraw (s : Node) :
    nextDraw.run s = .ok s.draws { s with draws := s.draws + 1 } := rfl

namespace Host
variable (host : Host)

def rand : EStateM Failure Node (Except AlgebraStatus DrawnScalar) := do
  let n ← nextDraw
  pure ((host.tape.rand n).map fun k => ⟨n, beBytes 32 (Fin.val k)⟩)

theorem run_rand (s : Node) :
    host.rand.run s = .ok
      ((host.tape.rand s.draws).map fun k => ⟨s.draws, beBytes 32 (Fin.val k)⟩)
      { s with draws := s.draws + 1 } := rfl

def server : Server Node where
  algebra := host.algebra
  hash := host.hash
  service := host.service
  keyPersistency := keyPersistency
  rand := host.rand
  signingPersistency := signingPersistency

def client : Client Node where
  algebra := host.algebra
  hash := host.hash
  service := host.service
  keyPersistency := keyPersistency
  rand := host.rand
  preprocessingPersistency := preprocessingPersistency

@[simp] theorem server_algebra : host.server.algebra = host.algebra := rfl

@[simp] theorem server_hash : host.server.hash = host.hash := rfl

@[simp] theorem server_service : host.server.service = host.service := rfl

@[simp] theorem server_keyPersistency : host.server.keyPersistency = keyPersistency := rfl

@[simp] theorem server_signingPersistency :
    host.server.signingPersistency = signingPersistency := rfl

@[simp] theorem client_algebra : host.client.algebra = host.algebra := rfl

@[simp] theorem client_hash : host.client.hash = host.hash := rfl

@[simp] theorem client_service : host.client.service = host.service := rfl

@[simp] theorem client_keyPersistency : host.client.keyPersistency = keyPersistency := rfl

@[simp] theorem client_preprocessingPersistency :
    host.client.preprocessingPersistency = preprocessingPersistency := rfl

end Host

/-- The states differ at most in the number of draws made. -/
def OnlyDraws (s t : Node) : Prop := s.draws ≤ t.draws ∧ t = { s with draws := t.draws }

instance : Std.Refl OnlyDraws := ⟨fun _ => ⟨le_rfl, rfl⟩⟩

instance : IsTrans Node OnlyDraws where
  trans s t u hst htu := by
    refine ⟨hst.1.trans htu.1, ?_⟩
    rw [htu.2, hst.2]

theorem keeps_nextDraw : Keeps OnlyDraws nextDraw := by
  intro s
  constructor
  · intro a t h
    rw [run_nextDraw] at h
    cases h
    exact ⟨Nat.le_succ _, rfl⟩
  · intro e t h
    rw [run_nextDraw] at h
    cases h

theorem keeps_hostRand {host : Host} : Keeps OnlyDraws host.rand :=
  keeps_nextDraw.bind fun _ => keeps_pure _

/-- `SimplePlatform`: one tenant, a fixed player id, player 1 is the client. -/
def simplePlatform (myId : ℕ) : PlatformService where
  getCurrentTenantid := tenantId
  getIdFromKeyid _ := myId
  isClientId playerId := playerId == 1
  onStartSigning _ _ _ _ _ := .ok ()
  fillSigningInfoFromMetadata _ _ := 0

section Concrete

/-- Hashes that keep the first bytes of their input. -/
def prefixHash : HashFunctions where
  sha256 l := leBytes 32 (leValue l)
  sha512 l := leBytes 64 (leValue l)
  keccak512 l := leBytes 64 (leValue l)
  hmacSha512 _ l := leBytes 64 (leValue l)

def concreteAux : AuxiliaryKeys := ⟨[1], [2], by decide, by decide, by decide, by decide⟩

/-- Every draw succeeds with a value of its own. -/
def countingTape : Tape where
  genRandom n := beBytes 32 ((n + 1) % order)
  rand n := .ok (Fin.ofNat order (n + 5))
  randBytes n := some (leBytes 32 (n + 1))
  auxiliaryKeys _ := .ok concreteAux

/-- A host on which runs can be evaluated. -/
def concreteHost (myId : ℕ) : Host :=
  ⟨exponentGroup, prefixHash, simplePlatform myId, countingTape⟩

/-- The encoding of `n * B` in the group of exponents. -/
def concretePoint (n : ℕ) : Ed25519Point := exponentGroup.encode (Fin.ofNat order n)

end Concrete

section StateLaws
variable {s t : Node} {txid keyId : ByteString} {i : ℕ}

theorem run_modifyServer (f : MockServerPersistency → MockServerPersistency) (s : Node) :
    (modifyServer f).run s = .ok () { s with server := f s.server } := rfl

theorem run_modifyClient (f : MockClientPersistency → MockClientPersistency) (s : Node) :
    (modifyClient f).run s = .ok () { s with client := f s.client } := rfl

theorem run_loadSigningData_ok_iff {data : AsymmetricEddsaSigningMetadata} :
    (signingPersistency.loadSigningData txid).run s = .ok data t ↔
      s.server.signingData txid = some data ∧ s = t := by
  simp only [signingPersistency, run_inspect_ok_iff, MockServerPersistency.loadSigningData,
    MockServerPersistency.found_eq_ok_iff]

theorem run_loadCommitments_ok_iff {commitments : PlayerMap (List EddsaCommitment)} :
    (signingPersistency.loadCommitments txid).run s = .ok commitments t ↔
      s.server.commitments txid = some commitments ∧ s = t := by
  simp only [signingPersistency, run_inspect_ok_iff, MockServerPersistency.loadCommitments,
    MockServerPersistency.found_eq_ok_iff]

theorem run_loadPreprocessedData_ok_iff {c : EddsaCommitment} :
    (signingPersistency.loadPreprocessedData keyId i).run s = .ok c t ↔
      s.server.loadPreprocessedData keyId i = c ∧ s = t := by
  simp only [signingPersistency, run_inspect_ok_iff, Except.ok.injEq]

theorem run_loadKeyMetadata_ok_iff {metadata : CmpKeyMetadata} :
    (inspect (keyPersistency.loadKeyMetadata keyId)).run s = .ok metadata t ↔
      s.keys.metas keyId = some metadata ∧ s = t := by
  simp only [keyPersistency, run_inspect_ok_iff, InMemoryKeyPersistency.loadKeyMetadata,
    InMemoryKeyPersistency.found_eq_ok_iff]

theorem run_loadKey_ok_iff {algo : CosignerSignAlgorithm} {key : Ed25519Scalar} :
    (inspect (keyPersistency.loadKey keyId)).run s = .ok (algo, key) t ↔
      (s.keys.keys keyId = some key ∧ algo = .eddsaEd25519) ∧ s = t := by
  simp only [keyPersistency, run_inspect_ok_iff, InMemoryKeyPersistency.loadKey]
  cases s.keys.keys keyId with
  | none => simp [InMemoryKeyPersistency.found, Except.map]
  | some key' =>
    simp only [InMemoryKeyPersistency.found, Except.map, Except.ok.injEq, Prod.mk.injEq,
      Option.some.injEq]
    refine and_congr_left' ?_
    rw [and_comm, eq_comm (a := key')]
    exact and_congr_right' eq_comm

end StateLaws

end MpcDemo.NodeState
