import MpcDemo.ContractServer
import MpcDemo.PlayerTables
import MpcDemo.ShareSums

/-!
# Signing sessions of one client and any number of servers

The parties of a session over their own stores, and the driver that carries the messages between
them: preprocessing once, then the phases of a session.
-/

namespace MpcDemo.OfflineSessions
open ByteStrings Ed25519Algebra CosignerTypes AsymmetricEddsaCosigner FallibleState TotalRuns
open Persistencies InterfaceContracts PlayerTables ShareSums PreprocessingContract
open AsymmetricEddsaCosignerServer (Server)
open AsymmetricEddsaCosignerClient (Client)

/-- One client and some servers, with what each of them works with. -/
structure Parties (σ τ : Type) where
  algebra : Ed25519
  hash : HashFunctions
  clientId : ℕ
  serverIds : Finset ℕ
  service : ℕ → PlatformService
  clientKeys : CmpKeyPersistency τ
  clientRand : EStateM Failure τ (Except AlgebraStatus DrawnScalar)
  preprocessingPersistency : PreprocessingPersistency τ
  serverKeys : ℕ → CmpKeyPersistency σ
  serverRand : ℕ → EStateM Failure σ (Except AlgebraStatus DrawnScalar)
  signingPersistency : ℕ → SigningPersistency σ

/-- The stores of the parties. -/
structure System (σ τ : Type) where
  client : τ
  servers : ℕ → σ

variable {σ τ α : Type}

def onClient (x : EStateM Failure τ α) : EStateM Failure (System σ τ) α := fun w =>
  match x.run w.client with
  | .ok a c => .ok a { w with client := c }
  | .error e c => .error e { w with client := c }

def onServer (i : ℕ) (x : EStateM Failure σ α) : EStateM Failure (System σ τ) α := fun w =>
  match x.run (w.servers i) with
  | .ok a s => .ok a { w with servers := Function.update w.servers i s }
  | .error e s => .error e { w with servers := Function.update w.servers i s }

namespace Parties
variable (P : Parties σ τ)

def players : Finset ℕ := insert P.clientId P.serverIds

def client : Client τ where
  algebra := P.algebra
  hash := P.hash
  service := P.service P.clientId
  keyPersistency := P.clientKeys
  rand := P.clientRand
  preprocessingPersistency := P.preprocessingPersistency

def server (i : ℕ) : Server σ where
  algebra := P.algebra
  hash := P.hash
  service := P.service i
  keyPersistency := P.serverKeys i
  rand := P.serverRand i
  signingPersistency := P.signingPersistency i

/-- Run an operation of every server, in the order of the ids. -/
def eachServer (f : ℕ → EStateM Failure σ α) : EStateM Failure (System σ τ) (PlayerMap α) := do
  let entries ← P.serverIds.sort.mapM fun i => do
    let a ← onServer i (f i)
    pure (i, a)
  pure (NodePrograms.ofEntries entries)

def preprocess (tenant keyId request : ByteString) (start count total : ℕ) :
    EStateM Failure (System σ τ) Unit := do
  let RCommitments ← onClient (AsymmetricEddsaCosignerClient.startSignaturePreprocessing P.client
    tenant keyId request start count total P.players)
  let _ ← P.eachServer fun i => AsymmetricEddsaCosignerServer.storePresigningData (P.server i)
    keyId request start count total P.players P.clientId RCommitments

/-- The servers' phases before the client signs: with one server its own points, with several
the points that they have committed to, revealed and added up. -/
def sumNonces (keyId txid : ByteString) (data : SigningData) (metadataJson : ByteString)
    (players : Finset ByteString) (startIndex : ℕ) :
    EStateM Failure (System σ τ) (PlayerMap RsAndCommitments) := do
  let offline ← P.eachServer fun i => AsymmetricEddsaCosignerServer.eddsaSignOffline (P.server i)
    keyId txid data metadataJson players P.players startIndex
  if P.serverIds.card = 1 then
    pure (offline.map fun _ out => out.Rs.getD ⟨[], zeroBytes 32⟩)
  else
    let Rs ← P.eachServer fun i => AsymmetricEddsaCosignerServer.decommitR (P.server i) txid
      (offline.map fun _ out => out.RCommitments)
    let sums ← P.eachServer fun i => AsymmetricEddsaCosignerServer.broadcastR (P.server i) txid Rs
    pure (sums.map fun _ out => out.Rs)

def eddsaSign (keyId txid : ByteString) (data : SigningData) (metadataJson : ByteString)
    (players : Finset ByteString) (startIndex : ℕ) :
    EStateM Failure (System σ τ) (PlayerMap (List EddsaSignature)) := do
  let serverRs ← P.sumNonces keyId txid data metadataJson players startIndex
  let partialSigs ← onClient (AsymmetricEddsaCosignerClient.eddsaSignOffline P.client keyId txid
    data metadataJson players P.players startIndex serverRs)
  let outs ← P.eachServer fun i => AsymmetricEddsaCosignerServer.broadcastSi (P.server i) txid
    P.clientId mpcProtocolVersion (partialSigs.map (·.sig))
  let sigs := outs.map fun _ out => out.sigs
  if P.serverIds.card = 1 then pure sigs
  else P.eachServer fun i =>
    AsymmetricEddsaCosignerServer.getEddsaSignature (P.server i) txid sigs

end Parties

section Phases
variable {P : Parties σ τ} {w : System σ τ}

theorem returns_onClient {x : EStateM Failure τ α} {post : α → τ → Prop}
    (h : Returns x w.client post) : Returns (onClient x : EStateM Failure (System σ τ) α) w
      fun a w' => post a w'.client ∧ w'.servers = w.servers := by
  obtain ⟨a, c, hrun, hpost⟩ := h
  refine ⟨a, { w with client := c }, ?_, hpost, rfl⟩
  show onClient x w = _
  rw [onClient, hrun]

theorem run_onClient_ok {α : Type} {x : EStateM Failure τ α} {w' : System σ τ} {a : α}
    (h : (onClient x).run w = .ok a w') : ∃ c, x.run w.client = .ok a c := by
  change onClient x w = _ at h
  rw [onClient] at h
  split at h
  · rename_i b c hrun
    cases h
    exact ⟨c, hrun⟩
  · cases h

theorem returns_onServer {i : ℕ} {x : EStateM Failure σ α} {post : α → σ → Prop}
    (h : Returns x (w.servers i) post) : Returns (onServer i x : EStateM Failure (System σ τ) α) w
      fun a w' => post a (w'.servers i) ∧ w'.client = w.client ∧
        ∀ j, j ≠ i → w'.servers j = w.servers j := by
  obtain ⟨a, s, hrun, hpost⟩ := h
  refine ⟨a, { w with servers := Function.update w.servers i s }, ?_, ?_, rfl, fun j hj => ?_⟩
  · show onServer i x w = _
    rw [onServer, hrun]
  · simp only [Function.update_self]
    exact hpost
  · exact Function.update_of_ne hj _ _

/-- A phase of all servers: each works on its own store. -/
theorem returns_eachServer (hne : P.serverIds.Nonempty) {f : ℕ → EStateM Failure σ α}
    {post : ℕ → α → σ → Prop}
    (h : ∀ i ∈ P.serverIds, Returns (f i) (w.servers i) (post i)) :
    Returns (P.eachServer f) w fun m w' => w'.client = w.client ∧
      ∃ value : ℕ → α, m = table P.serverIds value ∧
        ∀ i ∈ P.serverIds, post i (value i) (w'.servers i) := by
  have hnodup : P.serverIds.sort.Nodup := P.serverIds.sort_nodup (· ≤ ·)
  obtain ⟨first, hfirst⟩ := hne
  obtain ⟨some, -⟩ := h first hfirst
  have hloop := returns_mapM (s := w) (l := P.serverIds.sort)
    (f := fun i => do
      let a ← (onServer i (f i) : EStateM Failure (System σ τ) α)
      pure (i, a))
    (fun done entries w' => w'.client = w.client ∧
      (∀ i, i ∉ done → w'.servers i = w.servers i) ∧
      ∃ value : ℕ → α, entries = done.map (fun i => (i, value i)) ∧
        ∀ i ∈ done, post i (value i) (w'.servers i))
    ⟨rfl, fun _ _ => rfl, fun _ => some, rfl, fun i hi => absurd hi List.not_mem_nil⟩
    (by
      intro done i rest entries w' hl hI
      obtain ⟨hclient, hothers, value, rfl, hdone⟩ := hI
      have hmem : i ∈ P.serverIds := by
        rw [← Finset.mem_sort (· ≤ ·), hl]
        exact List.mem_append_right _ List.mem_cons_self
      have hnew : i ∉ done := by
        rw [hl] at hnodup
        exact fun hi => (List.nodup_append.1 hnodup).2.2 i hi i List.mem_cons_self rfl
      have hi := h i hmem
      rw [← hothers i hnew] at hi
      apply (returns_onServer hi).bind
      intro a u hu
      obtain ⟨hpost, hclient', hothers'⟩ := hu
      apply returns_pure
      refine ⟨hclient'.trans hclient, fun j hj => ?_, Function.update value i a, ?_, fun j hj => ?_⟩
      · rw [List.mem_append, List.mem_singleton, not_or] at hj
        rw [hothers' j hj.2, hothers j hj.1]
      · rw [List.map_append, List.map_singleton, Function.update_self]
        refine congrArg (· ++ _) (List.map_congr_left fun j hj => ?_)
        have hne : j ≠ i := fun heq => hnew (heq ▸ hj)
        rw [Function.update_of_ne hne]
      · rcases List.mem_append.1 hj with hj | hj
        · have hne : j ≠ i := fun heq => hnew (heq ▸ hj)
          rw [Function.update_of_ne hne, hothers' j hne]
          exact hdone j hj
        · obtain rfl := List.mem_singleton.1 hj
          rwa [Function.update_self])
  rw [Parties.eachServer]
  apply hloop.bind
  intro entries w' hw'
  obtain ⟨hclient, -, value, rfl, hpost⟩ := hw'
  apply returns_pure
  exact ⟨hclient, value, rfl, fun i hi => hpost i ((Finset.mem_sort (· ≤ ·)).2 hi)⟩

end Phases

end MpcDemo.OfflineSessions
