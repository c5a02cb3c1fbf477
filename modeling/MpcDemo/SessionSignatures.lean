import MpcDemo.OfflineSessions
import MpcDemo.ReferencePersistencies

/-!
# The signatures of honest sessions

Parties that follow the protocol with shares of one key finish every session with a signature of
each block under its derived key, whatever their number.
-/

namespace MpcDemo.SessionSignatures
open ByteStrings Ed25519Algebra CosignerTypes AsymmetricEddsaCosigner FallibleState TotalRuns
open Persistencies InterfaceContracts PlayerTables ShareSums PreprocessingContract OfflineSessions
open ContractClient ContractServer ServerBlockLaws

variable {σ τ : Type}

/-- Every party follows the protocol with a key of all parties, over persistencies that meet their
contracts. -/
structure Honest (P : Parties σ τ) (clientView : τ → ClientStore)
    (serverView : ℕ → σ → ServerStore) (keyId tenant : ByteString) (metadata : CmpKeyMetadata)
    (flags : ByteString → ℕ → ℕ) : Prop where
  client : ClientContract P.client clientView
  server : ∀ i ∈ P.serverIds, ServerContract (P.server i) (serverView i)
  id : ∀ i ∈ P.players, (P.service i).getIdFromKeyid keyId = i
  tenant : ∀ i ∈ P.players, (P.service i).getCurrentTenantid = tenant
  isClientId : ∀ i ∈ P.players, ∀ j ∈ P.players, (P.service i).isClientId j ↔ j = P.clientId
  flags : ∀ i ∈ P.players, (P.service i).fillSigningInfoFromMetadata = flags
  apart : P.clientId ∉ P.serverIds
  nonempty : P.serverIds.Nonempty
  card : P.players.card < 256
  algorithm : metadata.algorithm = .eddsaEd25519
  members : ∀ i ∈ P.players, i ∈ metadata.playersInfo
  size : metadata.playersInfo.size = P.players.card
  n : metadata.n = P.players.card
  t : metadata.t = P.players.card

/-- The parties hold shares of the private key of the public one. -/
structure SharesKey (P : Parties σ τ) (keyId tenant : ByteString) (metadata : CmpKeyMetadata)
    (key : ℕ → Ed25519Scalar) (w : System σ τ) : Prop where
  client : StoresKey P.clientKeys keyId tenant metadata (key P.clientId) w.client
  server : ∀ i ∈ P.serverIds, StoresKey (P.serverKeys i) keyId tenant metadata (key i) (w.servers i)
  publicKey : metadata.publicKey = Ed25519Point.generic
    (P.algebra.encode ((∑ i ∈ P.players, beValue (key i).val) • P.algebra.base))

/-- The client holds nonces for some indices, and every server the commitments to them. -/
structure Prepared (P : Parties σ τ) (clientView : τ → ClientStore)
    (serverView : ℕ → σ → ServerStore) (keyId : ByteString) (start count : ℕ)
    (nonce : ℕ → DrawnScalar) (w : System σ τ) : Prop where
  lt : ∀ j, start ≤ j → j < start + count → beValue (nonce j).value.val < order
  client : ∃ array, clientView w.client keyId = some array ∧
    ∀ j, start ≤ j → j < start + count → array.entry j = some (nonce j)
  server : ∀ i ∈ P.serverIds, ∃ array, (serverView i (w.servers i)).preprocessed keyId =
    some array ∧ ∀ j, start ≤ j → j < start + count → array.entry j =
      some (commitToR P.hash keyId j P.clientId
        (P.algebra.encode (beValue (nonce j).value.val • P.algebra.base)))

/-- No server has stored anything for the transaction. -/
def Fresh (P : Parties σ τ) (serverView : ℕ → σ → ServerStore) (txid : ByteString)
    (w : System σ τ) : Prop :=
  ∀ i ∈ P.serverIds, (serverView i (w.servers i)).signingData txid = none ∧
    (serverView i (w.servers i)).commitments txid = none

/-- What can be signed: up to the greatest number of blocks, each a message whose size fits the
argument of the hash, with an empty path or one of five steps that are not hardened. -/
structure Requested (data : SigningData) : Prop where
  blocks : data.blocks.length ≤ maxBlocksToSign
  messages : ∀ block ∈ data.blocks, Signable block.data
  paths : ∀ block ∈ data.blocks, block.path = [] ∨
    block.path.length = 5 ∧ ∀ c ∈ block.path, isHardened c = false

/-- Every server has a signature of each block that verifies under the block's derived key. -/
def AllVerify (P : Parties σ τ) (metadata : CmpKeyMetadata) (data : SigningData) (flags : ℕ → ℕ)
    (sigs : PlayerMap (List EddsaSignature)) : Prop :=
  ∀ i ∈ P.serverIds, ∃ l, sigs[i]? = some l ∧ l.length = data.blocks.length ∧
    ∀ (j : ℕ) block sig, data.blocks[j]? = some block → l[j]? = some sig → ∃ publicKey,
      derivePublicKeyGeneric P.algebra P.hash metadata.publicKey data.chaincode block.path =
        .ok publicKey ∧
      ed25519Verify P.algebra P.hash block.data sig.R sig.s publicKey.ed25519
        (eddsaKeccak (flags j)) = true

section Preprocessing
variable {P : Parties σ τ} {clientView : τ → ClientStore} {serverView : ℕ → σ → ServerStore}
variable {keyId tenant txid : ByteString} {metadata : CmpKeyMetadata}
variable {flags : ByteString → ℕ → ℕ} {key : ℕ → Ed25519Scalar} {w : System σ τ}

theorem mem_players_server {i : ℕ} (hi : i ∈ P.serverIds) : i ∈ P.players :=
  Finset.mem_insert_of_mem hi

theorem mem_players_client : P.clientId ∈ P.players := Finset.mem_insert_self _ _

theorem Honest.erase_client (h : Honest P clientView serverView keyId tenant metadata flags) :
    P.players.erase P.clientId = P.serverIds := Finset.erase_insert h.apart

theorem Honest.card_players (h : Honest P clientView serverView keyId tenant metadata flags) :
    P.players.card = P.serverIds.card + 1 := Finset.card_insert_of_notMem h.apart

theorem Honest.two_le (h : Honest P clientView serverView keyId tenant metadata flags) :
    2 ≤ P.players.card := by
  have hpos := h.nonempty.card_pos
  rw [h.card_players]
  omega

theorem returns_preprocess (h : Honest P clientView serverView keyId tenant metadata flags)
    (hkey : SharesKey P keyId tenant metadata key w)
    (hclient : clientView w.client keyId = none)
    (hserver : ∀ i ∈ P.serverIds, (serverView i (w.servers i)).preprocessed keyId = none)
    (request : ByteString) {start count total : ℕ} (hrange : start + count ≤ total) :
    Returns (P.preprocess tenant keyId request start count total) w fun _ w' =>
      SharesKey P keyId tenant metadata key w' ∧
        (∃ nonce, Prepared P clientView serverView keyId start count nonce w') ∧
        ∀ txid, Fresh P serverView txid w → Fresh P serverView txid w' := by
  rw [Parties.preprocess]
  apply (returns_onClient (returns_startSignaturePreprocessing h.client hkey.client h.algorithm
    h.size h.members hclient hrange)).bind
  intro RCommitments u hu
  obtain ⟨⟨hlength, hkeys, array, harray, hholds⟩, hservers⟩ := hu
  have hphase := returns_eachServer (w := u) h.nonempty (f := fun i =>
    AsymmetricEddsaCosignerServer.storePresigningData (P.server i) keyId request start count total
      P.players P.clientId RCommitments) fun i hi => by
    have hnew : (serverView i (u.servers i)).preprocessed keyId = none := by
      rw [hservers]
      exact hserver i hi
    have hkey' : StoresKey (P.server i).keyPersistency keyId tenant metadata (key i)
        (u.servers i) := by
      rw [hservers]
      exact hkey.server i hi
    have hmem := mem_players_server hi
    exact returns_storePresigningData (h.server i hi) hkey' (h.tenant i hmem) h.algorithm h.size
      ((h.isClientId i hmem _ mem_players_client).2 rfl)
      (fun j hj => ⟨h.members j hj, (h.isClientId i hmem j hj).1⟩) hnew hlength hrange
  apply hphase.bind
  intro _ v hv
  obtain ⟨hclient', -, -, hstored⟩ := hv
  apply returns_pure
  have hid := h.id _ mem_players_client
  refine ⟨⟨?_, fun i hi => ?_, hkey.publicKey⟩, ?_, fun txid hfresh i hi => ?_⟩
  · rw [hclient']
    exact hkey.client.of_sameKeys hkeys
  · obtain ⟨_, hleaves, -⟩ := hstored i hi
    rw [hservers] at hleaves
    exact (hkey.server i hi).of_sameKeys hleaves.1
  · rw [← hlength] at hstored ⊢
    have hnonce : ∀ j, ∃ k, start ≤ j → j < start + RCommitments.length →
        array.entry j = some k ∧ beValue k.value.val < order ∧
          RCommitments[j - start]? = some (nonceCommitment P.client keyId j k) := by
      intro j
      by_cases hj : start ≤ j ∧ j < start + RCommitments.length
      · obtain ⟨k, hk⟩ := hholds (j - start) (by omega)
        have hindex : start + (j - start) = j := by omega
        rw [hindex] at hk
        exact ⟨k, fun _ _ => hk⟩
      · exact ⟨⟨0, zeroBytes 32⟩, fun hle hlt => absurd ⟨hle, hlt⟩ hj⟩
    choose nonce hnonce using hnonce
    refine ⟨nonce, fun j hle hlt => (hnonce j hle hlt).2.1, ⟨array, ?_, fun j hle hlt =>
      (hnonce j hle hlt).1⟩, fun i hi => ?_⟩
    · rw [hclient']
      exact harray
    · obtain ⟨array', hleaves, hentries⟩ := hstored i hi
      refine ⟨array', ?_, fun j hle hlt => ?_⟩
      · rw [hleaves.2, ServerStore.preprocessed_setPreprocessed]
      · have hentry := hentries (j - start) (by omega)
        have hindex : start + (j - start) = j := by omega
        rw [hindex, (hnonce j hle hlt).2.2, nonceCommitment] at hentry
        have hid' : P.client.service.getIdFromKeyid keyId = P.clientId := hid
        rw [hentry, hid']
        rfl
  · obtain ⟨array', hleaves, -⟩ := hstored i hi
    rw [hleaves.2, hservers]
    exact hfresh i hi

end Preprocessing

section Signing
variable {P : Parties σ τ} {clientView : τ → ClientStore} {serverView : ℕ → σ → ServerStore}
variable {keyId tenant txid : ByteString} {metadata : CmpKeyMetadata}
variable {flags : ByteString → ℕ → ℕ} {key : ℕ → Ed25519Scalar} {w : System σ τ}
variable {data : SigningData} {metadataJson : ByteString} {players : Finset ByteString}
variable {index : ℕ}

/-- The record of a block once the point of all servers is known. -/
def summedRecord (E : Ed25519) (k : DrawnScalar) (Q : E.Point) (block : SigningBlockData)
    (flags : ℕ) : AsymmetricEddsaSignatureData :=
  { offlineRecord E k block flags with R := Ed25519Point.generic (E.encode Q) }

/-- The sum of the servers' points. -/
def nonceSum (P : Parties σ τ) (k : ℕ → DrawnScalar) : P.algebra.Point :=
  ∑ i ∈ P.serverIds, beValue (k i).value.val • P.algebra.base

def sumPoints (P : Parties σ τ) (k : ℕ → DrawnScalar) (blocks : ℕ) : List EllipticCurvePoint :=
  (List.range blocks).map fun _ => Ed25519Point.generic (P.algebra.encode (nonceSum P k))

/-- The servers' stores when the client is about to sign. -/
def Summed (P : Parties σ τ) (serverView : ℕ → σ → ServerStore) (keyId txid : ByteString)
    (data : SigningData) (flags : ℕ → ℕ) (block : ℕ → SigningBlockData) (index : ℕ)
    (k : ℕ → DrawnScalar) (w w' : System σ τ) : Prop :=
  ∀ i ∈ P.serverIds, SameKeys (P.serverKeys i) (w.servers i) (w'.servers i) ∧
    (serverView i (w'.servers i)).preprocessed = (serverView i (w.servers i)).preprocessed ∧
    (serverView i (w'.servers i)).signingData txid = some (session keyId data.chaincode P.players
      index data.blocks.length fun j =>
        summedRecord P.algebra (k i) (nonceSum P k) (block j) (flags j))

/-- A server's own point and those of the others. -/
theorem own_add_others (P : Parties σ τ) (k : ℕ → DrawnScalar) {i : ℕ} (hi : i ∈ P.serverIds) :
    beValue (k i).value.val • P.algebra.base +
      ∑ j ∈ P.serverIds, (if j = i then 0 else beValue (k j).value.val • P.algebra.base) =
        nonceSum P k :=
  add_sum_others P.serverIds (fun j => beValue (k j).value.val • P.algebra.base) hi

/-- What the servers hold after the first phase. -/
structure Offline (P : Parties σ τ) (serverView : ℕ → σ → ServerStore) (keyId txid : ByteString)
    (data : SigningData) (flags : ℕ → ℕ) (block : ℕ → SigningBlockData) (index : ℕ)
    (k : ℕ → DrawnScalar) (w u : System σ τ) : Prop where
  leaves : ∀ i ∈ P.serverIds, Leaves (P.serverKeys i) (serverView i)
    ((serverView i (w.servers i)).setSigningData txid (some (session keyId data.chaincode P.players
      index data.blocks.length fun j => offlineRecord P.algebra (k i) (block j) (flags j))))
    (w.servers i) (u.servers i)

/-- A server's commitments to its points. -/
def commitmentsOf (P : Parties σ τ) (txid : ByteString) (index blocks : ℕ)
    (k : ℕ → DrawnScalar) (i : ℕ) : List EddsaCommitment :=
  (List.range blocks).map fun j => commitToR P.hash txid (j + index) i
    (P.algebra.encode (beValue (k i).value.val • P.algebra.base))

theorem card_eq_size_table {V : Type}
    (h : Honest P clientView serverView keyId tenant metadata flags) (value : ℕ → V) :
    P.players.card = (table P.serverIds value).size + 1 := by
  rw [size_table, h.card_players]

theorem client_or_mem_table {V : Type}
    (h : Honest P clientView serverView keyId tenant metadata flags) {i : ℕ}
    (hi : i ∈ P.serverIds) (value : ℕ → V) :
    ∀ j ∈ P.players, (P.server i).service.isClientId j ∨ j ∈ table P.serverIds value := by
  intro j hj
  rcases Finset.mem_insert.1 hj with rfl | hj
  · exact Or.inl ((h.isClientId i (mem_players_server hi) _ mem_players_client).2 rfl)
  · exact Or.inr (mem_table.2 hj)

/-- Several servers commit to their points, reveal them and add them up. -/
theorem returns_revealAndSum (h : Honest P clientView serverView keyId tenant metadata flags)
    (hkey : SharesKey P keyId tenant metadata key w) (hfresh : Fresh P serverView txid w)
    {block : ℕ → SigningBlockData} {k : ℕ → DrawnScalar} {u : System σ τ}
    (hu : Offline P serverView keyId txid data (flags metadataJson) block index k w u) :
    Returns (do
      let Rs ← P.eachServer fun i => AsymmetricEddsaCosignerServer.decommitR (P.server i) txid
        (table P.serverIds (commitmentsOf P txid index data.blocks.length k))
      let sums ← P.eachServer fun i => AsymmetricEddsaCosignerServer.broadcastR (P.server i) txid Rs
      pure (sums.map fun _ out => out.Rs)) u fun Rs w' =>
      w'.client = u.client ∧
        Rs = table P.serverIds (fun i => ⟨sumPoints P k data.blocks.length,
          commitToRs P.hash txid i (sumPoints P k data.blocks.length)⟩) ∧
        Summed P serverView keyId txid data (flags metadataJson) block index k w w' := by
  have hid : ∀ i ∈ P.serverIds, (P.server i).service.getIdFromKeyid keyId = i :=
    fun i hi => h.id i (mem_players_server hi)
  have htenant : ∀ i ∈ P.serverIds, (P.server i).service.getCurrentTenantid = tenant :=
    fun i hi => h.tenant i (mem_players_server hi)
  have hdata : ∀ i ∈ P.serverIds, (serverView i (u.servers i)).signingData txid =
      some (session keyId data.chaincode P.players index data.blocks.length fun j =>
        offlineRecord P.algebra (k i) (block j) (flags metadataJson j)) := fun i hi => by
    rw [(hu.leaves i hi).2, ServerStore.signingData_setSigningData]
  have hkey' : ∀ i ∈ P.serverIds, StoresKey (P.serverKeys i) keyId tenant metadata (key i)
      (u.servers i) := fun i hi => (hkey.server i hi).of_sameKeys (hu.leaves i hi).1
  have hdecommit := returns_eachServer (w := u) h.nonempty (f := fun i =>
    AsymmetricEddsaCosignerServer.decommitR (P.server i) txid
      (table P.serverIds (commitmentsOf P txid index data.blocks.length k))) fun i hi =>
    returns_decommitR (hdata i hi) (hkey' i hi) (htenant i hi) (h.server i hi)
      (by rw [(hu.leaves i hi).2, ServerStore.commitments_setSigningData, (hfresh i hi).2])
      (card_eq_size_table h _) (client_or_mem_table h hi _)
      (fun c hc => by
        rw [(mem_toList_table.1 hc).2, commitmentsOf, List.length_map, List.length_range])
      (by
        rw [hid i hi, getElem?_table_of_mem hi]
        simp only [ed25519_offlineRecord]
        rfl)
  apply hdecommit.bind
  intro _ v hv
  obtain ⟨hclient, Rs, rfl, hposts⟩ := hv
  have hRs : table P.serverIds Rs =
      table P.serverIds (fun i => ownPoints P.algebra (k i) data.blocks.length) :=
    table_congr fun i hi => (hposts i hi).1
  rw [hRs]
  have hview : ∀ i ∈ P.serverIds, serverView i (v.servers i) =
      (serverView i (u.servers i)).setCommitments txid
        (some (table P.serverIds (commitmentsOf P txid index data.blocks.length k))) :=
    fun i hi => (hposts i hi).2.2
  have haggregate : ∀ i ∈ P.serverIds, AsymmetricEddsaCosignerServer.aggregatePlayers P.algebra
      P.hash txid index i (table P.serverIds (fun i => ownPoints P.algebra (k i) data.blocks.length))
      (table P.serverIds (commitmentsOf P txid index data.blocks.length k)).toList
      ((List.range data.blocks.length).map fun j =>
        offlineRecord P.algebra (k i) (block j) (flags metadataJson j)) =
      .ok ((List.range data.blocks.length).map fun j =>
        summedRecord P.algebra (k i) (nonceSum P k) (block j) (flags metadataJson j)) := by
    intro i hi
    have hsum := @aggregatePlayers_eq P.algebra P.hash txid index i data.blocks.length
      (table P.serverIds (fun i => ownPoints P.algebra (k i) data.blocks.length))
      (table P.serverIds (commitmentsOf P txid index data.blocks.length k)).toList
      (fun j => offlineRecord P.algebra (k i) (block j) (flags metadataJson j))
      (fun _ => beValue (k i).value.val • P.algebra.base)
      (fun i' _ => beValue (k i').value.val • P.algebra.base) (fun _ _ => rfl) (by
        intro e he
        obtain ⟨hmem, hvalue⟩ := mem_toList_table.1 he
        refine ⟨_, getElem?_table_of_mem hmem, fun j hj => ⟨?_, ?_⟩⟩
        · rw [ownPoints, List.getElem?_map, List.getElem?_range hj]
          rfl
        · rw [hvalue, commitmentsOf, List.getElem?_map, List.getElem?_range hj]
          rfl)
    rw [hsum]
    refine congrArg Except.ok (List.map_congr_left fun j _ => ?_)
    rw [sum_toList_table, own_add_others P k hi]
    rfl
  have hbroadcast := returns_eachServer (w := v) h.nonempty (f := fun i =>
    AsymmetricEddsaCosignerServer.broadcastR (P.server i) txid
      (table P.serverIds (fun i => ownPoints P.algebra (k i) data.blocks.length))) fun i hi =>
    returns_broadcastR (by
        rw [hview i hi, ServerStore.signingData_setCommitments]
        exact hdata i hi)
      ((hkey' i hi).of_sameKeys (hposts i hi).2.1) (htenant i hi) (h.server i hi)
      (by rw [hview i hi, ServerStore.commitments_setCommitments])
      (card_eq_size_table h _) (client_or_mem_table h hi _)
      (fun r hr => by
        rw [(mem_toList_table.1 hr).2, ownPoints, List.length_map, List.length_range])
      (by
        rw [hid i hi]
        exact haggregate i hi)
  apply hbroadcast.bind
  intro _ w' hw'
  obtain ⟨hclient', out, rfl, hposts'⟩ := hw'
  apply returns_pure
  refine ⟨hclient'.trans hclient, ?_, fun i hi => ?_⟩
  · rw [map_table]
    apply table_congr
    intro i hi
    have hout := (hposts' i hi).1
    rw [hid i hi] at hout
    exact hout
  · obtain ⟨-, hkeys, hdata', hpreprocessed⟩ := hposts' i hi
    refine ⟨(hu.leaves i hi).1.trans ((hposts i hi).2.1.trans hkeys), ?_, hdata'⟩
    rw [hpreprocessed, hview i hi, (hu.leaves i hi).2]
    rfl

theorem returns_sumNonces (h : Honest P clientView serverView keyId tenant metadata flags)
    (hkey : SharesKey P keyId tenant metadata key w) (hfresh : Fresh P serverView txid w)
    (hrequest : Requested data)
    (hauthorized : ∀ i ∈ P.serverIds,
      (P.service i).onStartSigning keyId txid data metadataJson players = .ok ())
    {block : ℕ → SigningBlockData} (hblock : data.blocks = (List.range data.blocks.length).map block)
    (hindex : index < 2 ^ 32) :
    Returns (P.sumNonces keyId txid data metadataJson players index) w fun Rs w' =>
      w'.client = w.client ∧ ∃ k,
        Rs = table P.serverIds (fun i => ⟨sumPoints P k data.blocks.length,
          commitToRs P.hash txid i (sumPoints P k data.blocks.length)⟩) ∧
        Summed P serverView keyId txid data (flags metadataJson) block index k w w' := by
  have hoffline := returns_eachServer (w := w) h.nonempty (f := fun i =>
    AsymmetricEddsaCosignerServer.eddsaSignOffline (P.server i) keyId txid data metadataJson players
      P.players index) fun i hi =>
    returns_eddsaSignOffline (h.server i hi) (hkey.server i hi) (h.tenant i (mem_players_server hi))
      h.algorithm h.n.symm h.two_le h.members (hauthorized i hi) hblock hrequest.blocks
      (hfresh i hi).1 hindex
  rw [Parties.sumNonces]
  apply hoffline.bind
  intro _ u hu
  obtain ⟨hclient, out, rfl, hposts⟩ := hu
  have hk : ∀ i, ∃ k : DrawnScalar, i ∈ P.serverIds → _ := fun i => by
    by_cases hi : i ∈ P.serverIds
    · obtain ⟨k, hk⟩ := hposts i hi
      exact ⟨k, fun _ => hk⟩
    · exact ⟨⟨0, zeroBytes 32⟩, fun hi' => absurd hi' hi⟩
  choose k hk using hk
  have hid : ∀ i ∈ P.serverIds, (P.server i).service.getIdFromKeyid keyId = i :=
    fun i hi => h.id i (mem_players_server hi)
  have hflags : ∀ i ∈ P.serverIds, (P.server i).service.fillSigningInfoFromMetadata = flags :=
    fun i hi => h.flags i (mem_players_server hi)
  have hu : Offline P serverView keyId txid data (flags metadataJson) block index k w u := by
    refine ⟨fun i hi => ?_⟩
    have hleaves := (hk i hi).1
    rw [hflags i hi] at hleaves
    exact hleaves
  have hn : metadata.n = P.serverIds.card + 1 := by rw [h.n, h.card_players]
  by_cases hone : P.serverIds.card = 1
  · -- The only server's point is the sum.
    obtain ⟨first, hfirst⟩ := Finset.card_eq_one.1 hone
    have hown : ∀ i ∈ P.serverIds,
        nonceSum P k = beValue (k i).value.val • P.algebra.base := by
      intro i hi
      rw [hfirst, Finset.mem_singleton] at hi
      rw [nonceSum, hfirst, Finset.sum_singleton, hi]
    rw [if_pos hone]
    apply returns_pure
    refine ⟨hclient, k, ?_, fun i hi => ?_⟩
    · rw [map_table]
      apply table_congr
      intro i hi
      have hout := (hk i hi).2.1 (by omega)
      rw [hid i hi] at hout
      rw [hout, sumPoints, hown i hi]
      rfl
    · obtain ⟨hkeys, hview⟩ := hu.leaves i hi
      refine ⟨hkeys, by rw [hview]; rfl, ?_⟩
      rw [hview, ServerStore.signingData_setSigningData, hown i hi]
      rfl
  · have hcommitments : ((table P.serverIds out).map fun _ out => out.RCommitments) =
        table P.serverIds (commitmentsOf P txid index data.blocks.length k) := by
      rw [map_table]
      apply table_congr
      intro i hi
      have hout := (hk i hi).2.2 (by omega)
      rw [hid i hi] at hout
      exact hout
    rw [if_neg hone, hcommitments]
    apply (returns_revealAndSum h hkey hfresh hu).imp
    intro Rs w' hw'
    exact ⟨hw'.1.trans hclient, k, hw'.2.1, hw'.2.2⟩

/-- What a block is signed with: its flags, the client's nonce, the tweak and the derived key. -/
structure BlockValues (P : Parties σ τ) where
  block : SigningBlockData
  flags : ℕ
  nonce : DrawnScalar
  delta : Ed25519Scalar
  A : P.algebra.Point

namespace BlockValues
variable (b : BlockValues P) (key : ℕ → Ed25519Scalar) (k : ℕ → DrawnScalar)

/-- The point of the signature. -/
def point : P.algebra.Point := nonceSum P k + beValue b.nonce.value.val • P.algebra.base

def hram : Ed25519LeScalar :=
  blockHram P.hash (P.algebra.encode (b.point k)) (P.algebra.encode b.A) b.block.data b.flags

def clientShare : ℕ :=
  shareValue (b.hram k) (key P.clientId) b.delta (swapBytes b.nonce.value)

def serverShare (i : ℕ) : ℕ := shareValue (b.hram k) (key i) b.delta (swapBytes (k i).value)

def clientSig : EddsaSignature :=
  ⟨P.algebra.encode (beValue b.nonce.value.val • P.algebra.base),
    beBytes 32 (b.clientShare key k)⟩

/-- The signature of the only server. -/
def finalSig (i : ℕ) : EddsaSignature :=
  ⟨P.algebra.encode (b.point k),
    leBytes 32 ((b.serverShare key k i + b.clientShare key k) % order)⟩

/-- What a server among several sends: the first adds the client's share. -/
def sentSig (first i : ℕ) : EddsaSignature :=
  ⟨P.algebra.encode (b.point k), beBytes 32 (if first = i then
    (b.serverShare key k i + b.clientShare key k) % order else b.serverShare key k i)⟩

structure Good (metadata : CmpKeyMetadata) (chaincode : HDChaincode) : Prop where
  keys : BlockKeys P.algebra P.hash metadata chaincode P.players.card b.block.path
    (∑ i ∈ P.players, beValue (key i).val) b.delta b.A
  signable : Signable b.block.data
  lt : beValue b.nonce.value.val < order

variable {b key k} {chaincode : HDChaincode}

theorem beValue_clientSig : beValue (b.clientSig key k).s.val = b.clientShare key k :=
  beValue_beBytes_mod _

theorem beValue_sentSig (first i : ℕ) : beValue (b.sentSig key k first i).s.val =
    if first = i then (b.serverShare key k i + b.clientShare key k) % order
    else b.serverShare key k i := by
  by_cases hi : first = i
  · simp only [sentSig, hi, if_true]
    exact beValue_beBytes_mod _
  · simp only [sentSig, hi, if_false]
    exact beValue_beBytes_mod _

theorem beValue_sentSig_lt (first i : ℕ) :
    beValue (b.sentSig key k first i).s.val < order := by
  rw [beValue_sentSig]
  split
  · exact Nat.mod_lt _ order_pos
  · exact ServerBlockLaws.shareValue_lt _ _ _ _

theorem Good.client (hb : b.Good key metadata chaincode) :
    AsymmetricEddsaCosignerClient.signBlock P.algebra P.hash metadata (key P.clientId) chaincode
        P.players.card b.flags b.block b.nonce
        (Ed25519Point.generic (P.algebra.encode (nonceSum P k))) =
      .ok ⟨b.clientSig key k, b.nonce.draw⟩ := by
  have hsign := client_signBlock hb.keys hb.signable b.flags (key P.clientId) hb.lt
    (ed25519_generic (P.algebra.encode (nonceSum P k)))
  rw [add_comm] at hsign
  exact hsign

theorem Good.final (hb : b.Good key metadata chaincode) (i : ℕ) (addClientShare : Bool) :
    AsymmetricEddsaCosignerServer.signBlock P.algebra P.hash metadata (key i) chaincode
        P.players.card true addClientShare (b.clientSig key k)
        (summedRecord P.algebra (k i) (nonceSum P k) b.block b.flags) =
      .ok (b.finalSig key k i, summedRecord P.algebra (k i) (nonceSum P k) b.block b.flags) := by
  have hlt : beValue (b.clientSig key k).s.val < order := by
    rw [beValue_clientSig]
    exact ServerBlockLaws.shareValue_lt _ _ _ _
  have hsign := server_signBlock_final
    (d := summedRecord P.algebra (k i) (nonceSum P k) b.block b.flags) hb.keys hb.signable
    (ed25519_generic _) (rfl : (b.clientSig key k).R = _) hlt (key i) addClientShare
  rw [beValue_clientSig] at hsign
  exact hsign

theorem Good.share (hb : b.Good key metadata chaincode) (first i : ℕ) :
    AsymmetricEddsaCosignerServer.signBlock P.algebra P.hash metadata (key i) chaincode
        P.players.card false (first = i) (b.clientSig key k)
        (summedRecord P.algebra (k i) (nonceSum P k) b.block b.flags) =
      .ok (b.sentSig key k first i,
        summedRecord P.algebra (k i) (b.point k) b.block b.flags) := by
  have hsign := server_signBlock_share
    (d := summedRecord P.algebra (k i) (nonceSum P k) b.block b.flags) hb.keys hb.signable
    (ed25519_generic _) (rfl : (b.clientSig key k).R = _) (key i) (first = i)
  simp only [decide_eq_true_eq, beValue_clientSig] at hsign
  rw [hsign]
  simp only [summedRecord, overwritePoint_generic]
  rfl

/-- A scalar that is the sum of all shares makes a signature that verifies. -/
theorem Good.verify (hb : b.Good key metadata chaincode) (hapart : P.clientId ∉ P.serverIds)
    {s : Ed25519LeScalar} (hs : leValue s.val < order)
    (hsum : leValue s.val • P.algebra.base = ∑ i ∈ P.serverIds, b.serverShare key k i •
      P.algebra.base + b.clientShare key k • P.algebra.base) :
    ed25519Verify P.algebra P.hash b.block.data (P.algebra.encode (b.point k)) s
      (P.algebra.encode b.A) (eddsaKeccak b.flags) = true := by
  apply verify_of_sum hb.keys hb.signable b.flags hs
  rw [hsum]
  simp only [serverShare, clientShare]
  rw [sum_shareValue hapart]
  simp only [leValue_swapBytes, Finset.sum_smul, point, nonceSum]
  rfl

end BlockValues

/-- The values of the blocks of a request. -/
theorem exists_blockValues (h : Honest P clientView serverView keyId tenant metadata flags)
    (hkey : SharesKey P keyId tenant metadata key w) (hrequest : Requested data)
    (nonce : ℕ → DrawnScalar)
    (hnonce : ∀ j < data.blocks.length, beValue (nonce j).value.val < order) (flags : ℕ → ℕ) :
    ∃ b : ℕ → BlockValues P, data.blocks = (List.range data.blocks.length).map (b · |>.block) ∧
      (∀ j, (b j).flags = flags j ∧ (b j).nonce = nonce j) ∧
      ∀ j < data.blocks.length, (b j).Good key metadata data.chaincode := by
  have hblock : ∀ j, ∃ b : BlockValues P, b.block = data.blocks.getD j ⟨[], []⟩ ∧
      (b.flags = flags j ∧ b.nonce = nonce j) ∧
        (j < data.blocks.length → b.Good key metadata data.chaincode) := by
    intro j
    have hpath : ∀ c ∈ (data.blocks.getD j ⟨[], []⟩).path, isHardened c = false := by
      by_cases hj : j < data.blocks.length
      · rw [List.getD_eq_getElem _ _ hj]
        rcases hrequest.paths _ (List.getElem_mem hj) with hnil | ⟨-, hpath⟩
        · rw [hnil]
          exact fun c hc => absurd hc List.not_mem_nil
        · exact hpath
      · rw [List.getD_eq_default _ _ (by omega)]
        exact fun c hc => absurd hc List.not_mem_nil
    obtain ⟨delta, A, hkeys⟩ :=
      exists_blockKeys (H := P.hash) hkey.publicKey data.chaincode h.two_le h.card hpath
    refine ⟨⟨data.blocks.getD j ⟨[], []⟩, flags j, nonce j, delta, A⟩, rfl, ⟨rfl, rfl⟩,
      fun hj => ⟨hkeys, ?_, hnonce j hj⟩⟩
    rw [List.getD_eq_getElem _ _ hj]
    exact hrequest.messages _ (List.getElem_mem hj)
  choose b hb using hblock
  refine ⟨b, ?_, fun j => (hb j).2.1, fun j => (hb j).2.2⟩
  apply List.ext_getElem?
  intro j
  rw [List.getElem?_map]
  by_cases hj : j < data.blocks.length
  · rw [List.getElem?_range hj, Option.map_some, (hb j).1, List.getD_eq_getElem _ _ hj,
      List.getElem?_eq_getElem hj]
  · rw [List.getElem?_eq_none (by omega), List.getElem?_eq_none (by rw [List.length_range]; omega)]
    rfl

/-- The client's shares of a session. -/
theorem returns_clientSigns (h : Honest P clientView serverView keyId tenant metadata flags)
    {c : τ} (hkey : StoresKey P.clientKeys keyId tenant metadata (key P.clientId) c)
    (hmax : data.blocks.length ≤ maxBlocksToSign) {array : ConsumeOnceArray DrawnScalar}
    (harray : clientView c keyId = some array) {b : ℕ → BlockValues P}
    (hblocks : data.blocks = (List.range data.blocks.length).map (b · |>.block))
    (hflags : ∀ j, (b j).flags = flags metadataJson j)
    (hentries : ∀ j < data.blocks.length, array.entry (index + j) = some (b j).nonce)
    (hgood : ∀ j < data.blocks.length, (b j).Good key metadata data.chaincode)
    (k : ℕ → DrawnScalar) :
    Returns (AsymmetricEddsaCosignerClient.eddsaSignOffline P.client keyId txid data metadataJson
        players P.players index (table P.serverIds fun i => ⟨sumPoints P k data.blocks.length,
          commitToRs P.hash txid i (sumPoints P k data.blocks.length)⟩)) c fun sigs _ =>
      sigs = (List.range data.blocks.length).map fun j =>
        ⟨(b j).clientSig key k, (b j).nonce.draw⟩ := by
  have hid := h.id _ mem_players_client
  have hlength : (sumPoints P k data.blocks.length).length = data.blocks.length := by
    rw [sumPoints, List.length_map, List.length_range]
  have hservers : ((table P.serverIds fun i => (⟨sumPoints P k data.blocks.length,
      commitToRs P.hash txid i (sumPoints P k data.blocks.length)⟩ : RsAndCommitments)).size : ℤ) =
        metadata.t - 1 := by
    rw [size_table, h.t, h.card_players]
    push_cast
    ring
  have haccepts : ∀ r ∈ (table P.serverIds fun i => (⟨sumPoints P k data.blocks.length,
      commitToRs P.hash txid i (sumPoints P k data.blocks.length)⟩ : RsAndCommitments)).toList,
      r.1 ≠ P.client.service.getIdFromKeyid keyId ∧ r.1 ∈ metadata.playersInfo ∧
        r.2 = ⟨sumPoints P k data.blocks.length,
          commitToRs P.client.hash txid r.1 (sumPoints P k data.blocks.length)⟩ := by
    intro r hr
    obtain ⟨hmem, hvalue⟩ := mem_toList_table.1 hr
    refine ⟨fun heq => h.apart ?_, h.members _ (mem_players_server hmem), hvalue⟩
    rw [← hid]
    exact heq ▸ hmem
  have hsig : ∀ (j : ℕ) block R, data.blocks[j]? = some block →
      (sumPoints P k data.blocks.length)[j]? = some R →
      array.entry (index + j) = some (b j).nonce ∧
        AsymmetricEddsaCosignerClient.signBlock P.client.algebra P.client.hash metadata
          (key P.clientId) data.chaincode P.players.card
          (P.client.service.fillSigningInfoFromMetadata metadataJson j) block (b j).nonce R =
            .ok ⟨(b j).clientSig key k, (b j).nonce.draw⟩ := by
    intro j block R hblock hR
    have hj := (List.getElem?_eq_some_iff.1 hblock).1
    have hb : block = (b j).block := by
      rw [hblocks, List.getElem?_map, List.getElem?_range hj] at hblock
      exact (Option.some.inj hblock).symm
    have hpoint : R = Ed25519Point.generic (P.algebra.encode (nonceSum P k)) := by
      rw [sumPoints, List.getElem?_map, List.getElem?_range hj] at hR
      exact (Option.some.inj hR).symm
    have hflags' : P.client.service.fillSigningInfoFromMetadata metadataJson j = (b j).flags := by
      rw [hflags]
      exact congrFun (congrFun (h.flags _ mem_players_client) metadataJson) j
    refine ⟨hentries j hj, ?_⟩
    rw [hb, hpoint, hflags']
    exact (hgood j hj).client
  apply (returns_eddsaSignOffline h.client hkey (h.tenant _ mem_players_client) h.algorithm
    h.n.symm h.two_le h.members hmax hservers hlength (toList_table_ne_nil h.nonempty) haccepts
    harray hsig).imp
  intro sigs _ hsigs
  exact hsigs.1

/-- The servers' shares of a session, whichever way they are computed. -/
theorem returns_serversSign (h : Honest P clientView serverView keyId tenant metadata flags)
    (hkey : SharesKey P keyId tenant metadata key w) {start count : ℕ} {nonce : ℕ → DrawnScalar}
    (hprepared : Prepared P clientView serverView keyId start count nonce w)
    (hstart : start ≤ index) (hrange : index + data.blocks.length ≤ start + count)
    {b : ℕ → BlockValues P} (hflags : ∀ j, (b j).flags = flags metadataJson j)
    (hnonce : ∀ j, (b j).nonce = nonce (index + j)) {k : ℕ → DrawnScalar} {u : System σ τ}
    (hu : Summed P serverView keyId txid data (flags metadataJson) (b · |>.block) index k w u)
    {sig : ℕ → ℕ → EddsaSignature} {record : ℕ → ℕ → AsymmetricEddsaSignatureData}
    (hsig : ∀ i ∈ P.serverIds, ∀ j < data.blocks.length,
      AsymmetricEddsaCosignerServer.signBlock P.algebra P.hash metadata (key i) data.chaincode
        P.players.card (P.players.card = 2) (P.serverIds.min = i) ((b j).clientSig key k)
        (summedRecord P.algebra (k i) (nonceSum P k) (b j).block (b j).flags) =
          .ok (sig i j, record i j)) :
    Returns (P.eachServer fun i => AsymmetricEddsaCosignerServer.broadcastSi (P.server i) txid
        P.clientId mpcProtocolVersion
        ((List.range data.blocks.length).map fun j => (b j).clientSig key k)) u fun outs v =>
      (outs.map fun _ out => out.sigs) =
          table P.serverIds (fun i => (List.range data.blocks.length).map (sig i)) ∧
        ∀ i ∈ P.serverIds, SameKeys (P.serverKeys i) (w.servers i) (v.servers i) ∧
          (P.players.card ≠ 2 → (serverView i (v.servers i)).signingData txid =
            some (session keyId data.chaincode P.players index data.blocks.length (record i))) := by
  have hphase := returns_eachServer (w := u) h.nonempty (f := fun i =>
    AsymmetricEddsaCosignerServer.broadcastSi (P.server i) txid P.clientId mpcProtocolVersion
      ((List.range data.blocks.length).map fun j => (b j).clientSig key k)) fun i hi => by
    obtain ⟨hkeys, hpreprocessed, hdata⟩ := hu i hi
    obtain ⟨array, harray, hentries⟩ := hprepared.server i hi
    have hid : (P.server i).service.getIdFromKeyid keyId = i := h.id i (mem_players_server hi)
    have hothers : P.players.erase P.clientId ≠ ∅ := by
      rw [h.erase_client]
      exact h.nonempty.ne_empty
    have hopens : ∀ j < data.blocks.length, array.entry (index + j) =
        some (commitToR (P.server i).hash keyId (j + index) P.clientId
          ((b j).clientSig key k).R) := by
      intro j hj
      rw [hentries _ (by omega) (by omega), ← hnonce, Nat.add_comm j index]
      rfl
    have hsign : ∀ j < data.blocks.length, AsymmetricEddsaCosignerServer.signBlock
        (P.server i).algebra (P.server i).hash metadata (key i) data.chaincode P.players.card
        (P.players.card = 2) ((P.players.erase P.clientId).min =
          (P.server i).service.getIdFromKeyid keyId) ((b j).clientSig key k)
        (summedRecord P.algebra (k i) (nonceSum P k) (b j).block (flags metadataJson j)) =
          .ok (sig i j, record i j) := by
      intro j hj
      rw [hid, h.erase_client, ← hflags]
      exact hsig i hi j hj
    exact returns_broadcastSi hdata ((hkey.server i hi).of_sameKeys hkeys)
      (h.tenant i (mem_players_server hi)) (h.server i hi) mem_players_client
      (h.members _ mem_players_client) hothers (by rw [hpreprocessed, harray]) hopens hsign
  apply hphase.imp
  intro _ v hv
  obtain ⟨-, out, rfl, hposts⟩ := hv
  refine ⟨?_, fun i hi => ⟨(hu i hi).1.trans (hposts i hi).2.1, (hposts i hi).2.2⟩⟩
  rw [map_table]
  exact table_congr fun i hi => (hposts i hi).1

/-- The sum of what the servers have sent for a block. -/
theorem exists_completedSignature {b : BlockValues P} (hapart : P.clientId ∉ P.serverIds)
    {chaincode : HDChaincode} (hb : b.Good key metadata chaincode) {k : ℕ → DrawnScalar}
    {first : ℕ} (hfirst : first ∈ P.serverIds) {sent : ℕ → List EddsaSignature} {index : ℕ}
    (hsent : ∀ i ∈ P.serverIds, (sent i)[index]? = some (b.sentSig key k first i)) (i : ℕ) :
    ∃ sig, AsymmetricEddsaCosignerServer.finalizeBlock P.algebra P.hash metadata chaincode
        (table P.serverIds sent) (summedRecord P.algebra (k i) (b.point k) b.block b.flags) index =
          .ok sig ∧
      ed25519Verify P.algebra P.hash b.block.data sig.R sig.s (P.algebra.encode b.A)
        (eddsaKeccak b.flags) = true := by
  have hpoint : (summedRecord P.algebra (k i) (b.point k) b.block b.flags).R.ed25519 =
      P.algebra.encode (b.point k) := ed25519_generic _
  have hshare : ∀ e ∈ (table P.serverIds sent).toList,
      e.2[index]? = some (b.sentSig key k first e.1) ∧
        (b.sentSig key k first e.1).R =
          (summedRecord P.algebra (k i) (b.point k) b.block b.flags).R.ed25519 ∧
        beValue (b.sentSig key k first e.1).s.val < order := by
    intro e he
    obtain ⟨hmem, hvalue⟩ := mem_toList_table.1 he
    rw [hvalue, hpoint]
    exact ⟨hsent _ hmem, rfl, BlockValues.beValue_sentSig_lt _ _⟩
  obtain ⟨s, hs, hlt, hsum⟩ := exists_finalizeBlock
    (d := summedRecord P.algebra (k i) (b.point k) b.block b.flags) hb.keys
    (b.sentSig key k first) hshare
  refine ⟨_, hs, ?_⟩
  rw [hpoint]
  apply hb.verify hapart hlt
  rw [hsum, sum_toList_table]
  simp only [BlockValues.beValue_sentSig]
  exact sum_addedOnce hfirst _ _

/-- Signatures of all blocks that verify, in the hands of every server. -/
theorem allVerify_table {b : ℕ → BlockValues P}
    (hblocks : data.blocks = (List.range data.blocks.length).map (b · |>.block))
    (hgood : ∀ j < data.blocks.length, (b j).Good key metadata data.chaincode)
    {flags : ℕ → ℕ} (hflags : ∀ j, (b j).flags = flags j) {sig : ℕ → ℕ → EddsaSignature}
    (hsig : ∀ i ∈ P.serverIds, ∀ j < data.blocks.length,
      ed25519Verify P.algebra P.hash (b j).block.data (sig i j).R (sig i j).s
        (P.algebra.encode (b j).A) (eddsaKeccak (b j).flags) = true) :
    AllVerify P metadata data flags
      (table P.serverIds fun i => (List.range data.blocks.length).map (sig i)) := by
  intro i hi
  refine ⟨_, getElem?_table_of_mem hi, by rw [List.length_map, List.length_range], ?_⟩
  intro j block s hblock hs
  have hj := (List.getElem?_eq_some_iff.1 hblock).1
  rw [hblocks, List.getElem?_map, List.getElem?_range hj] at hblock
  rw [List.getElem?_map, List.getElem?_range hj] at hs
  obtain rfl := Option.some.inj hblock
  obtain rfl := Option.some.inj hs
  refine ⟨_, (hgood j hj).keys.publicKey, ?_⟩
  rw [ed25519_generic, ← hflags]
  exact hsig i hi j hj

/-- A session of parties that have preprocessed ends with signatures that verify. -/
theorem returns_eddsaSign (h : Honest P clientView serverView keyId tenant metadata flags)
    (hkey : SharesKey P keyId tenant metadata key w) (hfresh : Fresh P serverView txid w)
    {start count : ℕ} {nonce : ℕ → DrawnScalar}
    (hprepared : Prepared P clientView serverView keyId start count nonce w)
    (hrequest : Requested data)
    (hauthorized : ∀ i ∈ P.serverIds,
      (P.service i).onStartSigning keyId txid data metadataJson players = .ok ())
    (hstart : start ≤ index) (hrange : index + data.blocks.length ≤ start + count)
    (hindex : index < 2 ^ 32) :
    Returns (P.eddsaSign keyId txid data metadataJson players index) w fun sigs _ =>
      AllVerify P metadata data (flags metadataJson) sigs := by
  obtain ⟨b, hblocks, hvalues, hgood⟩ := exists_blockValues h hkey hrequest
    (fun j => nonce (index + j)) (fun j hj => hprepared.lt _ (by omega) (by omega))
    (flags metadataJson)
  have hflags : ∀ j, (b j).flags = flags metadataJson j := fun j => (hvalues j).1
  have hnonce : ∀ j, (b j).nonce = nonce (index + j) := fun j => (hvalues j).2
  rw [Parties.eddsaSign]
  apply (returns_sumNonces h hkey hfresh hrequest hauthorized hblocks hindex).bind
  intro _ u hu
  obtain ⟨hclient, k, rfl, hsummed⟩ := hu
  obtain ⟨array, harray, hentries⟩ := hprepared.client
  rw [← hclient] at harray
  have hkey' := hkey.client
  rw [← hclient] at hkey'
  apply (returns_onClient (returns_clientSigns h hkey' hrequest.blocks harray hblocks hflags
    (fun j hj => by rw [hnonce]; exact hentries _ (by omega) (by omega)) hgood k)).bind
  intro _ v hv
  obtain ⟨rfl, hservers⟩ := hv
  have hsummed' : Summed P serverView keyId txid data (flags metadataJson) (b · |>.block) index k
      w v := by
    intro i hi
    rw [hservers]
    exact hsummed i hi
  rw [List.map_map]
  by_cases hone : P.serverIds.card = 1
  · have htwo : P.players.card = 2 := by rw [h.card_players, hone]
    have hsign : ∀ i ∈ P.serverIds, ∀ j < data.blocks.length,
        AsymmetricEddsaCosignerServer.signBlock P.algebra P.hash metadata (key i) data.chaincode
          P.players.card (P.players.card = 2) (P.serverIds.min = i) ((b j).clientSig key k)
          (summedRecord P.algebra (k i) (nonceSum P k) (b j).block (b j).flags) =
            .ok ((b j).finalSig key k i,
              summedRecord P.algebra (k i) (nonceSum P k) (b j).block (b j).flags) := by
      intro i _ j hj
      rw [decide_eq_true htwo]
      exact (hgood j hj).final i _
    apply (returns_serversSign h hkey hprepared hstart hrange hflags hnonce hsummed' hsign).bind
    intro outs _ houts
    rw [if_pos hone, houts.1]
    apply returns_pure
    apply allVerify_table hblocks hgood hflags
    intro i hi j hj
    have hs : leValue ((b j).finalSig key k i).s.val =
        ((b j).serverShare key k i + (b j).clientShare key k) % order := leValue_leBytes_mod _
    apply (hgood j hj).verify h.apart
    · rw [hs]
      exact Nat.mod_lt _ order_pos
    · obtain ⟨first, hfirst⟩ := Finset.card_eq_one.1 hone
      rw [hfirst, Finset.mem_singleton] at hi
      rw [hs, mod_order_smul, add_smul, hfirst, Finset.sum_singleton, hi]
  · obtain ⟨first, hfirst⟩ := Finset.min_of_nonempty h.nonempty
    have hmem := Finset.mem_of_min hfirst
    have hcard : P.players.card ≠ 2 := by
      rw [h.card_players]
      omega
    have hsign : ∀ i ∈ P.serverIds, ∀ j < data.blocks.length,
        AsymmetricEddsaCosignerServer.signBlock P.algebra P.hash metadata (key i) data.chaincode
          P.players.card (P.players.card = 2) (P.serverIds.min = i) ((b j).clientSig key k)
          (summedRecord P.algebra (k i) (nonceSum P k) (b j).block (b j).flags) =
            .ok ((b j).sentSig key k first i,
              summedRecord P.algebra (k i) ((b j).point k) (b j).block (b j).flags) := by
      intro i _ j hj
      have hadd : decide (P.serverIds.min = i) = decide (first = i) := by
        rw [hfirst]
        exact decide_eq_decide.2 WithTop.coe_inj
      rw [hadd, decide_eq_false hcard]
      exact (hgood j hj).share first i
    apply (returns_serversSign h hkey hprepared hstart hrange hflags hnonce hsummed' hsign).bind
    intro outs x houts
    obtain ⟨houts, hstates⟩ := houts
    rw [if_neg hone, houts]
    have hsent : ∀ j < data.blocks.length, ∀ i ∈ P.serverIds,
        ((List.range data.blocks.length).map fun j => (b j).sentSig key k first i)[j]? =
          some ((b j).sentSig key k first i) := by
      intro j hj i _
      rw [List.getElem?_map, List.getElem?_range hj]
      rfl
    have hfinal : ∀ i j, ∃ sig, j < data.blocks.length → _ := fun i j => by
      by_cases hj : j < data.blocks.length
      · obtain ⟨sig, hsig⟩ :=
          exists_completedSignature h.apart (hgood j hj) hmem (hsent j hj) i
        exact ⟨sig, fun _ => hsig⟩
      · exact ⟨⟨zeroBytes 32, zeroBytes 32⟩, fun hj' => absurd hj' hj⟩
    choose sig hsig using hfinal
    have hlast := returns_eachServer (w := x) h.nonempty (f := fun i =>
      AsymmetricEddsaCosignerServer.getEddsaSignature (P.server i) txid
        (table P.serverIds fun i =>
          (List.range data.blocks.length).map fun j => (b j).sentSig key k first i)) fun i hi => by
      have hmembers : ∀ j ∈ P.players, (P.server i).service.isClientId j ∨
          (j ∈ (table P.serverIds fun i =>
            (List.range data.blocks.length).map fun j => (b j).sentSig key k first i) ∧
            ((table P.serverIds fun i => (List.range data.blocks.length).map fun j =>
              (b j).sentSig key k first i).getD j []).length = data.blocks.length) := by
        intro j hj
        rcases client_or_mem_table h hi _ j hj with hclient' | hserver
        · exact Or.inl hclient'
        · refine Or.inr ⟨hserver, ?_⟩
          rw [Std.ExtTreeMap.getD_eq_getD_getElem?, getElem?_table_of_mem (mem_table.1 hserver),
            Option.getD_some, List.length_map, List.length_range]
      exact returns_getEddsaSignature ((hstates i hi).2 hcard)
        ((hkey.server i hi).of_sameKeys (hstates i hi).1) (h.tenant i (mem_players_server hi))
        (h.server i hi) (card_eq_size_table h _) hmembers fun j hj => (hsig i j hj).1
    apply hlast.imp
    intro _ _ hend
    obtain ⟨-, sigs, rfl, hsigs⟩ := hend
    rw [table_congr fun i hi => (hsigs i hi).1]
    exact allVerify_table hblocks hgood hflags fun i _ j hj => (hsig i j hj).2

/-- Whatever the number of servers, of blocks and of their paths: after preprocessing, a session
in a part of the preprocessed range ends at every server with signatures that verify under the
derived keys. One server adds the client's share, and the parties' tweaks make up that of the key.
-/
theorem sessions_verify (h : Honest P clientView serverView keyId tenant metadata flags)
    (hkey : SharesKey P keyId tenant metadata key w) (hfresh : Fresh P serverView txid w)
    (hclient : clientView w.client keyId = none)
    (hserver : ∀ i ∈ P.serverIds, (serverView i (w.servers i)).preprocessed keyId = none)
    (hrequest : Requested data)
    (hauthorized : ∀ i ∈ P.serverIds,
      (P.service i).onStartSigning keyId txid data metadataJson players = .ok ())
    {start count total : ℕ} (htotal : start + count ≤ total) (hbits : total < 2 ^ 32)
    (hstart : start ≤ index) (hrange : index + data.blocks.length ≤ start + count)
    (request : ByteString) :
    Returns (do
        P.preprocess tenant keyId request start count total
        P.eddsaSign keyId txid data metadataJson players index) w
        (fun sigs _ => AllVerify P metadata data (flags metadataJson) sigs) ∧
      (∃! i, i ∈ P.serverIds ∧ (P.players.erase P.clientId).min = i) ∧
      ∀ block ∈ data.blocks, ∃ delta A, BlockKeys P.algebra P.hash metadata data.chaincode
        P.players.card block.path (∑ i ∈ P.players, beValue (key i).val) delta A := by
  refine ⟨?_, ?_, fun block hblock => ?_⟩
  · apply (returns_preprocess h hkey hclient hserver request htotal).bind
    intro _ u hu
    obtain ⟨hkey', ⟨nonce, hprepared⟩, hfresh'⟩ := hu
    exact returns_eddsaSign h hkey' (hfresh' txid hfresh) hprepared hrequest hauthorized hstart
      hrange (by omega)
  · obtain ⟨first, hfirst⟩ := Finset.min_of_nonempty h.nonempty
    rw [h.erase_client]
    refine ⟨first, ⟨Finset.mem_of_min hfirst, hfirst⟩, fun i hi => ?_⟩
    exact WithTop.coe_inj.1 (hi.2.symm.trans hfirst)
  · have hpath : ∀ c ∈ block.path, isHardened c = false := by
      rcases hrequest.paths block hblock with hnil | ⟨-, hpath⟩
      · rw [hnil]
        exact fun c hc => absurd hc List.not_mem_nil
      · exact hpath
    exact exists_blockKeys hkey.publicKey data.chaincode h.two_le h.card hpath

private def concreteKey (i : ℕ) : Ed25519Scalar := beBytes 32 i

private def concreteKeyMetadata : CmpKeyMetadata where
  publicKey := Ed25519Point.generic (exponentGroup.encode
    ((∑ i ∈ insert 1 {2, 3}, beValue (concreteKey i).val) • exponentGroup.base))
  algorithm := .eddsaEd25519
  t := 3
  n := 3
  playersInfo := table {1, 2, 3} fun i =>
    ⟨Ed25519Point.generic (exponentGroup.encode (beValue (concreteKey i).val • exponentGroup.base))⟩

/-- A client and two servers over stores that do what their interfaces say. -/
private def concreteParties : Parties ServerStore ClientStore where
  algebra := exponentGroup
  hash := NodeState.prefixHash
  clientId := 1
  serverIds := {2, 3}
  service := NodeState.simplePlatform
  clientKeys := ReferencePersistencies.fixedKeys tenantId concreteKeyMetadata
    (concreteKey 1)
  clientRand := pure (.ok ⟨0, zeroBytes 32⟩)
  preprocessingPersistency := ReferencePersistencies.preprocessingPersistency
  serverKeys i := ReferencePersistencies.fixedKeys tenantId concreteKeyMetadata
    (concreteKey i)
  serverRand _ := pure (.ok ⟨0, zeroBytes 32⟩)
  signingPersistency _ := ReferencePersistencies.signingPersistency

/-- Nothing is stored yet. -/
private def emptySystem : System ServerStore ClientStore :=
  ⟨fun _ => none, fun _ => ⟨fun _ => none, fun _ => none, fun _ => none⟩⟩

private theorem drawsScalars_concrete {σ : Type} (keys : CmpKeyPersistency σ)
    (h : ∀ s t, SameKeys keys s t) :
    DrawsScalars keys id (pure (.ok ⟨0, zeroBytes 32⟩)) := by
  intro s
  exact returns_pure ⟨⟨_, rfl, by decide⟩, h s s, rfl⟩

private theorem concreteParties_honest (keyId : ByteString) :
    Honest concreteParties id (fun _ => id) keyId tenantId concreteKeyMetadata fun _ _ => 0 where
  client := ReferencePersistencies.clientContract rfl (fun _ _ _ => ⟨rfl, rfl, rfl⟩)
    (drawsScalars_concrete _ fun _ _ _ => ⟨rfl, rfl, rfl⟩)
  server _ _ := ReferencePersistencies.serverContract rfl (fun _ _ _ => ⟨rfl, rfl, rfl⟩)
    (drawsScalars_concrete _ fun _ _ _ => ⟨rfl, rfl, rfl⟩)
  id _ _ := rfl
  tenant _ _ := rfl
  isClientId _ _ _ _ := beq_iff_eq
  flags _ _ := rfl
  apart := by decide
  nonempty := ⟨2, by decide⟩
  card := by decide
  algorithm := rfl
  members i hi := mem_table.2 hi
  size := size_table
  n := rfl
  t := rfl

private theorem concreteParties_sharesKey (keyId : ByteString) :
    SharesKey concreteParties keyId tenantId concreteKeyMetadata concreteKey emptySystem where
  client := ⟨rfl, rfl, rfl⟩
  server _ _ := ⟨rfl, rfl, rfl⟩
  publicKey := rfl

private def concreteRequest : SigningData :=
  ⟨zeroBytes 32, [⟨[1], []⟩, ⟨[2], [0, 0, 0, 0, 0]⟩]⟩

private theorem concreteRequest_requested : Requested concreteRequest where
  blocks := by decide
  messages := by
    intro block hblock
    simp only [concreteRequest, List.mem_cons, List.not_mem_nil, or_false] at hblock
    rcases hblock with rfl | rfl
    · exact ⟨by decide, by decide⟩
    · exact ⟨by decide, by decide⟩
  paths := by
    intro block hblock
    simp only [concreteRequest, List.mem_cons, List.not_mem_nil, or_false] at hblock
    rcases hblock with rfl | rfl
    · exact Or.inl rfl
    · exact Or.inr ⟨rfl, by decide⟩

theorem sessions_verify_concrete :
    Returns (do
        concreteParties.preprocess tenantId [0] [] 0 2 2
        concreteParties.eddsaSign [0] [1] concreteRequest [] ∅ 0) emptySystem
        (fun sigs _ => AllVerify concreteParties concreteKeyMetadata concreteRequest (fun _ => 0)
          sigs) := by
  refine (sessions_verify (concreteParties_honest [0]) (concreteParties_sharesKey [0])
    (fun _ _ => ⟨rfl, rfl⟩) rfl (fun _ _ => rfl) concreteRequest_requested (fun _ _ => rfl)
    (le_refl 2) (by decide) (le_refl 0) ?_ []).1
  decide

private theorem not_returns_of_length {message : ByteString} (h : message.length = 2 ^ 32) :
    ¬ Returns (do
      concreteParties.preprocess tenantId [0] [] 0 1 1
      concreteParties.eddsaSign [0] [1] ⟨zeroBytes 32, [⟨message, []⟩]⟩ [] ∅ 0) emptySystem
      fun _ _ => True := by
  rintro ⟨sigs, w, hrun, -⟩
  obtain ⟨_, u, -, hsign⟩ := run_bind_ok_iff.1 hrun
  rw [Parties.eddsaSign] at hsign
  obtain ⟨_, v, -, hsign⟩ := run_bind_ok_iff.1 hsign
  obtain ⟨_, _, hclient, -⟩ := run_bind_ok_iff.1 hsign
  obtain ⟨_, hclient⟩ := run_onClient_ok hclient
  apply size_of_eddsaSignOffline hclient rfl
  rw [h, Nat.mod_self]

/-- A message whose size the 32-bit argument of the hash takes for zero ends every session. -/
theorem sessions_verify_fails :
    Honest concreteParties id (fun _ => id) [0] tenantId concreteKeyMetadata (fun _ _ => 0) ∧
      SharesKey concreteParties [0] tenantId concreteKeyMetadata concreteKey emptySystem ∧
      (List.replicate (2 ^ 32) 0 : ByteString) ≠ [] ∧
      ¬ Returns (do
        concreteParties.preprocess tenantId [0] [] 0 1 1
        concreteParties.eddsaSign [0] [1] ⟨zeroBytes 32, [⟨List.replicate (2 ^ 32) 0, []⟩]⟩ [] ∅ 0)
        emptySystem fun _ _ => True := by
  have hlength : (List.replicate (2 ^ 32) 0 : ByteString).length = 2 ^ 32 := List.length_replicate
  have hpos : 0 < (List.replicate (2 ^ 32) 0 : ByteString).length := hlength.symm ▸ by norm_num
  exact ⟨concreteParties_honest [0], concreteParties_sharesKey [0], List.ne_nil_of_length_pos hpos,
    not_returns_of_length hlength⟩

end Signing

end MpcDemo.SessionSignatures
