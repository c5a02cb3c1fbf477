import MpcDemo.KeySetupSteps

/-!
# The key setup of honest players

The driver of `setup_test.cpp` carries the messages between the players. Whatever their number,
honest players finish the setup with one public key, which is the sum of their shares.
-/

namespace MpcDemo.KeySetupSessions
open ByteStrings Ed25519Algebra CosignerTypes FallibleState TotalRuns NodeState
open SetupService (commitmentHash ackMessage)
open SetupServiceLaws KeySetup KeySetupLaws KeySetupSteps PlayerTables PlayerRounds StoredDraws

variable {A : AuxiliaryScheme}

/-- Some players with what each of them works with. -/
structure Players (A : AuxiliaryScheme) where
  algebra : Ed25519
  hash : HashFunctions
  service : ℕ → PlatformService
  tape : ℕ → Tape
  encryptForPlayer : ℕ → ℕ → ByteString → ℕ → ByteString
  decryptMessage : ℕ → ByteString → ByteString
  backupKey : ℕ → ByteString → CosignerSignAlgorithm → Ed25519Scalar → KeyMetadata A →
    AuxiliaryKeys → Bool
  deriveInitialShare : ℕ → ShareDerivationArgs → CosignerSignAlgorithm →
    Except Failure Ed25519Scalar

namespace Players
variable (P : Players A)

def host (i : ℕ) : SetupHost A where
  algebra := P.algebra
  hash := P.hash
  service := P.service i
  tape := P.tape i
  encryptForPlayer := P.encryptForPlayer i
  decryptMessage := P.decryptMessage i
  backupKey := P.backupKey i
  deriveInitialShare := P.deriveInitialShare i

/-- What the players do once each of them has committed to its share. -/
def finishSetup (players : Finset ℕ) (keyId : ByteString) (commitments : PlayerMap Commitment) :
    EStateM Failure (ℕ → Party A) (PlayerMap (Ed25519Point × CosignerSignAlgorithm)) := do
  let decommitments ← eachPlayer players fun i => storeSetupCommitments (P.host i) keyId commitments
  let proofs ← eachPlayer players fun i => generateSetupProofs (P.host i) keyId decommitments
  let paillierLargeFactorProofs ← eachPlayer players fun i =>
    verifySetupProofs (P.host i) keyId proofs
  eachPlayer players fun i => createSecret (P.host i) keyId paillierLargeFactorProofs

/-- `create_secret` of `setup_test.cpp`, without the calls that are repeated. -/
def createKey (players : Finset ℕ) (keyId : ByteString) :
    EStateM Failure (ℕ → Party A) (PlayerMap (Ed25519Point × CosignerSignAlgorithm)) := do
  let commitments ← eachPlayer players fun i =>
    generateSetupCommitments (P.host i) keyId players.sort players.sort.length ⟨[], []⟩
  P.finishSetup players keyId commitments

end Players

/-- Players that follow the protocol, each under its own id. -/
structure Honest (P : Players A) (players : Finset ℕ) (keyId : ByteString)
    (valid : AuxiliaryKeys → Prop) : Prop where
  nonempty : players.Nonempty
  card : players.card ≤ 255
  id : ∀ i ∈ players, (P.service i).getIdFromKeyid keyId = i
  tenant : ∀ i ∈ players, (P.service i).getCurrentTenantid = tenantId
  draws : ∀ i ∈ players, Draws (P.host i) valid
  backup : ∀ i ∈ players, ∀ algorithm key metadata aux,
    P.backupKey i keyId algorithm key metadata aux = true

/-- A key id that is there and leaves room for what a proof adds to it. -/
def Usable (keyId : ByteString) : Prop := 0 < keyId.length ∧ keyId.length + 40 < 2 ^ 32

/-- The point of the players' shared key. -/
def sharedPoint (E : Ed25519) (players : Finset ℕ) (key : ℕ → Ed25519Scalar) : E.Point :=
  (∑ i ∈ players, beValue (key i).val) • E.base

/-- A player holds its share of a key and the public shares of all. -/
structure HoldsShare (P : Players A) (players : Finset ℕ) (keyId : ByteString)
    (key : ℕ → Ed25519Scalar) (i : ℕ) (p : SetupPersistency A) : Prop where
  loadsKey : p.loadKey keyId = .ok (.eddsaEd25519, key i)
  loadsMetadata : ∃ metadata, p.loadKeyMetadata keyId = .ok metadata ∧
    metadata.publicKey = Ed25519Point.generic (P.algebra.encode (sharedPoint P.algebra players
      key)) ∧
    metadata.algorithm = .eddsaEd25519 ∧ metadata.t = players.card ∧
    metadata.n = players.card ∧ ∀ j, (metadata.playersInfo[j]?.map PlayerInfo.publicShare) =
      if j ∈ players then some (Ed25519Point.generic (P.algebra.encode
        (beValue (key j).val • P.algebra.base))) else none
  setupData : p.setupData keyId = none
  commitments : p.commitments keyId = none

section Tables
variable {players : Finset ℕ}

theorem initialInfo_eq_table (playersIds : Finset ℕ) (t : ℕ) (pubkey : EllipticCurvePoint) :
    (initialMetadata playersIds.sort t pubkey : KeyMetadata A).playersInfo =
      table playersIds fun _ => ⟨zeroBytes 33, none, none⟩ := by
  rw [initialMetadata, table, NodePrograms.ofEntries, List.foldl_map]

theorem getElem?_pointsOf {d : ℕ → SetupDecommitment} {i : ℕ} (hi : i ∈ players) :
    (pointsOf (table players d) ∅)[i]? = some (d i).share.schnorrR := by
  have hpoints : pointsOf (table players d) ∅ = ((table players d).toList.map fun e =>
      (e.1, e.2.share.schnorrR)).foldl (fun m e => m.insert e.1 e.2) ∅ := by
    rw [List.foldl_map]
    rfl
  have hnodup : (((table players d).toList.map fun e => (e.1, e.2.share.schnorrR)).map
      Prod.fst).Nodup := by
    rw [List.map_map]
    exact NodePrograms.nodup_keys _
  rw [hpoints, NetworkManager.getElem?_foldl_insert hnodup]
  exact Or.inl (List.mem_map.2 ⟨(i, d i), mem_toList_table.2 ⟨hi, rfl⟩, rfl⟩)

theorem sharedPoint_eq_sum (E : Ed25519) (players : Finset ℕ) (key : ℕ → Ed25519Scalar) :
    sharedPoint E players key = ∑ i ∈ players, beValue (key i).val • E.base := by
  rw [sharedPoint, Finset.sum_smul]

end Tables

section Setup
variable {P : Players A} {players : Finset ℕ} {keyId : ByteString} {valid : AuxiliaryKeys → Prop}
variable {paillier : AuxiliaryKeys → A.Paillier} {ringPedersen : AuxiliaryKeys → A.RingPedersen}
variable {x : ℕ → Secret} {c : ℕ → Commitment} {w : ℕ → Party A}

/-- What the players show of their secrets. -/
def shown (P : Players A) (players : Finset ℕ) (x : ℕ → Secret) (c : ℕ → Commitment) (i : ℕ) :
    SetupDecommitment :=
  decommitmentOf P.algebra (x i).aux (x i).data (ackMessage P.hash (table players c))

/-- What is known of the players once they have opened their commitments. -/
def knownInfo (paillier : AuxiliaryKeys → A.Paillier)
    (ringPedersen : AuxiliaryKeys → A.RingPedersen) (x : ℕ → Secret) (i : ℕ) : PlayerInfo A :=
  ⟨(x i).data.publicKey, some (paillier (x i).aux), some (ringPedersen (x i).aux)⟩

/-- The metadata of a key between the opening of the commitments and the end. -/
def openedMetadata (P : Players A) (players : Finset ℕ) (paillier : AuxiliaryKeys → A.Paillier)
    (ringPedersen : AuxiliaryKeys → A.RingPedersen) (x : ℕ → Secret) (c : ℕ → Commitment)
    (pubkey : EllipticCurvePoint) : KeyMetadata A where
  publicKey := pubkey
  algorithm := .eddsaEd25519
  t := players.sort.length
  n := players.sort.length % 256
  seed := seedOf (table players (shown P players x c))
  playersInfo := table players (knownInfo paillier ringPedersen x)

/-- The points of the players' proofs. -/
def shownPoints (P : Players A) (players : Finset ℕ) (x : ℕ → Secret) (c : ℕ → Commitment) :
    PlayerMap EllipticCurvePoint :=
  pointsOf (table players (shown P players x c)) ∅

theorem decode_publicKey {i : ℕ} (hgood : (x i).Good (P.host i) keyId valid (c i)) :
    P.algebra.decode (x i).data.publicKey.ed25519 = some ((x i).share P.algebra) := by
  rw [hgood.publicKey, ed25519_generic]
  exact P.algebra.decode_encode _

theorem verifyAndLoad_shown (hA : Complete A valid paillier ringPedersen)
    (hP : Honest P players keyId valid)
    (hgood : ∀ i ∈ players, (x i).Good (P.host i) keyId valid (c i)) (t : ℕ)
    (pubkey : EllipticCurvePoint) :
    verifyAndLoadSetupDecommitments P.hash keyId (table players c)
      (table players (shown P players x c))
      (initialMetadata players.sort t pubkey : KeyMetadata A).playersInfo =
        .ok (table players (knownInfo paillier ringPedersen x)) := by
  rw [initialInfo_eq_table]
  refine @verifyAndLoad_table A P.hash keyId _ players c (shown P players x c)
    (fun i => (paillier (x i).aux, ringPedersen (x i).aux)) (fun i => mem_table) fun i hi =>
      ⟨getElem?_table_of_mem hi, ?_, rfl, hA.deserializes _ (hgood i hi).valid⟩
  have hopens := (hgood i hi).opens (ackMessage P.hash (table players c))
  have hid : (P.host i).service.getIdFromKeyid keyId = i := hP.id i hi
  rw [hid] at hopens
  exact hopens

theorem verifyPlayerProofs_shown {pubkey : EllipticCurvePoint} {proofs : ℕ → SetupZkProofs}
    (hproofs : ∀ i ∈ players, Accepted P.algebra P.hash paillier ringPedersen (x i)
      (buildAad keyId i (seedOf (table players (shown P players x c)))) (proofs i)) (i : ℕ)
    (data : SetupData) {info : ℕ × PlayerInfo A}
    (hinfo : info ∈ (table players (knownInfo paillier ringPedersen x)).toList) :
    verifyPlayerProofs (P.host i) keyId (openedMetadata P players paillier ringPedersen x c pubkey)
      ⟨data, shownPoints P players x c⟩ (table players proofs) info = .ok () := by
  obtain ⟨hj, hknown⟩ := mem_toList_table.1 hinfo
  obtain ⟨hschnorr, hblum, hring⟩ := hproofs info.1 hj
  have hpoint : (shownPoints P players x c)[info.1]? = some ((x info.1).nonce P.algebra) :=
    getElem?_pointsOf hj
  rw [verifyPlayerProofs, getElem?_table_of_mem hj]
  by_cases hown : info.1 = (P.host i).service.getIdFromKeyid keyId
  · simp only [hown, if_true]
  · simp only [hown, if_false, hpoint, hknown]
    exact except_bind_ok_iff.2 ⟨(), hschnorr, except_bind_ok_iff.2 ⟨(), hblum, hring⟩⟩

theorem checkedPublicKey_shown (hzero : EncodesInfinity P.algebra)
    (hgood : ∀ i ∈ players, (x i).Good (P.host i) keyId valid (c i)) {pubkey : EllipticCurvePoint}
    (hpubkey : pubkey = infinityPoint ∨ pubkey = Ed25519Point.generic (P.algebra.encode
      (sharedPoint P.algebra players fun i => (x i).key))) (i : ℕ) :
    checkedPublicKey (P.host i) (openedMetadata P players paillier ringPedersen x c pubkey) =
      .ok (Ed25519Point.generic (P.algebra.encode
        (sharedPoint P.algebra players fun i => (x i).key))) := by
  have hsum : sumShares P.algebra (table players (knownInfo paillier ringPedersen x)) =
      .ok (Ed25519Point.generic (P.algebra.encode
        (sharedPoint P.algebra players fun i => (x i).key))) := by
    rw [sharedPoint_eq_sum]
    exact sumShares_table hzero fun i hi => decode_publicKey (hgood i hi)
  have hsum' : sumShares (P.host i).algebra
      (openedMetadata P players paillier ringPedersen x c pubkey).playersInfo = _ := hsum
  rw [checkedPublicKey, hsum']
  refine if_neg fun hnot => ?_
  rcases hpubkey with h | h
  · exact hnot.1 h.symm
  · exact hnot.2 h.symm

theorem verifyLargeFactors_shown {pubkey : EllipticCurvePoint} {host : SetupHost A} {i j : ℕ}
    (hid : host.service.getIdFromKeyid keyId = i) (hj : j ∈ players) {aux : AuxiliaryKeys}
    {large : PlayerMap ByteString}
    (hlarge : j ≠ i → ∃ proof, large[i]? = some proof ∧
      A.paillierLargeFactorsZkpVerify (some (paillier (x j).aux)) aux (buildAad keyId j
        (seedOf (table players (shown P players x c)))) proof = .ok ()) :
    verifyLargeFactors host keyId (openedMetadata P players paillier ringPedersen x c pubkey) aux
      (j, large) = .ok () := by
  rw [verifyLargeFactors, hid]
  by_cases hown : j = i
  · simp only [hown, if_true]
  · obtain ⟨proof, hproof, haccept⟩ := hlarge hown
    have hinfo : (openedMetadata P players paillier ringPedersen x c pubkey).playersInfo[j]? =
        some (knownInfo paillier ringPedersen x j) := getElem?_table_of_mem hj
    simp only [hown, if_false, hinfo, hproof]
    exact haccept

/-- After the commitments honest players finish the setup. A public key that has been set before is
kept, if it is the sum of the shares. -/
theorem returns_finishSetup (hA : Complete A valid paillier ringPedersen)
    (hP : Honest P players keyId valid) (hkeyId : Usable keyId)
    (hzero : EncodesInfinity P.algebra)
    (hgood : ∀ i ∈ players, (x i).Good (P.host i) keyId valid (c i)) {pubkey : EllipticCurvePoint}
    (hpubkey : pubkey = infinityPoint ∨ pubkey = Ed25519Point.generic (P.algebra.encode
      (sharedPoint P.algebra players fun i => (x i).key)))
    (h : ∀ i ∈ players, Holds keyId (x i) (initialMetadata players.sort players.sort.length pubkey)
      ∅ none (w i).store) :
    Returns (P.finishSetup players keyId (table players c)) w fun out w' =>
      out = table players (fun _ => (P.algebra.encode (sharedPoint P.algebra players fun i =>
        (x i).key), .eddsaEd25519)) ∧ (∀ i, i ∉ players → w' i = w i) ∧
      ∀ i ∈ players, HoldsShare P players keyId (fun i => (x i).key) i (w' i).store := by
  have hid : ∀ i ∈ players, (P.host i).service.getIdFromKeyid keyId = i := hP.id
  rw [Players.finishSetup]
  have hstore := returns_eachPlayer (w := w) hP.nonempty (f := fun i =>
    storeSetupCommitments (P.host i) keyId (table players c)) fun i hi =>
      returns_storeSetupCommitments (hP.tenant i hi) (h i hi) (hgood i hi)
        (by rw [initialInfo_eq_table, size_table, size_table])
        (fun j hj => by
          rw [initialInfo_eq_table, Std.ExtTreeMap.mem_keys, mem_table] at hj
          exact mem_table.2 hj)
        (by rw [hid i hi]; exact getElem?_table_of_mem hi)
  apply hstore.bind
  intro _ w₁ hw₁
  obtain ⟨hothers₁, d, rfl, h₁⟩ := hw₁
  have hd : table players d = table players (shown P players x c) :=
    table_congr fun i hi => (h₁ i hi).1
  rw [hd]
  have hprove := returns_eachPlayer (w := w₁) hP.nonempty (f := fun i =>
    generateSetupProofs (P.host i) keyId (table players (shown P players x c))) fun i hi =>
      returns_generateSetupProofs hA (hP.tenant i hi) hkeyId.2 (hgood i hi) (h₁ i hi).2
        (verifyAndLoad_shown hA hP hgood _ pubkey)
  apply hprove.bind
  intro _ w₂ hw₂
  obtain ⟨hothers₂, proofs, rfl, h₂⟩ := hw₂
  have hproofs : ∀ i ∈ players, Accepted P.algebra P.hash paillier ringPedersen (x i)
      (buildAad keyId i (seedOf (table players (shown P players x c)))) (proofs i) := by
    intro i hi
    have haccepted := (h₂ i hi).1
    rw [hid i hi] at haccepted
    exact haccepted
  let seed := seedOf (table players (shown P players x c))
  let final := openedMetadata P players paillier ringPedersen x c (Ed25519Point.generic
    (P.algebra.encode (sharedPoint P.algebra players fun i => (x i).key)))
  let accepts : ℕ → ℕ → ByteString → Prop := fun i j proof =>
    A.paillierLargeFactorsZkpVerify (some (paillier (x i).aux)) (x j).aux (buildAad keyId i seed)
      proof = .ok ()
  have hverify := returns_eachPlayer (w := w₂) hP.nonempty (f := fun i =>
    verifySetupProofs (P.host i) keyId (table players proofs)) fun i hi =>
      returns_verifySetupProofs (hP.tenant i hi) (h₂ i hi).2
        (by
          show (table players proofs).size =
            (table players (knownInfo paillier ringPedersen x)).size
          rw [size_table, size_table])
        (fun info hinfo => verifyPlayerProofs_shown hproofs i _ hinfo)
        (checkedPublicKey_shown hzero hgood hpubkey i)
        (accepts i) (fun info hinfo n => by
          obtain ⟨hj, hknown⟩ := mem_toList_table.1 hinfo
          rw [hknown, hid i hi]
          exact hA.largeFactors _ _ _ n (hgood i hi).valid (hgood _ hj).valid)
  apply hverify.bind
  intro _ w₃ hw₃
  obtain ⟨hothers₃, large, rfl, h₃⟩ := hw₃
  have hcreate := returns_eachPlayer (w := w₃) hP.nonempty (f := fun i =>
    createSecret (P.host i) keyId (table players large)) fun i hi =>
      returns_createSecret (hP.tenant i hi) (hP.backup i hi _ _ _ _)
        (h₃ i hi).2
        (by
          show (table players large).size = (table players (knownInfo paillier ringPedersen x)).size
          rw [size_table, size_table])
        (fun e he => by
          obtain ⟨j, sent⟩ := e
          obtain ⟨hj, hsent⟩ := mem_toList_table.1 he
          obtain rfl : sent = large j := hsent
          exact verifyLargeFactors_shown (hid i hi) hj fun hother => (h₃ j hj).1
            (i, knownInfo paillier ringPedersen x i) (mem_toList_table.2 ⟨hi, rfl⟩)
            (by rw [hid j hj]; exact Ne.symm hother))
  apply hcreate.imp
  intro _ w₄ hw₄
  obtain ⟨hothers₄, out, rfl, h₄⟩ := hw₄
  have hlength : players.sort.length = players.card := Finset.length_sort (· ≤ ·)
  refine ⟨table_congr fun i hi => ?_, fun i hi => ?_, fun i hi => ?_⟩
  · rw [(h₄ i hi).1]
    simp only [ed25519_generic]
  · rw [hothers₄ i hi, hothers₃ i hi, hothers₂ i hi, hothers₁ i hi]
  · obtain ⟨-, hkeys, hsetupData, hcommitments⟩ := h₄ i hi
    refine ⟨loadKey_eq hkeys, ⟨final, loadKeyMetadata_ok_iff.2 ⟨_, hkeys, rfl⟩, rfl, rfl, hlength,
      ?_, fun j => ?_⟩, hsetupData, hcommitments⟩
    · show players.sort.length % 256 = _
      rw [hlength, Nat.mod_eq_of_lt (hP.card.trans_lt (by decide))]
    · show ((table players (knownInfo paillier ringPedersen x))[j]?.map _) = _
      rw [getElem?_table]
      by_cases hj : j ∈ players
      · rw [if_pos hj, if_pos hj]
        exact congrArg some (hgood j hj).publicKey
      · rw [if_neg hj, if_neg hj]
        rfl

/-- Honest players finish the key setup, whatever their number: all of them hold one public key,
which is the sum of their shares. -/
theorem key_setup_completes (hA : Complete A valid paillier ringPedersen)
    (hP : Honest P players keyId valid) (hkeyId : Usable keyId)
    (hzero : EncodesInfinity P.algebra) (hfresh : ∀ i ∈ players, Fresh keyId (w i).store) :
    Returns (P.createKey players keyId) w fun out w' => ∃ key : ℕ → Ed25519Scalar,
      out = table players (fun _ => (P.algebra.encode (sharedPoint P.algebra players key),
        .eddsaEd25519)) ∧
      ∀ i ∈ players, HoldsShare P players keyId key i (w' i).store := by
  have hlength : players.sort.length = players.card := Finset.length_sort (· ≤ ·)
  rw [Players.createKey]
  have hgenerate := returns_eachPlayer (w := w) hP.nonempty (f := fun i =>
    generateSetupCommitments (P.host i) keyId players.sort players.sort.length ⟨[], []⟩)
    fun i hi => returns_generateSetupCommitments (hP.draws i hi)
      ⟨hkeyId.1, (Nat.le_add_right _ 40).trans_lt hkeyId.2⟩ (hfresh i hi)
      (players.sort_nodup (· ≤ ·))
      (by
        rw [Finset.mem_sort]
        have hid : (P.host i).service.getIdFromKeyid keyId = i := hP.id i hi
        rwa [hid])
      (by rw [hlength]; exact hP.card)
  apply hgenerate.bind
  intro _ w₁ hw₁
  obtain ⟨-, c, rfl, h₁⟩ := hw₁
  have hexists : ∀ i, ∃ x : Secret, i ∈ players → x.Good (P.host i) keyId valid (c i) ∧
      Holds keyId x (initialMetadata players.sort players.sort.length infinityPoint) ∅ none
        (w₁ i).store := by
    intro i
    by_cases hi : i ∈ players
    · obtain ⟨x, hx⟩ := h₁ i hi
      exact ⟨x, fun _ => hx⟩
    · obtain ⟨first, hfirst⟩ := hP.nonempty
      obtain ⟨x, -⟩ := h₁ first hfirst
      exact ⟨x, fun hi' => absurd hi' hi⟩
  choose x hx using hexists
  exact (returns_finishSetup hA hP hkeyId hzero (fun i hi => (hx i hi).1) (Or.inl rfl)
    fun i hi => (hx i hi).2).imp fun out w' h => ⟨fun i => (x i).key, h.1, h.2.2⟩

end Setup

section Concrete

/-- Auxiliary keys of the right size, with proofs that are always accepted. -/
def trustingScheme : AuxiliaryScheme where
  Paillier := Unit
  RingPedersen := Unit
  paillierPublicKeyDeserialize _ := some ()
  paillierPublicKeySize _ := paillierKeySize
  ringPedersenPublicDeserialize _ := some ()
  ringPedersenPublicSize _ := ringPedersenKeySize
  generatePaillierBlumZkp _ _ _ := some []
  verifyPaillierBlumZkp _ _ _ := .ok ()
  ringPedersenParametersZkpGenerate _ _ _ := some []
  ringPedersenParametersZkpVerify _ _ _ := .ok ()
  paillierLargeFactorsZkpGenerate _ _ _ _ := .ok []
  paillierLargeFactorsZkpVerify _ _ _ _ := .ok ()

/-- No nonce is zero. -/
def positiveTape : Tape where
  genRandom _ := beBytes 32 1
  rand n := .ok (Fin.ofNat order (n % 5 + 1))
  randBytes n := some (leBytes 32 (n + 1))
  auxiliaryKeys _ := .ok concreteAux

/-- Players that send each other their shares as they are. -/
def concretePlayers : Players trustingScheme where
  algebra := exponentGroup
  hash := prefixHash
  service i := { simplePlatform i with getCurrentTenantid := tenantId }
  tape _ := positiveTape
  encryptForPlayer _ _ bytes _ := bytes
  decryptMessage _ bytes := bytes
  backupKey _ _ _ _ _ _ := true
  deriveInitialShare _ _ _ := .error SetupService.internalError

theorem complete_trustingScheme :
    Complete trustingScheme (fun _ => True) (fun _ => ()) fun _ => () where
  deserializes _ _ := rfl
  paillierBlum _ _ _ _ := ⟨[], rfl, rfl⟩
  ringPedersenParameters _ _ _ _ := ⟨[], rfl, rfl⟩
  largeFactors _ _ _ _ _ _ := ⟨[], rfl, rfl⟩

theorem draws_concretePlayers (i : ℕ) : Draws (concretePlayers.host i) fun _ => True where
  works := ⟨fun _ => ⟨0, by decide, beBytes 32 1, rfl⟩, fun _ => ⟨_, rfl⟩, fun _ => ⟨_, rfl⟩,
    fun _ => ⟨_, rfl⟩⟩
  rand_ne n h := by
    have hval := congrArg Fin.val (Except.ok.inj h)
    have hsmall : n % 5 + 1 < order := (by omega : n % 5 + 1 < 6).trans (by decide)
    rw [Fin.val_ofNat, Nat.mod_eq_of_lt hsmall] at hval
    exact absurd hval (by simp)
  valid _ _ _ := trivial

theorem honest_concretePlayers {players : Finset ℕ} (hne : players.Nonempty)
    (hcard : players.card ≤ 255) (keyId : ByteString) :
    Honest concretePlayers players keyId fun _ => True where
  nonempty := hne
  card := hcard
  id _ _ := rfl
  tenant _ _ := rfl
  draws i _ := draws_concretePlayers i
  backup _ _ _ _ _ _ := rfl

theorem key_setup_completes_concrete :
    Returns (concretePlayers.createKey {1, 2, 3} (ascii "key")) (fun _ => Party.initial)
      fun out w' => ∃ key : ℕ → Ed25519Scalar,
        out = table {1, 2, 3} (fun _ => (exponentGroup.encode
          (sharedPoint exponentGroup {1, 2, 3} key), .eddsaEd25519)) ∧
        ∀ i ∈ ({1, 2, 3} : Finset ℕ),
          HoldsShare concretePlayers {1, 2, 3} (ascii "key") key i (w' i).store :=
  key_setup_completes complete_trustingScheme
    (honest_concretePlayers ⟨1, by decide⟩ (by decide) _) ⟨by decide, by decide⟩ rfl
    fun _ _ => ⟨rfl, rfl⟩

end Concrete

end MpcDemo.KeySetupSessions
