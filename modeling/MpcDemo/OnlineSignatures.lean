import MpcDemo.OnlineCalls
import MpcDemo.ShareSums
import MpcDemo.AddedUsers

/-!
# The players of an online session end with one signature

When the players of a key all follow the protocol, every step of each of them returns: the
commitments open, every player adds up the same nonce points, and the shares add up to a signature
that verifies under the derived public key.
-/

namespace MpcDemo.OnlineSignatures
open ByteStrings Ed25519Algebra CosignerTypes AsymmetricEddsaCosigner FallibleState TotalRuns
open NodeState PlayerTables PlayerRounds StoredDraws ServerBlockLaws ShareSums DerivationTweaks
open KeySetup (AuxiliaryScheme SetupHost SetupPersistency KeyMetadata tenantId)
open KeySetupLaws (foldlM_addPoints)
open KeySetupSessions (Players HoldsShare sharedPoint)
open OnlineSigning OnlineCalls

section Blocks
variable {E : Ed25519} {H : HashFunctions} {publicKey : EllipticCurvePoint}
variable {chaincode : HDChaincode} {path : List ℕ} {signers index : ℕ}
variable {part : Ed25519Scalar} {T : E.Point} {x : ℕ}

/-- What the signers have in common for a path: the part of the tweak that each of them adds, and
the derived key. -/
structure CommonKey (E : Ed25519) (H : HashFunctions) (publicKey : EllipticCurvePoint)
    (chaincode : HDChaincode) (signers : ℕ) (path : List ℕ) (x : ℕ) (part : Ed25519Scalar)
    (T : E.Point) : Prop where
  derived : ∃ delta, derivedKey E H publicKey chaincode path =
    .ok (delta, Ed25519Point.generic (E.encode T)) ∧ splitDelta delta path signers = .ok part
  publicKey : derivePublicKeyGeneric E H publicKey chaincode path =
    .ok (Ed25519Point.generic (E.encode T))
  total : T = (x + signers * beValue part.val) • E.base

/-- The parts of a tweak add up to the tweak. -/
theorem exists_splitDelta {delta : Ed25519Scalar} {tweak : ℕ} (hpath : path ≠ [])
    (hdelta : beValue delta.val ≡ tweak [MOD order]) (hpos : 0 < signers) (hbyte : signers < 256) :
    ∃ part, splitDelta delta path signers = .ok part ∧
      signers * beValue part.val ≡ tweak [MOD order] := by
  by_cases hone : signers = 1
  · subst hone
    exact ⟨delta, by simp [splitDelta], by rwa [Nat.one_mul]⟩
  have htwo : 1 < signers := by omega
  obtain ⟨inv, hinv, hprod⟩ := exists_inverse hpos hbyte
  refine ⟨beBytes 32 (beValue delta.val * beValue inv.val % order), ?_, ?_⟩
  · have hmul : ed25519AlgebraMulScalars delta.val inv.val =
        .ok (beBytes 32 (beValue delta.val * beValue inv.val % order)) := by
      simp only [ed25519AlgebraMulScalars, val_ne_nil, or_self, if_false]
    rw [splitDelta, if_pos ⟨hpath, htwo⟩, Nat.mod_eq_of_lt hbyte, hinv]
    exact except_bind_ok_iff.2 ⟨inv, rfl, by rw [hmul]; rfl⟩
  · rw [beValue_beBytes_mod]
    calc signers * (beValue delta.val * beValue inv.val % order)
        ≡ signers * (beValue delta.val * beValue inv.val) [MOD order] :=
          (Nat.mod_modEq _ _).mul_left signers
      _ = beValue delta.val * (signers * beValue inv.val) := by ring
      _ ≡ beValue delta.val * 1 [MOD order] := hprod.mul_left _
      _ = beValue delta.val := Nat.mul_one _
      _ ≡ tweak [MOD order] := hdelta

theorem exists_commonKey (hkey : publicKey = Ed25519Point.generic (E.encode (x • E.base)))
    (chaincode : HDChaincode) (hpos : 0 < signers) (hbyte : signers < 256)
    (hpath : ∀ c ∈ path, isHardened c = false) :
    ∃ part T, CommonKey E H publicKey chaincode signers path x part T := by
  have hzero : beValue (zeroBytes 32).val = 0 := by decide
  by_cases hnil : path = []
  · subst hnil
    refine ⟨zeroBytes 32, x • E.base, ⟨zeroBytes 32, ?_, rfl⟩, ?_, ?_⟩
    · rw [derivedKey, if_pos rfl, hkey]
    · rw [← hkey]
      rfl
    · rw [hzero, Nat.mul_zero, Nat.add_zero]
  obtain ⟨tweak, derived, hfold, hpubkey, hprivkey, hpublic⟩ :=
    @exists_tweak E H path ⟨publicKey, zeroBytes 32, chaincode⟩ _ hkey
  rw [hzero, Nat.zero_add] at hprivkey
  obtain ⟨part, hsplit, hpart⟩ := exists_splitDelta hnil hprivkey hpos hbyte
  refine ⟨part, x • E.base + tweak • E.base, ⟨derived.privkey, ?_, hsplit⟩, ?_, ?_⟩
  · have hderive : derivePrivateAndPublicKeys E H publicKey (zeroBytes 32) chaincode path =
        .ok derived := by
      rw [derivePrivateAndPublicKeys, hfold]
      rfl
    rw [derivedKey, if_neg hnil]
    simp only [hderive, hpubkey]
  · rw [derivePublicKeyGeneric, hpublic hpath (zeroBytes 32), ← hpubkey]
    rfl
  · rw [← add_smul, ← mod_order_smul, ← mod_order_smul (x + signers * _)]
    exact congrArg (· • E.base) (hpart.symm.add_left x)

/-- A fold that looks up one place of every entry. -/
theorem foldlM_lookup {V W : Type} (f : W → V → Except Failure W) {v : ℕ → V}
    {l : List (ℕ × List V)} (h : ∀ e ∈ l, e.2[index]? = some (v e.1)) (b : W) :
    l.foldlM (fun b e => entryAt e.2 index >>= f b) b = l.foldlM (fun b e => f b (v e.1)) b := by
  induction l generalizing b with
  | nil => rfl
  | cons e l ih =>
    rw [List.foldlM_cons, List.foldlM_cons, entryAt_ok_iff.2 (h e List.mem_cons_self)]
    exact bind_congr fun b' => ih (fun e' he' => h e' (List.mem_cons_of_mem e he')) b'

/-- The nonce points of a block are added up. -/
theorem sumPoints_eq {P : ℕ → E.Point} {l : List (ℕ × List EllipticCurvePoint)} (hne : l ≠ [])
    (h : ∀ e ∈ l, e.2[index]? = some (Ed25519Point.generic (E.encode (P e.1))))
    (own : EllipticCurvePoint) : sumPoints E own index l =
      .ok (Ed25519Point.generic (E.encode (l.map fun e => P e.1).sum)) := by
  cases l with
  | nil => exact absurd rfl hne
  | cons first rest =>
    rw [sumPoints, entryAt_ok_iff.2 (h first List.mem_cons_self)]
    have hfold := foldlM_lookup (fun sum R => throwCosignerException (addPoints E sum R))
      (v := fun i => Ed25519Point.generic (E.encode (P i)))
      (fun e he => h e (List.mem_cons_of_mem first he))
      (Ed25519Point.generic (E.encode (P first.1)))
    have hpoints := foldlM_addPoints (l := rest)
      (fun e => Ed25519Point.generic (E.encode (P e.1))) (fun e => P e.1) (P first.1)
      fun e _ => by rw [ed25519_generic, E.decode_encode]
    rw [List.map_cons, List.sum_cons]
    exact hfold.trans hpoints

/-- The shares of a block are added up. -/
theorem foldlM_addScalars {V : Type} {v : V → ℕ} (l : List V) (n : ℕ) :
    l.foldlM (fun (sum : Ed25519Scalar) e => throwCosignerException
      (ed25519AlgebraAddScalars sum.val (beBytes 32 (v e % order)).val)) (beBytes 32 (n % order)) =
      .ok (beBytes 32 ((n + (l.map v).sum) % order)) := by
  induction l generalizing n with
  | nil => rw [List.foldlM_nil, List.map_nil, List.sum_nil, Nat.add_zero]; rfl
  | cons e l ih =>
    rw [List.foldlM_cons, ed25519AlgebraAddScalars_eq, throwCosignerException_ok,
      beValue_beBytes_mod, beValue_beBytes_mod, ← Nat.add_mod, List.map_cons, List.sum_cons,
      ← Nat.add_assoc]
    exact ih (n + v e)

/-- The share of one player. -/
theorem signBlock_eq (hkey : CommonKey E H publicKey chaincode signers path x part T)
    {d : EddsaSignatureData} (hpath : d.path = path) (hmessage : Signable d.message)
    {Rs : PlayerMap (List EllipticCurvePoint)} {P : ℕ → E.Point} (hne : Rs.toList ≠ [])
    (hRs : ∀ e ∈ Rs.toList, e.2[index]? = some (Ed25519Point.generic (E.encode (P e.1))))
    (share : Ed25519Scalar) :
    signBlock E H publicKey share chaincode signers Rs index d = .ok { d with
      R := Ed25519Point.generic (E.encode (Rs.toList.map fun e => P e.1).sum)
      s := beBytes 32 (shareValue (blockHram H (E.encode (Rs.toList.map fun e => P e.1).sum)
        (E.encode T) d.message d.flags) share part d.k.value) } := by
  obtain ⟨delta, hderived, hsplit⟩ := hkey.derived
  subst hpath
  have hx : leValue (swapBytes (beBytes 32 ((beValue part.val + beValue share.val) %
      order))).val = (beValue share.val + beValue part.val) % order := by
    rw [swapBytes_beBytes, leValue_leBytes_mod, Nat.add_comm]
  rw [signBlock, sumPoints_eq hne hRs]
  simp only [except_bind_ok_iff, Except.ok.injEq, exists_eq_left', throwCosignerException_eq_ok_iff,
    ed25519AlgebraAddScalars_eq, ed25519AlgebraMulAdd, hderived, ed25519_generic, hsplit,
    calcHram_eq hmessage, hx, swapBytes_leBytes]
  rfl

/-- The shares of all players are a signature under the derived key. -/
theorem finishBlock_eq (hkey : CommonKey E H publicKey chaincode signers path x part T)
    {d : EddsaSignatureData} (hpath : d.path = path) (hmessage : Signable d.message) {Q : E.Point}
    (hR : d.R = Ed25519Point.generic (E.encode Q)) {myId : ℕ}
    {shares : PlayerMap (List Ed25519Scalar)} {v : ℕ → ℕ}
    (hown : (shares.getD myId [])[index]? = some d.s)
    (hshares : ∀ e ∈ shares.toList, e.2[index]? = some (beBytes 32 (v e.1 % order)))
    (hsum : (shares.toList.map fun e => v e.1).sum • E.base = Q +
      leValue (blockHram H (E.encode Q) (E.encode T) d.message d.flags).val • T) :
    finishBlock E H publicKey chaincode myId shares index d =
        .ok ⟨E.encode Q, leBytes 32 ((shares.toList.map fun e => v e.1).sum % order)⟩ ∧
      ed25519Verify E H d.message (E.encode Q)
        (leBytes 32 ((shares.toList.map fun e => v e.1).sum % order)) (E.encode T)
        (eddsaKeccak d.flags) = true := by
  have hverify : ed25519Verify E H d.message (E.encode Q)
      (leBytes 32 ((shares.toList.map fun e => v e.1).sum % order)) (E.encode T)
      (eddsaKeccak d.flags) = true := by
    rw [ed25519Verify_iff, leValue_leBytes_mod]
    refine ⟨hmessage.nonempty, Nat.mod_lt _ order_pos, Q, T, E.decode_encode Q,
      E.decode_encode T, ?_⟩
    rw [leValue_leBytes_mod, mod_order_smul, hsum, blockHram, ed25519AlgebraReduce,
      leValue_leBytes_mod, mod_order_smul]
  refine ⟨?_, hverify⟩
  subst hpath
  have hzero : (zeroBytes 32 : Ed25519Scalar) = beBytes 32 (0 % order) := by decide
  have hfold : shares.toList.foldlM
      (fun (sum : Ed25519Scalar) e => do
        let s ← entryAt e.2 index
        throwCosignerException (ed25519AlgebraAddScalars sum.val s.val)) (zeroBytes 32) =
      .ok (beBytes 32 ((shares.toList.map fun e => v e.1).sum % order)) := by
    have hlookup := foldlM_lookup (fun (sum s : Ed25519Scalar) => throwCosignerException
      (ed25519AlgebraAddScalars sum.val s.val)) (v := fun i => beBytes 32 (v i % order)) hshares
      (zeroBytes 32)
    have hadd := foldlM_addScalars (v := fun e => v e.1) shares.toList 0
    rw [← hzero, Nat.zero_add] at hadd
    exact hlookup.trans hadd
  rw [finishBlock, hown]
  simp only [ne_eq, not_true_eq_false, if_false]
  rw [hfold, hkey.publicKey, hR]
  simp only [except_bind_ok_iff, Except.ok.injEq, exists_eq_left', Except.mapError,
    ed25519_generic, swapBytes_beBytes, hverify, if_true]

end Blocks

section Steps
variable {A : AuxiliaryScheme} {host : SetupHost A} {s : Signer A} {p : OnlinePersistency A}
variable {keyId txid : ByteString} {chaincode : HDChaincode} {players : Finset ℕ} {n version : ℕ}
variable {metadata : KeyMetadata A}

/-- A player's nonce for a block and the salt of its commitment. -/
structure BlockNonce where
  k : DrawnScalar
  salt : Bytes 32

def BlockNonce.point (E : Ed25519) (x : BlockNonce) : E.Point := leValue x.k.value.val • E.base

def BlockNonce.R (E : Ed25519) (x : BlockNonce) : EllipticCurvePoint :=
  Ed25519Point.generic (E.encode (x.point E))

def BlockNonce.commitment (E : Ed25519) (H : HashFunctions) (x : BlockNonce) : Commitment :=
  commitTo H x.salt (x.R E)

/-- A block when its transaction is started. -/
def startedBlock (E : Ed25519) (flags : ℕ) (block : SigningBlockData) (x : BlockNonce) :
    EddsaSignatureData := ⟨x.k, x.R E, zeroBytes 32, block.path, block.data, flags⟩

/-- The record of a transaction that all the players sign. -/
def recordOf (keyId : ByteString) (chaincode : HDChaincode) (players : Finset ℕ) (n : ℕ)
    (d : ℕ → EddsaSignatureData) (version : ℕ) : EddsaSigningMetadata :=
  ⟨keyId, chaincode, (List.range n).map d, players, version⟩

/-- A store that has a transaction besides what was there. -/
structure Signing (txid : ByteString) (p : OnlinePersistency A) (record : EddsaSigningMetadata)
    (C : Option (PlayerMap (List Commitment))) (q : OnlinePersistency A) : Prop where
  keys : q.keys = p.keys
  metadata : q.metadata = Function.update p.metadata txid (some record)
  commitments : q.commitments = Function.update p.commitments txid C

variable {record : EddsaSigningMetadata} {C : Option (PlayerMap (List Commitment))}

theorem Signing.metadata_txid {q : OnlinePersistency A} (h : Signing txid p record C q) :
    q.metadata txid = some record := by
  rw [h.metadata, Function.update_self]

theorem Signing.commitments_txid {q : OnlinePersistency A} (h : Signing txid p record C q) :
    q.commitments txid = C := by
  rw [h.commitments, Function.update_self]

theorem Signing.loadSigningData {q : OnlinePersistency A} (h : Signing txid p record C q) :
    q.loadSigningData txid = .ok record := loadSigningData_ok_iff.2 h.metadata_txid

theorem Signing.setMetadata {q : OnlinePersistency A} (h : Signing txid p record C q)
    (record' : EddsaSigningMetadata) : Signing txid p record' C (q.setMetadata txid record') where
  keys := h.keys
  metadata := by
    rw [OnlinePersistency.setMetadata, h.metadata, Function.update_idem]
  commitments := h.commitments

theorem Signing.setCommitments {q : OnlinePersistency A} (h : Signing txid p record C q)
    (C' : PlayerMap (List Commitment)) :
    Signing txid p record (some C') (q.setCommitments txid C') where
  keys := h.keys
  metadata := h.metadata
  commitments := by
    rw [OnlinePersistency.setCommitments, h.commitments, Function.update_idem]

theorem Signing.delete {q : OnlinePersistency A} (h : Signing txid p record C q)
    (hmetadata : p.metadata txid = none) (hcommitments : p.commitments txid = none) :
    q.deleteTemporarySigningData txid = p := by
  rw [OnlinePersistency.deleteTemporarySigningData, h.keys, h.metadata, h.commitments,
    Function.update_idem, Function.update_idem, ← hmetadata, ← hcommitments,
    Function.update_eq_self, Function.update_eq_self]

theorem completeFor_table {V : Type} {d : ℕ → EddsaSignatureData} (f : ℕ → ℕ → V) :
    CompleteFor (recordOf keyId chaincode players n d version)
      (table players fun i => (List.range n).map (f i)) := by
  refine ⟨size_table.symm, fun i hi => mem_table.2 hi, fun e he => ?_⟩
  obtain ⟨-, he⟩ := mem_toList_table.1 he
  rw [he, recordOf, List.length_map, List.length_map]

theorem returns_startBlock (hworks : host.tape.Works) (block : SigningBlockData) :
    Returns (startBlock host block) s fun b t => t.store = s.store ∧ ∃ x : BlockNonce,
      b = (startedBlock host.algebra 0 block x, x.commitment host.algebra host.hash) := by
  rw [startBlock]
  apply returns_drawn_bind
  intro m _
  obtain ⟨v, hv⟩ := hworks.rand m
  refine returns_ofExcept_bind (a := v) (by rw [hv]; rfl) ?_
  refine returns_ofExcept_bind (by rw [generatorMul_eq]; rfl) ?_
  apply returns_drawn_bind
  intro l _
  obtain ⟨salt, hsalt⟩ := hworks.randBytes l
  refine returns_ofExcept_bind (a := salt) (by rw [hsalt]; rfl) ?_
  refine returns_pure ⟨rfl, ⟨⟨m, swapBytes (beBytes 32 (Fin.val v))⟩, salt⟩, ?_⟩
  rw [startedBlock, BlockNonce.commitment, BlockNonce.R, BlockNonce.point, leValue_swapBytes]

theorem returns_startBlocks (hworks : host.tape.Works) (block : ℕ → SigningBlockData) (n : ℕ) :
    Returns (((List.range n).map block).mapM (startBlock host)) s fun bs t =>
      t.store = s.store ∧ ∃ x : ℕ → BlockNonce, bs = (List.range n).map fun j =>
        (startedBlock host.algebra 0 (block j) (x j), (x j).commitment host.algebra host.hash) := by
  induction n with
  | zero =>
    rw [List.range_zero, List.map_nil, List.mapM_nil]
    exact returns_pure ⟨rfl, fun _ => ⟨⟨0, zeroBytes 32⟩, zeroBytes 32⟩, rfl⟩
  | succ n ih =>
    rw [List.range_succ, List.map_append, List.mapM_append]
    apply ih.bind
    intro bs t h
    obtain ⟨ht, x, hbs⟩ := h
    have hlast : Returns ([block n].mapM (startBlock host)) t fun bs u => u.store = t.store ∧
        ∃ y : BlockNonce, bs = [(startedBlock host.algebra 0 (block n) y,
          y.commitment host.algebra host.hash)] := by
      rw [List.mapM_cons]
      apply (returns_startBlock hworks (block n)).bind
      intro b u h
      obtain ⟨hu, y, hb⟩ := h
      rw [List.mapM_nil]
      exact returns_pure ⟨hu, y, by rw [hb]⟩
    apply hlast.bind
    intro last u h
    obtain ⟨hu, y, hlast⟩ := h
    refine returns_pure ⟨hu.trans ht, Function.update x n y, ?_⟩
    rw [hbs, hlast, List.map_append, List.map_singleton, Function.update_self]
    refine congrArg (· ++ _) (List.map_congr_left fun j hj => ?_)
    rw [Function.update_of_ne (List.mem_range.1 hj).ne]

theorem returns_startSigning {data : SigningData} {names : Finset ByteString}
    {block : ℕ → SigningBlockData} {flags : ℕ → ℕ} (hworks : host.tape.Works)
    (htenant : host.service.getCurrentTenantid = tenantId)
    (hmetadata : s.store.keys.loadKeyMetadata keyId = .ok metadata)
    (halgorithm : metadata.algorithm = .eddsaEd25519) (ht : metadata.t ≤ players.card)
    (hplayers : ∀ i ∈ players, i ∈ metadata.playersInfo)
    (hstart : host.service.onStartSigning keyId txid data [] names = .ok ())
    (hflags : host.service.fillSigningInfoFromMetadata [] = flags)
    (hdata : data.blocks = (List.range n).map block) (hn : n ≤ maxBlocksToSign)
    (hnew : s.store.metadata txid = none) (hnone : s.store.commitments txid = none) :
    Returns (startSigning host keyId txid data [] names players) s fun cs t =>
      ∃ x : ℕ → BlockNonce,
        cs = (List.range n).map (fun j => (x j).commitment host.algebra host.hash) ∧
        Signing txid s.store (recordOf keyId data.chaincode players n
          (fun j => startedBlock host.algebra (flags j) (block j) (x j)) mpcProtocolVersion) none
          t.store := by
  rw [startSigning, OnlineSigning.verifyTenant]
  refine returns_require_bind htenant ?_
  refine returns_reading_bind hmetadata ?_
  refine returns_require_bind halgorithm ?_
  refine returns_require_bind ht ?_
  refine returns_require_bind hplayers ?_
  refine returns_ofExcept_bind hstart ?_
  refine returns_require_bind (by rwa [hdata, List.length_map, List.length_range]) ?_
  rw [hdata]
  apply (returns_startBlocks hworks block n).bind
  intro bs t h
  obtain ⟨ht, x, hbs⟩ := h
  have hrecords : (bs.mapIdx fun i b => { b.1 with flags := flags i }) =
      (List.range n).map fun j => startedBlock host.algebra (flags j) (block j) (x j) := by
    rw [hbs, List.mapIdx_eq_zipIdx_map, zipIdx_map_range, List.map_map]
    rfl
  refine returns_writing_bind (p := s.store.setMetadata txid (recordOf keyId data.chaincode players
    n (fun j => startedBlock host.algebra (flags j) (block j) (x j)) mpcProtocolVersion)) ?_ ?_
  · rw [hflags, hrecords, ht, OnlinePersistency.storeSigningData, hnew]
    rfl
  · refine returns_pure ⟨x, ?_, rfl, rfl, ?_⟩
    · rw [hbs, List.map_map]
      rfl
    · rw [← hnone, Function.update_eq_self]
      rfl

variable {d d' : ℕ → EddsaSignatureData}

theorem returns_storeCommitments {i : ℕ} {c : ℕ → ℕ → Commitment} {version' : ℕ}
    (h : Signing txid p (recordOf keyId chaincode players n d version') none s.store)
    (htenant : host.service.getCurrentTenantid = tenantId)
    (hid : host.service.getIdFromKeyid keyId = i) (hi : i ∈ players)
    (hopens : ∀ j < n, verifyCommitment host.hash (d j).R (c i j) = .ok ()) :
    Returns (storeCommitments host txid (table players fun i => (List.range n).map (c i)) version)
      s fun Rs t => Rs = (List.range n).map (fun j => (d j).R) ∧
        Signing txid p (recordOf keyId chaincode players n d version)
          (some (table players fun i => (List.range n).map (c i))) t.store := by
  have hown : (table players fun i => (List.range n).map (c i)).getD i [] =
      (List.range n).map (c i) := by
    rw [Std.ExtTreeMap.getD_eq_getD_getElem?, getElem?_table_of_mem hi, Option.getD_some]
  rw [storeCommitments, OnlineSigning.verifyTenant]
  refine returns_reading_bind h.loadSigningData ?_
  refine returns_require_bind htenant ?_
  refine returns_require_bind (completeFor_table c) ?_
  refine returns_require_bind (hid.symm ▸ mem_table.2 hi) ?_
  refine returns_ofExcept_bind (a := ()) ?_ ?_
  · have hkey : (recordOf keyId chaincode players n d version').keyId = keyId := rfl
    rw [hkey, hid, hown, recordOf, List.zip_map', except_forM_ok_iff]
    intro e he
    obtain ⟨j, hj, rfl⟩ := List.mem_map.1 he
    exact hopens j (List.mem_range.1 hj)
  · have hrecord := run_recordCommitments (s := s) h.metadata_txid
      (table players fun i => (List.range n).map (c i)) version
    rw [h.commitments_txid, if_neg (by simp)] at hrecord
    refine ⟨_, _, hrecord, ?_, (h.setMetadata _).setCommitments _⟩
    rw [recordOf, List.map_map]
    rfl

theorem returns_broadcastSi {R : ℕ → ℕ → EllipticCurvePoint} {Cs : PlayerMap (List Commitment)}
    {share : Ed25519Scalar}
    (h : Signing txid p (recordOf keyId chaincode players n d version) (some Cs) s.store)
    (htenant : host.service.getCurrentTenantid = tenantId)
    (hopens : ∀ e ∈ Cs.toList, verifyDecommitment host.hash n
      (table players fun i => (List.range n).map (R i)) e = .ok ())
    (hmetadata : p.keys.loadKeyMetadata keyId = .ok metadata)
    (hkey : p.keys.loadKey keyId = .ok (metadata.algorithm, share))
    (hsign : ∀ j < n, signBlock host.algebra host.hash metadata.publicKey share chaincode
      players.card (table players fun i => (List.range n).map (R i)) j (d j) = .ok (d' j)) :
    Returns (broadcastSi host txid (table players fun i => (List.range n).map (R i))) s
      fun shares t => shares = (List.range n).map (fun j => (d' j).s) ∧
        Signing txid p (recordOf keyId chaincode players n d' version) (some Cs) t.store := by
  rw [broadcastSi, OnlineSigning.verifyTenant]
  refine returns_reading_bind h.loadSigningData ?_
  refine returns_require_bind htenant ?_
  refine returns_require_bind (completeFor_table R) ?_
  refine returns_reading_bind (loadSigningCommitments_ok_iff.2 h.commitments_txid) ?_
  refine returns_ofExcept_bind (a := ()) ?_ ?_
  · rw [recordOf, List.length_map, List.length_range]
    exact except_forM_ok_iff.2 hopens
  refine returns_reading_bind (by rw [h.keys]; exact hmetadata) ?_
  refine returns_reading_bind (by rw [h.keys]; exact hkey) ?_
  refine returns_require_bind rfl ?_
  refine returns_ofExcept_bind (a := (List.range n).map d') ?_ ?_
  · rw [recordOf, zipIdx_map_range, List.mapM_map]
    exact except_mapM_eq_ok fun j hj => hsign j (List.mem_range.1 hj)
  refine returns_writing_bind (p := s.store.setMetadata txid
    (recordOf keyId chaincode players n d' version)) ?_ ?_
  · rw [OnlinePersistency.updateSigningData, h.metadata_txid]
    rfl
  · refine returns_pure ⟨?_, h.setMetadata _⟩
    rw [List.map_map]
    rfl

theorem returns_getEddsaSignature {i : ℕ} {v : ℕ → ℕ → Ed25519Scalar} {sig : ℕ → EddsaSignature}
    (h : Signing txid p (recordOf keyId chaincode players n d version) C s.store)
    (hnew : p.metadata txid = none) (hnone : p.commitments txid = none)
    (htenant : host.service.getCurrentTenantid = tenantId)
    (hid : host.service.getIdFromKeyid keyId = i) (hi : i ∈ players)
    (hmetadata : p.keys.loadKeyMetadata keyId = .ok metadata)
    (hfinish : ∀ j < n, finishBlock host.algebra host.hash metadata.publicKey chaincode i
      (table players fun i => (List.range n).map (v i)) j (d j) = .ok (sig j)) :
    Returns (getEddsaSignature host txid (table players fun i => (List.range n).map (v i))) s
      fun sigs t => sigs = (List.range n).map sig ∧ t.store = p := by
  rw [getEddsaSignature, OnlineSigning.verifyTenant]
  refine returns_reading_bind h.loadSigningData ?_
  refine returns_require_bind htenant ?_
  refine returns_require_bind size_table ?_
  refine returns_require_bind (fun j hj => ⟨mem_table.2 hj, ?_⟩) ?_
  · have hj : j ∈ players := hj
    rw [Std.ExtTreeMap.getD_eq_getD_getElem?, getElem?_table_of_mem hj, Option.getD_some,
      recordOf, List.length_map, List.length_map]
  refine returns_require_bind (hid.symm ▸ hi) ?_
  refine returns_reading_bind (by rw [h.keys]; exact hmetadata) ?_
  refine returns_ofExcept_bind (a := (List.range n).map sig) ?_ ?_
  · rw [recordOf, zipIdx_map_range, List.mapM_map]
    refine except_mapM_eq_ok fun j hj => ?_
    simp only [hid, Function.comp_apply]
    exact hfinish j (List.mem_range.1 hj)
  exact returns_writing_bind rfl (returns_pure ⟨rfl, h.delete hnew hnone⟩)

end Steps

section Run
variable {A : AuxiliaryScheme} {P : Players A} {players : Finset ℕ} {keyId txid : ByteString}
variable {data : SigningData} {names : Finset ByteString} {flags : ℕ → ℕ} {version : ℕ}
variable {key : ℕ → Ed25519Scalar} {w : ℕ → Signer A}

/-- Players that sign together: every one of them works, and all agree on the flags. -/
structure Cosigners (P : Players A) (players : Finset ℕ) (keyId txid : ByteString)
    (data : SigningData) (names : Finset ByteString) (flags : ℕ → ℕ) : Prop where
  nonempty : players.Nonempty
  card : players.card ≤ 255
  id : ∀ i ∈ players, (P.host i).service.getIdFromKeyid keyId = i
  tenant : ∀ i ∈ players, (P.host i).service.getCurrentTenantid = tenantId
  works : ∀ i ∈ players, (P.host i).tape.Works
  starts : ∀ i ∈ players, (P.host i).service.onStartSigning keyId txid data [] names = .ok ()
  flags : ∀ i ∈ players, (P.host i).service.fillSigningInfoFromMetadata [] = flags

/-- Blocks that can be signed under public derivation. -/
structure SignableData (data : SigningData) : Prop where
  few : data.blocks.length ≤ maxBlocksToSign
  message : ∀ b ∈ data.blocks, Signable b.data
  path : ∀ b ∈ data.blocks, ∀ c ∈ b.path, isHardened c = false

/-- A player holds its share of the key and has no such transaction. -/
structure Ready (P : Players A) (players : Finset ℕ) (keyId txid : ByteString)
    (key : ℕ → Ed25519Scalar) (i : ℕ) (p : OnlinePersistency A) : Prop where
  holds : HoldsShare P players keyId key i p.keys
  metadata : p.metadata txid = none
  commitments : p.commitments txid = none

/-- What a player's key store says of the key. -/
theorem Ready.loads {i : ℕ} {p : OnlinePersistency A} (h : Ready P players keyId txid key i p) :
    ∃ metadata, p.keys.loadKeyMetadata keyId = .ok metadata ∧
      metadata.publicKey = Ed25519Point.generic (P.algebra.encode (sharedPoint P.algebra players
        key)) ∧ metadata.algorithm = .eddsaEd25519 ∧ metadata.t ≤ players.card ∧
      ∀ j ∈ players, j ∈ metadata.playersInfo := by
  obtain ⟨metadata, hload, hpublic, halgorithm, ht, -, hinfo⟩ := h.holds.loadsMetadata
  refine ⟨metadata, hload, hpublic, halgorithm, ht.le, fun j hj => ?_⟩
  have hj := (hinfo j).trans (if_pos hj)
  rw [← Std.ExtTreeMap.isSome_getElem?_iff_mem]
  obtain ⟨info, hget, -⟩ := Option.map_eq_some_iff.1 hj
  rw [hget]
  rfl

/-- The shares of all players add up to the answer to the challenge. -/
theorem sum_shares {E : Ed25519} (hram : Ed25519LeScalar) (key : ℕ → Ed25519Scalar)
    (part : Ed25519Scalar) (k : ℕ → Ed25519LeScalar) :
    (∑ i ∈ players, shareValue hram (key i) part (k i)) • E.base =
      ∑ i ∈ players, leValue (k i).val • E.base + leValue hram.val •
        ((∑ i ∈ players, beValue (key i).val + players.card * beValue part.val) • E.base) := by
  rw [Finset.sum_smul]
  simp only [shareValue_smul_base, Finset.sum_add_distrib, ← Finset.smul_sum, ← Finset.sum_smul,
    Finset.sum_const, smul_eq_mul]

theorem blocks_eq_map (data : SigningData) : data.blocks =
    (List.range data.blocks.length).map fun j => data.blocks.getD j ⟨[], []⟩ := by
  apply List.ext_getElem
  · rw [List.length_map, List.length_range]
  · intro j hj _
    rw [List.getElem_map, List.getElem_range, List.getD_eq_getElem _ _ hj]

/-- One block of a session, as every player sees it. -/
structure Agreed (P : Players A) (players : Finset ℕ) (chaincode : HDChaincode)
    (key : ℕ → Ed25519Scalar) (block : SigningBlockData) (flags : ℕ) (x : ℕ → BlockNonce)
    (part : Ed25519Scalar) (T : P.algebra.Point) : Prop where
  key : CommonKey P.algebra P.hash
    (Ed25519Point.generic (P.algebra.encode (sharedPoint P.algebra players key))) chaincode
    players.card block.path (∑ i ∈ players, beValue (key i).val) part T
  message : Signable block.data

variable {block : SigningBlockData} {x : ℕ → BlockNonce}

/-- The sum of the nonce points. -/
def noncePoint (P : Players A) (players : Finset ℕ) (x : ℕ → BlockNonce) : P.algebra.Point :=
  ∑ i ∈ players, (x i).point P.algebra

/-- A player's share of a block, as a number. -/
def blockShare (P : Players A) (players : Finset ℕ) (key : ℕ → Ed25519Scalar)
    (block : SigningBlockData) (flags : ℕ) (x : ℕ → BlockNonce) (part : Ed25519Scalar)
    (T : P.algebra.Point) (i : ℕ) : ℕ :=
  shareValue (blockHram P.hash (P.algebra.encode (noncePoint P players x)) (P.algebra.encode T)
    block.data flags) (key i) part (x i).k.value

/-- A block that a player has answered. -/
def answeredBlock (P : Players A) (players : Finset ℕ) (key : ℕ → Ed25519Scalar)
    (block : SigningBlockData) (flags : ℕ) (x : ℕ → BlockNonce) (part : Ed25519Scalar)
    (T : P.algebra.Point) (i : ℕ) : EddsaSignatureData :=
  { startedBlock P.algebra flags block (x i) with
    R := Ed25519Point.generic (P.algebra.encode (noncePoint P players x))
    s := beBytes 32 (blockShare P players key block flags x part T i) }

/-- The signature of a block. -/
def blockSignature (P : Players A) (players : Finset ℕ) (key : ℕ → Ed25519Scalar)
    (block : SigningBlockData) (flags : ℕ) (x : ℕ → BlockNonce) (part : Ed25519Scalar)
    (T : P.algebra.Point) : EddsaSignature :=
  ⟨P.algebra.encode (noncePoint P players x),
    leBytes 32 ((∑ i ∈ players, blockShare P players key block flags x part T i) % order)⟩

variable {chaincode : HDChaincode} {flag : ℕ} {part : Ed25519Scalar} {T : P.algebra.Point}

theorem Agreed.signBlock (h : Agreed P players chaincode key block flag x part T)
    (hne : players.Nonempty) {index : ℕ} {Rs : ℕ → List EllipticCurvePoint}
    (hRs : ∀ i ∈ players, (Rs i)[index]? = some ((x i).R P.algebra)) (i : ℕ) :
    OnlineSigning.signBlock P.algebra P.hash
      (Ed25519Point.generic (P.algebra.encode (sharedPoint P.algebra players key))) (key i) chaincode
      players.card (table players Rs) index (startedBlock P.algebra flag block (x i)) =
        .ok (answeredBlock P players key block flag x part T i) := by
  have hpoints : ∀ e ∈ (table players Rs).toList, e.2[index]? =
      some (Ed25519Point.generic (P.algebra.encode ((x e.1).point P.algebra))) := by
    intro e he
    obtain ⟨hi, he⟩ := mem_toList_table.1 he
    rw [he, hRs e.1 hi, BlockNonce.R]
  have hblock := signBlock_eq h.key (d := startedBlock P.algebra flag block (x i)) rfl h.message
    (P := fun i => (x i).point P.algebra) (toList_table_ne_nil hne) hpoints (key i)
  rw [sum_toList_table fun e : ℕ × List EllipticCurvePoint => (x e.1).point P.algebra] at hblock
  exact hblock

theorem Agreed.finishBlock (h : Agreed P players chaincode key block flag x part T) {index : ℕ}
    {shares : ℕ → List Ed25519Scalar} (hshares : ∀ i ∈ players, (shares i)[index]? =
      some (beBytes 32 (blockShare P players key block flag x part T i))) {i : ℕ}
    (hi : i ∈ players) :
    OnlineSigning.finishBlock P.algebra P.hash
        (Ed25519Point.generic (P.algebra.encode (sharedPoint P.algebra players key))) chaincode i
        (table players shares) index (answeredBlock P players key block flag x part T i) =
      .ok (blockSignature P players key block flag x part T) ∧
    ed25519Verify P.algebra P.hash block.data (blockSignature P players key block flag x part T).R
      (blockSignature P players key block flag x part T).s (P.algebra.encode T)
      (eddsaKeccak flag) = true := by
  have hsum : ((table players shares).toList.map fun e =>
      blockShare P players key block flag x part T e.1).sum =
        ∑ i ∈ players, blockShare P players key block flag x part T i := sum_toList_table _
  have hown : ((table players shares).getD i [])[index]? =
      some (answeredBlock P players key block flag x part T i).s := by
    rw [Std.ExtTreeMap.getD_eq_getD_getElem?, getElem?_table_of_mem hi, Option.getD_some,
      hshares i hi]
    rfl
  have hall : ∀ e ∈ (table players shares).toList, e.2[index]? =
      some (beBytes 32 (blockShare P players key block flag x part T e.1 % order)) := by
    intro e he
    obtain ⟨he, hvalue⟩ := mem_toList_table.1 he
    rw [hvalue, hshares e.1 he, blockShare, Nat.mod_eq_of_lt (shareValue_lt _ _ _ _)]
  have hfinish := finishBlock_eq h.key
    (d := answeredBlock P players key block flag x part T i) rfl h.message
    (Q := noncePoint P players x) rfl (v := blockShare P players key block flag x part T) hown hall
    (by
      rw [hsum, h.key.total]
      exact sum_shares _ key part fun i => (x i).k.value)
  rw [hsum] at hfinish
  exact hfinish

/-- The players of a key sign together: every step of every player returns, all players end with
the same signatures, and each of them verifies under the key derived for its block. -/
theorem online_signing_completes (hP : Cosigners P players keyId txid data names flags)
    (hdata : SignableData data)
    (hready : ∀ i ∈ players, Ready P players keyId txid key i (w i).store) :
    Returns (eddsaSign P players keyId txid data names version) w fun out w' =>
      (∀ i, (w' i).store = (w i).store) ∧ ∃ sigs : List EddsaSignature,
        out = table players (fun _ => sigs) ∧ sigs.length = data.blocks.length ∧
        ∀ (j : ℕ) block sig, data.blocks[j]? = some block → sigs[j]? = some sig →
          ∃ derived, derivePublicKeyGeneric P.algebra P.hash (Ed25519Point.generic
            (P.algebra.encode (sharedPoint P.algebra players key))) data.chaincode block.path =
              .ok derived ∧
            ed25519Verify P.algebra P.hash block.data sig.R sig.s derived.ed25519
              (eddsaKeccak (flags j)) = true := by
  obtain ⟨n, block, hn, hblocks⟩ : ∃ n block, n = data.blocks.length ∧
      data.blocks = (List.range n).map block := ⟨_, _, rfl, blocks_eq_map data⟩
  have hmem : ∀ j < n, block j ∈ data.blocks := fun j hj => by
    rw [hblocks]
    exact List.mem_map_of_mem (List.mem_range.2 hj)
  have hcommon : ∀ j, ∃ part T, j < n → CommonKey P.algebra P.hash
      (Ed25519Point.generic (P.algebra.encode (sharedPoint P.algebra players key))) data.chaincode
      players.card (block j).path (∑ i ∈ players, beValue (key i).val) part T := by
    intro j
    by_cases hj : j < n
    · have hkey : Ed25519Point.generic (P.algebra.encode (sharedPoint P.algebra players key)) =
          Ed25519Point.generic (P.algebra.encode
            ((∑ i ∈ players, beValue (key i).val) • P.algebra.base)) := rfl
      obtain ⟨part, T, h⟩ := exists_commonKey (H := P.hash) hkey data.chaincode
        hP.nonempty.card_pos (Nat.lt_succ_of_le hP.card) (hdata.path _ (hmem j hj))
      exact ⟨part, T, fun _ => h⟩
    · exact ⟨zeroBytes 32, 0, fun hj' => absurd hj' hj⟩
  choose part T hcommon using hcommon
  rw [eddsaSign]
  have hstart := returns_eachPlayer (w := w) hP.nonempty (f := fun i =>
    startSigning (P.host i) keyId txid data [] names players) fun i hi => by
      obtain ⟨metadata, hload, -, halgorithm, ht, hinfo⟩ := (hready i hi).loads
      exact returns_startSigning (hP.works i hi) (hP.tenant i hi) hload halgorithm ht hinfo
        (hP.starts i hi) (hP.flags i hi) hblocks (hn ▸ hdata.few) (hready i hi).metadata
        (hready i hi).commitments
  apply hstart.bind
  intro _ w₁ h
  obtain ⟨hothers₁, cs, hcs, h₁⟩ := h
  have hnonces : ∀ i, ∃ x : ℕ → BlockNonce, i ∈ players →
      cs i = (List.range n).map (fun j => (x j).commitment P.algebra P.hash) ∧
      Signing txid (w i).store (recordOf keyId data.chaincode players n
        (fun j => startedBlock P.algebra (flags j) (block j) (x j)) mpcProtocolVersion) none
        (w₁ i).store := by
    intro i
    by_cases hi : i ∈ players
    · obtain ⟨x, hx⟩ := h₁ i hi
      exact ⟨x, fun _ => hx⟩
    · exact ⟨fun _ => ⟨⟨0, zeroBytes 32⟩, zeroBytes 32⟩, fun hi' => absurd hi' hi⟩
  choose x hx using hnonces
  have hagreed : ∀ j < n, Agreed P players data.chaincode key (block j) (flags j)
      (fun i => x i j) (part j) (T j) :=
    fun j hj => ⟨hcommon j hj, hdata.message _ (hmem j hj)⟩
  obtain rfl : _ = table players fun i => (List.range n).map fun j =>
    (x i j).commitment P.algebra P.hash := hcs.trans (table_congr fun i hi => (hx i hi).1)
  have hstore := returns_eachPlayer (w := w₁) hP.nonempty (f := fun i =>
    storeCommitments (P.host i) txid (table players fun i => (List.range n).map fun j =>
      (x i j).commitment P.algebra P.hash) version) fun i hi =>
      returns_storeCommitments (hx i hi).2 (hP.tenant i hi) (hP.id i hi) hi fun j _ =>
        verifyCommitment_ok_iff.2 rfl
  apply hstore.bind
  intro _ w₂ h
  obtain ⟨hothers₂, Rs, hRs, h₂⟩ := h
  obtain rfl : _ = table players fun i => (List.range n).map fun j => (x i j).R P.algebra :=
    hRs.trans (table_congr fun i hi => (h₂ i hi).1)
  have hanswer := returns_eachPlayer (w := w₂) hP.nonempty (f := fun i =>
    broadcastSi (P.host i) txid (table players fun i => (List.range n).map fun j =>
      (x i j).R P.algebra)) fun i hi => by
      obtain ⟨metadata, hload, hpublic, halgorithm, -⟩ := (hready i hi).loads
      have hblock : ∀ j < n, OnlineSigning.signBlock P.algebra P.hash metadata.publicKey (key i)
          data.chaincode players.card (table players fun i => (List.range n).map fun j =>
            (x i j).R P.algebra) j (startedBlock P.algebra (flags j) (block j) (x i j)) =
              .ok (answeredBlock P players key (block j) (flags j) (fun i => x i j) (part j) (T j)
                i) := by
        intro j hj
        rw [hpublic]
        exact (hagreed j hj).signBlock hP.nonempty (fun i _ => by simp [hj]) i
      refine returns_broadcastSi (h₂ i hi).2 (hP.tenant i hi) (fun e he => ?_) hload
        (halgorithm ▸ (hready i hi).holds.loadsKey) hblock
      obtain ⟨he, hvalue⟩ := mem_toList_table.1 he
      refine (verifyDecommitment_ok_iff (getElem?_table_of_mem he)).2 fun j hj => ?_
      rw [hvalue]
      exact ⟨(x e.1 j).R P.algebra, (x e.1 j).commitment P.algebra P.hash, by simp [hj],
        by simp [hj], rfl⟩
  apply hanswer.bind
  intro _ w₃ h
  obtain ⟨hothers₃, ss, hss, h₃⟩ := h
  obtain rfl : _ = table players fun i => (List.range n).map fun j => (answeredBlock P players key
    (block j) (flags j) (fun i => x i j) (part j) (T j) i).s :=
      hss.trans (table_congr fun i hi => (h₃ i hi).1)
  have hshares : ∀ j < n, ∀ i ∈ players, ((List.range n).map fun j => (answeredBlock P players key
      (block j) (flags j) (fun i => x i j) (part j) (T j) i).s)[j]? = some (beBytes 32
        (blockShare P players key (block j) (flags j) (fun i => x i j) (part j) (T j) i)) := by
    intro j hj i _
    simp [hj, answeredBlock]
  have hfinish := returns_eachPlayer (w := w₃) hP.nonempty (f := fun i =>
    getEddsaSignature (P.host i) txid (table players fun i => (List.range n).map fun j =>
      (answeredBlock P players key (block j) (flags j) (fun i => x i j) (part j) (T j) i).s))
      fun i hi => by
      obtain ⟨metadata, hload, hpublic, -⟩ := (hready i hi).loads
      have hblock : ∀ j < n, finishBlock P.algebra P.hash metadata.publicKey data.chaincode i
          (table players fun i => (List.range n).map fun j => (answeredBlock P players key
            (block j) (flags j) (fun i => x i j) (part j) (T j) i).s) j
          (answeredBlock P players key (block j) (flags j) (fun i => x i j) (part j) (T j) i) =
            .ok (blockSignature P players key (block j) (flags j) (fun i => x i j) (part j)
              (T j)) := by
        intro j hj
        rw [hpublic]
        exact ((hagreed j hj).finishBlock (hshares j hj) hi).1
      exact returns_getEddsaSignature (h₃ i hi).2 (hready i hi).metadata (hready i hi).commitments
        (hP.tenant i hi) (hP.id i hi) hi hload hblock
  apply hfinish.imp
  intro out w₄ h
  obtain ⟨hothers₄, sigs, hsigs, h₄⟩ := h
  refine ⟨fun i => ?_, (List.range n).map fun j => blockSignature P players key (block j)
    (flags j) (fun i => x i j) (part j) (T j), ?_, ?_, ?_⟩
  · by_cases hi : i ∈ players
    · exact (h₄ i hi).2
    · rw [hothers₄ i hi, hothers₃ i hi, hothers₂ i hi, hothers₁ i hi]
  · rw [hsigs]
    exact table_congr fun i hi => (h₄ i hi).1
  · rw [List.length_map, List.length_range, hn]
  · intro j b sig hb hsig
    have hj : j < n := hn ▸ (List.getElem?_eq_some_iff.1 hb).1
    rw [hblocks] at hb
    obtain rfl : block j = b := by simpa [hj] using hb
    obtain rfl : blockSignature P players key (block j) (flags j) (fun i => x i j) (part j) (T j) =
      sig := by simpa [hj] using hsig
    obtain ⟨first, hfirst⟩ := hP.nonempty
    refine ⟨_, (hcommon j hj).publicKey, ?_⟩
    rw [ed25519_generic]
    exact ((hagreed j hj).finishBlock (hshares j hj) hfirst).2

end Run

section Concrete
open KeySetupSessions AddedUsers

def holdingSigner (i : ℕ) : Signer trustingScheme :=
  ⟨0, (holdingParty i).store, fun _ => none, fun _ => none⟩

/-- Two blocks, one of them under a derived key. -/
def concreteData : SigningData := ⟨zeroBytes 32, [⟨[1], []⟩, ⟨[2], [44, 60]⟩]⟩

theorem signableData_concreteData : SignableData concreteData where
  few := by decide
  message b hb := by
    have hshort : ∀ b ∈ concreteData.blocks, b.data ≠ [] ∧ b.data.length < 2 ^ 32 := by decide
    exact ⟨(hshort b hb).1, (hshort b hb).2⟩
  path := by decide

theorem online_signing_completes_concrete :
    Returns (eddsaSign concretePlayers {1, 2} (ascii "key") [7] concreteData ∅ 9) holdingSigner
      fun out w' => (∀ i, (w' i).store = (holdingSigner i).store) ∧
        ∃ sigs : List EddsaSignature, out = table {1, 2} (fun _ => sigs) ∧ sigs.length = 2 ∧
        ∀ (j : ℕ) block sig, concreteData.blocks[j]? = some block → sigs[j]? = some sig →
          ∃ derived, derivePublicKeyGeneric exponentGroup prefixHash (Ed25519Point.generic
            (exponentGroup.encode (sharedPoint exponentGroup {1, 2} heldKey))) (zeroBytes 32)
              block.path = .ok derived ∧
            ed25519Verify exponentGroup prefixHash block.data sig.R sig.s derived.ed25519
              (eddsaKeccak 0) = true :=
  online_signing_completes
    ⟨⟨1, by decide⟩, by decide, fun _ _ => rfl, fun _ _ => rfl,
      fun i _ => (draws_concretePlayers i).works, fun _ _ => rfl, fun _ _ => rfl⟩
    signableData_concreteData fun i _ => ⟨holdsShare_holdingParty i, rfl, rfl⟩

end Concrete

end MpcDemo.OnlineSignatures
