import MpcDemo.NodePrograms
import MpcDemo.Serialization
import MpcDemo.SetupService

/-!
# The key generation of a node

`KeygenOrchestrator::run` as a program that talks to the relay.
-/

namespace MpcDemo.KeygenOrchestrator
open ByteStrings Ed25519Algebra CosignerTypes FallibleState Persistencies NodeState Processes
open SetupService Serialization NodePrograms

/-- The players' public shares, as the decommitments have them. -/
def publicShares (decommitments : PlayerMap SetupDecommitment) : PlayerMap CmpPlayerInfo :=
  decommitments.toList.foldl (fun info d => info.insert d.1 ⟨d.2.share.X⟩) ∅

/-- The first share is copied, the others are added to it. -/
def combineShares (E : Ed25519) : List EllipticCurvePoint → Except Failure EllipticCurvePoint
  | [] => .ok (zeroBytes 33)
  | X :: rest => rest.foldlM (fun sum X => (addPoints E sum X).mapError fun _ =>
      Failure.runtimeError "Public key aggregation failed") X

def finalMetadata (E : Ed25519) (decommitments : PlayerMap SetupDecommitment) :
    Except Failure CmpKeyMetadata := do
  let playersInfo := publicShares decommitments
  let publicKey ← combineShares E (playersInfo.toList.map fun info => info.2.publicShare)
  .ok ⟨publicKey, .eddsaEd25519, 3, 3, playersInfo⟩

def commitPhase : ByteString := ascii "keygen_commit_phase"

def revealPhase : ByteString := ascii "keygen_reveal_phase"

def run (host : Host) : NodeProg Unit := do
  let myComm ← Prog.lift (generateSetupCommitments host configKeyId [1, 2, 3] 3)
  broadcast commitPhase (serializeCommitment myComm)
  let r1 ← awaitData commitPhase
  let allComm ← Prog.lift (ofExcept (decodeEntries deserializeCommitment (fun _ => true) r1))
  let myDecomm ← Prog.lift (storeSetupCommitments host configKeyId allComm)
  broadcast revealPhase (serializeDecommitment myDecomm)
  let r2 ← awaitData revealPhase
  let allDecomm ← Prog.lift (ofExcept (decodeEntries deserializeDecommitment (fun _ => true) r2))
  let metadata ← Prog.lift (ofExcept (finalMetadata host.algebra allDecomm))
  Prog.lift (modifyKeys (·.storeKeyMetadata configKeyId metadata true))

theorem getElem?_publicShares (decommitments : PlayerMap SetupDecommitment) (i : ℕ)
    (info : CmpPlayerInfo) : (publicShares decommitments)[i]? = some info ↔
      ∃ d, decommitments[i]? = some d ∧ info.publicShare = d.share.X := by
  have hmap : publicShares decommitments =
      (decommitments.toList.map fun d => (d.1, CmpPlayerInfo.mk d.2.share.X)).foldl
        (fun info d => info.insert d.1 d.2) ∅ := by
    rw [List.foldl_map]
    rfl
  have hnodup : ((decommitments.toList.map fun d => (d.1, CmpPlayerInfo.mk d.2.share.X)).map
      Prod.fst).Nodup := by
    rw [List.map_map]
    exact nodup_keys decommitments
  rw [hmap, NetworkManager.getElem?_foldl_insert hnodup]
  simp only [List.mem_map, Prod.mk.injEq, Prod.exists,
    Std.ExtTreeMap.mem_toList_iff_getElem?_eq_some, Std.ExtTreeMap.getElem?_empty, reduceCtorEq,
    and_false, or_false]
  constructor
  · intro h
    obtain ⟨j, d, hget, rfl, rfl⟩ := h
    exact ⟨d, hget, rfl⟩
  · intro h
    obtain ⟨d, hget, hinfo⟩ := h
    exact ⟨i, d, hget, rfl, by rw [← hinfo]⟩

/-- Encoded shares add up, and the sum is what is stored. -/
theorem combineShares_encode (E : Ed25519) (P : E.Point) (Ps : List E.Point) :
    combineShares E ((P :: Ps).map fun P => Ed25519Point.generic (E.encode P)) =
      .ok (Ed25519Point.generic (E.encode (P :: Ps).sum)) := by
  induction Ps generalizing P with
  | nil =>
    rw [List.sum_singleton]
    rfl
  | cons Q Ps ih =>
    have hadd : addPoints E (Ed25519Point.generic (E.encode P)) (Ed25519Point.generic (E.encode Q)) =
        .ok (Ed25519Point.generic (E.encode (P + Q))) :=
      addPoints_eq_ok_iff.2 ⟨P, Q, by rw [ed25519_generic, E.decode_encode],
        by rw [ed25519_generic, E.decode_encode], rfl⟩
    have hnext := ih (P + Q)
    simp only [List.map_cons, combineShares, List.foldlM_cons, hadd, Except.mapError] at hnext ⊢
    simp only [List.sum_cons] at hnext ⊢
    rw [← add_assoc, ← hnext]
    rfl

theorem finalMetadata_ok_iff {E : Ed25519} {decommitments : PlayerMap SetupDecommitment}
    {metadata : CmpKeyMetadata} : finalMetadata E decommitments = .ok metadata ↔
      ∃ publicKey, combineShares E ((publicShares decommitments).toList.map
          fun info => info.2.publicShare) = .ok publicKey ∧
        metadata = ⟨publicKey, .eddsaEd25519, 3, 3, publicShares decommitments⟩ := by
  simp only [finalMetadata, except_bind_ok_iff, Except.ok.injEq]
  exact exists_congr fun publicKey => and_congr_right fun _ => eq_comm

/-- Shares that are all encodings are combined, if there are any. -/
theorem exists_finalMetadata {E : Ed25519} {decommitments : PlayerMap SetupDecommitment}
    (h : ∀ (i : ℕ) (d : SetupDecommitment), decommitments[i]? = some d →
      ∃ P, d.share.X = Ed25519Point.generic (E.encode P)) :
    ∃ metadata, finalMetadata E decommitments = .ok metadata := by
  have hall : ∀ X ∈ (publicShares decommitments).toList.map (fun info => info.2.publicShare),
      X ∈ Set.range fun P => Ed25519Point.generic (E.encode P) := by
    intro X hX
    obtain ⟨info, hinfo, rfl⟩ := List.mem_map.1 hX
    obtain ⟨d, hd, hX⟩ := (getElem?_publicShares decommitments info.1 info.2).1
      (Std.ExtTreeMap.mem_toList_iff_getElem?_eq_some.1 hinfo)
    obtain ⟨P, hP⟩ := h info.1 d hd
    exact ⟨P, by rw [hX, hP]⟩
  obtain ⟨Ps, hPs⟩ := (Set.range_list_map _).ge hall
  cases Ps with
  | nil => exact ⟨_, finalMetadata_ok_iff.2 ⟨zeroBytes 33, by rw [← hPs]; rfl, rfl⟩⟩
  | cons P Ps =>
    have hsum := combineShares_encode E P Ps
    exact ⟨_, finalMetadata_ok_iff.2 ⟨_, by rw [← hPs]; exact hsum, rfl⟩⟩

end MpcDemo.KeygenOrchestrator
