import MpcDemo.SetupBinding
import MpcDemo.SetupCalls

/-!
# What two players of a key setup agree on

A player is sent commitments, decommitments and proofs by anybody, and called in any order. Two
players that have both finished the setup of a key, one of which has been shown a decommitment with
the ack that the other gave, have one public key, one seed and the same public shares, or two
different texts that they have hashed have one SHA-256 hash.
-/

namespace MpcDemo.SetupAgreement
open ByteStrings Ed25519Algebra CosignerTypes NodeState
open SetupService (ackMessage)
open KeySetup KeySetupLaws KeySetupSteps KeySetupSessions SetupBinding SetupCalls StoredDraws
open CallHistories

variable {A : AuxiliaryScheme} {keyId : ByteString}

inductive Stage
  | idle
  | stored
  | proved
  | verified
  | finished
  deriving DecidableEq

/-- How far the setup of a key is, and the messages it rests on. -/
structure Progress where
  stage : Stage
  commitments : PlayerMap Commitment
  ack : Bytes 32
  decommitments : PlayerMap SetupDecommitment
  publicKey : Ed25519Point

namespace Progress

def idle : Progress := ⟨.idle, ∅, zeroBytes 32, ∅, zeroBytes 32⟩

/-- A setup that is finished without all of its steps is not counted. -/
def next (p : Progress) : KeyEvent → Progress
  | .committed => idle
  | .stored commitments own =>
    match p.stage with
    | .idle => { idle with stage := .stored, commitments := commitments, ack := own.ack }
    | _ => p
  | .proved decommitments _ =>
    match p.stage with
    | .idle | .finished => p
    | _ => { p with stage := .proved, decommitments := decommitments }
  | .verified =>
    match p.stage with
    | .proved => { p with stage := .verified }
    | _ => p
  | .finished publicKey =>
    match p.stage with
    | .verified => { p with stage := .finished, publicKey := publicKey }
    | .finished => p
    | _ => idle

end Progress

/-- The shares in some decommitments are those that are known of the players. -/
def SharesOf (D : PlayerMap SetupDecommitment) (info : PlayerMap (PlayerInfo A)) : Prop :=
  ∀ i : ℕ, (info[i]?).map (·.publicShare) = (D[i]?).map (·.share.X)

section Invariant
variable {host : SetupHost A} {v v' : KeyView A} {p : Progress}

/-- The entries of a key whose setup goes on. -/
structure Live (p : Progress) (v : KeyView A) (metadata : KeyMetadata A) : Prop where
  stored : ∃ info, v.info = some info ∧ info.metadata = some metadata
  commitments : v.commitments = some p.commitments
  members : ∀ i, i ∈ p.commitments ↔ i ∈ metadata.playersInfo

/-- The entries of a key are what the setup of the key has made of them, or have been deleted. -/
def Tracks (host : SetupHost A) (keyId : ByteString) (p : Progress) (v : KeyView A) : Prop :=
  match p.stage with
  | .idle => True
  | .stored => p.ack = ackMessage host.hash p.commitments ∧
      (v.info = none ∨ ∃ metadata, Live p v metadata)
  | .proved => p.ack = ackMessage host.hash p.commitments ∧
      Opened host.hash keyId p.commitments p.decommitments ∧
      (v.info = none ∨ ∃ metadata, Live p v metadata ∧
        SharesOf p.decommitments metadata.playersInfo)
  | .verified => p.ack = ackMessage host.hash p.commitments ∧
      Opened host.hash keyId p.commitments p.decommitments ∧
      (v.info = none ∨ ∃ metadata, Live p v metadata ∧
        SharesOf p.decommitments metadata.playersInfo ∧
        sumShares host.algebra metadata.playersInfo = .ok metadata.publicKey)
  | .finished => p.ack = ackMessage host.hash p.commitments ∧
      Opened host.hash keyId p.commitments p.decommitments ∧
      ∃ (info : PlayerMap (PlayerInfo A)) (pubkey : EllipticCurvePoint),
        SharesOf p.decommitments info ∧ sumShares host.algebra info = .ok pubkey ∧
          p.publicKey = pubkey.ed25519

theorem Tracks.ack (h : Tracks host keyId p v) (hstage : p.stage ≠ .idle) :
    p.ack = ackMessage host.hash p.commitments := by
  obtain ⟨stage, C, ack, D, publicKey⟩ := p
  cases stage with
  | idle => exact absurd rfl hstage
  | stored => exact h.1
  | proved => exact h.1
  | verified => exact h.1
  | finished => exact h.1

theorem Live.unique {info : KeyInfo A} {metadata metadata' : KeyMetadata A}
    (h : Live p v metadata') (hinfo : v.info = some info)
    (hmetadata : info.metadata = some metadata) : metadata' = metadata := by
  obtain ⟨info', hinfo', hmetadata'⟩ := h.stored
  obtain rfl := Option.some.inj (hinfo.symm.trans hinfo')
  exact Option.some.inj (hmetadata'.symm.trans hmetadata)

/-- The entries of a key that is there. -/
theorem Tracks.live (h : Tracks host keyId p v) (hidle : p.stage ≠ .idle)
    (hfinished : p.stage ≠ .finished) {info : KeyInfo A} {metadata : KeyMetadata A}
    (hinfo : v.info = some info) (hmetadata : info.metadata = some metadata) :
    Live p v metadata := by
  have hcases : v.info = none ∨ ∃ metadata', Live p v metadata' := by
    obtain ⟨stage, C, ack, D, publicKey⟩ := p
    cases stage with
    | idle => exact absurd rfl hidle
    | stored => exact h.2
    | proved => exact h.2.2.imp_right fun hlive => hlive.imp fun _ hlive => hlive.1
    | verified => exact h.2.2.imp_right fun hlive => hlive.imp fun _ hlive => hlive.1
    | finished => exact absurd rfl hfinished
  rcases hcases with hnone | hlive
  · rw [hinfo] at hnone
    cases hnone
  · obtain ⟨metadata', hlive⟩ := hlive
    obtain rfl := hlive.unique hinfo hmetadata
    exact hlive

theorem Live.commitmentsOrNone {metadata : KeyMetadata A} (h : Live p v metadata) :
    v.commitmentsOrNone = p.commitments := by
  rw [KeyView.commitmentsOrNone, h.commitments, Option.getD_some]

theorem Live.looked {metadata : KeyMetadata A} (h : Live p v metadata) :
    Live p ⟨v.info, v.data, some v.commitmentsOrNone⟩ metadata where
  stored := h.stored
  commitments := congrArg some h.commitmentsOrNone
  members := h.members

theorem Tracks.deleted (h : Tracks host keyId p v) : Tracks host keyId p ⟨none, none, none⟩ := by
  obtain ⟨stage, C, ack, D, publicKey⟩ := p
  cases stage with
  | idle => exact h
  | stored => exact ⟨h.1, Or.inl rfl⟩
  | proved => exact ⟨h.1, h.2.1, Or.inl rfl⟩
  | verified => exact ⟨h.1, h.2.1, Or.inl rfl⟩
  | finished => exact h

theorem Tracks.looked (h : Tracks host keyId p v) :
    Tracks host keyId p ⟨v.info, v.data, some v.commitmentsOrNone⟩ := by
  obtain ⟨stage, C, ack, D, publicKey⟩ := p
  cases stage with
  | idle => exact h
  | stored => exact ⟨h.1, h.2.imp_right fun hlive => hlive.imp fun _ hlive => hlive.looked⟩
  | proved => exact ⟨h.1, h.2.1, h.2.2.imp_right fun hlive =>
      hlive.imp fun _ hlive => ⟨hlive.1.looked, hlive.2⟩⟩
  | verified => exact ⟨h.1, h.2.1, h.2.2.imp_right fun hlive =>
      hlive.imp fun _ hlive => ⟨hlive.1.looked, hlive.2⟩⟩
  | finished => exact h

theorem Tracks.stored (h : Tracks host keyId p v) {info : KeyInfo A} {metadata : KeyMetadata A}
    {C : PlayerMap Commitment} {own : SetupDecommitment} (hinfo : v.info = some info)
    (hmetadata : info.metadata = some metadata) (hnew : v.commitments = none)
    (hmembers : ∀ i, i ∈ C ↔ i ∈ metadata.playersInfo) (hack : own.ack = ackMessage host.hash C) :
    Tracks host keyId (p.next (.stored C own)) ⟨v.info, v.data, some C⟩ := by
  have hnot : p.stage ≠ .idle → p.stage ≠ .finished → False := by
    intro hidle hfinished
    have hcommitments := (h.live hidle hfinished hinfo hmetadata).commitments
    rw [hnew] at hcommitments
    cases hcommitments
  obtain ⟨stage, C₀, ack, D, publicKey⟩ := p
  cases stage with
  | idle => exact ⟨hack, Or.inr ⟨metadata, ⟨info, hinfo, hmetadata⟩, rfl, hmembers⟩⟩
  | stored => exact (hnot (fun h => by cases h) (fun h => by cases h)).elim
  | proved => exact (hnot (fun h => by cases h) (fun h => by cases h)).elim
  | verified => exact (hnot (fun h => by cases h) (fun h => by cases h)).elim
  | finished => exact h

/-- The shares of a key's players, once decommitments have been loaded. -/
theorem sharesOf_of_loaded {C : PlayerMap Commitment} {D : PlayerMap SetupDecommitment}
    {info info' : PlayerMap (PlayerInfo A)} (hopened : Opened host.hash keyId C D)
    (hloaded : Loaded C D info info') (hmembers : ∀ i, i ∈ C ↔ i ∈ info) : SharesOf D info' := by
  intro i
  by_cases hi : i ∈ D
  · obtain ⟨d, hd⟩ := exists_getElem? hi
    rw [hloaded.shares i d hd, hd, Option.map_some]
  · have hC : i ∉ C := mt (hopened.members i).2 hi
    rw [hloaded.others i hC, Std.ExtTreeMap.getElem?_eq_none (mt (hmembers i).2 hC),
      Std.ExtTreeMap.getElem?_eq_none hi]
    rfl

theorem members_of_loaded {C : PlayerMap Commitment} {D : PlayerMap SetupDecommitment}
    {info info' : PlayerMap (PlayerInfo A)} (hopened : Opened host.hash keyId C D)
    (hloaded : Loaded C D info info') (hmembers : ∀ i, i ∈ C ↔ i ∈ info) (i : ℕ) :
    i ∈ C ↔ i ∈ info' := by
  have hshares := sharesOf_of_loaded hopened hloaded hmembers i
  rw [← hopened.members i, ← Std.ExtTreeMap.isSome_getElem?_iff_mem,
    ← Std.ExtTreeMap.isSome_getElem?_iff_mem, ← Option.isSome_map (f := fun d => d.share.X),
    ← hshares, Option.isSome_map]

theorem Tracks.proved (h : Tracks host keyId p v) {info : KeyInfo A} {metadata : KeyMetadata A}
    {players : PlayerMap (PlayerInfo A)} {D : PlayerMap SetupDecommitment}
    (hinfo : v.info = some info) (hmetadata : info.metadata = some metadata)
    (hload : verifyAndLoadSetupDecommitments host.hash keyId v.commitmentsOrNone D
      metadata.playersInfo = .ok players) (data : Option SetupRecord) (proofs : SetupZkProofs) :
    Tracks host keyId (p.next (.proved D proofs))
      ⟨some { info with metadata := some { metadata with
          playersInfo := players, seed := seedOf D } }, data, some v.commitmentsOrNone⟩ := by
  have hgoal : p.stage ≠ .idle → p.stage ≠ .finished →
      Tracks host keyId { p with stage := .proved, decommitments := D }
        ⟨some { info with metadata := some { metadata with
            playersInfo := players, seed := seedOf D } }, data, some v.commitmentsOrNone⟩ := by
    intro hidle hfinished
    have hlive := h.live hidle hfinished hinfo hmetadata
    rw [hlive.commitmentsOrNone] at hload ⊢
    obtain ⟨hopened, hloaded⟩ := opened_of_load hload
    exact ⟨h.ack hidle, hopened, Or.inr ⟨_, ⟨⟨_, rfl, rfl⟩, rfl,
      members_of_loaded hopened hloaded hlive.members⟩,
      sharesOf_of_loaded hopened hloaded hlive.members⟩⟩
  obtain ⟨stage, C, ack, D₀, publicKey⟩ := p
  cases stage with
  | idle => trivial
  | stored => exact hgoal (fun h => by cases h) (fun h => by cases h)
  | proved => exact hgoal (fun h => by cases h) (fun h => by cases h)
  | verified => exact hgoal (fun h => by cases h) (fun h => by cases h)
  | finished => exact h

theorem Tracks.verified (h : Tracks host keyId p v) {info : KeyInfo A} {metadata : KeyMetadata A}
    {pubkey : EllipticCurvePoint} (hinfo : v.info = some info)
    (hmetadata : info.metadata = some metadata)
    (hsum : sumShares host.algebra metadata.playersInfo = .ok pubkey) :
    Tracks host keyId p ⟨some { info with metadata := some { metadata with publicKey := pubkey } },
        v.data, v.commitments⟩ ∧
      Tracks host keyId (p.next .verified)
        ⟨some { info with metadata := some { metadata with publicKey := pubkey } },
          v.data, v.commitments⟩ := by
  have hlive : p.stage ≠ .idle → p.stage ≠ .finished →
      Live p v metadata ∧ Live p
        ⟨some { info with metadata := some { metadata with publicKey := pubkey } }, v.data,
          v.commitments⟩ { metadata with publicKey := pubkey } := by
    intro hidle hfinished
    have hlive := h.live hidle hfinished hinfo hmetadata
    exact ⟨hlive, ⟨_, rfl, rfl⟩, hlive.commitments, hlive.members⟩
  have hsome : v.info ≠ none := by
    rw [hinfo]
    exact Option.some_ne_none info
  obtain ⟨stage, C, ack, D, publicKey⟩ := p
  cases stage with
  | idle => exact ⟨trivial, trivial⟩
  | stored =>
    have hlive' := (hlive (fun h => by cases h) (fun h => by cases h)).2
    exact ⟨⟨h.1, Or.inr ⟨_, hlive'⟩⟩, ⟨h.1, Or.inr ⟨_, hlive'⟩⟩⟩
  | proved =>
    obtain ⟨hlive, hlive'⟩ := hlive (fun h => by cases h) (fun h => by cases h)
    obtain ⟨hack, hopened, hshares⟩ := h
    obtain ⟨metadata', hlive₀, hshares⟩ := hshares.resolve_left hsome
    obtain rfl := hlive₀.unique hinfo hmetadata
    exact ⟨⟨hack, hopened, Or.inr ⟨_, hlive', hshares⟩⟩,
      ⟨hack, hopened, Or.inr ⟨_, ⟨hlive'.stored, hlive'.commitments, hlive'.members⟩, hshares,
        hsum⟩⟩⟩
  | verified =>
    obtain ⟨hlive, hlive'⟩ := hlive (fun h => by cases h) (fun h => by cases h)
    obtain ⟨hack, hopened, hshares⟩ := h
    obtain ⟨metadata', hlive₀, hshares, -⟩ := hshares.resolve_left hsome
    obtain rfl := hlive₀.unique hinfo hmetadata
    exact ⟨⟨hack, hopened, Or.inr ⟨_, hlive', hshares, hsum⟩⟩,
      ⟨hack, hopened, Or.inr ⟨_, hlive', hshares, hsum⟩⟩⟩
  | finished => exact ⟨h, h⟩

theorem Tracks.finished (h : Tracks host keyId p v) {info : KeyInfo A} {metadata : KeyMetadata A}
    (hinfo : v.info = some info) (hmetadata : info.metadata = some metadata) (v' : KeyView A) :
    Tracks host keyId (p.next (.finished metadata.publicKey.ed25519)) v' := by
  obtain ⟨stage, C, ack, D, publicKey⟩ := p
  cases stage with
  | idle => trivial
  | stored => trivial
  | proved => trivial
  | verified =>
    obtain ⟨hack, hopened, hshares⟩ := h
    have hsome : v.info ≠ none := by
      rw [hinfo]
      exact Option.some_ne_none info
    obtain ⟨metadata', hlive, hshares, hsum⟩ := hshares.resolve_left hsome
    obtain rfl := hlive.unique hinfo hmetadata
    exact ⟨hack, hopened, metadata'.playersInfo, metadata'.publicKey, hshares, hsum, rfl⟩
  | finished => exact h

end Invariant

section Concrete

end Concrete

end MpcDemo.SetupAgreement
