import MpcDemo.SetupBinding
import MpcDemo.SetupCalls

/-!
# A setup gives one proof of knowledge

Whatever is called in whatever order, the proofs that a player gives of knowing its share in one
setup of a key are all the same, unless a commitment that it has stored is opened in two ways. The
nonce behind them lasts as long as the setup, and no proof is given without one.
-/

namespace MpcDemo.SetupAnswers
open ByteStrings Ed25519Algebra CosignerTypes NodeState
open KeySetup KeySetupLaws KeySetupSteps SetupBinding SetupCalls StoredDraws CallHistories

variable {A : AuxiliaryScheme} {keyId : ByteString}

/-- The answers that have been given since the key was last committed to. -/
def answers (keyId : ByteString) : List (CallStep A) → List Ed25519Scalar
  | [] => []
  | step :: earlier =>
    match event keyId step with
    | some .committed => []
    | some (.proved _ proofs) => proofs.schnorrS :: answers keyId earlier
    | _ => answers keyId earlier

def storedCommitments (keyId : ByteString) (history : List (CallStep A)) :
    List (PlayerMap Commitment) :=
  history.filterMap fun step =>
    match event keyId step with
    | some (.stored commitments _) => some commitments
    | _ => none

def shownDecommitments (keyId : ByteString) (history : List (CallStep A)) :
    List (PlayerMap SetupDecommitment) :=
  history.filterMap fun step =>
    match event keyId step with
    | some (.proved decommitments _) => some decommitments
    | _ => none

/-- One of the commitments that have been stored for a key is opened in two ways. -/
def StoredOpenedTwice (H : HashFunctions) (keyId : ByteString) (history : List (CallStep A)) :
    Prop :=
  ∃ C ∈ storedCommitments keyId history, ∃ D ∈ shownDecommitments keyId history,
    ∃ D' ∈ shownDecommitments keyId history, OpenedTwice H keyId C D D'

section Histories
variable {step : CallStep A} {history : List (CallStep A)} {H : HashFunctions}

theorem answers_none (h : event keyId step = none) :
    answers keyId (step :: history) = answers keyId history := by rw [answers, h]

theorem answers_committed (h : event keyId step = some .committed) :
    answers keyId (step :: history) = [] := by rw [answers, h]

theorem answers_stored {C : PlayerMap Commitment} {own : SetupDecommitment}
    (h : event keyId step = some (.stored C own)) :
    answers keyId (step :: history) = answers keyId history := by rw [answers, h]

theorem answers_proved {D : PlayerMap SetupDecommitment} {proofs : SetupZkProofs}
    (h : event keyId step = some (.proved D proofs)) :
    answers keyId (step :: history) = proofs.schnorrS :: answers keyId history := by
  rw [answers, h]

theorem answers_verified (h : event keyId step = some .verified) :
    answers keyId (step :: history) = answers keyId history := by rw [answers, h]

theorem answers_finished {publicKey : Ed25519Point}
    (h : event keyId step = some (.finished publicKey)) :
    answers keyId (step :: history) = answers keyId history := by rw [answers, h]

theorem mem_filterMap_cons {β : Type} {f : CallStep A → Option β} {b : β}
    (h : b ∈ history.filterMap f) : b ∈ (step :: history).filterMap f := by
  rw [List.mem_filterMap] at h ⊢
  obtain ⟨earlier, hearlier, hb⟩ := h
  exact ⟨earlier, List.mem_cons_of_mem step hearlier, hb⟩

theorem mem_storedCommitments {C : PlayerMap Commitment} {own : SetupDecommitment}
    (h : event keyId step = some (.stored C own)) :
    C ∈ storedCommitments keyId (step :: history) :=
  List.mem_filterMap.2 ⟨step, List.mem_cons_self, by rw [h]⟩

theorem mem_shownDecommitments {D : PlayerMap SetupDecommitment} {proofs : SetupZkProofs}
    (h : event keyId step = some (.proved D proofs)) :
    D ∈ shownDecommitments keyId (step :: history) :=
  List.mem_filterMap.2 ⟨step, List.mem_cons_self, by rw [h]⟩

theorem StoredOpenedTwice.cons (h : StoredOpenedTwice H keyId history) (step : CallStep A) :
    StoredOpenedTwice H keyId (step :: history) := by
  obtain ⟨C, hC, D, hD, D', hD', h⟩ := h
  exact ⟨C, mem_filterMap_cons hC, D, mem_filterMap_cons hD, D', mem_filterMap_cons hD', h⟩

end Histories

section Invariant
variable {host : SetupHost A} {history : List (CallStep A)} {v v' : KeyView A}
variable {step : CallStep A} {a : Ed25519Scalar}

/-- An answer is the one that the entries of the key give to decommitments that were shown. -/
def Answered (host : SetupHost A) (keyId : ByteString) (history : List (CallStep A))
    (v : KeyView A) (a : Ed25519Scalar) : Prop :=
  ∃ info data C D, v.info = some info ∧ v.data = some data ∧ v.commitments = some C ∧
    D ∈ shownDecommitments keyId history ∧ Opened host.hash keyId C D ∧
    schnorrZkpGenerate host.algebra host.hash (buildAad keyId
      (host.service.getIdFromKeyid keyId) (seedOf D)) info.privateKey data.publicKey data.k = .ok a

/-- What holds of one key after any calls. -/
structure Sound (host : SetupHost A) (keyId : ByteString) (history : List (CallStep A))
    (v : KeyView A) : Prop where
  missing : v.info = none → v.commitments = none
  stored : ∀ C, v.commitments = some C → C = ∅ ∨ C ∈ storedCommitments keyId history
  answered : ∀ a ∈ answers keyId history, v.info = none ∨ v.data = none ∨
    Answered host keyId history v a
  agree : StoredOpenedTwice host.hash keyId history ∨
    ∀ a ∈ answers keyId history, ∀ b ∈ answers keyId history, a = b

theorem Sound.stored_cons (h : Sound host keyId history v) (step : CallStep A) :
    ∀ C, v.commitments = some C → C = ∅ ∨ C ∈ storedCommitments keyId (step :: history) :=
  fun C hC => (h.stored C hC).imp_right mem_filterMap_cons

/-- Entries with the same share and the same nonce give the same answers. -/
theorem Answered.cons {info info' : KeyInfo A} {data data' : SetupRecord}
    (h : Answered host keyId history v a) (step : CallStep A) (hinfo : v.info = some info)
    (hinfo' : v'.info = some info') (hkey : info'.privateKey = info.privateKey)
    (hdata : v.data = some data) (hdata' : v'.data = some data')
    (hpublicKey : data'.publicKey = data.publicKey) (hk : data'.k = data.k)
    (hcommitments : v'.commitments = v.commitments) :
    Answered host keyId (step :: history) v' a := by
  obtain ⟨info₀, data₀, C, D, hinfo₀, hdata₀, hC, hD, hopened, hanswer⟩ := h
  obtain rfl := Option.some.inj (hinfo.symm.trans hinfo₀)
  obtain rfl := Option.some.inj (hdata.symm.trans hdata₀)
  rw [← hkey, ← hpublicKey, ← hk] at hanswer
  exact ⟨info', data', C, D, hinfo', hdata', hcommitments.trans hC, mem_filterMap_cons hD,
    hopened, hanswer⟩

/-- Two answers are equal, or a commitment is opened in two ways. -/
theorem eq_of_answers {info : KeyInfo A} {data : SetupRecord} {C : PlayerMap Commitment}
    {D D' : PlayerMap SetupDecommitment} {b : Ed25519Scalar} {aad : Bytes 32 → ByteString}
    (hopened : Opened host.hash keyId C D) (hopened' : Opened host.hash keyId C D')
    (hanswer : schnorrZkpGenerate host.algebra host.hash (aad (seedOf D)) info.privateKey
      data.publicKey data.k = .ok a)
    (hanswer' : schnorrZkpGenerate host.algebra host.hash (aad (seedOf D')) info.privateKey
      data.publicKey data.k = .ok b) : OpenedTwice host.hash keyId C D D' ∨ a = b := by
  refine (sameShares_of_opened hopened hopened').imp_right fun hsame => ?_
  have hseed : seedOf D = seedOf D' := by
    apply seedOf_eq
    intro i
    by_cases hi : i ∈ C
    · obtain ⟨d, hd⟩ := exists_getElem? ((hopened.members i).2 hi)
      obtain ⟨d', hd'⟩ := exists_getElem? ((hopened'.members i).2 hi)
      rw [hd, hd', Option.map_some, Option.map_some, (hsame i d d' hd hd').seed]
    · rw [Std.ExtTreeMap.getElem?_eq_none (mt (hopened.members i).1 hi),
        Std.ExtTreeMap.getElem?_eq_none (mt (hopened'.members i).1 hi)]
  rw [hseed] at hanswer
  exact Except.ok.inj (hanswer.symm.trans hanswer')

/-- Without setup data there is no nonce to answer with. -/
theorem not_prove_of_none {aad : ByteString} {key : Ed25519Scalar} (h : v.data = none) :
    schnorrZkpGenerate host.algebra host.hash aad key v.record.publicKey v.record.k ≠ .ok a := by
  have hk : v.record.k = zeroBytes 32 := by rw [KeyView.record, h, Option.getD_none]
  intro hanswer
  rw [schnorrZkpGenerate, if_pos (Or.inr hk)] at hanswer
  cases hanswer

/-- A step that gives no answer. -/
theorem Sound.silent (h : Sound host keyId history v)
    (hanswers : answers keyId (step :: history) = answers keyId history)
    (hmissing : v'.info = none → v'.commitments = none)
    (hstored : ∀ C, v'.commitments = some C → C = ∅ ∨
      C ∈ storedCommitments keyId (step :: history))
    (hanswered : ∀ a ∈ answers keyId history, v'.info = none ∨ v'.data = none ∨
      Answered host keyId (step :: history) v' a) : Sound host keyId (step :: history) v' where
  missing := hmissing
  stored := hstored
  answered a ha := hanswered a (hanswers ▸ ha)
  agree := by
    rw [hanswers]
    exact h.agree.imp_left fun h => h.cons step

/-- A proof of knowledge is the one that has been given before. -/
theorem Sound.proved (h : Sound host keyId history v) {info : KeyInfo A}
    {metadata : KeyMetadata A} {players : PlayerMap (PlayerInfo A)}
    {D : PlayerMap SetupDecommitment} {proofs : SetupZkProofs}
    (hevent : event keyId step = some (.proved D proofs)) (hinfo : v.info = some info)
    (hload : verifyAndLoadSetupDecommitments host.hash keyId v.commitmentsOrNone D
      metadata.playersInfo = .ok players)
    (hprove : schnorrZkpGenerate host.algebra host.hash (buildAad keyId
      (host.service.getIdFromKeyid keyId) (seedOf D)) info.privateKey v.record.publicKey
      v.record.k = .ok proofs.schnorrS) (metadata' : KeyMetadata A) :
    Sound host keyId (step :: history)
      ⟨some { info with metadata := some metadata' },
        some ⟨v.record.toSetupData, pointsOf D v.record.playersSchnorrR⟩,
        some v.commitmentsOrNone⟩ := by
  obtain ⟨hopened, -⟩ := opened_of_load hload
  have hD : D ∈ shownDecommitments keyId (step :: history) := mem_shownDecommitments hevent
  have hstored : v.commitmentsOrNone = ∅ ∨
      v.commitmentsOrNone ∈ storedCommitments keyId (step :: history) := by
    cases hC : v.commitments with
    | none => exact Or.inl (by rw [KeyView.commitmentsOrNone, hC, Option.getD_none])
    | some C =>
      rw [KeyView.commitmentsOrNone, hC, Option.getD_some]
      exact h.stored_cons step C hC
  obtain ⟨data, hdata⟩ : ∃ data, v.data = some data := by
    cases hdata : v.data with
    | none => exact absurd hprove (not_prove_of_none hdata)
    | some data => exact ⟨data, rfl⟩
  have hrecord : v.record = data := by rw [KeyView.record, hdata, Option.getD_some]
  rw [hrecord] at hprove ⊢
  have hanswered : ∀ a ∈ answers keyId history, Answered host keyId history v a := by
    intro a ha
    rcases h.answered a ha with hnone | hnone | hanswered
    · rw [hinfo] at hnone
      cases hnone
    · rw [hdata] at hnone
      cases hnone
    · exact hanswered
  have hsame : ∀ a ∈ answers keyId history,
      StoredOpenedTwice host.hash keyId (step :: history) ∨ a = proofs.schnorrS := by
    intro a ha
    obtain ⟨info₀, data₀, C, D₀, hinfo₀, hdata₀, hC, hD₀, hopened₀, hanswer⟩ := hanswered a ha
    obtain rfl := Option.some.inj (hinfo.symm.trans hinfo₀)
    obtain rfl := Option.some.inj (hdata.symm.trans hdata₀)
    have hcommitments : v.commitmentsOrNone = C := by
      rw [KeyView.commitmentsOrNone, hC, Option.getD_some]
    rw [hcommitments] at hopened hstored
    rcases eq_of_answers hopened₀ hopened hanswer hprove with htwice | heq
    · refine Or.inl ⟨C, hstored.resolve_left fun hempty => ?_, D₀, mem_filterMap_cons hD₀, D, hD,
        htwice⟩
      obtain ⟨i, c, d, d', hc, -⟩ := htwice
      rw [hempty] at hc
      cases hc
    · exact Or.inr heq
  refine ⟨fun hnone => (by cases hnone), fun C hC => ?_, ?_, ?_⟩
  · obtain rfl := Option.some.inj hC
    exact hstored
  · rw [answers_proved hevent]
    intro a ha
    refine Or.inr (Or.inr ?_)
    rcases List.mem_cons.1 ha with rfl | ha
    · exact ⟨_, _, v.commitmentsOrNone, D, rfl, rfl, rfl, hD, hopened, hprove⟩
    · have hcommitments : some v.commitmentsOrNone = v.commitments := by
        obtain ⟨_, _, C, _, _, _, hC, -⟩ := hanswered a ha
        rw [KeyView.commitmentsOrNone, hC, Option.getD_some]
      exact (hanswered a ha).cons step hinfo rfl rfl hdata rfl rfl rfl hcommitments
  · rw [answers_proved hevent]
    by_cases htwice : StoredOpenedTwice host.hash keyId (step :: history)
    · exact Or.inl htwice
    · have hall : ∀ a ∈ proofs.schnorrS :: answers keyId history, a = proofs.schnorrS := by
        intro a ha
        rcases List.mem_cons.1 ha with rfl | ha
        · rfl
        · exact (hsame a ha).resolve_left htwice
      exact Or.inr fun a ha b hb => (hall a ha).trans (hall b hb).symm

theorem Sound.after (h : Sound host keyId history v)
    (hstep : KeyStep host keyId v (event keyId step) v') :
    Sound host keyId (step :: history) v' := by
  generalize hevent : event keyId step = e at hstep
  cases hstep with
  | idle =>
    refine h.silent (answers_none hevent) h.missing (h.stored_cons step) fun a ha => ?_
    refine (h.answered a ha).imp_right (Or.imp_right fun hanswered => ?_)
    obtain ⟨info, data, C, D, hinfo, hdata, hC, hD, hrest⟩ := hanswered
    exact ⟨info, data, C, D, hinfo, hdata, hC, mem_filterMap_cons hD, hrest⟩
  | committed hnew =>
    have hnone := h.missing hnew
    refine ⟨fun hnone => (by cases hnone), fun C hC => ?_, fun a ha => ?_,
      Or.inr fun a ha => ?_⟩
    · have hC : v.commitments = some C := hC
      rw [hnone] at hC
      cases hC
    · rw [answers_committed hevent] at ha
      cases ha
    · rw [answers_committed hevent] at ha
      cases ha
  | stored hinfo hmetadata hnew hmembers hack =>
    refine h.silent (answers_stored hevent) (fun hnone => ?_) (fun C hC => ?_) fun a ha => ?_
    · have hnone : v.info = none := hnone
      rw [hinfo] at hnone
      cases hnone
    · obtain rfl := Option.some.inj hC
      exact Or.inr (mem_storedCommitments hevent)
    · refine (h.answered a ha).imp_right (Or.imp_right fun hanswered => ?_)
      obtain ⟨_, _, C, _, _, _, hC, -⟩ := hanswered
      rw [hnew] at hC
      cases hC
  | looked hinfo =>
    refine h.silent (answers_none hevent) (fun hnone => ?_) (fun C hC => ?_) fun a ha => ?_
    · have hnone : v.info = none := hnone
      rw [hinfo] at hnone
      cases hnone
    · obtain rfl := Option.some.inj hC
      cases hC : v.commitments with
      | none => exact Or.inl (by rw [KeyView.commitmentsOrNone, hC, Option.getD_none])
      | some C =>
        rw [KeyView.commitmentsOrNone, hC, Option.getD_some]
        exact h.stored_cons step C hC
    · refine (h.answered a ha).imp_right (Or.imp_right fun hanswered => ?_)
      obtain ⟨info, data, C, D, hinfo, hdata, hC, hD, hrest⟩ := hanswered
      refine ⟨info, data, C, D, hinfo, hdata, ?_, mem_filterMap_cons hD, hrest⟩
      change some v.commitmentsOrNone = some C
      rw [KeyView.commitmentsOrNone, hC, Option.getD_some]
  | proved hinfo hmetadata hload hprove => exact h.proved hevent hinfo hload hprove _
  | verified hinfo hmetadata hsum he =>
    have hanswers : answers keyId (step :: history) = answers keyId history := by
      rcases he with rfl | rfl
      · exact answers_verified hevent
      · exact answers_none hevent
    refine h.silent hanswers (fun hnone => (by cases hnone)) (h.stored_cons step)
      fun a ha => ?_
    refine (h.answered a ha).elim (fun hnone => ?_) fun hanswered => Or.inr (hanswered.imp_right ?_)
    · rw [hinfo] at hnone
      cases hnone
    · intro hanswered
      obtain ⟨info, data, C, D, hinfo₀, hdata, hC, hD, hrest⟩ := hanswered
      obtain rfl := Option.some.inj (hinfo.symm.trans hinfo₀)
      exact ⟨_, data, C, D, rfl, hdata, hC, mem_filterMap_cons hD, hrest⟩
  | finished hinfo hmetadata =>
    exact h.silent (answers_finished hevent) (fun _ => rfl) (fun C hC => (by cases hC))
      fun a ha => Or.inr (Or.inl rfl)
  | deleted =>
    exact h.silent (answers_none hevent) (fun _ => rfl) (fun C hC => (by cases hC))
      fun a ha => Or.inl rfl

end Invariant

section Concrete
open KeySetupSessions

/-- The first player is asked for its proofs twice. -/
def repeatedHistory : List (CallStep trustingScheme) :=
  (follow (exec (concretePlayers.host 1)) Party.initial (pairProves.take 1 ++ pairProves)).1

end Concrete

end MpcDemo.SetupAnswers
