import MpcDemo.Relay

/-!
# What two polls of one round see

A ready round still takes messages, and an answer has the last data of each sender. Two answers
to polls for equally many messages are the same as long as the posts in between only repeat what
their senders had posted last.
-/

namespace MpcDemo.RoundAgreement
open Relay

variable {ρ ι δ : Type} [DecidableEq ρ] [DecidableEq ι]

/-- The same data from the same senders. -/
def SameMap (a a' : List (ι × δ)) : Prop :=
  ∀ senderId data, (senderId, data) ∈ a ↔ (senderId, data) ∈ a'

/-- Every two answers to a poll for a round, before and after some further requests, for equally
many messages, have the same map. -/
def SameAnswers (earlier later : List (Request ρ ι δ)) (roundId : ρ) : Prop :=
  ∀ expectedCount a a', poll (messagesAfter earlier) roundId expectedCount = some a →
    poll (messagesAfter (later ++ earlier)) roundId expectedCount = some a' → SameMap a a'

/-- What a sender has posted last to a round among some requests without a reset, the latest
first. -/
def lastPost (roundId : ρ) (senderId : ι) : List (Request ρ ι δ) → Option δ
  | [] => none
  | .broadcast roundId' senderId' data :: earlier =>
    if roundId' = roundId ∧ senderId' = senderId then some data
    else lastPost roundId senderId earlier
  | _ :: earlier => lastPost roundId senderId earlier

/-- Who posts to a round later has posted there before and posts last what it had posted last. -/
def OnlyRepeats (earlier later : List (Request ρ ι δ)) (roundId : ρ) : Prop :=
  ∀ senderId data, lastPost roundId senderId later = some data →
    lastData (messagesAfter earlier roundId) senderId = some data

variable {earlier later : List (Request ρ ι δ)} {roundId : ρ}

/-- The messages of a round as they are after some more requests. -/
theorem lastData_later (hreset : Request.reset ∉ later) (senderId : ι) :
    lastData (messagesAfter (later ++ earlier) roundId) senderId =
      (lastPost roundId senderId later).or (lastData (messagesAfter earlier roundId) senderId) := by
  induction later with
  | nil => rfl
  | cons request later ih =>
    obtain ⟨hne, hreset⟩ := List.ne_and_not_mem_of_not_mem_cons hreset
    have ih := ih hreset
    cases request with
    | reset => exact absurd rfl hne
    | poll => exact ih
    | broadcast roundId' senderId' data =>
      simp only [List.cons_append, messagesAfter, perform, broadcast, lastPost]
      by_cases hround : roundId' = roundId
      · subst hround
        rw [Function.update_self, lastData_append]
        by_cases hsender : senderId' = senderId
        · simp [hsender]
        · simp only [hsender, and_false, if_false, ih]
      · rw [Function.update_of_ne (Ne.symm hround)]
        simp only [hround, false_and, if_false, ih]

omit [DecidableEq ι] in
theorem length_later (hreset : Request.reset ∉ later) :
    (messagesAfter earlier roundId).length ≤ (messagesAfter (later ++ earlier) roundId).length := by
  induction later with
  | nil => exact le_rfl
  | cons request later ih =>
    obtain ⟨hne, hreset⟩ := List.ne_and_not_mem_of_not_mem_cons hreset
    have ih := ih hreset
    cases request with
    | reset => exact absurd rfl hne
    | poll => exact ih
    | broadcast roundId' senderId' data =>
      simp only [List.cons_append, messagesAfter, perform, broadcast]
      by_cases hround : roundId' = roundId
      · subst hround
        rw [Function.update_self, List.length_append]
        omega
      · rwa [Function.update_of_ne (Ne.symm hround)]

/-- Without a reset in between, a round answers alike before and after some requests exactly when
the posts among them only repeat. -/
theorem sameAnswers_iff (hreset : Request.reset ∉ later) :
    SameAnswers earlier later roundId ↔ OnlyRepeats earlier later roundId := by
  have hmaps : SameMap (dataMap (messagesAfter earlier roundId))
      (dataMap (messagesAfter (later ++ earlier) roundId)) ↔ OnlyRepeats earlier later roundId := by
    simp only [SameMap, mem_dataMap_iff, lastData_later hreset]
    constructor
    · intro h senderId data hlast
      rw [h senderId data, hlast]
      rfl
    · intro h senderId data
      cases hlast : lastPost roundId senderId later with
      | none => rfl
      | some data' =>
        rw [h senderId data' hlast]
        rfl
  rw [← hmaps]
  constructor
  · intro h
    refine h (messagesAfter earlier roundId).length _ _ (if_pos le_rfl) (if_pos ?_)
    exact Int.ofNat_le.2 (length_later hreset)
  · intro h expectedCount a a' ha ha'
    rw [poll] at ha ha'
    split at ha
    · split at ha'
      · rw [← Option.some.inj ha, ← Option.some.inj ha']
        exact h
      · cases ha'
    · cases ha

/-- Player 1 posts again with other data. -/
theorem sameAnswers_fails : ¬ ∀ earlier later : List (Request ℕ ℕ ℕ),
    Request.reset ∉ later → SameAnswers earlier later 0 := by
  intro h
  have hsame := h [.broadcast 0 1 5] [.broadcast 0 1 6] (by simp) 1 [(1, 5)] [(1, 6)] (by decide)
    (by decide) 1 5
  revert hsame
  decide

/-- A post that repeats the data of player 1. -/
theorem sameAnswers_iff_repeated :
    SameAnswers [Request.broadcast 0 1 5] [.broadcast 0 1 5, .poll 0 1] 0 ↔
      OnlyRepeats [Request.broadcast 0 1 5] [.broadcast 0 1 5, .poll 0 1] 0 :=
  sameAnswers_iff (by simp)

end MpcDemo.RoundAgreement
