import MpcDemo.Relay

/-!
# The relay as a barrier

A poll counts messages, while a barrier should count participants. The two agree as long as
no participant posts to a round twice.
-/

namespace MpcDemo.RelayBarrier
open Relay

variable {ρ ι δ : Type} [DecidableEq ρ] [DecidableEq ι]

/-- However many participants a poll asks for, it is answered only when that many different
ones have posted to the round since the last reset. -/
def WaitsForParticipants (history : List (Request ρ ι δ)) (roundId : ρ) : Prop :=
  ∀ expectedCount, (poll (messagesAfter history) roundId expectedCount).isSome = true →
    expectedCount ≤ (senders roundId history).toFinset.card

theorem card_toFinset_eq_length_iff (l : List ι) : l.toFinset.card = l.length ↔ l.Nodup := by
  rw [List.card_toFinset]
  constructor
  · intro h
    rw [← List.dedup_eq_self]
    exact l.dedup_sublist.eq_of_length h
  · intro h
    rw [List.dedup_eq_self.2 h]

/-- After every history the relay is a barrier for a round exactly when no participant has
posted to it twice since the last reset. -/
theorem waitsForParticipants_iff (history : List (Request ρ ι δ)) (roundId : ρ) :
    WaitsForParticipants history roundId ↔ (senders roundId history).Nodup := by
  rw [← card_toFinset_eq_length_iff]
  have hle := List.toFinset_card_le (senders roundId history)
  constructor
  · intro h
    have hready : (poll (messagesAfter history) roundId (senders roundId history).length).isSome =
        true := by
      rw [poll_isSome_iff, Ready, length_messagesAfter]
    have hcard := h _ hready
    omega
  · intro heq expectedCount hready
    rw [poll_isSome_iff, Ready, length_messagesAfter] at hready
    omega

/-- Participant 1 posts twice and a poll for two participants is answered. -/
theorem waitsForParticipants_fails :
    ¬ ∀ (history : List (Request ℕ ℕ ℕ)) (roundId : ℕ) (expectedCount : ℤ),
      (poll (messagesAfter history) roundId expectedCount).isSome = true →
        expectedCount ≤ (senders roundId history).toFinset.card := by
  intro h
  have hbarrier := h [.broadcast 0 1 0, .broadcast 0 1 0] 0 2 (by decide)
  revert hbarrier
  decide

end MpcDemo.RelayBarrier
