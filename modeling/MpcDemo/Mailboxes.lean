import MpcDemo.RoundIds
import MpcDemo.ThreeNodes

/-!
# The mailboxes of the relay

Every phase of every session has a round name of its own. The relay knows a round only by the
text it decodes from a body or from a URL, and where it decodes the names themselves its
dictionary is one mailbox for each phase of each session.
-/

namespace MpcDemo.Mailboxes
open ByteStrings HexText Utf8Text UrlQueries Relay RoundIds ThreeNodes

/-- What the nodes ask of the relay, in the words of the orchestrators. -/
inductive Call
  | reset
  | broadcast (round : Round) (myId : ℕ) (data : ByteString)
  | await (round : Round) (expectedCount : ℕ)
  deriving DecidableEq

/-- The request that the relay finds in the body or in the URL of a call, if it finds one. -/
def received (replaceInvalid : ByteString → ByteString) :
    Call → Option (Request ByteString ℕ ByteString)
  | .reset => some .reset
  | .broadcast round myId data =>
    (filedUnder (cString (broadcastJson myId round.name data))).map fun roundId =>
      .broadcast roundId myId data
  | .await round expectedCount =>
    (polledFor replaceInvalid (cString (pollUrl round.name expectedCount))).map fun asked =>
      .poll asked.1 asked.2

/-- The dictionary of the relay after some calls, the latest first. -/
def filed (replaceInvalid : ByteString → ByteString) (calls : List Call) :
    Messages ByteString ℕ ByteString :=
  messagesAfter (calls.filterMap (received replaceInvalid))

/-- The answer to a poll after some calls. -/
def returned (replaceInvalid : ByteString → ByteString) (calls : List Call) (round : Round)
    (expectedCount : ℕ) : Option (List (ℕ × ByteString)) :=
  match polledFor replaceInvalid (cString (pollUrl round.name expectedCount)) with
  | none => none
  | some asked => poll (filed replaceInvalid calls) asked.1 asked.2

/-- A call as a request to a relay that keeps one mailbox for each phase of each session. -/
def meant : Call → Request Round ℕ ByteString
  | .reset => .reset
  | .broadcast round myId data => .broadcast round myId data
  | .await round expectedCount => .poll round expectedCount

/-- The session id of a round, if it has one, means nothing in a JSON string or in a query. -/
def TransparentRound : Round → Prop
  | .keygenCommit => True
  | .keygenReveal => True
  | .preprocess requestId => Transparent requestId
  | .sign _ txid => Transparent txid

def TransparentCall : Call → Prop
  | .reset => True
  | .broadcast round _ _ => TransparentRound round
  | .await round _ => TransparentRound round

/-- The data of a call is what the orchestrators post. -/
def OfOrchestrators : Call → Prop
  | .reset => True
  | .broadcast _ _ data => Payload data
  | .await .. => True

section Names
variable {round : Round}

theorem mem_surroundings (step : SigningStep) :
    (ascii "sign_", ascii step.suffix) ∈ surroundings := by
  cases step <;> decide +kernel

private theorem transparent_of_clean {bytes : ByteString} (h : (∀ c ∈ bytes, isAscii c = true) ∧
    Plain bytes ∧ (35 : UInt8) ∉ bytes ∧ (38 : UInt8) ∉ bytes ∧ (43 : UInt8) ∉ bytes ∧
      percentDecode bytes = bytes) : Transparent bytes := by
  obtain ⟨hascii, hplain, hhash, hand, hplus, hcode⟩ := h
  exact ⟨utf8_of_ascii hascii, hplain, hhash, hand, hplus, not_hasCode_iff.2 hcode⟩

theorem transparent_name (h : TransparentRound round) : Transparent round.name := by
  cases round with
  | keygenCommit => exact transparent_of_clean (by decide +kernel)
  | keygenReveal => exact transparent_of_clean (by decide +kernel)
  | preprocess requestId =>
    have hsurrounds := surrounds_of_mem (ascii "preprocess_", []) List.mem_cons_self
    have hname := Transparent.surround hsurrounds h
    rwa [List.append_nil] at hname
  | sign step txid =>
    exact Transparent.surround (surrounds_of_mem _ (mem_surroundings step)) h

end Names

section Requests
variable {replaceInvalid : ByteString → ByteString} {call : Call} {calls : List Call}
variable {round : Round} {m : Message ℕ ByteString}

/-- A request under round names. -/
def named : Request Round ℕ ByteString → Request ByteString ℕ ByteString
  | .reset => .reset
  | .broadcast round senderId data => .broadcast round.name senderId data
  | .poll round expectedCount => .poll round.name expectedCount

theorem received_of_transparent (h : Replaces replaceInvalid) (hcall : TransparentCall call)
    (hdata : OfOrchestrators call) : received replaceInvalid call = some (named (meant call)) := by
  cases call with
  | reset => rfl
  | broadcast round myId data =>
    obtain ⟨hutf8, hplain, -⟩ := transparent_name hcall
    rw [received, filed_of_plain hutf8 hplain hdata]
    rfl
  | await round expectedCount =>
    rw [received, polledFor_of_transparent h (transparent_name hcall)]
    rfl

/-- Under distinct names the dictionary keeps the mailboxes apart. -/
theorem perform_named {messages : Messages ByteString ℕ ByteString}
    {mailboxes : Messages Round ℕ ByteString}
    (h : ∀ round : Round, messages round.name = mailboxes round)
    (request : Request Round ℕ ByteString) (round : Round) :
    perform messages (named request) round.name = perform mailboxes request round := by
  cases request with
  | reset => rfl
  | poll round' expectedCount => exact h round
  | broadcast round' senderId data =>
    simp only [named, perform, Relay.broadcast]
    by_cases heq : round = round'
    · subst heq
      rw [Function.update_self, Function.update_self, h]
    · rw [Function.update_of_ne (Round.name_ne heq), Function.update_of_ne heq, h]

/-- The dictionary of the relay is one mailbox for each phase of each session. -/
theorem filed_name (h : Replaces replaceInvalid) (hcalls : ∀ call ∈ calls, TransparentCall call)
    (hdata : ∀ call ∈ calls, OfOrchestrators call) (round : Round) :
    filed replaceInvalid calls round.name = messagesAfter (calls.map meant) round := by
  induction calls generalizing round with
  | nil => rfl
  | cons call calls ih =>
    have hreceived := received_of_transparent h (hcalls call List.mem_cons_self)
      (hdata call List.mem_cons_self)
    have hearlier := ih (fun c hc => hcalls c (List.mem_cons_of_mem call hc))
      fun c hc => hdata c (List.mem_cons_of_mem call hc)
    rw [filed, List.filterMap_cons_some hreceived]
    exact perform_named hearlier (meant call) round

private theorem poll_congr {mailboxes : Messages Round ℕ ByteString}
    {messages : Messages ByteString ℕ ByteString} (h : messages round.name = mailboxes round)
    (expectedCount : ℤ) :
    poll messages round.name expectedCount = poll mailboxes round expectedCount := by
  have hready : Ready messages round.name expectedCount ↔ Ready mailboxes round expectedCount := by
    rw [Ready, Ready, h]
  by_cases hr : Ready messages round.name expectedCount
  · rw [poll, poll, if_pos hr, if_pos (hready.1 hr), h]
  · rw [poll, poll, if_neg hr, if_neg fun hr' => hr (hready.2 hr')]

theorem returned_eq_poll (h : Replaces replaceInvalid)
    (hcalls : ∀ call ∈ calls, TransparentCall call) (hdata : ∀ call ∈ calls, OfOrchestrators call)
    (hround : TransparentRound round) (expectedCount : ℕ) :
    returned replaceInvalid calls round expectedCount =
      poll (messagesAfter (calls.map meant)) round expectedCount := by
  rw [returned, polledFor_of_transparent h (transparent_name hround)]
  exact poll_congr (filed_name h hcalls hdata round) expectedCount

/-- What is in a mailbox was posted to it. -/
theorem mem_calls_of_mem (h : m ∈ messagesAfter (calls.map meant) round) :
    Call.broadcast round m.senderId m.data ∈ calls := by
  induction calls with
  | nil => cases h
  | cons call calls ih =>
    cases call with
    | reset => cases h
    | await round' expectedCount => exact List.mem_cons_of_mem _ (ih h)
    | broadcast round' myId data =>
      rw [List.map_cons, messagesAfter, meant, perform, Relay.broadcast] at h
      by_cases heq : round = round'
      · subst heq
        rw [Function.update_self, List.mem_append, List.mem_singleton] at h
        rcases h with h | rfl
        · exact List.mem_cons_of_mem _ (ih h)
        · exact List.mem_cons_self
      · rw [Function.update_of_ne heq] at h
        exact List.mem_cons_of_mem _ (ih h)

theorem mem_calls_of_poll {expectedCount : ℕ} {entries : List (ℕ × ByteString)}
    (h : poll (messagesAfter (calls.map meant)) round expectedCount = some entries)
    {e : ℕ × ByteString} (he : e ∈ entries) : Call.broadcast round e.1 e.2 ∈ calls := by
  rw [poll] at h
  split at h
  · obtain rfl := Option.some.inj h
    obtain ⟨m, hm, hsender, hdata⟩ := exists_of_lastData (mem_dataMap_iff.1 he)
    rw [← hsender, ← hdata]
    exact mem_calls_of_mem hm
  · cases h

end Requests

/-- Round names tell phases and sessions apart, and among transparent session ids no poll returns
a message of another phase or session, whatever is asked in which order. -/
theorem mailboxes_apart {replaceInvalid : ByteString → ByteString} (h : Replaces replaceInvalid) :
    (∀ round round' : Round, round.name = round'.name → round = round') ∧
      ∀ calls : List Call, (∀ call ∈ calls, OfOrchestrators call) →
        (∀ call ∈ calls, TransparentCall call) → ∀ round, TransparentRound round →
          ∀ expectedCount,
            returned replaceInvalid calls round expectedCount =
              poll (messagesAfter (calls.map meant)) round expectedCount ∧
            ∀ entries, returned replaceInvalid calls round expectedCount = some entries →
              ∀ e ∈ entries, Call.broadcast round e.1 e.2 ∈ calls := by
  refine ⟨fun _ _ heq => Round.name_injective heq, ?_⟩
  intro calls hdata hcalls round hround expectedCount
  have hreturned := returned_eq_poll h hcalls hdata hround expectedCount
  refine ⟨hreturned, fun entries hentries e he => ?_⟩
  rw [hreturned] at hentries
  exact mem_calls_of_poll hentries he

/-- A partial signature and the list of them in one session. -/
theorem mailboxes_apart_concrete :
    returned id [.broadcast (.sign .r2Sigs (ascii "tx-1")) 2 (toHex [8]),
        .broadcast (.sign .r2 (ascii "tx-1")) 1 (toHex [7])] (.sign .r2 (ascii "tx-1")) 1 =
      some [(1, toHex [7])] := by
  have h : Replaces id := ⟨fun _ _ => rfl, fun _ => rfl⟩
  have ht : Transparent (ascii "tx-1") := transparent_of_clean (by decide +kernel)
  refine ((mailboxes_apart h).2 _ ?_ ?_ (.sign .r2 (ascii "tx-1")) ht 1).1.trans ?_
  · simp only [List.mem_cons, List.not_mem_nil, or_false, forall_eq_or_imp, forall_eq]
    exact ⟨Or.inr ⟨_, rfl⟩, Or.inr ⟨_, rfl⟩⟩
  · simp only [List.mem_cons, List.not_mem_nil, or_false, forall_eq_or_imp, forall_eq]
    exact ⟨ht, ht⟩
  · decide +kernel

/-- A poll for the ready messages of one session is answered with those of another. -/
theorem mailboxes_meet :
    let others : List Call := [.broadcast (.sign .ready (ascii "x")) 3 (ascii "ready"),
      .broadcast (.sign .ready (ascii "x")) 2 (ascii "ready"),
      .broadcast (.sign .ready (ascii "x")) 1 (ascii "ready")]
    returned id others (.sign .ready (ascii "x_ready&y")) 3 =
        some [(1, ascii "ready"), (2, ascii "ready"), (3, ascii "ready")] ∧
      ∀ i data, Call.broadcast (.sign .ready (ascii "x_ready&y")) i data ∉ others := by
  intro others
  refine ⟨by decide +kernel, fun i data hmem => ?_⟩
  simp only [others, List.mem_cons, Call.broadcast.injEq, Round.sign.injEq, List.not_mem_nil,
    or_false] at hmem
  rcases hmem with ⟨⟨-, h⟩, -⟩ | ⟨⟨-, h⟩, -⟩ | ⟨⟨-, h⟩, -⟩ <;> revert h <;> decide

end MpcDemo.Mailboxes
