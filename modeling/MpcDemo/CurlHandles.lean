import MpcDemo.Persistencies
import MpcDemo.RoundIds

/-!
# The header list of a curl handle

All requests of a `NetworkManager` go through one handle, which keeps its options from one request
to the next: the list installed with `CURLOPT_HTTPHEADER` is not copied and stays until it is
replaced. A broadcast frees its list after the request and leaves it installed.
-/

namespace MpcDemo.CurlHandles
open ByteStrings Persistencies NetworkManager RoundIds

/-- A request as it is performed, and the header lists that are not freed at that moment. -/
structure Request where
  url : ByteString
  postFields : Option ByteString
  httpHeader : Option ℕ
  live : Finset ℕ
  deriving DecidableEq

/-- The header list of the request, if there is one, has not been freed. -/
def Request.UsesLive (r : Request) : Prop := ∀ l ∈ r.httpHeader, l ∈ r.live

/-- A handle with its options, the header lists of the program by the order of their allocation,
and the requests performed so far, the latest first. -/
structure Handle where
  url : ByteString
  postFields : Option ByteString
  httpHeader : Option ℕ
  live : Finset ℕ
  allocated : ℕ
  requests : List Request

namespace Handle
variable (h : Handle)

/-- `curl_easy_init` -/
def init : Handle := ⟨[], none, none, ∅, 0, []⟩

/-- `curl_slist_append` to `NULL` -/
def slistAppend : ℕ × Handle :=
  (h.allocated, { h with live := insert h.allocated h.live, allocated := h.allocated + 1 })

/-- `curl_slist_free_all` -/
def slistFreeAll (l : ℕ) : Handle := { h with live := h.live.erase l }

def setUrl (url : ByteString) : Handle := { h with url := url }

def setPostFields (fields : ByteString) : Handle := { h with postFields := some fields }

/-- A request without a body from now on. -/
def setHttpGet : Handle := { h with postFields := none }

def setHttpHeader (l : ℕ) : Handle := { h with httpHeader := some l }

/-- `curl_easy_perform` -/
def perform : Handle :=
  { h with requests := ⟨h.url, h.postFields, h.httpHeader, h.live⟩ :: h.requests }

end Handle

section Calls

def broadcast (myId : ℕ) (roundId data : ByteString) (h : Handle) : Handle :=
  let (headers, h) := h.slistAppend
  let h := h.setUrl (relayUrl ++ ascii "/broadcast")
  let h := h.setPostFields (broadcastJson myId roundId data)
  let h := h.setHttpHeader headers
  let h := h.perform
  h.slistFreeAll headers

/-- One request of the waiting loop. -/
def pollOnce (url : ByteString) (h : Handle) : Handle := ((h.setUrl url).setHttpGet).perform

/-- The waiting loop, with the responses to its requests up to the one that is ready. -/
def pollLoop (url : ByteString) : List ByteString → Handle → Handle
  | [], h => h
  | resp :: later, h =>
    let h := pollOnce url h
    if isReady resp then h else pollLoop url later h

/-- A call that waits has a response to its first request, and maybe later ones. -/
def awaitDataCustomCount (roundId : ByteString) (expectedCount : ℕ) (first : ByteString)
    (later : List ByteString) (h : Handle) : Handle :=
  pollLoop (pollUrl roundId expectedCount) (first :: later) h

def awaitData (roundId first : ByteString) (later : List ByteString) (h : Handle) : Handle :=
  awaitDataCustomCount roundId totalPlayers first later h

inductive Call
  | broadcast (roundId data : ByteString)
  | awaitData (roundId first : ByteString) (later : List ByteString)
  | awaitDataCustomCount (roundId : ByteString) (expectedCount : ℕ) (first : ByteString)
      (later : List ByteString)

def Call.isBroadcast : Call → Bool
  | broadcast .. => true
  | _ => false

def exec (myId : ℕ) : Call → Handle → Handle
  | .broadcast roundId data => CurlHandles.broadcast myId roundId data
  | .awaitData roundId first later => CurlHandles.awaitData roundId first later
  | .awaitDataCustomCount roundId expectedCount first later =>
    CurlHandles.awaitDataCustomCount roundId expectedCount first later

/-- The calls of a run, the first one first. -/
def run (myId : ℕ) (calls : List Call) (h : Handle) : Handle :=
  calls.foldl (fun h c => exec myId c h) h

end Calls

section Steps
variable {h : Handle} {c : Call} {myId : ℕ}

/-- The installed list has been freed. -/
def Stale (h : Handle) : Prop := ∃ l ∈ h.httpHeader, l ∉ h.live

def AllLive (h : Handle) : Prop := ∀ r ∈ h.requests, r.UsesLive

/-- A broadcast uses its own list and leaves it installed. -/
theorem broadcast_step (roundId data : ByteString) :
    Stale (broadcast myId roundId data h) ∧
      (AllLive (broadcast myId roundId data h) ↔ AllLive h) := by
  refine ⟨⟨h.allocated, rfl, Finset.notMem_erase _ _⟩, ?_⟩
  have hown : Request.UsesLive ⟨relayUrl ++ ascii "/broadcast",
      some (broadcastJson myId roundId data), some h.allocated, insert h.allocated h.live⟩ := by
    intro l hl
    obtain rfl := Option.some.inj hl
    exact Finset.mem_insert_self _ _
  exact List.forall_mem_cons.trans (and_iff_right hown)

theorem pollOnce_step (url : ByteString) :
    (pollOnce url h).httpHeader = h.httpHeader ∧ (pollOnce url h).live = h.live ∧
      (AllLive (pollOnce url h) ↔ ¬ Stale h ∧ AllLive h) := by
  refine ⟨rfl, rfl, List.forall_mem_cons.trans (and_congr_left fun _ => ?_)⟩
  simp [Request.UsesLive, Stale, Handle.setUrl, Handle.setHttpGet]

/-- A waiting loop changes no list, and its requests use the installed one. -/
theorem pollLoop_step (url : ByteString) (responses : List ByteString) :
    (pollLoop url responses h).httpHeader = h.httpHeader ∧
      (pollLoop url responses h).live = h.live ∧
        (AllLive (pollLoop url responses h) ↔ (responses ≠ [] → ¬ Stale h) ∧ AllLive h) := by
  induction responses generalizing h with
  | nil => simp [pollLoop]
  | cons resp later ih =>
    obtain ⟨hheader, hlive, hall⟩ := @pollOnce_step h url
    have hstale : Stale (pollOnce url h) ↔ Stale h := by rw [Stale, hheader, hlive, Stale]
    obtain ⟨hheader', hlive', hall'⟩ := @ih (pollOnce url h)
    rw [pollLoop]
    cases isReady resp with
    | true =>
      simp only [if_true]
      exact ⟨hheader, hlive, by simp [hall]⟩
    | false =>
      simp only [Bool.false_eq_true, if_false]
      refine ⟨hheader'.trans hheader, hlive'.trans hlive, ?_⟩
      rw [hall', hall, hstale]
      simp only [ne_eq, reduceCtorEq, not_false_eq_true, true_imp_iff]
      tauto

/-- What one call does to the handle: a broadcast leaves a list that has been freed, a wait uses
whatever is installed. -/
theorem exec_step : (c.isBroadcast = true → Stale (exec myId c h) ∧
      (AllLive (exec myId c h) ↔ AllLive h)) ∧
    (c.isBroadcast = false → (exec myId c h).httpHeader = h.httpHeader ∧
      (exec myId c h).live = h.live ∧ (AllLive (exec myId c h) ↔ ¬ Stale h ∧ AllLive h)) := by
  have hwait : ∀ roundId count first later,
      (awaitDataCustomCount roundId count first later h).httpHeader = h.httpHeader ∧
        (awaitDataCustomCount roundId count first later h).live = h.live ∧
          (AllLive (awaitDataCustomCount roundId count first later h) ↔
            ¬ Stale h ∧ AllLive h) := by
    intro roundId count first later
    have hloop := @pollLoop_step h (pollUrl roundId count) (first :: later)
    simpa [awaitDataCustomCount] using hloop
  cases c with
  | broadcast roundId data =>
    exact ⟨fun _ => broadcast_step roundId data, fun hc => absurd hc.symm Bool.false_ne_true⟩
  | awaitData roundId first later =>
    exact ⟨fun hc => absurd hc Bool.false_ne_true, fun _ => hwait roundId totalPlayers first later⟩
  | awaitDataCustomCount roundId count first later =>
    exact ⟨fun hc => absurd hc Bool.false_ne_true, fun _ => hwait roundId count first later⟩

end Steps

section Runs
variable {h : Handle} {myId : ℕ} {calls : List Call}

/-- Once a freed list is installed every wait uses it. -/
theorem allLive_run_of_stale (hstale : Stale h) :
    AllLive (run myId calls h) ↔ AllLive h ∧ ∀ c ∈ calls, c.isBroadcast = true := by
  induction calls generalizing h with
  | nil => simp [run]
  | cons c calls ih =>
    obtain ⟨hbroadcast, hwait⟩ := @exec_step h c myId
    rw [run, List.foldl_cons, ← run, List.forall_mem_cons]
    cases hc : c.isBroadcast with
    | true =>
      obtain ⟨hstale', hall⟩ := hbroadcast hc
      rw [ih hstale', hall]
      simp
    | false =>
      obtain ⟨hheader, hlive, hall⟩ := hwait hc
      have hstale' : Stale (exec myId c h) := by rwa [Stale, hheader, hlive]
      rw [ih hstale', hall]
      simp [hstale]

/-- Before the first broadcast no list is installed. -/
theorem allLive_run_of_none (hnone : h.httpHeader = none) :
    AllLive (run myId calls h) ↔
      AllLive h ∧ calls.Pairwise fun c c' => c.isBroadcast = true → c'.isBroadcast = true := by
  induction calls generalizing h with
  | nil => simp [run]
  | cons c calls ih =>
    obtain ⟨hbroadcast, hwait⟩ := @exec_step h c myId
    rw [run, List.foldl_cons, ← run, List.pairwise_cons]
    cases hc : c.isBroadcast with
    | true =>
      obtain ⟨hstale, hall⟩ := hbroadcast hc
      have hpairs : (∀ c ∈ calls, c.isBroadcast = true) →
          calls.Pairwise fun c c' => c.isBroadcast = true → c'.isBroadcast = true :=
        fun hbroadcasts => List.pairwise_of_forall_mem_list fun _ _ c' hc' _ => hbroadcasts c' hc'
      rw [allLive_run_of_stale hstale, hall]
      simp only [true_imp_iff]
      exact and_congr_right fun _ => ⟨fun h => ⟨h, hpairs h⟩, And.left⟩
    | false =>
      obtain ⟨hheader, hlive, hall⟩ := hwait hc
      have hfresh : ¬ Stale h := by simp [Stale, hnone]
      rw [ih (hheader.trans hnone), hall]
      simp [hfresh]

/-- Every request of a run uses a list that has not been freed exactly when no wait follows a
broadcast. -/
theorem requests_useLive_iff (myId : ℕ) (calls : List Call) :
    AllLive (run myId calls .init) ↔
      calls.Pairwise fun c c' => c.isBroadcast = true → c'.isBroadcast = true := by
  rw [allLive_run_of_none rfl]
  exact and_iff_right fun r hr => absurd hr List.not_mem_nil

/-- A message and a wait. -/
theorem requests_useFreed :
    ¬ AllLive (run 1 [.broadcast [] [], .awaitData [] [] []] .init) := by
  rw [allLive_run_of_none rfl]
  simp [Call.isBroadcast]

end Runs

end MpcDemo.CurlHandles
