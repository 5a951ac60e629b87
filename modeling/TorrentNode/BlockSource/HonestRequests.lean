/-
  Requests to nodes that have the blocks.

  `P2P_Ips` gives the requests of a call to its servers in any order, and a request that fails to
  another one.  If each response comes from a node that has the blocks (`FromNode`), which may be
  another node each time, a call that returns has what such nodes answer.

  `ips_honest`: this holds in every schedule.
  `honestPeers_of_ips`: a client that makes its calls so has honest peers.
-/
import TorrentNode.BlockSource.Replication
import TorrentNode.P2P.Requests

open Wire Exec Machine

namespace TorrentNode

namespace P2P

/-! ## The responses -/

/-- A response that is received is one to the request that was sent. -/
def Responds (R : Bytes → Bytes → Bytes → Prop) (s : Process) : Action → Prop
  | .receive t (.ok response) => ∀ segment qs post index,
    s.workers[t]? = some (.sent segment qs post index) → R qs post response
  | _ => True

section
variable {e : Env} {s s' : Process}

theorem log_receive (e : Env) (s : Process) (t : ℕ) (segment : Segment) (qs post response : Bytes) :
    (receive e s t segment qs post response).log = s.log ∨ ∃ parsed,
      (receive e s t segment qs post response).log =
        s.log ++ [⟨t, segment, qs, post, response, parsed⟩] := by
  rw [receive]
  split
  · next parsed _ =>
    split_ifs
    · exact Or.inr ⟨parsed, rfl⟩
    · exact Or.inl rfl
  · exact Or.inl rfl

theorem log_takeCurl (e : Env) (s : Process) (t : ℕ) (segment : Segment) (qs post : Bytes) :
    (takeCurl e s t segment qs post).log = s.log := by
  rw [takeCurl]
  dsimp only
  split <;> rfl

theorem log_stepMain {a : Action} (h : stepMain e s a = some s') : s'.log = s.log := by
  unfold stepMain at h
  split at h
  · split at h <;> cases h <;> rfl
  all_goals first
    | (split_ifs at h; cases h; rfl)
    | cases h

/-- Only a response is logged, to the request of the thread. -/
theorem log_stepWorker {t : ℕ} {w : Worker} {a : Action} (ht : a.thread = some t)
    (h : stepWorker e s t w a = some s') : s'.log = s.log ∨
      ∃ segment qs post index response parsed, a = .receive t (.ok response) ∧
        w = .sent segment qs post index ∧
        s'.log = s.log ++ [⟨t, segment, qs, post, response, parsed⟩] := by
  unfold stepWorker at h
  split at h <;> try cases h
  · split_ifs at h
    cases h
    exact Or.inl rfl
  · split_ifs at h
    cases h
    exact Or.inl rfl
  · exact Or.inl rfl
  · split at h <;> cases h <;> exact Or.inl rfl
  · exact Or.inl (log_takeCurl e s t _ _ _)
  · next segment qs post index t' response =>
    obtain rfl : t' = t := Option.some.inj ht
    rcases log_receive e s t' segment qs post response with hlog | ⟨parsed, hlog⟩
    · exact Or.inl hlog
    · exact Or.inr ⟨segment, qs, post, index, response, parsed, rfl, rfl, hlog⟩
  all_goals exact Or.inl rfl

/-- What is logged in a step is a response of the servers. -/
theorem responds_step {R : Bytes → Bytes → Bytes → Prop} {a : Action}
    (hlog : ∀ x ∈ s.log, R x.qs x.post x.response) (hresponds : Responds R s a)
    (h : step e s a = some s') : ∀ x ∈ s'.log, R x.qs x.post x.response := by
  rw [step] at h
  split at h
  · rw [log_stepMain h]
    exact hlog
  · next t ht =>
    obtain ⟨w, hw, h⟩ := Option.bind_eq_some_iff.1 h
    rcases log_stepWorker ht h with hsame |
      ⟨segment, qs, post, index, response, parsed, rfl, rfl, hlast⟩
    · rw [hsame]
      exact hlog
    · rw [hlast]
      intro x hx
      rcases List.mem_append.1 hx with hx | hx
      · exact hlog x hx
      · obtain rfl := List.mem_singleton.1 hx
        exact hresponds segment qs post index hw

theorem responds_runs {R : Bytes → Bytes → Bytes → Prop} {schedule : List Action}
    (halong : Along (step e) (Responds R) e.start schedule)
    (hrun : runs (step e) e.start schedule = some s) : ∀ x ∈ s.log, R x.qs x.post x.response :=
  runs_invariant_along (I := fun s => ∀ x ∈ s.log, R x.qs x.post x.response)
    (fun _ _ _ => responds_step) (fun _ hx => by cases hx) halong hrun

end

/-- In each of the calls of `process` that may be made, the responses satisfy `R`. -/
def AllRespond (R : Bytes → Bytes → Bytes → Prop) (ips : P2PIps) (q : RequestArgs)
    (minResponseSize : ℕ) (schedule : List Action) : Prop :=
  ∀ segments, prepare ips q minResponseSize = .ok segments →
    Along (step (q.env ips segments)) (Responds R) (q.env ips segments).start schedule

/-- If each response in the schedule fits to all requests of the call, the order does not matter. -/
theorem along_of_asked {e : Env} (hnum : Numbered e.segments) {R : Bytes → Bytes → Bytes → Prop}
    {schedule : List Action}
    (h : ∀ t response, .receive t (.ok response) ∈ schedule → ∀ fromByte toByte qs post,
      e.makeQsAndPost fromByte toByte = .ok (qs, post) → R qs post response) {s : Process}
    (hs : Inv e s) : Along (step e) (Responds R) s schedule := by
  induction schedule generalizing s with
  | nil => trivial
  | cons a schedule ih =>
    have hrest : ∀ t response, .receive t (.ok response) ∈ schedule → ∀ fromByte toByte qs post,
        e.makeQsAndPost fromByte toByte = .ok (qs, post) → R qs post response :=
      fun t response hmem => h t response (List.mem_cons_of_mem _ hmem)
    refine ⟨?_, fun s' hstep => ih hrest (inv_step hnum hs hstep)⟩
    rw [Responds.eq_def]
    split
    · next t response =>
      intro segment qs post index hw
      exact h t response List.mem_cons_self _ _ qs post (hs.asked _ (List.mem_of_getElem? hw))
    · trivial

end P2P

namespace GetNewBlocksFromServer

open P2P (P2PIps RequestArgs RequestsArgs Segment Tiles)
open Server

/-! ## Calls in a schedule -/

/-- The response of a node that has the blocks. -/
def FromNode (E : ServerEnv) (O : Offer) (isSign : Bool) (last : ℕ) (qs post response : Bytes) :
    Prop :=
  ∃ sync, O.HeldBy isSign last sync ∧ run E sync qs post = .ok response

section
variable {E : ServerEnv} {O : Offer} {isSign : Bool} {last : ℕ} {ips : P2PIps}
  {schedule : List P2P.Action}

/-- Each answer is the one of a node that has the blocks, to the request with its number. -/
theorem requests_honest {q : RequestsArgs}
    (hnodes : P2P.AllRespond (FromNode E O isSign last) ips q.args 1 schedule)
    {answers : List Bytes} (h : P2P.requests ips q schedule = some (.ok answers)) :
    answers.length = q.countRequests.toNat ∧ ∀ i answer, answers[i]? = some answer →
      ∃ sync qs post raw, O.HeldBy isSign last sync ∧ q.makeQsAndPost i = .ok (qs, post) ∧
        run E sync qs post = .ok raw ∧ q.responseParse raw = .ok ⟨answer, none⟩ := by
  obtain ⟨segments, s, hprep, hrun, hanswered⟩ := P2P.answered_of_requests h
  have hresponds := P2P.responds_runs (hnodes segments hprep) hrun
  refine ⟨hanswered.length, fun i answer hi => ?_⟩
  have hlt := (List.getElem?_eq_some_iff.1 hi).1
  rw [hanswered.length] at hlt
  obtain ⟨x, hx, rfl⟩ := List.mem_map.1 (hanswered.once.mem_iff.2 (List.mem_range.2 hlt))
  obtain ⟨hask, hparse, hanswer⟩ := hanswered.answer x hx
  obtain rfl : x.parsed = answer := Option.some.inj (hanswer.symm.trans hi)
  obtain ⟨sync, hsync, hraw⟩ := hresponds x hx
  exact ⟨sync, x.qs, x.post, x.response, hsync, hask, hraw, hparse⟩

/-- Each part is the answer of a node that has the blocks. -/
theorem request_honest {q : RequestArgs} (hprecision : q.isPrecisionSize = true)
    (hnodes : P2P.AllRespond (FromNode E O isSign last) ips q 1000 schedule) {answer : Bytes}
    (h : P2P.request ips q schedule = some (.ok answer)) :
    ∃ (segments : List Segment) (parts : List Bytes), Tiles segments q.responseSize.toNat ∧
      answer = parts.flatten ∧ parts.length = segments.length ∧
      ∀ (i : ℕ) (segment : Segment) (part : Bytes), segments[i]? = some segment →
        parts[i]? = some part → part.length = segment.toByte - segment.fromByte ∧
        ∃ sync qs post raw, O.HeldBy isSign last sync ∧
          q.makeQsAndPost segment.fromByte segment.toByte = .ok (qs, post) ∧
          run E sync qs post = .ok raw ∧ q.responseParse raw = .ok ⟨part, none⟩ := by
  obtain ⟨segments, s, hprep, hrun, htiles, hdownloaded⟩ := P2P.downloaded_of_request hprecision h
  have hresponds := P2P.responds_runs (hnodes segments hprep) hrun
  obtain ⟨parts, hflatten, hlength, hparts⟩ := hdownloaded.parts
  refine ⟨segments, parts, htiles, hflatten, hlength, fun i segment part hi hpart => ?_⟩
  obtain ⟨x, hx, rfl, hask, hparse, hanswer, hsize⟩ := hparts i segment hi
  obtain rfl : x.parsed = part := Option.some.inj (hanswer.symm.trans hpart)
  obtain ⟨sync, hsync, hraw⟩ := hresponds x hx
  exact ⟨hsize, sync, x.qs, x.post, x.response, hsync, hask, hraw, hparse⟩

/-- What the calls of a client return was returned by `P2P_Ips`, in some schedule with responses of
    nodes that have the blocks. -/
structure IpsCalls (E : ServerEnv) (O : Offer) (isSign : Bool) (last : ℕ) (ips : P2PIps)
    (p2p : P2PCalls) : Prop where
  requests : ∀ {n makeQsAndPost parse servers answers},
    p2p.requests n makeQsAndPost parse servers = .ok answers → ∃ (q : RequestsArgs) (schedule : _),
      q.countRequests.toNat = n ∧
      (∀ i request, q.makeQsAndPost i = .ok request → makeQsAndPost i = .ok request) ∧
      (∀ raw parsed, q.responseParse raw = .ok parsed → parse raw = .ok parsed) ∧
      P2P.AllRespond (FromNode E O isSign last) ips q.args 1 schedule ∧
      P2P.requests ips q schedule = some (.ok (answers.map (·.1)))
  request : ∀ {size makeQsAndPost parse servers answer},
    p2p.request size true makeQsAndPost parse servers = .ok answer →
    ∃ (q : RequestArgs) (schedule : _), q.responseSize.toNat = size ∧ q.isPrecisionSize = true ∧
      (∀ fromByte toByte request, q.makeQsAndPost fromByte toByte = .ok request →
        makeQsAndPost fromByte toByte = request) ∧
      (∀ raw parsed, q.responseParse raw = .ok parsed → parse raw = .ok parsed) ∧
      P2P.AllRespond (FromNode E O isSign last) ips q 1000 schedule ∧
      P2P.request ips q schedule = some (.ok answer.1)

/-- **The peers of `P2P_Ips` are honest** if the nodes are. -/
theorem honestPeers_of_ips {p2p : P2PCalls} (h : IpsCalls E O isSign last ips p2p) :
    HonestPeers E O isSign last p2p where
  requests {n makeQsAndPost parse servers answers} hanswers := by
    obtain ⟨q, schedule, rfl, hmake, hparse, hnodes, hreturn⟩ := h.requests hanswers
    obtain ⟨hlength, hget⟩ := requests_honest hnodes hreturn
    rw [List.length_map] at hlength
    refine ⟨hlength, fun i answer hi => ?_⟩
    obtain ⟨sync, qs, post, raw, hsync, hask, hraw, hparsed⟩ :=
      hget i answer.1 (by rw [List.getElem?_map, hi, Option.map_some])
    exact ⟨sync, qs, post, raw, hsync, hmake i _ hask, hraw, hparse raw _ hparsed⟩
  request {size makeQsAndPost parse servers answer} hanswer := by
    obtain ⟨q, schedule, rfl, hprecision, hmake, hparse, hnodes, hreturn⟩ := h.request hanswer
    obtain ⟨segments, parts, htiles, hflatten, hlength, hparts⟩ :=
      request_honest hprecision hnodes hreturn
    refine ⟨segments, parts, htiles, hflatten, hlength, fun i segment part hi hpart => ?_⟩
    obtain ⟨hsize, sync, qs, post, raw, hsync, hask, hraw, hparsed⟩ :=
      hparts i segment part hi hpart
    exact ⟨hsize, sync, qs, post, raw, hsync, congrArg Exec.ok (hmake _ _ _ hask), hraw,
      hparse raw _ hparsed⟩

end

/-! ## One request -/

open NetworkBlockSource (literalsServer oneNode oneNode_heldBy oneOffer)

/-- The request for the header of the first block. -/
def oneRequest : RequestsArgs where
  countRequests := 1
  makeQsAndPost _ := .ok (makeRequestForBlock 1)
  responseParse response := .ok ⟨response, none⟩
  hintsServers := [lit "s"]

/-- The first thread cannot reach the server; the second one gets the answer. -/
def oneSchedule (answer : Bytes) : List P2P.Action :=
  [.push, .push, .pop 0 ⟨0, 1, 0⟩, .makeQsAndPost 0, .takeCurl 0,
   .receive 0 (.error (.common "timeout")), .pushBack 0, .exit 0, .pop 1 ⟨0, 1, 0⟩, .makeQsAndPost 1, .takeCurl 1, .receive 1 (.ok answer),
   .count 1 false, .wake, .popStopped 1, .exit 1, .join]

theorem requests_oneSchedule (answer : Bytes) :
    P2P.requests P2P.twoConnections oneRequest (oneSchedule answer) = some (.ok [answer]) := rfl

end GetNewBlocksFromServer

end TorrentNode
