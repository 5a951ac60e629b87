/-
  Several requests in one call (`requests`), and the requests of `P2P_Graph`.

  The two classes differ in the curl instance of a thread: `P2P_Ips` counts the threads of
  each server, `P2P_Graph` takes the number of the thread.

  `requests_exact`: in every schedule, if `requests` returns, each request was successful once
  and its parsed answer stands at its number; if a request was not successful, the call throws.
  `graph_request_eq`: in every schedule `P2P_Graph` returns what `P2P_Ips` with the one server
  returns.
-/
import TorrentNode.P2P.Curls
import TorrentNode.P2P.Graph
import TorrentNode.P2P.Ips

open Wire Machine

namespace TorrentNode

namespace P2P

/-! ## Several requests -/

/-- The arguments of `requests`. -/
structure RequestsArgs where
  countRequests : UInt64
  makeQsAndPost : ℕ → Except Exn (Bytes × Bytes)
  responseParse : Bytes → Except Exn ResponseParse
  hintsServers : List Bytes

/-- `makeQsAndPortImpl` of `requests`. -/
def makeQsAndPortImpl (makeQsAndPost : ℕ → Except Exn (Bytes × Bytes)) (fromByte toByte : ℕ) :
    Except Exn (Bytes × Bytes) :=
  if toByte = (fromByte + 1) % 2 ^ 64 then makeQsAndPost fromByte
  else .error (.common "Incorrect call makeQsAndPortFunc")

/-- The call of `requestImpl`. -/
def RequestsArgs.args (q : RequestsArgs) : RequestArgs where
  responseSize := q.countRequests
  isPrecisionSize := false
  makeQsAndPost := makeQsAndPortImpl q.makeQsAndPost
  responseParse := q.responseParse
  hintsServers := q.hintsServers

/-- What `requests` returns for the answers. -/
def checkAnswers (q : RequestsArgs) (answers : List Bytes) : Exec Exn (List Bytes) := do
  check (answers.length = q.countRequests.toNat) "Incorrect count answers"
  return answers

/-- `P2P_Ips::requests` in a given schedule. -/
def requests (ips : P2PIps) (q : RequestsArgs) (schedule : List Action) :
    Option (Exec Exn (List Bytes)) :=
  (requestImpl ips q.args 1 schedule).map (· >>= checkAnswers q)

/-! ## The class `P2P_Graph` -/

namespace P2PGraph
variable (p : P2PGraph)

/-- `getServersList(server)`. -/
def getServersList (server : Bytes) : List Bytes := List.replicate p.countConnections server

/-- `requestImpl` up to the start of the threads: the segments. -/
def prepare (q : RequestArgs) (minResponseSize : ℕ) : Exec Exn (List Segment) := do
  check (q.responseSize.toNat ≠ 0) "response size 0"
  check (q.hintsServers.length = 1) "Incorrect hint servers"
  let requestServers := p.getServersList (q.hintsServers.headD [])
  let count ← countSegments q.responseSize.toNat minResponseSize requestServers.length
  Exec.check (count ≤ maxSize / 32) (.std "cannot create std::vector larger than max_size()")
  makeSegments count q.responseSize.toNat minResponseSize

/-- The call of `process`. -/
def env (q : RequestArgs) (segments : List Segment) : Env where
  requestServers := p.getServersList (q.hintsServers.headD [])
  segments := segments
  -- the instances are not those of a server
  curls _ := some p.countConnections
  makeQsAndPost := q.makeQsAndPost
  responseParse := q.responseParse
  isPrecisionSize := q.isPrecisionSize

/-- The request function up to the request: the curl instance has the number of the thread. -/
def takeCurl (s : Process) (t : ℕ) : Worker → Option Process
  | .requesting segment qs post =>
    some (s.goto t (if t < p.countConnections then .sent segment qs post t else .failed segment))
  | _ => none

/-- One step of a call. -/
def step (e : Env) (s : Process) (a : Action) : Option Process :=
  match a with
  | .takeCurl t => s.workers[t]?.bind (p.takeCurl s t)
  | a => P2P.step e s a

/-- `requestImpl` in a given schedule of its threads. -/
def requestImpl (q : RequestArgs) (minResponseSize : ℕ) (schedule : List Action) :
    Option (Exec Exn (List Bytes)) :=
  match p.prepare q minResponseSize with
  | .ok segments => (runs (p.step (p.env q segments)) (p.env q segments).start schedule).bind answersOf
  | .throw exn => some (.throw exn)
  | .undef u => some (.undef u)
  | .outOfFuel => some .outOfFuel

/-- `P2P_Graph::request` in a given schedule. -/
def request (q : RequestArgs) (schedule : List Action) : Option (Exec Exn Bytes) :=
  (p.requestImpl q 1000 schedule).map (· >>= joinAnswers q)

/-- `P2P_Graph::requests` in a given schedule. -/
def requests (q : RequestsArgs) (schedule : List Action) : Option (Exec Exn (List Bytes)) :=
  (p.requestImpl q.args 1 schedule).map (· >>= checkAnswers q)

end P2PGraph

/-! ## The two classes in lockstep -/

/-- The curl instance of a thread is its number. -/
def Worker.numbered (t : ℕ) : Worker → Worker
  | .sent segment qs post _ => .sent segment qs post t
  | w => w

/-- The state of `P2P_Graph` that corresponds to a state of `P2P_Ips`. -/
def Process.numbered (s : Process) : Process :=
  { s with workers := s.workers.mapIdx Worker.numbered, curlsDistribution := fun _ => ∅ }

theorem Process.numbered_goto (s : Process) (t : ℕ) (w : Worker) :
    (s.goto t w).numbered = s.numbered.goto t (w.numbered t) := by
  simp [numbered, goto, List.mapIdx_set]

theorem Process.numbered_worker (s : Process) (t : ℕ) :
    s.numbered.workers[t]? = s.workers[t]?.map (Worker.numbered t) := by
  simp [numbered]

theorem Process.numbered_exited (s : Process) :
    (∀ w ∈ s.numbered.workers, w = .exited) ↔ ∀ w ∈ s.workers, w = .exited := by
  have hexit : ∀ t w, Worker.numbered t w = .exited ↔ w = .exited := by
    intro t w
    cases w <;> simp [Worker.numbered]
  constructor
  · intro h w hw
    obtain ⟨t, ht⟩ := List.mem_iff_getElem?.1 hw
    refine (hexit t w).1 (h _ (List.mem_iff_getElem?.2 ⟨t, ?_⟩))
    rw [s.numbered_worker, ht, Option.map_some]
  · intro h w hw
    obtain ⟨t, ht⟩ := List.mem_iff_getElem?.1 hw
    rw [s.numbered_worker, Option.map_eq_some_iff] at ht
    obtain ⟨v, hv, rfl⟩ := ht
    exact (hexit t v).2 (h v (List.mem_of_getElem? hv))

/-- The calls that differ in their servers and curl instances. -/
structure SameCalls (e e' : Env) : Prop where
  segments : e'.segments = e.segments
  makeQsAndPost : e'.makeQsAndPost = e.makeQsAndPost
  responseParse : e'.responseParse = e.responseParse
  isPrecisionSize : e'.isPrecisionSize = e.isPrecisionSize

section
variable {e e' : Env} (he : SameCalls e e')
include he

theorem parseAnswer_sameCalls (segment : Segment) (response : Bytes) :
    e'.parseAnswer segment response = e.parseAnswer segment response := by
  rw [Env.parseAnswer, Env.parseAnswer, he.responseParse, he.isPrecisionSize]

theorem stepMain_numbered (s : Process) (a : Action) :
    (stepMain e s a).map Process.numbered = stepMain e' s.numbered a := by
  have hlength : s.numbered.workers.length = s.workers.length := List.length_mapIdx
  cases a with
  | push =>
    rw [stepMain, stepMain, show s.numbered.main = s.main from rfl]
    split <;> rfl
  | wake =>
    rw [stepMain, stepMain, hlength, he.segments, show s.numbered.main = s.main from rfl,
      show s.numbered.countSuccessRequests = s.countSuccessRequests from rfl,
      show s.numbered.countExitThreads = s.countExitThreads from rfl]
    split <;> rfl
  | join =>
    rw [stepMain, stepMain]
    simp only [s.numbered_exited, he.segments]
    rw [show s.numbered.main = s.main from rfl]
    split <;> rfl
  | stop =>
    rw [stepMain, stepMain, show s.numbered.main = s.main from rfl]
    split <;> rfl
  | _ => rfl

theorem receive_numbered (s : Process) (t : ℕ) (segment : Segment) (qs post response : Bytes) :
    (receive e s t segment qs post response).numbered =
      receive e' s.numbered t segment qs post response := by
  rw [receive, receive, parseAnswer_sameCalls he]
  cases e.parseAnswer segment response with
  | error exn =>
    dsimp only
    rw [s.numbered_goto]
    cases exn <;> rfl
  | ok parsed =>
    dsimp only
    rw [show s.numbered.answers = s.answers from rfl]
    split_ifs
    · have hgoto := s.numbered_goto t .answered
      rw [show Worker.numbered t .answered = .answered from rfl] at hgoto
      rw [← hgoto]
      rfl
    · rw [s.numbered_goto]
      rfl

/-- A step of a thread that does not look for its curl instance. -/
theorem stepWorker_numbered (s : Process) (t : ℕ) (w : Worker) {a : Action}
    (ha : ∀ t', a ≠ .takeCurl t') :
    (stepWorker e s t w a).map Process.numbered = stepWorker e' s.numbered t (w.numbered t) a := by
  have hgoto := s.numbered_goto t
  cases w with
  | waiting =>
    cases a with
    | pop _ segment =>
      simp only [stepWorker, Worker.numbered, show s.numbered.queue = s.queue from rfl]
      split_ifs
      · exact congrArg (fun s' : Process => some { s' with queue := s.queue.erase segment })
          (hgoto (.popped segment))
      · rfl
    | popStopped =>
      simp only [stepWorker, Worker.numbered, show s.numbered.isStopped = s.isStopped from rfl]
      split_ifs
      · exact congrArg some (hgoto .exiting)
      · rfl
    | interrupt => exact congrArg some (hgoto .exiting)
    | _ => rfl
  | popped segment =>
    cases a with
    | makeQsAndPost =>
      simp only [stepWorker, Worker.numbered, he.makeQsAndPost]
      cases e.makeQsAndPost segment.fromByte segment.toByte with
      | error exn => exact congrArg some (hgoto .exiting)
      | ok r => exact congrArg some (hgoto (.requesting segment r.1 r.2))
    | _ => rfl
  | requesting segment qs post =>
    cases a with
    | takeCurl t' => exact absurd rfl (ha t')
    | _ => rfl
  | sent segment qs post index =>
    cases a with
    | receive _ response =>
      cases response with
      | error exn =>
        have h := hgoto (Worker.thrown segment exn)
        rw [show Worker.numbered t (Worker.thrown segment exn) = Worker.thrown segment exn by
          cases exn <;> rfl] at h
        exact congrArg some h
      | ok response => exact congrArg some (receive_numbered he s t segment qs post response)
    | _ => rfl
  | answered =>
    cases a with
    | count _ isStop =>
      cases isStop with
      | false =>
        exact congrArg (fun s' : Process => some { s' with
          countSuccessRequests := s.countSuccessRequests + 1 }) (hgoto .waiting)
      | true =>
        exact congrArg (fun s' : Process => some { s' with
          countSuccessRequests := s.countSuccessRequests + 1 }) (hgoto .exiting)
    | _ => rfl
  | failed segment =>
    cases a with
    | pushBack =>
      exact congrArg (fun s' : Process => some { s' with queue := s.queue ++ [segment] })
        (hgoto .exiting)
    | _ => rfl
  | exiting =>
    cases a with
    | exit =>
      exact congrArg (fun s' : Process => some { s' with countExitThreads := s.countExitThreads + 1 })
        (hgoto .exited)
    | _ => rfl
  | exited => cases a <;> rfl

end

section
variable {p : P2PGraph} {q : RequestArgs} {hint : Bytes} (hp : p.countConnections ≠ 0)
  (hq : q.hintsServers = [hint])

/-- `P2P_Ips` with the one server. -/
def P2PGraph.ips (p : P2PGraph) (hp : p.countConnections ≠ 0) (hint : Bytes) : P2PIps :=
  ⟨[hint], p.countConnections, hp⟩

include hq

theorem P2PGraph.getServersList_eq :
    (p.ips hp hint).getServersList q.hintsServers = p.getServersList (q.hintsServers.headD []) := by
  have hflatten : ∀ n, (List.replicate n [hint]).flatten = List.replicate n hint := by
    intro n
    induction n with
    | zero => rfl
    | succ n ih => rw [List.replicate_succ, List.flatten_cons, ih]; rfl
  rw [hq, P2PIps.getServersList, P2PGraph.getServersList]
  exact hflatten _

theorem P2PGraph.prepare_eq (minResponseSize : ℕ) :
    p.prepare q minResponseSize = P2P.prepare (p.ips hp hint) q minResponseSize := by
  rw [P2PGraph.prepare, P2P.prepare, ← getServersList_eq hp hq,
    check_of (show q.hintsServers.length = 1 by rw [hq]; rfl)]
  rfl

omit hq in
theorem P2PGraph.sameCalls (segments : List Segment) :
    SameCalls (q.env (p.ips hp hint) segments) (p.env q segments) := ⟨rfl, rfl, rfl, rfl⟩

/-- Looking for a curl instance, both classes find one. -/
theorem P2PGraph.takeCurl_numbered {segments : List Segment} {s : Process} {t : ℕ} {segment : Segment}
    {qs post : Bytes} (hs : CurlsInv (q.env (p.ips hp hint) segments) s)
    (hw : s.workers[t]? = some (.requesting segment qs post)) :
    some (P2P.takeCurl (q.env (p.ips hp hint) segments) s t segment qs post).numbered =
      p.takeCurl s.numbered t (.requesting segment qs post) := by
  have hstep : P2P.step (q.env (p.ips hp hint) segments) s (.takeCurl t) =
      some (P2P.takeCurl (q.env (p.ips hp hint) segments) s t segment qs post) := by
    rw [P2P.step]
    dsimp only [Action.thread]
    rw [hw]
    rfl
  have ht := (List.getElem?_eq_some_iff.1 hw).1
  have hlt : t < p.countConnections := by
    have hlength := hs.workers
    rw [show (q.env (p.ips hp hint) segments).requestServers = p.getServersList (q.hintsServers.headD [])
      from getServersList_eq hp hq, P2PGraph.getServersList, List.length_replicate] at hlength
    omega
  have hd : q.hintsServers.Nodup := by
    rw [hq]
    exact List.nodup_singleton hint
  have hconf : ∀ server ∈ q.hintsServers, server ∈ (p.ips hp hint).servers := by
    rw [hq]
    exact fun _ h => h
  obtain ⟨index, -, -, segment', qs', post', hsent⟩ := takesCurl_of_step hd hconf hs hstep
  rw [P2PGraph.takeCurl, if_pos hlt, P2P.takeCurl]
  rw [P2P.takeCurl] at hsent
  cases hcurls : (q.env (p.ips hp hint) segments).curls
      ((q.env (p.ips hp hint) segments).requestServers.getD t []) with
  | none =>
    rw [hcurls] at hsent
    simp [Process.goto, List.getElem?_set_self ht] at hsent
  | some size =>
    rw [hcurls] at hsent
    dsimp only at hsent ⊢
    simp only [Process.goto, List.getElem?_set_self ht] at hsent
    split_ifs at hsent with hindex
    · rw [if_pos hindex]
      exact congrArg some (s.numbered_goto t (.sent segment qs post _))
    · cases hsent

omit hq in
theorem step_numbered {e e' : Env} (he : SameCalls e e') (s : Process) {a : Action}
    (ha : ∀ t, a ≠ .takeCurl t) : (P2P.step e s a).map Process.numbered = P2P.step e' s.numbered a := by
  rw [P2P.step, P2P.step]
  cases a.thread with
  | none => exact stepMain_numbered he s a
  | some t =>
    dsimp only
    rw [s.numbered_worker]
    cases s.workers[t]? with
    | none => rfl
    | some w => exact stepWorker_numbered he s t w ha

theorem P2PGraph.step_numbered (segments : List Segment) (s : Process) (a : Action)
    (hs : CurlsInv (q.env (p.ips hp hint) segments) s) :
    (P2P.step (q.env (p.ips hp hint) segments) s a).map Process.numbered =
      p.step (p.env q segments) s.numbered a := by
  by_cases ha : ∃ t, a = .takeCurl t
  · obtain ⟨t, rfl⟩ := ha
    rw [P2P.step, P2PGraph.step]
    dsimp only [Action.thread]
    rw [s.numbered_worker]
    cases hw : s.workers[t]? with
    | none => rfl
    | some w =>
      cases w with
      | requesting segment qs post => exact takeCurl_numbered hp hq hs hw
      | _ => rfl
  · have hne : ∀ t, a ≠ .takeCurl t := fun t h => ha ⟨t, h⟩
    rw [P2P.step_numbered (P2PGraph.sameCalls hp segments) s hne]
    cases a with
    | takeCurl t => exact absurd rfl (hne t)
    | _ => rfl

/-- **The two classes return the same.** -/
theorem P2PGraph.requestImpl_eq (minResponseSize : ℕ) (schedule : List Action) :
    p.requestImpl q minResponseSize schedule =
      P2P.requestImpl (p.ips hp hint) q minResponseSize schedule := by
  rw [P2PGraph.requestImpl, P2P.requestImpl, prepare_eq hp hq]
  cases P2P.prepare (p.ips hp hint) q minResponseSize with
  | ok segments =>
    dsimp only
    have hstart : (p.env q segments).start = (q.env (p.ips hp hint) segments).start.numbered := by
      have hworkers : ∀ n, (List.replicate n Worker.waiting).mapIdx Worker.numbered =
          List.replicate n Worker.waiting := by
        intro n
        refine List.ext_getElem? fun t => ?_
        rw [List.getElem?_mapIdx, List.getElem?_replicate]
        split_ifs <;> rfl
      rw [Env.start, Env.start, Process.numbered, hworkers,
        show (q.env (p.ips hp hint) segments).requestServers =
          p.getServersList (q.hintsServers.headD []) from getServersList_eq hp hq]
      rfl
    have hruns := runs_map (fun s a s' => curlsInv_step) (step_numbered hp hq segments)
      (curlsInv_start (q.env (p.ips hp hint) segments)) schedule
    rw [hstart, ← hruns, Option.bind_map]
    rfl
  | throw exn => rfl
  | undef u => rfl
  | outOfFuel => rfl

end

/-! ## Every request is answered once -/

/-- A call of `requestImpl` that returns: all its requests were successful. -/
theorem requestImpl_eq_ok {ips : P2PIps} {q : RequestArgs} {minResponseSize : ℕ}
    {schedule : List Action} {answers : List Bytes}
    (h : requestImpl ips q minResponseSize schedule = some (.ok answers)) :
    ∃ segments s, prepare ips q minResponseSize = .ok segments ∧
      runs (step (q.env ips segments)) (q.env ips segments).start schedule = some s ∧
      s.main = .returned true ∧ s.answers = answers := by
  rw [requestImpl] at h
  cases hprep : prepare ips q minResponseSize with
  | ok segments =>
    rw [hprep] at h
    obtain ⟨s, hrun, h⟩ := Option.bind_eq_some_iff.1 h
    rw [answersOf] at h
    cases hmain : s.main with
    | returned isSuccess =>
      rw [hmain] at h
      cases isSuccess with
      | true => exact ⟨segments, s, rfl, hrun, hmain, Exec.ok.inj (Option.some.inj h)⟩
      | false => cases h
    | stopped => rw [hmain] at h; cases h
    | pushing | waiting | joining => rw [hmain] at h; cases h
  | throw exn => rw [hprep] at h; cases h
  | undef u => rw [hprep] at h; cases h
  | outOfFuel => rw [hprep] at h; cases h

/-- The segments of several requests are the single numbers. -/
theorem prepare_one {ips : P2PIps} {q : RequestArgs} {segments : List Segment}
    (h : prepare ips q 1 = .ok segments) : Numbered segments ∧
      segments.map Segment.fromByte = List.range q.responseSize.toNat ∧
      ∀ segment ∈ segments, segment.toByte = segment.fromByte + 1 ∧
        segment.posInArray = segment.fromByte := by
  simp only [prepare, Exec.bind_eq_ok] at h
  obtain ⟨_, hR, count, hcount, _, hsize, hseg⟩ := h
  have hlt := q.responseSize.toNat_lt
  have hfits : count ≤ maxSize / 32 := by
    by_contra hlarge
    rw [Exec.check_neg hlarge] at hsize
    cases hsize
  rw [countSegments, if_pos rfl] at hcount
  cases hcount
  have hmax : q.responseSize.toNat ≤ maxSegments := by
    rw [maxSegments]
    omega
  have htile : SegmentsTile q.responseSize.toNat 1 0 := segmentsTile_one (check_eq_ok hR) hlt hmax
  obtain ⟨count, segments', hcount, hseg', -, hlength, htiles, hone⟩ := htile.computed
  rw [requestSegments, countSegments, if_pos rfl, Exec.ok_bind, hseg] at hseg'
  rw [countSegments, if_pos rfl] at hcount
  cases hseg'
  cases hcount
  refine ⟨htiles.numbered, ?_, ?_⟩
  · refine List.ext_getElem? fun i => ?_
    rw [List.getElem?_map]
    by_cases hi : i < segments.length
    · have hget := List.getElem?_eq_getElem hi
      rw [hget, Option.map_some, (hone rfl i _ hget).1, List.getElem?_range (by omega)]
    · rw [List.getElem?_eq_none (by omega), List.getElem?_eq_none (by rw [List.length_range]; omega)]
      rfl
  · intro segment hmem
    obtain ⟨i, hi⟩ := List.mem_iff_getElem?.1 hmem
    obtain ⟨hfrom, hto, -⟩ := hone rfl i _ hi
    rw [hto, hfrom]
    exact ⟨rfl, htiles.numbered i _ hi⟩

/-- The `answers` are the parsed responses to the requests, each of which was successful once. -/
structure Answered (q : RequestsArgs) (log : List Success) (answers : List Bytes) : Prop where
  length : answers.length = q.countRequests.toNat
  once : (log.map fun x => x.segment.fromByte).Perm (List.range q.countRequests.toNat)
  answer : ∀ x ∈ log, q.makeQsAndPost x.segment.fromByte = .ok (x.qs, x.post) ∧
    q.responseParse x.response = .ok ⟨x.parsed, none⟩ ∧
    answers[x.segment.fromByte]? = some x.parsed

theorem answered {ips : P2PIps} {q : RequestsArgs} {segments : List Segment} {s : Process}
    (hprep : prepare ips q.args 1 = .ok segments) (hs : Inv (q.args.env ips segments) s)
    (hmain : s.main = .returned true) : Answered q s.log s.answers := by
  obtain ⟨-, hfrom, hone⟩ := prepare_one hprep
  obtain ⟨hexit, hcount⟩ := hs.returned true hmain
  have hperm := completed_eq hs hexit (hcount.1 rfl)
  refine ⟨?_, ?_, ?_⟩
  · rw [hs.answers]
    have hlength := congrArg List.length hfrom
    rw [List.length_map, List.length_range] at hlength
    exact hlength
  · have hmap := hperm.map Segment.fromByte
    rw [List.map_map, hfrom] at hmap
    exact hmap
  · intro x hx
    obtain ⟨hans, hparse, hask⟩ := hs.written x hx
    obtain ⟨hto, hpos⟩ := hone x.segment (hperm.mem_iff.1 (List.mem_map_of_mem hx))
    obtain ⟨hresp, -⟩ := parseAnswer_eq_ok hparse
    have hlt : x.segment.fromByte < q.countRequests.toNat := by
      have hmem := List.mem_map_of_mem (f := Segment.fromByte)
        (hperm.mem_iff.1 (List.mem_map_of_mem hx))
      rw [hfrom] at hmem
      exact List.mem_range.1 hmem
    have hsize := q.countRequests.toNat_lt
    refine ⟨?_, hresp, by rw [← hpos]; exact hans⟩
    have hask : makeQsAndPortImpl q.makeQsAndPost x.segment.fromByte x.segment.toByte =
        .ok (x.qs, x.post) := hask
    rwa [makeQsAndPortImpl, if_pos (by omega)] at hask

/-- The answers of a call that returns. -/
theorem answered_of_requests {ips : P2PIps} {q : RequestsArgs} {schedule : List Action}
    {answers : List Bytes} (h : requests ips q schedule = some (.ok answers)) :
    ∃ segments s, prepare ips q.args 1 = .ok segments ∧
      runs (step (q.args.env ips segments)) (q.args.env ips segments).start schedule = some s ∧
      Answered q s.log answers := by
  obtain ⟨result, himpl, hresult⟩ := Option.map_eq_some_iff.1 h
  obtain ⟨answers', rfl, hchecked⟩ := Exec.bind_eq_ok.1 hresult
  obtain ⟨_, -, hreturn⟩ := Exec.bind_eq_ok.1 hchecked
  obtain rfl := Exec.ok.inj hreturn
  obtain ⟨segments, s, hprep, hrun, hmain, rfl⟩ := requestImpl_eq_ok himpl
  have hs := inv_runs (e := q.args.env ips segments) (prepare_one hprep).1 hrun
  exact ⟨segments, s, hprep, hrun, answered hprep hs hmain⟩

/-- **Several requests in every schedule.**  If `requests` returns, each request was successful once and
    its parsed response stands at its number.  If a request was not successful, the call throws. -/
theorem requests_exact (ips : P2PIps) (q : RequestsArgs) (schedule : List Action) :
    (∀ answers, requests ips q schedule = some (.ok answers) → ∃ segments s,
      prepare ips q.args 1 = .ok segments ∧
      runs (step (q.args.env ips segments)) (q.args.env ips segments).start schedule = some s ∧
      Answered q s.log answers) ∧
    (∀ segments s result, prepare ips q.args 1 = .ok segments →
      runs (step (q.args.env ips segments)) (q.args.env ips segments).start schedule = some s →
      s.log.length < q.countRequests.toNat → requests ips q schedule = some result →
      ∃ exn, result = .throw exn) := by
  constructor
  · intro answers h
    exact answered_of_requests h
  · intro segments s result hprep hrun hfew hres
    have hs := inv_runs (e := q.args.env ips segments) (prepare_one hprep).1 hrun
    obtain ⟨answers, himpl, rfl⟩ := Option.map_eq_some_iff.1 hres
    rw [requestImpl, hprep] at himpl
    dsimp only at himpl
    rw [hrun, Option.bind_some, answersOf] at himpl
    cases hmain : s.main with
    | returned isSuccess =>
      rw [hmain] at himpl
      cases isSuccess with
      | true =>
        -- success would mean that all requests were counted
        have hcount : s.countSuccessRequests = segments.length := (hs.returned true hmain).2.1 rfl
        have hlength := congrArg List.length (prepare_one hprep).2.1
        rw [List.length_map, List.length_range,
          show q.args.responseSize.toNat = q.countRequests.toNat from rfl] at hlength
        have hcounted := hs.counted
        omega
      | false =>
        cases himpl
        exact ⟨_, rfl⟩
    | stopped =>
      rw [hmain] at himpl
      cases himpl
      exact ⟨_, rfl⟩
    | pushing | waiting | joining => rw [hmain] at himpl; cases himpl

/-- Three requests that are answered as they are. -/
def threeRequests : RequestsArgs where
  countRequests := 3
  makeQsAndPost number := .ok (lit "d", [UInt8.ofNat number])
  responseParse response := .ok ⟨response, none⟩
  hintsServers := [lit "s"]

/-- The first thread is slow; the second one makes the two other requests. -/
def slowSchedule : List Action :=
  [.push, .push, .push, .push, .pop 0 ⟨0, 1, 0⟩, .makeQsAndPost 0, .takeCurl 0,
   .pop 1 ⟨1, 2, 1⟩, .makeQsAndPost 1, .takeCurl 1, .receive 1 (.ok [7]), .count 1 false,
   .pop 1 ⟨2, 3, 2⟩, .makeQsAndPost 1, .takeCurl 1, .receive 1 (.ok [8]), .count 1 false,
   .receive 0 (.ok [9]), .count 0 false, .wake, .popStopped 1, .exit 1, .popStopped 0, .exit 0, .join]

theorem requests_exact_three :
    requests twoConnections threeRequests slowSchedule = some (.ok [[9], [7], [8]]) ∧
    ∃ segments s, prepare twoConnections threeRequests.args 1 = .ok segments ∧
      runs (step (threeRequests.args.env twoConnections segments))
        (threeRequests.args.env twoConnections segments).start slowSchedule = some s ∧
      Answered threeRequests s.log [[9], [7], [8]] := by
  have hret : requests twoConnections threeRequests slowSchedule = some (.ok [[9], [7], [8]]) := by
    decide +kernel
  exact ⟨hret, (requests_exact twoConnections threeRequests slowSchedule).1 _ hret⟩

/-! ## The requests of `P2P_Graph` -/

/-- **`P2P_Graph` returns what `P2P_Ips` returns**, in every schedule, if the one hint is configured as
    its only server. -/
theorem graph_request_eq {graphVec : List (Bytes × Bytes)} {thisIp : Bytes} {countConnections : ℕ}
    {p : P2PGraph} (hmake : P2PGraph.make graphVec thisIp countConnections = .ok p) (hint : Bytes)
    (schedule : List Action) :
    ∃ hp : p.countConnections ≠ 0,
      (∀ q : RequestArgs, q.hintsServers = [hint] →
        p.request q schedule = request (p.ips hp hint) q schedule) ∧
      ∀ q : RequestsArgs, q.hintsServers = [hint] →
        p.requests q schedule = requests (p.ips hp hint) q schedule := by
  have hp := (P2PGraph.make_eq_ok hmake).1
  refine ⟨hp, fun q hq => ?_, fun q hq => ?_⟩
  · rw [P2PGraph.request, request, P2PGraph.requestImpl_eq hp hq]
  · have hargs : q.args.hintsServers = [hint] := hq
    rw [P2PGraph.requests, requests, P2PGraph.requestImpl_eq hp hargs]

/-- A server with one server above it, and two connections. -/
theorem graph_request_eq_three :
    ∃ p hp, P2PGraph.make [(lit "s", lit "t")] (lit "t") 2 = .ok p ∧
      p.requests threeRequests slowSchedule =
        requests (p.ips hp (lit "s")) threeRequests slowSchedule := by
  have hmake : P2PGraph.make [(lit "s", lit "t")] (lit "t") 2 =
      .ok ⟨⟨[⟨lit "s", none⟩, ⟨lit "t", some 0⟩]⟩, 0, 2⟩ := by decide +kernel
  obtain ⟨hp, -, hrequests⟩ := graph_request_eq hmake (lit "s") slowSchedule
  exact ⟨_, hp, hmake, hrequests threeRequests rfl⟩

end P2P

end TorrentNode
