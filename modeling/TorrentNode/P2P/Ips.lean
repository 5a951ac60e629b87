/-
  Requests to a list of servers (`P2P_Ips.cpp`).

  `request_exact`: in every schedule, if `request` returns, each segment was
  completed by one successful request and the result is made of the parsed
  responses in byte order; if a segment was not completed, the call throws.
-/
import TorrentNode.P2P.Exact

open Wire Machine

namespace TorrentNode

namespace P2P

/-- `class P2P_Ips`, as its constructor leaves it. -/
structure P2PIps where
  servers : List Bytes
  countConnections : ℕ
  countConnections_ne : countConnections ≠ 0

/-- The number of curl instances of a server: `countConnections` for each time it is listed. -/
def P2PIps.curls (ips : P2PIps) (server : Bytes) : Option ℕ :=
  if server ∈ ips.servers then some (ips.countConnections * ips.servers.count server) else none

/-- `getServersList(srves)`. -/
def P2PIps.getServersList (ips : P2PIps) (srves : List Bytes) : List Bytes :=
  (List.replicate ips.countConnections srves).flatten

/-- The arguments of `request`. -/
structure RequestArgs where
  responseSize : UInt64
  isPrecisionSize : Bool
  makeQsAndPost : ℕ → ℕ → Except Exn (Bytes × Bytes)
  responseParse : Bytes → Except Exn ResponseParse
  hintsServers : List Bytes

/-- `requestImpl` up to the start of the threads: the segments. -/
def prepare (ips : P2PIps) (q : RequestArgs) (minResponseSize : ℕ) : Exec Exn (List Segment) := do
  check (q.responseSize.toNat ≠ 0) "response size 0"
  let requestServers := ips.getServersList q.hintsServers
  let count ← countSegments q.responseSize.toNat minResponseSize requestServers.length
  -- `answers(countSegments)`, a vector of strings of 32 bytes each
  Exec.check (count ≤ maxSize / 32) (.std "cannot create std::vector larger than max_size()")
  makeSegments count q.responseSize.toNat minResponseSize

/-- The call of `process`. -/
def RequestArgs.env (q : RequestArgs) (ips : P2PIps) (segments : List Segment) : Env where
  requestServers := ips.getServersList q.hintsServers
  segments := segments
  curls := ips.curls
  makeQsAndPost := q.makeQsAndPost
  responseParse := q.responseParse
  isPrecisionSize := q.isPrecisionSize

/-- What `requestImpl` returns from a state in which the call of `process` has ended. -/
def answersOf (s : Process) : Option (Exec Exn (List Bytes)) :=
  match s.main with
  | .returned isSuccess =>
    some (check (isSuccess = true) "dont run request" >>= fun _ => .ok s.answers)
  | .stopped => some (.throw (.std "StopException"))
  | _ => none

/-- `requestImpl` in a given schedule of its threads. -/
def requestImpl (ips : P2PIps) (q : RequestArgs) (minResponseSize : ℕ) (schedule : List Action) :
    Option (Exec Exn (List Bytes)) :=
  match prepare ips q minResponseSize with
  | .ok segments =>
    (runs (step (q.env ips segments)) (q.env ips segments).start schedule).bind answersOf
  | .throw exn => some (.throw exn)
  | .undef u => some (.undef u)
  | .outOfFuel => some .outOfFuel

/-- The response that `request` puts together from the answers. -/
def joinAnswers (q : RequestArgs) (answers : List Bytes) : Exec Exn Bytes := do
  Exec.check (q.responseSize.toNat ≤ maxSize) (.std "basic_string::reserve")
  let response ← stdString answers.flatten
  if q.isPrecisionSize then
    check (response.length = q.responseSize.toNat)
      ("response size != getted response. Getted response size: " ++ toString response.length ++
        ". Expected response size: " ++ toString q.responseSize.toNat)
  return response

/-- `request` in a given schedule. -/
def request (ips : P2PIps) (q : RequestArgs) (schedule : List Action) : Option (Exec Exn Bytes) :=
  (requestImpl ips q 1000 schedule).map (· >>= joinAnswers q)

/-! ## The segments -/

theorem prepare_tiles {ips : P2PIps} {q : RequestArgs} {segments : List Segment}
    (h : prepare ips q 1000 = .ok segments) : Tiles segments q.responseSize.toNat := by
  simp only [prepare, Exec.bind_eq_ok] at h
  obtain ⟨_, hR, count, hcount, _, -, hseg⟩ := h
  have hR := check_eq_ok hR
  have hlt := q.responseSize.toNat_lt
  rw [countSegments, if_neg (by norm_num), if_neg (by norm_num)] at hcount
  -- a wrapped sum would leave no segment, and `makeSegments` would divide by zero
  have hpos : count ≠ 0 := by
    rintro rfl
    rw [makeSegments, if_pos rfl] at hseg; cases hseg
  have hc := Exec.ok.inj hcount
  have htile : SegmentsTile q.responseSize.toNat 1000 (ips.getServersList q.hintsServers).length :=
    segmentsTile_thousand hR (by omega) (by omega)
  obtain ⟨count', segments', hcount', hseg', -, -, htiles, -⟩ := htile.computed
  rw [countSegments, if_neg (by norm_num), if_neg (by norm_num), hcount] at hcount'
  rw [requestSegments, countSegments, if_neg (by norm_num), if_neg (by norm_num), hcount,
    Exec.ok_bind, hseg] at hseg'
  rw [Exec.ok.inj hseg']; exact htiles

theorem Tiles.numbered {segments : List Segment} {size : ℕ} (h : Tiles segments size) :
    Numbered segments := fun i s hs => (h.segment i s hs).1

/-- The segments lie inside the response. -/
theorem Tiles.toByte_le {segments : List Segment} {size : ℕ} (h : Tiles segments size) {i : ℕ}
    {s : Segment} (hs : segments[i]? = some s) : s.toByte ≤ size := by
  -- from the last segment backwards
  obtain ⟨n, hn⟩ : ∃ n, n = segments.length - 1 - i := ⟨_, rfl⟩
  induction n generalizing i s with
  | zero =>
    have hi := (List.getElem?_eq_some_iff.1 hs).1
    have hlast := h.last
    rw [List.getLast?_eq_getElem?, show segments.length - 1 = i by omega, hs, Option.map_some,
      Option.some.injEq] at hlast
    exact hlast.le
  | succ n ih =>
    have hi : i + 1 < segments.length := by omega
    have ht := List.getElem?_eq_getElem hi
    have hnext := h.next i s _ hs ht
    have hlt := (h.segment (i + 1) _ ht).2
    have := ih ht (by omega)
    omega

/-! ## The result -/

theorem parseAnswer_eq_ok {e : Env} {segment : Segment} {response parsed : Bytes}
    (h : e.parseAnswer segment response = .ok parsed) :
    e.responseParse response = .ok ⟨parsed, none⟩ ∧ (e.isPrecisionSize = true →
      parsed.length = (segment.toByte + 2 ^ 64 - segment.fromByte) % 2 ^ 64) := by
  unfold Env.parseAnswer at h
  split at h
  · cases h
  · cases h
  · next p hp =>
    split_ifs at h with hc
    cases h
    refine ⟨hp, fun hprec => ?_⟩
    by_contra hne
    exact hc ⟨hprec, hne⟩

/-- The result `r` is made of the segments, each of which was requested successfully once. -/
structure Downloaded (q : RequestArgs) (segments : List Segment) (log : List Success) (r : Bytes) :
    Prop where
  once : ∀ segment ∈ segments, (log.map Success.segment).count segment = 1
  others : ∀ x ∈ log, x.segment ∈ segments
  parts : ∃ parts : List Bytes, r = parts.flatten ∧ parts.length = segments.length ∧
    ∀ (i : ℕ) (segment : Segment), segments[i]? = some segment → ∃ x ∈ log, x.segment = segment ∧
      q.makeQsAndPost segment.fromByte segment.toByte = .ok (x.qs, x.post) ∧
      q.responseParse x.response = .ok ⟨x.parsed, none⟩ ∧ parts[i]? = some x.parsed ∧
      x.parsed.length = segment.toByte - segment.fromByte
  size : r.length = q.responseSize.toNat

section
variable {ips : P2PIps} {q : RequestArgs} {segments : List Segment} {s : Process}
  (hs : Inv (q.env ips segments) s)
include hs

/-- Once all threads have exited and all segments are counted, each was completed once. -/
theorem completed_eq (hexit : ∀ w ∈ s.workers, w = .exited)
    (hcount : s.countSuccessRequests = segments.length) :
    (s.log.map Success.segment).Perm segments := by
  obtain ⟨lost, hseg⟩ := hs.segments
  have hzero : (s.workers.map Worker.uncounted).sum = 0 := by
    refine List.sum_eq_zero fun n hn => ?_
    obtain ⟨w, hw, rfl⟩ := List.mem_map.1 hn
    rw [hexit w hw]; rfl
  have hlen := hs.counted
  rw [hzero, hcount, Nat.add_zero] at hlen
  have hle : s.completed ≤ (segments : Multiset Segment) := by
    refine Multiset.le_iff_exists_add.2
      ⟨s.main.unpushed + ↑s.queue + (s.workers.map Worker.held).sum + lost, ?_⟩
    show ((q.env ips segments).segments : Multiset Segment) = _
    rw [hseg]; abel
  have hcard : Multiset.card (segments : Multiset Segment) ≤ Multiset.card s.completed := by
    rw [Process.completed, Multiset.coe_card, Multiset.coe_card, List.length_map, hlen]
  exact Multiset.coe_eq_coe.1 (Multiset.eq_of_le_of_card_le hle hcard)

theorem downloaded (htiles : Tiles segments q.responseSize.toNat)
    (hprec : q.isPrecisionSize = true) (hexit : ∀ w ∈ s.workers, w = .exited)
    (hcount : s.countSuccessRequests = segments.length) {r : Bytes}
    (hr : joinAnswers q s.answers = .ok r) : Downloaded q segments s.log r := by
  have hperm := completed_eq hs hexit hcount
  have hnum := htiles.numbered
  rw [joinAnswers, hprec] at hr
  simp only [if_true, Exec.bind_eq_ok] at hr
  obtain ⟨_, -, response, hresponse, _, hsize, hr⟩ := hr
  cases hr
  refine ⟨?_, ?_, ⟨s.answers, (stdString_eq_ok hresponse).1, hs.answers, ?_⟩, check_eq_ok hsize⟩
  · intro segment hmem
    rw [hperm.count_eq]
    exact List.count_eq_one_of_mem hnum.nodup hmem
  · intro x hx
    exact hperm.mem_iff.1 (List.mem_map_of_mem hx)
  · intro i segment hi
    obtain ⟨x, hx, rfl⟩ := List.mem_map.1 (hperm.mem_iff.2 (List.mem_of_getElem? hi))
    obtain ⟨hans, hparse, hask⟩ := hs.written x hx
    obtain ⟨hresp, hlen⟩ := parseAnswer_eq_ok hparse
    rw [hnum i _ hi] at hans
    refine ⟨x, hx, rfl, hask, hresp, hans, ?_⟩
    have hlt := (htiles.segment i _ hi).2
    have hle := htiles.toByte_le hi
    have := q.responseSize.toNat_lt
    rw [hlen hprec]; omega

end

/-- A call that returns has prepared its segments and run its threads. -/
theorem runs_of_request {ips : P2PIps} {q : RequestArgs} {schedule : List Action} {r : Bytes}
    (h : request ips q schedule = some (.ok r)) :
    ∃ segments s, prepare ips q 1000 = .ok segments ∧
      runs (step (q.env ips segments)) (q.env ips segments).start schedule = some s := by
  obtain ⟨answers, himpl, hjoin⟩ := Option.map_eq_some_iff.1 h
  unfold requestImpl at himpl
  split at himpl
  case h_1 segments hprep =>
    obtain ⟨s, hrun, -⟩ := Option.bind_eq_some_iff.1 himpl
    exact ⟨segments, s, hprep, hrun⟩
  case h_2 => cases himpl; cases hjoin
  case h_3 => cases himpl; cases hjoin
  case h_4 => cases himpl; cases hjoin

/-- A call throws, or all its requests were successful and it joins the answers. -/
theorem request_of_runs {ips : P2PIps} {q : RequestArgs} {schedule : List Action}
    {segments : List Segment} {s : Process} {result : Exec Exn Bytes}
    (hprep : prepare ips q 1000 = .ok segments)
    (hrun : runs (step (q.env ips segments)) (q.env ips segments).start schedule = some s)
    (h : request ips q schedule = some result) :
    (∃ exn, result = .throw exn) ∨ s.main = .returned true ∧ result = joinAnswers q s.answers := by
  obtain ⟨answers, himpl, rfl⟩ := Option.map_eq_some_iff.1 h
  rw [requestImpl, hprep] at himpl
  simp only [hrun, Option.bind_some] at himpl
  unfold answersOf at himpl
  split at himpl
  case h_1 isSuccess hmain =>
    obtain rfl := Option.some.inj himpl
    cases isSuccess with
    | true => exact Or.inr ⟨hmain, rfl⟩
    | false => exact Or.inl ⟨_, rfl⟩
  case h_2 => cases himpl; exact Or.inl ⟨_, rfl⟩
  case h_3 => cases himpl

/-- The segments of a call that returns. -/
theorem downloaded_of_request {ips : P2PIps} {q : RequestArgs} (hprec : q.isPrecisionSize = true)
    {schedule : List Action} {r : Bytes} (h : request ips q schedule = some (.ok r)) :
    ∃ segments s, prepare ips q 1000 = .ok segments ∧
      runs (step (q.env ips segments)) (q.env ips segments).start schedule = some s ∧
      Tiles segments q.responseSize.toNat ∧ Downloaded q segments s.log r := by
  obtain ⟨segments, s, hprep, hrun⟩ := runs_of_request h
  have htiles := prepare_tiles hprep
  have hs := inv_runs (e := q.env ips segments) htiles.numbered hrun
  refine ⟨segments, s, hprep, hrun, htiles, ?_⟩
  rcases request_of_runs hprep hrun h with ⟨exn, hthrow⟩ | ⟨hmain, hjoin⟩
  · cases hthrow
  · obtain ⟨hexit, hcount⟩ := hs.returned true hmain
    exact downloaded hs htiles hprec hexit (hcount.1 rfl) hjoin.symm

/-- **The download is exact in every schedule.**  If `request` returns, each segment was requested
    successfully once, and the result is made of the parsed responses in byte order.  If a segment
    was not completed, the call throws. -/
theorem request_exact (ips : P2PIps) (q : RequestArgs) (hprec : q.isPrecisionSize = true)
    (schedule : List Action) :
    (∀ r, request ips q schedule = some (.ok r) → ∃ segments s, prepare ips q 1000 = .ok segments ∧
      runs (step (q.env ips segments)) (q.env ips segments).start schedule = some s ∧
      Tiles segments q.responseSize.toNat ∧ Downloaded q segments s.log r) ∧
    (∀ segments s result, prepare ips q 1000 = .ok segments →
      runs (step (q.env ips segments)) (q.env ips segments).start schedule = some s →
      s.log.length < segments.length → request ips q schedule = some result →
      ∃ exn, result = .throw exn) := by
  constructor
  · intro r h
    exact downloaded_of_request hprec h
  · intro segments s result hprep hrun hfew hres
    have hs := inv_runs (e := q.env ips segments) (prepare_tiles hprep).numbered hrun
    rcases request_of_runs hprep hrun hres with hthrow | ⟨hmain, -⟩
    · exact hthrow
    · -- success would mean that all segments were counted
      have hcount : s.countSuccessRequests = segments.length := (hs.returned true hmain).2.1 rfl
      have hlen := hs.counted
      omega

/-- One server with two connections. -/
def twoConnections : P2PIps := ⟨[ascii ['s']], 2, by decide⟩

/-- Three bytes, requested by their range and answered as they are. -/
def threeBytes : RequestArgs where
  responseSize := 3
  isPrecisionSize := true
  makeQsAndPost fromByte toByte := .ok (ascii ['d'], [UInt8.ofNat fromByte, UInt8.ofNat toByte])
  responseParse response := .ok ⟨response, none⟩
  hintsServers := [ascii ['s']]

/-- The request of the first thread fails; the second thread takes the segment over. -/
def retrySchedule : List Action :=
  [.push, .pop 0 ⟨0, 3, 0⟩, .makeQsAndPost 0, .takeCurl 0, .receive 0 (.error (.common "timeout")),
   .pushBack 0, .exit 0, .push, .pop 1 ⟨0, 3, 0⟩, .makeQsAndPost 1, .takeCurl 1,
   .receive 1 (.ok [1, 2, 3]), .count 1 false, .wake, .popStopped 1, .exit 1, .join]

theorem request_retry :
    request twoConnections threeBytes retrySchedule = some (.ok [1, 2, 3]) ∧
    ∃ segments s, prepare twoConnections threeBytes 1000 = .ok segments ∧
      runs (step (threeBytes.env twoConnections segments))
        (threeBytes.env twoConnections segments).start retrySchedule = some s ∧
      Tiles segments 3 ∧ Downloaded threeBytes segments s.log [1, 2, 3] := by
  have hret : request twoConnections threeBytes retrySchedule = some (.ok [1, 2, 3]) := by
    decide +kernel
  exact ⟨hret, (request_exact twoConnections threeBytes rfl retrySchedule).1 _ hret⟩

end P2P

end TorrentNode
