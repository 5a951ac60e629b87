/-
  The parallel download of segments (`P2P::process` with the request function of
  `P2P_Ips::requestImpl`).

  One worker thread per request server takes segments from a queue, requests
  them and writes the answers; after a failed request it puts its segment back
  and exits.  The main thread waits until all segments are counted or all
  threads have exited, and reports whether all were counted.

  The queue hands each of its elements to one `pop`, in any order; a full queue
  makes `push` wait, which only removes schedules.  `log` is not a variable of
  the program: it records the requests that were successful.
-/
import TorrentNode.Lib.Machine
import TorrentNode.P2P.Segments

open Wire Machine

namespace TorrentNode

namespace P2P

structure ResponseParse where
  response : Bytes
  error : Option String
deriving DecidableEq

/-- The arguments of `process`, and what its request function captures. -/
structure Env where
  requestServers : List Bytes
  segments : List Segment
  /-- the number of curl instances of a server -/
  curls : Bytes → Option ℕ
  makeQsAndPost : ℕ → ℕ → Except Exn (Bytes × Bytes)
  responseParse : Bytes → Except Exn ResponseParse
  isPrecisionSize : Bool

/-- Where a worker thread is. -/
inductive Worker where
  | waiting
  | popped (segment : Segment)
  /-- in the request function -/
  | requesting (segment : Segment) (qs post : Bytes)
  /-- the request is sent through the curl instance `indexInCurls` -/
  | sent (segment : Segment) (qs post : Bytes) (indexInCurls : ℕ)
  /-- the answer is written, the request not counted yet -/
  | answered
  /-- an exception was caught, the segment not put back yet -/
  | failed (segment : Segment)
  | exiting
  | exited
deriving DecidableEq

/-- Where the main thread is. -/
inductive Main where
  | pushing (segments : List Segment)
  | waiting
  | joining
  | returned (isSuccess : Bool)
  | stopped
deriving DecidableEq

/-- A successful request. -/
structure Success where
  threadNumber : ℕ
  segment : Segment
  qs : Bytes
  post : Bytes
  response : Bytes
  parsed : Bytes
deriving DecidableEq

/-- The variables of a call. -/
structure Process where
  main : Main
  queue : List Segment := []
  isStopped : Bool := false
  workers : List Worker
  countSuccessRequests : ℕ := 0
  countExitThreads : ℕ := 0
  curlsDistribution : Bytes → Finmap fun _ : ℕ => ℕ := fun _ => ∅
  answers : List Bytes
  log : List Success := []

/-- The state in which the main thread has created the threads. -/
def Env.start (e : Env) : Process where
  main := .pushing e.segments
  workers := List.replicate e.requestServers.length .waiting
  answers := List.replicate e.segments.length []

/-! ## Requests -/

/-- What the request function makes of a response. -/
def Env.parseAnswer (e : Env) (segment : Segment) (response : Bytes) : Except Exn Bytes :=
  match e.responseParse response with
  | .error exn => .error exn
  | .ok ⟨_, some error⟩ => .error (.common error)
  | .ok ⟨parsed, none⟩ =>
    if e.isPrecisionSize ∧ parsed.length ≠ (segment.toByte + 2 ^ 64 - segment.fromByte) % 2 ^ 64 then
      .error (.common "Incorrect response size")
    else .ok parsed

/-- Where an exception in the request function leads: `common::exception` is caught in the loop,
    any other one behind it. -/
def Worker.thrown (segment : Segment) : Exn → Worker
  | .common _ => .failed segment
  | .std _ => .exiting

/-- What happens next. -/
inductive Action where
  /-- the main thread pushes the next segment, or begins to wait -/
  | push
  | wake
  | join
  /-- a stop signal reaches the main thread -/
  | stop
  | pop (t : ℕ) (segment : Segment)
  | popStopped (t : ℕ)
  /-- a stop signal reaches a waiting thread -/
  | interrupt (t : ℕ)
  | makeQsAndPost (t : ℕ)
  | takeCurl (t : ℕ)
  /-- the server answers, or the request throws -/
  | receive (t : ℕ) (response : Except Exn Bytes)
  /-- the request is counted, and a stop signal may be noticed -/
  | count (t : ℕ) (isStop : Bool)
  | pushBack (t : ℕ)
  | exit (t : ℕ)
deriving DecidableEq

/-- Thread `t` is at `w` next. -/
def Process.goto (s : Process) (t : ℕ) (w : Worker) : Process :=
  { s with workers := s.workers.set t w }

/-- The curl instance of thread `t` for a server: the number of threads that came before it. -/
def distribute (curlDist : Finmap fun _ : ℕ => ℕ) (t : ℕ) : Finmap fun _ : ℕ => ℕ :=
  if t ∈ curlDist then curlDist else curlDist.insert t curlDist.keys.card

/-- The request function up to the request: thread `t` looks for its curl instance. -/
def takeCurl (e : Env) (s : Process) (t : ℕ) (segment : Segment) (qs post : Bytes) : Process :=
  let server := e.requestServers.getD t []
  match e.curls server with
  | none => s.goto t (.failed segment)
  | some size =>
    let curlDist := distribute (s.curlsDistribution server) t
    let indexInCurls := (curlDist.lookup t).getD 0
    { s.goto t (if indexInCurls < size then .sent segment qs post indexInCurls
                else .failed segment) with
      curlsDistribution := Function.update s.curlsDistribution server curlDist }

/-- The request function from the response on. -/
def receive (e : Env) (s : Process) (t : ℕ) (segment : Segment) (qs post response : Bytes) : Process :=
  match e.parseAnswer segment response with
  | .ok parsed =>
    if segment.posInArray < s.answers.length then
      { s.goto t .answered with
        answers := s.answers.set segment.posInArray parsed
        log := s.log ++ [⟨t, segment, qs, post, response, parsed⟩] }
    else s.goto t .exiting
  | .error exn => s.goto t (Worker.thrown segment exn)

/-- The main thread. -/
def stepMain (e : Env) (s : Process) : Action → Option Process
  | .push =>
    match s.main with
    | .pushing (segment :: segments) =>
      some { s with main := .pushing segments, queue := s.queue ++ [segment] }
    | .pushing [] => some { s with main := .waiting }
    | _ => none
  | .wake =>
    if s.main = .waiting ∧ (s.countSuccessRequests = e.segments.length ∨
        s.countExitThreads = s.workers.length) then
      some { s with main := .joining, isStopped := true }
    else none
  | .join =>
    if s.main = .joining ∧ ∀ w ∈ s.workers, w = .exited then
      some { s with main := .returned (s.countSuccessRequests = e.segments.length) }
    else none
  | .stop => if s.main = .waiting ∨ s.main = .joining then some { s with main := .stopped } else none
  | _ => none

/-- The worker thread that an action is about. -/
def Action.thread : Action → Option ℕ
  | .pop t _ | .popStopped t | .interrupt t | .makeQsAndPost t | .takeCurl t | .receive t _
  | .count t _ | .pushBack t | .exit t => some t
  | _ => none

/-- Thread `t`, which is at `w`. -/
def stepWorker (e : Env) (s : Process) (t : ℕ) (w : Worker) (a : Action) : Option Process :=
  match w, a with
  | .waiting, .pop _ segment =>
    if segment ∈ s.queue then
      some { s.goto t (.popped segment) with queue := s.queue.erase segment }
    else none
  | .waiting, .popStopped _ => if s.isStopped then some (s.goto t .exiting) else none
  | .waiting, .interrupt _ => some (s.goto t .exiting)
  | .popped segment, .makeQsAndPost _ =>
    match e.makeQsAndPost segment.fromByte segment.toByte with
    | .ok (qs, post) => some (s.goto t (.requesting segment qs post))
    -- thrown outside the inner `try`: the segment is not put back
    | .error _ => some (s.goto t .exiting)
  | .requesting segment qs post, .takeCurl _ => some (takeCurl e s t segment qs post)
  | .sent segment qs post _, .receive _ (.ok response) =>
    some (receive e s t segment qs post response)
  | .sent segment _ _ _, .receive _ (.error exn) => some (s.goto t (Worker.thrown segment exn))
  | .answered, .count _ isStop =>
    some { s.goto t (if isStop then .exiting else .waiting) with
           countSuccessRequests := s.countSuccessRequests + 1 }
  | .failed segment, .pushBack _ => some { s.goto t .exiting with queue := s.queue ++ [segment] }
  | .exiting, .exit _ =>
    some { s.goto t .exited with countExitThreads := s.countExitThreads + 1 }
  | _, _ => none

/-- One step of a call. -/
def step (e : Env) (s : Process) (a : Action) : Option Process :=
  match a.thread with
  | none => stepMain e s a
  | some t => s.workers[t]?.bind fun w => stepWorker e s t w a

end P2P

end TorrentNode
