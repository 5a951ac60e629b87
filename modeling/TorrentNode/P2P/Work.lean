/-
  The worker threads of `P2P::process` for any request function.

  A call of `makeQsAndPost` or of the request function returns, throws a
  `common::exception`, or throws something else.  The inner `catch` puts the
  segment back after a `common::exception` of the request function; every other
  exception ends the thread with the segment in its hands.

  `process_conserves`: the segments of a state are those not pushed yet, queued,
  held by a thread or completed, as long as no such exception was thrown; then
  no state is reached in which the main thread waits for a lost segment.
  `step_refines`: the calls that `P2P_Ips::requestImpl` makes are among these.
-/
import TorrentNode.P2P.Exact

open Wire Machine

namespace TorrentNode

namespace P2P

/-- How a call ends. -/
inductive Outcome where
  | returned
  /-- it throws a `common::exception` -/
  | common
  /-- it throws anything else -/
  | other
deriving DecidableEq

/-- Where a worker thread is. -/
inductive Place where
  | waiting
  | popped (segment : Segment)
  /-- in the request function -/
  | requesting (segment : Segment)
  /-- the request function has returned, the request is not counted yet -/
  | succeeded
  /-- in the inner `catch` -/
  | failed (segment : Segment)
  | exiting
  | exited
deriving DecidableEq

/-- The variables of `process`.  `completed` and `lost` are not among them: they record the segments
    whose request function returned, and those a thread took along when it ended. -/
structure Work where
  main : Main
  queue : List Segment := []
  isStopped : Bool := false
  workers : List Place
  countSuccessRequests : ℕ := 0
  countExitThreads : ℕ := 0
  completed : List Segment := []
  lost : List Segment := []
deriving DecidableEq

/-- The state in which the threads for `countServers` request servers are created. -/
def Work.start (countServers : ℕ) (segments : List Segment) : Work where
  main := .pushing segments
  workers := List.replicate countServers .waiting

/-- What happens next. -/
inductive Event where
  /-- the main thread pushes the next segment, or begins to wait -/
  | push
  | wake
  | join
  /-- a stop signal reaches the main thread -/
  | stop
  | pop (t : ℕ) (segment : Segment)
  | popStopped (t : ℕ)
  /-- a stop signal reaches a waiting thread -/
  | interrupt (t : ℕ)
  | makeQsAndPost (t : ℕ) (outcome : Outcome)
  | requestFunction (t : ℕ) (outcome : Outcome)
  /-- the request is counted, and a stop signal may be noticed -/
  | count (t : ℕ) (isStop : Bool)
  | pushBack (t : ℕ)
  | exit (t : ℕ)
deriving DecidableEq

/-- The exceptions that are not caught around the request function. -/
def Event.Loses : Event → Prop
  | .makeQsAndPost _ outcome => outcome ≠ .returned
  | .requestFunction _ outcome => outcome = .other
  | _ => False

instance : (a : Event) → Decidable a.Loses
  | .makeQsAndPost _ outcome => inferInstanceAs (Decidable (outcome ≠ .returned))
  | .requestFunction _ outcome => inferInstanceAs (Decidable (outcome = .other))
  | .push | .wake | .join | .stop | .pop _ _ | .popStopped _ | .interrupt _ | .count _ _
  | .pushBack _ | .exit _ => isFalse id

/-- Thread `t` is at `w` next. -/
def Work.goto (s : Work) (t : ℕ) (w : Place) : Work := { s with workers := s.workers.set t w }

/-- The main thread. -/
def workMain (countSegments : ℕ) (s : Work) : Event → Option Work
  | .push =>
    match s.main with
    | .pushing (segment :: segments) =>
      some { s with main := .pushing segments, queue := s.queue ++ [segment] }
    | .pushing [] => some { s with main := .waiting }
    | _ => none
  | .wake =>
    if s.main = .waiting ∧ (s.countSuccessRequests = countSegments ∨
        s.countExitThreads = s.workers.length) then
      some { s with main := .joining, isStopped := true }
    else none
  | .join =>
    if s.main = .joining ∧ ∀ w ∈ s.workers, w = .exited then
      some { s with main := .returned (s.countSuccessRequests = countSegments) }
    else none
  | .stop => if s.main = .waiting ∨ s.main = .joining then some { s with main := .stopped } else none
  | _ => none

/-- The worker thread that an event is about. -/
def Event.thread : Event → Option ℕ
  | .pop t _ | .popStopped t | .interrupt t | .makeQsAndPost t _ | .requestFunction t _ | .count t _
  | .pushBack t | .exit t => some t
  | _ => none

/-- Thread `t`, which is at `w`. -/
def workThread (s : Work) (t : ℕ) (w : Place) (a : Event) : Option Work :=
  match w, a with
  | .waiting, .pop _ segment =>
    if segment ∈ s.queue then
      some { s.goto t (.popped segment) with queue := s.queue.erase segment }
    else none
  | .waiting, .popStopped _ => if s.isStopped then some (s.goto t .exiting) else none
  | .waiting, .interrupt _ => some (s.goto t .exiting)
  | .popped segment, .makeQsAndPost _ .returned => some (s.goto t (.requesting segment))
  -- the outer `catch` clauses
  | .popped segment, .makeQsAndPost _ _ =>
    some { s.goto t .exiting with lost := s.lost ++ [segment] }
  | .requesting segment, .requestFunction _ .returned =>
    some { s.goto t .succeeded with completed := s.completed ++ [segment] }
  | .requesting segment, .requestFunction _ .common => some (s.goto t (.failed segment))
  | .requesting segment, .requestFunction _ .other =>
    some { s.goto t .exiting with lost := s.lost ++ [segment] }
  | .succeeded, .count _ isStop =>
    some { s.goto t (if isStop then .exiting else .waiting) with
           countSuccessRequests := s.countSuccessRequests + 1 }
  | .failed segment, .pushBack _ => some { s.goto t .exiting with queue := s.queue ++ [segment] }
  | .exiting, .exit _ =>
    some { s.goto t .exited with countExitThreads := s.countExitThreads + 1 }
  | _, _ => none

/-- One step of `process`. -/
def workStep (countSegments : ℕ) (s : Work) (a : Event) : Option Work :=
  match a.thread with
  | none => workMain countSegments s a
  | some t => s.workers[t]?.bind fun w => workThread s t w a

/-! ## Where the segments are -/

/-- The segment a thread holds. -/
def Place.held : Place → Multiset Segment
  | .popped segment | .requesting segment | .failed segment => {segment}
  | _ => 0

/-- The segments that are not pushed yet, queued, held by a thread or completed. -/
def Work.placed (s : Work) : Multiset Segment :=
  s.main.unpushed + ↑s.queue + (s.workers.map Place.held).sum + ↑s.completed

/-- Every segment is in one place. -/
def Work.Conserved (segments : List Segment) (s : Work) : Prop :=
  ∀ segment, s.main.unpushed.count segment + s.queue.count segment +
    (s.workers.map fun w => w.held.count segment).sum + s.completed.count segment =
      segments.count segment

/-- All segments are pushed and the queue is empty, every running thread waits for a segment, and
    some segment is not completed. -/
def Work.Stuck (segments : List Segment) (s : Work) : Prop :=
  s.main.unpushed = 0 ∧ s.queue = [] ∧ (∀ w ∈ s.workers, w = .waiting ∨ w = .exited) ∧
    ∃ segment, s.completed.count segment < segments.count segment

theorem Work.placed_count (s : Work) (segment : Segment) :
    s.placed.count segment = s.main.unpushed.count segment + s.queue.count segment +
      (s.workers.map fun w => w.held.count segment).sum + s.completed.count segment := by
  have hsum : ((s.workers.map Place.held).sum).count segment =
      (s.workers.map fun w => w.held.count segment).sum := by
    induction s.workers with
    | nil => rfl
    | cons w ws ih => simp [ih]
  simp only [Work.placed, Multiset.count_add, Multiset.coe_count, hsum]

theorem Work.conserved_iff {segments : List Segment} {s : Work} :
    s.Conserved segments ↔ s.placed = segments := by
  rw [Multiset.ext]
  simp only [Work.Conserved, s.placed_count, Multiset.coe_count]

/-- A step of one thread moves what that thread and the queue hold. -/
theorem Work.placed_replace {s s' : Work} {t : ℕ} {w : Place} (hw : s.workers[t]? = some w)
    (w' : Place) (hmain : s'.main = s.main) (hworkers : s'.workers = s.workers.set t w') (gone : Multiset Segment)
    (h : (s.queue : Multiset Segment) + w.held + s.completed =
      gone + (s'.queue + w'.held + s'.completed)) : s.placed = gone + s'.placed := by
  obtain ⟨rest, hsum, hset⟩ := sum_set hw Place.held
  rw [Work.placed, Work.placed, hmain, hworkers, hset, hsum]
  calc s.main.unpushed + ↑s.queue + (w.held + rest) + ↑s.completed
      = s.main.unpushed + rest + (↑s.queue + w.held + ↑s.completed) := by abel
    _ = s.main.unpushed + rest + (gone + (↑s'.queue + w'.held + ↑s'.completed)) := by rw [h]
    _ = gone + (s.main.unpushed + ↑s'.queue + (w'.held + rest) + ↑s'.completed) := by abel

theorem workMain_placed {n : ℕ} {s s' : Work} {a : Event} (h : workMain n s a = some s') :
    s'.placed = s.placed ∧ s'.lost = s.lost := by
  unfold workMain at h
  split at h
  · split at h
    · next segment rest hmain =>
      cases h
      refine ⟨?_, rfl⟩
      simp only [Work.placed, hmain, Main.unpushed, coe_concat, ← Multiset.cons_coe,
        ← Multiset.singleton_add]
      abel
    · next hmain =>
      cases h
      exact ⟨by simp only [Work.placed, hmain]; rfl, rfl⟩
    · cases h
  · split_ifs at h with hc
    cases h
    exact ⟨by simp only [Work.placed, hc.1]; rfl, rfl⟩
  · split_ifs at h with hc
    cases h
    exact ⟨by simp only [Work.placed, hc.1]; rfl, rfl⟩
  · split_ifs at h with hc
    cases h
    refine ⟨?_, rfl⟩
    rcases hc with hc | hc <;> simp only [Work.placed, hc] <;> rfl
  · cases h

/-- What a step of a thread does to the segments: it keeps those in a place, or loses one. -/
theorem workThread_placed {s s' : Work} {t : ℕ} {w : Place} {a : Event}
    (hw : s.workers[t]? = some w) (h : workThread s t w a = some s') :
    (¬ a.Loses ∧ s.placed = 0 + s'.placed ∧ s'.lost = s.lost) ∨
      (a.Loses ∧ ∃ segment, s.placed = {segment} + s'.placed ∧ s'.lost = s.lost ++ [segment]) := by
  unfold workThread at h
  split at h
  case h_1 segment =>
    split_ifs at h with hmem
    cases h
    refine Or.inl ⟨id, ?_, rfl⟩
    refine Work.placed_replace hw (.popped segment) (by rfl) (by rfl) _ ?_
    have hq : (s.queue : Multiset Segment) = ↑(s.queue.erase segment) + {segment} := by
      rw [add_comm, Multiset.singleton_add, Multiset.cons_coe]
      exact Multiset.coe_eq_coe.2 (List.perm_cons_erase hmem)
    simp only [hq, Place.held, Work.goto]
    abel
  case h_2 =>
    split_ifs at h
    cases h
    refine Or.inl ⟨id, ?_, rfl⟩
    exact Work.placed_replace hw .exiting (by rfl) (by rfl) 0 (zero_add _).symm
  case h_3 =>
    cases h
    refine Or.inl ⟨id, ?_, rfl⟩
    exact Work.placed_replace hw .exiting (by rfl) (by rfl) 0 (zero_add _).symm
  case h_4 =>
    cases h
    refine Or.inl ⟨fun hl => hl rfl, ?_, rfl⟩
    exact Work.placed_replace hw (.requesting _) (by rfl) (by rfl) 0 (zero_add _).symm
  case h_5 segment _ outcome hne =>
    cases h
    refine Or.inr ⟨fun ho => hne (by rw [ho]), segment, ?_, rfl⟩
    refine Work.placed_replace hw .exiting (by rfl) (by rfl) _ ?_
    simp only [Place.held, Work.goto]
    abel
  case h_6 segment _ =>
    cases h
    refine Or.inl ⟨nofun, ?_, rfl⟩
    refine Work.placed_replace hw .succeeded (by rfl) (by rfl) _ ?_
    simp only [Place.held, Work.goto, coe_concat]
    abel
  case h_7 =>
    cases h
    refine Or.inl ⟨nofun, ?_, rfl⟩
    exact Work.placed_replace hw (.failed _) (by rfl) (by rfl) 0 (zero_add _).symm
  case h_8 segment _ =>
    cases h
    refine Or.inr ⟨rfl, segment, ?_, rfl⟩
    refine Work.placed_replace hw .exiting (by rfl) (by rfl) _ ?_
    simp only [Place.held, Work.goto]
    abel
  case h_9 isStop =>
    cases h
    refine Or.inl ⟨id, ?_, rfl⟩
    cases isStop
    · exact Work.placed_replace hw .waiting (by rfl) (by rfl) 0 (zero_add _).symm
    · exact Work.placed_replace hw .exiting (by rfl) (by rfl) 0 (zero_add _).symm
  case h_10 =>
    cases h
    refine Or.inl ⟨id, ?_, rfl⟩
    refine Work.placed_replace hw .exiting (by rfl) (by rfl) _ ?_
    simp only [Place.held, Work.goto, coe_concat]
    abel
  case h_11 =>
    cases h
    refine Or.inl ⟨id, ?_, rfl⟩
    exact Work.placed_replace hw .exited (by rfl) (by rfl) 0 (zero_add _).symm
  case h_12 => cases h

theorem workStep_placed {n : ℕ} {s s' : Work} {a : Event} (h : workStep n s a = some s') :
    (¬ a.Loses ∧ s.placed = s'.placed ∧ s'.lost = s.lost) ∨
      (a.Loses ∧ ∃ segment, s.placed = {segment} + s'.placed ∧ s'.lost = s.lost ++ [segment]) := by
  unfold workStep at h
  split at h
  · next hthread =>
    obtain ⟨hplaced, hlost⟩ := workMain_placed h
    refine Or.inl ⟨?_, hplaced.symm, hlost⟩
    cases a <;> first | exact id | cases hthread
  · obtain ⟨w, hw, hstep⟩ := Option.bind_eq_some_iff.1 h
    have hplaced := workThread_placed hw hstep
    rwa [zero_add] at hplaced

/-- In every run the segments are in a place or lost, and none is lost exactly if no event of the
    run loses one. -/
theorem runs_placed {n : ℕ} {s s' : Work} {as : List Event} (h : runs (workStep n) s as = some s') :
    s.placed + s.lost = s'.placed + s'.lost ∧
      (s'.lost = [] ↔ s.lost = [] ∧ ∀ a ∈ as, ¬ a.Loses) := by
  induction as generalizing s with
  | nil =>
    obtain rfl := Option.some.inj h
    simp
  | cons a as ih =>
    obtain ⟨s₁, h₁, h₂⟩ := Option.bind_eq_some_iff.1 h
    obtain ⟨hsum, hnone⟩ := ih h₂
    rw [← hsum, hnone]
    rcases workStep_placed h₁ with ⟨hkeeps, hplaced, hlost⟩ | ⟨hloses, segment, hplaced, hlost⟩
    · rw [hplaced, hlost]
      simp [hkeeps]
    · refine ⟨?_, ?_⟩
      · rw [hplaced, hlost, coe_concat]
        abel
      · simp [hlost, hloses]

/-- A state that conserves the segments is not stuck. -/
theorem Work.Conserved.not_stuck {segments : List Segment} {s : Work} (h : s.Conserved segments) :
    ¬ s.Stuck segments := by
  rintro ⟨hmain, hqueue, hworkers, segment, hlt⟩
  have hheld : (s.workers.map fun w => w.held.count segment).sum = 0 := by
    refine List.sum_eq_zero fun n hn => ?_
    obtain ⟨w, hw, rfl⟩ := List.mem_map.1 hn
    rcases hworkers w hw with rfl | rfl <;> rfl
  have hcount := h segment
  rw [hmain, hqueue, hheld] at hcount
  simp only [Multiset.count_zero, List.count_nil] at hcount
  omega

/-- **Which runs of `process` keep the work.**  A run keeps every segment in one place iff no call of
    `makeQsAndPost` throws and no request function throws anything but a `common::exception`; such a
    run never leaves the main thread waiting for a segment that nobody has. -/
theorem process_conserves (countServers : ℕ) (segments : List Segment) {as : List Event} {s : Work}
    (h : runs (workStep segments.length) (Work.start countServers segments) as = some s) :
    (s.Conserved segments ↔ ∀ a ∈ as, ¬ a.Loses) ∧
      ((∀ a ∈ as, ¬ a.Loses) → ¬ s.Stuck segments) := by
  have hstart : (Work.start countServers segments).placed = segments := by
    simp [Work.placed, Work.start, Main.unpushed, Place.held]
  obtain ⟨hsum, hnone⟩ := runs_placed h
  rw [hstart] at hsum
  have hiff : s.Conserved segments ↔ ∀ a ∈ as, ¬ a.Loses := by
    rw [Work.conserved_iff]
    constructor
    · intro hplaced
      have hlost : (s.lost : Multiset Segment) = 0 := by
        have hcancel : s.placed + 0 = s.placed + ↑s.lost := by
          rw [← hsum, hplaced, add_zero]
          exact (add_zero _).symm
        exact (add_left_cancel hcancel).symm
      exact (hnone.1 (Multiset.coe_eq_zero _ |>.1 hlost)).2
    · intro hkeeps
      rw [hnone.2 ⟨rfl, hkeeps⟩] at hsum
      rw [Multiset.coe_nil, add_zero] at hsum
      rw [← hsum]
      exact add_zero _
  exact ⟨hiff, fun hkeeps => (hiff.2 hkeeps).not_stuck⟩

/-- Two threads and one segment: the first request fails, the second thread takes the segment over. -/
def retryEvents : List Event :=
  [.push, .push, .pop 0 ⟨0, 3, 0⟩, .makeQsAndPost 0 .returned, .requestFunction 0 .common,
   .pushBack 0, .exit 0, .pop 1 ⟨0, 3, 0⟩, .makeQsAndPost 1 .returned]

theorem process_conserves_retry :
    ∃ s, runs (workStep 1) (Work.start 2 [⟨0, 3, 0⟩]) retryEvents = some s ∧
      s.Conserved [⟨0, 3, 0⟩] ∧ ¬ s.Stuck [⟨0, 3, 0⟩] := by
  refine ⟨_, rfl, ?_⟩
  obtain ⟨hiff, hstuck⟩ := process_conserves 2 [⟨0, 3, 0⟩]
    (show runs (workStep 1) (Work.start 2 [⟨0, 3, 0⟩]) retryEvents = some _ from rfl)
  exact ⟨hiff.2 (by decide), hstuck (by decide)⟩

/-- The request function of the first thread throws an exception of the standard library: nobody has
    the segment any more, and the main thread waits for ever. -/
theorem process_loses_segment :
    ¬ ∀ (countServers : ℕ) (segments : List Segment) (as : List Event) (s : Work),
      runs (workStep segments.length) (Work.start countServers segments) as = some s →
        s.Conserved segments ∧ ¬ s.Stuck segments := by
  intro h
  have hstuck := (h 2 [⟨0, 3, 0⟩] [.push, .push, .pop 0 ⟨0, 3, 0⟩, .makeQsAndPost 0 .returned,
    .requestFunction 0 .other, .exit 0] _ rfl).2
  exact hstuck ⟨rfl, rfl, by decide, ⟨0, 3, 0⟩, by decide⟩

/-! ## The calls of `requestImpl` -/

/-- A thread of `requestImpl` as a thread of `process`. -/
def Worker.place : Worker → Place
  | .waiting => .waiting
  | .popped segment => .popped segment
  | .requesting segment _ _ | .sent segment _ _ _ => .requesting segment
  | .answered => .succeeded
  | .failed segment => .failed segment
  | .exiting => .exiting
  | .exited => .exited

/-- A state of `requestImpl` as a state of `process` in which the segments `lost` were lost. -/
def Process.work (s : Process) (lost : List Segment) : Work where
  main := s.main
  queue := s.queue
  isStopped := s.isStopped
  workers := s.workers.map Worker.place
  countSuccessRequests := s.countSuccessRequests
  countExitThreads := s.countExitThreads
  completed := s.log.map Success.segment
  lost := lost

theorem place_eq_exited {w : Worker} : w.place = .exited ↔ w = .exited := by
  cases w <;> simp [Worker.place]

theorem goto_work (s : Process) (t : ℕ) (w : Worker) (lost : List Segment) :
    (s.goto t w).work lost = (s.work lost).goto t w.place := by
  simp [Process.work, Process.goto, Work.goto, List.map_set]

theorem stepMain_refines {e : Env} {s s' : Process} {a : Action} (h : stepMain e s a = some s')
    (lost : List Segment) :
    ∃ a', a'.thread = none ∧ workMain e.segments.length (s.work lost) a' = some (s'.work lost) := by
  unfold stepMain at h
  split at h
  · refine ⟨.push, rfl, ?_⟩
    split at h
    · next hmain => cases h; simp [workMain, Process.work, hmain]
    · next hmain => cases h; simp [workMain, Process.work, hmain]
    · cases h
  · split_ifs at h with hc
    cases h
    refine ⟨.wake, rfl, ?_⟩
    simp [workMain, Process.work, hc]
  · split_ifs at h with hc
    cases h
    refine ⟨.join, rfl, ?_⟩
    have hexited : ∀ w ∈ s.workers, w.place = .exited := fun w hw => place_eq_exited.2 (hc.2 w hw)
    simpa [workMain, Process.work, hc.1] using hexited
  · split_ifs at h with hc
    cases h
    refine ⟨.stop, rfl, ?_⟩
    simp [workMain, Process.work, hc]
  · cases h

/-- A step of thread `t` is an event of that thread, or stays inside the request function. -/
def Refines (s s' : Process) (t : ℕ) (w : Worker) (lost : List Segment) : Prop :=
  s'.work lost = s.work lost ∨
    ∃ a lost', a.thread = some t ∧ workThread (s.work lost) t w.place a = some (s'.work lost')

theorem refines_thrown (s : Process) (t : ℕ) (segment : Segment) (qs post : Bytes) (index : ℕ)
    (exn : Exn) (lost : List Segment) :
    Refines s (s.goto t (Worker.thrown segment exn)) t (.sent segment qs post index) lost := by
  right
  cases exn with
  | common m =>
    exact ⟨.requestFunction t .common, lost, rfl, by rw [goto_work]; rfl⟩
  | std m =>
    refine ⟨.requestFunction t .other, lost ++ [segment], rfl, ?_⟩
    rw [goto_work]; rfl

theorem refines_receive (e : Env) (s : Process) (t : ℕ) (segment : Segment)
    (qs post response : Bytes) (index : ℕ) (lost : List Segment) :
    Refines s (receive e s t segment qs post response) t (.sent segment qs post index) lost := by
  unfold receive
  rcases e.parseAnswer segment response with exn | parsed
  · exact refines_thrown s t segment qs post index exn lost
  · right
    dsimp only
    split_ifs
    · refine ⟨.requestFunction t .returned, lost, rfl, ?_⟩
      simp [workThread, Process.work, Process.goto, Work.goto, List.map_set, Worker.place]
    · refine ⟨.requestFunction t .other, lost ++ [segment], rfl, ?_⟩
      rw [goto_work]; rfl

/-- The thread finds its curl instance and stays in the request function, or the call throws. -/
theorem refines_takeCurl (e : Env) (s : Process) (t : ℕ) (segment : Segment) (qs post : Bytes)
    (hw : s.workers[t]? = some (.requesting segment qs post)) (lost : List Segment) :
    Refines s (takeCurl e s t segment qs post) t (.requesting segment qs post) lost := by
  have hfailed : ∀ curls, Refines s { s.goto t (.failed segment) with curlsDistribution := curls } t
      (.requesting segment qs post) lost := by
    intro curls
    refine Or.inr ⟨.requestFunction t .common, lost, rfl, ?_⟩
    simp [workThread, Process.work, Process.goto, Work.goto, List.map_set, Worker.place]
  simp only [takeCurl]
  split
  · exact hfailed s.curlsDistribution
  · split_ifs
    · left
      have hplace : (s.workers.map Worker.place)[t]? = some (.requesting segment) := by
        rw [List.getElem?_map, hw]; rfl
      obtain ⟨hlt, hget⟩ := List.getElem?_eq_some_iff.1 hplace
      simp only [Process.work, Process.goto, List.map_set, Worker.place]
      rw [← hget, List.set_getElem_self]
    · exact hfailed _

theorem stepWorker_refines {e : Env} {s s' : Process} {t : ℕ} {w : Worker} {a : Action}
    (hw : s.workers[t]? = some w) (h : stepWorker e s t w a = some s') (lost : List Segment) :
    Refines s s' t w lost := by
  unfold stepWorker at h
  split at h
  case h_1 segment =>
    split_ifs at h with hmem
    cases h
    refine Or.inr ⟨.pop t segment, lost, rfl, ?_⟩
    simp [workThread, Process.work, Process.goto, Work.goto, List.map_set, Worker.place, hmem]
  case h_2 =>
    split_ifs at h with hstop
    cases h
    refine Or.inr ⟨.popStopped t, lost, rfl, ?_⟩
    simp [workThread, Process.work, Process.goto, Work.goto, List.map_set, Worker.place, hstop]
  case h_3 =>
    cases h
    exact Or.inr ⟨.interrupt t, lost, rfl, by rw [goto_work]; rfl⟩
  case h_4 segment _ =>
    split at h
    · cases h
      exact Or.inr ⟨.makeQsAndPost t .returned, lost, rfl, by rw [goto_work]; rfl⟩
    · cases h
      refine Or.inr ⟨.makeQsAndPost t .other, lost ++ [segment], rfl, ?_⟩
      rw [goto_work]; rfl
  case h_5 =>
    cases h
    exact refines_takeCurl e s t _ _ _ hw lost
  case h_6 =>
    cases h
    exact refines_receive e s t _ _ _ _ _ lost
  case h_7 =>
    cases h
    exact refines_thrown s t _ _ _ _ _ lost
  case h_8 isStop =>
    cases h
    refine Or.inr ⟨.count t isStop, lost, rfl, ?_⟩
    cases isStop <;>
      simp [workThread, Process.work, Process.goto, Work.goto, List.map_set, Worker.place]
  case h_9 =>
    cases h
    refine Or.inr ⟨.pushBack t, lost, rfl, ?_⟩
    simp [workThread, Process.work, Process.goto, Work.goto, List.map_set, Worker.place]
  case h_10 =>
    cases h
    refine Or.inr ⟨.exit t, lost, rfl, ?_⟩
    simp [workThread, Process.work, Process.goto, Work.goto, List.map_set, Worker.place]
  case h_11 => cases h

/-- What `requestImpl` does in one step is a run of `process`. -/
theorem step_refines {e : Env} {s s' : Process} {a : Action} (h : step e s a = some s')
    (lost : List Segment) :
    ∃ as lost', runs (workStep e.segments.length) (s.work lost) as = some (s'.work lost') := by
  unfold step at h
  split at h
  · obtain ⟨a', hthread, ha⟩ := stepMain_refines h lost
    refine ⟨[a'], lost, ?_⟩
    simp [runs, workStep, hthread, ha]
  · next t _ =>
    obtain ⟨w, hw, hstep⟩ := Option.bind_eq_some_iff.1 h
    have hplace : (s.work lost).workers[t]? = some w.place := by
      show (s.workers.map Worker.place)[t]? = _
      rw [List.getElem?_map, hw]; rfl
    rcases stepWorker_refines hw hstep lost with heq | ⟨a', lost', hthread, ha⟩
    · exact ⟨[], lost, by rw [heq]; rfl⟩
    · refine ⟨[a'], lost', ?_⟩
      simp [runs, workStep, hthread, hplace, ha]

/-- **Every run of `requestImpl` is a run of `process`.** -/
theorem runs_refines {e : Env} {s : Process} {as : List Action}
    (h : runs (step e) e.start as = some s) :
    ∃ as' lost, runs (workStep e.segments.length)
      (Work.start e.requestServers.length e.segments) as' = some (s.work lost) := by
  have hstart : e.start.work [] = Work.start e.requestServers.length e.segments := by
    simp [Env.start, Process.work, Work.start, Worker.place]
  rw [← hstart]
  generalize [] = lost
  generalize e.start = s₀ at h
  induction as generalizing s₀ lost with
  | nil =>
    obtain rfl := Option.some.inj h
    exact ⟨[], lost, rfl⟩
  | cons a as ih =>
    obtain ⟨s₁, h₁, h₂⟩ := Option.bind_eq_some_iff.1 h
    obtain ⟨as₁, lost₁, hrun₁⟩ := step_refines h₁ lost
    obtain ⟨as₂, lost₂, hrun₂⟩ := ih lost₁ s₁ h₂
    exact ⟨as₁ ++ as₂, lost₂, by rw [runs_append, hrun₁]; exact hrun₂⟩

end P2P

end TorrentNode
