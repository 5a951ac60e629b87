/-
  Every segment is accounted for in every schedule.

  `WorkerStep` says what a step of a worker can do to the segments: take one
  from the queue, complete it, put it back, or lose it with the thread.  The
  invariant `Inv` follows: the segments are those not pushed yet, queued, held by
  a thread, completed or lost.  A call that reports success has counted as many
  requests as there are segments, so each segment was completed once.
-/
import TorrentNode.P2P.Process

open Wire Machine

namespace TorrentNode

namespace P2P

/-! ## Steps of a worker -/

/-- The segment a worker has taken and neither completed nor given up. -/
def Worker.held : Worker → Multiset Segment
  | .popped segment | .requesting segment _ _ | .sent segment _ _ _ | .failed segment => {segment}
  | _ => 0

/-- One for a request that is successful and not counted yet. -/
def Worker.uncounted : Worker → ℕ
  | .answered => 1
  | _ => 0

/-- The request of a worker is the one for its segment. -/
def Worker.Asked (e : Env) : Worker → Prop
  | .requesting segment qs post | .sent segment qs post _ =>
    e.makeQsAndPost segment.fromByte segment.toByte = .ok (qs, post)
  | _ => True

/-- What a step of thread `t`, which is at `w`, does to the segments and the answers. -/
inductive WorkerStep (e : Env) (s : Process) (t : ℕ) (w : Worker) : Process → Prop where
  /-- the segment is kept or given up -/
  | move (w' : Worker) (countExit : ℕ) (curls : Bytes → Finmap fun _ : ℕ => ℕ)
      (hw : w ≠ .exited) (hheld : w'.held = w.held ∨ w'.held = 0) (hun : w.uncounted = 0)
      (hun' : w'.uncounted = 0) (hasked : w.Asked e → w'.Asked e) :
      WorkerStep e s t w
        { s.goto t w' with countExitThreads := countExit, curlsDistribution := curls }
  | take (segment : Segment) (hw : w = .waiting) (hmem : segment ∈ s.queue) :
      WorkerStep e s t w { s.goto t (.popped segment) with queue := s.queue.erase segment }
  | complete (segment : Segment) (qs post r parsed : Bytes) (index : ℕ)
      (hw : w = .sent segment qs post index) (hparsed : e.parseAnswer segment r = .ok parsed)
      (hpos : segment.posInArray < s.answers.length) :
      WorkerStep e s t w
        { s.goto t .answered with
          answers := s.answers.set segment.posInArray parsed
          log := s.log ++ [⟨t, segment, qs, post, r, parsed⟩] }
  | count (w' : Worker) (hw : w = .answered) (hheld : w'.held = 0) (hun' : w'.uncounted = 0)
      (hasked : w'.Asked e) :
      WorkerStep e s t w
        { s.goto t w' with countSuccessRequests := s.countSuccessRequests + 1 }
  | putBack (segment : Segment) (hw : w = .failed segment) :
      WorkerStep e s t w { s.goto t .exiting with queue := s.queue ++ [segment] }

/-- A step that changes nothing but the place of the thread. -/
theorem workerStep_goto {e : Env} {s : Process} {t : ℕ} {w w' : Worker} (hw : w ≠ .exited)
    (hheld : w'.held = w.held ∨ w'.held = 0) (hun : w.uncounted = 0) (hun' : w'.uncounted = 0)
    (hasked : w.Asked e → w'.Asked e) : WorkerStep e s t w (s.goto t w') :=
  .move w' s.countExitThreads s.curlsDistribution hw hheld hun hun' hasked

theorem workerStep_takeCurl (e : Env) (s : Process) (t : ℕ) (segment : Segment) (qs post : Bytes) :
    WorkerStep e s t (.requesting segment qs post) (takeCurl e s t segment qs post) := by
  simp only [takeCurl]
  cases e.curls (e.requestServers.getD t []) with
  | none => exact workerStep_goto (by simp) (Or.inl rfl) rfl rfl fun _ => trivial
  | some size =>
    refine .move _ s.countExitThreads _ (by simp) ?_ rfl ?_ ?_
    · split_ifs <;> exact Or.inl rfl
    · split_ifs <;> rfl
    · intro hasked
      split_ifs
      · exact hasked
      · trivial

theorem workerStep_thrown (e : Env) (s : Process) (t : ℕ) (segment : Segment) (qs post : Bytes)
    (index : ℕ) (exn : Exn) :
    WorkerStep e s t (.sent segment qs post index) (s.goto t (Worker.thrown segment exn)) := by
  cases exn with
  | common m => exact workerStep_goto (by simp) (Or.inl rfl) rfl rfl fun _ => trivial
  | std m => exact workerStep_goto (by simp) (Or.inr rfl) rfl rfl fun _ => trivial

theorem workerStep_receive (e : Env) (s : Process) (t : ℕ) (segment : Segment)
    (qs post response : Bytes) (index : ℕ) :
    WorkerStep e s t (.sent segment qs post index) (receive e s t segment qs post response) := by
  unfold receive
  rcases hp : e.parseAnswer segment response with exn | parsed
  · exact workerStep_thrown e s t segment qs post index exn
  · show WorkerStep e s t _ (if segment.posInArray < s.answers.length then _ else _)
    split_ifs with hpos
    · exact .complete segment qs post response parsed index rfl hp hpos
    · exact workerStep_goto (by simp) (Or.inr rfl) rfl rfl fun _ => trivial

/-- Every step of a worker is one of these. -/
theorem workerStep_of_stepWorker {e : Env} {s s' : Process} {t : ℕ} {w : Worker} {a : Action}
    (h : stepWorker e s t w a = some s') : WorkerStep e s t w s' := by
  unfold stepWorker at h
  split at h <;> try cases h
  · split_ifs at h with hmem
    cases h
    exact .take _ rfl hmem
  · split_ifs at h
    cases h
    exact workerStep_goto (by simp) (Or.inr rfl) rfl rfl fun _ => trivial
  · exact workerStep_goto (by simp) (Or.inr rfl) rfl rfl fun _ => trivial
  · split at h
    · next hqs =>
      cases h
      exact workerStep_goto (by simp) (Or.inl rfl) rfl rfl fun _ => hqs
    · cases h
      exact workerStep_goto (by simp) (Or.inr rfl) rfl rfl fun _ => trivial
  · exact workerStep_takeCurl e s t _ _ _
  · exact workerStep_receive e s t _ _ _ _ _
  · exact workerStep_thrown e s t _ _ _ _ _
  · next isStop =>
    cases isStop
    · exact .count .waiting rfl rfl rfl trivial
    · exact .count .exiting rfl rfl rfl trivial
  · exact .putBack _ rfl
  · exact .move .exited _ s.curlsDistribution (by simp) (Or.inr rfl) rfl rfl fun _ => trivial

/-! ## The invariant -/

/-- The segments that are not pushed yet. -/
def Main.unpushed : Main → Multiset Segment
  | .pushing segments => segments
  | _ => 0

/-- The segments that were completed, once for every successful request. -/
def Process.completed (s : Process) : Multiset Segment := ↑(s.log.map Success.segment)

/-- What holds in every state of a call. -/
structure Inv (e : Env) (s : Process) : Prop where
  /-- every segment is somewhere, and only once -/
  segments : ∃ lost, (e.segments : Multiset Segment) =
    s.main.unpushed + ↑s.queue + (s.workers.map Worker.held).sum + s.completed + lost
  counted : s.log.length = s.countSuccessRequests + (s.workers.map Worker.uncounted).sum
  answers : s.answers.length = e.segments.length
  written : ∀ x ∈ s.log, s.answers[x.segment.posInArray]? = some x.parsed ∧
    e.parseAnswer x.segment x.response = .ok x.parsed ∧
    e.makeQsAndPost x.segment.fromByte x.segment.toByte = .ok (x.qs, x.post)
  asked : ∀ w ∈ s.workers, w.Asked e
  returned : ∀ isSuccess, s.main = .returned isSuccess → (∀ w ∈ s.workers, w = .exited) ∧
    (isSuccess = true ↔ s.countSuccessRequests = e.segments.length)

/-- The answer to a segment goes to the position of the segment. -/
def Numbered (segments : List Segment) : Prop :=
  ∀ i (s : Segment), segments[i]? = some s → s.posInArray = i

theorem Numbered.nodup {segments : List Segment} (h : Numbered segments) : segments.Nodup := by
  rw [List.nodup_iff_getElem?_ne_getElem?]
  intro i j hij hj heq
  have hi : segments[i]? = some segments[i] := List.getElem?_eq_getElem (by omega)
  have h1 := h i _ hi
  have h2 := h j _ (heq ▸ hi)
  omega

theorem Numbered.posInArray_inj {segments : List Segment} (h : Numbered segments) {s t : Segment}
    (hs : s ∈ segments) (ht : t ∈ segments) (heq : s.posInArray = t.posInArray) : s = t := by
  obtain ⟨i, hi⟩ := List.mem_iff_getElem?.1 hs
  obtain ⟨j, hj⟩ := List.mem_iff_getElem?.1 ht
  have : i = j := by rw [← h i s hi, ← h j t hj, heq]
  rw [this, hj] at hi
  exact (Option.some.inj hi).symm

theorem coe_concat (l : List Segment) (s : Segment) :
    (↑(l ++ [s]) : Multiset Segment) = {s} + ↑l := by
  rw [← Multiset.coe_add, add_comm]; rfl

theorem inv_start (e : Env) : Inv e e.start where
  segments := by
    refine ⟨0, ?_⟩
    simp [Env.start, Main.unpushed, Process.completed, Worker.held]
  counted := by simp [Env.start, Worker.uncounted]
  answers := by simp [Env.start]
  written x hx := absurd hx List.not_mem_nil
  asked w hw := by
    rw [List.eq_of_mem_replicate hw]; trivial
  returned b hb := by cases hb

theorem inv_stepMain {e : Env} {s s' : Process} {a : Action} (hs : Inv e s)
    (h : stepMain e s a = some s') : Inv e s' := by
  obtain ⟨lost, hseg⟩ := hs.segments
  unfold stepMain at h
  split at h
  · split at h
    · next segment rest hmain =>
      cases h
      refine { hs with segments := ⟨lost, ?_⟩, returned := fun b hb => by cases hb }
      show _ = ↑rest + ↑(s.queue ++ [segment]) + (s.workers.map Worker.held).sum + s.completed + lost
      rw [hseg, hmain, Main.unpushed, coe_concat, ← Multiset.cons_coe, ← Multiset.singleton_add]
      abel
    · next hmain =>
      cases h
      refine { hs with segments := ⟨lost, ?_⟩, returned := fun b hb => by cases hb }
      rw [hseg, hmain]; rfl
    · cases h
  · split_ifs at h with hc
    cases h
    refine { hs with segments := ⟨lost, ?_⟩, returned := fun b hb => by cases hb }
    rw [hseg, hc.1]; rfl
  · split_ifs at h with hc
    cases h
    refine { hs with segments := ⟨lost, ?_⟩, returned := fun b hb => ?_ }
    · rw [hseg, hc.1]; rfl
    · cases hb
      exact ⟨hc.2, by simp⟩
  · split_ifs at h with hc
    cases h
    refine { hs with segments := ⟨lost, ?_⟩, returned := fun b hb => by cases hb }
    rcases hc with hc | hc <;> rw [hseg, hc] <;> rfl
  · cases h

section
variable {e : Env} (hnum : Numbered e.segments)
include hnum

/-- A segment held by a thread was not completed before. -/
theorem Inv.not_completed {s : Process} (hs : Inv e s) {t : ℕ} {w : Worker} {segment : Segment}
    (hw : s.workers[t]? = some w) (hheld : w.held = {segment}) :
    ∀ x ∈ s.log, x.segment.posInArray ≠ segment.posInArray := by
  intro x hx heq
  obtain ⟨lost, hseg⟩ := hs.segments
  obtain ⟨rest, hsum, -⟩ := sum_set hw Worker.held
  rw [hsum, hheld] at hseg
  have hmem : x.segment ∈ s.completed := Multiset.mem_coe.2 (List.mem_map_of_mem hx)
  have hx' : x.segment ∈ e.segments := by
    rw [← Multiset.mem_coe, hseg]
    exact Multiset.mem_add.2 (Or.inl (Multiset.mem_add.2 (Or.inr hmem)))
  have hs' : segment ∈ e.segments := by
    rw [← Multiset.mem_coe, hseg]; simp
  have hsame := hnum.posInArray_inj hx' hs' heq
  -- the segment would occur twice
  have hnodup : (e.segments : Multiset Segment).Nodup := Multiset.coe_nodup.2 hnum.nodup
  have hle : {segment} + s.completed ≤ (e.segments : Multiset Segment) := by
    rw [hseg]
    refine Multiset.le_iff_exists_add.2 ⟨s.main.unpushed + ↑s.queue + rest + lost, ?_⟩
    abel
  have hdisj := (Multiset.nodup_add.1 (Multiset.nodup_of_le hle hnodup)).2.2
  exact Multiset.disjoint_left.1 hdisj (Multiset.mem_singleton_self segment) (hsame ▸ hmem)

omit hnum in
/-- A step of one thread keeps the invariant if it accounts for the segment of that thread. -/
theorem Inv.replace {s s' : Process} {t : ℕ} {w w' : Worker} (hs : Inv e s)
    (hw : s.workers[t]? = some w) (hne : w ≠ .exited) (hmain : s'.main = s.main)
    (hworkers : s'.workers = s.workers.set t w') (hanswers : s'.answers.length = s.answers.length)
    (hseg : ∃ lost, (s.queue : Multiset Segment) + w.held + s.completed =
      s'.queue + w'.held + s'.completed + lost)
    (hcount : s'.log.length + s.countSuccessRequests + w.uncounted =
      s.log.length + s'.countSuccessRequests + w'.uncounted)
    (hwritten : ∀ x ∈ s'.log, s'.answers[x.segment.posInArray]? = some x.parsed ∧
      e.parseAnswer x.segment x.response = .ok x.parsed ∧
      e.makeQsAndPost x.segment.fromByte x.segment.toByte = .ok (x.qs, x.post))
    (hasked : w'.Asked e) : Inv e s' where
  segments := by
    obtain ⟨lost, hall⟩ := hs.segments
    obtain ⟨lost', hseg⟩ := hseg
    obtain ⟨rest, hsum, hset⟩ := sum_set hw Worker.held
    refine ⟨lost + lost', ?_⟩
    rw [hmain, hworkers, hset]
    calc (e.segments : Multiset Segment)
        = s.main.unpushed + rest + lost + (s.queue + w.held + s.completed) := by
          rw [hall, hsum]; abel
      _ = s.main.unpushed + rest + lost + (s'.queue + w'.held + s'.completed + lost') := by rw [hseg]
      _ = s.main.unpushed + s'.queue + (w'.held + rest) + s'.completed + (lost + lost') := by abel
  counted := by
    obtain ⟨rest, hsum, hset⟩ := sum_set hw Worker.uncounted
    have hold := hs.counted
    rw [hsum] at hold
    rw [hworkers, hset]
    omega
  answers := by rw [hanswers, hs.answers]
  written := hwritten
  asked := by
    rw [hworkers]
    exact forall_set hs.asked hasked
  -- a call that has returned has no thread left to make a step
  returned b hb := by
    rw [hmain] at hb
    exact absurd ((hs.returned b hb).1 w (List.mem_of_getElem? hw)) hne

/-- The answer to a segment overwrites no other answer. -/
theorem Inv.written_complete {s : Process} (hs : Inv e s) {t index : ℕ} {segment : Segment}
    {qs post r parsed : Bytes} (hw : s.workers[t]? = some (.sent segment qs post index))
    (hparsed : e.parseAnswer segment r = .ok parsed) (hpos : segment.posInArray < s.answers.length) :
    ∀ x ∈ s.log ++ [⟨t, segment, qs, post, r, parsed⟩],
      (s.answers.set segment.posInArray parsed)[x.segment.posInArray]? = some x.parsed ∧
      e.parseAnswer x.segment x.response = .ok x.parsed ∧
      e.makeQsAndPost x.segment.fromByte x.segment.toByte = .ok (x.qs, x.post) := by
  intro x hx
  rcases List.mem_append.1 hx with hx | hx
  · obtain ⟨h1, h2⟩ := hs.written x hx
    have hne := hs.not_completed hnum hw rfl x hx
    exact ⟨by rw [List.getElem?_set_ne hne.symm, h1], h2⟩
  · obtain rfl := List.mem_singleton.1 hx
    exact ⟨List.getElem?_set_self hpos, hparsed, hs.asked _ (List.mem_of_getElem? hw)⟩

theorem inv_workerStep {s s' : Process} {t : ℕ} {w : Worker} (hs : Inv e s)
    (hw : s.workers[t]? = some w) (h : WorkerStep e s t w s') : Inv e s' := by
  cases h with
  | move w' countExit curls hne hheld hun hun' hasked =>
    refine hs.replace hw hne rfl rfl rfl ?_ (by rw [hun, hun']; rfl) hs.written
      (hasked (hs.asked w (List.mem_of_getElem? hw)))
    rcases hheld with hheld | hheld
    · exact ⟨0, by rw [hheld, add_zero]; rfl⟩
    · refine ⟨w.held, ?_⟩
      rw [hheld, add_zero]
      exact add_right_comm _ _ _
  | take segment hwait hin =>
    subst hwait
    refine hs.replace hw (by simp) rfl rfl rfl ⟨0, ?_⟩ rfl hs.written trivial
    have hq : (s.queue : Multiset Segment) = ↑(s.queue.erase segment) + {segment} := by
      rw [add_comm, Multiset.singleton_add, Multiset.cons_coe]
      exact Multiset.coe_eq_coe.2 (List.perm_cons_erase hin)
    rw [hq, add_zero]
    exact congrArg (· + s.completed) (add_zero _)
  | complete segment qs post r parsed index hsent hparsed hpos =>
    subst hsent
    refine hs.replace hw (by simp) rfl rfl List.length_set ⟨0, ?_⟩ ?_
      (hs.written_complete hnum hw hparsed hpos) trivial
    · simp only [Process.completed, List.map_append, List.map_singleton, coe_concat, Worker.held,
        Process.goto]
      abel
    · simp only [Worker.uncounted, List.length_append, List.length_singleton, Process.goto]
      omega
  | count w' hans hheld hun' hasked =>
    subst hans
    refine hs.replace hw (by simp) rfl rfl rfl ⟨0, ?_⟩ ?_ hs.written hasked
    · rw [hheld, add_zero]; rfl
    · rw [hun']
      simp only [Worker.uncounted, Process.goto]
      omega
  | putBack segment hfail =>
    subst hfail
    refine hs.replace hw (by simp) rfl rfl rfl ⟨0, ?_⟩ rfl hs.written trivial
    simp only [coe_concat, Worker.held, Process.goto, Process.completed]
    abel

theorem inv_step {s s' : Process} {a : Action} (hs : Inv e s) (h : step e s a = some s') :
    Inv e s' := by
  unfold step at h
  split at h
  · exact inv_stepMain hs h
  · obtain ⟨w, hw, hstep⟩ := Option.bind_eq_some_iff.1 h
    exact inv_workerStep hnum hs hw (workerStep_of_stepWorker hstep)

/-- **The invariant holds in every schedule.** -/
theorem inv_runs {s : Process} {as : List Action} (h : runs (step e) e.start as = some s) : Inv e s :=
  runs_invariant (fun _ _ _ hs hstep => inv_step hnum hs hstep) (inv_start e) h

end

end P2P

end TorrentNode
