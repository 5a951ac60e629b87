/-
  The curl instances of the worker threads (`P2P_Ips::requestImpl`).

  A thread that enters the request function for the first time takes the next curl
  instance of its server; the number of threads that came before it is its index,
  and `curlsDistribution` keeps it for the next times.

  `curls_not_shared`: in every schedule, if the servers of the request are distinct
  and configured, every thread finds an instance, always the same one, and no other
  thread of its server gets it.
-/
import TorrentNode.P2P.Ips

open Wire Machine

namespace TorrentNode

namespace P2P

/-! ## Indices in the order of arrival -/

/-- The indices of a table are pairwise different and below its size. -/
structure Dense (curlDist : Finmap fun _ : ℕ => ℕ) : Prop where
  lt : ∀ t i, curlDist.lookup t = some i → i < curlDist.keys.card
  inj : ∀ t t' i, curlDist.lookup t = some i → curlDist.lookup t' = some i → t = t'

theorem dense_empty : Dense ∅ := ⟨by simp, by simp⟩

section
variable {curlDist : Finmap fun _ : ℕ => ℕ} {t : ℕ}

theorem mem_distribute {k : ℕ} : k ∈ distribute curlDist t ↔ k = t ∨ k ∈ curlDist := by
  rw [distribute]
  split_ifs with ht
  · refine ⟨Or.inr, ?_⟩
    rintro (rfl | hk)
    · exact ht
    · exact hk
  · exact Finmap.mem_insert

/-- An index that was handed out stays. -/
theorem lookup_distribute {k i : ℕ} (h : curlDist.lookup k = some i) :
    (distribute curlDist t).lookup k = some i := by
  rw [distribute]
  split_ifs with ht
  · exact h
  · have hne : k ≠ t := by
      rintro rfl
      rw [Finmap.lookup_eq_none.2 ht] at h
      cases h
    rwa [Finmap.lookup_insert_of_ne _ hne]

theorem Dense.distribute (h : Dense curlDist) : Dense (distribute curlDist t) := by
  rw [P2P.distribute]
  split_ifs with ht
  · exact h
  have hcard : (curlDist.insert t curlDist.keys.card).keys.card = curlDist.keys.card + 1 := by
    have hkeys : (curlDist.insert t curlDist.keys.card).keys = insert t curlDist.keys := by
      ext k
      rw [Finmap.mem_keys, Finmap.mem_insert, Finset.mem_insert, Finmap.mem_keys]
    rw [hkeys, Finset.card_insert_of_notMem fun hk => ht (Finmap.mem_keys.1 hk)]
  have hcases : ∀ k i, (curlDist.insert t curlDist.keys.card).lookup k = some i →
      (k = t ∧ i = curlDist.keys.card) ∨ (curlDist.lookup k = some i ∧ i < curlDist.keys.card) := by
    intro k i hk
    by_cases hkt : k = t
    · subst hkt
      rw [Finmap.lookup_insert] at hk
      exact Or.inl ⟨rfl, (Option.some.inj hk).symm⟩
    · rw [Finmap.lookup_insert_of_ne _ hkt] at hk
      exact Or.inr ⟨hk, h.lt k i hk⟩
  constructor
  · intro k i hk
    rcases hcases k i hk with ⟨-, rfl⟩ | ⟨-, hlt⟩ <;> omega
  · intro k k' i hk hk'
    rcases hcases k i hk with ⟨rfl, hi⟩ | ⟨hold, hlt⟩ <;>
      rcases hcases k' i hk' with ⟨rfl, hi'⟩ | ⟨hold', hlt'⟩
    · rfl
    · omega
    · omega
    · exact h.inj k k' i hold hold'

end

/-- Places of a list that hold one element are not more than its occurrences. -/
theorem card_le_count {l : List Bytes} {server : Bytes} {threads : Finset ℕ}
    (h : ∀ t ∈ threads, l[t]? = some server) : threads.card ≤ l.count server := by
  let places : Finset (Fin l.length) := Finset.univ.filter fun i => l.get i = server
  have hcount : places.card = l.count server := by
    rw [show (List.instBEq : BEq Bytes) = instBEqOfDecidableEq from lawful_beq_subsingleton _ _]
    exact Fin.card_filter_univ_eq_vector_get_eq_count server (⟨l, rfl⟩ : List.Vector Bytes l.length)
  have hsub : threads ⊆ places.map Fin.valEmbedding := by
    intro t ht
    obtain ⟨hlt, hget⟩ := List.getElem?_eq_some_iff.1 (h t ht)
    exact Finset.mem_map.2 ⟨⟨t, hlt⟩, Finset.mem_filter.2 ⟨Finset.mem_univ _, hget⟩, rfl⟩
  calc threads.card ≤ (places.map Fin.valEmbedding).card := Finset.card_le_card hsub
    _ = l.count server := by rw [Finset.card_map, hcount]

/-! ## The tables of a call -/

/-- The tables of a call: each has the threads of its server, and hands out indices in the order of
    their arrival. -/
structure CurlsInv (e : Env) (s : Process) : Prop where
  workers : s.workers.length = e.requestServers.length
  threads : ∀ server t, t ∈ s.curlsDistribution server → e.requestServers[t]? = some server
  dense : ∀ server, Dense (s.curlsDistribution server)

theorem curlsInv_start (e : Env) : CurlsInv e e.start where
  workers := by simp [Env.start]
  threads _ _ ht := absurd ht Finmap.notMem_empty
  dense _ := dense_empty

/-- The table of one server after another thread has come. -/
theorem CurlsInv.takeCurl {e : Env} {s : Process} (hs : CurlsInv e s) {t : ℕ}
    (ht : t < s.workers.length) (segment : Segment) (qs post : Bytes) :
    CurlsInv e (takeCurl e s t segment qs post) := by
  rw [hs.workers] at ht
  have hserver : e.requestServers[t]? = some (e.requestServers.getD t []) := by
    rw [List.getD_eq_getElem?_getD, List.getElem?_eq_getElem ht, Option.getD_some]
  rw [P2P.takeCurl]
  cases e.curls (e.requestServers.getD t []) with
  | none => exact ⟨by simp [Process.goto, hs.workers], hs.threads, hs.dense⟩
  | some size =>
    refine ⟨by simp [Process.goto, hs.workers], ?_, ?_⟩
    · intro server k hk
      dsimp only at hk
      by_cases hsame : server = e.requestServers.getD t []
      · rw [hsame, Function.update_self, mem_distribute] at hk
        rcases hk with rfl | hk
        · rw [hsame]
          exact hserver
        · rw [hsame]
          exact hs.threads _ k hk
      · rw [Function.update_of_ne hsame] at hk
        exact hs.threads server k hk
    · intro server
      dsimp only
      by_cases hsame : server = e.requestServers.getD t []
      · rw [hsame, Function.update_self]
        exact (hs.dense _).distribute
      · rw [Function.update_of_ne hsame]
        exact hs.dense server

theorem goto_workers_length (s : Process) (t : ℕ) (w : Worker) :
    (s.goto t w).workers.length = s.workers.length := List.length_set

/-- The tables and the number of threads stay. -/
def SameTables (s s' : Process) : Prop :=
  s'.curlsDistribution = s.curlsDistribution ∧ s'.workers.length = s.workers.length

theorem stepMain_curls {e : Env} {s s' : Process} {a : Action} (h : stepMain e s a = some s') :
    SameTables s s' := by
  unfold stepMain at h
  split at h
  · split at h <;> cases h <;> exact ⟨rfl, rfl⟩
  · split_ifs at h
    cases h
    exact ⟨rfl, rfl⟩
  · split_ifs at h
    cases h
    exact ⟨rfl, rfl⟩
  · split_ifs at h
    cases h
    exact ⟨rfl, rfl⟩
  · cases h

/-- A thread changes the tables only where it looks for its curl instance. -/
theorem stepWorker_curls {e : Env} {s s' : Process} {t : ℕ} {w : Worker} {a : Action}
    (h : stepWorker e s t w a = some s') :
    SameTables s s' ∨ ∃ segment qs post, w = .requesting segment qs post ∧
      s' = takeCurl e s t segment qs post := by
  have hgoto : ∀ w', SameTables s (s.goto t w') := fun w' => ⟨rfl, goto_workers_length s t w'⟩
  unfold stepWorker at h
  split at h
  · split_ifs at h
    cases h
    exact Or.inl (hgoto _)
  · split_ifs at h
    cases h
    exact Or.inl (hgoto _)
  · cases h
    exact Or.inl (hgoto _)
  · split at h <;> cases h <;> exact Or.inl (hgoto _)
  · cases h
    exact Or.inr ⟨_, _, _, rfl, rfl⟩
  · cases h
    left
    unfold receive
    split
    · split_ifs
      · exact hgoto _
      · exact hgoto _
    · exact hgoto _
  · cases h
    exact Or.inl (hgoto _)
  · cases h
    exact Or.inl (hgoto _)
  · cases h
    exact Or.inl (hgoto _)
  · cases h
    exact Or.inl (hgoto _)
  · cases h

theorem step_curls {e : Env} {s s' : Process} {a : Action} (h : step e s a = some s') :
    SameTables s s' ∨ ∃ t segment qs post, s.workers[t]? = some (.requesting segment qs post) ∧
      s' = takeCurl e s t segment qs post := by
  unfold step at h
  split at h
  · exact Or.inl (stepMain_curls h)
  · obtain ⟨w, hw, h⟩ := Option.bind_eq_some_iff.1 h
    rcases stepWorker_curls h with hsame | ⟨segment, qs, post, rfl, rfl⟩
    · exact Or.inl hsame
    · exact Or.inr ⟨_, segment, qs, post, hw, rfl⟩

theorem curlsInv_step {e : Env} {s s' : Process} {a : Action} (hs : CurlsInv e s)
    (h : step e s a = some s') : CurlsInv e s' := by
  rcases step_curls h with ⟨hsame, hlength⟩ | ⟨t, segment, qs, post, hw, rfl⟩
  · refine ⟨hlength.trans hs.workers, ?_, ?_⟩
    · rw [hsame]
      exact hs.threads
    · rw [hsame]
      exact hs.dense
  · exact hs.takeCurl (List.getElem?_eq_some_iff.1 hw).1 segment qs post

/-- An index that was handed out stays through the run. -/
theorem lookup_step {e : Env} {s s' : Process} {a : Action} {server : Bytes} {t i : ℕ}
    (hi : (s.curlsDistribution server).lookup t = some i) (h : step e s a = some s') :
    (s'.curlsDistribution server).lookup t = some i := by
  rcases step_curls h with ⟨hsame, -⟩ | ⟨k, segment, qs, post, -, rfl⟩
  · rwa [hsame]
  · rw [takeCurl]
    cases e.curls (e.requestServers.getD k []) with
    | none => exact hi
    | some size =>
      dsimp only
      by_cases hserver : server = e.requestServers.getD k []
      · rw [← hserver, Function.update_self]
        exact lookup_distribute hi
      · rwa [Function.update_of_ne hserver]

/-! ## Requests -/

/-- Thread `t` enters the request function and gets the curl instance `index`. -/
def TakesCurl (e : Env) (s : Process) (t index : ℕ) (s' : Process) : Prop :=
  step e s (.takeCurl t) = some s' ∧
    ∃ segment qs post, s'.workers[t]? = some (.sent segment qs post index)

theorem takeCurl_of_step {e : Env} {s s' : Process} {t : ℕ} (h : step e s (.takeCurl t) = some s') :
    ∃ segment qs post, s.workers[t]? = some (.requesting segment qs post) ∧
      s' = takeCurl e s t segment qs post := by
  obtain ⟨w, hw, h⟩ := Option.bind_eq_some_iff.1 (show s.workers[t]?.bind _ = some s' from h)
  cases w with
  | requesting segment qs post =>
    cases h
    exact ⟨segment, qs, post, hw, rfl⟩
  | _ => cases h

/-- The index of a thread is the one in the table of its server. -/
theorem TakesCurl.lookup {e : Env} {s s' : Process} {t index : ℕ} (h : TakesCurl e s t index s') :
    (s'.curlsDistribution (e.requestServers.getD t [])).lookup t = some index := by
  obtain ⟨hstep, segment', qs', post', hsent⟩ := h
  obtain ⟨segment, qs, post, hw, rfl⟩ := takeCurl_of_step hstep
  have ht := (List.getElem?_eq_some_iff.1 hw).1
  rw [takeCurl] at hsent ⊢
  cases hcurls : e.curls (e.requestServers.getD t []) with
  | none =>
    rw [hcurls] at hsent
    simp [Process.goto, List.getElem?_set_self ht] at hsent
  | some size =>
    rw [hcurls] at hsent
    dsimp only at hsent ⊢
    rw [Function.update_self]
    obtain ⟨i, hi⟩ := Option.isSome_iff_exists.1 (Finmap.lookup_isSome.2
      (mem_distribute.2 (Or.inl rfl : t = t ∨ t ∈ s.curlsDistribution (e.requestServers.getD t []))))
    rw [hi, Option.getD_some] at hsent
    simp only [Process.goto, List.getElem?_set_self ht] at hsent
    split_ifs at hsent
    · cases hsent
      exact hi
    · cases hsent

section
variable {ips : P2PIps} {q : RequestArgs} {segments : List Segment} (hd : q.hintsServers.Nodup)
include hd

/-- A server has at most as many threads as connections. -/
theorem count_requestServers (server : Bytes) :
    (q.env ips segments).requestServers.count server ≤ ips.countConnections := by
  show (ips.getServersList q.hintsServers).count server ≤ _
  rw [P2PIps.getServersList, List.count_flatten, List.map_replicate, List.sum_replicate, smul_eq_mul]
  have hone := List.nodup_iff_count_le_one.1 hd server
  calc ips.countConnections * q.hintsServers.count server
      ≤ ips.countConnections * 1 := Nat.mul_le_mul_left _ hone
    _ = ips.countConnections := Nat.mul_one _

/-- Every index is below the number of connections. -/
theorem CurlsInv.lt_countConnections {s : Process} (hs : CurlsInv (q.env ips segments) s)
    {server : Bytes} {t i : ℕ} (hi : (s.curlsDistribution server).lookup t = some i) :
    i < ips.countConnections := by
  have hcard : (s.curlsDistribution server).keys.card ≤
      (q.env ips segments).requestServers.count server :=
    card_le_count fun k hk => hs.threads server k (Finmap.mem_keys.1 hk)
  calc i < (s.curlsDistribution server).keys.card := (hs.dense server).lt t i hi
    _ ≤ (q.env ips segments).requestServers.count server := hcard
    _ ≤ ips.countConnections := count_requestServers hd server

/-- A configured server has a curl instance for every index. -/
theorem takesCurl_of_step (hconf : ∀ server ∈ q.hintsServers, server ∈ ips.servers) {s s' : Process}
    (hs : CurlsInv (q.env ips segments) s) {t : ℕ}
    (h : step (q.env ips segments) s (.takeCurl t) = some s') :
    ∃ index < ips.countConnections, TakesCurl (q.env ips segments) s t index s' := by
  obtain ⟨segment, qs, post, hw, rfl⟩ := takeCurl_of_step h
  have ht := (List.getElem?_eq_some_iff.1 hw).1
  have hs' := curlsInv_step hs h
  obtain ⟨server, hserver⟩ : ∃ server, (q.env ips segments).requestServers[t]? = some server := by
    rw [hs.workers] at ht
    exact ⟨_, List.getElem?_eq_getElem ht⟩
  have hgetD : (q.env ips segments).requestServers.getD t [] = server := by
    rw [List.getD_eq_getElem?_getD, hserver, Option.getD_some]
  have hmem : server ∈ ips.servers := by
    have hlist : server ∈ ips.getServersList q.hintsServers := List.mem_of_getElem? hserver
    rw [P2PIps.getServersList, List.mem_flatten] at hlist
    obtain ⟨srves, hsrves, hin⟩ := hlist
    rw [List.eq_of_mem_replicate hsrves] at hin
    exact hconf server hin
  have hcurls : (q.env ips segments).curls server =
      some (ips.countConnections * ips.servers.count server) := if_pos hmem
  have hsize : ips.countConnections ≤ ips.countConnections * ips.servers.count server :=
    Nat.le_mul_of_pos_right _ (List.count_pos_iff.2 hmem)
  obtain ⟨i, hi⟩ := Option.isSome_iff_exists.1 (Finmap.lookup_isSome.2
    (mem_distribute.2 (Or.inl rfl : t = t ∨ t ∈ s.curlsDistribution server)))
  have htable : (takeCurl (q.env ips segments) s t segment qs post).curlsDistribution server =
      distribute (s.curlsDistribution server) t := by
    rw [takeCurl, hgetD, hcurls]
    exact Function.update_self _ _ _
  have hlt : i < ips.countConnections := hs'.lt_countConnections hd (by rw [htable]; exact hi)
  refine ⟨i, hlt, h, segment, qs, post, ?_⟩
  rw [takeCurl, hgetD, hcurls]
  simp only [hi, Option.getD_some, if_pos (hlt.trans_le hsize), Process.goto, List.getElem?_set_self ht]

end

/-- **No curl instance is shared by two threads.**  In every schedule a thread that enters the request
    function gets an instance of its server; it gets the same one each time, and no other thread of
    the server gets it later. -/
theorem curls_not_shared (ips : P2PIps) (q : RequestArgs) (hd : q.hintsServers.Nodup)
    (hconf : ∀ server ∈ q.hintsServers, server ∈ ips.servers) (segments : List Segment)
    (schedule : List Action) (s s₁ : Process) (t : ℕ)
    (hrun : runs (step (q.env ips segments)) (q.env ips segments).start schedule = some s)
    (htake : step (q.env ips segments) s (.takeCurl t) = some s₁) :
    ∃ index < ips.countConnections, TakesCurl (q.env ips segments) s t index s₁ ∧
      ∀ rest s₂ s₃ t' index', runs (step (q.env ips segments)) s₁ rest = some s₂ →
        TakesCurl (q.env ips segments) s₂ t' index' s₃ →
        (t' = t → index' = index) ∧
        (t' ≠ t → (q.env ips segments).requestServers[t']? = (q.env ips segments).requestServers[t]? →
          index' ≠ index) := by
  have hs := runs_invariant (fun _ _ _ => curlsInv_step) (curlsInv_start (q.env ips segments)) hrun
  obtain ⟨index, hlt, htakes⟩ := takesCurl_of_step hd hconf hs htake
  refine ⟨index, hlt, htakes, ?_⟩
  intro rest s₂ s₃ t' index' hrest htakes'
  have hs₂ := runs_invariant (fun _ _ _ => curlsInv_step) (curlsInv_step hs htake) hrest
  have hs₃ := curlsInv_step hs₂ htakes'.1
  -- the table still has the first index when the second thread has come
  have hkept := lookup_step (runs_invariant (fun _ _ _ h hstep => lookup_step h hstep) htakes.lookup hrest)
    htakes'.1
  have hnew := htakes'.lookup
  constructor
  · rintro rfl
    rw [hkept] at hnew
    exact (Option.some.inj hnew).symm
  · rintro hne hserver rfl
    rw [List.getD_eq_getElem?_getD, hserver, ← List.getD_eq_getElem?_getD] at hnew
    exact hne ((hs₃.dense _).inj t' t index' hnew hkept)

/-- The call of `threeBytes` to one server with two connections. -/
def retryEnv : Env := threeBytes.env twoConnections [⟨0, 3, 0⟩]

/-- The first thread has a segment to request. -/
def beforeCurl : List Action := [.push, .pop 0 ⟨0, 3, 0⟩, .makeQsAndPost 0]

/-- The request of the first thread fails, and the second thread takes the segment over. -/
def betweenCurls : List Action :=
  [.receive 0 (.error (.common "timeout")), .pushBack 0, .exit 0, .push, .pop 1 ⟨0, 3, 0⟩,
   .makeQsAndPost 1]

/-- The two threads get different curl instances. -/
theorem curls_not_shared_retry :
    ∃ s s₁ s₂ s₃ index index', runs (step retryEnv) retryEnv.start beforeCurl = some s ∧
      TakesCurl retryEnv s 0 index s₁ ∧ runs (step retryEnv) s₁ betweenCurls = some s₂ ∧
      TakesCurl retryEnv s₂ 1 index' s₃ ∧ index < 2 ∧ index' < 2 ∧ index' ≠ index := by
  have hwhole : (runs (step retryEnv) retryEnv.start
      (beforeCurl ++ (.takeCurl 0 :: (betweenCurls ++ [.takeCurl 1])))).isSome = true := by
    decide +kernel
  obtain ⟨s₃, hwhole⟩ := Option.isSome_iff_exists.1 hwhole
  rw [runs_append] at hwhole
  obtain ⟨s, hs, hwhole⟩ := Option.bind_eq_some_iff.1 hwhole
  obtain ⟨s₁, hs₁, hwhole⟩ := Option.bind_eq_some_iff.1 hwhole
  rw [runs_append] at hwhole
  obtain ⟨s₂, hs₂, hwhole⟩ := Option.bind_eq_some_iff.1 hwhole
  obtain ⟨s₃', hs₃, -⟩ := Option.bind_eq_some_iff.1 hwhole
  have hd : threeBytes.hintsServers.Nodup := by decide
  have hconf : ∀ server ∈ threeBytes.hintsServers, server ∈ twoConnections.servers := by decide
  have hto : runs (step retryEnv) retryEnv.start (beforeCurl ++ (.takeCurl 0 :: betweenCurls)) =
      some s₂ := by
    rw [runs_append, hs, Option.bind_some, runs, hs₁, Option.bind_some, hs₂]
  obtain ⟨index, hlt, htakes, hlater⟩ :=
    curls_not_shared twoConnections threeBytes hd hconf _ beforeCurl s s₁ 0 hs hs₁
  obtain ⟨index', hlt', htakes', -⟩ :=
    curls_not_shared twoConnections threeBytes hd hconf _ _ s₂ s₃' 1 hto hs₃
  have hne := (hlater betweenCurls s₂ s₃' 1 index' hs₂ htakes').2 (by decide) (by decide)
  exact ⟨s, s₁, s₂, s₃', index, index', hs, htakes, hs₂, htakes', hlt, hlt', hne⟩

end P2P

end TorrentNode
