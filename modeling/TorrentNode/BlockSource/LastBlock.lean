/-
  The height on which the servers agree (`GetNewBlocksFromServer::getLastBlock`).

  `P2P_Ips::broadcast` asks all servers and runs a callback for each of them, with
  the answer or with the message of the failure.  The callbacks come from several
  threads in any order and write the shared variables under a mutex, so a call is
  a fold over the outcomes in the order of the callbacks.

  `getLastBlock_agrees`: what a call returns depends on the outcomes alone.
  `getLastBlock_order_iff`: for every order the call returns the greatest count
  with its servers, or an error if there is none, if and only if no server answers
  with a document that is not an object; `HasMember` must not be asked there.
-/
import TorrentNode.BlockSource.NetworkBlockSource

open Wire Exec

namespace TorrentNode

namespace GetNewBlocksFromServer

/-- The outcome of a request to a server: the message of a `common::exception`, or the answer. -/
abbrev ServerOutcome := Bytes × Except String Bytes

/-- The variables that the callbacks share. -/
structure LastBlockState where
  lastBlock : Option ℕ := none
  error : String := ""
  serversSave : List Bytes := []

section
variable (J : JsonUtils)

/-- The count in an answer; a negative one is converted to `size_t`. -/
def parseCountBlocks (result : Bytes) : Exec Exn ℕ := do
  let doc ← parseResponse J result
  let resultJson ← fieldAs asObject doc "result"
  let countBlocks ← fieldAs asInt resultJson "count_blocks"
  return toSize countBlocks

/-- The part of the callback under the mutex for a count. -/
def LastBlockState.save (s : LastBlockState) (server : Bytes) (countBlocks : ℕ) : LastBlockState :=
  let lastBlock := s.lastBlock.getD 0
  if lastBlock < countBlocks then
    { s with lastBlock := some countBlocks, serversSave := [server] }
  else if lastBlock = countBlocks then
    { s with lastBlock := some lastBlock, serversSave := s.serversSave ++ [server] }
  else { s with lastBlock := some lastBlock }

/-- The callback. -/
def LastBlockState.callback (s : LastBlockState) (outcome : ServerOutcome) :
    Exec Exn LastBlockState :=
  match outcome.2 with
  | .error message => pure { s with error := message }
  | .ok result =>
    match parseCountBlocks J result with
    | .ok countBlocks => pure (s.save outcome.1 countBlocks)
    | .throw (.common message) => pure { s with error := message }
    | r => r >>= fun _ => pure s

/-- `getLastBlock()`, if the callbacks run in this order; with an error, `lastBlock` is not set. -/
def getLastBlock (calls : List ServerOutcome) : Exec Exn LastBlockResponse := do
  let s ← calls.foldlM (LastBlockState.callback J) {}
  match s.lastBlock with
  | some lastBlock => return ⟨lastBlock, s.serversSave, none⟩
  | none => return ⟨0, [], some s.error⟩

/-! ## Counts -/

/-- The count that a server reported. -/
def reported (outcome : ServerOutcome) : Option ℕ :=
  match outcome.2 with
  | .error _ => none
  | .ok result =>
    match parseCountBlocks J result with
    | .ok countBlocks => some countBlocks
    | _ => none

/-- The answer is a document that is not an object. -/
def NotObject (outcome : ServerOutcome) : Prop :=
  ∃ result doc, outcome.2 = .ok result ∧ Json.parse J.isDouble result = some doc ∧
    ∀ members, doc ≠ .obj members

/-- A field of an object is read, or an exception says that it is missing. -/
theorem fieldAs_obj {α : Type} (as : Json → Option α) (members : List (Bytes × Json))
    (name : String) : (∃ a, fieldAs as (.obj members) name = .ok a) ∨
      fieldAs as (.obj members) name = .throw (.common (name ++ " field not found")) := by
  rw [fieldAs, memberAs, ok_bind]
  cases (Json.find (lit name) members).bind as with
  | none => exact Or.inr rfl
  | some a => exact Or.inl ⟨a, rfl⟩

theorem fieldAs_asObject {doc : Json} {name : String} {json : Json}
    (h : fieldAs asObject doc name = .ok json) : ∃ members, json = .obj members := by
  rw [fieldAs] at h
  obtain ⟨r, hr, h⟩ := bind_eq_ok.1 h
  cases doc with
  | obj members =>
    rw [memberAs] at hr
    cases hr
    cases hfind : Json.find (lit name) members with
    | none =>
      rw [hfind] at h
      cases h
    | some j =>
      rw [hfind, Option.bind_some] at h
      cases j <;> cases h
      exact ⟨_, rfl⟩
  | _ => cases hr

/-- What the parsing of an answer comes to. -/
theorem parseCountBlocks_cases (result : Bytes) :
    (∃ n, parseCountBlocks J result = .ok n) ∨
      (∃ message, parseCountBlocks J result = .throw (.common message)) ∨
      (parseCountBlocks J result = .undef .assertion ∧
        ∃ doc, Json.parse J.isDouble result = some doc ∧ ∀ members, doc ≠ .obj members) := by
  rw [parseCountBlocks, parseResponse]
  cases hparse : Json.parse J.isDouble result with
  | none => exact Or.inr (Or.inl ⟨_, rfl⟩)
  | some doc =>
    cases doc with
    | obj members =>
      dsimp only
      rw [memberAs, ok_bind]
      have hrest : (∃ n, (fieldAs asObject (.obj members) "result" >>= fun resultJson =>
            fieldAs asInt resultJson "count_blocks" >>= fun countBlocks =>
              (pure (toSize countBlocks) : Exec Exn ℕ)) = .ok n) ∨
          ∃ message, (fieldAs asObject (.obj members) "result" >>= fun resultJson =>
            fieldAs asInt resultJson "count_blocks" >>= fun countBlocks =>
              (pure (toSize countBlocks) : Exec Exn ℕ)) = .throw (.common message) := by
        rcases fieldAs_obj asObject members "result" with ⟨json, hjson⟩ | hthrow
        · obtain ⟨members', rfl⟩ := fieldAs_asObject hjson
          rw [hjson, ok_bind]
          rcases fieldAs_obj asInt members' "count_blocks" with ⟨n, hn⟩ | hthrow
          · exact Or.inl ⟨toSize n, by rw [hn]; rfl⟩
          · exact Or.inr ⟨_, by rw [hthrow]; rfl⟩
        · exact Or.inr ⟨_, by rw [hthrow]; rfl⟩
      cases (Json.find (lit "error") members).bind some with
      | none => exact hrest.imp_right Or.inl
      | some error =>
        cases error with
        | null => exact hrest.imp_right Or.inl
        | _ => exact Or.inr (Or.inl ⟨_, rfl⟩)
    | _ => exact Or.inr (Or.inr ⟨rfl, _, rfl, fun _ h => by cases h⟩)

/-- What the callback does with the outcome of a server. -/
theorem callback_spec (s : LastBlockState) (o : ServerOutcome) :
    (NotObject J o ∧ s.callback J o = .undef .assertion) ∨
      (¬ NotObject J o ∧ ∃ n, reported J o = some n ∧ s.callback J o = .ok (s.save o.1 n)) ∨
      (¬ NotObject J o ∧ reported J o = none ∧
        ∃ error, s.callback J o = .ok { s with error := error }) := by
  obtain ⟨server, message | result⟩ := o
  · refine Or.inr (Or.inr ⟨?_, rfl, message, rfl⟩)
    rintro ⟨result, doc, h, -⟩
    cases h
  · have hobject : NotObject J (server, .ok result) ↔ ∃ doc, Json.parse J.isDouble result =
        some doc ∧ ∀ members, doc ≠ .obj members := by
      constructor
      · rintro ⟨result', doc, h, hdoc⟩
        cases h
        exact ⟨doc, hdoc⟩
      · exact fun ⟨doc, hdoc⟩ => ⟨result, doc, rfl, hdoc⟩
    rw [hobject, reported, LastBlockState.callback]
    dsimp only
    have hread : ∀ doc, Json.parse J.isDouble result = some doc → (∀ members, doc ≠ .obj members) →
        parseCountBlocks J result = .undef .assertion := by
      intro doc hparse hdoc
      rw [parseCountBlocks, parseResponse, hparse]
      cases doc with
      | obj members => exact absurd rfl (hdoc members)
      | _ => rfl
    rcases parseCountBlocks_cases J result with ⟨n, hn⟩ | ⟨message, hthrow⟩ | ⟨hundef, hdoc⟩
    · refine Or.inr (Or.inl ⟨?_, n, by rw [hn], by rw [hn]; rfl⟩)
      rintro ⟨doc, hparse, hdoc⟩
      rw [hread doc hparse hdoc] at hn
      cases hn
    · refine Or.inr (Or.inr ⟨?_, by rw [hthrow], message, by rw [hthrow]; rfl⟩)
      rintro ⟨doc, hparse, hdoc⟩
      rw [hread doc hparse hdoc] at hthrow
      cases hthrow
    · exact Or.inl ⟨hdoc, by rw [hundef]; rfl⟩

/-! ## Agreement -/

/-- The shared variables hold the greatest count of the callbacks so far, and its servers. -/
structure Agrees (s : LastBlockState) (calls : List ServerOutcome) : Prop where
  lastBlock : s.lastBlock = (calls.filterMap (reported J)).max?
  servers : s.serversSave =
    (calls.filter fun o => (reported J o).isSome ∧ reported J o = s.lastBlock).map Prod.fst

variable {J} {s : LastBlockState} {calls : List ServerOutcome} {o : ServerOutcome}

/-- An outcome without a count changes nothing. -/
theorem Agrees.skip (h : Agrees J s calls) (ho : reported J o = none) (error : String) :
    Agrees J { s with error := error } (calls ++ [o]) where
  lastBlock := by
    rw [List.filterMap_append, List.filterMap_cons_none ho, List.filterMap_nil, List.append_nil]
    exact h.lastBlock
  servers := by
    rw [List.filter_append, List.filter_cons_of_neg (by simp [ho]), List.filter_nil, List.append_nil]
    exact h.servers

/-- No count that was reported is greater than the last block. -/
theorem Agrees.reported_le (h : Agrees J s calls) {c : ServerOutcome} (hc : c ∈ calls) {m : ℕ}
    (hm : reported J c = some m) : m ≤ s.lastBlock.getD 0 ∧ s.lastBlock.isSome := by
  have hmem : m ∈ calls.filterMap (reported J) := List.mem_filterMap.2 ⟨c, hc, hm⟩
  obtain ⟨last, hlast⟩ : ∃ last, (calls.filterMap (reported J)).max? = some last :=
    Option.isSome_iff_exists.1 (List.isSome_max?_of_mem hmem)
  rw [h.lastBlock, hlast]
  exact ⟨(List.max?_eq_some_iff.1 hlast).2 m hmem, rfl⟩

/-- The last block, if there is one, was reported. -/
theorem Agrees.lastBlock_reported (h : Agrees J s calls) : s.lastBlock = none ∨
    ∃ c ∈ calls, reported J c = some (s.lastBlock.getD 0) ∧ s.lastBlock = some (s.lastBlock.getD 0) := by
  cases hs : s.lastBlock with
  | none => exact Or.inl rfl
  | some last =>
    rw [h.lastBlock] at hs
    obtain ⟨c, hc, hreported⟩ := List.mem_filterMap.1 (List.max?_eq_some_iff.1 hs).1
    exact Or.inr ⟨c, hc, hreported, rfl⟩

/-- The servers that are saved have reported the last block. -/
theorem Agrees.servers_eq (h : Agrees J s calls) : (calls.filter fun c => (reported J c).isSome ∧
    reported J c = some (s.lastBlock.getD 0)).map Prod.fst = s.serversSave := by
  rw [h.servers]
  congr 1
  refine List.filter_congr fun c hc => ?_
  rcases h.lastBlock_reported with hnone | ⟨-, -, -, hsome⟩
  · cases hreported : reported J c with
    | none => simp
    | some m =>
      have hsome := (h.reported_le hc hreported).2
      rw [hnone] at hsome
      cases hsome
  · rw [← hsome]

/-- A count is greater than those before, equal to the greatest, or smaller. -/
theorem Agrees.save (h : Agrees J s calls) {n : ℕ} (ho : reported J o = some n) :
    Agrees J (s.save o.1 n) (calls ++ [o]) := by
  have hcounts : (calls ++ [o]).filterMap (reported J) = calls.filterMap (reported J) ++ [n] := by
    rw [List.filterMap_append, List.filterMap_cons_some ho, List.filterMap_nil]
  rw [LastBlockState.save]
  split
  · -- the count is greater: no server before has reported it
    rename_i hlt
    refine ⟨?_, ?_⟩
    · rw [hcounts]
      refine (List.max?_eq_some_iff.2 ⟨by simp, ?_⟩).symm
      intro m hm
      rcases List.mem_append.1 hm with hm | hm
      · obtain ⟨c, hc, hreported⟩ := List.mem_filterMap.1 hm
        exact (h.reported_le hc hreported).1.trans hlt.le
      · rw [List.mem_singleton.1 hm]
    · rw [List.filter_append, List.filter_eq_nil_iff.2, List.nil_append,
        List.filter_cons_of_pos (by simp [ho])]
      · rfl
      · intro c hc
        simp only [decide_eq_true_eq, not_and]
        intro _ hreported
        have := (h.reported_le hc hreported).1
        omega
  · rename_i hnot
    have hgreatest : (calls.filterMap (reported J) ++ [n]).max? = some (s.lastBlock.getD 0) := by
      refine List.max?_eq_some_iff.2 ⟨?_, ?_⟩
      · rcases h.lastBlock_reported with hnone | ⟨c, hc, hreported, -⟩
        · rw [hnone] at hnot ⊢
          simp only [Option.getD_none, not_lt, Nat.le_zero] at hnot
          simp [hnot]
        · exact List.mem_append_left _ (List.mem_filterMap.2 ⟨c, hc, hreported⟩)
      · intro m hm
        rcases List.mem_append.1 hm with hm | hm
        · obtain ⟨c, hc, hreported⟩ := List.mem_filterMap.1 hm
          exact (h.reported_le hc hreported).1
        · rw [List.mem_singleton.1 hm]
          exact not_lt.1 hnot
    split
    · rename_i heq
      refine ⟨by rw [hcounts, hgreatest], ?_⟩
      rw [List.filter_append, List.filter_cons_of_pos (by simp [ho, heq]), List.filter_nil,
        List.map_append]
      exact congrArg (· ++ [o.1]) h.servers_eq.symm
    · rename_i hne
      refine ⟨by rw [hcounts, hgreatest], ?_⟩
      rw [List.filter_append, List.filter_cons_of_neg (by simp [ho, Ne.symm hne]), List.filter_nil,
        List.append_nil]
      exact h.servers_eq.symm

/-- **The callbacks** return exactly if no answer is a document other than an object. -/
theorem getLastBlock_agrees (J : JsonUtils) (done calls : List ServerOutcome) {s : LastBlockState}
    (h : Agrees J s done) :
    ((∀ o ∈ calls, ¬ NotObject J o) ∧ ∃ s', calls.foldlM (LastBlockState.callback J) s = .ok s' ∧
        Agrees J s' (done ++ calls)) ∨
      ((∃ o ∈ calls, NotObject J o) ∧
        calls.foldlM (LastBlockState.callback J) s = .undef .assertion) := by
  induction calls generalizing s done with
  | nil => exact Or.inl ⟨by simp, s, rfl, by rwa [List.append_nil]⟩
  | cons o calls ih =>
    rw [List.foldlM_cons, List.append_cons]
    have hrest : ∀ {t : LastBlockState}, ¬ NotObject J o → Agrees J t (done ++ [o]) →
        ((∀ o' ∈ o :: calls, ¬ NotObject J o') ∧
          ∃ s', calls.foldlM (LastBlockState.callback J) t = .ok s' ∧
            Agrees J s' (done ++ [o] ++ calls)) ∨
        ((∃ o' ∈ o :: calls, NotObject J o') ∧
          calls.foldlM (LastBlockState.callback J) t = .undef .assertion) := by
      intro t hgood ht
      rcases ih (done ++ [o]) ht with ⟨hall, hrun⟩ | ⟨⟨o', ho', hbad⟩, hrun⟩
      · exact Or.inl ⟨List.forall_mem_cons.2 ⟨hgood, hall⟩, hrun⟩
      · exact Or.inr ⟨⟨o', List.mem_cons_of_mem _ ho', hbad⟩, hrun⟩
    rcases callback_spec J s o with ⟨hbad, hcall⟩ | ⟨hgood, n, hn, hcall⟩ | ⟨hgood, hnone, error, hcall⟩
    · exact Or.inr ⟨⟨o, List.mem_cons_self, hbad⟩, by rw [hcall]; rfl⟩
    · rw [hcall, ok_bind]
      exact hrest hgood (h.save hn)
    · rw [hcall, ok_bind]
      exact hrest hgood (h.skip hnone error)

/-- **Height agreement**: whatever the order of the callbacks, a call returns an error exactly if no
    server reported a count, and else the greatest count with the servers that reported it; if and
    only if no answer is a document other than an object. -/
theorem getLastBlock_order_iff (J : JsonUtils) (outcomes : List ServerOutcome) :
    (∀ calls, calls.Perm outcomes → ∃ r, getLastBlock J calls = .ok r ∧
      (r.error ≠ none ↔ ∀ o ∈ outcomes, reported J o = none) ∧
      (r.error = none →
        IsGreatest {n | ∃ o ∈ outcomes, reported J o = some n} r.lastBlock ∧
        r.servers.Perm ((outcomes.filter fun o => reported J o = some r.lastBlock).map Prod.fst) ∧
        r.servers ≠ [])) ↔
      ∀ o ∈ outcomes, ¬ NotObject J o := by
  have hstart : Agrees J {} [] := ⟨rfl, rfl⟩
  constructor
  · intro hall o ho hbad
    obtain ⟨r, hr, -⟩ := hall outcomes (List.Perm.refl _)
    rcases getLastBlock_agrees J [] outcomes hstart with ⟨hgood, -⟩ | ⟨-, hrun⟩
    · exact hgood o ho hbad
    · rw [getLastBlock, hrun] at hr
      cases hr
  · intro hgood calls hperm
    rcases getLastBlock_agrees J [] calls hstart with ⟨-, s, hrun, hagrees⟩ | ⟨⟨o, ho, hbad⟩, -⟩
    · rw [getLastBlock, hrun, ok_bind]
      rw [List.nil_append] at hagrees
      cases hlast : s.lastBlock with
      | none =>
        refine ⟨_, rfl, iff_of_true (by simp) ?_, by simp⟩
        rw [hagrees.lastBlock, List.max?_eq_none_iff, List.filterMap_eq_nil_iff] at hlast
        exact fun o ho => hlast o (hperm.mem_iff.2 ho)
      | some last =>
        have hservers := hagrees.servers
        rw [hlast] at hservers
        have hmax := hlast
        rw [hagrees.lastBlock] at hmax
        obtain ⟨hmem, hle⟩ := List.max?_eq_some_iff.1 hmax
        obtain ⟨o, ho, hreported⟩ := List.mem_filterMap.1 hmem
        refine ⟨_, rfl, iff_of_false (by simp) ?_, fun _ => ⟨⟨?_, ?_⟩, ?_, ?_⟩⟩
        · intro hnone
          rw [hnone o (hperm.mem_iff.1 ho)] at hreported
          cases hreported
        · exact ⟨o, hperm.mem_iff.1 ho, hreported⟩
        · rintro n ⟨o', ho', hn⟩
          exact hle n (List.mem_filterMap.2 ⟨o', hperm.mem_iff.2 ho', hn⟩)
        · rw [hservers]
          refine List.Perm.map _ (List.Perm.trans (List.Perm.of_eq ?_) (hperm.filter _))
          refine List.filter_congr fun c _ => ?_
          cases reported J c <;> simp
        · rw [hservers]
          refine List.ne_nil_of_mem (List.mem_map_of_mem (List.mem_filter.2 ⟨ho, ?_⟩))
          simp [hreported]
    · exact absurd hbad (hgood o (hperm.mem_iff.1 ho))

/-- One server answers with a number, the other one has reported three blocks. -/
theorem getLastBlock_number_undefined :
    reported (JsonUtils.compact fun _ => false)
        (lit "b", .ok (lit "\x7b\"result\":\x7b\"count_blocks\":3\x7d\x7d")) = some 3 ∧
      getLastBlock (JsonUtils.compact fun _ => false)
        [(lit "a", .ok (lit "3")),
          (lit "b", .ok (lit "\x7b\"result\":\x7b\"count_blocks\":3\x7d\x7d"))] =
        .undef .assertion :=
  ⟨by decide +kernel, rfl⟩

end

end GetNewBlocksFromServer

end TorrentNode
