/-
  What the nodes learn from each other: the height of the chain.

  `getLastBlock_served`: the client finds the greatest height among the servers that answer
  and who has it, whatever the order of the answers is; a height from 2^31 on is not seen.
-/
import TorrentNode.BlockSource.LastBlock
import TorrentNode.Server.Handlers

open Wire Exec

namespace TorrentNode

namespace GetNewBlocksFromServer

open Server

section
variable (J : JsonUtils) (S : Support) (compress : Bytes → Bytes) (I : ServerInfo)

/-- The request of `getLastBlock`. -/
def lastBlockRequest : Request :=
  ⟨lit "/get-count-blocks", lit "POST", lit "\x7b\"id\": 1\x7d"⟩

/-- The outcome of a request to a node: its answer, if it gives one. -/
def askedOf (request : Request) (node : Bytes × Sync) : ServerOutcome :=
  (node.1, match handle (env J S compress I node.2) node.2 request with
    | .ok response => .ok response
    | _ => .error "")

/-- The document of a height. -/
def countBlocksDoc (countBlocks : ℕ) : Json :=
  .obj [(lit "id", .int 1), (lit "result", .obj [(lit "count_blocks", .int countBlocks)])]

theorem integral_countBlocksDoc {countBlocks : ℕ} (h : countBlocks < 2 ^ 64) :
    (countBlocksDoc countBlocks).Integral := by
  simp only [countBlocksDoc, Json.Integral, Json.IntegralMembers, and_true]
  omega

theorem parse_lastBlockRequest (isDouble : Bytes → Bool) :
    documentOf isDouble lastBlockRequest = some (.obj [(lit "id", .int 1)]) := by
  have hread : Json.Reads isDouble (.int 1) (Json.decimal 1) := Json.reads_decimal (by decide)
  have hdoc := ((readsMembers_last (lit "id") hread).obj Json.blank_nil).parse_eq Json.blank_nil
    Json.blank_nil
  have htext : lastBlockRequest.json = [] ++ ((Json.ch '\x7b' :: ([] ++ (Json.quoted (lit "id") ++
      (lit ": " ++ (Json.decimal 1 ++ lit "\x7d"))))) ++ []) := by decide +kernel
  rw [documentOf, if_neg (by decide +kernel), htext, hdoc]

theorem handle_lastBlockRequest (sync : Sync) :
    handle (env J S compress I sync) sync lastBlockRequest =
      .ok (J.jsonToString (countBlocksDoc sync.countBlocks) false) := by
  rw [handle, show (env J S compress I sync).json = J from rfl, parse_lastBlockRequest]
  rfl

/-- A height that fits in an `int` is read. -/
theorem reported_countBlocksDoc {countBlocks : ℕ} (h : countBlocks < 2 ^ 64) (server : Bytes) :
    reported J (server, .ok (J.jsonToString (countBlocksDoc countBlocks) false)) =
      if countBlocks < 2 ^ 31 then some countBlocks else none := by
  have hint := integral_countBlocksDoc h
  have hint' : asInt (.int countBlocks) = if countBlocks < 2 ^ 31 then some (countBlocks : ℤ) else none := by
    rw [asInt]
    split_ifs <;> first | rfl | omega
  have hread : parseResponse J (J.jsonToString (countBlocksDoc countBlocks) false) =
      .ok (countBlocksDoc countBlocks) := by
    rw [parseResponse, J.parse_jsonToString _ _ hint]
    rfl
  have hresult : fieldAs asObject (countBlocksDoc countBlocks) "result" =
      .ok (.obj [(lit "count_blocks", .int countBlocks)]) := fieldAs_of_find rfl rfl
  rw [reported]
  dsimp only
  rw [parseCountBlocks, hread, ok_bind, hresult, ok_bind, fieldAs, memberAs, ok_bind,
    show Json.find (lit "count_blocks") [(lit "count_blocks", .int countBlocks)] = some (.int countBlocks)
      from rfl, Option.bind_some, hint']
  by_cases h31 : countBlocks < 2 ^ 31
  · rw [if_pos h31, if_pos h31]
    dsimp only
    rw [pure_eq_ok, ok_bind, toSize_natCast h]
    rfl
  · rw [if_neg h31, if_neg h31]
    rfl

/-- No answer is a document other than an object. -/
theorem not_notObject_countBlocksDoc (server : Bytes) {countBlocks : ℕ} (h : countBlocks < 2 ^ 64) :
    ¬ NotObject J (server, .ok (J.jsonToString (countBlocksDoc countBlocks) false)) := by
  rintro ⟨result, doc, hresult, hparse, hdoc⟩
  cases hresult
  rw [J.parse_jsonToString _ _ (integral_countBlocksDoc h)] at hparse
  exact hdoc _ (Option.some.inj hparse).symm

/-- The outcomes of a broadcast: the answers of the nodes, and the servers that fail. -/
def broadcastOutcomes (nodes : List (Bytes × Sync)) (failures : List (Bytes × String)) :
    List ServerOutcome :=
  nodes.map (askedOf J S compress I lastBlockRequest) ++ failures.map fun f => (f.1, .error f.2)

section
variable {nodes : List (Bytes × Sync)} (hsize : ∀ node ∈ nodes, node.2.countBlocks < 2 ^ 64)
  (failures : List (Bytes × String))

theorem askedOf_lastBlock (node : Bytes × Sync) : askedOf J S compress I lastBlockRequest node =
    (node.1, .ok (J.jsonToString (countBlocksDoc node.2.countBlocks) false)) := by
  rw [askedOf, handle_lastBlockRequest]

include hsize

theorem reported_askedOf {node : Bytes × Sync} (hnode : node ∈ nodes) :
    reported J (askedOf J S compress I lastBlockRequest node) =
      if node.2.countBlocks < 2 ^ 31 then some node.2.countBlocks else none := by
  rw [askedOf_lastBlock, reported_countBlocksDoc J (hsize node hnode)]

/-- A count that is reported is the height of a node. -/
theorem reported_iff {o : ServerOutcome} {n : ℕ} :
    (o ∈ broadcastOutcomes J S compress I nodes failures ∧ reported J o = some n) ↔
      ∃ node ∈ nodes, o = askedOf J S compress I lastBlockRequest node ∧ node.2.countBlocks = n ∧
        n < 2 ^ 31 := by
  constructor
  · rintro ⟨ho, hn⟩
    rcases List.mem_append.1 ho with ho | ho
    · obtain ⟨node, hnode, rfl⟩ := List.mem_map.1 ho
      rw [reported_askedOf J S compress I hsize hnode] at hn
      split_ifs at hn with h31
      cases hn
      exact ⟨node, hnode, rfl, rfl, h31⟩
    · obtain ⟨f, -, rfl⟩ := List.mem_map.1 ho
      cases hn
  · rintro ⟨node, hnode, rfl, rfl, h31⟩
    refine ⟨List.mem_append_left _ (List.mem_map_of_mem hnode), ?_⟩
    rw [reported_askedOf J S compress I hsize hnode, if_pos h31]

theorem not_notObject_of_mem {o : ServerOutcome}
    (ho : o ∈ broadcastOutcomes J S compress I nodes failures) : ¬ NotObject J o := by
  rcases List.mem_append.1 ho with ho | ho
  · obtain ⟨node, hnode, rfl⟩ := List.mem_map.1 ho
    rw [askedOf_lastBlock]
    exact not_notObject_countBlocksDoc J node.1 (hsize node hnode)
  · obtain ⟨f, -, rfl⟩ := List.mem_map.1 ho
    rintro ⟨result, doc, h, -⟩
    cases h

/-- The servers that have reported a height. -/
theorem servers_reported {n : ℕ} (h31 : n < 2 ^ 31) :
    ((broadcastOutcomes J S compress I nodes failures).filter fun o => reported J o = some n).map
        Prod.fst =
      (nodes.filter fun node => node.2.countBlocks = n).map Prod.fst := by
  have hfailures : (failures.map fun f : Bytes × String => ((f.1, .error f.2) : ServerOutcome)).filter
      (fun o => reported J o = some n) = [] := by
    rw [List.filter_eq_nil_iff]
    intro o ho
    obtain ⟨f, -, rfl⟩ := List.mem_map.1 ho
    simp [reported]
  rw [broadcastOutcomes, List.filter_append, hfailures, List.append_nil, List.filter_map, List.map_map]
  have hnodes : nodes.filter ((fun o => decide (reported J o = some n)) ∘
      askedOf J S compress I lastBlockRequest) = nodes.filter fun node => node.2.countBlocks = n := by
    refine List.filter_congr fun node hnode => ?_
    rw [Function.comp_apply, reported_askedOf J S compress I hsize hnode]
    by_cases hn : node.2.countBlocks = n
    · rw [hn, if_pos h31]
      simp
    · split_ifs <;> simp [hn]
  rw [hnodes]
  rfl

end

/-- **The height of the network**: whatever the order of the answers and whoever fails, the client gets
    the greatest height below 2^31 and the nodes that have it, and an error exactly if there is no such
    node. -/
theorem getLastBlock_served (nodes : List (Bytes × Sync)) (failures : List (Bytes × String))
    (hsize : ∀ node ∈ nodes, node.2.countBlocks < 2 ^ 64) (calls : List ServerOutcome)
    (hcalls : calls.Perm (broadcastOutcomes J S compress I nodes failures)) :
    ∃ r, getLastBlock J calls = .ok r ∧
      (r.error ≠ none ↔ ∀ node ∈ nodes, 2 ^ 31 ≤ node.2.countBlocks) ∧
      (r.error = none →
        IsGreatest {n | n < 2 ^ 31 ∧ ∃ node ∈ nodes, node.2.countBlocks = n} r.lastBlock ∧
        r.servers.Perm ((nodes.filter fun node => node.2.countBlocks = r.lastBlock).map Prod.fst)) := by
  have hstart : Agrees J {} [] := ⟨rfl, rfl⟩
  have hreported : ∀ {o : ServerOutcome} {n : ℕ}, o ∈ calls ∧ reported J o = some n ↔
      ∃ node ∈ nodes, o = askedOf J S compress I lastBlockRequest node ∧ node.2.countBlocks = n ∧
        n < 2 ^ 31 := by
    intro o n
    rw [hcalls.mem_iff]
    exact reported_iff J S compress I hsize failures
  rcases getLastBlock_agrees J [] calls hstart with ⟨-, s, hrun, hagrees⟩ | ⟨⟨o, ho, hbad⟩, -⟩
  swap
  · exact absurd hbad (not_notObject_of_mem J S compress I hsize failures (hcalls.mem_iff.1 ho))
  rw [getLastBlock, hrun, ok_bind]
  rw [List.nil_append] at hagrees
  cases hlast : s.lastBlock with
  | none =>
    refine ⟨_, rfl, iff_of_true (by simp) fun node hnode => ?_, by simp⟩
    rw [hagrees.lastBlock, List.max?_eq_none_iff, List.filterMap_eq_nil_iff] at hlast
    by_contra h31
    obtain ⟨ho, hn⟩ := hreported.2 ⟨node, hnode, rfl, rfl, not_le.1 h31⟩
    rw [hlast _ ho] at hn
    cases hn
  | some last =>
    have hmax := hlast
    rw [hagrees.lastBlock] at hmax
    obtain ⟨hmem, hle⟩ := List.max?_eq_some_iff.1 hmax
    obtain ⟨o, ho, hn⟩ := List.mem_filterMap.1 hmem
    obtain ⟨node, hnode, -, hcount, h31⟩ := hreported.1 ⟨ho, hn⟩
    refine ⟨_, rfl, iff_of_false (by simp) fun h => ?_, fun _ => ⟨⟨⟨h31, node, hnode, hcount⟩, ?_⟩, ?_⟩⟩
    · exact absurd (h node hnode) (by omega)
    · rintro n ⟨hn31, node', hnode', rfl⟩
      obtain ⟨ho', hn'⟩ := hreported.2 ⟨node', hnode', rfl, rfl, hn31⟩
      exact hle _ (List.mem_filterMap.2 ⟨_, ho', hn'⟩)
    · dsimp only
      rw [hagrees.servers, hlast, ← servers_reported J S compress I hsize failures h31]
      refine List.Perm.map _ (List.Perm.trans (List.Perm.of_eq ?_) (hcalls.filter _))
      refine List.filter_congr fun o' _ => ?_
      cases reported J o' <;> simp

end

/-- A node of this height, without dumps. -/
def nodeOfHeight (countBlocks : ℕ) : Sync := { genesisNode with countBlocks := countBlocks }

/-- Two nodes with three and five blocks, and a server that cannot be reached. -/
theorem getLastBlock_served_two : ∃ r, getLastBlock ServerEnv.plain.json
    ((broadcastOutcomes ServerEnv.plain.json ServerEnv.plain.support id plainInfo
      [(lit "a", nodeOfHeight 3), (lit "b", nodeOfHeight 5)] [(lit "c", "timeout")]).reverse) = .ok r ∧
    (r.error ≠ none ↔ ∀ node ∈ [(lit "a", nodeOfHeight 3), (lit "b", nodeOfHeight 5)],
      2 ^ 31 ≤ node.2.countBlocks) ∧
    (r.error = none →
      IsGreatest {n | n < 2 ^ 31 ∧ ∃ node ∈ [(lit "a", nodeOfHeight 3), (lit "b", nodeOfHeight 5)],
        node.2.countBlocks = n} r.lastBlock ∧
      r.servers.Perm (([(lit "a", nodeOfHeight 3), (lit "b", nodeOfHeight 5)].filter
        fun node => node.2.countBlocks = r.lastBlock).map Prod.fst)) :=
  getLastBlock_served ServerEnv.plain.json ServerEnv.plain.support id plainInfo _ _
    (by simp [nodeOfHeight]) _ (List.reverse_perm _)

end GetNewBlocksFromServer

end TorrentNode
