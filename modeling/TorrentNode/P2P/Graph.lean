/-
  The graph of the servers (src/utils/Graph.cpp) and the requests to the servers
  above this one (src/P2P/P2P_Graph.cpp).

  `addEdge` refuses a second parent of an element and accepts every first one,
  a parent below the child included.  `broadcast` asks the parent of this server
  and goes on with its parent after a failure.

  `addEdges_isForest_iff`: the accepted edges make a forest if and only if no edge
  has its child above its parent when it is added.
  `servers_end_iff`: exactly then every walk up the graph ends, and with it the
  loop of `broadcast`, whatever the servers answer.
-/
import TorrentNode.Lib.Forest
import TorrentNode.Utils.Serialize

open Wire Exec Forest

namespace TorrentNode

namespace P2P

/-- `Graph<std::string>::Element`; the parent is its place in the deque. -/
structure Element where
  element : Bytes
  parent : Option ℕ := none
deriving DecidableEq, Repr

/-- `Graph<std::string>`. -/
structure Graph where
  elements : List Element
deriving DecidableEq, Repr

namespace Graph

def empty : Graph := ⟨[]⟩

/-- The place of an element, if the graph has it. -/
def place (g : Graph) (element : Bytes) : Option ℕ :=
  g.elements.findIdx? fun el => el.element = element

/-- `findOrAdd`: the graph and the place of the element. -/
def findOrAdd (g : Graph) (element : Bytes) : Graph × ℕ :=
  match g.place element with
  | some found => (g, found)
  | none => (⟨g.elements ++ [{ element := element }]⟩, g.elements.length)

/-- `addEdge`. -/
def addEdge (g : Graph) (parent child : Bytes) : Exec Exn Graph :=
  let (g, first) := g.findOrAdd parent
  let (g, second) := g.findOrAdd child
  match g.elements[second]? with
  | none => .undef .assertion
  | some el => do
    check (el.parent = none) ("Child " ++ text child ++ " already has a parent")
    pure ⟨g.elements.set second { el with parent := some first }⟩

/-- The edges of the configuration, one after the other. -/
def addEdges (edges : List (Bytes × Bytes)) : Exec Exn Graph :=
  edges.foldlM (fun g edge => g.addEdge edge.1 edge.2) empty

/-- `findElement`. -/
def findElement (g : Graph) (element : Bytes) : Exec Exn ℕ :=
  match g.place element with
  | some found => pure found
  | none => .throw (.common ("Element " ++ text element ++ " not found in graph"))

/-- `Element::getParent`. -/
def getParent (g : Graph) (i : ℕ) : Exec Exn ℕ :=
  match g.elements[i]? with
  | none => .undef .assertion
  | some el =>
    match el.parent with
    | none => .throw (.common ("Not parent in element " ++ text el.element))
    | some parent => pure parent

/-- The parent of the element at a place. -/
def up (g : Graph) (i : ℕ) : Option ℕ := g.elements[i]?.bind Element.parent

/-- The element at a place. -/
def name (g : Graph) (i : ℕ) : Option Bytes := g.elements[i]?.map Element.element

/-! ## The edges of the graph -/

/-- The graph has the elements of its edges, each once, and their parents. -/
structure Holds (g : Graph) (edges : List (Bytes × Bytes)) : Prop where
  nodup : (g.elements.map Element.element).Nodup
  covers : ∀ a b, (a, b) ∈ edges → (∃ i, g.name i = some a) ∧ ∃ i, g.name i = some b
  up_iff : ∀ i j, g.up i = some j ↔
    ∃ a b, (a, b) ∈ edges ∧ g.name i = some b ∧ g.name j = some a

variable {g : Graph} {edges : List (Bytes × Bytes)}

theorem Holds.name_inj (h : g.Holds edges) {i j : ℕ} {a : Bytes} (hi : g.name i = some a)
    (hj : g.name j = some a) : i = j := by
  rw [name, ← List.getElem?_map] at hi hj
  obtain ⟨hlt, -⟩ := List.getElem?_eq_some_iff.1 hi
  exact (List.getElem?_inj hlt h.nodup).1 (hi.trans hj.symm)

theorem name_lt {i : ℕ} {a : Bytes} (h : g.name i = some a) : i < g.elements.length := by
  rw [name, Option.map_eq_some_iff] at h
  obtain ⟨el, hel, -⟩ := h
  exact (List.getElem?_eq_some_iff.1 hel).1

/-- The walk up follows the edges from child to parent. -/
theorem Holds.above_iff (h : g.Holds edges) {i j : ℕ} {a b : Bytes} (hi : g.name i = some a)
    (hj : g.name j = some b) :
    Above g.up i j ↔ Relation.ReflTransGen (fun x y => (y, x) ∈ edges) a b := by
  constructor
  · intro habove
    induction habove using Relation.ReflTransGen.head_induction_on generalizing a with
    | refl =>
      rw [hi] at hj
      cases hj
      exact .refl
    | head hstep _ ih =>
      obtain ⟨x, y, hedge, hy, hx⟩ := (h.up_iff _ _).1 hstep
      rw [hi] at hy
      cases hy
      exact .head hedge (ih hx)
  · intro hedges
    induction hedges using Relation.ReflTransGen.head_induction_on generalizing i with
    | refl =>
      rw [h.name_inj hi hj]
      exact .refl
    | @head x y hedge _ ih =>
      obtain ⟨k, hk⟩ := (h.covers y x hedge).1
      exact .head ((h.up_iff i k).2 ⟨y, x, hedge, hi, hk⟩) (ih hk)

theorem holds_empty : empty.Holds [] where
  nodup := List.nodup_nil
  covers a b h := by cases h
  up_iff i j := by simp [up, empty]

theorem place_eq_none {x : Bytes} (h : g.place x = none) : x ∉ g.elements.map Element.element := by
  rw [place, List.findIdx?_eq_none_iff] at h
  intro hx
  obtain ⟨el, hel, rfl⟩ := List.mem_map.1 hx
  simpa using h el hel

theorem name_of_place {x : Bytes} {i : ℕ} (h : g.place x = some i) : g.name i = some x := by
  rw [place, List.findIdx?_eq_some_iff_getElem] at h
  obtain ⟨hlt, hx, -⟩ := h
  rw [name, List.getElem?_eq_getElem hlt, Option.map_some, of_decide_eq_true hx]

/-- A new element has no parent, and is the parent of none. -/
theorem up_append (g : Graph) (x : Bytes) :
    Graph.up ⟨g.elements ++ [{ element := x }]⟩ = g.up := by
  ext i j
  rw [up, up]
  rcases Nat.lt_trichotomy i g.elements.length with hlt | rfl | hlt
  · rw [List.getElem?_append_left hlt]
  · simp
  · rw [List.getElem?_eq_none (by simp; omega), List.getElem?_eq_none (by omega)]

theorem name_append {x : Bytes} {i : ℕ} {a : Bytes} (h : g.name i = some a) :
    Graph.name ⟨g.elements ++ [{ element := x }]⟩ i = some a := by
  rw [name, List.getElem?_append_left (name_lt h)]
  exact h

/-- **`findOrAdd`** gives the place of the element, and changes no parent. -/
theorem findOrAdd_spec (h : g.Holds edges) (x : Bytes) :
    (g.findOrAdd x).1.Holds edges ∧ (g.findOrAdd x).1.up = g.up ∧
      (g.findOrAdd x).1.name (g.findOrAdd x).2 = some x ∧
      ∀ i a, g.name i = some a → (g.findOrAdd x).1.name i = some a := by
  rw [findOrAdd]
  cases hplace : g.place x with
  | some found => exact ⟨h, rfl, name_of_place hplace, fun _ _ hi => hi⟩
  | none =>
    have hnew := place_eq_none hplace
    refine ⟨⟨?_, ?_, ?_⟩, up_append g x, by simp [name], fun i a => name_append⟩
    · rw [List.map_append, List.nodup_append]
      refine ⟨h.nodup, List.nodup_singleton _, ?_⟩
      intro a ha b hb
      have hb : b = x := List.mem_singleton.1 hb
      rintro rfl
      exact hnew (hb ▸ ha)
    · intro a b hedge
      obtain ⟨⟨i, hi⟩, j, hj⟩ := h.covers a b hedge
      exact ⟨⟨i, name_append hi⟩, j, name_append hj⟩
    · intro i j
      rw [up_append, h.up_iff]
      constructor
      · rintro ⟨a, b, hedge, hi, hj⟩
        exact ⟨a, b, hedge, name_append hi, name_append hj⟩
      · -- the elements of the edges are not the new one
        rintro ⟨a, b, hedge, hi, hj⟩
        have hback : ∀ k z, (∃ k', g.name k' = some z) →
            Graph.name ⟨g.elements ++ [{ element := x }]⟩ k = some z → g.name k = some z := by
          rintro k z ⟨k', hk'⟩ hk
          rw [name] at hk
          rcases Nat.lt_trichotomy k g.elements.length with hlt | rfl | hlt
          · rwa [List.getElem?_append_left hlt] at hk
          · rw [List.getElem?_concat_length, Option.map_some] at hk
            cases hk
            rw [name, ← List.getElem?_map] at hk'
            exact absurd (List.mem_of_getElem? hk') hnew
          · rw [List.getElem?_eq_none (by simp; omega)] at hk
            cases hk
        exact ⟨a, b, hedge, hback i b (h.covers a b hedge).2 hi, hback j a (h.covers a b hedge).1 hj⟩

/-- The graph in which element `i` has got the parent `p`. -/
def setParent (g : Graph) (i : ℕ) (el : Element) (p : ℕ) : Graph :=
  ⟨g.elements.set i { el with parent := some p }⟩

theorem up_setParent {i : ℕ} {el : Element} (hel : g.elements[i]? = some el) (p : ℕ) :
    (g.setParent i el p).up = Function.update g.up i (some p) := by
  have hlt := (List.getElem?_eq_some_iff.1 hel).1
  ext j k
  rw [up, setParent, List.getElem?_set]
  by_cases hj : i = j
  · subst hj
    simp [hlt]
  · rw [if_neg hj, Function.update_of_ne (Ne.symm hj)]
    rfl

theorem name_setParent {i : ℕ} {el : Element} (hel : g.elements[i]? = some el) (p : ℕ) :
    (g.setParent i el p).name = g.name := by
  have hlt := (List.getElem?_eq_some_iff.1 hel).1
  funext j
  rw [name, name, setParent, List.getElem?_set]
  by_cases hj : i = j
  · subst hj
    rw [if_pos rfl, if_pos hlt, hel]
    rfl
  · rw [if_neg hj]

/-- A new edge to an element without a parent. -/
theorem Holds.setParent (h : g.Holds edges) {parent child : Bytes} {i p : ℕ} {el : Element}
    (hel : g.elements[i]? = some el) (hroot : el.parent = none) (hchild : g.name i = some child)
    (hparent : g.name p = some parent) : (g.setParent i el p).Holds (edges ++ [(parent, child)]) := by
  have hname := name_setParent hel p
  refine ⟨?_, ?_, ?_⟩
  · have hnames : (g.setParent i el p).elements.map Element.element = g.elements.map Element.element := by
      refine List.ext_getElem? fun j => ?_
      rw [List.getElem?_map, List.getElem?_map]
      exact congrFun hname j
    rw [hnames]
    exact h.nodup
  · intro a b hedge
    rw [hname]
    rcases List.mem_append.1 hedge with hedge | hedge
    · exact h.covers a b hedge
    · cases List.mem_singleton.1 hedge
      exact ⟨⟨p, hparent⟩, i, hchild⟩
  · intro j k
    rw [up_setParent hel, hname]
    by_cases hj : j = i
    · subst hj
      rw [Function.update_self]
      constructor
      · intro hk
        cases hk
        exact ⟨parent, child, by simp, hchild, hparent⟩
      · rintro ⟨a, b, hedge, hb, ha⟩
        rw [hchild] at hb
        cases hb
        rcases List.mem_append.1 hedge with hedge | hedge
        · -- an earlier edge would be another parent
          have hearlier := (h.up_iff j k).2 ⟨a, child, hedge, hchild, ha⟩
          rw [up, hel, Option.bind_some, hroot] at hearlier
          cases hearlier
        · cases List.mem_singleton.1 hedge
          rw [h.name_inj hparent ha]
    · rw [Function.update_of_ne hj, h.up_iff]
      constructor
      · rintro ⟨a, b, hedge, hb, ha⟩
        exact ⟨a, b, List.mem_append_left _ hedge, hb, ha⟩
      · rintro ⟨a, b, hedge, hb, ha⟩
        rcases List.mem_append.1 hedge with hedge | hedge
        · exact ⟨a, b, hedge, hb, ha⟩
        · cases List.mem_singleton.1 hedge
          exact absurd (h.name_inj hb hchild) hj

/-- **An accepted edge** gives a parent to an element that had none. -/
theorem addEdge_spec (h : g.Holds edges) {parent child : Bytes} {g' : Graph}
    (hadd : g.addEdge parent child = .ok g') :
    g'.Holds (edges ++ [(parent, child)]) ∧
      (IsForest g'.up ↔ IsForest g.up ∧
        ¬ Relation.ReflTransGen (fun x y => (y, x) ∈ edges) parent child) := by
  obtain ⟨h₁, hup₁, hname₁, -⟩ := findOrAdd_spec h parent
  obtain ⟨h₂, hup₂, hname₂, hkeep⟩ := findOrAdd_spec h₁ child
  rw [addEdge] at hadd
  dsimp only at hadd
  have hparent := hkeep _ _ hname₁
  rw [← hup₁, ← hup₂]
  generalize (g.findOrAdd parent).2 = first at hadd hparent
  generalize ((g.findOrAdd parent).1.findOrAdd child).2 = second at hadd hname₂
  generalize ((g.findOrAdd parent).1.findOrAdd child).1 = g₂ at hadd h₂ hname₂ hparent
  obtain ⟨el, hel, hchild⟩ := Option.map_eq_some_iff.1 hname₂
  rw [hel] at hadd
  dsimp only at hadd
  obtain ⟨_, hcheck, hadd⟩ := bind_eq_ok.1 hadd
  cases hadd
  have hroot : el.parent = none := by
    by_contra hne
    rw [check, check_neg hne] at hcheck
    cases hcheck
  refine ⟨h₂.setParent hel hroot hname₂ hparent, ?_⟩
  have hup : up ⟨g₂.elements.set second { el with parent := some first }⟩ =
      Function.update g₂.up second (some first) := up_setParent hel first
  rw [hup, isForest_update_iff (by rw [up, hel, Option.bind_some, hroot]), h₂.above_iff hparent hname₂]

theorem addEdges_append {edges : List (Bytes × Bytes)} {edge : Bytes × Bytes} {g : Graph}
    (h : addEdges (edges ++ [edge]) = .ok g) :
    ∃ g', addEdges edges = .ok g' ∧ g'.addEdge edge.1 edge.2 = .ok g := by
  rw [addEdges, List.foldlM_append] at h
  obtain ⟨g', hg', h⟩ := bind_eq_ok.1 h
  obtain ⟨g'', hadd, h⟩ := bind_eq_ok.1 h
  cases h
  exact ⟨g', hg', hadd⟩

/-- No edge has its child above its parent when it is added. -/
def NoneAboveParent (edges : List (Bytes × Bytes)) : Prop :=
  ∀ before parent child, before ++ [(parent, child)] <+: edges →
    ¬ Relation.ReflTransGen (fun x y => (y, x) ∈ before) parent child

theorem noneAboveParent_append (edges : List (Bytes × Bytes)) (parent child : Bytes) :
    NoneAboveParent (edges ++ [(parent, child)]) ↔
      NoneAboveParent edges ∧ ¬ Relation.ReflTransGen (fun x y => (y, x) ∈ edges) parent child := by
  constructor
  · intro h
    refine ⟨fun before p c hpre => h before p c (hpre.trans (List.prefix_append _ _)), ?_⟩
    exact h edges parent child (List.prefix_refl _)
  · rintro ⟨h, hlast⟩ before p c hpre
    rcases List.prefix_concat_iff.1 hpre with hall | hpre
    · obtain ⟨rfl, hedge⟩ := List.append_inj' hall rfl
      cases hedge
      exact hlast
    · exact h before p c hpre

/-- **The accepted edges** make a forest unless one of them closes a cycle. -/
theorem addEdges_isForest_iff {edges : List (Bytes × Bytes)} {g : Graph}
    (h : addEdges edges = .ok g) : g.Holds edges ∧ (IsForest g.up ↔ NoneAboveParent edges) := by
  induction edges using List.reverseRecOn generalizing g with
  | nil =>
    cases h
    refine ⟨holds_empty, iff_of_true (fun i => ⟨0, .root rfl⟩) ?_⟩
    intro before parent child hpre
    simp at hpre
  | append_singleton edges edge ih =>
    obtain ⟨g', hedges, hadd⟩ := addEdges_append h
    obtain ⟨hholds, hforest⟩ := ih hedges
    obtain ⟨hholds', hforest'⟩ := addEdge_spec hholds hadd
    exact ⟨hholds', by rw [hforest', hforest, ← noneAboveParent_append]⟩

/-- The parents are elements of the graph. -/
theorem Holds.up_mem (h : g.Holds edges) :
    ∀ i ∈ Finset.range g.elements.length, ∀ j, g.up i = some j →
      j ∈ Finset.range g.elements.length := by
  intro i _ j hj
  obtain ⟨a, b, -, -, ha⟩ := (h.up_iff i j).1 hj
  exact Finset.mem_range.2 (name_lt ha)

/-- The walks up from the elements of a forest are shorter than the number of the elements. -/
theorem Holds.isForest_iff (h : g.Holds edges) :
    IsForest g.up ↔ ∀ i < g.elements.length, ∃ n ≤ g.elements.length, EndsAfter g.up i n := by
  constructor
  · intro hforest i hi
    obtain ⟨n, hn⟩ := hforest i
    have hlt := hn.lt_card h.up_mem (Finset.mem_range.2 hi)
    rw [Finset.card_range] at hlt
    exact ⟨n, hlt.le, hn⟩
  · intro hends i
    by_cases hi : i < g.elements.length
    · obtain ⟨n, -, hn⟩ := hends i hi
      exact ⟨n, hn⟩
    · exact ⟨0, .root (by rw [up, List.getElem?_eq_none (not_lt.1 hi)]; rfl)⟩

end Graph

/-! ## Requests to the servers above -/

/-- `class P2P_Graph`; `parent` is the place of the parent of this server. -/
structure P2PGraph where
  graph : Graph
  parent : ℕ
  countConnections : ℕ
deriving DecidableEq, Repr

/-- The constructor. -/
def P2PGraph.make (graphVec : List (Bytes × Bytes)) (thisIp : Bytes) (countConnections : ℕ) :
    Exec Exn P2PGraph := do
  check (countConnections ≠ 0) "Incorrect count connections: 0"
  let graph ← Graph.addEdges graphVec
  let thisElement ← graph.findElement thisIp
  let parent ← graph.getParent thisElement
  pure ⟨graph, parent, countConnections⟩

/-- What `broadcast` calls; `σ` is the state of the world. -/
structure BroadcastEnv (σ : Type) where
  /-- `Curl::request` -/
  curl : (url postData header : Bytes) → σ → Except Exn Bytes × σ
  callback : (server response : Bytes) → (exception : Option String) → σ → Except Exn Unit × σ
  checkStopSignal : σ → Except Exn Unit × σ

section
variable {σ : Type} (env : BroadcastEnv σ)

/-- The private `request`. -/
def BroadcastEnv.request (qs postData header server : Bytes) (s : σ) : Except Exn Bytes × σ :=
  if server = [] then (.error (.common "server empty"), s)
  else
    let url := if server.getLast? = some 47 then server else server ++ [47]
    env.curl (url ++ qs) postData header s

/-- The body of the `try` block. -/
def BroadcastEnv.ask (qs postData header server : Bytes) (s : σ) : Except Exn Unit × σ :=
  match env.request qs postData header server s with
  | (.ok response, s) => env.callback server response none s
  | (.error e, s) => (.error e, s)

/-- The loop of `broadcast` from `curServ` on. -/
def P2PGraph.broadcastLoop (g : Graph) (qs postData header : Bytes) :
    ℕ → ℕ → σ → Exec Exn Unit × σ
  | 0, _, s => (.outOfFuel, s)
  | fuel + 1, curServ, s =>
    match g.elements[curServ]? with
    | none => (.undef .assertion, s)
    | some el =>
      match env.ask qs postData header el.element s with
      | (.ok (), s) =>
        let (r, s) := env.checkStopSignal s
        (Exec.ofExcept r, s)
      -- only `common::exception` is caught
      | (.error (.std what), s) => (.throw (.std what), s)
      | (.error (.common message), s) =>
        match env.callback el.element [] (some message) s with
        | (.error e, s) => (.throw e, s)
        | (.ok (), s) =>
          match env.checkStopSignal s with
          | (.error e, s) => (.throw e, s)
          | (.ok (), s) =>
            match el.parent with
            | none => (.throw (.common "Servers end"), s)
            | some parent => broadcastLoop g qs postData header fuel parent s

/-- `P2P_Graph::broadcast`, with at most as many passes as there are servers. -/
def P2PGraph.broadcast (p : P2PGraph) (qs postData header : Bytes) (s : σ) : Exec Exn Unit × σ :=
  -- `curls` has `countConnections` instances
  if p.countConnections = 0 then (.throw (.common "Curls empty"), s)
  else broadcastLoop env p.graph qs postData header p.graph.elements.length p.parent s

end

/-- Only `ask` throws, and what it throws is caught. -/
structure BroadcastEnv.Quiet {σ : Type} (env : BroadcastEnv σ) : Prop where
  ask : ∀ qs postData header server s what,
    (env.ask qs postData header server s).1 ≠ .error (.std what)
  callback : ∀ server message s, (env.callback server [] (some message) s).1 = .ok ()
  checkStopSignal : ∀ s, (env.checkStopSignal s).1 = .ok ()

/-- The loop returned or threw; from a quiet environment only `"Servers end"` comes out. -/
def Ended {σ : Type} (env : BroadcastEnv σ) (r : Exec Exn Unit) : Prop :=
  (r = .ok () ∨ ∃ e, r = .throw e) ∧
    (env.Quiet → r = .ok () ∨ r = .throw (.common "Servers end"))

section
variable {σ : Type} {env : BroadcastEnv σ} {g : Graph}

/-- **The loop** makes one pass for each server on the walk up. -/
theorem P2PGraph.broadcastLoop_ends {edges : List (Bytes × Bytes)} (h : g.Holds edges)
    (qs postData header : Bytes) {fuel i n : ℕ} (hi : i < g.elements.length)
    (hends : EndsAfter g.up i n) (hfuel : n < fuel) (s : σ) :
    Ended env (broadcastLoop env g qs postData header fuel i s).1 := by
  induction fuel generalizing i n s with
  | zero => omega
  | succ fuel ih =>
    rw [broadcastLoop, List.getElem?_eq_getElem hi]
    dsimp only
    have hup : g.up i = g.elements[i].parent := by
      rw [Graph.up, List.getElem?_eq_getElem hi]
      rfl
    rcases hask : env.ask qs postData header g.elements[i].element s with ⟨(message | what) | _, s₁⟩
    · dsimp only
      rcases hcallback : env.callback g.elements[i].element [] (some message) s₁ with ⟨e | _, s₂⟩
      · refine ⟨Or.inr ⟨e, rfl⟩, fun hquiet => ?_⟩
        have hok := hquiet.callback g.elements[i].element message s₁
        rw [hcallback] at hok
        cases hok
      · dsimp only
        rcases hstop : env.checkStopSignal s₂ with ⟨e | _, s₃⟩
        · refine ⟨Or.inr ⟨e, rfl⟩, fun hquiet => ?_⟩
          have hok := hquiet.checkStopSignal s₂
          rw [hstop] at hok
          cases hok
        · cases hends with
          | root hroot =>
            rw [hup] at hroot
            rw [hroot]
            exact ⟨Or.inr ⟨_, rfl⟩, fun _ => Or.inr rfl⟩
          | step hstep hends =>
            have hj := h.up_mem i (Finset.mem_range.2 hi) _ hstep
            rw [hup] at hstep
            rw [hstep]
            exact ih (Finset.mem_range.1 hj) hends (Nat.lt_of_succ_lt_succ hfuel) s₃
    · refine ⟨Or.inr ⟨_, rfl⟩, fun hquiet => ?_⟩
      exact absurd (by rw [hask]) (hquiet.ask qs postData header g.elements[i].element s what)
    · show Ended env (Exec.ofExcept (env.checkStopSignal s₁).1)
      rcases hstop : (env.checkStopSignal s₁).1 with e | _
      · refine ⟨Or.inr ⟨e, rfl⟩, fun hquiet => ?_⟩
        have hok := hquiet.checkStopSignal s₁
        rw [hstop] at hok
        cases hok
      · exact ⟨Or.inl rfl, fun _ => Or.inl rfl⟩

end

/-- What the constructor accepts: the graph of its edges, and a parent in it. -/
theorem P2PGraph.make_eq_ok {graphVec : List (Bytes × Bytes)} {thisIp : Bytes}
    {countConnections : ℕ} {p : P2PGraph} (h : make graphVec thisIp countConnections = .ok p) :
    p.countConnections ≠ 0 ∧ Graph.addEdges graphVec = .ok p.graph ∧
      ∃ i, p.graph.up i = some p.parent := by
  obtain ⟨_, hcount, h⟩ := bind_eq_ok.1 h
  obtain ⟨graph, hgraph, h⟩ := bind_eq_ok.1 h
  obtain ⟨i, -, h⟩ := bind_eq_ok.1 h
  obtain ⟨parent, hparent, h⟩ := bind_eq_ok.1 h
  cases h
  refine ⟨?_, hgraph, i, ?_⟩
  · rintro rfl
    rw [check, check_neg (by simp)] at hcount
    cases hcount
  · rw [Graph.getParent] at hparent
    rw [Graph.up]
    cases hel : graph.elements[i]? with
    | none =>
      rw [hel] at hparent
      cases hparent
    | some el =>
      rw [hel] at hparent
      dsimp only at hparent
      rw [Option.bind_some]
      cases hup : el.parent with
      | none =>
        rw [hup] at hparent
        cases hparent
      | some j =>
        rw [hup] at hparent
        cases hparent
        rfl

/-- **The servers end**: the walks up from all elements of an accepted graph end, and so does every
    `broadcast`, if and only if no edge has its child above its parent when it is added. -/
theorem servers_end_iff {edges : List (Bytes × Bytes)} {g : Graph}
    (h : Graph.addEdges edges = .ok g) :
    ((∀ i < g.elements.length, ∃ n ≤ g.elements.length, EndsAfter g.up i n) ∧
      ∀ (thisIp : Bytes) (countConnections : ℕ) (p : P2PGraph),
        P2PGraph.make edges thisIp countConnections = .ok p →
        ∀ (σ : Type) (env : BroadcastEnv σ) (qs postData header : Bytes) (s : σ),
          Ended env (p.broadcast env qs postData header s).1) ↔
      ∀ before parent child, before ++ [(parent, child)] <+: edges →
        ¬ Relation.ReflTransGen (fun x y => (y, x) ∈ before) parent child := by
  obtain ⟨hholds, hforest⟩ := Graph.addEdges_isForest_iff h
  refine Iff.trans ?_ hforest
  rw [hholds.isForest_iff]
  refine ⟨And.left, fun hends => ⟨hends, ?_⟩⟩
  intro thisIp countConnections p hmake σ env qs postData header s
  obtain ⟨hcount, hgraph, i, hi⟩ := P2PGraph.make_eq_ok hmake
  rw [h] at hgraph
  cases hgraph
  obtain ⟨a, b, -, -, hparent⟩ := (hholds.up_iff i p.parent).1 hi
  obtain ⟨n, -, hn⟩ := hends p.parent (Graph.name_lt hparent)
  have hlt := hn.lt_card hholds.up_mem (Finset.mem_range.2 (Graph.name_lt hparent))
  rw [Finset.card_range] at hlt
  rw [P2PGraph.broadcast, if_neg hcount]
  exact P2PGraph.broadcastLoop_ends hholds qs postData header (Graph.name_lt hparent) hn hlt s

/-- Three servers, each the parent of the next one. -/
def chain : Graph := ⟨[⟨lit "a", none⟩, ⟨lit "b", some 0⟩, ⟨lit "c", some 1⟩]⟩

/-- The servers of a chain. -/
theorem servers_end_chain :
    Graph.addEdges [(lit "a", lit "b"), (lit "b", lit "c")] = .ok chain ∧
      (((∀ i < chain.elements.length, ∃ n ≤ chain.elements.length, EndsAfter chain.up i n) ∧
        ∀ (thisIp : Bytes) (countConnections : ℕ) (p : P2PGraph),
          P2PGraph.make [(lit "a", lit "b"), (lit "b", lit "c")] thisIp countConnections = .ok p →
          ∀ (σ : Type) (env : BroadcastEnv σ) (qs postData header : Bytes) (s : σ),
            Ended env (p.broadcast env qs postData header s).1) ↔
        ∀ before parent child,
          before ++ [(parent, child)] <+: [(lit "a", lit "b"), (lit "b", lit "c")] →
            ¬ Relation.ReflTransGen (fun x y => (y, x) ∈ before) parent child) :=
  ⟨by decide, @servers_end_iff _ chain (by decide)⟩

/-- Servers of which none answers. -/
def failing : BroadcastEnv Unit where
  curl _ _ _ _ := (.error (.common "timeout"), ())
  callback _ _ _ _ := (.ok (), ())
  checkStopSignal _ := (.ok (), ())

/-- A server that is its own parent is asked again and again. -/
theorem servers_never_end :
    Graph.addEdges [(lit "a", lit "a")] = .ok ⟨[⟨lit "a", some 0⟩]⟩ ∧
      P2PGraph.make [(lit "a", lit "a")] (lit "a") 1 = .ok ⟨⟨[⟨lit "a", some 0⟩]⟩, 0, 1⟩ ∧
      (¬ ∃ n, EndsAfter (Graph.up ⟨[⟨lit "a", some 0⟩]⟩) 0 n) ∧
      ∀ fuel, (P2PGraph.broadcastLoop failing ⟨[⟨lit "a", some 0⟩]⟩ [] [] [] fuel 0 ()).1 =
        .outOfFuel := by
  refine ⟨by decide, by decide, ?_, ?_⟩
  · rintro ⟨n, hn⟩
    have hstep : EndsAfter (Graph.up ⟨[⟨lit "a", some 0⟩]⟩) 0 (n + 1) := .step rfl hn
    exact absurd (hn.unique hstep) (Nat.lt_succ_self n).ne
  · intro fuel
    induction fuel with
    | zero => rfl
    | succ fuel ih => exact ih

end P2P

end TorrentNode
