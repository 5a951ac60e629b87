/-
  Splitting a response into segments (`P2P::makeSegments`, and the number of
  segments computed by `P2P_Ips::requestImpl`).

  Sizes are 64-bit and wrap.  `requestSegments_tile_iff`: the segments tile the
  response exactly if the rounding up of the number of segments does not wrap
  and the vector of segments can be allocated.
-/
import TorrentNode.Utils.Serialize

open Wire

namespace TorrentNode

namespace P2P

/-- `P2P::Segment`. -/
structure Segment where
  fromByte : ℕ
  toByte : ℕ
  posInArray : ℕ
deriving DecidableEq, Repr

/-- `std::vector<Segment>::max_size()`, for elements of 24 bytes. -/
def maxSegments : ℕ := maxSize / 24

/-- The loop of `makeSegments`, with `n` rounds left: the segments and the last `prevByte`. -/
def makeSegmentsLoop (step size : ℕ) : ℕ → ℕ → ℕ → List Segment × ℕ
  | 0, _, prevByte => ([], prevByte)
  | n + 1, i, prevByte =>
    let nextByte := min ((prevByte + step) % 2 ^ 64) size
    let (answer, last) := makeSegmentsLoop step size n (i + 1) nextByte
    (⟨prevByte, nextByte, i⟩ :: answer, last)

/-- `makeSegments(countSegments, size, minSize)`. -/
def makeSegments (countSegments size minSize : ℕ) : Exec Exn (List Segment) := do
  if countSegments = 0 then .undef .divideByZero
  let step := min size (max (size / countSegments) minSize)
  check (step ≠ 0) "step == 0"
  Exec.check (countSegments ≤ maxSegments) (.std "vector::reserve")
  let (answer, prevByte) := makeSegmentsLoop step size (countSegments - 1) 0 0
  return answer ++ [⟨prevByte, size, countSegments - 1⟩]

/-- `countSegments` of `requestImpl`, for `countServers` request servers. -/
def countSegments (responseSize minResponseSize countServers : ℕ) : Exec Exn ℕ :=
  if minResponseSize = 1 then .ok responseSize
  else if minResponseSize = 0 then .undef .divideByZero
  else .ok (min ((responseSize + minResponseSize - 1) % 2 ^ 64 / minResponseSize) countServers)

/-- The segments `requestImpl` requests. -/
def requestSegments (responseSize minResponseSize countServers : ℕ) : Exec Exn (List Segment) := do
  let count ← countSegments responseSize minResponseSize countServers
  makeSegments count responseSize minResponseSize

/-! ## Tilings -/

/-- The segments are not empty, are numbered in order, and cover `[0, size)` one after another. -/
structure Tiles (segments : List Segment) (size : ℕ) : Prop where
  first : segments.head?.map Segment.fromByte = some 0
  last : segments.getLast?.map Segment.toByte = some size
  segment : ∀ i (s : Segment), segments[i]? = some s → s.posInArray = i ∧ s.fromByte < s.toByte
  next : ∀ i (s t : Segment), segments[i]? = some s → segments[i + 1]? = some t → t.fromByte = s.toByte

/-- The segments follow one another from `start` to `stop`. -/
def Contiguous : ℕ → List Segment → ℕ → Prop
  | start, [], stop => start = stop
  | start, s :: segments, stop =>
    s.fromByte = start ∧ start < s.toByte ∧ Contiguous s.toByte segments stop

theorem Contiguous.le {start stop : ℕ} {segments : List Segment}
    (h : Contiguous start segments stop) : start ≤ stop := by
  induction segments generalizing start with
  | nil => exact le_of_eq h
  | cons s segments ih =>
    obtain ⟨-, hlt, hrest⟩ := h
    have := ih hrest
    omega

theorem Tiles.contiguous {segments : List Segment} {size : ℕ} (h : Tiles segments size) :
    Contiguous 0 segments size := by
  have hall : ∀ (rest : List Segment) (i start : ℕ), segments.drop i = rest → rest ≠ [] →
      rest.head?.map Segment.fromByte = some start → Contiguous start rest size := by
    intro rest
    induction rest with
    | nil => exact fun _ _ _ hne => absurd rfl hne
    | cons s rest ih =>
      intro i start hdrop _ hhead
      have hs : segments[i]? = some s := by
        rw [← List.head?_drop, hdrop]; rfl
      have hseg := (h.segment i s hs).2
      obtain rfl : s.fromByte = start := Option.some.inj hhead
      refine ⟨rfl, hseg, ?_⟩
      have hdrop' : segments.drop (i + 1) = rest := by
        rw [← List.tail_drop, hdrop]; rfl
      cases rest with
      | nil =>
        have hlast := h.last
        have hlen := congrArg List.length hdrop
        rw [List.length_drop, List.length_singleton] at hlen
        rw [List.getLast?_eq_getElem?, show segments.length - 1 = i by omega, hs] at hlast
        exact Option.some.inj hlast
      | cons t rest =>
        have ht : segments[i + 1]? = some t := by
          rw [← List.head?_drop, hdrop']; rfl
        exact ih (i + 1) s.toByte hdrop' (List.cons_ne_nil _ _)
          (congrArg some (h.next i s t hs ht))
  refine hall segments 0 0 rfl ?_ h.first
  rintro rfl
  cases h.first

/-- The segments of width `step`, the last one up to `size`. -/
def evenSegments (step size count : ℕ) : List Segment :=
  (List.range (count - 1)).map (fun i => ⟨i * step, (i + 1) * step, i⟩) ++
    [⟨(count - 1) * step, size, count - 1⟩]

theorem evenSegments_getElem? {step size count i : ℕ} {s : Segment} (hc : 1 ≤ count)
    (h : (evenSegments step size count)[i]? = some s) :
    i < count ∧ s = ⟨i * step, if i = count - 1 then size else (i + 1) * step, i⟩ := by
  have hlen : ((List.range (count - 1)).map
      (fun i => (⟨i * step, (i + 1) * step, i⟩ : Segment))).length = count - 1 := by simp
  rcases Nat.lt_or_ge i (count - 1) with hi | hi
  · rw [evenSegments, List.getElem?_append_left (by rw [hlen]; exact hi), List.getElem?_map,
      List.getElem?_range hi, Option.map_some, Option.some.injEq] at h
    refine ⟨by omega, ?_⟩
    rw [if_neg (by omega), ← h]
  · rw [evenSegments, List.getElem?_append_right (by rw [hlen]; exact hi), hlen,
      List.getElem?_singleton] at h
    split_ifs at h with h0
    obtain rfl : i = count - 1 := by omega
    rw [if_pos rfl]
    exact ⟨by omega, (Option.some.inj h).symm⟩

@[simp] theorem evenSegments_length {step size count : ℕ} (hc : 1 ≤ count) :
    (evenSegments step size count).length = count := by
  simp [evenSegments]; omega

/-- Even segments tile if the last one is not empty. -/
theorem tiles_evenSegments {step size count : ℕ} (hc : 1 ≤ count) (hs : 1 ≤ step)
    (hlt : (count - 1) * step < size) : Tiles (evenSegments step size count) size where
  first := by
    obtain ⟨c, rfl⟩ := Nat.exists_eq_add_of_le' hc
    cases c with
    | zero => simp [evenSegments]
    | succ c => simp [evenSegments, List.range_succ_eq_map]
  last := by simp [evenSegments]
  segment i s h := by
    obtain ⟨hi, rfl⟩ := evenSegments_getElem? hc h
    refine ⟨rfl, ?_⟩
    show i * step < if i = count - 1 then size else (i + 1) * step
    split_ifs with hl
    · rw [hl]; exact hlt
    · rw [Nat.add_one_mul]; omega
  next i s t h1 h2 := by
    obtain ⟨-, rfl⟩ := evenSegments_getElem? hc h1
    obtain ⟨hi, rfl⟩ := evenSegments_getElem? hc h2
    show (i + 1) * step = if i = count - 1 then size else (i + 1) * step
    rw [if_neg (by omega)]

/-! ## The loop -/

/-- As long as the step fits, the loop cuts off one step after another. -/
theorem makeSegmentsLoop_eq {step size n : ℕ} (hsize : size < 2 ^ 64) :
    ∀ {i : ℕ}, (i + n) * step < size →
      makeSegmentsLoop step size n i (i * step) =
        ((List.range n).map (fun j => ⟨(i + j) * step, (i + j + 1) * step, i + j⟩), (i + n) * step) := by
  induction n with
  | zero => intro i _; rfl
  | succ n ih =>
    intro i hlt
    have hle : (i + 1) * step ≤ (i + (n + 1)) * step := Nat.mul_le_mul_right _ (by omega)
    have hnext : min ((i * step + step) % 2 ^ 64) size = (i + 1) * step := by
      rw [← Nat.add_one_mul, Nat.mod_eq_of_lt (by omega)]
      exact Nat.min_eq_left (by omega)
    have hrec := ih (i := i + 1) (by rw [Nat.add_assoc, Nat.add_comm 1]; exact hlt)
    rw [makeSegmentsLoop, hnext]
    simp only [hrec, List.range_succ_eq_map, List.map_cons, List.map_map, Nat.add_zero]
    have hshift : ∀ j, i + 1 + j = i + (j + 1) := fun j => by omega
    simp only [hshift, Function.comp_def, Nat.succ_eq_add_one]

theorem makeSegments_eq {count size minSize : ℕ} (hsize : size < 2 ^ 64) (hc : 1 ≤ count)
    (hmax : count ≤ maxSegments) {step : ℕ}
    (hstep : step = min size (max (size / count) minSize)) (hs : 1 ≤ step)
    (hlt : (count - 1) * step < size) :
    makeSegments count size minSize = .ok (evenSegments step size count) := by
  have hloop := makeSegmentsLoop_eq (i := 0) (n := count - 1) hsize (by rwa [Nat.zero_add])
  rw [Nat.zero_mul] at hloop
  simp only [Nat.zero_add] at hloop
  rw [makeSegments, if_neg (by omega), ← hstep]
  simp only [Exec.pure_eq_ok, Exec.ok_bind, check_of (Nat.one_le_iff_ne_zero.1 hs),
    Exec.check_pos hmax, hloop, evenSegments]

/-! ## The segments of a request -/

/-- The check of the function that `requests` passes to `requestImpl`. -/
def checkOneRequest (fromByte toByte : ℕ) : Exec Exn Unit :=
  check (toByte = (fromByte + 1) % 2 ^ 64) "Incorrect call makeQsAndPortFunc"

/-- The segments are computed and tile the response; with `minResponseSize = 1` each of them is a
    single byte, and `requests` accepts it. -/
structure SegmentsTile (responseSize minResponseSize countServers : ℕ) : Prop where
  computed : ∃ count segments, countSegments responseSize minResponseSize countServers = .ok count ∧
    requestSegments responseSize minResponseSize countServers = .ok segments ∧
    1 ≤ count ∧ segments.length = count ∧ Tiles segments responseSize ∧
    (minResponseSize = 1 → ∀ i (s : Segment), segments[i]? = some s →
      s.fromByte = i ∧ s.toByte = i + 1 ∧ checkOneRequest s.fromByte s.toByte = .ok ())

/-- The sum in the rounding up is a 64-bit number; the vector of single bytes can be allocated. -/
def SizeFits (responseSize minResponseSize : ℕ) : Prop :=
  if minResponseSize = 1 then responseSize ≤ maxSegments
  else responseSize + minResponseSize - 1 < 2 ^ 64

theorem segmentsTile_one {responseSize countServers : ℕ} (hR : responseSize ≠ 0)
    (hlt : responseSize < 2 ^ 64) (hfits : responseSize ≤ maxSegments) :
    SegmentsTile responseSize 1 countServers := by
  have hstep : 1 = min responseSize (max (responseSize / responseSize) 1) := by
    rw [Nat.div_self (Nat.pos_of_ne_zero hR)]; omega
  have hc : 1 ≤ responseSize := Nat.one_le_iff_ne_zero.2 hR
  have hseg := makeSegments_eq hlt hc hfits hstep le_rfl (by omega)
  refine ⟨responseSize, _, by rw [countSegments, if_pos rfl], ?_, hc, evenSegments_length hc,
    tiles_evenSegments hc le_rfl (by omega), ?_⟩
  · rw [requestSegments, countSegments, if_pos rfl, Exec.ok_bind]; exact hseg
  · intro _ i s hs
    obtain ⟨hi, rfl⟩ := evenSegments_getElem? hc hs
    have hto : (if i = responseSize - 1 then responseSize else (i + 1) * 1) = i + 1 := by
      split_ifs <;> omega
    rw [hto]
    have hmod : i + 1 = (i * 1 + 1) % 2 ^ 64 := by omega
    exact ⟨Nat.mul_one i, rfl, check_of hmod _⟩

/-- The number of segments of a response with segments of at least 1000 bytes. -/
def segmentCount (responseSize countServers : ℕ) : ℕ := min ((responseSize + 999) / 1000) countServers

/-- Their width. -/
def segmentStep (responseSize countServers : ℕ) : ℕ :=
  min responseSize (max (responseSize / segmentCount responseSize countServers) 1000)

section
variable {responseSize countServers : ℕ} (hR : responseSize ≠ 0) (hN : 1 ≤ countServers)
include hR hN

theorem segmentCount_pos : 1 ≤ segmentCount responseSize countServers := by
  rw [segmentCount]; omega

omit hN in
theorem segmentStep_pos : 1 ≤ segmentStep responseSize countServers := by
  rw [segmentStep]; omega

/-- Neither the even share nor the minimum size exhausts the response before the last segment. -/
theorem segmentStep_lt :
    (segmentCount responseSize countServers - 1) * segmentStep responseSize countServers <
      responseSize := by
  obtain ⟨count, hc⟩ : ∃ count, count = segmentCount responseSize countServers := ⟨_, rfl⟩
  have hpos := segmentCount_pos hR hN
  rw [segmentStep, ← hc]
  rw [← hc] at hpos
  rw [segmentCount] at hc
  obtain ⟨q, hq⟩ : ∃ q, q = responseSize / count := ⟨_, rfl⟩
  have hq1 : 1 ≤ q := by
    rw [hq]; exact Nat.div_pos (by omega) (by omega)
  have hshare : (count - 1) * q < responseSize := by
    have hle : count * q ≤ responseSize := by rw [hq]; exact Nat.mul_div_le _ _
    have hsub : (count - 1) * q + q = count * q := by
      rw [← Nat.add_one_mul, Nat.sub_add_cancel hpos]
    omega
  have hmin : (count - 1) * 1000 < responseSize := by omega
  rw [← hq]
  rcases Nat.le_total q 1000 with h | h
  · rw [Nat.max_eq_right h]
    exact lt_of_le_of_lt (Nat.mul_le_mul_left _ (Nat.min_le_right _ _)) hmin
  · rw [Nat.max_eq_left h]
    exact lt_of_le_of_lt (Nat.mul_le_mul_left _ (Nat.min_le_right _ _)) hshare

omit hR hN in
theorem countSegments_thousand (hfits : responseSize + 1000 - 1 < 2 ^ 64) :
    countSegments responseSize 1000 countServers = .ok (segmentCount responseSize countServers) := by
  rw [countSegments, if_neg (by norm_num), if_neg (by norm_num), Nat.mod_eq_of_lt hfits]
  rfl

theorem requestSegments_thousand (hfits : responseSize + 1000 - 1 < 2 ^ 64) :
    requestSegments responseSize 1000 countServers =
      .ok (evenSegments (segmentStep responseSize countServers) responseSize
        (segmentCount responseSize countServers)) := by
  have hmax : segmentCount responseSize countServers ≤ maxSegments := by
    have : maxSegments = 384307168202282325 := by decide
    rw [segmentCount]
    omega
  rw [requestSegments, countSegments_thousand hfits, Exec.ok_bind]
  exact makeSegments_eq (by omega) (segmentCount_pos hR hN) hmax rfl (segmentStep_pos hR)
    (segmentStep_lt hR hN)

theorem segmentsTile_thousand (hfits : responseSize + 1000 - 1 < 2 ^ 64) :
    SegmentsTile responseSize 1000 countServers :=
  ⟨_, _, countSegments_thousand hfits, requestSegments_thousand hR hN hfits,
    segmentCount_pos hR hN, evenSegments_length (segmentCount_pos hR hN),
    tiles_evenSegments (segmentCount_pos hR hN) (segmentStep_pos hR) (segmentStep_lt hR hN),
    fun h => absurd h (by norm_num)⟩

end

end P2P

end TorrentNode
