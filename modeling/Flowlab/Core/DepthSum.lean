import Flowlab.Core.HotRefine

namespace Flowlab.Core

/-- The accumulators `d0` to `d3` of `depth_sum`. -/
structure DepthLanes where
  d0 : UInt64
  d1 : UInt64
  d2 : UInt64
  d3 : UInt64

namespace DepthLanes

def total (d : DepthLanes) : UInt64 := d.d0 + d.d1 + d.d2 + d.d3

/-- One turn of the unrolled loop; `none` is an index out of bounds. -/
def chunk {M : Nat} (levels : Vector Level M) (d : DepthLanes) (c : Nat) : Option DepthLanes := do
  let base := c * 4
  let l0 ← levels[base]?
  let l1 ← levels[base + 1]?
  let l2 ← levels[base + 2]?
  let l3 ← levels[base + 3]?
  pure ⟨d.d0 + l0.totalQty, d.d1 + l1.totalQty, d.d2 + l2.totalQty, d.d3 + l3.totalQty⟩

/-- The `match` on the remainder. -/
def rest {M : Nat} (levels : Vector Level M) (d : DepthLanes) (tail : Nat) :
    Nat → Option DepthLanes
  | 3 => do
    let l0 ← levels[tail]?
    let l1 ← levels[tail + 1]?
    let l2 ← levels[tail + 2]?
    pure { d with
      d0 := d.d0 + l0.totalQty, d1 := d.d1 + l1.totalQty, d2 := d.d2 + l2.totalQty }
  | 2 => do
    let l0 ← levels[tail]?
    let l1 ← levels[tail + 1]?
    pure { d with d0 := d.d0 + l0.totalQty, d1 := d.d1 + l1.totalQty }
  | 1 => do
    let l0 ← levels[tail]?
    pure { d with d0 := d.d0 + l0.totalQty }
  | _ => some d

end DepthLanes

namespace HotOrderBook

/-- `depth_sum`, its prefetch left out. -/
def depthSum {M : Nat} (levels : Vector Level M) (count n : Nat) : Option UInt64 := do
  let n := min n count
  let chunks := n / 4
  let remainder := n % 4
  let d ← (List.range chunks).foldlM (DepthLanes.chunk levels) ⟨0, 0, 0, 0⟩
  let tail := chunks * 4
  let d ← DepthLanes.rest levels d tail remainder
  pure d.total

def bidDepth {M : Nat} (b : HotOrderBook M) (n : Nat) : Option UInt64 :=
  depthSum b.bids.levels b.bids.count.toNat n

def askDepth {M : Nat} (b : HotOrderBook M) (n : Nat) : Option UInt64 :=
  depthSum b.asks.levels b.asks.count.toNat n

end HotOrderBook

/-- The quantity on the first `i` levels, in `u64` arithmetic. -/
def depthUpTo {M : Nat} (levels : Vector Level M) (i : Nat) : UInt64 :=
  ((levels.toList.take i).map Level.totalQty).sum

theorem depthUpTo_succ {M : Nat} (levels : Vector Level M) {i : Nat} (hi : i < M) :
    ∃ l, levels[i]? = some l ∧ depthUpTo levels (i + 1) = depthUpTo levels i + l.totalQty := by
  refine ⟨levels[i], Vector.getElem?_eq_getElem hi, ?_⟩
  have hlen : i < levels.toList.length := by simpa using hi
  rw [depthUpTo, List.take_add_one, List.getElem?_eq_getElem hlen, List.map_append, List.sum_append]
  simp [depthUpTo]

namespace DepthLanes

variable {M : Nat} (levels : Vector Level M)

/-- A turn takes in four levels, whichever lane each goes to. -/
theorem chunk_spec {d : DepthLanes} {c : Nat} (hc : c * 4 + 4 ≤ M)
    (hd : d.total = depthUpTo levels (c * 4)) :
    ∃ d', chunk levels d c = some d' ∧ d'.total = depthUpTo levels ((c + 1) * 4) := by
  obtain ⟨l0, h0, s0⟩ := depthUpTo_succ levels (i := c * 4) (by omega)
  obtain ⟨l1, h1, s1⟩ := depthUpTo_succ levels (i := c * 4 + 1) (by omega)
  obtain ⟨l2, h2, s2⟩ := depthUpTo_succ levels (i := c * 4 + 2) (by omega)
  obtain ⟨l3, h3, s3⟩ := depthUpTo_succ levels (i := c * 4 + 3) (by omega)
  refine ⟨⟨d.d0 + l0.totalQty, d.d1 + l1.totalQty, d.d2 + l2.totalQty, d.d3 + l3.totalQty⟩, ?_, ?_⟩
  · rw [chunk, h0, h1, h2, h3]
    rfl
  · rw [Nat.succ_mul, s3, s2, s1, s0, ← hd]
    simp only [total]
    ac_rfl

/-- The unrolled loop: by induction on the number of turns. -/
theorem chunks_spec {n : Nat} (hn : n * 4 ≤ M) :
    ∃ d, (List.range n).foldlM (chunk levels) ⟨0, 0, 0, 0⟩ = some d ∧
      d.total = depthUpTo levels (n * 4) := by
  induction n with
  | zero => exact ⟨⟨0, 0, 0, 0⟩, rfl, rfl⟩
  | succ n ih =>
    rw [Nat.succ_mul] at hn
    obtain ⟨d, hrun, hd⟩ := ih (by omega)
    obtain ⟨d', hstep, hd'⟩ := chunk_spec levels hn hd
    refine ⟨d', ?_, hd'⟩
    rw [List.range_succ, List.foldlM_append, hrun]
    show (chunk levels d n >>= fun d => pure d) = some d'
    rw [hstep]
    rfl

theorem rest_spec {d : DepthLanes} {tail r : Nat} (hr : r < 4) (hM : tail + r ≤ M)
    (hd : d.total = depthUpTo levels tail) :
    ∃ d', rest levels d tail r = some d' ∧ d'.total = depthUpTo levels (tail + r) := by
  match r, hr with
  | 0, _ => exact ⟨d, rfl, hd⟩
  | 1, _ =>
    obtain ⟨l0, h0, s0⟩ := depthUpTo_succ levels (i := tail) (by omega)
    refine ⟨{ d with d0 := d.d0 + l0.totalQty }, ?_, ?_⟩
    · rw [rest, h0]
      rfl
    · rw [s0, ← hd]
      simp only [total]
      ac_rfl
  | 2, _ =>
    obtain ⟨l0, h0, s0⟩ := depthUpTo_succ levels (i := tail) (by omega)
    obtain ⟨l1, h1, s1⟩ := depthUpTo_succ levels (i := tail + 1) (by omega)
    refine ⟨{ d with d0 := d.d0 + l0.totalQty, d1 := d.d1 + l1.totalQty }, ?_, ?_⟩
    · rw [rest, h0, h1]
      rfl
    · rw [s1, s0, ← hd]
      simp only [total]
      ac_rfl
  | 3, _ =>
    obtain ⟨l0, h0, s0⟩ := depthUpTo_succ levels (i := tail) (by omega)
    obtain ⟨l1, h1, s1⟩ := depthUpTo_succ levels (i := tail + 1) (by omega)
    obtain ⟨l2, h2, s2⟩ := depthUpTo_succ levels (i := tail + 2) (by omega)
    refine ⟨{ d with
      d0 := d.d0 + l0.totalQty, d1 := d.d1 + l1.totalQty, d2 := d.d2 + l2.totalQty }, ?_, ?_⟩
    · rw [rest, h0, h1, h2]
      rfl
    · rw [s2, s1, s0, ← hd]
      simp only [total]
      ac_rfl

end DepthLanes

namespace HotOrderBook

/-- Every index once: no read is out of bounds, and the lanes add up to the plain sum. -/
theorem depthSum_eq {M : Nat} (levels : Vector Level M) {count : Nat} (hcount : count ≤ M)
    (n : Nat) : depthSum levels count n = some (depthUpTo levels (min n count)) := by
  have hsplit : min n count / 4 * 4 + min n count % 4 = min n count := Nat.div_add_mod' _ _
  have hr : min n count % 4 < 4 := Nat.mod_lt _ (by omega)
  obtain ⟨d, hrun, hd⟩ := DepthLanes.chunks_spec levels (n := min n count / 4) (by omega)
  obtain ⟨d', hrest, hd'⟩ := DepthLanes.rest_spec levels hr (by omega) hd
  rw [hsplit] at hd'
  rw [depthSum, hrun, ← hd']
  show (DepthLanes.rest levels d _ _ >>= fun d => pure d.total) = _
  rw [hrest]
  rfl

theorem depthSum_ladder {M : Nat} {h : HalfBook M} (hcount : h.count.toNat ≤ M) (n : Nat) :
    depthSum h.levels h.count.toNat n = some ((h.ladder.take n).map Level.totalQty).sum := by
  rw [depthSum_eq h.levels hcount, depthUpTo, HalfBook.ladder, List.take_take]

/-- In every state the book can reach, the depths are those of the ladders it shows. -/
theorem depths_reachable {M : Nat} (hM : M < 2 ^ 32) {b : HotOrderBook M} (h : b.Reachable)
    (n : Nat) :
    b.bidDepth n = some ((b.view.bids.take n).map Level.totalQty).sum ∧
      b.askDepth n = some ((b.view.asks.take n).map Level.totalQty).sum := by
  have hg := gridInv_reachable hM h
  exact ⟨depthSum_ladder hg.bids.count_le n, depthSum_ladder hg.asks.count_le n⟩

/-- `depth_sum` is the sum modulo `2^64` of the quantities on the first `min(n, count)` levels. -/
theorem depthSum_toNat {M : Nat} (levels : Vector Level M) (count : Nat) (hcount : count ≤ M)
    (n : Nat) :
    (depthSum levels count n).map UInt64.toNat =
      some (((levels.toList.take (min n count)).map (·.totalQty.toNat)).sum % 2 ^ 64) := by
  rw [depthSum_eq levels hcount n, Option.map_some, depthUpTo, toNat_sum, List.map_map]
  rfl

/-- Six of seven live levels: a full turn and two in the tail. -/
theorem depthSum_toNat_six :
    (depthSum (M := 8) (Vector.ofFn fun i => ⟨0, UInt64.ofNat (i.val + 1), 1⟩) 7 6).map UInt64.toNat =
      some 21 :=
  depthSum_toNat (M := 8) (Vector.ofFn fun i => ⟨0, UInt64.ofNat (i.val + 1), 1⟩) 7 (by decide) 6

end HotOrderBook

end Flowlab.Core
