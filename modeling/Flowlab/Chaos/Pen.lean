import Flowlab.Framework.Rounding
import Flowlab.Framework.Writer
import Flowlab.Chaos.OrderTracker

namespace Flowlab.Chaos

open Framework Rounding Writer
open Flowlab.Core (Event EventType Side SequencedEvent OrderBook satSub64 toNat_succ)

/-- `xorshift64*`. -/
structure DetRng where
  state : UInt64
  deriving DecidableEq, Repr

namespace DetRng

def new (seed : UInt64) : DetRng := ⟨if seed = 0 then 0x9E3779B97F4A7C15 else seed⟩

def nextU64 (r : DetRng) : UInt64 × DetRng :=
  let x := r.state
  let x := x ^^^ (x >>> 12)
  let x := x ^^^ (x <<< 25)
  let x := x ^^^ (x >>> 27)
  (x * 0x2545F4914F6CDD1D, ⟨x⟩)

def nextBelow (r : DetRng) (n : UInt64) : UInt64 × DetRng :=
  if n = 0 then (0, r) else ((r.nextU64).1 % n, (r.nextU64).2)

def boolP (r : DetRng) (p : Fp) : Bool × DetRng :=
  let p := p.clamp (.fin 0) (.fin 1)
  let cutoff := (p.mul (.ofU64 0xFFFFFFFFFFFFFFFF)).toU64
  (decide ((r.nextU64).1 < cutoff), (r.nextU64).2)

end DetRng

def mk (seq ts : UInt64) (et : EventType) (side : Side) (price qty oid : UInt64) : SequencedEvent :=
  ⟨seq, 0, ⟨ts, price, qty, oid, 1, et.toU8, side.toU8⟩, (0, 0)⟩

/-- Linear interpolation of a severity between `lo` and `hi`. -/
def lerp (severity lo hi : Fp) : Fp :=
  let s := severity.clamp (.fin 0) (.fin 1)
  lo.add ((hi.sub lo).mul s)

/-- An interpolation between integers stays between them, for every severity that is a number. -/
theorem lerp_between (severity : Fp) {lo hi : ℕ} (h : lo ≤ hi) (hhi : hi ≤ 2 ^ 52) :
    lerp severity (.fin lo) (.fin hi) = .nan ∨
      ∃ q : ℚ, lerp severity (.fin lo) (.fin hi) = .fin q ∧ (lo : ℚ) ≤ q ∧ q ≤ hi := by
  have hlo : (lo : ℚ) ≤ hi := by exact_mod_cast h
  have hbig : (hi : ℚ) ≤ 2 ^ 52 := by exact_mod_cast hhi
  have h0 : (0 : ℚ) ≤ lo := by positivity
  have hsub : (Fp.fin hi).sub (.fin lo) = .fin (hi - lo) := by
    have hint := Fp.ofRat_int (n := (hi : ℤ) - lo) (by push_cast; rw [abs_le]; constructor <;> linarith)
    push_cast at hint
    rw [Fp.sub, Fp.neg, Fp.add, ← sub_eq_add_neg, hint]
  simp only [lerp, hsub]
  rcases severity.clamp_unit with hnan | ⟨t, ht, ht0, ht1⟩
  · left
    rw [hnan, Fp.mul_nan, Fp.add_nan]
  · right
    have hx0 : 0 ≤ ((hi : ℚ) - lo) * t := mul_nonneg (by linarith) ht0
    have hx1 : ((hi : ℚ) - lo) * t ≤ hi - lo := mul_le_of_le_one_right (by linarith) ht1
    have hxabs : |((hi : ℚ) - lo) * t| ≤ 2 ^ 52 := by rw [abs_of_nonneg hx0]; linarith
    have hr0 : 0 ≤ rnd (((hi : ℚ) - lo) * t) := by
      exact_mod_cast le_rnd hxabs (n := 0) (by exact_mod_cast hx0)
    have hr1 : rnd (((hi : ℚ) - lo) * t) ≤ hi - lo := by
      have hle := rnd_le hxabs (n := (hi : ℤ) - lo) (by push_cast; exact hx1)
      push_cast at hle
      exact hle
    have hyabs : |(lo : ℚ) + rnd (((hi : ℚ) - lo) * t)| ≤ 2 ^ 52 := by
      rw [abs_of_nonneg (by linarith)]
      linarith
    refine ⟨rnd (lo + rnd (((hi : ℚ) - lo) * t)), ?_, ?_, ?_⟩
    · rw [ht, Fp.mul, Fp.ofRat_of_le hxabs, Fp.add, Fp.ofRat_of_le hyabs]
    · exact_mod_cast le_rnd hyabs (n := lo) (by push_cast; linarith)
    · exact_mod_cast rnd_le hyabs (n := hi) (by push_cast; linarith)

theorem lerp_round_le (severity : Fp) (lo hi : ℕ) (h : lo ≤ hi) (hhi : hi ≤ 2 ^ 52) :
    (lerp severity (.fin lo) (.fin hi)).round.toU32.toNat ≤ hi := by
  rcases lerp_between severity h hhi with hnan | ⟨q, hq, hlo, hle⟩
  · rw [hnan]
    exact Nat.zero_le hi
  · rw [hq]
    exact Fp.toU32_round_le (le_trans (by positivity) hlo) hle

/-- What a generator holds while it writes a batch: its random source and id counter, the sequence
number and time of the next event, and the events so far. -/
structure Pen where
  rng : DetRng
  nextOid : UInt64
  seq : UInt64
  ts : UInt64
  out : List SequencedEvent
  deriving DecidableEq

abbrev Write := StateM Pen

namespace Write

def nextU64 : Write UInt64 := fun p => ((p.rng.nextU64).1, { p with rng := (p.rng.nextU64).2 })

def nextBelow (n : UInt64) : Write UInt64 := fun p =>
  ((p.rng.nextBelow n).1, { p with rng := (p.rng.nextBelow n).2 })

def boolP (q : Fp) : Write Bool := fun p =>
  ((p.rng.boolP q).1, { p with rng := (p.rng.boolP q).2 })

/-- `self.next_oid`, followed by `self.next_oid = self.next_oid.wrapping_add(1)`. -/
def takeOid : Write UInt64 := fun p => (p.nextOid, { p with nextOid := p.nextOid + 1 })

/-- `out.push(mk(seq, ts, ..))`, followed by `seq += 1`. -/
def push (et : EventType) (side : Side) (price qty oid : UInt64) : Write Unit := fun p =>
  ((), { p with out := p.out ++ [mk p.seq p.ts et side price qty oid], seq := p.seq + 1 })

/-- `ts = ts.saturating_add(dt)`. -/
def wait (dt : UInt64) : Write Unit := fun p => ((), { p with ts := satAdd64 p.ts dt })

def setTs (ts : UInt64) : Write Unit := fun p => ((), { p with ts := ts })

theorem bind_eq {α β : Type} (m : Write α) (f : α → Write β) (p : Pen) :
    (m >>= f) p = f (m p).1 (m p).2 := rfl

theorem pure_eq {α : Type} (a : α) (p : Pen) : (pure a : Write α) p = (a, p) := rfl

/-- The same program over and over. -/
theorem forM_iterate (m : Write Unit) (l : List ℕ) (p : Pen) :
    (l.forM (fun _ => m) p).2 = (fun q => (m q).2)^[l.length] p := by
  induction l generalizing p with
  | nil => rfl
  | cons i l ih =>
    rw [List.length_cons, Function.iterate_succ_apply, ← ih]
    rfl

end Write

instance decidablePlaces (e : Event) : Decidable (OrderBook.Places e) :=
  inferInstanceAs (Decidable (_ ∨ _))

/-- The ids of the events that place an order. -/
def addIds (es : List SequencedEvent) : List ℕ :=
  (es.filter (fun e => OrderBook.Places e.event)).map (fun e => e.event.orderId.toNat)

def seqs (es : List SequencedEvent) : List ℕ := es.map (fun e => e.seq.toNat)

/-- With room for `k` more ids those that place orders rise from the counter to where it stands after,
and with room for `n` more events so do the sequence numbers. -/
structure Numbered (n k : ℕ) (p : Pen) (es : List SequencedEvent) (q : Pen) : Prop where
  ids : p.nextOid.toNat + k < 2 ^ 64 →
    Rises p.nextOid.toNat (addIds es) q.nextOid.toNat ∧ q.nextOid.toNat ≤ p.nextOid.toNat + k
  seqs : p.seq.toNat + n < 2 ^ 64 →
    Rises p.seq.toNat (seqs es) q.seq.toNat ∧ q.seq.toNat ≤ p.seq.toNat + n

theorem addIds_append (es fs : List SequencedEvent) : addIds (es ++ fs) = addIds es ++ addIds fs := by
  simp only [addIds, List.filter_append, List.map_append]

theorem numbered_additive : Additive Numbered where
  refl n k p := ⟨fun _ => ⟨le_rfl, by omega⟩, fun _ => ⟨le_rfl, by omega⟩⟩
  trans {n k n' k' s t u es fs} h h' := by
    constructor
    · intro hroom
      obtain ⟨hr, hle⟩ := h.ids (by omega)
      obtain ⟨hr', hle'⟩ := h'.ids (by omega)
      rw [addIds_append]
      exact ⟨hr.append hr', by omega⟩
    · intro hroom
      obtain ⟨hr, hle⟩ := h.seqs (by omega)
      obtain ⟨hr', hle'⟩ := h'.seqs (by omega)
      rw [seqs, List.map_append]
      exact ⟨hr.append hr', by omega⟩

/-- The program appends at most `n` events and takes at most `k` ids. -/
abbrev Writes {α : Type} (n k : ℕ) (m : Write α) : Prop := Appends Pen.out Numbered n k m

section

variable {α β : Type} {n k : ℕ}

theorem addIds_mk (seq ts : UInt64) (et : EventType) (side : Side) (price qty oid : UInt64) :
    addIds [mk seq ts et side price qty oid] =
      if et = .orderAdd ∨ et = .orderModify then [oid.toNat] else [] := by
  cases et <;> rfl

/-- One event with the id the counter showed: the counter and the sequence number pass it. -/
theorem numbered_mint (p : Pen) (et : EventType) (side : Side) (price qty : UInt64)
    (out : List SequencedEvent) :
    Numbered 1 1 p [mk p.seq p.ts et side price qty p.nextOid]
      { p with nextOid := p.nextOid + 1, seq := p.seq + 1, out := out } := by
  constructor
  · intro hroom
    have hs : (p.nextOid + 1).toNat = p.nextOid.toNat + 1 := toNat_succ (by omega)
    rw [addIds_mk]
    refine ⟨?_, hs.le⟩
    split_ifs
    · exact ⟨le_rfl, hs.ge⟩
    · exact hs ▸ Nat.le_succ _
  · intro hroom
    have hs : (p.seq + 1).toNat = p.seq.toNat + 1 := toNat_succ (by omega)
    exact ⟨⟨le_rfl, hs.ge⟩, hs.le⟩

/-- An event that places no order may carry any id. -/
theorem numbered_push (p : Pen) {et : EventType} (het : ¬ (et = .orderAdd ∨ et = .orderModify))
    (side : Side) (price qty oid : UInt64) (out : List SequencedEvent) :
    Numbered 1 0 p [mk p.seq p.ts et side price qty oid] { p with seq := p.seq + 1, out := out } := by
  constructor
  · intro _
    rw [addIds_mk, if_neg het]
    exact ⟨le_rfl, le_rfl⟩
  · intro hroom
    have hs : (p.seq + 1).toNat = p.seq.toNat + 1 := toNat_succ (by omega)
    exact ⟨⟨le_rfl, hs.ge⟩, hs.le⟩

theorem writes_pure (a : α) : Writes n k (pure a : Write α) := Appends.pure numbered_additive n k a

theorem writes_bind {c d : ℕ} {m : Write α} {f : α → Write β} (hm : Writes n k m)
    (hf : ∀ a, Writes c d (f a)) : Writes (n + c) (k + d) (m >>= f) :=
  Appends.bind numbered_additive hm (fun p => hf (m p).1)

theorem bind_fst (m : Write α) (f : α → Write β) (p : Pen) :
    ((m >>= f) p).1 = (f (m p).1 (m p).2).1 := rfl

theorem bind_pure_fst (m : Write α) (b : β) (p : Pen) : ((m >>= fun _ => pure b) p).1 = b := rfl

theorem Writes.mono {n' k' : ℕ} {m : Write α} (h : Writes n k m) (hn : n ≤ n') (hk : k ≤ k') :
    Writes n' k' m := by
  intro p
  obtain ⟨es, hes, hids, hseqs⟩ := h p
  refine ⟨es, hes, ?_, ?_⟩
  · intro hroom
    obtain ⟨hr, hle⟩ := hids (by omega)
    exact ⟨hr, by omega⟩
  · intro hroom
    obtain ⟨hr, hle⟩ := hseqs (by omega)
    exact ⟨hr, by omega⟩

/-- The program leaves the batch and both counters alone. -/
structure Quiet (m : Write α) : Prop where
  out : ∀ p, (m p).2.out = p.out
  nextOid : ∀ p, (m p).2.nextOid = p.nextOid
  seq : ∀ p, (m p).2.seq = p.seq

theorem quiet_nextU64 : Quiet Write.nextU64 := ⟨fun _ => rfl, fun _ => rfl, fun _ => rfl⟩

theorem quiet_nextBelow (b : UInt64) : Quiet (Write.nextBelow b) :=
  ⟨fun _ => rfl, fun _ => rfl, fun _ => rfl⟩

theorem quiet_boolP (q : Fp) : Quiet (Write.boolP q) := ⟨fun _ => rfl, fun _ => rfl, fun _ => rfl⟩

theorem quiet_wait (dt : UInt64) : Quiet (Write.wait dt) := ⟨fun _ => rfl, fun _ => rfl, fun _ => rfl⟩

theorem quiet_setTs (ts : UInt64) : Quiet (Write.setTs ts) := ⟨fun _ => rfl, fun _ => rfl, fun _ => rfl⟩

theorem Quiet.writes {m : Write α} (h : Quiet m) : Writes n k m := by
  intro p
  refine ⟨[], by rw [h.out, List.append_nil], ?_, ?_⟩
  · intro _
    rw [h.nextOid]
    exact ⟨le_rfl, by omega⟩
  · intro _
    rw [h.seq]
    exact ⟨le_rfl, by omega⟩

theorem Quiet.then {m : Write α} (h : Quiet m) {f : α → Write β} (hf : ∀ a, Writes n k (f a)) :
    Writes n k (m >>= f) := by
  have hb := writes_bind (h.writes (n := 0) (k := 0)) hf
  rwa [Nat.zero_add, Nat.zero_add] at hb

/-- A program that starts with an event under a fresh id. -/
theorem writes_mint (et : EventType) (side : Side) (price qty : UInt64) {f : UInt64 → Write β}
    (hf : ∀ oid, Writes n k (f oid)) :
    Writes (1 + n) (1 + k) (do
      let oid ← Write.takeOid
      Write.push et side price qty oid
      f oid) := by
  intro p
  let q : Pen := { p with
    nextOid := p.nextOid + 1
    seq := p.seq + 1
    out := p.out ++ [mk p.seq p.ts et side price qty p.nextOid] }
  obtain ⟨es, hes, h⟩ := hf p.nextOid q
  refine ⟨mk p.seq p.ts et side price qty p.nextOid :: es, ?_, ?_⟩
  · rw [List.append_cons]
    exact hes
  · exact numbered_additive.trans (numbered_mint p et side price qty q.out) h

/-- A program that starts with two adds, for which it takes both ids first. -/
theorem writes_mint_two (side side' : Side) (price price' qty qty' : UInt64) {f : Write β}
    (hf : Writes n k f) :
    Writes (1 + (1 + n)) (1 + (1 + k)) (do
      let oid ← Write.takeOid
      let oid' ← Write.takeOid
      Write.push .orderAdd side price qty oid
      Write.push .orderAdd side' price' qty' oid'
      f) := by
  intro p
  -- taking the second id before the first push or after it is the same
  exact writes_mint .orderAdd side price qty
    (fun _ => writes_mint .orderAdd side' price' qty' (fun _ => hf)) p

/-- A program that starts with an event that places no order. -/
theorem writes_push {et : EventType} (het : ¬ (et = .orderAdd ∨ et = .orderModify)) (side : Side)
    (price qty oid : UInt64) {f : Unit → Write β} (hf : ∀ u, Writes n k (f u)) :
    Writes (1 + n) k (Write.push et side price qty oid >>= f) := by
  intro p
  let q : Pen := { p with
    seq := p.seq + 1
    out := p.out ++ [mk p.seq p.ts et side price qty oid] }
  obtain ⟨es, hes, h⟩ := hf () q
  refine ⟨mk p.seq p.ts et side price qty oid :: es, ?_, ?_⟩
  · rw [List.append_cons]
    exact hes
  · have ht := numbered_additive.trans (numbered_push p het side price qty oid q.out) h
    rwa [Nat.zero_add] at ht

end

end Flowlab.Chaos
