import Flowlab.Chaos.Generators
import Flowlab.Engine.Engine

namespace Flowlab.Engine

open Flowlab.Chaos (swapRemove)
open Flowlab.Core (Event EventType)

/-- `StdRng`, of which only this is used: a draw lies in its range. -/
structure Rng (G : Type) where
  genRange : G → Nat → Nat → Nat × G
  genBool : G → Bool × G
  inRange : ∀ g lo hi, lo ≤ hi → lo ≤ (genRange g lo hi).1 ∧ (genRange g lo hi).1 ≤ hi

namespace Rng

variable {G : Type} (rng : Rng G)

/-- `gen_range(0..n)`; `none` is the panic on an empty range. -/
def genIndex (g : G) (n : Nat) : Option (Nat × G) :=
  if n = 0 then none else some (rng.genRange g 0 (n - 1))

end Rng

inductive Phase where
  | calm
  | imbalanceBurst (side : UInt8)
  | tradeBurst (side : UInt8)
  | flash (side : UInt8)
  deriving DecidableEq

structure LiveOrder where
  oid : UInt64
  priceTicks : UInt64
  side : UInt8
  deriving DecidableEq

structure SyntheticSource (G : Type) where
  rng : G
  nextOid : UInt64
  seq : UInt64
  liveOrders : List LiveOrder
  midTicks : Int
  phase : Phase
  phaseRemaining : UInt32

namespace SyntheticSource

variable {G : Type} (rng : Rng G)

/-- `new`, with the state of the generator that the seed gives. -/
def new (g : G) : SyntheticSource G where
  rng := g
  nextOid := 1
  seq := 0
  liveOrders := []
  midTicks := 100000000
  phase := .calm
  phaseRemaining := 4000

def pickNextPhase (g : G) : Phase × UInt32 × G :=
  let r := rng.genRange g 0 99
  let s := rng.genRange r.2 0 1
  let side := UInt8.ofNat s.1
  if r.1 < 50 then
    let n := rng.genRange s.2 2800 5500
    (.calm, UInt32.ofNat n.1, n.2)
  else if r.1 < 73 then
    let n := rng.genRange s.2 800 1500
    (.imbalanceBurst side, UInt32.ofNat n.1, n.2)
  else if r.1 < 88 then
    let n := rng.genRange s.2 450 950
    (.tradeBurst side, UInt32.ofNat n.1, n.2)
  else
    let n := rng.genRange s.2 260 520
    (.flash side, UInt32.ofNat n.1, n.2)

/-- The episode scheduler at the head of `next`. -/
def schedule (s : SyntheticSource G) : SyntheticSource G :=
  if s.phaseRemaining = 0 then
    let p := pickNextPhase rng s.rng
    { s with seq := s.seq + 1, rng := p.2.2, phase := p.1, phaseRemaining := p.2.1 - 1 }
  else { s with seq := s.seq + 1, phaseRemaining := s.phaseRemaining - 1 }

/-- `(add_pct, cancel_pct, forced_side)`. -/
def mix : Phase → Nat × Nat × Option UInt8
  | .calm => (60, 85, none)
  | .imbalanceBurst side => (95, 100, some side)
  | .tradeBurst side => (15, 20, some side)
  | .flash side => (2, 35, some side)

def flashMode : Phase → Bool
  | .flash _ => true
  | _ => false

/-- `max_by_key`: of equal maxima the last. -/
def maxByKey {α : Type} (key : α → UInt64) (l : List α) : Option α :=
  l.foldl (fun best a =>
    match best with
    | none => some a
    | some b => if key b ≤ key a then some a else some b) none

/-- The place of the live order of a side at its best price. -/
def bestOf (live : List LiveOrder) (side : UInt8) : Option Nat :=
  (maxByKey (fun o : LiveOrder × Nat =>
      if o.1.side = 0 then o.1.priceTicks else 0xFFFFFFFFFFFFFFFF - o.1.priceTicks)
    (live.zipIdx.filter (·.1.side = side))).map (·.2)

/-- The place of the order a cancel or a trade is for. -/
def pick (live : List LiveOrder) (target : Option UInt8) (flash : Bool) (g : G) :
    Option (Nat × G) :=
  match target with
  | none => rng.genIndex g live.length
  | some side =>
    match if flash then bestOf live side else live.findIdx? (·.side = side) with
    | some i => some (i, g)
    | none => rng.genIndex g live.length

/-- The event of `next`; its padding is 0. -/
def event (now : UInt64) (eventType : EventType) (o : LiveOrder) (qty : UInt64) : Event where
  ts := now
  price := o.priceTicks
  qty := qty
  orderId := o.oid
  instrumentId := 1
  eventType := eventType.toU8
  side := if o.side = 0 then 0 else 1

def add (s : SyntheticSource G) (forcedSide : Option UInt8) (now : UInt64) :
    SyntheticSource G × Event :=
  let side : UInt8 × G :=
    match forcedSide with
    | some side => (side, s.rng)
    | none =>
      let b := rng.genBool s.rng
      (if b.1 then 0 else 1, b.2)
  let offset := if forcedSide.isSome then rng.genRange side.2 5 7 else rng.genRange side.2 5 50
  let price :=
    if side.1 = 0 then UInt64.ofInt (max (s.midTicks - offset.1) 1)
    else UInt64.ofInt (s.midTicks + offset.1)
  let qty := rng.genRange offset.2 10 500
  let o : LiveOrder := ⟨s.nextOid, price, side.1⟩
  let live := s.liveOrders ++ [o]
  ({ s with
      rng := qty.2
      nextOid := s.nextOid + 1
      liveOrders := if live.length > 8192 then swapRemove live 0 else live },
    event now .orderAdd o (UInt64.ofNat qty.1))

def cancel (s : SyntheticSource G) (forcedSide : Option UInt8) (now : UInt64) :
    Option (SyntheticSource G × Event) := do
  let i ← pick rng s.liveOrders forcedSide (flashMode s.phase) s.rng
  let o ← s.liveOrders[i.1]?
  pure ({ s with rng := i.2, liveOrders := swapRemove s.liveOrders i.1 },
    event now .orderCancel o 0)

/-- A trade is against the other side and leaves the order live. -/
def trade (s : SyntheticSource G) (forcedSide : Option UInt8) (now : UInt64) :
    Option (SyntheticSource G × Event) := do
  let i ← pick rng s.liveOrders (forcedSide.map (1 - ·)) (flashMode s.phase) s.rng
  let o ← s.liveOrders[i.1]?
  let fill := if flashMode s.phase then rng.genRange i.2 35 140 else rng.genRange i.2 1 50
  pure ({ s with rng := fill.2 }, event now .trade o (UInt64.ofNat fill.1))

/-- `next` at a reading of the wall clock; `none` is a panic. -/
def next (s : SyntheticSource G) (now : UInt64) : Option (SyntheticSource G × Event) :=
  let s := s.schedule rng
  let m := mix s.phase
  let r := rng.genRange s.rng 0 99
  let s := { s with rng := r.2 }
  if r.1 < m.1 ∨ s.liveOrders = [] then some (s.add rng m.2.2 now)
  else if r.1 < m.2.1 then s.cancel rng m.2.2 now
  else s.trade rng m.2.2 now

/-- One event for every reading. -/
def run (s : SyntheticSource G) : List UInt64 → Option (SyntheticSource G × List Event)
  | [] => some (s, [])
  | now :: clock => do
    let t ← s.next rng now
    let rest ← run t.1 clock
    pure (rest.1, t.2 :: rest.2)

end SyntheticSource

end Flowlab.Engine
