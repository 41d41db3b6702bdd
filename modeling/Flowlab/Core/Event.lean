import Mathlib.Data.UInt
import Mathlib.Tactic

namespace Flowlab.Core

/-- The canonical 40-byte event shared by the Rust, C++ and Zig sides. -/
@[ext] structure Event where
  ts : UInt64
  price : UInt64
  qty : UInt64
  orderId : UInt64
  instrumentId : UInt32
  eventType : UInt8
  side : UInt8
  deriving DecidableEq, Repr

inductive EventType where
  | orderAdd
  | orderCancel
  | orderModify
  | trade
  | bookSnapshot
  deriving DecidableEq, Repr

def EventType.fromU8 (v : UInt8) : Option EventType :=
  match v with
  | 0x01 => some .orderAdd
  | 0x02 => some .orderCancel
  | 0x03 => some .orderModify
  | 0x04 => some .trade
  | 0x05 => some .bookSnapshot
  | _ => none

/-- `event_type as u8`. -/
def EventType.toU8 : EventType → UInt8
  | .orderAdd => 0x01
  | .orderCancel => 0x02
  | .orderModify => 0x03
  | .trade => 0x04
  | .bookSnapshot => 0x05

inductive Side where
  | bid
  | ask
  deriving DecidableEq, Repr

def Side.fromU8 (v : UInt8) : Option Side :=
  match v with
  | 0 => some .bid
  | 1 => some .ask
  | _ => none

/-- `side as u8`. -/
def Side.toU8 : Side → UInt8
  | .bid => 0
  | .ask => 1

/-- One aggregated price level; the sources pad it to 24 bytes with a field that stays 0. -/
@[ext] structure Level where
  price : UInt64
  totalQty : UInt64
  orderCount : UInt32
  deriving DecidableEq, Repr

/-- `Level::default()`: the content of every unused cell of the Rust grid. -/
instance : Inhabited Level := ⟨⟨0, 0, 0⟩⟩

/-- What is kept of a resting order: its price, remaining quantity and side byte. -/
@[ext] structure OrderMeta where
  price : UInt64
  qty : UInt64
  side : UInt8
  deriving DecidableEq, Repr

/-- `u64::saturating_sub`. -/
def satSub64 (a b : UInt64) : UInt64 := if b ≤ a then a - b else 0

/-- `u32::saturating_sub`. -/
def satSub32 (a b : UInt32) : UInt32 := if b ≤ a then a - b else 0

/-- The ladder order of one side: bids descend, asks ascend. -/
def ahead (isBid : Bool) (a b : UInt64) : Bool := if isBid then decide (a > b) else decide (a < b)

instance ahead_strict (isBid : Bool) :
    IsStrictTotalOrder UInt64 (fun a b => ahead isBid a b = true) where
  irrefl a := by cases isBid <;> simp [ahead]
  trans a b c h k := by
    cases isBid <;> simp only [ahead, if_true, Bool.false_eq_true, if_false, decide_eq_true_eq] at * <;>
      grind
  trichotomous a b h k := by
    cases isBid <;> simp only [ahead, if_true, Bool.false_eq_true, if_false, decide_eq_true_eq] at * <;>
      grind

/-- A sum of words is the sum of their values, modulo the word. -/
theorem toNat_sum (l : List UInt64) : l.sum.toNat = (l.map UInt64.toNat).sum % 2 ^ 64 := by
  induction l with
  | nil => rfl
  | cons x l ih =>
    rw [List.sum_cons, List.map_cons, List.sum_cons, UInt64.toNat_add, ih, Nat.add_mod_mod]

theorem satSub64_toNat (a b : UInt64) : (satSub64 a b).toNat = a.toNat - b.toNat := by
  simp only [satSub64]
  split_ifs with h
  · exact UInt64.toNat_sub_of_le a b h
  · have hlt : a.toNat < b.toNat := UInt64.lt_iff_toNat_lt.mp (UInt64.not_le.mp h)
    have hz : (0 : UInt64).toNat = 0 := rfl
    omega

theorem satSub32_toNat (a b : UInt32) : (satSub32 a b).toNat = a.toNat - b.toNat := by
  simp only [satSub32]
  split_ifs with h
  · exact UInt32.toNat_sub_of_le a b h
  · have hlt : a.toNat < b.toNat := UInt32.lt_iff_toNat_lt.mp (UInt32.not_le.mp h)
    have hz : (0 : UInt32).toNat = 0 := rfl
    omega

theorem toNat_succ {a : UInt64} (h : a.toNat < 2 ^ 64 - 1) : (a + 1).toNat = a.toNat + 1 := by
  rw [UInt64.toNat_add]
  exact Nat.mod_eq_of_lt (by change a.toNat + 1 < 2 ^ 64; omega)

/-- A fill never exceeds what rests. -/
theorem fill_le (q m : UInt64) : min q m ≤ m := by
  show (if q ≤ m then q else m) ≤ m
  split_ifs with h
  · exact h
  · exact UInt64.le_refl m

end Flowlab.Core
