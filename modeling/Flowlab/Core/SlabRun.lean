import Flowlab.Core.OrderSlab
import Flowlab.Framework.Machine

namespace Flowlab.Core

open Std Framework

/-- What the book does with its slab; `update` is a change made through `get_mut`. -/
inductive SlabOp where
  | insert (orderId : UInt64) (m : OrderMeta)
  | get (orderId : UInt64)
  | update (orderId : UInt64) (f : OrderMeta → OrderMeta)
  | remove (orderId : UInt64)

/-- One operation on the slab, with the record it hands back. -/
def OrderSlab.step (s : OrderSlab) : SlabOp → OrderSlab × Option OrderMeta
  | .insert orderId m => (s.insert orderId m, none)
  | .get orderId => (s, s.get orderId)
  | .update orderId f =>
    match s.get orderId with
    | some m => (s.setMeta orderId (f m), some m)
    | none => (s, none)
  | .remove orderId => s.remove orderId

/-- The same operation on a finite map from order id to record. -/
def SlabOp.onMap (t : ExtTreeMap UInt64 OrderMeta) :
    SlabOp → ExtTreeMap UInt64 OrderMeta × Option OrderMeta
  | .insert orderId m => (t.insert orderId m, none)
  | .get orderId => (t, t[orderId]?)
  | .update orderId f =>
    match t[orderId]? with
    | some m => (t.insert orderId (f m), some m)
    | none => (t, none)
  | .remove orderId => (t.erase orderId, t[orderId]?)

namespace OrderSlab

/-- The slots the index names, then those of the free list. -/
def slotList (s : OrderSlab) : List Nat :=
  s.index.toList.map (fun r => r.2.toNat) ++ s.freeList.map UInt32.toNat

theorem remove_snd {s : OrderSlab} (orderId : UInt64) : (s.remove orderId).2 = s.get orderId := by
  simp only [remove, get]
  cases s.index[orderId]? <;> rfl

theorem data_le_step (s : OrderSlab) (op : SlabOp) :
    s.data.length ≤ (s.step op).1.data.length := by
  cases op with
  | insert orderId m => exact data_le_insert s orderId m
  | get orderId => exact Nat.le_refl _
  | update orderId f =>
    simp only [step]
    cases s.get orderId with
    | none => exact Nat.le_refl _
    | some m => exact Nat.le_of_eq (data_setMeta s orderId (f m)).symm
  | remove orderId => exact Nat.le_of_eq (congrArg List.length (data_remove s orderId)).symm

/-- The slot number of a fresh order does not wrap when the slab still counts at most 2^32 slots
afterwards. -/
theorem room_of_data {s : OrderSlab} {orderId : UInt64} {m : OrderMeta}
    (h : (s.insert orderId m).data.length ≤ 2 ^ 32) : s.Room orderId := by
  intro hs hf
  simp only [insert, hs, hf, List.getLast?_nil, List.length_append, List.length_singleton] at h
  omega

/-- A sound slab and the map it shows. -/
def Refines (s : OrderSlab) (t : ExtTreeMap UInt64 OrderMeta) : Prop := s.Inv ∧ s.live = t

theorem step_refines {s : OrderSlab} {t : ExtTreeMap UInt64 OrderMeta} {op : SlabOp}
    (h : s.Refines t) (hok : (s.step op).1.data.length ≤ 2 ^ 32) :
    (s.step op).1.Refines (op.onMap t).1 ∧ (s.step op).2 = (op.onMap t).2 := by
  obtain ⟨hi, rfl⟩ := h
  cases op with
  | insert orderId m =>
    have hroom := room_of_data hok
    exact ⟨⟨inv_insert hi hroom m, live_insert hi hroom m⟩, rfl⟩
  | get orderId => exact ⟨⟨hi, rfl⟩, (live_get s orderId).symm⟩
  | update orderId f =>
    simp only [step, SlabOp.onMap, live_get]
    cases hm : s.get orderId with
    | none => exact ⟨⟨hi, rfl⟩, rfl⟩
    | some m => exact ⟨⟨inv_setMeta hi orderId (f m), live_setMeta hi hm (f m)⟩, rfl⟩
  | remove orderId =>
    refine ⟨⟨inv_remove hi orderId, live_remove s orderId⟩, ?_⟩
    exact (remove_snd orderId).trans (live_get s orderId).symm

theorem slotList_nodup {s : OrderSlab} (hi : s.Inv) : s.slotList.Nodup := by
  have hinj : Function.Injective UInt32.toNat := fun a b h => UInt32.toNat_inj.mp h
  have hmem {r : UInt64 × UInt32} (hr : r ∈ s.index.toList) : s.index[r.1]? = some r.2 :=
    ExtTreeMap.mem_toList_iff_getElem?_eq_some.mp hr
  refine List.nodup_append.mpr ⟨?_, hi.free_nodup.map hinj, ?_⟩
  · refine (List.nodup_map_iff_inj_on (FiniteMap.nodup_toList s.index)).mpr ?_
    intro r hr q hq he
    have hslot : r.2 = q.2 := hinj he
    have hkey := hi.slot_inj r.1 q.1 r.2 (hmem hr) (hslot ▸ hmem hq)
    exact Prod.ext hkey hslot
  · intro a ha b hb he
    obtain ⟨r, hr, rfl⟩ := List.mem_map.mp ha
    obtain ⟨slot, hslot, rfl⟩ := List.mem_map.mp hb
    have hsame : r.2 = slot := hinj he
    exact hi.free_unused r.1 r.2 (hmem hr) (hsame ▸ hslot)

/-- The index and the free list share out the slots: each slot is named exactly once. -/
theorem slotList_perm {s : OrderSlab} (hi : s.Inv) :
    s.slotList.Perm (List.range s.data.length) := by
  have hsub : s.slotList ⊆ List.range s.data.length := by
    intro a ha
    rw [List.mem_range]
    rcases List.mem_append.mp ha with ha | ha
    · obtain ⟨r, hr, rfl⟩ := List.mem_map.mp ha
      exact hi.slot_lt r.1 r.2 (ExtTreeMap.mem_toList_iff_getElem?_eq_some.mp hr)
    · obtain ⟨slot, hslot, rfl⟩ := List.mem_map.mp ha
      exact hi.free_lt slot hslot
  have hlen : s.slotList.length = (List.range s.data.length).length := by
    simp only [slotList, List.length_append, List.length_map, ExtTreeMap.length_toList,
      List.length_range]
    exact hi.slots
  exact (List.subperm_of_subset (slotList_nodup hi) hsub).perm_of_length_le (Nat.le_of_eq hlen.symm)

end OrderSlab

/-- Any sequence of operations on an empty slab, as long as it takes no more than 2^32 slots: the
index and the free list share out the slots, no two ids have the same one, every slot the accessors
read exists, and every operation answers and acts as on a finite map. -/
theorem orderSlab_is_map (ops : List SlabOp)
    (h : (Machine.run OrderSlab.step .empty ops).1.data.length ≤ 2 ^ 32) :
    let s := (Machine.run OrderSlab.step .empty ops).1
    let t := (Machine.run SlabOp.onMap ∅ ops).1
    (∀ (k : UInt64) (slot : UInt32), s.index[k]? = some slot → slot.toNat < s.data.length) ∧
    (∀ (j k : UInt64) (slot : UInt32),
      s.index[j]? = some slot → s.index[k]? = some slot → j = k) ∧
    s.freeList.Nodup ∧ s.slotList.Perm (List.range s.data.length) ∧
    (∀ k : UInt64, s.get k = t[k]?) ∧
    (Machine.run OrderSlab.step .empty ops).2 = (Machine.run SlabOp.onMap ∅ ops).2 := by
  have hempty : OrderSlab.empty.Refines ∅ := by
    refine ⟨OrderSlab.inv_empty, ?_⟩
    apply ExtTreeMap.ext_getElem?
    intro k
    simp [OrderSlab.live_get, OrderSlab.get, OrderSlab.empty]
  obtain ⟨⟨hi, hlive⟩, hout⟩ := Machine.run_simulates
    (fun s : OrderSlab => s.data.length ≤ 2 ^ 32)
    (fun s op hs => (OrderSlab.data_le_step s op).trans hs)
    (fun s t op => OrderSlab.step_refines) OrderSlab.empty ∅ ops hempty h
  refine ⟨hi.slot_lt, hi.slot_inj, hi.free_nodup, OrderSlab.slotList_perm hi, ?_, hout⟩
  intro k
  rw [← hlive, OrderSlab.live_get]

/-- A slot released by one order and taken by the next. -/
theorem orderSlab_is_map_reuse :
    (Machine.run OrderSlab.step .empty [.insert 7 ⟨10, 5, 0⟩, .remove 7, .insert 8 ⟨11, 6, 1⟩,
      .update 8 (fun m => { m with qty := 2 }), .get 8]).2 =
    [none, some ⟨10, 5, 0⟩, none, some ⟨11, 6, 1⟩, some ⟨11, 2, 1⟩] :=
  ((orderSlab_is_map [.insert 7 ⟨10, 5, 0⟩, .remove 7, .insert 8 ⟨11, 6, 1⟩,
      .update 8 (fun m => { m with qty := 2 }), .get 8] (by decide)).2.2.2.2.2).trans (by decide)

end Flowlab.Core
