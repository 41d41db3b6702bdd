import Flowlab.Core.Event
import Flowlab.Framework.FiniteMap

namespace Flowlab.Core

open Std Framework

/-- Dense order storage: `data` is the slab, `freeList` a stack of released slots (top last),
`index` the hash map from order id to slot. Only lookups and the key-sorted listing of the hash
map are ever observed, so an extensional map stands for it. -/
@[ext] structure OrderSlab where
  data : List OrderMeta
  freeList : List UInt32
  index : ExtTreeMap UInt64 UInt32

namespace OrderSlab

def empty : OrderSlab := ⟨[], [], ∅⟩

/-- A fresh slot number is `data.len() as u32`: it wraps once the slab holds 2^32 slots. -/
def insert (s : OrderSlab) (orderId : UInt64) (m : OrderMeta) : OrderSlab :=
  match s.index[orderId]? with
  | some slot => { s with data := s.data.set slot.toNat m }
  | none =>
    match s.freeList.getLast? with
    | some slot =>
      { data := s.data.set slot.toNat m
        freeList := s.freeList.dropLast
        index := s.index.insert orderId slot }
    | none =>
      { data := s.data ++ [m]
        freeList := s.freeList
        index := s.index.insert orderId (UInt32.ofNat s.data.length) }

def get (s : OrderSlab) (orderId : UInt64) : Option OrderMeta :=
  match s.index[orderId]? with
  | some slot => s.data[slot.toNat]?
  | none => none

/-- A write through `get_mut`. -/
def setMeta (s : OrderSlab) (orderId : UInt64) (m : OrderMeta) : OrderSlab :=
  match s.index[orderId]? with
  | some slot => { s with data := s.data.set slot.toNat m }
  | none => s

def remove (s : OrderSlab) (orderId : UInt64) : OrderSlab × Option OrderMeta :=
  match s.index[orderId]? with
  | some slot =>
    ({ s with index := s.index.erase orderId, freeList := s.freeList ++ [slot] },
      s.data[slot.toNat]?)
  | none => (s, none)

/-- The live orders as one map. -/
def live (s : OrderSlab) : ExtTreeMap UInt64 OrderMeta :=
  s.index.filterMap (fun _ slot => s.data[slot.toNat]?)

/-- Every slot named by the index or the free list exists, none is named twice, and together
they are all the slots there are. -/
structure Inv (s : OrderSlab) : Prop where
  slot_lt : ∀ (k : UInt64) (slot : UInt32), s.index[k]? = some slot → slot.toNat < s.data.length
  slot_inj : ∀ (j k : UInt64) (slot : UInt32), s.index[j]? = some slot → s.index[k]? = some slot → j = k
  free_lt : ∀ slot ∈ s.freeList, slot.toNat < s.data.length
  free_nodup : s.freeList.Nodup
  free_unused : ∀ (k : UInt64) (slot : UInt32), s.index[k]? = some slot → slot ∉ s.freeList
  slots : s.index.size + s.freeList.length = s.data.length

theorem live_get (s : OrderSlab) (k : UInt64) : s.live[k]? = s.get k := by
  simp only [live, get]
  rw [ExtTreeMap.getElem?_filterMap]
  cases h : s.index[k]? <;> simp

/-- A new id needs a released slot or a slot number below 2^32. -/
def Room (s : OrderSlab) (orderId : UInt64) : Prop :=
  s.index[orderId]? = none → s.freeList = [] → s.data.length < 2 ^ 32

theorem inv_empty : empty.Inv where
  slot_lt k slot h := by simp [empty] at h
  slot_inj j k slot h := by simp [empty] at h
  free_lt slot h := by simp [empty] at h
  free_nodup := by simp [empty]
  free_unused k slot h := by simp [empty] at h
  slots := by simp [empty]

theorem get_of_index {s : OrderSlab} (hi : s.Inv) {k : UInt64} {slot : UInt32}
    (h : s.index[k]? = some slot) : ∃ m, s.get k = some m ∧ s.data[slot.toNat]? = some m := by
  have hlt := hi.slot_lt k slot h
  exact ⟨s.data[slot.toNat], by simp [get, h, hlt], by simp [hlt]⟩

theorem get_eq_none {s : OrderSlab} (hi : s.Inv) (k : UInt64) :
    s.get k = none ↔ s.index[k]? = none := by
  constructor
  · intro hg
    cases h : s.index[k]? with
    | none => rfl
    | some slot =>
      obtain ⟨m, hm, _⟩ := get_of_index hi h
      rw [hm] at hg
      exact absurd hg (by simp)
  · intro h
    simp [get, h]

/-- Rewriting the slot of one live order is invisible to every other. -/
theorem get_set_slot {s : OrderSlab} (hi : s.Inv) {orderId : UInt64} {slot : UInt32}
    (h : s.index[orderId]? = some slot) (m : OrderMeta) (k : UInt64) :
    ({ s with data := s.data.set slot.toNat m } : OrderSlab).get k =
      if k = orderId then some m else s.get k := by
  have hlt := hi.slot_lt orderId slot h
  by_cases hk : k = orderId
  · subst hk
    simp [get, h, hlt]
  · rw [if_neg hk]
    simp only [get]
    cases hs : s.index[k]? with
    | none => simp
    | some slot' =>
      have hne : slot.toNat ≠ slot'.toNat := by
        intro he
        have he' : slot = slot' := UInt32.toNat_inj.mp he
        subst he'
        exact hk (hi.slot_inj k orderId slot hs h)
      simp [hne]

theorem inv_set_slot {s : OrderSlab} (hi : s.Inv) (i : Nat) (m : OrderMeta) :
    ({ s with data := s.data.set i m } : OrderSlab).Inv where
  slot_lt k slot h := by simpa using hi.slot_lt k slot h
  slot_inj := hi.slot_inj
  free_lt slot h := by simpa using hi.free_lt slot h
  free_nodup := hi.free_nodup
  free_unused := hi.free_unused
  slots := by simpa using hi.slots

theorem get_setMeta {s : OrderSlab} (hi : s.Inv) {orderId : UInt64} {m₀ : OrderMeta}
    (h : s.get orderId = some m₀) (m : OrderMeta) (k : UInt64) :
    (s.setMeta orderId m).get k = if k = orderId then some m else s.get k := by
  cases hs : s.index[orderId]? with
  | none => simp [get, hs] at h
  | some slot =>
    simp only [setMeta, hs]
    exact get_set_slot hi hs m k

theorem inv_setMeta {s : OrderSlab} (hi : s.Inv) (orderId : UInt64) (m : OrderMeta) :
    (s.setMeta orderId m).Inv := by
  simp only [setMeta]
  split
  · exact inv_set_slot hi _ m
  · exact hi

theorem get_remove {s : OrderSlab} (orderId k : UInt64) :
    (s.remove orderId).1.get k = if k = orderId then none else s.get k := by
  simp only [remove]
  cases hs : s.index[orderId]? with
  | none =>
    by_cases hk : k = orderId
    · simp [hk, get, hs]
    · simp [hk]
  | some slot =>
    simp only [get, FiniteMap.get_erase]
    by_cases hk : k = orderId <;> simp [hk]

theorem inv_remove {s : OrderSlab} (hi : s.Inv) (orderId : UInt64) : (s.remove orderId).1.Inv := by
  simp only [remove]
  cases hs : s.index[orderId]? with
  | none => exact hi
  | some slot =>
    have old (k : UInt64) (t : UInt32) (h : (s.index.erase orderId)[k]? = some t) :
        k ≠ orderId ∧ s.index[k]? = some t := by
      rw [FiniteMap.get_erase] at h
      split_ifs at h with hk
      exact ⟨hk, h⟩
    constructor
    case slot_lt =>
      intro k t h
      exact hi.slot_lt k t (old k t h).2
    case slot_inj =>
      intro j k t hj hk
      exact hi.slot_inj j k t (old j t hj).2 (old k t hk).2
    case free_lt =>
      intro t ht
      rcases List.mem_append.mp ht with ht | ht
      · exact hi.free_lt t ht
      · rw [List.mem_singleton.mp ht]; exact hi.slot_lt orderId slot hs
    case free_nodup =>
      refine List.nodup_append.mpr ⟨hi.free_nodup, by simp, ?_⟩
      intro a ha b hb he
      rw [he, List.mem_singleton.mp hb] at ha
      exact hi.free_unused orderId slot hs ha
    case free_unused =>
      intro k t h ht
      rcases List.mem_append.mp ht with ht | ht
      · exact hi.free_unused k t (old k t h).2 ht
      · rw [List.mem_singleton.mp ht] at h
        exact (old k slot h).1 (hi.slot_inj k orderId slot (old k slot h).2 hs)
    case slots =>
      have hsz := FiniteMap.size_erase_bound s.index orderId slot hs
      have hsl := hi.slots
      simp only [List.length_append, List.length_singleton]
      omega

/-- `insert` binds one id and disturbs no other, as long as the slot number does not wrap. -/
theorem get_insert {s : OrderSlab} (hi : s.Inv) {orderId : UInt64} (hroom : s.Room orderId)
    (m : OrderMeta) (k : UInt64) :
    (s.insert orderId m).get k = if k = orderId then some m else s.get k := by
  simp only [insert]
  cases hs : s.index[orderId]? with
  | some slot => exact get_set_slot hi hs m k
  | none =>
    cases hf : s.freeList.getLast? with
    | some slot =>
      have hmem : slot ∈ s.freeList := List.mem_of_getLast? hf
      have hlt := hi.free_lt slot hmem
      simp only [get, FiniteMap.get_insert]
      by_cases hk : k = orderId
      · simp [hk, hlt]
      · simp only [hk, if_false]
        cases hsk : s.index[k]? with
        | none => rfl
        | some slot' =>
          have hne : slot.toNat ≠ slot'.toNat := by
            intro he
            have he' : slot = slot' := UInt32.toNat_inj.mp he
            subst he'
            exact hi.free_unused k slot hsk hmem
          simp [hne]
    | none =>
      have hnil : s.freeList = [] := List.getLast?_eq_none_iff.mp hf
      have hlt := hroom hs hnil
      have hn : (UInt32.ofNat s.data.length).toNat = s.data.length :=
        UInt32.toNat_ofNat_of_lt' hlt
      simp only [get, FiniteMap.get_insert]
      by_cases hk : k = orderId
      · simp [hk, hn]
      · simp only [hk, if_false]
        cases hsk : s.index[k]? with
        | none => rfl
        | some slot' =>
          have hlt' := hi.slot_lt k slot' hsk
          simp [List.getElem?_append_left hlt']

/-- Binding a new id to a slot nobody uses keeps the slab consistent. -/
theorem inv_bind {s : OrderSlab} (hi : s.Inv) {orderId : UInt64} (hs : s.index[orderId]? = none)
    {data : List OrderMeta} {free : List UInt32} {slot : UInt32}
    (hlen : s.data.length ≤ data.length) (hslot : slot.toNat < data.length)
    (hunused : ∀ k : UInt64, s.index[k]? ≠ some slot) (hsub : ∀ t ∈ free, t ∈ s.freeList)
    (hnd : free.Nodup) (hout : slot ∉ free)
    (hcount : s.index.size + 1 + free.length = data.length) :
    (⟨data, free, s.index.insert orderId slot⟩ : OrderSlab).Inv := by
  have old (k : UInt64) (t : UInt32) (h : (s.index.insert orderId slot)[k]? = some t) :
      (k = orderId ∧ slot = t) ∨ s.index[k]? = some t := by
    rw [FiniteMap.get_insert] at h
    split_ifs at h with hk
    · exact Or.inl ⟨hk, by simpa using h⟩
    · exact Or.inr h
  refine ⟨?_, ?_, ?_, hnd, ?_, ?_⟩
  · intro k t h
    rcases old k t h with ⟨_, rfl⟩ | h
    · exact hslot
    · exact (hi.slot_lt k t h).trans_le hlen
  · intro j k t hj hk
    rcases old j t hj with ⟨hjo, rfl⟩ | hj
    · rcases old k slot hk with ⟨hko, _⟩ | hk
      · rw [hjo, hko]
      · exact absurd hk (hunused k)
    · rcases old k t hk with ⟨_, rfl⟩ | hk
      · exact absurd hj (hunused j)
      · exact hi.slot_inj j k t hj hk
  · intro t ht
    exact (hi.free_lt t (hsub t ht)).trans_le hlen
  · intro k t h ht
    rcases old k t h with ⟨_, rfl⟩ | h
    · exact hout ht
    · exact hi.free_unused k t h (hsub t ht)
  · rw [FiniteMap.size_insert_new s.index orderId slot hs]
    exact hcount

theorem inv_insert {s : OrderSlab} (hi : s.Inv) {orderId : UInt64} (hroom : s.Room orderId)
    (m : OrderMeta) : (s.insert orderId m).Inv := by
  simp only [insert]
  have hsl := hi.slots
  cases hs : s.index[orderId]? with
  | some slot => exact inv_set_slot hi _ m
  | none =>
    cases hf : s.freeList.getLast? with
    | some slot =>
      have hsplit : s.freeList = s.freeList.dropLast ++ [slot] :=
        (List.dropLast_append_getLast? slot hf).symm
      have hmem : slot ∈ s.freeList := List.mem_of_getLast? hf
      have hnd := hi.free_nodup
      rw [hsplit] at hnd
      have hlen : s.freeList.length = s.freeList.dropLast.length + 1 := by
        conv_lhs => rw [hsplit]
        simp
      refine inv_bind hi hs ?_ ?_ ?_ ?_ ?_ ?_ ?_
      · simp
      · simpa using hi.free_lt slot hmem
      · intro k hk
        exact hi.free_unused k slot hk hmem
      · intro t ht
        exact List.dropLast_subset _ ht
      · exact (List.nodup_append.mp hnd).1
      · intro hin
        exact (List.nodup_append.mp hnd).2.2 slot hin slot (by simp) rfl
      · rw [List.length_set]
        omega
    | none =>
      have hnil : s.freeList = [] := List.getLast?_eq_none_iff.mp hf
      have hn : (UInt32.ofNat s.data.length).toNat = s.data.length :=
        UInt32.toNat_ofNat_of_lt' (hroom hs hnil)
      refine inv_bind hi hs ?_ ?_ ?_ ?_ ?_ ?_ ?_
      · simp
      · simp [hn]
      · intro k hk
        have := hi.slot_lt k _ hk
        omega
      · intro t ht
        exact ht
      · exact hi.free_nodup
      · simp [hnil]
      · rw [List.length_append, List.length_singleton]
        omega

theorem live_insert {s : OrderSlab} (hi : s.Inv) {orderId : UInt64} (hroom : s.Room orderId)
    (m : OrderMeta) : (s.insert orderId m).live = s.live.insert orderId m := by
  apply ExtTreeMap.ext_getElem?
  intro k
  rw [live_get, get_insert hi hroom, FiniteMap.get_insert, live_get]

theorem live_setMeta {s : OrderSlab} (hi : s.Inv) {orderId : UInt64} {m₀ : OrderMeta}
    (h : s.get orderId = some m₀) (m : OrderMeta) :
    (s.setMeta orderId m).live = s.live.insert orderId m := by
  apply ExtTreeMap.ext_getElem?
  intro k
  rw [live_get, get_setMeta hi h, FiniteMap.get_insert, live_get]

theorem live_remove (s : OrderSlab) (orderId : UInt64) :
    (s.remove orderId).1.live = s.live.erase orderId := by
  apply ExtTreeMap.ext_getElem?
  intro k
  rw [live_get, get_remove, FiniteMap.get_erase, live_get]

theorem live_size {s : OrderSlab} (hi : s.Inv) : s.live.size = s.index.size := by
  apply FiniteMap.size_eq_of_dom
  intro k
  rw [live_get, get_eq_none hi]

/-- An insert counts the same ids in the index as in the map it shows. -/
theorem size_insert {s : OrderSlab} (hi : s.Inv) (orderId : UInt64) (m : OrderMeta) :
    (s.live.insert orderId m).size = (s.insert orderId m).index.size := by
  have hlive := live_size hi
  simp only [insert]
  cases hs : s.index[orderId]? with
  | some slot =>
    obtain ⟨m₀, hm₀, _⟩ := get_of_index hi hs
    rw [← live_get] at hm₀
    rw [FiniteMap.size_insert_bound _ _ _ hm₀, hlive]
  | none =>
    have hn : s.live[orderId]? = none := by rw [live_get, get_eq_none hi, hs]
    rw [FiniteMap.size_insert_new _ _ _ hn, hlive]
    cases s.freeList.getLast? with
    | none => rw [FiniteMap.size_insert_new _ _ _ hs]
    | some slot => rw [FiniteMap.size_insert_new _ _ _ hs]

/-- While at most 2^32 orders are live, the next slot number does not wrap. -/
theorem room_of_size {s : OrderSlab} (hi : s.Inv) {orderId : UInt64} {m : OrderMeta}
    (h : (s.live.insert orderId m).size ≤ 2 ^ 32) : s.Room orderId := by
  intro hs hf
  have hn : s.live[orderId]? = none := by rw [live_get, get_eq_none hi, hs]
  rw [FiniteMap.size_insert_new s.live orderId m hn, live_size hi] at h
  have hsl := hi.slots
  rw [hf, List.length_nil] at hsl
  omega

/-! The slab never shrinks. -/

theorem data_le_insert (s : OrderSlab) (orderId : UInt64) (m : OrderMeta) :
    s.data.length ≤ (s.insert orderId m).data.length := by
  simp only [insert]
  cases s.index[orderId]? with
  | some slot => simp
  | none => cases s.freeList.getLast? <;> simp

theorem data_setMeta (s : OrderSlab) (orderId : UInt64) (m : OrderMeta) :
    (s.setMeta orderId m).data.length = s.data.length := by
  simp only [setMeta]
  split <;> simp

theorem data_remove (s : OrderSlab) (orderId : UInt64) :
    (s.remove orderId).1.data = s.data := by
  simp only [remove]
  split <;> rfl

end OrderSlab

end Flowlab.Core
