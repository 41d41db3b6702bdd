import Flowlab.Chaos.PhantomLiquidity

namespace Flowlab.Chaos

open Flowlab.Core (EventType SequencedEvent satSub64)

/-- `a - b`, which panics on underflow. -/
def checkedSub64 (a b : UInt64) : Option UInt64 := if b ≤ a then some (a - b) else none

/-- `a * b`, which panics on overflow. -/
def checkedMul64 (a b : UInt64) : Option UInt64 :=
  if a.toNat * b.toNat < 2 ^ 64 then some (a * b) else none

theorem checkedSub64_of_le {a b : UInt64} (h : b ≤ a) : checkedSub64 a b = some (a - b) := if_pos h

/-- `f64::min`: a number wins over a NaN. -/
def minF64 (x y : Float) : Float :=
  if x.isNaN then y else if y.isNaN then x else if y < x then y else x

structure LargeOrder where
  seq : UInt64
  ts : UInt64
  orderId : UInt64
  qty : UInt64
  deriving DecidableEq, Repr

/-- The detector of `detection.rs` for large orders placed and pulled. -/
structure SpoofDetector where
  largeOrders : List LargeOrder
  largeQtyThreshold : UInt64
  cancelWindow : UInt64
  deriving DecidableEq

namespace SpoofDetector

def new (largeQtyThreshold cancelWindow : UInt64) : SpoofDetector :=
  ⟨[], largeQtyThreshold, cancelWindow⟩

/-- `Vec::retain` with a closure that may panic. -/
def retain (f : LargeOrder → Option Bool) : List LargeOrder → Option (List LargeOrder)
  | [] => some []
  | o :: l => do
    let keep ← f o
    let rest ← retain f l
    pure (if keep then o :: rest else rest)

/-- What the pruning keeps. -/
def recent (cancelWindow seq : UInt64) (o : LargeOrder) : Option Bool := do
  let age ← checkedSub64 seq o.seq
  let bound ← checkedMul64 cancelWindow 2
  pure (decide (age < bound))

def prune (d : SpoofDetector) (seq : UInt64) : Option SpoofDetector := do
  let kept ← retain (recent d.cancelWindow seq) d.largeOrders
  pure { d with largeOrders := kept }

/-- In place of the pruning, nothing. -/
def keepAll (d : SpoofDetector) (_ : UInt64) : Option SpoofDetector := some d

def buildFlag (d : SpoofDetector) (o : LargeOrder) (ev : SequencedEvent) : ChaosEvent :=
  { kind := .spoof
    startSeq := o.seq
    endSeq := ev.seq
    startTsNs := o.ts
    endTsNs := ev.event.ts
    severity := minF64 (o.qty.toFloat / d.largeQtyThreshold.toFloat / 5.0) 1.0
    initiator := some ev.event.orderId
    features :=
      { eventCount := 2
        durationNs := satSub64 ev.event.ts o.ts
        cancelTradeRatio := 0.0
        priceDisplacement := 0
        depthRemoved := o.qty } }

/-- A cancel takes the order it names out, and flags it when it is young. -/
def onCancel (d : SpoofDetector) (ev : SequencedEvent) : Option (SpoofDetector × Option ChaosEvent) :=
  match d.largeOrders.find? (·.orderId = ev.event.orderId) with
  | none => some (d, none)
  | some o => do
    let d := { d with largeOrders := d.largeOrders.eraseP (·.orderId = ev.event.orderId) }
    let age ← checkedSub64 ev.seq o.seq
    pure (d, if age ≤ d.cancelWindow then some (d.buildFlag o ev) else none)

/-- One event, with what a large add does to the older orders left open; `none` is a panic. -/
def processWith (prune : SpoofDetector → UInt64 → Option SpoofDetector) (d : SpoofDetector)
    (ev : SequencedEvent) : Option (SpoofDetector × Option ChaosEvent) :=
  match EventType.fromU8 ev.event.eventType with
  | none => some (d, none)
  | some .orderAdd =>
    if d.largeQtyThreshold ≤ ev.event.qty then do
      let d ← prune { d with
        largeOrders := d.largeOrders ++ [⟨ev.seq, ev.event.ts, ev.event.orderId, ev.event.qty⟩] } ev.seq
      pure (d, none)
    else some (d, none)
  | some .orderCancel => d.onCancel ev
  | some _ => some (d, none)

def process : SpoofDetector → SequencedEvent → Option (SpoofDetector × Option ChaosEvent) :=
  processWith prune

/-- The same detector without its pruning. -/
def processUnpruned : SpoofDetector → SequencedEvent → Option (SpoofDetector × Option ChaosEvent) :=
  processWith keepAll

/-- A run, with what every event returns. -/
def run (step : SpoofDetector → SequencedEvent → Option (SpoofDetector × Option ChaosEvent)) :
    SpoofDetector → List SequencedEvent → Option (SpoofDetector × List (Option ChaosEvent))
  | d, [] => some (d, [])
  | d, ev :: evs => do
    let r ← step d ev
    let rest ← run step r.1 evs
    pure (rest.1, r.2 :: rest.2)

end SpoofDetector

/-- The ids of the adds of a stream. -/
def addedIds (evs : List SequencedEvent) : List UInt64 :=
  (evs.filter fun ev => EventType.fromU8 ev.event.eventType = some .orderAdd).map (·.event.orderId)

namespace SpoofDetector

/-! Lists of orders by their ids. -/

theorem find_of_mem {l : List LargeOrder} (hn : (l.map LargeOrder.orderId).Nodup) {o : LargeOrder}
    (h : o ∈ l) : l.find? (·.orderId = o.orderId) = some o := by
  cases hf : l.find? (·.orderId = o.orderId) with
  | none => exact absurd (List.find?_eq_none.mp hf o h) (by simp)
  | some o' =>
    have hid : o'.orderId = o.orderId := by simpa using List.find?_some hf
    rw [List.inj_on_of_nodup_map hn (List.mem_of_find?_eq_some hf) h hid]

theorem eraseP_eq_filter {l : List LargeOrder} (hn : (l.map LargeOrder.orderId).Nodup) (i : UInt64) :
    l.eraseP (·.orderId = i) = l.filter (·.orderId ≠ i) := by
  induction l with
  | nil => rfl
  | cons o l ih =>
    obtain ⟨ho, hl⟩ := List.nodup_cons.mp hn
    by_cases hid : o.orderId = i
    · have hrest : l.filter (·.orderId ≠ i) = l := by
        refine List.filter_eq_self.mpr fun o' ho' => ?_
        have hne : o'.orderId ≠ i := fun h => ho (hid ▸ h ▸ List.mem_map_of_mem ho')
        simpa using hne
      rw [List.eraseP_cons_of_pos (by simp [hid]), List.filter_cons_of_neg (by simp [hid]), hrest]
    · rw [List.eraseP_cons_of_neg (by simp [hid]), List.filter_cons_of_pos (by simp [hid]), ih hl]

theorem retain_of_some {l : List LargeOrder} {f : LargeOrder → Option Bool} {g : LargeOrder → Bool}
    (h : ∀ o ∈ l, f o = some (g o)) : retain f l = some (l.filter g) := by
  induction l with
  | nil => rfl
  | cons o l ih =>
    have hl := ih fun o' ho' => h o' (List.mem_cons_of_mem o ho')
    simp only [retain, h o (by simp), hl, Option.bind_eq_bind, Option.bind_some, Option.pure_def,
      List.filter_cons]

/-- While `2 * w` fits and no order is from later, the pruning keeps what is younger than that. -/
theorem prune_eq {d : SpoofDetector} {seq : UInt64} (hw : d.cancelWindow.toNat < 2 ^ 63)
    (hseq : ∀ o ∈ d.largeOrders, o.seq ≤ seq) :
    d.prune seq = some { d with
      largeOrders := d.largeOrders.filter
        (fun o => decide (seq.toNat < o.seq.toNat + 2 * d.cancelWindow.toNat)) } := by
  have htwo : (2 : UInt64).toNat = 2 := rfl
  have hbound : checkedMul64 d.cancelWindow 2 = some (d.cancelWindow * 2) :=
    if_pos (by rw [htwo]; omega)
  have hrecent : ∀ o ∈ d.largeOrders, recent d.cancelWindow seq o =
      some (decide (seq.toNat < o.seq.toNat + 2 * d.cancelWindow.toNat)) := by
    intro o ho
    have hle := UInt64.le_iff_toNat_le.mp (hseq o ho)
    have hage : seq - o.seq < d.cancelWindow * 2 ↔
        seq.toNat < o.seq.toNat + 2 * d.cancelWindow.toNat := by
      rw [UInt64.lt_iff_toNat_lt, UInt64.toNat_sub_of_le _ _ (hseq o ho), UInt64.toNat_mul,
        htwo, Nat.mod_eq_of_lt (by omega)]
      omega
    simp only [recent, checkedSub64_of_le (hseq o ho), hbound, Option.bind_eq_bind,
      Option.bind_some, Option.pure_def, decide_eq_decide.mpr hage]
  rw [prune, retain_of_some hrecent]
  rfl

/-- What the pruned detector `d` has in common with the unpruned `k` after sequence number `c`: it
misses orders only, and only such as are out of the window twice over. -/
structure Pruned (c : UInt64) (d k : SpoofDetector) : Prop where
  threshold : d.largeQtyThreshold = k.largeQtyThreshold
  window : d.cancelWindow = k.cancelWindow
  sub : d.largeOrders.Sublist k.largeOrders
  gone : ∀ o ∈ k.largeOrders, o ∉ d.largeOrders →
    o.seq.toNat + 2 * k.cancelWindow.toNat ≤ c.toNat
  past : ∀ o ∈ k.largeOrders, o.seq ≤ c
  unique : (k.largeOrders.map LargeOrder.orderId).Nodup

theorem Pruned.later {c c' : UInt64} {d k : SpoofDetector} (h : Pruned c d k) (hc : c ≤ c') :
    Pruned c' d k where
  threshold := h.threshold
  window := h.window
  sub := h.sub
  gone o ho hd := (h.gone o ho hd).trans (UInt64.le_iff_toNat_le.mp hc)
  past o ho := UInt64.le_trans (h.past o ho) hc
  unique := h.unique

/-- A large add is pushed by both and prunes one. -/
theorem Pruned.add {c : UInt64} {d k : SpoofDetector} (h : Pruned c d k)
    (hw : k.cancelWindow.toNat < 2 ^ 63) {o : LargeOrder} (hc : c ≤ o.seq)
    (hfresh : o.orderId ∉ k.largeOrders.map LargeOrder.orderId) :
    ∃ d', prune { d with largeOrders := d.largeOrders ++ [o] } o.seq = some d' ∧
      Pruned o.seq d' { k with largeOrders := k.largeOrders ++ [o] } := by
  have hpast : ∀ o' ∈ k.largeOrders ++ [o], o'.seq ≤ o.seq := by
    intro o' ho'
    rcases List.mem_append.mp ho' with ho' | ho'
    · exact UInt64.le_trans (h.past o' ho') hc
    · rw [List.mem_singleton.mp ho']
      exact UInt64.le_refl _
  have hsub : (d.largeOrders ++ [o]).Sublist (k.largeOrders ++ [o]) := h.sub.append_right [o]
  refine ⟨_, prune_eq (by rw [h.window]; exact hw) fun o' ho' => hpast o' (hsub.mem ho'), ?_⟩
  refine ⟨h.threshold, h.window, List.filter_sublist.trans hsub, ?_, hpast, ?_⟩
  · intro o' ho' hd
    by_cases hmem : o' ∈ d.largeOrders ++ [o]
    · have hold : ¬ o.seq.toNat < o'.seq.toNat + 2 * d.cancelWindow.toNat := by
        intro hlt
        exact hd (List.mem_filter.mpr ⟨hmem, by simpa using hlt⟩)
      rw [h.window] at hold
      exact Nat.not_lt.mp hold
    · have hk : o' ∈ k.largeOrders := by
        rcases List.mem_append.mp ho' with hk | hk
        · exact hk
        · exact absurd (List.mem_append_right _ hk) hmem
      exact (h.gone o' hk fun hin => hmem (List.mem_append_left _ hin)).trans
        (UInt64.le_iff_toNat_le.mp hc)
  · rw [List.map_append, List.map_singleton, List.nodup_append]
    refine ⟨h.unique, List.nodup_singleton _, ?_⟩
    intro i hi j hj
    rw [List.mem_singleton.mp hj]
    exact fun hij => hfresh (hij ▸ hi)

/-- A cancel flags the same order in both, or an order that is too old in neither. -/
theorem Pruned.cancel {c : UInt64} {d k : SpoofDetector} (h : Pruned c d k)
    (hw : 1 ≤ k.cancelWindow.toNat) {ev : SequencedEvent} (hc : c ≤ ev.seq) :
    ∃ d' k' f, d.onCancel ev = some (d', f) ∧ k.onCancel ev = some (k', f) ∧ Pruned ev.seq d' k' ∧
      k'.cancelWindow = k.cancelWindow ∧ k'.largeOrders.Sublist k.largeOrders := by
  have hlater := h.later hc
  have hdunique : (d.largeOrders.map LargeOrder.orderId).Nodup := h.unique.sublist (h.sub.map _)
  have hrest : Pruned ev.seq
      { d with largeOrders := d.largeOrders.eraseP (·.orderId = ev.event.orderId) }
      { k with largeOrders := k.largeOrders.eraseP (·.orderId = ev.event.orderId) } := by
    rw [eraseP_eq_filter hdunique, eraseP_eq_filter h.unique]
    refine ⟨h.threshold, h.window, h.sub.filter _, ?_, ?_, ?_⟩
    · intro o ho hd
      obtain ⟨hk, hid⟩ := List.mem_filter.mp ho
      exact hlater.gone o hk fun hin => hd (List.mem_filter.mpr ⟨hin, hid⟩)
    · intro o ho
      exact hlater.past o (List.mem_of_mem_filter ho)
    · exact h.unique.sublist (List.filter_sublist.map _)
  cases hk : k.largeOrders.find? (·.orderId = ev.event.orderId) with
  | none =>
    have hd : d.largeOrders.find? (·.orderId = ev.event.orderId) = none := by
      rw [List.find?_eq_none] at hk ⊢
      exact fun o ho => hk o (h.sub.mem ho)
    simp only [onCancel, hk, hd]
    exact ⟨d, k, none, rfl, rfl, hlater, rfl, List.Sublist.refl _⟩
  | some o =>
    have hmem := List.mem_of_find?_eq_some hk
    have hid : o.orderId = ev.event.orderId := by simpa using List.find?_some hk
    have hage := checkedSub64_of_le (hlater.past o hmem)
    by_cases hin : o ∈ d.largeOrders
    · have hd := find_of_mem hdunique hin
      rw [hid] at hd
      simp only [onCancel, hk, hd, hage, Option.bind_eq_bind, Option.bind_some, Option.pure_def]
      refine ⟨_, _, _, rfl, ?_, hrest, rfl, List.eraseP_sublist⟩
      simp only [h.window, buildFlag, h.threshold]
    · -- the order was pruned: it is too old to be flagged
      have hd : d.largeOrders.find? (·.orderId = ev.event.orderId) = none := by
        rw [List.find?_eq_none]
        intro o' ho' hid'
        have hsame := List.inj_on_of_nodup_map h.unique (h.sub.mem ho') hmem
          ((by simpa using hid' : o'.orderId = ev.event.orderId).trans hid.symm)
        exact hin (hsame ▸ ho')
      have hold : ¬ ev.seq - o.seq ≤ k.cancelWindow := by
        have hgone := hlater.gone o hmem hin
        rw [UInt64.le_iff_toNat_le, UInt64.toNat_sub_of_le _ _ (hlater.past o hmem)]
        omega
      have herase : d.largeOrders.eraseP (·.orderId = ev.event.orderId) = d.largeOrders :=
        List.eraseP_of_forall_not fun o' ho' => List.find?_eq_none.mp hd o' ho'
      rw [herase] at hrest
      simp only [onCancel, hk, hd, hage, Option.bind_eq_bind, Option.bind_some, Option.pure_def,
        if_neg hold]
      exact ⟨d, _, none, rfl, rfl, hrest, rfl, List.eraseP_sublist⟩

/-- One event returns the same from both; what the unpruned detector tracks was added. -/
theorem Pruned.step {c : UInt64} {d k : SpoofDetector} (h : Pruned c d k)
    (hw1 : 1 ≤ k.cancelWindow.toNat) (hw : k.cancelWindow.toNat < 2 ^ 63) {ev : SequencedEvent}
    (hc : c ≤ ev.seq)
    (hfresh : ∀ i ∈ addedIds [ev], i ∉ k.largeOrders.map LargeOrder.orderId) :
    ∃ d' k' f, d.process ev = some (d', f) ∧ k.processUnpruned ev = some (k', f) ∧
      Pruned ev.seq d' k' ∧ k'.cancelWindow = k.cancelWindow ∧
      ∀ o ∈ k'.largeOrders, o ∈ k.largeOrders ∨ o.orderId ∈ addedIds [ev] := by
  have hidle : ∃ d' k' f, some (d, none) = some (d', f) ∧ some (k, none) = some (k', f) ∧
      Pruned ev.seq d' k' ∧ k'.cancelWindow = k.cancelWindow ∧
      ∀ o ∈ k'.largeOrders, o ∈ k.largeOrders ∨ o.orderId ∈ addedIds [ev] :=
    ⟨d, k, (none : Option ChaosEvent), rfl, rfl, h.later hc, rfl, fun o ho => Or.inl ho⟩
  cases htype : EventType.fromU8 ev.event.eventType with
  | none =>
    simp only [process, processUnpruned, processWith, htype]
    exact hidle
  | some etype =>
    cases etype with
    | orderAdd =>
      have hadded : addedIds [ev] = [ev.event.orderId] := by simp [addedIds, htype]
      rw [hadded] at hfresh ⊢
      simp only [process, processUnpruned, processWith, htype, h.threshold]
      split_ifs
      · obtain ⟨d', hprune, hafter⟩ := h.add hw
          (o := ⟨ev.seq, ev.event.ts, ev.event.orderId, ev.event.qty⟩) hc (hfresh _ (by simp))
        rw [h.threshold] at hprune
        dsimp only at hprune
        rw [hprune]
        refine ⟨d', _, none, rfl, rfl, hafter, rfl, ?_⟩
        intro o ho
        rcases List.mem_append.mp ho with ho | ho
        · exact Or.inl ho
        · rw [List.mem_singleton.mp ho]
          exact Or.inr (List.mem_singleton.mpr rfl)
      · rw [hadded] at hidle
        exact hidle
    | orderCancel =>
      simp only [process, processUnpruned, processWith, htype]
      obtain ⟨d', k', f, hd, hk, hafter, hwindow, hsub⟩ := h.cancel hw1 hc
      exact ⟨d', k', f, hd, hk, hafter, hwindow, fun o ho => Or.inl (hsub.mem ho)⟩
    | _ =>
      simp only [process, processUnpruned, processWith, htype]
      exact hidle

theorem addedIds_cons (ev : SequencedEvent) (evs : List SequencedEvent) :
    addedIds (ev :: evs) = addedIds [ev] ++ addedIds evs := by
  rw [addedIds, addedIds, addedIds, ← List.map_append, ← List.filter_append]
  rfl

/-- Over a whole run both return the same. -/
theorem Pruned.run {c : UInt64} {d k : SpoofDetector} (h : Pruned c d k)
    (hw1 : 1 ≤ k.cancelWindow.toNat) (hw : k.cancelWindow.toNat < 2 ^ 63)
    {evs : List SequencedEvent} (hc : ∀ ev ∈ evs, c ≤ ev.seq)
    (horder : evs.Pairwise fun a b => a.seq ≤ b.seq) (hn : (addedIds evs).Nodup)
    (hfresh : ∀ o ∈ k.largeOrders, o.orderId ∉ addedIds evs) :
    ∃ d' k' flags, run process d evs = some (d', flags) ∧
      run processUnpruned k evs = some (k', flags) := by
  induction evs generalizing c d k with
  | nil => exact ⟨d, k, [], rfl, rfl⟩
  | cons ev evs ih =>
    obtain ⟨hfirst, hlater⟩ := List.pairwise_cons.mp horder
    rw [addedIds_cons] at hn hfresh
    obtain ⟨_, hnrest, hapart⟩ := List.nodup_append.mp hn
    have hnew : ∀ i ∈ addedIds [ev], i ∉ k.largeOrders.map LargeOrder.orderId := by
      intro i hi hk
      obtain ⟨o, ho, rfl⟩ := List.mem_map.mp hk
      exact hfresh o ho (List.mem_append_left _ hi)
    obtain ⟨d₁, k₁, f, hd, hk, hafter, hwindow, hfrom⟩ := h.step hw1 hw (hc ev (by simp)) hnew
    have hfresh₁ : ∀ o ∈ k₁.largeOrders, o.orderId ∉ addedIds evs := by
      intro o ho hin
      rcases hfrom o ho with hold | hadd
      · exact hfresh o hold (List.mem_append_right _ hin)
      · exact hapart _ hadd _ hin rfl
    obtain ⟨d', k', flags, hdrun, hkrun⟩ := ih hafter (by rwa [hwindow]) (by rwa [hwindow])
      hfirst hlater hnrest hfresh₁
    refine ⟨d', k', f :: flags, ?_, ?_⟩
    · rw [SpoofDetector.run, hd]
      simp [hdrun]
    · rw [SpoofDetector.run, hk]
      simp [hkrun]

end SpoofDetector

/-- The pruning of old orders is invisible: for a window from 1 to below `2 ^ 63`, over sequence numbers
that do not decrease and adds with ids of their own, the detector returns at every event what it would
without pruning, and neither underflows. -/
theorem spoof_prune_invisible (largeQtyThreshold : UInt64) {cancelWindow : UInt64}
    (hw1 : 1 ≤ cancelWindow.toNat) (hw : cancelWindow.toNat < 2 ^ 63) {evs : List SequencedEvent}
    (horder : evs.Pairwise fun a b => a.seq ≤ b.seq) (hn : (addedIds evs).Nodup) :
    ∃ d k flags,
      SpoofDetector.run SpoofDetector.process (.new largeQtyThreshold cancelWindow) evs =
        some (d, flags) ∧
      SpoofDetector.run SpoofDetector.processUnpruned (.new largeQtyThreshold cancelWindow) evs =
        some (k, flags) := by
  have hstart : SpoofDetector.Pruned 0 (.new largeQtyThreshold cancelWindow)
      (.new largeQtyThreshold cancelWindow) :=
    ⟨rfl, rfl, List.Sublist.refl _, by simp [SpoofDetector.new], by simp [SpoofDetector.new],
      List.nodup_nil⟩
  exact hstart.run hw1 hw (fun ev _ => UInt64.zero_le) horder hn (by simp [SpoofDetector.new])

/-- A large order that is pruned by the next one before it is pulled. -/
theorem spoof_prune_invisible_two :
    ∃ d k flags,
      SpoofDetector.run SpoofDetector.process (.new 10 2)
        [⟨1, 0, ⟨1, 100, 10, 1, 1, 1, 0⟩, 0, 0⟩, ⟨5, 0, ⟨5, 100, 10, 2, 1, 1, 0⟩, 0, 0⟩,
          ⟨6, 0, ⟨6, 100, 10, 1, 1, 2, 0⟩, 0, 0⟩] = some (d, flags) ∧
      SpoofDetector.run SpoofDetector.processUnpruned (.new 10 2)
        [⟨1, 0, ⟨1, 100, 10, 1, 1, 1, 0⟩, 0, 0⟩, ⟨5, 0, ⟨5, 100, 10, 2, 1, 1, 0⟩, 0, 0⟩,
          ⟨6, 0, ⟨6, 100, 10, 1, 1, 2, 0⟩, 0, 0⟩] = some (k, flags) :=
  spoof_prune_invisible 10 (by decide) (by decide) (by decide) (by decide)

end Flowlab.Chaos
