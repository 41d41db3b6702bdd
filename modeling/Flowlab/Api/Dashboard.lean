import Flowlab.Api.EngineClient

namespace Flowlab.Api

open Framework
open Flowlab.Engine (Telemetry Short)

namespace EngineFrame

def trade? : EngineFrame → Option TradePrint
  | trade tp => some tp
  | _ => none

def chaos? : EngineFrame → Option ChaosFlag
  | chaos cf => some cf
  | _ => none

end EngineFrame

namespace ClientOp

def tick? : ClientOp → Option EngineTick
  | frame _ (.tick et) => some et
  | _ => none

def lat? : ClientOp → Option EngineLat
  | frame _ (.lat el) => some el
  | _ => none

def book? : ClientOp → Option (List Level × List Level)
  | frame _ (.book bids asks) => some (bids, asks)
  | _ => none

def frame? : ClientOp → Option EngineFrame
  | frame _ f => some f
  | reset => none

/-- What the operation leaves of the risk gate: the gaps, whether it is halted and why. -/
def gate? : ClientOp → Option (UInt32 × Bool × String)
  | frame _ (.risk er) => some (er.gapsInWindow, er.halted, er.reason.getD "")
  | reset => some (0, false, "")
  | _ => none

end ClientOp

/-- The risk gate after some operations. -/
def gateAfter (ops : List ClientOp) : UInt32 × Bool × String :=
  (ops.filterMap ClientOp.gate?).getLast?.getD (0, false, "")

/-- The last `Lat` frame. -/
def lastLat (ops : List ClientOp) : Option EngineLat := (ops.filterMap ClientOp.lat?).getLast?

/-- The last `Lat` frame from which a jitter is taken. -/
def lastSpread (ops : List ClientOp) : Option EngineLat :=
  ((ops.filterMap ClientOp.lat?).filter fun el => el.apply.p50Ns < el.apply.p99Ns).getLast?

namespace EngineClient

variable (start : Int64) (ops : List ClientOp)

theorem gate_run : ((run start ops).gaps, (run start ops).halted, (run start ops).reason) =
    gateAfter ops := by
  refine Recent.foldl_last (fun c : EngineClient => (c.gaps, c.halted, c.reason)) ClientOp.gate? ?_
  rintro c (⟨now, f⟩ | -) -
  · cases f <;> rfl
  · rfl

theorem lat_run : ((run start ops).stages, (run start ops).lastApplyNs) =
    ((lastLat ops).map fun el => (el.stages, el.apply.p99Ns)).getD (.zero, 0) := by
  rw [lastLat, ← List.getLast?_map, List.map_filterMap]
  refine Recent.foldl_last (fun c : EngineClient => (c.stages, c.lastApplyNs)) _ ?_
  rintro c (⟨now, f⟩ | -) -
  · cases f <;> rfl
  · rfl

theorem book_run : (run start ops).book = (ops.filterMap ClientOp.book?).getLast? := by
  have hlast : (run start ops).book =
      (ops.filterMap fun op => op.book?.map some).getLast?.getD none := by
    refine Recent.foldl_last EngineClient.book _ ?_
    rintro c (⟨now, f⟩ | -) -
    · cases f <;> rfl
    · rfl
  rw [hlast, ← List.map_filterMap, List.getLast?_map]
  cases (ops.filterMap ClientOp.book?).getLast? <;> rfl

theorem trades_run : (run start ops).trades =
    ((ops.filterMap ClientOp.frame?).filterMap EngineFrame.trade?).rtake tradeRingCap := by
  rw [List.filterMap_filterMap]
  refine Recent.foldl_recent (by decide) EngineClient.trades _ ?_ ?_ rfl
  · rintro c (⟨now, f⟩ | -) tp h
    · cases f <;> cases h
      rfl
    · cases h
  · rintro c (⟨now, f⟩ | -) h
    · cases f <;> first | rfl | cases h
    · rfl

theorem chaos_run : (run start ops).chaos =
    ((ops.filterMap ClientOp.frame?).filterMap EngineFrame.chaos?).rtake chaosRingCap := by
  rw [List.filterMap_filterMap]
  refine Recent.foldl_recent (by decide) EngineClient.chaos _ ?_ ?_ rfl
  · rintro c (⟨now, f⟩ | -) cf h
    · cases f <;> cases h
      rfl
    · cases h
  · rintro c (⟨now, f⟩ | -) h
    · cases f <;> first | rfl | cases h
    · rfl

/-- Between two ticks only `Lat` frames change the latest one. -/
theorem latest_foldl (c : EngineClient) {ops : List ClientOp} (h : ∀ op ∈ ops, op.tick? = none) :
    (ops.foldl apply c).latest = (ops.filterMap ClientOp.lat?).foldl patch c.latest := by
  induction ops using List.reverseRecOn with
  | nil => rfl
  | append_singleton ops op ih =>
    have ih := ih fun o ho => h o (List.mem_append_left _ ho)
    have hop := h op (by simp)
    rw [List.foldl_append, List.filterMap_append, List.foldl_append, List.foldl_cons,
      List.foldl_nil, ← ih]
    rcases op with ⟨now, f⟩ | -
    · cases f <;> first | rfl | cases hop
    · rfl

/-- The numbers that some `Lat` frames leave in a tick. -/
theorem patch_foldl (t : Tick) (lats : List EngineLat) :
    lats.foldl patch t = { t with
      latP50Ns := (lats.getLast?.map fun el => el.apply.p50Ns).getD t.latP50Ns
      latP99Ns := (lats.getLast?.map fun el => el.apply.p99Ns).getD t.latP99Ns
      latP999Ns := (lats.getLast?.map fun el => el.apply.p999Ns).getD t.latP999Ns
      latMaxNs := (lats.getLast?.map fun el => el.apply.maxNs).getD t.latMaxNs
      latJitterNs := ((lats.filter fun el => el.apply.p50Ns < el.apply.p99Ns).getLast?.map
        fun el => el.apply.p99Ns - el.apply.p50Ns).getD t.latJitterNs
      stages := (lats.getLast?.map EngineLat.stages).getD t.stages } := by
  induction lats using List.reverseRecOn with
  | nil => rfl
  | append_singleton lats el ih =>
    rw [List.foldl_append, ih, List.filter_append]
    by_cases hel : el.apply.p50Ns < el.apply.p99Ns
    · simp [patch, hel]
    · simp [patch, hel]

/-- What the dashboard shows after the last tick: the risk gate as it stood when that tick came in,
the latencies and the jitter of the `Lat` frames since then, and the last book and stages of all.
Without such a frame p50 and p99 both show the last 99th percentile before the tick. -/
theorem next_shows (now at_ : Int64) (et : EngineTick) (pre post : List ClientOp)
    (hpost : ∀ op ∈ post, op.tick? = none) :
    (run start (pre ++ .frame at_ (.tick et) :: post)).next now =
      let ops := pre ++ .frame at_ (.tick et) :: post
      let before := ((lastLat pre).map fun el => el.apply.p99Ns).getD 0
      { tsNs := now
        seq := et.seq
        midTicks := et.midTicks
        spreadTicks := et.spreadTicks
        micropriceTicks := et.micropriceTicks
        spreadBps := et.spreadBps
        bidDepth := et.bidDepth
        askDepth := et.askDepth
        imbalance := et.imbalance
        vpin := et.vpin
        tradeVel := et.tradeVelocity
        regime := et.regime
        latP50Ns := ((lastLat post).map fun el => el.apply.p50Ns).getD before
        latP99Ns := ((lastLat post).map fun el => el.apply.p99Ns).getD before
        latP999Ns := ((lastLat post).map fun el => el.apply.p999Ns).getD 0
        latMaxNs := ((lastLat post).map fun el => el.apply.maxNs).getD 0
        latJitterNs := ((lastSpread post).map fun el => el.apply.p99Ns - el.apply.p50Ns).getD 0
        droppedTotal := et.droppedTotal
        eventsPerSec := et.eventsPerSec
        breakerHalted := (gateAfter pre).2.1
        breakerReason := (gateAfter pre).2.2
        gapsLastMinute := (gateAfter pre).1
        bids := ((ops.filterMap ClientOp.book?).getLast?.map Prod.fst).getD []
        asks := ((ops.filterMap ClientOp.book?).getLast?.map Prod.snd).getD []
        stages := ((lastLat ops).map EngineLat.stages).getD .zero } := by
  have hgate := gate_run start pre
  have hbefore : (run start pre).lastApplyNs =
      ((lastLat pre).map fun el => el.apply.p99Ns).getD 0 := by
    rw [show (run start pre).lastApplyNs = _ from congrArg Prod.snd (lat_run start pre)]
    cases lastLat pre <;> rfl
  have hbook := book_run start (pre ++ .frame at_ (.tick et) :: post)
  have hstages : (run start (pre ++ .frame at_ (.tick et) :: post)).stages =
      ((lastLat (pre ++ .frame at_ (.tick et) :: post)).map EngineLat.stages).getD .zero := by
    rw [show (run start (pre ++ .frame at_ (.tick et) :: post)).stages = _ from
      congrArg Prod.fst (lat_run start _)]
    cases lastLat (pre ++ .frame at_ (.tick et) :: post) <;> rfl
  have hlatest : (run start (pre ++ .frame at_ (.tick et) :: post)).latest =
      (post.filterMap ClientOp.lat?).foldl patch ((run start pre).tickOf at_ et) := by
    rw [run, List.foldl_append, List.foldl_cons, latest_foldl _ hpost]
    rfl
  dsimp only
  rw [next, hlatest, hbook, hstages, patch_foldl, ← hgate, ← hbefore]
  cases ((pre ++ ClientOp.frame at_ (.tick et) :: post).filterMap ClientOp.book?).getLast? <;> rfl

def oneTick : EngineTick := ⟨7, 100, 2, 100, 200, 5, 5, 0, 0, 1, 0, 10, 0⟩

/-- A halt that comes in after the tick is not shown with it. -/
theorem next_shows_halt :
    ((run 0 ([.frame 1 (.lat ⟨⟨1, 2, 3, 4⟩, ⟨5, 9, 9, 9⟩, ⟨1, 1, 1, 1⟩, ⟨1, 1, 1, 1⟩, ⟨1, 1, 1, 1⟩⟩)] ++
        .frame 2 (.tick oneTick) :: [.frame 3 (.risk ⟨true, some "gap", 4⟩)])).next 5).breakerHalted =
      false := by
  rw [next_shows 0 5 2 oneTick _ [.frame 3 (.risk ⟨true, some "gap", 4⟩)]
    (fun op hop => by rw [List.mem_singleton.mp hop]; rfl)]
  rfl

section

variable {φ : Type} {encode : φ → Option (List UInt8)} {decode : List UInt8 → List EngineFrame}
  {view : φ → List EngineFrame} {cap : ℕ+} {s : Telemetry φ}

theorem map_filter_isSome (l : List φ) :
    (l.filter fun frame => (encode frame).isSome).map encode = (l.filterMap encode).map some := by
  induction l with
  | nil => rfl
  | cons frame l ih =>
    cases he : encode frame with
    | none => rw [List.filter_cons_of_neg (by simp [he]), List.filterMap_cons_none he, ih]
    | some payload =>
      rw [List.filter_cons_of_pos (by simp [he]), List.filterMap_cons_some he, List.map_cons,
        List.map_cons, ih, he]

/-- Whatever the channel turned away and the connections lost, the tapes of the dashboard are the
newest prints and flags of the frames that got through, in the order in which the engine sent them. -/
theorem tapes_of_sent (hshort : Short encode)
    (hdecode : ∀ frame payload, encode frame = some payload → decode payload = view frame)
    (h : Telemetry.Reachable encode cap s)
    (hops : ops.filterMap ClientOp.frame? = s.delivered.flatMap decode) :
    ∃ kept : List φ, kept.Sublist s.sent ∧ kept.map encode = s.delivered.map some ∧
      (run start ops).trades =
        ((kept.flatMap view).filterMap EngineFrame.trade?).rtake tradeRingCap ∧
      (run start ops).chaos =
        ((kept.flatMap view).filterMap EngineFrame.chaos?).rtake chaosRingCap := by
  have hdelivered : s.delivered.Sublist (s.sent.filterMap encode) :=
    Telemetry.delivered_sublist hshort h.inv
  obtain ⟨kept, hkept, hpayloads⟩ := List.sublist_filterMap_iff.mp hdelivered
  let through := kept.filter fun frame => (encode frame).isSome
  have hsome : ∀ frame ∈ through, ∃ payload, encode frame = some payload := fun frame hmem =>
    Option.isSome_iff_exists.mp (List.mem_filter.mp hmem).2
  have hmap : through.map encode = s.delivered.map some := by
    rw [hpayloads]
    exact map_filter_isSome kept
  have hview : s.delivered.flatMap decode = through.flatMap view := by
    have hall : through.flatMap view =
        (through.map encode).flatMap fun payload => payload.toList.flatMap decode := by
      rw [List.flatMap_map]
      apply List.flatMap_congr
      intro frame hmem
      obtain ⟨payload, hpayload⟩ := hsome frame hmem
      simp [hpayload, hdecode frame payload hpayload]
    rw [hall, hmap, List.flatMap_map]
    simp
  refine ⟨through, List.filter_sublist.trans hkept, hmap, ?_, ?_⟩
  · rw [trades_run, hops, hview]
  · rw [chaos_run, hops, hview]

/-- The frames behind two of the payloads of the broken run. -/
def twoPrints (payload : List UInt8) : List EngineFrame :=
  if payload = [7, 8] then [.trade ⟨1, 100, 5, 1⟩]
  else if payload = [] then [.trade ⟨2, 101, 6, -1⟩] else []

def printsOf (n : Nat) : List EngineFrame := ((Telemetry.someEncode n).map twoPrints).getD []

theorem tapes_of_sent_break :
    ∃ s, Steps.run (Telemetry.step Telemetry.someEncode 2) Telemetry.start Telemetry.breakActs =
        some s ∧
      ∃ kept : List Nat, kept.Sublist s.sent ∧
        (run 0 [.frame 3 (.trade ⟨1, 100, 5, 1⟩), .reset, .frame 4 (.trade ⟨2, 101, 6, -1⟩)]).trades =
          ((kept.flatMap printsOf).filterMap EngineFrame.trade?).rtake tradeRingCap := by
  have hdecode : ∀ frame payload, Telemetry.someEncode frame = some payload →
      twoPrints payload = printsOf frame := by
    intro frame payload h
    rw [printsOf, h]
    rfl
  have hrun : ∃ s ∈ Steps.run (Telemetry.step Telemetry.someEncode 2) Telemetry.start
      Telemetry.breakActs, s.delivered = [[7, 8], []] := by
    decide
  obtain ⟨s, hs, hdelivered⟩ := hrun
  obtain ⟨kept, hkept, -, htrades, -⟩ := tapes_of_sent 0
    [.frame 3 (.trade ⟨1, 100, 5, 1⟩), .reset, .frame 4 (.trade ⟨2, 101, 6, -1⟩)]
    Telemetry.someEncode_short hdecode ⟨_, hs⟩ (by rw [hdelivered]; rfl)
  exact ⟨s, hs, kept, hkept, htrades⟩

end

end EngineClient

end Flowlab.Api
