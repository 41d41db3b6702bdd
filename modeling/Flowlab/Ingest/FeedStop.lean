import Flowlab.Ingest.WebSocketFeed

namespace Flowlab.Ingest

open Framework
open Flowlab.Replay (Ring Capacity Act RingError Writer)

namespace RunPc

/-- The connection that `Run` works with. -/
def conn : RunPc → Option Nat
  | dialled k | polling k | reading k | offering k _ | writing k | leaving k | closing k => some k
  | _ => none

/-- The shared pointer may hold connection `k`. -/
def Publishes (k : Nat) : RunPc → Prop
  | entering => True
  | polling j | reading j | offering j _ | writing j | leaving j => k = j
  | _ => False

/-- Inside `readLoop` and before its deferred close. -/
def InLoop (k : Nat) : RunPc → Prop
  | polling j | reading j | offering j _ | writing j => k = j
  | _ => False

/-- Behind the test of `readLoop` for the stop. -/
def PastTest : RunPc → Prop
  | reading _ | offering _ _ | writing _ => True
  | _ => False

/-- How `Run` goes on where it neither opens nor closes a connection nor moves the shared pointer. -/
inductive Goes (f : WebSocketFeed) : RunPc → RunPc → Prop
  | start : Goes f ready top
  | check (h : f.stopClosed = true) : Goes f top returned
  | dial (h : f.stopClosed = false) : Goes f top dialing
  | dialFail : Goes f dialing sleeping
  | stopSeen (h : f.stopClosed = true) : Goes f sleeping returned
  | timer : Goes f sleeping top
  | gone (h : f.conn = none) : Goes f entering top
  | enter (k : Nat) (h : f.conn = some k) : Goes f entering (polling k)
  | leave (k : Nat) (h : f.stopClosed = true) : Goes f (polling k) (leaving k)
  | read (k : Nat) (h : f.stopClosed = false) : Goes f (polling k) (reading k)
  | message (k : Nat) (bytes : List UInt8) : Goes f (reading k) (offering k bytes)
  | readError (k : Nat) : Goes f (reading k) (leaving k)
  | offer (k : Nat) (bytes : List UInt8) : Goes f (offering k bytes) (writing k)
  | write (k : Nat) : Goes f (writing k) (writing k)
  | finish (k : Nat) : Goes f (writing k) (polling k)

end RunPc

/-- Inside the function that `stopOnce` runs. -/
def StopPc.Inside : StopPc → Prop
  | .closingStop | .swapping | .closingConn _ => True
  | _ => False

namespace WebSocketFeed

variable {c : Capacity} {limit : Nat} {f g : WebSocketFeed}

/-- Some caller of `Stop` has taken connection `k` and not closed it yet. -/
def Shutting (f : WebSocketFeed) (k : Nat) : Prop := ∃ t, f.stop t = .closingConn k

/-- Some caller of `Stop` is about to take the connection. -/
def Swapping (f : WebSocketFeed) : Prop := ∃ t, f.stop t = .swapping

/-- What the goroutines share about connections and the stop. -/
def Same (f g : WebSocketFeed) : Prop :=
  g.conn = f.conn ∧ g.dials = f.dials ∧ g.closed = f.closed ∧ g.stop = f.stop ∧
    g.stopOnce = f.stopOnce ∧ g.stopClosed = f.stopClosed

/-- What a step of `Run` can do. -/
theorem stepRun_cases {a : RunAct} (hg : f.stepRun c limit a = some g) :
    (Same f g ∧ RunPc.Goes f f.run g.run) ∨
    (f.run = .dialing ∧ g = { f with run := .dialled f.dials, dials := f.dials + 1 }) ∨
    (∃ k, f.run = .dialled k ∧
      g = { f with run := .entering, conn := some k, backoff := initialBackoff }) ∨
    (∃ k, f.run = .leaving k ∧
      g = { f with run := .closing k, conn := if f.conn = some k then none else f.conn }) ∨
    (∃ k, f.run = .closing k ∧ g = { f with run := .top, closed := k :: f.closed }) := by
  have hsame : Same f f := ⟨rfl, rfl, rfl, rfl, rfl, rfl⟩
  cases a <;> simp only [stepRun] at hg
  case check =>
    split at hg <;> cases hg
    rename_i hrun
    refine .inl ⟨hsame, ?_⟩
    rw [hrun]
    dsimp only
    split_ifs with hstop
    · exact .check hstop
    · exact .dial (Bool.eq_false_iff.mpr hstop)
  case poll =>
    split at hg <;> cases hg
    rename_i k hrun
    refine .inl ⟨hsame, ?_⟩
    rw [hrun]
    dsimp only
    split_ifs with hstop
    · exact .leave k hstop
    · exact .read k (Bool.eq_false_iff.mpr hstop)
  case load =>
    split at hg <;> cases hg
    rename_i hrun
    refine .inl ⟨hsame, ?_⟩
    rw [hrun]
    cases hconn : f.conn with
    | none => exact .gone hconn
    | some k => exact .enter k hconn
  case stopSeen =>
    split at hg
    · rename_i hrun
      split_ifs at hg with hstop
      cases hg
      exact .inl ⟨hsame, hrun ▸ .stopSeen hstop⟩
    · cases hg
  case message bytes =>
    split at hg
    · rename_i k hrun
      split_ifs at hg
      cases hg
      exact .inl ⟨hsame, hrun ▸ .message k bytes⟩
    · cases hg
  case readError =>
    split at hg
    · rename_i k hrun
      split_ifs at hg
      cases hg
      exact .inl ⟨hsame, hrun ▸ .readError k⟩
    · cases hg
  case offer =>
    split at hg
    · rename_i k bytes hrun
      obtain ⟨ring, -, rfl⟩ := Option.map_eq_some_iff.mp hg
      exact .inl ⟨hsame, hrun ▸ .offer k bytes⟩
    · cases hg
  case write =>
    split at hg
    · rename_i k hrun
      split_ifs at hg
      obtain ⟨ring, -, rfl⟩ := Option.map_eq_some_iff.mp hg
      refine .inl ⟨hsame, ?_⟩
      show RunPc.Goes f f.run f.run
      rw [hrun]
      exact .write k
    · cases hg
  case finish =>
    split at hg
    · rename_i k hrun _
      cases hg
      exact .inl ⟨hsame, hrun ▸ .finish k⟩
    · rename_i k _ hrun _
      cases hg
      exact .inl ⟨hsame, hrun ▸ .finish k⟩
    · cases hg
  case start =>
    split at hg <;> cases hg
    rename_i hrun
    exact .inl ⟨hsame, hrun ▸ .start⟩
  case dialFail =>
    split at hg <;> cases hg
    rename_i hrun
    exact .inl ⟨hsame, hrun ▸ .dialFail⟩
  case timer =>
    split at hg <;> cases hg
    rename_i hrun
    exact .inl ⟨hsame, hrun ▸ .timer⟩
  case dialOk =>
    split at hg <;> cases hg
    rename_i hrun
    exact .inr (.inl ⟨hrun, rfl⟩)
  case store =>
    split at hg <;> cases hg
    rename_i hrun
    exact .inr (.inr (.inl ⟨_, hrun, rfl⟩))
  case swapOut =>
    split at hg <;> cases hg
    rename_i hrun
    exact .inr (.inr (.inr (.inl ⟨_, hrun, rfl⟩)))
  case close =>
    split at hg <;> cases hg
    rename_i hrun
    exact .inr (.inr (.inr (.inr ⟨_, hrun, rfl⟩)))

/-- What a step of a call of `Stop` can do. -/
theorem stepStop_cases {t : Nat} {a : StopAct} (hg : f.stepStop t a = some g) :
    (f.stop t = .outside ∧ g = f.setStop t .called) ∨
    (f.stop t = .called ∧ f.stopOnce = .fresh ∧
      g = { f.setStop t .closingStop with stopOnce := .running t }) ∨
    (f.stop t = .called ∧ f.stopOnce = .done ∧ g = f.setStop t .waiting) ∨
    (f.stop t = .closingStop ∧ g = { f.setStop t .swapping with stopClosed := true }) ∨
    (∃ k, f.stop t = .swapping ∧ f.conn = some k ∧
      g = { f.setStop t (.closingConn k) with conn := none }) ∨
    (f.stop t = .swapping ∧ f.conn = none ∧ g = { f.setStop t .waiting with stopOnce := .done }) ∨
    (∃ k, f.stop t = .closingConn k ∧
      g = { f.setStop t .waiting with stopOnce := .done, closed := k :: f.closed }) ∨
    (f.stop t = .waiting ∧ (f.run = .ready ∨ f.run = .returned) ∧ g = f.setStop t .outside) := by
  cases a <;> simp only [stepStop] at hg
  case enter =>
    split at hg
    · rename_i hpc honce
      cases hg
      exact .inr (.inl ⟨hpc, honce, rfl⟩)
    · rename_i hpc honce
      cases hg
      exact .inr (.inr (.inl ⟨hpc, honce, rfl⟩))
    · cases hg
  case wait =>
    split at hg
    · rename_i hpc
      split_ifs at hg with hrun
      cases hg
      exact .inr (.inr (.inr (.inr (.inr (.inr (.inr ⟨hpc, hrun, rfl⟩))))))
    · cases hg
  case swap =>
    split at hg
    · rename_i hpc
      split at hg
      · rename_i k hconn
        cases hg
        exact .inr (.inr (.inr (.inr (.inl ⟨k, hpc, hconn, rfl⟩))))
      · rename_i hconn
        cases hg
        exact .inr (.inr (.inr (.inr (.inr (.inl ⟨hpc, hconn, rfl⟩)))))
    · cases hg
  case call =>
    split at hg <;> cases hg
    rename_i hpc
    exact .inl ⟨hpc, rfl⟩
  case closeStop =>
    split at hg <;> cases hg
    rename_i hpc
    exact .inr (.inr (.inr (.inl ⟨hpc, rfl⟩)))
  case close =>
    split at hg <;> cases hg
    rename_i hpc
    exact .inr (.inr (.inr (.inr (.inr (.inr (.inl ⟨_, hpc, rfl⟩))))))

/-- Every connection is closed or in somebody's hands. -/
structure Conns (f : WebSocketFeed) : Prop where
  published : ∀ k, f.conn = some k → f.run.Publishes k
  kept : ∀ k < f.dials, k ∈ f.closed ∨ f.run.conn = some k ∨ f.conn = some k ∨ f.Shutting k

/-- Who is inside `stopOnce`, and what the others know from it. -/
structure OnceInv (f : WebSocketFeed) : Prop where
  inside : ∀ t, (f.stop t).Inside → f.stopOnce = .running t
  waiting : ∀ t, f.stop t = .waiting → f.stopOnce = .done
  closed : f.stopOnce = .done → f.stopClosed = true
  past : ∀ t, f.stop t = .swapping → f.stopClosed = true
  taken : ∀ t k, f.stop t = .closingConn k → f.stopClosed = true

/-- The connection that `Run` reads is closed, about to be closed, or still there for `Stop` to take. -/
structure Reads (f : WebSocketFeed) : Prop where
  within : ∀ k, f.run.InLoop k → k ∈ f.closed ∨ f.conn = some k ∨ f.Shutting k
  stopping : f.run.PastTest → ∀ k, f.conn = some k → f.stopClosed = true → f.Swapping

structure Inv (f : WebSocketFeed) : Prop where
  conns : f.Conns
  once : f.OnceInv
  reads : f.Reads

theorem inv_new (mem : Nat → UInt8) : (new mem).Inv where
  conns := ⟨by simp [new], by simp [new]⟩
  once := ⟨by simp [new, StopPc.Inside], by simp [new], by simp [new], by simp [new], by simp [new]⟩
  reads := ⟨by simp [new, RunPc.InLoop], by simp [new]⟩

theorem OnceInv.same (h : f.OnceInv) (hstop : g.stop = f.stop) (honce : g.stopOnce = f.stopOnce)
    (hclosed : g.stopClosed = f.stopClosed) : g.OnceInv where
  inside := by rw [hstop, honce]; exact h.inside
  waiting := by rw [hstop, honce]; exact h.waiting
  closed := by rw [honce, hclosed]; exact h.closed
  past := by rw [hstop, hclosed]; exact h.past
  taken := by rw [hstop, hclosed]; exact h.taken

theorem Conns.goes (h : f.Conns) (hs : Same f g) (hrun : RunPc.Goes f f.run g.run) : g.Conns := by
  obtain ⟨hconn, hdials, hclosed, hstop, -, -⟩ := hs
  have hpub := h.published
  have hkept := h.kept
  simp only [Shutting] at hkept
  refine ⟨?_, ?_⟩
  · rw [hconn]
    generalize f.run = pc, g.run = pc' at hrun hpub
    cases hrun <;> simp_all [RunPc.Publishes]
  · rw [hdials, hclosed, hconn]
    simp only [Shutting, hstop]
    generalize f.run = pc, g.run = pc' at hrun hkept
    cases hrun <;> simp_all [RunPc.conn]

theorem Reads.goes (h : f.Reads) (hs : Same f g) (hrun : RunPc.Goes f f.run g.run) : g.Reads := by
  obtain ⟨hconn, -, hclosed, hstop, -, hflag⟩ := hs
  have hwithin := h.within
  have hstopping := h.stopping
  simp only [Shutting] at hwithin
  simp only [Swapping] at hstopping
  refine ⟨?_, ?_⟩
  · rw [hconn, hclosed]
    simp only [Shutting, hstop]
    generalize f.run = pc, g.run = pc' at hrun hwithin
    cases hrun <;> simp_all [RunPc.InLoop]
  · rw [hconn, hflag]
    simp only [Swapping, hstop]
    generalize f.run = pc, g.run = pc' at hrun hstopping
    cases hrun <;> simp_all [RunPc.PastTest]

theorem inv_stepRun (h : f.Inv) {a : RunAct} (hg : f.stepRun c limit a = some g) : g.Inv := by
  have hpub := h.conns.published
  rcases stepRun_cases hg with ⟨hs, hrun⟩ | ⟨hrun, rfl⟩ | ⟨k, hrun, rfl⟩ | ⟨k, hrun, rfl⟩ |
      ⟨k, hrun, rfl⟩
  · exact ⟨h.conns.goes hs hrun, h.once.same hs.2.2.2.1 hs.2.2.2.2.1 hs.2.2.2.2.2, h.reads.goes hs hrun⟩
  · refine ⟨⟨?_, ?_⟩, h.once.same rfl rfl rfl, ⟨?_, ?_⟩⟩
    · exact fun j hj => absurd (hpub j hj) (by simp [hrun, RunPc.Publishes])
    · intro j hj
      rcases Nat.lt_succ_iff_lt_or_eq.mp hj with hlt | rfl
      · rcases h.conns.kept j hlt with hc | hr | hp
        · exact .inl hc
        · simp [hrun, RunPc.conn] at hr
        · exact .inr (.inr hp)
      · exact .inr (.inl rfl)
    · exact fun j hj => absurd hj (by simp [RunPc.InLoop])
    · exact fun hp => absurd hp (by simp [RunPc.PastTest])
  · refine ⟨⟨fun _ _ => trivial, ?_⟩, h.once.same rfl rfl rfl, ⟨?_, ?_⟩⟩
    · intro j hj
      rcases h.conns.kept j hj with hc | hr | hp | hs
      · exact .inl hc
      · exact .inr (.inr (.inl (by simpa [hrun, RunPc.conn] using hr)))
      · exact absurd (hpub j hp) (by simp [hrun, RunPc.Publishes])
      · exact .inr (.inr (.inr hs))
    · exact fun j hj => absurd hj (by simp [RunPc.InLoop])
    · exact fun hp => absurd hp (by simp [RunPc.PastTest])
  · have hself : ∀ j, f.conn = some j → j = k := fun j hj => by
      simpa [hrun, RunPc.Publishes] using hpub j hj
    refine ⟨⟨?_, ?_⟩, h.once.same rfl rfl rfl, ⟨?_, ?_⟩⟩
    · intro j hj
      have hj' : (if f.conn = some k then none else f.conn) = some j := hj
      split_ifs at hj' with hk
      exact absurd (hself j hj' ▸ hj') hk
    · intro j hj
      rcases h.conns.kept j hj with hc | hr | hp | hs
      · exact .inl hc
      · exact .inr (.inl (by simpa [hrun, RunPc.conn] using hr))
      · exact .inr (.inl (by simp [RunPc.conn, hself j hp]))
      · exact .inr (.inr (.inr hs))
    · exact fun j hj => absurd hj (by simp [RunPc.InLoop])
    · exact fun hp => absurd hp (by simp [RunPc.PastTest])
  · refine ⟨⟨?_, ?_⟩, h.once.same rfl rfl rfl, ⟨?_, ?_⟩⟩
    · exact fun j hj => absurd (hpub j hj) (by simp [hrun, RunPc.Publishes])
    · intro j hj
      rcases h.conns.kept j hj with hc | hr | hp
      · exact .inl (List.mem_cons_of_mem _ hc)
      · simp only [hrun, RunPc.conn, Option.some.injEq] at hr
        exact .inl (hr ▸ List.mem_cons_self)
      · exact .inr (.inr hp)
    · exact fun j hj => absurd hj (by simp [RunPc.InLoop])
    · exact fun hp => absurd hp (by simp [RunPc.PastTest])

/-- What another caller is doing goes on when the caller at `t` moves. -/
theorem caller_update {t : Nat} {pc pc' : StopPc} (h : ∃ u, f.stop u = pc') (hne : f.stop t ≠ pc') :
    ∃ u, Function.update f.stop t pc u = pc' := by
  obtain ⟨u, hu⟩ := h
  have hut : u ≠ t := by
    rintro rfl
    exact hne hu
  exact ⟨u, by rw [Function.update_of_ne hut, hu]⟩

/-- A caller of `Stop` that moves on without touching a connection. -/
theorem Conns.caller (h : f.Conns) {t : Nat} {pc : StopPc} (hne : ∀ k, f.stop t ≠ .closingConn k)
    (hstop : g.stop = Function.update f.stop t pc) (hrun : g.run = f.run) (hconn : g.conn = f.conn)
    (hdials : g.dials = f.dials) (hclosed : g.closed = f.closed) : g.Conns where
  published := by rw [hrun, hconn]; exact h.published
  kept k hk := by
    rw [hclosed, hrun, hconn, Shutting, hstop]
    rcases h.kept k (hdials ▸ hk) with hc | hr | hp | hs
    · exact .inl hc
    · exact .inr (.inl hr)
    · exact .inr (.inr (.inl hp))
    · exact .inr (.inr (.inr (caller_update hs (hne k))))

theorem Reads.caller (h : f.Reads) {t : Nat} {pc : StopPc} (hne : ∀ k, f.stop t ≠ .closingConn k)
    (hswap : f.stop t ≠ .swapping) (hstop : g.stop = Function.update f.stop t pc)
    (hrun : g.run = f.run) (hconn : g.conn = f.conn) (hclosed : g.closed = f.closed)
    (hflag : g.stopClosed = f.stopClosed ∨ pc = .swapping) : g.Reads where
  within k hk := by
    rw [hclosed, hconn, Shutting, hstop]
    rcases h.within k (hrun ▸ hk) with hc | hp | hs
    · exact .inl hc
    · exact .inr (.inl hp)
    · exact .inr (.inr (caller_update hs (hne k)))
  stopping hpast k hk hclosed' := by
    rw [Swapping, hstop]
    rcases hflag with hflag | rfl
    · exact caller_update (h.stopping (hrun ▸ hpast) k (hconn ▸ hk) (hflag ▸ hclosed')) hswap
    · exact ⟨t, Function.update_self ..⟩

/-- At most one caller is inside `stopOnce`. -/
theorem once_stepStop (h : f.OnceInv) {t : Nat} {a : StopAct} (hg : f.stepStop t a = some g) :
    g.OnceInv := by
  obtain ⟨hinside, hwaiting, hclosed, hpast, htaken⟩ := h
  rcases stepStop_cases hg with ⟨hpc, rfl⟩ | ⟨hpc, honce, rfl⟩ | ⟨hpc, honce, rfl⟩ | ⟨hpc, rfl⟩ |
      ⟨k, hpc, hconn, rfl⟩ | ⟨hpc, hconn, rfl⟩ | ⟨k, hpc, rfl⟩ | ⟨hpc, -, rfl⟩
  all_goals
    refine ⟨?_, ?_, ?_, ?_, ?_⟩
    all_goals
      simp only [setStop]
      grind [Function.update_apply, StopPc.Inside]

theorem inv_stepStop (h : f.Inv) {t : Nat} {a : StopAct} (hg : f.stepStop t a = some g) :
    g.Inv := by
  refine ⟨?_, once_stepStop h.once hg, ?_⟩ <;>
    rcases stepStop_cases hg with ⟨hpc, rfl⟩ | ⟨hpc, -, rfl⟩ | ⟨hpc, -, rfl⟩ | ⟨hpc, rfl⟩ |
      ⟨j, hpc, hconn, rfl⟩ | ⟨hpc, hconn, rfl⟩ | ⟨j, hpc, rfl⟩ | ⟨hpc, -, rfl⟩
  · exact h.conns.caller (by simp [hpc]) rfl rfl rfl rfl rfl
  · exact h.conns.caller (by simp [hpc]) rfl rfl rfl rfl rfl
  · exact h.conns.caller (by simp [hpc]) rfl rfl rfl rfl rfl
  · exact h.conns.caller (by simp [hpc]) rfl rfl rfl rfl rfl
  · refine ⟨fun k hk => (Option.some_ne_none k hk.symm).elim, ?_⟩
    intro k hk
    rcases h.conns.kept k hk with hc | hr | hp | hs
    · exact .inl hc
    · exact .inr (.inl hr)
    · obtain rfl := Option.some.inj (hconn.symm.trans hp)
      exact .inr (.inr (.inr ⟨t, Function.update_self ..⟩))
    · exact .inr (.inr (.inr (caller_update hs (by simp [hpc]))))
  · exact h.conns.caller (by simp [hpc]) rfl rfl rfl rfl rfl
  · refine ⟨h.conns.published, ?_⟩
    intro k hk
    by_cases hkj : k = j
    · exact .inl (hkj ▸ List.mem_cons_self)
    · rcases h.conns.kept k hk with hc | hr | hp | hs
      · exact .inl (List.mem_cons_of_mem j hc)
      · exact .inr (.inl hr)
      · exact .inr (.inr (.inl hp))
      · exact .inr (.inr (.inr (caller_update hs (by simp [hpc, Ne.symm hkj]))))
  · exact h.conns.caller (by simp [hpc]) rfl rfl rfl rfl rfl
  · exact h.reads.caller (by simp [hpc]) (by simp [hpc]) rfl rfl rfl rfl (.inl rfl)
  · exact h.reads.caller (by simp [hpc]) (by simp [hpc]) rfl rfl rfl rfl (.inl rfl)
  · exact h.reads.caller (by simp [hpc]) (by simp [hpc]) rfl rfl rfl rfl (.inl rfl)
  · exact h.reads.caller (by simp [hpc]) (by simp [hpc]) rfl rfl rfl rfl (.inr rfl)
  · refine ⟨?_, fun _ k hk => (Option.some_ne_none k hk.symm).elim⟩
    intro k hk
    rcases h.reads.within k hk with hc | hp | hs
    · exact .inl hc
    · obtain rfl := Option.some.inj (hconn.symm.trans hp)
      exact .inr (.inr ⟨t, Function.update_self ..⟩)
    · exact .inr (.inr (caller_update hs (by simp [hpc])))
  · refine ⟨?_, fun _ k hk => (Option.some_ne_none k (hk.symm.trans hconn)).elim⟩
    intro k hk
    rcases h.reads.within k hk with hc | hp | hs
    · exact .inl hc
    · exact .inr (.inl hp)
    · exact .inr (.inr (caller_update hs (by simp [hpc])))
  · refine ⟨?_, fun hpast k hk hstop =>
      caller_update (h.reads.stopping hpast k hk hstop) (by simp [hpc])⟩
    intro k hk
    by_cases hkj : k = j
    · exact .inl (hkj ▸ List.mem_cons_self)
    · rcases h.reads.within k hk with hc | hp | hs
      · exact .inl (List.mem_cons_of_mem j hc)
      · exact .inr (.inl hp)
      · exact .inr (.inr (caller_update hs (by simp [hpc, Ne.symm hkj])))
  · exact h.reads.caller (by simp [hpc]) (by simp [hpc]) rfl rfl rfl rfl (.inl rfl)

theorem inv_step (h : f.Inv) {a : FeedAct} (hg : f.step c limit a = some g) : g.Inv := by
  cases a with
  | run a => exact inv_stepRun h hg
  | stop t a => exact inv_stepStop h hg
  | hangUp k =>
    cases hg
    exact ⟨⟨h.conns.published, h.conns.kept⟩, h.once.same rfl rfl rfl,
      ⟨h.reads.within, h.reads.stopping⟩⟩
  | read a =>
    simp only [step] at hg
    split_ifs at hg
    obtain ⟨ring, -, rfl⟩ := Option.map_eq_some_iff.mp hg
    exact ⟨⟨h.conns.published, h.conns.kept⟩, h.once.same rfl rfl rfl,
      ⟨h.reads.within, h.reads.stopping⟩⟩

theorem Reachable.inv (h : f.Reachable c limit) : f.Inv := by
  obtain ⟨mem, acts, hrun⟩ := h
  exact Steps.run_keeps (fun hs ht => inv_step hs ht) (inv_new mem) hrun

theorem Reachable.step (h : f.Reachable c limit) {a : FeedAct} (hg : f.step c limit a = some g) :
    g.Reachable c limit := by
  obtain ⟨mem, acts, hrun⟩ := h
  refine ⟨mem, acts ++ [a], ?_⟩
  rw [Steps.run_append, hrun, Option.bind_some, Steps.run_cons, hg]
  rfl

/-- `Stop` has done its part, and `Run` has not begun or is at its end. -/
structure Quiet (f : WebSocketFeed) : Prop where
  once : f.stopOnce = .done
  run : f.run = .ready ∨ f.run = .top ∨ f.run = .returned

/-- Nobody holds a connection then. -/
theorem Quiet.closed (h : f.Quiet) (hinv : f.Inv) {k : Nat} (hk : k < f.dials) : k ∈ f.closed := by
  obtain ⟨honce, hrun⟩ := h
  rcases hinv.conns.kept k hk with hc | hr | hp | ⟨t, ht⟩
  · exact hc
  · rcases hrun with hrun | hrun | hrun <;> simp [hrun, RunPc.conn] at hr
  · have hpub := hinv.conns.published k hp
    rcases hrun with hrun | hrun | hrun <;> simp [hrun, RunPc.Publishes] at hpub
  · have hin := hinv.once.inside t (by simp [ht, StopPc.Inside])
    simp [honce] at hin

/-- What the feed has taken from the exchange, and what it has made of it. -/
def Taken (f g : WebSocketFeed) : Prop :=
  g.dials = f.dials ∧ g.received = f.received ∧ g.dropped = f.dropped ∧
    g.ring.written = f.ring.written

theorem Taken.refl (f : WebSocketFeed) : Taken f f := ⟨rfl, rfl, rfl, rfl⟩

theorem Taken.trans {e : WebSocketFeed} (h : Taken e f) (h' : Taken f g) : Taken e g :=
  ⟨h'.1.trans h.1, h'.2.1.trans h.2.1, h'.2.2.1.trans h.2.2.1, h'.2.2.2.trans h.2.2.2⟩

/-- From there on only callers of `Stop`, the exchange and the reader of the ring do anything. -/
theorem Quiet.step (h : f.Quiet) (hinv : f.Inv) {a : FeedAct} (hg : f.step c limit a = some g) :
    g.Quiet ∧ Taken f g := by
  obtain ⟨honce, hrun⟩ := h
  have hstop := hinv.once.closed honce
  cases a with
  | run a =>
    rcases hrun with hrun | hrun | hrun <;>
      cases a <;> simp only [WebSocketFeed.step, stepRun, hrun, reduceCtorEq] at hg
    · cases hg
      exact ⟨⟨honce, .inr (.inl rfl)⟩, Taken.refl _⟩
    · cases hg
      exact ⟨⟨honce, .inr (.inr (if_pos hstop))⟩, Taken.refl _⟩
  | stop t a =>
    have hin := hinv.once.inside t
    simp only [honce, reduceCtorEq, imp_false] at hin
    rcases stepStop_cases hg with ⟨-, rfl⟩ | ⟨-, hfresh, -⟩ | ⟨-, -, rfl⟩ | ⟨hpc, -⟩ |
        ⟨k, hpc, -⟩ | ⟨hpc, -⟩ | ⟨k, hpc, -⟩ | ⟨-, -, rfl⟩
    · exact ⟨⟨honce, hrun⟩, Taken.refl _⟩
    · simp [honce] at hfresh
    · exact ⟨⟨honce, hrun⟩, Taken.refl _⟩
    · simp [hpc, StopPc.Inside] at hin
    · simp [hpc, StopPc.Inside] at hin
    · simp [hpc, StopPc.Inside] at hin
    · simp [hpc, StopPc.Inside] at hin
    · exact ⟨⟨honce, hrun⟩, Taken.refl _⟩
  | hangUp k =>
    cases hg
    exact ⟨⟨honce, hrun⟩, Taken.refl _⟩
  | read a =>
    simp only [WebSocketFeed.step] at hg
    split_ifs at hg with hread
    obtain ⟨ring, hring, rfl⟩ := Option.map_eq_some_iff.mp hg
    rw [Ring.step, if_pos hread] at hring
    exact ⟨⟨honce, hrun⟩, rfl, rfl, rfl, (Ring.stepRead_written hring).2⟩

/-- When a call of `Stop` returns every connection ever dialled is closed, and from then on none is
dialled and nothing goes into the ring. -/
theorem stop_leaves_nothing {mem : Nat → UInt8} {acts later : List FeedAct} {t : Nat}
    (hf : Steps.run (step c limit) (new mem) (acts ++ [.stop t .wait]) = some f)
    (hg : Steps.run (step c limit) f later = some g) :
    (∀ k < g.dials, k ∈ g.closed) ∧ Taken f g := by
  obtain ⟨e, he, hwait⟩ := Steps.run_concat_some hf
  have hinv : e.Inv := Reachable.inv ⟨mem, acts, he⟩
  have hquiet : f.Quiet := by
    simp only [step, stepStop] at hwait
    split at hwait
    · rename_i hpc
      split_ifs at hwait with hrun
      cases hwait
      exact ⟨hinv.once.waiting t hpc, hrun.imp_right .inr⟩
    · cases hwait
  have hkeep : ∀ {s : WebSocketFeed} {a : FeedAct} {u : WebSocketFeed}, s.Inv ∧ s.Quiet →
      s.step c limit a = some u → u.Inv ∧ u.Quiet :=
    fun hs hu => ⟨inv_step hs.1 hu, (hs.2.step hs.1 hu).1⟩
  have hsame : ∀ {s : WebSocketFeed} {a : FeedAct} {u : WebSocketFeed}, s.Inv ∧ s.Quiet →
      s.step c limit a = some u → Taken s u :=
    fun hs hu => (hs.2.step hs.1 hu).2
  have hstart : f.Inv ∧ f.Quiet := ⟨inv_step hinv hwait, hquiet⟩
  have hend := Steps.run_keeps hkeep hstart hg
  exact ⟨fun k hk => hend.2.closed hend.1 hk,
    Steps.run_relates Taken.refl Taken.trans hkeep hsame hstart hg⟩

/-- A connection is dialled and read, `Stop` closes it, and the reader of the ring comes by later. -/
def stopActs : List FeedAct :=
  [.run .start, .run .check, .run .dialOk, .run .store, .run .load, .run .poll, .stop 0 .call,
    .stop 0 .enter, .stop 0 .closeStop, .stop 0 .swap, .stop 0 .close, .run .readError,
    .run .swapOut, .run .close, .run .check]

theorem stop_leaves_nothing_one :
    ∃ f g, Steps.run (step ⟨4, 2, rfl⟩ 9) (new fun _ => 0) (stopActs ++ [.stop 0 .wait]) = some f ∧
      Steps.run (step ⟨4, 2, rfl⟩ 9) f [.read (.readBegin [0]), .hangUp 0] = some g ∧
      g.dials = 1 ∧ (∀ k < g.dials, k ∈ g.closed) ∧ Taken f g := by
  have hrun : ∃ f ∈ Steps.run (step ⟨4, 2, rfl⟩ 9) (new fun _ => 0) (stopActs ++ [.stop 0 .wait]),
      ∃ g ∈ Steps.run (step ⟨4, 2, rfl⟩ 9) f [.read (.readBegin [0]), .hangUp 0], g.dials = 1 := by
    decide
  obtain ⟨f, hf, g, hg, hdials⟩ := hrun
  exact ⟨f, g, hf, hg, hdials, stop_leaves_nothing hf hg⟩

end WebSocketFeed

end Flowlab.Ingest
