import Flowlab.Core.State
import Flowlab.Framework.Halting

namespace Flowlab.Replay

open Flowlab.Core (SequencedEvent ReplayState StateError Xxh3 toNat_succ)
open Framework

/-- What a completed `replay` reports. -/
structure ReplayResult where
  eventsProcessed : UInt64
  finalHash : UInt64
  lastSeq : UInt64
  deriving DecidableEq, Repr

inductive ReplayError where
  | sequenceGap (expected got eventsProcessed : UInt64)
  deriving DecidableEq, Repr

@[ext] structure ReplayEngine where
  state : ReplayState
  eventsProcessed : UInt64

namespace ReplayEngine

def new (instrumentId : UInt32) : ReplayEngine := ⟨ReplayState.new instrumentId, 0⟩

def result (g : ReplayEngine) : ReplayResult :=
  ⟨g.eventsProcessed, g.state.hash, g.state.lastSeq.getD 0⟩

/-- Replay a slice of events; halts on the first sequence gap. -/
def replay (x : Xxh3) (g : ReplayEngine) :
    List SequencedEvent → ReplayEngine × Except ReplayError ReplayResult
  | [] => (g, .ok g.result)
  | ev :: evs =>
    match g.state.process x ev with
    | (s, .error (.sequenceGap expected got)) =>
      ({ g with state := s }, .error (.sequenceGap expected got g.eventsProcessed))
    | (s, .ok _) => replay x ⟨s, g.eventsProcessed + 1⟩ evs

/-- The engine after one accepted event. -/
def accept (x : Xxh3) (g : ReplayEngine) (ev : SequencedEvent) : ReplayEngine :=
  ⟨g.state.accept x ev, g.eventsProcessed + 1⟩

/-- Sequence numbers that stay clear of the end of the 64-bit range. -/
def Numbered (evs : List SequencedEvent) : Prop := ∀ ev ∈ evs, ev.seq.toNat < 2 ^ 64 - 1

/-- Reached from a fresh engine by earlier calls, failed ones included. -/
def Reachable (x : Xxh3) (g : ReplayEngine) : Prop :=
  ∃ (instrumentId : UInt32) (calls : List (List SequencedEvent)), (∀ evs ∈ calls, Numbered evs) ∧
    g = calls.foldl (fun g evs => (g.replay x evs).1) (new instrumentId)

/-- The numbers run on by one, each as a whole number, from the last accepted one if there is any. -/
def Consecutive : Option UInt64 → List SequencedEvent → Prop
  | _, [] => True
  | last, ev :: evs =>
    (∀ l, last = some l → ev.seq.toNat = l.toNat + 1) ∧ Consecutive (some ev.seq) evs

abbrev Accepted (x : Xxh3) : ReplayEngine → List SequencedEvent → Prop :=
  Halting.Accepted (fun g ev => g.state.Follows ev) (accept x)

theorem replay_accepted (x : Xxh3) {g : ReplayEngine} {p : List SequencedEvent}
    (h : Accepted x g p) (r : List SequencedEvent) :
    g.replay x (p ++ r) = (p.foldl (accept x) g).replay x r := by
  induction p generalizing g with
  | nil => rfl
  | cons ev p ih =>
    rw [List.cons_append, replay, ReplayState.process_accepted x h.1]
    exact ih h.2

/-- An accepted list replays to its end. -/
theorem replay_all (x : Xxh3) {g : ReplayEngine} {p : List SequencedEvent} (h : Accepted x g p) :
    g.replay x p = (p.foldl (accept x) g, .ok (p.foldl (accept x) g).result) := by
  have hall := replay_accepted x h []
  rwa [List.append_nil] at hall

theorem replay_refused (x : Xxh3) {g : ReplayEngine} {ev : SequencedEvent}
    (h : ¬ g.state.Follows ev) (r : List SequencedEvent) :
    ∃ last, g.state.lastSeq = some last ∧ ev.seq ≠ last + 1 ∧
      g.replay x (ev :: r) = (g, .error (.sequenceGap (last + 1) ev.seq g.eventsProcessed)) := by
  obtain ⟨last, hl, hne, hproc⟩ := ReplayState.process_refused x h
  exact ⟨last, hl, hne, by rw [replay, hproc]⟩

theorem eventsProcessed_foldl (x : Xxh3) (g : ReplayEngine) (p : List SequencedEvent) :
    (p.foldl (accept x) g).eventsProcessed = g.eventsProcessed + UInt64.ofNat p.length := by
  induction p generalizing g with
  | nil => simp
  | cons ev p ih =>
    rw [List.foldl_cons, ih, accept, List.length_cons, UInt64.ofNat_add, UInt64.add_assoc,
      UInt64.add_comm 1]
    rfl

/-- Away from the end of the range the sequence check is consecutive numbering. -/
theorem accepted_iff_consecutive (x : Xxh3) {g : ReplayEngine} {p : List SequencedEvent}
    (hg : ∀ l, g.state.lastSeq = some l → l.toNat < 2 ^ 64 - 1) (hp : Numbered p) :
    Accepted x g p ↔ Consecutive g.state.lastSeq p := by
  induction p generalizing g with
  | nil => exact Iff.rfl
  | cons ev p ih =>
    have hlast : ∀ l, (accept x g ev).state.lastSeq = some l → l.toNat < 2 ^ 64 - 1 := by
      intro l hl
      rw [← Option.some.inj hl]
      exact hp ev List.mem_cons_self
    refine and_congr (forall₂_congr ?_) (ih hlast (fun d hd => hp d (List.mem_cons_of_mem ev hd)))
    intro l hl
    rw [← UInt64.toNat_inj, toNat_succ (hg l hl)]

/-- The last accepted number is always one of the numbers replayed. -/
theorem lastSeq_replay (x : Xxh3) {g : ReplayEngine}
    (hg : ∀ l, g.state.lastSeq = some l → l.toNat < 2 ^ 64 - 1) {evs : List SequencedEvent}
    (hevs : Numbered evs) :
    ∀ l, (g.replay x evs).1.state.lastSeq = some l → l.toNat < 2 ^ 64 - 1 := by
  induction evs generalizing g with
  | nil => exact hg
  | cons ev evs ih =>
    by_cases h : g.state.Follows ev
    · rw [replay, ReplayState.process_accepted x h]
      refine ih ?_ (fun d hd => hevs d (List.mem_cons_of_mem ev hd))
      intro l hl
      rw [← Option.some.inj hl]
      exact hevs ev List.mem_cons_self
    · obtain ⟨last, _, _, hr⟩ := replay_refused x h evs
      rw [hr]
      exact hg

theorem lastSeq_reachable (x : Xxh3) {g : ReplayEngine} (h : g.Reachable x) :
    ∀ l, g.state.lastSeq = some l → l.toNat < 2 ^ 64 - 1 := by
  obtain ⟨instrumentId, calls, hcalls, rfl⟩ := h
  induction calls using List.reverseRecOn with
  | nil =>
    intro l hl
    exact absurd hl (by simp [new, ReplayState.new])
  | append_singleton calls evs ih =>
    rw [List.foldl_append]
    exact lastSeq_replay x (ih (fun c hc => hcalls c (List.mem_append_left _ hc)))
      (hcalls evs (by simp))

/-- What `replay` owes its caller on the list `evs`: it takes the longest consecutive beginning `p`
and nothing of the rest `r`, and it names the gap when there is a rest. -/
structure TakesLongest (x : Xxh3) (g : ReplayEngine) (evs p r : List SequencedEvent) : Prop where
  split : evs = p ++ r
  consecutive : Consecutive g.state.lastSeq p
  longest : ∀ q, q <+: evs → Consecutive g.state.lastSeq q → q <+: p
  state : (g.replay x evs).1 = p.foldl (accept x) g
  alone : g.replay x p = ((g.replay x evs).1, .ok (g.replay x evs).1.result)
  total : (g.replay x evs).1.eventsProcessed = g.eventsProcessed + UInt64.ofNat p.length
  done : r = [] → (g.replay x evs).2 = .ok (g.replay x evs).1.result
  gap : ∀ ev r', r = ev :: r' → ∃ last, (g.replay x evs).1.state.lastSeq = some last ∧
    ev.seq.toNat ≠ last.toNat + 1 ∧ (last + 1).toNat = last.toNat + 1 ∧
    (g.replay x evs).2 =
      .error (.sequenceGap (last + 1) ev.seq (g.replay x evs).1.eventsProcessed)

theorem exists_takesLongest (x : Xxh3) {g : ReplayEngine}
    (hg : ∀ l, g.state.lastSeq = some l → l.toNat < 2 ^ 64 - 1) {evs : List SequencedEvent}
    (hevs : Numbered evs) : ∃ p r, g.TakesLongest x evs p r := by
  obtain ⟨p, r, hsplit, hacc, hstop⟩ :=
    Halting.exists_split (fun g ev => g.state.Follows ev) (accept x) g evs
  have hnum {q : List SequencedEvent} (hq : q <+: evs) : Numbered q :=
    fun ev hev => hevs ev (hq.subset hev)
  have hp : p <+: evs := hsplit ▸ List.prefix_append p r
  have hall := replay_all x hacc
  have hlast := lastSeq_replay x hg (hnum hp)
  rw [hall] at hlast
  have hstate : (g.replay x evs).1 = p.foldl (accept x) g ∧
      (r = [] → (g.replay x evs).2 = .ok (p.foldl (accept x) g).result) ∧
      ∀ ev r', r = ev :: r' → ∃ last, (p.foldl (accept x) g).state.lastSeq = some last ∧
        ev.seq.toNat ≠ last.toNat + 1 ∧ (last + 1).toNat = last.toNat + 1 ∧
        (g.replay x evs).2 =
          .error (.sequenceGap (last + 1) ev.seq (p.foldl (accept x) g).eventsProcessed) := by
    rw [hsplit, replay_accepted x hacc r]
    cases r with
    | nil => exact ⟨rfl, fun _ => rfl, fun ev r' h => absurd h (by simp)⟩
    | cons ev r =>
      obtain ⟨last, hl, hne, hr⟩ := replay_refused x (hstop ev r rfl) r
      have hsucc := toNat_succ (hlast last hl)
      rw [hr]
      refine ⟨rfl, fun h => absurd h (by simp), ?_⟩
      intro ev' r' h
      rw [← (List.cons.inj h).1]
      refine ⟨last, hl, fun he => hne (UInt64.toNat_inj.mp ?_), hsucc, rfl⟩
      rw [he, hsucc]
  obtain ⟨hst, hdone, hgap⟩ := hstate
  refine ⟨p, r, hsplit, (accepted_iff_consecutive x hg (hnum hp)).mp hacc, ?_, hst, ?_, ?_, ?_, ?_⟩
  · intro q hq hcons
    have hq' : q <+: p ++ r := hsplit ▸ hq
    exact Halting.longest_of_split hstop hq' ((accepted_iff_consecutive x hg (hnum hq)).mpr hcons)
  · rw [hall, hst]
  · rw [hst, eventsProcessed_foldl]
  · rw [hst]
    exact hdone
  · rw [hst]
    exact hgap

/-- A call that succeeds can be cut off anywhere before what follows. -/
theorem replay_append (x : Xxh3) {g : ReplayEngine} {a : List SequencedEvent} {res : ReplayResult}
    (h : (g.replay x a).2 = .ok res) (b : List SequencedEvent) :
    g.replay x (a ++ b) = (g.replay x a).1.replay x b := by
  induction a generalizing g with
  | nil => rfl
  | cons ev a ih =>
    by_cases hf : g.state.Follows ev
    · rw [replay, ReplayState.process_accepted x hf] at h
      rw [List.cons_append, replay, replay, ReplayState.process_accepted x hf]
      exact ih h
    · obtain ⟨last, _, _, hr⟩ := replay_refused x hf a
      rw [hr] at h
      exact absurd h (by simp)

end ReplayEngine

/-- From every reachable engine `replay` takes the longest consecutive beginning of any list, with
state, count and result as if nothing followed, and a successful call continues where it ended. -/
theorem replayEngine_takes_longest (x : Xxh3) {g : ReplayEngine} (hg : g.Reachable x) :
    (∀ evs, ReplayEngine.Numbered evs → ∃ p r, g.TakesLongest x evs p r) ∧
    (∀ a b, ReplayEngine.Numbered (a ++ b) → ∀ res, (g.replay x a).2 = .ok res →
      g.replay x (a ++ b) = (g.replay x a).1.replay x b) := by
  refine ⟨?_, ?_⟩
  · intro evs hevs
    exact ReplayEngine.exists_takesLongest x (ReplayEngine.lastSeq_reachable x hg) hevs
  · intro a b _ res h
    exact ReplayEngine.replay_append x h b

/-- A call that anchors the numbering at 7 and a second one that repeats it. -/
theorem replayEngine_takes_longest_repeat :
    ∃ p r, (((ReplayEngine.new 1).replay ⟨fun _ => 3, fun _ s => s⟩
        [⟨7, 0, ⟨0, 10, 5, 1, 1, 1, 0⟩, (0, 0)⟩]).1).TakesLongest ⟨fun _ => 3, fun _ s => s⟩
      [⟨8, 0, ⟨1, 0, 2, 1, 1, 4, 0⟩, (0, 0)⟩, ⟨8, 0, ⟨1, 0, 2, 1, 1, 4, 0⟩, (0, 0)⟩] p r := by
  refine (replayEngine_takes_longest _ ⟨1, [[⟨7, 0, ⟨0, 10, 5, 1, 1, 1, 0⟩, (0, 0)⟩]], ?_, rfl⟩).1 _ ?_
  · simp [ReplayEngine.Numbered]
  · simp [ReplayEngine.Numbered]

end Flowlab.Replay
