import Flowlab.Engine.HardLock
import Flowlab.Replay.SnapshotFile

namespace Flowlab.Engine

open Framework
open Flowlab.Core (BookSnapshotError HotOrderBook Xxh3)
open Flowlab.Replay (Files Snapshot SnapshotFile SnapshotIoError WriteAct WritePc)

inductive ResumeError where
  | reading (e : SnapshotIoError)
  | restoring (e : BookSnapshotError)
  deriving DecidableEq, Repr

/-- The engine `main` builds under `--resume-from`. -/
def resumeFrom (cfg : EngineConfig) (files : Files) (path : List Char) :
    Except ResumeError Engine :=
  match Snapshot.readFromPath files path with
  | .error e => .error (.reading e)
  | .ok snap =>
    match withSnapshot cfg snap with
    | .error e => .error (.restoring e)
    | .ok e => .ok e

/-- The snapshot file and the process that writes it, when one runs, with the engines whose
snapshots were renamed into place, the last one first. -/
structure Host where
  disk : SnapshotFile
  process : Option Running
  renamed : List Engine

inductive HostAct where
  | boot (resume : Bool) (now : Nat)
  | pull (p : Pull)
  | file (a : WriteAct)
  | kill

namespace Host

/-- No process and no snapshot. -/
def Blank (path : List Char) (h : Host) : Prop :=
  h.disk.files path = none ∧ h.disk.pc = .idle ∧ h.disk.saved = none ∧ h.process = none ∧
    h.renamed = []

/-- The loop waits while it writes a snapshot. `--snapshot-out` and `--resume-from` name the same
file. -/
def step (x : Xxh3) (cfg : EngineConfig) (path : List Char) (h : Host) : HostAct → Option Host
  | .boot resume now =>
    match h.process with
    | some _ => none
    | none =>
      match if resume then resumeFrom cfg h.disk.files path else .ok (new cfg) with
      | .error _ => none
      | .ok e => some { h with process := some (.start e now) }
  | .pull p =>
    match h.process, h.disk.pc with
    | some r, .idle =>
      let t := r.step x p
      match t.2 with
      | none => some { h with process := some t.1 }
      | some s => some { h with process := some t.1, disk := { h.disk with pc := .begun s } }
    | _, _ => none
  | .file a =>
    match h.process, h.disk.step path a with
    | some r, some disk =>
      if a = .rename then some { h with disk := disk, renamed := r.engine :: h.renamed }
      else some { h with disk := disk }
    | _, _ => none
  | .kill =>
    match h.process with
    | none => none
    | some _ => some { h with process := none, disk := { h.disk with pc := .idle } }

/-- The snapshots are within what their length field can declare. -/
def Short (h : Host) : Prop := ∀ e ∈ h.renamed, e.book.toSnapshotBytes.length < 2 ^ 32

end Host

/-- An engine under its configuration that can be restored. -/
structure Sane (cfg : EngineConfig) (e : Engine) : Prop where
  cfg : e.cfg = cfg
  restorable : e.Restorable

theorem step_cfg (x : Xxh3) (r : Running) (p : Pull) : (r.step x p).1.engine.cfg = r.engine.cfg := by
  have hfilter : ((r.engine.rearm p.elapsedAt).filter p.event p.lockedAt).1.cfg = r.engine.cfg := by
    rw [← (r.engine.rearm_keeps p.elapsedAt).1]
    rcases filter_cases (r.engine.rearm p.elapsedAt) p.event p.lockedAt with
      ⟨_, hs⟩ | ⟨_, hs, _⟩ | ⟨_, _, _, heq⟩
    · exact hs.cfg
    · exact hs.cfg
    · rw [heq, lockOnto]
  rw [step_engine]
  split_ifs
  · exact hfilter
  · exact hfilter

theorem Sane.step {cfg : EngineConfig} {r : Running} (h : Sane cfg r.engine) (x : Xxh3) (p : Pull) :
    Sane cfg (r.step x p).1.engine :=
  ⟨(step_cfg x r p).trans h.cfg, h.restorable.step x p⟩

/-- What every step of a host keeps. -/
structure Host.Inv (x : Xxh3) (cfg : EngineConfig) (path : List Char) (h : Host) : Prop where
  disk : h.disk.Inv path
  saved : h.disk.saved = h.renamed.head?.map (snapshot · x)
  written : ∀ s, h.disk.pc.snapshot = some s → ∃ r, h.process = some r ∧ s = r.engine.snapshot x
  sane : h.Short → (∀ e ∈ h.renamed, Sane cfg e) ∧ ∀ r, h.process = some r → Sane cfg r.engine

/-- The engine that goes on where another was written. -/
structure Continues (cfg : EngineConfig) (e e' : Engine) : Prop where
  cfg : e'.cfg = cfg
  book : e'.book = e.book
  seq : e'.seq = e.seq
  tracked : e'.tracked = some e.book.instrumentId

/-- A short snapshot is one of a short slab. -/
theorem data_of_short {M : Nat} {b : HotOrderBook M} (h : b.toSnapshotBytes.length < 2 ^ 32) :
    b.orders.data.length < 2 ^ 32 := by
  simp only [HotOrderBook.toSnapshotBytes, List.length_append,
    Bytes.length_flatMap_of (fun m _ => Core.length_writeMeta m)] at h
  omega

/-- A short snapshot of a sound engine brings it back. -/
theorem continues_of_short (cfg : EngineConfig) (x : Xxh3) {e : Engine} (hr : e.Restorable)
    (hshort : e.book.toSnapshotBytes.length < 2 ^ 32) :
    ∃ e', withSnapshot cfg ⟨e.seq, e.book.canonicalL2Hash x,
      e.book.toSnapshotBytes.take (2 ^ 32 - 1)⟩ = .ok e' ∧ Continues cfg e e' := by
  have hsound := hr (data_of_short hshort)
  have hwhole : e.book.toSnapshotBytes.take (2 ^ 32 - 1) = e.book.toSnapshotBytes :=
    List.take_of_length_le (by omega)
  simp only [hwhole, withSnapshot, HotOrderBook.fromSnapshotBytes_toSnapshotBytes hsound]
  exact ⟨_, rfl, rfl, rfl, rfl, rfl⟩

namespace Host

variable {x : Xxh3} {cfg : EngineConfig} {path : List Char} {h g : Host}

theorem Blank.inv (hb : h.Blank path) : h.Inv x cfg path := by
  obtain ⟨hfile, hpc, hsaved, hproc, hrenamed⟩ := hb
  refine ⟨⟨by rw [hfile, hsaved]; rfl, ?_, ?_⟩, by rw [hsaved, hrenamed]; rfl, ?_, ?_⟩
  · intro s rest hs
    exact absurd (hpc.symm.trans hs) nofun
  · intro s hs
    exact absurd (hpc.symm.trans hs) nofun
  · intro s hs
    rw [hpc] at hs
    cases hs
  · intro _
    rw [hrenamed, hproc]
    exact ⟨by simp, by simp⟩

/-- What `--resume-from` finds. -/
theorem Inv.resume (hi : h.Inv x cfg path) (hshort : h.Short) :
    match h.renamed with
    | [] => resumeFrom cfg h.disk.files path = .error (.reading .notFound)
    | e :: _ => ∃ e', resumeFrom cfg h.disk.files path = .ok e' ∧ Continues cfg e e' := by
  have hread := hi.disk.read
  rw [hi.saved] at hread
  cases hren : h.renamed with
  | nil =>
    rw [hren] at hread
    simp only [resumeFrom, hread, List.head?_nil, Option.map_none]
  | cons e es =>
    rw [hren] at hread
    have hmem : e ∈ h.renamed := hren ▸ List.mem_cons_self
    have hr := ((hi.sane hshort).1 e hmem).restorable
    obtain ⟨e', he', hcont⟩ := continues_of_short cfg x hr (hshort e hmem)
    refine ⟨e', ?_, hcont⟩
    simp only [resumeFrom, hread, List.head?_cons, Option.map_some, snapshot, he']

/-- An engine that boots can be restored from its own snapshots. -/
theorem Inv.boots (hi : h.Inv x cfg path) (hshort : h.Short) {resume : Bool} {e : Engine}
    (he : (if resume then resumeFrom cfg h.disk.files path else .ok (new cfg)) = .ok e) :
    Sane cfg e := by
  cases resume with
  | false =>
    cases he
    exact ⟨by rw [new], fun _ => HotOrderBook.sound_new (by norm_num) cfg.instrumentId⟩
  | true =>
    rw [if_pos rfl] at he
    have hres := hi.resume hshort
    cases hren : h.renamed with
    | nil =>
      rw [hren] at hres
      cases hres.symm.trans he
    | cons e₀ es =>
      rw [hren] at hres
      obtain ⟨e', he', hcont⟩ := hres
      obtain rfl := Except.ok.inj (he'.symm.trans he)
      have hkept := ((hi.sane hshort).1 e₀ (hren ▸ List.mem_cons_self)).restorable
      refine ⟨hcont.cfg, ?_⟩
      rw [Restorable, hcont.book]
      exact hkept

theorem Inv.step (hi : h.Inv x cfg path) {a : HostAct} (hg : h.step x cfg path a = some g) :
    g.Inv x cfg path := by
  obtain ⟨hdisk, hsaved, hwritten, hrest⟩ := hi
  have hi : h.Inv x cfg path := ⟨hdisk, hsaved, hwritten, hrest⟩
  cases a with
  | boot resume now =>
    simp only [Host.step] at hg
    split at hg
    · cases hg
    · rename_i hproc
      split at hg
      · cases hg
      · rename_i e he
        cases hg
        refine ⟨hdisk, hsaved, ?_, ?_⟩
        · intro s hs
          obtain ⟨r, hr, _⟩ := hwritten s hs
          exact absurd (hproc.symm.trans hr) nofun
        · intro hshort
          refine ⟨(hrest hshort).1, ?_⟩
          intro r hr
          cases hr
          exact hi.boots hshort he
  | pull p =>
    simp only [Host.step] at hg
    split at hg
    · rename_i r hproc hpc
      have hkept : ∀ disk, (Host.mk disk (some (r.step x p).1) h.renamed).Short →
          (∀ e ∈ h.renamed, Sane cfg e) ∧
            ∀ r', some (r.step x p).1 = some r' → Sane cfg r'.engine := by
        intro disk hshort
        obtain ⟨hall, hrun⟩ := hrest hshort
        refine ⟨hall, ?_⟩
        intro r' hr'
        cases hr'
        exact (hrun r hproc).step x p
      split at hg
      · cases hg
        refine ⟨hdisk, hsaved, ?_, hkept _⟩
        intro s hs
        rw [hpc] at hs
        cases hs
      · rename_i s hs
        cases hg
        refine ⟨⟨hdisk.saved, nofun, nofun⟩, hsaved, ?_, hkept _⟩
        intro s' hs'
        cases hs'
        exact ⟨_, rfl, step_snapshot hs⟩
    · cases hg
  | file a =>
    simp only [Host.step] at hg
    split at hg
    · rename_i r disk hproc hstep
      have hdisk' := hdisk.step hstep
      rcases SnapshotFile.step_snapshot hstep with ⟨hren, hsav, hpc, hbusy⟩ | ⟨hne, hsav, hpc⟩
      · rw [if_pos hren] at hg
        cases hg
        obtain ⟨s, hs⟩ : ∃ s, h.disk.pc.snapshot = some s := by
          cases hp : h.disk.pc with
          | idle => exact absurd hp hbusy
          | begun s | writing s rest | written s => exact ⟨s, rfl⟩
        obtain ⟨r', hr', hsnap⟩ := hwritten s hs
        obtain rfl := Option.some.inj (hproc.symm.trans hr')
        refine ⟨hdisk', ?_, ?_, ?_⟩
        · change disk.saved = some (r.engine.snapshot x)
          rw [hsav, hs, hsnap]
        · intro s' hs'
          change disk.pc.snapshot = some s' at hs'
          rw [hpc] at hs'
          cases hs'
        · intro hshort
          obtain ⟨hall, hrun⟩ := hrest fun e he => hshort e (List.mem_cons_of_mem _ he)
          refine ⟨?_, hrun⟩
          intro e he
          rcases List.mem_cons.mp he with rfl | he
          · exact hrun r hproc
          · exact hall e he
      · rw [if_neg hne] at hg
        cases hg
        refine ⟨hdisk', hsav.trans hsaved, ?_, hrest⟩
        intro s hs
        change disk.pc.snapshot = some s at hs
        rcases hpc with hidle | hsame
        · rw [hidle] at hs
          cases hs
        · exact hwritten s (hsame.symm.trans hs)
    · cases hg
  | kill =>
    simp only [Host.step] at hg
    split at hg
    · cases hg
    · cases hg
      exact ⟨⟨hdisk.saved, nofun, nofun⟩, hsaved, nofun, fun hshort => ⟨(hrest hshort).1, by simp⟩⟩

end Host

/-- Two engines pinned to one symbol that have the same book and stand at the same event. What their
detectors have seen may differ. -/
structure Alike (id : UInt32) (e e' : Engine) : Prop where
  pinned : e.cfg.trackInstrument ≠ none ∧ e'.cfg.trackInstrument ≠ none
  tracked : e.tracked = some id ∧ e'.tracked = some id
  book : e'.book = e.book
  seq : e'.seq = e.seq

/-- A pinned engine takes the events of its symbol, whenever they come. -/
theorem filter_pinned {e : Engine} {id : UInt32} (hpin : e.cfg.trackInstrument ≠ none)
    (htracked : e.tracked = some id) (p : Pull) :
    ∃ f, (e.rearm p.elapsedAt).filter p.event p.lockedAt =
        (f, decide (p.event.instrumentId = id)) ∧
      f.cfg = e.cfg ∧ f.tracked = e.tracked ∧ f.book = e.book ∧ f.seq = e.seq := by
  have hrearm : e.rearm p.elapsedAt = e := by
    simp only [rearm]
    split
    · rw [if_neg fun h => hpin h.1]
    · rfl
  rw [hrearm, filter, htracked]
  dsimp only
  split_ifs with hid htrade
  · exact ⟨e, by rw [decide_eq_false hid], rfl, htracked, rfl, rfl⟩
  · exact ⟨{ e with lastLockedTradeAt := some p.lockedAt },
      by rw [decide_eq_true (not_not.mp hid), htracked], rfl, htracked, rfl, rfl⟩
  · exact ⟨e, by rw [decide_eq_true (not_not.mp hid)], rfl, htracked, rfl, rfl⟩

theorem Alike.step {id : UInt32} {r r' : Running} (h : Alike id r.engine r'.engine) (x : Xxh3)
    (p : Pull) : Alike id (r.step x p).1.engine (r'.step x p).1.engine := by
  obtain ⟨⟨hpin, hpin'⟩, ⟨htr, htr'⟩, hbook, hseq⟩ := h
  obtain ⟨f, hf, hcfg, htracked, hfbook, hfseq⟩ := filter_pinned hpin htr p
  obtain ⟨f', hf', hcfg', htracked', hfbook', hfseq'⟩ := filter_pinned hpin' htr' p
  have hsame : Alike id f f' := by
    refine ⟨⟨hcfg ▸ hpin, hcfg' ▸ hpin'⟩, ⟨htracked.trans htr, htracked'.trans htr'⟩, ?_, ?_⟩
    · rw [hfbook, hfbook', hbook]
    · rw [hfseq, hfseq', hseq]
  by_cases hid : p.event.instrumentId = id
  · rw [decide_eq_true hid] at hf hf'
    rw [step_taken x hf, step_taken x hf']
    refine ⟨hsame.pinned, hsame.tracked, ?_, ?_⟩
    · change (f'.book.apply p.event).1 = (f.book.apply p.event).1
      rw [hsame.book]
    · change f'.seq + 1 = f.seq + 1
      rw [hsame.seq]
  · rw [decide_eq_false hid] at hf hf'
    rw [step_held x hf, step_held x hf']
    exact hsame

theorem Alike.run {id : UInt32} {r r' : Running} (h : Alike id r.engine r'.engine) (x : Xxh3)
    (pulls : List Pull) : Alike id (r.run x pulls).engine (r'.run x pulls).engine := by
  induction pulls generalizing r r' with
  | nil => exact h
  | cons p pulls ih => exact ih (h.step x p)

/-- **A resume goes on from the last snapshot.** Whatever was killed or failed before, in the middle
of a write or not, the file is missing only as long as no snapshot was renamed into place, and else
the engine that wrote the last one comes back with its book and its position, tracking what the book
is named after; if it was pinned to that symbol, it then goes through the same books as if it had
never stopped. -/
theorem resume_continues (x : Xxh3) (cfg : EngineConfig) (path : List Char) {h₀ h : Host}
    (hblank : h₀.Blank path) {acts : List HostAct}
    (hrun : Steps.run (Host.step x cfg path) h₀ acts = some h) (hshort : h.Short) :
    match h.renamed with
    | [] => resumeFrom cfg h.disk.files path = .error (.reading .notFound)
    | e :: _ => ∃ e', resumeFrom cfg h.disk.files path = .ok e' ∧ Continues cfg e e' ∧
        (cfg.trackInstrument ≠ none → e.tracked = some e.book.instrumentId →
          ∀ now now' pulls,
            ((Running.start e' now').run x pulls).engine.book =
              ((Running.start e now).run x pulls).engine.book ∧
            ((Running.start e' now').run x pulls).engine.seq =
              ((Running.start e now).run x pulls).engine.seq) := by
  have hi : h.Inv x cfg path :=
    Steps.run_keeps (P := Host.Inv x cfg path) (fun hi hg => hi.step hg) hblank.inv hrun
  have hres := hi.resume hshort
  cases hren : h.renamed with
  | nil =>
    rw [hren] at hres
    exact hres
  | cons e es =>
    rw [hren] at hres
    obtain ⟨e', he', hcont⟩ := hres
    refine ⟨e', he', hcont, ?_⟩
    intro hpin htracked now now' pulls
    have hcfg := ((hi.sane hshort).1 e (hren ▸ List.mem_cons_self)).cfg
    have hsame : Alike e.book.instrumentId (Running.start e now).engine
        (Running.start e' now').engine :=
      ⟨⟨hcfg ▸ hpin, hcont.cfg ▸ hpin⟩, ⟨htracked, hcont.tracked⟩, hcont.book, hcont.seq⟩
    have hend := hsame.run x pulls
    exact ⟨hend.book, hend.seq⟩

/-- A turn that writes a snapshot with nothing in its way, and then a kill. -/
def savedActs (p : Pull) (s : Snapshot) : List HostAct :=
  [.pull p, .file .create, .file (.write s.toBytes.length), .file .rename, .kill]

theorem Host.saves {x : Xxh3} {r : Running} {p : Pull} {s : Snapshot} (hs : (r.step x p).2 = some s)
    (cfg : EngineConfig) (path : List Char) {h : Host} (hproc : h.process = some r)
    (hpc : h.disk.pc = .idle) :
    ∃ g, Steps.run (Host.step x cfg path) h (savedActs p s) = some g ∧
      g.renamed = (r.step x p).1.engine :: h.renamed := by
  simp only [savedActs, Steps.run_cons, Host.step, SnapshotFile.step, hproc, hpc, hs,
    Option.bind_some, Function.update_self, Nat.le_refl, if_true, List.take_length, reduceCtorEq,
    if_false, Steps.run_nil]
  exact ⟨_, rfl, rfl⟩

/-- The host before the first start. -/
def blankHost : Host := ⟨⟨fun _ => none, .idle, none⟩, none, []⟩

def engineFlsn : List Char := "engine.flsn".toList

/-- An engine pinned to the symbol of its book is killed after its first snapshot. -/
theorem resume_continues_killed : ∃ acts h e e',
    Steps.run (Host.step someXxh3 (everySecond (some 1)) engineFlsn) blankHost acts = some h ∧
    h.renamed = [e] ∧ resumeFrom (everySecond (some 1)) h.disk.files engineFlsn = .ok e' ∧
    Continues (everySecond (some 1)) e e' := by
  obtain ⟨s, _, hwrites, _⟩ := firstTurn_resumes (some 1) 1 (Or.inr rfl)
  obtain ⟨g, hg, hren⟩ := Host.saves hwrites (everySecond (some 1)) engineFlsn
    (h := ⟨⟨fun _ => none, .idle, none⟩, some (.start (new (everySecond (some 1))) 0), []⟩) rfl rfl
  have hrun : Steps.run (Host.step someXxh3 (everySecond (some 1)) engineFlsn) blankHost
      (.boot false 0 :: savedActs (firstPrint 1) s) = some g := hg
  have hshort : g.Short := by
    have hpinned : some (1 : UInt32) = none ∨ some (1 : UInt32) = some 1 := .inr rfl
    obtain ⟨f, name, hf, _, _, hbook⟩ := firstPrint_taken hpinned
    have hkept : (f.absorb (firstPrint 1).event).book = .new 256 name := by
      change (f.book.apply (firstPrint 1).event).1 = _
      rw [hbook]
      rfl
    intro e he
    rw [hren, List.mem_singleton] at he
    have hframed := (HotOrderBook.sound_new (M := 256) (by norm_num) name).framed
    rw [he, step_taken someXxh3 hf, hkept,
      HotOrderBook.length_toSnapshotBytes hframed.bids hframed.asks]
    simp [HotOrderBook.new, Core.HalfBook.empty, Core.OrderSlab.empty]
  have hblank : blankHost.Blank engineFlsn := ⟨rfl, rfl, rfl, rfl, rfl⟩
  have hres := resume_continues someXxh3 (everySecond (some 1)) engineFlsn hblank hrun hshort
  rw [hren] at hres
  obtain ⟨e', he', hcont, _⟩ := hres
  exact ⟨_, g, _, e', hrun, hren, he', hcont⟩

end Flowlab.Engine
