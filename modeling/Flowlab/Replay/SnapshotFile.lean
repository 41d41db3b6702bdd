import Mathlib.Data.List.TakeWhile
import Flowlab.Framework.Steps
import Flowlab.Replay.Snapshot

namespace Flowlab.Replay

open Framework

/-- `Path::with_extension` on the name of a file: what follows the last dot gives its place, unless
the name begins with that dot. -/
def withExtension (name ext : List Char) : List Char :=
  let back := name.reverse
  let rest := back.dropWhile (· ≠ '.')
  match rest with
  | [] | [_] => name ++ '.' :: ext
  | _ :: before => before.reverse ++ '.' :: ext

/-- `flsn.tmp`. -/
def tmpExtension : List Char := ['f', 'l', 's', 'n', '.', 't', 'm', 'p']

/-- The files of a directory by their names. -/
abbrev Files := List Char → Option (List UInt8)

inductive SnapshotIoError where
  | notFound
  | decode (e : SnapshotError)
  deriving DecidableEq, Repr

/-- `read_from_path`. -/
def Snapshot.readFromPath (files : Files) (path : List Char) : Except SnapshotIoError Snapshot :=
  match files path with
  | none => .error .notFound
  | some bytes =>
    match Snapshot.fromBytes bytes with
    | .error e => .error (.decode e)
    | .ok s => .ok s

/-- Where a call of `write_to_path` stands, with the bytes it has still to write. -/
inductive WritePc where
  | idle
  | begun (s : Snapshot)
  | writing (s : Snapshot) (rest : List UInt8)
  | written (s : Snapshot)
  deriving DecidableEq, Repr

/-- The steps of `write_to_path`; each of them can fail, and `fs::write` writes any number of bytes at
a time. -/
inductive WriteAct where
  | create
  | write (n : Nat)
  | rename
  | fail
  deriving DecidableEq, Repr

/-- The snapshot that the call in progress writes. -/
def WritePc.snapshot : WritePc → Option Snapshot
  | .idle => none
  | .begun s | .writing s _ | .written s => some s

/-- The files, the call in progress and the snapshot that was renamed into place last. -/
structure SnapshotFile where
  files : Files
  pc : WritePc
  saved : Option Snapshot

namespace SnapshotFile

variable (path : List Char)

def tmp : List Char := withExtension path tmpExtension

/-- One step of a call. A failure ends the call and leaves the files as they are. -/
def step (f : SnapshotFile) : WriteAct → Option SnapshotFile
  | .create =>
    match f.pc with
    | .begun s =>
      some { f with
        files := Function.update f.files (tmp path) (some [])
        pc := .writing s s.toBytes }
    | _ => none
  | .write n =>
    match f.pc, f.files (tmp path) with
    | .writing s rest, some bytes =>
      let f := { f with files := Function.update f.files (tmp path) (some (bytes ++ rest.take n)) }
      if rest.length ≤ n then some { f with pc := .written s }
      else some { f with pc := .writing s (rest.drop n) }
    | _, _ => none
  | .rename =>
    match f.pc, f.files (tmp path) with
    | .written s, some bytes =>
      some {
        files := Function.update (Function.update f.files path (some bytes)) (tmp path) none
        pc := .idle
        saved := some s }
    | _, _ => none
  | .fail =>
    match f.pc with
    | .idle => none
    | _ => some { f with pc := .idle }

end SnapshotFile

/-- The temporary file is never the snapshot itself. -/
theorem withExtension_ne (name : List Char) : withExtension name tmpExtension ≠ name := by
  have hlen : tmpExtension.length = 8 := rfl
  simp only [withExtension]
  split
  · intro h
    have hl := congrArg List.length h
    simp only [List.length_append, List.length_cons] at hl
    omega
  · intro h
    have hl := congrArg List.length h
    simp only [List.length_append, List.length_cons] at hl
    omega
  · rename_i c before hne hrest
    intro h
    have hsplit : name.reverse.takeWhile (· ≠ '.') ++ c :: before = name.reverse :=
      hrest ▸ List.takeWhile_append_dropWhile
    have hback : tmpExtension.reverse ++ '.' :: before = name.reverse := by
      rw [← h]
      simp
    have hsame := List.append_inj_left' (hback.trans hsplit.symm) rfl
    -- what follows the last dot has no dot
    have hdot : '.' ∈ name.reverse.takeWhile (· ≠ '.') := by
      rw [← hsame]
      decide
    have hfalse := List.mem_takeWhile_imp hdot
    simp at hfalse

namespace SnapshotFile

variable {path : List Char} {f g : SnapshotFile}

/-- What every step keeps: the file has the snapshot saved last, and the temporary file what has been
written of the next. -/
structure Inv (path : List Char) (f : SnapshotFile) : Prop where
  saved : f.files path = f.saved.map Snapshot.toBytes
  writing : ∀ s rest, f.pc = .writing s rest →
    ∃ done, f.files (tmp path) = some done ∧ done ++ rest = s.toBytes
  written : ∀ s, f.pc = .written s → f.files (tmp path) = some s.toBytes

theorem Inv.step (h : Inv path f) {a : WriteAct} (hg : f.step path a = some g) : Inv path g := by
  have hne : path ≠ tmp path := (withExtension_ne path).symm
  obtain ⟨hsaved, hwriting, hwritten⟩ := h
  cases a <;> simp only [SnapshotFile.step] at hg
  case create =>
    split at hg
    · rename_i s hpc
      cases hg
      refine ⟨?_, ?_, nofun⟩
      · exact (Function.update_of_ne hne _ _).trans hsaved
      · intro s' rest hs'
        cases hs'
        exact ⟨[], Function.update_self .., rfl⟩
    · cases hg
  case write n =>
    split at hg
    · rename_i s rest bytes hpc hbytes
      obtain ⟨done, hdone, hwhole⟩ := hwriting s rest hpc
      obtain rfl := Option.some.inj (hbytes.symm.trans hdone)
      split_ifs at hg with hall
      · cases hg
        refine ⟨(Function.update_of_ne hne _ _).trans hsaved, nofun, ?_⟩
        intro s' hs'
        cases hs'
        rw [List.take_of_length_le hall, hwhole]
        exact Function.update_self ..
      · cases hg
        refine ⟨(Function.update_of_ne hne _ _).trans hsaved, ?_, nofun⟩
        intro s' rest' hs'
        cases hs'
        exact ⟨_, Function.update_self .., by rw [List.append_assoc, List.take_append_drop, hwhole]⟩
    · cases hg
  case rename =>
    split at hg
    · rename_i s bytes hpc hbytes
      cases hg
      refine ⟨?_, nofun, nofun⟩
      have hwhole := hwritten s hpc
      rw [hbytes] at hwhole
      dsimp only
      rw [Function.update_of_ne hne, Function.update_self, hwhole]
      rfl
    · cases hg
  case fail =>
    split at hg
    · cases hg
    · cases hg
      exact ⟨hsaved, nofun, nofun⟩

/-- What a step of a call does with the snapshot it writes: the rename saves it, every other step goes
on with it or gives it up. -/
theorem step_snapshot {a : WriteAct} (hg : f.step path a = some g) :
    (a = .rename ∧ g.saved = f.pc.snapshot ∧ g.pc = .idle ∧ f.pc ≠ .idle) ∨
      (a ≠ .rename ∧ g.saved = f.saved ∧ (g.pc = .idle ∨ g.pc.snapshot = f.pc.snapshot)) := by
  cases a <;> simp only [SnapshotFile.step] at hg
  case create =>
    split at hg
    · rename_i s hpc
      cases hg
      exact .inr ⟨by decide, rfl, .inr (by rw [hpc]; rfl)⟩
    · cases hg
  case write n =>
    split at hg
    · rename_i s rest bytes hpc hbytes
      have hsame : f.pc.snapshot = some s := by
        rw [hpc]
        rfl
      split_ifs at hg <;> cases hg <;> exact .inr ⟨nofun, rfl, .inr hsame.symm⟩
    · cases hg
  case rename =>
    split at hg
    · rename_i s bytes hpc hbytes
      cases hg
      exact .inl ⟨rfl, by rw [hpc]; rfl, rfl, by rw [hpc]; nofun⟩
    · cases hg
  case fail =>
    split at hg
    · cases hg
    · cases hg
      exact .inr ⟨by decide, rfl, .inl rfl⟩

/-- Whatever was cut short before, what is read back is the snapshot saved last. -/
theorem Inv.read (h : Inv path f) : Snapshot.readFromPath f.files path =
    match f.saved with
    | none => .error .notFound
    | some s => .ok ⟨s.seq, s.stateHash, s.bookData.take (2 ^ 32 - 1)⟩ := by
  rw [Snapshot.readFromPath, h.saved]
  cases f.saved with
  | none => rfl
  | some s => simp only [Option.map_some, Snapshot.fromBytes_frame]

end SnapshotFile

end Flowlab.Replay
