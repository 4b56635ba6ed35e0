import Mathlib
import TaggedBytecode.CommandLine.Disk
import TaggedBytecode.CommandLine.Interaction
import TaggedBytecode.Proofs.Container.Grammar

/-!
# What Commands Do in a Session

A command that runs in a session comes to a result or a breakdown and leaves a session behind. Its
parts run one after the other, each in the session that the part before has left. Reading a file
leaves the session as it was, and a file that was written holds what was written.

## Main definitions

* `Session.run` — what an action comes to, and the session after it.

## Main results

* `Session.run_bind_eq_ok_iff` — a succession of actions.
* `Disk.read_of_write`, `Session.readFile_of_writeFile` — what was written is read back.
* `Session.run_readText_eq_ok_iff`, `Session.readFile_of_run_writeBytes` — texts that commands read
  and files that they write.
-/

namespace TaggedBytecode

/-! ### Sessions -/

namespace Session

variable {α β : Type} {session later : Session}

/-- What an action comes to in a session, and the session after it. -/
def run (session : Session) (act : TerminalM (StateM Session) α) : Except Breakdown α × Session :=
  (act terminal).run.run session

theorem run_ofExcept (r : Except Failure α) :
    session.run (TerminalM.ofExcept r) = (r.mapError .failure, session) := by
  cases r <;> rfl

theorem run_bind (act : TerminalM (StateM Session) α) (f : α → TerminalM (StateM Session) β) :
    session.run (act >>= f) =
      match session.run act with
      | (.ok a, later) => later.run (f a)
      | (.error e, later) => (.error e, later) := by
  change (match (act terminal).run.run session with
    | (r, later) => (ExceptT.bindCont (fun a => f a terminal) r).run later) = _
  rw [run]
  rcases (act terminal).run.run session with ⟨_ | _, later⟩ <;> rfl

theorem run_bind_eq_ok_iff {act : TerminalM (StateM Session) α}
    {f : α → TerminalM (StateM Session) β} {b : β} :
    session.run (act >>= f) = (.ok b, later) ↔
      ∃ a between, session.run act = (.ok a, between) ∧ between.run (f a) = (.ok b, later) := by
  rw [run_bind]
  rcases session.run act with ⟨_ | a, between⟩
  · simp
  · simp

/-- An operation on files succeeds in a command just if it does in the session. -/
theorem run_file_eq_ok_iff {note : String}
    {f : Terminal (StateM Session) → StateM Session (Except FileError α)} {a : α} :
    session.run (TerminalM.file note f) = (.ok a, later) ↔
      (f terminal).run session = (.ok a, later) := by
  have hrun : session.run (TerminalM.file note f) =
      ((noting note (((f terminal).run session).1.mapError fun e => .ofMessage e.message)).mapError
        .failure, ((f terminal).run session).2) := by
    rw [TerminalM.file, run_bind]
    exact run_ofExcept _
  simp only [hrun, Prod.mk.injEq, noting, mapError_eq_ok_iff]
  exact (@Prod.ext_iff _ _ ((f terminal).run session) (.ok a, later)).symm

theorem run_report (text : String) :
    session.run (TerminalM.report text) =
      (.ok (), { session with reported := session.reported ++ text }) :=
  rfl

end Session

/-! ### Disks -/

namespace Disk

variable {content : List UInt8} {disk later : Disk}

theorem lookup_put (name : String) (disk : Disk) (entries : List (String × Disk)) :
    (put name disk entries).lookup name = some disk := by
  induction entries with
  | nil => rw [put, List.lookup_cons_self]
  | cons entry entries ih =>
      rw [put]
      split
      · rw [List.lookup_cons_self]
      · rename_i hname
        rw [List.lookup_cons, beq_false_of_ne (Ne.symm hname)]
        exact ih

/-- **What was written is read back.** -/
theorem read_of_write {path : List String} (h : write content path disk = .ok later) :
    read path later = .ok content := by
  induction path generalizing disk later with
  | nil =>
      cases disk with
      | file old =>
          obtain rfl := Except.ok.inj h
          rfl
      | directory entries => cases h
  | cons name path ih =>
      cases disk with
      | file old => cases h
      | directory entries =>
          cases hlookup : entries.lookup name with
          | some entry =>
              rw [write.eq_def] at h
              simp only [hlookup] at h
              obtain ⟨written, hwritten, rfl⟩ := map_eq_ok_iff.mp h
              rw [read, lookup_put]
              exact ih hwritten
          | none =>
              cases path with
              | nil =>
                  rw [write.eq_def] at h
                  simp only [hlookup] at h
                  obtain rfl := Except.ok.inj h
                  rw [read, lookup_put]
                  rfl
              | cons _ _ =>
                  rw [write.eq_def] at h
                  simp only [hlookup] at h
                  cases h

end Disk

/-! ### Files -/

namespace Session

variable {session later : Session}

theorem readFile_of_writeFile {path : String} {content : List UInt8}
    (h : session.writeFile path content = .ok later) : later.readFile path = .ok content := by
  rw [writeFile] at h
  split at h
  · rename_i hending
    obtain ⟨components, hpath, h⟩ := bind_eq_ok_iff.mp h
    obtain ⟨disk, hdisk, h⟩ := bind_eq_ok_iff.mp h
    obtain rfl := Except.ok.inj h
    refine bind_eq_ok_iff.mpr ⟨components, hpath, bind_eq_ok_iff.mpr ⟨content, ?_, if_pos hending⟩⟩
    exact Disk.read_of_write hdisk
  · obtain ⟨components, -, h⟩ := bind_eq_ok_iff.mp h
    obtain ⟨disk, -, h⟩ := bind_eq_ok_iff.mp h
    cases h
  · obtain ⟨components, -, h⟩ := bind_eq_ok_iff.mp h
    obtain ⟨disk, -, h⟩ := bind_eq_ok_iff.mp h
    cases h

/-- A change succeeds just if it leaves another session. -/
theorem run_change_eq_ok_iff {f : Session → Except FileError Session} :
    (change f).run session = (.ok (), later) ↔ f session = .ok later := by
  rw [StateT.run, Session.change]
  cases f session <;> exact Prod.ext_iff.trans (by simp)

open TerminalM

/-- A text that was read leaves the session as it was. -/
theorem run_readText_eq_ok_iff {note path text : String} :
    session.run (readText note path) = (.ok text, later) ↔
      later = session ∧
        ∃ bytes, session.readFile path = .ok bytes ∧ Bytes.text? bytes = some text := by
  constructor
  · intro h
    obtain ⟨bytes, between, hread, h⟩ := run_bind_eq_ok_iff.mp h
    obtain ⟨hbytes, rfl⟩ := Prod.mk.inj (run_file_eq_ok_iff.mp hread)
    split at h
    · rename_i htext
      obtain ⟨hsame, rfl⟩ := Prod.mk.inj h
      obtain rfl := Except.ok.inj hsame
      exact ⟨rfl, bytes, hbytes, htext⟩
    · cases h
  · rintro ⟨rfl, bytes, hbytes, htext⟩
    refine run_bind_eq_ok_iff.mpr ⟨bytes, later, run_file_eq_ok_iff.mpr (Prod.ext hbytes rfl), ?_⟩
    rw [htext]
    rfl

/-- A file in the directory of the session is written without further ado. -/
theorem run_writeBytes {path : String} {bytes : List UInt8} (hparent : Path.parent path = "")
    (h : session.writeFile path bytes = .ok later) :
    session.run (writeBytes path bytes) = (.ok (), later) := by
  rw [writeBytes, if_neg (not_not.mpr hparent)]
  exact run_file_eq_ok_iff.mpr (run_change_eq_ok_iff.mpr h)

/-- **A file that was written holds what was written.** -/
theorem readFile_of_run_writeBytes {path : String} {bytes : List UInt8}
    (h : session.run (writeBytes path bytes) = (.ok (), later)) :
    later.readFile path = .ok bytes := by
  have hwritten : ∀ {between : Session},
      between.run (file ("Failed to write " ++ path) (·.writeFile path bytes)) = (.ok (), later) →
        later.readFile path = .ok bytes := fun h =>
    readFile_of_writeFile (run_change_eq_ok_iff.mp (run_file_eq_ok_iff.mp h))
  rw [writeBytes] at h
  split at h
  · obtain ⟨_, between, -, h⟩ := run_bind_eq_ok_iff.mp h
    exact hwritten h
  · exact hwritten h

end Session

end TaggedBytecode
