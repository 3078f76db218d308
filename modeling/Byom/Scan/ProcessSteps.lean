import Byom.Scan.Process

/-!
# What each action of the process can do

`Moves` lists the actions that can be taken, with what they found and what they
leave behind.
-/

namespace Byom.Scan

open Storage Relational Sqlite

namespace Process

inductive Moves (pool : WorkerPool) (s : Process) : ProcessAction → Process → Prop where
  | insertLocation (id : UUID) (uri : String) {t}
    (inserted : s.tables.insertLocation id uri = .ok t) :
    Moves pool s (.insertLocation id uri) { s with tables := t }
  | start (loc : UUID) (force : Bool) (free : s.byLoc loc = none) :
    Moves pool s (.start loc force) { s with
      runs := s.runs ++ [⟨loc, force, .nil, 0, false, false, .claimed⟩]
      byLoc := Function.update s.byLoc loc (some s.runs.length) }
  | beginScan (r : Nat) (now : Int) (scanID : UUID) (run : Run) {t gen}
    (found : s.runs[r]? = some run) (phase : run.phase = .claimed)
    (began : s.tables.beginScan now scanID run.locationID = .ok (t, gen)) :
    Moves pool s (.beginScan r now scanID)
      { s.setRun r { run with phase := .begun scanID gen } with tables := t }
  | beginFails (r : Nat) (run : Run) (found : s.runs[r]? = some run)
    (phase : run.phase = .claimed) :
    Moves pool s (.beginFails r) (s.setRun r { run.cancel with phase := .refused })
  | register (r : Nat) (order : MapOrder) (tree : Tree) (run : Run) (scanID : UUID) (gen : Int)
    (found : s.runs[r]? = some run) (phase : run.phase = .begun scanID gen) :
    Moves pool s (.register r order tree) { s.setRun r { run with
        scanID := scanID
        gen := gen
        phase := .scanning (.start order tree pool run.cancelled) } with
      byScan := Function.update s.byScan scanID (some r) }
  | sync (r : Nat) (a : SyncAction) (run : Run) {call call' : Sync}
    (found : s.runs[r]? = some run) (phase : run.phase = .scanning call)
    (inMemory : a.inMemory = true) (moved : call.step a = some call') :
    Moves pool s (.sync r a) (s.setRun r { run with phase := .scanning call' })
  | load (r i : Nat) (run : Run) {call call' : Sync} {res here}
    (found : s.runs[r]? = some run) (phase : run.phase = .scanning call)
    (taken : call.group.workers[i]? = some (.working res here))
    (moved : call.step (.load i (knownIn run.locationID res.dir s.tables)) = some call') :
    Moves pool s (.load r i) (s.setRun r { run with phase := .scanning call' })
  | commit (r i : Nat) (newDirID : UUID) (newFileID : Path → UUID) (run : Run)
    {call call' : Sync} {res known t d}
    (found : s.runs[r]? = some run) (phase : run.phase = .scanning call)
    (taken : call.group.workers[i]? = some (.working res (.writing known)))
    (synced : s.tables.syncDir newDirID newFileID
      (syncPayload run.locationID run.gen run.force known res) = .ok (t, d))
    (moved : call.step (.commit i) = some call') :
    Moves pool s (.commit r i newDirID newFileID)
      { s.setRun r { run with phase := .scanning call' } with tables := t }
  | sweep (r : Nat) (run : Run) {call call' : Sync} {t dirs files}
    (found : s.runs[r]? = some run) (phase : run.phase = .scanning call)
    (swept : s.tables.sweep run.locationID run.gen = (t, dirs, files))
    (moved : call.step (.commitSweep dirs files) = some call') :
    Moves pool s (.sweep r) { s.setRun r { run with phase := .scanning call' } with
      tables := t
      swept := (run.locationID, run.gen) :: s.swept }
  | finishScan (r : Nat) (now : Int) (run : Run) {call : Sync} (scanErr : Option ScanError)
    (found : s.runs[r]? = some run) (phase : run.phase = .scanning call)
    (returned : call.stage = .returned scanErr) :
    Moves pool s (.finishScan r now) { s.setRun r { run with phase := .closing } with
      tables := s.tables.finishScan now run.scanID call.progress scanErr
      finished := run.scanID :: s.finished }
  | finishFails (r : Nat) (run : Run) {call : Sync} (scanErr : Option ScanError)
    (found : s.runs[r]? = some run) (phase : run.phase = .scanning call)
    (returned : call.stage = .returned scanErr) :
    Moves pool s (.finishFails r) (s.setRun r { run with phase := .closing })
  | release (r : Nat) (run : Run) (found : s.runs[r]? = some run)
    (phase : run.phase = .refused ∨ run.phase = .closing) :
    Moves pool s (.release r) { s.setRun r { run with phase := .released } with
      byLoc := Function.update s.byLoc run.locationID none
      byScan := Function.update s.byScan run.scanID none }
  | cancel (scanID : UUID) (r : Nat) (run : Run) (registered : s.byScan scanID = some r)
    (found : s.runs[r]? = some run) (holds : s.byLoc run.locationID = some r) :
    Moves pool s (.cancel scanID) { s.setRun r { run.cancel with cancelling := true } with
      accepted :=
        if s.stateOf scanID = some .running then scanID :: s.accepted else s.accepted }
  | shutdown : Moves pool s .shutdown s.shutdown
  | restart (recovered : Option Int) : Moves pool s (.restart recovered) (s.restart recovered)

variable {pool : WorkerPool} {s s' : Process} {r : Nat} {run : Run} {call : Sync}

theorem scanning_eq_some_iff :
    s.scanning r = some (run, call) ↔ s.runs[r]? = some run ∧ run.phase = .scanning call := by
  unfold scanning
  cases found : s.runs[r]? with
  | none => simp
  | some run' =>
    simp only [Option.some.injEq]
    split
    · rename_i call' phase
      constructor
      · intro same
        cases same
        exact ⟨rfl, phase⟩
      · rintro ⟨rfl, phase'⟩
        rw [phase] at phase'
        cases phase'
        rfl
    · rename_i other
      constructor
      · intro same
        cases same
      · rintro ⟨rfl, phase⟩
        exact absurd phase (other call)

theorem start_moves {loc : UUID} {force : Bool} (h : s.start loc force = some s') :
    s.Moves pool (.start loc force) s' := by
  unfold start at h
  split at h
  · cases h
  · rename_i allowed
    cases h
    refine .start loc force ?_
    simpa using (not_or.mp allowed).2

theorem beginScan_moves {now : Int} {scanID : UUID} (h : s.beginScan r now scanID = some s') :
    s.Moves pool (.beginScan r now scanID) s' := by
  unfold beginScan at h
  split at h
  · cases h
  · rename_i run found
    split at h
    · rename_i t gen phase began
      cases h
      exact .beginScan r now scanID run found phase began
    · cases h

theorem beginFails_moves (h : s.beginFails r = some s') : s.Moves pool (.beginFails r) s' := by
  unfold beginFails at h
  split at h
  · cases h
  · rename_i run found
    split at h
    · cases h
      exact .beginFails r run found ‹_›
    · cases h

theorem register_moves {order : MapOrder} {tree : Tree}
    (h : register pool s r order tree = some s') :
    s.Moves pool (.register r order tree) s' := by
  unfold register at h
  split at h
  · cases h
  · rename_i run found
    split at h
    · rename_i scanID gen phase
      cases h
      exact .register r order tree run scanID gen found phase
    · cases h

theorem sync_moves {a : SyncAction} (h : s.sync r a = some s') : s.Moves pool (.sync r a) s' := by
  obtain ⟨⟨run, call⟩, active, rest⟩ := Option.bind_eq_some_iff.mp h
  obtain ⟨found, phase⟩ := scanning_eq_some_iff.mp active
  simp only at rest
  split at rest
  · obtain ⟨call', moved, done⟩ := Option.bind_eq_some_iff.mp rest
    cases done
    exact .sync r a run found phase ‹_› moved
  · cases rest

theorem load_moves {i : Nat} (h : s.load r i = some s') : s.Moves pool (.load r i) s' := by
  obtain ⟨⟨run, call⟩, active, rest⟩ := Option.bind_eq_some_iff.mp h
  obtain ⟨found, phase⟩ := scanning_eq_some_iff.mp active
  simp only at rest
  split at rest
  · rename_i res here taken
    obtain ⟨call', moved, done⟩ := Option.bind_eq_some_iff.mp rest
    cases done
    exact .load r i run found phase taken moved
  · cases rest

theorem commit_moves {i : Nat} {newDirID : UUID} {newFileID : Path → UUID}
    (h : s.commit r i newDirID newFileID = some s') :
    s.Moves pool (.commit r i newDirID newFileID) s' := by
  obtain ⟨⟨run, call⟩, active, rest⟩ := Option.bind_eq_some_iff.mp h
  obtain ⟨found, phase⟩ := scanning_eq_some_iff.mp active
  simp only at rest
  split at rest
  · rename_i res known taken
    split at rest
    · cases rest
    · rename_i t d synced
      obtain ⟨call', moved, done⟩ := Option.bind_eq_some_iff.mp rest
      cases done
      exact .commit r i newDirID newFileID run found phase taken synced moved
  · cases rest

theorem sweep_moves (h : s.sweep r = some s') : s.Moves pool (.sweep r) s' := by
  obtain ⟨⟨run, call⟩, active, rest⟩ := Option.bind_eq_some_iff.mp h
  obtain ⟨found, phase⟩ := scanning_eq_some_iff.mp active
  obtain ⟨call', moved, done⟩ := Option.bind_eq_some_iff.mp rest
  cases done
  exact .sweep r run found phase rfl moved

theorem finishScan_moves {now : Int} (h : s.finishScan r now = some s') :
    s.Moves pool (.finishScan r now) s' := by
  obtain ⟨⟨run, call⟩, active, rest⟩ := Option.bind_eq_some_iff.mp h
  obtain ⟨found, phase⟩ := scanning_eq_some_iff.mp active
  simp only at rest
  split at rest
  · rename_i scanErr returned
    cases rest
    exact .finishScan r now run scanErr found phase returned
  · cases rest

theorem finishFails_moves (h : s.finishFails r = some s') : s.Moves pool (.finishFails r) s' := by
  obtain ⟨⟨run, call⟩, active, rest⟩ := Option.bind_eq_some_iff.mp h
  obtain ⟨found, phase⟩ := scanning_eq_some_iff.mp active
  simp only at rest
  split at rest
  · rename_i scanErr returned
    cases rest
    exact .finishFails r run scanErr found phase returned
  · cases rest

theorem release_moves (h : s.release r = some s') : s.Moves pool (.release r) s' := by
  unfold release at h
  split at h
  · cases h
  · rename_i run found
    split at h
    · cases h
      exact .release r run found (.inl ‹_›)
    · cases h
      exact .release r run found (.inr ‹_›)
    · cases h

theorem cancel_moves {scanID : UUID} (h : s.cancel scanID = some s') :
    s.Moves pool (.cancel scanID) s' := by
  obtain ⟨⟨r, run⟩, finds, done⟩ := Option.bind_eq_some_iff.mp h
  obtain ⟨r', registered, rest⟩ := Option.bind_eq_some_iff.mp finds
  obtain ⟨run', found, here⟩ := Option.bind_eq_some_iff.mp rest
  split at here
  · cases here
    cases done
    exact .cancel scanID r run registered found ‹_›
  · cases here

theorem moves_of_step {a : ProcessAction} (h : s.step pool a = some s') : s.Moves pool a s' := by
  cases a with
  | insertLocation id uri =>
    simp only [step] at h
    split at h
    · cases h
    · cases h
      exact .insertLocation id uri ‹_›
  | start loc force => exact start_moves h
  | beginScan r now scanID => exact beginScan_moves h
  | beginFails r => exact beginFails_moves h
  | register r order tree => exact register_moves h
  | sync r a => exact sync_moves h
  | load r i => exact load_moves h
  | commit r i newDirID newFileID => exact commit_moves h
  | sweep r => exact sweep_moves h
  | finishScan r now => exact finishScan_moves h
  | finishFails r => exact finishFails_moves h
  | release r => exact release_moves h
  | cancel scanID => exact cancel_moves h
  | shutdown =>
    cases h
    exact .shutdown
  | restart recovered =>
    cases h
    exact .restart recovered

end Process

end Byom.Scan
