import BundlePacker.Invariant
import BundlePacker.Job

/-!
# How jobs run

A call on the file system leaves the log as it is, and a cleanup decides nothing about how the job
before it has ended.
-/

namespace BundlePacker.Job

open FileSystem

variable {session next last : Session} {α : Type}

theorem run_note (event : Event) (session : Session) :
    note event session = .ok () ⟨session.disk, session.log ++ [event]⟩ :=
  rfl

theorem run_noteAll (events : List Event) (session : Session) :
    noteAll events session = .ok () ⟨session.disk, session.log ++ events⟩ :=
  rfl

theorem onDisk_of_ok {failure : Fault → Error} {work : Call α} {value : α} {disk : FileSystem}
    (ran : work session.disk = .ok value disk) :
    onDisk failure work session = .ok value ⟨disk, session.log⟩ := by
  simp [onDisk, ran]

theorem call_of_ok {work : Call α} {value : α} {disk : FileSystem}
    (ran : work session.disk = .ok value disk) :
    call work session = .ok value ⟨disk, session.log⟩ :=
  onDisk_of_ok ran

theorem call_of_error {work : Call α} {fault : Fault} {disk : FileSystem}
    (ran : work session.disk = .error fault disk) :
    call work session = .error (.io fault) ⟨disk, session.log⟩ := by
  simp [call, onDisk, ran]

theorem attempt_of_ok {failure : Fault → Event} {work : Call Unit} {disk : FileSystem}
    (ran : work session.disk = .ok () disk) :
    attempt failure work session = .ok () ⟨disk, session.log⟩ := by
  simp [attempt, ran]

/-- What is attempted does not fail. -/
theorem exists_attempt_eq_ok (failure : Fault → Event) (work : Call Unit) (session : Session) :
    ∃ log, attempt failure work session = .ok () ⟨stateAfter work session.disk, log⟩ := by
  rw [attempt, stateAfter]
  cases work session.disk with
  | ok value disk => exact ⟨_, rfl⟩
  | error fault disk => exact ⟨_, rfl⟩

theorem regardless_of_ok {work : Job Unit} (done : work session = .ok () next) :
    work.regardless session = .ok () next := by
  simp [regardless, done]

theorem orElseDo_of_ok {work : Job α} {cleanup : Job Unit} {value : α}
    (done : work session = .ok value next) :
    work.orElseDo cleanup session = .ok value next := by
  simp [orElseDo, done]

theorem orElseDo_of_error {work : Job α} {cleanup : Job Unit} {fault : Error}
    (failed : work session = .error fault next) (cleaned : cleanup next = .ok () last) :
    work.orElseDo cleanup session = .error fault last := by
  simp [orElseDo, failed, cleaned]

end BundlePacker.Job
