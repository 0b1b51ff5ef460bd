import BundlePacker.Error
import BundlePacker.FileSystem.Trees

/-!
# Jobs

A job is work on a file system that writes a log.  It may fail, and then both the file system and
the log stay as they were when it failed.  The log is a list of events; the text of each and how
much it matters follow from the event.
-/

namespace BundlePacker

/-- How much an event matters. -/
inductive Level where
  | debug
  | info
  | warning
deriving DecidableEq

/-- The word for a level. -/
def Level.name : Level → String
  | debug => "DEBUG"
  | info => "INFO"
  | warning => "WARN"

/-- What a log tells. -/
inductive Event where
  /-- What an earlier run left at the staging path is about to be removed. -/
  | removingStale (staging : Path)
  /-- The staging directory is there. -/
  | createdStaging (staging : Path)
  /-- A file with so many bytes has been copied. -/
  | copied (source : Path) (count : Nat) (destination : Path)
  /-- A file has been written. -/
  | wrote (path : Path)
  /-- A file is about to go into the archive under a name. -/
  | adding (path : Path) (name : String)
  /-- An archive that could not be finished stays. -/
  | archiveLeft (archive : Path) (cause : FileSystem.Fault)
  /-- The staging directory is gone. -/
  | removedStaging (staging : Path)
  /-- The staging directory stays, although nothing needs it any more. -/
  | stagingLeft (staging : Path) (cause : FileSystem.Fault)
  /-- An archive with so many entries is done. -/
  | wroteEntries (count : Nat) (archive : Path)
deriving DecidableEq

namespace Event

/-- How much an event matters. -/
def level : Event → Level
  | removingStale _ | stagingLeft _ _ => .warning
  | wroteEntries _ _ => .info
  | _ => .debug

/-- The text of an event. -/
def message : Event → String
  | removingStale staging => "Removing stale staging directory " ++ staging.display
  | createdStaging staging => "Created staging directory " ++ staging.display
  | copied source count destination =>
    "Copied " ++ source.display ++ " (" ++ toString count ++ " bytes) to " ++ destination.display
  | wrote path => "Wrote " ++ path.display
  | adding path name => "Adding " ++ path.display ++ " as " ++ name
  | archiveLeft archive cause =>
    "Could not remove partial archive " ++ archive.display ++ ": " ++ cause.message
  | removedStaging staging => "Removed staging directory " ++ staging.display
  | stagingLeft staging cause =>
    "Failed to remove staging directory " ++ staging.display ++ ": " ++ cause.message
  | wroteEntries count archive =>
    "Wrote " ++ toString count ++ " entries to " ++ archive.display

end Event

/-- The file system and the log of a job. -/
structure Session where
  disk : FileSystem
  /-- The events so far, the earliest first. -/
  log : List Event

/-- Work on a file system that writes a log and may fail. -/
abbrev Job :=
  EStateM Error Session

namespace Job

/-- Add an event to the log. -/
def note (event : Event) : Job Unit :=
  fun session => .ok () { session with log := session.log ++ [event] }

/-- Add events to the log. -/
def noteAll (events : List Event) : Job Unit :=
  fun session => .ok () { session with log := session.log ++ events }

/-- What has been found out without looking at anything, or the error of it. -/
def ofExcept {α : Type} : Except Error α → Job α
  | .ok value => pure value
  | .error fault => throw fault

/-- Work on the file system, with a word on what a failure of it means. -/
def onDisk {α : Type} (failure : FileSystem.Fault → Error) (call : FileSystem.Call α) : Job α :=
  fun session =>
    match call session.disk with
    | .ok value disk => .ok value { session with disk }
    | .error fault disk => .error (failure fault) { session with disk }

/-- Work on the file system. -/
def call {α : Type} (work : FileSystem.Call α) : Job α :=
  onDisk .io work

/-- Work on the file system whose failure is only an event. -/
def attempt (failure : FileSystem.Fault → Event) (work : FileSystem.Call Unit) : Job Unit :=
  fun session =>
    match work session.disk with
    | .ok _ disk => .ok () { session with disk }
    | .error fault disk =>
      .ok () { disk, log := session.log ++ [failure fault] }

/-- Work whose failure does not matter to anyone. -/
def regardless (work : Job Unit) : Job Unit :=
  fun session =>
    match work session with
    | .ok _ next | .error _ next => .ok () next

/-- Work that is followed by other work when it fails, whose own failure does not matter. -/
def orElseDo {α : Type} (work : Job α) (cleanup : Job Unit) : Job α :=
  fun session =>
    match work session with
    | .ok value next => .ok value next
    | .error fault next =>
      match cleanup next with
      | .ok _ last => .error fault last
      | .error _ last => .error fault last

end Job

end BundlePacker
