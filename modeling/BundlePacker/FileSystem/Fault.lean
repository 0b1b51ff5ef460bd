/-!
# Faults of the file system

An operation on files fails for one of three reasons: the system refuses the call, the request can
not be put to the system at all, or a library that passes the call on has its own complaint.  Every
reason has one text, and the texts of refused calls carry the system's number.
-/

namespace BundlePacker.FileSystem

/-- The reasons for which the system refuses a call. -/
inductive Refusal where
  | notPermitted
  | notFound
  | inputOutput
  | noDevice
  | accessDenied
  | busy
  | alreadyExists
  | crossDevice
  | notDirectory
  | isDirectory
  | invalidArgument
  | textBusy
  | noSpace
  | readOnly
  | nameTooLong
  | notEmpty
  | tooManyLinks
  | addressInUse
deriving DecidableEq

namespace Refusal

/-- Every reason, by ascending number. -/
def all : List Refusal :=
  [notPermitted, notFound, inputOutput, noDevice, accessDenied, busy, alreadyExists, crossDevice,
    notDirectory, isDirectory, invalidArgument, textBusy, noSpace, readOnly, nameTooLong, notEmpty,
    tooManyLinks, addressInUse]

/-- The system's number for a reason. -/
def number : Refusal → Nat
  | notPermitted => 1
  | notFound => 2
  | inputOutput => 5
  | noDevice => 6
  | accessDenied => 13
  | busy => 16
  | alreadyExists => 17
  | crossDevice => 18
  | notDirectory => 20
  | isDirectory => 21
  | invalidArgument => 22
  | textBusy => 26
  | noSpace => 28
  | readOnly => 30
  | nameTooLong => 36
  | notEmpty => 39
  | tooManyLinks => 40
  | addressInUse => 98

/-- The system's words for a reason. -/
def words : Refusal → String
  | notPermitted => "Operation not permitted"
  | notFound => "No such file or directory"
  | inputOutput => "Input/output error"
  | noDevice => "No such device or address"
  | accessDenied => "Permission denied"
  | busy => "Device or resource busy"
  | alreadyExists => "File exists"
  | crossDevice => "Invalid cross-device link"
  | notDirectory => "Not a directory"
  | isDirectory => "Is a directory"
  | invalidArgument => "Invalid argument"
  | textBusy => "Text file busy"
  | noSpace => "No space left on device"
  | readOnly => "Read-only file system"
  | nameTooLong => "File name too long"
  | notEmpty => "Directory not empty"
  | tooManyLinks => "Too many levels of symbolic links"
  | addressInUse => "Address already in use"

/-- The reason with a given number. -/
def ofNumber? (number : Nat) : Option Refusal :=
  all.find? fun refusal => refusal.number = number

@[simp]
theorem ofNumber?_number (refusal : Refusal) : ofNumber? refusal.number = some refusal := by
  cases refusal <;> decide

end Refusal

/-- The kinds into which a fault that no system call raised is sorted. -/
inductive FaultKind where
  | notFound
  | permissionDenied
  | alreadyExists
  | invalidInput
  | unexpectedEnd
  | other
deriving DecidableEq

/-- The words for a kind. -/
def FaultKind.words : FaultKind → String
  | notFound => "entity not found"
  | permissionDenied => "permission denied"
  | alreadyExists => "entity already exists"
  | invalidInput => "invalid input parameter"
  | unexpectedEnd => "unexpected end of file"
  | other => "other error"

/-- Why an operation on files failed. -/
inductive Fault where
  /-- The system refused the call. -/
  | refused (refusal : Refusal)
  /-- A path held a zero byte, which the system cannot be given. -/
  | zeroByte
  /-- A copy was asked of something that is no regular file. -/
  | irregularSource
  /-- A fault that is known by its kind alone. -/
  | ofKind (kind : FaultKind)
  /-- A fault of a kind with words of its own. -/
  | described (kind : FaultKind) (text : String)
deriving DecidableEq

/-- The text of a fault. -/
def Fault.message : Fault → String
  | refused refusal => refusal.words ++ " (os error " ++ toString refusal.number ++ ")"
  | zeroByte => "file name contained an unexpected NUL byte"
  | irregularSource =>
    "the source path is neither a regular file nor a symlink to a regular file"
  | ofKind kind => kind.words
  | described _ text => text

end BundlePacker.FileSystem
