import BundlePacker.Archive.Entry

/-!
# The bytes of an archive

An archive is one local record for every entry, then a directory that repeats the headers with the
offset of each local record, then a fixed end record that says where the directory is.  The bytes of
an entry are packed into stored blocks, the simplest form that every reader of the method accepts.
-/

namespace BundlePacker.Archive.Format

/-- The low bytes of a number, the lowest first. -/
def littleEndian : Nat → Nat → Bytes
  | 0, _ => []
  | width + 1, value => UInt8.ofNat value :: littleEndian width (value / 256)

/-- The most bytes that one stored block can hold. -/
def blockLimit : Nat :=
  65535

/-- A stored block: whether it is the last one, its length, the complement of that, its bytes. -/
def storedBlock (isLast : Bool) (data : Bytes) : Bytes :=
  (if isLast then 1 else 0) ::
    (littleEndian 2 data.length ++ littleEndian 2 (blockLimit - data.length) ++ data)

/-- Bytes packed into stored blocks, of which all but the last are full. -/
def packed (data : Bytes) : Bytes :=
  if data.length ≤ blockLimit then
    storedBlock true data
  else
    storedBlock false (data.take blockLimit) ++ packed (data.drop blockLimit)
termination_by data.length
decreasing_by simp only [List.length_drop, blockLimit] at *; omega

/--
The header fields that the local record and the directory record of an entry share, with what they
say about its bytes: their checksum, how many they are when packed, and how many they are.
-/
def headerFields (entry : Entry) (checksum packedSize size : Nat) : Bytes :=
  littleEndian 2 Entry.versionNeeded ++ littleEndian 2 entry.flags ++
    littleEndian 2 entry.method.number ++ littleEndian 2 entry.modified.timeField ++
    littleEndian 2 entry.modified.dateField ++ littleEndian 4 checksum ++
    littleEndian 4 packedSize ++ littleEndian 4 size ++ littleEndian 2 entry.nameBytes.length

/-- The shared header fields of an entry whose bytes are known. -/
def sharedFields (entry : Entry) : Bytes :=
  headerFields entry entry.checksum.toNat (packed entry.data).length entry.size

/-- The local record of an entry as far as its bytes, which are not known yet. -/
def localHeading (entry : Entry) : Bytes :=
  littleEndian 4 0x04034B50 ++ headerFields entry 0 0 0 ++ littleEndian 2 0 ++ entry.nameBytes

/-- The local record of an entry: its header, its name and its packed bytes. -/
def localRecord (entry : Entry) : Bytes :=
  littleEndian 4 0x04034B50 ++ sharedFields entry ++ littleEndian 2 0 ++ entry.nameBytes ++
    packed entry.data

/-- The directory record of an entry whose local record begins at an offset. -/
def directoryRecord (offset : Nat) (entry : Entry) : Bytes :=
  littleEndian 4 0x02014B50 ++ littleEndian 2 Entry.madeBy ++ sharedFields entry ++
    littleEndian 2 0 ++ littleEndian 2 0 ++ littleEndian 2 0 ++ littleEndian 2 0 ++
    littleEndian 4 entry.externalAttributes ++ littleEndian 4 offset ++ entry.nameBytes

/-- The local records of the entries, in order. -/
def localRecords (entries : List Entry) : Bytes :=
  entries.flatMap localRecord

/-- An archive that is being written, when the bytes of its next entry are due. -/
def beginning (done : List Entry) (next : Entry) : Bytes :=
  localRecords done ++ localHeading next

/-- The directory records of entries whose local records begin at an offset. -/
def directory : Nat → List Entry → Bytes
  | _, [] => []
  | offset, entry :: rest =>
    directoryRecord offset entry ++ directory (offset + (localRecord entry).length) rest

/-- The end record of an archive. -/
def endRecord (count directorySize directoryOffset : Nat) : Bytes :=
  littleEndian 4 0x06054B50 ++ littleEndian 2 0 ++ littleEndian 2 0 ++ littleEndian 2 count ++
    littleEndian 2 count ++ littleEndian 4 directorySize ++ littleEndian 4 directoryOffset ++
    littleEndian 2 0

/-- The bytes of an archive with the given entries. -/
def encode (entries : List Entry) : Bytes :=
  let records := localRecords entries
  let listing := directory 0 entries
  records ++ listing ++ endRecord entries.length listing.length records.length

@[simp]
theorem length_littleEndian (width value : Nat) : (littleEndian width value).length = width := by
  induction width generalizing value with
  | zero => rfl
  | succ width hypothesis => simp [littleEndian, hypothesis]

end BundlePacker.Archive.Format
