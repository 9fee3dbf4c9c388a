/-! Archives as bytes: files stored one after another without compression, then a directory of them. -/
namespace ChipForge.Workshop

def littleEndian : Nat→Nat→List UInt8
  | 0, _ => []
  | width+1, n => UInt8.ofNat n::littleEndian width (n / 256)

def fieldBytes (fields : List (Nat×Nat)) : List UInt8 := fields.flatMap fun (width,n) => littleEndian width n

def checksumBit (c : UInt32) : UInt32 := if c &&& 1 == 1 then (c >>> 1) ^^^ 0xEDB88320 else c >>> 1

def checksumByte (c : UInt32) (b : UInt8) : UInt32 := Nat.repeat checksumBit 8 (c ^^^ b.toUInt32)

def checksum (bytes : List UInt8) : UInt32 := bytes.foldl checksumByte 0xFFFFFFFF ^^^ 0xFFFFFFFF

/-- A file in an archive. -/
structure Member where
  name : List UInt8
  bytes : List UInt8

/-- What the record of a file and its entry in the directory share: versions, names in UTF-8, no compression, the first of
January 1980, checksum and sizes. -/
def Member.common (m : Member) : List (Nat×Nat) :=
  [(2,20),(2,0x800),(2,0),(2,0),(2,33),(4,(checksum m.bytes).toNat),(4,m.bytes.length),(4,m.bytes.length),
    (2,m.name.length),(2,0)]

def Member.record (m : Member) : List UInt8 := fieldBytes ((4,0x04034b50)::m.common)++m.name++m.bytes

def Member.entry (m : Member) (offset : Nat) : List UInt8 :=
  fieldBytes ((4,0x02014b50)::(2,20)::m.common++[(2,0),(2,0),(2,0),(4,0),(4,offset)])++m.name

def directory : Nat→List Member→List UInt8
  | _, [] => []
  | offset, m::rest => m.entry offset++directory (offset+m.record.length) rest

def archiveBytes (members : List Member) : List UInt8 :=
  let records := members.flatMap Member.record
  let entries := directory 0 members
  records++entries++fieldBytes [(4,0x06054b50),(2,0),(2,0),(2,members.length),(2,members.length),
    (4,entries.length),(4,records.length),(2,0)]

end ChipForge.Workshop
