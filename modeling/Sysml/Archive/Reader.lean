import Sysml.Archive
import Sysml.Archive.Bzip2
import Sysml.Archive.Deflate
import Sysml.Archive.Lzma
import Sysml.Text.CodePage

/-!
# Reading archives

The directory of an archive is found from the end, and an entry through the
directory. Bytes may stand before the archive; then all places in it are shifted.
The record of an entry is read when its content is wanted, so a damaged entry does
not hide the others.
-/

set_option autoImplicit false

namespace Sysml.Archive

/-- Why an archive or an entry cannot be read. -/
inductive Fault where
  /-- The records do not agree with each other or with the content. -/
  | damaged
  /-- The content cannot be inflated. -/
  | notInflated
  /-- The content cannot be unsorted. -/
  | notUnsorted
  /-- The content cannot be read as a weighted stream. -/
  | notWeighted
  /-- The archive ends within the content. -/
  | endsEarly
  /-- The archive or the content is of a kind that is not known. -/
  | unknownMethod
  /-- The content is encrypted. -/
  | locked
  /-- The entry would begin before the archive. -/
  | outOfPlace
  /-- The entry would begin farther than any file reaches. -/
  | tooFar
  deriving DecidableEq, Repr, Inhabited

def slice (octets : List UInt8) (start length : Nat) : List UInt8 :=
  (octets.drop start).take length

def numberAt (octets : List UInt8) (start width : Nat) : Nat :=
  number (slice octets start width)

/-- The place of the last bytes that look like the record at the end, of which the
first is at `place`; `last` is the one before. -/
def lastEnd? (last : Option Nat) (place : Nat) : List UInt8 → Option Nat
  | [] => last
  | octet :: rest =>
      let isEnd := (octet :: rest).take 4 == [0x50, 0x4b, 5, 6]
      lastEnd? (if isEnd then some place else last) (place + 1) rest

/-- The place of the record at the end. It is the last thing in the archive unless a
comment follows it, which is shorter than 65536 bytes. -/
def endPlace? (octets : List UInt8) : Option Nat :=
  let place := octets.length - 22
  let last := octets.drop place
  if last.length = 22 && last.take 4 == [0x50, 0x4b, 5, 6] && last.drop 20 == [0, 0] then some place
  else
    let first := octets.length - 65558
    (lastEnd? none first (octets.drop first)).filter fun place => place + 22 ≤ octets.length

structure Extent where
  /-- Where the records after the directory begin. -/
  stop : Int
  size : Nat
  /-- Where the directory begins, as the archive tells it. -/
  offset : Nat
  deriving DecidableEq, Repr, Inhabited

/-- Where the directory is, by the records at the end. A record for long archives
stands before the usual one if a further record between the two leads to it. -/
def extentOf (octets : List UInt8) (place : Nat) : Except Fault Extent :=
  let usual : Extent := ⟨place, numberAt octets (place + 12) 4, numberAt octets (place + 16) 4⟩
  let locator := slice octets (place - 20) 20
  let long := slice octets (place - 76) 56
  if locator.length ≠ 20 || locator.take 4 != [0x50, 0x4b, 6, 7] then .ok usual
  else if numberAt locator 4 4 ≠ 0 || 1 < numberAt locator 16 4 then .error .damaged
  else if long.length ≠ 56 || long.take 4 != [0x50, 0x4b, 6, 6] then .ok usual
  else .ok ⟨(place : Int) - 76, numberAt long 40 8, numberAt long 48 8⟩

def nameOf? (flags : Nat) (octets : List UInt8) : Option String :=
  if flags.testBit 11 then String.fromUTF8? ⟨octets.toArray⟩
  else (Text.CodePage.display.decode octets).map String.ofList

/-- What the directory tells about an entry. -/
structure Listing where
  /-- The name, which the record of the entry has to give too. -/
  fullName : String
  flags : Nat
  method : Nat
  checksum : Nat
  /-- How many bytes the content takes in the archive. -/
  heldSize : Nat
  size : Nat
  /-- Where the record of the entry begins. -/
  place : Int
  deriving DecidableEq, Repr, Inhabited

/-- The name of an entry ends before its first zero character. -/
def Listing.name (listing : Listing) : String :=
  String.ofList (listing.fullName.toList.takeWhile (· != '\x00'))

/-- The listing with one of its numbers from eight bytes, if it was told to be there,
and the bytes that are left. -/
def longNumber? (isThere : Bool) (put : Listing → Nat → Listing)
    (found : Listing × List UInt8) : Option (Listing × List UInt8) :=
  if !isThere then some found
  else if found.2.length < 8 then none
  else some (put found.1 (numberAt found.2 0 8), found.2.drop 8)

def withLongNumbers? (listing : Listing) (octets : List UInt8) : Option Listing := do
  let isLong (n : Nat) : Bool := n == 0xffffffff
  let found ← longNumber? (isLong listing.size || listing.size == 0xffffffffffffffff)
    (fun listing size => { listing with size }) (listing, octets)
  let found ← longNumber? (isLong listing.heldSize)
    (fun listing heldSize => { listing with heldSize }) found
  let found ← longNumber? (listing.place == 0xffffffff)
    (fun listing place => { listing with place }) found
  return found.1

/-- The listing with what further fields tell; each has a kind and a length, and the
first kind is for long numbers. At most `budget` fields. -/
def withFields? : Nat → Listing → List UInt8 → Option Listing
  | 0, listing, _ => some listing
  | budget + 1, listing, octets =>
      if octets.length < 4 then some listing
      else
        let length := numberAt octets 2 2
        if octets.length < length + 4 then none
        else do
          let field := slice octets 4 length
          let listing ←
            if numberAt octets 0 2 = 1 then withLongNumbers? listing field else some listing
          withFields? budget listing (octets.drop (length + 4))

/-- The entry that a header in the directory tells of. Places are shifted. -/
def listingOf (shift : Int) (header : List UInt8) : Except Fault Listing :=
  let nameLength := numberAt header 28 2
  let flags := numberAt header 8 2
  if header.length < 46 || header.take 4 != [0x50, 0x4b, 1, 2] then .error .damaged
  else
    match nameOf? flags (slice header 46 nameLength) with
    | none => .error .damaged
    | some fullName =>
        if 63 < numberAt header 6 1 then .error .unknownMethod
        else
          let listing : Listing :=
            { fullName, flags
              method := numberAt header 10 2
              checksum := numberAt header 16 4
              heldSize := numberAt header 20 4
              size := numberAt header 24 4
              place := numberAt header 42 4 }
          let fields := slice header (46 + nameLength) (numberAt header 30 2)
          match withFields? (fields.length + 1) listing fields with
          | none => .error .damaged
          | some listing => .ok { listing with place := listing.place + shift }

/-- The entries of a directory, at most `budget`. -/
def listings (shift : Int) : Nat → List UInt8 → Except Fault (List Listing)
  | 0, _ => .ok []
  | _ + 1, [] => .ok []
  | budget + 1, header => do
      let listing ← listingOf shift header
      let length := 46 + numberAt header 28 2 + numberAt header 30 2 + numberAt header 32 2
      return listing :: (← listings shift budget (header.drop length))

structure Opened where
  octets : List UInt8
  /-- Where the directory begins. -/
  directory : Nat
  /-- The entries, in the order of the directory. -/
  listings : List Listing
  deriving Repr, Inhabited

def read (octets : List UInt8) : Except Fault Opened :=
  match endPlace? octets with
  | none => .error .damaged
  | some place => do
      let extent ← extentOf octets place
      let start := extent.stop - extent.size
      if start < 0 then .error .damaged
      let directory := start.toNat
      let found ← listings (start - extent.offset) (extent.size + 1)
        (slice octets directory extent.size)
      return ⟨octets, directory, found⟩

namespace Opened

def names (opened : Opened) : List String :=
  opened.listings.map Listing.name

/-- Where the content of the entry at an index has to end: where the next record
begins, which is that of an earlier entry if both begin at one place. -/
def limit (opened : Opened) (index : Nat) (place : Int) : Int :=
  if (opened.listings.take index).any (·.place == place) then place
  else
    let later := (opened.listings.map Listing.place).filter (place < ·)
    later.foldl (fun least place => some ((least.map (min place)).getD place)) none
      |>.getD opened.directory

end Opened

def expand (method : Nat) (octets : List UInt8) : Except Fault Expanded :=
  let orFault (fault : Fault) (expanded? : Option Expanded) : Except Fault Expanded :=
    match expanded? with
    | some expanded => .ok expanded
    | none => .error fault
  match method with
  | 0 => .ok ⟨octets, false⟩
  | 8 => orFault .notInflated (Deflate.inflate? octets)
  | 12 => orFault .notUnsorted (Bzip2.expand? octets)
  | 14 => orFault .notWeighted (Lzma.expand? octets)
  | _ => .error .unknownMethod

/-- The content from the bytes that are held for it, of which some may be missing. Only
as much as was told counts, and its checksum has to be right. -/
def checked (listing : Listing) (held : List UInt8) : Except Fault (List UInt8) := do
  if held.isEmpty && 0 < listing.heldSize then .error .endsEarly
  let expanded ← expand listing.method held
  let content := expanded.octets.take listing.size
  let isAll :=
    expanded.isComplete || held.length = listing.heldSize || content.length = listing.size
  if !isAll then .error .endsEarly
  if (Digest.crc32 content).toNat = listing.checksum then return content else .error .damaged

def methods : List Nat :=
  [0, 8, 12, 14]

/-- The content of an entry that has to end at `limit`, through its own record. -/
def contentOf (octets : List UInt8) (limit : Int) (listing : Listing) :
    Except Fault (List UInt8) := do
  let reach : Int := 0x7fffffffffffffff
  if reach < listing.place || listing.place < -reach - 1 then .error .tooFar
  if listing.place < 0 then .error .outOfPlace
  let record := octets.drop listing.place.toNat
  let nameLength := numberAt record 26 2
  if record.length < 30 || record.take 4 != [0x50, 0x4b, 3, 4] then .error .damaged
  if listing.flags.testBit 5 || listing.flags.testBit 6 then .error .unknownMethod
  if nameOf? (numberAt record 6 2) (slice record 30 nameLength) != some listing.fullName then
    .error .damaged
  let rest := record.drop (30 + nameLength + numberAt record 28 2)
  let start : Int := octets.length - rest.length
  if limit < start + listing.heldSize then .error .damaged
  if listing.flags.testBit 0 then .error .locked
  if !methods.contains listing.method then .error .unknownMethod
  checked listing (rest.take listing.heldSize)

namespace Opened

/-- The content of the last entry of a name, if there is one. -/
def content? (opened : Opened) (name : String) : Option (Except Fault (List UInt8)) :=
  (opened.listings.zipIdx.reverse.find? fun found => found.1.name == name).map
    fun (listing, index) =>
      contentOf opened.octets (opened.limit index listing.place) listing

end Opened

end Sysml.Archive
