/-
Segments as RFC 793 lays them out, and their checksum.
-/
import MesaOS.NetworkOrder
import MesaOS.OnesComplement

open MachineWord NetworkOrder OnesComplement

namespace RFC793

/-- The fields of a segment, without checksum, urgent pointer and options; the control bits
are taken with the two reserved bits in front of them. -/
structure Segment where
  sourcePort : U16
  destinationPort : U16
  sequenceNumber : U32
  acknowledgmentNumber : U32
  dataOffset : ℕ
  controlBits : U8
  window : U16
  data : List U8
  deriving DecidableEq

/-- The segment that the bytes are; the data begins `dataOffset` words of 32 bits behind the
start. -/
def decode (bytes : List U8) : Segment where
  sourcePort := be16 (bufferOf bytes) 0
  destinationPort := be16 (bufferOf bytes) 2
  sequenceNumber := be32 (bufferOf bytes) 4
  acknowledgmentNumber := be32 (bufferOf bytes) 8
  dataOffset := (bufferOf bytes 12 >>> 4).toNat
  controlBits := bufferOf bytes 13
  window := be16 (bufferOf bytes) 14
  data := bytes.drop (4 * (bufferOf bytes 12 >>> 4).toNat)

/-- The pseudo header: the two addresses as they stand on the wire, a zero, the protocol and
the length of the segment. -/
def pseudoHeader (source destination : List U8) (length : ℕ) : List U8 :=
  source ++ destination ++ [0, 6, BitVec.ofNat 8 (length / 256), BitVec.ofNat 8 length]

/-- The receiver's test: the sum over pseudo header and segment has all its bits set. -/
def Verifies (source destination segment : List U8) : Prop :=
  fold (sumBE (pseudoHeader source destination segment.length ++ segment)) = 0xFFFF

instance (source destination segment : List U8) : Decidable (Verifies source destination segment) :=
  inferInstanceAs (Decidable (_ = _))

end RFC793
