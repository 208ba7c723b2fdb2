/-
The Internet checksum (`calculate_checksum` in `net/ipv4.cpp` and in `net/icmp.cpp`).

Both functions add the words of a buffer as the machine reads them, low byte first, and
store the complement in the machine's byte order.  The sum of the words read high byte
first is the same up to a swap of its bytes (`fold_sumBE`), so that

* `calculateChecksum_storeWord` — the checksum of a buffer with its checksum stored is zero;
* `be16_storeWord` — the two bytes that are stored are those of RFC 1071.

An echo request and an IPv4 header as the code builds them are such buffers.
-/
import MesaOS.IPv4
import MesaOS.NetworkOrder
import MesaOS.TCPChecksum

open MachineWord NetworkOrder OnesComplement

/-- The checksum of RFC 1071: the complement of the sum of the 16-bit words, high byte first;
an odd byte at the end is padded with a zero. -/
def RFC1071.checksum (bytes : List U8) : U16 := ~~~BitVec.ofNat 16 (fold (sumBE bytes))

namespace MesaOS.Net

/-- `calculate_checksum` in `net/icmp.cpp` -/
def ICMP.calculateChecksum (addr : ℕ → U8) (count : ℕ) : U16 :=
  let sum := (List.range (count / 2)).foldl
    (fun sum i => sum + (get16 addr (2 * i)).setWidth 32) (0 : U32)
  let sum := if count % 2 > 0 then sum + (addr (count - 1)).setWidth 32 else sum
  ~~~ (foldSum sum).setWidth 16

theorem ICMP.calculateChecksum_eq : ICMP.calculateChecksum = IPv4.calculateChecksum := rfl

/-- The packet in `ICMP::send_echo_request`. -/
def ICMP.echoRequest (id sequence : U16) : List U8 :=
  let payload := (List.range 32).map fun i => 0x61 + BitVec.ofNat 8 (i % 26)
  let packet := fun checksum : U16 =>
    [8, 0] ++ le16 checksum ++ le16 (swapUint16 id) ++ le16 (swapUint16 sequence) ++ payload
  packet (calculateChecksum (bufferOf (packet 0)) 40)

section

variable {buffer : List U8}

/-- **The value of the checksum.** -/
theorem toNat_internetChecksum (h : buffer.length ≤ 65535) :
    (IPv4.calculateChecksum (bufferOf buffer) buffer.length).toNat =
      65535 - fold (sumLE buffer) := by
  have hsplit := sumLE_eq_take buffer
  have htake := sumLE_le (buffer.take (2 * (buffer.length / 2)))
  have hlength : (buffer.take (2 * (buffer.length / 2))).length ≤ 2 * (buffer.length / 2) :=
    List.length_take_le ..
  -- 32 bits are enough for all words
  have hloop := toNat_foldl_words buffer 0 (k := buffer.length / 2) (by omega)
    (by rw [show (0 : U32).toNat = 0 from rfl]; omega)
  rw [show (0 : U32).toNat = 0 from rfl, Nat.zero_add] at hloop
  rw [IPv4.calculateChecksum]
  set sum := (List.range (buffer.length / 2)).foldl
    (fun sum i => sum + (get16 (bufferOf buffer) (2 * i)).setWidth 32) (0 : U32) with hsum
  have htotal : (if buffer.length % 2 > 0 then
      sum + (bufferOf buffer (buffer.length - 1)).setWidth 32 else sum : U32).toNat =
      sumLE buffer := by
    by_cases hodd : buffer.length % 2 > 0
    · have hbyte := (bufferOf buffer (buffer.length - 1)).isLt
      rw [if_pos (by omega)] at hsplit
      rw [if_pos hodd, BitVec.toNat_add, BitVec.toNat_setWidth, hloop]
      omega
    · rw [if_neg (by omega)] at hsplit
      rw [if_neg hodd, hloop]
      omega
  have hfold := fold_lt (sumLE buffer)
  rw [BitVec.toNat_not, BitVec.toNat_setWidth, toNat_foldSum, htotal]
  omega

variable {k : ℕ} (hsize : buffer.length ≤ 65535) (hk : k + 2 ≤ buffer.length)

include hsize hk

/-- **The stored bytes** are those of the checksum over words read high byte first. -/
theorem be16_storeWord :
    be16 (bufferOf (storeWord buffer k
      (IPv4.calculateChecksum (bufferOf buffer) buffer.length))) k = RFC1071.checksum buffer := by
  have hvalue := toNat_internetChecksum hsize
  generalize IPv4.calculateChecksum (bufferOf buffer) buffer.length = checksum at hvalue ⊢
  have hfront : (buffer.take k).length = k := by
    rw [List.length_take, Nat.min_eq_left (by omega)]
  have hget : get16 (bufferOf (storeWord buffer k checksum)) k = checksum :=
    get16_eq _ rfl hfront
  have hswap := fold_sumBE buffer
  have hlt := fold_lt (sumLE buffer)
  -- the two bytes, once as the machine reads them and once as they stand on the wire
  have hstored := congrArg BitVec.toNat hget
  rw [get16, toNat_append_byte] at hstored
  refine BitVec.eq_of_toNat_eq ?_
  rw [be16, toNat_append_byte, RFC1071.checksum, BitVec.toNat_not, BitVec.toNat_ofNat, hswap]
  have hlow := (bufferOf (storeWord buffer k checksum) k).isLt
  have hhigh := (bufferOf (storeWord buffer k checksum) (k + 1)).isLt
  generalize fold (sumLE buffer) = x at *
  have hsmall : (x % 256 * 256 + x / 256) % 2 ^ 16 = x % 256 * 256 + x / 256 :=
    Nat.mod_eq_of_lt (by omega)
  rw [hsmall]
  omega

variable (heven : k % 2 = 0) (hzero : get16 (bufferOf buffer) k = 0)

include heven hzero

/-- **The checksum of a buffer with its checksum stored** is zero: the two add up to a sum with
all bits set, or to a multiple of it. -/
theorem calculateChecksum_storeWord :
    IPv4.calculateChecksum (bufferOf (storeWord buffer k
      (IPv4.calculateChecksum (bufferOf buffer) buffer.length))) buffer.length = 0 := by
  have hvalue := toNat_internetChecksum hsize
  generalize IPv4.calculateChecksum (bufferOf buffer) buffer.length = checksum at hvalue ⊢
  have hlength := length_storeWord hk checksum
  have hle : (storeWord buffer k checksum).length ≤ 65535 := by omega
  have hstored := toNat_internetChecksum hle
  have hsum := sumLE_storeWord hk heven hzero checksum
  have hlt := fold_lt (sumLE buffer)
  have hmod := fold_mod (sumLE buffer)
  have hpos := fold_pos_iff (sumLE buffer)
  have hmax : fold (sumLE buffer + checksum.toNat) = 0xFFFF := by
    rw [fold_eq_max_iff]
    omega
  rw [hlength, hsum, hmax] at hstored
  exact BitVec.eq_of_toNat_eq hstored

/-- **The Internet checksum**, as IPv4 and ICMP compute it. -/
theorem internetChecksum_stored :
    let checksum := IPv4.calculateChecksum (bufferOf buffer) buffer.length
    let stored := storeWord buffer k checksum
    ICMP.calculateChecksum (bufferOf buffer) buffer.length = checksum ∧
      IPv4.calculateChecksum (bufferOf stored) buffer.length = 0 ∧
      ICMP.calculateChecksum (bufferOf stored) buffer.length = 0 ∧
      be16 (bufferOf stored) k = RFC1071.checksum buffer :=
  ⟨rfl, calculateChecksum_storeWord hsize hk heven hzero,
    calculateChecksum_storeWord hsize hk heven hzero, be16_storeWord hsize hk⟩

end

/-- A buffer of three bytes with the field in front. -/
theorem internetChecksum_stored_three :
    let checksum := IPv4.calculateChecksum (bufferOf [0, 0, 0xAB]) 3
    let stored := storeWord [0, 0, 0xAB] 0 checksum
    ICMP.calculateChecksum (bufferOf [0, 0, 0xAB]) 3 = checksum ∧
      IPv4.calculateChecksum (bufferOf stored) 3 = 0 ∧
      ICMP.calculateChecksum (bufferOf stored) 3 = 0 ∧
      be16 (bufferOf stored) 0 = RFC1071.checksum [0, 0, 0xAB] :=
  internetChecksum_stored (show [0, 0, 0xAB].length ≤ 65535 by simp)
    (show 0 + 2 ≤ [0, 0, 0xAB].length by simp) rfl rfl

/-! ### What is sent -/

/-- A packet with its checksum in the middle, computed over a zero in its place. -/
theorem calculateChecksum_packet (front rest : List U8) (heven : front.length % 2 = 0)
    (hsize : (front ++ (le16 0 ++ rest)).length ≤ 65535) :
    IPv4.calculateChecksum (bufferOf (front ++ (le16 (IPv4.calculateChecksum
      (bufferOf (front ++ (le16 0 ++ rest))) (front ++ (le16 0 ++ rest)).length) ++ rest)))
      (front ++ (le16 0 ++ rest)).length = 0 := by
  have hroom : front.length + 2 ≤ (front ++ (le16 0 ++ rest)).length := by
    rw [List.length_append, List.length_append, show (le16 0).length = 2 from rfl]
    omega
  have hstored := calculateChecksum_storeWord hsize hroom heven (get16_eq front rfl rfl)
  rw [storeWord_append] at hstored
  exact hstored

/-- An echo request verifies. -/
theorem calculateChecksum_echoRequest (id sequence : U16) :
    ICMP.calculateChecksum (bufferOf (ICMP.echoRequest id sequence)) 40 = 0 := by
  set rest := le16 (swapUint16 id) ++ le16 (swapUint16 sequence) ++
    (List.range 32).map fun i => (0x61 + BitVec.ofNat 8 (i % 26) : U8) with hrest
  have hlength : ([8, 0] ++ (le16 0 ++ rest)).length = 40 := by simp [hrest, le16]
  have hpacket : ICMP.echoRequest id sequence = [8, 0] ++ (le16 (IPv4.calculateChecksum
      (bufferOf ([8, 0] ++ (le16 0 ++ rest))) 40) ++ rest) := by
    simp only [ICMP.echoRequest, ICMP.calculateChecksum_eq, hrest, List.append_assoc]
  have hverify := calculateChecksum_packet [8, 0] rest rfl (by omega)
  rw [hlength, ← hpacket] at hverify
  rw [ICMP.calculateChecksum_eq, hverify]

/-- The header of every packet that `IPv4::send_packet` sends verifies. -/
theorem calculateChecksum_header (st : Station) (id : U16) (destIp : U32) (protocol : U8)
    (size : ℕ) :
    IPv4.calculateChecksum (bufferOf (IPv4.header st id destIp protocol size
      (IPv4.calculateChecksum (bufferOf (IPv4.header st id destIp protocol size 0)) 20))) 20 = 0 := by
  set front := [(4 <<< 4 ||| 5 : U8), 0] ++ le16 (swapUint16 (BitVec.ofNat 16 (20 + size))) ++
    le16 (swapUint16 id) ++ le16 0 ++ [64, protocol] with hfront
  set rest := le32 st.myIp ++ le32 destIp with hrest
  have hheader : ∀ checksum, IPv4.header st id destIp protocol size checksum =
      front ++ (le16 checksum ++ rest) := by
    intro checksum
    simp only [IPv4.header, hfront, hrest, List.append_assoc]
  have hlength : (front ++ (le16 0 ++ rest)).length = 20 := by
    rw [← hheader, IPv4.length_header]
  have hpacket := calculateChecksum_packet front rest (by simp [hfront, le16]) (by omega)
  rw [hlength, ← hheader, ← hheader] at hpacket
  exact hpacket

end MesaOS.Net
