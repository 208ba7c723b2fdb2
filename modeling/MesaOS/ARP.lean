/-
Address resolution (`net/arp.cpp`, `net/ethernet.cpp`).

A frame is the bytes that `Ethernet::send_packet` hands to both network drivers.
`send_request` swaps the bytes of the opcode 1, `handle_packet` swaps them back and
compares with `0x0100`; so it takes no request for one.

* `receive_request` — what a request does to the host that it asks for: it learns the
  other host's address, and sends nothing;
* `not_resolves` — so no host is resolved.
-/
import MesaOS.NetworkOrder

open MachineWord NetworkOrder

namespace MesaOS.Net

/-- A hardware address. -/
structure Mac where
  bytes : List U8
  size : bytes.length = 6
  deriving DecidableEq

/-- `broadcast_mac` -/
def broadcastMac : Mac := ⟨List.replicate 6 0xFF, rfl⟩

def zeroMac : Mac := ⟨List.replicate 6 0, rfl⟩

/-- The static members of `IPv4` and `ARP`, and the addresses of the two network cards; a card
that is not there has the address zero. -/
structure Host where
  myIp : U32
  gatewayIp : U32
  rtl8139Mac : Mac
  pcnetMac : Mac
  cacheIp : U32
  cacheMac : Mac

/-- `swap_uint16` -/
def swapUint16 (val : U16) : U16 := val <<< 8 ||| val >>> 8

/-! ### Ethernet -/

namespace Ethernet

/-- `Ethernet::get_mac_address` -/
def getMacAddress (host : Host) : Mac :=
  if host.rtl8139Mac ≠ zeroMac then host.rtl8139Mac else host.pcnetMac

/-- `Ethernet::send_packet`: the frame. -/
def sendPacket (host : Host) (destMac : Mac) (type : U16) (data : List U8) : List U8 :=
  destMac.bytes ++ (getMacAddress host).bytes ++ le16 (swapUint16 type) ++ data

/-- What follows the header. -/
def payload (frame : List U8) : List U8 := frame.drop 14

theorem payload_sendPacket (host : Host) (destMac : Mac) (type : U16) (data : List U8) :
    payload (sendPacket host destMac type data) = data :=
  List.drop_left' (by simp [destMac.size, (getMacAddress host).size, le16])

end Ethernet

/-! ### Messages -/

structure ARPMessage where
  hardwareType : U16
  protocolType : U16
  hardwareAddrLen : U8
  protocolAddrLen : U8
  opcode : U16
  srcMac : Mac
  srcIp : U32
  destMac : Mac
  destIp : U32

/-- The message in memory. -/
def ARPMessage.bytes (msg : ARPMessage) : List U8 :=
  le16 msg.hardwareType ++ le16 msg.protocolType ++ [msg.hardwareAddrLen, msg.protocolAddrLen] ++
    le16 msg.opcode ++ msg.srcMac.bytes ++ le32 msg.srcIp ++ msg.destMac.bytes ++ le32 msg.destIp

/-- The six bytes at index `i`. -/
def macAt (data : ℕ → U8) (i : ℕ) : Mac := ⟨(List.range 6).map fun k => data (i + k), by simp⟩

namespace ARP

/-- `ARP::send_reply`: the frame. -/
def sendReply (host : Host) (destMac : Mac) (destIp : U32) : List U8 :=
  let reply : ARPMessage :=
    { hardwareType := swapUint16 1, protocolType := swapUint16 0x0800, hardwareAddrLen := 6
      protocolAddrLen := 4, opcode := swapUint16 2, srcMac := host.rtl8139Mac
      srcIp := host.myIp, destMac := destMac, destIp := destIp }
  Ethernet.sendPacket host destMac 0x0806 reply.bytes

/-- The message of a request. -/
def request (host : Host) (targetIp : U32) : ARPMessage :=
  { hardwareType := swapUint16 1, protocolType := swapUint16 0x0800, hardwareAddrLen := 6
    protocolAddrLen := 4, opcode := swapUint16 1, srcMac := Ethernet.getMacAddress host
    srcIp := host.myIp, destMac := zeroMac, destIp := targetIp }

/-- `ARP::send_request`: the frame, with padding to 46 bytes behind the message. -/
def sendRequest (host : Host) (targetIp : U32) : List U8 :=
  Ethernet.sendPacket host broadcastMac 0x0806
    ((request host targetIp).bytes ++ List.replicate 18 0)

/-- `ARP::handle_packet`: the host, and the frames that it sends. -/
def handlePacket (host : Host) (data : ℕ → U8) (size : U32) : Host × List (List U8) :=
  if size < 28 then (host, [])
  else
    let opcode := swapUint16 (get16 data 6)
    let srcMac := macAt data 8
    let srcIp := get32 data 14
    let destIp := get32 data 24
    let host := if destIp = host.myIp then { host with cacheIp := srcIp, cacheMac := srcMac }
      else host
    if opcode = 0x0100 ∧ destIp = host.myIp then (host, [sendReply host srcMac srcIp])
    else (host, [])

/-- `ARP::resolve`: the address, and the frames that are sent. -/
def resolve (host : Host) (targetIp : U32) : Mac × List (List U8) :=
  if targetIp = host.cacheIp ∧ host.cacheIp ≠ 0 then (host.cacheMac, [])
  else if host.gatewayIp ≠ 0 ∧ targetIp ≠ host.gatewayIp then
    if host.gatewayIp = host.cacheIp then (host.cacheMac, [sendRequest host targetIp])
    else (broadcastMac, [sendRequest host targetIp, sendRequest host host.gatewayIp])
  else (broadcastMac, [sendRequest host targetIp])

/-- The payload of a frame is handed to `handle_packet`. -/
def receive (host : Host) (frame : List U8) : Host × List (List U8) :=
  handlePacket host (bufferOf (Ethernet.payload frame))
    (BitVec.ofNat 32 (Ethernet.payload frame).length)

end ARP

/-! ### Reading a message -/

theorem macAt_eq {l before after : List U8} {mac : Mac} {i : ℕ}
    (hl : l = before ++ (mac.bytes ++ after)) (hi : before.length = i) :
    macAt (bufferOf l) i = mac := by
  subst hl hi
  obtain ⟨bytes, size⟩ := mac
  rw [macAt, Mac.mk.injEq]
  apply List.ext_getElem
  · simp [size]
  · intro i _ hi
    have hlt : i < (bytes ++ after).length := by rw [List.length_append]; omega
    rw [List.getElem_map, List.getElem_range, bufferOf_append, bufferOf,
      List.getD_eq_getElem _ _ hlt, List.getElem_append_left hi]

/-- What `handle_packet` reads in a message, with anything behind it. -/
theorem ARPMessage.read_bytes (msg : ARPMessage) (padding : List U8) :
    get16 (bufferOf (msg.bytes ++ padding)) 6 = msg.opcode ∧
      macAt (bufferOf (msg.bytes ++ padding)) 8 = msg.srcMac ∧
      get32 (bufferOf (msg.bytes ++ padding)) 14 = msg.srcIp ∧
      get32 (bufferOf (msg.bytes ++ padding)) 24 = msg.destIp := by
  set front := le16 msg.hardwareType ++ le16 msg.protocolType ++
    [msg.hardwareAddrLen, msg.protocolAddrLen] ++ le16 msg.opcode with hfront
  have hbytes : msg.bytes = front ++ msg.srcMac.bytes ++ le32 msg.srcIp ++ msg.destMac.bytes ++
      le32 msg.destIp := rfl
  have h8 : front.length = 8 := rfl
  have h14 : (front ++ msg.srcMac.bytes).length = 14 := by
    rw [List.length_append, h8, msg.srcMac.size]
  have h24 : (front ++ msg.srcMac.bytes ++ le32 msg.srcIp ++ msg.destMac.bytes).length = 24 := by
    rw [List.length_append, List.length_append, h14, msg.destMac.size]
    rfl
  refine ⟨get16_le16 rfl rfl, ?_, ?_, ?_⟩
  · exact macAt_eq (by rw [hbytes]; simp only [List.append_assoc]; rfl) h8
  · exact get32_eq _ (by rw [hbytes]; simp only [List.append_assoc]; rfl) h14
  · exact get32_eq _ (by rw [hbytes]; simp only [List.append_assoc]; rfl) h24

theorem ARPMessage.length_bytes (msg : ARPMessage) : msg.bytes.length = 28 := by
  simp [bytes, le16, le32, msg.srcMac.size, msg.destMac.size]

/-! ### Resolving an address -/

/-- The host that is asked for learns who asks. -/
def Host.learn (host : Host) (ip : U32) (mac : Mac) : Host :=
  { host with cacheIp := ip, cacheMac := mac }

/-- **What a request does**: the host that it asks for learns the address of the other one, and
no host sends anything. -/
theorem ARP.receive_request (a b : Host) (targetIp : U32) :
    receive b (sendRequest a targetIp) =
      (if targetIp = b.myIp then b.learn a.myIp (Ethernet.getMacAddress a) else b, []) := by
  obtain ⟨hopcode, hsrcMac, hsrcIp, hdestIp⟩ :=
    (request a targetIp).read_bytes (List.replicate 18 0)
  have hlength : ((request a targetIp).bytes ++ List.replicate 18 0).length = 46 := by
    rw [List.length_append, ARPMessage.length_bytes, List.length_replicate]
  have hnever : ¬(swapUint16 (request a targetIp).opcode = 0x0100 ∧ targetIp = b.myIp) :=
    fun h => absurd h.1 (by rw [show (request a targetIp).opcode = swapUint16 1 from rfl]; decide)
  rw [receive, sendRequest, Ethernet.payload_sendPacket, handlePacket, hlength,
    if_neg (by decide), hopcode, hsrcMac, hsrcIp, hdestIp]
  dsimp only
  rw [show (request a targetIp).destIp = targetIp from rfl]
  by_cases htarget : targetIp = b.myIp
  · rw [if_pos htarget, if_pos htarget, if_neg hnever]
    rfl
  · rw [if_neg htarget, if_neg htarget, if_neg hnever]

/-- The frame is a reply in which the host `b` gives its address, in network byte order. -/
def IsReply (b : Host) (frame : List U8) : Prop :=
  be16 (bufferOf (Ethernet.payload frame)) 6 = 2 ∧
    macAt (bufferOf (Ethernet.payload frame)) 8 = Ethernet.getMacAddress b ∧
    get32 (bufferOf (Ethernet.payload frame)) 14 = b.myIp

/-- Host `a` asks for the address of `b`, which receives the request; what `b` sends in answer,
`a` receives.  There is a reply among it, and `a` has the address afterwards. -/
def Resolves (a b : Host) : Prop :=
  let replies := (ARP.receive b (ARP.sendRequest a b.myIp)).2
  let a' := replies.foldl (fun a frame => (ARP.receive a frame).1) a
  (∃ frame ∈ replies, IsReply b frame) ∧ (ARP.resolve a' b.myIp).1 = Ethernet.getMacAddress b

/-- **No host is resolved.** -/
theorem not_resolves (a b : Host) : ¬ Resolves a b := by
  rintro ⟨⟨frame, hframe, -⟩, -⟩
  rw [ARP.receive_request] at hframe
  exact absurd hframe List.not_mem_nil

/-- A host with one card and an empty cache. -/
def freshHost (ip : U32) (last : U8) : Host where
  myIp := ip
  gatewayIp := 0
  rtl8139Mac := ⟨[0x52, 0x54, 0x00, 0x12, 0x34, last], rfl⟩
  pcnetMac := zeroMac
  cacheIp := 0
  cacheMac := broadcastMac

/-- **A request without a reply**, and the address is not known afterwards. -/
theorem request_without_reply :
    (ARP.receive (freshHost 0x0A000002 0x57)
      (ARP.sendRequest (freshHost 0x0A000001 0x56) 0x0A000002)).2 = [] ∧
    (ARP.resolve (freshHost 0x0A000001 0x56) 0x0A000002).1 = broadcastMac ∧
    ¬ Resolves (freshHost 0x0A000001 0x56) (freshHost 0x0A000002 0x57) := by
  have hnone : (ARP.receive (freshHost 0x0A000002 0x57)
      (ARP.sendRequest (freshHost 0x0A000001 0x56) 0x0A000002)).2 = [] := by decide
  refine ⟨hnone, by decide, ?_⟩
  rintro ⟨⟨frame, hframe, -⟩, -⟩
  exact absurd (hnone ▸ hframe) List.not_mem_nil

end MesaOS.Net
