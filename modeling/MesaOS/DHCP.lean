/-
The network configuration that comes by DHCP (`net/dhcp.cpp`).

`DHCP::handle_packet` takes any message of 240 bytes or more with its own hardware address and
an address for it.  It looks at no operation, transaction, cookie or message type; the client
never sends a request, and configures itself from the first offer.

* `walk_add` — the loop over the options ends;
* `receive_eq` — what one message does;
* `config_of_run` — the configuration after any sequence of messages.
-/
import MesaOS.IPv4

open MachineWord NetworkOrder

namespace MesaOS.Net

/-- A message that `UDP::handle_packet` hands to `DHCP::handle_packet`. -/
structure DHCPPacket where
  data : ℕ → U8
  size : U32

/-- An option: its code and length, and where its value is. -/
structure DHCPOption where
  code : U8
  len : U8
  ptr : ℕ

namespace DHCP

/-- `swap_uint32` -/
def swapUint32 (val : U32) : U32 :=
  val >>> 24 &&& 0xFF ||| val >>> 8 &&& 0xFF00 ||| val <<< 8 &&& 0xFF0000 |||
    val <<< 24 &&& 0xFF000000

/-- `DHCP::transaction_id` -/
def transactionId : U32 := 0x12345678

/-- The message that `DHCP::discover` sends. -/
def discover (host : Host) : List U8 :=
  [1, 1, 6, 0] ++ le32 (swapUint32 transactionId) ++ List.replicate 20 0 ++
    (Ethernet.getMacAddress host).bytes ++ List.replicate 202 0 ++ le32 (swapUint32 0x63825363) ++
    [53, 1, 1, 55, 4, 1, 3, 15, 6, 255] ++ List.replicate 302 0

/-! ### The fields of a message -/

def op (msg : DHCPPacket) : U8 := msg.data 0

def xid (msg : DHCPPacket) : U32 := get32 msg.data 4

def yiaddr (msg : DHCPPacket) : U32 := get32 msg.data 16

/-- The part of `chaddr` that `handle_packet` compares. -/
def chaddr (msg : DHCPPacket) : Mac := macAt msg.data 28

def magicCookie (msg : DHCPPacket) : U32 := get32 msg.data 236

/-- The options that the loop of `handle_packet` comes to, in at most so many turns. -/
def walk (data : ℕ → U8) (size : ℕ) : ℕ → ℕ → List DHCPOption
  | 0, _ => []
  | fuel + 1, ptr =>
    if ptr < size then
      if data ptr = 255 then []
      else if data ptr = 0 then walk data size fuel (ptr + 1)
      else
        let len := data (ptr + 1)
        { code := data ptr, len := len, ptr := ptr + 2 } ::
          walk data size fuel (ptr + 2 + len.toNat)
    else []

/-- Every turn moves the pointer on. -/
def options (msg : DHCPPacket) : List DHCPOption := walk msg.data msg.size.toNat msg.size.toNat 240

/-! ### `DHCP::handle_packet` -/

/-- `code == 1 && len == 4` -/
def mask (data : ℕ → U8) (opt : DHCPOption) : Option U32 :=
  if opt.code = 1 ∧ opt.len = 4 then some (get32 data opt.ptr) else none

/-- `code == 3 && len >= 4` -/
def router (data : ℕ → U8) (opt : DHCPOption) : Option U32 :=
  if opt.code = 3 ∧ 4 ≤ opt.len then some (get32 data opt.ptr) else none

/-- What one option changes. -/
def configure (data : ℕ → U8) (st : Station) (opt : DHCPOption) : Station :=
  match mask data opt with
  | some netmask => { st with subnetMask := netmask }
  | none =>
    match router data opt with
    | some gateway => { st with gatewayIp := gateway }
    | none => st

/-- `DHCP::handle_packet` -/
def handlePacket (st : Station) (msg : DHCPPacket) : Station :=
  if msg.size < 240 then st
  else if chaddr msg ≠ Ethernet.getMacAddress st.toHost then st
  else if yiaddr msg ≠ 0 then
    (options msg).foldl (configure msg.data) { st with myIp := yiaddr msg }
  else st

/-- The state after the messages. -/
def receiveAll (st : Station) (msgs : List DHCPPacket) : Station := msgs.foldl handlePacket st

/-! ### The options -/

/-- **The loop ends** before it runs out of turns. -/
theorem walk_add (data : ℕ → U8) (size fuel : ℕ) {ptr : ℕ} (h : size ≤ ptr + fuel) (k : ℕ) :
    walk data size (fuel + k) ptr = walk data size fuel ptr := by
  induction fuel generalizing ptr with
  | zero =>
    have hend : ¬ ptr < size := by omega
    cases k with
    | zero => rfl
    | succ k => rw [Nat.zero_add, walk, walk, if_neg hend]
  | succ fuel ih =>
    rw [Nat.succ_add, walk, walk]
    have hpad : walk data size (fuel + k) (ptr + 1) = walk data size fuel (ptr + 1) :=
      ih (by omega)
    have hnext : walk data size (fuel + k) (ptr + 2 + (data (ptr + 1)).toNat) =
        walk data size fuel (ptr + 2 + (data (ptr + 1)).toNat) := ih (by omega)
    dsimp only
    rw [hpad, hnext]

/-- The masks in a message. -/
def masks (msg : DHCPPacket) : List U32 := (options msg).filterMap (mask msg.data)

/-- The routers in a message. -/
def routers (msg : DHCPPacket) : List U32 := (options msg).filterMap (router msg.data)

/-- The last of the values, or the old one. -/
def lastOr (old : U32) (values : List U32) : U32 := values.getLast?.getD old

theorem lastOr_cons (old value : U32) (values : List U32) :
    lastOr old (value :: values) = lastOr value values := by
  rw [lastOr, lastOr, List.getLast?_cons, Option.getD_some]

theorem lastOr_append (old : U32) (values values' : List U32) :
    lastOr old (values ++ values') = lastOr (lastOr old values) values' := by
  rw [lastOr, lastOr, lastOr, List.getLast?_append, Option.getD_or]

/-- No option has both codes. -/
theorem router_of_mask {data : ℕ → U8} {opt : DHCPOption} {netmask : U32}
    (h : mask data opt = some netmask) : router data opt = none := by
  rw [mask] at h
  split at h
  next hmask =>
    rw [router, if_neg]
    rintro ⟨hrouter, -⟩
    rw [hmask.1] at hrouter
    exact absurd hrouter (by decide)
  next => exact absurd h.symm (Option.some_ne_none _)

/-- The options of a message, one after another: the last mask and the last router count. -/
theorem foldl_configure (data : ℕ → U8) (st : Station) (opts : List DHCPOption) :
    opts.foldl (configure data) st =
      { st with
        subnetMask := lastOr st.subnetMask (opts.filterMap (mask data))
        gatewayIp := lastOr st.gatewayIp (opts.filterMap (router data)) } := by
  induction opts generalizing st with
  | nil => rfl
  | cons opt opts ih =>
    rw [List.foldl_cons, ih, configure]
    cases hmask : mask data opt with
    | some netmask =>
      rw [List.filterMap_cons_some hmask, List.filterMap_cons_none (router_of_mask hmask),
        lastOr_cons]
    | none =>
      rw [List.filterMap_cons_none hmask]
      dsimp only
      cases hrouter : router data opt with
      | some gateway => rw [List.filterMap_cons_some hrouter, lastOr_cons]
      | none => rw [List.filterMap_cons_none hrouter]

/-! ### Runs -/

/-- A message of at least 240 bytes, for this hardware address and with an address for it. -/
def Accepted (mac : Mac) (msg : DHCPPacket) : Prop :=
  240 ≤ msg.size.toNat ∧ chaddr msg = mac ∧ yiaddr msg ≠ 0

instance (mac : Mac) (msg : DHCPPacket) : Decidable (Accepted mac msg) :=
  inferInstanceAs (Decidable (_ ∧ _))

theorem handlePacket_of_not_accepted {st : Station} {msg : DHCPPacket}
    (h : ¬ Accepted (Ethernet.getMacAddress st.toHost) msg) : handlePacket st msg = st := by
  rw [handlePacket]
  by_cases hsize : msg.size < 240
  · rw [if_pos hsize]
  rw [if_neg hsize]
  by_cases hmac : chaddr msg ≠ Ethernet.getMacAddress st.toHost
  · rw [if_pos hmac]
  rw [if_neg hmac]
  by_cases hyiaddr : yiaddr msg ≠ 0
  · exact absurd ⟨toNat_le_of_not_lt hsize, not_not.mp hmac, hyiaddr⟩ h
  · rw [if_neg hyiaddr]

/-- **What a message does** that is accepted. -/
theorem handlePacket_of_accepted {st : Station} {msg : DHCPPacket}
    (h : Accepted (Ethernet.getMacAddress st.toHost) msg) :
    handlePacket st msg =
      { st with
        myIp := yiaddr msg
        subnetMask := lastOr st.subnetMask (masks msg)
        gatewayIp := lastOr st.gatewayIp (routers msg) } := by
  obtain ⟨hsize, hmac, hyiaddr⟩ := h
  have hlong : ¬ msg.size < 240 := BitVec.not_lt.mpr (BitVec.le_def.mpr hsize)
  rw [handlePacket, if_neg hlong, if_neg (not_not.mpr hmac), if_pos hyiaddr, foldl_configure]
  rfl

theorem getMacAddress_handlePacket (st : Station) (msg : DHCPPacket) :
    Ethernet.getMacAddress (handlePacket st msg).toHost = Ethernet.getMacAddress st.toHost := by
  by_cases h : Accepted (Ethernet.getMacAddress st.toHost) msg
  · rw [handlePacket_of_accepted h]
    rfl
  · rw [handlePacket_of_not_accepted h]

theorem getMacAddress_receiveAll (st : Station) (msgs : List DHCPPacket) :
    Ethernet.getMacAddress (receiveAll st msgs).toHost = Ethernet.getMacAddress st.toHost := by
  induction msgs generalizing st with
  | nil => rfl
  | cons msg msgs ih => exact (ih (handlePacket st msg)).trans (getMacAddress_handlePacket st msg)

/-- The accepted messages among those that come in. -/
def acceptedOf (mac : Mac) (msgs : List DHCPPacket) : List DHCPPacket :=
  msgs.filter fun msg => Accepted mac msg

/-- The state after the messages is made from those that are accepted. -/
theorem receiveAll_eq (st : Station) (msgs : List DHCPPacket) :
    receiveAll st msgs =
      { st with
        myIp := lastOr st.myIp
          ((acceptedOf (Ethernet.getMacAddress st.toHost) msgs).map yiaddr)
        subnetMask := lastOr st.subnetMask
          ((acceptedOf (Ethernet.getMacAddress st.toHost) msgs).flatMap masks)
        gatewayIp := lastOr st.gatewayIp
          ((acceptedOf (Ethernet.getMacAddress st.toHost) msgs).flatMap routers) } := by
  induction msgs generalizing st with
  | nil => rfl
  | cons msg msgs ih =>
    have hrest := ih (handlePacket st msg)
    rw [getMacAddress_handlePacket] at hrest
    rw [receiveAll, List.foldl_cons]
    refine hrest.trans ?_
    -- a message does not change which ones are accepted after it
    by_cases h : Accepted (Ethernet.getMacAddress st.toHost) msg
    · have hcons : acceptedOf (Ethernet.getMacAddress st.toHost) (msg :: msgs) =
          msg :: acceptedOf (Ethernet.getMacAddress st.toHost) msgs :=
        List.filter_cons_of_pos (decide_eq_true h)
      rw [handlePacket_of_accepted h, hcons, List.map_cons, List.flatMap_cons, List.flatMap_cons,
        lastOr_cons, lastOr_append, lastOr_append]
    · have hcons : acceptedOf (Ethernet.getMacAddress st.toHost) (msg :: msgs) =
          acceptedOf (Ethernet.getMacAddress st.toHost) msgs :=
        List.filter_cons_of_neg (by rwa [decide_eq_true_eq])
      rw [handlePacket_of_not_accepted h, hcons]

/-- **The configuration after any sequence of messages** is made from those that were accepted;
any other message leaves it as it is. -/
theorem config_of_run (st : Station) (msgs : List DHCPPacket) :
    (∀ msg, ¬ Accepted (Ethernet.getMacAddress st.toHost) msg →
      receiveAll st (msgs ++ [msg]) = receiveAll st msgs) ∧
    receiveAll st msgs =
      { st with
        myIp := lastOr st.myIp
          ((acceptedOf (Ethernet.getMacAddress st.toHost) msgs).map yiaddr)
        subnetMask := lastOr st.subnetMask
          ((acceptedOf (Ethernet.getMacAddress st.toHost) msgs).flatMap masks)
        gatewayIp := lastOr st.gatewayIp
          ((acceptedOf (Ethernet.getMacAddress st.toHost) msgs).flatMap routers) } := by
  constructor
  · intro msg h
    rw [receiveAll, List.foldl_append]
    refine handlePacket_of_not_accepted ?_
    rwa [← receiveAll, getMacAddress_receiveAll]
  · exact receiveAll_eq st msgs

/-! ### A reply to this transaction -/

/-- The value of the option 53. -/
def messageType (msg : DHCPPacket) : Option U8 :=
  ((options msg).find? fun opt => opt.code = 53).map fun opt => msg.data opt.ptr

/-- An acknowledgement of what this host has sent. -/
def Acknowledges (host : Host) (msg : DHCPPacket) : Prop :=
  op msg = 2 ∧ xid msg = get32 (bufferOf (discover host)) 4 ∧
    magicCookie msg = get32 (bufferOf (discover host)) 236 ∧ messageType msg = some 5 ∧
    chaddr msg = Ethernet.getMacAddress host

/-- An offer of the address 10.0.0.9 in another transaction. -/
def strayOffer (mac : Mac) : List U8 :=
  [2, 1, 6, 0] ++ le32 0 ++ List.replicate 8 0 ++ [10, 0, 0, 9] ++ List.replicate 8 0 ++
    mac.bytes ++ List.replicate 202 0 ++ le32 (swapUint32 0x63825363) ++ [53, 1, 2, 255]

/-- **A stray offer** changes the address. -/
theorem strayOffer_changes :
    ¬ ∀ (st : Station) (msgs : List DHCPPacket) (msg : DHCPPacket),
      receiveAll st (msgs ++ [msg]) ≠ receiveAll st msgs → Acknowledges st.toHost msg := by
  intro h
  set st := freshStation 0x0200000A 0x56
  set msg : DHCPPacket := { data := bufferOf (strayOffer st.rtl8139Mac), size := 244 }
  have hchanged : receiveAll st ([] ++ [msg]) ≠ receiveAll st [] := by
    intro heq
    have hip : (receiveAll st ([] ++ [msg])).myIp = (receiveAll st []).myIp := by rw [heq]
    exact absurd hip (by decide)
  exact absurd (h st [] msg hchanged).2.1 (by decide)

end DHCP

end MesaOS.Net
