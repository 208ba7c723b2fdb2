/-
The loop over the options in `DHCP::handle_packet`.

The loop tests its pointer against the end of the packet where an option begins, and
nowhere else: the length byte and the four bytes of an address are read wherever they are.

* `reads_contained_iff` — when nothing is read beyond the packet;
* `handlePacket_encode` — what a message does whose options are laid out as in RFC 2132.
-/
import MesaOS.ByteMemory
import MesaOS.DHCP
import MesaOS.RFC2132

open MachineWord RFC2132

namespace MesaOS.Net.DHCP

/-! ### What is read -/

/-- The bytes of an option's value that are read. -/
def valueReads (opt : DHCPOption) : List ℕ :=
  if opt.code = 1 ∧ opt.len = 4 ∨ opt.code = 3 ∧ 4 ≤ opt.len then List.range' opt.ptr 4 else []

/-- The indices that the loop over the options reads, in the order of `walk`. -/
def walkReads (data : ℕ → U8) (size : ℕ) : ℕ → ℕ → List ℕ
  | 0, _ => []
  | fuel + 1, ptr =>
    if ptr < size then
      ptr :: (if data ptr = 255 then []
        else if data ptr = 0 then walkReads data size fuel (ptr + 1)
        else
          let len := data (ptr + 1)
          (ptr + 1) :: (valueReads { code := data ptr, len := len, ptr := ptr + 2 } ++
            walkReads data size fuel (ptr + 2 + len.toNat)))
    else []

/-- The indices that `handle_packet` reads: `chaddr`, `yiaddr` and the options. -/
def reads (st : Station) (msg : DHCPPacket) : List ℕ :=
  if msg.size < 240 then []
  else List.range' 28 6 ++
    if chaddr msg ≠ Ethernet.getMacAddress st.toHost then []
    else List.range' 16 4 ++
      if yiaddr msg ≠ 0 then walkReads msg.data msg.size.toNat msg.size.toNat 240 else []

/-- The bytes of the packet from an index on. -/
def bytesFrom (data : ℕ → U8) (size ptr : ℕ) : List U8 :=
  (List.range' ptr (size - ptr)).map data

section

variable {data : ℕ → U8} {size ptr : ℕ}

theorem bytesFrom_of_le (h : size ≤ ptr) : bytesFrom data size ptr = [] := by
  rw [bytesFrom, Nat.sub_eq_zero_of_le h]
  rfl

theorem bytesFrom_of_lt (h : ptr < size) :
    bytesFrom data size ptr = data ptr :: bytesFrom data size (ptr + 1) := by
  rw [bytesFrom, show size - ptr = size - (ptr + 1) + 1 by omega, List.range'_succ, List.map_cons,
    bytesFrom]

theorem length_bytesFrom : (bytesFrom data size ptr).length = size - ptr := by
  rw [bytesFrom, List.length_map, List.length_range']

theorem drop_bytesFrom (k : ℕ) :
    (bytesFrom data size ptr).drop k = bytesFrom data size (ptr + k) := by
  rw [bytesFrom, ← List.map_drop, List.drop_range', bytesFrom]
  congr 2 <;> omega

/-! ### Reading inside the packet -/

/-- The four bytes of an address lie inside the packet if four bytes are left. -/
theorem valueReads_lt_iff {opt : DHCPOption} (hptr : opt.ptr ≤ size) :
    (∀ i ∈ valueReads opt, i < size) ↔
      (HasAddress opt.code opt.len → 4 ≤ size - opt.ptr) := by
  rw [valueReads]
  by_cases haddress : opt.code = 1 ∧ opt.len = 4 ∨ opt.code = 3 ∧ 4 ≤ opt.len
  · rw [if_pos haddress]
    constructor
    · intro h _
      have hlast := h (opt.ptr + 3) (List.mem_range'_1.mpr ⟨by omega, by omega⟩)
      omega
    · intro h i hi
      have hroom := h haddress
      have hlt := (List.mem_range'_1.mp hi).2
      omega
  · rw [if_neg haddress]
    refine iff_of_true (fun i hi => absurd hi List.not_mem_nil) (fun h => absurd h haddress)

/-- **The loop reads inside the packet** just when the options are contained in it. -/
theorem walkReads_lt_iff (fuel : ℕ) (hfuel : size ≤ ptr + fuel) :
    (∀ i ∈ walkReads data size fuel ptr, i < size) ↔ Contained (bytesFrom data size ptr) := by
  induction fuel generalizing ptr with
  | zero =>
    rw [bytesFrom_of_le (by omega)]
    exact iff_of_true (fun i hi => absurd hi List.not_mem_nil) Contained.nil
  | succ fuel ih =>
    rw [walkReads]
    by_cases hend : ptr < size
    · rw [if_pos hend, List.forall_mem_cons, and_iff_right hend, bytesFrom_of_lt hend]
      by_cases h255 : data ptr = 255
      · rw [if_pos h255, h255]
        exact iff_of_true (fun i hi => absurd hi List.not_mem_nil) (Contained.end _)
      rw [if_neg h255]
      by_cases h0 : data ptr = 0
      · rw [if_pos h0, h0, contained_pad_iff]
        exact ih (by omega)
      rw [if_neg h0, contained_option_iff h0 h255, List.forall_mem_cons, List.forall_mem_append]
      by_cases hlen : ptr + 1 < size
      · -- the option has its length byte
        rw [and_iff_right hlen, valueReads_lt_iff (show ptr + 2 ≤ size by omega), ih (by omega),
          bytesFrom_of_lt hlen]
        constructor
        · rintro ⟨haddress, hrest⟩
          refine ⟨_, _, rfl, ?_, ?_⟩
          · rwa [length_bytesFrom]
          · rwa [drop_bytesFrom]
        · rintro ⟨len, tail, htail, haddress, hrest⟩
          obtain ⟨rfl, rfl⟩ := List.cons.inj htail
          rw [length_bytesFrom] at haddress
          rw [drop_bytesFrom] at hrest
          exact ⟨haddress, hrest⟩
      · -- the code is the last byte
        rw [bytesFrom_of_le (by omega)]
        refine iff_of_false (fun h => hlen h.1) ?_
        rintro ⟨len, tail, htail, -⟩
        exact absurd htail.symm (List.cons_ne_nil _ _)
    · rw [if_neg hend, bytesFrom_of_le (by omega)]
      exact iff_of_true (fun i hi => absurd hi List.not_mem_nil) Contained.nil

end

/-- The fields in front of the options lie inside an accepted message. -/
theorem reads_lt_iff (st : Station) (msg : DHCPPacket) :
    (∀ i ∈ reads st msg, i < msg.size.toNat) ↔
      (Accepted (Ethernet.getMacAddress st.toHost) msg →
        ∀ i ∈ walkReads msg.data msg.size.toNat msg.size.toNat 240, i < msg.size.toNat) := by
  have hchaddr : 240 ≤ msg.size.toNat → ∀ i ∈ List.range' 28 6, i < msg.size.toNat := by
    intro h i hi
    have hlt := (List.mem_range'_1.mp hi).2
    omega
  have hyiaddr : 240 ≤ msg.size.toNat → ∀ i ∈ List.range' 16 4, i < msg.size.toNat := by
    intro h i hi
    have hlt := (List.mem_range'_1.mp hi).2
    omega
  have hnil : ∀ i ∈ ([] : List ℕ), i < msg.size.toNat := fun i hi => absurd hi List.not_mem_nil
  rw [reads]
  by_cases hsize : msg.size < 240
  · rw [if_pos hsize]
    have hlt : msg.size.toNat < 240 := hsize
    exact iff_of_true hnil (fun h => absurd h.1 (by omega))
  have hlong : 240 ≤ msg.size.toNat := toNat_le_of_not_lt hsize
  rw [if_neg hsize, List.forall_mem_append, and_iff_right (hchaddr hlong)]
  by_cases hmac : chaddr msg ≠ Ethernet.getMacAddress st.toHost
  · rw [if_pos hmac]
    exact iff_of_true hnil (fun h => absurd h.2.1 hmac)
  rw [if_neg hmac, List.forall_mem_append, and_iff_right (hyiaddr hlong)]
  by_cases haddress : yiaddr msg ≠ 0
  · rw [if_pos haddress]
    exact ⟨fun h _ => h, fun h => h ⟨hlong, not_not.mp hmac, haddress⟩⟩
  · rw [if_neg haddress]
    exact iff_of_true hnil (fun h => absurd h.2.2 haddress)

/-- **When nothing is read beyond the packet.** -/
theorem reads_contained_iff (st : Station) (msg : DHCPPacket) :
    (∀ i ∈ reads st msg, i < msg.size.toNat) ↔
      (Accepted (Ethernet.getMacAddress st.toHost) msg →
        Contained (bytesFrom msg.data msg.size.toNat 240)) := by
  rw [reads_lt_iff, walkReads_lt_iff _ (by omega)]

/-- An offer whose last byte is the code of an option. -/
def truncatedOffer (mac : Mac) : DHCPPacket where
  data := bufferOf ((strayOffer mac).take 240 ++ [1])
  size := 241

/-- The length of that option is read behind the packet. -/
theorem truncatedOffer_reads :
    ¬ ∀ (st : Station) (msg : DHCPPacket), ∀ i ∈ reads st msg, i < msg.size.toNat := by
  intro h
  set st := freshStation 0x0200000A 0x56
  have hread : 241 ∈ reads st (truncatedOffer st.rtl8139Mac) := by decide
  exact absurd (h st _ 241 hread) (by decide)

/-! ### The reads are all there are -/

section

variable {data data' : ℕ → U8} {size : ℕ}

theorem get32_congr {i : ℕ} (h : ∀ j ∈ List.range' i 4, data' j = data j) :
    get32 data' i = get32 data i :=
  ByteMemory.get32_congr fun k hk => h (i + k) (List.mem_range'_1.mpr ⟨by omega, by omega⟩)

theorem configure_congr {opt : DHCPOption} (h : ∀ i ∈ valueReads opt, data' i = data i)
    (st : Station) : configure data' st opt = configure data st opt := by
  have hvalue : opt.code = 1 ∧ opt.len = 4 ∨ opt.code = 3 ∧ 4 ≤ opt.len →
      get32 data' opt.ptr = get32 data opt.ptr := by
    intro haddress
    rw [valueReads, if_pos haddress] at h
    exact get32_congr h
  have hmask : mask data' opt = mask data opt := by
    rw [mask, mask]
    by_cases hcode : opt.code = 1 ∧ opt.len = 4
    · rw [if_pos hcode, if_pos hcode, hvalue (.inl hcode)]
    · rw [if_neg hcode, if_neg hcode]
  have hrouter : router data' opt = router data opt := by
    rw [router, router]
    by_cases hcode : opt.code = 3 ∧ 4 ≤ opt.len
    · rw [if_pos hcode, if_pos hcode, hvalue (.inr hcode)]
    · rw [if_neg hcode, if_neg hcode]
  rw [configure, configure, hmask, hrouter]

theorem foldl_walk_congr {fuel ptr : ℕ}
    (h : ∀ i ∈ walkReads data size fuel ptr, data' i = data i) (st : Station) :
    (walk data' size fuel ptr).foldl (configure data') st =
      (walk data size fuel ptr).foldl (configure data) st := by
  induction fuel generalizing ptr st with
  | zero => rfl
  | succ fuel ih =>
    rw [walkReads] at h
    rw [walk, walk]
    by_cases hend : ptr < size
    · rw [if_pos hend, List.forall_mem_cons] at h
      obtain ⟨hcode, h⟩ := h
      rw [if_pos hend, if_pos hend, hcode]
      by_cases h255 : data ptr = 255
      · rw [if_pos h255, if_pos h255]
        rfl
      rw [if_neg h255] at h ⊢
      rw [if_neg h255]
      by_cases h0 : data ptr = 0
      · rw [if_pos h0] at h ⊢
        rw [if_pos h0]
        exact ih h st
      rw [if_neg h0, List.forall_mem_cons, List.forall_mem_append] at h
      obtain ⟨hlen, hvalue, hrest⟩ := h
      rw [if_neg h0, if_neg h0, hlen, List.foldl_cons, List.foldl_cons, ih hrest,
        configure_congr hvalue]
    · rw [if_neg hend, if_neg hend]
      rfl

end

/-- **No other byte matters**: messages of one size that agree where the first one is read do
the same. -/
theorem handlePacket_congr (st : Station) (msg : DHCPPacket) {data' : ℕ → U8}
    (h : ∀ i ∈ reads st msg, data' i = msg.data i) :
    handlePacket st { msg with data := data' } = handlePacket st msg := by
  rw [reads] at h
  rw [handlePacket, handlePacket]
  by_cases hsize : msg.size < 240
  · rw [if_pos hsize, if_pos hsize]
  rw [if_neg hsize, List.forall_mem_append] at h
  obtain ⟨hchaddr, h⟩ := h
  have hmac : chaddr { msg with data := data' } = chaddr msg := by
    have hbytes : (List.range 6).map (fun k => data' (28 + k)) =
        (List.range 6).map fun k => msg.data (28 + k) := by
      refine List.map_congr_left fun k hk => ?_
      have hlt := List.mem_range.mp hk
      exact hchaddr (28 + k) (List.mem_range'_1.mpr ⟨by omega, by omega⟩)
    rw [chaddr, chaddr, macAt, macAt, Mac.mk.injEq]
    exact hbytes
  rw [if_neg hsize, if_neg hsize, hmac]
  by_cases hother : chaddr msg ≠ Ethernet.getMacAddress st.toHost
  · rw [if_pos hother, if_pos hother]
  rw [if_neg hother, List.forall_mem_append] at h
  obtain ⟨hyiaddr, h⟩ := h
  have hip : yiaddr { msg with data := data' } = yiaddr msg := get32_congr hyiaddr
  rw [if_neg hother, if_neg hother, hip]
  by_cases haddress : yiaddr msg ≠ 0
  · rw [if_pos haddress] at h ⊢
    rw [if_pos haddress]
    exact foldl_walk_congr h _
  · rw [if_neg haddress, if_neg haddress]

/-! ### Options as they should be -/

section

variable {data : ℕ → U8} {size ptr : ℕ}

theorem bytesFrom_cons {b : U8} {l : List U8} (h : bytesFrom data size ptr = b :: l) :
    ptr < size ∧ data ptr = b ∧ bytesFrom data size (ptr + 1) = l := by
  have hlt : ptr < size := by
    by_contra hend
    rw [bytesFrom_of_le (by omega)] at h
    exact absurd h.symm (List.cons_ne_nil _ _)
  rw [bytesFrom_of_lt hlt] at h
  exact ⟨hlt, List.cons.inj h⟩

theorem bytesFrom_append {l m : List U8} (h : bytesFrom data size ptr = l ++ m) :
    bytesFrom data size (ptr + l.length) = m ∧ ∀ i < l.length, data (ptr + i) = bufferOf l i := by
  induction l generalizing ptr with
  | nil => exact ⟨h, fun i hi => absurd hi (Nat.not_lt_zero i)⟩
  | cons b l ih =>
    obtain ⟨-, hbyte, hrest⟩ := bytesFrom_cons h
    obtain ⟨hm, hl⟩ := ih hrest
    rw [List.length_cons]
    refine ⟨?_, fun i hi => ?_⟩
    · rwa [show ptr + (l.length + 1) = ptr + 1 + l.length by omega]
    · cases i with
      | zero => exact hbyte
      | succ i =>
        rw [show ptr + (i + 1) = ptr + 1 + i by omega, hl i (by omega)]
        rfl

/-- An option in the packet is the field: it has its code and its length, and its value is where
the option says. -/
structure Holds (data : ℕ → U8) (opt : DHCPOption) (f : Field) : Prop where
  code : opt.code = f.code
  len : opt.len = BitVec.ofNat 8 f.value.length
  value : ∀ i < f.value.length, data (opt.ptr + i) = bufferOf f.value i

variable {opt : DHCPOption} {f : Field}

theorem Holds.toNat_len (h : Holds data opt f) : opt.len.toNat = f.value.length := by
  have hlength := f.length_le
  rw [h.len, BitVec.toNat_ofNat, Nat.mod_eq_of_lt (by omega)]

theorem Holds.get32 (h : Holds data opt f) (hlength : 4 ≤ f.value.length) :
    MachineWord.get32 data opt.ptr = MachineWord.get32 (bufferOf f.value) 0 := by
  refine ByteMemory.get32_congr fun j hj => ?_
  rw [Nat.zero_add]
  exact h.value j (by omega)

theorem Holds.mask (h : Holds data opt f) : DHCP.mask data opt = f.netmask := by
  have hlen : opt.len = 4 ↔ f.value.length = 4 := by
    rw [← BitVec.toNat_inj, h.toNat_len]
    rfl
  rw [DHCP.mask, Field.netmask, h.code, if_congr (and_congr_right fun _ => hlen) rfl rfl]
  by_cases hmask : f.code = 1 ∧ f.value.length = 4
  · rw [if_pos hmask, if_pos hmask, h.get32 (by omega)]
  · rw [if_neg hmask, if_neg hmask]

theorem Holds.router (h : Holds data opt f) : DHCP.router data opt = f.router := by
  have hlen : 4 ≤ opt.len ↔ 4 ≤ f.value.length := by
    rw [BitVec.le_def, h.toNat_len]
    rfl
  rw [DHCP.router, Field.router, h.code, if_congr (and_congr_right fun _ => hlen) rfl rfl]
  by_cases hrouter : f.code = 3 ∧ 4 ≤ f.value.length
  · rw [if_pos hrouter, if_pos hrouter, h.get32 hrouter.2]
  · rw [if_neg hrouter, if_neg hrouter]

/-- The loop passes over pad bytes. -/
theorem walk_pads {l : List U8} (n : ℕ) {fuel : ℕ} (hfuel : size ≤ ptr + fuel)
    (h : bytesFrom data size ptr = List.replicate n 0 ++ l) :
    ∃ fuel', size ≤ ptr + n + fuel' ∧ bytesFrom data size (ptr + n) = l ∧
      walk data size fuel ptr = walk data size fuel' (ptr + n) := by
  induction n generalizing ptr fuel with
  | zero => exact ⟨fuel, hfuel, h, rfl⟩
  | succ n ih =>
    obtain ⟨hlt, hbyte, hrest⟩ := bytesFrom_cons (l := List.replicate n 0 ++ l) h
    cases fuel with
    | zero => omega
    | succ fuel =>
      have hnext : size ≤ ptr + 1 + fuel := by omega
      obtain ⟨fuel', hfuel', hl, hwalk⟩ := ih hnext hrest
      rw [show ptr + 1 + n = ptr + (n + 1) by omega] at hfuel' hl hwalk
      refine ⟨fuel', hfuel', hl, ?_⟩
      rw [walk, if_pos hlt, hbyte, if_neg (by decide), if_pos rfl, hwalk]

/-- **The loop over encoded options** comes to each of them and ends at the terminator,
whatever follows it. -/
theorem walk_encode (fields : List Field) (pads : ℕ) (rest : List U8) {fuel : ℕ}
    (hfuel : size ≤ ptr + fuel)
    (h : bytesFrom data size ptr = encode fields pads ++ rest) :
    List.Forall₂ (Holds data) (walk data size fuel ptr) fields := by
  induction fields generalizing ptr fuel with
  | nil =>
    rw [encode, List.flatMap_nil, List.nil_append, List.append_assoc] at h
    obtain ⟨fuel', hfuel', hend, hwalk⟩ := walk_pads pads hfuel h
    obtain ⟨hlt, hbyte, -⟩ := bytesFrom_cons hend
    rw [hwalk]
    cases fuel' with
    | zero => omega
    | succ fuel' =>
      rw [walk, if_pos hlt, if_pos hbyte]
      exact List.Forall₂.nil
  | cons f fields ih =>
    rw [encode_cons, Field.bytes, List.append_assoc, List.append_assoc] at h
    obtain ⟨fuel', hfuel', hbytes, hwalk⟩ := walk_pads f.pads hfuel h
    obtain ⟨hlt, hcode, hbytes⟩ := bytesFrom_cons hbytes
    obtain ⟨-, hlen, hbytes⟩ := bytesFrom_cons hbytes
    obtain ⟨hnext, hvalue⟩ := bytesFrom_append hbytes
    rw [hwalk]
    cases fuel' with
    | zero => omega
    | succ fuel' =>
      have hholds : Holds data ⟨f.code, data (ptr + f.pads + 1), ptr + f.pads + 2⟩ f :=
        ⟨rfl, hlen, hvalue⟩
      rw [walk, if_pos hlt, hcode, if_neg f.code_ne_end, if_neg f.code_ne_pad]
      refine List.Forall₂.cons hholds (ih ?_ ?_)
      · omega
      · rw [hholds.toNat_len]
        exact hnext

theorem filterMap_eq_of_forall₂ {α β γ : Type*} {R : α → β → Prop} {g : α → Option γ}
    {g' : β → Option γ} (hg : ∀ a b, R a b → g a = g' b) {l : List α} {l' : List β}
    (h : List.Forall₂ R l l') : l.filterMap g = l'.filterMap g' := by
  induction h with
  | nil => rfl
  | cons hab _ ih => rw [List.filterMap_cons, List.filterMap_cons, hg _ _ hab, ih]

end

/-- **A message with encoded options**: the last mask and the last router count, and nothing else
in the options does. -/
theorem handlePacket_encode {st : Station} {msg : DHCPPacket} (fields : List Field) (pads : ℕ)
    (rest : List U8) (hmac : chaddr msg = Ethernet.getMacAddress st.toHost)
    (hyiaddr : yiaddr msg ≠ 0)
    (hoptions : bytesFrom msg.data msg.size.toNat 240 = encode fields pads ++ rest) :
    handlePacket st msg =
      { st with
        myIp := yiaddr msg
        subnetMask := lastOr st.subnetMask (fields.filterMap Field.netmask)
        gatewayIp := lastOr st.gatewayIp (fields.filterMap Field.router) } := by
  have hsize : 240 ≤ msg.size.toNat := by
    by_contra hshort
    rw [bytesFrom_of_le (by omega), encode] at hoptions
    simp at hoptions
  have hholds := walk_encode fields pads rest (Nat.le_add_left msg.size.toNat 240) hoptions
  have hmasks : masks msg = fields.filterMap Field.netmask :=
    filterMap_eq_of_forall₂ (fun _ _ h => h.mask) hholds
  have hrouters : routers msg = fields.filterMap Field.router :=
    filterMap_eq_of_forall₂ (fun _ _ h => h.router) hholds
  rw [handlePacket_of_accepted ⟨hsize, hmac, hyiaddr⟩, hmasks, hrouters]

/-- A mask, and a router behind two pad bytes; the value of the mask has bytes that look like a
terminator. -/
def exampleFields : List Field :=
  [⟨0, 1, [255, 255, 255, 0], by decide, by decide, by decide⟩,
    ⟨2, 3, [10, 0, 0, 1], by decide, by decide, by decide⟩]

/-- An offer with these options and one byte behind them. -/
def exampleOffer (mac : Mac) : DHCPPacket where
  data := bufferOf ((strayOffer mac).take 240 ++ (encode exampleFields 1 ++ [7]))
  size := 257

set_option maxRecDepth 10000 in
theorem handlePacket_encode_example :
    handlePacket (freshStation 0x0200000A 0x56)
        (exampleOffer (freshStation 0x0200000A 0x56).rtl8139Mac) =
      { freshStation 0x0200000A 0x56 with
        myIp := yiaddr (exampleOffer (freshStation 0x0200000A 0x56).rtl8139Mac)
        subnetMask := lastOr (freshStation 0x0200000A 0x56).subnetMask
          (exampleFields.filterMap Field.netmask)
        gatewayIp := lastOr (freshStation 0x0200000A 0x56).gatewayIp
          (exampleFields.filterMap Field.router) } :=
  handlePacket_encode exampleFields 1 [7] (by decide) (by decide) (by decide)

end MesaOS.Net.DHCP
