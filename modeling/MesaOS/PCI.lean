/-
The devices on the PCI bus, and the drivers that look for theirs (`drivers/pci.cpp`, `usb.cpp` and
`audio.cpp`).

`PCIDriver::scan` keeps the base class and the subclass of a function apart, eight bits each.
`USBDriver::initialize` and `AudioDriver::initialize` compare the base class with both in one word.

* `devices_scan` — the list of devices: the functions that are there, up to 32 of them;
* `classId_entry` — what is stored of the class;
* `detects_iff` — when the drivers find their devices.
-/
import Mathlib.Data.List.TakeDrop
import MesaOS.MachineWord
import MesaOS.Mediation

open MachineWord

namespace MesaOS.Drivers

/-! ### The configuration space -/

/-- What the data port reads as for each word at the address port. -/
abbrev ConfigSpace := U32 → U32

/-- The address of a word: `0x80000000` and the bus, the slot, the function and the offset. -/
def configAddress (bus slot func offset : U8) : U32 :=
  bus.setWidth 32 <<< 16 ||| slot.setWidth 32 <<< 11 ||| func.setWidth 32 <<< 8 |||
    (offset &&& 0xFC).setWidth 32 ||| 0x80000000

/-- `PCIDriver::config_read_word` -/
def configReadWord (cfg : ConfigSpace) (bus slot func offset : U8) : U16 :=
  (cfg (configAddress bus slot func offset) >>> ((offset &&& 2) * 8).toNat &&& 0xFFFF).setWidth 16

/-! ### `PCIDriver::scan` -/

structure PCIDevice where
  bus : U8
  device : U8
  function : U8
  vendorId : U16
  deviceId : U16
  classId : U16
  subclassId : U16
  interruptLine : U8
  deriving DecidableEq

/-- The first `device_count` entries of an array with room for `n` devices. -/
structure DeviceTable (α : Type) (n : ℕ) where
  devices : List α
  room : devices.length ≤ n

namespace DeviceTable

variable {α : Type} {n : ℕ}

/-- `device_count = 0;` -/
def empty : DeviceTable α n := ⟨[], Nat.zero_le _⟩

/-- `if (device_count < n)`, and what is stored then. -/
def add (t : DeviceTable α n) (d : α) : DeviceTable α n :=
  if h : t.devices.length < n then
    ⟨t.devices ++ [d], by rw [List.length_append, List.length_singleton]; exact h⟩
  else t

theorem devices_add (t : DeviceTable α n) (d : α) :
    (t.add d).devices = (t.devices ++ [d]).take n := by
  rw [add]
  split
  next h => exact (List.take_of_length_le (by rw [List.length_append]; exact h)).symm
  next h => rw [List.take_append_of_le_length (Nat.le_of_not_lt h), List.take_of_length_le t.room]

theorem devices_addAll (t : DeviceTable α n) (ds : List α) :
    (ds.foldl add t).devices = (t.devices ++ ds).take n := by
  induction ds generalizing t with
  | nil => rw [List.foldl_nil, List.append_nil, List.take_of_length_le t.room]
  | cons d ds ih =>
    rw [List.foldl_cons, ih, devices_add, List.append_cons t.devices d ds]
    generalize t.devices ++ [d] = front
    by_cases hfull : n ≤ front.length
    -- what comes behind a full table is lost either way
    · have hfront : (front.take n).length = n := List.length_take_of_le hfull
      rw [List.take_append_of_le_length hfront.ge, List.take_append_of_le_length hfull,
        List.take_take, Nat.min_self]
    · rw [List.take_of_length_le (Nat.le_of_not_le hfull)]

end DeviceTable

/-- The static members of the class. -/
abbrev PCIDriver := DeviceTable PCIDevice 32

/-- The place of a function. -/
structure Location where
  bus : U8
  slot : U8
  func : U8
  deriving DecidableEq

/-- What is read of a function that is there. -/
def entry (cfg : ConfigSpace) (l : Location) : PCIDevice :=
  let classInfo := configReadWord cfg l.bus l.slot l.func 10
  { bus := l.bus
    device := l.slot
    function := l.func
    vendorId := configReadWord cfg l.bus l.slot l.func 0
    deviceId := configReadWord cfg l.bus l.slot l.func 2
    classId := classInfo >>> 8
    subclassId := classInfo &&& 0xFF
    interruptLine := (configReadWord cfg l.bus l.slot l.func 0x3C &&& 0xFF).setWidth 8 }

namespace PCIDriver

open DeviceTable (add empty devices_addAll)

/-- The loop over the functions of a slot. -/
def scanFunctions (cfg : ConfigSpace) (bus slot : U8) : List ℕ → PCIDriver → PCIDriver
  | [], s => s
  | i :: rest, s =>
    let func := BitVec.ofNat 8 i
    let vendor := configReadWord cfg bus slot func 0
    if vendor = 0xFFFF then
      -- an empty slot has no other functions
      if i = 0 then s else scanFunctions cfg bus slot rest s
    else
      let s := s.add (entry cfg ⟨bus, slot, func⟩)
      if i = 0 then
        -- if not multi-function, the others are not looked at
        let headerType := configReadWord cfg bus slot func 14 &&& 0xFF
        if headerType &&& 0x80 = 0 then s else scanFunctions cfg bus slot rest s
      else scanFunctions cfg bus slot rest s

/-- `PCIDriver::scan`, which starts with no devices. -/
def scan (cfg : ConfigSpace) : PCIDriver :=
  (List.range 4).foldl (fun s bus =>
    (List.range 32).foldl (fun s slot =>
      scanFunctions cfg (BitVec.ofNat 8 bus) (BitVec.ofNat 8 slot) (List.range 8) s) s) empty

/-! ### The functions that are there -/

/-- A function answers with its vendor. -/
def Present (cfg : ConfigSpace) (l : Location) : Prop :=
  configReadWord cfg l.bus l.slot l.func 0 ≠ 0xFFFF

instance (cfg : ConfigSpace) (l : Location) : Decidable (Present cfg l) :=
  inferInstanceAs (Decidable (_ ≠ _))

/-- The header type says that there are more functions. -/
def MultiFunction (cfg : ConfigSpace) (bus slot : U8) : Prop :=
  configReadWord cfg bus slot 0 14 &&& 0xFF &&& 0x80 ≠ 0

instance (cfg : ConfigSpace) (bus slot : U8) : Decidable (MultiFunction cfg bus slot) :=
  inferInstanceAs (Decidable (_ ≠ _))

/-- The functions of a slot: none without function 0, and only that one unless there are more. -/
def functionsAt (cfg : ConfigSpace) (bus slot : U8) : List Location :=
  if Present cfg ⟨bus, slot, 0⟩ then
    if MultiFunction cfg bus slot then
      ((List.range 8).map fun i => ⟨bus, slot, BitVec.ofNat 8 i⟩).filter fun l => Present cfg l
    else [⟨bus, slot, 0⟩]
  else []

/-- The functions in the order of the scan. -/
def found (cfg : ConfigSpace) : List Location :=
  (List.range 4).flatMap fun bus => (List.range 32).flatMap fun slot =>
    functionsAt cfg (BitVec.ofNat 8 bus) (BitVec.ofNat 8 slot)

/-- The functions that are listed. -/
def listed (cfg : ConfigSpace) : List Location := (found cfg).take 32

theorem scanFunctions_tail (cfg : ConfigSpace) (bus slot : U8) {is : List ℕ} (h : 0 ∉ is)
    (s : PCIDriver) :
    scanFunctions cfg bus slot is s =
      (((is.map fun i => (⟨bus, slot, BitVec.ofNat 8 i⟩ : Location)).filter
        fun l => Present cfg l).map (entry cfg)).foldl add s := by
  induction is generalizing s with
  | nil => rfl
  | cons i is ih =>
    rw [List.mem_cons, not_or] at h
    have hi : i ≠ 0 := fun heq => h.1 heq.symm
    rw [scanFunctions, List.map_cons]
    dsimp only
    by_cases hpresent : Present cfg ⟨bus, slot, BitVec.ofNat 8 i⟩
    · have hvendor : configReadWord cfg bus slot (BitVec.ofNat 8 i) 0 ≠ 0xFFFF := hpresent
      rw [if_neg hvendor, if_neg hi, ih h.2, List.filter_cons,
        if_pos (decide_eq_true hpresent)]
      rfl
    · have hvendor : configReadWord cfg bus slot (BitVec.ofNat 8 i) 0 = 0xFFFF :=
        not_not.mp hpresent
      rw [if_pos hvendor, if_neg hi, ih h.2,
        List.filter_cons, if_neg fun h => hpresent (of_decide_eq_true h)]

/-- The loop over a slot adds its functions. -/
theorem scanFunctions_eq (cfg : ConfigSpace) (bus slot : U8) (s : PCIDriver) :
    scanFunctions cfg bus slot (List.range 8) s =
      ((functionsAt cfg bus slot).map (entry cfg)).foldl add s := by
  have hrange : List.range 8 = 0 :: [1, 2, 3, 4, 5, 6, 7] := by decide
  have htail : ∀ s, scanFunctions cfg bus slot [1, 2, 3, 4, 5, 6, 7] s = _ :=
    scanFunctions_tail cfg bus slot (by decide)
  have hzero : BitVec.ofNat 8 0 = 0 := rfl
  rw [hrange, scanFunctions, functionsAt, hrange, List.map_cons]
  dsimp only
  rw [hzero]
  by_cases hpresent : Present cfg ⟨bus, slot, 0⟩
  · have hvendor : configReadWord cfg bus slot 0 0 ≠ 0xFFFF := hpresent
    rw [if_neg hvendor, if_pos rfl, if_pos hpresent]
    by_cases hmulti : MultiFunction cfg bus slot
    · have hheader : configReadWord cfg bus slot 0 14 &&& 0xFF &&& 0x80 ≠ 0 := hmulti
      rw [if_neg hheader, if_pos hmulti, htail,
        List.filter_cons,
        if_pos (decide_eq_true hpresent)]
      rfl
    · have hheader : configReadWord cfg bus slot 0 14 &&& 0xFF &&& 0x80 = 0 := not_not.mp hmulti
      rw [if_pos hheader, if_neg hmulti]
      rfl
  · have hvendor : configReadWord cfg bus slot 0 0 = 0xFFFF := not_not.mp hpresent
    rw [if_pos hvendor, if_pos rfl, if_neg hpresent]
    rfl

theorem devices_scan (cfg : ConfigSpace) :
    (scan cfg).devices = (listed cfg).map (entry cfg) := by
  have hscan : scan cfg = ((found cfg).map (entry cfg)).foldl add empty := by
    rw [scan, found, List.map_flatMap, List.foldl_flatMap]
    refine congrArg (fun f => (List.range 4).foldl f empty) (funext fun s => funext fun bus => ?_)
    rw [List.map_flatMap, List.foldl_flatMap]
    refine congrArg (fun f => (List.range 32).foldl f s) (funext fun s => funext fun slot => ?_)
    exact scanFunctions_eq cfg _ _ s
  rw [hscan, devices_addAll, listed, List.map_take]
  rfl

end PCIDriver

/-! ### The class of a function -/

/-- The most significant byte of the word at 8. -/
def baseClass (cfg : ConfigSpace) (l : Location) : U8 :=
  (cfg (configAddress l.bus l.slot l.func 8) >>> 24).setWidth 8

/-- The byte behind it. -/
def subclass (cfg : ConfigSpace) (l : Location) : U8 :=
  (cfg (configAddress l.bus l.slot l.func 8) >>> 16).setWidth 8

def HasClass (cfg : ConfigSpace) (l : Location) (base sub : U8) : Prop :=
  baseClass cfg l = base ∧ subclass cfg l = sub

instance (cfg : ConfigSpace) (l : Location) (base sub : U8) :
    Decidable (HasClass cfg l base sub) := inferInstanceAs (Decidable (_ ∧ _))

def HasIds (cfg : ConfigSpace) (l : Location) (vendor device : U16) : Prop :=
  configReadWord cfg l.bus l.slot l.func 0 = vendor ∧
    configReadWord cfg l.bus l.slot l.func 2 = device

instance (cfg : ConfigSpace) (l : Location) (vendor device : U16) :
    Decidable (HasIds cfg l vendor device) := inferInstanceAs (Decidable (_ ∧ _))

theorem toNat_classInfo (cfg : ConfigSpace) (l : Location) :
    (configReadWord cfg l.bus l.slot l.func 10).toNat =
      (cfg (configAddress l.bus l.slot l.func 8)).toNat / 2 ^ 16 := by
  have haddress : configAddress l.bus l.slot l.func 10 = configAddress l.bus l.slot l.func 8 := rfl
  have hshift : (((10 : U8) &&& 2) * 8).toNat = 16 := rfl
  have hmask : (0xFFFF : U32) = lowMask 32 16 := rfl
  -- the upper half of the word at 8
  rw [configReadWord, haddress, hshift, hmask, BitVec.toNat_setWidth,
    toNat_and_lowMask _ (by decide), Nat.mod_mod, BitVec.toNat_ushiftRight,
    Nat.shiftRight_eq_div_pow]
  omega

/-- What is stored of the class is the base class, and the subclass next to it. -/
theorem classId_entry (cfg : ConfigSpace) (l : Location) :
    (entry cfg l).classId = (baseClass cfg l).setWidth 16 ∧
      (entry cfg l).subclassId = (subclass cfg l).setWidth 16 := by
  have hmask : (0xFF : U16) = lowMask 16 8 := rfl
  constructor
  · apply BitVec.eq_of_toNat_eq
    rw [entry, baseClass, BitVec.toNat_ushiftRight, toNat_classInfo]
    simp only [BitVec.toNat_setWidth, BitVec.toNat_ushiftRight, Nat.shiftRight_eq_div_pow]
    omega
  · apply BitVec.eq_of_toNat_eq
    rw [entry, subclass, hmask, toNat_and_lowMask _ (by decide), toNat_classInfo]
    simp only [BitVec.toNat_setWidth, BitVec.toNat_ushiftRight, Nat.shiftRight_eq_div_pow]
    omega

/-- So no number from 256 on is the `class_id` of a device. -/
theorem classId_entry_ne (cfg : ConfigSpace) (l : Location) {c : U16} (hc : 256 ≤ c.toNat) :
    (entry cfg l).classId ≠ c := by
  rintro rfl
  rw [(classId_entry cfg l).1, BitVec.toNat_setWidth_of_le (by decide)] at hc
  exact absurd (baseClass cfg l).isLt (Nat.not_lt.mpr hc)

/-! ### The drivers -/

structure USBDevice where
  address : U8
  deviceClass : U8
  deviceSubclass : U8
  deviceProtocol : U8
  vendorId : U16
  productId : U16
  maxPacketSize : U8
  numConfigurations : U8
  deriving DecidableEq

/-- The static members of the class, and the messages that went to `Logging::info`. -/
structure USBDriver where
  table : DeviceTable USBDevice 16
  initialized : Bool
  log : List String

namespace USBDriver

def rootHub : USBDevice :=
  { address := 1, deviceClass := 0x09, deviceSubclass := 0x00, deviceProtocol := 0x00
    vendorId := 0x80EE, productId := 0x0021, maxPacketSize := 64, numConfigurations := 1 }

def tablet : USBDevice :=
  { address := 2, deviceClass := 0x03, deviceSubclass := 0x01, deviceProtocol := 0x02
    vendorId := 0x80EE, productId := 0x0030, maxPacketSize := 8, numConfigurations := 1 }

def storage : USBDevice :=
  { address := 3, deviceClass := 0x08, deviceSubclass := 0x06, deviceProtocol := 0x50
    vendorId := 0x80EE, productId := 0x0040, maxPacketSize := 64, numConfigurations := 1 }

/-- `USBDriver::enumerate_devices` -/
def enumerateDevices (s : USBDriver) : USBDriver :=
  if !s.initialized then s
  else
    let table := ((DeviceTable.empty.add rootHub).add tablet).add storage
    let count := BitVec.ofNat 32 table.devices.length
    { s with table := table, log := s.log ++ ["Found " ++ Net.itoa count ++ " USB devices"] }

/-- The devices at which the loop of `initialize` stops. -/
def IsController (d : PCIDevice) : Prop :=
  d.classId = 0x0C03 ∨ (d.vendorId = 0x8086 ∧ d.deviceId = 0x265C)

instance (d : PCIDevice) : Decidable (IsController d) := inferInstanceAs (Decidable (_ ∨ _))

/-- What is logged of the kind of a controller. -/
def describe (d : PCIDevice) : List String :=
  if d.vendorId = 0x80EE ∧ d.deviceId = 0x0021 then
    ["VirtualBox USB 2.0 EHCI controller detected"]
  else if d.vendorId = 0x8086 ∧ d.deviceId = 0x265C then
    ["Intel ICH6 USB controller detected (VirtualBox emulated)"]
  else []

/-- `USBDriver::initialize`, which scans the bus. -/
def initializeUSB (cfg : ConfigSpace) (pci : PCIDriver) (s : USBDriver) : PCIDriver × USBDriver :=
  if s.initialized then (pci, s)
  else
    let pci := PCIDriver.scan cfg
    match pci.devices.find? fun d => IsController d with
    | some d =>
      (pci, enumerateDevices
        { s with
          initialized := true
          log := s.log ++ ["USB controller found - initializing..."] ++ describe d ++
            ["USB driver initialized successfully"] })
    | none => (pci, { s with log := s.log ++ ["No USB controllers found"] })

end USBDriver

structure AudioFormat where
  sampleRate : U32
  channels : U8
  bitsPerSample : U8
  deriving DecidableEq

/-- The static members that `initialize` sets, and the messages that went to `Logging::info`. -/
structure AudioDriver where
  initialized : Bool
  currentFormat : AudioFormat
  volume : U8
  audioDevice : PCIDevice
  log : List String

namespace AudioDriver

def defaultFormat : AudioFormat := { sampleRate := 44100, channels := 2, bitsPerSample := 16 }

/-- The devices at which the loop of `initialize` stops. -/
def IsAudio (d : PCIDevice) : Prop :=
  d.classId = 0x0401 ∨ d.classId = 0x0403 ∨ (d.vendorId = 0x8086 ∧ d.deviceId = 0x2415)

instance (d : PCIDevice) : Decidable (IsAudio d) := inferInstanceAs (Decidable (_ ∨ _ ∨ _))

def describe (d : PCIDevice) : List String :=
  if d.vendorId = 0x8086 ∧ d.deviceId = 0x2415 then
    ["VirtualBox ICH AC97 audio controller detected"]
  else []

/-- `AudioDriver::initialize`, which scans the bus again. -/
def initializeAudio (cfg : ConfigSpace) (pci : PCIDriver) (s : AudioDriver) :
    PCIDriver × AudioDriver :=
  if s.initialized then (pci, s)
  else
    let pci := PCIDriver.scan cfg
    match pci.devices.find? fun d => IsAudio d with
    | some d =>
      (pci,
        { initialized := true
          currentFormat := defaultFormat
          volume := 100
          audioDevice := d
          log := s.log ++ ["Audio device found - initializing..."] ++ describe d ++
            ["Audio driver initialized successfully"] })
    | none => (pci, { s with log := s.log ++ ["No audio devices found"] })

end AudioDriver

/-! ### What is detected -/

/-- The first device with a property is found where there is one in the list of the scan. -/
theorem find_scan (cfg : ConfigSpace) (p : PCIDevice → Prop) [DecidablePred p] :
    ((PCIDriver.scan cfg).devices.find? fun d => p d).isSome = true ↔
      ∃ l ∈ PCIDriver.listed cfg, p (entry cfg l) := by
  rw [PCIDriver.devices_scan, List.find?_isSome]
  constructor
  · rintro ⟨d, hd, hp⟩
    obtain ⟨l, hl, rfl⟩ := List.mem_map.mp hd
    exact ⟨l, hl, of_decide_eq_true hp⟩
  · rintro ⟨l, hl, hp⟩
    exact ⟨entry cfg l, List.mem_map_of_mem hl, decide_eq_true hp⟩

theorem isController_entry (cfg : ConfigSpace) (l : Location) :
    USBDriver.IsController (entry cfg l) ↔ HasIds cfg l 0x8086 0x265C :=
  or_iff_right (classId_entry_ne cfg l (by decide))

theorem isAudio_entry (cfg : ConfigSpace) (l : Location) :
    AudioDriver.IsAudio (entry cfg l) ↔ HasIds cfg l 0x8086 0x2415 :=
  (or_iff_right (classId_entry_ne cfg l (by decide))).trans
    (or_iff_right (classId_entry_ne cfg l (by decide)))

theorem USBDriver.initialized_initializeUSB (cfg : ConfigSpace) (pci : PCIDriver) (s : USBDriver) :
    (s.initializeUSB cfg pci).2.initialized = true ↔
      s.initialized = true ∨ ∃ l ∈ PCIDriver.listed cfg, HasIds cfg l 0x8086 0x265C := by
  have hfind := find_scan cfg IsController
  simp only [isController_entry] at hfind
  rw [← hfind, initializeUSB]
  cases hs : s.initialized with
  | true => exact iff_of_true hs (.inl rfl)
  | false =>
    dsimp only
    cases (PCIDriver.scan cfg).devices.find? fun d => IsController d with
    | some d => exact iff_of_true rfl (.inr rfl)
    | none => exact iff_of_false (by simp) (by simp)

theorem AudioDriver.initialized_initializeAudio (cfg : ConfigSpace) (pci : PCIDriver)
    (s : AudioDriver) :
    (s.initializeAudio cfg pci).2.initialized = true ↔
      s.initialized = true ∨ ∃ l ∈ PCIDriver.listed cfg, HasIds cfg l 0x8086 0x2415 := by
  have hfind := find_scan cfg IsAudio
  simp only [isAudio_entry] at hfind
  rw [← hfind, initializeAudio]
  cases hs : s.initialized with
  | true => exact iff_of_true hs (.inl rfl)
  | false =>
    dsimp only
    cases (PCIDriver.scan cfg).devices.find? fun d => IsAudio d with
    | some d => exact iff_of_true rfl (.inr rfl)
    | none => exact iff_of_false (by simp) (by simp)

/-- The place of a listed device. -/
def PCIDevice.location (d : PCIDevice) : Location := ⟨d.bus, d.device, d.function⟩

/-- With a USB controller in the list the one driver is initialized, and with an audio device in
it the other. -/
def Detects (cfg : ConfigSpace) (pci : PCIDriver) (usb : USBDriver) (audio : AudioDriver) : Prop :=
  ((∃ d ∈ (PCIDriver.scan cfg).devices, HasClass cfg d.location 0x0C 0x03) →
    (usb.initializeUSB cfg pci).2.initialized = true) ∧
  ((∃ d ∈ (PCIDriver.scan cfg).devices,
      HasClass cfg d.location 0x04 0x01 ∨ HasClass cfg d.location 0x04 0x03) →
    (audio.initializeAudio cfg pci).2.initialized = true)

theorem exists_scan (cfg : ConfigSpace) (p : Location → Prop) :
    (∃ d ∈ (PCIDriver.scan cfg).devices, p d.location) ↔ ∃ l ∈ PCIDriver.listed cfg, p l := by
  rw [PCIDriver.devices_scan]
  constructor
  · rintro ⟨d, hd, hp⟩
    obtain ⟨l, hl, rfl⟩ := List.mem_map.mp hd
    exact ⟨l, hl, hp⟩
  · rintro ⟨l, hl, hp⟩
    exact ⟨entry cfg l, List.mem_map_of_mem hl, hp⟩

/-- **The drivers detect their devices** only where there is one of the two that they know by the
numbers of the vendor and the device, or none to be detected. -/
theorem detects_iff (cfg : ConfigSpace) (pci : PCIDriver) (usb : USBDriver)
    (audio : AudioDriver) :
    Detects cfg pci usb audio ↔
      (usb.initialized = true ∨ (∃ l ∈ PCIDriver.listed cfg, HasIds cfg l 0x8086 0x265C) ∨
        ∀ l ∈ PCIDriver.listed cfg, ¬ HasClass cfg l 0x0C 0x03) ∧
      (audio.initialized = true ∨ (∃ l ∈ PCIDriver.listed cfg, HasIds cfg l 0x8086 0x2415) ∨
        ∀ l ∈ PCIDriver.listed cfg, ¬ (HasClass cfg l 0x04 0x01 ∨ HasClass cfg l 0x04 0x03)) := by
  have hunless : ∀ {p : Location → Prop} {known ready : Prop},
      ((∃ l ∈ PCIDriver.listed cfg, p l) → known ∨ ready) ↔
        known ∨ ready ∨ ∀ l ∈ PCIDriver.listed cfg, ¬ p l := by
    intro p known ready
    rw [imp_iff_or_not, or_assoc, not_exists]
    simp only [not_and]
  rw [Detects, exists_scan cfg fun l => HasClass cfg l 0x0C 0x03,
    exists_scan cfg fun l => HasClass cfg l 0x04 0x01 ∨ HasClass cfg l 0x04 0x03,
    USBDriver.initialized_initializeUSB, AudioDriver.initialized_initializeAudio]
  -- the audio devices are looked for as the controllers are
  exact and_congr hunless hunless

/-- Only the USB 2.0 controller of VirtualBox, class `0x0C` and subclass `0x03`, in slot 1. -/
def ehci : ConfigSpace := fun a =>
  if a = configAddress 0 1 0 0 then 0x002180EE
  else if a = configAddress 0 1 0 8 then 0x0C032000
  else if a = configAddress 0 1 0 12 then 0
  else 0xFFFFFFFF

theorem ehci_not_detected :
    ¬ Detects ehci .empty { table := .empty, initialized := false, log := [] }
      { initialized := false
        currentFormat := AudioDriver.defaultFormat
        volume := 100
        audioDevice := ⟨0, 0, 0, 0, 0, 0, 0, 0⟩
        log := [] } := by
  have hdevices : (PCIDriver.scan ehci).devices = [entry ehci ⟨0, 1, 0⟩] := by decide +kernel
  intro h
  have hmem : entry ehci ⟨0, 1, 0⟩ ∈ (PCIDriver.scan ehci).devices := by
    rw [hdevices]
    exact List.mem_singleton_self _
  have hclass : HasClass ehci (entry ehci ⟨0, 1, 0⟩).location 0x0C 0x03 := by decide
  exact absurd (h.1 ⟨_, hmem, hclass⟩) (by decide +kernel)

end MesaOS.Drivers
