/-
The keys of the disk (`KeyManager` in `fs/crypto.cpp`).

One flag says that the keys are there, but `initialize` sets the master key only, and a
password that comes after it is not looked at.

* `zero_hmacOf_of_short` — of a password of at most 16 characters nothing reaches the key
  that authenticates;
* `right_iff_of_run` — the runs in which both keys are those of the last password.
-/
import MesaOS.Runs
import MesaOS.VFS

open MachineWord Runs

namespace MesaOS.FS.Crypto

/-- One round of the loop that mixes character `i` into a key of `size` bytes. -/
def mixByte (size : ℕ) (password : CString) (key : List U8) (i : ℕ) : List U8 :=
  key.set (i % size) ((key.getD (i % size) 0 ^^^ password.bytes.getD i 0) * 7 + 13)

/-- The loop, on an array of zeros. -/
def mix (size : ℕ) (password : CString) : List U8 :=
  (List.range password.bytes.length).foldl (mixByte size password) (List.replicate size 0)

/-- The static members of the class. -/
structure KeyManager where
  masterKey : List U8
  hmacKey : List U8
  initialized : Bool

namespace KeyManager

/-- The static members at boot. -/
def start : KeyManager :=
  { masterKey := List.replicate 16 0, hmacKey := List.replicate 32 0, initialized := false }

/-- `"MesaOS_Encrypted"` -/
def defaultKey : CString :=
  ⟨[0x4D, 0x65, 0x73, 0x61, 0x4F, 0x53, 0x5F, 0x45, 0x6E, 0x63, 0x72, 0x79, 0x70, 0x74, 0x65,
    0x64], by decide⟩

/-- `KeyManager::derive_key` -/
def deriveKey (password : CString) : List U8 := mix 16 password

/-- `KeyManager::initialize` -/
def initializeKeys (k : KeyManager) : KeyManager :=
  if !k.initialized then { k with masterKey := deriveKey defaultKey, initialized := true } else k

/-- `KeyManager::get_master_key` -/
def getMasterKey (k : KeyManager) : KeyManager × List U8 :=
  let k := if !k.initialized then k.initializeKeys else k
  (k, k.masterKey)

/-- `KeyManager::get_hmac_key` -/
def getHmacKey (k : KeyManager) : KeyManager × List U8 :=
  let k := if !k.initialized then k.initializeKeys else k
  (k, k.hmacKey)

/-- `KeyManager::derive_keys_from_password` -/
def deriveKeysFromPassword (k : KeyManager) (password : CString) : KeyManager :=
  if !k.initialized then
    let combinedKey := mix 48 password
    { masterKey := combinedKey.take 16, hmacKey := combinedKey.drop 16, initialized := true }
  else k

end KeyManager

/-- The two keys that a secret gives. -/
def masterOf (secret : CString) : List U8 := (mix 48 secret).take 16

def hmacOf (secret : CString) : List U8 := (mix 48 secret).drop 16

/-- A key of zeros. -/
def zeroHmac : List U8 := List.replicate 32 0

/-- **Short passwords** leave the second key as it was. -/
theorem zero_hmacOf_of_short {password : CString} (h : password.bytes.length ≤ 16) :
    hmacOf password = zeroHmac := by
  have hloop : ∀ n ≤ 16, ((List.range n).foldl (mixByte 48 password)
      (List.replicate 48 0)).drop 16 = List.replicate 32 0 := by
    intro n
    induction n with
    | zero =>
      intro _
      rfl
    | succ n ih =>
      intro hn
      -- the character goes to one of the first 16 bytes
      rw [List.range_succ, List.foldl_append, List.foldl_cons, List.foldl_nil, mixByte,
        List.drop_set, if_pos (by omega), ih (by omega)]
  exact hloop _ h

/-! ### Calls -/

inductive KeyCall where
  | initializeKeys
  | getMasterKey
  | getHmacKey
  | deriveKeysFromPassword (password : CString)

/-- The keys, and the last password. -/
structure KeyHistory where
  keys : KeyManager
  latest : Option CString

namespace KeyHistory

def start : KeyHistory := { keys := .start, latest := none }

def step (s : KeyHistory) : KeyCall → Option KeyHistory
  | .initializeKeys => some { s with keys := s.keys.initializeKeys }
  | .getMasterKey => some { s with keys := s.keys.getMasterKey.1 }
  | .getHmacKey => some { s with keys := s.keys.getHmacKey.1 }
  | .deriveKeysFromPassword password =>
    some { keys := s.keys.deriveKeysFromPassword password, latest := some password }

/-- Both keys come from one secret, which is the last password if there is one, and the one
that authenticates is not zero. -/
structure Right (s : KeyHistory) : Prop where
  sameSecret : s.keys.initialized = true →
    ∃ secret, s.keys.masterKey = masterOf secret ∧ s.keys.hmacKey = hmacOf secret
  latest : ∀ password, s.latest = some password → s.keys.initialized = true ∧
    s.keys.masterKey = masterOf password ∧ s.keys.hmacKey = hmacOf password
  nonzero : s.keys.initialized = true → s.keys.hmacKey ≠ zeroHmac

/-- The first call gives a password that reaches the second key; later passwords have the same
keys. -/
def Agrees (s : KeyHistory) : KeyCall → Prop
  | .deriveKeysFromPassword password =>
    if s.keys.initialized then
      masterOf password = s.keys.masterKey ∧ hmacOf password = s.keys.hmacKey
    else hmacOf password ≠ zeroHmac
  | _ => s.keys.initialized = true

/-- What holds of every state: before the keys are there, there was no password. -/
def Fresh (s : KeyHistory) : Prop :=
  s.keys.initialized = false → s.keys.hmacKey = zeroHmac ∧ s.latest = none

/-- `initialize` and the two getters do the same to the keys. -/
theorem step_eq (s : KeyHistory) {c : KeyCall} (hc : ∀ password, c ≠ .deriveKeysFromPassword password) :
    s.step c = some { s with keys := s.keys.initializeKeys } := by
  have hget : (if !s.keys.initialized then s.keys.initializeKeys else s.keys) = s.keys.initializeKeys := by
    rw [KeyManager.initializeKeys]
    split <;> rfl
  cases c with
  | initializeKeys => rfl
  | getMasterKey =>
    rw [step, KeyManager.getMasterKey]
    dsimp only
    rw [hget]
  | getHmacKey =>
    rw [step, KeyManager.getHmacKey]
    dsimp only
    rw [hget]
  | deriveKeysFromPassword password => exact absurd rfl (hc password)

theorem initialized_initializeKeys (k : KeyManager) : k.initializeKeys.initialized = true := by
  rw [KeyManager.initializeKeys]
  cases h : k.initialized with
  | false => rfl
  | true => exact h

theorem fresh_step (s : KeyHistory) (c : KeyCall) : ∃ s', s.step c = some s' ∧ s'.Fresh := by
  have hinit : ({ s with keys := s.keys.initializeKeys } : KeyHistory).Fresh := fun h =>
    absurd h (by rw [initialized_initializeKeys]; simp)
  cases c with
  | deriveKeysFromPassword password =>
    refine ⟨_, rfl, fun h => ?_⟩
    dsimp only at h
    rw [KeyManager.deriveKeysFromPassword] at h
    cases hs : s.keys.initialized with
    | false =>
      rw [hs] at h
      exact absurd h nofun
    | true =>
      rw [hs, Bool.not_true, if_neg Bool.false_ne_true, hs] at h
      exact absurd h nofun
  | initializeKeys => exact ⟨_, s.step_eq nofun, hinit⟩
  | getMasterKey => exact ⟨_, s.step_eq nofun, hinit⟩
  | getHmacKey => exact ⟨_, s.step_eq nofun, hinit⟩

/-- `initialize` keeps the property when it finds the keys, and leaves a zero key else. -/
theorem right_initializeKeys_iff {s : KeyHistory} (hfresh : s.Fresh) (hs : s.Right) :
    ({ s with keys := s.keys.initializeKeys } : KeyHistory).Right ↔ s.keys.initialized = true := by
  constructor
  · intro h
    by_contra hnot
    rw [Bool.not_eq_true] at hnot
    have hnonzero := h.nonzero (initialized_initializeKeys _)
    rw [KeyManager.initializeKeys, hnot] at hnonzero
    exact hnonzero (hfresh hnot).1
  · intro h
    have hsame : s.keys.initializeKeys = s.keys := by
      rw [KeyManager.initializeKeys, h]
      rfl
    rw [hsame]
    exact hs

/-- **One call.** -/
theorem right_step (s : KeyHistory) (c : KeyCall) (s' : KeyHistory) (hfresh : s.Fresh)
    (hs : s.Right) (hstep : s.step c = some s') : s'.Right ↔ s.Agrees c := by
  cases c with
  | deriveKeysFromPassword password =>
    rw [step, Option.some_inj] at hstep
    subst hstep
    rw [Agrees, KeyManager.deriveKeysFromPassword]
    cases hinit : s.keys.initialized with
    | true =>
      rw [Bool.not_true, if_neg Bool.false_ne_true, if_pos rfl]
      constructor
      · intro h
        obtain ⟨-, hmaster, hhmac⟩ := h.latest password rfl
        exact ⟨hmaster.symm, hhmac.symm⟩
      · rintro ⟨hmaster, hhmac⟩
        refine ⟨hs.sameSecret, fun p hp => ?_, hs.nonzero⟩
        rw [← Option.some_inj.mp hp]
        exact ⟨hinit, hmaster.symm, hhmac.symm⟩
    | false =>
      rw [Bool.not_false, if_pos rfl, if_neg Bool.false_ne_true]
      constructor
      · exact fun h => h.nonzero rfl
      · intro hnonzero
        refine ⟨fun _ => ⟨password, rfl, rfl⟩, fun p hp => ?_, fun _ => hnonzero⟩
        rw [← Option.some_inj.mp hp]
        exact ⟨rfl, rfl, rfl⟩
  | initializeKeys =>
    rw [s.step_eq (c := .initializeKeys) nofun, Option.some_inj] at hstep
    exact hstep ▸ right_initializeKeys_iff hfresh hs
  | getMasterKey =>
    rw [s.step_eq (c := .getMasterKey) nofun, Option.some_inj] at hstep
    exact hstep ▸ right_initializeKeys_iff hfresh hs
  | getHmacKey =>
    rw [s.step_eq (c := .getHmacKey) nofun, Option.some_inj] at hstep
    exact hstep ▸ right_initializeKeys_iff hfresh hs

end KeyHistory

/-- **The keys are those of the last password** all along a run exactly when it begins with a
password that reaches the second key, and every later one has the same keys. -/
theorem right_iff_of_run (calls : List KeyCall) :
    (∀ before, before <+: calls → ∀ s, run KeyHistory.step .start before = some s → s.Right) ↔
      Guarded KeyHistory.step (fun s c => s.Agrees c) .start calls :=
  forall_prefix_iff_guarded (fun s c _ => s.fresh_step c) KeyHistory.right_step
    (fun _ => ⟨rfl, rfl⟩) ⟨nofun, nofun, nofun⟩

/-- A password of 20 characters. -/
def longPassword : CString := ⟨List.replicate 20 0x70, by decide⟩

/-- **A password that is not looked at.**  `MesaFS::initialize` has called `initialize`, and the
password that comes after it changes nothing: the second key is zero. -/
theorem initialize_then_derive_not_right :
    ¬ ∀ (calls : List KeyCall) (s : KeyHistory),
      run KeyHistory.step .start calls = some s → s.Right := by
  intro h
  have hright := h [.initializeKeys, .deriveKeysFromPassword longPassword] _ rfl
  exact hright.nonzero (by decide) (by decide)

end MesaOS.FS.Crypto
