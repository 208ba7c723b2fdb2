/-
The neighbor cache of IPv6 (`IPv6::update_neighbor_cache` in `net/ipv6.cpp`).

Two arrays of eight entries hold the addresses and the hardware addresses, and a counter says
how many of them are in use.  They are a table with room for eight entries (`BoundedTable`).

* `updateNeighborCache_eq` — one call on the arrays is one call on the table;
* `entries_of_run` — so the arrays hold the table of the whole history;
* `neighbors_of_run` — which addresses are stored, and with which hardware addresses.
-/
import MesaOS.BoundedTable
import MesaOS.CheckedArray
import MesaOS.IPv6
import MesaOS.Runs

open MachineWord Runs CheckedArray

namespace MesaOS.Net

/-- The static members of `IPv6` that are the cache. -/
structure NeighborCache where
  neighborCache : Fin 8 → Mac
  neighborAddrs : Fin 8 → IPv6Addr
  neighborCount : U8

namespace NeighborCache

/-- The members at the start of the program. -/
def start : NeighborCache where
  neighborCache := fun _ => zeroMac
  neighborAddrs := fun _ => ⟨List.replicate 16 0, rfl⟩
  neighborCount := 0

/-- The loop from entry `i` on, with `turns` turns to go: the entry with the address. -/
def findEntry (s : NeighborCache) (ipAddr : IPv6Addr) (i : ℕ) : ℕ → Option (Option ℕ)
  | 0 => some none
  | turns + 1 =>
    (load s.neighborAddrs i).bind fun addr =>
      if addr = ipAddr then some (some i) else findEntry s ipAddr (i + 1) turns

/-- The two arguments of a call, which may be null pointers. -/
abbrev Call := Option IPv6Addr × Option Mac

/-- `IPv6::update_neighbor_cache` -/
def updateNeighborCache (s : NeighborCache) : Call → Option NeighborCache
  | (some ipAddr, some macAddr) =>
    (findEntry s ipAddr 0 s.neighborCount.toNat).bind fun
      | some i =>
        (store s.neighborCache i macAddr).map fun cache => { s with neighborCache := cache }
      | none =>
        if s.neighborCount < 8 then
          (store s.neighborAddrs s.neighborCount.toNat ipAddr).bind fun addrs =>
            (store s.neighborCache s.neighborCount.toNat macAddr).map fun cache =>
              { neighborCache := cache, neighborAddrs := addrs
                neighborCount := s.neighborCount + 1 }
        else some s
  | _ => some s

/-! ### The table -/

/-- The entries in use. -/
def entries (s : NeighborCache) : List (IPv6Addr × Mac) :=
  (List.ofFn fun i => (s.neighborAddrs i, s.neighborCache i)).take s.neighborCount.toNat

/-- What a call gives to the table. -/
def argument : Call → Option (IPv6Addr × Mac)
  | (some ipAddr, some macAddr) => some (ipAddr, macAddr)
  | _ => none

variable {s : NeighborCache} {ipAddr : IPv6Addr} {macAddr : Mac}

theorem length_entries (h : s.neighborCount.toNat ≤ 8) :
    s.entries.length = s.neighborCount.toNat := by
  rw [entries, List.length_take, List.length_ofFn, Nat.min_eq_left h]

theorem getElem_entries {i : ℕ} (hi : i < s.entries.length) (h8 : i < 8) :
    s.entries[i] = (s.neighborAddrs ⟨i, h8⟩, s.neighborCache ⟨i, h8⟩) := by
  simp only [entries, List.getElem_take, List.getElem_ofFn]

/-- The loop finds the first entry with the address. -/
theorem findEntry_eq (h : s.neighborCount.toNat ≤ 8) {i turns : ℕ}
    (hsum : i + turns = s.neighborCount.toNat) :
    findEntry s ipAddr i turns =
      some (((s.entries.drop i).findIdx? fun x => x.1 = ipAddr).map (· + i)) := by
  have hlength := length_entries h
  induction turns generalizing i with
  | zero =>
    rw [findEntry, List.drop_eq_nil_of_le (by omega)]
    rfl
  | succ turns ih =>
    have h8 : i < 8 := by omega
    have hi : i < s.entries.length := by omega
    rw [findEntry, load_of_lt _ h8, Option.bind_some, List.drop_eq_getElem_cons hi,
      getElem_entries hi h8, List.findIdx?_cons]
    dsimp only
    by_cases haddr : s.neighborAddrs ⟨i, h8⟩ = ipAddr
    · rw [if_pos haddr, if_pos (decide_eq_true haddr), Option.map_some, Nat.zero_add]
    · rw [if_neg haddr, if_neg (by simpa using haddr), ih (by omega), Option.map_map]
      refine congrArg (fun f => some (Option.map f _)) (funext fun k => ?_)
      simp only [Function.comp]
      omega

/-- A new hardware address for entry `i`. -/
theorem entries_replace {i : Fin 8} (haddr : s.neighborAddrs i = ipAddr) :
    entries { s with neighborCache := Function.update s.neighborCache i macAddr } =
      s.entries.set i (ipAddr, macAddr) := by
  have hpairs : (fun k => (s.neighborAddrs k, Function.update s.neighborCache i macAddr k)) =
      Function.update (fun k => (s.neighborAddrs k, s.neighborCache k)) i (ipAddr, macAddr) := by
    funext k
    by_cases hk : k = i
    · rw [hk, Function.update_self, Function.update_self, haddr]
    · rw [Function.update_of_ne hk, Function.update_of_ne hk]
  rw [entries, entries]
  dsimp only
  rw [hpairs, ofFn_update, List.take_set]

/-- The entry behind those in use. -/
theorem entries_add {count : U8} (h : s.neighborCount.toNat < 8)
    (hcount : count.toNat = s.neighborCount.toNat + 1) :
    entries
        { neighborCache := Function.update s.neighborCache ⟨s.neighborCount.toNat, h⟩ macAddr
          neighborAddrs := Function.update s.neighborAddrs ⟨s.neighborCount.toNat, h⟩ ipAddr
          neighborCount := count } =
      s.entries ++ [(ipAddr, macAddr)] := by
  have hpairs : (fun k => (Function.update s.neighborAddrs ⟨s.neighborCount.toNat, h⟩ ipAddr k,
      Function.update s.neighborCache ⟨s.neighborCount.toNat, h⟩ macAddr k)) =
      Function.update (fun k => (s.neighborAddrs k, s.neighborCache k))
        ⟨s.neighborCount.toNat, h⟩ (ipAddr, macAddr) := by
    funext k
    by_cases hk : k = ⟨s.neighborCount.toNat, h⟩
    · rw [hk, Function.update_self, Function.update_self, Function.update_self]
    · rw [Function.update_of_ne hk, Function.update_of_ne hk, Function.update_of_ne hk]
  rw [entries, entries]
  dsimp only
  rw [hpairs, ofFn_update, hcount, List.take_add_one, List.take_set_of_le (Nat.le_refl _),
    List.getElem?_set_self (by rw [List.length_ofFn]; exact h)]
  rfl

/-- **A call on the arrays** is a call on the table. -/
theorem updateNeighborCache_eq (h : s.neighborCount.toNat ≤ 8) :
    ∃ s', s.updateNeighborCache (some ipAddr, some macAddr) = some s' ∧
      s'.neighborCount.toNat ≤ 8 ∧ s'.entries = BoundedTable.put 8 s.entries (ipAddr, macAddr) := by
  have hlength := length_entries h
  rw [updateNeighborCache, findEntry_eq h (Nat.zero_add _), Option.bind_some, List.drop_zero,
    BoundedTable.put]
  cases hfind : s.entries.findIdx? (fun x => x.1 = ipAddr) with
  | some i =>
    -- the address is there, and its entry gets the new hardware address
    obtain ⟨hi, hkey, -⟩ := List.findIdx?_eq_some_iff_getElem.mp hfind
    have h8 : i < 8 := by omega
    have haddr : s.neighborAddrs ⟨i, h8⟩ = ipAddr := by
      rw [getElem_entries hi h8] at hkey
      exact of_decide_eq_true hkey
    rw [Option.map_some, Nat.add_zero]
    dsimp only
    rw [store_of_lt _ h8, Option.map_some]
    exact ⟨_, rfl, h, entries_replace haddr⟩
  | none =>
    rw [Option.map_none]
    dsimp only
    by_cases hroom : s.neighborCount < 8
    · have h8 : s.neighborCount.toNat < 8 := BitVec.lt_def.mp hroom
      have hcount : (s.neighborCount + 1).toNat = s.neighborCount.toNat + 1 := by
        rw [BitVec.toNat_add, show (1 : U8).toNat = 1 from rfl]
        omega
      rw [if_pos hroom, store_of_lt _ h8, Option.bind_some, store_of_lt _ h8, Option.map_some,
        if_pos (by omega)]
      exact ⟨_, rfl, by dsimp only; omega, entries_add h8 hcount⟩
    · -- a ninth address is not stored
      have hfull : 8 ≤ s.neighborCount.toNat := toNat_le_of_not_lt hroom
      rw [if_neg hroom, if_neg (by omega)]
      exact ⟨s, rfl, h, rfl⟩

/-- What a call does to the table, null pointers or not. -/
theorem updateNeighborCache_step (h : s.neighborCount.toNat ≤ 8) (call : Call) :
    ∃ s', s.updateNeighborCache call = some s' ∧ s'.neighborCount.toNat ≤ 8 ∧
      s'.entries = (argument call).toList.foldl (BoundedTable.put 8) s.entries := by
  match call with
  | (some ipAddr, some macAddr) => exact updateNeighborCache_eq h
  | (some ipAddr, none) => exact ⟨s, rfl, h, rfl⟩
  | (none, macAddr) => exact ⟨s, rfl, h, rfl⟩

/-- The arrays hold the table of the history. -/
theorem entries_of_run (h : s.neighborCount.toNat ≤ 8) (calls : List Call) :
    ∃ s', run updateNeighborCache s calls = some s' ∧ s'.neighborCount.toNat ≤ 8 ∧
      s'.entries = (calls.filterMap argument).foldl (BoundedTable.put 8) s.entries := by
  induction calls generalizing s with
  | nil => exact ⟨s, rfl, h, rfl⟩
  | cons call calls ih =>
    obtain ⟨t, ht, hcount, hentries⟩ := updateNeighborCache_step h call
    obtain ⟨s', hs', hcount', hentries'⟩ := ih hcount
    refine ⟨s', ?_, hcount', ?_⟩
    · rw [run_cons, ht, Option.bind_some, hs']
    · rw [hentries', hentries, ← List.foldl_append]
      cases hcall : argument call with
      | none => rw [List.filterMap_cons_none hcall]; rfl
      | some e => rw [List.filterMap_cons_some hcall]; rfl

/-- The stored addresses. -/
def addresses (s : NeighborCache) : List IPv6Addr :=
  (List.ofFn s.neighborAddrs).take s.neighborCount.toNat

theorem addresses_eq (s : NeighborCache) : s.addresses = s.entries.map Prod.fst := by
  rw [addresses, entries, List.map_take, List.map_ofFn]
  rfl

/-- The hardware address of the last call for an address. -/
def lastMac (calls : List Call) (ipAddr : IPv6Addr) : Option Mac :=
  BoundedTable.last (calls.filterMap argument) ipAddr

/-- **The cache after any calls** holds the first eight addresses, each with the hardware address
of the last call for it. -/
theorem neighbors_of_run (calls : List Call) :
    ∃ s, run updateNeighborCache start calls = some s ∧ s.neighborCount.toNat ≤ 8 ∧
      s.addresses.length = s.neighborCount.toNat ∧ s.addresses.Nodup ∧
      s.addresses = ((calls.filterMap argument).map Prod.fst).eraseDups.take 8 ∧
      ∀ i : Fin 8, i < s.neighborCount.toNat →
        lastMac calls (s.neighborAddrs i) = some (s.neighborCache i) := by
  obtain ⟨s, hs, hcount, hentries⟩ := entries_of_run (s := start) (by decide) calls
  have htable : s.entries = BoundedTable.ofHistory 8 (calls.filterMap argument) := hentries
  have hlength := length_entries hcount
  refine ⟨s, hs, hcount, ?_, ?_, ?_, fun i hi => ?_⟩
  · rw [addresses_eq, List.length_map, hlength]
  · rw [addresses_eq, htable]
    exact BoundedTable.nodup_ofHistory 8 _
  · rw [addresses_eq, htable, BoundedTable.keys_ofHistory]
  · have hmem : (s.neighborAddrs i, s.neighborCache i) ∈ s.entries := by
      rw [← getElem_entries (by omega) i.isLt]
      exact List.getElem_mem _
    rw [htable] at hmem
    exact BoundedTable.mem_ofHistory hmem

end NeighborCache

end MesaOS.Net
