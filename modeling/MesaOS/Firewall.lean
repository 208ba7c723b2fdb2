/-
The packet filter (`net/firewall.cpp`).

The operator's rules make up a policy: a list in which the first enabled rule that
matches decides.  `initialize` puts a rule in front of it that matches everything.

* `refines_of_run` — the array holds the default rule and then the policy;
* `checkPacket_disableRule_zero` — without the default rule `check_packet` decides as the
  policy does;
* `decides_iff_of_run` — with it, only when no rule of the policy matches.
-/
import MesaOS.MachineWord
import MesaOS.Runs

open MachineWord Runs

namespace MesaOS.Net

/-! ### Rules -/

inductive FirewallAction where
  | allow
  | deny
  deriving DecidableEq

structure FirewallRule where
  srcIp : U32
  dstIp : U32
  srcPort : U16
  dstPort : U16
  protocol : U8
  action : FirewallAction
  enabled : Bool
  deriving DecidableEq

/-- The arguments of `check_packet`. -/
structure PacketInfo where
  srcIp : U32
  dstIp : U32
  srcPort : U16
  dstPort : U16
  protocol : U8

/-- The five comparisons, in which zero matches everything. -/
def FirewallRule.Matches (rule : FirewallRule) (packet : PacketInfo) : Bool :=
  (rule.srcIp = 0 ∨ rule.srcIp = packet.srcIp) ∧ (rule.dstIp = 0 ∨ rule.dstIp = packet.dstIp) ∧
    (rule.srcPort = 0 ∨ rule.srcPort = packet.srcPort) ∧
    (rule.dstPort = 0 ∨ rule.dstPort = packet.dstPort) ∧
    (rule.protocol = 0 ∨ rule.protocol = packet.protocol)

/-- The rule is enabled and matches. -/
def FirewallRule.applies (rule : FirewallRule) (packet : PacketInfo) : Bool :=
  rule.enabled && rule.Matches packet

/-- `MAX_FIREWALL_RULES` -/
def maxFirewallRules : U32 := 32

/-- The static members of `Firewall`. -/
structure Firewall where
  rules : ℕ → FirewallRule
  ruleCount : U32

namespace Firewall

/-- `Firewall::add_rule` -/
def addRule (fw : Firewall) (srcIp dstIp : U32) (srcPort dstPort : U16) (protocol : U8)
    (action : FirewallAction) : Firewall × Bool :=
  if fw.ruleCount ≥ maxFirewallRules then (fw, false)
  else
    ({ rules := Function.update fw.rules fw.ruleCount.toNat
        { srcIp := srcIp, dstIp := dstIp, srcPort := srcPort, dstPort := dstPort
          protocol := protocol, action := action, enabled := true }
       ruleCount := fw.ruleCount + 1 }, true)

/-- `Firewall::initialize`: all bytes of the array are zero, then the default rule is added. -/
def initializeFirewall : Firewall :=
  (addRule
    { rules := fun _ =>
        { srcIp := 0, dstIp := 0, srcPort := 0, dstPort := 0, protocol := 0, action := .allow
          enabled := false }
      ruleCount := 0 } 0 0 0 0 0 .deny).1

/-- The index at which the loop of `check_packet` returns. -/
def decidingRule (fw : Firewall) (packet : PacketInfo) : Option ℕ :=
  (List.range fw.ruleCount.toNat).find? fun i => (fw.rules i).applies packet

/-- `Firewall::check_packet` -/
def checkPacket (fw : Firewall) (packet : PacketInfo) : Bool :=
  match fw.decidingRule packet with
  | some i => (fw.rules i).action = .allow
  | none => false

/-- A rule's `enabled` field is set. -/
def setEnabled (fw : Firewall) (index : U32) (enabled : Bool) : Firewall :=
  if index < fw.ruleCount then
    { fw with
      rules := Function.update fw.rules index.toNat
        { fw.rules index.toNat with enabled := enabled } }
  else fw

/-- `Firewall::enable_rule` -/
def enableRule (fw : Firewall) (index : U32) : Firewall := fw.setEnabled index true

/-- `Firewall::disable_rule` -/
def disableRule (fw : Firewall) (index : U32) : Firewall := fw.setEnabled index false

end Firewall

/-! ### Policies -/

/-- The rules of the operator, in order. -/
abbrev Policy := List FirewallRule

namespace Policy

/-- The rule that decides. -/
def first (policy : Policy) (packet : PacketInfo) : Option FirewallRule :=
  policy.find? fun rule => rule.applies packet

def setEnabled (policy : Policy) (i : ℕ) (enabled : Bool) : Policy :=
  policy.modify i fun rule => { rule with enabled := enabled }

end Policy

/-- The firewall, and the policy that the operator has asked for. -/
structure Operated where
  fw : Firewall
  policy : Policy

inductive Operation where
  | addRule (srcIp dstIp : U32) (srcPort dstPort : U16) (protocol : U8) (action : FirewallAction)
  | enableRule (index : U32)
  | disableRule (index : U32)

/-- A rule that the operator has added; rule 0 is the one of `initialize`. -/
def Firewall.Added (fw : Firewall) (index : U32) : Prop := 0 < index ∧ index < fw.ruleCount

instance (fw : Firewall) (index : U32) : Decidable (fw.Added index) :=
  inferInstanceAs (Decidable (_ ∧ _))

/-- Calls that succeed, on rules that the operator has added. -/
def Operated.step (s : Operated) : Operation → Option Operated
  | .addRule srcIp dstIp srcPort dstPort protocol action =>
    let (fw, ok) := s.fw.addRule srcIp dstIp srcPort dstPort protocol action
    if ok then
      some { fw := fw
             policy := s.policy ++
              [{ srcIp := srcIp, dstIp := dstIp, srcPort := srcPort, dstPort := dstPort
                 protocol := protocol, action := action, enabled := true }] }
    else none
  | .enableRule index =>
    if s.fw.Added index then
      some { fw := s.fw.enableRule index, policy := s.policy.setEnabled (index.toNat - 1) true }
    else none
  | .disableRule index =>
    if s.fw.Added index then
      some { fw := s.fw.disableRule index, policy := s.policy.setEnabled (index.toNat - 1) false }
    else none

/-- The operator starts with an empty policy. -/
def Operated.start : Operated where
  fw := Firewall.initializeFirewall
  policy := []

/-! ### The array holds the policy -/

/-- The rule that `initialize` adds. -/
def defaultRule : FirewallRule where
  srcIp := 0
  dstIp := 0
  srcPort := 0
  dstPort := 0
  protocol := 0
  action := .deny
  enabled := true

theorem defaultRule_applies (packet : PacketInfo) : defaultRule.applies packet = true := by
  simp [FirewallRule.applies, FirewallRule.Matches, defaultRule]

/-- The array is the default rule and then the policy. -/
structure Operated.Refines (s : Operated) : Prop where
  count : s.fw.ruleCount.toNat = s.policy.length + 1
  default : s.fw.rules 0 = defaultRule
  policy : ∀ i < s.policy.length, s.policy[i]? = some (s.fw.rules (i + 1))

theorem Operated.refines_start : start.Refines :=
  ⟨rfl, rfl, fun i hi => absurd hi (Nat.not_lt_zero i)⟩

/-- The bounds of an added rule. -/
theorem Firewall.Added.bounds {fw : Firewall} {index : U32} (h : fw.Added index) :
    0 < index.toNat ∧ index.toNat < fw.ruleCount.toNat :=
  ⟨by simpa using BitVec.lt_def.mp h.1, BitVec.lt_def.mp h.2⟩

theorem Operated.Refines.setEnabled {s : Operated} (h : s.Refines) {index : U32}
    (hadded : s.fw.Added index) (enabled : Bool) :
    Operated.Refines { fw := s.fw.setEnabled index enabled
                       policy := s.policy.setEnabled (index.toNat - 1) enabled } := by
  obtain ⟨hpos, hlt⟩ := hadded.bounds
  have hcount := h.count
  have hfw : s.fw.setEnabled index enabled = { s.fw with
      rules := Function.update s.fw.rules index.toNat
        { s.fw.rules index.toNat with enabled := enabled } } := if_pos hadded.2
  rw [hfw]
  refine ⟨?_, ?_, fun i hi => ?_⟩
  · dsimp only
    rw [Policy.setEnabled, List.length_modify, hcount]
  · dsimp only
    rw [Function.update_of_ne (by omega), h.default]
  · rw [Policy.setEnabled, List.length_modify] at hi
    dsimp only
    rw [Policy.setEnabled, List.getElem?_modify, h.policy i hi]
    by_cases hindex : index.toNat = i + 1
    · rw [hindex, Nat.add_sub_cancel, Function.update_self]
      simp
    · rw [Function.update_of_ne (by omega)]
      simp [show index.toNat - 1 ≠ i by omega]

theorem Operated.refines_step {s s' : Operated} {op : Operation} (h : s.Refines)
    (hstep : s.step op = some s') : s'.Refines := by
  have hcount := h.count
  cases op with
  | addRule srcIp dstIp srcPort dstPort protocol action =>
    rw [step, Firewall.addRule] at hstep
    by_cases hfull : s.fw.ruleCount ≥ maxFirewallRules
    · rw [if_pos hfull] at hstep
      exact absurd hstep (by simp)
    rw [if_neg hfull] at hstep
    have hlt : s.fw.ruleCount.toNat < 32 := BitVec.lt_def.mp (BitVec.not_le.mp hfull)
    obtain rfl := Option.some_inj.mp hstep
    refine ⟨?_, ?_, fun i hi => ?_⟩
    · dsimp only
      rw [BitVec.toNat_add, List.length_append, List.length_singleton,
        Nat.mod_eq_of_lt (by rw [show (1 : U32).toNat = 1 from rfl]; omega), hcount]
      rfl
    · dsimp only
      rw [Function.update_of_ne (by omega), h.default]
    · rw [List.length_append, List.length_singleton] at hi
      dsimp only
      by_cases hnew : i = s.policy.length
      · rw [hnew, List.getElem?_concat_length, hcount, Function.update_self]
      · rw [List.getElem?_append_left (by omega), h.policy i (by omega),
          Function.update_of_ne (by omega)]
  | enableRule index =>
    rw [step] at hstep
    by_cases hadded : s.fw.Added index
    · rw [if_pos hadded] at hstep
      exact Option.some_inj.mp hstep ▸ h.setEnabled hadded true
    · rw [if_neg hadded] at hstep
      exact absurd hstep (by simp)
  | disableRule index =>
    rw [step] at hstep
    by_cases hadded : s.fw.Added index
    · rw [if_pos hadded] at hstep
      exact Option.some_inj.mp hstep ▸ h.setEnabled hadded false
    · rw [if_neg hadded] at hstep
      exact absurd hstep (by simp)

theorem Operated.refines_of_run {s : Operated} {ops : List Operation}
    (hrun : run Operated.step Operated.start ops = some s) : s.Refines :=
  run_keeps (fun _ _ _ h hstep => Operated.refines_step h hstep) Operated.refines_start hrun

/-! ### Decisions -/

/-- The default rule comes first. -/
theorem Operated.Refines.decidingRule {s : Operated} (h : s.Refines) (packet : PacketInfo) :
    s.fw.decidingRule packet = some 0 := by
  rw [Firewall.decidingRule, h.count, List.range_succ_eq_map]
  refine List.find?_cons_of_pos ?_
  rw [h.default]
  exact defaultRule_applies packet

/-- Every packet is blocked. -/
theorem Operated.Refines.checkPacket {s : Operated} (h : s.Refines) (packet : PacketInfo) :
    s.fw.checkPacket packet = false := by
  rw [Firewall.checkPacket, h.decidingRule]
  dsimp only
  rw [h.default]
  rfl

/-- The rules behind the default rule are those of the policy. -/
theorem Operated.Refines.find?_rules {s : Operated} (h : s.Refines) (packet : PacketInfo) :
    ((List.range s.policy.length).find? fun i => (s.fw.rules (i + 1)).applies packet).map
      (fun i => s.fw.rules (i + 1)) = s.policy.first packet := by
  have hpolicy : s.policy = (List.range s.policy.length).map fun i => s.fw.rules (i + 1) := by
    apply List.ext_getElem?
    intro i
    rw [List.getElem?_map]
    by_cases hi : i < s.policy.length
    · rw [List.getElem?_range hi, h.policy i hi]
      rfl
    · rw [List.getElem?_eq_none (by omega), List.getElem?_eq_none (by simp; omega)]
      rfl
  rw [Policy.first]
  conv => rhs; rw [hpolicy]
  rw [List.find?_map]
  rfl

/-- **Without the default rule** `check_packet` decides as the policy does. -/
theorem checkPacket_disableRule_zero {s : Operated} {ops : List Operation}
    (hrun : run Operated.step Operated.start ops = some s) (packet : PacketInfo) :
    (s.fw.disableRule 0).checkPacket packet = true ↔
      ∃ rule, s.policy.first packet = some rule ∧ rule.action = .allow := by
  have h := Operated.refines_of_run hrun
  have hcount := h.count
  have hpos : (0 : U32) < s.fw.ruleCount := BitVec.lt_def.mpr (by simp; omega)
  have hfw : s.fw.disableRule 0 = { s.fw with
      rules := Function.update s.fw.rules 0 { s.fw.rules 0 with enabled := false } } :=
    if_pos hpos
  have hother : ∀ i, Function.update s.fw.rules 0 { s.fw.rules 0 with enabled := false } (i + 1) =
      s.fw.rules (i + 1) := fun i => Function.update_of_ne (Nat.succ_ne_zero i) ..
  rw [hfw, ← h.find?_rules packet, Firewall.checkPacket, Firewall.decidingRule]
  dsimp only
  rw [hcount, List.range_succ_eq_map, List.find?_cons_of_neg (by
    rw [Function.update_self]
    simp [FirewallRule.applies]), List.find?_map]
  have hsame : (fun i => (Function.update s.fw.rules 0
      { s.fw.rules 0 with enabled := false } i).applies packet) ∘ Nat.succ =
      fun i => (s.fw.rules (i + 1)).applies packet := by
    funext i
    rw [Function.comp_apply, hother]
  rw [hsame]
  cases (List.range s.policy.length).find? fun i => (s.fw.rules (i + 1)).applies packet with
  | none => simp
  | some i => simp

/-- The default policy blocks the packet, through its rule or for want of one. -/
def Firewall.DefaultApplies (fw : Firewall) (packet : PacketInfo) : Prop :=
  fw.decidingRule packet = some 0 ∨ fw.decidingRule packet = none

/-- The firewall decides as the operator's policy does, and by default only what the policy
leaves open. -/
structure Decides (s : Operated) (packet : PacketInfo) : Prop where
  allow : s.fw.checkPacket packet = true ↔
    ∃ rule, s.policy.first packet = some rule ∧ rule.action = .allow
  default : s.fw.DefaultApplies packet → s.policy.first packet = none

/-- **When the firewall decides as the policy does**: when no enabled rule of the policy
matches. -/
theorem decides_iff_of_run {s : Operated} {ops : List Operation}
    (hrun : run Operated.step Operated.start ops = some s) (packet : PacketInfo) :
    Decides s packet ↔ s.policy.first packet = none := by
  have h := Operated.refines_of_run hrun
  refine ⟨fun hd => hd.default (.inl (h.decidingRule packet)), fun hnone => ⟨?_, fun _ => hnone⟩⟩
  rw [h.checkPacket, hnone]
  simp

/-- HTTPS from anywhere is to be allowed. -/
def allowHttps : List Operation := [.addRule 0 0 0 443 6 .allow]

/-- A segment to this port. -/
def segmentTo (dstPort : U16) : PacketInfo where
  srcIp := 0x0A000002
  dstIp := 0x0A000001
  srcPort := 40000
  dstPort := dstPort
  protocol := 6

theorem decides_iff_of_run_allowHttps :
    ∃ s, run Operated.step Operated.start allowHttps = some s ∧ Decides s (segmentTo 80) := by
  obtain ⟨s, hs⟩ : ∃ s, run Operated.step Operated.start allowHttps = some s :=
    Option.isSome_iff_exists.mp (by decide)
  have hnone : (run Operated.step Operated.start allowHttps).map
      (fun s => s.policy.first (segmentTo 80)) = some none := by decide
  rw [hs, Option.map_some, Option.some_inj] at hnone
  exact ⟨s, hs, (decides_iff_of_run hs (segmentTo 80)).mpr hnone⟩

/-- **What is to be allowed is blocked.** -/
theorem https_blocked :
    ∃ s, run Operated.step Operated.start allowHttps = some s ∧
      (∃ rule, s.policy.first (segmentTo 443) = some rule ∧ rule.action = .allow) ∧
      s.fw.checkPacket (segmentTo 443) = false ∧ ¬ Decides s (segmentTo 443) := by
  obtain ⟨s, hs⟩ : ∃ s, run Operated.step Operated.start allowHttps = some s :=
    Option.isSome_iff_exists.mp (by decide)
  have hvalues : (run Operated.step Operated.start allowHttps).map (fun s =>
      ((s.policy.first (segmentTo 443)).map FirewallRule.action,
        s.fw.checkPacket (segmentTo 443))) = some (some .allow, false) := by decide
  rw [hs, Option.map_some, Option.some_inj, Prod.mk.injEq] at hvalues
  obtain ⟨hfirst, hcheck⟩ := hvalues
  obtain ⟨rule, hrule, haction⟩ := Option.map_eq_some_iff.mp hfirst
  refine ⟨s, hs, ⟨rule, hrule, haction⟩, hcheck, fun hd => ?_⟩
  exact Bool.false_ne_true (hcheck.symm.trans (hd.allow.mpr ⟨rule, hrule, haction⟩))

end MesaOS.Net
