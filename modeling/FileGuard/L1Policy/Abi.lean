/-!
# The kernel/userspace ABI

`include/fileguard/abi.h`: the codes, map keys, map values and the ring
buffer record shared by the eBPF program and the controller.
-/
namespace FileGuard

/-- `FG_MAGIC` -/
def fgMagic : UInt32 := 0x46474152

/-- `FG_MAX_COMM` -/
abbrev fgMaxComm : Nat := 16

def fgActionAllow : UInt32 := 0
def fgActionDeny : UInt32 := 1

def fgOpOpen : UInt8 := 1

def fgReasonPolicyRule : UInt8 := 1
def fgReasonDefaultDeny : UInt8 := 2
def fgReasonUnknownProcess : UInt8 := 3
def fgReasonUnknownResource : UInt8 := 4

/-- `fileguard_file_id_t`
mirrors include/fileguard/abi.h:67-71 -/
structure FileguardFileId where
  devMajor : UInt32 := 0
  devMinor : UInt32 := 0
  ino : UInt64 := 0
  deriving DecidableEq, Repr

/-- `fileguard_rule_key_t`
mirrors include/fileguard/abi.h:74-77 -/
structure FileguardRuleKey where
  res : FileguardFileId
  proc : FileguardFileId
  deriving DecidableEq, Repr

/-- `fileguard_rule_val_t`
mirrors include/fileguard/abi.h:80-85 -/
structure FileguardRuleVal where
  ruleId : UInt32 := 0
  action : UInt32 := 0
  operation : UInt32 := 0
  reserved : UInt32 := 0
  deriving DecidableEq, Repr

/-- `fileguard_protected_val_t`
mirrors include/fileguard/abi.h:88-90 -/
structure FileguardProtectedVal where
  reserved : UInt8 := 0
  deriving DecidableEq, Repr

/-- `fileguard_config_t`
mirrors include/fileguard/abi.h:93-97 -/
structure FileguardConfig where
  policyVersion : UInt32 := 0
  enabled : UInt32 := 0
  reserved : UInt32 × UInt32 := (0, 0)
  deriving DecidableEq, Repr

/-- `fileguard_event_t`
mirrors include/fileguard/abi.h:100-115 -/
structure FileguardEvent where
  magic : UInt32
  timestampNs : UInt64
  pid : UInt32
  tgid : UInt32
  uid : UInt32
  gid : UInt32
  res : FileguardFileId
  proc : FileguardFileId
  ruleId : UInt32
  operation : UInt8
  action : UInt8
  reason : UInt8
  pad : UInt8
  comm : Vector UInt8 fgMaxComm
  deriving DecidableEq, Repr

end FileGuard
