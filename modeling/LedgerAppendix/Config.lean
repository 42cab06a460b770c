/-!
# Configuration

A node takes its limits from its environment. A setting that is missing, or that is no number of 64
bits, leaves the standard value in force. Polls are resolved early unless the setting says
otherwise.
-/

namespace LedgerAppendix

/-!
### Limits

Reading an appendix from bytes and admitting it to a block go by one set of limits, so that a
transaction taken from a peer is not refused for its size afterwards.
-/

/-- The limits on lengths and numbers of voters (`ProtocolLimits`). -/
structure Limits where
  maxMessageLength : UInt64
  maxEncryptedLength : UInt64
  maxVoters : UInt64
deriving DecidableEq, Repr

/-- The limits in force unless others are configured. -/
def Limits.standard : Limits := ⟨1000, 1000, 16⟩

/-- Bytes in the nonce of an encrypted message, unless the ciphertext is empty. -/
def nonceLength : Nat := 32

/-! ### Settings -/

/-- What a node is set up with (`AppendixConfig`). -/
structure Config where
  limits : Limits
  /-- Whether a poll that has its quorum is resolved before its last height. -/
  resolveEarly : Bool
deriving DecidableEq, Repr

namespace Config

def standard : Config := ⟨.standard, true⟩

/-- The number that some digits spell, if there are any and nothing else. -/
def digits? (cs : List Char) : Option Nat :=
  if !cs.isEmpty && cs.all Char.isDigit then
    some (cs.foldl (fun n c => n * 10 + (c.toNat - '0'.toNat)) 0)
  else none

/-- The number of 64 bits that a setting gives (the service's `env_usize`, before the default):
digits, with a plus sign in front or without. -/
def number? (text : String) : Option UInt64 := do
  let n ← match text.toList with
    | '+' :: rest => digits? rest
    | cs => digits? cs
  if n < UInt64.size then some (UInt64.ofNat n) else none

/-- Whether a setting leaves a switch on. Everything does but `0` and `false` in any mixture of
cases. -/
def isOn (text : String) : Bool := text.toLower != "false" && text != "0"

/-- The configuration that an environment gives (`from_env`). -/
def ofEnvironment (setting? : String → Option String) : Config where
  limits :=
    { maxMessageLength := number "QC_APPENDIX_MAX_MESSAGE_LENGTH" Limits.standard.maxMessageLength
      maxEncryptedLength :=
        number "QC_APPENDIX_MAX_ENCRYPTED_LENGTH" Limits.standard.maxEncryptedLength
      maxVoters := number "QC_APPENDIX_MAX_VOTERS" Limits.standard.maxVoters }
  resolveEarly := ((setting? "QC_APPENDIX_RESOLVE_EARLY").map isOn).getD true
where
  number (name : String) (standard : UInt64) : UInt64 :=
    ((setting? name).bind number?).getD standard

end Config

end LedgerAppendix
