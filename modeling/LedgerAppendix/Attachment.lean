import LedgerAppendix.Appendix.Basic
import LedgerAppendix.Appendix.Error

/-!
# Attachment objects

The JSON form of appendices. All appendices of a transaction share one object, in which each kind
has fields of its own.
-/

namespace LedgerAppendix

/-!
## Fields of an attachment object

A field is read as the type that the reader expects, or refused under its name with what is wrong
with it. Only a flag is never refused: anything but a literal `true` counts as false.
-/

namespace Json.Object

def refuse {α : Type} (field : String) (fault : FieldFault) : Except AppendixError α :=
  .error (.invalidJson field fault)

/-- A field with a text (`get_str`). -/
def string (o : Object) (field : String) : Except AppendixError String :=
  match o.get? field with
  | some (.string s) => .ok s
  | some other => refuse field (.notString other)
  | none => refuse field .missing

/-- The bytes that a text in hexadecimal spells. -/
def hexText (field : String) (text : String) : Except AppendixError (List UInt8) :=
  match Hex.decode text with
  | .ok bs => .ok bs
  | .error fault => refuse field (.hex fault)

/-- A field with bytes in hexadecimal (`get_hex`). -/
def hex (o : Object) (field : String) : Except AppendixError (List UInt8) := do
  hexText field (← o.string field)

/-- A flag (`get_flag`). -/
def flag (o : Object) (field : String) : Bool :=
  match o.get? field with
  | some (.bool true) => true
  | _ => false

/-- A field with an unsigned integer of 64 bits (`get_u64`). -/
def word64 (o : Object) (field : String) : Except AppendixError UInt64 :=
  match o.get? field with
  | some value =>
    match value.word? with
    | some n => .ok n
    | none => refuse field (.notWord value)
  | none => refuse field .missing

/-- A field with an unsigned integer of 32 bits (`get_u32`). -/
def word32 (o : Object) (field : String) : Except AppendixError UInt32 := do
  let n ← o.word64 field
  if n.toNat < UInt32.size then return n.toUInt32 else refuse field (.outOfRange n)

/-- A field with an unsigned integer of 8 bits (`get_u8`). -/
def byte (o : Object) (field : String) : Except AppendixError UInt8 := do
  let n ← o.word64 field
  if n.toNat < UInt8.size then return n.toUInt8 else refuse field (.outOfRange n)

/-- A field with an object (`get_object`). -/
def object (o : Object) (field : String) : Except AppendixError Object :=
  match o.get? field with
  | some (.object fields) => .ok fields
  | _ => refuse field .notObject

/-- The items of an array as unsigned integers. -/
def wordItems (field : String) : List Json → Except AppendixError (List UInt64)
  | [] => .ok []
  | item :: rest =>
    match item.word? with
    | some n => do
      let others ← wordItems field rest
      return n :: others
    | none => refuse field (.notWord item)

/-- A field with an array of unsigned integers (`get_u64_array`). -/
def words (o : Object) (field : String) : Except AppendixError (List UInt64) :=
  match o.get? field with
  | some (.array items) => wordItems field items
  | _ => refuse field .notArray

end Json.Object

/-!
## Version fields

The version of an appendix stands in a field named after its kind. Where the field is missing or
null the version is 0. A field of that name stays in the object when an appendix of version 0 is
put into it, because putting one in writes no version.
-/

namespace Version

open Json (Object)

/-- Put a version into an object, but for version 0 (`put_json_version`). -/
def put (version : UInt8) (name : String) (o : Object) : Object :=
  if 0 < version then o.insert (field name) (.ofWord version.toUInt64) else o

def ofField (name : String) (value : Json) : Except AppendixError UInt8 :=
  match value.word? with
  | some n =>
    if n.toNat < UInt8.size then .ok n.toUInt8
    else Object.refuse "version" (.badVersion (field name) value)
  | none => Object.refuse "version" (.badVersion (field name) value)

/-- The version that an attachment object gives the appendix with a name (`json_version`). -/
def ofFields (o : Object) (name : String) : Except AppendixError UInt8 :=
  match o.present? (field name) with
  | none => .ok 0
  | some value => ofField name value

end Version

/-!
## Appendices in attachment objects

All appendices of a transaction share one attachment object, and each kind has fields of its own in
it. The marker of a kind says whether the kind is there at all: a marker that is missing or null
means that it is not. Once it is, every other field of the kind has to be well formed, apart from
flags, which read as false unless they are literally true.

A text payload stands in its object as text, any other bytes in hexadecimal. Text that is not UTF-8
is shown with replacement characters, so this is the one place where writing an appendix may lose
something.
-/

open Json (Object)

/-! ### Messages -/

namespace Message

/-- The payload as it stands in its field. -/
def payloadText (m : Message) : String :=
  if m.isText then Utf8.lossy m.payload else Hex.encode m.payload

/-- Put a message into an object (`to_json` of `Message`). -/
def put (m : Message) (o : Object) : Object :=
  let o := Version.put m.version Kind.message.name o
  let o := o.insert Kind.message.marker (.string m.payloadText)
  o.insert "messageIsText" (.bool m.isText)

/-- Read a message off an object (`from_json` of `Message`). -/
def ofFields (o : Object) : Except AppendixError Message := do
  let version ← Version.ofFields o Kind.message.name
  let isText := o.flag "messageIsText"
  let text ← o.string Kind.message.marker
  let payload ← if isText then pure (Utf8.encode text)
    else Object.hexText Kind.message.marker text
  return { version, payload, isText }

end Message

/-! ### Sealed messages -/

namespace SealedMessage

def body (m : SealedMessage) : Object :=
  Object.ofFields
    [("data", .string (Hex.encode m.ciphertext)), ("nonce", .string (Hex.encode m.nonce)),
     ("isText", .bool m.isText)]

/-- Put a sealed message of a kind into an object (`to_json` of `EncryptedBody`). -/
def put (kind : Kind) (m : SealedMessage) (o : Object) : Object :=
  (Version.put m.version kind.name o).insert kind.marker (.object m.body)

/-- Read a sealed message of a kind off an object (`from_json` of `EncryptedBody`). -/
def ofFields (kind : Kind) (o : Object) : Except AppendixError SealedMessage := do
  let version ← Version.ofFields o kind.name
  let body ← o.object kind.marker
  let ciphertext ← body.hex "data"
  let nonce ← body.hex "nonce"
  return { version, ciphertext, nonce, isText := body.flag "isText" }

end SealedMessage

/-! ### Announcements -/

namespace Announcement

/-- Put an announcement into an object (`to_json` of `PublicKeyAnnouncement`). -/
def put (a : Announcement) (o : Object) : Object :=
  (Version.put a.version Kind.announcement.name o).insert Kind.announcement.marker
    (.string (Hex.encode a.key))

/-- Read an announcement off an object (`from_json` of `PublicKeyAnnouncement`). -/
def ofFields (o : Object) : Except AppendixError Announcement := do
  let version ← Version.ofFields o Kind.announcement.name
  let key ← o.hex Kind.announcement.marker
  return { version, key }

end Announcement

/-! ### Phasings -/

namespace Weighting

def put (weighting : Weighting) (o : Object) : Object :=
  let o := o.insert "votingModel" (.ofWord weighting.model.code.toUInt64)
  match weighting with
  | .asset id => o.insert "assetId" (.ofWord id)
  | _ => o

def ofFields (o : Object) : Except AppendixError Weighting := do
  let code ← o.byte "votingModel"
  match VotingModel.ofCode? code with
  | some .balance => return .balance
  | some .account => return .account
  | some .asset => return .asset (← o.word64 "assetId")
  | none => Object.refuse "votingModel" (.unknownModel code)

end Weighting

namespace Phasing

/-- Put a phasing into an object (`to_json` of `TwoPhased`). -/
def put (p : Phasing) (o : Object) : Object :=
  let o := Version.put p.version Kind.phasing.name o
  let o := o.insert Kind.phasing.marker (.ofWord p.maxHeight.toUInt64)
  let o := o.insert "quorum" (.ofWord p.quorum)
  let o := o.insert "voteThreshold" (.ofWord p.threshold)
  let o := p.weighting.put o
  o.insert "possibleVoters" (.array (p.voters.map .ofWord))

/-- Read a phasing off an object (`from_json` of `TwoPhased`). -/
def ofFields (o : Object) : Except AppendixError Phasing := do
  let weighting ← Weighting.ofFields o
  let version ← Version.ofFields o Kind.phasing.name
  let maxHeight ← o.word32 Kind.phasing.marker
  let quorum ← o.word64 "quorum"
  let threshold ← o.word64 "voteThreshold"
  let voters ← o.words "possibleVoters"
  return { version, maxHeight, quorum, threshold, weighting, voters }

end Phasing

/-! ### Any kind -/

namespace Appendix

/-- Put an appendix into an object (`put_json` of `Appendix`). -/
def put (a : Appendix) (o : Object) : Object :=
  match a with
  | .message m => m.put o
  | .encryptedMessage m => m.put .encryptedMessage o
  | .announcement a => a.put o
  | .encryptToSelf m => m.put .encryptToSelf o
  | .phasing p => p.put o

def toObject (a : Appendix) : Object := a.put []

def ofFields (kind : Kind) (o : Object) : Except AppendixError Appendix :=
  match kind with
  | .message => .message <$> Message.ofFields o
  | .encryptedMessage => .encryptedMessage <$> SealedMessage.ofFields .encryptedMessage o
  | .announcement => .announcement <$> Announcement.ofFields o
  | .encryptToSelf => .encryptToSelf <$> SealedMessage.ofFields .encryptToSelf o
  | .phasing => .phasing <$> Phasing.ofFields o

/-- The appendix of a kind, or `none` if the object has no such appendix (`from_json` of
`Appendix`). -/
def ofObject? (kind : Kind) (o : Object) : Except AppendixError (Option Appendix) :=
  match o.present? kind.marker with
  | none => .ok none
  | some _ => some <$> ofFields kind o

end Appendix

/-!
## Attachment objects

The appendices of a transaction merged into one object, and the appendices that an object holds.
The kinds are looked for in wire order, and the first one that cannot be read is the reason for a
refusal.
-/

namespace AppendixSet

open Json (Object)

/-- All appendices of a set in one object (`to_json` of `AppendixSet`). -/
def toObject (s : AppendixSet) : Object := s.toList.foldl (fun o a => a.put o) []

/-- The appendices of some kinds that an object holds, in the order of the kinds. -/
def ofObjectKinds (o : Object) : List Kind → Except AppendixError (List Appendix)
  | [] => .ok []
  | kind :: kinds => do
    let first ← Appendix.ofObject? kind o
    let others ← ofObjectKinds o kinds
    return first.toList ++ others

/-- Every appendix that an object holds (`from_json` of `AppendixSet`). -/
def ofObject (o : Object) : Except AppendixError AppendixSet :=
  ofList <$> ofObjectKinds o Kind.all

end AppendixSet

end LedgerAppendix
