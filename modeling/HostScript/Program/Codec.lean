import HostScript.Program.Basic

/-!
# HostScript.Program.Codec

Programs as bytes.  Fields stand one after the other without names or padding.  Unsigned integers
and lengths are written seven bits at a time, the low ones first; a string is its length and its
UTF-8 bytes; a list is its length and its items; a map is a list of pairs in the order of the
names; a choice is the number of the alternative and its fields.

Decoders take a value off the front of the bytes, strictly from left to right, and stop at the
first fault.  Bytes behind a program are ignored.
-/

namespace HostScript

/-- Why bytes are no program. -/
inductive DecodeError where
  | endOfData
  | badVarint
  | badUtf8
  | badChoice
deriving DecidableEq, Repr, Inhabited

def DecodeError.message : DecodeError → String
  | endOfData => "Hit the end of buffer, expected more data"
  | badVarint => "Found a varint that didn't terminate. Is the usize too big for this platform?"
  | badUtf8 => "Tried to parse invalid utf-8"
  | badChoice => "Serde Deserialization Error"

/-- Why a program cannot be loaded. -/
inductive LoadError where
  | decode (error : DecodeError)
  | versionMismatch (found : Version)
deriving DecidableEq, Repr, Inhabited

def LoadError.message : LoadError → String
  | decode error => "Could not decode program: " ++ error.message
  | versionMismatch found =>
    "Program was compiled by version " ++ found.text ++ ", but this is version " ++
      Version.current.text

namespace Codec

abbrev Bytes := List UInt8

/-- Takes a value off the front of the bytes. -/
abbrev Decode := StateT Bytes (Except DecodeError)

/-! ## integers -/

def encodeNat (n : Nat) : Bytes :=
  if n < 128 then [UInt8.ofNat n] else UInt8.ofNat (n % 128 + 128) :: encodeNat (n / 128)
termination_by n

/-- An integer of at most `limit` bytes, where a byte at the limit is at most `last`. -/
def decodeNat (last : Nat) : Nat → Decode Nat
  | 0, _ => .error .badVarint
  | _ + 1, [] => .error .endOfData
  | limit + 1, byte :: rest =>
    if byte < 128 then
      if limit = 0 ∧ last < byte.toNat then .error .badVarint else .ok (byte.toNat, rest)
    else
      match decodeNat last limit rest with
      | .ok (high, rest) => .ok (byte.toNat % 128 + 128 * high, rest)
      | .error error => .error error

/-- Sixteen bits. -/
def decodeShort : Decode UInt16 := UInt16.ofNat <$> decodeNat 3 3

/-- The number of an alternative: thirty-two bits. -/
def decodeChoice : Decode Nat := decodeNat 15 5

/-- An address, a count or a length: sixty-four bits. -/
def decodeSize : Decode Nat := decodeNat 1 10

/-- Eight bytes, the low ones first. -/
def encodeWord (w : UInt64) : Bytes :=
  (List.range 8).map fun i => UInt8.ofNat (w.toNat / Nat.pow 256 i)

/-- Exactly `count` bytes. -/
def decodeBytes (count : Nat) : Decode Bytes := fun bytes =>
  if count ≤ bytes.length then .ok (bytes.take count, bytes.drop count) else .error .endOfData

/-- The value of bytes, the low ones first. -/
def littleEndian (bytes : Bytes) : Nat := bytes.foldr (fun byte value => byte.toNat + 256 * value) 0

def decodeWord : Decode UInt64 := return UInt64.ofNat (littleEndian (← decodeBytes 8))

/-! ## strings, lists and maps -/

def encodeString (s : String) : Bytes :=
  encodeNat s.utf8ByteSize ++ s.toUTF8.data.toList

def decodeString : Decode String := do
  let bytes ← decodeBytes (← decodeSize)
  match String.fromUTF8? bytes.toByteArray with
  | some s => return s
  | none => throw .badUtf8

def encodeList {α : Type} (encode : α → Bytes) (items : List α) : Bytes :=
  encodeNat items.length ++ items.flatMap encode

def decodeItems {α : Type} (decode : Decode α) : Nat → Decode (List α)
  | 0 => return []
  | count + 1 => do
    let item ← decode
    return item :: (← decodeItems decode count)

def decodeList {α : Type} (decode : Decode α) : Decode (List α) := do
  decodeItems decode (← decodeSize)

def encodeMap {α : Type} (encode : α → Bytes) (m : NameMap α) : Bytes :=
  encodeList (fun entry => encodeString entry.1 ++ encode entry.2) m.entries

/-- Of two entries under one name the later one counts. -/
def decodeMap {α : Type} (decode : Decode α) : Decode (NameMap α) := do
  return .ofList (← decodeList do
    let name ← decodeString
    return (name, ← decode))

/-! ## instructions -/

def encodeBinaryOperator (op : BinaryOperator) : Bytes := encodeNat (BinaryOperator.all.idxOf op)

def decodeBinaryOperator : Decode BinaryOperator := do
  match BinaryOperator.all[← decodeChoice]? with
  | some op => return op
  | none => throw .badChoice

def encodeUnaryOperator (op : UnaryOperator) : Bytes := encodeNat (UnaryOperator.all.idxOf op)

def decodeUnaryOperator : Decode UnaryOperator := do
  match UnaryOperator.all[← decodeChoice]? with
  | some op => return op
  | none => throw .badChoice

def encodeTarget : JumpTarget → Bytes
  | .unresolved => encodeNat 0
  | .breakPoint => encodeNat 1
  | .continuePoint => encodeNat 2
  | .address address => encodeNat 3 ++ encodeNat address

def decodeTarget : Decode JumpTarget := do
  match ← decodeChoice with
  | 0 => return .unresolved
  | 1 => return .breakPoint
  | 2 => return .continuePoint
  | 3 => return .address (← decodeSize)
  | _ => throw .badChoice

def encodeInstruction : Instruction → Bytes
  | .pushNull => encodeNat 0
  | .pushNumber value => encodeNat 1 ++ encodeWord value.bits
  | .pushString value => encodeNat 2 ++ encodeString value
  | .pushIdentifier name => encodeNat 3 ++ encodeString name
  | .pushField name => encodeNat 4 ++ encodeString name
  | .pushArgument index => encodeNat 5 ++ encodeNat index
  | .setIdentifier name => encodeNat 6 ++ encodeString name
  | .setField name => encodeNat 7 ++ encodeString name
  | .call name argc => encodeNat 8 ++ encodeString name ++ encodeNat argc
  | .callInstance name argc => encodeNat 9 ++ encodeString name ++ encodeNat argc
  | .callStatic template name argc =>
    encodeNat 10 ++ encodeString template ++ encodeString name ++ encodeNat argc
  | .duplicate => encodeNat 11
  | .discard => encodeNat 12
  | .unaryOp op => encodeNat 13 ++ encodeUnaryOperator op
  | .binaryOp op => encodeNat 14 ++ encodeBinaryOperator op
  | .binaryAnd target => encodeNat 15 ++ encodeTarget target
  | .binaryOr target => encodeNat 16 ++ encodeTarget target
  | .jump target => encodeNat 17 ++ encodeTarget target
  | .jumpIf target => encodeNat 18 ++ encodeTarget target
  | .jumpUnless target => encodeNat 19 ++ encodeTarget target
  | .jumpPush target => encodeNat 20 ++ encodeTarget target
  | .jumpPop => encodeNat 21
  | .switchJump target => encodeNat 22 ++ encodeTarget target
  | .ret => encodeNat 23

def decodeInstruction : Decode Instruction := do
  match ← decodeChoice with
  | 0 => return .pushNull
  | 1 => return .pushNumber ⟨← decodeWord⟩
  | 2 => return .pushString (← decodeString)
  | 3 => return .pushIdentifier (← decodeString)
  | 4 => return .pushField (← decodeString)
  | 5 => return .pushArgument (← decodeSize)
  | 6 => return .setIdentifier (← decodeString)
  | 7 => return .setField (← decodeString)
  | 8 => return .call (← decodeString) (← decodeSize)
  | 9 => return .callInstance (← decodeString) (← decodeSize)
  | 10 => return .callStatic (← decodeString) (← decodeString) (← decodeSize)
  | 11 => return .duplicate
  | 12 => return .discard
  | 13 => return .unaryOp (← decodeUnaryOperator)
  | 14 => return .binaryOp (← decodeBinaryOperator)
  | 15 => return .binaryAnd (← decodeTarget)
  | 16 => return .binaryOr (← decodeTarget)
  | 17 => return .jump (← decodeTarget)
  | 18 => return .jumpIf (← decodeTarget)
  | 19 => return .jumpUnless (← decodeTarget)
  | 20 => return .jumpPush (← decodeTarget)
  | 21 => return .jumpPop
  | 22 => return .switchJump (← decodeTarget)
  | 23 => return .ret
  | _ => throw .badChoice

/-! ## the parts of a program -/

def encodeVersion (v : Version) : Bytes :=
  encodeNat v.major.toNat ++ encodeNat v.minor.toNat ++ encodeNat v.patch.toNat

def decodeVersion : Decode Version := return ⟨← decodeShort, ← decodeShort, ← decodeShort⟩

def encodeLocation (l : CodeLocation) : Bytes :=
  encodeNat l.source ++ encodeNat l.line ++ encodeNat l.column

def decodeLocation : Decode CodeLocation := return ⟨← decodeSize, ← decodeSize, ← decodeSize⟩

def encodeFunction (f : ScriptFunction) : Bytes :=
  encodeString f.name ++ encodeList encodeString f.parameters ++ encodeNat f.start ++
    encodeNat f.stop

def decodeFunction : Decode ScriptFunction :=
  return ⟨← decodeString, ← decodeList decodeString, ← decodeSize, ← decodeSize⟩

def encodeProgram (p : Program) : Bytes :=
  encodeVersion p.version ++ encodeList encodeInstruction p.instructions ++
    encodeList encodeLocation p.locations ++ encodeList encodeString p.sources.names ++
    encodeMap (encodeList encodeFunction) p.functions ++ encodeMap encodeNat p.labels

def decodeProgram : Decode Program := do
  let version ← decodeVersion
  let instructions ← decodeList decodeInstruction
  let locations ← decodeList decodeLocation
  let names ← decodeList decodeString
  let functions ← decodeMap (decodeList decodeFunction)
  let labels ← decodeMap decodeSize
  return ⟨version, instructions, locations, ⟨names⟩, functions, labels⟩

end Codec

namespace Program

def toBytes (p : Program) : List UInt8 := Codec.encodeProgram p

/-- Loads a program.  Its release is looked at once all of it is read. -/
def ofBytes (bytes : List UInt8) : Except LoadError Program :=
  match Codec.decodeProgram bytes with
  | .error error => .error (.decode error)
  | .ok (p, _) => if p.version = .current then .ok p else .error (.versionMismatch p.version)

end Program

end HostScript
