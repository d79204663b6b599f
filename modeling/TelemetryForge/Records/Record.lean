import Mathlib.Data.List.TakeWhile
import TelemetryForge.Format.Tlv

/-!
# Records

Model of `records/record.h` and the eleven record structures.  A `Record` is the tag together with
the union member it selects; a record whose tag is none of the eleven is `Record.other`.

A buffer and the field that gives its length are separate, as in the source: the writer reads
`blob_len` bytes from `blob` whatever the buffer's own size.  What it finds past the end of a buffer
is the parameter `Slack`; `readN` is the read.  `Record.WellFormed` says that every length field
is the length of its buffer, and then `Slack` plays no part (`Record.payload_slack`).

`CONFIG` keys and values are C strings: nothing looks past their terminator, so they are modelled
as byte strings without NUL.

`Record.payload` is the wire form `dtl_writer_payload` gives a record.
-/

set_option autoImplicit false

namespace Dtl

/-! ## C strings and reads past a buffer -/

/-- A C string without its terminator. -/
abbrev CStr := {b : Bytes // (0 : UInt8) ∉ b}

/-- The C string stored in a terminated buffer: everything before the first NUL. -/
def cstr (b : Bytes) : CStr :=
  ⟨b.takeWhile (· ≠ 0), fun h => by simpa using List.mem_takeWhile_imp h⟩

theorem cstr_of_not_mem {b : Bytes} (h : (0 : UInt8) ∉ b) : (cstr b).val = b := by
  unfold cstr
  rw [List.takeWhile_eq_self_iff]
  intro x hx
  have : x ≠ 0 := fun h0 => h (h0 ▸ hx)
  simpa using this

theorem cstr_length_le (b : Bytes) : (cstr b).val.length ≤ b.length :=
  (List.takeWhile_sublist _).length_le

theorem cstr_eq_iff (b : Bytes) : (cstr b).val = b ↔ (0 : UInt8) ∉ b :=
  ⟨fun h => h ▸ (cstr b).property, cstr_of_not_mem⟩

@[simp] theorem cstr_val (s : CStr) : cstr s.val = s := Subtype.ext (cstr_of_not_mem s.property)

/-- `n` elements read from the front of a buffer; past its end they are whatever memory holds. -/
def readN {α : Type} (beyond : Nat → α) (buf : List α) (n : Nat) : List α :=
  buf.take n ++ (List.range (n - buf.length)).map beyond

@[simp] theorem readN_length {α : Type} (beyond : Nat → α) (buf : List α) (n : Nat) :
    (readN beyond buf n).length = n := by
  simp only [readN, List.length_append, List.length_take, List.length_map, List.length_range]
  omega

theorem readN_of_le {α : Type} (beyond : Nat → α) {buf : List α} {n : Nat} (h : n ≤ buf.length) :
    readN beyond buf n = buf.take n := by
  rw [readN, Nat.sub_eq_zero_of_le h]; simp

theorem readN_all {α : Type} (beyond : Nat → α) {buf : List α} {n : Nat} (h : buf.length = n) :
    readN beyond buf n = buf := by
  rw [readN_of_le beyond (Nat.le_of_eq h.symm), ← h, List.take_length]

/-! ## The eleven structures -/

structure Heartbeat where
  uptimeS : UInt32
  seq : UInt32
  deriving DecidableEq

structure Geo where
  latE7 : Int32
  lonE7 : Int32
  altMm : Int32
  deriving DecidableEq

structure Battery where
  pct : UInt8
  tempCE1 : Int16
  cycles : UInt32
  deriving DecidableEq

structure Net where
  ifaceId : UInt8
  rxBytes : UInt32
  txBytes : UInt32
  rxPkts : UInt32
  txPkts : UInt32
  deriving DecidableEq

structure Firmware where
  major : UInt16
  minor : UInt16
  patch : UInt16
  hash : {b : Bytes // b.length = 8}
  deriving DecidableEq

/-- `dtl_sensor`; a sample is the 32-bit pattern of its `float`. -/
structure Sensor where
  sensorId : UInt16
  count : UInt8
  samples : List UInt32
  deriving DecidableEq

structure Event where
  code : UInt16
  payloadLen : UInt16
  payload : Bytes
  deriving DecidableEq

structure Log where
  severity : UInt8
  msgLen : UInt16
  msg : Bytes
  deriving DecidableEq

structure ConfigPair where
  key : CStr
  value : CStr
  deriving DecidableEq

structure Config where
  pairCount : UInt8
  pairs : List ConfigPair
  deriving DecidableEq

structure Keyref where
  slotId : UInt8
  labelLen : UInt8
  label : Bytes
  redacted : UInt8
  deriving DecidableEq

structure Diag where
  subsystem : UInt16
  blobLen : UInt16
  blob : Bytes
  redacted : UInt8
  deriving DecidableEq

def REC_HEARTBEAT : UInt8 := 0x10
def REC_SENSOR : UInt8 := 0x11
def REC_EVENT : UInt8 := 0x12
def REC_DIAG : UInt8 := 0x13
def REC_GEO : UInt8 := 0x14
def REC_BATTERY : UInt8 := 0x15
def REC_NET : UInt8 := 0x16
def REC_LOG : UInt8 := 0x17
def REC_CONFIG : UInt8 := 0x18
def REC_KEYREF : UInt8 := 0x19
def REC_FIRMWARE : UInt8 := 0x1A

/-- The tags with a payload schema. -/
def recTags : List UInt8 :=
  [REC_HEARTBEAT, REC_SENSOR, REC_EVENT, REC_DIAG, REC_GEO, REC_BATTERY, REC_NET, REC_LOG,
    REC_CONFIG, REC_KEYREF, REC_FIRMWARE]

/-- `dtl_record`: the tag and the union member it selects. -/
inductive Record where
  | heartbeat (r : Heartbeat)
  | sensor (r : Sensor)
  | event (r : Event)
  | diag (r : Diag)
  | geo (r : Geo)
  | battery (r : Battery)
  | net (r : Net)
  | log (r : Log)
  | config (r : Config)
  | keyref (r : Keyref)
  | firmware (r : Firmware)
  | other (tag : UInt8) (h : tag ∉ recTags)
  deriving DecidableEq

namespace Record

def tag : Record → UInt8
  | heartbeat _ => REC_HEARTBEAT
  | sensor _ => REC_SENSOR
  | event _ => REC_EVENT
  | diag _ => REC_DIAG
  | geo _ => REC_GEO
  | battery _ => REC_BATTERY
  | net _ => REC_NET
  | log _ => REC_LOG
  | config _ => REC_CONFIG
  | keyref _ => REC_KEYREF
  | firmware _ => REC_FIRMWARE
  | other tag _ => tag

/-! The union member, where the tag selects it. -/

def heartbeat? : Record → Option Heartbeat
  | heartbeat r => some r
  | _ => none

def sensor? : Record → Option Sensor
  | sensor r => some r
  | _ => none

def event? : Record → Option Event
  | event r => some r
  | _ => none

def diag? : Record → Option Diag
  | diag r => some r
  | _ => none

def geo? : Record → Option Geo
  | geo r => some r
  | _ => none

def battery? : Record → Option Battery
  | battery r => some r
  | _ => none

def net? : Record → Option Net
  | net r => some r
  | _ => none

def log? : Record → Option Log
  | log r => some r
  | _ => none

def config? : Record → Option Config
  | config r => some r
  | _ => none

/-- Every length or count field is the length of the buffer it describes, and the tag is one of the
eleven. -/
def WellFormed : Record → Prop
  | sensor r => r.samples.length = r.count.toNat
  | event r => r.payload.length = r.payloadLen.toNat
  | diag r => r.blob.length = r.blobLen.toNat
  | log r => r.msg.length = r.msgLen.toNat
  | config r => r.pairs.length = r.pairCount.toNat
  | keyref r => r.label.length = r.labelLen.toNat
  | other _ _ => False
  | _ => True

/-- The parser's own field limits, on a record fresh from the parser (nothing redacted). -/
def InLimits : Record → Prop
  | net r => r.ifaceId < 250
  | log r => r.severity ≤ 7
  | config r => ∀ p ∈ r.pairs, p.key.val.length ≤ 255 ∧ p.value.val.length ≤ 255
  | keyref r => r.redacted = 0
  | diag r => r.redacted = 0
  | _ => True

instance : DecidablePred WellFormed
  | sensor r => inferInstanceAs (Decidable (r.samples.length = r.count.toNat))
  | event r => inferInstanceAs (Decidable (r.payload.length = r.payloadLen.toNat))
  | diag r => inferInstanceAs (Decidable (r.blob.length = r.blobLen.toNat))
  | log r => inferInstanceAs (Decidable (r.msg.length = r.msgLen.toNat))
  | config r => inferInstanceAs (Decidable (r.pairs.length = r.pairCount.toNat))
  | keyref r => inferInstanceAs (Decidable (r.label.length = r.labelLen.toNat))
  | other _ _ => inferInstanceAs (Decidable False)
  | heartbeat _ | geo _ | battery _ | net _ | firmware _ => inferInstanceAs (Decidable True)

instance : DecidablePred InLimits
  | net r => inferInstanceAs (Decidable (r.ifaceId < 250))
  | log r => inferInstanceAs (Decidable (r.severity ≤ 7))
  | config r => inferInstanceAs
      (Decidable (∀ p ∈ r.pairs, p.key.val.length ≤ 255 ∧ p.value.val.length ≤ 255))
  | keyref r => inferInstanceAs (Decidable (r.redacted = 0))
  | diag r => inferInstanceAs (Decidable (r.redacted = 0))
  | heartbeat _ | geo _ | battery _ | firmware _ | sensor _ | event _ | other _ _ =>
    inferInstanceAs (Decidable True)

end Record

/-! ## Wire form -/

/-- What memory holds past the end of the buffers a record refers to. -/
structure Slack where
  bytes : Nat → UInt8
  words : Nat → UInt32
  pairs : Nat → ConfigPair

/-- A `CONFIG` string on the wire. -/
def encodeConfigStr (s : CStr) : Bytes := UInt8.ofNat s.val.length :: s.val

def encodeConfigPair (p : ConfigPair) : Bytes := encodeConfigStr p.key ++ encodeConfigStr p.value

/-- The payload of a record on the wire. -/
def Record.payload (slack : Slack) : Record → Bytes
  | heartbeat r => endianWriteU32le r.uptimeS ++ endianWriteU32le r.seq
  | geo r => endianWriteU32le r.latE7.toUInt32 ++ (endianWriteU32le r.lonE7.toUInt32 ++
      endianWriteU32le r.altMm.toUInt32)
  | battery r => r.pct :: (endianWriteU16le r.tempCE1.toUInt16 ++ endianWriteU32le r.cycles)
  | net r => r.ifaceId :: (endianWriteU32le r.rxBytes ++ (endianWriteU32le r.txBytes ++
      (endianWriteU32le r.rxPkts ++ endianWriteU32le r.txPkts)))
  | firmware r => endianWriteU16le r.major ++ (endianWriteU16le r.minor ++
      (endianWriteU16le r.patch ++ r.hash.val))
  | sensor r => endianWriteU16le r.sensorId ++ (r.count ::
      (readN slack.words r.samples r.count.toNat).flatMap endianWriteU32le)
  | event r => endianWriteU16le r.code ++ (endianWriteU16le r.payloadLen ++
      readN slack.bytes r.payload r.payloadLen.toNat)
  | log r => r.severity :: (endianWriteU16le r.msgLen ++
      readN slack.bytes r.msg r.msgLen.toNat)
  | config r => r.pairCount ::
      (readN slack.pairs r.pairs r.pairCount.toNat).flatMap encodeConfigPair
  | keyref r => r.slotId :: r.labelLen :: readN slack.bytes r.label r.labelLen.toNat
  | diag r => endianWriteU16le r.subsystem ++ (endianWriteU16le r.blobLen ++
      readN slack.bytes r.blob r.blobLen.toNat)
  | other _ _ => []

/-- The wire form of a well-formed record does not depend on the memory around its buffers. -/
theorem Record.payload_slack {rec : Record} (h : rec.WellFormed) (s s' : Slack) :
    rec.payload s = rec.payload s' := by
  cases rec with
  | sensor r => simp only [payload, readN_all _ (show r.samples.length = _ from h)]
  | event r => simp only [payload, readN_all _ (show r.payload.length = _ from h)]
  | diag r => simp only [payload, readN_all _ (show r.blob.length = _ from h)]
  | log r => simp only [payload, readN_all _ (show r.msg.length = _ from h)]
  | config r => simp only [payload, readN_all _ (show r.pairs.length = _ from h)]
  | keyref r => simp only [payload, readN_all _ (show r.label.length = _ from h)]
  | heartbeat r => rfl
  | geo r => rfl
  | battery r => rfl
  | net r => rfl
  | firmware r => rfl
  | other t ht => rfl

end Dtl
