import TelemetryForge.Crypto.Hash
import TelemetryForge.Records.Record

/-!
# Keystore and redaction

Model of `crypto/kdf`, `crypto/keystore` and `crypto/redact`.  The seed a keystore is initialised from
is a parameter, so nothing depends on the one a build bakes in.

`SameButSecret` relates two records that differ only in what redaction is there to hide, and
`Record.visible` cuts the buffers of a record to their length fields: what is behind them is never
read.

Principal result: `redactRecordKs_visible` — records that differ only in secrets are the same to any
reader once redacted.
-/

set_option autoImplicit false

namespace Dtl

/-! ## Keys -/

/-- `DTL_KEYSTORE_SLOTS`. -/
abbrev KEYSTORE_SLOTS : Nat := 8

/-- `DTL_KEYSTORE_KEYLEN`. -/
def KEYSTORE_KEYLEN : Nat := 32

/-- A 32-byte key. -/
abbrev Key := {b : Bytes // b.length = KEYSTORE_KEYLEN}

/-- `dtl_kdf_derive`. -/
def kdfDerive (seed : Bytes) : Key :=
  ⟨hashMac seed (ascii "DTL-DEVICE-KEY-v1"), hashMac_length _ _⟩

/-- `dtl_keyslot`. -/
structure Keyslot where
  data : Key
  len : UInt8
  used : UInt8

/-- `dtl_keystore`. -/
structure Keystore where
  deviceKey : Key
  slots : Vector Keyslot KEYSTORE_SLOTS

/-- A slot after `memset`. -/
def emptyKeyslot : Keyslot := ⟨⟨List.replicate KEYSTORE_KEYLEN 0, List.length_replicate⟩, 0, 0⟩

/-- `dtl_keystore_init`. -/
def keystoreInit (seed : Bytes) : Keystore :=
  ⟨kdfDerive seed, Vector.replicate KEYSTORE_SLOTS emptyKeyslot⟩

/-- `dtl_keystore_slot`; `none` for `NULL`. -/
def keystoreSlot (ks : Keystore) (slotId : UInt8) : Option Key :=
  if h : slotId.toNat < KEYSTORE_SLOTS then
    let slot := ks.slots[slotId.toNat]
    if slot.used = 0 then none else some slot.data
  else none

/-! ## Redaction -/

/-- `DTL_REDACT_SENSITIVE_SUBSYS_MIN`. -/
def REDACT_SENSITIVE_SUBSYS_MIN : UInt16 := 0xFF00

/-- `dtl_redact_subsys_sensitive`. -/
def redactSubsysSensitive (subsystem : UInt16) : Bool := REDACT_SENSITIVE_SUBSYS_MIN ≤ subsystem

/-- `memset(buf, 0, n)`. -/
def zeroFirst (n : Nat) (buf : Bytes) : Bytes := List.replicate (min n buf.length) 0 ++ buf.drop n

/-- The label zeroed in place, its length cleared and the record flagged. -/
def redactKeyref (r : Keyref) : Keyref :=
  { r with label := zeroFirst r.labelLen.toNat r.label, labelLen := 0, redacted := 1 }

/-- The blob zeroed in place, its length cleared and the record flagged. -/
def redactDiag (r : Diag) : Diag :=
  { r with blob := zeroFirst r.blobLen.toNat r.blob, blobLen := 0, redacted := 1 }

/-- `dtl_redact_record`. -/
def redactRecord : Record → Record
  | .keyref r => .keyref (redactKeyref r)
  | .diag r => if redactSubsysSensitive r.subsystem then .diag (redactDiag r) else .diag r
  | rec => rec

/-- `dtl_redact_record_ks`. -/
def redactRecordKs (ks : Keystore) : Record → Record
  | .keyref r =>
    -- a reference to an unused slot keeps its label
    if (keystoreSlot ks r.slotId).isSome then .keyref (redactKeyref r) else .keyref r
  | rec => redactRecord rec

/-! ## What redaction hides -/

/-- Two records that are the same but for secrets: the label of a `KEYREF` whose slot is in use, the
blob of a `DIAG` from a sensitive subsystem, and their lengths. -/
inductive SameButSecret (live : UInt8 → Prop) : Record → Record → Prop
  | same (rec : Record) : SameButSecret live rec rec
  | keyref {slotId redacted : UInt8} (labelLen labelLen' : UInt8) (label label' : Bytes) :
      live slotId → SameButSecret live (.keyref ⟨slotId, labelLen, label, redacted⟩)
        (.keyref ⟨slotId, labelLen', label', redacted⟩)
  | diag {subsystem : UInt16} {redacted : UInt8} (blobLen blobLen' : UInt16) (blob blob' : Bytes) :
      REDACT_SENSITIVE_SUBSYS_MIN ≤ subsystem →
        SameButSecret live (.diag ⟨subsystem, blobLen, blob, redacted⟩)
          (.diag ⟨subsystem, blobLen', blob', redacted⟩)

/-- A record with its `KEYREF` label or `DIAG` blob cut to the length field. -/
def Record.visible : Record → Record
  | .keyref r => .keyref { r with label := r.label.take r.labelLen.toNat }
  | .diag r => .diag { r with blob := r.blob.take r.blobLen.toNat }
  | rec => rec

theorem Record.visible_tag (rec : Record) : rec.visible.tag = rec.tag := by
  cases rec <;> rfl

theorem redactRecordKs_live {ks : Keystore} {r : Keyref} (h : (keystoreSlot ks r.slotId).isSome) :
    redactRecordKs ks (.keyref r) = .keyref (redactKeyref r) := if_pos h

theorem redactRecordKs_sensitive (ks : Keystore) {r : Diag}
    (h : REDACT_SENSITIVE_SUBSYS_MIN ≤ r.subsystem) :
    redactRecordKs ks (.diag r) = .diag (redactDiag r) := if_pos (decide_eq_true h)

/-- **Records that differ only in secrets are the same to any reader once redacted.** -/
theorem redactRecordKs_visible (ks : Keystore) {rec rec' : Record}
    (h : SameButSecret (fun slotId => (keystoreSlot ks slotId).isSome) rec rec') :
    (redactRecordKs ks rec).visible = (redactRecordKs ks rec').visible := by
  cases h with
  | same rec => rfl
  | keyref labelLen labelLen' label label' hlive =>
    rw [redactRecordKs_live hlive, redactRecordKs_live hlive]
    rfl
  | diag blobLen blobLen' blob blob' hsens =>
    rw [redactRecordKs_sensitive ks hsens, redactRecordKs_sensitive ks hsens]
    rfl

end Dtl
