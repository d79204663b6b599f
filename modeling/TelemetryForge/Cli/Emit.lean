import TelemetryForge.Crypto.Redact
import TelemetryForge.Query.Eval
import TelemetryForge.Report.Export
import TelemetryForge.Report.Normalise

/-!
# Decoding for output

Model of `dtl_cli_emit` with the printing and the redaction it goes through: the loop behind
`dtl decode` and `dtl query`.  What is done with a parsed record is the parameter `act` of the two
loops; `cliEmit` prints it, redacted, if it passes the filter.  Allocations succeed; the texts written
to `err` are left out, and the code handed to `dtl_cli_fail` stands for them.

`decodedRecords` are the records of a section before redaction.

Principal results: `emitSections_spec` — when a run returns 0, and that it has then acted on every
decoded record, in order and numbered through; `cliEmit_noninterference` — what it writes does not depend on secrets.
-/

set_option autoImplicit false

namespace Dtl

open CText

/-! ## Printing -/

/-- `dtl_render_u32`: the digits, as far as a buffer of `cap` bytes holds them. -/
def renderU32 (cap : Nat) (v : UInt32) : Bytes := (decimal v.toNat).take (cap - 1)

/-- `%.*s` with the precision and the buffer it points to. -/
def printStr (n : Nat) (buf : Bytes) : Bytes := (cstr (buf.take n)).val

/-- The fields `dtl_cli_print_record` writes after index and type; `%g` is `%.6g`. -/
def cliPrintFields (ft : FloatText) : Record → Bytes
  | .heartbeat r => ascii " uptime_s=" ++ (decimal r.uptimeS.toNat ++ (ascii " seq=" ++
      decimal r.seq.toNat))
  | .geo r => ascii " lat_e7=" ++ (decimalInt r.latE7.toInt ++ (ascii " lon_e7=" ++
      (decimalInt r.lonE7.toInt ++ (ascii " alt_mm=" ++ decimalInt r.altMm.toInt))))
  | .battery r => ascii " pct=" ++ (decimal r.pct.toNat ++ (ascii " temp_c_e1=" ++
      (decimalInt r.tempCE1.toInt ++ (ascii " cycles=" ++ decimal r.cycles.toNat))))
  | .net r => ascii " iface_id=" ++ (decimal r.ifaceId.toNat ++ (ascii "/" ++
      ((if 128 ≤ r.ifaceId then ascii "ext" else ascii "int") ++ (ascii " rx_bytes=" ++
        (renderU32 16 r.rxBytes ++ (ascii " tx_bytes=" ++ (decimal r.txBytes.toNat ++
          (ascii " rx_pkts=" ++ (decimal r.rxPkts.toNat ++ (ascii " tx_pkts=" ++
            decimal r.txPkts.toNat))))))))))
  | .firmware r => ascii " major=" ++ (decimal r.major.toNat ++ (ascii " minor=" ++
      (decimal r.minor.toNat ++ (ascii " patch=" ++ (decimal r.patch.toNat ++ (ascii " hash=" ++
        hexText r.hash.val))))))
  | .sensor r => ascii " sensor_id=" ++ (decimal r.sensorId.toNat ++ (ascii " count=" ++
      (decimal r.count.toNat ++ (ascii " samples=" ++
        commaJoin ((r.samples.take r.count.toNat).map ft.g6)))))
  | .event r => ascii " code=" ++ (decimal r.code.toNat ++ (ascii " payload_len=" ++
      (decimal r.payloadLen.toNat ++ (ascii " payload=" ++
        hexText (r.payload.take r.payloadLen.toNat)))))
  | .log r => ascii " severity=" ++ (decimal r.severity.toNat ++ (ascii " msg_len=" ++
      (decimal r.msgLen.toNat ++ (ascii " msg=\"" ++ (printStr r.msgLen.toNat r.msg ++ ascii "\"")))))
  | .config r => ascii " pair_count=" ++ (decimal r.pairCount.toNat ++
      (r.pairs.take r.pairCount.toNat).flatMap fun p =>
        ascii " " ++ (p.key.val ++ (ascii "=" ++ p.value.val)))
  | .keyref r => ascii " slot_id=" ++ (decimal r.slotId.toNat ++ (ascii " label_len=" ++
      (decimal r.labelLen.toNat ++ (ascii " label=\"" ++ (printStr r.labelLen.toNat r.label ++
        (ascii "\" redacted=" ++ decimal r.redacted.toNat))))))
  | .diag r => ascii " subsystem=0x" ++ (hexPad 4 r.subsystem.toNat ++ (ascii " blob_len=" ++
      (decimal r.blobLen.toNat ++ (ascii " blob=" ++ (hexText (r.blob.take r.blobLen.toNat) ++
        (ascii " redacted=" ++ decimal r.redacted.toNat))))))
  | .other _ _ => []

/-- `dtl_cli_print_record`; `dtl_cli_type_name` is the table of `dtl_walk_tag_name`. -/
def cliPrintRecord (ft : FloatText) (index : Nat) (rec : Record) : Bytes :=
  decimal index ++ (ascii " " ++ (ascii (walkTagName rec.tag) ++ (cliPrintFields ft rec ++
    ascii "\n")))

/-! ## The loops -/

/-- The decoded stream of a section, or the code it fails with. -/
def emitDecode (env : CodecEnv) (sec : Section) : Res Bytes :=
  match codecGet sec.codecId with
  | none => .error .badRecord
  | some codec => do
    let raw ← codec.decode env sec.blob sec.rawLen.toNat
    failIf (raw.length ≠ sec.rawLen.toNat) .badRecord
    return raw

/-- The record loop of a section: the code it fails with, the next index and the state. -/
def emitStream {σ : Type} (act : Nat → Record → σ → σ) (stream : Bytes) (index : Nat) (s : σ) :
    Option Err × Nat × σ :=
  if stream.length = 0 then (none, index, s)
  else
    match _h : tlvNext stream with
    | .error rc => (some rc, index, s)
    | .ok (tlv, stream') =>
      match recordParse tlv with
      | .error rc => (some rc, index, s)
      | .ok rec => emitStream act stream' (index + 1) (act index rec s)
termination_by stream.length
decreasing_by exact tlvNext_consumes _ _ _ _h

/-- The section loop. -/
def emitSections {σ : Type} (env : Nat → CodecEnv) (act : Nat → Record → σ → σ) :
    Nat → Nat → List Section → σ → Option Err × σ
  | _, _, [], s => (none, s)
  | si, index, sec :: secs, s =>
    match emitDecode (env si) sec with
    | .error rc => (some rc, s)
    | .ok raw =>
      match emitStream act raw index s with
      | (some rc, _, s) => (some rc, s)
      | (none, index, s) => emitSections env act (si + 1) index secs s

/-- A slot set up with a key. -/
def keystoreProvision (ks : Keystore) (slot : Nat) (h : slot < KEYSTORE_SLOTS) (key : Key) :
    Keystore :=
  { ks with slots := ks.slots.set slot ⟨key, UInt8.ofNat KEYSTORE_KEYLEN, 1⟩ }

/-- The keystore `dtl_cli_emit` sets up for each section: slots 1 and 2 in use. -/
def cliKeystore (seed : Bytes) : Keystore :=
  let ks := keystoreInit seed
  let slot1 := kdfDerive ks.deviceKey.val
  let slot2 := kdfDerive slot1.val
  keystoreProvision (keystoreProvision ks 1 (by decide) slot1) 2 (by decide) slot2

/-- What `dtl_cli_emit` does with a record. -/
def cliEmitRecord (ft : FloatText) (ks : Keystore) (filter : Option Ast) (index : Nat) (rec : Record)
    (out : Bytes) : Bytes :=
  let redacted := redactRecordKs ks rec
  if filter.all (queryMatch · redacted) then out ++ cliPrintRecord ft index redacted else out

/-- `dtl_cli_emit`: the code handed to `dtl_cli_fail` (`none` when it returns 0) and the text written
to `out`. -/
def cliEmit (ft : FloatText) (seed : Bytes) (env : Nat → CodecEnv) (cont : Container)
    (filter : Option Ast) : Option Err × Bytes :=
  emitSections env (cliEmitRecord ft (cliKeystore seed) filter) 0 0 cont.sections []

/-! ## Runs that return 0 -/

/-- The records of a section's stream, before redaction. -/
def decodedRecords (env : CodecEnv) (sec : Section) : List Record :=
  match emitDecode env sec with
  | .error _ => []
  | .ok raw => parsedRecords (tlvItems raw).1

/-- Act on records numbered from `index` on. -/
def actOn {σ : Type} (act : Nat → Record → σ → σ) : Nat → List Record → σ → σ
  | _, [], s => s
  | index, rec :: recs, s => actOn act (index + 1) recs (act index rec s)

/-- The stream consists of whole items, and all of them parse. -/
def AllParse (stream : Bytes) : Prop :=
  (tlvItems stream).2 = [] ∧ ∀ t ∈ (tlvItems stream).1, ∃ rec, recordParse t = .ok rec

/-- Every section decodes to a stream that parses; the first section has number `si`. -/
def AllDecode (env : Nat → CodecEnv) (si : Nat) (secs : List Section) : Prop :=
  ∀ i sec, secs[i]? = some sec → ∃ raw, emitDecode (env (si + i)) sec = .ok raw ∧ AllParse raw

theorem allDecode_cons {env : Nat → CodecEnv} {si : Nat} {sec : Section} {secs : List Section} :
    AllDecode env si (sec :: secs) ↔
      (∃ raw, emitDecode (env si) sec = .ok raw ∧ AllParse raw) ∧ AllDecode env (si + 1) secs :=
  forall_getElem?_cons (P := fun j sec => ∃ raw, emitDecode (env j) sec = .ok raw ∧ AllParse raw)

section Loops

variable {σ : Type} (act : Nat → Record → σ → σ)

theorem actOn_append : ∀ (xs ys : List Record) (index : Nat) (s : σ),
    actOn act index (xs ++ ys) s = actOn act (index + xs.length) ys (actOn act index xs s)
  | [], _, _, _ => rfl
  | x :: xs, ys, index, s => by
    have ih := actOn_append xs ys (index + 1) (act index x s)
    rw [List.length_cons, ← Nat.add_assoc, Nat.add_right_comm]
    exact ih

theorem emitStream_nil (index : Nat) (s : σ) : emitStream act [] index s = (none, index, s) := by
  rw [emitStream]
  rfl

theorem emitStream_error {stream : Bytes} {rc : Err} (hne : stream ≠ [])
    (h : tlvNext stream = .error rc) (index : Nat) (s : σ) :
    emitStream act stream index s = (some rc, index, s) := by
  rw [emitStream, if_neg (by simpa using hne)]
  split
  · rename_i h'
    cases h.symm.trans h'
    rfl
  · rename_i h'
    cases h.symm.trans h'

theorem emitStream_item {stream stream' : Bytes} {tlv : Tlv}
    (h : tlvNext stream = .ok (tlv, stream')) (index : Nat) (s : σ) :
    emitStream act stream index s =
      match recordParse tlv with
      | .error rc => (some rc, index, s)
      | .ok rec => emitStream act stream' (index + 1) (act index rec s) := by
  have hne : stream.length ≠ 0 := by
    have := tlvNext_consumes _ _ _ h
    omega
  rw [emitStream, if_neg hne]
  split
  · rename_i h'
    cases h.symm.trans h'
  · rename_i h'
    cases h.symm.trans h'
    rfl

/-- The record loop returns exactly when the whole stream parses, and has then acted on every
record. -/
theorem emitStream_spec (stream : Bytes) (index : Nat) (s : σ) :
    ((emitStream act stream index s).1 = none ↔ AllParse stream) ∧
      ((emitStream act stream index s).1 = none →
        emitStream act stream index s =
          (none, index + (parsedRecords (tlvItems stream).1).length,
            actOn act index (parsedRecords (tlvItems stream).1) s)) := by
  induction hn : stream.length using Nat.strongRecOn generalizing stream index s with
  | ind n ih =>
    cases hnext : tlvNext stream with
    | error rc =>
      cases stream with
      | nil =>
        rw [emitStream_nil, AllParse, tlvItems_of_error hnext]
        simp [parsedRecords, actOn]
      | cons b stream =>
        rw [emitStream_error act (List.cons_ne_nil b stream) hnext, AllParse,
          tlvItems_of_error hnext]
        simp
    | ok p =>
      obtain ⟨tlv, stream'⟩ := p
      have hlt : stream'.length < n := hn ▸ tlvNext_consumes _ _ _ hnext
      rw [emitStream_item act hnext, AllParse, tlvItems_of_ok hnext]
      cases hparse : recordParse tlv with
      | error rc => simp [hparse]
      | ok rec =>
        obtain ⟨hiff, hrun⟩ := ih _ hlt stream' (index + 1) (act index rec s) rfl
        have hcons : parsedRecords (tlv :: (tlvItems stream').1) =
            rec :: parsedRecords (tlvItems stream').1 := by
          simp [parsedRecords, hparse, Except.toOption]
        rw [hcons]
        dsimp only
        refine ⟨?_, ?_⟩
        · rw [hiff, AllParse, List.forall_mem_cons]
          simp [hparse]
        · intro hok
          rw [hrun hok, List.length_cons]
          simp only [actOn]
          congr 2
          omega

/-- **The section loop returns 0 exactly when every section decodes to a stream that parses**, and has
then acted on every decoded record, in order and numbered through. -/
theorem emitSections_spec (env : Nat → CodecEnv) : ∀ (secs : List Section) (si index : Nat) (s : σ),
    ((emitSections env act si index secs s).1 = none ↔ AllDecode env si secs) ∧
      ((emitSections env act si index secs s).1 = none →
        (emitSections env act si index secs s).2 =
          actOn act index ((secs.zipIdx si).flatMap fun p => decodedRecords (env p.2) p.1) s)
  | [], _, _, _ => by simp [emitSections, actOn, AllDecode]
  | sec :: secs, si, index, s => by
    rw [allDecode_cons, emitSections]
    cases hdec : emitDecode (env si) sec with
    | error rc => simp
    | ok raw =>
      obtain ⟨hiff, hrun⟩ := emitStream_spec act raw index s
      dsimp only
      cases hstream : emitStream act raw index s with
      | mk rc p =>
        rw [hstream] at hiff hrun
        cases rc with
        | some rc =>
          have hno : ¬ AllParse raw := fun h => by cases hiff.mpr h
          simp [hno]
        | none =>
          have hrecs : decodedRecords (env si) sec = parsedRecords (tlvItems raw).1 := by
            rw [decodedRecords, hdec]
          cases hrun rfl
          dsimp only
          obtain ⟨hall, hstate⟩ := emitSections_spec env secs (si + 1)
            (index + (parsedRecords (tlvItems raw).1).length)
            (actOn act index (parsedRecords (tlvItems raw).1) s)
          refine ⟨?_, ?_⟩
          · rw [hall]
            simp [hiff.mp rfl]
          · intro hok
            rw [hstate hok, List.zipIdx_cons, List.flatMap_cons, actOn_append, hrecs]

end Loops

/-- A stream of parseable records parses. -/
theorem allParse_items {slack : Slack} {recs : List Record} (h : ∀ rec ∈ recs, rec.Parseable)
    (hfit : ∀ rec ∈ recs, (rec.item slack).Fits) :
    AllParse ((recs.map (Record.item slack)).flatMap encodeTlv) := by
  have hitems := tlvItems_encode (recs.map (Record.item slack)) (by simpa using hfit)
  rw [AllParse, hitems]
  refine ⟨rfl, ?_⟩
  intro t ht
  obtain ⟨rec, hrec, rfl⟩ := List.mem_map.mp ht
  exact ⟨rec, recordParse_payload slack rec (h rec hrec).1 (h rec hrec).2⟩

/-! ## Noninterference -/

theorem keystoreSlot_init (seed : Bytes) (slotId : UInt8) :
    keystoreSlot (keystoreInit seed) slotId = none := by
  unfold keystoreSlot keystoreInit
  split
  · rw [Vector.getElem_replicate]
    rfl
  · rfl

theorem keystoreSlot_provision (ks : Keystore) {slot : Nat} (h : slot < KEYSTORE_SLOTS) (key : Key)
    (slotId : UInt8) : (keystoreSlot (keystoreProvision ks slot h key) slotId).isSome ↔
      slot = slotId.toNat ∨ (keystoreSlot ks slotId).isSome := by
  unfold keystoreSlot keystoreProvision
  by_cases hlt : slotId.toNat < KEYSTORE_SLOTS
  · rw [dif_pos hlt, dif_pos hlt, Vector.getElem_set]
    by_cases heq : slot = slotId.toNat
    · simp [heq]
    · simp [heq]
  · have hne : slot ≠ slotId.toNat := by omega
    simp [hlt, hne]

theorem cliKeystore_live (seed : Bytes) (slotId : UInt8) :
    (keystoreSlot (cliKeystore seed) slotId).isSome ↔ slotId = 1 ∨ slotId = 2 := by
  have h1 : slotId = 1 ↔ 1 = slotId.toNat := UInt8.toNat_inj.symm.trans eq_comm
  have h2 : slotId = 2 ↔ 2 = slotId.toNat := UInt8.toNat_inj.symm.trans eq_comm
  rw [cliKeystore, keystoreSlot_provision, keystoreSlot_provision, keystoreSlot_init, h1, h2]
  simp [or_comm]

theorem fieldValue_visible (rec : Record) (s : Bytes) :
    fieldValue rec.visible s = fieldValue rec s := by
  cases rec with
  | keyref r => simp only [Record.visible, fieldValue, List.take_take, Nat.min_self]
  | _ => rfl

theorem cliPrintRecord_visible (ft : FloatText) (index : Nat) (rec : Record) :
    cliPrintRecord ft index rec.visible = cliPrintRecord ft index rec := by
  have hfields : cliPrintFields ft rec.visible = cliPrintFields ft rec := by
    cases rec with
    | keyref r => simp only [Record.visible, cliPrintFields, printStr, List.take_take, Nat.min_self]
    | diag r => simp only [Record.visible, cliPrintFields, List.take_take, Nat.min_self]
    | _ => rfl
  rw [cliPrintRecord, cliPrintRecord, hfields, Record.visible_tag]

/-- Neither the filter nor the printer sees what is behind a length field. -/
theorem cliEmitRecord_eq (ft : FloatText) (ks : Keystore) (filter : Option Ast) (index : Nat)
    (rec : Record) (out : Bytes) :
    cliEmitRecord ft ks filter index rec out =
      let shown := (redactRecordKs ks rec).visible
      if filter.all (queryMatch · shown) then out ++ cliPrintRecord ft index shown else out := by
  have hmatch : ∀ root, queryMatch root (redactRecordKs ks rec).visible =
      queryMatch root (redactRecordKs ks rec) := fun root =>
    queryMatch_congr (Record.visible_tag _) (fieldValue_visible _) root
  simp only [cliEmitRecord, hmatch, cliPrintRecord_visible]

theorem actOn_congr {σ : Type} {act : Nat → Record → σ → σ} {R : Record → Record → Prop}
    (hact : ∀ index rec rec' s, R rec rec' → act index rec s = act index rec' s)
    {recs recs' : List Record} (h : List.Forall₂ R recs recs') (index : Nat) (s : σ) :
    actOn act index recs s = actOn act index recs' s := by
  induction h generalizing index s with
  | nil => rfl
  | cons hrec _ ih => rw [actOn, actOn, hact _ _ _ _ hrec, ih]

/-- Related section by section, the records of two containers are related. -/
theorem forall₂_decodedRecords {R : Record → Record → Prop} (env env' : Nat → CodecEnv) :
    ∀ {secs secs' : List Section} (si : Nat), secs.length = secs'.length →
      (∀ i sec sec', secs[i]? = some sec → secs'[i]? = some sec' → List.Forall₂ R
        (decodedRecords (env (si + i)) sec) (decodedRecords (env' (si + i)) sec')) →
      List.Forall₂ R ((secs.zipIdx si).flatMap fun p => decodedRecords (env p.2) p.1)
        ((secs'.zipIdx si).flatMap fun p => decodedRecords (env' p.2) p.1)
  | [], [], _, _, _ => .nil
  | sec :: secs, sec' :: secs', si, hlen, h => by
    rw [List.zipIdx_cons, List.zipIdx_cons, List.flatMap_cons, List.flatMap_cons]
    apply List.rel_append
    · exact h 0 sec sec' rfl rfl
    · apply forall₂_decodedRecords env env' (si + 1) (Nat.succ.inj hlen)
      intro i x x' hx hx'
      have := h (i + 1) x x' hx hx'
      rwa [Nat.add_assoc, Nat.add_comm 1 i]

/-- **What `dtl decode` and `dtl query` write does not depend on secrets.** -/
theorem cliEmit_noninterference (ft : FloatText) (seed : Bytes) (filter : Option Ast)
    {env env' : Nat → CodecEnv} {cont cont' : Container}
    (hcount : cont.sections.length = cont'.sections.length)
    (hrecs : ∀ i sec sec', cont.sections[i]? = some sec → cont'.sections[i]? = some sec' →
      List.Forall₂ (SameButSecret fun slotId => slotId = 1 ∨ slotId = 2)
        (decodedRecords (env i) sec) (decodedRecords (env' i) sec'))
    (hok : (cliEmit ft seed env cont filter).1 = none)
    (hok' : (cliEmit ft seed env' cont' filter).1 = none) :
    (cliEmit ft seed env cont filter).2 = (cliEmit ft seed env' cont' filter).2 := by
  have hrel := forall₂_decodedRecords env env' 0 hcount fun i sec sec' hi hi' => by
    rw [Nat.zero_add]
    exact hrecs i sec sec' hi hi'
  have hact : ∀ index rec rec' out, SameButSecret (fun slotId => slotId = 1 ∨ slotId = 2) rec rec' →
      cliEmitRecord ft (cliKeystore seed) filter index rec out =
        cliEmitRecord ft (cliKeystore seed) filter index rec' out := by
    intro index rec rec' out h
    simp only [← cliKeystore_live seed] at h
    rw [cliEmitRecord_eq, cliEmitRecord_eq, redactRecordKs_visible _ h]
  unfold cliEmit at hok hok' ⊢
  rw [(emitSections_spec _ env _ 0 0 _).2 hok, (emitSections_spec _ env' _ 0 0 _).2 hok']
  exact actOn_congr hact hrel 0 []

/-- A `STORE` section that holds a stream as it is. -/
def storedSection (raw : Bytes) : Section :=
  ⟨⟨0, CODEC_STORE, UInt32.ofNat raw.length, UInt32.ofNat raw.length, 0⟩, raw⟩

/-- A key reference and a diagnostic blob, both secret. -/
def secretRecords (label blob : Bytes) : List Record :=
  [.keyref ⟨1, UInt8.ofNat label.length, label, 0⟩,
    .diag ⟨0xFF00, UInt16.ofNat blob.length, blob, 0⟩]

/-- A container of one section that holds the two. -/
def secretContainer (label blob : Bytes) : Container :=
  ⟨VERSION, 0, 1, [storedSection (((secretRecords label blob).map (Record.item zeroSlack)).flatMap
    encodeTlv)], none⟩

theorem emitDecode_stored (env : CodecEnv) {raw : Bytes} (h : raw.length < 2 ^ 32) :
    emitDecode env (storedSection raw) = .ok raw := by
  have hlen : (UInt32.ofNat raw.length).toNat = raw.length := UInt32.toNat_ofNat_of_lt' h
  show (do
    let out ← storeCopy raw (UInt32.ofNat raw.length).toNat
    failIf (out.length ≠ (UInt32.ofNat raw.length).toNat) .badRecord
    return out : Res Bytes) = .ok raw
  rw [hlen, storeCopy, failIf_neg (Nat.lt_irrefl _), Except.bind_ok_eq, Except.pure_eq_ok,
    Except.bind_ok_eq, failIf_neg (not_ne_self _)]
  rfl

section Secrets

variable {label blob : Bytes} (hlabel : label.length < 2 ^ 8) (hblob : blob.length < 2 ^ 16 - 4)

include hlabel hblob

theorem secretRecords_parseable : ∀ rec ∈ secretRecords label blob, rec.Parseable := by
  have h1 : label.length = (UInt8.ofNat label.length).toNat := (UInt8.toNat_ofNat_of_lt' hlabel).symm
  have h2 : blob.length = (UInt16.ofNat blob.length).toNat :=
    (UInt16.toNat_ofNat_of_lt' (by simp [UInt16.size]; omega)).symm
  simp only [secretRecords, List.forall_mem_cons]
  refine ⟨⟨h1, rfl⟩, ⟨h2, rfl⟩, ?_⟩
  simp

theorem secretRecords_fits : ∀ t ∈ (secretRecords label blob).map (Record.item zeroSlack), t.Fits := by
  have h1 : (UInt8.ofNat label.length).toNat = label.length := UInt8.toNat_ofNat_of_lt' hlabel
  have h2 : (UInt16.ofNat blob.length).toNat = blob.length :=
    UInt16.toNat_ofNat_of_lt' (by simp [UInt16.size]; omega)
  simp [secretRecords, Record.item, Record.payload, Tlv.Fits, h1, h2]
  omega

theorem emitDecode_secret (env : CodecEnv) : ∀ sec ∈ (secretContainer label blob).sections,
    emitDecode env sec = .ok (((secretRecords label blob).map (Record.item zeroSlack)).flatMap
      encodeTlv) := by
  have h1 : (UInt8.ofNat label.length).toNat = label.length := UInt8.toNat_ofNat_of_lt' hlabel
  have h2 : (UInt16.ofNat blob.length).toNat = blob.length :=
    UInt16.toNat_ofNat_of_lt' (by simp [UInt16.size]; omega)
  rw [secretContainer, List.forall_mem_singleton]
  apply emitDecode_stored
  simp [secretRecords, Record.item, Record.payload, h1, h2]
  omega

theorem decodedRecords_secret (env : CodecEnv) : ∀ sec ∈ (secretContainer label blob).sections,
    decodedRecords env sec = secretRecords label blob := by
  intro sec hsec
  rw [decodedRecords, emitDecode_secret hlabel hblob env sec hsec]
  dsimp only
  rw [tlvItems_encode _ (secretRecords_fits hlabel hblob),
    parsedRecords_items _ (secretRecords_parseable hlabel hblob)]

theorem cliEmit_secret (ft : FloatText) (seed : Bytes) (env : Nat → CodecEnv) (filter : Option Ast) :
    (cliEmit ft seed env (secretContainer label blob) filter).1 = none := by
  refine (emitSections_spec _ env _ 0 0 _).1.mpr ?_
  intro i sec hi
  refine ⟨_, emitDecode_secret hlabel hblob _ sec (List.mem_of_getElem? hi), ?_⟩
  apply allParse_items (secretRecords_parseable hlabel hblob)
  simpa using secretRecords_fits hlabel hblob

end Secrets

/-- Two containers with different secrets, and a query that asks for one of them. -/
theorem cliEmit_noninterference_secrets :
    secretContainer [97, 98] [1, 2, 3] ≠ secretContainer [120] [] ∧
      (cliEmit noFloats [] plainEnv (secretContainer [97, 98] [1, 2, 3])
          (some (.not (.cmp .eq (.field (ascii "label") none) (.str [97, 98]))))).2 =
        (cliEmit noFloats [] plainEnv (secretContainer [120] [])
          (some (.not (.cmp .eq (.field (ascii "label") none) (.str [97, 98]))))).2 := by
  refine ⟨by decide, ?_⟩
  apply cliEmit_noninterference
  · rfl
  · intro i sec sec' hi hi'
    rw [decodedRecords_secret (by decide) (by decide) _ sec (List.mem_of_getElem? hi),
      decodedRecords_secret (by decide) (by decide) _ sec' (List.mem_of_getElem? hi')]
    exact .cons (.keyref _ _ _ _ (.inl rfl)) (.cons (.diag _ _ _ _ (by decide)) .nil)
  · exact cliEmit_secret (by decide) (by decide) _ _ _ _
  · exact cliEmit_secret (by decide) (by decide) _ _ _ _

end Dtl
