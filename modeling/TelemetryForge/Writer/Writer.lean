import TelemetryForge.Codec.Registry
import TelemetryForge.Crypto.Hash
import TelemetryForge.Format.Container
import TelemetryForge.Records.Parse

/-!
# The writer

Model of `writer/writer`.  The growable accumulator is its contents `tlv[0 .. tlv_len)` and its
capacity; allocations go through the `Arena`, so any pattern of refusals is covered.  A function that
returns a `dtl_err` returns the pair of that code (`none` for `DTL_OK`) and the writer afterwards.

The accumulator's append functions are one definition, `writerPut`, at four widths.  What they and
the payload encoders built from them do to an error-free writer is stated once, as `Emits`:
if the step leaves no error behind, it has appended exactly the given bytes and changed nothing else
(`Writer.Appends`).

Principal results: `writerPayload_emits` — a payload encoder appends `Record.payload`;
`writerEmitTlv_ok` — a successful `dtl_writer_emit_tlv` appends one encoded item, length field
patched; `writerEmitTlv_succeeds` — with room in the address space and an obliging arena it does
succeed.
-/

set_option autoImplicit false

namespace Dtl

/-- `DTL_WRITER_MAX_SECTIONS`. -/
def WRITER_MAX_SECTIONS : Nat := 64

/-- `dtl_wsection`; `blob` is its `comp_len` compressed bytes. -/
structure WSection where
  type : UInt16
  codecId : UInt8
  rawLen : UInt32
  compLen : UInt32
  blob : Bytes
  deriving DecidableEq

/-- `dtl_writer`. -/
structure Writer where
  arena : Arena
  sections : List WSection
  inSection : Bool
  curType : UInt16
  curCodec : UInt8
  tlv : Bytes
  tlvCap : Nat
  hmacKey : Option Bytes
  err : Option Err

/-- `dtl_writer_init`. -/
def writerInit (a : Arena) : Writer := ⟨a, [], false, 0, 0, [], 0, none, none⟩

/-- `w->err = e; return w->err;`. -/
def Writer.fail (w : Writer) (e : Err) : Option Err × Writer := (some e, { w with err := some e })

/-! ## The growable accumulator -/

/-- The doubling loop of `dtl_writer_reserve`; `none` when doubling would overflow. -/
def writerGrow (want newcap : Nat) (h : 0 < newcap) : Option Nat :=
  if newcap < want then
    if newcap > SIZE_MAX / 2 then none else writerGrow want (newcap * 2) (by omega)
  else some newcap
termination_by want - newcap
decreasing_by omega

/-- `dtl_writer_reserve`. -/
def writerReserve (w : Writer) (need : Nat) : Bool × Writer :=
  if w.err ≠ none then (false, w)
  else if w.tlvCap - w.tlv.length ≥ need then (true, w)
  else if w.tlv.length + need > SIZE_MAX then (false, { w with err := some .range })
  else
    match writerGrow (w.tlv.length + need) (if w.tlvCap ≠ 0 then w.tlvCap else 64)
        (by split <;> omega) with
    | none => (false, { w with err := some .oom })
    | some newcap =>
      let (ok, arena) := arenaAlloc w.arena newcap
      if ok then (true, { w with arena := arena, tlvCap := newcap })
      else (false, { w with arena := arena, err := some .oom })

/-- Reserve room for `bs` and append it: the body of the four append functions. -/
def writerPut (bs : Bytes) (w : Writer) : Writer :=
  let (ok, w) := writerReserve w bs.length
  if ok then { w with tlv := w.tlv ++ bs } else w

/-- `dtl_writer_u8`. -/
def writerU8 (v : UInt8) : Writer → Writer := writerPut [v]

/-- `dtl_writer_u16`. -/
def writerU16 (v : UInt16) : Writer → Writer := writerPut (endianWriteU16le v)

/-- `dtl_writer_u32`. -/
def writerU32 (v : UInt32) : Writer → Writer := writerPut (endianWriteU32le v)

/-- `dtl_writer_bytes`. -/
def writerBytes (s : Bytes) : Writer → Writer := writerPut s

/-! ## Payload encoders -/

/-- The pair loop of the `CONFIG` encoder, which gives up at the first over-long string. -/
def writerPairs : List ConfigPair → Writer → Writer
  | [], w => w
  | p :: ps, w =>
    if p.key.val.length > 0xFF ∨ p.value.val.length > 0xFF then { w with err := some .range }
    else writerPairs ps
      (writerBytes p.value.val (writerU8 (UInt8.ofNat p.value.val.length)
        (writerBytes p.key.val (writerU8 (UInt8.ofNat p.key.val.length) w))))

/-- `dtl_writer_payload`. -/
def writerPayload (slack : Slack) (rec : Record) (w : Writer) : Writer :=
  match rec with
  | .heartbeat r => writerU32 r.seq (writerU32 r.uptimeS w)
  | .geo r => writerU32 r.altMm.toUInt32 (writerU32 r.lonE7.toUInt32 (writerU32 r.latE7.toUInt32 w))
  | .battery r => writerU32 r.cycles (writerU16 r.tempCE1.toUInt16 (writerU8 r.pct w))
  | .net r => writerU32 r.txPkts (writerU32 r.rxPkts (writerU32 r.txBytes (writerU32 r.rxBytes
      (writerU8 r.ifaceId w))))
  | .firmware r => writerBytes r.hash.val (writerU16 r.patch (writerU16 r.minor
      (writerU16 r.major w)))
  | .sensor r => (readN slack.words r.samples r.count.toNat).foldl (fun w bits => writerU32 bits w)
      (writerU8 r.count (writerU16 r.sensorId w))
  | .event r => writerBytes (readN slack.bytes r.payload r.payloadLen.toNat)
      (writerU16 r.payloadLen (writerU16 r.code w))
  | .log r => writerBytes (readN slack.bytes r.msg r.msgLen.toNat)
      (writerU16 r.msgLen (writerU8 r.severity w))
  | .config r => writerPairs (readN slack.pairs r.pairs r.pairCount.toNat) (writerU8 r.pairCount w)
  | .keyref r => writerBytes (readN slack.bytes r.label r.labelLen.toNat)
      (writerU8 r.labelLen (writerU8 r.slotId w))
  | .diag r => writerBytes (readN slack.bytes r.blob r.blobLen.toNat)
      (writerU16 r.blobLen (writerU16 r.subsystem w))
  | .other _ _ => { w with err := some .badRecord }

/-! ## Public functions -/

/-- `dtl_writer_begin_section`: the handle, `none` for `-1`. -/
def writerBeginSection (w : Writer) (type : UInt16) (codecId : UInt8) : Option Nat × Writer :=
  if w.err ≠ none then (none, w)
  else if w.inSection then (none, { w with err := some .inval })
  else if w.sections.length ≥ WRITER_MAX_SECTIONS then (none, { w with err := some .range })
  else (some w.sections.length,
    { w with inSection := true, curType := type, curCodec := codecId, tlv := [] })

/-- `dtl_endian_write_u16le` into the accumulator at `off`. -/
def patchU16 (tlv : Bytes) (off : Nat) (v : UInt16) : Bytes :=
  tlv.take off ++ (endianWriteU16le v ++ tlv.drop (off + 2))

/-- `dtl_writer_emit_tlv`; `fill` writes the payload. -/
def writerEmitTlv (w : Writer) (tag : UInt8) (fill : Writer → Writer) : Option Err × Writer :=
  if w.err ≠ none then (w.err, w)
  else if w.inSection = false then w.fail .inval
  else
    let w₁ := writerU8 tag w
    let lenOff := w₁.tlv.length
    let w₂ := writerU16 0 w₁
    let payloadStart := w₂.tlv.length
    let w₃ := fill w₂
    if w₃.err ≠ none then (w₃.err, w₃)
    else
      let plen := w₃.tlv.length - payloadStart
      if plen > 0xFFFF then w₃.fail .range
      else (none, { w₃ with tlv := patchU16 w₃.tlv lenOff (UInt16.ofNat plen) })

/-- `dtl_writer_add_record`. -/
def writerAddRecord (slack : Slack) (w : Writer) (rec : Record) : Option Err × Writer :=
  writerEmitTlv w rec.tag (writerPayload slack rec)

/-- A payload whose length fits the `uint16_t` argument. -/
abbrev RawPayload := {b : Bytes // b.length ≤ 0xFFFF}

/-- `dtl_writer_add_raw_tlv`. -/
def writerAddRawTlv (w : Writer) (tag : UInt8) (payload : RawPayload) : Option Err × Writer :=
  writerEmitTlv w tag (writerBytes payload.val)

/-- `dtl_writer_add_u32_batch`. -/
def writerAddU32Batch (w : Writer) (tag : UInt8) (vals : List UInt32) : Option Err × Writer :=
  if w.err ≠ none then (w.err, w)
  else if vals.length > 0xFFFF / 4 then w.fail .range
  else
    let (ok, arena) := arenaAlloc w.arena (vals.length * 4)
    let w := { w with arena := arena }
    if ok then writerEmitTlv w tag (writerBytes (vals.flatMap endianWriteU32le))
    else w.fail .oom

/-- The compress-and-retry loop of `dtl_writer_end_section`; each attempt has its own
environment. -/
def writerCompress (codec : Codec) (env : Nat → CodecEnv) (raw : Bytes) (arena : Arena) (cap : Nat) :
    Res Bytes × Arena :=
  let (ok, arena) := arenaAlloc arena cap
  if ok then
    match codec.encode (env cap) raw cap with
    | .ok out => (.ok out, arena)
    | .error rc =>
      if rc = .range ∧ cap ≤ SECTION_MAX_RAW * 2 then
        writerCompress codec env raw arena (cap * 2 + 64)
      else (.error rc, arena)
  else (.error .oom, arena)
termination_by SECTION_MAX_RAW * 2 + 1 - cap
decreasing_by omega

/-- `dtl_writer_end_section`. -/
def writerEndSection (env : Nat → CodecEnv) (w : Writer) : Option Err × Writer :=
  if w.err ≠ none then (w.err, w)
  else if w.inSection = false then w.fail .inval
  else if w.tlv.length = 0 ∨ w.tlv.length > SECTION_MAX_RAW then w.fail .range
  else
    match codecGet w.curCodec with
    | none => w.fail .badRecord
    | some codec =>
      let (res, arena) := writerCompress codec env w.tlv w.arena
        (w.tlv.length + w.tlv.length / 2 + 64)
      let w := { w with arena := arena }
      match res with
      | .error rc => w.fail rc
      | .ok out =>
        if out.length > 0xFFFFFFFF then w.fail .range
        else (none,
          { w with
            sections := w.sections ++ [⟨w.curType, w.curCodec, UInt32.ofNat w.tlv.length,
              UInt32.ofNat out.length, out⟩]
            inSection := false })

/-- `dtl_writer_set_hmac`. -/
def writerSetHmac (w : Writer) (key : Bytes) : Option Err × Writer :=
  if w.err ≠ none then (w.err, w) else (none, { w with hmacKey := some key })

/-- The table entries: offsets are cumulative compressed lengths from `acc` on. -/
def writerTable : Nat → List WSection → List TableEntry
  | _, [] => []
  | acc, s :: ss =>
    ⟨s.type, s.codecId, s.rawLen, s.compLen, UInt32.ofNat acc⟩ :: writerTable (acc + s.compLen.toNat) ss

/-- The blob region. -/
def writerRegion (sections : List WSection) : Bytes := sections.flatMap (·.blob)

/-- The header's flags byte. -/
def writerFlags (w : Writer) : UInt8 := if w.hmacKey.isSome then FLAG_HAS_HMAC else 0

/-- The bytes `dtl_writer_finish` emits, up to the trailer. -/
def writerBody (w : Writer) : Bytes :=
  encodeHeader (writerFlags w) (UInt16.ofNat w.sections.length) ++
    ((writerTable 0 w.sections).flatMap encodeEntry ++ writerRegion w.sections)

/-- `dtl_writer_finish`. -/
def writerFinish (w : Writer) : Res Bytes × Writer :=
  match w.err with
  | some e => (.error e, w)
  | none =>
    if w.inSection then (.error .inval, { w with err := some .inval })
    else
      let blobRegion := (w.sections.map (·.compLen.toNat)).sum
      if blobRegion > 0xFFFFFFFF then (.error .range, { w with err := some .range })
      else
        let total := 12 + w.sections.length * 16 + blobRegion +
          (if w.hmacKey.isSome then HMAC_LEN else 0)
        let (ok, arena) := arenaAlloc w.arena total
        let w := { w with arena := arena }
        if ok then
          match w.hmacKey with
          | none => (.ok (writerBody w), w)
          | some key => (.ok (writerBody w ++ hashMac key (writerBody w)), w)
        else (.error .oom, { w with err := some .oom })

/-! ## What the append functions do -/

/-- `w'` is the error-free writer `w` with `bs` appended to the accumulator. -/
structure Writer.Appends (w : Writer) (bs : Bytes) (w' : Writer) : Prop where
  tlv : w'.tlv = w.tlv ++ bs
  err : w'.err = none
  sections : w'.sections = w.sections
  inSection : w'.inSection = w.inSection
  curType : w'.curType = w.curType
  curCodec : w'.curCodec = w.curCodec
  hmacKey : w'.hmacKey = w.hmacKey

theorem Writer.Appends.trans {w w' w'' : Writer} {a b : Bytes} (h : w.Appends a w')
    (h' : w'.Appends b w'') : w.Appends (a ++ b) w'' :=
  ⟨by rw [h'.tlv, h.tlv, List.append_assoc], h'.err, h'.sections.trans h.sections,
    h'.inSection.trans h.inSection, h'.curType.trans h.curType, h'.curCodec.trans h.curCodec,
    h'.hmacKey.trans h.hmacKey⟩

theorem Writer.Appends.refl {w : Writer} (h : w.err = none) : w.Appends [] w :=
  ⟨by simp, h, rfl, rfl, rfl, rfl, rfl⟩

/-- A step that either leaves an error behind or has appended `bs` to an error-free writer. -/
def Emits (f : Writer → Writer) (bs : Bytes) : Prop :=
  ∀ w, (f w).err = none → w.err = none ∧ w.Appends bs (f w)

/-- A step that leaves no error behind when the accumulator stays below a quarter of the address
space and the arena refuses nothing. -/
def Succeeds (f : Writer → Writer) (n : Nat) : Prop :=
  ∀ w, w.err = none → w.arena.Roomy → w.tlv.length + n ≤ 2 ^ 62 →
    (f w).err = none ∧ (f w).arena.Roomy

/-- A step that appends `bs`, and fails only for want of memory. -/
structure Appender (f : Writer → Writer) (bs : Bytes) : Prop where
  emits : Emits f bs
  succeeds : Succeeds f bs.length

theorem Emits.comp {f g : Writer → Writer} {a b : Bytes} (hf : Emits f a) (hg : Emits g b) :
    Emits (fun w => g (f w)) (a ++ b) := by
  intro w h
  obtain ⟨h1, h2⟩ := hg (f w) h
  obtain ⟨h3, h4⟩ := hf w h1
  exact ⟨h3, h4.trans h2⟩

theorem Appender.comp {f g : Writer → Writer} {a b : Bytes} (hf : Appender f a)
    (hg : Appender g b) : Appender (fun w => g (f w)) (a ++ b) := by
  refine ⟨hf.emits.comp hg.emits, ?_⟩
  intro w h0 hr hlen
  rw [List.length_append] at hlen
  obtain ⟨h1, h2⟩ := hf.succeeds w h0 hr (by omega)
  refine hg.succeeds (f w) h1 h2 ?_
  rw [((hf.emits w h1).2).tlv, List.length_append]
  omega

theorem appender_id : Appender (fun w => w) [] :=
  ⟨fun _ h => ⟨h, .refl h⟩, fun _ h hr _ => ⟨h, hr⟩⟩

/-- A reserve either latches an error or leaves the contents alone. -/
theorem writerReserve_ok (w : Writer) (need : Nat) :
    ((writerReserve w need).1 = true → w.err = none ∧ w.Appends [] (writerReserve w need).2) ∧
      ((writerReserve w need).1 = false → (writerReserve w need).2.err ≠ none) := by
  unfold writerReserve
  split
  · rename_i h; exact ⟨by simp, fun _ => h⟩
  rename_i h
  have h0 : w.err = none := by simpa using h
  split
  · exact ⟨fun _ => ⟨h0, .refl h0⟩, by simp⟩
  split
  · simp
  split
  · simp
  dsimp only
  split
  · exact ⟨fun _ => ⟨h0, ⟨by simp, h0, rfl, rfl, rfl, rfl, rfl⟩⟩, by simp⟩
  · simp

theorem writerPut_emits (bs : Bytes) : Emits (writerPut bs) bs := by
  intro w h
  obtain ⟨h1, h2⟩ := writerReserve_ok w bs.length
  unfold writerPut at h ⊢
  dsimp only at h ⊢
  cases hr : (writerReserve w bs.length).1 with
  | false =>
    rw [hr] at h
    exact absurd h (h2 hr)
  | true =>
    rw [hr] at h
    obtain ⟨he, ha⟩ := h1 hr
    refine ⟨he, ?_⟩
    simp only [if_true]
    exact ⟨by rw [ha.tlv, List.append_nil], ha.err, ha.sections, ha.inSection, ha.curType,
      ha.curCodec, ha.hmacKey⟩

/-- Doubling reaches any size up to a quarter of the address space. -/
theorem writerGrow_some {want newcap : Nat} (h : 0 < newcap) (hw : want ≤ 2 ^ 62) :
    ∃ c, writerGrow want newcap h = some c ∧ (c = newcap ∨ c ≤ 2 ^ 63) ∧ 0 < c := by
  induction hn : want - newcap using Nat.strongRecOn generalizing newcap with
  | ind n ih =>
    rw [writerGrow]
    by_cases hlt : newcap < want
    · rw [if_pos hlt, if_neg (by simp only [SIZE_MAX]; omega)]
      obtain ⟨c, h1, h2, h3⟩ := @ih _ (by omega) (newcap * 2) (by omega) rfl
      exact ⟨c, h1, by omega, h3⟩
    · rw [if_neg hlt]
      exact ⟨newcap, rfl, .inl rfl, h⟩

theorem writerPut_succeeds (bs : Bytes) : Succeeds (writerPut bs) bs.length := by
  intro w h0 hr hlen
  have hne : ¬ w.err ≠ none := by simpa using h0
  have hres : (writerReserve w bs.length).1 = true ∧ (writerReserve w bs.length).2.arena.Roomy := by
    unfold writerReserve
    rw [if_neg hne]
    split
    · exact ⟨rfl, hr⟩
    rename_i hroom
    rw [if_neg (by simp only [SIZE_MAX]; omega)]
    have hpos : 0 < (if w.tlvCap ≠ 0 then w.tlvCap else 64) := by split <;> omega
    obtain ⟨c, h1, h2, h3⟩ := writerGrow_some hpos hlen
    have hcap : (if w.tlvCap ≠ 0 then w.tlvCap else 64) ≤ 2 ^ 63 := by split <;> omega
    rw [h1]
    dsimp only
    rw [if_pos (hr.alloc_ok h3 (by omega))]
    exact ⟨rfl, hr.alloc c⟩
  unfold writerPut
  dsimp only
  rw [if_pos hres.1]
  exact ⟨(((writerReserve_ok w bs.length).1 hres.1).2).err, hres.2⟩

theorem writerPut_appender (bs : Bytes) : Appender (writerPut bs) bs :=
  ⟨writerPut_emits bs, writerPut_succeeds bs⟩

/-! ## Payload encoders append the wire form -/

/-- The steps for one `CONFIG` pair whose strings fit a length byte. -/
theorem writerPair_appender (p : ConfigPair) : Appender (fun w =>
    writerBytes p.value.val (writerU8 (UInt8.ofNat p.value.val.length)
      (writerBytes p.key.val (writerU8 (UInt8.ofNat p.key.val.length) w)))) (encodeConfigPair p) := by
  have h := (((writerPut_appender [UInt8.ofNat p.key.val.length]).comp
    (writerPut_appender p.key.val)).comp (writerPut_appender [UInt8.ofNat p.value.val.length])).comp
    (writerPut_appender p.value.val)
  simp only [List.append_assoc] at h
  exact h

theorem writerPairs_emits : ∀ ps : List ConfigPair,
    Emits (writerPairs ps) (ps.flatMap encodeConfigPair)
  | [] => appender_id.emits
  | p :: ps => by
    intro w h
    unfold writerPairs at h ⊢
    split at h
    · cases h
    · rename_i hshort
      rw [if_neg hshort]
      exact (writerPair_appender p).emits.comp (writerPairs_emits ps) w h

theorem writerPairs_appender : ∀ ps : List ConfigPair,
    (∀ p ∈ ps, p.key.val.length ≤ 255 ∧ p.value.val.length ≤ 255) →
      Appender (writerPairs ps) (ps.flatMap encodeConfigPair)
  | [], _ => appender_id
  | p :: ps, hp => by
    have h := (writerPair_appender p).comp (writerPairs_appender ps fun q hq => hp q (by simp [hq]))
    have hshort := hp p (by simp)
    have heq : writerPairs (p :: ps) = fun w => writerPairs ps (writerBytes p.value.val
        (writerU8 (UInt8.ofNat p.value.val.length) (writerBytes p.key.val
          (writerU8 (UInt8.ofNat p.key.val.length) w)))) := by
      funext w
      rw [writerPairs, if_neg (by omega)]
    rw [heq]
    exact h

theorem writerWords_appender : ∀ ws : List UInt32,
    Appender (fun w => ws.foldl (fun w bits => writerU32 bits w) w) (ws.flatMap endianWriteU32le)
  | [] => appender_id
  | v :: ws => (writerPut_appender (endianWriteU32le v)).comp (writerWords_appender ws)

/-- What the encoders require of a record: a known tag, and `CONFIG` strings that fit a length
byte. -/
def Record.Encodable (slack : Slack) : Record → Prop
  | config r => ∀ p ∈ readN slack.pairs r.pairs r.pairCount.toNat,
      p.key.val.length ≤ 255 ∧ p.value.val.length ≤ 255
  | other _ _ => False
  | _ => True

theorem Record.encodable_of_limits {rec : Record} (slack : Slack) (hw : rec.WellFormed)
    (hl : rec.InLimits) : rec.Encodable slack := by
  cases rec with
  | config r =>
    show ∀ p ∈ readN slack.pairs r.pairs r.pairCount.toNat, _
    rw [readN_all _ hw]
    exact hl
  | other t ht => exact hw
  | _ => trivial

/-- **A payload encoder appends the record's wire form**, and fails only for want of memory when the
record is encodable. -/
theorem writerPayload_appender (slack : Slack) (rec : Record) (h : rec.Encodable slack) :
    Appender (writerPayload slack rec) (rec.payload slack) := by
  cases rec with
  | heartbeat r => exact (writerPut_appender _).comp (writerPut_appender _)
  | geo r =>
    rw [Record.payload, ← List.append_assoc]
    exact ((writerPut_appender _).comp (writerPut_appender _)).comp (writerPut_appender _)
  | battery r =>
    have h := ((writerPut_appender [r.pct]).comp (writerPut_appender (endianWriteU16le
      r.tempCE1.toUInt16))).comp (writerPut_appender (endianWriteU32le r.cycles))
    rw [List.append_assoc] at h
    exact h
  | net r =>
    have h := ((((writerPut_appender [r.ifaceId]).comp (writerPut_appender (endianWriteU32le
      r.rxBytes))).comp (writerPut_appender (endianWriteU32le r.txBytes))).comp
      (writerPut_appender (endianWriteU32le r.rxPkts))).comp
      (writerPut_appender (endianWriteU32le r.txPkts))
    simp only [List.append_assoc] at h
    exact h
  | firmware r =>
    have h := (((writerPut_appender (endianWriteU16le r.major)).comp
      (writerPut_appender (endianWriteU16le r.minor))).comp
      (writerPut_appender (endianWriteU16le r.patch))).comp (writerPut_appender r.hash.val)
    simp only [List.append_assoc] at h
    exact h
  | sensor r =>
    have h := ((writerPut_appender (endianWriteU16le r.sensorId)).comp
      (writerPut_appender [r.count])).comp
      (writerWords_appender (readN slack.words r.samples r.count.toNat))
    rw [List.append_assoc] at h
    exact h
  | event r =>
    rw [Record.payload, ← List.append_assoc]
    exact ((writerPut_appender _).comp (writerPut_appender _)).comp (writerPut_appender _)
  | log r =>
    have h := ((writerPut_appender [r.severity]).comp (writerPut_appender (endianWriteU16le
      r.msgLen))).comp (writerPut_appender (readN slack.bytes r.msg r.msgLen.toNat))
    rw [List.append_assoc] at h
    exact h
  | config r => exact (writerPut_appender [r.pairCount]).comp (writerPairs_appender _ h)
  | keyref r =>
    exact ((writerPut_appender [r.slotId]).comp (writerPut_appender [r.labelLen])).comp
      (writerPut_appender (readN slack.bytes r.label r.labelLen.toNat))
  | diag r =>
    rw [Record.payload, ← List.append_assoc]
    exact ((writerPut_appender _).comp (writerPut_appender _)).comp (writerPut_appender _)
  | other t ht => exact h.elim

theorem writerPayload_emits (slack : Slack) (rec : Record) :
    Emits (writerPayload slack rec) (rec.payload slack) := by
  cases rec with
  | config r => exact (writerPut_emits [r.pairCount]).comp (writerPairs_emits _)
  | other t ht => intro w h; cases h
  | _ => exact (writerPayload_appender slack _ (by trivial)).emits

/-! ## One TLV item -/

theorem patchU16_length (a b : Bytes) (x y : UInt8) (v : UInt16) :
    patchU16 (a ++ x :: y :: b) a.length v = a ++ (endianWriteU16le v ++ b) := by
  unfold patchU16
  rw [List.take_left, List.drop_append]
  simp

/-- The code returned is the error the writer is left with. -/
theorem writerEmitTlv_err (w : Writer) (tag : UInt8) (fill : Writer → Writer) :
    (writerEmitTlv w tag fill).2.err = (writerEmitTlv w tag fill).1 := by
  unfold writerEmitTlv
  split
  · rfl
  split
  · rfl
  dsimp only
  split
  · rfl
  rename_i h
  split
  · rfl
  · simpa using h

/-- Header and payload, before the length is patched. -/
theorem emits_item {fill : Writer → Writer} {bs : Bytes} (tag : UInt8) (hf : Emits fill bs) :
    Emits (fun w => fill (writerU16 0 (writerU8 tag w))) (tag :: 0 :: 0 :: bs) :=
  ((writerPut_emits [tag]).comp (writerPut_emits (endianWriteU16le 0))).comp hf

/-- The accumulator after the tag and after the length placeholder. -/
theorem item_steps {fill : Writer → Writer} {bs : Bytes} {tag : UInt8} {w : Writer}
    (hf : Emits fill bs) (h : (fill (writerU16 0 (writerU8 tag w))).err = none) :
    (writerU8 tag w).tlv = w.tlv ++ [tag] ∧
      (writerU16 0 (writerU8 tag w)).tlv = w.tlv ++ [tag] ++ [0, 0] := by
  obtain ⟨h1, h2⟩ := writerPut_emits (endianWriteU16le 0) (writerU8 tag w) (hf _ h).1
  have t1 := ((writerPut_emits [tag] w h1).2).tlv
  exact ⟨t1, h2.tlv.trans (congrArg (· ++ endianWriteU16le 0) t1)⟩

/-- **A successful emit appends one encoded item**, its length field patched. -/
theorem writerEmitTlv_ok {w : Writer} {tag : UInt8} {fill : Writer → Writer} {bs : Bytes}
    (hf : Emits fill bs) (h : (writerEmitTlv w tag fill).1 = none) :
    w.err = none ∧ w.inSection = true ∧ bs.length ≤ 0xFFFF ∧
      w.Appends (encodeTlv ⟨tag, bs⟩) (writerEmitTlv w tag fill).2 := by
  unfold writerEmitTlv at h ⊢
  by_cases herr : w.err ≠ none
  · rw [if_pos herr] at h; exact absurd h herr
  rw [if_neg herr] at h ⊢
  by_cases hsec : w.inSection = false
  · rw [if_pos hsec] at h; cases h
  rw [if_neg hsec] at h ⊢
  dsimp only at h ⊢
  by_cases h3 : (fill (writerU16 0 (writerU8 tag w))).err ≠ none
  · rw [if_pos h3] at h; exact absurd h h3
  rw [if_neg h3] at h ⊢
  -- no error so far: the three steps have appended what they should
  have h3' : (fill (writerU16 0 (writerU8 tag w))).err = none := by simpa using h3
  have ha := (emits_item tag hf w h3').2
  obtain ⟨t1, t2⟩ := item_steps hf h3'
  have hplen : (fill (writerU16 0 (writerU8 tag w))).tlv.length -
      (writerU16 0 (writerU8 tag w)).tlv.length = bs.length := by
    rw [ha.tlv, t2]; simp; omega
  rw [hplen] at h ⊢
  by_cases hlong : bs.length > 0xFFFF
  · rw [if_pos hlong] at h; cases h
  rw [if_neg hlong]
  refine ⟨by simpa using herr, by simpa using hsec, by omega, ?_, h3', ha.sections, ha.inSection,
    ha.curType, ha.curCodec, ha.hmacKey⟩
  show patchU16 _ _ _ = _
  rw [ha.tlv, t1]
  have := patchU16_length (w.tlv ++ [tag]) bs 0 0 (UInt16.ofNat bs.length)
  rw [List.append_assoc] at this
  simp only [List.cons_append, List.nil_append] at this
  rw [this]
  simp [encodeTlv]

/-- **With memory to spare, emitting an item succeeds.** -/
theorem writerEmitTlv_succeeds {w : Writer} {tag : UInt8} {fill : Writer → Writer} {bs : Bytes}
    (hf : Appender fill bs) (herr : w.err = none) (hsec : w.inSection = true)
    (hr : w.arena.Roomy) (hlen : bs.length ≤ 0xFFFF) (hroom : w.tlv.length + 3 + bs.length ≤ 2 ^ 62) :
    (writerEmitTlv w tag fill).1 = none ∧ (writerEmitTlv w tag fill).2.arena.Roomy := by
  have happ : Appender (fun w => fill (writerU16 0 (writerU8 tag w))) (tag :: 0 :: 0 :: bs) :=
    ((writerPut_appender [tag]).comp (writerPut_appender (endianWriteU16le 0))).comp hf
  obtain ⟨h3, hr3⟩ := happ.succeeds w herr hr (by simp only [List.length_cons]; omega)
  have ha := (happ.emits w h3).2
  obtain ⟨-, t2⟩ := item_steps hf.emits h3
  have hplen : (fill (writerU16 0 (writerU8 tag w))).tlv.length -
      (writerU16 0 (writerU8 tag w)).tlv.length = bs.length := by
    rw [ha.tlv, t2]; simp; omega
  unfold writerEmitTlv
  rw [if_neg (by simpa using herr), if_neg (by simpa using hsec)]
  dsimp only
  rw [if_neg (by simpa using h3), hplen, if_neg (by omega)]
  exact ⟨rfl, hr3⟩

end Dtl
