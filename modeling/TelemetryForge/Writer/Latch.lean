import TelemetryForge.Lib.Latch
import TelemetryForge.Writer.Log
import TelemetryForge.Writer.AddRecord

/-!
# The errors of the writer

Which error `w->err` holds, followed store by store: the helpers of one payload run after each other
without looking at each other's result, so the register can change several times within one call.

Principal results: `writer_latches_iff` — the first error stays, in every run, exactly when no payload
encoder gives up after one of its appends was refused; `writerAddU32Batch_iff` — a batch of words does
what it is for exactly when it is not empty.
-/

set_option autoImplicit false

namespace Dtl

open Latch

/-! ## Payloads chunk by chunk -/

/-- A pair whose strings do not fit their length bytes. -/
def ConfigPair.Long (p : ConfigPair) : Prop := p.key.val.length > 0xFF ∨ p.value.val.length > 0xFF

instance (p : ConfigPair) : Decidable p.Long := inferInstanceAs (Decidable (_ ∨ _))

/-- What the pair loop appends before it gives up or ends. -/
def pairChunks : List ConfigPair → List Bytes
  | [] => []
  | p :: ps =>
    if p.Long then []
    else [UInt8.ofNat p.key.val.length] :: p.key.val :: [UInt8.ofNat p.value.val.length] ::
      p.value.val :: pairChunks ps

/-- What `dtl_writer_payload` appends, one chunk for each helper it calls. -/
def Record.chunks (slack : Slack) : Record → List Bytes
  | .heartbeat r => [endianWriteU32le r.uptimeS, endianWriteU32le r.seq]
  | .geo r => [endianWriteU32le r.latE7.toUInt32, endianWriteU32le r.lonE7.toUInt32,
      endianWriteU32le r.altMm.toUInt32]
  | .battery r => [[r.pct], endianWriteU16le r.tempCE1.toUInt16, endianWriteU32le r.cycles]
  | .net r => [[r.ifaceId], endianWriteU32le r.rxBytes, endianWriteU32le r.txBytes,
      endianWriteU32le r.rxPkts, endianWriteU32le r.txPkts]
  | .firmware r => [endianWriteU16le r.major, endianWriteU16le r.minor, endianWriteU16le r.patch,
      r.hash.val]
  | .sensor r => endianWriteU16le r.sensorId :: [r.count] ::
      (readN slack.words r.samples r.count.toNat).map endianWriteU32le
  | .event r => [endianWriteU16le r.code, endianWriteU16le r.payloadLen,
      readN slack.bytes r.payload r.payloadLen.toNat]
  | .log r => [[r.severity], endianWriteU16le r.msgLen, readN slack.bytes r.msg r.msgLen.toNat]
  | .config r => [r.pairCount] :: pairChunks (readN slack.pairs r.pairs r.pairCount.toNat)
  | .keyref r => [[r.slotId], [r.labelLen], readN slack.bytes r.label r.labelLen.toNat]
  | .diag r => [endianWriteU16le r.subsystem, endianWriteU16le r.blobLen,
      readN slack.bytes r.blob r.blobLen.toNat]
  | .other _ _ => []

/-- The error with which `dtl_writer_payload` gives up on a record. -/
def Record.givesUp (slack : Slack) : Record → Option Err
  | .config r =>
    if ∃ p ∈ readN slack.pairs r.pairs r.pairCount.toNat, p.Long then some .range else none
  | .other _ _ => some .badRecord
  | _ => none

/-- `w->err = e`, whatever it was before. -/
def writerGiveUp : Option Err → Writer → Writer
  | none, w => w
  | some e, w => { w with err := some e }

theorem writerPut_keeps (bs : Bytes) (w : Writer) : Keeps w.err (writerPut bs w).err := by
  intro e h
  simp [writerPut, writerReserve, h]

/-- The append functions, observed after each of them. -/
def writerPuts : Traced Writer Bytes Err where
  step := fun w bs => writerPut bs w
  reg := Writer.err
  trace := fun w bs => [(writerPut bs w).err]
  last_trace := fun _ _ => rfl

theorem writerPuts_latched (w : Writer) (chunks : List Bytes) :
    Latched w.err (writerPuts.history w chunks) := by
  refine writerPuts.latched_of_keeps (fun w bs => ?_) chunks w
  exact latched_cons.mpr ⟨writerPut_keeps bs w, latched_nil _⟩

theorem writerPairs_chunks : ∀ (ps : List ConfigPair) (w : Writer), writerPairs ps w =
    writerGiveUp (if ∃ p ∈ ps, p.Long then some .range else none) (writerPuts.run w (pairChunks ps))
  | [], w => by simp [writerPairs, pairChunks, writerGiveUp]
  | p :: ps, w => by
    rw [writerPairs, pairChunks]
    by_cases hp : p.Long
    · have hlong : p.key.val.length > 0xFF ∨ p.value.val.length > 0xFF := hp
      rw [if_pos hlong, if_pos hp, if_pos ⟨p, List.mem_cons_self, hp⟩]
      rfl
    · have hiff : (∃ q ∈ p :: ps, q.Long) ↔ ∃ q ∈ ps, q.Long := by simp [hp]
      have hshort : ¬ (p.key.val.length > 0xFF ∨ p.value.val.length > 0xFF) := hp
      rw [if_neg hshort, if_neg hp, writerPairs_chunks ps]
      simp only [hiff]
      rfl

theorem writerWords_chunks : ∀ (ws : List UInt32) (w : Writer),
    ws.foldl (fun w bits => writerU32 bits w) w = writerPuts.run w (ws.map endianWriteU32le)
  | [], _ => rfl
  | v :: ws, w => writerWords_chunks ws (writerU32 v w)

/-- **A payload encoder makes its appends, then gives up or not.** -/
theorem writerPayload_chunks (slack : Slack) (rec : Record) (w : Writer) :
    writerPayload slack rec w =
      writerGiveUp (rec.givesUp slack) (writerPuts.run w (rec.chunks slack)) := by
  cases rec with
  | sensor r => exact writerWords_chunks _ _
  | config r => exact writerPairs_chunks _ _
  | _ => rfl

/-! ## One item -/

/-- What `dtl_writer_emit_tlv` appends before the payload. -/
def itemChunks (tag : UInt8) (chunks : List Bytes) : List Bytes :=
  [tag] :: endianWriteU16le 0 :: chunks

/-- The values `w->err` takes while an item is emitted, up to the checks after the payload. -/
def emitHistory (w : Writer) (tag : UInt8) (chunks : List Bytes) (stop : Option Err) :
    List (Option Err) :=
  if w.err ≠ none ∨ w.inSection = false then []
  else writerPuts.history w (itemChunks tag chunks) ++ stop.toList.map some

/-- The encoder gives up with one error after an append has left another. -/
def StopsOver (w : Writer) (tag : UInt8) (chunks : List Bytes) (stop : Option Err) : Prop :=
  w.err = none ∧ w.inSection = true ∧
    ∃ e e', stop = some e ∧ (writerPuts.run w (itemChunks tag chunks)).err = some e' ∧ e' ≠ e

theorem writerEmitTlv_filled {w : Writer} (tag : UInt8) (fill : Writer → Writer)
    (herr : w.err = none) (hsec : w.inSection = true) :
    Keeps (fill (writerU16 0 (writerU8 tag w))).err (writerEmitTlv w tag fill).2.err := by
  intro e h
  simp [writerEmitTlv, herr, hsec, h]

/-- **Emitting an item loses an error exactly when its encoder stops over it.** -/
theorem emitHistory_latched {w : Writer} {tag : UInt8} {fill : Writer → Writer}
    (chunks : List Bytes) (stop : Option Err)
    (hfill : ∀ w, fill w = writerGiveUp stop (writerPuts.run w chunks)) :
    Latched w.err (emitHistory w tag chunks stop ++ [(writerEmitTlv w tag fill).2.err]) ↔
      ¬ StopsOver w tag chunks stop := by
  unfold emitHistory StopsOver
  by_cases hgo : w.err ≠ none ∨ w.inSection = false
  · have hstay : Keeps w.err (writerEmitTlv w tag fill).2.err := by
      intro e h
      simp [writerEmitTlv, h]
    rw [if_pos hgo, List.nil_append, latched_cons]
    refine iff_of_true ⟨hstay, latched_nil _⟩ ?_
    rintro ⟨herr, hsec, -⟩
    rcases hgo with h | h
    · exact h herr
    · simp [hsec] at h
  · obtain ⟨herr, hsec⟩ := not_or.mp hgo
    have herr' : w.err = none := not_not.mp herr
    have hsec' : w.inSection = true := by simpa using hsec
    have hfilled := writerEmitTlv_filled tag fill herr' hsec'
    have hrun : fill (writerU16 0 (writerU8 tag w)) =
        writerGiveUp stop (writerPuts.run w (itemChunks tag chunks)) := hfill _
    have hlast : last w.err (writerPuts.history w (itemChunks tag chunks)) =
        (writerPuts.run w (itemChunks tag chunks)).err := writerPuts.last_history _ _
    rw [hrun] at hfilled
    rw [if_neg hgo, List.append_assoc, latched_append, hlast]
    rcases stop with _ | e
    · refine iff_of_true ⟨writerPuts_latched w _, latched_cons.mpr ⟨hfilled, latched_nil _⟩⟩ ?_
      simp
    · have hfinal : Keeps (some e) (writerEmitTlv w tag fill).2.err := hfilled
      have hputs := writerPuts_latched w (itemChunks tag chunks)
      simp only [Option.toList_some, List.map_cons, List.map_nil, List.cons_append, List.nil_append,
        latched_cons, latched_nil, hfinal, and_true, hputs, true_and]
      constructor
      · rintro hkeep ⟨-, -, e₁, e', he, hput, hne⟩
        obtain rfl := Option.some.inj he
        exact hne (Option.some.inj (hkeep e' hput)).symm
      · intro hno e' hput
        by_contra hne
        exact hno ⟨herr', hsec', e, e', rfl, hput, fun heq => hne (by rw [heq])⟩

/-! ## Every public call -/

/-- A public call after `dtl_writer_init`. -/
inductive WriterOp where
  | call (c : WriterCall)
  | finish

/-- The writer after a public call. -/
def writerOp (w : Writer) : WriterOp → Writer
  | .call c => writerCall w c
  | .finish => (writerFinish w).2

/-- What the caller sees of a failure: a code other than `DTL_OK`, or the handle `-1`. -/
def opFails (w : Writer) : WriterOp → Prop
  | .call (.beginSection type codecId) => (writerBeginSection w type codecId).1 = none
  | .call (.addRecord slack rec) => (writerAddRecord slack w rec).1 ≠ none
  | .call (.addRawTlv tag payload) => (writerAddRawTlv w tag payload).1 ≠ none
  | .call (.addU32Batch tag vals) => (writerAddU32Batch w tag vals).1 ≠ none
  | .call (.endSection env) => (writerEndSection env w).1 ≠ none
  | .call (.setHmac key) => (writerSetHmac w key).1 ≠ none
  | .finish => ∃ e, (writerFinish w).1 = .error e

/-- The writer with the staging buffer of a batch allocated. -/
def writerStaged (w : Writer) (vals : List UInt32) : Writer :=
  { w with arena := (arenaAlloc w.arena (vals.length * 4)).2 }

/-- The values `w->err` takes inside a public call, before its last store. -/
def innerHistory (w : Writer) : WriterOp → List (Option Err)
  | .call (.addRecord slack rec) => emitHistory w rec.tag (rec.chunks slack) (rec.givesUp slack)
  | .call (.addRawTlv tag payload) => emitHistory w tag [payload.val] none
  | .call (.addU32Batch tag vals) =>
    if w.err ≠ none ∨ vals.length > 0xFFFF / 4 ∨
        (arenaAlloc w.arena (vals.length * 4)).1 = false then []
    else emitHistory (writerStaged w vals) tag [vals.flatMap endianWriteU32le] none
  | _ => []

/-- Public calls, observed at every store into `w->err`. -/
def writerOps : Traced Writer WriterOp Err where
  step := writerOp
  reg := Writer.err
  trace := fun w op => innerHistory w op ++ [(writerOp w op).err]
  last_trace := fun w op => by rw [last_append, last_cons, last_nil]

/-- A record's encoder gives up after one of its appends was refused: `dtl_writer_add_record` of an
unknown tag, or of a `CONFIG` record with a string over 255 bytes. -/
def Overwrites (w : Writer) : WriterOp → Prop
  | .call (.addRecord slack rec) => StopsOver w rec.tag (rec.chunks slack) (rec.givesUp slack)
  | _ => False

/-- **A call on a writer with a latched error does nothing** and says so. -/
theorem writerOp_latched {w : Writer} (h : w.err ≠ none) (op : WriterOp) :
    writerOp w op = w ∧ opFails w op := by
  rcases op with c | _
  · refine ⟨writerCall_latched h c, ?_⟩
    cases c <;>
      simp [opFails, writerBeginSection, writerAddRecord, writerAddRawTlv, writerAddU32Batch,
        writerEndSection, writerSetHmac, writerEmitTlv, h]
  · obtain ⟨e, he⟩ := Option.ne_none_iff_exists'.mp h
    simp [writerOp, opFails, writerFinish, he]

theorem writerOp_keeps (w : Writer) (op : WriterOp) : Keeps w.err (writerOp w op).err := by
  intro e h
  rw [(writerOp_latched (by simp [h]) op).1, h]

/-- **One call keeps the first error exactly when it does not overwrite it.** -/
theorem writerOps_trace_latched (w : Writer) (op : WriterOp) :
    Latched w.err (writerOps.trace w op) ↔ ¬ Overwrites w op := by
  have hplain : Latched w.err ([] ++ [(writerOp w op).err]) ↔ ¬ False :=
    iff_of_true (latched_cons.mpr ⟨writerOp_keeps w op, latched_nil _⟩) not_false
  rcases op with c | _
  · cases c with
    | addRecord slack rec => exact emitHistory_latched _ _ (writerPayload_chunks slack rec)
    | addRawTlv tag payload =>
      refine (emitHistory_latched [payload.val] none fun _ => rfl).trans ?_
      simp [StopsOver, Overwrites]
    | addU32Batch tag vals =>
      simp only [writerOps, innerHistory]
      split
      · exact hplain
      · rename_i hgo
        obtain ⟨herr, hgo⟩ := not_or.mp hgo
        obtain ⟨hbig, halloc⟩ := not_or.mp hgo
        have halloc' : (arenaAlloc w.arena (vals.length * 4)).1 = true := by simpa using halloc
        have hcall : writerOp w (.call (.addU32Batch tag vals)) = (writerEmitTlv
            (writerStaged w vals) tag (writerBytes (vals.flatMap endianWriteU32le))).2 := by
          simp only [writerOp, writerCall, writerAddU32Batch, if_neg herr, if_neg hbig, halloc',
            if_true]
          rfl
        rw [hcall]
        refine (emitHistory_latched (w := writerStaged w vals) [vals.flatMap endianWriteU32le] none
          fun _ => rfl).trans ?_
        simp [StopsOver, Overwrites]
    | _ => exact hplain
  · exact hplain

/-! ## Every run -/

/-- The writer keeps its first error along a run, and stands still once it has one. -/
structure LatchesFirst (w : Writer) (calls : List WriterOp) : Prop where
  /-- Every value of `w->err` after the first error is that error. -/
  history : Latched w.err (writerOps.history w calls)
  later : ∀ pre op post, calls = pre ++ op :: post → (writerOps.run w pre).err ≠ none →
    (writerOps.run w (pre ++ [op])).sections = (writerOps.run w pre).sections ∧
    (writerOps.run w (pre ++ [op])).inSection = (writerOps.run w pre).inSection ∧
    opFails (writerOps.run w pre) op
  finish : ∀ e, first w.err (writerOps.history w calls) = some e →
    (writerFinish (writerOps.run w calls)).1 = .error e

theorem writerOps_later {w : Writer} {pre : List WriterOp} (op : WriterOp)
    (h : (writerOps.run w pre).err ≠ none) :
    (writerOps.run w (pre ++ [op])).sections = (writerOps.run w pre).sections ∧
    (writerOps.run w (pre ++ [op])).inSection = (writerOps.run w pre).inSection ∧
    opFails (writerOps.run w pre) op := by
  obtain ⟨hstay, hfails⟩ := writerOp_latched h op
  have hrun : writerOps.run w (pre ++ [op]) = writerOps.run w pre := by
    rw [Traced.run, List.foldl_append]
    exact hstay
  rw [hrun]
  exact ⟨rfl, rfl, hfails⟩

theorem writerFinish_err {w : Writer} {e : Err} (h : w.err = some e) :
    (writerFinish w).1 = .error e := by
  simp [writerFinish, h]

/-- **The writer latches its first error in a run exactly when no call of the run overwrites it**,
whatever the arguments and whichever allocations fail. -/
theorem writer_latches_iff (a : Arena) (calls : List WriterOp) :
    LatchesFirst (writerInit a) calls ↔
      ∀ pre op post, calls = pre ++ op :: post →
        ¬ Overwrites (writerOps.run (writerInit a) pre) op := by
  have hrun := writerOps.latched_iff calls (writerInit a)
  constructor
  · intro h pre op post heq
    exact (writerOps_trace_latched _ _).mp (hrun.mp h.history pre op post heq)
  · intro h
    have hlatched : Latched (writerInit a).err (writerOps.history (writerInit a) calls) := by
      refine hrun.mpr fun pre op post heq => ?_
      exact (writerOps_trace_latched _ _).mpr (h pre op post heq)
    refine ⟨hlatched, fun pre op post _ herr => writerOps_later op herr, fun e he => ?_⟩
    apply writerFinish_err
    rw [← hlatched.last_eq_first] at he
    exact (writerOps.last_history calls (writerInit a)).symm.trans he

/-- With no memory at all, adding a record of an unknown tag first latches `DTL_ERR_OOM` and then
replaces it. -/
theorem writer_overwrites_oom : ¬ LatchesFirst (writerInit ⟨fun _ => true, 0⟩)
    [.call (.beginSection 1 CODEC_STORE), .call (.addRecord zeroSlack (.other 0 (by decide)))] := by
  intro h
  have hhistory := h.history
  revert hhistory
  decide +kernel

/-! ## Batches of words -/

/-- What `dtl_writer_add_u32_batch` is for: one item with the words in little-endian order, or a
refusal that leaves the accumulator as it was. -/
def BatchMeets (w : Writer) (tag : UInt8) (vals : List UInt32) (r : Option Err × Writer) : Prop :=
  if vals.length ≤ 0xFFFF / 4 then
    r.1 = none ∧ w.Appends (encodeTlv ⟨tag, vals.flatMap endianWriteU32le⟩) r.2
  else r.1 = some .range ∧ r.2.tlv = w.tlv

/-- An empty batch asks the arena for no bytes, which the arena never grants. -/
theorem writerAddU32Batch_empty {w : Writer} (herr : w.err = none) (tag : UInt8) :
    writerAddU32Batch w tag [] = w.fail .oom := by
  simp [writerAddU32Batch, arenaAlloc, herr, Writer.fail]

theorem writerAddU32Batch_long {w : Writer} {vals : List UInt32} (herr : w.err = none) (tag : UInt8)
    (hlong : ¬ vals.length ≤ 0xFFFF / 4) : writerAddU32Batch w tag vals = w.fail .range := by
  rw [writerAddU32Batch, if_neg (not_not.mpr herr), if_pos (Nat.not_le.mp hlong)]

/-- A batch that fits goes out as one item. -/
theorem writerAddU32Batch_fits {w : Writer} {vals : List UInt32} (tag : UInt8) (herr : w.err = none)
    (hsec : w.inSection = true) (hr : w.arena.Roomy) (hroom : w.tlv.length ≤ 2 ^ 61)
    (hpos : vals ≠ []) (hfit : vals.length ≤ 0xFFFF / 4) :
    (writerAddU32Batch w tag vals).1 = none ∧
      w.Appends (encodeTlv ⟨tag, vals.flatMap endianWriteU32le⟩)
        (writerAddU32Batch w tag vals).2 := by
  have hlen := flatMap_u32_length vals
  rw [SENSOR_SAMPLE_SIZE] at hlen
  have hcount : 0 < vals.length := List.length_pos_iff.mpr hpos
  have halloc : (arenaAlloc w.arena (vals.length * 4)).1 = true := hr.alloc_ok (by omega) (by omega)
  have hcall : writerAddU32Batch w tag vals =
      writerEmitTlv (writerStaged w vals) tag (writerBytes (vals.flatMap endianWriteU32le)) := by
    rw [writerAddU32Batch, if_neg (not_not.mpr herr), if_neg (Nat.not_lt.mpr hfit)]
    simp only [halloc, if_true]
    rfl
  have hstaged : (writerStaged w vals).tlv.length + 3 + (vals.flatMap endianWriteU32le).length ≤
      2 ^ 62 := by
    show w.tlv.length + 3 + _ ≤ _
    omega
  have hroomy : (writerStaged w vals).arena.Roomy := hr.alloc _
  have hok : (writerEmitTlv (writerStaged w vals) tag
      (writerBytes (vals.flatMap endianWriteU32le))).1 = none :=
    (writerEmitTlv_succeeds (w := writerStaged w vals)
      (writerPut_appender (vals.flatMap endianWriteU32le)) herr hsec hroomy (by omega) hstaged).1
  obtain ⟨-, -, -, happ⟩ := writerEmitTlv_ok (writerPut_emits (vals.flatMap endianWriteU32le)) hok
  rw [hcall]
  exact ⟨hok, happ.tlv, happ.err, happ.sections, happ.inSection, happ.curType, happ.curCodec,
    happ.hmacKey⟩

/-- **A batch of words does what it is for exactly when it is not empty.** -/
theorem writerAddU32Batch_iff (w : Writer) (tag : UInt8) (vals : List UInt32) (herr : w.err = none)
    (hsec : w.inSection = true) (hr : w.arena.Roomy) (hroom : w.tlv.length ≤ 2 ^ 61) :
    BatchMeets w tag vals (writerAddU32Batch w tag vals) ↔ vals ≠ [] := by
  unfold BatchMeets
  constructor
  · rintro h rfl
    simp [writerAddU32Batch_empty herr, Writer.fail] at h
  · intro hpos
    by_cases hfit : vals.length ≤ 0xFFFF / 4
    · rw [if_pos hfit]
      exact writerAddU32Batch_fits tag herr hsec hr hroom hpos hfit
    · rw [if_neg hfit, writerAddU32Batch_long herr tag hfit]
      exact ⟨rfl, rfl⟩

theorem writerAddU32Batch_iff_pair :
    BatchMeets openWriter 9 [1, 2] (writerAddU32Batch openWriter 9 [1, 2]) :=
  (writerAddU32Batch_iff openWriter 9 [1, 2] rfl rfl (fun _ => rfl) (by decide)).mpr (by simp)

/-- An empty batch is refused for want of memory. -/
theorem writerAddU32Batch_refuses_empty :
    ¬ BatchMeets openWriter 9 [] (writerAddU32Batch openWriter 9 []) := by
  rw [writerAddU32Batch_empty rfl]
  simp [BatchMeets, Writer.fail]

end Dtl
