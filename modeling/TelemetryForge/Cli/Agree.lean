import TelemetryForge.Cli.Emit
import TelemetryForge.Writer.Capacity

/-!
# The two decode pipelines

`dtl_cli_emit` and `dtl_walk_memory` run the same nested loop with different policies: the first stops
at any error, the second reports it and goes on, and only the second has a decode cap.  `emitLog` and
`walkLog` log what either of them does with the records before redaction; `cliEmit_log` says that the
log of the first is what it prints.

A run of `dtl_cli_emit` that returns 0 has seen only sections that decode and items that parse, so the
walk meets no error there but for its cap.

Principal results: `walkLog_emit` — where the first pipeline returns 0, the second delivers the records
of the sections within its cap and reports the others; `walk_agrees_emit` — the agreement of the
two; `walk_skips_oversized` — a file of 134 kB of which `dtl decode` shows 257 records and a walk none.
-/

set_option autoImplicit false

namespace Dtl

/-! ## Logs -/

/-- `dtl_cli_emit` with a log of the records and their numbers in place of the printing. -/
def emitLog (env : Nat → CodecEnv) (cont : Container) : Option Err × List (Record × Nat) :=
  emitSections env (fun index rec log => log ++ [(rec, index)]) 0 0 cont.sections []

/-- The line `dtl_cli_emit` writes for an entry of the log. -/
def cliLine (ft : FloatText) (seed : Bytes) (entry : Record × Nat) : Bytes :=
  cliPrintRecord ft entry.2 (redactRecordKs (cliKeystore seed) entry.1)

/-- A walk with the default cap that logs the records delivered, with their `record_index`, and the
`on_error` calls. -/
def walkLog : Walk (List (Record × Nat) × List WalkError) where
  onRecord ev log := (none, log.1 ++ [(ev.record, ev.recordIndex)], log.2)
  onError we log := (log.1, log.2 ++ [we])
  maxDecode := 0

section Map

variable {σ τ : Type} {act : Nat → Record → σ → σ} {act' : Nat → Record → τ → τ} (f : σ → τ)
  (hf : ∀ index rec s, f (act index rec s) = act' index rec (f s))

include hf

/-- The loops commute with a map of the state that the actions commute with. -/
theorem emitStream_map (stream : Bytes) (index : Nat) (s : σ) :
    emitStream act' stream index (f s) =
      ((emitStream act stream index s).1, (emitStream act stream index s).2.1,
        f (emitStream act stream index s).2.2) := by
  induction hn : stream.length using Nat.strongRecOn generalizing stream index s with
  | ind n ih =>
    cases hnext : tlvNext stream with
    | error rc =>
      cases stream with
      | nil => rw [emitStream_nil, emitStream_nil]
      | cons b stream =>
        have hne := List.cons_ne_nil b stream
        rw [emitStream_error act hne hnext, emitStream_error act' hne hnext]
    | ok p =>
      obtain ⟨tlv, stream'⟩ := p
      rw [emitStream_item act hnext, emitStream_item act' hnext]
      cases hparse : recordParse tlv with
      | error rc => rfl
      | ok rec =>
        dsimp only
        rw [← hf]
        exact ih _ (hn ▸ tlvNext_consumes _ _ _ hnext) stream' (index + 1) _ rfl

theorem emitSections_map (env : Nat → CodecEnv) : ∀ (secs : List Section) (si index : Nat) (s : σ),
    emitSections env act' si index secs (f s) =
      ((emitSections env act si index secs s).1, f (emitSections env act si index secs s).2)
  | [], _, _, _ => rfl
  | sec :: secs, si, index, s => by
    rw [emitSections, emitSections]
    cases emitDecode (env si) sec with
    | error rc => rfl
    | ok raw =>
      dsimp only
      rw [emitStream_map f hf]
      cases emitStream act raw index s with
      | mk rc p =>
        cases rc with
        | some rc => rfl
        | none => exact emitSections_map env secs (si + 1) p.1 p.2

end Map

/-- **What `dtl decode` prints is its log, line by line.** -/
theorem cliEmit_log (ft : FloatText) (seed : Bytes) (env : Nat → CodecEnv) (cont : Container) :
    cliEmit ft seed env cont none =
      ((emitLog env cont).1, (emitLog env cont).2.flatMap (cliLine ft seed)) := by
  have hact : ∀ index rec log, List.flatMap (cliLine ft seed) (log ++ [(rec, index)]) =
      cliEmitRecord ft (cliKeystore seed) none index rec (log.flatMap (cliLine ft seed)) := by
    intro index rec log
    rw [List.flatMap_append, List.flatMap_singleton]
    rfl
  exact emitSections_map (List.flatMap (cliLine ft seed)) hact env cont.sections 0 0 []

theorem actOn_log : ∀ (recs : List Record) (index : Nat) (log : List (Record × Nat)),
    actOn (fun index rec log => log ++ [(rec, index)]) index recs log = log ++ recs.zipIdx index
  | [], _, log => (List.append_nil log).symm
  | rec :: recs, index, log => by
    rw [actOn, actOn_log recs, List.zipIdx_cons, List.append_assoc]
    rfl

/-! ## The walk, where the other pipeline returns 0 -/

/-- The section is within the default decode cap. -/
def Section.WithinCap (sec : Section) : Prop := sec.rawLen.toNat ≤ WALK_DEFAULT_MAX_DECODE

instance : DecidablePred Section.WithinCap := fun _ => inferInstanceAs (Decidable (_ ≤ _))

/-- The records of the sections within the cap, the first section with number `si`. -/
def withinRecords (env : Nat → CodecEnv) (si : Nat) (secs : List Section) : List Record :=
  ((secs.zipIdx si).filter (·.1.WithinCap)).flatMap fun p => decodedRecords (env p.2) p.1

/-- One report for each section beyond the cap. -/
def oversizedErrors (si : Nat) (secs : List Section) : List WalkError :=
  ((secs.zipIdx si).filter (¬ ·.1.WithinCap)).map fun p => ⟨p.2, 0, .range, true⟩

theorem sectionStream_oversized {env : CodecEnv} {sec : Section} {codec : Codec}
    (hc : codecGet sec.codecId = some codec) (hbig : ¬ sec.WithinCap) :
    sectionStream env WALK_DEFAULT_MAX_DECODE sec = .error .range := by
  unfold sectionStream
  rw [hc]
  exact if_pos (Nat.lt_of_not_le hbig)

/-- What the walk makes of a section that the other pipeline decodes. -/
theorem sectionStream_emit {env env' : CodecEnv} {sec : Section} {raw : Bytes}
    (hs : env'.scratchOk = true) (hno : ¬ LeavesBuffer sec.codecId .decode sec.blob)
    (h : emitDecode env sec = .ok raw) :
    sectionStream env' WALK_DEFAULT_MAX_DECODE sec =
      if sec.WithinCap then .ok raw else .error .range := by
  unfold emitDecode at h
  cases hc : codecGet sec.codecId with
  | none =>
    rw [hc] at h
    cases h
  | some codec =>
    rw [hc] at h
    simp only [Except.bind_eq_ok, Except.pure_eq_ok, Except.ok.injEq] at h
    obtain ⟨out, hdec, -, -, rfl⟩ := h
    by_cases hcap : sec.WithinCap
    · rw [if_pos hcap, sectionStream, hc]
      dsimp only
      rw [if_neg (Nat.not_lt.mpr hcap)]
      exact codecGet_decode_env hc hs hno hdec
    · rw [if_neg hcap, sectionStream_oversized hc hcap]

theorem itemSignals_log (si : Nat) (sec : Section) : ∀ (ts : List Tlv) (pos : WalkPos)
    (log : List (Record × Nat) × List WalkError),
      (∀ t ∈ ts, ∃ rec, recordParse t = .ok rec) →
        (itemSignals si sec pos ts).foldl walkLog.signal log =
          (log.1 ++ (parsedRecords ts).zipIdx pos.recordIndex, log.2)
  | [], pos, log, _ => by simp [itemSignals, parsedRecords]
  | t :: ts, pos, log, h => by
    rw [List.forall_mem_cons] at h
    obtain ⟨⟨rec, hrec⟩, hts⟩ := h
    have hcons : parsedRecords (t :: ts) = rec :: parsedRecords ts := by
      simp [parsedRecords, hrec, Except.toOption]
    have ih := itemSignals_log si sec ts ⟨pos.recordInSec + 1, pos.recordIndex + 1⟩
      (log.1 ++ [(rec, pos.recordIndex)], log.2) hts
    rw [itemSignals, hrec]
    dsimp only
    rw [List.foldl_cons, hcons, List.zipIdx_cons]
    rw [List.append_assoc] at ih
    exact ih

theorem accepted_eq (ts : List Tlv) : accepted ts = (parsedRecords ts).length := by
  unfold accepted parsedRecords
  rw [List.length_filterMap_eq_countP, List.countP_eq_length_filter]

/-- **Where `dtl_cli_emit` returns 0, the walk delivers the records of the sections within its cap,
numbered through, and reports the other sections.** -/
theorem walkLog_emit {env env' : Nat → CodecEnv} (hs : ∀ i, (env' i).scratchOk = true) :
    ∀ (secs : List Section) (si k : Nat) (log : List (Record × Nat) × List WalkError),
      (∀ sec ∈ secs, ¬ LeavesBuffer sec.codecId .decode sec.blob) →
      AllDecode env si secs →
      (walkSignals env' WALK_DEFAULT_MAX_DECODE si k secs).foldl walkLog.signal log =
        (log.1 ++ (withinRecords env si secs).zipIdx k, log.2 ++ oversizedErrors si secs)
  | [], _, _, log, _, _ => by simp [walkSignals, withinRecords, oversizedErrors]
  | sec :: secs, si, k, log, hno, h => by
    rw [List.forall_mem_cons] at hno
    obtain ⟨⟨raw, hdec, hparse⟩, hrest⟩ := allDecode_cons.mp h
    have hstream := sectionStream_emit (hs si) hno.1 hdec
    have hrecs : decodedRecords (env si) sec = parsedRecords (tlvItems raw).1 := by
      rw [decodedRecords, hdec]
    have ih := fun k log => walkLog_emit hs secs (si + 1) k log hno.2 hrest
    rw [walkSignals, List.foldl_append, ih, sectionSignals, sectionAccepted, hstream]
    by_cases hcap : sec.WithinCap
    · simp only [if_pos hcap]
      rw [itemSignals_log si sec _ _ _ hparse.2, accepted_eq]
      simp [hcap, hrecs, withinRecords, oversizedErrors, List.zipIdx_append]
    · simp only [if_neg hcap]
      simp [hcap, withinRecords, oversizedErrors, Walk.signal, walkLog]

/-! ## A section of any size -/

/-- The RLE blob of (count, value) pairs. -/
def rlePairs (ps : List (UInt8 × UInt8)) : Bytes := ps.flatMap fun p => [p.1, p.2]

/-- The runs the pairs stand for. -/
def rleRuns (ps : List (UInt8 × UInt8)) : Bytes := ps.flatMap fun p => List.replicate p.1.toNat p.2

theorem rleDecodePlan_pairs : ∀ ps : List (UInt8 × UInt8), (∀ p ∈ ps, p.1 ≠ 0) →
    (rleDecodePlan (rlePairs ps)).stop = none ∧ (rleDecodePlan (rlePairs ps)).output = rleRuns ps
  | [], _ => ⟨rfl, rfl⟩
  | p :: ps, h => by
    rw [List.forall_mem_cons] at h
    obtain ⟨ih1, ih2⟩ := rleDecodePlan_pairs ps h.2
    rw [rlePairs, List.flatMap_cons, List.cons_append, List.cons_append, List.nil_append,
      rleDecodePlan, if_neg h.1, Sink.Plan.stop_cons, Sink.Plan.output_cons]
    exact ⟨ih1, congrArg (List.replicate p.1.toNat p.2 ++ ·) ih2⟩

theorem rleRuns_append (ps qs : List (UInt8 × UInt8)) :
    rleRuns (ps ++ qs) = rleRuns ps ++ rleRuns qs := List.flatMap_append

theorem rleRuns_copies (n : Nat) (ps : List (UInt8 × UInt8)) :
    rleRuns (List.replicate n ps).flatten = (List.replicate n (rleRuns ps)).flatten := by
  induction n with
  | zero => rfl
  | succ n ih =>
    rw [List.replicate_succ, List.flatten_cons, rleRuns_append, ih, List.replicate_succ,
      List.flatten_cons]

theorem rleRuns_replicate (n : Nat) (p : UInt8 × UInt8) :
    rleRuns (List.replicate n p) = List.replicate (n * p.1.toNat) p.2 := by
  rw [rleRuns, List.flatMap_def, List.map_replicate, List.flatten_replicate_replicate]

theorem rleRuns_ones (bs : Bytes) : rleRuns (bs.map fun b => (1, b)) = bs := by
  induction bs with
  | nil => rfl
  | cons b bs ih =>
    rw [rleRuns, List.map_cons, List.flatMap_cons]
    exact congrArg (b :: ·) ih

/-- A log message of `n` letters. -/
def letterLog (n : Nat) : Record := .log ⟨0, UInt16.ofNat n, List.replicate n 65⟩

/-- The pairs of the item of a message of `n * 255` letters. -/
def letterPairs (n : Nat) : List (UInt8 × UInt8) :=
  ((REC_LOG :: (endianWriteU16le (UInt16.ofNat (n * 255 + 3)) ++
    (0 :: endianWriteU16le (UInt16.ofNat (n * 255))))).map fun b => (1, b)) ++
      List.replicate n (255, 65)

theorem letterPairs_ne (n : Nat) : ∀ p ∈ letterPairs n, p.1 ≠ 0 := by
  intro p hp
  rcases List.mem_append.mp hp with hp | hp
  · obtain ⟨b, -, rfl⟩ := List.mem_map.mp hp
    show (1 : UInt8) ≠ 0
    decide
  · rw [List.eq_of_mem_replicate hp]
    decide

theorem letterPairs_length (n : Nat) : (letterPairs n).length = n + 6 := by
  simp [letterPairs]
  omega

section Letters

variable {n : Nat} (h : n + 3 < 2 ^ 16)

include h

theorem letterLog_len : (UInt16.ofNat n).toNat = n :=
  UInt16.toNat_ofNat_of_lt' (show n < 2 ^ 16 by omega)

theorem letterLog_parseable : (letterLog n).Parseable :=
  ⟨List.length_replicate.trans (letterLog_len h).symm, show (0 : UInt8) ≤ 7 by decide⟩

theorem letterLog_val : ((letterLog n).item zeroSlack).val =
    0 :: (endianWriteU16le (UInt16.ofNat n) ++ List.replicate n 65) := by
  have hlen : (List.replicate n (65 : UInt8)).length = (UInt16.ofNat n).toNat := by
    rw [List.length_replicate, letterLog_len h]
  show 0 :: (endianWriteU16le (UInt16.ofNat n) ++ readN zeroSlack.bytes _ _) = _
  rw [readN_all _ hlen]

theorem letterLog_val_length : ((letterLog n).item zeroSlack).val.length = n + 3 := by
  rw [letterLog_val h, List.length_cons, List.length_append, List.length_replicate]
  simp
  omega

end Letters

theorem letterPairs_runs {n : Nat} (h : n * 255 + 3 < 2 ^ 16) :
    rleRuns (letterPairs n) = encodeTlv ((letterLog (n * 255)).item zeroSlack) := by
  rw [letterPairs, rleRuns_append, rleRuns_replicate, rleRuns_ones, encodeTlv,
    letterLog_val_length h, letterLog_val h]
  simp [letterLog, Record.item, Record.tag]

section Copies

/-- `c` messages of `n * 255` letters. -/
def letterRecords (c n : Nat) : List Record := List.replicate c (letterLog (n * 255))

/-- Their stream. -/
def letterRaw (c n : Nat) : Bytes := ((letterRecords c n).map (Record.item zeroSlack)).flatMap encodeTlv

/-- Their stream, encoded. -/
def letterBlob (c n : Nat) : Bytes := rlePairs (List.replicate c (letterPairs n)).flatten

def letterEntry (c n : Nat) : TableEntry :=
  ⟨0, CODEC_RLE, UInt32.ofNat (c * (n * 255 + 6)), UInt32.ofNat (c * (2 * (n + 6))), 0⟩

/-- A file with this one section. -/
def letterFile (c n : Nat) : Bytes := layoutBytes 0 1 [letterEntry c n] (letterBlob c n) none

def letterContainer (c n : Nat) : Container :=
  ⟨VERSION, 0, 1, [⟨letterEntry c n, letterBlob c n⟩], none⟩

theorem letterBlob_length (c n : Nat) : (letterBlob c n).length = c * (2 * (n + 6)) := by
  have hpairs : ∀ ps : List (UInt8 × UInt8), (rlePairs ps).length = ps.length * 2 := by
    intro ps
    rw [rlePairs, List.length_flatMap]
    simp
  rw [letterBlob, hpairs, List.length_flatten, List.map_replicate, List.sum_replicate_nat,
    letterPairs_length, Nat.mul_assoc, Nat.mul_comm 2]

theorem letterFile_length (c n : Nat) : (letterFile c n).length = c * (2 * (n + 6)) + 28 := by
  rw [letterFile, layoutBytes, List.length_append, List.length_append, List.length_append,
    letterBlob_length]
  simp
  omega

variable {c n : Nat} (hc : 0 < c) (hn : n * 255 + 3 < 2 ^ 16)
  (hraw : c * (n * 255 + 6) ≤ SECTION_MAX_RAW)

include hn in
theorem letterRaw_eq : letterRaw c n = rleRuns (List.replicate c (letterPairs n)).flatten := by
  rw [rleRuns_copies, letterPairs_runs hn, letterRaw, letterRecords, List.map_replicate,
    List.flatMap_def, List.map_replicate]

include hn in
theorem letterRaw_length : (letterRaw c n).length = c * (n * 255 + 6) := by
  rw [letterRaw, letterRecords, List.map_replicate, List.flatMap_def, List.map_replicate,
    List.length_flatten, List.map_replicate, List.sum_replicate_nat, encodeTlv_length,
    letterLog_val_length hn]
  congr 1
  omega

include hraw

theorem letterEntry_rawLen : (letterEntry c n).rawLen.toNat = c * (n * 255 + 6) := by
  have hmax : SECTION_MAX_RAW < 2 ^ 32 := by decide
  exact UInt32.toNat_ofNat_of_lt' (show c * (n * 255 + 6) < 2 ^ 32 by omega)

theorem letterEntry_compLen : (letterEntry c n).compLen.toNat = (letterBlob c n).length := by
  have hmax : SECTION_MAX_RAW + SECTION_MAX_RAW < 2 ^ 32 := by decide
  have hle : c * (n + 6) ≤ c * (n * 255 + 6) := Nat.mul_le_mul_left c (by omega)
  have htwo : c * (2 * (n + 6)) = 2 * (c * (n + 6)) := Nat.mul_left_comm c 2 (n + 6)
  rw [letterBlob_length]
  exact UInt32.toNat_ofNat_of_lt' (show c * (2 * (n + 6)) < 2 ^ 32 by omega)

include hc in
theorem letterFile_parse : containerParse (letterFile c n) = .ok (letterContainer c n) := by
  have hrawLen := letterEntry_rawLen hraw
  have hcompLen := letterEntry_compLen hraw
  have hpos : 0 < c * (n * 255 + 6) := Nat.mul_pos hc (by omega)
  have hinside : (letterEntry c n).offset.toNat + (letterEntry c n).compLen.toNat ≤
      (letterBlob c n).length := by rw [hcompLen]; exact Nat.le_of_eq (Nat.zero_add _)
  have hfits : EntryFits (letterBlob c n).length (letterEntry c n) :=
    ⟨by omega, by omega, hinside⟩
  have htotal : compTotal [letterEntry c n] = (letterBlob c n).length := by
    simp [compTotal, hcompLen]
  have hsize : compTotal [letterEntry c n] ≤ SIZE_MAX := by
    have hlt := (letterEntry c n).compLen.toNat_lt
    have hmax : 2 ^ 32 ≤ SIZE_MAX := by decide
    rw [htotal, ← hcompLen]
    omega
  have hlayout : Layout 0 1 [letterEntry c n] (letterBlob c n) none :=
    ⟨rfl, rfl, by simpa using hfits, Nat.le_of_eq htotal, hsize⟩
  have hsec : sectionAt (letterBlob c n) (letterEntry c n) = ⟨letterEntry c n, letterBlob c n⟩ := by
    rw [sectionAt, hcompLen]
    exact congrArg (Section.mk (letterEntry c n)) List.take_length
  rw [letterFile, hlayout.parse, List.map_singleton, hsec]
  rfl

include hn in
theorem letterBlob_decode (env : CodecEnv) :
    emitDecode env ⟨letterEntry c n, letterBlob c n⟩ = .ok (letterRaw c n) := by
  have hne : ∀ p ∈ (List.replicate c (letterPairs n)).flatten, p.1 ≠ 0 := by
    intro p hp
    obtain ⟨ps, hps, hp⟩ := List.mem_flatten.mp hp
    rw [List.eq_of_mem_replicate hps] at hp
    exact letterPairs_ne n p hp
  obtain ⟨hstop, hout⟩ := rleDecodePlan_pairs _ hne
  rw [← letterRaw_eq hn] at hout
  have hlen := letterRaw_length (c := c) hn
  have hdec : rleDecode (letterBlob c n) (c * (n * 255 + 6)) = .ok (letterRaw c n) := by
    rw [rleDecode_eq, letterBlob, Sink.Plan.run_of_stop_none hstop (by rw [hout, hlen]), hout]
  show (do
    let raw ← rleDecode (letterBlob c n) (letterEntry c n).rawLen.toNat
    failIf (raw.length ≠ (letterEntry c n).rawLen.toNat) .badRecord
    return raw : Res Bytes) = _
  rw [letterEntry_rawLen hraw, hdec, Except.bind_ok_eq, hlen, failIf_neg (not_ne_self _)]
  rfl

omit hraw in
include hn in
theorem letterRecords_good : ∀ rec ∈ letterRecords c n, rec.Parseable ∧ (rec.item zeroSlack).Fits := by
  intro rec hrec
  rw [List.eq_of_mem_replicate hrec, Tlv.Fits, letterLog_val_length hn]
  exact ⟨letterLog_parseable hn, by omega⟩

include hn in
theorem letterContainer_decodes (env : Nat → CodecEnv) :
    AllDecode env 0 (letterContainer c n).sections := by
  intro i sec hi
  have hsec := List.mem_singleton.mp (List.mem_of_getElem? hi)
  subst hsec
  refine ⟨letterRaw c n, letterBlob_decode hn hraw _, ?_⟩
  exact allParse_items (fun rec hrec => (letterRecords_good hn rec hrec).1)
    fun rec hrec => (letterRecords_good hn rec hrec).2

include hn in
theorem letterContainer_records (env : CodecEnv) :
    decodedRecords env ⟨letterEntry c n, letterBlob c n⟩ = letterRecords c n := by
  have hfits : ∀ t ∈ (letterRecords c n).map (Record.item zeroSlack), t.Fits := by
    intro t ht
    obtain ⟨rec, hrec, rfl⟩ := List.mem_map.mp ht
    exact (letterRecords_good hn rec hrec).2
  rw [decodedRecords, letterBlob_decode hn hraw]
  dsimp only
  rw [letterRaw, tlvItems_encode _ hfits,
    parsedRecords_items _ fun rec hrec => (letterRecords_good hn rec hrec).1]

end Copies

/-! ## Agreement -/

/-- **Where `dtl decode` succeeds, a walk with the default cap shows the same records under the same
numbers, but for the sections beyond the cap: each of these is reported, and nothing else is.** -/
theorem walk_agrees_emit (ft : FloatText) (seed : Bytes) {env env' : Nat → CodecEnv} {file : Bytes}
    {cont : Container} (hparse : containerParse file = .ok cont)
    (hs : ∀ i, (env' i).scratchOk = true)
    (hno : ∀ sec ∈ cont.sections, ¬ LeavesBuffer sec.codecId .decode sec.blob)
    (hok : (cliEmit ft seed env cont none).1 = none) :
    (cliEmit ft seed env cont none).2 = (emitLog env cont).2.flatMap (cliLine ft seed) ∧
      walkMemory env' walkLog file ([], []) =
        (none, (withinRecords env 0 cont.sections).zipIdx, oversizedErrors 0 cont.sections) ∧
      ((∀ sec ∈ cont.sections, sec.WithinCap) →
        walkMemory env' walkLog file ([], []) = (none, (emitLog env cont).2, [])) := by
  rw [cliEmit_log] at hok ⊢
  obtain ⟨hiff, hlog⟩ := emitSections_spec (fun index rec log => log ++ [(rec, index)]) env
    cont.sections 0 0 []
  have hwalk : walkMemory env' walkLog file ([], []) =
      (none, (withinRecords env 0 cont.sections).zipIdx, oversizedErrors 0 cont.sections) := by
    rw [walkMemory_fold env' (fun _ _ => rfl), hparse]
    dsimp only
    rw [show walkLog.cap = WALK_DEFAULT_MAX_DECODE from rfl,
      walkLog_emit hs cont.sections 0 0 ([], []) hno (hiff.mp hok), List.nil_append, List.nil_append]
  refine ⟨rfl, hwalk, ?_⟩
  intro hcap
  have hcap' : ∀ p ∈ cont.sections.zipIdx, p.1.WithinCap := fun p hp =>
    hcap p.1 (List.fst_mem_of_mem_zipIdx hp)
  have hwithin : withinRecords env 0 cont.sections =
      cont.sections.zipIdx.flatMap fun p => decodedRecords (env p.2) p.1 := by
    rw [withinRecords, List.filter_eq_self.mpr fun p hp => decide_eq_true (hcap' p hp)]
  have hnone : oversizedErrors 0 cont.sections = [] := by
    rw [oversizedErrors, List.filter_eq_nil_iff.mpr fun p hp => by simpa using hcap' p hp]
    rfl
  have hentries : (emitLog env cont).2 = (withinRecords env 0 cont.sections).zipIdx := by
    rw [hwithin, emitLog, hlog hok, actOn_log, List.nil_append]
  rw [hwalk, hentries, hnone]

theorem walk_agrees_emit_letters :
    walkMemory plainEnv walkLog (letterFile 2 1) ([], []) =
      (none, (emitLog plainEnv (letterContainer 2 1)).2, []) := by
  have hparse : containerParse (letterFile 2 1) = .ok (letterContainer 2 1) :=
    letterFile_parse (by decide) (by decide)
  have hno : ∀ sec ∈ (letterContainer 2 1).sections, ¬ LeavesBuffer sec.codecId .decode sec.blob := by
    intro sec hsec hleaves
    rw [List.mem_singleton.mp hsec] at hleaves
    exact absurd hleaves.1 (show ¬ CODEC_RLE = CODEC_LZ77 by decide)
  have hok : (cliEmit noFloats [] plainEnv (letterContainer 2 1) none).1 = none :=
    (emitSections_spec _ _ _ 0 0 _).1.mpr (letterContainer_decodes (by decide) (by decide) plainEnv)
  have hcap : ∀ sec ∈ (letterContainer 2 1).sections, sec.WithinCap := by
    intro sec hsec
    rw [List.mem_singleton.mp hsec]
    exact show (UInt32.ofNat (2 * (1 * 255 + 6))).toNat ≤ WALK_DEFAULT_MAX_DECODE by decide
  exact (walk_agrees_emit noFloats [] hparse (fun _ => rfl) hno hok).2.2 hcap

/-- A file of 134 kB whose one section decodes to 16.0 MiB: `dtl decode` shows all of its 257 records,
a walk reports the section and delivers none. -/
theorem walk_skips_oversized :
    (letterFile 257 256).length = 134696 ∧
      containerParse (letterFile 257 256) = .ok (letterContainer 257 256) ∧
      (cliEmit noFloats [] plainEnv (letterContainer 257 256) none).1 = none ∧
      (emitLog plainEnv (letterContainer 257 256)).2.length = 257 ∧
      walkMemory plainEnv walkLog (letterFile 257 256) ([], []) =
        (none, [], [⟨0, 0, .range, true⟩]) := by
  have hn : 256 * 255 + 3 < 2 ^ 16 := by decide
  have hraw : 257 * (256 * 255 + 6) ≤ SECTION_MAX_RAW := by decide
  have hparse : containerParse (letterFile 257 256) = .ok (letterContainer 257 256) :=
    letterFile_parse (by decide) hraw
  have hdecodes := letterContainer_decodes hn hraw plainEnv
  have hok : ∀ {σ : Type} (act : Nat → Record → σ → σ) (s : σ),
      (emitSections plainEnv act 0 0 (letterContainer 257 256).sections s).1 = none :=
    fun act s => (emitSections_spec act plainEnv _ 0 0 s).1.mpr hdecodes
  refine ⟨letterFile_length 257 256, hparse, hok _ _, ?_, ?_⟩
  · have hrecs : decodedRecords (plainEnv 0) ⟨letterEntry 257 256, letterBlob 257 256⟩ =
        letterRecords 257 256 := letterContainer_records hn hraw _
    have hsecs : (letterContainer 257 256).sections.zipIdx =
        [(⟨letterEntry 257 256, letterBlob 257 256⟩, 0)] := rfl
    rw [emitLog, (emitSections_spec _ plainEnv _ 0 0 []).2 (hok _ _), actOn_log, hsecs,
      List.flatMap_singleton, hrecs, List.nil_append, List.length_zipIdx, letterRecords,
      List.length_replicate]
  · have hbig : ¬ (letterEntry 257 256).rawLen.toNat ≤ WALK_DEFAULT_MAX_DECODE := by
      rw [letterEntry_rawLen hraw]
      decide
    have hstream : sectionStream (plainEnv 0) walkLog.cap ⟨letterEntry 257 256, letterBlob 257 256⟩ =
        .error .range := sectionStream_oversized rfl hbig
    rw [walkMemory_fold plainEnv (fun _ _ => rfl), hparse]
    show (none, (walkSignals plainEnv _ 0 0 [⟨letterEntry 257 256, letterBlob 257 256⟩]).foldl
      walkLog.signal ([], [])) = _
    rw [walkSignals, sectionSignals, hstream]
    rfl

end Dtl
