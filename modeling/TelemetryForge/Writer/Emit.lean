import TelemetryForge.Report.Walk
import TelemetryForge.Writer.AddRecord
import TelemetryForge.Writer.Log

/-!
# Callers of the writer

The tools that write containers call the writer, look at each code returned and give up at the first
failure.  `checked` is that pattern, `checkedBegin` its variant for `dtl_writer_begin_section`, whose
callers answer a refusal with `DTL_ERR_OOM`; `emitRecords` is the loop over the records of one section
and `emitGroup` a whole section.

A `Group` is a section as such a caller means it: type, codec and records.  `groupSignals` is what
walking a container made of groups tells its callbacks.

Principal results: `checked_refines`, `emitGroups_refines` — what got past the checks is in the log;
`walk_groups` — a container that holds the log of groups of parseable records walks to exactly these
records, group by group, without an error.
-/

set_option autoImplicit false

namespace Dtl

/-! ## Checked calls -/

/-- `rc = …; if (rc != DTL_OK) goto done;`. -/
def checked (r : Option Err × Writer) : Res Writer :=
  match r.1 with
  | some rc => .error rc
  | none => .ok r.2

/-- `if (dtl_writer_begin_section(…) < 0) { rc = DTL_ERR_OOM; goto done; }`. -/
def checkedBegin (w : Writer) (type : UInt16) (codecId : UInt8) : Res Writer :=
  match (writerBeginSection w type codecId).1 with
  | none => .error .oom
  | some _ => .ok (writerBeginSection w type codecId).2

/-- What the writer's callers depend on besides their arguments: the memory beyond a record's
buffers and the codec environment of each attempt to compress the section with a given number. -/
structure EmitEnv where
  slack : Slack
  codec : Nat → Nat → CodecEnv

/-- `dtl_writer_end_section`, checked. -/
def checkedEnd (e : EmitEnv) (w : Writer) : Res Writer :=
  checked (writerEndSection (e.codec w.sections.length) w)

/-- The loop that adds the records of a section. -/
def emitRecords (e : EmitEnv) : List Record → Writer → Res Writer
  | [], w => .ok w
  | rec :: recs, w => do
    let w ← checked (writerAddRecord e.slack w rec)
    emitRecords e recs w

/-- A section as the caller of the writer means it. -/
structure Group where
  type : UInt16
  codecId : UInt8
  records : List Record

/-- Open a section, add its records, close it. -/
def emitGroup (e : EmitEnv) (w : Writer) (g : Group) : Res Writer := do
  let w ← checkedBegin w g.type g.codecId
  let w ← emitRecords e g.records w
  checkedEnd e w

theorem checked_eq_ok {r : Option Err × Writer} {w : Writer} :
    checked r = .ok w ↔ r.1 = none ∧ r.2 = w := by
  unfold checked
  cases r.1 <;> simp

theorem checkedBegin_eq_ok {w w' : Writer} {type : UInt16} {codecId : UInt8}
    (h : checkedBegin w type codecId = .ok w') :
    (writerBeginSection w type codecId).2 = w' ∧ w'.err = none := by
  unfold checkedBegin at h
  split at h
  · cases h
  · rename_i n hn
    cases h
    refine ⟨rfl, ?_⟩
    unfold writerBeginSection at hn ⊢
    split at hn
    · cases hn
    rename_i herr
    split at hn
    · cases hn
    split at hn
    · cases hn
    rename_i hsec hroom
    rw [if_neg herr, if_neg hsec, if_neg hroom]
    simpa using herr

/-! ## The log of checked calls -/

/-- The item a record is added as. -/
def Record.item (slack : Slack) (rec : Record) : Tlv := ⟨rec.tag, rec.payload slack⟩

def Group.log (slack : Slack) (g : Group) : SectionLog :=
  ⟨g.type, g.codecId, g.records.map (Record.item slack)⟩

/-- The code `dtl_writer_end_section` returns is the error it leaves behind. -/
theorem writerEndSection_err (env : Nat → CodecEnv) (w : Writer) :
    (writerEndSection env w).2.err = (writerEndSection env w).1 := by
  unfold writerEndSection
  split
  · rfl
  rename_i herr
  split
  · rfl
  split
  · rfl
  split
  · rfl
  dsimp only
  split
  · rfl
  split
  · rfl
  · simpa using herr

theorem checkedEnd_refines {e : EmitEnv} {w w' : Writer} {l : WriterLog} (h : Refines w l)
    (hok : checkedEnd e w = .ok w') :
    Refines w' { l with closed := l.closed ++ l.current.toList, current := none } := by
  obtain ⟨hrc, rfl⟩ := checked_eq_ok.mp hok
  exact refines_endSection h ((writerEndSection_err _ w).trans hrc)

theorem checkedBegin_refines {w w' : Writer} {l : WriterLog} {type : UInt16} {codecId : UInt8}
    (h : Refines w l) (hok : checkedBegin w type codecId = .ok w') :
    Refines w' { l with current := some ⟨type, codecId, []⟩ } := by
  obtain ⟨rfl, herr⟩ := checkedBegin_eq_ok hok
  exact refines_beginSection h herr

theorem checkedAdd_refines {slack : Slack} {w w' : Writer} {l : WriterLog} {rec : Record}
    (h : Refines w l) (hok : checked (writerAddRecord slack w rec) = .ok w') :
    Refines w' (l.add (rec.item slack)) := by
  obtain ⟨hrc, rfl⟩ := checked_eq_ok.mp hok
  exact refines_emit (writerPayload_emits slack rec) h ((writerEmitTlv_err _ _ _).trans hrc)

/-! ## The key stays -/

theorem checkedBegin_hmacKey {w w' : Writer} {type : UInt16} {codecId : UInt8}
    (h : checkedBegin w type codecId = .ok w') : w'.hmacKey = w.hmacKey := by
  obtain ⟨rfl, -⟩ := checkedBegin_eq_ok h
  exact writerBeginSection_hmacKey w type codecId

theorem checkedEnd_hmacKey {e : EmitEnv} {w w' : Writer} (h : checkedEnd e w = .ok w') :
    w'.hmacKey = w.hmacKey := by
  obtain ⟨-, rfl⟩ := checked_eq_ok.mp h
  exact writerEndSection_hmacKey _ w

theorem checkedAdd_hmacKey {slack : Slack} {w w' : Writer} {rec : Record}
    (h : checked (writerAddRecord slack w rec) = .ok w') : w'.hmacKey = w.hmacKey := by
  obtain ⟨hrc, rfl⟩ := checked_eq_ok.mp h
  exact (writerEmitTlv_ok (writerPayload_emits slack rec) hrc).2.2.2.hmacKey

/-! ## Whole sections -/

/-- The loop over a section's records adds them to the open section, in order. -/
theorem emitRecords_refines {e : EmitEnv} : ∀ (recs : List Record) {w w' : Writer} {l : WriterLog}
    {s : SectionLog}, Refines w { l with current := some s } → emitRecords e recs w = .ok w' →
      Refines w' { l with
        current := some { s with items := s.items ++ recs.map (Record.item e.slack) } }
  | [], _, _, _, _, h, hok => by
    cases hok
    simpa using h
  | rec :: recs, w, w', l, s, h, hok => by
    rw [emitRecords, Except.bind_eq_ok] at hok
    obtain ⟨w₁, h1, h2⟩ := hok
    have hadd := checkedAdd_refines h h1
    have ih := emitRecords_refines recs (l := l) hadd h2
    simpa using ih

theorem emitGroup_refines {e : EmitEnv} {w w' : Writer} {l : WriterLog} {g : Group}
    (h : Refines w l) (hok : emitGroup e w g = .ok w') :
    Refines w' { l with closed := l.closed ++ [g.log e.slack], current := none } := by
  simp only [emitGroup, Except.bind_eq_ok] at hok
  obtain ⟨w₁, h1, w₂, h2, h3⟩ := hok
  have hadd := emitRecords_refines g.records (checkedBegin_refines h h1) h2
  simpa [Group.log] using checkedEnd_refines hadd h3

/-- **Groups that got past the checks are in the log.** -/
theorem emitGroups_refines {e : EmitEnv} : ∀ (gs : List Group) {w w' : Writer} {l : WriterLog},
    Refines w l → l.current = none → gs.foldlM (emitGroup e) w = .ok w' →
      Refines w' { l with closed := l.closed ++ gs.map (Group.log e.slack), current := none }
  | [], _, _, l, h, hcur, hok => by
    cases hok
    rw [List.map_nil, List.append_nil, ← hcur]
    exact h
  | g :: gs, w, w', l, h, hcur, hok => by
    rw [List.foldlM_cons, Except.bind_eq_ok] at hok
    obtain ⟨w₁, h1, h2⟩ := hok
    have ih := emitGroups_refines gs (emitGroup_refines h h1) rfl h2
    simpa using ih

/-! ## Walking what was emitted -/

/-- The events of the records of a group, from a position on. -/
def recordEvents (type : UInt16) (codecId : UInt8) (si : Nat) : WalkPos → List Record →
    List WalkEvent
  | _, [] => []
  | pos, rec :: recs => ⟨type, codecId, si, pos.recordInSec, pos.recordIndex, rec⟩ ::
      recordEvents type codecId si ⟨pos.recordInSec + 1, pos.recordIndex + 1⟩ recs

/-- The events of a container made of groups, its first section and record numbered `si` and
`recordIndex`. -/
def groupEvents : Nat → Nat → List Group → List WalkEvent
  | _, _, [] => []
  | si, recordIndex, g :: gs =>
    recordEvents g.type g.codecId si ⟨0, recordIndex⟩ g.records ++
      groupEvents (si + 1) (recordIndex + g.records.length) gs

/-- What walking a container made of groups tells its callbacks: one record after the other. -/
def groupSignals (gs : List Group) : List Signal := (groupEvents 0 0 gs).map Signal.record

/-- A record that parses back to itself once added. -/
def Record.Parseable (rec : Record) : Prop := rec.WellFormed ∧ rec.InLimits

/-- The items of parseable records do not depend on the memory around their buffers. -/
theorem items_slack {recs : List Record} (h : ∀ rec ∈ recs, rec.Parseable) (slack slack' : Slack) :
    recs.map (Record.item slack) = recs.map (Record.item slack') := by
  apply List.map_congr_left
  intro rec hrec
  rw [Record.item, Record.item, Record.payload_slack (h rec hrec).1 slack slack']

theorem itemSignals_parseable {slack : Slack} {si : Nat} {sec : Section} :
    ∀ (recs : List Record) (pos : WalkPos), (∀ rec ∈ recs, rec.Parseable) →
      itemSignals si sec pos (recs.map (Record.item slack)) =
        (recordEvents sec.type sec.codecId si pos recs).map Signal.record
  | [], _, _ => rfl
  | rec :: recs, pos, h => by
    rw [List.forall_mem_cons] at h
    have hparse : recordParse (rec.item slack) = .ok rec := recordParse_payload slack rec h.1.1 h.1.2
    rw [List.map_cons, itemSignals, hparse]
    simp only [recordEvents, List.map_cons]
    rw [itemSignals_parseable recs _ h.2]

theorem accepted_parseable {slack : Slack} : ∀ recs : List Record, (∀ rec ∈ recs, rec.Parseable) →
    accepted (recs.map (Record.item slack)) = recs.length
  | [], _ => rfl
  | rec :: recs, h => by
    rw [List.forall_mem_cons] at h
    have hparse : recordParse (rec.item slack) = .ok rec := recordParse_payload slack rec h.1.1 h.1.2
    have ih := @accepted_parseable slack recs h.2
    unfold accepted at ih ⊢
    rw [List.map_cons, List.filter_cons_of_pos (by rw [hparse]; rfl), List.length_cons, ih,
      List.length_cons]

theorem parsedRecords_items {slack : Slack} : ∀ recs : List Record, (∀ rec ∈ recs, rec.Parseable) →
    parsedRecords (recs.map (Record.item slack)) = recs
  | [], _ => rfl
  | rec :: recs, h => by
    rw [List.forall_mem_cons] at h
    have hparse : recordParse (rec.item slack) = .ok rec := recordParse_payload slack rec h.1.1 h.1.2
    have ih := @parsedRecords_items slack recs h.2
    unfold parsedRecords at ih ⊢
    rw [List.map_cons, List.filterMap_cons, hparse]
    exact congrArg (rec :: ·) ih

/-- The section decodes to the stream of the group's records. -/
theorem SectionHolds.stream {sec : Section} {l : SectionLog} {env : CodecEnv} {cap : Nat}
    (h : SectionHolds sec l) (henv : env.scratchOk = true) (hcap : l.raw.length ≤ cap) :
    sectionStream env cap sec = .ok l.raw := by
  obtain ⟨codec, hcodec, hdec⟩ := h.decodes
  rw [sectionStream, hcodec]
  dsimp only
  rw [if_neg (by rw [h.rawLen]; omega)]
  exact hdec env henv

/-- Sections that hold groups of parseable records signal these records, and nothing else. -/
theorem walkSignals_groups {slack : Slack} {env : Nat → CodecEnv} {cap : Nat}
    (henv : ∀ i, (env i).scratchOk = true) : ∀ {gs : List Group} {secs : List Section}
    (si recordIndex : Nat), List.Forall₂ SectionHolds secs (gs.map (Group.log slack)) →
      (∀ g ∈ gs, (g.log slack).raw.length ≤ cap ∧ ∀ rec ∈ g.records, rec.Parseable) →
        walkSignals env cap si recordIndex secs =
          (groupEvents si recordIndex gs).map Signal.record
  | [], _, _, _, .nil, _ => rfl
  | g :: gs, sec :: secs, si, recordIndex, .cons hsec hsecs, hg => by
    rw [List.forall_mem_cons] at hg
    obtain ⟨⟨hraw, hrecs⟩, hgs⟩ := hg
    have hstream := hsec.stream (henv si) hraw
    have hitems : (tlvItems (g.log slack).raw).1 = g.records.map (Record.item slack) := by
      rw [hsec.items]
      rfl
    rw [walkSignals, sectionSignals, sectionAccepted, hstream]
    dsimp only
    rw [hitems, itemSignals_parseable _ _ hrecs, accepted_parseable _ hrecs,
      walkSignals_groups henv _ _ hsecs hgs, groupEvents, List.map_append, hsec.type, hsec.codecId]
    rfl

/-- **What was emitted is what is walked.** A container finished by a writer that holds the log of
groups of parseable records, none larger than the decode cap, delivers to any callbacks exactly these
records, group by group. -/
theorem walk_groups {slack : Slack} {wr : Writer} {l : WriterLog} {gs : List Group} {bytes : Bytes}
    (hr : Refines wr l) (hclosed : l.closed = gs.map (Group.log slack))
    (hfin : (writerFinish wr).1 = .ok bytes) {σ : Type} {env : Nat → CodecEnv} {w : Walk σ}
    (henv : ∀ i, (env i).scratchOk = true)
    (hg : ∀ g ∈ gs, (g.log slack).raw.length ≤ w.cap ∧ ∀ rec ∈ g.records, rec.Parseable) (s : σ) :
    walkMemory env w bytes s = deliver w (groupSignals gs) s := by
  obtain ⟨hparse, hholds⟩ := writerFinish_holds hr hfin
  rw [hclosed] at hholds
  rw [walkMemory_eq, hparse]
  dsimp only
  rw [walkSignals_groups henv 0 0 hholds hg, groupSignals]

/-! ## Enough memory -/

/-- A writer that takes in records: no error, a section open, an arena that refuses nothing. -/
structure Writer.Ready (w : Writer) : Prop where
  err : w.err = none
  inSection : w.inSection = true
  roomy : w.arena.Roomy

/-- Records that fit are taken in. -/
theorem emitRecords_succeeds {e : EmitEnv} : ∀ (recs : List Record) {w : Writer}, w.Ready →
    (∀ rec ∈ recs, rec.Parseable ∧ (rec.payload e.slack).length ≤ 0xFFFF) →
    w.tlv.length + ((recs.map (Record.item e.slack)).flatMap encodeTlv).length ≤ 2 ^ 61 →
      ∃ w', emitRecords e recs w = .ok w' ∧ w'.arena.Roomy ∧
        w.Appends ((recs.map (Record.item e.slack)).flatMap encodeTlv) w'
  | [], w, hw, _, _ => ⟨w, rfl, hw.roomy, .refl hw.err⟩
  | rec :: recs, w, hw, hrecs, hlen => by
    rw [List.forall_mem_cons] at hrecs
    rw [List.map_cons, List.flatMap_cons, List.length_append] at hlen
    obtain ⟨⟨hparse, hpay⟩, hrest⟩ := hrecs
    obtain ⟨hok, hroomy⟩ := writerAddRecord_succeeds hparse.1 hparse.2 hpay hw.err hw.inSection
      hw.roomy (by omega)
    have happ := (writerAddRecord_ok hok).2
    obtain ⟨w', hemit, hroomy', happ'⟩ := emitRecords_succeeds recs
      ⟨happ.err, happ.inSection.trans hw.inSection, hroomy⟩ hrest (by
        rw [happ.tlv, List.length_append]
        exact (Nat.add_assoc _ _ _).le.trans hlen)
    refine ⟨w', ?_, hroomy', happ.trans happ'⟩
    rw [emitRecords, checked_eq_ok.mpr ⟨hok, rfl⟩]
    exact hemit

/-- A `STORE` section that is neither empty nor too large can be closed. -/
theorem checkedEnd_succeeds {e : EmitEnv} {w : Writer} (hw : w.Ready) (hcodec : w.curCodec = CODEC_STORE)
    (hpos : 0 < w.tlv.length) (hmax : w.tlv.length ≤ SECTION_MAX_RAW) :
    ∃ w', checkedEnd e w = .ok w' ∧ w'.arena.Roomy ∧ w'.err = none ∧ w'.inSection = false ∧
      (w'.sections.map (·.compLen.toNat)).sum =
        (w.sections.map (·.compLen.toNat)).sum + w.tlv.length := by
  have hmaxval : SECTION_MAX_RAW = 67108864 := rfl
  have hstore : storeCopy w.tlv (w.tlv.length + w.tlv.length / 2 + 64) = .ok w.tlv := by
    rw [storeCopy, failIf_neg (by omega)]
    rfl
  have halloc := hw.roomy.alloc_ok (n := w.tlv.length + w.tlv.length / 2 + 64) (by omega) (by omega)
  have hget : codecGet w.curCodec =
      some ⟨CODEC_STORE, "store", fun _ => storeCopy, fun _ => storeCopy⟩ := by rw [hcodec]; rfl
  have hcomp : ∀ env, writerCompress ⟨CODEC_STORE, "store", fun _ => storeCopy, fun _ => storeCopy⟩ env
      w.tlv w.arena (w.tlv.length + w.tlv.length / 2 + 64) =
        (.ok w.tlv, (arenaAlloc w.arena (w.tlv.length + w.tlv.length / 2 + 64)).2) := by
    intro env
    rw [writerCompress]
    dsimp only
    rw [if_pos halloc, hstore]
  refine ⟨_, checked_eq_ok.mpr ⟨?_, rfl⟩, ?_⟩
  all_goals
    unfold writerEndSection
    rw [if_neg (by simp [hw.err]), if_neg (by simp [hw.inSection]), if_neg (by omega), hget]
    dsimp only
    rw [hcomp]
    dsimp only
    rw [if_neg (by omega)]
  refine ⟨hw.roomy.alloc _, hw.err, rfl, ?_⟩
  rw [List.map_append, List.sum_append]
  simp
  omega

theorem writerFinish_succeeds {w : Writer} (herr : w.err = none) (hsec : w.inSection = false)
    (hroomy : w.arena.Roomy) (hcount : w.sections.length ≤ WRITER_MAX_SECTIONS)
    (hsum : (w.sections.map (·.compLen.toNat)).sum ≤ 0xFFFFFFFF) :
    ∃ bytes, (writerFinish w).1 = .ok bytes := by
  have hmax : WRITER_MAX_SECTIONS = 64 := rfl
  have hhmac : HMAC_LEN = 32 := rfl
  unfold writerFinish
  rw [herr]
  dsimp only
  rw [hsec, if_neg (by decide), if_neg (by omega)]
  have halloc := hroomy.alloc_ok (n := 12 + w.sections.length * 16 +
    (w.sections.map (·.compLen.toNat)).sum + (if w.hmacKey.isSome then HMAC_LEN else 0)) (by omega)
    (by split <;> omega)
  rw [if_pos halloc]
  cases w.hmacKey with
  | none => exact ⟨_, rfl⟩
  | some key => exact ⟨_, rfl⟩

end Dtl
