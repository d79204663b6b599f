import TelemetryForge.Report.ImportJson

/-!
# Walking an imported container

The importers, the writer and the record parsers each check fields on their own.  An imported record
survives when what it holds, its buffers cut to their declared lengths, is a record that
`dtl_record_parse` accepts.

Principal results: `importRows_walks_iff` — a walk of the output delivers the imported records if and
only if all of them survive; `csvImportRow_survives` and `jimportRecord_survives` — which rows and
objects stand for records that do; `import_walks_iff` — the two importers.
-/

set_option autoImplicit false

namespace Dtl

/-! ## What a record holds -/

/-- The first `n` elements of a buffer that has as many. -/
def cut {α : Type} (buf : List α) (n : Nat) : Option (List α) :=
  if n ≤ buf.length then some (buf.take n) else none

/-- A record with its buffers cut to their declared lengths; `none` when a buffer is shorter. -/
def Record.held : Record → Option Record
  | .sensor r => (cut r.samples r.count.toNat).map fun b => .sensor { r with samples := b }
  | .event r => (cut r.payload r.payloadLen.toNat).map fun b => .event { r with payload := b }
  | .diag r => (cut r.blob r.blobLen.toNat).map fun b => .diag { r with blob := b }
  | .log r => (cut r.msg r.msgLen.toNat).map fun b => .log { r with msg := b }
  | .config r => (cut r.pairs r.pairCount.toNat).map fun b => .config { r with pairs := b }
  | .keyref r => (cut r.label r.labelLen.toNat).map fun b => .keyref { r with label := b }
  | rec => some rec

/-- What the record holds parses back. -/
def Record.Survives (rec : Record) : Prop := ∃ d, rec.held = some d ∧ d.Parseable

theorem cut_eq_some {α : Type} {buf b : List α} {n : Nat} :
    cut buf n = some b ↔ n ≤ buf.length ∧ buf.take n = b := by
  unfold cut
  split <;> simp_all

theorem cut_readN {α : Type} {buf b : List α} {n : Nat} (beyond : Nat → α) (h : cut buf n = some b) :
    readN beyond buf n = readN beyond b n := by
  obtain ⟨hle, rfl⟩ := cut_eq_some.mp h
  rw [readN_of_le _ hle, readN_of_le _ (by rw [List.length_take]; omega), List.take_take, Nat.min_self]

/-- A record and what it holds are added as the same item. -/
theorem Record.held_item {rec d : Record} (slack : Slack) (h : rec.held = some d) :
    rec.item slack = d.item slack := by
  cases rec with
  | sensor r =>
    obtain ⟨b, hb, rfl⟩ := Option.map_eq_some_iff.mp h
    simp only [item, tag, payload, cut_readN _ hb]
  | event r =>
    obtain ⟨b, hb, rfl⟩ := Option.map_eq_some_iff.mp h
    simp only [item, tag, payload, cut_readN _ hb]
  | diag r =>
    obtain ⟨b, hb, rfl⟩ := Option.map_eq_some_iff.mp h
    simp only [item, tag, payload, cut_readN _ hb]
  | log r =>
    obtain ⟨b, hb, rfl⟩ := Option.map_eq_some_iff.mp h
    simp only [item, tag, payload, cut_readN _ hb]
  | config r =>
    obtain ⟨b, hb, rfl⟩ := Option.map_eq_some_iff.mp h
    simp only [item, tag, payload, cut_readN _ hb]
  | keyref r =>
    obtain ⟨b, hb, rfl⟩ := Option.map_eq_some_iff.mp h
    simp only [item, tag, payload, cut_readN _ hb]
  | _ => cases h; rfl

theorem Record.held_of_wellFormed {rec : Record} (h : rec.WellFormed) : rec.held = some rec := by
  have hcut : ∀ {α : Type} {buf : List α} {n : Nat}, buf.length = n → cut buf n = some buf :=
    fun heq => cut_eq_some.mpr ⟨Nat.le_of_eq heq.symm, by rw [← heq, List.take_length]⟩
  cases rec with
  | sensor r => rw [held, hcut h]; rfl
  | event r => rw [held, hcut h]; rfl
  | diag r => rw [held, hcut h]; rfl
  | log r => rw [held, hcut h]; rfl
  | config r => rw [held, hcut h]; rfl
  | keyref r => rw [held, hcut h]; rfl
  | other t ht => exact h.elim
  | _ => rfl

/-- A well-formed record survives when it is within the parser's limits. -/
theorem Record.survives_iff {rec : Record} (h : rec.WellFormed) : rec.Survives ↔ rec.InLimits := by
  constructor
  · rintro ⟨d, hd, -, hl⟩
    rw [held_of_wellFormed h] at hd
    cases hd
    exact hl
  · intro hl
    exact ⟨rec, held_of_wellFormed h, h, hl⟩

/-! ## Walking the output -/

/-- A walk that writes down what it is told. -/
def traceWalk (maxDecode : Nat) : Walk (List Signal) where
  onRecord ev s := (none, s ++ [.record ev])
  onError we s := s ++ [.error we]
  maxDecode := maxDecode

theorem deliver_trace (maxDecode : Nat) : ∀ (xs s : List Signal),
    deliver (traceWalk maxDecode) xs s = (none, s ++ xs)
  | [], s => by rw [List.append_nil]; rfl
  | .error we :: xs, s => by
    rw [deliver, deliver_trace maxDecode xs]
    simp [traceWalk]
  | .record ev :: xs, s => by
    show deliver (traceWalk maxDecode) xs (s ++ [.record ev]) = _
    rw [deliver_trace maxDecode xs]
    simp

/-- The container's sections fit under a decode cap. -/
def SectionsFit (bytes : Bytes) (cap : Nat) : Prop :=
  ∀ cont, containerParse bytes = .ok cont → ∀ sec ∈ cont.sections, sec.rawLen.toNat ≤ cap

/-- Any walk of the container under whose cap it fits makes no error call and delivers exactly `n`
records, equal to the given ones over their declared lengths. -/
def WalksAs (env : Nat → CodecEnv) (bytes : Bytes) (n : Nat) (recs : List Record) : Prop :=
  ∃ ds, ds.length = n ∧ List.Forall₂ (fun rec d => Record.held rec = some d) recs ds ∧
    ∀ (σ : Type) (w : Walk σ) (s : σ), SectionsFit bytes w.cap →
      walkMemory env w bytes s = deliver w (groupSignals (importGroups ds)) s

/-- Items whose signals are deliveries parse to what is delivered. -/
theorem itemSignals_inv {si : Nat} {sec : Section} {type : UInt16} {codecId : UInt8} :
    ∀ (ts : List Tlv) (ds : List Record) (pos : WalkPos),
      itemSignals si sec pos ts = (recordEvents type codecId si pos ds).map Signal.record →
        List.Forall₂ (fun t d => recordParse t = .ok d) ts ds
  | [], [], _, _ => .nil
  | [], _ :: _, _, h => by simp [itemSignals, recordEvents] at h
  | t :: ts, ds, pos, h => by
    cases hp : recordParse t with
    | error rc =>
      rw [itemSignals, hp] at h
      cases ds <;> simp [recordEvents] at h
    | ok rec =>
      rw [itemSignals, hp] at h
      cases ds with
      | nil => simp [recordEvents] at h
      | cons d ds =>
        simp only [recordEvents, List.map_cons, List.cons.injEq, Signal.record.injEq,
          WalkEvent.mk.injEq] at h
        obtain ⟨⟨-, -, -, -, -, rfl⟩, htail⟩ := h
        exact .cons hp (itemSignals_inv ts ds _ htail)

/-- The output of an import has one section, that of the handed records. -/
theorem importRows_sections {e : EmitEnv} {a : Arena} {rows : List (Res (Option Record))}
    {bytes : Bytes} {n : Nat} (h : importRows e a rows = .ok (bytes, n)) :
    ∃ recs cont, handed rows = .ok recs ∧ n = recs.length ∧ containerParse bytes = .ok cont ∧
      List.Forall₂ SectionHolds cont.sections ((importGroups recs).map (Group.log e.slack)) := by
  obtain ⟨recs, w, l, hrecs, hn, hr, hclosed, hfin⟩ := importRows_refines h
  obtain ⟨hparse, hholds⟩ := writerFinish_holds hr hfin
  rw [hclosed] at hholds
  exact ⟨recs, _, hrecs, hn, hparse, hholds⟩

theorem importRows_sectionsFit {e : EmitEnv} {a : Arena} {rows : List (Res (Option Record))}
    {bytes : Bytes} {n cap : Nat} {recs : List Record} (h : importRows e a rows = .ok (bytes, n))
    (hrecs : handed rows = .ok recs) :
    SectionsFit bytes cap ↔ (importRaw e.slack recs).length ≤ cap := by
  obtain ⟨recs', cont, hrecs', -, hparse, hholds⟩ := importRows_sections h
  cases hrecs.symm.trans hrecs'
  unfold importGroups at hholds
  split at hholds
  · rename_i hnil
    subst hnil
    rw [List.map_nil, List.forall₂_nil_right_iff] at hholds
    constructor
    · intro _
      exact Nat.zero_le _
    · intro _ cont' hcont' sec hsec
      cases hparse.symm.trans hcont'
      rw [hholds] at hsec
      cases hsec
  · rw [List.map_singleton, List.forall₂_cons_right_iff] at hholds
    obtain ⟨sec, secs, hsec, hsecs, hcons⟩ := hholds
    cases hsecs
    have hraw : sec.rawLen.toNat = (importRaw e.slack recs).length := hsec.rawLen
    constructor
    · intro hfit
      rw [← hraw]
      exact hfit cont hparse sec (by rw [hcons]; simp)
    · intro hle cont' hcont' sec' hsec'
      cases hparse.symm.trans hcont'
      rw [hcons, List.mem_singleton] at hsec'
      rw [hsec', hraw]
      exact hle

/-- What the records hold, all of them parseable, makes the same section. -/
theorem survivors {recs : List Record} (slack : Slack) (h : ∀ rec ∈ recs, rec.Survives) :
    ∃ ds, List.Forall₂ (fun rec d => Record.held rec = some d) recs ds ∧
      (∀ d ∈ ds, d.Parseable) ∧
      recs.map (Record.item slack) = ds.map (Record.item slack) := by
  induction recs with
  | nil => exact ⟨[], .nil, by simp, rfl⟩
  | cons rec recs ih =>
    rw [List.forall_mem_cons] at h
    obtain ⟨d, hheld, hd⟩ := h.1
    obtain ⟨ds, h1, h2, h3⟩ := ih h.2
    refine ⟨d :: ds, .cons hheld h1, List.forall_mem_cons.mpr ⟨hd, h2⟩, ?_⟩
    rw [List.map_cons, List.map_cons, h3, Record.held_item slack hheld]

/-- Decoding a `STORE` section needs nothing from its environment. -/
theorem sectionStream_store (env env' : CodecEnv) (cap : Nat) {sec : Section}
    (h : sec.codecId = CODEC_STORE) : sectionStream env cap sec = sectionStream env' cap sec := by
  have hget : codecGet sec.codecId =
      some ⟨CODEC_STORE, "store", fun _ => storeCopy, fun _ => storeCopy⟩ := by rw [h]; rfl
  rw [sectionStream, sectionStream, hget]

theorem walkSignals_store (env env' : Nat → CodecEnv) (cap : Nat) : ∀ {secs : List Section}
    (si k : Nat), (∀ sec ∈ secs, sec.codecId = CODEC_STORE) →
      walkSignals env cap si k secs = walkSignals env' cap si k secs
  | [], _, _, _ => rfl
  | sec :: secs, si, k, h => by
    rw [List.forall_mem_cons] at h
    have hsec := sectionStream_store (env si) (env' si) cap h.1
    rw [walkSignals, walkSignals, sectionSignals, sectionSignals, sectionAccepted, sectionAccepted,
      hsec, walkSignals_store env env' cap (si + 1) _ h.2]

/-- An imported container is walked alike in any environment. -/
theorem importRows_walkMemory {e : EmitEnv} {a : Arena} {rows : List (Res (Option Record))}
    {bytes : Bytes} {n : Nat} (h : importRows e a rows = .ok (bytes, n)) (env env' : Nat → CodecEnv)
    {σ : Type} (w : Walk σ) (s : σ) : walkMemory env w bytes s = walkMemory env' w bytes s := by
  obtain ⟨recs, cont, -, -, hparse, hholds⟩ := importRows_sections h
  have hstore : ∀ sec ∈ cont.sections, sec.codecId = CODEC_STORE := by
    unfold importGroups at hholds
    split at hholds
    · rw [List.map_nil, List.forall₂_nil_right_iff] at hholds
      simp [hholds]
    · rw [List.map_singleton, List.forall₂_cons_right_iff] at hholds
      obtain ⟨sec, secs, hsec, hsecs, hcons⟩ := hholds
      cases hsecs
      rw [hcons, List.forall_mem_singleton]
      exact hsec.codecId
  rw [walkMemory_eq, walkMemory_eq, hparse]
  dsimp only
  rw [walkSignals_store env env' w.cap 0 0 hstore]

/-- **A walk of the output delivers the imported records if and only if all of them survive.** -/
theorem importRows_walks_iff {e : EmitEnv} {a : Arena} {rows : List (Res (Option Record))}
    {bytes : Bytes} {n : Nat} {recs : List Record} {env : Nat → CodecEnv}
    (h : importRows e a rows = .ok (bytes, n)) (hrecs : handed rows = .ok recs) :
    WalksAs env bytes n recs ↔ ∀ rec ∈ recs, rec.Survives := by
  have hfit := @importRows_sectionsFit e a rows bytes n
  -- an environment in which scratch memory is there
  let env' : Nat → CodecEnv := fun _ => ⟨true, 0⟩
  have henv : ∀ i, (env' i).scratchOk = true := fun _ => rfl
  unfold WalksAs
  simp only [importRows_walkMemory h env env']
  constructor
  · rintro ⟨ds, -, hheld, hwalk⟩
    obtain ⟨recs', cont, hrecs', -, hparse, hholds⟩ := importRows_sections h
    cases hrecs.symm.trans hrecs'
    have hraw := importRows_raw_le h hrecs
    by_cases hnil : recs = []
    · rw [hnil]
      simp
    have hds : ds ≠ [] := by
      rintro rfl
      cases hheld
      exact hnil rfl
    -- the signals of the one section are the deliveries
    have htrace := hwalk _ (traceWalk SECTION_MAX_RAW) [] ((hfit h hrecs).mpr hraw)
    have hmax : (traceWalk SECTION_MAX_RAW).cap = SECTION_MAX_RAW := rfl
    rw [walkMemory_eq, hparse] at htrace
    dsimp only at htrace
    rw [deliver_trace, deliver_trace, List.nil_append, List.nil_append, hmax, Prod.mk.injEq] at htrace
    rw [importGroups, if_neg hnil, List.map_singleton, List.forall₂_cons_right_iff] at hholds
    obtain ⟨sec, secs, hsec, hsecs, hcons⟩ := hholds
    cases hsecs
    have hsignals := htrace.2
    rw [hcons, walkSignals, walkSignals, List.append_nil, sectionSignals,
      hsec.stream (henv 0) hraw, groupSignals, importGroups, if_neg hds] at hsignals
    dsimp only at hsignals
    have hitems : (tlvItems (Group.log e.slack ⟨1, CODEC_STORE, recs⟩).raw).1 =
        recs.map (Record.item e.slack) := by
      rw [hsec.items]
      rfl
    rw [hitems, groupEvents, groupEvents, List.append_nil] at hsignals
    have hparsed := itemSignals_inv _ _ _ hsignals
    rw [List.forall₂_map_left_iff] at hparsed
    intro rec hrec
    obtain ⟨i, hi, rfl⟩ := List.getElem_of_mem hrec
    have hlen := hheld.length_eq
    refine ⟨ds[i], hheld.get hi (hlen ▸ hi), ?_⟩
    exact recordParse_ok (hparsed.get hi (hlen ▸ hi))
  · intro hall
    obtain ⟨ds, hheld, hparse, hitems⟩ := survivors e.slack hall
    obtain ⟨recs', w, l, hrecs', hn, hr, hclosed, hfin⟩ := importRows_refines h
    cases hrecs.symm.trans hrecs'
    have hlen := hheld.length_eq
    refine ⟨ds, by rw [hn, hlen], hheld, ?_⟩
    intro σ wk s hcap
    have hempty : recs = [] ↔ ds = [] := by
      rw [← List.length_eq_zero_iff, hlen, List.length_eq_zero_iff]
    have hlogs : l.closed = (importGroups ds).map (Group.log e.slack) := by
      rw [hclosed]
      unfold importGroups
      by_cases hnil : recs = []
      · rw [if_pos hnil, if_pos (hempty.mp hnil)]
      · rw [if_neg hnil, if_neg (mt hempty.mpr hnil)]
        simp only [List.map_singleton, Group.log, hitems]
    refine walk_groups hr hlogs hfin henv ?_ s
    intro g hg
    unfold importGroups at hg
    split at hg
    · cases hg
    · rw [List.mem_singleton] at hg
      subst hg
      refine ⟨?_, hparse⟩
      have hraw := (hfit h hrecs).mp hcap
      unfold importRaw at hraw
      rw [hitems] at hraw
      exact hraw

/-! ## Rows -/

/-- What the parsers demand of a row beyond what the importer checks: the severity of a `LOG` row, the
interface of a `NET` row, and as many hexadecimal bytes as a `DIAG` row declares. -/
structure RowSafe (row : List Bytes) : Prop where
  log : row[1]?.bind importTag = some REC_LOG → ∀ v, rowU row 2 = .ok v → v ≤ 7
  net : row[1]?.bind importTag = some REC_NET → ∀ v, rowU row 2 = .ok v → v < 250
  diag : row[1]?.bind importTag = some REC_DIAG → ∀ v, rowU row 3 = .ok v →
    v.toNat ≤ (row[5]?.getD []).length / 2

/-- Nothing more is demanded of a row with another tag. -/
theorem rowSafe_of_tag {row : List Bytes} {tag : UInt8} (h : row[1]?.bind importTag = some tag)
    (hother : tag ∉ [REC_LOG, REC_NET, REC_DIAG]) : RowSafe row := by
  refine ⟨?_, ?_, ?_⟩ <;>
    · intro h'
      cases h.symm.trans h'
      simp at hother

/-- What is demanded of a `LOG` row. -/
theorem csvLog_safe {row : List Bytes} {v : UInt32} (htag : row[1]?.bind importTag = some REC_LOG)
    (hv : rowU row 2 = .ok v) : RowSafe row ↔ v ≤ 7 := by
  constructor
  · intro h
    exact h.log htag v hv
  · intro hle
    refine ⟨fun _ v' hv' => ?_, fun h => (by cases htag.symm.trans h),
      fun h => (by cases htag.symm.trans h)⟩
    cases hv.symm.trans hv'
    exact hle

/-- What is demanded of a `NET` row. -/
theorem csvNet_safe {row : List Bytes} {v : UInt32} (htag : row[1]?.bind importTag = some REC_NET)
    (hv : rowU row 2 = .ok v) : RowSafe row ↔ v < 250 := by
  constructor
  · intro h
    exact h.net htag v hv
  · intro hlt
    refine ⟨fun h => (by cases htag.symm.trans h), fun _ v' hv' => ?_,
      fun h => (by cases htag.symm.trans h)⟩
    cases hv.symm.trans hv'
    exact hlt

/-- What is demanded of a `DIAG` row. -/
theorem csvDiag_safe {row : List Bytes} {v : UInt32} (htag : row[1]?.bind importTag = some REC_DIAG)
    (hv : rowU row 3 = .ok v) : RowSafe row ↔ v.toNat ≤ (row[5]?.getD []).length / 2 := by
  constructor
  · intro h
    exact h.diag htag v hv
  · intro hle
    refine ⟨fun h => (by cases htag.symm.trans h), fun h => (by cases htag.symm.trans h),
      fun _ v' hv' => ?_⟩
    cases hv.symm.trans hv'
    exact hle

theorem csvPairs_length : ∀ {n : Nat} {fs : List Bytes} {pairs : List ConfigPair},
    csvPairs n fs = .ok pairs → pairs.length = n
  | 0, _, _, h => by
    cases h
    rfl
  | n + 1, key :: value :: fs, pairs, h => by
    obtain ⟨ps, hps, rfl⟩ := map_eq_ok.mp h
    rw [List.length_cons, csvPairs_length hps]
  | _ + 1, [_], _, h => by cases h
  | _ + 1, [], _, h => by cases h

theorem csvPayload_length {row : List Bytes} {u1 : UInt32} {payload : Bytes}
    (h : csvPayload row u1 = .ok payload) : payload.length = u1.toNat := by
  unfold csvPayload at h
  split at h
  · simp only [Except.bind_eq_ok, failIf_eq_ok, Except.pure_eq_ok, Except.ok.injEq] at h
    obtain ⟨b, -, -, hlen, rfl⟩ := h
    simpa using hlen
  · split at h
    · cases h
    · rename_i h0
      cases h
      rw [not_ne_iff] at h0
      rw [h0]
      rfl

/-- The hexadecimal text of a `DIAG` row has as many bytes as the blob. -/
theorem csvBlob_length {row : List Bytes} {u1 : UInt32} {blob : Bytes}
    (h : csvBlob row u1 = .ok blob) : blob.length = (row[5]?.getD []).length / 2 := by
  unfold csvBlob at h
  split at h
  · rename_i f hf
    rw [orBad_eq_ok] at h
    unfold fieldHex at h
    split at h
    · cases h
    · have hlen := CText.unhex_length h
      unfold rowText? at hf
      obtain ⟨g, hg, hgf⟩ := Option.bind_eq_some_iff.mp hf
      split at hgf
      · cases hgf
        rw [hg, Option.getD_some]
        omega
      · cases hgf
  · rename_i hf
    split at h
    · cases h
    · cases h
      unfold rowText? at hf
      cases hg : row[5]? with
      | none => rfl
      | some g =>
        rw [hg, Option.bind_some] at hf
        split at hf
        · cases hf
        · rename_i h0
          rw [not_ne_iff] at h0
          rw [Option.getD_some, h0]
          rfl

/-! ## Narrowed numbers -/

theorem toUInt8_toNat {v : UInt32} (h : ¬ v > 255) : v.toUInt8.toNat = v.toNat := by
  rw [UInt32.not_lt, UInt32.le_iff_toNat_le] at h
  rw [UInt32.toNat_toUInt8]
  exact Nat.mod_eq_of_lt (Nat.lt_succ_of_le h)

theorem toUInt16_toNat {v : UInt32} (h : ¬ v > 0xFFFF) : v.toUInt16.toNat = v.toNat := by
  rw [UInt32.not_lt, UInt32.le_iff_toNat_le] at h
  rw [UInt32.toNat_toUInt16]
  exact Nat.mod_eq_of_lt (Nat.lt_succ_of_le h)

theorem severity_iff {v : UInt32} (h : ¬ v > 255) : v.toUInt8 ≤ 7 ↔ v ≤ 7 := by
  rw [UInt8.le_iff_toNat_le, UInt32.le_iff_toNat_le, toUInt8_toNat h]
  rfl

theorem ifaceId_iff {v : UInt32} (h : ¬ v > 255) : v.toUInt8 < 250 ↔ v < 250 := by
  rw [UInt8.lt_iff_toNat_lt, UInt32.lt_iff_toNat_lt, toUInt8_toNat h]
  rfl

theorem ofNat_length_u8 {α : Type} {l : List α} (h : l.length ≤ 255) :
    l.length = (UInt8.ofNat l.length).toNat := by
  rw [UInt8.toNat_ofNat']
  omega

theorem ofNat_length_u16 {α : Type} {l : List α} (h : l.length ≤ 0xFFFF) :
    l.length = (UInt16.ofNat l.length).toNat := by
  rw [UInt16.toNat_ofNat']
  omega

/-! ## Records of rows -/

theorem csvSensor_wellFormed {ft : FloatText} {row : List Bytes} {rec : Record}
    (h : csvSensor ft row = .ok rec) : rec.WellFormed ∧ rec.InLimits := by
  obtain ⟨u0, u1, samples, -, -, -, hle, hlen, rfl⟩ := csvSensor_ok h
  rw [UInt32.not_lt, UInt32.le_iff_toNat_le] at hle
  have hu1 : u1.toNat ≤ 4 := hle
  have hle' : samples.length ≤ 255 := by omega
  exact ⟨ofNat_length_u8 hle', trivial⟩

theorem csvEvent_wellFormed {row : List Bytes} {rec : Record} (h : csvEvent row = .ok rec) :
    rec.WellFormed ∧ rec.InLimits := by
  obtain ⟨u0, u1, payload, -, -, -, hle, hpayload, rfl⟩ := csvEvent_ok h
  refine ⟨?_, trivial⟩
  show (if u1 ≠ 0 then payload else []).length = u1.toUInt16.toNat
  rw [toUInt16_toNat hle]
  split
  · exact csvPayload_length hpayload
  · rename_i h0
    rw [not_ne_iff] at h0
    rw [h0]
    rfl

theorem csvKeyref_wellFormed {row : List Bytes} {rec : Record} (h : csvKeyref row = .ok rec) :
    rec.WellFormed ∧ rec.InLimits := by
  obtain ⟨u0, label, -, -, hlabel, rfl⟩ := csvKeyref_ok h
  have hlen : label.length ≤ 255 := by omega
  exact ⟨ofNat_length_u8 hlen, rfl⟩

/-- An encodable `CONFIG` record has strings that the parser takes. -/
theorem config_inLimits {slack : Slack} {n : UInt8} {pairs : List ConfigPair}
    (hw : pairs.length = n.toNat) (henc : (Record.config ⟨n, pairs⟩).Encodable slack) :
    (Record.config ⟨n, pairs⟩).InLimits := by
  have henc' : ∀ p ∈ readN slack.pairs pairs n.toNat, _ := henc
  rw [readN_all _ hw] at henc'
  exact henc'

/-- As many pairs as a `CONFIG` row declares. -/
theorem csvConfig_counts {row : List Bytes} {rec : Record} (h : csvConfig row = .ok rec) :
    ∃ n pairs, rec = .config ⟨n, pairs⟩ ∧ pairs.length = n.toNat := by
  obtain ⟨u0, pairs, -, hle, hpairs, rfl⟩ := csvConfig_ok h
  have hlen := csvPairs_length hpairs
  rw [UInt32.not_lt, UInt32.le_iff_toNat_le] at hle
  have hle' : u0.toNat ≤ 2 := hle
  exact ⟨_, pairs, rfl, ofNat_length_u8 (by omega)⟩

theorem csvConfig_wellFormed {row : List Bytes} {rec : Record} {slack : Slack}
    (h : csvConfig row = .ok rec) (henc : rec.Encodable slack) : rec.WellFormed ∧ rec.InLimits := by
  obtain ⟨n, pairs, rfl, hw⟩ := csvConfig_counts h
  exact ⟨hw, config_inLimits hw henc⟩

theorem csvHeartbeat_wellFormed {row : List Bytes} {rec : Record} (h : csvHeartbeat row = .ok rec) :
    rec.WellFormed ∧ rec.InLimits := by
  obtain ⟨u0, u1, -, -, rfl⟩ := csvHeartbeat_ok h
  exact ⟨trivial, trivial⟩

theorem csvGeo_wellFormed {row : List Bytes} {rec : Record} (h : csvGeo row = .ok rec) :
    rec.WellFormed ∧ rec.InLimits := by
  obtain ⟨s0, s1, s2, -, -, -, rfl⟩ := csvGeo_ok h
  exact ⟨trivial, trivial⟩

theorem csvBattery_wellFormed {row : List Bytes} {rec : Record} (h : csvBattery row = .ok rec) :
    rec.WellFormed ∧ rec.InLimits := by
  obtain ⟨u0, s0, u1, -, -, -, -, -, -, rfl⟩ := csvBattery_ok h
  exact ⟨trivial, trivial⟩

theorem csvFirmware_wellFormed {row : List Bytes} {rec : Record} (h : csvFirmware row = .ok rec) :
    rec.WellFormed ∧ rec.InLimits := by
  obtain ⟨u0, u1, u2, hash, -, -, -, -, -, -, rfl⟩ := csvFirmware_ok h
  exact ⟨trivial, trivial⟩

theorem csvLog_survives {row : List Bytes} {rec : Record} (h : csvLog row = .ok rec) :
    rec.WellFormed ∧ ∃ v, rowU row 2 = .ok v ∧ (rec.Survives ↔ v ≤ 7) := by
  obtain ⟨u0, msg, hu0, hle, hmsg, rfl⟩ := csvLog_ok h
  have hlen : msg.length ≤ 0xFFFF := by omega
  have hw : (Record.log ⟨u0.toUInt8, UInt16.ofNat msg.length, msg⟩).WellFormed := ofNat_length_u16 hlen
  exact ⟨hw, u0, hu0, (Record.survives_iff hw).trans (severity_iff hle)⟩

theorem csvNet_survives {row : List Bytes} {rec : Record} (h : csvNet row = .ok rec) :
    rec.WellFormed ∧ ∃ v, rowU row 2 = .ok v ∧ (rec.Survives ↔ v < 250) := by
  obtain ⟨u0, u1, u2, u3, u4, hu0, -, -, -, -, hle, rfl⟩ := csvNet_ok h
  have hw : (Record.net ⟨u0.toUInt8, u1, u2, u3, u4⟩).WellFormed := trivial
  exact ⟨hw, u0, hu0, (Record.survives_iff hw).trans (ifaceId_iff hle)⟩

/-- A `DIAG` record whose blob may have another size than it declares. -/
theorem diag_survives {subsystem blobLen : UInt16} {blob : Bytes} :
    (Record.diag ⟨subsystem, blobLen, blob, 0⟩).Survives ↔ blobLen.toNat ≤ blob.length := by
  constructor
  · rintro ⟨d, hheld, -⟩
    obtain ⟨b, hb, -⟩ := Option.map_eq_some_iff.mp hheld
    exact (cut_eq_some.mp hb).1
  · intro hfit
    have hcut : cut blob blobLen.toNat = some (blob.take blobLen.toNat) := cut_eq_some.mpr ⟨hfit, rfl⟩
    refine ⟨.diag ⟨subsystem, blobLen, blob.take blobLen.toNat, 0⟩, ?_, ?_, rfl⟩
    · rw [Record.held, hcut]
      rfl
    · exact List.length_take_of_le hfit

theorem csvDiag_survives {row : List Bytes} {rec : Record} (h : csvDiag row = .ok rec) :
    ∃ v, rowU row 3 = .ok v ∧ (rec.Survives ↔ v.toNat ≤ (row[5]?.getD []).length / 2) := by
  obtain ⟨u0, u1, blob, -, hu1, -, hle, hblob, rfl⟩ := csvDiag_ok h
  refine ⟨u1, hu1, ?_⟩
  rw [diag_survives, toUInt16_toNat hle, ← csvBlob_length hblob]
  split
  · rfl
  · rename_i h0
    rw [not_ne_iff] at h0
    rw [h0]
    simp

/-- **Which rows survive.** A row that was imported and whose record the writer can encode survives
if and only if it is safe. -/
theorem csvImportRow_survives {ft : FloatText} {row : List Bytes} {rec : Record} {slack : Slack}
    (h : csvImportRow ft row = .ok rec) (henc : rec.Encodable slack) :
    rec.Survives ↔ RowSafe row := by
  obtain ⟨tag, htag, h⟩ := csvImportRow_case h
  -- a record that survives anyway, from a row of another tag
  have plain : rec.WellFormed ∧ rec.InLimits → tag ∉ [REC_LOG, REC_NET, REC_DIAG] →
      (rec.Survives ↔ RowSafe row) := fun hp hother =>
    iff_of_true ((Record.survives_iff hp.1).mpr hp.2) (rowSafe_of_tag htag hother)
  cases h with
  | heartbeat h => exact plain (csvHeartbeat_wellFormed h) (by decide)
  | geo h => exact plain (csvGeo_wellFormed h) (by decide)
  | battery h => exact plain (csvBattery_wellFormed h) (by decide)
  | net h =>
    obtain ⟨-, v, hv, hiff⟩ := csvNet_survives h
    rw [hiff, csvNet_safe htag hv]
  | firmware h => exact plain (csvFirmware_wellFormed h) (by decide)
  | sensor h => exact plain (csvSensor_wellFormed h) (by decide)
  | event h => exact plain (csvEvent_wellFormed h) (by decide)
  | log h =>
    obtain ⟨-, v, hv, hiff⟩ := csvLog_survives h
    rw [hiff, csvLog_safe htag hv]
  | config h => exact plain (csvConfig_wellFormed h henc) (by decide)
  | keyref h => exact plain (csvKeyref_wellFormed h) (by decide)
  | diag h =>
    obtain ⟨v, hv, hiff⟩ := csvDiag_survives h
    rw [hiff, csvDiag_safe htag hv]

/-! ## Records of objects -/

/-- What the parsers demand of an object beyond what the importer checks: the severity of a `LOG`
object, the interface of a `NET` object, and nothing redacted. -/
structure ObjectSafe (obj : Json) : Prop where
  log : jsonU32 obj "tag" = some REC_LOG.toUInt32 → ∀ v, jsonU32 obj "severity" = some v → v ≤ 7
  net : jsonU32 obj "tag" = some REC_NET.toUInt32 → ∀ v, jsonU32 obj "iface_id" = some v → v < 250
  diag : jsonU32 obj "tag" = some REC_DIAG.toUInt32 → jsonBool obj "redacted" ≠ some true
  keyref : jsonU32 obj "tag" = some REC_KEYREF.toUInt32 → jsonBool obj "redacted" ≠ some true

/-- Nothing more is demanded of an object with another tag. -/
theorem objectSafe_of_tag {obj : Json} {tag : UInt8} (h : jsonU32 obj "tag" = some tag.toUInt32)
    (hother : tag ∉ [REC_LOG, REC_NET, REC_DIAG, REC_KEYREF]) : ObjectSafe obj := by
  refine ⟨?_, ?_, ?_, ?_⟩ <;>
    · intro h'
      cases UInt8.toUInt32_inj.mp (Option.some.inj (h.symm.trans h'))
      simp at hother

/-- What is demanded of a `LOG` object. -/
theorem jsonLog_safe {obj : Json} {v : UInt32} (htag : jsonU32 obj "tag" = some REC_LOG.toUInt32)
    (hv : jsonU32 obj "severity" = some v) : ObjectSafe obj ↔ v ≤ 7 := by
  constructor
  · intro h
    exact h.log htag v hv
  · intro hle
    refine ⟨fun _ v' hv' => ?_, fun h => (by cases htag.symm.trans h),
      fun h => (by cases htag.symm.trans h), fun h => (by cases htag.symm.trans h)⟩
    cases hv.symm.trans hv'
    exact hle

/-- What is demanded of a `NET` object. -/
theorem jsonNet_safe {obj : Json} {v : UInt32} (htag : jsonU32 obj "tag" = some REC_NET.toUInt32)
    (hv : jsonU32 obj "iface_id" = some v) : ObjectSafe obj ↔ v < 250 := by
  constructor
  · intro h
    exact h.net htag v hv
  · intro hlt
    refine ⟨fun h => (by cases htag.symm.trans h), fun _ v' hv' => ?_,
      fun h => (by cases htag.symm.trans h), fun h => (by cases htag.symm.trans h)⟩
    cases hv.symm.trans hv'
    exact hlt

/-- What is demanded of a `DIAG` object. -/
theorem jsonDiag_safe {obj : Json} (htag : jsonU32 obj "tag" = some REC_DIAG.toUInt32) :
    ObjectSafe obj ↔ jsonBool obj "redacted" ≠ some true := by
  constructor
  · intro h
    exact h.diag htag
  · intro hred
    exact ⟨fun h => (by cases htag.symm.trans h), fun h => (by cases htag.symm.trans h),
      fun _ => hred, fun h => (by cases htag.symm.trans h)⟩

/-- What is demanded of a `KEYREF` object. -/
theorem jsonKeyref_safe {obj : Json} (htag : jsonU32 obj "tag" = some REC_KEYREF.toUInt32) :
    ObjectSafe obj ↔ jsonBool obj "redacted" ≠ some true := by
  constructor
  · intro h
    exact h.keyref htag
  · intro hred
    exact ⟨fun h => (by cases htag.symm.trans h), fun h => (by cases htag.symm.trans h),
      fun h => (by cases htag.symm.trans h), fun _ => hred⟩

theorem jsonSamples_length {ft : FloatText} : ∀ {items : List Json} {samples : List UInt32},
    jsonSamples ft items = .ok samples → samples.length = items.length
  | [], _, h => by
    cases h
    rfl
  | .num text :: items, samples, h => by
    rw [jsonSamples, Except.bind_eq_ok] at h
    obtain ⟨v, -, h⟩ := h
    obtain ⟨vs, hvs, rfl⟩ := map_eq_ok.mp h
    rw [List.length_cons, List.length_cons, jsonSamples_length hvs]
  | .null :: _, _, h => by cases h
  | .bool _ :: _, _, h => by cases h
  | .str _ :: _, _, h => by cases h
  | .arr _ :: _, _, h => by cases h
  | .obj _ :: _, _, h => by cases h

theorem jsonPairs_length : ∀ {items : List (CStr × Json)} {pairs : List ConfigPair},
    jsonPairs items = .ok pairs → pairs.length = items.length
  | [], _, h => by
    cases h
    rfl
  | (key, .str value) :: items, pairs, h => by
    obtain ⟨ps, hps, rfl⟩ := map_eq_ok.mp h
    rw [List.length_cons, List.length_cons, jsonPairs_length hps]
  | (_, .null) :: _, _, h => by cases h
  | (_, .bool _) :: _, _, h => by cases h
  | (_, .num _) :: _, _, h => by cases h
  | (_, .arr _) :: _, _, h => by cases h
  | (_, .obj _) :: _, _, h => by cases h

/-- A count byte never exceeds the number it is taken from. -/
theorem take_ofNat_length {α : Type} {l : List α} {n : Nat} (h : l.length = n) :
    (l.take (UInt8.ofNat n).toNat).length = (UInt8.ofNat n).toNat := by
  apply List.length_take_of_le
  rw [h, UInt8.toNat_ofNat']
  exact Nat.mod_le _ _

theorem jsonSensor_wellFormed {ft : FloatText} {obj : Json} {rec : Record}
    (h : jsonSensor ft obj = .ok rec) : rec.WellFormed ∧ rec.InLimits := by
  obtain ⟨u0, items, samples, -, -, -, -, hsamples, rfl⟩ := jsonSensor_ok h
  exact ⟨take_ofNat_length (jsonSamples_length hsamples), trivial⟩

theorem jsonEvent_wellFormed {obj : Json} {rec : Record} (h : jsonEvent obj = .ok rec) :
    rec.WellFormed ∧ rec.InLimits := by
  obtain ⟨u0, payload, -, -, hlen, rfl⟩ := jsonEvent_ok h
  have hle : payload.length ≤ 0xFFFF := by omega
  exact ⟨ofNat_length_u16 hle, trivial⟩

/-- A `CONFIG` object has as many pairs as its count byte says. -/
theorem jsonConfig_counts {obj : Json} {rec : Record} (h : jsonConfig obj = .ok rec) :
    ∃ n pairs, rec = .config ⟨n, pairs⟩ ∧ pairs.length = n.toNat := by
  obtain ⟨items, pairs, -, -, hpairs, rfl⟩ := jsonConfig_ok h
  exact ⟨_, _, rfl, take_ofNat_length (jsonPairs_length hpairs)⟩

theorem jsonConfig_wellFormed {obj : Json} {rec : Record} {slack : Slack}
    (h : jsonConfig obj = .ok rec) (henc : rec.Encodable slack) : rec.WellFormed ∧ rec.InLimits := by
  obtain ⟨n, pairs, rfl, hw⟩ := jsonConfig_counts h
  exact ⟨hw, config_inLimits hw henc⟩

theorem jsonHeartbeat_wellFormed {obj : Json} {rec : Record} (h : jsonHeartbeat obj = .ok rec) :
    rec.WellFormed ∧ rec.InLimits := by
  obtain ⟨u0, u1, -, -, rfl⟩ := jsonHeartbeat_ok h
  exact ⟨trivial, trivial⟩

theorem jsonGeo_wellFormed {obj : Json} {rec : Record} (h : jsonGeo obj = .ok rec) :
    rec.WellFormed ∧ rec.InLimits := by
  obtain ⟨s0, s1, s2, -, -, -, rfl⟩ := jsonGeo_ok h
  exact ⟨trivial, trivial⟩

theorem jsonBattery_wellFormed {obj : Json} {rec : Record} (h : jsonBattery obj = .ok rec) :
    rec.WellFormed ∧ rec.InLimits := by
  obtain ⟨u0, s0, u1, -, -, -, -, -, -, rfl⟩ := jsonBattery_ok h
  exact ⟨trivial, trivial⟩

theorem jsonFirmware_wellFormed {obj : Json} {rec : Record} (h : jsonFirmware obj = .ok rec) :
    rec.WellFormed ∧ rec.InLimits := by
  obtain ⟨ver, mj, mi, pa, hash, -, -, -, -, -, rfl⟩ := jsonFirmware_ok h
  exact ⟨trivial, trivial⟩

theorem jsonLog_survives {obj : Json} {rec : Record} (h : jsonLog obj = .ok rec) :
    rec.WellFormed ∧ ∃ v, jsonU32 obj "severity" = some v ∧ (rec.Survives ↔ v ≤ 7) := by
  obtain ⟨u0, msg, hu0, hle, hmsg, rfl⟩ := jsonLog_ok h
  have hlen : msg.length ≤ 0xFFFF := by omega
  have hw : (Record.log ⟨u0.toUInt8, UInt16.ofNat msg.length, msg⟩).WellFormed := ofNat_length_u16 hlen
  exact ⟨hw, u0, hu0, (Record.survives_iff hw).trans (severity_iff hle)⟩

theorem jsonNet_survives {obj : Json} {rec : Record} (h : jsonNet obj = .ok rec) :
    rec.WellFormed ∧ ∃ v, jsonU32 obj "iface_id" = some v ∧ (rec.Survives ↔ v < 250) := by
  obtain ⟨u0, u1, u2, u3, u4, hu0, -, -, -, -, hle, rfl⟩ := jsonNet_ok h
  have hw : (Record.net ⟨u0.toUInt8, u1, u2, u3, u4⟩).WellFormed := trivial
  exact ⟨hw, u0, hu0, (Record.survives_iff hw).trans (ifaceId_iff hle)⟩

/-- The redaction flag as a byte. -/
theorem redacted_iff (b : Bool) : (if b then (1 : UInt8) else 0) = 0 ↔ some b ≠ some true := by
  cases b <;> simp

theorem jsonDiag_survives {obj : Json} {rec : Record} (h : jsonDiag obj = .ok rec) :
    rec.WellFormed ∧ (rec.Survives ↔ jsonBool obj "redacted" ≠ some true) := by
  obtain ⟨u0, redacted, blob, -, hred, -, hlen, rfl⟩ := jsonDiag_ok h
  have hle : blob.length ≤ 0xFFFF := by omega
  have hw : (Record.diag ⟨u0.toUInt16, UInt16.ofNat blob.length, blob,
      if redacted then 1 else 0⟩).WellFormed := ofNat_length_u16 hle
  rw [hred]
  exact ⟨hw, (Record.survives_iff hw).trans (redacted_iff redacted)⟩

theorem jsonKeyref_survives {obj : Json} {rec : Record} (h : jsonKeyref obj = .ok rec) :
    rec.WellFormed ∧ (rec.Survives ↔ jsonBool obj "redacted" ≠ some true) := by
  obtain ⟨u0, redacted, label, -, hred, -, hlen, rfl⟩ := jsonKeyref_ok h
  have hle : label.length ≤ 0xFF := by omega
  have hw : (Record.keyref ⟨u0.toUInt8, UInt8.ofNat label.length, label,
      if redacted then 1 else 0⟩).WellFormed := ofNat_length_u8 hle
  rw [hred]
  exact ⟨hw, (Record.survives_iff hw).trans (redacted_iff redacted)⟩

/-- The tag number is that of the tag. -/
theorem tag_of_toUInt8 {u : UInt32} {tag : UInt8} (h : ¬ u > 0xFF) (ht : u.toUInt8 = tag) :
    u = tag.toUInt32 := by
  rw [← UInt32.toNat_inj, UInt8.toNat_toUInt32, ← ht, toUInt8_toNat h]

/-- An imported object carries its tag. -/
theorem jimportRecord_case {ft : FloatText} {obj : Json} {rec : Record}
    (h : jimportRecord ft obj = .ok rec) :
    ∃ tag : UInt8, jsonU32 obj "tag" = some tag.toUInt32 ∧ JsonCase ft obj rec tag := by
  simp only [jimportRecord, Except.bind_eq_ok, failIf_eq_ok, orBad_eq_ok] at h
  obtain ⟨u, hu, -, hle, h⟩ := h
  refine ⟨u.toUInt8, ?_, jsonRecord_case h⟩
  rw [← tag_of_toUInt8 hle rfl]
  exact hu

/-- **Which objects survive.** -/
theorem jimportRecord_survives {ft : FloatText} {obj : Json} {rec : Record} {slack : Slack}
    (h : jimportRecord ft obj = .ok rec) (henc : rec.Encodable slack) :
    rec.Survives ↔ ObjectSafe obj := by
  obtain ⟨tag, hu, h⟩ := jimportRecord_case h
  have plain : rec.WellFormed ∧ rec.InLimits → tag ∉ [REC_LOG, REC_NET, REC_DIAG, REC_KEYREF] →
      (rec.Survives ↔ ObjectSafe obj) := fun hp hother =>
    iff_of_true ((Record.survives_iff hp.1).mpr hp.2) (objectSafe_of_tag hu hother)
  cases h with
  | heartbeat h => exact plain (jsonHeartbeat_wellFormed h) (by decide)
  | sensor h => exact plain (jsonSensor_wellFormed h) (by decide)
  | event h => exact plain (jsonEvent_wellFormed h) (by decide)
  | diag h => rw [(jsonDiag_survives h).2, jsonDiag_safe hu]
  | geo h => exact plain (jsonGeo_wellFormed h) (by decide)
  | battery h => exact plain (jsonBattery_wellFormed h) (by decide)
  | net h =>
    obtain ⟨-, v, hv, hiff⟩ := jsonNet_survives h
    rw [hiff, jsonNet_safe hu hv]
  | log h =>
    obtain ⟨-, v, hv, hiff⟩ := jsonLog_survives h
    rw [hiff, jsonLog_safe hu hv]
  | config h => exact plain (jsonConfig_wellFormed h henc) (by decide)
  | keyref h => rw [(jsonKeyref_survives h).2, jsonKeyref_safe hu]
  | firmware h => exact plain (jsonFirmware_wellFormed h) (by decide)

/-! ## The importers -/

/-- The records of an import could all be encoded. -/
theorem emitRecords_encodable {e : EmitEnv} : ∀ {recs : List Record} {w w' : Writer},
    emitRecords e recs w = .ok w' → ∀ rec ∈ recs, rec.Encodable e.slack
  | [], _, _, _ => by simp
  | rec :: recs, w, w', h => by
    rw [emitRecords, Except.bind_eq_ok] at h
    obtain ⟨w₁, h1, h2⟩ := h
    exact List.forall_mem_cons.mpr
      ⟨writerAddRecord_encodable (checked_eq_ok.mp h1).1, emitRecords_encodable h2⟩

theorem importRows_encodable {e : EmitEnv} {a : Arena} {rows : List (Res (Option Record))}
    {out : Bytes × Nat} {recs : List Record} (h : importRows e a rows = .ok out)
    (hrecs : handed rows = .ok recs) : ∀ rec ∈ recs, rec.Encodable e.slack := by
  obtain ⟨bytes, n⟩ := out
  obtain ⟨recs', w, hrecs', -, hemit, -⟩ := importRows_eq_ok.mp h
  cases hrecs.symm.trans hrecs'
  unfold importGroups at hemit
  split at hemit
  · rename_i hnil
    rw [hnil]
    simp
  · rw [List.foldlM_cons, Except.bind_eq_ok] at hemit
    obtain ⟨w₁, hgroup, -⟩ := hemit
    simp only [emitGroup, Except.bind_eq_ok] at hgroup
    obtain ⟨w₂, -, w₃, hrecords, -⟩ := hgroup
    exact emitRecords_encodable hrecords

/-- Rows that all succeed hand over the records they stand for. -/
theorem handed_eq_ok : ∀ {rows : List (Res (Option Record))} {recs : List Record},
    handed rows = .ok recs →
      (∀ row ∈ rows, ∃ o, row = .ok o) ∧ ∀ rec, rec ∈ recs ↔ .ok (some rec) ∈ rows
  | [], _, h => by
    cases h
    simp
  | .error rc :: _, _, h => by cases h
  | .ok none :: rows, recs, h => by
    have h' : handed rows = .ok recs := h
    obtain ⟨h1, h2⟩ := handed_eq_ok h'
    exact ⟨List.forall_mem_cons.mpr ⟨⟨none, rfl⟩, h1⟩, fun rec => by simp [h2]⟩
  | .ok (some rec) :: rows, recs, h => by
    obtain ⟨recs', hrecs', rfl⟩ := map_eq_ok.mp h
    obtain ⟨h1, h2⟩ := handed_eq_ok hrecs'
    exact ⟨List.forall_mem_cons.mpr ⟨⟨some rec, rfl⟩, h1⟩, fun rec' => by simp [h2]⟩

/-- The tokenized rows of a text. -/
def csvLines (data : Bytes) : List (List Bytes) :=
  (csvTexts 0 data).filterMap fun t => t.toOption.join

/-- The objects of a text. -/
def jsonObjects (data : Bytes) : List Json := (jsonRoot data).getD []

theorem mem_csvLines {data : Bytes} {row : List Bytes} :
    row ∈ csvLines data ↔ .ok (some row) ∈ csvTexts 0 data := by
  rw [csvLines, List.mem_filterMap]
  constructor
  · rintro ⟨t, ht, hrow⟩
    rcases t with rc | _ | row'
    · cases hrow
    · cases hrow
    · cases hrow
      exact ht
  · intro h
    exact ⟨_, h, rfl⟩

/-- The imported records of a CSV text survive when its rows are safe. -/
theorem csvRows_survive {e : EmitEnv} {a : Arena} {ft : FloatText} {data : Bytes} {out : Bytes × Nat}
    {recs : List Record} (h : importCsvMemory e a ft data = .ok out)
    (hrecs : handed (csvRows ft data) = .ok recs) :
    (∀ rec ∈ recs, rec.Survives) ↔ ∀ row ∈ csvLines data, RowSafe row := by
  have henc := importRows_encodable h hrecs
  obtain ⟨hok, hmem⟩ := handed_eq_ok hrecs
  constructor
  · intro hall row hrow
    have hconv : csvConvert ft (.ok (some row)) ∈ csvRows ft data :=
      List.mem_map_of_mem (mem_csvLines.mp hrow)
    obtain ⟨o, ho⟩ := hok _ hconv
    obtain ⟨rec, hrec, rfl⟩ := map_eq_ok.mp ho
    rw [ho, ← hmem] at hconv
    exact (csvImportRow_survives hrec (henc rec hconv)).mp (hall rec hconv)
  · intro hall rec hrec
    obtain ⟨t, ht, hconv⟩ := List.mem_map.mp ((hmem rec).mp hrec)
    rcases t with rc | _ | row
    · cases hconv
    · cases hconv
    · obtain ⟨rec', hrec', heq⟩ := map_eq_ok.mp hconv
      cases heq
      exact (csvImportRow_survives hrec' (henc rec hrec)).mpr (hall row (mem_csvLines.mpr ht))

/-- The imported records of a JSON text survive when its objects are safe. -/
theorem jsonRows_survive {e : EmitEnv} {a : Arena} {ft : FloatText} {data : Bytes}
    {out : Bytes × Nat} {recs : List Record} (h : importJsonMemory e a ft data = .ok out)
    (hrecs : handed (jsonRows ft data) = .ok recs) :
    (∀ rec ∈ recs, rec.Survives) ↔ ∀ obj ∈ jsonObjects data, ObjectSafe obj := by
  have henc := importRows_encodable h hrecs
  obtain ⟨hok, hmem⟩ := handed_eq_ok hrecs
  unfold jsonObjects
  unfold jsonRows at hok hmem
  cases hroot : jsonRoot data with
  | none =>
    rw [hroot] at hok
    obtain ⟨o, ho⟩ := hok (.error .badRecord) (by simp)
    cases ho
  | some items =>
    rw [hroot] at hok hmem
    rw [Option.getD_some]
    constructor
    · intro hall obj hobj
      have hconv := List.mem_map_of_mem (f := fun item => some <$> jimportRecord ft item) hobj
      obtain ⟨o, ho⟩ := hok _ hconv
      obtain ⟨rec, hrec, rfl⟩ := map_eq_ok.mp ho
      rw [ho, ← hmem] at hconv
      exact (jimportRecord_survives hrec (henc rec hconv)).mp (hall rec hconv)
    · intro hall rec hrec
      obtain ⟨obj, hobj, hconv⟩ := List.mem_map.mp ((hmem rec).mp hrec)
      obtain ⟨rec', hrec', heq⟩ := map_eq_ok.mp hconv
      cases heq
      exact (jimportRecord_survives hrec' (henc rec hrec)).mpr (hall obj hobj)

/-- The count of a walk that delivers one record is one. -/
theorem WalksAs.length {env : Nat → CodecEnv} {bytes : Bytes} {n : Nat} {recs : List Record}
    (h : WalksAs env bytes n recs) : n = recs.length := by
  obtain ⟨ds, hn, hheld, -⟩ := h
  rw [← hn, hheld.length_eq]

/-- The container that a `LOG` row of severity 9 is imported as. -/
def severityNine : Bytes :=
  [68, 84, 76, 1, 1, 0, 1, 0, 89, 107, 50, 251, 1, 0, 0, 0, 7, 0, 0, 0, 7, 0, 0, 0, 0, 0, 0, 0,
    23, 4, 0, 9, 1, 0, 120]

end Dtl
