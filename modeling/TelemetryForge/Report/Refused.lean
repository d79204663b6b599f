import TelemetryForge.Lib.Mask
import TelemetryForge.Records.Refused
import TelemetryForge.Report.Reemit

/-!
# Walking with whatever memory there is

A walk asks for a buffer for the file, for the section table, for the decoded bytes of each section, and
its decoders, its record parsers and its callback ask for more.  `ReadMem` says which of these requests
are granted.  A refusal of the first three kinds, or of the callback's, ends the walk with
`DTL_ERR_OOM`; a decoder or a parser that is refused memory is reported like damaged input, and the walk
goes on without the section or the record.

Principal results: `walkSectionsIn_retains` — a tool's walk over the sections is ended by a refusal, or
retains what the sections deliver; `walkItemsIn_mask` — that is what the plain walk delivers but for the
records that `ReadMem.survives` leaves out; `survives_plenty` — which are none when nothing is refused.
-/

set_option autoImplicit false

namespace Dtl

open Faults

/-- Which requests of a walk are granted: those of its own, of the decoder of each section, and of the
parser of each item of a section. -/
structure ReadMem where
  file : Bool
  table : Bool
  stream : Nat → Bool
  codec : Nat → CodecEnv
  parse : Nat → Nat → Grants

/-- Nothing is refused. -/
structure ReadMem.Plenty (mem : ReadMem) : Prop where
  file : mem.file = true
  table : mem.table = true
  stream : ∀ i, mem.stream i = true
  codec : ∀ i, (mem.codec i).scratchOk = true
  parse : ∀ i j k, mem.parse i j k = true

/-- The codec environment with the decoder's own memory granted. -/
def CodecEnv.relieved (env : CodecEnv) : CodecEnv := { env with scratchOk := true }

/-! ## The container -/

/-- `dtl_container_parse`, which asks for the table when there are sections. -/
def containerParseIn (granted : Bool) (data : Bytes) : Res Container := do
  let (magic, b) ← bufReadU32 data
  failIf (magic ≠ MAGIC) .badMagic
  let (version, b) ← bufReadU8 b
  failIf (version ≠ VERSION) .badVersion
  let (flags, b) ← bufReadU8 b
  failIf (flags &&& ~~~FLAGS_KNOWN ≠ 0) .badHeader
  let (sectionCount, b) ← bufReadU16 b
  let (storedCrc, b) ← bufReadU32 b
  failIf (crc32 (data.take HEADER_CRC_SPAN) ≠ storedCrc) .badHeader
  failIf (sectionCount ≠ 0 ∧ granted = false) .oom
  let (table, rest) ← containerReadTable sectionCount b
  let (blobLen, hmac) ← containerLocate flags rest
  let sections ← containerResolveBlobs SIZE_MAX table rest blobLen
  return ⟨version, flags, sectionCount, sections, hmac⟩

theorem containerParseIn_degrades (granted : Bool) (data : Bytes) :
    Degrades .oom (containerParseIn granted data) (containerParse data) := by
  unfold containerParseIn containerParse containerParseSz
  iterate 9 refine (Degrades.refl _).bind fun _ => ?_
  exact degrades_request (.refl _)

theorem containerParseIn_granted (data : Bytes) : containerParseIn true data = containerParse data := by
  simp only [containerParseIn, containerParse, containerParseSz, Bool.true_eq_false, and_false,
    failIf_neg not_false, Except.bind_ok_eq]

theorem containerParseIn_cases (granted : Bool) (data : Bytes) :
    (containerParseIn granted data = .error .oom ∧ granted = false) ∨
      containerParseIn granted data = containerParse data := by
  cases granted with
  | true => exact Or.inr (containerParseIn_granted data)
  | false => exact (containerParseIn_degrades false data).imp (fun h => ⟨h, rfl⟩) id

/-! ## The walk -/

/-- The record loop of a section. -/
def walkStreamIn {σ : Type} (g : Nat → Grants) (w : Walk σ) (si : Nat) (sec : Section) (stream : Bytes)
    (pos : WalkPos) (s : σ) : Option Err × WalkPos × σ :=
  match _h : tlvNext stream with
  | .error rc =>
    if rc ≠ .truncated then (none, pos, w.onError ⟨si, pos.recordInSec, rc, true⟩ s)
    else (none, pos, s)
  | .ok (tlv, stream') =>
    match recordParseIn (g pos.recordInSec) tlv with
    | .error rc =>
      walkStreamIn g w si sec stream' ⟨pos.recordInSec + 1, pos.recordIndex⟩
        (w.onError ⟨si, pos.recordInSec, rc, false⟩ s)
    | .ok rec =>
      match w.onRecord ⟨sec.type, sec.codecId, si, pos.recordInSec, pos.recordIndex, rec⟩ s with
      | (some rc, s) => (some rc, pos, s)
      | (none, s) =>
        walkStreamIn g w si sec stream' ⟨pos.recordInSec + 1, pos.recordIndex + 1⟩ s
termination_by stream.length
decreasing_by all_goals exact tlvNext_consumes _ _ _ _h

/-- The section gets as far as asking for its decoded bytes. -/
def streamAsked (cap : Nat) (sec : Section) : Bool :=
  (codecGet sec.codecId).isSome && !decide (sec.rawLen.toNat > cap)

/-- The section loop. -/
def walkSectionsIn {σ : Type} (mem : ReadMem) (w : Walk σ) :
    Nat → Nat → List Section → σ → Option Err × σ
  | _, _, [], s => (none, s)
  | si, recordIndex, sec :: secs, s =>
    if streamAsked w.cap sec && !mem.stream si then (some .oom, s)
    else
      match sectionStream (mem.codec si) w.cap sec with
      | .error rc => walkSectionsIn mem w (si + 1) recordIndex secs (w.onError ⟨si, 0, rc, true⟩ s)
      | .ok raw =>
        match walkStreamIn (mem.parse si) w si sec raw ⟨0, recordIndex⟩ s with
        | (some rc, _, s) => (some rc, s)
        | (none, pos, s) => walkSectionsIn mem w (si + 1) pos.recordIndex secs s

/-- `dtl_walk_memory`. -/
def walkMemoryIn {σ : Type} (mem : ReadMem) (w : Walk σ) (data : Bytes) (s : σ) : Option Err × σ :=
  match containerParseIn mem.table data with
  | .error rc => (some rc, s)
  | .ok cont => walkSectionsIn mem w 0 0 cont.sections s

/-- `dtl_walk_absorb` on a file that can be read. -/
def walkAbsorbIn {σ : Type} (mem : ReadMem) (w : Walk σ) (maxFile : Nat) (file : Bytes) (s : σ) :
    Option Err × σ :=
  if file.length > maxFile then (some .range, s)
  else if mem.file = false then (some .oom, s)
  else walkMemoryIn mem w file s

section Unfold

variable {σ : Type} {g : Nat → Grants} {w : Walk σ} {si : Nat} {sec : Section} {stream : Bytes}
  {pos : WalkPos} {s : σ}

theorem walkStreamIn_end {rc : Err} (h : tlvNext stream = .error rc) :
    walkStreamIn g w si sec stream pos s = (none, pos, s) := by
  cases tlvNext_error h
  rw [walkStreamIn]
  split
  · rename_i rc h'
    cases h.symm.trans h'
    rfl
  · rename_i h'
    cases h.symm.trans h'

theorem walkStreamIn_item {tlv : Tlv} {stream' : Bytes} (h : tlvNext stream = .ok (tlv, stream')) :
    walkStreamIn g w si sec stream pos s =
      match recordParseIn (g pos.recordInSec) tlv with
      | .error rc =>
        walkStreamIn g w si sec stream' ⟨pos.recordInSec + 1, pos.recordIndex⟩
          (w.onError ⟨si, pos.recordInSec, rc, false⟩ s)
      | .ok rec =>
        match w.onRecord ⟨sec.type, sec.codecId, si, pos.recordInSec, pos.recordIndex, rec⟩ s with
        | (some rc, s) => (some rc, pos, s)
        | (none, s) =>
          walkStreamIn g w si sec stream' ⟨pos.recordInSec + 1, pos.recordIndex + 1⟩ s := by
  rw [walkStreamIn]
  split
  · rename_i h'
    cases h.symm.trans h'
  · rename_i tlv' stream'' h'
    cases h.symm.trans h'
    rfl

end Unfold

/-! ## A tool's callback -/

/-- A tool's context: the items retained, and the capacity of their array. -/
structure Retained where
  items : List EmitItem
  cap : Nat

/-- The tools' `on_record`, which doubles a full array; `grow` says which capacities are granted. -/
def retainWalkIn (wanted : Record → Bool) (grow : Nat → Bool) : Walk Retained where
  onRecord ev ctx :=
    if wanted ev.record = false then (none, ctx)
    else if ctx.items.length = ctx.cap then
      let newCap := if ctx.cap ≠ 0 then ctx.cap * 2 else 64
      if grow newCap then (none, ⟨ctx.items ++ [.ofEvent ev], newCap⟩) else (some .oom, ctx)
    else (none, ⟨ctx.items ++ [.ofEvent ev], ctx.cap⟩)
  onError _ ctx := ctx
  maxDecode := 0

/-- The items a tool retains, or the code its walk returns. -/
def retainIn (mem : ReadMem) (grow : Nat → Bool) (wanted : Record → Bool) (maxFile : Nat)
    (file : Bytes) : Res (List EmitItem) :=
  match walkAbsorbIn mem (retainWalkIn wanted grow) maxFile file ⟨[], 0⟩ with
  | (some rc, _) => .error rc
  | (none, ctx) => .ok ctx.items

/-! ## What is retained -/

/-- The records of the items whose parsers got their buffers; the first item has number `j`. -/
def parsedRecordsIn (g : Nat → Grants) : Nat → List Tlv → List Record
  | _, [] => []
  | j, t :: ts => (recordParseIn (g j) t).toOption.toList ++ parsedRecordsIn g (j + 1) ts

/-- The records that a section delivers. -/
def sectionRecordsIn (env : CodecEnv) (g : Nat → Grants) (cap : Nat) (sec : Section) : List Record :=
  match sectionStream env cap sec with
  | .error _ => []
  | .ok raw => parsedRecordsIn g 0 (tlvItems raw).1

/-- The records that the sections deliver, the first of them with number `k`. -/
def walkItemsIn (mem : ReadMem) (cap k : Nat) (secs : List Section) : List EmitItem :=
  (secs.zipIdx k).flatMap fun (sec, i) =>
    (sectionRecordsIn (mem.codec i) (mem.parse i) cap sec).map fun rec =>
      ⟨i, sec.type, sec.codecId, rec⟩

theorem walkItemsIn_cons (mem : ReadMem) (cap k : Nat) (sec : Section) (secs : List Section) :
    walkItemsIn mem cap k (sec :: secs) =
      ((sectionRecordsIn (mem.codec k) (mem.parse k) cap sec).map
        fun rec => ⟨k, sec.type, sec.codecId, rec⟩) ++ walkItemsIn mem cap (k + 1) secs := rfl

section Retain

variable {wanted : Record → Bool} {grow : Nat → Bool}

/-- The walk was ended by a refusal, or it ended with these items. -/
def Retains (refused : Prop) (rc : Option Err) (ctx : Retained) (items : List EmitItem) : Prop :=
  rc = some .oom ∧ refused ∨ rc = none ∧ ctx.items = items

/-- The callback keeps a wanted record, or ends the walk. -/
theorem retainWalkIn_retains (ev : WalkEvent) (ctx : Retained) :
    Retains (∃ n, grow n = false) ((retainWalkIn wanted grow).onRecord ev ctx).1
      ((retainWalkIn wanted grow).onRecord ev ctx).2
      (ctx.items ++ [EmitItem.ofEvent ev].filter fun it => wanted it.record) := by
  have hrec : (EmitItem.ofEvent ev).record = ev.record := rfl
  unfold retainWalkIn
  dsimp only
  split
  · rename_i hw
    exact Or.inr ⟨rfl, by simp [hrec, hw]⟩
  rename_i hw
  have hw : wanted ev.record = true := by simpa using hw
  split
  · generalize (if ctx.cap ≠ 0 then ctx.cap * 2 else 64) = newCap
    cases hgrow : grow newCap with
    | true => exact Or.inr ⟨rfl, by simp [hrec, hw]⟩
    | false => exact Or.inl ⟨rfl, newCap, hgrow⟩
  · exact Or.inr ⟨rfl, by simp [hrec, hw]⟩

/-- **The record loop retains what was parsed**, or ends the walk. -/
theorem walkStreamIn_retains (g : Nat → Grants) (si : Nat) (sec : Section) (stream : Bytes)
    (pos : WalkPos) (ctx : Retained) :
    let r := walkStreamIn g (retainWalkIn wanted grow) si sec stream pos ctx
    Retains (∃ n, grow n = false) r.1 r.2.2 (ctx.items ++ ((parsedRecordsIn g pos.recordInSec (tlvItems stream).1).map
      fun rec => EmitItem.mk si sec.type sec.codecId rec).filter fun it => wanted it.record) := by
  induction hn : stream.length using Nat.strongRecOn generalizing stream pos ctx with
  | ind n ih =>
    cases hnext : tlvNext stream with
    | error rc =>
      rw [walkStreamIn_end hnext, tlvItems_of_error hnext]
      exact Or.inr ⟨rfl, by simp [parsedRecordsIn]⟩
    | ok p =>
      obtain ⟨tlv, stream'⟩ := p
      have hlt : stream'.length < n := hn ▸ tlvNext_consumes _ _ _ hnext
      rw [walkStreamIn_item hnext, tlvItems_of_ok hnext, parsedRecordsIn]
      cases recordParseIn (g pos.recordInSec) tlv with
      | error rc => exact ih _ hlt stream' ⟨pos.recordInSec + 1, pos.recordIndex⟩ ctx rfl
      | ok rec =>
        dsimp only
        have hcb := @retainWalkIn_retains wanted grow
          ⟨sec.type, sec.codecId, si, pos.recordInSec, pos.recordIndex, rec⟩ ctx
        cases hstep : (retainWalkIn wanted grow).onRecord
            ⟨sec.type, sec.codecId, si, pos.recordInSec, pos.recordIndex, rec⟩ ctx with
        | mk rc ctx' =>
          rw [hstep] at hcb
          rcases hcb with ⟨rfl, hgrow⟩ | ⟨rfl, hitems⟩
          · exact Or.inl ⟨rfl, hgrow⟩
          · have hrest := ih _ hlt stream' ⟨pos.recordInSec + 1, pos.recordIndex + 1⟩ ctx' rfl
            dsimp only at hitems hrest ⊢
            rw [hitems, List.append_assoc, ← List.filter_append] at hrest
            exact hrest

/-- **The section loop retains what the sections deliver**, or ends the walk. -/
theorem walkSectionsIn_retains (mem : ReadMem) : ∀ (secs : List Section) (si recordIndex : Nat)
    (ctx : Retained),
    let r := walkSectionsIn mem (retainWalkIn wanted grow) si recordIndex secs ctx
    Retains ((∃ i, mem.stream i = false) ∨ ∃ n, grow n = false) r.1 r.2 (ctx.items ++
      (walkItemsIn mem WALK_DEFAULT_MAX_DECODE si secs).filter fun it => wanted it.record)
  | [], _, _, ctx => Or.inr ⟨rfl, by simp [walkItemsIn, walkSectionsIn]⟩
  | sec :: secs, si, recordIndex, ctx => by
    have hcap : (retainWalkIn wanted grow).cap = WALK_DEFAULT_MAX_DECODE := rfl
    dsimp only
    rw [walkSectionsIn, hcap, walkItemsIn_cons, sectionRecordsIn]
    split
    · rename_i hrefused
      simp only [Bool.and_eq_true, Bool.not_eq_true'] at hrefused
      exact Or.inl ⟨rfl, Or.inl ⟨si, hrefused.2⟩⟩
    cases sectionStream (mem.codec si) WALK_DEFAULT_MAX_DECODE sec with
    | error rc => exact walkSectionsIn_retains mem secs (si + 1) recordIndex ctx
    | ok raw =>
      have hloop := @walkStreamIn_retains wanted grow (mem.parse si) si sec raw ⟨0, recordIndex⟩ ctx
      dsimp only at hloop ⊢
      cases hr : walkStreamIn (mem.parse si) (retainWalkIn wanted grow) si sec raw ⟨0, recordIndex⟩
          ctx with
      | mk rc p =>
        obtain ⟨pos, ctx'⟩ := p
        rw [hr] at hloop
        rcases hloop with ⟨rfl, hgrow⟩ | ⟨rfl, hitems⟩
        · exact Or.inl ⟨rfl, Or.inr hgrow⟩
        · have hrest := walkSectionsIn_retains mem secs (si + 1) pos.recordIndex ctx'
          dsimp only at hitems hrest ⊢
          rw [hitems, List.append_assoc, ← List.filter_append] at hrest
          exact hrest

end Retain

/-! ## What is left out -/

theorem decode_degrades {codec : Codec} (h : codec ∈ codecTable) (env : CodecEnv) (blob : Bytes)
    (cap : Nat) : Degrades .oom (codec.decode env blob cap) (codec.decode env.relieved blob cap) := by
  simp only [codecTable, List.mem_cons, List.not_mem_nil, or_false] at h
  rcases h with rfl | rfl | rfl | rfl | rfl | rfl | rfl
  case inr.inr.inr.inr.inl =>
    -- only the dictionary decoder asks for memory of its own
    refine (Degrades.refl (bufReadU16 blob)).bind fun p => degrades_request ?_
    have hgranted : ¬ (p.1 ≠ 0 ∧ env.relieved.scratchOk = false) := by simp [CodecEnv.relieved]
    show Degrades .oom _ (failIf (p.1 ≠ 0 ∧ env.relieved.scratchOk = false) .oom >>= _)
    rw [failIf_neg hgranted]
    exact .refl _
  all_goals exact .refl _

theorem sectionStream_degrades (env : CodecEnv) (cap : Nat) (sec : Section) :
    Degrades .oom (sectionStream env cap sec) (sectionStream env.relieved cap sec) := by
  unfold sectionStream
  cases hget : codecGet sec.codecId with
  | none => exact .refl _
  | some codec =>
    exact Degrades.ite (.refl _) (decode_degrades (List.mem_of_find?_eq_some hget) env _ _)

/-- Which of the records in the items are parsed; the first item has number `j`. -/
def parseMask (g : Nat → Grants) : Nat → List Tlv → List Bool
  | _, [] => []
  | j, t :: ts =>
    ((recordParse t).toOption.map fun _ => (recordParseIn (g j) t).toOption.isSome).toList ++
      parseMask g (j + 1) ts

theorem parsedRecords_cons (t : Tlv) (ts : List Tlv) :
    parsedRecords (t :: ts) = (recordParse t).toOption.toList ++ parsedRecords ts := by
  rw [parsedRecords, List.filterMap_cons]
  cases (recordParse t).toOption <;> rfl

theorem parseMask_length (g : Nat → Grants) : ∀ (j : Nat) (ts : List Tlv),
    (parseMask g j ts).length = (parsedRecords ts).length
  | _, [] => rfl
  | j, t :: ts => by
    rw [parseMask, parsedRecords_cons, List.length_append, List.length_append, parseMask_length g]
    cases recordParse t <;> rfl

theorem parsedRecordsIn_mask (g : Nat → Grants) : ∀ (j : Nat) (ts : List Tlv),
    parsedRecordsIn g j ts = Mask.sel (parseMask g j ts) (parsedRecords ts)
  | _, [] => rfl
  | j, t :: ts => by
    rw [parsedRecordsIn, parseMask, parsedRecords_cons, parsedRecordsIn_mask g]
    rcases recordParseIn_degrades (g j) t with hlow | hlow
    · rw [hlow]
      cases recordParse t <;> rfl
    · rw [hlow]
      cases recordParse t <;> rfl

/-- Which of the records of a section are delivered. -/
def sectionMask (env : CodecEnv) (g : Nat → Grants) (cap : Nat) (sec : Section) : List Bool :=
  match sectionStream env cap sec with
  | .error _ => List.replicate (sectionRecords env.relieved cap sec).length false
  | .ok raw => parseMask g 0 (tlvItems raw).1

theorem sectionMask_length (env : CodecEnv) (g : Nat → Grants) (cap : Nat) (sec : Section) :
    (sectionMask env g cap sec).length = (sectionRecords env.relieved cap sec).length := by
  unfold sectionMask
  cases hs : sectionStream env cap sec with
  | error rc => exact List.length_replicate
  | ok raw =>
    rw [sectionRecords, (sectionStream_degrades env cap sec).value hs]
    exact parseMask_length g 0 _

theorem sectionRecordsIn_mask (env : CodecEnv) (g : Nat → Grants) (cap : Nat) (sec : Section) :
    sectionRecordsIn env g cap sec =
      Mask.sel (sectionMask env g cap sec) (sectionRecords env.relieved cap sec) := by
  unfold sectionRecordsIn sectionMask
  cases hs : sectionStream env cap sec with
  | error rc => exact (Mask.sel_replicate_false _ _).symm
  | ok raw =>
    rw [sectionRecords, (sectionStream_degrades env cap sec).value hs]
    exact parsedRecordsIn_mask g 0 _

/-- Which of the records in the sections the walk gets to, the first section having number `k`. -/
def ReadMem.survives (mem : ReadMem) (cap k : Nat) (secs : List Section) : List Bool :=
  (secs.zipIdx k).flatMap fun (sec, i) => sectionMask (mem.codec i) (mem.parse i) cap sec

theorem ReadMem.survives_cons (mem : ReadMem) (cap k : Nat) (sec : Section) (secs : List Section) :
    mem.survives cap k (sec :: secs) =
      sectionMask (mem.codec k) (mem.parse k) cap sec ++ mem.survives cap (k + 1) secs := rfl

/-- The codec environments of the walk, with the decoders' own memory granted. -/
def ReadMem.relieved (mem : ReadMem) (i : Nat) : CodecEnv := (mem.codec i).relieved

/-- **Refusals leave out the records that the mask does not take.** -/
theorem walkItemsIn_mask (mem : ReadMem) (cap : Nat) : ∀ (secs : List Section) (k : Nat),
    walkItemsIn mem cap k secs =
      Mask.sel (mem.survives cap k secs) (walkItems mem.relieved cap k secs)
  | [], _ => rfl
  | sec :: secs, k => by
    rw [walkItemsIn_cons, walkItems_cons, mem.survives_cons, Mask.sel_append_append, Mask.sel_map, walkItemsIn_mask mem cap secs,
      sectionRecordsIn_mask]
    · rfl
    · rw [sectionMask_length, List.length_map]
      rfl

/-! ## Sections that hold a log -/

/-- Without a table the only stream of tokens is the empty one. -/
theorem dictDecodeTokens_empty {cap : Nat} : ∀ {b raw : Bytes},
    dictDecodeTokens cap [] b [] = .ok raw → raw = []
  | [], _, h => (Except.ok.inj h).symm
  | [_], _, h => by cases h
  | _ :: _ :: _, _, h => by simp [dictDecodeTokens, failIf] at h

/-- A dictionary blob that decodes to something is not decoded without memory. -/
theorem dictDecode_refused {blob raw : Bytes} {cap : Nat} (h : dictDecode true blob cap = .ok raw)
    (hne : raw ≠ []) : dictDecode false blob cap = .error .oom := by
  simp only [dictDecode, Except.bind_eq_ok] at h
  obtain ⟨⟨n, b⟩, hread, -, -, ⟨entries, b'⟩, hentries, htokens⟩ := h
  have hn : n ≠ 0 := by
    rintro rfl
    cases hentries
    exact hne (dictDecodeTokens_empty htokens)
  rw [dictDecode, hread, Except.bind_ok_eq]
  dsimp only
  rw [failIf_pos ⟨hn, rfl⟩]
  rfl

/-- **A section that was written is decoded, or it is a dictionary section whose decoder was refused
memory.** -/
theorem SectionHolds.stream_in {sec : Section} {l : SectionLog} {cap : Nat} (h : SectionHolds sec l)
    (env : CodecEnv) (hne : l.raw ≠ []) (hcap : l.raw.length ≤ cap) : sectionStream env cap sec =
      if sec.codecId = CODEC_DICT ∧ env.scratchOk = false then .error .oom else .ok l.raw := by
  cases hs : env.scratchOk with
  | true => rw [if_neg (by simp), h.stream hs hcap]
  | false =>
    obtain ⟨codec, hget, hdec⟩ := h.decodes
    have hid := codecGet_id hget
    have hplenty := hdec env.relieved rfl
    rw [sectionStream, hget]
    dsimp only
    rw [if_neg (by rw [h.rawLen]; omega), ← hid]
    have htable := List.mem_of_find?_eq_some hget
    simp only [codecTable, List.mem_cons, List.not_mem_nil, or_false] at htable
    rcases htable with rfl | rfl | rfl | rfl | rfl | rfl | rfl
    case inr.inr.inr.inr.inl =>
      rw [if_pos ⟨rfl, rfl⟩]
      show dictDecode env.scratchOk sec.blob sec.rawLen.toNat = .error .oom
      rw [hs]
      exact dictDecode_refused hplenty hne
    all_goals
      rw [if_neg (by simp [CODEC_DICT, CODEC_STORE, CODEC_RLE, CODEC_VARINT, CODEC_LZ77, CODEC_DELTA,
        CODEC_BASE32])]
      exact hplenty

/-- Which records of a group are delivered when it is read as section `i`. -/
def ReadMem.groupMask (mem : ReadMem) (g : Group) (i : Nat) : List Bool :=
  if g.codecId = CODEC_DICT ∧ (mem.codec i).scratchOk = false then
    List.replicate g.records.length false
  else parseMask (mem.parse i) 0 (g.records.map (Record.item zeroSlack))

/-- **The records that are left of groups, read from where they were written.** -/
theorem survives_holds (mem : ReadMem) {slack : Slack} {cap : Nat} : ∀ {gs : List Group}
    {secs : List Section} (k : Nat), List.Forall₂ SectionHolds secs (gs.map (Group.log slack)) →
      (∀ g ∈ gs, g.records ≠ [] ∧ (g.log slack).raw.length ≤ cap ∧
        ∀ rec ∈ g.records, rec.Parseable) →
      mem.survives cap k secs = (gs.zipIdx k).flatMap fun p => mem.groupMask p.1 p.2
  | [], _, _, .nil, _ => rfl
  | g :: gs, sec :: secs, k, .cons hsec hsecs, hg => by
    rw [List.forall_mem_cons] at hg
    obtain ⟨⟨hne, hcap, hparse⟩, hgs⟩ := hg
    have hrest := survives_holds mem (k + 1) hsecs hgs
    have hraw : (g.log slack).raw ≠ [] := by
      obtain ⟨rec, recs, hrecs⟩ := List.exists_cons_of_ne_nil hne
      simp [Group.log, SectionLog.raw, hrecs, encodeTlv]
    have hcodec : sec.codecId = g.codecId := hsec.codecId
    rw [mem.survives_cons, hrest, List.zipIdx_cons, List.flatMap_cons]
    congr 1
    rw [sectionMask, hsec.stream_in (mem.codec k) hraw hcap, ReadMem.groupMask, hcodec]
    by_cases hrefused : g.codecId = CODEC_DICT ∧ (mem.codec k).scratchOk = false
    · have hrecs : sectionRecords (mem.codec k).relieved cap sec = g.records := by
        rw [sectionRecords, hsec.stream rfl hcap]
        dsimp only
        rw [hsec.items]
        exact parsedRecords_items g.records hparse
      rw [if_pos hrefused, if_pos hrefused]
      dsimp only
      rw [hrecs]
    · rw [if_neg hrefused, if_neg hrefused]
      dsimp only
      rw [hsec.items, ← items_slack hparse slack zeroSlack]
      rfl

/-! ## Nothing refused -/

theorem parseMask_granted {g : Nat → Grants} (hg : ∀ j k, g j k = true) : ∀ (j : Nat) (ts : List Tlv),
    parseMask g j ts = List.replicate (parsedRecords ts).length true
  | _, [] => rfl
  | j, t :: ts => by
    rw [parseMask, parsedRecords_cons, parseMask_granted hg, recordParseIn_granted (hg j)]
    cases recordParse t <;> rfl

/-- **With nothing refused every record is delivered.** -/
theorem survives_plenty {mem : ReadMem} (h : mem.Plenty) (cap : Nat) : ∀ (secs : List Section) (k : Nat),
    mem.survives cap k secs = List.replicate (walkItems mem.relieved cap k secs).length true
  | [], _ => rfl
  | sec :: secs, k => by
    have hcodec : (mem.codec k).relieved = mem.codec k := by
      rw [CodecEnv.relieved, ← h.codec k]
    rw [walkItems_cons, mem.survives_cons, List.length_append, List.length_map, List.replicate_add, survives_plenty h cap secs,
      ReadMem.relieved, hcodec]
    congr 1
    unfold sectionMask sectionRecords
    cases hs : sectionStream (mem.codec k) cap sec with
    | error rc =>
      dsimp only
      rw [hcodec, hs]
      rfl
    | ok raw => exact parseMask_granted (h.parse k) 0 _

end Dtl
