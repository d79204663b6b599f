import Mathlib.Data.List.Forall2
import TelemetryForge.Writer.Writer

/-!
# A run of writer calls and the log it writes

`WriterCall` is a public call of the writer with its arguments, `writerRun` a sequence of them.
`WriterLog` is what such a sequence is for: the closed sections with their items, the section
being filled, whether a trailer was asked for.  `Refines` connects the two.

Principal results: `writerCall_refines` and `writerRun_refines` — as long as no error is latched, the
writer holds the log its calls spell out; `writerFinish_parse` — the emitted bytes parse to the
writer's sections, blob by blob; `writer_log_roundtrip` — the whole way from calls to parsed, decoded
and split sections.
-/

set_option autoImplicit false

namespace Dtl

/-! ## Calls and logs -/

/-- A public writer call between `dtl_writer_init` and `dtl_writer_finish`. -/
inductive WriterCall where
  | beginSection (type : UInt16) (codecId : UInt8)
  | addRecord (slack : Slack) (rec : Record)
  | addRawTlv (tag : UInt8) (payload : RawPayload)
  | addU32Batch (tag : UInt8) (vals : List UInt32)
  | endSection (env : Nat → CodecEnv)
  | setHmac (key : Bytes)

/-- The writer after a call. -/
def writerCall (w : Writer) : WriterCall → Writer
  | .beginSection type codecId => (writerBeginSection w type codecId).2
  | .addRecord slack rec => (writerAddRecord slack w rec).2
  | .addRawTlv tag payload => (writerAddRawTlv w tag payload).2
  | .addU32Batch tag vals => (writerAddU32Batch w tag vals).2
  | .endSection env => (writerEndSection env w).2
  | .setHmac key => (writerSetHmac w key).2

/-- The writer after a sequence of calls. -/
def writerRun (w : Writer) (calls : List WriterCall) : Writer := calls.foldl writerCall w

/-- A section as its author sees it: type, codec and items. -/
structure SectionLog where
  type : UInt16
  codecId : UInt8
  items : List Tlv

/-- The section's stream. -/
def SectionLog.raw (s : SectionLog) : Bytes := s.items.flatMap encodeTlv

structure WriterLog where
  closed : List SectionLog
  current : Option SectionLog
  signed : Bool

/-- Add an item to the open section. -/
def WriterLog.add (l : WriterLog) (t : Tlv) : WriterLog :=
  { l with current := l.current.map fun s => { s with items := s.items ++ [t] } }

/-- What a call is for. -/
def logCall (l : WriterLog) : WriterCall → WriterLog
  | .beginSection type codecId => { l with current := some ⟨type, codecId, []⟩ }
  | .addRecord slack rec => l.add ⟨rec.tag, rec.payload slack⟩
  | .addRawTlv tag payload => l.add ⟨tag, payload.val⟩
  | .addU32Batch tag vals => l.add ⟨tag, vals.flatMap endianWriteU32le⟩
  | .endSection _ => { l with closed := l.closed ++ l.current.toList, current := none }
  | .setHmac _ => { l with signed := true }

/-- The log a sequence of calls spells out. -/
def logOf (calls : List WriterCall) : WriterLog := calls.foldl logCall ⟨[], none, false⟩

/-! ## Refinement -/

/-- A closed section of the writer stands for a section of the log. -/
structure SectionStands (s : WSection) (l : SectionLog) : Prop where
  type : s.type = l.type
  codecId : s.codecId = l.codecId
  fits : ∀ t ∈ l.items, t.Fits
  rawLen : s.rawLen.toNat = l.raw.length
  rawPos : 0 < l.raw.length
  rawLe : l.raw.length ≤ SECTION_MAX_RAW
  compLen : s.compLen.toNat = s.blob.length
  encoded : ∃ codec env cap, codecGet s.codecId = some codec ∧
    codec.encode env l.raw cap = .ok s.blob

/-- The open section of the log is what the accumulator holds. -/
def CurrentStands (w : Writer) : Option SectionLog → Prop
  | none => w.inSection = false
  | some s => w.inSection = true ∧ w.curType = s.type ∧ w.curCodec = s.codecId ∧ w.tlv = s.raw ∧
      ∀ t ∈ s.items, t.Fits

/-- The writer holds the log. -/
structure Refines (w : Writer) (l : WriterLog) : Prop where
  closed : List.Forall₂ SectionStands w.sections l.closed
  room : w.sections.length + w.inSection.toNat ≤ WRITER_MAX_SECTIONS
  current : CurrentStands w l.current
  signed : w.hmacKey.isSome = l.signed

theorem writerInit_refines (a : Arena) : Refines (writerInit a) ⟨[], none, false⟩ :=
  ⟨.nil, Nat.zero_le _, rfl, rfl⟩

/-- A successful emit adds its item to the log. -/
theorem refines_emit {w : Writer} {l : WriterLog} {tag : UInt8} {fill : Writer → Writer} {bs : Bytes}
    (hf : Emits fill bs) (h : Refines w l) (hok : (writerEmitTlv w tag fill).2.err = none) :
    Refines (writerEmitTlv w tag fill).2 (l.add ⟨tag, bs⟩) := by
  rw [writerEmitTlv_err] at hok
  obtain ⟨-, hsec, hlen, ha⟩ := writerEmitTlv_ok hf hok
  refine ⟨by rw [ha.sections]; exact h.closed, by rw [ha.sections, ha.inSection]; exact h.room, ?_,
    by rw [ha.hmacKey]; exact h.signed⟩
  have hcur := h.current
  cases hc : l.current with
  | none =>
    rw [hc] at hcur
    exact absurd (hsec.symm.trans hcur) (by simp)
  | some s =>
    rw [hc] at hcur
    obtain ⟨-, h2, h3, h4, h5⟩ := hcur
    simp only [WriterLog.add, hc, Option.map_some]
    refine ⟨ha.inSection.trans hsec, ha.curType.trans h2, ha.curCodec.trans h3, ?_, ?_⟩
    · rw [ha.tlv, h4]
      simp [SectionLog.raw]
    · intro t ht
      rcases List.mem_append.mp ht with ht | ht
      · exact h5 t ht
      · rw [List.mem_singleton.mp ht]
        exact hlen

/-- A compression that succeeds is a successful encoding. -/
theorem writerCompress_ok {codec : Codec} {env : Nat → CodecEnv} {raw out : Bytes} {arena : Arena}
    {cap : Nat} (h : (writerCompress codec env raw arena cap).1 = .ok out) :
    ∃ c, codec.encode (env c) raw c = .ok out := by
  induction hn : SECTION_MAX_RAW * 2 + 1 - cap using Nat.strongRecOn generalizing cap arena with
  | ind n ih =>
    rw [writerCompress] at h
    dsimp only at h
    split at h
    · split at h
      · rename_i henc
        cases h
        exact ⟨_, henc⟩
      · split at h
        · exact ih _ (by omega) h rfl
        · cases h
    · cases h

/-- A successful close turns the open section into a closed one. -/
theorem refines_endSection {w : Writer} {l : WriterLog} {env : Nat → CodecEnv} (h : Refines w l)
    (hok : (writerEndSection env w).2.err = none) :
    Refines (writerEndSection env w).2 (logCall l (.endSection env)) := by
  unfold writerEndSection at hok ⊢
  by_cases herr : w.err ≠ none
  · rw [if_pos herr] at hok; exact absurd hok herr
  rw [if_neg herr] at hok ⊢
  by_cases hsec : w.inSection = false
  · rw [if_pos hsec] at hok; cases hok
  rw [if_neg hsec] at hok ⊢
  by_cases hlen : w.tlv.length = 0 ∨ w.tlv.length > SECTION_MAX_RAW
  · rw [if_pos hlen] at hok; cases hok
  rw [if_neg hlen] at hok ⊢
  cases hcodec : codecGet w.curCodec with
  | none => rw [hcodec] at hok; cases hok
  | some codec =>
    rw [hcodec] at hok
    dsimp only at hok ⊢
    cases hcomp : (writerCompress codec env w.tlv w.arena
        (w.tlv.length + w.tlv.length / 2 + 64)).1 with
    | error rc => rw [hcomp] at hok; cases hok
    | ok out =>
      rw [hcomp] at hok
      dsimp only at hok ⊢
      by_cases hbig : out.length > 0xFFFFFFFF
      · rw [if_pos hbig] at hok; cases hok
      rw [if_neg hbig]
      have hcur := h.current
      cases hc : l.current with
      | none =>
        rw [hc] at hcur
        exact absurd hcur hsec
      | some s =>
        rw [hc] at hcur
        obtain ⟨-, h2, h3, h4, h5⟩ := hcur
        obtain ⟨c, henc⟩ := writerCompress_ok hcomp
        have hmax : SECTION_MAX_RAW = 67108864 := rfl
        have hstands : SectionStands ⟨w.curType, w.curCodec, UInt32.ofNat w.tlv.length,
            UInt32.ofNat out.length, out⟩ s := by
          rw [h4] at hlen henc
          refine ⟨h2, h3, h5, ?_, by omega, by omega, ?_, codec, env c, c, hcodec, henc⟩
          · rw [h4, UInt32.toNat_ofNat']; omega
          · show (UInt32.ofNat out.length).toNat = out.length
            rw [UInt32.toNat_ofNat']; omega
        have hroom := h.room
        rw [Bool.of_not_eq_false hsec] at hroom
        refine ⟨?_, by simpa using hroom, rfl, h.signed⟩
        simp only [logCall, hc, Option.toList_some]
        exact List.rel_append h.closed (.cons hstands .nil)

theorem refines_beginSection {w : Writer} {l : WriterLog} {type : UInt16} {codecId : UInt8}
    (h : Refines w l) (hok : (writerBeginSection w type codecId).2.err = none) :
    Refines (writerBeginSection w type codecId).2 (logCall l (.beginSection type codecId)) := by
  unfold writerBeginSection at hok ⊢
  by_cases herr : w.err ≠ none
  · rw [if_pos herr] at hok; exact absurd hok herr
  rw [if_neg herr] at hok ⊢
  cases hsec : w.inSection with
  | true => rw [hsec] at hok; cases hok
  | false =>
    rw [hsec] at hok
    by_cases hfull : w.sections.length ≥ WRITER_MAX_SECTIONS
    · simp [hfull] at hok
    rw [if_neg (by simp), if_neg hfull]
    refine ⟨h.closed, ?_, ⟨rfl, rfl, rfl, rfl, by simp⟩, h.signed⟩
    simp only [Bool.toNat_true]
    omega

/-- A call on a writer with a latched error does nothing. -/
theorem writerCall_latched {w : Writer} (h : w.err ≠ none) (c : WriterCall) : writerCall w c = w := by
  cases c <;>
    simp only [writerCall, writerBeginSection, writerAddRecord, writerAddRawTlv, writerAddU32Batch,
      writerEndSection, writerSetHmac, writerEmitTlv, if_pos h]

theorem writerRun_latched {w : Writer} (h : w.err ≠ none) :
    ∀ calls : List WriterCall, writerRun w calls = w
  | [] => rfl
  | c :: calls => by
    unfold writerRun
    rw [List.foldl_cons, writerCall_latched h c]
    exact writerRun_latched h calls

theorem refines_addU32Batch {w : Writer} {l : WriterLog} {tag : UInt8} {vals : List UInt32}
    (h : Refines w l) (hok : (writerAddU32Batch w tag vals).2.err = none) :
    Refines (writerAddU32Batch w tag vals).2 (logCall l (.addU32Batch tag vals)) := by
  unfold writerAddU32Batch at hok ⊢
  by_cases herr : w.err ≠ none
  · rw [if_pos herr] at hok; exact absurd hok herr
  rw [if_neg herr] at hok ⊢
  by_cases hbig : vals.length > 0xFFFF / 4
  · rw [if_pos hbig] at hok; cases hok
  rw [if_neg hbig] at hok ⊢
  dsimp only at hok ⊢
  have hr : Refines { w with arena := (arenaAlloc w.arena (vals.length * 4)).2 } l :=
    ⟨h.closed, h.room, h.current, h.signed⟩
  cases halloc : (arenaAlloc w.arena (vals.length * 4)).1 with
  | false => rw [halloc] at hok; cases hok
  | true =>
    rw [halloc] at hok
    exact refines_emit (writerPut_emits (vals.flatMap endianWriteU32le)) hr hok

/-- **Every call that leaves no error behind does to the writer what it is for.** -/
theorem writerCall_refines {w : Writer} {l : WriterLog} {c : WriterCall} (h : Refines w l)
    (hok : (writerCall w c).err = none) : Refines (writerCall w c) (logCall l c) := by
  cases c with
  | beginSection type codecId => exact refines_beginSection h hok
  | addRecord slack rec => exact refines_emit (writerPayload_emits slack rec) h hok
  | addRawTlv tag payload => exact refines_emit (writerPut_emits payload.val) h hok
  | addU32Batch tag vals => exact refines_addU32Batch h hok
  | endSection env => exact refines_endSection h hok
  | setHmac key =>
    simp only [writerCall, writerSetHmac] at hok ⊢
    by_cases herr : w.err ≠ none
    · rw [if_pos herr] at hok; exact absurd hok herr
    rw [if_neg herr]
    exact ⟨h.closed, h.room, h.current, rfl⟩

/-- A run without an error had none after its first call. -/
theorem writerRun_cons_err {w : Writer} {c : WriterCall} {calls : List WriterCall}
    (hok : (writerRun w (c :: calls)).err = none) : (writerCall w c).err = none := by
  by_contra hne
  rw [writerRun, List.foldl_cons] at hok
  rw [show calls.foldl writerCall (writerCall w c) = writerCall w c from
    writerRun_latched hne calls] at hok
  exact hne hok

/-- **A run that ends without an error has written the log its calls spell out.** -/
theorem writerRun_refines : ∀ (calls : List WriterCall) {w : Writer} {l : WriterLog}, Refines w l →
    (writerRun w calls).err = none → Refines (writerRun w calls) (calls.foldl logCall l)
  | [], _, _, h, _ => h
  | _ :: calls, _, _, h, hok =>
    writerRun_refines calls (writerCall_refines h (writerRun_cons_err hok)) hok

/-! ## The key -/

theorem writerBeginSection_hmacKey (w : Writer) (type : UInt16) (codecId : UInt8) :
    (writerBeginSection w type codecId).2.hmacKey = w.hmacKey := by
  unfold writerBeginSection
  split
  · rfl
  split
  · rfl
  split <;> rfl

theorem writerEndSection_hmacKey (env : Nat → CodecEnv) (w : Writer) :
    (writerEndSection env w).2.hmacKey = w.hmacKey := by
  unfold writerEndSection
  split
  · rfl
  split
  · rfl
  split
  · rfl
  split
  · rfl
  dsimp only
  split
  · rfl
  split <;> rfl

theorem writerEmitTlv_hmacKey {w : Writer} {tag : UInt8} {fill : Writer → Writer} {bs : Bytes}
    (hf : Emits fill bs) (hok : (writerEmitTlv w tag fill).2.err = none) :
    (writerEmitTlv w tag fill).2.hmacKey = w.hmacKey := by
  rw [writerEmitTlv_err] at hok
  exact (writerEmitTlv_ok hf hok).2.2.2.hmacKey

theorem writerAddU32Batch_hmacKey {w : Writer} {tag : UInt8} {vals : List UInt32}
    (hok : (writerAddU32Batch w tag vals).2.err = none) :
    (writerAddU32Batch w tag vals).2.hmacKey = w.hmacKey := by
  unfold writerAddU32Batch at hok ⊢
  by_cases herr : w.err ≠ none
  · rw [if_pos herr] at hok; exact absurd hok herr
  rw [if_neg herr] at hok ⊢
  by_cases hbig : vals.length > 0xFFFF / 4
  · rw [if_pos hbig] at hok; cases hok
  rw [if_neg hbig] at hok ⊢
  dsimp only at hok ⊢
  cases halloc : (arenaAlloc w.arena (vals.length * 4)).1 with
  | false => rw [halloc] at hok; cases hok
  | true =>
    rw [halloc] at hok
    exact writerEmitTlv_hmacKey (writerPut_emits (vals.flatMap endianWriteU32le)) hok

/-- Only `dtl_writer_set_hmac` changes the key. -/
theorem writerCall_hmacKey {w : Writer} {c : WriterCall} (hok : (writerCall w c).err = none)
    (hc : ∀ key, c ≠ .setHmac key) : (writerCall w c).hmacKey = w.hmacKey := by
  cases c with
  | beginSection type codecId => exact writerBeginSection_hmacKey w type codecId
  | addRecord slack rec => exact writerEmitTlv_hmacKey (writerPayload_emits slack rec) hok
  | addRawTlv tag payload => exact writerEmitTlv_hmacKey (writerPut_emits payload.val) hok
  | addU32Batch tag vals => exact writerAddU32Batch_hmacKey hok
  | endSection env => exact writerEndSection_hmacKey env w
  | setHmac key => exact absurd rfl (hc key)

theorem writerRun_hmacKey : ∀ (calls : List WriterCall) {w : Writer}, (writerRun w calls).err = none →
    (∀ key, .setHmac key ∉ calls) → (writerRun w calls).hmacKey = w.hmacKey
  | [], _, _, _ => rfl
  | c :: calls, w, hok, hno => by
    have hhead : ∀ key, c ≠ .setHmac key := by
      rintro key rfl
      exact hno key List.mem_cons_self
    have htail : ∀ key, .setHmac key ∉ calls := fun key h => hno key (List.mem_cons_of_mem _ h)
    rw [← writerCall_hmacKey (writerRun_cons_err hok) hhead]
    exact writerRun_hmacKey calls hok htail

/-- The key of a run is the last one set. -/
theorem writerRun_lastKey {w : Writer} {pre post : List WriterCall} {key : Bytes}
    (hok : (writerRun w (pre ++ .setHmac key :: post)).err = none)
    (hlast : ∀ key', .setHmac key' ∉ post) :
    (writerRun w (pre ++ .setHmac key :: post)).hmacKey = some key := by
  have hsplit : writerRun w (pre ++ .setHmac key :: post) =
      writerRun (writerCall (writerRun w pre) (.setHmac key)) post := List.foldl_append
  rw [hsplit] at hok ⊢
  rw [writerRun_hmacKey post hok hlast]
  have hset : (writerCall (writerRun w pre) (.setHmac key)).err = none := writerRun_cons_err hok
  simp only [writerCall, writerSetHmac] at hset ⊢
  split at hset
  · rename_i herr
    exact absurd hset herr
  · rename_i herr
    rw [if_neg herr]

/-! ## The emitted bytes -/

theorem writerFinish_ok {w : Writer} {bytes : Bytes} (h : (writerFinish w).1 = .ok bytes) :
    w.err = none ∧ w.inSection = false ∧ (w.sections.map (·.compLen.toNat)).sum ≤ 0xFFFFFFFF ∧
      bytes = writerBody w ++ (w.hmacKey.map fun key => hashMac key (writerBody w)).getD [] := by
  unfold writerFinish at h
  split at h
  · cases h
  rename_i herr
  split at h
  · cases h
  rename_i hsec
  dsimp only at h
  split at h
  · cases h
  rename_i hregion
  refine ⟨herr, by simpa using hsec, by omega, ?_⟩
  generalize 12 + w.sections.length * 16 + (w.sections.map (·.compLen.toNat)).sum +
    (if w.hmacKey.isSome = true then HMAC_LEN else 0) = total at h
  cases halloc : (arenaAlloc w.arena total).1 with
  | false => rw [halloc] at h; cases h
  | true =>
    rw [halloc, if_pos rfl] at h
    cases hkey : w.hmacKey with
    | none =>
      rw [hkey] at h
      cases h
      rw [Option.map_none, Option.getD_none, List.append_nil, writerBody, writerBody, writerFlags,
        writerFlags, hkey]
    | some key =>
      rw [hkey] at h
      cases h
      rw [Option.map_some, Option.getD_some, writerBody, writerBody, writerFlags,
        writerFlags, hkey]

/-- The writer's sections as a reader finds them, the first blob at offset `acc`. -/
def placeSections : Nat → List WSection → List Section
  | _, [] => []
  | acc, s :: ss =>
    ⟨⟨s.type, s.codecId, s.rawLen, s.compLen, UInt32.ofNat acc⟩, s.blob⟩ ::
      placeSections (acc + s.compLen.toNat) ss

/-- What the reader requires of a closed section. -/
def WSection.Readable (s : WSection) : Prop :=
  0 < s.rawLen.toNat ∧ s.rawLen.toNat ≤ SECTION_MAX_RAW ∧ s.compLen.toNat = s.blob.length

theorem writerTable_length : ∀ (ss : List WSection) (acc : Nat),
    (writerTable acc ss).length = ss.length
  | [], _ => rfl
  | s :: ss, acc => by rw [writerTable, List.length_cons, List.length_cons, writerTable_length ss]

theorem writerTable_compTotal : ∀ (ss : List WSection) (acc : Nat),
    compTotal (writerTable acc ss) = (ss.map (·.compLen.toNat)).sum
  | [], _ => rfl
  | s :: ss, acc => by
    have ih := writerTable_compTotal ss (acc + s.compLen.toNat)
    unfold compTotal at ih ⊢
    rw [writerTable, List.map_cons, List.sum_cons, ih, List.map_cons, List.sum_cons]

theorem writerRegion_length {ss : List WSection} (h : ∀ s ∈ ss, s.Readable) :
    (writerRegion ss).length = (ss.map (·.compLen.toNat)).sum := by
  induction ss with
  | nil => rfl
  | cons s ss ih =>
    have hs := (h s (by simp)).2.2
    unfold writerRegion at ih ⊢
    rw [List.flatMap_cons, List.length_append, List.map_cons, List.sum_cons, hs,
      ih fun x hx => h x (by simp [hx])]

/-- The reader finds every blob where the table says. -/
theorem writerTable_sections : ∀ (ss : List WSection) (pre : Bytes), (∀ s ∈ ss, s.Readable) →
    pre.length + (ss.map (·.compLen.toNat)).sum ≤ 0xFFFFFFFF →
    (writerTable pre.length ss).map (sectionAt (pre ++ writerRegion ss)) =
        placeSections pre.length ss ∧
      ∀ e ∈ writerTable pre.length ss, EntryFits (pre ++ writerRegion ss).length e
  | [], _, _, _ => ⟨rfl, by simp [writerTable]⟩
  | s :: ss, pre, h, hsum => by
    rw [List.map_cons, List.sum_cons] at hsum
    obtain ⟨hpos, hle, hcomp⟩ := h s (by simp)
    have hoff : (UInt32.ofNat pre.length).toNat = pre.length := by rw [UInt32.toNat_ofNat']; omega
    have hlen : (pre ++ s.blob).length = pre.length + s.compLen.toNat := by
      rw [List.length_append, hcomp]
    obtain ⟨ih1, ih2⟩ := writerTable_sections ss (pre ++ s.blob) (fun x hx => h x (by simp [hx]))
      (by rw [hlen]; omega)
    have hregion : pre ++ writerRegion (s :: ss) = (pre ++ s.blob) ++ writerRegion ss := by
      simp [writerRegion]
    rw [hlen] at ih1 ih2
    rw [writerTable, List.map_cons, placeSections, hregion, ih1]
    refine ⟨?_, ?_⟩
    · congr 1
      simp only [sectionAt, hoff, hcomp, List.append_assoc, List.drop_left, List.take_left]
    · intro e he
      rcases List.mem_cons.mp he with rfl | he
      · refine ⟨hpos, hle, ?_⟩
        rw [hoff, List.length_append, hlen]
        exact Nat.le_add_right _ _
      · exact ih2 e he

/-- **Emitted bytes parse to the writer's sections.** -/
theorem writerFinish_parse {w : Writer} {bytes : Bytes} (h : (writerFinish w).1 = .ok bytes)
    (hread : ∀ s ∈ w.sections, s.Readable) (hcount : w.sections.length ≤ WRITER_MAX_SECTIONS) :
    containerParse bytes = .ok ⟨VERSION, writerFlags w, UInt16.ofNat w.sections.length,
      placeSections 0 w.sections, w.hmacKey.map fun key => hashMac key (writerBody w)⟩ := by
  obtain ⟨-, -, hsum, rfl⟩ := writerFinish_ok h
  have hmax : WRITER_MAX_SECTIONS = 64 := rfl
  obtain ⟨hsecs, hfits⟩ := writerTable_sections w.sections [] hread (by simpa using hsum)
  rw [List.nil_append, List.length_nil] at hsecs hfits
  have hlen := writerRegion_length hread
  have hn : (writerTable 0 w.sections).length = (UInt16.ofNat w.sections.length).toNat := by
    rw [writerTable_length, UInt16.toNat_ofNat']; omega
  have htr : TrailerFits (writerFlags w) (w.hmacKey.map fun key => hashMac key (writerBody w)) := by
    unfold writerFlags
    cases w.hmacKey with
    | none => exact rfl
    | some key => exact ⟨rfl, hashMac_length _ _⟩
  have hlayout := containerParse_layout hn htr hfits
    (by rw [writerTable_compTotal, hlen]) (by rw [hlen]; simp only [SIZE_MAX]; omega)
  rw [hsecs] at hlayout
  rw [← hlayout, writerBody]
  simp only [List.append_assoc]

/-! ## From calls to parsed sections -/

/-- The section that a table entry and its blob stand for, offset left out. -/
def Section.toWSection (s : Section) : WSection := ⟨s.type, s.codecId, s.rawLen, s.compLen, s.blob⟩

theorem placeSections_toWSection : ∀ (ss : List WSection) (acc : Nat),
    (placeSections acc ss).map Section.toWSection = ss
  | [], _ => rfl
  | s :: ss, acc => by rw [placeSections, List.map_cons, placeSections_toWSection ss]; rfl

/-- Every offset is the running sum of the earlier compressed lengths. -/
theorem placeSections_offset : ∀ (ss : List WSection) (acc i : Nat) (sec : Section),
    acc + (ss.map (·.compLen.toNat)).sum ≤ 0xFFFFFFFF → (placeSections acc ss)[i]? = some sec →
      sec.offset.toNat = acc + (((placeSections acc ss).take i).map (·.compLen.toNat)).sum
  | [], _, _, _, _, h => by simp [placeSections] at h
  | s :: ss, acc, 0, sec, hsum, h => by
    simp only [placeSections, List.getElem?_cons_zero, Option.some.injEq] at h
    subst h
    simp only [List.take_zero, List.map_nil, List.sum_nil, Nat.add_zero, UInt32.toNat_ofNat']
    omega
  | s :: ss, acc, i + 1, sec, hsum, h => by
    rw [List.map_cons, List.sum_cons] at hsum
    simp only [placeSections, List.getElem?_cons_succ] at h
    have ih := placeSections_offset ss _ i sec (by omega) h
    rw [ih, placeSections, List.take_succ_cons, List.map_cons, List.sum_cons]
    exact Nat.add_assoc _ _ _

/-- A parsed section holds a section of the log: same type and codec, its blob decodes to the stream
of exactly its items. -/
structure SectionHolds (sec : Section) (l : SectionLog) : Prop where
  type : sec.type = l.type
  codecId : sec.codecId = l.codecId
  rawLen : sec.rawLen.toNat = l.raw.length
  compLen : sec.compLen.toNat = sec.blob.length
  decodes : ∃ codec, codecGet sec.codecId = some codec ∧ ∀ env : CodecEnv, env.scratchOk = true →
    codec.decode env sec.blob sec.rawLen.toNat = .ok l.raw
  items : tlvItems l.raw = (l.items, [])

theorem SectionStands.holds {s : WSection} {l : SectionLog} (h : SectionStands s l) (off : UInt32) :
    SectionHolds ⟨⟨s.type, s.codecId, s.rawLen, s.compLen, off⟩, s.blob⟩ l := by
  obtain ⟨codec, env, cap, hc, henc⟩ := h.encoded
  refine ⟨h.type, h.codecId, h.rawLen, h.compLen, ⟨codec, hc, fun env' hs => ?_⟩,
    tlvItems_encode l.items h.fits⟩
  rw [h.rawLen]
  exact codecGet_decode_encode hc hs henc

theorem placeSections_holds : ∀ {ss : List WSection} {ls : List SectionLog} (acc : Nat),
    List.Forall₂ SectionStands ss ls → List.Forall₂ SectionHolds (placeSections acc ss) ls
  | _, _, _, .nil => .nil
  | _, _, _, .cons h hs => .cons (h.holds _) (placeSections_holds _ hs)

theorem SectionStands.readable {s : WSection} {l : SectionLog} (h : SectionStands s l) :
    s.Readable := ⟨h.rawLen ▸ h.rawPos, h.rawLen ▸ h.rawLe, h.compLen⟩

theorem sections_readable {ss : List WSection} {ls : List SectionLog}
    (h : List.Forall₂ SectionStands ss ls) : ∀ s ∈ ss, s.Readable := by
  induction h with
  | nil => simp
  | cons h _ ih =>
    intro s hs
    rcases List.mem_cons.mp hs with rfl | hs
    · exact h.readable
    · exact ih s hs

/-- The log asks for a trailer once some call does. -/
theorem logOf_signed (calls : List WriterCall) :
    (logOf calls).signed = true ↔ ∃ key, WriterCall.setHmac key ∈ calls := by
  have hgen : ∀ (calls : List WriterCall) (l : WriterLog),
      (calls.foldl logCall l).signed = true ↔
        l.signed = true ∨ ∃ key, WriterCall.setHmac key ∈ calls := by
    intro calls
    induction calls with
    | nil => simp
    | cons c calls ih =>
      intro l
      rw [List.foldl_cons, ih]
      cases c <;> simp [logCall, WriterLog.add]
  simpa [logOf] using hgen calls ⟨[], none, false⟩

/-- **A writer that holds a log emits it.** -/
theorem writerFinish_holds {w : Writer} {l : WriterLog} {bytes : Bytes} (hr : Refines w l)
    (h : (writerFinish w).1 = .ok bytes) :
    containerParse bytes = .ok ⟨VERSION, writerFlags w, UInt16.ofNat w.sections.length,
        placeSections 0 w.sections, w.hmacKey.map fun key => hashMac key (writerBody w)⟩ ∧
      List.Forall₂ SectionHolds (placeSections 0 w.sections) l.closed := by
  obtain ⟨-, hsec, -, -⟩ := writerFinish_ok h
  have hcount := hr.room
  rw [hsec] at hcount
  exact ⟨writerFinish_parse h (sections_readable hr.closed) (by simpa using hcount),
    placeSections_holds 0 hr.closed⟩

/-- **The way from calls to parsed sections.** Whatever the calls between `dtl_writer_init` and a
successful `dtl_writer_finish`, the emitted bytes parse to the sections the writer closed, each at the
running sum of the earlier compressed lengths; each decodes, into a buffer of its raw length, to the
stream of exactly the items added to it; and the trailer is there when a key was set. -/
theorem writer_log_roundtrip (a : Arena) (calls : List WriterCall) (bytes : Bytes)
    (h : (writerFinish (writerRun (writerInit a) calls)).1 = .ok bytes) :
    ∃ cont, containerParse bytes = .ok cont ∧
      cont.sections.map Section.toWSection = (writerRun (writerInit a) calls).sections ∧
      List.Forall₂ SectionHolds cont.sections (logOf calls).closed ∧
      (∀ i sec, cont.sections[i]? = some sec →
        sec.offset.toNat = ((cont.sections.take i).map (·.compLen.toNat)).sum) ∧
      (cont.hmac.isSome = true ↔ ∃ key, WriterCall.setHmac key ∈ calls) := by
  obtain ⟨herr, -, hsum, -⟩ := writerFinish_ok h
  have hr := writerRun_refines calls (writerInit_refines a) herr
  obtain ⟨hparse, hholds⟩ := writerFinish_holds hr h
  refine ⟨_, hparse, placeSections_toWSection _ _, hholds, ?_, ?_⟩
  · intro i sec hi
    have := placeSections_offset _ 0 i sec (by simpa using hsum) hi
    simpa using this
  · rw [← logOf_signed, Option.isSome_map, hr.signed]
    rfl

/-- One signed RLE section with one item. -/
theorem writer_log_roundtrip_rle : ∃ bytes cont,
    (writerFinish (writerRun (writerInit ⟨fun _ => false, 0⟩)
      [.setHmac [7], .beginSection 9 CODEC_RLE, .addRawTlv REC_EVENT ⟨[1, 0, 0, 0], by decide⟩,
        .endSection fun _ => ⟨true, 0⟩])).1 = .ok bytes ∧
      containerParse bytes = .ok cont ∧
      List.Forall₂ SectionHolds cont.sections [⟨9, CODEC_RLE, [⟨REC_EVENT, [1, 0, 0, 0]⟩]⟩] := by
  obtain ⟨bytes, hok⟩ := Except.exists_ok (show ((writerFinish (writerRun
      (writerInit ⟨fun _ => false, 0⟩) [.setHmac [7], .beginSection 9 CODEC_RLE,
        .addRawTlv REC_EVENT ⟨[1, 0, 0, 0], by decide⟩,
        .endSection fun _ => ⟨true, 0⟩])).1.toOption).isSome = true by decide +kernel)
  obtain ⟨cont, h1, -, h3, -, -⟩ := writer_log_roundtrip ⟨fun _ => false, 0⟩ _ bytes hok
  exact ⟨bytes, cont, hok, h1, h3⟩

end Dtl
