import TelemetryForge.Core.Arena
import TelemetryForge.Format.Crc

/-!
# The container: header, section table, blob region, trailer

Model of `format/container`.  `containerParse` decodes a whole container positioned at its start;
section blobs and the HMAC are the slices of the input that the source's pointers refer to.  The
section array is allocated from an arena whose requests succeed.

`encodeHeader` and `encodeEntry` are the wire forms of the 12-byte header and of a table entry.

Principal result: `containerParse_layout` — bytes laid out as header, table, blob region and
optional trailer, with every section inside the blob region, parse to exactly those sections.
-/

set_option autoImplicit false

namespace Dtl

open PrefixCode

/-- `DTL_MAGIC`. -/
def MAGIC : UInt32 := 0x014C5444

/-- `DTL_VERSION`. -/
def VERSION : UInt8 := 1

/-- `DTL_FLAG_HAS_HMAC`. -/
def FLAG_HAS_HMAC : UInt8 := 0x01

/-- `DTL_FLAGS_KNOWN`. -/
def FLAGS_KNOWN : UInt8 := FLAG_HAS_HMAC

/-- `DTL_HMAC_LEN`. -/
def HMAC_LEN : Nat := 32

/-- `DTL_SECTION_MAX_RAW`: 64 MiB. -/
def SECTION_MAX_RAW : Nat := 64 * 1024 * 1024

/-- `DTL_HEADER_CRC_SPAN`. -/
def HEADER_CRC_SPAN : Nat := 8

/-- A table entry: `dtl_section` before its blob pointer is resolved. -/
structure TableEntry where
  type : UInt16
  codecId : UInt8
  rawLen : UInt32
  compLen : UInt32
  offset : UInt32
  deriving DecidableEq, Repr

/-- `dtl_section`; `blob` is the `compLen` bytes its pointer refers to. -/
structure Section extends TableEntry where
  blob : Bytes
  deriving DecidableEq, Repr

/-- `dtl_container`; `hmac` is `none` for a `NULL` pointer. -/
structure Container where
  version : UInt8
  flags : UInt8
  sectionCount : UInt16
  sections : List Section
  hmac : Option Bytes
  deriving DecidableEq, Repr

/-- The loop body of `dtl_container_read_table`. -/
def containerReadEntry (b : Bytes) : Res (TableEntry × Bytes) := do
  let (type, b) ← bufReadU16 b
  let (codecId, b) ← bufReadU8 b
  let (reserved, b) ← bufReadU8 b
  failIf (reserved ≠ 0) .badRecord
  let (rawLen, b) ← bufReadU32 b
  let (compLen, b) ← bufReadU32 b
  let (offset, b) ← bufReadU32 b
  return (⟨type, codecId, rawLen, compLen, offset⟩, b)

/-- `dtl_container_read_table`. -/
def containerReadTable (count : UInt16) (b : Bytes) : Res (List TableEntry × Bytes) :=
  readMany containerReadEntry count.toNat b

/-- The accumulation loop of `dtl_container_resolve_blobs`, with its guard against wrapping a
`size_t` whose maximum is `szMax`. -/
def containerTotal (szMax : Nat) : List TableEntry → Nat → Res Nat
  | [], total => .ok total
  | s :: secs, total => do
    failIf (total > szMax - s.compLen.toNat) .range
    containerTotal szMax secs (total + s.compLen.toNat)

/-- The body of the second loop of `dtl_container_resolve_blobs`. -/
def containerResolveBlob (blobBase : Bytes) (blobLen : Nat) (s : TableEntry) : Res Section := do
  failIf (s.rawLen = 0 ∨ s.rawLen.toNat > SECTION_MAX_RAW) .range
  failIf (s.compLen.toNat > blobLen) .range
  failIf (s.offset.toNat > blobLen - s.compLen.toNat) .range
  return ⟨s, (blobBase.drop s.offset.toNat).take s.compLen.toNat⟩

/-- `dtl_container_resolve_blobs`. -/
def containerResolveBlobs (szMax : Nat) (secs : List TableEntry) (blobBase : Bytes)
    (blobLen : Nat) : Res (List Section) := do
  let total ← containerTotal szMax secs 0
  failIf (total > blobLen) .range
  secs.mapM (containerResolveBlob blobBase blobLen)

/-- The blob region's length and the trailer, from the bytes after the table. -/
def containerLocate (flags : UInt8) (rest : Bytes) : Res (Nat × Option Bytes) :=
  if flags &&& FLAG_HAS_HMAC ≠ 0 then do
    failIf (rest.length < HMAC_LEN) .truncated
    return (rest.length - HMAC_LEN, some (rest.drop (rest.length - HMAC_LEN)))
  else .ok (rest.length, none)

/-- `dtl_container_parse` for a `size_t` whose maximum is `szMax`. -/
def containerParseSz (szMax : Nat) (data : Bytes) : Res Container := do
  let (magic, b) ← bufReadU32 data
  failIf (magic ≠ MAGIC) .badMagic
  let (version, b) ← bufReadU8 b
  failIf (version ≠ VERSION) .badVersion
  let (flags, b) ← bufReadU8 b
  failIf (flags &&& ~~~FLAGS_KNOWN ≠ 0) .badHeader
  let (sectionCount, b) ← bufReadU16 b
  let (storedCrc, b) ← bufReadU32 b
  failIf (crc32 (data.take HEADER_CRC_SPAN) ≠ storedCrc) .badHeader
  let (table, rest) ← containerReadTable sectionCount b
  let (blobLen, hmac) ← containerLocate flags rest
  let sections ← containerResolveBlobs szMax table rest blobLen
  return ⟨version, flags, sectionCount, sections, hmac⟩

/-- `dtl_container_parse` on the supported 64-bit platforms. -/
def containerParse (data : Bytes) : Res Container := containerParseSz SIZE_MAX data

/-! ## Wire forms -/

/-- A table entry on the wire, reserved byte included. -/
def encodeEntry (e : TableEntry) : Bytes :=
  endianWriteU16le e.type ++ (e.codecId :: 0 :: (endianWriteU32le e.rawLen ++
    (endianWriteU32le e.compLen ++ endianWriteU32le e.offset)))

/-- The eight header bytes the CRC covers. -/
def headerSpan (flags : UInt8) (count : UInt16) : Bytes :=
  [0x44, 0x54, 0x4C, 0x01, VERSION, flags] ++ endianWriteU16le count

/-- The twelve header bytes. -/
def encodeHeader (flags : UInt8) (count : UInt16) : Bytes :=
  headerSpan flags count ++ endianWriteU32le (crc32 (headerSpan flags count))

@[simp] theorem encodeEntry_length (e : TableEntry) : (encodeEntry e).length = 16 := rfl

@[simp] theorem headerSpan_length (flags : UInt8) (count : UInt16) :
    (headerSpan flags count).length = HEADER_CRC_SPAN := rfl

@[simp] theorem encodeHeader_length (flags : UInt8) (count : UInt16) :
    (encodeHeader flags count).length = 12 := rfl

theorem containerReadEntry_inverts :
    Inverts containerReadEntry encodeEntry (fun _ => True) := by
  intro e r _
  have hz : ¬ ((0 : UInt8) ≠ 0) := by decide
  simp only [encodeEntry, List.append_assoc, List.cons_append, containerReadEntry,
    bufReadU16_write, bufReadU8_cons, bufReadU32_write, failIf_neg hz, Except.bind_ok_eq,
    Except.pure_eq_ok]

theorem containerReadEntry_exact : Exact containerReadEntry encodeEntry := by
  intro s e r h
  simp only [containerReadEntry, Except.bind_eq_ok, failIf_eq_ok, Except.pure_eq_ok,
    Except.ok.injEq, Prod.mk.injEq] at h
  obtain ⟨⟨type, s₁⟩, h1, ⟨codec, s₂⟩, h2, ⟨res, s₃⟩, h3, _, hres, ⟨raw, s₄⟩, h4, ⟨comp, s₅⟩, h5,
    ⟨off, s₆⟩, h6, rfl, rfl⟩ := h
  dsimp only at *
  have hz : res = 0 := by simpa using hres
  rw [bufReadU16_exact _ _ _ h1, bufReadU8_exact _ _ _ h2, bufReadU8_exact _ _ _ h3,
    bufReadU32_exact _ _ _ h4, bufReadU32_exact _ _ _ h5, bufReadU32_exact _ _ _ h6, hz]
  simp [encodeEntry]

/-! ## Parsing a laid-out container -/

/-- The section a table entry denotes in a blob region. -/
def sectionAt (region : Bytes) (e : TableEntry) : Section :=
  ⟨e, (region.drop e.offset.toNat).take e.compLen.toNat⟩

/-- What the parser requires of a table entry. -/
structure EntryFits (blobLen : Nat) (e : TableEntry) : Prop where
  raw_pos : 0 < e.rawLen.toNat
  raw_le : e.rawLen.toNat ≤ SECTION_MAX_RAW
  inside : e.offset.toNat + e.compLen.toNat ≤ blobLen

/-- The compressed sizes of a table. -/
def compTotal (es : List TableEntry) : Nat := (es.map (·.compLen.toNat)).sum

theorem containerTotal_eq (szMax : Nat) : ∀ (es : List TableEntry) (acc : Nat),
    acc + compTotal es ≤ szMax → containerTotal szMax es acc = .ok (acc + compTotal es)
  | [], acc, _ => by simp [containerTotal, compTotal]
  | e :: es, acc, h => by
    simp only [compTotal, List.map_cons, List.sum_cons] at h
    have hg : ¬ acc > szMax - e.compLen.toNat := by omega
    have ih := containerTotal_eq szMax es (acc + e.compLen.toNat) (by simp only [compTotal]; omega)
    simp only [containerTotal, failIf_neg hg, Except.bind_ok_eq, ih, compTotal, List.map_cons,
      List.sum_cons, Nat.add_assoc]

theorem containerResolveBlob_eq {base : Bytes} {blobLen : Nat} {e : TableEntry}
    (h : EntryFits blobLen e) : containerResolveBlob base blobLen e = .ok (sectionAt base e) := by
  have hpos := h.raw_pos
  have hin := h.inside
  have h1 : ¬ (e.rawLen = 0 ∨ e.rawLen.toNat > SECTION_MAX_RAW) := by
    rintro (h0 | h0)
    · rw [h0] at hpos; simp at hpos
    · have := h.raw_le; omega
  have h2 : ¬ e.compLen.toNat > blobLen := by omega
  have h3 : ¬ e.offset.toNat > blobLen - e.compLen.toNat := by omega
  simp only [containerResolveBlob, failIf_neg h1, failIf_neg h2, failIf_neg h3, Except.bind_ok_eq,
    Except.pure_eq_ok, sectionAt]

theorem mapM_eq_map {α β : Type} {f : α → Res β} {g : α → β} :
    ∀ (l : List α), (∀ a ∈ l, f a = .ok (g a)) → l.mapM f = .ok (l.map g)
  | [], _ => rfl
  | a :: l, h => by
    rw [List.mapM_cons, h a (by simp), mapM_eq_map l (fun x hx => h x (by simp [hx]))]
    rfl

theorem containerResolveBlobs_eq (szMax : Nat) (base : Bytes) {blobLen : Nat} {es : List TableEntry}
    (hfit : ∀ e ∈ es, EntryFits blobLen e) (htot : compTotal es ≤ blobLen)
    (hsz : compTotal es ≤ szMax) :
    containerResolveBlobs szMax es base blobLen = .ok (es.map (sectionAt base)) := by
  have h1 := containerTotal_eq szMax es 0 (by omega)
  rw [Nat.zero_add] at h1
  have h2 : ¬ compTotal es > blobLen := by omega
  simp only [containerResolveBlobs, h1, Except.bind_ok_eq, failIf_neg h2]
  exact mapM_eq_map es fun e he => containerResolveBlob_eq (hfit e he)

/-- The flags byte and the trailer agree. -/
def TrailerFits (flags : UInt8) : Option Bytes → Prop
  | none => flags = 0
  | some mac => flags = FLAG_HAS_HMAC ∧ mac.length = HMAC_LEN

theorem containerLocate_eq {flags : UInt8} {hmac : Option Bytes} (region : Bytes)
    (h : TrailerFits flags hmac) :
    containerLocate flags (region ++ hmac.getD []) = .ok (region.length, hmac) := by
  cases hmac with
  | none =>
    have hf : flags = 0 := h
    subst hf
    simp [containerLocate, FLAG_HAS_HMAC]
  | some mac =>
    obtain ⟨rfl, hlen⟩ := h
    have h1 : FLAG_HAS_HMAC &&& FLAG_HAS_HMAC ≠ 0 := by decide
    have h2 : ¬ (region ++ mac).length < HMAC_LEN := by rw [List.length_append]; omega
    have h3 : (region ++ mac).length - HMAC_LEN = region.length := by
      rw [List.length_append]; omega
    simp only [containerLocate, if_pos h1, Option.getD_some, failIf_neg h2, h3,
      Except.bind_ok_eq, List.drop_left, Except.pure_eq_ok]

theorem TrailerFits.flags_known {flags : UInt8} {hmac : Option Bytes} (h : TrailerFits flags hmac) :
    ¬ flags &&& ~~~FLAGS_KNOWN ≠ 0 := by
  cases hmac with
  | none => cases h; decide
  | some mac => obtain ⟨rfl, _⟩ := h; decide

theorem sectionAt_append {region tail : Bytes} {e : TableEntry}
    (h : e.offset.toNat + e.compLen.toNat ≤ region.length) :
    sectionAt (region ++ tail) e = sectionAt region e := by
  unfold sectionAt
  rw [List.drop_append_of_le_length (by omega), List.take_append_of_le_length]
  rw [List.length_drop]; omega

/-- How an accepted container is laid out. -/
structure Layout (flags : UInt8) (count : UInt16) (es : List TableEntry) (region : Bytes)
    (hmac : Option Bytes) : Prop where
  count_eq : es.length = count.toNat
  trailer : TrailerFits flags hmac
  fits : ∀ e ∈ es, EntryFits region.length e
  total : compTotal es ≤ region.length
  total_sz : compTotal es ≤ SIZE_MAX

/-- The bytes of a layout. -/
def layoutBytes (flags : UInt8) (count : UInt16) (es : List TableEntry) (region : Bytes)
    (hmac : Option Bytes) : Bytes :=
  encodeHeader flags count ++ (es.flatMap encodeEntry ++ (region ++ hmac.getD []))

theorem Layout.parse {flags : UInt8} {count : UInt16} {es : List TableEntry} {region : Bytes}
    {hmac : Option Bytes} (h : Layout flags count es region hmac) :
    containerParse (layoutBytes flags count es region hmac) =
      .ok ⟨VERSION, flags, count, es.map (sectionAt region), hmac⟩ := by
  obtain ⟨hcount, htr, hfit, htot, hsz⟩ := h
  have hmagic : ∀ r, bufReadU32 ([0x44, 0x54, 0x4C, 0x01] ++ r) = .ok (MAGIC, r) := fun r => rfl
  have hspan : (encodeHeader flags count ++ (es.flatMap encodeEntry ++ (region ++ hmac.getD []))).take
      HEADER_CRC_SPAN = headerSpan flags count := by
    rw [encodeHeader, List.append_assoc, ← headerSpan_length flags count, List.take_left]
  have hbytes : ∀ r, encodeHeader flags count ++ r = [0x44, 0x54, 0x4C, 0x01] ++ (VERSION ::
      flags :: (endianWriteU16le count ++ (endianWriteU32le (crc32 (headerSpan flags count)) ++ r))) := by
    intro r; rw [encodeHeader]; nth_rewrite 1 [headerSpan]; simp
  have htable := readMany_inverts containerReadEntry_inverts es (region ++ hmac.getD [])
    (fun _ _ => trivial)
  rw [hcount] at htable
  have hsecs := containerResolveBlobs_eq SIZE_MAX (region ++ hmac.getD []) hfit htot hsz
  have hmap : es.map (sectionAt (region ++ hmac.getD [])) = es.map (sectionAt region) :=
    List.map_congr_left fun e he => sectionAt_append (hfit e he).inside
  rw [hmap] at hsecs
  have hself : ∀ {α : Type} (a : α), ¬ a ≠ a := fun a h => h rfl
  unfold containerParse containerParseSz layoutBytes
  rw [hspan, hbytes]
  simp only [hmagic, bufReadU8_cons, bufReadU16_write, bufReadU32_write, Except.bind_ok_eq,
    failIf_neg (hself _), failIf_neg htr.flags_known, containerReadTable, htable,
    containerLocate_eq region htr, hsecs, Except.pure_eq_ok]

/-- **A container laid out as header, table, blob region and trailer parses to its sections.** -/
theorem containerParse_layout {flags : UInt8} {count : UInt16} {es : List TableEntry}
    {region : Bytes} {hmac : Option Bytes} (hcount : es.length = count.toNat)
    (htr : TrailerFits flags hmac) (hfit : ∀ e ∈ es, EntryFits region.length e)
    (htot : compTotal es ≤ region.length) (hsz : region.length ≤ SIZE_MAX) :
    containerParse (encodeHeader flags count ++
        (es.flatMap encodeEntry ++ (region ++ hmac.getD []))) =
      .ok ⟨VERSION, flags, count, es.map (sectionAt region), hmac⟩ :=
  Layout.parse ⟨hcount, htr, hfit, htot, htot.trans hsz⟩

/-! ## What an accepted container looks like -/

theorem containerTotal_ok {szMax : Nat} : ∀ {es : List TableEntry} {acc total : Nat},
    acc ≤ szMax → 2 ^ 32 ≤ szMax → containerTotal szMax es acc = .ok total →
      total = acc + compTotal es ∧ total ≤ szMax
  | [], acc, total, hacc, _, h => by
    cases h
    exact ⟨by simp [compTotal], hacc⟩
  | e :: es, acc, total, hacc, hsz, h => by
    have he := e.compLen.toNat_lt
    simp only [containerTotal, Except.bind_eq_ok, failIf_eq_ok] at h
    obtain ⟨_, hroom, h⟩ := h
    obtain ⟨rfl, hle⟩ := containerTotal_ok (by omega) hsz h
    refine ⟨?_, hle⟩
    simp only [compTotal, List.map_cons, List.sum_cons]
    omega

theorem containerResolveBlob_ok {base : Bytes} {blobLen : Nat} {e : TableEntry} {sec : Section}
    (h : containerResolveBlob base blobLen e = .ok sec) :
    EntryFits blobLen e ∧ sec = sectionAt base e := by
  simp only [containerResolveBlob, Except.bind_eq_ok, failIf_eq_ok, Except.pure_eq_ok,
    Except.ok.injEq] at h
  obtain ⟨_, hraw, _, hcomp, _, hoff, rfl⟩ := h
  refine ⟨⟨?_, ?_, ?_⟩, rfl⟩
  · have hne : e.rawLen ≠ 0 := fun h0 => hraw (.inl h0)
    rw [← UInt32.toNat_inj.ne] at hne
    exact Nat.pos_of_ne_zero hne
  · exact Nat.le_of_not_gt fun hgt => hraw (.inr hgt)
  · omega

theorem mapM_ok {α β : Type} {f : α → Res β} {P : α → Prop} {g : α → β}
    (hf : ∀ a b, f a = .ok b → P a ∧ b = g a) : ∀ {l : List α} {bs : List β},
      l.mapM f = .ok bs → (∀ a ∈ l, P a) ∧ bs = l.map g
  | [], bs, h => by
    cases h
    exact ⟨by simp, rfl⟩
  | a :: l, bs, h => by
    rw [List.mapM_cons] at h
    simp only [Except.bind_eq_ok, Except.pure_eq_ok, Except.ok.injEq] at h
    obtain ⟨b, hb, bs', hbs, rfl⟩ := h
    obtain ⟨hP, rfl⟩ := hf a b hb
    obtain ⟨hl, rfl⟩ := mapM_ok hf hbs
    exact ⟨List.forall_mem_cons.mpr ⟨hP, hl⟩, rfl⟩

theorem containerLocate_ok {flags : UInt8} {rest : Bytes} {blobLen : Nat} {hmac : Option Bytes}
    (hflags : ¬ flags &&& ~~~FLAGS_KNOWN ≠ 0)
    (h : containerLocate flags rest = .ok (blobLen, hmac)) :
    ∃ region : Bytes, region.length = blobLen ∧ rest = region ++ hmac.getD [] ∧
      TrailerFits flags hmac := by
  have hall : ∀ b : BitVec 8, b &&& ~~~1#8 = 0#8 → b = 0#8 ∨ b = 1#8 := by decide
  have hcases : flags = 0 ∨ flags = FLAG_HAS_HMAC := by
    rw [not_not, ← UInt8.toBitVec_inj] at hflags
    rw [← UInt8.toBitVec_inj, ← UInt8.toBitVec_inj]
    exact hall _ hflags
  rcases hcases with rfl | rfl
  · cases h
    exact ⟨rest, rfl, by simp, rfl⟩
  · have hone : FLAG_HAS_HMAC &&& FLAG_HAS_HMAC ≠ 0 := by decide
    simp only [containerLocate, if_pos hone, Except.bind_eq_ok, failIf_eq_ok, Except.pure_eq_ok,
      Except.ok.injEq, Prod.mk.injEq] at h
    obtain ⟨_, hlen, rfl, rfl⟩ := h
    refine ⟨rest.take (rest.length - HMAC_LEN), ?_, (List.take_append_drop _ _).symm, rfl, ?_⟩
    · rw [List.length_take]
      omega
    · rw [List.length_drop]
      omega

/-- **Every accepted container is the bytes of a layout, and parses to its sections.** -/
theorem containerParse_ok {data : Bytes} {c : Container} (h : containerParse data = .ok c) :
    ∃ es region, Layout c.flags c.sectionCount es region c.hmac ∧
      data = layoutBytes c.flags c.sectionCount es region c.hmac ∧ c.version = VERSION ∧
      c.sections = es.map (sectionAt region) := by
  simp only [containerParse, containerParseSz, Except.bind_eq_ok, failIf_eq_ok, Except.pure_eq_ok,
    Except.ok.injEq] at h
  obtain ⟨⟨magic, b₁⟩, h1, _, hmagic, ⟨version, b₂⟩, h2, _, hversion, ⟨flags, b₃⟩, h3, _, hflags,
    ⟨count, b₄⟩, h4, ⟨stored, b₅⟩, h5, _, hcrc, ⟨es, rest⟩, htable, ⟨blobLen, hmac⟩, hloc,
    sections, hblobs, rfl⟩ := h
  dsimp only at *
  simp only [containerResolveBlobs, Except.bind_eq_ok, failIf_eq_ok] at hblobs
  obtain ⟨total, htotal, _, hfits, hmap⟩ := hblobs
  obtain ⟨rfl, hsz⟩ := containerTotal_ok (by decide) (by decide) htotal
  rw [Nat.zero_add] at hfits hsz
  obtain ⟨region, rfl, rfl, htr⟩ := containerLocate_ok hflags hloc
  obtain ⟨hentries, rfl⟩ := mapM_ok (fun _ _ => containerResolveBlob_ok) hmap
  rw [not_not] at hmagic hversion hcrc
  subst hmagic hversion hcrc
  obtain ⟨hlen, htab⟩ := readMany_exact containerReadEntry_exact htable
  refine ⟨es, region, ⟨hlen, htr, hentries, by omega, hsz⟩, ?_, rfl, ?_⟩
  · have hhead : data = [0x44, 0x54, 0x4C, 0x01] ++ (VERSION :: flags :: (endianWriteU16le count ++
        (endianWriteU32le (crc32 (data.take HEADER_CRC_SPAN)) ++ (es.flatMap encodeEntry ++
          (region ++ hmac.getD []))))) := by
      rw [← htab]
      have hbytes : data = endianWriteU32le MAGIC ++ ([VERSION] ++ ([flags] ++ (endianWriteU16le count
          ++ (endianWriteU32le (crc32 (data.take HEADER_CRC_SPAN)) ++ b₅)))) := by
        rw [← bufReadU32_exact _ _ _ h5, ← bufReadU16_exact _ _ _ h4, ← bufReadU8_exact _ _ _ h3,
          ← bufReadU8_exact _ _ _ h2, ← bufReadU32_exact _ _ _ h1]
      exact hbytes
    have hspan : data.take HEADER_CRC_SPAN = headerSpan flags count := by
      rw [hhead]
      rfl
    rw [hspan] at hhead
    rw [hhead, layoutBytes, encodeHeader]
    nth_rewrite 2 [headerSpan]
    simp
  · exact List.map_congr_left fun e he => sectionAt_append (hentries e he).inside

end Dtl
