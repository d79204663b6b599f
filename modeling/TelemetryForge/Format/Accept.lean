import TelemetryForge.Format.Container
import TelemetryForge.Lib.Checked

/-!
# What the container parser accepts

`Machine.containerParse w` follows `dtl_container_parse` with a `size_t` of `w` bits, cursor and
pointers included: a pointer into the input is its index there, and an addition, subtraction or
product that does not fit a `size_t`, or a load outside the input, is a fault of its own.

* `Accepts` — the container format, stated on the bytes of the input alone.
* `Located` — where the fields, the blobs and the trailer of a parsed container lie.

Principal results: `containerParse_exactly` — the parser accepts exactly the format, places every
range inside the input and never wraps, for 32-bit and 64-bit `size_t`; `containerParse_simulates`
— it is the parser over unread bytes, error codes included.
-/

set_option autoImplicit false

namespace Dtl

open Checked

namespace Machine

/-- `dtl_buf`: the input, whose length is `len`, and the position. -/
structure Cursor where
  p : Bytes
  pos : Nat

/-- The common shape of the `dtl_buf_read_*` functions for words. -/
def bufRead {α : Type} (w n : Nat) (word : Bytes → α) (b : Cursor) : Run Err (α × Cursor) := do
  let avail ← sub b.p.length b.pos
  refuse (avail < n) .truncated
  let bytes ← loads b.p b.pos n
  let pos ← add w b.pos n
  return (word bytes, ⟨b.p, pos⟩)

/-- The first byte of a loaded word, and so on. -/
def word8 (bs : Bytes) : UInt8 := bs.getD 0 0

def word16 (bs : Bytes) : UInt16 := endianReadU16le (bs.getD 0 0) (bs.getD 1 0)

def word32 (bs : Bytes) : UInt32 :=
  endianReadU32le (bs.getD 0 0) (bs.getD 1 0) (bs.getD 2 0) (bs.getD 3 0)

/-- `dtl_buf_read_u8`. -/
def bufReadU8 (w : Nat) : Cursor → Run Err (UInt8 × Cursor) := bufRead w 1 word8

/-- `dtl_buf_read_u16`. -/
def bufReadU16 (w : Nat) : Cursor → Run Err (UInt16 × Cursor) := bufRead w 2 word16

/-- `dtl_buf_read_u32`. -/
def bufReadU32 (w : Nat) : Cursor → Run Err (UInt32 × Cursor) := bufRead w 4 word32

/-- `dtl_section`; `blob` is the index its pointer has in the input. -/
structure Section extends TableEntry where
  blob : Nat

/-- `dtl_container`; `hmac` is the index of its pointer, `none` for `NULL`. -/
structure Container where
  version : UInt8
  flags : UInt8
  sectionCount : UInt16
  sections : List Section
  hmac : Option Nat

/-- `sizeof(dtl_section)` where pointers have `w` bits. -/
def sizeofSection (w : Nat) : Nat := 16 + w / 8

/-- The loop body of `dtl_container_read_table`. -/
def containerReadEntry (w : Nat) (b : Cursor) : Run Err (TableEntry × Cursor) := do
  let (type, b) ← bufReadU16 w b
  let (codecId, b) ← bufReadU8 w b
  let (reserved, b) ← bufReadU8 w b
  refuse (reserved ≠ 0) .badRecord
  let (rawLen, b) ← bufReadU32 w b
  let (compLen, b) ← bufReadU32 w b
  let (offset, b) ← bufReadU32 w b
  return (⟨type, codecId, rawLen, compLen, offset⟩, b)

/-- The loop of `dtl_container_read_table`. -/
def containerReadEntries (w : Nat) : Nat → Cursor → Run Err (List TableEntry × Cursor)
  | 0, b => .ok ([], b)
  | n + 1, b => do
    let (e, b) ← containerReadEntry w b
    let (es, b) ← containerReadEntries w n b
    return (e :: es, b)

/-- `dtl_container_read_table`. -/
def containerReadTable (w : Nat) (count : UInt16) (b : Cursor) :
    Run Err (List TableEntry × Cursor) :=
  if count = 0 then .ok ([], b)
  else do
    let _ ← mul w count.toNat (sizeofSection w)
    containerReadEntries w count.toNat b

/-- The accumulation loop of `dtl_container_resolve_blobs`. -/
def containerTotal (w : Nat) : List TableEntry → Nat → Run Err Nat
  | [], total => .ok total
  | s :: secs, total => do
    let room ← sub (2 ^ w - 1) s.compLen.toNat
    refuse (total > room) .range
    let total ← add w total s.compLen.toNat
    containerTotal w secs total

/-- The body of the second loop of `dtl_container_resolve_blobs`. -/
def containerResolveBlob (w blobBase blobLen : Nat) (s : TableEntry) : Run Err Section := do
  refuse (s.rawLen = 0 ∨ s.rawLen.toNat > SECTION_MAX_RAW) .range
  refuse (s.compLen.toNat > blobLen) .range
  let room ← sub blobLen s.compLen.toNat
  refuse (s.offset.toNat > room) .range
  let blob ← add w blobBase s.offset.toNat
  return ⟨s, blob⟩

/-- `dtl_container_resolve_blobs`. -/
def containerResolveBlobs (w : Nat) (secs : List TableEntry) (blobBase blobLen : Nat) :
    Run Err (List Section) := do
  let total ← containerTotal w secs 0
  refuse (total > blobLen) .range
  secs.mapM (containerResolveBlob w blobBase blobLen)

/-- The blob region's length and the trailer, from the position after the table. -/
def containerLocate (flags : UInt8) (b : Cursor) : Run Err (Nat × Option Nat) := do
  let tail ← sub b.p.length b.pos
  if flags &&& FLAG_HAS_HMAC ≠ 0 then do
    refuse (tail < HMAC_LEN) .truncated
    let blobLen ← sub tail HMAC_LEN
    let hmac ← sub b.p.length HMAC_LEN
    return (blobLen, some hmac)
  else .ok (tail, none)

/-- `dtl_container_parse` with a `size_t` of `w` bits, from position 0. -/
def containerParse (w : Nat) (data : Bytes) : Run Err Container := do
  let (magic, b) ← bufReadU32 w ⟨data, 0⟩
  refuse (magic ≠ MAGIC) .badMagic
  let (version, b) ← bufReadU8 w b
  refuse (version ≠ VERSION) .badVersion
  let (flags, b) ← bufReadU8 w b
  refuse (flags &&& ~~~FLAGS_KNOWN ≠ 0) .badHeader
  let (sectionCount, b) ← bufReadU16 w b
  let (storedCrc, b) ← bufReadU32 w b
  let span ← loads data 0 HEADER_CRC_SPAN
  refuse (crc32 span ≠ storedCrc) .badHeader
  let (table, b) ← containerReadTable w sectionCount b
  let (blobLen, hmac) ← containerLocate flags b
  let sections ← containerResolveBlobs w table b.pos blobLen
  return ⟨version, flags, sectionCount, sections, hmac⟩

end Machine

/-! ## The format -/

/-- The little-endian value of a byte string. -/
def leNat : Bytes → Nat
  | [] => 0
  | b :: bs => b.toNat + 256 * leNat bs

/-- The little-endian value of the `n` bytes at a position. -/
def leAt (data : Bytes) (i n : Nat) : Nat := leNat ((data.drop i).take n)

/-- The section count, the end of the table, the trailer's length and the blob region's length. -/
def sectionCountAt (data : Bytes) : Nat := leAt data 6 2

def tableEnd (data : Bytes) : Nat := 12 + 16 * sectionCountAt data

def trailerLen (data : Bytes) : Nat := if leAt data 5 1 % 2 = 1 then 32 else 0

def blobLen (data : Bytes) : Nat := data.length - trailerLen data - tableEnd data

/-- The position of a table entry. -/
def entryPos (i : Nat) : Nat := 12 + 16 * i

/-- The container format. -/
structure Accepts (data : Bytes) : Prop where
  header : 12 ≤ data.length
  magic : data.take 4 = [0x44, 0x54, 0x4C, 0x01]
  version : leAt data 4 1 = 1
  flags : leAt data 5 1 = 0 ∨ leAt data 5 1 = 1
  crc : leAt data 8 4 = (crc32 (data.take 8)).toNat
  length : 12 + 16 * sectionCountAt data + trailerLen data ≤ data.length
  reserved : ∀ i < sectionCountAt data, leAt data (entryPos i + 3) 1 = 0
  raw : ∀ i < sectionCountAt data, 1 ≤ leAt data (entryPos i + 4) 4 ∧
    leAt data (entryPos i + 4) 4 ≤ 64 * 1024 * 1024
  inside : ∀ i < sectionCountAt data,
    leAt data (entryPos i + 12) 4 + leAt data (entryPos i + 8) 4 ≤ blobLen data
  total : ((List.range (sectionCountAt data)).map fun i => leAt data (entryPos i + 8) 4).sum ≤
    blobLen data

/-- What a parsed section's fields and blob pointer are, for the entry at index `i`. -/
structure SectionLocated (data : Bytes) (i : Nat) (s : Machine.Section) : Prop where
  type : s.type.toNat = leAt data (entryPos i) 2
  codecId : s.codecId.toNat = leAt data (entryPos i + 2) 1
  rawLen : s.rawLen.toNat = leAt data (entryPos i + 4) 4
  compLen : s.compLen.toNat = leAt data (entryPos i + 8) 4
  offset : s.offset.toNat = leAt data (entryPos i + 12) 4
  blob : s.blob = tableEnd data + s.offset.toNat
  after_table : tableEnd data ≤ s.blob
  before_trailer : s.blob + s.compLen.toNat ≤ data.length - trailerLen data

/-- What a parsed container's fields and pointers are. -/
structure Located (data : Bytes) (c : Machine.Container) : Prop where
  version : c.version.toNat = leAt data 4 1
  flags : c.flags.toNat = leAt data 5 1
  sectionCount : c.sectionCount.toNat = leAt data 6 2
  sections_length : c.sections.length = leAt data 6 2
  sections : ∀ (i : Nat) (h : i < c.sections.length), SectionLocated data i c.sections[i]
  hmac : c.hmac = if leAt data 5 1 % 2 = 1 then some (data.length - 32) else none

/-! ## Words -/

theorem take_one_eq {data : Bytes} {i : Nat} (h : i + 1 ≤ data.length) :
    ∃ a, (data.drop i).take 1 = [a] := by
  refine List.length_eq_one_iff.mp ?_
  rw [List.length_take, List.length_drop]
  omega

theorem take_two_eq {data : Bytes} {i : Nat} (h : i + 2 ≤ data.length) :
    ∃ a b, (data.drop i).take 2 = [a, b] := by
  refine List.length_eq_two.mp ?_
  rw [List.length_take, List.length_drop]
  omega

theorem take_four_eq {data : Bytes} {i : Nat} (h : i + 4 ≤ data.length) :
    ∃ a b c d, (data.drop i).take 4 = [a, b, c, d] := by
  have hlow : i + 2 ≤ data.length := by omega
  have hhigh : i + 2 + 2 ≤ data.length := by omega
  obtain ⟨a, b, hab⟩ := take_two_eq hlow
  obtain ⟨c, d, hcd⟩ := take_two_eq hhigh
  refine ⟨a, b, c, d, ?_⟩
  rw [← List.drop_drop] at hcd
  rw [show (4 : Nat) = 2 + 2 by rfl, List.take_add, hab, hcd]
  rfl

namespace Machine

theorem word8_toNat {data : Bytes} {i : Nat} (h : i + 1 ≤ data.length) :
    (word8 ((data.drop i).take 1)).toNat = leAt data i 1 := by
  obtain ⟨a, ha⟩ := take_one_eq h
  rw [leAt, ha]
  simp [word8, leNat]

theorem word16_toNat {data : Bytes} {i : Nat} (h : i + 2 ≤ data.length) :
    (word16 ((data.drop i).take 2)).toNat = leAt data i 2 := by
  obtain ⟨a, b, hab⟩ := take_two_eq h
  rw [leAt, hab]
  simp [word16, leNat, endianReadU16le_toNat]

theorem word32_toNat {data : Bytes} {i : Nat} (h : i + 4 ≤ data.length) :
    (word32 ((data.drop i).take 4)).toNat = leAt data i 4 := by
  obtain ⟨a, b, c, d, habcd⟩ := take_four_eq h
  rw [leAt, habcd]
  simp only [word32, leNat, endianReadU32le_toNat, List.getD_cons_zero, List.getD_cons_succ]
  omega

/-! ## Exact acceptance, function by function -/

/-- The position lies in an input whose length is a `size_t`. -/
structure Cursor.Ok (w : Nat) (b : Cursor) : Prop where
  pos_le : b.pos ≤ b.p.length
  len_lt : b.p.length < 2 ^ w

theorem bufRead_exactly {α : Type} {w n : Nat} {word : Bytes → α} {data : Bytes} {pos : Nat}
    (hb : Cursor.Ok w ⟨data, pos⟩) (next : Nat) (hnext : pos + n = next) :
    Exactly (bufRead w n word ⟨data, pos⟩) (next ≤ data.length)
      (word ((data.drop pos).take n), ⟨data, next⟩) := by
  subst hnext
  have hpos : pos ≤ data.length := hb.pos_le
  have hlen : data.length < 2 ^ w := hb.len_lt
  unfold bufRead
  apply Exactly.step (sub_ok hpos)
  apply Exactly.unless (fun h => by omega)
  intro h
  apply Exactly.step (loads_ok (p := data) (i := pos) (by omega))
  apply Exactly.step (add_ok (a := pos) (by omega))
  exact Exactly.ret _ (by omega)

/-- The table entry whose bytes start at a position. -/
def entryAt (data : Bytes) (pos : Nat) : TableEntry where
  type := word16 ((data.drop pos).take 2)
  codecId := word8 ((data.drop (pos + 2)).take 1)
  rawLen := word32 ((data.drop (pos + 4)).take 4)
  compLen := word32 ((data.drop (pos + 8)).take 4)
  offset := word32 ((data.drop (pos + 12)).take 4)

theorem Cursor.Ok.move {w : Nat} {data : Bytes} {pos pos' : Nat} (hb : Cursor.Ok w ⟨data, pos⟩)
    (h : pos' ≤ data.length) : Cursor.Ok w ⟨data, pos'⟩ := ⟨h, hb.len_lt⟩

theorem containerReadEntry_exactly {w : Nat} {data : Bytes} {pos : Nat}
    (hb : Cursor.Ok w ⟨data, pos⟩) :
    Exactly (containerReadEntry w ⟨data, pos⟩)
      (pos + 16 ≤ data.length ∧ leAt data (pos + 3) 1 = 0)
      (entryAt data pos, ⟨data, pos + 16⟩) := by
  have hres : pos + 4 ≤ data.length →
      (¬ word8 ((data.drop (pos + 3)).take 1) ≠ 0 ↔ leAt data (pos + 3) 1 = 0) := by
    intro h
    rw [not_not, ← UInt8.toNat_inj, word8_toNat (by omega)]
    rfl
  unfold containerReadEntry
  apply Exactly.call (bufRead_exactly hb (pos + 2) rfl) (fun h => by omega)
  intro h1
  apply Exactly.call (bufRead_exactly (hb.move h1) (pos + 3) rfl) (fun h => by omega)
  intro h2
  apply Exactly.call (bufRead_exactly (hb.move h2) (pos + 4) rfl) (fun h => by omega)
  intro h3
  apply Exactly.unless (fun h => (hres h3).mpr h.2)
  intro h0
  apply Exactly.call (bufRead_exactly (hb.move h3) (pos + 8) rfl) (fun h => by omega)
  intro h4
  apply Exactly.call (bufRead_exactly (hb.move h4) (pos + 12) rfl) (fun h => by omega)
  intro h5
  apply Exactly.call (bufRead_exactly (hb.move h5) (pos + 16) rfl) (fun h => by omega)
  intro h6
  exact Exactly.ret (entryAt data pos, _) ⟨h6, (hres h3).mp h0⟩

/-- The `n` table entries whose bytes start at a position. -/
def entriesAt (data : Bytes) (pos n : Nat) : List TableEntry :=
  (List.range n).map fun i => entryAt data (pos + 16 * i)

theorem entriesAt_succ (data : Bytes) (pos n : Nat) :
    entriesAt data pos (n + 1) = entryAt data pos :: entriesAt data (pos + 16) n := by
  rw [entriesAt, List.range_succ_eq_map, List.map_cons, List.map_map]
  congr 1
  apply List.map_congr_left
  intro i _
  show entryAt data (pos + 16 * (i + 1)) = entryAt data (pos + 16 + 16 * i)
  congr 1
  omega

theorem containerReadEntries_exactly {w : Nat} {data : Bytes} : ∀ (n : Nat) {pos : Nat},
    Cursor.Ok w ⟨data, pos⟩ → Exactly (containerReadEntries w n ⟨data, pos⟩)
      (pos + 16 * n ≤ data.length ∧ ∀ i < n, leAt data (pos + 16 * i + 3) 1 = 0)
      (entriesAt data pos n, ⟨data, pos + 16 * n⟩)
  | 0, pos, hb => Exactly.ret _ ⟨hb.pos_le, fun i hi => absurd hi (Nat.not_lt_zero i)⟩
  | n + 1, pos, hb => by
    rw [containerReadEntries, entriesAt_succ]
    apply Exactly.call (containerReadEntry_exactly hb)
    · rintro ⟨h1, hi⟩
      exact ⟨by omega, hi 0 (by omega)⟩
    rintro ⟨h16, h0⟩
    apply Exactly.call (containerReadEntries_exactly n (hb.move h16))
    · rintro ⟨h1, hi⟩
      refine ⟨by omega, fun i hlt => ?_⟩
      rw [show pos + 16 + 16 * i + 3 = pos + 16 * (i + 1) + 3 by omega]
      exact hi (i + 1) (by omega)
    rintro ⟨h1, hi⟩
    rw [show pos + 16 * (n + 1) = pos + 16 + 16 * n by omega]
    refine Exactly.ret (entryAt data pos :: entriesAt data (pos + 16) n, _) ⟨h1, fun i hlt => ?_⟩
    cases i with
    | zero => exact h0
    | succ i =>
      rw [show pos + 16 * (i + 1) + 3 = pos + 16 + 16 * i + 3 by omega]
      exact hi i (by omega)

theorem containerReadTable_exactly {w : Nat} (hw : w = 32 ∨ w = 64) {data : Bytes} {pos : Nat}
    (hb : Cursor.Ok w ⟨data, pos⟩) (count : UInt16) :
    Exactly (containerReadTable w count ⟨data, pos⟩)
      (pos + 16 * count.toNat ≤ data.length ∧
        ∀ i < count.toNat, leAt data (pos + 16 * i + 3) 1 = 0)
      (entriesAt data pos count.toNat, ⟨data, pos + 16 * count.toNat⟩) := by
  unfold containerReadTable
  split
  · rename_i h0
    subst h0
    exact containerReadEntries_exactly 0 hb
  · -- at most 65535 entries of 20 or 24 bytes
    have hsize : count.toNat * sizeofSection w < 2 ^ w := by
      have := count.toNat_lt
      rcases hw with rfl | rfl <;> simp only [sizeofSection] <;> omega
    exact Exactly.step (mul_ok hsize) (containerReadEntries_exactly _ hb)

theorem containerTotal_exactly {w : Nat} (hw : 32 ≤ w) : ∀ (es : List TableEntry) {acc : Nat},
    acc < 2 ^ w → Exactly (containerTotal w es acc) (acc + compTotal es < 2 ^ w)
      (acc + compTotal es)
  | [], acc, hacc => Exactly.ret _ (by simpa [compTotal] using hacc)
  | e :: es, acc, hacc => by
    have he := e.compLen.toNat_lt
    have hpow : 2 ^ 32 ≤ 2 ^ w := Nat.pow_le_pow_right (by decide) hw
    have hcons : compTotal (e :: es) = e.compLen.toNat + compTotal es := by simp [compTotal]
    rw [containerTotal, hcons, ← Nat.add_assoc]
    apply Exactly.step (sub_ok (by omega))
    apply Exactly.unless (fun h => by omega)
    intro hroom
    apply Exactly.step (add_ok (by omega))
    exact containerTotal_exactly hw es (by omega)

theorem containerResolveBlob_exactly {w base len : Nat} (h : base + len < 2 ^ w) (e : TableEntry) :
    Exactly (containerResolveBlob w base len e) (EntryFits len e) ⟨e, base + e.offset.toNat⟩ := by
  have hraw : e.rawLen = 0 ↔ e.rawLen.toNat = 0 := by rw [← UInt32.toNat_inj]; rfl
  unfold containerResolveBlob
  apply Exactly.unless
  · rintro ⟨hpos, hle, -⟩
    rw [hraw]
    omega
  intro hlimits
  rw [hraw] at hlimits
  apply Exactly.unless
  · rintro ⟨-, -, hin⟩
    omega
  intro hcomp
  apply Exactly.step (sub_ok (by omega))
  apply Exactly.unless
  · rintro ⟨-, -, hin⟩
    omega
  intro hoff
  apply Exactly.step (add_ok (by omega))
  exact Exactly.ret _ ⟨by omega, by omega, by omega⟩

theorem containerResolveBlobs_exactly {w base len : Nat} (hw : 32 ≤ w) (h : base + len < 2 ^ w)
    (es : List TableEntry) :
    Exactly (containerResolveBlobs w es base len)
      (compTotal es ≤ len ∧ ∀ e ∈ es, EntryFits len e)
      (es.map fun e => ⟨e, base + e.offset.toNat⟩) := by
  have hpow : 0 < 2 ^ w := Nat.two_pow_pos w
  unfold containerResolveBlobs
  apply Exactly.call (containerTotal_exactly hw es hpow) (fun h => by omega)
  intro _
  apply Exactly.unless (fun h => by omega)
  intro htotal
  rw [show (compTotal es ≤ len ∧ ∀ e ∈ es, EntryFits len e) ↔ ∀ e ∈ es, EntryFits len e from
    ⟨fun h => h.2, fun h => ⟨by omega, h⟩⟩]
  exact Exactly.mapM (containerResolveBlob_exactly h) es

/-- The trailer's length for a flags byte. -/
def trailerOf (flags : UInt8) : Nat := if flags = 1 then HMAC_LEN else 0

theorem containerLocate_exactly {flags : UInt8} (hflags : flags = 0 ∨ flags = 1) {data : Bytes}
    {pos : Nat} (hpos : pos ≤ data.length) :
    Exactly (containerLocate flags ⟨data, pos⟩) (pos + trailerOf flags ≤ data.length)
      (data.length - trailerOf flags - pos,
        if flags = 1 then some (data.length - HMAC_LEN) else none) := by
  unfold containerLocate
  apply Exactly.step (sub_ok hpos)
  rcases hflags with rfl | rfl
  · exact Exactly.ret _ hpos
  · have h32 : HMAC_LEN = 32 := rfl
    have htr : trailerOf 1 = HMAC_LEN := rfl
    rw [htr, Nat.sub_right_comm]
    apply Exactly.unless (fun h => by omega)
    intro h
    apply Exactly.step (sub_ok (by omega))
    apply Exactly.step (sub_ok (a := data.length) (by omega))
    exact Exactly.ret _ (by omega)

/-- The container whose fields and pointers are read off the input. -/
def parsedAt (data : Bytes) : Container where
  version := word8 ((data.drop 4).take 1)
  flags := word8 ((data.drop 5).take 1)
  sectionCount := word16 ((data.drop 6).take 2)
  sections := (entriesAt data 12 (word16 ((data.drop 6).take 2)).toNat).map fun e =>
    ⟨e, 12 + 16 * (word16 ((data.drop 6).take 2)).toNat + e.offset.toNat⟩
  hmac := if word8 ((data.drop 5).take 1) = 1 then some (data.length - HMAC_LEN) else none

theorem flags_known_iff (flags : UInt8) :
    ¬ flags &&& ~~~FLAGS_KNOWN ≠ 0 ↔ flags = 0 ∨ flags = 1 := by
  have hall : ∀ b : BitVec 8, b &&& ~~~1#8 = 0#8 ↔ b = 0#8 ∨ b = 1#8 := by decide
  rw [not_not, ← UInt8.toBitVec_inj, ← UInt8.toBitVec_inj, ← UInt8.toBitVec_inj]
  exact hall flags.toBitVec

theorem magic_iff {data : Bytes} (h : 4 ≤ data.length) :
    word32 ((data.drop 0).take 4) = MAGIC ↔ data.take 4 = [0x44, 0x54, 0x4C, 0x01] := by
  have h4 : 0 + 4 ≤ data.length := by omega
  obtain ⟨a, b, c, d, habcd⟩ := take_four_eq h4
  rw [List.drop_zero] at habcd ⊢
  rw [habcd]
  constructor
  · intro heq
    rw [← endianWriteU32le_read a b c d]
    show endianWriteU32le (word32 [a, b, c, d]) = _
    rw [heq]
    rfl
  · intro heq
    rw [heq]
    rfl

theorem entryAt_mem_iff {data : Bytes} {pos n : Nat} {P : TableEntry → Prop} :
    (∀ e ∈ entriesAt data pos n, P e) ↔ ∀ i < n, P (entryAt data (pos + 16 * i)) := by
  simp only [entriesAt, List.mem_map, List.mem_range]
  constructor
  · intro h i hi
    exact h _ ⟨i, hi, rfl⟩
  · rintro h _ ⟨i, hi, rfl⟩
    exact h i hi

theorem compTotal_entriesAt {data : Bytes} {pos n : Nat} (h : pos + 16 * n ≤ data.length) :
    compTotal (entriesAt data pos n) =
      ((List.range n).map fun i => leAt data (pos + 16 * i + 8) 4).sum := by
  rw [compTotal, entriesAt, List.map_map]
  congr 1
  apply List.map_congr_left
  intro i hi
  have hlt : i < n := List.mem_range.mp hi
  exact word32_toNat (by omega)

/-- A table entry fits exactly when the integers at its fixed positions do. -/
theorem entryFits_iff {data : Bytes} {pos len : Nat} (h : pos + 16 ≤ data.length) :
    EntryFits len (entryAt data pos) ↔
      (1 ≤ leAt data (pos + 4) 4 ∧ leAt data (pos + 4) 4 ≤ 64 * 1024 * 1024) ∧
        leAt data (pos + 12) 4 + leAt data (pos + 8) 4 ≤ len := by
  have hraw : (entryAt data pos).rawLen.toNat = leAt data (pos + 4) 4 := word32_toNat (by omega)
  have hcomp : (entryAt data pos).compLen.toNat = leAt data (pos + 8) 4 := word32_toNat (by omega)
  have hoff : (entryAt data pos).offset.toNat = leAt data (pos + 12) 4 := word32_toNat (by omega)
  constructor
  · rintro ⟨h1, h2, h3⟩
    rw [hraw] at h1 h2
    rw [hcomp, hoff] at h3
    exact ⟨⟨h1, h2⟩, h3⟩
  · rintro ⟨⟨h1, h2⟩, h3⟩
    refine ⟨?_, ?_, ?_⟩
    · rw [hraw]; exact h1
    · rw [hraw]; exact h2
    · rw [hcomp, hoff]; exact h3

/-- The flags byte, as a number and as a byte. -/
theorem flags_cases {data : Bytes} (h : 6 ≤ data.length) :
    (leAt data 5 1 = 0 ↔ word8 ((data.drop 5).take 1) = 0) ∧
      (leAt data 5 1 = 1 ↔ word8 ((data.drop 5).take 1) = 1) := by
  rw [← word8_toNat (by omega), ← UInt8.toNat_inj, ← UInt8.toNat_inj]
  exact ⟨Iff.rfl, Iff.rfl⟩

theorem trailerOf_flags {data : Bytes} (h : 6 ≤ data.length)
    (hflags : word8 ((data.drop 5).take 1) = 0 ∨ word8 ((data.drop 5).take 1) = 1) :
    trailerOf (word8 ((data.drop 5).take 1)) = trailerLen data := by
  rcases hflags with h0 | h1
  · rw [trailerLen, (flags_cases h).1.mpr h0, h0]
    rfl
  · rw [trailerLen, (flags_cases h).2.mpr h1, h1]
    rfl

/-- **The parser returns the container read off the input exactly for inputs of the format.** -/
theorem containerParse_parsedAt {w : Nat} (hw : w = 32 ∨ w = 64) {data : Bytes}
    (hlen : data.length < 2 ^ w) :
    Exactly (containerParse w data) (Accepts data) (parsedAt data) := by
  have hb : Cursor.Ok w ⟨data, 0⟩ := ⟨Nat.zero_le _, hlen⟩
  unfold containerParse
  -- the header
  apply Exactly.call (bufRead_exactly hb 4 rfl) (fun h => by have := h.header; omega)
  intro h4
  apply Exactly.unless (fun h => not_not.mpr ((magic_iff h4).mpr h.magic))
  intro hmagic
  apply Exactly.call (bufRead_exactly (hb.move h4) 5 rfl) (fun h => by have := h.header; omega)
  intro h5
  have hversion_iff : ¬ word8 ((data.drop 4).take 1) ≠ VERSION ↔ leAt data 4 1 = 1 := by
    rw [not_not, ← UInt8.toNat_inj, word8_toNat h5]
    rfl
  apply Exactly.unless (fun h => hversion_iff.mpr h.version)
  intro hversion
  apply Exactly.call (bufRead_exactly (hb.move h5) 6 rfl) (fun h => by have := h.header; omega)
  intro h6
  have hflags_iff := or_congr (flags_cases h6).1 (flags_cases h6).2
  apply Exactly.unless (fun h => (flags_known_iff _).mpr (hflags_iff.mp h.flags))
  intro hflags
  rw [flags_known_iff] at hflags
  apply Exactly.call (bufRead_exactly (hb.move h6) 8 rfl) (fun h => by have := h.header; omega)
  intro h8
  apply Exactly.call (bufRead_exactly (hb.move h8) 12 rfl) (fun h => by have := h.header; omega)
  intro h12
  have hcrc_iff : ¬ crc32 (data.take 8) ≠ word32 ((data.drop 8).take 4) ↔
      leAt data 8 4 = (crc32 (data.take 8)).toNat := by
    rw [not_not, ← UInt32.toNat_inj, word32_toNat h12, eq_comm]
  apply Exactly.step (loads_ok (p := data) (i := 0) (n := 8) (by omega))
  apply Exactly.unless (fun h => hcrc_iff.mpr h.crc)
  intro hcrc
  -- the table and the regions after it
  have hcount : (word16 ((data.drop 6).take 2)).toNat = sectionCountAt data := word16_toNat h8
  have htrailer := trailerOf_flags h6 hflags
  apply Exactly.call (containerReadTable_exactly hw (hb.move h12) _)
  · intro h
    have := h.length
    exact ⟨by omega, fun i hi => h.reserved i (by omega)⟩
  rintro ⟨htable, hreserved⟩
  apply Exactly.call (containerLocate_exactly hflags htable)
  · intro h
    have := h.length
    omega
  intro htail
  rw [hcount] at htable hreserved htail
  rw [htrailer] at htail
  have hsize : data.length - trailerOf (word8 ((data.drop 5).take 1)) -
      (12 + 16 * (word16 ((data.drop 6).take 2)).toNat) = blobLen data := by
    rw [htrailer, hcount]
    rfl
  have hfits : (∀ e ∈ entriesAt data 12 (word16 ((data.drop 6).take 2)).toNat,
      EntryFits (blobLen data) e) ↔ ∀ i < sectionCountAt data,
        (1 ≤ leAt data (entryPos i + 4) 4 ∧ leAt data (entryPos i + 4) 4 ≤ 64 * 1024 * 1024) ∧
          leAt data (entryPos i + 12) 4 + leAt data (entryPos i + 8) 4 ≤ blobLen data := by
    rw [entryAt_mem_iff, hcount]
    exact forall₂_congr fun i hi => entryFits_iff (by omega)
  have htotal : compTotal (entriesAt data 12 (word16 ((data.drop 6).take 2)).toNat) =
      ((List.range (sectionCountAt data)).map fun i => leAt data (entryPos i + 8) 4).sum := by
    rw [hcount]
    exact compTotal_entriesAt htable
  have hroom : 12 + 16 * (word16 ((data.drop 6).take 2)).toNat + blobLen data < 2 ^ w := by
    unfold blobLen tableEnd
    omega
  simp only [hsize]
  apply Exactly.call (containerResolveBlobs_exactly (by omega) hroom _)
  · intro h
    rw [htotal]
    exact ⟨h.total, hfits.mpr fun i hi => ⟨h.raw i hi, h.inside i hi⟩⟩
  rintro ⟨hsum, hentries⟩
  have hall := hfits.mp hentries
  exact Exactly.ret (parsedAt data)
    { header := h12
      magic := (magic_iff h4).mp (not_not.mp hmagic)
      version := hversion_iff.mp hversion
      flags := hflags_iff.mpr hflags
      crc := hcrc_iff.mp hcrc
      length := htail
      reserved := hreserved
      raw := fun i hi => (hall i hi).1
      inside := fun i hi => (hall i hi).2
      total := htotal ▸ hsum }

theorem entriesAt_getElem (data : Bytes) (pos n : Nat) {i : Nat}
    (h : i < (entriesAt data pos n).length) :
    (entriesAt data pos n)[i] = entryAt data (pos + 16 * i) := by
  simp [entriesAt]

theorem parsedAt_located {data : Bytes} (h : Accepts data) : Located data (parsedAt data) := by
  have hhead := h.header
  have hend := h.length
  have hcount : (word16 ((data.drop 6).take 2)).toNat = sectionCountAt data :=
    word16_toNat (by omega)
  have hsections : (parsedAt data).sections.length = sectionCountAt data := by
    simp [parsedAt, entriesAt, hcount]
  refine ⟨word8_toNat (by omega), word8_toNat (by omega), hcount, hsections, fun i hi => ?_, ?_⟩
  · have hlt : i < sectionCountAt data := by omega
    have hsec : (parsedAt data).sections[i] =
        ⟨entryAt data (entryPos i), tableEnd data + (entryAt data (entryPos i)).offset.toNat⟩ := by
      simp only [parsedAt, List.getElem_map, entriesAt_getElem, hcount]
      rfl
    have hpos : entryPos i + 16 ≤ data.length := by
      simp only [entryPos]
      omega
    have hcomp : (entryAt data (entryPos i)).compLen.toNat = leAt data (entryPos i + 8) 4 :=
      word32_toNat (by omega)
    have hoff : (entryAt data (entryPos i)).offset.toNat = leAt data (entryPos i + 12) 4 :=
      word32_toNat (by omega)
    have hin := h.inside i hlt
    rw [hsec]
    refine ⟨word16_toNat (by omega), word8_toNat (by omega), word32_toNat (by omega), hcomp, hoff,
      rfl, Nat.le_add_right _ _, ?_⟩
    show tableEnd data + _ + _ ≤ _
    rw [hcomp, hoff]
    simp only [blobLen, tableEnd] at hin ⊢
    omega
  · have h6 : 6 ≤ data.length := by omega
    have hcases := flags_cases h6
    show (if word8 ((data.drop 5).take 1) = 1 then _ else _) = _
    rcases h.flags with h0 | h1
    · rw [hcases.1.mp h0, h0]
      rfl
    · rw [hcases.2.mp h1, h1]
      rfl

/-- **`dtl_container_parse` accepts exactly the format**, places every field, blob and trailer where
the format says, and neither wraps a `size_t` nor reads outside the input. -/
theorem containerParse_exactly {w : Nat} (hw : w = 32 ∨ w = 64) {data : Bytes}
    (hlen : data.length < 2 ^ w) :
    ((∃ c, containerParse w data = .ok c) ↔ Accepts data) ∧
      (∀ c, containerParse w data = .ok c → Located data c) ∧
      containerParse w data ≠ .error .wrap ∧ containerParse w data ≠ .error .outside := by
  have hex := containerParse_parsedAt hw hlen
  refine ⟨⟨?_, ?_⟩, ?_, hex.no_fault⟩
  · rintro ⟨c, hc⟩
    exact (hex.ok_iff.mp hc).1
  · intro h
    exact ⟨_, hex.1 h⟩
  · intro c hc
    obtain ⟨h, rfl⟩ := hex.ok_iff.mp hc
    exact parsedAt_located h

theorem containerParse_exactly_empty : Accepts (encodeHeader FLAG_HAS_HMAC 0 ++ List.replicate 32 0) :=
  (containerParse_exactly (w := 32) (.inl rfl) (by decide)).1.mp
    (Except.exists_ok (show _ = true by decide +kernel))

/-! ## The parser over unread bytes -/

/-- The same word, and the unread bytes of a cursor that stands at `lo` or later. -/
def ReadsTo {α : Type} (data : Bytes) (lo : Nat) (x : α × Cursor) (y : α × Bytes) : Prop :=
  x.1 = y.1 ∧ x.2.p = data ∧ (lo ≤ x.2.pos ∧ x.2.pos ≤ data.length) ∧ y.2 = data.drop x.2.pos

section Simulation

variable {w : Nat} {data : Bytes}

theorem bufRead_simulates {α : Type} {n pos : Nat} {word : Bytes → α}
    {read : Bytes → Res (α × Bytes)} (hb : Cursor.Ok w ⟨data, pos⟩)
    (hok : ∀ bs r : Bytes, bs.length = n → read (bs ++ r) = .ok (word bs, r))
    (hshort : ∀ bs : Bytes, bs.length < n → read bs = .error .truncated) :
    Simulates (ReadsTo data (pos + n)) (bufRead w n word ⟨data, pos⟩) (read (data.drop pos)) := by
  have hpos : pos ≤ data.length := hb.pos_le
  by_cases h : pos + n ≤ data.length
  · have hsplit := hok ((data.drop pos).take n) ((data.drop pos).drop n) (by
      rw [List.length_take, List.length_drop]
      omega)
    rw [List.take_append_drop, List.drop_drop] at hsplit
    rw [(bufRead_exactly hb (pos + n) rfl).1 h, hsplit]
    exact Simulates.pure ⟨rfl, rfl, ⟨le_refl _, h⟩, rfl⟩
  · refine .inr ⟨.truncated, ?_, hshort _ (by rw [List.length_drop]; omega)⟩
    have hsub : sub data.length pos = (.ok (data.length - pos) : Run Err Nat) := sub_ok hpos
    simp only [bufRead, hsub, refuse, Except.bind_ok_eq]
    rw [if_pos (by omega)]
    rfl

theorem bufReadU8_simulates {pos : Nat} (hb : Cursor.Ok w ⟨data, pos⟩) :
    Simulates (ReadsTo data (pos + 1)) (bufReadU8 w ⟨data, pos⟩) (Dtl.bufReadU8 (data.drop pos)) := by
  refine bufRead_simulates hb (fun bs r h => ?_) (fun bs h => ?_)
  · obtain ⟨a, rfl⟩ := List.length_eq_one_iff.mp h
    rfl
  · rw [List.length_eq_zero_iff.mp (by omega : bs.length = 0)]
    rfl

theorem bufReadU16_simulates {pos : Nat} (hb : Cursor.Ok w ⟨data, pos⟩) :
    Simulates (ReadsTo data (pos + 2)) (bufReadU16 w ⟨data, pos⟩) (Dtl.bufReadU16 (data.drop pos)) := by
  refine bufRead_simulates hb (fun bs r h => ?_) (fun bs h => ?_)
  · obtain ⟨a, b, rfl⟩ := List.length_eq_two.mp h
    rfl
  · match bs, h with
    | [], _ => rfl
    | [_], _ => rfl

theorem bufReadU32_simulates {pos : Nat} (hb : Cursor.Ok w ⟨data, pos⟩) :
    Simulates (ReadsTo data (pos + 4)) (bufReadU32 w ⟨data, pos⟩) (Dtl.bufReadU32 (data.drop pos)) := by
  refine bufRead_simulates hb (fun bs r h => ?_) (fun bs h => ?_)
  · match bs, h with
    | [_, _, _, _], _ => rfl
  · match bs, h with
    | [], _ => rfl
    | [_], _ => rfl
    | [_, _], _ => rfl
    | [_, _, _], _ => rfl

theorem containerReadEntry_simulates {pos : Nat} (hb : Cursor.Ok w ⟨data, pos⟩) :
    Simulates (ReadsTo data pos) (containerReadEntry w ⟨data, pos⟩)
      (Dtl.containerReadEntry (data.drop pos)) := by
  unfold containerReadEntry Dtl.containerReadEntry
  apply Simulates.bind (bufReadU16_simulates hb)
  rintro ⟨type, _, p1⟩ ⟨_, _⟩ ⟨rfl, rfl, ⟨l1, h1⟩, rfl⟩
  apply Simulates.bind (bufReadU8_simulates (hb.move h1))
  rintro ⟨codecId, _, p2⟩ ⟨_, _⟩ ⟨rfl, rfl, ⟨l2, h2⟩, rfl⟩
  apply Simulates.bind (bufReadU8_simulates (hb.move h2))
  rintro ⟨reserved, _, p3⟩ ⟨_, _⟩ ⟨rfl, rfl, ⟨l3, h3⟩, rfl⟩
  apply Simulates.unless
  intro _
  apply Simulates.bind (bufReadU32_simulates (hb.move h3))
  rintro ⟨rawLen, _, p4⟩ ⟨_, _⟩ ⟨rfl, rfl, ⟨l4, h4⟩, rfl⟩
  apply Simulates.bind (bufReadU32_simulates (hb.move h4))
  rintro ⟨compLen, _, p5⟩ ⟨_, _⟩ ⟨rfl, rfl, ⟨l5, h5⟩, rfl⟩
  apply Simulates.bind (bufReadU32_simulates (hb.move h5))
  rintro ⟨offset, _, p6⟩ ⟨_, _⟩ ⟨rfl, rfl, ⟨l6, h6⟩, rfl⟩
  exact Simulates.pure ⟨rfl, rfl, ⟨by dsimp only at *; omega, h6⟩, rfl⟩

theorem containerReadEntries_simulates : ∀ (n : Nat) {data : Bytes} {pos : Nat},
    Cursor.Ok w ⟨data, pos⟩ → Simulates (ReadsTo data pos) (containerReadEntries w n ⟨data, pos⟩)
      (PrefixCode.readMany Dtl.containerReadEntry n (data.drop pos))
  | 0, _, _, hb => Simulates.pure ⟨rfl, rfl, ⟨le_refl _, hb.pos_le⟩, rfl⟩
  | n + 1, _, _, hb => by
    rw [containerReadEntries, PrefixCode.readMany]
    apply Simulates.bind (containerReadEntry_simulates hb)
    rintro ⟨e, _, p1⟩ ⟨_, _⟩ ⟨rfl, rfl, ⟨l1, h1⟩, rfl⟩
    apply Simulates.bind (containerReadEntries_simulates n (hb.move h1))
    rintro ⟨es, _, p2⟩ ⟨_, _⟩ ⟨rfl, rfl, ⟨l2, h2⟩, rfl⟩
    exact Simulates.pure ⟨rfl, rfl, ⟨le_trans l1 l2, h2⟩, rfl⟩

theorem containerReadTable_simulates (hw : w = 32 ∨ w = 64) {pos : Nat} (count : UInt16)
    (hb : Cursor.Ok w ⟨data, pos⟩) : Simulates (ReadsTo data pos) (containerReadTable w count ⟨data, pos⟩)
      (Dtl.containerReadTable count (data.drop pos)) := by
  unfold containerReadTable
  split
  · rename_i h0
    subst h0
    exact containerReadEntries_simulates 0 hb
  · have hsize : count.toNat * sizeofSection w < 2 ^ w := by
      have := count.toNat_lt
      rcases hw with rfl | rfl <;> simp only [sizeofSection] <;> omega
    exact Simulates.step (mul_ok hsize) (containerReadEntries_simulates _ hb)

theorem containerTotal_simulates (hw : 32 ≤ w) : ∀ (es : List TableEntry) (acc : Nat),
    Simulates Eq (containerTotal w es acc) (Dtl.containerTotal (2 ^ w - 1) es acc)
  | [], _ => Simulates.pure rfl
  | e :: es, acc => by
    have he := e.compLen.toNat_lt
    have hpow : 2 ^ 32 ≤ 2 ^ w := Nat.pow_le_pow_right (by decide) hw
    rw [containerTotal, Dtl.containerTotal]
    apply Simulates.step (sub_ok (by omega))
    apply Simulates.unless
    intro hroom
    exact Simulates.step (add_ok (by omega)) (containerTotal_simulates hw es _)

/-- A section with the bytes its pointer refers to. -/
def Section.view (data : Bytes) (s : Section) : Dtl.Section :=
  ⟨s.toTableEntry, (data.drop s.blob).take s.compLen.toNat⟩

theorem containerResolveBlob_simulates {base len : Nat} (h : base + len < 2 ^ w) (e : TableEntry) :
    Simulates (fun s s' => s.view data = s') (containerResolveBlob w base len e)
      (Dtl.containerResolveBlob (data.drop base) len e) := by
  unfold containerResolveBlob Dtl.containerResolveBlob
  apply Simulates.unless
  intro _
  apply Simulates.unless
  intro hcomp
  apply Simulates.step (sub_ok (by omega))
  apply Simulates.unless
  intro hoff
  apply Simulates.step (add_ok (by omega))
  refine Simulates.pure ?_
  rw [Section.view, List.drop_drop]

theorem containerResolveBlobs_simulates (hw : 32 ≤ w) {base len : Nat} (h : base + len < 2 ^ w)
    (es : List TableEntry) :
    Simulates (List.Forall₂ fun s s' => s.view data = s') (containerResolveBlobs w es base len)
      (Dtl.containerResolveBlobs (2 ^ w - 1) es (data.drop base) len) := by
  unfold containerResolveBlobs Dtl.containerResolveBlobs
  apply Simulates.bind (containerTotal_simulates hw es 0)
  rintro total _ rfl
  apply Simulates.unless
  intro _
  exact Simulates.mapM (containerResolveBlob_simulates h) es

/-- The blob region's length, and the trailer's bytes. -/
def LocatesTo (data : Bytes) (pos : Nat) (x : Nat × Option Nat) (y : Nat × Option Bytes) : Prop :=
  x.1 = y.1 ∧ x.1 ≤ data.length - pos ∧ x.2.map (fun i => (data.drop i).take HMAC_LEN) = y.2

theorem containerLocate_simulates {pos : Nat} (flags : UInt8) (hpos : pos ≤ data.length) :
    Simulates (LocatesTo data pos) (containerLocate flags ⟨data, pos⟩)
      (Dtl.containerLocate flags (data.drop pos)) := by
  have hlen : (data.drop pos).length = data.length - pos := List.length_drop
  unfold containerLocate Dtl.containerLocate
  apply Simulates.step (sub_ok hpos)
  rw [hlen]
  split
  · apply Simulates.unless
    intro htail
    apply Simulates.step (sub_ok (by omega))
    apply Simulates.step (sub_ok (a := data.length) (by omega))
    refine Simulates.pure ⟨rfl, Nat.sub_le _ _, ?_⟩
    have hdrop : pos + (data.length - pos - HMAC_LEN) = data.length - HMAC_LEN := by omega
    rw [Option.map_some, List.drop_drop, hdrop, List.take_of_length_le]
    rw [List.length_drop]
    omega
  · exact Simulates.pure ⟨rfl, le_refl _, rfl⟩

end Simulation

/-- A container with the bytes its pointers refer to. -/
def Container.view (data : Bytes) (c : Container) : Dtl.Container :=
  ⟨c.version, c.flags, c.sectionCount, c.sections.map (Section.view data),
    c.hmac.map fun i => (data.drop i).take HMAC_LEN⟩

/-- **The pointer-level parser is the parser over unread bytes, error codes included.** -/
theorem containerParse_simulates {w : Nat} (hw : w = 32 ∨ w = 64) {data : Bytes}
    (hlen : data.length < 2 ^ w) :
    Simulates (fun c c' => c.view data = c') (containerParse w data)
      (containerParseSz (2 ^ w - 1) data) := by
  have hb : Cursor.Ok w ⟨data, 0⟩ := ⟨Nat.zero_le _, hlen⟩
  unfold containerParse containerParseSz
  apply Simulates.bind (bufReadU32_simulates hb)
  rintro ⟨magic, _, p1⟩ ⟨_, _⟩ ⟨rfl, rfl, ⟨l1, h1⟩, rfl⟩
  apply Simulates.unless
  intro _
  apply Simulates.bind (bufReadU8_simulates (hb.move h1))
  rintro ⟨version, _, p2⟩ ⟨_, _⟩ ⟨rfl, rfl, ⟨l2, h2⟩, rfl⟩
  apply Simulates.unless
  intro _
  apply Simulates.bind (bufReadU8_simulates (hb.move h2))
  rintro ⟨flags, _, p3⟩ ⟨_, _⟩ ⟨rfl, rfl, ⟨l3, h3⟩, rfl⟩
  apply Simulates.unless
  intro _
  apply Simulates.bind (bufReadU16_simulates (hb.move h3))
  rintro ⟨count, _, p4⟩ ⟨_, _⟩ ⟨rfl, rfl, ⟨l4, h4⟩, rfl⟩
  apply Simulates.bind (bufReadU32_simulates (hb.move h4))
  rintro ⟨crc, _, p5⟩ ⟨_, _⟩ ⟨rfl, rfl, ⟨l5, h5⟩, rfl⟩
  dsimp only at *
  apply Simulates.step (loads_ok (n := HEADER_CRC_SPAN) (by
    have : HEADER_CRC_SPAN = 8 := rfl
    omega))
  apply Simulates.unless
  intro _
  apply Simulates.bind (containerReadTable_simulates hw count (hb.move h5))
  rintro ⟨table, _, p6⟩ ⟨_, _⟩ ⟨rfl, rfl, ⟨l6, h6⟩, rfl⟩
  apply Simulates.bind (containerLocate_simulates flags h6)
  rintro ⟨blobLen, hmac⟩ ⟨_, _⟩ ⟨rfl, hblob, rfl⟩
  dsimp only at *
  apply Simulates.bind (containerResolveBlobs_simulates (by omega) (by omega) table)
  intro sections sections' hsections
  have hviews : List.Forall₂ Eq (sections.map (Section.view _)) sections' :=
    List.forall₂_map_left_iff.mpr hsections
  rw [List.forall₂_eq_eq_eq] at hviews
  subst hviews
  exact Simulates.pure rfl

end Machine

end Dtl
