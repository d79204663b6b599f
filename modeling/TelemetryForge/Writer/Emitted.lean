import TelemetryForge.Writer.Log

/-!
# What a writer emitted

`Emitted` says of bytes that `dtl_writer_finish` handed them out.

Principal results: `layout_prefix` — the bytes of a container whose blobs fill its blob region are a
proper prefix of no accepted container's, and have no accepted proper prefix; `Emitted.torn` — so a
container that was written in part is rejected.
-/

set_option autoImplicit false

namespace Dtl

open PrefixCode

/-- The bytes were handed out by a writer. -/
def Emitted (out : Bytes) : Prop := ∃ w l, Refines w l ∧ (writerFinish w).1 = .ok out

theorem Emitted.parse {out : Bytes} (h : Emitted out) : ∃ cont, containerParse out = .ok cont := by
  obtain ⟨w, l, hr, hfin⟩ := h
  exact ⟨_, (writerFinish_holds hr hfin).1⟩

/-! ## Prefixes -/

theorem encodeHeader_parts {flags flags' : UInt8} {count count' : UInt16} {r r' : Bytes}
    (h : encodeHeader flags count ++ r = encodeHeader flags' count' ++ r') :
    flags = flags' ∧ count = count' ∧ r = r' := by
  obtain ⟨hhead, hrest⟩ := List.append_inj h (by simp)
  obtain ⟨hspan, -⟩ := List.append_inj hhead (by simp)
  simp only [headerSpan, List.cons_append, List.nil_append, List.cons.injEq, true_and] at hspan
  obtain ⟨hflags, hcount⟩ := hspan
  have hread := congrArg (fun bs => bufReadU16 (bs ++ [])) hcount
  simp only [bufReadU16_write, Except.ok.injEq, Prod.mk.injEq, and_true] at hread
  exact ⟨hflags, hread, hrest⟩

theorem encodeEntries_parts {es es' : List TableEntry} {r r' : Bytes} (hlen : es.length = es'.length)
    (h : es.flatMap encodeEntry ++ r = es'.flatMap encodeEntry ++ r') : es = es' ∧ r = r' := by
  have hread := readMany_inverts containerReadEntry_inverts es r fun _ _ => trivial
  have hread' := readMany_inverts containerReadEntry_inverts es' r' fun _ _ => trivial
  rw [h, hlen, hread', Except.ok.injEq, Prod.mk.injEq] at hread
  exact ⟨hread.1.symm, hread.2.symm⟩

/-- The length of the trailer follows from the flags. -/
theorem TrailerFits.length_eq {flags : UInt8} {hmac hmac' : Option Bytes} (h : TrailerFits flags hmac)
    (h' : TrailerFits flags hmac') : (hmac.getD []).length = (hmac'.getD []).length := by
  rcases hmac with - | mac <;> rcases hmac' with - | mac'
  · rfl
  · cases h.symm.trans h'.1
  · cases h'.symm.trans h.1
  · exact h.2.trans h'.2.symm

/-- **A container whose blobs fill its blob region has no accepted proper prefix.** -/
theorem layout_prefix {flags : UInt8} {count : UInt16} {es : List TableEntry} {region left : Bytes}
    {hmac : Option Bytes} {cont : Container} (hcount : es.length = count.toNat)
    (htrailer : TrailerFits flags hmac) (hfill : region.length ≤ compTotal es)
    (hleft : left <+: layoutBytes flags count es region hmac) (h : containerParse left = .ok cont) :
    left = layoutBytes flags count es region hmac := by
  obtain ⟨es', region', hlayout, hbytes, -, -⟩ := containerParse_ok h
  obtain ⟨tail, htail⟩ := hleft
  have heq := htail
  rw [hbytes, layoutBytes, layoutBytes, List.append_assoc] at heq
  -- the same header and, after it, as many table entries
  obtain ⟨hflags, hcount', hrest⟩ := encodeHeader_parts heq
  rw [List.append_assoc] at hrest
  obtain ⟨hes, hregion⟩ := encodeEntries_parts (by rw [hlayout.count_eq, hcount', hcount]) hrest
  subst hes
  have hfits := hlayout.trailer
  rw [hflags] at hfits
  have hlen := congrArg List.length hregion
  simp only [List.length_append] at hlen
  have htrail := hfits.length_eq htrailer
  have htotal := hlayout.total
  -- so nothing of the blob region is missing
  have hnil : tail = [] := List.length_eq_zero_iff.mp (by omega)
  rwa [hnil, List.append_nil] at htail

/-- **What was emitted is cut nowhere: a prefix that is accepted is all of it.** -/
theorem Emitted.torn {out left : Bytes} {cont : Container} (h : Emitted out) (hleft : left <+: out)
    (hparse : containerParse left = .ok cont) : left = out := by
  obtain ⟨w, l, hr, hfin⟩ := h
  have hread := sections_readable hr.closed
  obtain ⟨-, hsec, -, hbytes⟩ := writerFinish_ok hfin
  have hroom := hr.room
  rw [hsec] at hroom
  have hmax : WRITER_MAX_SECTIONS = 64 := rfl
  have hlayout : out = layoutBytes (writerFlags w) (UInt16.ofNat w.sections.length)
      (writerTable 0 w.sections) (writerRegion w.sections)
      (w.hmacKey.map fun key => hashMac key (writerBody w)) := by
    rw [hbytes, layoutBytes, writerBody, List.append_assoc, List.append_assoc]
  rw [hlayout] at hleft ⊢
  refine layout_prefix ?_ ?_ ?_ hleft hparse
  · rw [writerTable_length, UInt16.toNat_ofNat']
    simp at hroom
    omega
  · cases hkey : w.hmacKey with
    | none => simp [TrailerFits, writerFlags, hkey]
    | some key => exact ⟨by simp [writerFlags, hkey], hashMac_length key _⟩
  · rw [writerTable_compTotal, writerRegion_length hread]

end Dtl
