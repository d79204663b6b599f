import TelemetryForge.Lib.Faults
import TelemetryForge.Writer.Latch
import TelemetryForge.Writer.Outcome

/-!
# Emitting with whatever memory there is

The arena may refuse any of the writer's requests, and the dictionary encoder any of its own.  A group
that the writer takes in is then emitted as with plenty of memory, or the emission ends with
`DTL_ERR_OOM`: no refusal makes it end with another code, or closes a section that differs.

Principal results: `writerCompress_degrades` — the retry loop with any memory against the loop with
plenty; `emitGroups_ends` — the loop over the groups ends as `emitVerdict` says, or with `DTL_ERR_OOM`.
-/

set_option autoImplicit false

namespace Dtl

open Faults

/-- No error but the want of memory. -/
def OomOnly (rc : Option Err) : Prop := rc = none ∨ rc = some .oom

/-! ## The accumulator -/

theorem writerReserve_tlv (w : Writer) (need : Nat) : (writerReserve w need).2.tlv = w.tlv := by
  unfold writerReserve
  split
  · rfl
  split
  · rfl
  split
  · rfl
  split
  · rfl
  dsimp only
  split <;> rfl

theorem writerReserve_scarce {w : Writer} {need : Nat} (h : OomOnly w.err)
    (hroom : w.tlv.length + need ≤ SIZE_MAX) : OomOnly (writerReserve w need).2.err := by
  unfold writerReserve
  split
  · exact h
  split
  · exact h
  rw [if_neg (Nat.not_lt.mpr hroom)]
  split
  · exact Or.inr rfl
  dsimp only
  split
  · exact h
  · exact Or.inr rfl

theorem writerPut_length_le (bs : Bytes) (w : Writer) :
    (writerPut bs w).tlv.length ≤ w.tlv.length + bs.length := by
  have htlv := writerReserve_tlv w bs.length
  unfold writerPut
  dsimp only
  split
  · rw [List.length_append, htlv]
  · rw [htlv]
    exact Nat.le_add_right _ _

theorem writerPut_scarce {bs : Bytes} {w : Writer} (h : OomOnly w.err)
    (hroom : w.tlv.length + bs.length ≤ SIZE_MAX) : OomOnly (writerPut bs w).err := by
  have hreserve := writerReserve_scarce h hroom
  unfold writerPut
  dsimp only
  split <;> exact hreserve

theorem writerPuts_scarce : ∀ (chunks : List Bytes) {w : Writer}, OomOnly w.err →
    w.tlv.length + chunks.flatten.length ≤ SIZE_MAX → OomOnly (writerPuts.run w chunks).err
  | [], _, h, _ => h
  | bs :: chunks, w, h, hroom => by
    rw [List.flatten_cons, List.length_append] at hroom
    have hlen := writerPut_length_le bs w
    exact writerPuts_scarce chunks (writerPut_scarce h (by omega))
      (show (writerPut bs w).tlv.length + chunks.flatten.length ≤ SIZE_MAX by omega)

/-! ## One record -/

theorem pairChunks_flatten : ∀ {ps : List ConfigPair}, (∀ p ∈ ps, ¬ p.Long) →
    (pairChunks ps).flatten = ps.flatMap encodeConfigPair
  | [], _ => rfl
  | p :: ps, h => by
    rw [List.forall_mem_cons] at h
    rw [pairChunks, if_neg h.1]
    simp only [List.flatten_cons, pairChunks_flatten h.2, List.flatMap_cons, encodeConfigPair,
      encodeConfigStr, List.append_assoc, List.cons_append, List.nil_append]

/-- An encoder that does not give up has appended the payload. -/
theorem Record.chunks_flatten {slack : Slack} {rec : Record} (h : rec.givesUp slack = none) :
    (rec.chunks slack).flatten = rec.payload slack := by
  cases rec with
  | config r =>
    have hshort : ∀ p ∈ readN slack.pairs r.pairs r.pairCount.toNat, ¬ p.Long := by
      intro p hp hlong
      rw [Record.givesUp, if_pos ⟨p, hp, hlong⟩] at h
      cases h
    rw [Record.chunks, List.flatten_cons, pairChunks_flatten hshort, Record.payload]
    rfl
  | sensor r => simp [Record.chunks, Record.payload, List.flatMap_def]
  | other t ht => cases h
  | _ => simp [Record.chunks, Record.payload]

theorem Record.Encodable.givesUp {slack : Slack} {rec : Record} (h : rec.Encodable slack) :
    rec.givesUp slack = none := by
  cases rec with
  | config r =>
    refine if_neg ?_
    rintro ⟨p, hp, hlong⟩
    have hshort := h p hp
    rcases hlong with hlong | hlong <;> omega
  | other t ht => exact h.elim
  | _ => rfl

/-- **A record that can be encoded is added, or memory ran out.** -/
theorem writerAddRecord_ends {slack : Slack} {w : Writer} {rec : Record} (henc : rec.Encodable slack)
    (hlen : (rec.payload slack).length ≤ 0xFFFF) (herr : w.err = none) (hsec : w.inSection = true)
    (hroom : w.tlv.length + 3 + (rec.payload slack).length ≤ SIZE_MAX) :
    EndsAs .oom none (w.Appends (encodeTlv ⟨rec.tag, rec.payload slack⟩))
      (checked (writerAddRecord slack w rec)) := by
  have hgive := henc.givesUp
  have hfill : writerPayload slack rec (writerU16 0 (writerU8 rec.tag w)) =
      writerPuts.run w (itemChunks rec.tag (rec.chunks slack)) := by
    rw [writerPayload_chunks, hgive]
    rfl
  have hscarce : OomOnly (writerPuts.run w (itemChunks rec.tag (rec.chunks slack))).err := by
    refine writerPuts_scarce _ (Or.inl herr) ?_
    have hflat := Record.chunks_flatten hgive
    have hzero : (endianWriteU16le 0).length = 2 := rfl
    simp only [itemChunks, List.flatten_cons, List.length_append, hflat, List.length_singleton, hzero]
    omega
  cases hrc : (writerAddRecord slack w rec).1 with
  | none =>
    rw [checked_eq_ok.mpr ⟨hrc, rfl⟩]
    exact ⟨rfl, (writerAddRecord_ok hrc).2⟩
  | some rc =>
    have herror : checked (writerAddRecord slack w rec) = .error rc := by
      rw [checked, hrc]
    rw [herror]
    refine Or.inl ?_
    rw [writerAddRecord, writerEmitTlv, if_neg (by simp [herr]), if_neg (by simp [hsec])] at hrc
    dsimp only at hrc
    rw [hfill] at hrc
    split at hrc
    · rename_i hne
      rcases hscarce with h | h
      · exact absurd h hne
      · exact (Option.some.inj (h.symm.trans hrc)).symm
    · -- the appends were made, so the length is that of the payload
      rename_i hok
      have hok := not_ne_iff.mp hok
      rw [← hfill] at hok hrc
      have ha := (emits_item rec.tag (writerPayload_emits slack rec) w hok).2
      obtain ⟨-, t2⟩ := item_steps (writerPayload_emits slack rec) hok
      have hplen : (writerPayload slack rec (writerU16 0 (writerU8 rec.tag w))).tlv.length -
          (writerU16 0 (writerU8 rec.tag w)).tlv.length = (rec.payload slack).length := by
        rw [ha.tlv, t2]
        simp
        omega
      rw [hplen, if_neg (Nat.not_lt.mpr hlen)] at hrc
      cases hrc

/-- Records that fit are taken in, or memory ran out. -/
theorem emitRecords_ends {e : EmitEnv} : ∀ (recs : List Record) {w : Writer}, w.err = none →
    w.inSection = true → (∀ rec ∈ recs, rec.Parseable ∧ (rec.payload e.slack).length ≤ 0xFFFF) →
    w.tlv.length + ((recs.map (Record.item e.slack)).flatMap encodeTlv).length ≤ SIZE_MAX →
      EndsAs .oom none (w.Appends ((recs.map (Record.item e.slack)).flatMap encodeTlv))
        (emitRecords e recs w)
  | [], _, herr, _, _, _ => ⟨rfl, .refl herr⟩
  | rec :: recs, w, herr, hsec, hrecs, hroom => by
    rw [List.forall_mem_cons] at hrecs
    rw [List.map_cons, List.flatMap_cons, List.length_append, encodeTlv_length] at hroom
    obtain ⟨⟨hparse, hlen⟩, hrest⟩ := hrecs
    have hpay : (Record.item e.slack rec).val.length = (rec.payload e.slack).length := rfl
    have hadd := writerAddRecord_ends (Record.encodable_of_limits e.slack hparse.1 hparse.2) hlen herr
      hsec (by omega)
    rw [emitRecords, List.map_cons, List.flatMap_cons]
    refine hadd.bind fun w' happ => ?_
    have htlv : w'.tlv.length = w.tlv.length + (3 + (rec.payload e.slack).length) := by
      rw [happ.tlv, List.length_append, encodeTlv_length]
    exact (emitRecords_ends recs happ.err (happ.inSection.trans hsec) hrest (by omega)).imp
      fun w'' _ happ' => happ.trans happ'

/-! ## Closing a section -/

/-- **An encoder with any memory**: as with plenty of it, or `DTL_ERR_OOM`. -/
theorem encode_degrades {codec : Codec} (h : codec ∈ codecTable) {env env' : CodecEnv}
    (hs : env'.scratchOk = true) (raw : Bytes) (cap : Nat) :
    Degrades .oom (codec.encode env raw cap) (codec.encode env' raw cap) := by
  simp only [codecTable, List.mem_cons, List.not_mem_nil, or_false] at h
  rcases h with rfl | rfl | rfl | rfl | rfl | rfl | rfl
  case inr.inr.inr.inr.inl =>
    -- only the dictionary encoder asks for memory of its own
    show Degrades .oom (dictEncode env.scratchOk raw cap) (dictEncode env'.scratchOk raw cap)
    rw [hs]
    cases env.scratchOk with
    | true => exact .refl _
    | false =>
      unfold dictEncode
      split
      · exact .refl _
      · exact Or.inl rfl
  all_goals exact .refl _

/-- **The retry loop with any memory**: as with plenty of it, or `DTL_ERR_OOM`. -/
theorem writerCompress_degrades {codec : Codec} (h : codec ∈ codecTable) {env env' : Nat → CodecEnv}
    (hs : ∀ cap, (env' cap).scratchOk = true) (raw : Bytes) {arena' : Arena} (hr : arena'.Roomy)
    (arena : Arena) {cap : Nat} (h0 : 0 < cap) (hmax : cap ≤ CLOSE_MAX_CAP) :
    Degrades .oom (writerCompress codec env raw arena cap).1 (writerCompress codec env' raw arena' cap).1 := by
  induction hn : SECTION_MAX_RAW * 2 + 1 - cap using Nat.strongRecOn generalizing cap arena arena' with
  | ind n ih =>
    by_cases halloc : (arenaAlloc arena cap).1 = true
    swap
    · refine Or.inl ?_
      rw [writerCompress]
      dsimp only
      rw [if_neg halloc]
    have hdone : ∀ out, codec.encode (env cap) raw cap = .ok out →
        (writerCompress codec env raw arena cap).1 = .ok out := by
      intro out henc
      rw [writerCompress]
      dsimp only
      rw [if_pos halloc, henc]
    have hfails : ∀ rc, codec.encode (env cap) raw cap = .error rc →
        (writerCompress codec env raw arena cap).1 =
          if rc = .range ∧ cap ≤ SECTION_MAX_RAW * 2 then
            (writerCompress codec env raw (arenaAlloc arena cap).2 (cap * 2 + 64)).1
          else .error rc := by
      intro rc henc
      conv => lhs; rw [writerCompress]
      dsimp only
      rw [if_pos halloc, henc]
      exact apply_ite Prod.fst _ _ _
    rcases encode_degrades h (hs cap) raw cap with henc | henc
    · exact Or.inl (hfails _ henc)
    cases hrich : codec.encode (env' cap) raw cap with
    | ok out =>
      rw [hdone _ (henc.trans hrich), writerCompress_done hr h0 hmax hrich]
      exact .refl _
    | error rc =>
      rw [hfails _ (henc.trans hrich)]
      split
      · rename_i hagain
        obtain ⟨rfl, hcap⟩ := hagain
        have hnext : cap * 2 + 64 ≤ CLOSE_MAX_CAP := by
          rw [CLOSE_MAX_CAP]
          omega
        rw [writerCompress_retries hr h0 hmax hrich hcap]
        exact ih _ (by omega) (hr.alloc cap) _ (by omega) hnext rfl
      · rename_i hstop
        rw [writerCompress_gives_up hr h0 hmax hrich hstop]
        exact .refl _

/-- **Compression ends as the verdict of the codec says, or memory ran out.** -/
theorem writerCompress_ends {codecId : UInt8} {codec : Codec} (hget : codecGet codecId = some codec)
    {raw : Bytes} (env : Nat → CodecEnv) (arena : Arena) (hraw : raw.length ≤ SECTION_MAX_RAW) :
    EndsAs .oom (closeVerdict codecId raw) (fun out => out.length ≤ closeCap raw.length * 2 + 64)
      (writerCompress codec env raw arena (closeCap raw.length)).1 := by
  have htable := List.mem_of_find?_eq_some hget
  obtain ⟨plan, hplan⟩ := codecTable_encode raw codec htable
  have hplenty : (⟨fun _ => false, 0⟩ : Arena).Roomy := fun _ => rfl
  have hscratch : ∀ cap, ((fun _ => ⟨true, 0⟩ : Nat → CodecEnv) cap).scratchOk = true := fun _ => rfl
  have hrawval : SECTION_MAX_RAW = 67108864 := rfl
  have hlow : Degrades .oom (writerCompress codec env raw arena (closeCap raw.length)).1 _ :=
    writerCompress_degrades htable hscratch raw hplenty arena
      (by rw [closeCap]; omega) (by rw [closeCap, CLOSE_MAX_CAP]; omega)
  have hstop := hplan.stop
  rw [codecGet_id hget] at hstop
  rw [writerCompress_eq hplan hscratch hplenty hraw, hstop] at hlow
  exact hlow.endsAs hplan.size

/-- A writer between two sections: no error, none open. -/
structure Writer.Between (w : Writer) : Prop where
  err : w.err = none
  outside : w.inSection = false

/-- What closing a section leaves: room for one blob less. -/
structure Writer.Closes (w w' : Writer) : Prop extends w'.Between where
  sections : w'.sections.length = w.sections.length + 1
  blobTotal : w'.blobTotal ≤ w.blobTotal + BLOB_MAX

/-- **A section ends as the verdict of its codec says, or memory ran out.** -/
theorem checkedEnd_ends {e : EmitEnv} {w : Writer} (herr : w.err = none) (hsec : w.inSection = true)
    (hcodec : (codecGet w.curCodec).isSome = true) (hpos : 0 < w.tlv.length)
    (hmax : w.tlv.length ≤ WALK_DEFAULT_MAX_DECODE) :
    EndsAs .oom (closeVerdict w.curCodec w.tlv) w.Closes (checkedEnd e w) := by
  obtain ⟨codec, hget⟩ := Option.isSome_iff_exists.mp hcodec
  have hmaxval : WALK_DEFAULT_MAX_DECODE = 16777216 := rfl
  have hrawval : SECTION_MAX_RAW = 67108864 := rfl
  have hends := writerCompress_ends hget (e.codec w.sections.length) w.arena
    (show w.tlv.length ≤ SECTION_MAX_RAW by omega)
  rw [closeCap] at hends
  unfold checkedEnd writerEndSection
  rw [if_neg (by simp [herr]), if_neg (by simp [hsec]), if_neg (by omega), hget]
  dsimp only
  cases hrun : (writerCompress codec (e.codec w.sections.length) w.tlv w.arena
      (w.tlv.length + w.tlv.length / 2 + 64)).1 with
  | error rc =>
    rw [hrun] at hends
    exact hends
  | ok out =>
    obtain ⟨hv, hsize⟩ := hends.value hrun
    dsimp only
    rw [if_neg (by omega)]
    refine ⟨hv, ⟨herr, rfl⟩, by simp, ?_⟩
    have hmod := Nat.mod_le out.length (2 ^ 32)
    simp only [Writer.blobTotal, List.map_append, List.sum_append, List.map_cons, List.map_nil,
      List.sum_cons, List.sum_nil, UInt32.toNat_ofNat', BLOB_MAX, closeCap]
    omega

/-! ## The groups -/

section Emission

variable {e : EmitEnv}

/-- **A group ends as its verdict says, or memory ran out.** -/
theorem emitGroup_ends {w : Writer} {g : Group} (hw : w.Between) (hg : g.Sound e.slack)
    (hroom : w.sections.length < WRITER_MAX_SECTIONS) :
    EndsAs .oom g.verdict w.Closes (emitGroup e w g) := by
  have hbegin : checkedBegin w g.type g.codecId = .ok { w with
      inSection := true, curType := g.type, curCodec := g.codecId, tlv := [] } := by
    unfold checkedBegin writerBeginSection
    rw [if_neg (by simp [hw.err]), if_neg (by simp [hw.outside]), if_neg (by omega)]
  have hfits := hg.fits
  have hmaxval : WALK_DEFAULT_MAX_DECODE = 16777216 := rfl
  have hraw := hg.raw_eq zeroSlack
  rw [emitGroup, hbegin, Except.bind_ok_eq, ← Option.none_or (o := g.verdict)]
  refine (emitRecords_ends (e := e) g.records (w := { w with
      inSection := true, curType := g.type, curCodec := g.codecId, tlv := [] }) hw.err rfl hg.records
    ?_).bind fun w' happ => ?_
  · rw [List.length_nil, Nat.zero_add]
    exact hfits.trans (by rw [SIZE_MAX]; omega)
  · have htlv : w'.tlv = (g.log e.slack).raw := happ.tlv
    have hcur : w'.curCodec = g.codecId := happ.curCodec
    have hverdict : g.verdict = closeVerdict w'.curCodec w'.tlv := by
      rw [Group.verdict, hraw, hcur, htlv]
    rw [hverdict]
    refine (checkedEnd_ends happ.err happ.inSection (hcur ▸ hg.codec) (htlv ▸ hg.raw_pos)
      (htlv ▸ hfits)).imp fun w'' _ hclose => ?_
    have hsecs : w'.sections = w.sections := happ.sections
    exact ⟨hclose.toBetween, hsecs ▸ hclose.sections, by
      rw [show w.blobTotal = w'.blobTotal by rw [Writer.blobTotal, Writer.blobTotal, hsecs]]
      exact hclose.blobTotal⟩

/-- **The loop over the groups ends as the verdict says, or memory ran out.** -/
theorem emitGroups_ends : ∀ {gs : List Group} {w : Writer}, w.Between →
    (∀ g ∈ gs, g.Sound e.slack) → EndsAs .oom (emitVerdict w.sections.length gs)
      (fun w' => w'.Between ∧ w'.sections.length = w.sections.length + gs.length ∧
        w'.blobTotal ≤ w.blobTotal + gs.length * BLOB_MAX) (gs.foldlM (emitGroup e) w)
  | [], w, hw, _ => ⟨rfl, hw, rfl, by simp⟩
  | g :: gs, w, hw, hgs => by
    rw [List.forall_mem_cons] at hgs
    rw [emitVerdict, List.foldlM_cons]
    split
    · rename_i hfull
      -- the refusal of a section too many is answered with the code of the fault
      rw [emitGroup, checkedBegin, writerBeginSection, if_neg (by simp [hw.err]),
        if_neg (by simp [hw.outside]), if_pos hfull]
      exact Or.inl rfl
    · rename_i hroom
      refine (emitGroup_ends hw hgs.1 (Nat.lt_of_not_le hroom)).bind fun w' hclose => ?_
      rw [← hclose.sections]
      refine (emitGroups_ends hclose.toBetween hgs.2).imp fun w'' _ h => ?_
      obtain ⟨hbetween, hlen, hsum⟩ := h
      have hsecs := hclose.sections
      have hblob := hclose.blobTotal
      refine ⟨hbetween, ?_, ?_⟩
      · rw [hlen, hsecs, List.length_cons]
        omega
      · rw [List.length_cons, Nat.succ_mul]
        omega

end Emission

/-- A file whose blob region has a size in 32 bits is handed out, or memory ran out. -/
theorem writerFinish_ends {w : Writer} (hw : w.Between) (hsum : w.blobTotal ≤ 0xFFFFFFFF) :
    EndsAs .oom none (fun _ => True) (writerFinish w).1 := by
  rw [Writer.blobTotal] at hsum
  unfold writerFinish
  rw [hw.err]
  dsimp only
  rw [hw.outside, if_neg (by decide), if_neg (by omega)]
  obtain ⟨granted, arena⟩ := arenaAlloc w.arena (12 + w.sections.length * 16 +
    (w.sections.map (·.compLen.toNat)).sum + if w.hmacKey.isSome then HMAC_LEN else 0)
  cases granted with
  | false => exact Or.inl rfl
  | true =>
    cases w.hmacKey with
    | none => exact ⟨rfl, trivial⟩
    | some key => exact ⟨rfl, trivial⟩

end Dtl
