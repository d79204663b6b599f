import TelemetryForge.Writer.Writer

/-!
# Records through the writer and back

`dtl_writer_add_record` against `dtl_record_parse`, in both directions.

Principal results: `writerAddRecord_roundtrip` — a record within the parser's limits is accepted,
and what was appended parses back to it; `writerAddRecord_reemits` — a parsed record added back
reproduces its item byte for byte exactly when no `CONFIG` string contains a NUL.
-/

set_option autoImplicit false

namespace Dtl

/-- The bytes a successful `dtl_writer_add_record` appends. -/
theorem writerAddRecord_ok {slack : Slack} {w : Writer} {rec : Record}
    (h : (writerAddRecord slack w rec).1 = none) :
    (rec.payload slack).length ≤ 0xFFFF ∧
      w.Appends (encodeTlv ⟨rec.tag, rec.payload slack⟩) (writerAddRecord slack w rec).2 :=
  (writerEmitTlv_ok (writerPayload_emits slack rec) h).2.2

/-- Pairs that leave no error behind fit their length bytes. -/
theorem writerPairs_short : ∀ {ps : List ConfigPair} {w : Writer}, (writerPairs ps w).err = none →
    ∀ p ∈ ps, p.key.val.length ≤ 255 ∧ p.value.val.length ≤ 255
  | [], _, _ => by simp
  | p :: ps, w, h => by
    rw [writerPairs] at h
    split at h
    · cases h
    · rename_i hshort
      exact List.forall_mem_cons.mpr ⟨by omega, writerPairs_short h⟩

/-- What was added could be encoded. -/
theorem writerAddRecord_encodable {slack : Slack} {w : Writer} {rec : Record}
    (h : (writerAddRecord slack w rec).1 = none) : rec.Encodable slack := by
  have hfill : ∃ w', (writerPayload slack rec w').err = none := by
    unfold writerAddRecord writerEmitTlv at h
    split at h
    · contradiction
    split at h
    · cases h
    dsimp only at h
    split at h
    · contradiction
    · rename_i hok
      exact ⟨_, not_ne_iff.mp hok⟩
  obtain ⟨w', hw'⟩ := hfill
  cases rec with
  | config r => exact writerPairs_short hw'
  | other t ht => cases hw'
  | _ => trivial

theorem writerAddRecord_succeeds {slack : Slack} {w : Writer} {rec : Record}
    (hw : rec.WellFormed) (hl : rec.InLimits) (hlen : (rec.payload slack).length ≤ 0xFFFF)
    (herr : w.err = none) (hsec : w.inSection = true) (hr : w.arena.Roomy)
    (hroom : w.tlv.length ≤ 2 ^ 61) :
    (writerAddRecord slack w rec).1 = none ∧ (writerAddRecord slack w rec).2.arena.Roomy :=
  writerEmitTlv_succeeds (writerPayload_appender slack rec (Record.encodable_of_limits slack hw hl))
    herr hsec hr hlen (by omega)

/-- **Encode, then parse.** In an open section of an error-free writer, a record that respects the
parser's own limits and whose payload fits a TLV item is accepted, and the item appended for it parses
back to the same record.  The arena refuses nothing, and the accumulator occupies less than an
eighth of the address space, so that it can be doubled. -/
theorem writerAddRecord_roundtrip (slack : Slack) (w : Writer) (rec : Record) (hw : rec.WellFormed)
    (hl : rec.InLimits) (hlen : (rec.payload slack).length ≤ 0xFFFF) (herr : w.err = none)
    (hsec : w.inSection = true) (hr : w.arena.Roomy) (hroom : w.tlv.length ≤ 2 ^ 61) :
    (writerAddRecord slack w rec).1 = none ∧
      ∃ appended t, (writerAddRecord slack w rec).2.tlv = w.tlv ++ appended ∧
        tlvNext appended = .ok (t, []) ∧ recordParse t = .ok rec := by
  have hok := (writerAddRecord_succeeds hw hl hlen herr hsec hr hroom).1
  obtain ⟨hfit, happ⟩ := writerAddRecord_ok hok
  refine ⟨hok, _, ⟨rec.tag, rec.payload slack⟩, happ.tlv, ?_, recordParse_payload slack rec hw hl⟩
  have hnext := tlvNext_inverts ⟨rec.tag, rec.payload slack⟩ [] hfit
  rwa [List.append_nil] at hnext

/-- Memory that holds zeros and empty strings. -/
def zeroSlack : Slack := ⟨fun _ => 0, fun _ => 0, fun _ => ⟨cstr [], cstr []⟩⟩

/-- A fresh writer with an open section, over an arena that refuses nothing. -/
def openWriter : Writer :=
  (writerBeginSection (writerInit ⟨fun _ => false, 0⟩) 1 CODEC_STORE).2

/-- A `CONFIG` record with a duplicate key is taken in and read back. -/
theorem writerAddRecord_roundtrip_config :
    ∃ appended t, (writerAddRecord zeroSlack openWriter
        (.config ⟨2, [⟨cstr [97], cstr [98]⟩, ⟨cstr [97], cstr []⟩]⟩)).2.tlv = appended ∧
      tlvNext appended = .ok (t, []) ∧
      recordParse t = .ok (.config ⟨2, [⟨cstr [97], cstr [98]⟩, ⟨cstr [97], cstr []⟩]⟩) := by
  obtain ⟨-, appended, t, h1, h2, h3⟩ := writerAddRecord_roundtrip zeroSlack openWriter
    (.config ⟨2, [⟨cstr [97], cstr [98]⟩, ⟨cstr [97], cstr []⟩]⟩) (by decide) (by decide) (by decide)
    rfl rfl (fun _ => rfl) (by decide)
  exact ⟨appended, t, h1, h2, h3⟩

/-! ## Parse, then encode -/

theorem encodeTlv_inj {t t' : Tlv} (h : encodeTlv t = encodeTlv t') : t = t' := by
  obtain ⟨tag, val⟩ := t
  obtain ⟨tag', val'⟩ := t'
  simp only [encodeTlv, List.cons.injEq] at h
  obtain ⟨rfl, h⟩ := h
  have hval := (List.append_inj h rfl).2
  rw [hval]

/-- A parsed record never needs more room than its payload. -/
theorem recordParse_payload_le {t : Tlv} {rec : Record} (s : Slack) (h : recordParse t = .ok rec) :
    (rec.payload s).length ≤ t.val.length := by
  obtain ⟨htag, hc⟩ := recordParse_cases h
  by_cases hcfg : t.tag = REC_CONFIG
  · cases rec with
    | config r =>
      obtain ⟨hval, hpairs, hcount, -⟩ := configParse_ok hc
      have hcut : ∀ raws : List (Bytes × Bytes),
          ((raws.map configCut).flatMap encodeConfigPair).length ≤
            (raws.flatMap encodeRawPair).length := by
        intro raws
        induction raws with
        | nil => exact Nat.le_refl _
        | cons p ps ih =>
          have h1 := cstr_length_le p.1
          have h2 := cstr_length_le p.2
          simp only [List.map_cons, List.flatMap_cons, List.length_append, encodeConfigPair,
            encodeConfigStr, configCut, encodeRawPair, List.length_cons]
          omega
      rw [hval, Record.payload, readN_all _ hcount, hpairs, List.length_cons, List.length_cons]
      exact Nat.succ_le_succ (hcut _)
    | other t ht => exact hc.elim
    | _ => exact absurd (htag.trans hcfg) (by simp [Record.tag, REC_CONFIG, REC_HEARTBEAT, REC_SENSOR,
        REC_EVENT, REC_DIAG, REC_GEO, REC_BATTERY, REC_NET, REC_LOG, REC_KEYREF, REC_FIRMWARE])
  · rw [(recordParse_exact s h).mpr fun he => absurd he hcfg]

/-- **Parse, then encode.** Adding a parsed record to an open section of an error-free writer appends
exactly the item it was parsed from, if and only if the item is not a `CONFIG` item with a NUL byte in
one of its strings. -/
theorem writerAddRecord_reemits (slack : Slack) (w : Writer) (t : Tlv) (rec : Record)
    (hfit : t.Fits) (hparse : recordParse t = .ok rec) (herr : w.err = none)
    (hsec : w.inSection = true) (hr : w.arena.Roomy) (hroom : w.tlv.length ≤ 2 ^ 61) :
    ((writerAddRecord slack w rec).1 = none ∧
      (writerAddRecord slack w rec).2.tlv = w.tlv ++ encodeTlv t) ↔
      (t.tag = REC_CONFIG → ConfigNulFree t.val) := by
  obtain ⟨hw, hl⟩ := recordParse_ok hparse
  have hlen : (rec.payload slack).length ≤ 0xFFFF :=
    (recordParse_payload_le slack hparse).trans hfit
  have hok := (writerAddRecord_succeeds hw hl hlen herr hsec hr hroom).1
  obtain ⟨-, happ⟩ := writerAddRecord_ok hok
  rw [← recordParse_exact slack hparse]
  constructor
  · rintro ⟨-, heq⟩
    rw [happ.tlv, List.append_cancel_left_eq] at heq
    exact congrArg Tlv.val (encodeTlv_inj heq)
  · intro heq
    refine ⟨hok, ?_⟩
    rw [happ.tlv, recordParse_tag hparse, heq]

/-- A `LOG` item with a NUL in its message is reproduced. -/
theorem writerAddRecord_reemits_log :
    (writerAddRecord zeroSlack openWriter (.log ⟨3, 3, [97, 0, 98]⟩)).2.tlv =
      openWriter.tlv ++ encodeTlv ⟨REC_LOG, [3, 3, 0, 97, 0, 98]⟩ :=
  ((writerAddRecord_reemits zeroSlack openWriter ⟨REC_LOG, [3, 3, 0, 97, 0, 98]⟩
    (.log ⟨3, 3, [97, 0, 98]⟩) (by decide) (by decide) rfl rfl (fun _ => rfl) (by decide)).mpr
    (by decide)).2

/-- A `CONFIG` item whose only key is a NUL byte is accepted, and added back as one with an empty
key. -/
theorem writerAddRecord_cuts_nul :
    recordParse ⟨REC_CONFIG, [1, 1, 0, 0]⟩ = .ok (.config ⟨1, [⟨cstr [], cstr []⟩]⟩) ∧
      (writerAddRecord zeroSlack openWriter (.config ⟨1, [⟨cstr [], cstr []⟩]⟩)).1 = none ∧
      (writerAddRecord zeroSlack openWriter (.config ⟨1, [⟨cstr [], cstr []⟩]⟩)).2.tlv ≠
        openWriter.tlv ++ encodeTlv ⟨REC_CONFIG, [1, 1, 0, 0]⟩ := by
  decide +kernel

end Dtl
