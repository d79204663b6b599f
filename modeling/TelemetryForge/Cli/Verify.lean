import TelemetryForge.Cli.Agree

/-!
# Verifying a signed container

Model of `dtl_cli_verify` on a file that can be opened and read; allocations succeed.  The MAC is
computed over all but the last 32 bytes of the file, and compared with the trailer that
`dtl_container_parse` finds; the first section is decoded as a spot check.

Principal results: `writerFinish_trailer` and `containerParse_trailer` — writer and parser mean the same
32 bytes by the trailer, and the same bytes by what is before it; `verify_agrees_sign` — what a signed
run emits verifies under its key, and nothing verifies unless its last 32 bytes are the MAC of the
others.
-/

set_option autoImplicit false

namespace Dtl

/-- `DTL_CLI_MAX_FILE`: 16 MiB. -/
def CLI_MAX_FILE : Nat := 16 * 1024 * 1024

/-- The spot check of `dtl_cli_verify`: the first section decodes, if there is one and its codec is
known.  The size it decodes to is not looked at. -/
def cliSpotCheck (env : CodecEnv) (secs : List Section) : Bool :=
  match secs with
  | [] => true
  | sec :: _ =>
    match codecGet sec.codecId with
    | none => true
    | some codec =>
      match codec.decode env sec.blob sec.rawLen.toNat with
      | .error _ => false
      | .ok _ => true

/-- `dtl_cli_verify`: the text written to `out` and the code returned; no key for `have_key == 0`. -/
def cliVerify (env : CodecEnv) (file : Bytes) (key : Option Bytes) : Bytes × Nat :=
  if file.length > CLI_MAX_FILE then ([], 1)
  else
    match containerParse file with
    | .error _ => (ascii "verify: bad-container\n", 1)
    | .ok cont =>
      match cont.hmac with
      | none => (ascii "verify: no-hmac\n", 0)
      | some hmac =>
        match key with
        | none => (ascii "verify: no-key\n", 1)
        | some key =>
          let authenticated := hashMac key (file.take (file.length - HMAC_LEN)) = hmac
          if authenticated ∧ cliSpotCheck env cont.sections then (ascii "verify: OK\n", 0)
          else (ascii "verify: FAIL\n", 1)

/-! ## The trailer -/

theorem split_trailer (body : Bytes) {mac : Bytes} (h : mac.length = HMAC_LEN) :
    (body ++ mac).take ((body ++ mac).length - HMAC_LEN) = body ∧
      (body ++ mac).drop ((body ++ mac).length - HMAC_LEN) = mac := by
  have hlen : (body ++ mac).length - HMAC_LEN = body.length := by
    rw [List.length_append, h, Nat.add_sub_cancel]
  rw [hlen]
  exact ⟨List.take_left, List.drop_left⟩

/-- **The trailer the parser finds is the last 32 bytes.** -/
theorem containerParse_trailer {file mac : Bytes} {cont : Container}
    (h : containerParse file = .ok cont) (hmac : cont.hmac = some mac) :
    file.drop (file.length - HMAC_LEN) = mac := by
  obtain ⟨es, region, hlayout, rfl, -, -⟩ := containerParse_ok h
  have htr := hlayout.trailer
  rw [hmac] at htr ⊢
  have hbytes : layoutBytes cont.flags cont.sectionCount es region (some mac) =
      (encodeHeader cont.flags cont.sectionCount ++ (es.flatMap encodeEntry ++ region)) ++ mac := by
    simp [layoutBytes]
  rw [hbytes]
  exact (split_trailer _ htr.2).2

/-- **A signed writer emits its body and the MAC of it, and the parser finds this trailer.** -/
theorem writerFinish_trailer {w : Writer} {l : WriterLog} {key bytes : Bytes} (hr : Refines w l)
    (hkey : w.hmacKey = some key) (h : (writerFinish w).1 = .ok bytes) :
    bytes.take (bytes.length - HMAC_LEN) = writerBody w ∧
      bytes.drop (bytes.length - HMAC_LEN) = hashMac key (writerBody w) ∧
      ∃ cont, containerParse bytes = .ok cont ∧ cont.hmac = some (hashMac key (writerBody w)) ∧
        List.Forall₂ SectionHolds cont.sections l.closed := by
  obtain ⟨hparse, hholds⟩ := writerFinish_holds hr h
  obtain ⟨-, -, -, hbytes⟩ := writerFinish_ok h
  rw [hkey, Option.map_some, Option.getD_some] at hbytes
  obtain ⟨htake, hdrop⟩ := split_trailer (writerBody w) (hashMac_length key (writerBody w))
  rw [← hbytes] at htake hdrop
  refine ⟨htake, hdrop, _, hparse, ?_, hholds⟩
  rw [hkey, Option.map_some]

theorem cliSpotCheck_holds {env : CodecEnv} (hs : env.scratchOk = true) {secs : List Section}
    {ls : List SectionLog} (h : List.Forall₂ SectionHolds secs ls) : cliSpotCheck env secs = true := by
  cases h with
  | nil => rfl
  | cons hsec _ =>
    obtain ⟨codec, hc, hdec⟩ := hsec.decodes
    rw [cliSpotCheck, hc]
    dsimp only
    rw [hdec env hs]

/-- `verify: OK` is printed for a trailer that is the MAC of the rest, and for nothing else. -/
theorem cliVerify_ok {env : CodecEnv} {file key : Bytes} {code : Nat}
    (h : cliVerify env file (some key) = (ascii "verify: OK\n", code)) :
    code = 0 ∧ file.drop (file.length - HMAC_LEN) =
      hashMac key (file.take (file.length - HMAC_LEN)) := by
  unfold cliVerify at h
  split at h
  · cases h
  · split at h
    · cases h
    · rename_i cont hparse
      split at h
      · cases h
      · rename_i mac hmac
        dsimp only at h
        split at h
        · rename_i hauth
          cases h
          exact ⟨rfl, (containerParse_trailer hparse hmac).trans hauth.1.symm⟩
        · cases h

/-! ## Signing and verifying -/

/-- A run of the writer that emits `bytes`, `key` being the last key set. -/
structure SignedRun (a : Arena) (calls : List WriterCall) (key bytes : Bytes) : Prop where
  last : ∃ pre post, calls = pre ++ .setHmac key :: post ∧ ∀ key', .setHmac key' ∉ post
  emitted : (writerFinish (writerRun (writerInit a) calls)).1 = .ok bytes

/-- **Signing and verifying agree.** What a signed run emits is verified under its key, unless it is
larger than the files `dtl_cli_verify` reads; writer, parser and `dtl_cli_verify` mean the same bytes by
the trailer and by what it authenticates; and no file is verified unless its last 32 bytes are the MAC
of the others. -/
theorem verify_agrees_sign :
    (∀ a calls key bytes, SignedRun a calls key bytes →
      (∀ env : CodecEnv, env.scratchOk = true → cliVerify env bytes (some key) =
        if bytes.length ≤ CLI_MAX_FILE then (ascii "verify: OK\n", 0) else ([], 1)) ∧
      bytes.take (bytes.length - HMAC_LEN) = writerBody (writerRun (writerInit a) calls) ∧
      ∃ cont, containerParse bytes = .ok cont ∧
        cont.hmac = some (bytes.drop (bytes.length - HMAC_LEN))) ∧
    ∀ env file key code, cliVerify env file (some key) = (ascii "verify: OK\n", code) →
      code = 0 ∧ file.drop (file.length - HMAC_LEN) =
        hashMac key (file.take (file.length - HMAC_LEN)) := by
  refine ⟨?_, fun env file key code h => cliVerify_ok h⟩
  rintro a calls key bytes ⟨⟨pre, post, rfl, hlast⟩, hfin⟩
  obtain ⟨herr, -, -, -⟩ := writerFinish_ok hfin
  have hr := writerRun_refines _ (writerInit_refines a) herr
  obtain ⟨htake, hdrop, cont, hparse, hmac, hholds⟩ :=
    writerFinish_trailer hr (writerRun_lastKey herr hlast) hfin
  refine ⟨?_, htake, cont, hparse, by rw [hmac, hdrop]⟩
  intro env hs
  unfold cliVerify
  by_cases hlen : bytes.length ≤ CLI_MAX_FILE
  · rw [if_neg (Nat.not_lt.mpr hlen), if_pos hlen, hparse]
    dsimp only
    rw [hmac]
    dsimp only
    rw [htake, if_pos ⟨rfl, cliSpotCheck_holds hs hholds⟩]
  · rw [if_pos (Nat.lt_of_not_le hlen), if_neg hlen]

/-- A small signed run. -/
def smallCalls : List WriterCall :=
  [.setHmac [1], .beginSection 9 CODEC_RLE, .setHmac [7], .addRawTlv REC_EVENT ⟨[1, 0, 0, 0], by decide⟩,
    .endSection plainEnv]

theorem verify_agrees_sign_small : ∃ bytes, SignedRun plainArena smallCalls [7] bytes ∧
    cliVerify (plainEnv 0) bytes (some [7]) = (ascii "verify: OK\n", 0) ∧
    bytes.drop (bytes.length - HMAC_LEN) = hashMac [7] (bytes.take (bytes.length - HMAC_LEN)) := by
  have hfin : ((writerFinish (writerRun (writerInit plainArena) smallCalls)).1.toOption.any
      fun bytes => bytes.length ≤ CLI_MAX_FILE) = true := by decide +kernel
  cases hrun : (writerFinish (writerRun (writerInit plainArena) smallCalls)).1 with
  | error rc =>
    rw [hrun] at hfin
    cases hfin
  | ok bytes =>
    rw [hrun] at hfin
    have hsigned : SignedRun plainArena smallCalls [7] bytes :=
      ⟨⟨[.setHmac [1], .beginSection 9 CODEC_RLE],
        [.addRawTlv REC_EVENT ⟨[1, 0, 0, 0], by decide⟩, .endSection plainEnv], rfl, by simp⟩, hrun⟩
    have hok := (verify_agrees_sign.1 _ _ _ _ hsigned).1 (plainEnv 0) rfl
    rw [if_pos (of_decide_eq_true hfin)] at hok
    exact ⟨bytes, hsigned, hok, (verify_agrees_sign.2 _ _ _ _ hok).2⟩

/-- A signed run whose file exceeds 16 MiB. -/
def largeCalls : List WriterCall :=
  .setHmac [7] :: .beginSection 0 CODEC_STORE ::
    ((letterRecords 257 256).map (.addRecord zeroSlack) ++ [.endSection plainEnv])

theorem emitRecords_run {e : EmitEnv} : ∀ (recs : List Record) {w w' : Writer},
    emitRecords e recs w = .ok w' → writerRun w (recs.map (.addRecord e.slack)) = w'
  | [], _, _, h => by
    cases h
    rfl
  | rec :: recs, w, w', h => by
    rw [emitRecords, Except.bind_eq_ok] at h
    obtain ⟨w₁, h1, h2⟩ := h
    obtain ⟨-, rfl⟩ := checked_eq_ok.mp h1
    exact emitRecords_run recs h2

/-- The file is emitted, and not verified. -/
theorem verify_refuses_large : ∃ bytes, SignedRun plainArena largeCalls [7] bytes ∧
    CLI_MAX_FILE < bytes.length ∧ cliVerify (plainEnv 0) bytes (some [7]) = ([], 1) := by
  have hn : 256 * 255 + 3 < 2 ^ 16 := by decide
  have hraw : (((letterRecords 257 256).map (Record.item plainEmit.slack)).flatMap encodeTlv).length =
      16778502 := letterRaw_length hn
  have hfit : ∀ rec ∈ letterRecords 257 256,
      rec.Parseable ∧ (rec.payload plainEmit.slack).length ≤ 0xFFFF := letterRecords_good hn
  obtain ⟨w₁, hrecs, hroomy, happ⟩ := emitRecords_succeeds (letterRecords 257 256)
    (w := writerCall (writerCall (writerInit plainArena) (.setHmac [7])) (.beginSection 0 CODEC_STORE))
    ⟨rfl, rfl, fun _ => rfl⟩ hfit (by
      rw [hraw]
      decide)
  have htlv : w₁.tlv.length = 16778502 := by
    rw [happ.tlv, List.length_append, hraw]
    rfl
  obtain ⟨w₂, hend, hroomy₂, herr, hsec, hsum⟩ := checkedEnd_succeeds (e := plainEmit)
    ⟨happ.err, happ.inSection, hroomy⟩ happ.curCodec (by omega) (by rw [htlv]; decide)
  have hrun : writerRun (writerInit plainArena) largeCalls = w₂ := by
    obtain ⟨-, rfl⟩ := checked_eq_ok.mp hend
    rw [largeCalls, writerRun, List.foldl_cons, List.foldl_cons, List.foldl_append]
    change [WriterCall.endSection plainEnv].foldl writerCall
      (writerRun _ ((letterRecords 257 256).map (.addRecord plainEmit.slack))) = _
    rw [emitRecords_run _ hrecs]
    rfl
  have hr := writerRun_refines largeCalls (writerInit_refines plainArena) (by rw [hrun]; exact herr)
  rw [hrun] at hr
  have hcount := hr.room
  rw [hsec] at hcount
  have htotal : (w₂.sections.map (·.compLen.toNat)).sum = 16778502 := by
    rw [hsum, happ.sections, htlv]
    rfl
  obtain ⟨bytes, hfin⟩ := writerFinish_succeeds herr hsec hroomy₂ (by simpa using hcount)
    (by rw [htotal]; decide)
  obtain ⟨-, -, -, hbytes⟩ := writerFinish_ok hfin
  have hlarge : CLI_MAX_FILE < bytes.length := by
    have hregion := writerRegion_length (sections_readable hr.closed)
    rw [hbytes, List.length_append, writerBody, List.length_append, List.length_append, hregion, htotal]
    show 16777216 < _
    omega
  refine ⟨bytes, ⟨⟨[], _, rfl, ?_⟩, by rw [hrun]; exact hfin⟩, hlarge, ?_⟩
  · simp
  · exact if_pos hlarge

end Dtl
