import TelemetryForge.Records.Parse

/-!
# Record payloads delimit themselves

The record parsers insist on reading their payload to the end, each in its own way: by a fixed size,
by a declared length or count against what is left, or by what is left after the last pair.  In every
case the bytes already read fix where the payload ends.  A *frame* is that part of a parser: it reads
the header and skips what the header announces.

Principal result: `recordParse_delimits` — no proper prefix and no proper extension of an accepted
payload is accepted under the same tag.
-/

set_option autoImplicit false

namespace Dtl

open PrefixCode

theorem bufReadU8_extends : Extends bufReadU8 := by
  refine .of_exact (P := fun _ => True) bufReadU8_exact ?_ fun _ _ _ _ => trivial
  exact fun _ _ _ => rfl

theorem bufReadU16_extends : Extends bufReadU16 :=
  .of_exact bufReadU16_exact bufReadU16_inverts fun _ _ _ _ => trivial

theorem bufReadBytes_extends (n : Nat) : Extends (bufReadBytes n) := by
  intro s v r t h
  obtain ⟨rfl, rfl⟩ := bufReadBytes_ok h
  rw [List.append_assoc, bufReadBytes_append]

theorem configReadRaw_extends : Extends configReadRaw :=
  .of_exact configReadRaw_exact configReadRaw_inverts fun _ _ _ h => (configReadRaw_ok h).2

/-! ## Frames -/

/-- A 16-bit field, a 16-bit length, and as many bytes: `EVENT` and `DIAG`. -/
def wideFrame : Decoder Err UInt8 Bytes := fun b => do
  let (_, b) ← bufReadU16 b
  let (n, b) ← bufReadU16 b
  bufReadBytes n.toNat b

/-- The frame of `LOG`. -/
def logFrame : Decoder Err UInt8 Bytes := fun b => do
  let (_, b) ← bufReadU8 b
  let (n, b) ← bufReadU16 b
  bufReadBytes n.toNat b

/-- The frame of `SENSOR`. -/
def sensorFrame : Decoder Err UInt8 Bytes := fun b => do
  let (_, b) ← bufReadU16 b
  let (n, b) ← bufReadU8 b
  bufReadBytes (n.toNat * SENSOR_SAMPLE_SIZE) b

/-- The frame of `KEYREF`. -/
def keyrefFrame : Decoder Err UInt8 Bytes := fun b => do
  let (_, b) ← bufReadU8 b
  let (n, b) ← bufReadU8 b
  bufReadBytes n.toNat b

/-- The frame of `CONFIG`. -/
def configFrame : Decoder Err UInt8 (List (Bytes × Bytes)) := fun b => do
  let (n, b) ← bufReadU8 b
  readMany configReadRaw n.toNat b

theorem wideFrame_extends : Extends wideFrame :=
  bufReadU16_extends.bind fun _ => bufReadU16_extends.bind fun n => bufReadBytes_extends n.toNat

theorem logFrame_extends : Extends logFrame :=
  bufReadU8_extends.bind fun _ => bufReadU16_extends.bind fun n => bufReadBytes_extends n.toNat

theorem sensorFrame_extends : Extends sensorFrame :=
  bufReadU16_extends.bind fun _ => bufReadU8_extends.bind fun n =>
    bufReadBytes_extends (n.toNat * SENSOR_SAMPLE_SIZE)

theorem keyrefFrame_extends : Extends keyrefFrame :=
  bufReadU8_extends.bind fun _ => bufReadU8_extends.bind fun n => bufReadBytes_extends n.toNat

theorem configFrame_extends : Extends configFrame :=
  bufReadU8_extends.bind fun n => configReadRaw_extends.readMany n.toNat

/-! ## Each parser's payloads -/

/-- The payloads a parser accepts. -/
def ParserAccepts {α : Type} (parse : Bytes → Res α) (val : Bytes) : Prop := ∃ r, parse val = .ok r

/-- A parser whose first check is the size of its payload. -/
theorem prefixFree_of_size {α : Type} {parse rest : Bytes → Res α} {n : Nat}
    (h : ∀ val, parse val = failIf (val.length ≠ n) .badRecord >>= fun _ => rest val) :
    PrefixFree (ParserAccepts parse) := by
  refine (bufReadBytes_extends n).prefixFree ?_
  rintro val ⟨r, hr⟩
  rw [h] at hr
  simp only [Except.bind_eq_ok, failIf_eq_ok, not_ne_iff] at hr
  obtain ⟨_, hlen, -⟩ := hr
  exact ⟨val, bufReadBytes_all hlen⟩

theorem heartbeatParse_prefixFree : PrefixFree (ParserAccepts heartbeatParse) :=
  prefixFree_of_size (n := HEARTBEAT_SIZE) fun _ => rfl

theorem geoParse_prefixFree : PrefixFree (ParserAccepts geoParse) :=
  prefixFree_of_size (n := GEO_SIZE) fun _ => rfl

theorem batteryParse_prefixFree : PrefixFree (ParserAccepts batteryParse) :=
  prefixFree_of_size (n := BATTERY_SIZE) fun _ => rfl

theorem netParse_prefixFree : PrefixFree (ParserAccepts netParse) :=
  prefixFree_of_size (n := NET_SIZE) fun _ => rfl

theorem firmwareParse_prefixFree : PrefixFree (ParserAccepts firmwareParse) :=
  prefixFree_of_size (n := FIRMWARE_SIZE) fun _ => rfl

theorem sensorParse_prefixFree : PrefixFree (ParserAccepts sensorParse) := by
  refine sensorFrame_extends.prefixFree ?_
  rintro val ⟨r, h⟩
  obtain ⟨⟨u, b₁⟩, h1, h⟩ := Except.bind_eq_ok.mp h
  obtain ⟨⟨n, b₂⟩, h2, h⟩ := Except.bind_eq_ok.mp h
  obtain ⟨_, hlen, -⟩ := Except.bind_eq_ok.mp h
  refine ⟨b₂, ?_⟩
  simp only [sensorFrame, h1, h2, Except.bind_ok_eq]
  exact bufReadBytes_all (not_ne_iff.mp (failIf_eq_ok.mp hlen))

/-- A parser that reads two words, the second of which is the size of what is left. -/
theorem prefixFree_of_wide {α : Type} {parse : Bytes → Res α}
    {rest : UInt16 × Bytes → UInt16 × Bytes → Res α}
    (hparse : ∀ val, parse val = bufReadU16 val >>= fun p => bufReadU16 p.2 >>= fun q =>
      failIf (q.1.toNat ≠ q.2.length) .badRecord >>= fun _ => rest p q) :
    PrefixFree (ParserAccepts parse) := by
  refine wideFrame_extends.prefixFree ?_
  rintro val ⟨r, h⟩
  rw [hparse] at h
  obtain ⟨⟨u, b₁⟩, h1, h⟩ := Except.bind_eq_ok.mp h
  obtain ⟨⟨n, b₂⟩, h2, h⟩ := Except.bind_eq_ok.mp h
  obtain ⟨_, hlen, -⟩ := Except.bind_eq_ok.mp h
  refine ⟨b₂, ?_⟩
  simp only [wideFrame, h1, h2, Except.bind_ok_eq]
  exact bufReadBytes_all (not_ne_iff.mp (failIf_eq_ok.mp hlen)).symm

theorem eventParse_prefixFree : PrefixFree (ParserAccepts eventParse) :=
  prefixFree_of_wide fun _ => rfl

theorem diagParse_prefixFree : PrefixFree (ParserAccepts diagParse) :=
  prefixFree_of_wide fun _ => rfl

theorem logParse_prefixFree : PrefixFree (ParserAccepts logParse) := by
  refine logFrame_extends.prefixFree ?_
  rintro val ⟨r, h⟩
  obtain ⟨⟨u, b₁⟩, h1, h⟩ := Except.bind_eq_ok.mp h
  obtain ⟨_, -, h⟩ := Except.bind_eq_ok.mp h
  obtain ⟨⟨n, b₂⟩, h2, h⟩ := Except.bind_eq_ok.mp h
  obtain ⟨_, hlen, -⟩ := Except.bind_eq_ok.mp h
  refine ⟨b₂, ?_⟩
  simp only [logFrame, h1, h2, Except.bind_ok_eq]
  exact bufReadBytes_all (not_ne_iff.mp (failIf_eq_ok.mp hlen)).symm

theorem keyrefParse_prefixFree : PrefixFree (ParserAccepts keyrefParse) := by
  refine keyrefFrame_extends.prefixFree ?_
  rintro val ⟨r, h⟩
  obtain ⟨⟨u, b₁⟩, h1, h⟩ := Except.bind_eq_ok.mp h
  obtain ⟨⟨n, b₂⟩, h2, h⟩ := Except.bind_eq_ok.mp h
  obtain ⟨⟨label, b₃⟩, h3, h⟩ := Except.bind_eq_ok.mp h
  obtain ⟨_, hend, -⟩ := Except.bind_eq_ok.mp h
  have hrest : b₃ = [] := List.length_eq_zero_iff.mp (not_ne_iff.mp (failIf_eq_ok.mp hend))
  refine ⟨label, ?_⟩
  simp only [keyrefFrame, h1, h2, Except.bind_ok_eq]
  rw [h3, hrest]

theorem configParse_prefixFree : PrefixFree (ParserAccepts configParse) := by
  refine configFrame_extends.prefixFree ?_
  rintro val ⟨r, h⟩
  obtain ⟨⟨n, b₁⟩, h1, h⟩ := Except.bind_eq_ok.mp h
  obtain ⟨⟨ps, b₂⟩, h2, h⟩ := Except.bind_eq_ok.mp h
  obtain ⟨_, hend, -⟩ := Except.bind_eq_ok.mp h
  obtain ⟨⟨raws, b₃⟩, h3, hmap⟩ := map_eq_ok.mp ((readMany_configReadPair _ _).symm.trans h2)
  have hend' : b₂ = [] := List.length_eq_zero_iff.mp (not_ne_iff.mp (failIf_eq_ok.mp hend))
  have hrest : b₃ = [] := (Prod.mk.inj hmap).2.trans hend'
  refine ⟨raws, ?_⟩
  simp only [configFrame, h1, Except.bind_ok_eq]
  rw [h3, hrest]

/-! ## The dispatcher -/

/-- The payloads `dtl_record_parse` may accept under a tag. -/
def Payloads (tag : UInt8) : Bytes → Prop :=
  if tag = REC_HEARTBEAT then ParserAccepts heartbeatParse
  else if tag = REC_GEO then ParserAccepts geoParse
  else if tag = REC_BATTERY then ParserAccepts batteryParse
  else if tag = REC_NET then ParserAccepts netParse
  else if tag = REC_FIRMWARE then ParserAccepts firmwareParse
  else if tag = REC_SENSOR then ParserAccepts sensorParse
  else if tag = REC_EVENT then ParserAccepts eventParse
  else if tag = REC_LOG then ParserAccepts logParse
  else if tag = REC_CONFIG then ParserAccepts configParse
  else if tag = REC_KEYREF then ParserAccepts keyrefParse
  else if tag = REC_DIAG then ParserAccepts diagParse
  else fun _ => False

theorem payloads_prefixFree (tag : UInt8) : PrefixFree (Payloads tag) := by
  refine heartbeatParse_prefixFree.ite ?_
  refine geoParse_prefixFree.ite ?_
  refine batteryParse_prefixFree.ite ?_
  refine netParse_prefixFree.ite ?_
  refine firmwareParse_prefixFree.ite ?_
  refine sensorParse_prefixFree.ite ?_
  refine eventParse_prefixFree.ite ?_
  refine logParse_prefixFree.ite ?_
  refine configParse_prefixFree.ite ?_
  refine keyrefParse_prefixFree.ite ?_
  refine diagParse_prefixFree.ite ?_
  exact fun _ _ h => h.elim

theorem recordParse_payloads {tag : UInt8} {val : Bytes} {rec : Record}
    (h : recordParse ⟨tag, val⟩ = .ok rec) : Payloads tag val := by
  obtain ⟨htag, hc⟩ := recordParse_cases h
  dsimp only at htag hc
  subst htag
  cases rec with
  | heartbeat r => exact ⟨r, hc⟩
  | geo r => exact ⟨r, hc⟩
  | battery r => exact ⟨r, hc⟩
  | net r => exact ⟨r, hc.1⟩
  | firmware r => exact ⟨r, hc⟩
  | sensor r => exact ⟨r, hc⟩
  | event r => exact ⟨r, hc⟩
  | log r => exact ⟨r, hc⟩
  | config r => exact ⟨r, hc⟩
  | keyref r => exact ⟨r, hc⟩
  | diag r => exact ⟨r, hc⟩
  | other t ht => exact hc.elim

/-- **Record payloads delimit themselves**: under the tag of an accepted payload, every proper prefix
and every proper extension of it is rejected. -/
theorem recordParse_delimits (tag : UInt8) (val other : Bytes) (rec : Record)
    (h : recordParse ⟨tag, val⟩ = .ok rec) (hrel : other <+: val ∨ val <+: other)
    (hne : other ≠ val) : ∃ e, recordParse ⟨tag, other⟩ = .error e := by
  have hout := (payloads_prefixFree tag).excludes (recordParse_payloads h) hrel hne
  rcases hparse : recordParse ⟨tag, other⟩ with e | rec'
  · exact ⟨e, rfl⟩
  · exact absurd (recordParse_payloads hparse) hout

/-- A `LOG` payload with one byte too many. -/
theorem recordParse_delimits_log : ∃ e, recordParse ⟨REC_LOG, [3, 1, 0, 97, 98]⟩ = .error e :=
  recordParse_delimits REC_LOG [3, 1, 0, 97] [3, 1, 0, 97, 98] (.log ⟨3, 1, [97]⟩) (by decide)
    (.inr ⟨[98], rfl⟩) (by decide)

end Dtl
