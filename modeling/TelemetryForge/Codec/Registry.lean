import TelemetryForge.Codec.Base32
import TelemetryForge.Codec.Dict
import TelemetryForge.Codec.Leb
import TelemetryForge.Codec.Lz77Stream

/-!
# The codec registry

Model of `codec/registry`: the dispatch table and `dtl_codec_get`.  `Codec.Lawful` states what every
registered codec promises to its callers, in terms of the plans its two directions replay.

Principal results: `codecGet_lawful` — every codec the registry returns is lawful; from it
`codecGet_decode_encode` (decoding inverts a successful encoding, into a buffer of exactly the
original size) and `codecGet_decode_le` (a decoder never produces more than its capacity).
-/

set_option autoImplicit false

namespace Dtl

open Sink

/-- `dtl_codec`. -/
structure Codec where
  id : UInt8
  name : String
  decode : CodecFn
  encode : CodecFn

def CODEC_STORE : UInt8 := 0
def CODEC_RLE : UInt8 := 1
def CODEC_VARINT : UInt8 := 2
def CODEC_LZ77 : UInt8 := 3
def CODEC_DICT : UInt8 := 4
def CODEC_DELTA : UInt8 := 5
def CODEC_BASE32 : UInt8 := 6

/-- `dtl_codec_table`. -/
def codecTable : List Codec :=
  [⟨CODEC_STORE, "store", fun _ => storeCopy, fun _ => storeCopy⟩,
   ⟨CODEC_RLE, "rle", fun _ => rleDecode, fun _ => rleEncode⟩,
   ⟨CODEC_VARINT, "varint", fun _ => varintDecode, fun _ => varintEncode⟩,
   ⟨CODEC_LZ77, "lz77", fun env => lz77Decode env.before, fun _ => lz77Encode⟩,
   ⟨CODEC_DICT, "dict", fun env => dictDecode env.scratchOk, fun env => dictEncode env.scratchOk⟩,
   ⟨CODEC_DELTA, "delta", fun _ => deltaDecode, fun _ => deltaEncode⟩,
   ⟨CODEC_BASE32, "base32", fun _ => base32Decode, fun _ => base32Encode⟩]

/-- `dtl_codec_get`; `none` for `NULL`. -/
def codecGet (codecId : UInt8) : Option Codec := codecTable.find? (·.id = codecId)

/-- What callers rely on: both directions replay a plan, and the decoder's plan on an encoded
string writes that string back. -/
structure Codec.Lawful (c : Codec) where
  decodePlan : CodecEnv → Bytes → CodecPlan
  encodePlan : CodecEnv → Bytes → CodecPlan
  decode_eq : ∀ env inp cap, c.decode env inp cap = (decodePlan env inp).run .range cap
  encode_eq : ∀ env inp cap, c.encode env inp cap = (encodePlan env inp).run .range cap
  inverse : ∀ env env' inp, env'.scratchOk = true → (encodePlan env inp).stop = none →
    (decodePlan env' (encodePlan env inp).output).stop = none ∧
      (decodePlan env' (encodePlan env inp).output).output = inp

/-- **Every registered codec is lawful.** -/
theorem codecTable_lawful : ∀ c ∈ codecTable, Nonempty c.Lawful := by
  intro c hc
  simp only [codecTable, List.mem_cons, List.not_mem_nil, or_false] at hc
  rcases hc with rfl | rfl | rfl | rfl | rfl | rfl | rfl
  · exact ⟨⟨fun _ => storePlan, fun _ => storePlan, fun _ => storeCopy_eq, fun _ => storeCopy_eq,
      fun _ _ inp _ _ => ⟨rfl, by simp [storePlan]⟩⟩⟩
  · exact ⟨⟨fun _ => rleDecodePlan, fun _ => rleEncodePlan, fun _ => rleDecode_eq,
      fun _ => rleEncode_eq, fun _ _ inp _ _ => rleDecodePlan_encode inp⟩⟩
  · exact ⟨⟨fun _ => varintDecodePlan, fun _ => varintEncodePlan, fun _ => varintDecode_eq,
      fun _ => varintEncode_eq, fun _ _ inp _ h => varintDecodePlan_encode inp h⟩⟩
  · exact ⟨⟨fun env => lz77DecodePlan env.before, fun _ => lz77EncodePlan,
      fun env => lz77Decode_eq env.before, fun _ => lz77Encode_eq,
      fun _ env' inp _ _ => lz77DecodePlan_encode env'.before inp⟩⟩
  · refine ⟨⟨fun env => dictDecodePlan env.scratchOk, fun env => dictEncodePlan env.scratchOk,
      fun env => dictDecode_eq env.scratchOk, fun env => dictEncode_eq env.scratchOk, ?_⟩⟩
    intro env env' inp hs h
    rw [hs]
    exact dictDecodePlan_encode env.scratchOk inp h
  · exact ⟨⟨fun _ => deltaDecodePlan, fun _ => deltaEncodePlan, fun _ => deltaDecode_eq,
      fun _ => deltaEncode_eq, fun _ _ inp _ h => deltaDecodePlan_encode inp h⟩⟩
  · exact ⟨⟨fun _ => base32DecodePlan, fun _ => base32EncodePlan, fun _ => base32Decode_eq,
      fun _ => base32Encode_eq, fun _ _ inp _ _ => base32DecodePlan_encode inp⟩⟩

theorem codecGet_lawful {codecId : UInt8} {c : Codec} (h : codecGet codecId = some c) :
    Nonempty c.Lawful := codecTable_lawful c (List.mem_of_find?_eq_some h)

theorem codecGet_id {codecId : UInt8} {c : Codec} (h : codecGet codecId = some c) :
    c.id = codecId := of_decide_eq_true (List.find?_some h :)

/-- **Decoding inverts a successful encoding**, into a buffer of exactly the original size. -/
theorem codecGet_decode_encode {codecId : UInt8} {c : Codec} (hc : codecGet codecId = some c)
    {env env' : CodecEnv} {raw blob : Bytes} {cap : Nat} (hs : env'.scratchOk = true)
    (he : c.encode env raw cap = .ok blob) : c.decode env' blob raw.length = .ok raw := by
  obtain ⟨law⟩ := codecGet_lawful hc
  rw [law.encode_eq] at he
  obtain ⟨hstop, rfl, -⟩ := Plan.run_ok he
  obtain ⟨h1, h2⟩ := law.inverse env env' raw hs hstop
  rw [law.decode_eq, Plan.run_of_stop_none h1 (by rw [h2]), h2]

/-- **A decoder never produces more than its capacity.** -/
theorem codecGet_decode_le {codecId : UInt8} {c : Codec} (hc : codecGet codecId = some c)
    {env : CodecEnv} {blob raw : Bytes} {cap : Nat} (h : c.decode env blob cap = .ok raw) :
    raw.length ≤ cap := by
  obtain ⟨law⟩ := codecGet_lawful hc
  rw [law.decode_eq] at h
  exact Plan.run_length_le h

end Dtl
