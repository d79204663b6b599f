import TelemetryForge.Codec.Registry
import TelemetryForge.Lib.Checked

/-!
# The codecs with `size_t` arithmetic

The fourteen codec functions once more, with the output position as a `size_t` of `w` bits: the
capacity check `out_cap - o < n` subtracts, and the write moves `o`, in checked arithmetic.

Principal result: `codecGet_simulates` — for every capacity that is a `size_t`, no subtraction
`out_cap - o` and no move of `o` wraps, and the function returns what its model over unbounded
numbers returns, error codes included.
-/

set_option autoImplicit false

namespace Dtl

open Checked Sink

namespace Machine

/-- The check-and-write step every codec makes at position `o = out.length`. -/
def emit (w cap : Nat) (out bs : Bytes) : Run Err Bytes := do
  let room ← sub cap out.length
  refuse (room < bs.length) .range
  let _ ← add w out.length bs.length
  return out ++ bs

/-- `dtl_store_copy`. -/
def storeCopy (inp : Bytes) (cap : Nat) : Run Err Bytes := do
  refuse (inp.length > cap) .range
  return inp

/-- The loop of `dtl_rle_encode`. -/
def rleEncodeLoop (w cap : Nat) : Bytes → Bytes → Run Err Bytes
  | [], out => .ok out
  | value :: bs, out => do
    let run := rleRun value bs 1
    let out ← emit w cap out [UInt8.ofNat run, value]
    rleEncodeLoop w cap (bs.drop (run - 1)) out
termination_by inp => inp.length
decreasing_by simp only [List.length_drop, List.length_cons]; omega

/-- The loop of `dtl_rle_decode`. -/
def rleDecodeLoop (w cap : Nat) : Bytes → Bytes → Run Err Bytes
  | [], out => .ok out
  | [_], _ => .error (.err .truncated)
  | count :: value :: bs, out => do
    refuse (count = 0) .badRecord
    let out ← emit w cap out (List.replicate count.toNat value)
    rleDecodeLoop w cap bs out

/-- The `do … while` that writes one value, seven bits at a time. -/
def lebWrite (w cap : Nat) (value : UInt32) (out : Bytes) : Run Err Bytes :=
  let byte := (value &&& 0x7f).toUInt8
  if value >>> 7 ≠ 0 then do
    let out ← emit w cap out [byte ||| 0x80]
    lebWrite w cap (value >>> 7) out
  else emit w cap out [byte]
termination_by value.toNat
decreasing_by exact shiftRight7_lt (by assumption)

/-- The loop of `dtl_varint_decode`. -/
def varintDecodeLoop (w cap : Nat) (inp out : Bytes) : Run Err Bytes :=
  if inp = [] then .ok out else
  match _h : lebRead VARINT_LAST_SHIFT inp 0 0 with
  | .error e => .error (.err e)
  | .ok (value, rest) => do
    let out ← emit w cap out (endianWriteU32le value)
    varintDecodeLoop w cap rest out
termination_by inp.length
decreasing_by exact lebRead_lt _h

/-- The loop of `dtl_varint_encode`. -/
def varintEncodeLoop (w cap : Nat) : Bytes → Bytes → Run Err Bytes
  | [], out => .ok out
  | p0 :: p1 :: p2 :: p3 :: bs, out => do
    let out ← lebWrite w cap (endianReadU32le p0 p1 p2 p3) out
    varintEncodeLoop w cap bs out
  | _, _ => .error (.err .truncated)

/-- The loop of `dtl_lz77_encode`, with the flush after it. -/
def lz77EncodeLoop (w cap : Nat) (inp : Bytes) (p tokens : Nat) (flag : UInt8) (group out : Bytes) :
    Run Err Bytes :=
  if p < inp.length then
    let token := lz77Next inp p
    let flag := token.mark tokens flag
    let group := group ++ token.bytes
    if tokens + 1 = 8 then do
      let out ← emit w cap out (flag :: group)
      lz77EncodeLoop w cap inp (p + token.span) 0 0 [] out
    else lz77EncodeLoop w cap inp (p + token.span) (tokens + 1) flag group out
  else if tokens ≠ 0 then emit w cap out (flag :: group) else .ok out
termination_by inp.length - p
decreasing_by
  all_goals
    have hspan := lz77Next_span_pos inp p
    omega

/-- The loop of `dtl_lz77_decode`. -/
def lz77DecodeLoop (w : Nat) (before : UInt8) (cap : Nat) :
    Bytes → UInt8 → Nat → Bytes → Run Err Bytes
  | [], _, _, out => .ok out
  | b :: bs, flag, bit, out =>
    if bit = 8 then lz77DecodeLoop w before cap bs b 0 out
    else if (flag >>> UInt8.ofNat bit) &&& 1 ≠ 0 then
      match bs with
      | [] => .error (.err .truncated)
      | b1 :: bs => do
        refuse (lz77Offset b b1 = 0 ∨ lz77Offset b b1 > out.length + 1) .badRecord
        let out ← emit w cap out (lz77Copy before (lz77Offset b b1) (lz77Length b1) out)
        lz77DecodeLoop w before cap bs flag (bit + 1) out
    else do
      let out ← emit w cap out [b]
      lz77DecodeLoop w before cap bs flag (bit + 1) out

/-- The token loop of `dtl_dict_decode_impl`. -/
def dictDecodeTokens (w cap : Nat) (entries : List Bytes) : Bytes → Bytes → Run Err Bytes
  | [], out => .ok out
  | p0 :: p1 :: b, out => do
    let id := (endianReadU16le p0 p1).toNat
    refuse (id ≥ entries.length) .badRecord
    let out ← emit w cap out (entries.getD id [])
    dictDecodeTokens w cap entries b out
  | _, _ => .error (.err .truncated)

/-- `dtl_dict_decode`. -/
def dictDecode (w : Nat) (scratchOk : Bool) (inp : Bytes) (cap : Nat) : Run Err Bytes := do
  let (entryCount, b) ← lift (Dtl.bufReadU16 inp)
  refuse (entryCount ≠ 0 ∧ scratchOk = false) .oom
  let (entries, b) ← lift (PrefixCode.readMany dictReadPhrase entryCount.toNat b)
  dictDecodeTokens w cap entries b []

/-- The loop that emits the phrase table. -/
def dictEmitEntries (w cap : Nat) : List Bytes → Bytes → Run Err Bytes
  | [], out => .ok out
  | phrase :: entries, out => do
    let out ← emit w cap out [UInt8.ofNat phrase.length]
    let out ← emit w cap out phrase
    dictEmitEntries w cap entries out

/-- The loop that emits the token stream. -/
def dictEmitTokens (w cap : Nat) : List Nat → Bytes → Run Err Bytes
  | [], out => .ok out
  | id :: tokens, out => do
    let out ← emit w cap out (endianWriteU16le (UInt16.ofNat id))
    dictEmitTokens w cap tokens out

/-- `dtl_dict_encode`. -/
def dictEncode (w : Nat) (scratchOk : Bool) (inp : Bytes) (cap : Nat) : Run Err Bytes :=
  if inp.length = 0 then emit w cap [] (endianWriteU16le 0) else do
  refuse (scratchOk = false) .oom
  let (entries, tokens) ← lift (dictBuild (dictBlocks inp) [] [])
  let out ← emit w cap [] (endianWriteU16le (UInt16.ofNat entries.length))
  let out ← dictEmitEntries w cap entries out
  dictEmitTokens w cap tokens out

/-- The loop of `dtl_delta_encode`. -/
def deltaEncodeLoop (w cap : Nat) (prev : UInt32) : Bytes → Bytes → Run Err Bytes
  | p0 :: p1 :: p2 :: p3 :: bs, out => do
    let cur := endianReadU32le p0 p1 p2 p3
    let out ← lebWrite w cap (deltaZigzag (cur - prev)) out
    deltaEncodeLoop w cap cur bs out
  | _, out => .ok out

/-- `dtl_delta_encode`. -/
def deltaEncode (w : Nat) (inp : Bytes) (cap : Nat) : Run Err Bytes :=
  if inp.length = 0 then .ok [] else
  if inp.length % 4 ≠ 0 then .error (.err .truncated) else
  match inp with
  | p0 :: p1 :: p2 :: p3 :: bs => do
    let prev := endianReadU32le p0 p1 p2 p3
    let out ← emit w cap [] (endianWriteU32le prev)
    deltaEncodeLoop w cap prev bs out
  | _ => .error (.err .truncated)

/-- The loop of `dtl_delta_decode`. -/
def deltaDecodeLoop (w cap : Nat) (prev : UInt32) (inp out : Bytes) : Run Err Bytes :=
  if inp = [] then .ok out else
  match _h : lebRead DELTA_LAST_SHIFT inp 0 0 with
  | .error e => .error (.err e)
  | .ok (zz, rest) => do
    let cur := prev + deltaUnzigzag zz
    let out ← emit w cap out (endianWriteU32le cur)
    deltaDecodeLoop w cap cur rest out
termination_by inp.length
decreasing_by exact lebRead_lt _h

/-- `dtl_delta_decode`. -/
def deltaDecode (w : Nat) (inp : Bytes) (cap : Nat) : Run Err Bytes :=
  match inp with
  | [] => .ok []
  | p0 :: p1 :: p2 :: p3 :: bs => do
    let prev := endianReadU32le p0 p1 p2 p3
    let out ← emit w cap [] (endianWriteU32le prev)
    deltaDecodeLoop w cap prev bs out
  | _ => .error (.err .truncated)

/-- The loop of `dtl_base32_encode`. -/
def base32EncodeLoop (w cap : Nat) (inp out : Bytes) : Run Err Bytes :=
  if inp.length = 0 then .ok out else do
  let out ← emit w cap out (base32Group (inp.take 5))
  base32EncodeLoop w cap (inp.drop 5) out
termination_by inp.length
decreasing_by simp only [List.length_drop]; omega

/-- The group loop of `dtl_base32_decode`. -/
def base32DecodeLoop (w cap : Nat) (inp out : Bytes) : Run Err Bytes :=
  if inp.length = 0 then .ok out else do
  let bytes ← lift (base32Ungroup (decide ((inp.drop 8).length = 0)) (inp.take 8))
  let out ← emit w cap out bytes
  base32DecodeLoop w cap (inp.drop 8) out
termination_by inp.length
decreasing_by simp only [List.length_drop]; omega

/-- `dtl_base32_decode`. -/
def base32Decode (w : Nat) (inp : Bytes) (cap : Nat) : Run Err Bytes :=
  if inp.length = 0 then .ok [] else do
  refuse (inp.length % 8 ≠ 0) .truncated
  base32DecodeLoop w cap inp []

/-- `dtl_codec_fn`. -/
abbrev CodecFn := CodecEnv → Bytes → Nat → Run Err Bytes

/-- `dtl_codec`. -/
structure Codec where
  id : UInt8
  decode : CodecFn
  encode : CodecFn

/-- `dtl_codec_table`. -/
def codecTable (w : Nat) : List Codec :=
  [⟨CODEC_STORE, fun _ => storeCopy, fun _ => storeCopy⟩,
   ⟨CODEC_RLE, fun _ inp cap => rleDecodeLoop w cap inp [],
     fun _ inp cap => rleEncodeLoop w cap inp []⟩,
   ⟨CODEC_VARINT, fun _ inp cap => varintDecodeLoop w cap inp [],
     fun _ inp cap => varintEncodeLoop w cap inp []⟩,
   ⟨CODEC_LZ77, fun env inp cap => lz77DecodeLoop w env.before cap inp 0 8 [],
     fun _ inp cap => lz77EncodeLoop w cap inp 0 0 0 [] []⟩,
   ⟨CODEC_DICT, fun env => dictDecode w env.scratchOk, fun env => dictEncode w env.scratchOk⟩,
   ⟨CODEC_DELTA, fun _ => deltaDecode w, fun _ => deltaEncode w⟩,
   ⟨CODEC_BASE32, fun _ => base32Decode w, fun _ inp cap => base32EncodeLoop w cap inp []⟩]

/-- `dtl_codec_get`. -/
def codecGet (w : Nat) (codecId : UInt8) : Option Codec := (codecTable w).find? (·.id = codecId)

/-! ## No step wraps -/

/-- The same output, and no more of it than the capacity. -/
def Fits (cap : Nat) (a b : Bytes) : Prop := a = b ∧ a.length ≤ cap

section Simulation

variable {w cap : Nat}

theorem emit_simulates (hcap : cap < 2 ^ w) {out : Bytes} (hout : out.length ≤ cap) (bs : Bytes) :
    Simulates (Fits cap) (emit w cap out bs) (Dtl.emit cap out bs) := by
  unfold emit
  apply Simulates.step (sub_ok hout)
  by_cases hroom : cap - out.length < bs.length
  · refine .inr ⟨.range, ?_, if_pos hroom⟩
    rw [refuse, if_pos hroom]
    rfl
  · refine .inl ⟨out ++ bs, out ++ bs, ?_, if_neg hroom, rfl, ?_⟩
    · rw [refuse, if_neg hroom, Except.bind_ok_eq, add_ok (by omega)]
      rfl
    · rw [List.length_append]
      omega

/-- An `emit` followed by matching computations. -/
theorem emit_bind {β γ : Type} {R : β → γ → Prop} (hcap : cap < 2 ^ w) {out bs : Bytes}
    (hout : out.length ≤ cap) {f : Bytes → Run Err β} {g : Bytes → Res γ}
    (h : ∀ o : Bytes, o.length ≤ cap → Simulates R (f o) (g o)) :
    Simulates R (emit w cap out bs >>= f) (Dtl.emit cap out bs >>= g) := by
  apply Simulates.bind (emit_simulates hcap hout bs)
  rintro o _ ⟨rfl, ho⟩
  exact h o ho

theorem storeCopy_simulates (inp : Bytes) :
    Simulates (Fits cap) (storeCopy inp cap) (Dtl.storeCopy inp cap) := by
  apply Simulates.unless
  intro hle
  exact Simulates.pure ⟨rfl, by omega⟩

theorem rleEncodeLoop_simulates (hcap : cap < 2 ^ w) (inp out : Bytes) (hout : out.length ≤ cap) :
    Simulates (Fits cap) (rleEncodeLoop w cap inp out) (Dtl.rleEncodeLoop cap inp out) := by
  induction hn : inp.length using Nat.strongRecOn generalizing inp out with
  | ind n ih =>
    cases inp with
    | nil =>
      rw [rleEncodeLoop, Dtl.rleEncodeLoop]
      exact Simulates.pure ⟨rfl, hout⟩
    | cons value bs =>
      rw [rleEncodeLoop, Dtl.rleEncodeLoop]
      apply emit_bind hcap hout
      intro o ho
      refine ih _ ?_ (bs.drop (rleRun value bs 1 - 1)) o ho rfl
      rw [← hn, List.length_drop, List.length_cons]
      omega

theorem rleDecodeLoop_simulates (hcap : cap < 2 ^ w) : ∀ (inp out : Bytes), out.length ≤ cap →
    Simulates (Fits cap) (rleDecodeLoop w cap inp out) (Dtl.rleDecodeLoop cap inp out)
  | [], _, hout => Simulates.pure ⟨rfl, hout⟩
  | [_], _, _ => .inr ⟨.truncated, rfl, rfl⟩
  | count :: value :: bs, out, hout => by
    rw [rleDecodeLoop, Dtl.rleDecodeLoop]
    apply Simulates.unless
    intro _
    apply emit_bind hcap hout
    exact rleDecodeLoop_simulates hcap bs

theorem lebWrite_simulates (hcap : cap < 2 ^ w) (value : UInt32) (out : Bytes)
    (hout : out.length ≤ cap) :
    Simulates (Fits cap) (lebWrite w cap value out) (Dtl.lebWrite cap value out) := by
  induction hn : value.toNat using Nat.strongRecOn generalizing value out with
  | ind n ih =>
    rw [lebWrite, Dtl.lebWrite]
    by_cases h : value >>> 7 ≠ 0
    · simp only [if_pos h]
      apply emit_bind hcap hout
      intro o ho
      exact ih _ (hn ▸ shiftRight7_lt h) _ o ho rfl
    · simp only [if_neg h]
      exact emit_simulates hcap hout _

/-- A `lebWrite` followed by matching computations. -/
theorem lebWrite_bind {β γ : Type} {R : β → γ → Prop} (hcap : cap < 2 ^ w) {value : UInt32}
    {out : Bytes} (hout : out.length ≤ cap) {f : Bytes → Run Err β} {g : Bytes → Res γ}
    (h : ∀ o : Bytes, o.length ≤ cap → Simulates R (f o) (g o)) :
    Simulates R (lebWrite w cap value out >>= f) (Dtl.lebWrite cap value out >>= g) := by
  apply Simulates.bind (lebWrite_simulates hcap value out hout)
  rintro o _ ⟨rfl, ho⟩
  exact h o ho

theorem varintDecodeLoop_simulates (hcap : cap < 2 ^ w) (inp out : Bytes) (hout : out.length ≤ cap) :
    Simulates (Fits cap) (varintDecodeLoop w cap inp out) (Dtl.varintDecodeLoop cap inp out) := by
  induction hn : inp.length using Nat.strongRecOn generalizing inp out with
  | ind n ih =>
    rw [varintDecodeLoop, Dtl.varintDecodeLoop]
    by_cases hne : inp = []
    · rw [if_pos hne, if_pos hne]
      exact Simulates.pure ⟨rfl, hout⟩
    · rw [if_neg hne, if_neg hne]
      split <;> rename_i hread
      all_goals try (split <;> rename_i hread' <;> rw [hread] at hread' <;> cases hread')
      · exact .inr ⟨_, rfl, rfl⟩
      · apply emit_bind hcap hout
        intro o ho
        exact ih _ (hn ▸ lebRead_lt hread) _ o ho rfl

theorem varintEncodeLoop_simulates (hcap : cap < 2 ^ w) : ∀ (inp out : Bytes), out.length ≤ cap →
    Simulates (Fits cap) (varintEncodeLoop w cap inp out) (Dtl.varintEncodeLoop cap inp out)
  | [], _, hout => Simulates.pure ⟨rfl, hout⟩
  | [_], _, _ => .inr ⟨.truncated, rfl, rfl⟩
  | [_, _], _, _ => .inr ⟨.truncated, rfl, rfl⟩
  | [_, _, _], _, _ => .inr ⟨.truncated, rfl, rfl⟩
  | p0 :: p1 :: p2 :: p3 :: bs, out, hout => by
    rw [varintEncodeLoop, Dtl.varintEncodeLoop]
    apply lebWrite_bind hcap hout
    exact varintEncodeLoop_simulates hcap bs

theorem lz77EncodeLoop_simulates (hcap : cap < 2 ^ w) (inp : Bytes) (p tokens : Nat) (flag : UInt8)
    (group out : Bytes) (hout : out.length ≤ cap) :
    Simulates (Fits cap) (lz77EncodeLoop w cap inp p tokens flag group out)
      (Dtl.lz77EncodeLoop cap inp p tokens flag group out) := by
  induction hn : inp.length - p using Nat.strongRecOn generalizing p tokens flag group out with
  | ind n ih =>
    have hspan := lz77Next_span_pos inp p
    rw [lz77EncodeLoop, Dtl.lz77EncodeLoop]
    by_cases hp : p < inp.length
    · rw [if_pos hp, if_pos hp]
      dsimp only
      split
      · apply emit_bind hcap hout
        intro o ho
        exact ih _ (by omega) _ _ _ _ o ho rfl
      · exact ih _ (by omega) _ _ _ _ out hout rfl
    · rw [if_neg hp, if_neg hp]
      split
      · exact emit_simulates hcap hout _
      · exact Simulates.pure ⟨rfl, hout⟩

theorem lz77DecodeLoop_simulates (hcap : cap < 2 ^ w) (before : UInt8) :
    ∀ (inp : Bytes) (flag : UInt8) (bit : Nat) (out : Bytes), out.length ≤ cap →
      Simulates (Fits cap) (lz77DecodeLoop w before cap inp flag bit out)
        (Dtl.lz77DecodeLoop before cap inp flag bit out)
  | [], _, _, _, hout => Simulates.pure ⟨rfl, hout⟩
  | b :: bs, flag, bit, out, hout => by
    unfold lz77DecodeLoop Dtl.lz77DecodeLoop
    split
    · exact lz77DecodeLoop_simulates hcap before bs b 0 out hout
    split
    · cases bs with
      | nil => exact .inr ⟨.truncated, rfl, rfl⟩
      | cons b1 bs =>
        apply Simulates.unless
        intro _
        apply emit_bind hcap hout
        exact lz77DecodeLoop_simulates hcap before bs flag (bit + 1)
    · apply emit_bind hcap hout
      exact lz77DecodeLoop_simulates hcap before bs flag (bit + 1)

theorem dictDecodeTokens_simulates (hcap : cap < 2 ^ w) (entries : List Bytes) :
    ∀ (inp out : Bytes), out.length ≤ cap →
      Simulates (Fits cap) (dictDecodeTokens w cap entries inp out)
        (Dtl.dictDecodeTokens cap entries inp out)
  | [], _, hout => Simulates.pure ⟨rfl, hout⟩
  | [_], _, _ => .inr ⟨.truncated, rfl, rfl⟩
  | p0 :: p1 :: b, out, hout => by
    rw [dictDecodeTokens, Dtl.dictDecodeTokens]
    apply Simulates.unless
    intro _
    apply emit_bind hcap hout
    exact dictDecodeTokens_simulates hcap entries b

theorem dictDecode_simulates (hcap : cap < 2 ^ w) (scratchOk : Bool) (inp : Bytes) :
    Simulates (Fits cap) (dictDecode w scratchOk inp cap) (Dtl.dictDecode scratchOk inp cap) := by
  unfold dictDecode Dtl.dictDecode
  apply Simulates.bind (Simulates.lift _)
  rintro ⟨entryCount, b⟩ _ rfl
  apply Simulates.unless
  intro _
  apply Simulates.bind (Simulates.lift _)
  rintro ⟨entries, b⟩ _ rfl
  exact dictDecodeTokens_simulates hcap entries b [] (Nat.zero_le _)

theorem dictEmitEntries_simulates (hcap : cap < 2 ^ w) : ∀ (entries : List Bytes) (out : Bytes),
    out.length ≤ cap → Simulates (Fits cap) (dictEmitEntries w cap entries out)
      (Dtl.dictEmitEntries cap entries out)
  | [], _, hout => Simulates.pure ⟨rfl, hout⟩
  | phrase :: entries, out, hout => by
    rw [dictEmitEntries, Dtl.dictEmitEntries]
    apply emit_bind hcap hout
    intro o ho
    apply emit_bind hcap ho
    exact dictEmitEntries_simulates hcap entries

theorem dictEmitTokens_simulates (hcap : cap < 2 ^ w) : ∀ (tokens : List Nat) (out : Bytes),
    out.length ≤ cap → Simulates (Fits cap) (dictEmitTokens w cap tokens out)
      (Dtl.dictEmitTokens cap tokens out)
  | [], _, hout => Simulates.pure ⟨rfl, hout⟩
  | id :: tokens, out, hout => by
    rw [dictEmitTokens, Dtl.dictEmitTokens]
    apply emit_bind hcap hout
    exact dictEmitTokens_simulates hcap tokens

theorem dictEncode_simulates (hcap : cap < 2 ^ w) (scratchOk : Bool) (inp : Bytes) :
    Simulates (Fits cap) (dictEncode w scratchOk inp cap) (Dtl.dictEncode scratchOk inp cap) := by
  unfold dictEncode Dtl.dictEncode
  split
  · exact emit_simulates hcap (Nat.zero_le _) _
  apply Simulates.unless
  intro _
  apply Simulates.bind (Simulates.lift _)
  rintro ⟨entries, tokens⟩ _ rfl
  apply emit_bind hcap (Nat.zero_le _)
  intro o ho
  apply Simulates.bind (dictEmitEntries_simulates hcap entries o ho)
  rintro o' _ ⟨rfl, ho'⟩
  exact dictEmitTokens_simulates hcap tokens o' ho'

theorem deltaEncodeLoop_simulates (hcap : cap < 2 ^ w) : ∀ (prev : UInt32) (inp out : Bytes),
    out.length ≤ cap → Simulates (Fits cap) (deltaEncodeLoop w cap prev inp out)
      (Dtl.deltaEncodeLoop cap prev inp out)
  | _, [], _, hout => Simulates.pure ⟨rfl, hout⟩
  | _, [_], _, hout => Simulates.pure ⟨rfl, hout⟩
  | _, [_, _], _, hout => Simulates.pure ⟨rfl, hout⟩
  | _, [_, _, _], _, hout => Simulates.pure ⟨rfl, hout⟩
  | prev, p0 :: p1 :: p2 :: p3 :: bs, out, hout => by
    rw [deltaEncodeLoop, Dtl.deltaEncodeLoop]
    apply lebWrite_bind hcap hout
    exact deltaEncodeLoop_simulates hcap _ bs

theorem deltaEncode_simulates (hcap : cap < 2 ^ w) (inp : Bytes) :
    Simulates (Fits cap) (deltaEncode w inp cap) (Dtl.deltaEncode inp cap) := by
  unfold deltaEncode Dtl.deltaEncode
  split
  · exact Simulates.pure ⟨rfl, Nat.zero_le _⟩
  split
  · exact .inr ⟨.truncated, rfl, rfl⟩
  match inp with
  | [] | [_] | [_, _] | [_, _, _] => exact .inr ⟨.truncated, rfl, rfl⟩
  | p0 :: p1 :: p2 :: p3 :: bs =>
    apply emit_bind hcap (Nat.zero_le _)
    exact deltaEncodeLoop_simulates hcap _ bs

theorem deltaDecodeLoop_simulates (hcap : cap < 2 ^ w) (prev : UInt32) (inp out : Bytes)
    (hout : out.length ≤ cap) : Simulates (Fits cap) (deltaDecodeLoop w cap prev inp out)
      (Dtl.deltaDecodeLoop cap prev inp out) := by
  induction hn : inp.length using Nat.strongRecOn generalizing prev inp out with
  | ind n ih =>
    rw [deltaDecodeLoop, Dtl.deltaDecodeLoop]
    by_cases hne : inp = []
    · rw [if_pos hne, if_pos hne]
      exact Simulates.pure ⟨rfl, hout⟩
    · rw [if_neg hne, if_neg hne]
      split <;> rename_i hread
      all_goals try (split <;> rename_i hread' <;> rw [hread] at hread' <;> cases hread')
      · exact .inr ⟨_, rfl, rfl⟩
      · apply emit_bind hcap hout
        intro o ho
        exact ih _ (hn ▸ lebRead_lt hread) _ _ o ho rfl

theorem deltaDecode_simulates (hcap : cap < 2 ^ w) (inp : Bytes) :
    Simulates (Fits cap) (deltaDecode w inp cap) (Dtl.deltaDecode inp cap) := by
  match inp with
  | [] => exact Simulates.pure ⟨rfl, Nat.zero_le _⟩
  | [_] | [_, _] | [_, _, _] => exact .inr ⟨.truncated, rfl, rfl⟩
  | p0 :: p1 :: p2 :: p3 :: bs =>
    apply emit_bind hcap (Nat.zero_le _)
    intro o ho
    exact deltaDecodeLoop_simulates hcap _ bs o ho

theorem base32EncodeLoop_simulates (hcap : cap < 2 ^ w) (inp out : Bytes) (hout : out.length ≤ cap) :
    Simulates (Fits cap) (base32EncodeLoop w cap inp out) (Dtl.base32EncodeLoop cap inp out) := by
  induction hn : inp.length using Nat.strongRecOn generalizing inp out with
  | ind n ih =>
    rw [base32EncodeLoop, Dtl.base32EncodeLoop]
    split
    · exact Simulates.pure ⟨rfl, hout⟩
    · apply emit_bind hcap hout
      intro o ho
      exact ih _ (by rw [← hn, List.length_drop]; omega) _ o ho rfl

theorem base32DecodeLoop_simulates (hcap : cap < 2 ^ w) (inp out : Bytes) (hout : out.length ≤ cap) :
    Simulates (Fits cap) (base32DecodeLoop w cap inp out) (Dtl.base32DecodeLoop cap inp out) := by
  induction hn : inp.length using Nat.strongRecOn generalizing inp out with
  | ind n ih =>
    rw [base32DecodeLoop, Dtl.base32DecodeLoop]
    split
    · exact Simulates.pure ⟨rfl, hout⟩
    · apply Simulates.bind (Simulates.lift _)
      rintro bytes _ rfl
      apply emit_bind hcap hout
      intro o ho
      exact ih _ (by rw [← hn, List.length_drop]; omega) _ o ho rfl

theorem base32Decode_simulates (hcap : cap < 2 ^ w) (inp : Bytes) :
    Simulates (Fits cap) (base32Decode w inp cap) (Dtl.base32Decode inp cap) := by
  unfold base32Decode Dtl.base32Decode
  split
  · exact Simulates.pure ⟨rfl, Nat.zero_le _⟩
  apply Simulates.unless
  intro _
  exact base32DecodeLoop_simulates hcap inp [] (Nat.zero_le _)

end Simulation

/-- Two codec functions with the same results, the first without a wrap. -/
def FnSimulates (w : Nat) (f : CodecFn) (g : Dtl.CodecFn) : Prop :=
  ∀ env inp cap, cap < 2 ^ w → Simulates (Fits cap) (f env inp cap) (g env inp cap)

theorem codecTable_simulates (w : Nat) : List.Forall₂ (fun m c => m.id = c.id ∧
    FnSimulates w m.decode c.decode ∧ FnSimulates w m.encode c.encode)
      (codecTable w) Dtl.codecTable := by
  refine .cons ⟨rfl, ?_, ?_⟩ (.cons ⟨rfl, ?_, ?_⟩ (.cons ⟨rfl, ?_, ?_⟩ (.cons ⟨rfl, ?_, ?_⟩
    (.cons ⟨rfl, ?_, ?_⟩ (.cons ⟨rfl, ?_, ?_⟩ (.cons ⟨rfl, ?_, ?_⟩ .nil))))))
  · exact fun _ inp _ _ => storeCopy_simulates inp
  · exact fun _ inp _ _ => storeCopy_simulates inp
  · exact fun _ inp _ h => rleDecodeLoop_simulates h inp [] (Nat.zero_le _)
  · exact fun _ inp _ h => rleEncodeLoop_simulates h inp [] (Nat.zero_le _)
  · exact fun _ inp _ h => varintDecodeLoop_simulates h inp [] (Nat.zero_le _)
  · exact fun _ inp _ h => varintEncodeLoop_simulates h inp [] (Nat.zero_le _)
  · exact fun env inp _ h => lz77DecodeLoop_simulates h env.before inp 0 8 [] (Nat.zero_le _)
  · exact fun _ inp _ h => lz77EncodeLoop_simulates h inp 0 0 0 [] [] (Nat.zero_le _)
  · exact fun env inp _ h => dictDecode_simulates h env.scratchOk inp
  · exact fun env inp _ h => dictEncode_simulates h env.scratchOk inp
  · exact fun _ inp _ h => deltaDecode_simulates h inp
  · exact fun _ inp _ h => deltaEncode_simulates h inp
  · exact fun _ inp _ h => base32Decode_simulates h inp
  · exact fun _ inp _ h => base32EncodeLoop_simulates h inp [] (Nat.zero_le _)

/-- Corresponding lists give corresponding results to corresponding searches. -/
theorem find_forall₂ {α β : Type} {R : α → β → Prop} {p : α → Bool} {q : β → Bool}
    (hpq : ∀ a b, R a b → p a = q b) {l : List α} {l' : List β} (h : List.Forall₂ R l l') {a : α}
    {b : β} (ha : l.find? p = some a) (hb : l'.find? q = some b) : R a b := by
  induction h with
  | nil => cases ha
  | @cons x y _ _ hab _ ih =>
    rw [List.find?_cons] at ha hb
    cases hx : p x with
    | true =>
      rw [hx] at ha
      rw [← hpq x y hab, hx] at hb
      cases ha
      cases hb
      exact hab
    | false =>
      rw [hx] at ha
      rw [← hpq x y hab, hx] at hb
      exact ih ha hb

/-- **No codec wraps its output position**, and each returns what its model returns. -/
theorem codecGet_simulates {w : Nat} {codecId : UInt8} {m : Codec} {c : Dtl.Codec}
    (hm : codecGet w codecId = some m) (hc : Dtl.codecGet codecId = some c) :
    FnSimulates w m.decode c.decode ∧ FnSimulates w m.encode c.encode := by
  have hids : ∀ (m : Codec) (c : Dtl.Codec), (m.id = c.id ∧ FnSimulates w m.decode c.decode ∧
      FnSimulates w m.encode c.encode) → decide (m.id = codecId) = decide (c.id = codecId) := by
    rintro m c ⟨hid, -⟩
    rw [hid]
  exact (find_forall₂ hids (codecTable_simulates w) hm hc).2

end Machine

end Dtl
