import TelemetryForge.Codec.Machine
import TelemetryForge.Writer.Log

/-!
# The capacity law of the codec interface

A codec function obeys the capacity law on an input when one success fixes its result for every
output capacity: the same bytes where they fit, `DTL_ERR_RANGE` where they do not.  The writer's
grow-and-retry loop and the readers' use of `raw_len` as capacity rest on it.

Thirteen of the fourteen functions obey it on every input.  `dtl_lz77_decode` admits a match whose
distance is one more than the bytes written so far; such a match copies the byte in front of the
output buffer, which no argument of the call determines.  `lz77Escape` finds such matches by
counting alone.

Principal result: `codec_capacity_iff` — the law, the stability of the retry loop and the absence of
wrapped subtractions hold exactly for the inputs that do not make `dtl_lz77_decode` leave its buffer.
-/

set_option autoImplicit false

namespace Dtl

open Sink

/-- The two functions of a codec. -/
inductive Direction where
  | decode
  | encode
  deriving DecidableEq, Repr

def Codec.fn (c : Codec) : Direction → CodecFn
  | .decode => c.decode
  | .encode => c.encode

def Machine.Codec.fn (m : Machine.Codec) : Direction → Machine.CodecFn
  | .decode => m.decode
  | .encode => m.encode

/-- One success fixes the result for every capacity, in whatever buffer. -/
def CapacityLaw (f : CodecFn) (x : Bytes) : Prop :=
  ∀ env env' : CodecEnv, env.scratchOk = true → env'.scratchOk = true → ∀ cap y,
    f env x cap = .ok y → ∀ c, f env' x c = if y.length ≤ c then .ok y else .error .range

/-- What the grow-and-retry loop produces is what one call with enough room produces. -/
def RetryStable (c : Codec) (x : Bytes) : Prop :=
  ∀ env : Nat → CodecEnv, (∀ k, (env k).scratchOk = true) → ∀ arena cap y,
    (writerCompress c env x arena cap).1 = .ok y →
      ∀ env' : CodecEnv, env'.scratchOk = true → ∀ room,
        c.encode env' x room = if y.length ≤ room then .ok y else .error .range

/-- Whether the tokens of an LZ77 blob reach in front of the output, `o` bytes of which are written:
`none` when the blob is refused anyway, `some true` when a match has a distance of `o + 1`. -/
def lz77Escape : Bytes → UInt8 → Nat → Nat → Option Bool
  | [], _, _, _ => some false
  | b :: bs, flag, bit, o =>
    if bit = 8 then lz77Escape bs b 0 o
    else if (flag >>> UInt8.ofNat bit) &&& 1 ≠ 0 then
      match bs with
      | [] => none
      | b1 :: bs =>
        if lz77Offset b b1 > o + 1 then none
        else (lz77Escape bs flag (bit + 1) (o + lz77Length b1)).map
          (decide (lz77Offset b b1 = o + 1) || ·)
    else lz77Escape bs flag (bit + 1) (o + 1)

/-- The function is the LZ77 decoder and the input is an accepted blob that leaves the buffer. -/
def LeavesBuffer (codecId : UInt8) (d : Direction) (x : Bytes) : Prop :=
  codecId = CODEC_LZ77 ∧ d = .decode ∧ lz77Escape x 0 8 0 = some true

/-! ## The LZ77 decoder and the byte in front of its buffer -/

/-- `lz77Escape` over a token stream. -/
def lz77EscapeOf : Nat → List Lz77Token → Option Err → Option Bool
  | _, [], stop => if stop = none then some false else none
  | o, t :: ts, stop =>
    if t.Refused o then none
    else (lz77EscapeOf (o + t.span) ts stop).map (decide (t.Outside o) || ·)

theorem lz77Escape_eq : ∀ (inp : Bytes) (flag : UInt8) (bit o : Nat),
    lz77Escape inp flag bit o =
      lz77EscapeOf o (lz77Stream inp flag bit).1 (lz77Stream inp flag bit).2
  | [], _, _, _ => rfl
  | b :: bs, flag, bit, o => by
    unfold lz77Escape lz77Stream
    by_cases hbit : bit = 8
    · rw [if_pos hbit, if_pos hbit]
      exact lz77Escape_eq bs b 0 o
    rw [if_neg hbit, if_neg hbit]
    by_cases hflag : (flag >>> UInt8.ofNat bit) &&& 1 ≠ 0
    · rw [if_pos hflag, if_pos hflag]
      cases bs with
      | nil => rfl
      | cons b1 bs =>
        have hrefused : (Lz77Token.copy (lz77Offset b b1) (lz77Length b1)).Refused o ↔
            lz77Offset b b1 > o + 1 := or_iff_right (lz77Offset_pos b b1)
        dsimp only
        rw [lz77Escape_eq bs flag (bit + 1), lz77EscapeOf]
        simp only [hrefused]
        rfl
    · rw [if_neg hflag, if_neg hflag]
      dsimp only
      have hlit : ¬ (Lz77Token.literal b).Refused o := id
      have hin : decide ((Lz77Token.literal b).Outside o) = false := rfl
      rw [lz77Escape_eq bs flag (bit + 1), lz77EscapeOf, if_neg hlit]
      simp only [hin, Bool.false_or, Option.map_id']
      rfl

/-- The scan refuses exactly what the decoder refuses. -/
theorem lz77EscapeOf_stop (a : UInt8) (stop : Option Err) : ∀ (ts : List Lz77Token) (out : Bytes),
    (lz77EscapeOf out.length ts stop).isSome = true ↔ (lz77Interpret a ts stop out).stop = none
  | [], out => by cases stop <;> simp [lz77EscapeOf, lz77Interpret]
  | t :: ts, out => by
    rw [lz77EscapeOf, lz77Interpret]
    by_cases hbad : t.Refused out.length
    · simp [hbad]
    · have ih := lz77EscapeOf_stop a stop ts (out ++ t.chunk a out)
      rw [List.length_append, t.chunk_length] at ih
      rw [if_neg hbad, if_neg hbad, Option.isSome_map, Plan.stop_cons, ih]

/-- A stream that stays inside the buffer decodes alike whatever is in front of it. -/
theorem lz77Interpret_inside (a a' : UInt8) (stop : Option Err) :
    ∀ (ts : List Lz77Token) (out : Bytes), lz77EscapeOf out.length ts stop = some false →
      lz77Interpret a ts stop out = lz77Interpret a' ts stop out
  | [], _, _ => rfl
  | t :: ts, out, h => by
    rw [lz77EscapeOf] at h
    rw [lz77Interpret, lz77Interpret]
    by_cases hbad : t.Refused out.length
    · rw [if_pos hbad] at h
      cases h
    rw [if_neg hbad] at h ⊢
    obtain ⟨r, hr, hor⟩ := Option.map_eq_some_iff.mp h
    obtain ⟨hout, rfl⟩ := Bool.or_eq_false_iff.mp hor
    have hin : t.Inside out.length :=
      ((t.inside_or out.length).resolve_left hbad).resolve_left (of_decide_eq_false hout)
    rw [if_neg hbad, hin.chunk_eq a a', lz77Interpret_inside a a' stop ts]
    rw [List.length_append, t.chunk_length]
    exact hr

/-- Neither the length nor the verdict depends on the byte in front of the buffer. -/
theorem lz77Interpret_shape (a a' : UInt8) (stop : Option Err) :
    ∀ (ts : List Lz77Token) (out out' : Bytes), out.length = out'.length →
      (lz77Interpret a ts stop out).stop = (lz77Interpret a' ts stop out').stop ∧
        (lz77Interpret a ts stop out).output.length = (lz77Interpret a' ts stop out').output.length
  | [], _, _, _ => ⟨rfl, rfl⟩
  | t :: ts, out, out', hlen => by
    rw [lz77Interpret, lz77Interpret, hlen]
    by_cases hbad : t.Refused out'.length
    · rw [if_pos hbad, if_pos hbad]
      exact ⟨rfl, rfl⟩
    obtain ⟨hstop, hout⟩ := lz77Interpret_shape a a' stop ts (out ++ t.chunk a out)
      (out' ++ t.chunk a' out') (by simp [t.chunk_length, hlen])
    rw [if_neg hbad, if_neg hbad, Plan.stop_cons, Plan.stop_cons, Plan.output_cons,
      Plan.output_cons, List.length_append, List.length_append, t.chunk_length, t.chunk_length, hout]
    exact ⟨hstop, rfl⟩

/-- A stream that leaves the buffer decodes differently when the byte in front of it differs. -/
theorem lz77Interpret_outside {a a' : UInt8} (hne : a ≠ a') (stop : Option Err) :
    ∀ (ts : List Lz77Token) (out : Bytes), (∀ t ∈ ts, 0 < t.span) →
      lz77EscapeOf out.length ts stop = some true →
      (lz77Interpret a ts stop out).output ≠ (lz77Interpret a' ts stop out).output
  | [], _, _, h => by
    rw [lz77EscapeOf] at h
    split at h
    · cases h
    · cases h
  | t :: ts, out, hspan, h => by
    rw [List.forall_mem_cons] at hspan
    rw [lz77EscapeOf] at h
    rw [lz77Interpret, lz77Interpret]
    by_cases hbad : t.Refused out.length
    · rw [if_pos hbad] at h
      cases h
    rw [if_neg hbad] at h
    obtain ⟨r, hr, hor⟩ := Option.map_eq_some_iff.mp h
    rw [if_neg hbad, if_neg hbad, Plan.output_cons, Plan.output_cons]
    intro heq
    obtain ⟨hchunk, hrest⟩ := List.append_inj heq (by rw [t.chunk_length, t.chunk_length])
    by_cases hat : t.Outside out.length
    · -- this match copies the byte in front of the buffer
      have hhead := congrArg List.head? hchunk
      rw [hat.chunk_head hspan.1, hat.chunk_head hspan.1] at hhead
      exact hne (Option.some.inj hhead)
    · rw [decide_eq_false hat, Bool.false_or] at hor
      subst hor
      rw [hchunk] at hrest
      refine lz77Interpret_outside hne stop ts _ hspan.2 ?_ hrest
      rw [List.length_append, t.chunk_length]
      exact hr

theorem lz77DecodePlan_eq (a : UInt8) (x : Bytes) :
    lz77DecodePlan a x = lz77Interpret a (lz77Read x).1 (lz77Read x).2 [] :=
  lz77DecodeFrom_eq a x 0 8 []

/-- A blob is accepted behind every byte or behind none. -/
theorem lz77Decode_ok_any {a : UInt8} {x raw : Bytes} {cap : Nat} (h : lz77Decode a x cap = .ok raw)
    (a' : UInt8) : ∃ raw', lz77Decode a' x cap = .ok raw' := by
  rw [lz77Decode_eq, lz77DecodePlan_eq] at h
  obtain ⟨hstop, rfl, hcap⟩ := Plan.run_ok h
  obtain ⟨hstop', hlen⟩ := lz77Interpret_shape a a' (lz77Read x).2 (lz77Read x).1 [] [] rfl
  refine ⟨(lz77Interpret a' (lz77Read x).1 (lz77Read x).2 []).output, ?_⟩
  rw [lz77Decode_eq, lz77DecodePlan_eq]
  exact Plan.run_of_stop_none (hstop'.symm.trans hstop) (hlen.symm.trans_le hcap)

/-! ## The law -/

/-- A function that replays one plan in every environment obeys the law. -/
theorem CapacityLaw.of_plan {f : CodecFn} {x : Bytes} (plan : CodecPlan)
    (h : ∀ env cap, env.scratchOk = true → f env x cap = plan.run .range cap) :
    CapacityLaw f x := by
  intro env env' hs hs' cap y hy c
  rw [h env cap hs] at hy
  rw [h env' c hs', Plan.run_capacity hy c]

theorem lz77Decode_capacity (x : Bytes) :
    CapacityLaw (fun env => lz77Decode env.before) x ↔ lz77Escape x 0 8 0 ≠ some true := by
  have hread : lz77Escape x 0 8 0 = lz77EscapeOf 0 (lz77Read x).1 (lz77Read x).2 :=
    lz77Escape_eq x 0 8 0
  rw [hread]
  constructor
  · intro hlaw hescape
    have hstop : ∀ a, (lz77DecodePlan a x).stop = none := by
      intro a
      rw [lz77DecodePlan_eq]
      exact (lz77EscapeOf_stop a _ _ []).mp (by rw [List.length_nil, hescape]; rfl)
    -- the same blob, decoded behind a zero byte and behind a one
    have hzero : lz77Decode 0 x (lz77DecodePlan 0 x).output.length =
        .ok (lz77DecodePlan 0 x).output := by
      rw [lz77Decode_eq, Plan.run_of_stop_none (hstop 0) (le_refl _)]
    have hone := hlaw ⟨true, 0⟩ ⟨true, 1⟩ rfl rfl _ _ hzero
      (max (lz77DecodePlan 0 x).output.length (lz77DecodePlan 1 x).output.length)
    rw [if_pos (le_max_left _ _)] at hone
    change lz77Decode 1 x _ = _ at hone
    rw [lz77Decode_eq, Plan.run_of_stop_none (hstop 1) (le_max_right _ _)] at hone
    have hne : (1 : UInt8) ≠ 0 := by decide
    rw [lz77DecodePlan_eq, lz77DecodePlan_eq] at hone
    exact lz77Interpret_outside hne _ _ [] (lz77Stream_span x 0 8) hescape (Except.ok.inj hone)
  · intro hno
    cases hescape : lz77EscapeOf 0 (lz77Read x).1 (lz77Read x).2 with
    | none =>
      intro env _ _ _ cap y hy
      have hrun := (lz77Decode_eq env.before x cap).symm.trans hy
      rw [lz77DecodePlan_eq] at hrun
      have hstop := (lz77EscapeOf_stop env.before _ _ []).mpr (Plan.run_ok hrun).1
      rw [List.length_nil, hescape] at hstop
      cases hstop
    | some r =>
      have hr : r = false := by
        cases r with
        | false => rfl
        | true => exact absurd hescape hno
      subst hr
      refine CapacityLaw.of_plan (lz77DecodePlan 0 x) fun env cap _ => ?_
      rw [lz77Decode_eq, lz77DecodePlan_eq, lz77DecodePlan_eq]
      rw [lz77Interpret_inside env.before 0 _ _ [] hescape]

/-- The law of the other functions, on every input. -/
theorem codecTable_capacity : ∀ c ∈ codecTable, ∀ (d : Direction) (x : Bytes),
    ¬ (c.id = CODEC_LZ77 ∧ d = .decode) → CapacityLaw (c.fn d) x := by
  intro c hc d x hnot
  simp only [codecTable, List.mem_cons, List.not_mem_nil, or_false] at hc
  rcases hc with rfl | rfl | rfl | rfl | rfl | rfl | rfl <;> cases d
  · exact .of_plan _ fun _ cap _ => storeCopy_eq x cap
  · exact .of_plan _ fun _ cap _ => storeCopy_eq x cap
  · exact .of_plan _ fun _ cap _ => rleDecode_eq x cap
  · exact .of_plan _ fun _ cap _ => rleEncode_eq x cap
  · exact .of_plan _ fun _ cap _ => varintDecode_eq x cap
  · exact .of_plan _ fun _ cap _ => varintEncode_eq x cap
  · exact absurd ⟨rfl, rfl⟩ hnot
  · exact .of_plan _ fun _ cap _ => lz77Encode_eq x cap
  · refine .of_plan (dictDecodePlan true x) fun env cap hs => ?_
    rw [← hs]
    exact dictDecode_eq env.scratchOk x cap
  · refine .of_plan (dictEncodePlan true x) fun env cap hs => ?_
    rw [← hs]
    exact dictEncode_eq env.scratchOk x cap
  · exact .of_plan _ fun _ cap _ => deltaDecode_eq x cap
  · exact .of_plan _ fun _ cap _ => deltaEncode_eq x cap
  · exact .of_plan _ fun _ cap _ => base32Decode_eq x cap
  · exact .of_plan _ fun _ cap _ => base32Encode_eq x cap

theorem codecGet_retryStable {codecId : UInt8} {c : Codec} (hc : codecGet codecId = some c)
    (x : Bytes) : RetryStable c x := by
  intro env hs arena cap y hy env' hs' room
  obtain ⟨cap', henc⟩ := writerCompress_ok hy
  have hlaw := codecTable_capacity c (List.mem_of_find?_eq_some hc) .encode x (by simp)
  exact hlaw (env cap') env' (hs cap') hs' cap' y henc room

/-- The law of a registered codec fails only where the LZ77 decoder leaves its buffer. -/
theorem codecGet_capacity {codecId : UInt8} {c : Codec} (hc : codecGet codecId = some c)
    (d : Direction) (x : Bytes) : CapacityLaw (c.fn d) x ↔ ¬ LeavesBuffer codecId d x := by
  by_cases hlz : codecId = CODEC_LZ77 ∧ d = .decode
  · obtain ⟨rfl, rfl⟩ := hlz
    cases hc
    refine (lz77Decode_capacity x).trans ?_
    simp [LeavesBuffer]
  · have hid := codecGet_id hc
    refine ⟨fun _ h => hlz ⟨h.1, h.2.1⟩, fun _ => ?_⟩
    apply codecTable_capacity c (List.mem_of_find?_eq_some hc) d x
    rw [hid]
    exact hlz

theorem dictDecode_scratch {scratchOk : Bool} {inp raw : Bytes} {cap : Nat}
    (h : dictDecode scratchOk inp cap = .ok raw) : dictDecode true inp cap = .ok raw := by
  simp only [dictDecode, Except.bind_eq_ok, failIf_eq_ok] at h ⊢
  obtain ⟨p, hread, -, -, hrest⟩ := h
  exact ⟨p, hread, (), by simp, hrest⟩

/-- A decoder that succeeds does so as well when its private allocations succeed. -/
theorem codecGet_decode_scratch {codecId : UInt8} {c : Codec} (hc : codecGet codecId = some c)
    {env : CodecEnv} {blob raw : Bytes} {cap : Nat} (h : c.decode env blob cap = .ok raw) :
    c.decode ⟨true, env.before⟩ blob cap = .ok raw := by
  have hmem : c ∈ codecTable := List.mem_of_find?_eq_some hc
  simp only [codecTable, List.mem_cons, List.not_mem_nil, or_false] at hmem
  rcases hmem with rfl | rfl | rfl | rfl | rfl | rfl | rfl
  · exact h
  · exact h
  · exact h
  · exact h
  · exact dictDecode_scratch h
  · exact h
  · exact h

/-- Where an LZ77 blob stays inside the buffer, a decoder that succeeds once gives the same bytes in
every memory state. -/
theorem codecGet_decode_env {codecId : UInt8} {c : Codec} (hc : codecGet codecId = some c)
    {env env' : CodecEnv} {blob raw : Bytes} {cap : Nat} (hs : env'.scratchOk = true)
    (hno : ¬ LeavesBuffer codecId .decode blob) (h : c.decode env blob cap = .ok raw) :
    c.decode env' blob cap = .ok raw := by
  have hlaw := (codecGet_capacity hc .decode blob).mpr hno _ env' rfl hs cap raw
    (codecGet_decode_scratch hc h) cap
  rwa [if_pos (codecGet_decode_le hc h)] at hlaw

/-- **The capacity law holds exactly where the LZ77 decoder stays inside its buffer**, and with it
the retry loop is stable and no `out_cap - o` wraps. -/
theorem codec_capacity_iff {w : Nat} {codecId : UInt8} {c : Codec} {m : Machine.Codec}
    (hc : codecGet codecId = some c) (hm : Machine.codecGet w codecId = some m) (d : Direction)
    (x : Bytes) :
    (CapacityLaw (c.fn d) x ∧ RetryStable c x ∧ ∀ env cap, cap < 2 ^ w →
      m.fn d env x cap ≠ .error .wrap ∧
        Checked.Simulates Eq (m.fn d env x cap) (c.fn d env x cap)) ↔
      ¬ LeavesBuffer codecId d x := by
  have hsim := Machine.codecGet_simulates hm hc
  have hmach : ∀ env cap, cap < 2 ^ w → m.fn d env x cap ≠ .error .wrap ∧
      Checked.Simulates Eq (m.fn d env x cap) (c.fn d env x cap) := by
    intro env cap hcap
    have h : Checked.Simulates (Machine.Fits cap) (m.fn d env x cap) (c.fn d env x cap) := by
      cases d with
      | decode => exact hsim.1 env x cap hcap
      | encode => exact hsim.2 env x cap hcap
    exact ⟨h.no_fault.1, h.mono fun _ _ hfits => hfits.1⟩
  rw [← codecGet_capacity hc d x]
  exact ⟨fun h => h.1, fun h => ⟨h, codecGet_retryStable hc x, hmach⟩⟩

theorem codec_capacity_lz77 : CapacityLaw (fun env => lz77Decode env.before) [2, 65, 0, 0] := by
  have hget : codecGet CODEC_LZ77 = some ⟨CODEC_LZ77, "lz77",
      fun env => lz77Decode env.before, fun _ => lz77Encode⟩ := rfl
  have hno : ¬ LeavesBuffer CODEC_LZ77 .decode [2, 65, 0, 0] := by
    rintro ⟨-, -, h⟩
    revert h
    decide
  exact ((codec_capacity_iff (w := 64) hget rfl .decode [2, 65, 0, 0]).mpr hno).1

/-- A match at the very start of a blob copies the byte in front of the output buffer. -/
theorem lz77_decode_breaks_capacity :
    ¬ CapacityLaw (fun env => lz77Decode env.before) [0x01, 0x00, 0x00] := by
  intro h
  have hone := h ⟨true, 0⟩ ⟨true, 1⟩ rfl rfl 3 [0, 0, 0] (by decide) 3
  revert hone
  decide

end Dtl
