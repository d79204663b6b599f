import TelemetryForge.Core.Buf
import TelemetryForge.Lib.Sink

/-!
# The codec interface, STORE and RLE

A codec function (`dtl_codec_fn`) reads a whole input and writes into a buffer of `out_cap` bytes.
What it does depends on two things besides its arguments, collected in `CodecEnv`: whether the
private allocations of the dictionary codec succeed, and the byte that happens to precede the
output buffer in memory (`dtl_lz77_decode` can read it).

Every function is modelled twice: as the capacity-checked loop of the source, and as the `Plan` of
chunks it writes when capacity is left out of account; `rleEncode_eq` and its siblings identify the
two, so the capacity law and the round trips are proved on plans.

Principal result: `rle_roundtrip_minimal` — decoding inverts RLE encoding, and no blob for the same
bytes is shorter than the encoder's.
-/

set_option autoImplicit false

namespace Dtl

open Sink

/-- What a codec call depends on besides its arguments. -/
structure CodecEnv where
  /-- the private allocations of the call succeed -/
  scratchOk : Bool
  /-- the byte of memory just before the output buffer -/
  before : UInt8

/-- `dtl_codec_fn`: input and output capacity to the bytes produced. -/
abbrev CodecFn := CodecEnv → Bytes → Nat → Res Bytes

abbrev CodecPlan := Plan Err UInt8

/-- The check-and-write step every codec makes: `DTL_ERR_RANGE` when the output has no room. -/
abbrev emit (cap : Nat) (out bs : Bytes) : Res Bytes := put .range cap out bs

/-! ## STORE -/

/-- `dtl_store_copy`, both directions of the STORE codec. -/
def storeCopy (inp : Bytes) (cap : Nat) : Res Bytes := do
  failIf (inp.length > cap) .range
  return inp

def storePlan (inp : Bytes) : CodecPlan := Plan.cons inp Plan.done

theorem storeCopy_eq (inp : Bytes) (cap : Nat) :
    storeCopy inp cap = (storePlan inp).run .range cap := by
  rw [Plan.run_eq]
  simp only [storeCopy, failIf, storePlan, Plan.output_cons, Plan.output_done, List.append_nil,
    Plan.stop_cons, Plan.stop_done]
  by_cases h : inp.length ≤ cap
  · rw [if_neg (by omega), if_pos h]; rfl
  · rw [if_pos (by omega), if_neg h]; rfl

/-! ## RLE -/

/-- `DTL_RLE_MAX_RUN`. -/
def RLE_MAX_RUN : Nat := 255

/-- The run-extension loop: the run length, `run` bytes of it already counted. -/
def rleRun (value : UInt8) : Bytes → Nat → Nat
  | [], run => run
  | b :: bs, run => if b = value ∧ run < RLE_MAX_RUN then rleRun value bs (run + 1) else run

/-- The loop of `dtl_rle_encode` over the bytes still to encode. -/
def rleEncodeLoop (cap : Nat) : Bytes → Bytes → Res Bytes
  | [], out => .ok out
  | value :: bs, out => do
    let run := rleRun value bs 1
    let out ← emit cap out [UInt8.ofNat run, value]
    rleEncodeLoop cap (bs.drop (run - 1)) out
termination_by inp => inp.length
decreasing_by simp only [List.length_drop, List.length_cons]; omega

/-- `dtl_rle_encode`. -/
def rleEncode (inp : Bytes) (cap : Nat) : Res Bytes := rleEncodeLoop cap inp []

/-- The loop of `dtl_rle_decode`. -/
def rleDecodeLoop (cap : Nat) : Bytes → Bytes → Res Bytes
  | [], out => .ok out
  | [_], _ => .error .truncated
  | count :: value :: bs, out => do
    failIf (count = 0) .badRecord
    let out ← emit cap out (List.replicate count.toNat value)
    rleDecodeLoop cap bs out

/-- `dtl_rle_decode`. -/
def rleDecode (inp : Bytes) (cap : Nat) : Res Bytes := rleDecodeLoop cap inp []

def rleEncodePlan : Bytes → CodecPlan
  | [] => Plan.done
  | value :: bs =>
    let run := rleRun value bs 1
    Plan.cons [UInt8.ofNat run, value] (rleEncodePlan (bs.drop (run - 1)))
termination_by inp => inp.length
decreasing_by simp only [List.length_drop, List.length_cons]; omega

def rleDecodePlan : Bytes → CodecPlan
  | [] => Plan.done
  | [_] => Plan.fail .truncated
  | count :: value :: bs =>
    if count = 0 then Plan.fail .badRecord
    else Plan.cons (List.replicate count.toNat value) (rleDecodePlan bs)

theorem rleEncodeLoop_eq (cap : Nat) (inp out : Bytes) :
    rleEncodeLoop cap inp out = (rleEncodePlan inp).from .range cap out := by
  induction hn : inp.length using Nat.strongRecOn generalizing inp out with
  | ind n ih =>
    cases inp with
    | nil => rw [rleEncodeLoop, rleEncodePlan, Plan.from_done]
    | cons value bs =>
      rw [rleEncodeLoop, rleEncodePlan, Plan.from_cons]
      congr 1
      funext o
      refine ih _ ?_ (bs.drop (rleRun value bs 1 - 1)) o rfl
      rw [← hn, List.length_drop, List.length_cons]; omega

theorem rleEncode_eq (inp : Bytes) (cap : Nat) :
    rleEncode inp cap = (rleEncodePlan inp).run .range cap := rleEncodeLoop_eq cap inp []

theorem rleDecodeLoop_eq (cap : Nat) : ∀ (inp out : Bytes),
    rleDecodeLoop cap inp out = (rleDecodePlan inp).from .range cap out
  | [], _ => rfl
  | [_], _ => rfl
  | count :: value :: bs, out => by
    by_cases h : count = 0
    · simp only [rleDecodeLoop, rleDecodePlan, failIf_pos h, if_pos h, Except.bind_error_eq,
        Plan.from_fail]
    · simp only [rleDecodeLoop, rleDecodePlan, failIf_neg h, if_neg h, Except.bind_ok_eq,
        Plan.from_cons]
      congr 1
      funext o
      exact rleDecodeLoop_eq cap bs o

theorem rleDecode_eq (inp : Bytes) (cap : Nat) :
    rleDecode inp cap = (rleDecodePlan inp).run .range cap := rleDecodeLoop_eq cap inp []

/-- A run stays within one count byte. -/
theorem rleRun_le (value : UInt8) : ∀ (bs : Bytes) (run : Nat), run ≤ RLE_MAX_RUN →
    rleRun value bs run ≤ RLE_MAX_RUN
  | [], _, h => h
  | b :: bs, run, h => by
    unfold rleRun
    split
    · rename_i hc
      exact rleRun_le value bs (run + 1) hc.2
    · exact h

/-- The counted bytes beyond the first `run` are copies of `value` at the front of the input. -/
theorem rleRun_spec (value : UInt8) : ∀ (bs : Bytes) (run : Nat),
    run ≤ rleRun value bs run ∧
      bs = List.replicate (rleRun value bs run - run) value ++ bs.drop (rleRun value bs run - run)
  | [], run => by simp [rleRun]
  | b :: bs, run => by
    unfold rleRun
    split
    · rename_i hc
      obtain ⟨h1, h2⟩ := rleRun_spec value bs (run + 1)
      obtain ⟨k, hk⟩ : ∃ k, rleRun value bs (run + 1) - run = k + 1 :=
        ⟨rleRun value bs (run + 1) - run - 1, by omega⟩
      refine ⟨by omega, ?_⟩
      rw [hk, hc.1, List.replicate_succ, List.drop_succ_cons, List.cons_append]
      rw [show rleRun value bs (run + 1) - (run + 1) = k by omega] at h2
      rw [← h2]
    · simp

theorem rleRun_split (value : UInt8) (bs : Bytes) :
    value :: bs = List.replicate (rleRun value bs 1) value ++ bs.drop (rleRun value bs 1 - 1) := by
  obtain ⟨h1, h2⟩ := rleRun_spec value bs 1
  obtain ⟨k, hk⟩ : ∃ k, rleRun value bs 1 = k + 1 := ⟨rleRun value bs 1 - 1, by omega⟩
  rw [hk, Nat.add_sub_cancel] at h2 ⊢
  rw [List.replicate_succ, List.cons_append, ← h2]

theorem rleEncodePlan_stop (inp : Bytes) : (rleEncodePlan inp).stop = none := by
  induction hn : inp.length using Nat.strongRecOn generalizing inp with
  | ind n ih =>
    cases inp with
    | nil => rw [rleEncodePlan]; rfl
    | cons value bs =>
      rw [rleEncodePlan, Plan.stop_cons]
      refine ih _ ?_ _ rfl
      rw [← hn, List.length_drop, List.length_cons]; omega

/-- **RLE round trip**: the decoder's plan on an encoded string writes that string. -/
theorem rleDecodePlan_encode (inp : Bytes) :
    (rleDecodePlan (rleEncodePlan inp).output).stop = none ∧
      (rleDecodePlan (rleEncodePlan inp).output).output = inp := by
  induction hn : inp.length using Nat.strongRecOn generalizing inp with
  | ind n ih =>
    cases inp with
    | nil => rw [rleEncodePlan]; exact ⟨rfl, rfl⟩
    | cons value bs =>
      have hle := rleRun_le value bs 1 (by decide)
      have hge := (rleRun_spec value bs 1).1
      unfold RLE_MAX_RUN at hle
      have hcount : (UInt8.ofNat (rleRun value bs 1)).toNat = rleRun value bs 1 := by
        rw [UInt8.toNat_ofNat']; omega
      have hne : ¬ UInt8.ofNat (rleRun value bs 1) = 0 := by
        intro h0
        rw [h0] at hcount
        simp at hcount
        omega
      obtain ⟨ih1, ih2⟩ := ih _ (by rw [← hn, List.length_drop, List.length_cons]; omega)
        (bs.drop (rleRun value bs 1 - 1)) rfl
      rw [rleEncodePlan]
      simp only [Plan.output_cons, List.cons_append, List.nil_append, rleDecodePlan, if_neg hne,
        Plan.stop_cons, ih1, ih2, hcount, true_and]
      exact (rleRun_split value bs).symm

/-! ## The encoding is minimal -/

/-- The run loop counts on to the end of the run or to the limit. -/
theorem rleRun_eq (value : UInt8) : ∀ (bs : Bytes) (run : Nat), run ≤ RLE_MAX_RUN →
    rleRun value bs run = min RLE_MAX_RUN (run + (bs.takeWhile (· = value)).length)
  | [], run, h => by simp [rleRun, h]
  | b :: bs, run, h => by
    unfold rleRun
    by_cases hb : b = value
    · by_cases hrun : run < RLE_MAX_RUN
      · rw [if_pos ⟨hb, hrun⟩, rleRun_eq value bs (run + 1) hrun,
          List.takeWhile_cons_of_pos (by simpa using hb), List.length_cons]
        congr 1
        omega
      · rw [if_neg (fun hc => hrun hc.2)]
        omega
    · rw [if_neg (fun hc => hb hc.1), List.takeWhile_cons_of_neg (by simpa using hb), List.length_nil,
        Nat.add_zero, Nat.min_eq_right h]

theorem rleEncodePlan_length (value : UInt8) (bs : Bytes) :
    (rleEncodePlan (value :: bs)).output.length =
      2 + (rleEncodePlan (bs.drop (rleRun value bs 1 - 1))).output.length := by
  rw [rleEncodePlan, Plan.output_cons, List.length_append]
  rfl

/-- Encoding what follows the first byte takes no more than encoding the whole. -/
theorem rleEncodePlan_tail (value : UInt8) (bs : Bytes) :
    (rleEncodePlan bs).output.length ≤ (rleEncodePlan (value :: bs)).output.length := by
  induction hn : bs.length using Nat.strongRecOn generalizing value bs with
  | ind n ih =>
    rw [rleEncodePlan_length]
    cases bs with
    | nil =>
      rw [rleEncodePlan]
      exact Nat.zero_le _
    | cons b bs =>
      by_cases hb : b = value
      · subst hb
        have hlong : rleRun b (b :: bs) 1 = rleRun b bs 2 := by
          rw [rleRun, if_pos ⟨rfl, by decide⟩]
        rw [hlong, rleEncodePlan_length, rleRun_eq b bs 2 (by decide), rleRun_eq b bs 1 (by decide)]
        have hmax : RLE_MAX_RUN = 255 := rfl
        obtain ⟨m, hm⟩ : ∃ m, (bs.takeWhile (· = b)).length = m := ⟨_, rfl⟩
        rw [hm, hmax]
        -- either both runs end with the input's run, or both are cut at the limit
        by_cases hfit : 2 + m ≤ 255
        · rw [Nat.min_eq_right hfit, Nat.min_eq_right (by omega),
            show 2 + m - 1 = (1 + m - 1) + 1 by omega, List.drop_succ_cons]
        · rw [Nat.min_eq_left (by omega), Nat.min_eq_left (by omega), List.drop_succ_cons]
          cases hrest : bs.drop 253 with
          | nil =>
            rw [show 255 - 1 = 253 + 1 from rfl, ← List.drop_drop, hrest, List.drop_nil]
          | cons c cs =>
            have hlen : cs.length < n := by
              have := congrArg List.length hrest
              rw [List.length_drop, List.length_cons] at this
              rw [← hn, List.length_cons]
              omega
            rw [show 255 - 1 = 253 + 1 from rfl, ← List.drop_drop, hrest, List.drop_succ_cons,
              List.drop_zero]
            have := ih cs.length hlen c cs rfl
            omega
      · have hone : rleRun value (b :: bs) 1 = 1 := by
          rw [rleRun, if_neg (fun hc => hb hc.1)]
        rw [hone]
        exact Nat.le_add_left _ _

theorem rleEncodePlan_drop (bs : Bytes) : ∀ k : Nat,
    (rleEncodePlan (bs.drop k)).output.length ≤ (rleEncodePlan bs).output.length
  | 0 => by rw [List.drop_zero]
  | k + 1 => by
    refine le_trans ?_ (rleEncodePlan_drop bs k)
    rw [← List.drop_drop]
    cases bs.drop k with
    | nil => rfl
    | cons b bs => exact rleEncodePlan_tail b bs

/-- A pair's worth of equal bytes in front costs at most one pair. -/
theorem rleEncodePlan_run (value : UInt8) (bs : Bytes) {count : Nat} (hpos : 0 < count)
    (hmax : count ≤ RLE_MAX_RUN) :
    (rleEncodePlan (List.replicate count value ++ bs)).output.length ≤
      2 + (rleEncodePlan bs).output.length := by
  obtain ⟨c, rfl⟩ : ∃ c, count = c + 1 := ⟨count - 1, by omega⟩
  have hrun := rleRun_eq value (List.replicate c value ++ bs) 1 (by decide)
  rw [List.takeWhile_append_of_pos (by simp), List.length_append, List.length_replicate] at hrun
  rw [List.replicate_succ, List.cons_append, rleEncodePlan_length, List.drop_append,
    List.drop_eq_nil_of_le (by rw [List.length_replicate]; omega), List.nil_append]
  exact Nat.add_le_add_left (rleEncodePlan_drop bs _) 2

/-- **No pair sequence for the same bytes is shorter than the encoder's.** -/
theorem rleEncodePlan_minimal : ∀ blob : Bytes, (rleDecodePlan blob).stop = none →
    (rleEncodePlan (rleDecodePlan blob).output).output.length ≤ blob.length
  | [], _ => by simp [rleDecodePlan, rleEncodePlan]
  | [_], h => by cases h
  | count :: value :: blob, h => by
    unfold rleDecodePlan at h ⊢
    by_cases h0 : count = 0
    · rw [if_pos h0] at h
      cases h
    · rw [if_neg h0] at h ⊢
      have hpos : 0 < count.toNat := by
        have : count.toNat ≠ 0 := fun hz => h0 (UInt8.toNat_inj.mp hz)
        omega
      have hle : count.toNat ≤ RLE_MAX_RUN := by
        have := count.toNat_lt
        unfold RLE_MAX_RUN
        omega
      have ih := rleEncodePlan_minimal blob h
      have hpair := rleEncodePlan_run value (rleDecodePlan blob).output hpos hle
      rw [Plan.output_cons, List.length_cons, List.length_cons]
      omega

theorem rleEncodePlan_length_le (inp : Bytes) : (rleEncodePlan inp).output.length ≤ 2 * inp.length := by
  induction inp with
  | nil => simp [rleEncodePlan]
  | cons b bs ih =>
    have hpair := rleEncodePlan_run b bs Nat.one_pos (by decide)
    rw [List.length_cons]
    exact le_trans hpair (by omega)

/-- **RLE is lossless and minimal**: with room for two bytes a byte the encoder succeeds, the decoder
gives the input back, and every other blob for the input is at least as long. -/
theorem rle_roundtrip_minimal (inp : Bytes) {cap : Nat} (hcap : 2 * inp.length ≤ cap) :
    ∃ blob, rleEncode inp cap = .ok blob ∧
      (∀ room, inp.length ≤ room → rleDecode blob room = .ok inp) ∧
      ∀ other room, rleDecode other room = .ok inp → blob.length ≤ other.length := by
  obtain ⟨hstop, hout⟩ := rleDecodePlan_encode inp
  refine ⟨(rleEncodePlan inp).output, ?_, ?_, ?_⟩
  · rw [rleEncode_eq, Plan.run_of_stop_none (rleEncodePlan_stop inp)
      (le_trans (rleEncodePlan_length_le inp) hcap)]
  · intro room hroom
    rw [rleDecode_eq, Plan.run_of_stop_none hstop (by rw [hout]; exact hroom), hout]
  · intro other room hdec
    rw [rleDecode_eq] at hdec
    obtain ⟨hother, rfl, -⟩ := Plan.run_ok hdec
    exact rleEncodePlan_minimal other hother

/-- Three bytes of two runs, and the four bytes that encode them. -/
theorem rle_roundtrip_minimal_runs : ∃ blob, rleEncode [7, 7, 9] 6 = .ok blob ∧
    (∀ room, 3 ≤ room → rleDecode blob room = .ok [7, 7, 9]) ∧
    ∀ other room, rleDecode other room = .ok [7, 7, 9] → blob.length ≤ other.length :=
  rle_roundtrip_minimal [7, 7, 9] (by decide)

end Dtl
