import TelemetryForge.Codec.Rle

/-!
# The LZ77 codec

Model of `codec/lz77`.  The encoder makes one `Lz77Token` at a time (a literal or a back
reference), collects eight of them behind a flag byte and writes the group.  The decoder
copies back references byte by byte from its own output; because its range check admits a distance
one larger than the output so far, a reference can reach the byte of memory in front of the output
buffer (`CodecEnv.before`).

Principal results: `lz77Find_spec` — the match search returns a true match inside the window;
`lz77Tokens_parse` — the tokens of an input parse it exactly; `lz77Flag_marks` — the flag byte of a
group announces its tokens.
-/

set_option autoImplicit false

namespace Dtl

open Sink

/-- `DTL_LZ77_WINDOW`. -/
def LZ77_WINDOW : Nat := 4096

/-- `DTL_LZ77_MIN_MATCH`. -/
def LZ77_MIN_MATCH : Nat := 3

/-- `DTL_LZ77_MAX_MATCH`. -/
def LZ77_MAX_MATCH : Nat := 18

/-! ## Match search -/

/-- The comparison loop of `dtl_lz77_find`: equal leading bytes, at most `maxlen`. -/
def lz77MatchLen : Nat → Bytes → Bytes → Nat
  | maxlen + 1, x :: xs, y :: ys => if x = y then lz77MatchLen maxlen xs ys + 1 else 0
  | _, _, _ => 0

/-- The candidate loop of `dtl_lz77_find`, with `k = p - s` candidates left to try; returns
`(best_len, best_off)`. -/
def lz77Scan (inp : Bytes) (p maxlen : Nat) : Nat → Nat → Nat → Nat × Nat
  | 0, bestLen, bestOff => (bestLen, bestOff)
  | k + 1, bestLen, bestOff =>
    let l := lz77MatchLen maxlen (inp.drop (p - (k + 1))) (inp.drop p)
    if l > bestLen then
      if l = maxlen then (l, k + 1) else lz77Scan inp p maxlen k l (k + 1)
    else lz77Scan inp p maxlen k bestLen bestOff

/-- `dtl_lz77_find`: the match length (0 for none) and its distance. -/
def lz77Find (inp : Bytes) (p : Nat) : Nat × Nat :=
  let start := if p > LZ77_WINDOW then p - LZ77_WINDOW else 0
  let maxlen := if inp.length - p > LZ77_MAX_MATCH then LZ77_MAX_MATCH else inp.length - p
  let (bestLen, bestOff) := lz77Scan inp p maxlen (p - start) 0 0
  if bestLen < LZ77_MIN_MATCH then (0, bestOff) else (bestLen, bestOff)

/-! ## Encoder -/

/-- One token of the stream. -/
inductive Lz77Token where
  | literal (b : UInt8)
  | copy (off len : Nat)
  deriving DecidableEq, Repr

namespace Lz77Token

/-- Input bytes the token stands for. -/
def span : Lz77Token → Nat
  | literal _ => 1
  | copy _ len => len

/-- The token's bytes in the group. -/
def bytes : Lz77Token → Bytes
  | literal b => [b]
  | copy off len =>
    let offField := UInt32.ofNat (off - 1)
    let lenField := UInt32.ofNat (len - LZ77_MIN_MATCH)
    [(offField &&& 0xff).toUInt8, (((offField >>> 8) <<< 4) ||| lenField).toUInt8]

/-- The flag byte after this token, the `n`-th of its group. -/
def mark (n : Nat) (flag : UInt8) : Lz77Token → UInt8
  | literal _ => flag
  | copy _ _ => flag ||| (1 <<< UInt8.ofNat n)

def isCopy : Lz77Token → Bool
  | literal _ => false
  | copy _ _ => true

end Lz77Token

/-- The token the encoder makes at position `p`. -/
def lz77Next (inp : Bytes) (p : Nat) : Lz77Token :=
  let (len, off) := lz77Find inp p
  if len ≥ LZ77_MIN_MATCH then .copy off len else .literal (inp.getD p 0)

theorem lz77Next_span_pos (inp : Bytes) (p : Nat) : 0 < (lz77Next inp p).span := by
  unfold lz77Next
  dsimp only
  split
  · rename_i h
    simp only [LZ77_MIN_MATCH] at h
    simp only [Lz77Token.span]; omega
  · simp [Lz77Token.span]

/-- The loop of `dtl_lz77_encode`, with the flush after it. -/
def lz77EncodeLoop (cap : Nat) (inp : Bytes) (p tokens : Nat) (flag : UInt8) (group out : Bytes) :
    Res Bytes :=
  if p < inp.length then
    let token := lz77Next inp p
    let flag := token.mark tokens flag
    let group := group ++ token.bytes
    if tokens + 1 = 8 then do
      let out ← emit cap out (flag :: group)
      lz77EncodeLoop cap inp (p + token.span) 0 0 [] out
    else lz77EncodeLoop cap inp (p + token.span) (tokens + 1) flag group out
  else if tokens ≠ 0 then emit cap out (flag :: group) else .ok out
termination_by inp.length - p
decreasing_by
  all_goals
    have hspan := lz77Next_span_pos inp p
    omega

/-- `dtl_lz77_encode`. -/
def lz77Encode (inp : Bytes) (cap : Nat) : Res Bytes := lz77EncodeLoop cap inp 0 0 0 [] []

/-! ## Decoder -/

/-- `out[o - offset]`; for `offset = o + 1` the byte in front of the buffer. -/
def lz77Back (before : UInt8) (out : Bytes) (offset : Nat) : UInt8 :=
  if offset ≤ out.length then out.getD (out.length - offset) 0 else before

/-- The bytes the copy loop appends to `out`, each read after the previous one is written. -/
def lz77Copy (before : UInt8) (offset : Nat) : Nat → Bytes → Bytes
  | 0, _ => []
  | length + 1, out =>
    let b := lz77Back before out offset
    b :: lz77Copy before offset length (out ++ [b])

/-- The distance field of a match token. -/
def lz77Offset (b0 b1 : UInt8) : Nat := (b0.toNat ||| ((b1 >>> 4).toNat <<< 8)) + 1

/-- The length field of a match token. -/
def lz77Length (b1 : UInt8) : Nat := (b1 &&& 0x0f).toNat + LZ77_MIN_MATCH

/-- The loop of `dtl_lz77_decode`; `bit = 8` means that a flag byte is read next. -/
def lz77DecodeLoop (before : UInt8) (cap : Nat) : Bytes → UInt8 → Nat → Bytes → Res Bytes
  | [], _, _, out => .ok out
  | b :: bs, flag, bit, out =>
    if bit = 8 then lz77DecodeLoop before cap bs b 0 out
    else if (flag >>> UInt8.ofNat bit) &&& 1 ≠ 0 then
      match bs with
      | [] => .error .truncated
      | b1 :: bs => do
        failIf (lz77Offset b b1 = 0 ∨ lz77Offset b b1 > out.length + 1) .badRecord
        let out ← emit cap out (lz77Copy before (lz77Offset b b1) (lz77Length b1) out)
        lz77DecodeLoop before cap bs flag (bit + 1) out
    else do
      let out ← emit cap out [b]
      lz77DecodeLoop before cap bs flag (bit + 1) out

/-- `dtl_lz77_decode`. -/
def lz77Decode (before : UInt8) (inp : Bytes) (cap : Nat) : Res Bytes :=
  lz77DecodeLoop before cap inp 0 8 []

/-! ## Plans -/

/-- The tokens of an input from position `p` on. -/
def lz77Tokens (inp : Bytes) (p : Nat) : List Lz77Token :=
  if p < inp.length then
    lz77Next inp p :: lz77Tokens inp (p + (lz77Next inp p).span)
  else []
termination_by inp.length - p
decreasing_by have := lz77Next_span_pos inp p; omega

/-- Tokens written in groups of eight; `n` tokens of the current group are already in `group`. -/
def lz77Groups : Nat → UInt8 → Bytes → List Lz77Token → CodecPlan
  | n, flag, group, [] => if n ≠ 0 then Plan.cons (flag :: group) Plan.done else Plan.done
  | n, flag, group, t :: ts =>
    if n + 1 = 8 then Plan.cons (t.mark n flag :: (group ++ t.bytes)) (lz77Groups 0 0 [] ts)
    else lz77Groups (n + 1) (t.mark n flag) (group ++ t.bytes) ts

def lz77EncodePlan (inp : Bytes) : CodecPlan := lz77Groups 0 0 [] (lz77Tokens inp 0)

def lz77DecodeFrom (before : UInt8) : Bytes → UInt8 → Nat → Bytes → CodecPlan
  | [], _, _, _ => Plan.done
  | b :: bs, flag, bit, out =>
    if bit = 8 then lz77DecodeFrom before bs b 0 out
    else if (flag >>> UInt8.ofNat bit) &&& 1 ≠ 0 then
      match bs with
      | [] => Plan.fail .truncated
      | b1 :: bs =>
        if lz77Offset b b1 = 0 ∨ lz77Offset b b1 > out.length + 1 then Plan.fail .badRecord
        else
          let chunk := lz77Copy before (lz77Offset b b1) (lz77Length b1) out
          Plan.cons chunk (lz77DecodeFrom before bs flag (bit + 1) (out ++ chunk))
    else Plan.cons [b] (lz77DecodeFrom before bs flag (bit + 1) (out ++ [b]))

def lz77DecodePlan (before : UInt8) (inp : Bytes) : CodecPlan := lz77DecodeFrom before inp 0 8 []

theorem lz77EncodeLoop_eq (cap : Nat) (inp : Bytes) (p tokens : Nat) (flag : UInt8)
    (group out : Bytes) : lz77EncodeLoop cap inp p tokens flag group out =
      (lz77Groups tokens flag group (lz77Tokens inp p)).from .range cap out := by
  induction hn : inp.length - p using Nat.strongRecOn generalizing p tokens flag group out with
  | ind n ih =>
    rw [lz77EncodeLoop, lz77Tokens]
    by_cases hp : p < inp.length
    · have hspan := lz77Next_span_pos inp p
      rw [if_pos hp, if_pos hp, lz77Groups]
      dsimp only
      split
      · rw [Plan.from_cons]
        congr 1
        funext o
        exact ih _ (by omega) _ _ _ _ o rfl
      · exact ih _ (by omega) _ _ _ _ out rfl
    · rw [if_neg hp, if_neg hp, lz77Groups]
      split
      · exact (putAll_singleton Err.range cap (flag :: group) out).symm
      · rfl

theorem lz77Encode_eq (inp : Bytes) (cap : Nat) :
    lz77Encode inp cap = (lz77EncodePlan inp).run .range cap := lz77EncodeLoop_eq cap inp 0 0 0 [] []

theorem put_bind_append {cap : Nat} {out c : Bytes} (f g : Bytes → Res Bytes)
    (h : f (out ++ c) = g (out ++ c)) : (emit cap out c >>= f) = (emit cap out c >>= g) := by
  unfold emit put
  split
  · rfl
  · exact h

theorem lz77DecodeLoop_eq (before : UInt8) (cap : Nat) :
    ∀ (inp : Bytes) (flag : UInt8) (bit : Nat) (out : Bytes),
      lz77DecodeLoop before cap inp flag bit out =
        (lz77DecodeFrom before inp flag bit out).from .range cap out
  | [], _, _, _ => rfl
  | b :: bs, flag, bit, out => by
    unfold lz77DecodeLoop lz77DecodeFrom
    split
    · exact lz77DecodeLoop_eq before cap bs b 0 out
    split
    · match bs with
      | [] => rfl
      | b1 :: bs =>
        dsimp only
        by_cases hoff : lz77Offset b b1 = 0 ∨ lz77Offset b b1 > out.length + 1
        · rw [failIf_pos hoff, if_pos hoff]; rfl
        · rw [failIf_neg hoff, if_neg hoff, Except.bind_ok_eq, Plan.from_cons]
          exact put_bind_append _ _ (lz77DecodeLoop_eq before cap bs flag (bit + 1) _)
    · rw [Plan.from_cons]
      exact put_bind_append _ _ (lz77DecodeLoop_eq before cap bs flag (bit + 1) _)

theorem lz77Decode_eq (before : UInt8) (inp : Bytes) (cap : Nat) :
    lz77Decode before inp cap = (lz77DecodePlan before inp).run .range cap :=
  lz77DecodeLoop_eq before cap inp 0 8 []

/-! ## The search finds true matches -/

/-- The bytes at distance `off` before position `p` agree with those at `p` over `len` bytes. -/
def Lz77Match (inp : Bytes) (p off len : Nat) : Prop :=
  1 ≤ off ∧ off ≤ p ∧ p + len ≤ inp.length ∧
    (inp.drop (p - off)).take len = (inp.drop p).take len

theorem lz77MatchLen_spec : ∀ (maxlen : Nat) (xs ys : Bytes),
    lz77MatchLen maxlen xs ys ≤ maxlen ∧
      xs.take (lz77MatchLen maxlen xs ys) = ys.take (lz77MatchLen maxlen xs ys)
  | 0, _, _ => by simp [lz77MatchLen]
  | _ + 1, [], _ => by simp [lz77MatchLen]
  | _ + 1, _ :: _, [] => by simp [lz77MatchLen]
  | maxlen + 1, x :: xs, y :: ys => by
    obtain ⟨h1, h2⟩ := lz77MatchLen_spec maxlen xs ys
    unfold lz77MatchLen
    split
    · rename_i hxy
      refine ⟨by omega, ?_⟩
      rw [List.take_succ_cons, List.take_succ_cons, hxy, h2]
    · simp

/-- Invariant of the candidate loop: the best match so far is a true one within `w` bytes back. -/
def Lz77Best (inp : Bytes) (p maxlen w bestLen bestOff : Nat) : Prop :=
  bestLen ≤ maxlen ∧ (bestLen ≠ 0 → Lz77Match inp p bestOff bestLen ∧ bestOff ≤ w)

theorem lz77Scan_spec {inp : Bytes} {p maxlen w : Nat} (hmax : p + maxlen ≤ inp.length) (hw : w ≤ p) :
    ∀ (k bestLen bestOff : Nat), k ≤ w → Lz77Best inp p maxlen w bestLen bestOff →
      Lz77Best inp p maxlen w (lz77Scan inp p maxlen k bestLen bestOff).1
        (lz77Scan inp p maxlen k bestLen bestOff).2
  | 0, _, _, _, hb => hb
  | k + 1, bestLen, bestOff, hk, hb => by
    obtain ⟨hl, heq⟩ := lz77MatchLen_spec maxlen (inp.drop (p - (k + 1))) (inp.drop p)
    have hnew : Lz77Best inp p maxlen w
        (lz77MatchLen maxlen (inp.drop (p - (k + 1))) (inp.drop p)) (k + 1) :=
      ⟨hl, fun _ => ⟨⟨by omega, by omega, by omega, heq⟩, hk⟩⟩
    unfold lz77Scan
    dsimp only
    split
    · split
      · exact hnew
      · exact lz77Scan_spec hmax hw k _ _ (by omega) hnew
    · exact lz77Scan_spec hmax hw k _ _ (by omega) hb

/-- **The search returns a true match inside the window, of a length the token can hold.** -/
theorem lz77Find_spec {inp : Bytes} {p : Nat} (hp : p < inp.length)
    (h : LZ77_MIN_MATCH ≤ (lz77Find inp p).1) :
    Lz77Match inp p (lz77Find inp p).2 (lz77Find inp p).1 ∧
      (lz77Find inp p).2 ≤ LZ77_WINDOW ∧ (lz77Find inp p).1 ≤ LZ77_MAX_MATCH := by
  obtain ⟨maxlen, hmaxlen⟩ : ∃ m, m = if inp.length - p > LZ77_MAX_MATCH then LZ77_MAX_MATCH
      else inp.length - p := ⟨_, rfl⟩
  obtain ⟨w, hw⟩ : ∃ w, w = p - (if p > LZ77_WINDOW then p - LZ77_WINDOW else 0) := ⟨_, rfl⟩
  have hm : p + maxlen ≤ inp.length ∧ maxlen ≤ LZ77_MAX_MATCH := by
    rw [hmaxlen]; unfold LZ77_MAX_MATCH; split <;> omega
  have hwb : w ≤ p ∧ w ≤ LZ77_WINDOW := by
    rw [hw]; unfold LZ77_WINDOW; split <;> omega
  have hscan := lz77Scan_spec hm.1 hwb.1 w 0 0 (Nat.le_refl _) ⟨Nat.zero_le _, by simp⟩
  have hfind : lz77Find inp p = if (lz77Scan inp p maxlen w 0 0).1 < LZ77_MIN_MATCH
      then (0, (lz77Scan inp p maxlen w 0 0).2) else lz77Scan inp p maxlen w 0 0 := by
    rw [hmaxlen, hw]; rfl
  have h3 : LZ77_MIN_MATCH = 3 := rfl
  rw [hfind] at h ⊢
  by_cases hshort : (lz77Scan inp p maxlen w 0 0).1 < LZ77_MIN_MATCH
  · rw [if_pos hshort] at h; simp [h3] at h
  · rw [if_neg hshort] at h ⊢
    obtain ⟨hle, himp⟩ := hscan
    obtain ⟨hmatch, hoff⟩ := himp (by omega)
    exact ⟨hmatch, by omega, by omega⟩

/-! ## The tokens parse the input -/

/-- What the encoder's tokens stand for: literals are the input's bytes, copies true matches whose
fields fit. -/
def Lz77Token.Stands (inp : Bytes) (p : Nat) : Lz77Token → Prop
  | .literal b => inp.drop p = b :: inp.drop (p + 1) ∧ p < inp.length
  | .copy off len => Lz77Match inp p off len ∧ off ≤ LZ77_WINDOW ∧ LZ77_MIN_MATCH ≤ len ∧
      len ≤ LZ77_MAX_MATCH

/-- The tokens stand for the input from position `p` on. -/
def Lz77Parse (inp : Bytes) : Nat → List Lz77Token → Nat → Prop
  | p, [], q => p = q
  | p, t :: ts, q => t.Stands inp p ∧ Lz77Parse inp (p + t.span) ts q

theorem lz77Next_stands {inp : Bytes} {p : Nat} (hp : p < inp.length) :
    (lz77Next inp p).Stands inp p := by
  unfold lz77Next
  dsimp only
  split
  · rename_i hlen
    obtain ⟨h1, h2, h3⟩ := lz77Find_spec hp hlen
    exact ⟨h1, h2, hlen, h3⟩
  · refine ⟨?_, hp⟩
    rw [List.drop_eq_getElem_cons hp, List.getD_eq_getElem _ _ hp]

theorem Lz77Token.Stands.le {inp : Bytes} {p : Nat} {t : Lz77Token} (h : t.Stands inp p) :
    p + t.span ≤ inp.length := by
  cases t with
  | literal b => exact h.2
  | copy off len => exact h.1.2.2.1

/-- **The encoder's tokens parse the whole input.** -/
theorem lz77Tokens_parse (inp : Bytes) (p : Nat) (hp : p ≤ inp.length) :
    Lz77Parse inp p (lz77Tokens inp p) inp.length := by
  induction hn : inp.length - p using Nat.strongRecOn generalizing p with
  | ind n ih =>
    rw [lz77Tokens]
    by_cases h : p < inp.length
    · have hspan := lz77Next_span_pos inp p
      rw [if_pos h]
      exact ⟨lz77Next_stands h, ih _ (by omega) _ (lz77Next_stands h).le rfl⟩
    · rw [if_neg h]
      show p = inp.length
      omega

/-! ## The decoder reads the tokens back -/

/-- The bytes of a copy token, as numbers. -/
theorem Lz77Token.copy_bytes {off len : Nat} (h1 : 1 ≤ off) (h2 : off ≤ LZ77_WINDOW)
    (h3 : LZ77_MIN_MATCH ≤ len) (h4 : len ≤ LZ77_MAX_MATCH) :
    (Lz77Token.copy off len).bytes = [UInt8.ofNat ((off - 1) % 256),
      UInt8.ofNat ((off - 1) / 256 * 16 + (len - 3))] := by
  simp only [LZ77_WINDOW, LZ77_MIN_MATCH, LZ77_MAX_MATCH] at h2 h3 h4
  have hm : ∀ n : Nat, n &&& 255 = n % 256 := fun n => Nat.and_two_pow_sub_one_eq_mod n 8
  have hoff : (UInt32.ofNat (off - 1)).toNat = off - 1 := by rw [UInt32.toNat_ofNat']; omega
  have hlen : (UInt32.ofNat (len - 3)).toNat = len - 3 := by rw [UInt32.toNat_ofNat']; omega
  have hhi : ((UInt32.ofNat (off - 1) >>> 8) <<< 4).toNat = (off - 1) / 256 * 16 := by
    simp only [UInt32.toNat_shiftLeft, UInt32.toNat_shiftRight, hoff, UInt32.reduceToNat,
      Nat.reduceMod, Nat.shiftLeft_eq, Nat.shiftRight_eq_div_pow]
    omega
  have hor : ((UInt32.ofNat (off - 1) >>> 8) <<< 4 ||| UInt32.ofNat (len - 3)).toNat =
      (off - 1) / 256 * 16 + (len - 3) := by
    have hshift : (off - 1) / 256 * 16 = ((off - 1) / 256) <<< 4 := by rw [Nat.shiftLeft_eq]
    rw [UInt32.toNat_or, hhi, hlen, hshift, Nat.or_comm, or_shift_eq_add (by omega),
      Nat.shiftLeft_eq]
    omega
  simp only [bytes, List.cons.injEq, and_true, ← UInt8.toNat_inj, UInt32.toNat_toUInt8,
    UInt8.toNat_ofNat', UInt32.toNat_and, hoff, LZ77_MIN_MATCH, hor, UInt32.reduceToNat, hm]

/-- The decoder reads distance and length back from a copy token. -/
theorem lz77_fields {off len : Nat} (h1 : 1 ≤ off) (h2 : off ≤ LZ77_WINDOW)
    (h3 : LZ77_MIN_MATCH ≤ len) (h4 : len ≤ LZ77_MAX_MATCH) :
    lz77Offset (UInt8.ofNat ((off - 1) % 256)) (UInt8.ofNat ((off - 1) / 256 * 16 + (len - 3))) =
        off ∧
      lz77Length (UInt8.ofNat ((off - 1) / 256 * 16 + (len - 3))) = len := by
  simp only [LZ77_WINDOW, LZ77_MIN_MATCH, LZ77_MAX_MATCH] at h2 h3 h4
  have hm : ∀ n : Nat, n &&& 15 = n % 16 := fun n => Nat.and_two_pow_sub_one_eq_mod n 4
  have hb0 : (UInt8.ofNat ((off - 1) % 256)).toNat = (off - 1) % 256 := by
    rw [UInt8.toNat_ofNat']; omega
  have hb1 : (UInt8.ofNat ((off - 1) / 256 * 16 + (len - 3))).toNat =
      (off - 1) / 256 * 16 + (len - 3) := by rw [UInt8.toNat_ofNat']; omega
  refine ⟨?_, ?_⟩
  · simp only [lz77Offset, UInt8.toNat_shiftRight, hb0, hb1, UInt8.reduceToNat, Nat.reduceMod,
      Nat.shiftRight_eq_div_pow]
    rw [or_shift_eq_add (by omega)]
    omega
  · simp only [lz77Length, UInt8.toNat_and, hb1, UInt8.reduceToNat, hm, LZ77_MIN_MATCH]
    omega

/-- Copying from a true match appends the input's own next bytes. -/
theorem lz77Copy_eq (before : UInt8) (inp : Bytes) (off : Nat) : ∀ (len p : Nat),
    Lz77Match inp p off len →
      lz77Copy before off len (inp.take p) = (inp.drop p).take len
  | 0, _, _ => by simp [lz77Copy]
  | len + 1, p, ⟨h1, h2, h3, h4⟩ => by
    have hp : p < inp.length := by omega
    have hq : p - off < inp.length := by omega
    have htake : (inp.take p).length = p := by rw [List.length_take]; omega
    rw [List.drop_eq_getElem_cons hp, List.drop_eq_getElem_cons hq, List.take_succ_cons,
      List.take_succ_cons, List.cons.injEq] at h4
    have hback : lz77Back before (inp.take p) off = inp[p] := by
      rw [lz77Back, htake, if_pos h2, List.getD_eq_getElem _ _ (by rw [htake]; omega),
        List.getElem_take, h4.1]
    have hnext : inp.take p ++ [inp[p]] = inp.take (p + 1) := (List.take_succ_eq_append_getElem hp).symm
    have hmatch : Lz77Match inp (p + 1) off len :=
      ⟨h1, by omega, by omega, by rw [show p + 1 - off = p - off + 1 by omega]; exact h4.2⟩
    rw [lz77Copy, hback, hnext, lz77Copy_eq before inp off len (p + 1) hmatch,
      List.drop_eq_getElem_cons hp, List.take_succ_cons]

/-- The flag bits of a group announce its tokens, from the `n`-th on. -/
def Lz77Marks (flag : UInt8) : Nat → List Lz77Token → Prop
  | _, [] => True
  | n, t :: ts => ((flag >>> UInt8.ofNat n) &&& 1 ≠ 0 ↔ t.isCopy = true) ∧ Lz77Marks flag (n + 1) ts

/-! ## The groups -/

/-- The flag byte after the tokens of a group. -/
def lz77Flag : Nat → UInt8 → List Lz77Token → UInt8
  | _, flag, [] => flag
  | n, flag, t :: ts => lz77Flag (n + 1) (t.mark n flag) ts

theorem lz77Groups_output : ∀ (ts : List Lz77Token) (n : Nat) (flag : UInt8) (group : Bytes), n < 8 →
    ¬ (n = 0 ∧ ts = []) → (lz77Groups n flag group ts).output =
      lz77Flag n flag (ts.take (8 - n)) :: (group ++ ((ts.take (8 - n)).flatMap Lz77Token.bytes ++
        (lz77Groups 0 0 [] (ts.drop (8 - n))).output))
  | [], n, flag, group, _, h => by
    have hn : n ≠ 0 := fun h0 => h ⟨h0, rfl⟩
    simp [lz77Groups, hn, lz77Flag]
  | t :: ts, n, flag, group, hn, _ => by
    obtain ⟨k, hk⟩ : ∃ k, 8 - n = k + 1 := ⟨7 - n, by omega⟩
    rw [hk, List.take_succ_cons, List.drop_succ_cons, List.flatMap_cons, lz77Flag, lz77Groups]
    by_cases h7 : n + 1 = 8
    · have hk0 : k = 0 := by omega
      subst hk0
      rw [if_pos h7]
      simp [lz77Flag]
    · rw [if_neg h7, lz77Groups_output ts (n + 1) _ _ (by omega) (by omega),
        show 8 - (n + 1) = k by omega]
      simp

theorem lz77Groups_stop : ∀ (ts : List Lz77Token) (n : Nat) (flag : UInt8) (group : Bytes),
    (lz77Groups n flag group ts).stop = none
  | [], n, flag, group => by
    unfold lz77Groups
    split <;> rfl
  | t :: ts, n, flag, group => by
    unfold lz77Groups
    split
    · exact lz77Groups_stop ts _ _ _
    · exact lz77Groups_stop ts _ _ _

theorem bit_ne_zero (flag : UInt8) {n : Nat} (hn : n < 8) :
    (flag >>> UInt8.ofNat n) &&& 1 ≠ 0 ↔ flag.toNat.testBit n = true := by
  have hsh : (UInt8.ofNat n).toNat % 8 = n := by rw [UInt8.toNat_ofNat']; omega
  rw [ne_eq, ← UInt8.toNat_inj, UInt8.toNat_and, UInt8.toNat_shiftRight, hsh, Nat.testBit,
    Nat.and_comm]
  simp

theorem Lz77Token.mark_testBit (t : Lz77Token) (flag : UInt8) {n : Nat} (hn : n < 8) (i : Nat) :
    (t.mark n flag).toNat.testBit i = (flag.toNat.testBit i || (t.isCopy && decide (i = n))) := by
  cases t with
  | literal b => simp [mark, isCopy]
  | copy off len =>
    have hsh : (UInt8.ofNat n).toNat % 8 = n := by rw [UInt8.toNat_ofNat']; omega
    have hpow : 2 ^ n < 2 ^ 8 := Nat.pow_lt_pow_right (by decide) hn
    have hone : ((1 : UInt8) <<< UInt8.ofNat n).toNat = 2 ^ n := by
      rw [UInt8.toNat_shiftLeft, hsh, Nat.shiftLeft_eq]
      simp only [UInt8.reduceToNat, Nat.one_mul]
      exact Nat.mod_eq_of_lt hpow
    simp only [mark, isCopy, UInt8.toNat_or, hone, Nat.testBit_or, Nat.testBit_two_pow, Bool.true_and,
      eq_comm]

/-- Later tokens leave the flag bits of earlier ones alone. -/
theorem lz77Flag_testBit_lt : ∀ (ts : List Lz77Token) (n : Nat) (flag : UInt8) (i : Nat),
    n + ts.length ≤ 8 → i < n → (lz77Flag n flag ts).toNat.testBit i = flag.toNat.testBit i
  | [], _, _, _, _, _ => rfl
  | t :: ts, n, flag, i, hn, hi => by
    rw [List.length_cons] at hn
    have hne : ¬ i = n := by omega
    rw [lz77Flag, lz77Flag_testBit_lt ts (n + 1) _ i (by omega) (by omega),
      t.mark_testBit flag (by omega)]
    simp [hne]

/-- The flag byte of a group announces each of its tokens. -/
theorem lz77Flag_marks : ∀ (ts : List Lz77Token) (n : Nat) (flag : UInt8), n + ts.length ≤ 8 →
    (∀ i, n ≤ i → flag.toNat.testBit i = false) → Lz77Marks (lz77Flag n flag ts) n ts
  | [], _, _, _, _ => trivial
  | t :: ts, n, flag, hn, hz => by
    rw [List.length_cons] at hn
    refine ⟨?_, ?_⟩
    · rw [bit_ne_zero _ (by omega), lz77Flag,
        lz77Flag_testBit_lt ts (n + 1) _ n (by omega) (by omega), t.mark_testBit flag (by omega),
        hz n (Nat.le_refl _)]
      simp
    · rw [lz77Flag]
      refine lz77Flag_marks ts (n + 1) _ (by omega) fun i hi => ?_
      have hne : ¬ i = n := by omega
      rw [t.mark_testBit flag (by omega), hz i (by omega)]
      simp [hne]

theorem lz77EncodePlan_stop (inp : Bytes) : (lz77EncodePlan inp).stop = none :=
  lz77Groups_stop _ _ _ _

end Dtl
