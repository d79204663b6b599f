import TelemetryForge.Codec.Lz77

/-!
# The LZ77 token stream

A blob, read without an output buffer, is a list of tokens and the way it ends; the decoder is an
interpreter of that list.  What the encoder writes reads back as the tokens it chose.

Principal results: `lz77DecodeFrom_eq` — the decoder interprets the stream; `lz77Read_encode` — the
encoder's output read back; `lz77DecodePlan_encode` — the round trip, whatever byte precedes the
output buffer; `lz77_roundtrip` — with the size of the output and the ranges of its tokens.
-/

set_option autoImplicit false

namespace Dtl

open Sink

/-! ## Reading -/

/-- The tokens of the rest of a blob and the error it ends with; `bit = 8` in front of a flag byte. -/
def lz77Stream : Bytes → UInt8 → Nat → List Lz77Token × Option Err
  | [], _, _ => ([], none)
  | b :: bs, flag, bit =>
    if bit = 8 then lz77Stream bs b 0
    else if (flag >>> UInt8.ofNat bit) &&& 1 ≠ 0 then
      match bs with
      | [] => ([], some .truncated)
      | b1 :: bs =>
        let (ts, stop) := lz77Stream bs flag (bit + 1)
        (.copy (lz77Offset b b1) (lz77Length b1) :: ts, stop)
    else
      let (ts, stop) := lz77Stream bs flag (bit + 1)
      (.literal b :: ts, stop)

/-- The tokens of a blob and the error it ends with. -/
def lz77Read (blob : Bytes) : List Lz77Token × Option Err := lz77Stream blob 0 8

namespace Lz77Token

/-- The bytes the decoder appends for the token. -/
def chunk (before : UInt8) (out : Bytes) : Lz77Token → Bytes
  | literal b => [b]
  | copy off len => lz77Copy before off len out

/-- The decoder's range check turns the token down after `o` bytes of output. -/
def Refused (o : Nat) : Lz77Token → Prop
  | literal _ => False
  | copy off _ => off = 0 ∨ off > o + 1

instance (o : Nat) : (t : Lz77Token) → Decidable (t.Refused o)
  | literal _ => inferInstanceAs (Decidable False)
  | copy off _ => inferInstanceAs (Decidable (off = 0 ∨ off > o + 1))

/-- The token reaches no further than the start of `o` bytes of output. -/
def Inside (o : Nat) : Lz77Token → Prop
  | literal _ => True
  | copy off _ => 1 ≤ off ∧ off ≤ o

/-- The token is a match that starts one byte in front of `o` bytes of output. -/
def Outside (o : Nat) : Lz77Token → Prop
  | literal _ => False
  | copy off _ => off = o + 1

instance (o : Nat) : (t : Lz77Token) → Decidable (t.Outside o)
  | literal _ => inferInstanceAs (Decidable False)
  | copy off _ => inferInstanceAs (Decidable (off = o + 1))

theorem inside_or (o : Nat) (t : Lz77Token) : t.Refused o ∨ t.Outside o ∨ t.Inside o := by
  cases t with
  | literal b => exact Or.inr (Or.inr trivial)
  | copy off len =>
    show (off = 0 ∨ off > o + 1) ∨ off = o + 1 ∨ 1 ≤ off ∧ off ≤ o
    omega

theorem Inside.not_refused {o : Nat} {t : Lz77Token} (h : t.Inside o) : ¬ t.Refused o := by
  cases t with
  | literal b => exact id
  | copy off len =>
    intro hr
    change off = 0 ∨ off > o + 1 at hr
    change 1 ≤ off ∧ off ≤ o at h
    omega

end Lz77Token

/-- What the decoder does with a token stream. -/
def lz77Interpret (before : UInt8) : List Lz77Token → Option Err → Bytes → CodecPlan
  | [], stop, _ => ⟨[], stop⟩
  | t :: ts, stop, out =>
    if t.Refused out.length then Plan.fail .badRecord
    else Plan.cons (t.chunk before out) (lz77Interpret before ts stop (out ++ t.chunk before out))

/-- **The decoder interprets the token stream.** -/
theorem lz77DecodeFrom_eq (before : UInt8) : ∀ (inp : Bytes) (flag : UInt8) (bit : Nat) (out : Bytes),
    lz77DecodeFrom before inp flag bit out =
      lz77Interpret before (lz77Stream inp flag bit).1 (lz77Stream inp flag bit).2 out
  | [], _, _, _ => rfl
  | b :: bs, flag, bit, out => by
    unfold lz77DecodeFrom lz77Stream
    by_cases hbit : bit = 8
    · rw [if_pos hbit, if_pos hbit]
      exact lz77DecodeFrom_eq before bs b 0 out
    rw [if_neg hbit, if_neg hbit]
    by_cases hflag : (flag >>> UInt8.ofNat bit) &&& 1 ≠ 0
    · rw [if_pos hflag, if_pos hflag]
      cases bs with
      | nil => rfl
      | cons b1 bs =>
        dsimp only
        rw [lz77DecodeFrom_eq before bs flag (bit + 1)]
        rfl
    · rw [if_neg hflag, if_neg hflag]
      dsimp only
      rw [lz77DecodeFrom_eq before bs flag (bit + 1)]
      rfl

/-! ## What a copy appends -/

theorem lz77Copy_length (before : UInt8) (off : Nat) : ∀ (len : Nat) (out : Bytes),
    (lz77Copy before off len out).length = len
  | 0, _ => rfl
  | len + 1, out => by rw [lz77Copy, List.length_cons, lz77Copy_length before off len]

/-- A match inside the output does not see the byte in front of it. -/
theorem lz77Copy_inside (a b : UInt8) {off : Nat} : ∀ (len : Nat) (out : Bytes), off ≤ out.length →
    lz77Copy a off len out = lz77Copy b off len out
  | 0, _, _ => rfl
  | len + 1, out, h => by
    have hback : lz77Back a out off = lz77Back b out off := by
      rw [lz77Back, lz77Back, if_pos h, if_pos h]
    rw [lz77Copy, lz77Copy, hback]
    congr 1
    apply lz77Copy_inside a b len
    rw [List.length_append]
    omega

theorem Lz77Token.chunk_length (t : Lz77Token) (before : UInt8) (out : Bytes) :
    (t.chunk before out).length = t.span := by
  cases t with
  | literal b => rfl
  | copy off len => exact lz77Copy_length before off len out

/-- A token inside the output appends the same whatever precedes it. -/
theorem Lz77Token.Inside.chunk_eq {t : Lz77Token} {out : Bytes} (h : t.Inside out.length)
    (a b : UInt8) : t.chunk a out = t.chunk b out := by
  cases t with
  | literal _ => rfl
  | copy off len => exact lz77Copy_inside a b len out h.2

/-- A match one place in front of the output starts with the byte there. -/
theorem Lz77Token.Outside.chunk_head {t : Lz77Token} {out : Bytes} (h : t.Outside out.length)
    (hspan : 0 < t.span) (a : UInt8) : (t.chunk a out).head? = some a := by
  cases t with
  | literal _ => exact h.elim
  | copy off len =>
    obtain ⟨k, rfl⟩ : ∃ k, len = k + 1 := ⟨len - 1, (Nat.sub_add_cancel hspan).symm⟩
    change off = out.length + 1 at h
    rw [chunk, lz77Copy, lz77Back, if_neg (by omega)]
    rfl

theorem lz77Offset_pos (b b1 : UInt8) : ¬ lz77Offset b b1 = 0 := by simp [lz77Offset]

theorem lz77Length_pos (b1 : UInt8) : 0 < lz77Length b1 := by
  simp [lz77Length, LZ77_MIN_MATCH]

/-- Every token of a stream stands for some bytes. -/
theorem lz77Stream_span : ∀ (inp : Bytes) (flag : UInt8) (bit : Nat),
    ∀ t ∈ (lz77Stream inp flag bit).1, 0 < t.span
  | [], _, _ => by simp [lz77Stream]
  | b :: bs, flag, bit => by
    unfold lz77Stream
    split
    · exact lz77Stream_span bs b 0
    split
    · cases bs with
      | nil => simp
      | cons b1 bs =>
        rw [List.forall_mem_cons]
        exact ⟨lz77Length_pos b1, lz77Stream_span bs flag (bit + 1)⟩
    · rw [List.forall_mem_cons]
      exact ⟨Nat.one_pos, lz77Stream_span bs flag (bit + 1)⟩

/-! ## The encoder's output read back -/

theorem lz77Stream_flag (flag b : UInt8) (bs : Bytes) :
    lz77Stream (b :: bs) flag 8 = lz77Stream bs b 0 := by
  rw [lz77Stream.eq_def]
  exact if_pos rfl

/-- The fields of a token fit its bytes. -/
def Lz77Token.Fits : Lz77Token → Prop
  | .literal _ => True
  | .copy off len => 1 ≤ off ∧ off ≤ LZ77_WINDOW ∧ LZ77_MIN_MATCH ≤ len ∧ len ≤ LZ77_MAX_MATCH

theorem Lz77Token.Stands.fits {inp : Bytes} {p : Nat} {t : Lz77Token} (h : t.Stands inp p) :
    t.Fits := by
  cases t with
  | literal b => trivial
  | copy off len => exact ⟨h.1.1, h.2⟩

theorem lz77Stream_token {flag : UInt8} {n : Nat} {t : Lz77Token} (R : Bytes) (hn : n < 8)
    (hf : t.Fits) (hm : (flag >>> UInt8.ofNat n) &&& 1 ≠ 0 ↔ t.isCopy = true) :
    lz77Stream (t.bytes ++ R) flag n =
      (t :: (lz77Stream R flag (n + 1)).1, (lz77Stream R flag (n + 1)).2) := by
  have h8 : ¬ n = 8 := by omega
  cases t with
  | literal b =>
    have hbit : ¬ ((flag >>> UInt8.ofNat n) &&& 1 ≠ 0) := by
      rw [hm]
      simp [Lz77Token.isCopy]
    simp only [Lz77Token.bytes, List.cons_append, List.nil_append]
    rw [lz77Stream.eq_def]
    dsimp only
    rw [if_neg h8, if_neg hbit]
  | copy off len =>
    obtain ⟨hoff, hwin, hmin, hmax⟩ := hf
    obtain ⟨hf1, hf2⟩ := lz77_fields hoff hwin hmin hmax
    rw [Lz77Token.copy_bytes hoff hwin hmin hmax, List.cons_append, List.cons_append,
      List.nil_append, lz77Stream, if_neg h8, if_pos (hm.mpr rfl)]
    simp only [hf1, hf2]

theorem lz77Stream_tokens {flag : UInt8} (R : Bytes) : ∀ (ts : List Lz77Token) (n : Nat),
    n + ts.length ≤ 8 → (∀ t ∈ ts, t.Fits) → Lz77Marks flag n ts →
      lz77Stream (ts.flatMap Lz77Token.bytes ++ R) flag n =
        (ts ++ (lz77Stream R flag (n + ts.length)).1, (lz77Stream R flag (n + ts.length)).2)
  | [], _, _, _, _ => rfl
  | t :: ts, n, hn, hf, hm => by
    rw [List.length_cons] at hn
    rw [List.flatMap_cons, List.append_assoc,
      lz77Stream_token _ (by omega) (hf t List.mem_cons_self) hm.1,
      lz77Stream_tokens R ts (n + 1) (by omega) (fun u hu => hf u (List.mem_cons_of_mem t hu)) hm.2,
      List.length_cons, show n + 1 + ts.length = n + (ts.length + 1) by omega]
    rfl

/-- The groups of a token list read back as the list. -/
theorem lz77Stream_groups (ts : List Lz77Token) (g : UInt8) (hf : ∀ t ∈ ts, t.Fits) :
    lz77Stream (lz77Groups 0 0 [] ts).output g 8 = (ts, none) := by
  induction hn : ts.length using Nat.strongRecOn generalizing ts g with
  | ind n ih =>
    by_cases hnil : ts = []
    · subst hnil
      rfl
    have hpos : 0 < ts.length := List.length_pos_iff.mpr hnil
    have hlen8 : (ts.take 8).length ≤ 8 := List.length_take_le 8 ts
    have hmarks := lz77Flag_marks (ts.take 8) 0 0 (by omega) (by simp)
    -- a full group leaves the reader in front of the next flag byte; a short one is the last
    have hrest : lz77Stream (lz77Groups 0 0 [] (ts.drop 8)).output (lz77Flag 0 0 (ts.take 8))
        (0 + (ts.take 8).length) = (ts.drop 8, none) := by
      by_cases hfull : 8 ≤ ts.length
      · rw [List.length_take, Nat.min_eq_left hfull, Nat.zero_add]
        exact ih _ (by rw [← hn, List.length_drop]; omega) (ts.drop 8) _
          (fun t ht => hf t (List.mem_of_mem_drop ht)) rfl
      · rw [List.drop_eq_nil_of_le (by omega)]
        rfl
    rw [lz77Groups_output ts 0 0 [] (by decide) (by simp [hnil]), lz77Stream_flag, List.nil_append,
      lz77Stream_tokens _ (ts.take 8) 0 (by omega) (fun t ht => hf t (List.mem_of_mem_take ht))
        hmarks, hrest, List.take_append_drop]

theorem Lz77Parse.fits {inp : Bytes} : ∀ {ts : List Lz77Token} {p q : Nat},
    Lz77Parse inp p ts q → ∀ t ∈ ts, t.Fits
  | [], _, _, _, t, ht => by cases ht
  | u :: ts, _, _, h, t, ht => by
    rcases List.mem_cons.mp ht with rfl | ht
    · exact h.1.fits
    · exact Lz77Parse.fits h.2 t ht

/-- **The encoder's output reads back as the tokens it chose.** -/
theorem lz77Read_encode (inp : Bytes) :
    lz77Read (lz77EncodePlan inp).output = (lz77Tokens inp 0, none) :=
  lz77Stream_groups _ _ (lz77Tokens_parse inp 0 (Nat.zero_le _)).fits

/-! ## Round trip -/

/-- One token decodes to the input bytes it stands for. -/
theorem Lz77Token.Stands.chunk {inp : Bytes} {p : Nat} {t : Lz77Token} (before : UInt8)
    (h : t.Stands inp p) :
    t.chunk before (inp.take p) = (inp.drop p).take t.span ∧ ¬ t.Refused (inp.take p).length := by
  have hlen : (inp.take p).length = p := by
    have := h.le
    rw [List.length_take]
    omega
  cases t with
  | literal b =>
    refine ⟨?_, id⟩
    rw [h.1]
    rfl
  | copy off len =>
    obtain ⟨hmatch, -⟩ := h
    refine ⟨lz77Copy_eq before inp off len p hmatch, ?_⟩
    rw [hlen]
    rintro (h0 | hfar)
    · exact absurd h0 (Nat.ne_of_gt hmatch.1)
    · have := hmatch.2.1
      omega

/-- The tokens of a parse decode to the input they stand for, from any output position. -/
theorem lz77Interpret_parse (before : UInt8) (inp : Bytes) : ∀ (ts : List Lz77Token) (p q : Nat),
    Lz77Parse inp p ts q → p ≤ q ∧ (lz77Interpret before ts none (inp.take p)).stop = none ∧
      (lz77Interpret before ts none (inp.take p)).output = (inp.drop p).take (q - p)
  | [], p, q, h => by
    cases h
    exact ⟨Nat.le_refl _, rfl, by simp [lz77Interpret, Plan.output]⟩
  | t :: ts, p, q, h => by
    obtain ⟨hchunk, hok⟩ := h.1.chunk before
    obtain ⟨hle, hstop, hout⟩ := lz77Interpret_parse before inp ts (p + t.span) q h.2
    rw [lz77Interpret, if_neg hok, hchunk, ← List.take_add, Plan.stop_cons, Plan.output_cons,
      hout]
    refine ⟨by omega, hstop, ?_⟩
    rw [← List.drop_drop, ← List.take_add]
    congr 1
    omega

/-- **LZ77 round trip**, whatever byte precedes the output buffer. -/
theorem lz77DecodePlan_encode (before : UInt8) (inp : Bytes) :
    (lz77DecodePlan before (lz77EncodePlan inp).output).stop = none ∧
      (lz77DecodePlan before (lz77EncodePlan inp).output).output = inp := by
  obtain ⟨-, hstop, hout⟩ := lz77Interpret_parse before inp (lz77Tokens inp 0) 0 inp.length
    (lz77Tokens_parse inp 0 (Nat.zero_le _))
  have hread := lz77Read_encode inp
  rw [lz77Read] at hread
  rw [lz77DecodePlan, lz77DecodeFrom_eq, hread]
  refine ⟨hstop, hout.trans ?_⟩
  simp

/-! ## Size -/

/-- The input bytes that a list of tokens stands for. -/
def lz77Span (ts : List Lz77Token) : Nat := (ts.map Lz77Token.span).sum

@[simp] theorem lz77Span_nil : lz77Span [] = 0 := rfl

@[simp] theorem lz77Span_cons (t : Lz77Token) (ts : List Lz77Token) :
    lz77Span (t :: ts) = t.span + lz77Span ts := rfl

theorem Lz77Parse.span {inp : Bytes} : ∀ {ts : List Lz77Token} {p q : Nat},
    Lz77Parse inp p ts q → p + lz77Span ts = q
  | [], _, _, h => h
  | t :: ts, p, q, h => by
    have ih := Lz77Parse.span h.2
    rw [lz77Span_cons]
    omega

/-- Each token stands for what the input holds where the tokens before it end. -/
theorem Lz77Parse.stands {inp : Bytes} {t : Lz77Token} {post : List Lz77Token} :
    ∀ {pre : List Lz77Token} {p q : Nat}, Lz77Parse inp p (pre ++ t :: post) q →
      t.Stands inp (p + lz77Span pre)
  | [], _, _, h => h.1
  | u :: pre, p, q, h => by
    have ih := Lz77Parse.stands h.2
    rwa [Nat.add_assoc] at ih

/-- A token takes no more bytes than it stands for, and stands for some. -/
theorem Lz77Token.Fits.size {t : Lz77Token} (h : t.Fits) :
    t.bytes.length ≤ t.span ∧ 1 ≤ t.span := by
  cases t with
  | literal b => exact ⟨Nat.le_refl _, Nat.le_refl _⟩
  | copy off len =>
    have hmin : 3 ≤ len := h.2.2.1
    exact ⟨(show 2 ≤ len by omega), (show 1 ≤ len by omega)⟩

theorem lz77Tokens_size : ∀ {ts : List Lz77Token}, (∀ t ∈ ts, t.Fits) →
    (ts.flatMap Lz77Token.bytes).length ≤ lz77Span ts ∧ ts.length ≤ lz77Span ts
  | [], _ => ⟨Nat.le_refl _, Nat.le_refl _⟩
  | t :: ts, h => by
    obtain ⟨hbytes, hcount⟩ := lz77Tokens_size fun u hu => h u (List.mem_cons_of_mem t hu)
    obtain ⟨hb, hc⟩ := (h t List.mem_cons_self).size
    rw [List.flatMap_cons, List.length_append, List.length_cons, lz77Span_cons]
    omega

/-- One flag byte for eight tokens. -/
theorem lz77Groups_length (ts : List Lz77Token) : (lz77Groups 0 0 [] ts).output.length =
    (ts.flatMap Lz77Token.bytes).length + (ts.length + 7) / 8 := by
  induction hn : ts.length using Nat.strongRecOn generalizing ts with
  | ind n ih =>
    by_cases hnil : ts = []
    · subst hnil hn
      rfl
    have hpos : 0 < ts.length := List.length_pos_iff.mpr hnil
    have hdrop : (ts.drop 8).length = ts.length - 8 := List.length_drop
    have hbytes : (ts.flatMap Lz77Token.bytes).length =
        ((ts.take 8).flatMap Lz77Token.bytes).length +
          ((ts.drop 8).flatMap Lz77Token.bytes).length := by
      rw [← List.length_append, ← List.flatMap_append, List.take_append_drop]
    rw [lz77Groups_output ts 0 0 [] (by decide) (by simp [hnil]), Nat.sub_zero, List.nil_append,
      List.length_cons, List.length_append, ih _ (by omega) (ts.drop 8) rfl, hbytes]
    omega

/-- The worst case is a literal for every byte. -/
theorem lz77EncodePlan_length (inp : Bytes) :
    (lz77EncodePlan inp).output.length ≤ inp.length + (inp.length + 7) / 8 := by
  have hparse := lz77Tokens_parse inp 0 (Nat.zero_le _)
  have hspan := hparse.span
  obtain ⟨hbytes, hcount⟩ := lz77Tokens_size hparse.fits
  rw [lz77EncodePlan, lz77Groups_length]
  omega

/-- **LZ77 round trip.**  With room for a flag byte every eight input bytes, encoding succeeds within
that bound; the output is a whole token stream in which every match reaches back inside the window
and the bytes so far, with a length the field can hold; and it decodes to the input, whatever byte
precedes the output buffer. -/
theorem lz77_roundtrip (x : Bytes) (cap : Nat) (hcap : x.length + (x.length + 7) / 8 ≤ cap) :
    ∃ e, lz77Encode x cap = .ok e ∧ e.length ≤ x.length + (x.length + 7) / 8 ∧
      lz77Read e = (lz77Tokens x 0, none) ∧
      (∀ pre off len post, lz77Tokens x 0 = pre ++ .copy off len :: post →
        1 ≤ off ∧ off ≤ 4096 ∧ off ≤ lz77Span pre ∧ 3 ≤ len ∧ len ≤ 18) ∧
      ∀ before room, x.length ≤ room → lz77Decode before e room = .ok x := by
  have hsize := lz77EncodePlan_length x
  refine ⟨(lz77EncodePlan x).output, ?_, hsize, lz77Read_encode x, ?_, ?_⟩
  · rw [lz77Encode_eq, Plan.run_of_stop_none (lz77EncodePlan_stop x) (hsize.trans hcap)]
  · intro pre off len post hts
    have hparse := lz77Tokens_parse x 0 (Nat.zero_le _)
    rw [hts] at hparse
    have hstands := hparse.stands
    obtain ⟨⟨hpos, hback, -⟩, hwin, hmin, hmax⟩ := hstands
    rw [Nat.zero_add] at hback
    exact ⟨hpos, hwin, hback, hmin, hmax⟩
  · intro before room hroom
    obtain ⟨hstop, hout⟩ := lz77DecodePlan_encode before x
    rw [lz77Decode_eq, Plan.run_of_stop_none hstop (by rw [hout]; exact hroom), hout]

/-- Ten equal bytes are a literal and an overlapping match, behind one flag byte. -/
theorem lz77_roundtrip_overlap : lz77Encode (List.replicate 10 7) 12 = .ok [2, 7, 0, 6] ∧
    ∃ e, lz77Encode (List.replicate 10 7) 12 = .ok e ∧ lz77Decode 0 e 10 = .ok (List.replicate 10 7) := by
  obtain ⟨e, henc, -, -, -, hdec⟩ := lz77_roundtrip (List.replicate 10 7) 12 (by decide)
  exact ⟨by decide +kernel, e, henc, hdec 0 10 (by decide)⟩

end Dtl
