import TelemetryForge.Codec.Lz77Stream
import Mathlib.Logic.Function.Basic

/-!
# The LZ77 decoder over memory

`dtl_lz77_decode` once more, with `out` a place in memory instead of a list: cells are numbered by
their distance from `out`, so that `-1` is the byte in front of the buffer.  The run records what
the copy loops read and how each match fared.

Principal results: `lz77MemDecode_eq` — the memory run returns what the model over lists returns, for
the byte in front of the buffer; `lz77_safe_iff` — the decoder keeps to what it has written exactly
on the blobs in which no match reaches one byte too far.
-/

set_option autoImplicit false

namespace Dtl

open Sink

/-! ## The run -/

/-- A match as the decoder comes to it: its offset, the bytes written so far, and the error it is
turned down with, if it is. -/
structure Lz77Seen where
  offset : Nat
  written : Nat
  verdict : Option Err

/-- Memory around `out`, the write position, the source index and write position of every iteration
of a copy loop, and the matches met. -/
structure Lz77Mem where
  mem : Int → UInt8
  o : Nat
  reads : List (Int × Int)
  seen : List Lz77Seen

/-- `out[o++] = b`. -/
def Lz77Mem.write (st : Lz77Mem) (b : UInt8) : Lz77Mem :=
  { st with mem := Function.update st.mem st.o b, o := st.o + 1 }

def Lz77Mem.see (st : Lz77Mem) (offset : Nat) (verdict : Option Err) : Lz77Mem :=
  { st with seen := st.seen ++ [⟨offset, st.o, verdict⟩] }

/-- The copy loop from iteration `k` on, with `length` iterations left. -/
def lz77MemCopy (src : Int) : Nat → Nat → Lz77Mem → Lz77Mem
  | 0, _, st => st
  | length + 1, k, st =>
    lz77MemCopy src length (k + 1)
      { st with
        mem := Function.update st.mem (st.o + k) (st.mem (src + k))
        reads := st.reads ++ [(src + k, (st.o : Int) + k)] }

/-- The part of the loop body that handles one token. -/
def lz77MemToken (cap : Nat) (st : Lz77Mem) : Lz77Token → Lz77Mem × Option Err
  | .literal b => if cap - st.o < 1 then (st, some .range) else (st.write b, none)
  | .copy offset length =>
    if offset = 0 ∨ offset > st.o + 1 then (st.see offset (some .badRecord), some .badRecord)
    else if cap - st.o < length then (st.see offset (some .range), some .range)
    else
      let st := lz77MemCopy ((st.o : Int) - offset) length 0 (st.see offset none)
      ({ st with o := st.o + length }, none)

/-- The loop of `dtl_lz77_decode`; `bit = 8` means that a flag byte is read next. -/
def lz77MemLoop (cap : Nat) : Bytes → UInt8 → Nat → Lz77Mem → Lz77Mem × Option Err
  | [], _, _, st => (st, none)
  | b :: bs, flag, bit, st =>
    if bit = 8 then lz77MemLoop cap bs b 0 st
    else if (flag >>> UInt8.ofNat bit) &&& 1 ≠ 0 then
      match bs with
      | [] => (st, some .truncated)
      | b1 :: bs =>
        let r := lz77MemToken cap st (.copy (lz77Offset b b1) (lz77Length b1))
        if r.2 = none then lz77MemLoop cap bs flag (bit + 1) r.1 else r
    else
      let r := lz77MemToken cap st (.literal b)
      if r.2 = none then lz77MemLoop cap bs flag (bit + 1) r.1 else r

/-- `dtl_lz77_decode` with memory `mem` around `out`. -/
def lz77MemDecode (cap : Nat) (blob : Bytes) (mem : Int → UInt8) : Lz77Mem × Option Err :=
  lz77MemLoop cap blob 0 8 ⟨mem, 0, [], []⟩

/-- What the caller gets: the error, or the bytes `out[0 .. o)`. -/
def lz77MemResult (r : Lz77Mem × Option Err) : Res Bytes :=
  r.2.elim (.ok ((List.range r.1.o).map fun i : Nat => r.1.mem i)) .error

/-! ## The run over tokens -/

/-- The run over a token stream. -/
def lz77MemInterpret (cap : Nat) : List Lz77Token → Option Err → Lz77Mem → Lz77Mem × Option Err
  | [], stop, st => (st, stop)
  | t :: ts, stop, st =>
    let r := lz77MemToken cap st t
    if r.2 = none then lz77MemInterpret cap ts stop r.1 else r

theorem lz77MemLoop_eq (cap : Nat) : ∀ (inp : Bytes) (flag : UInt8) (bit : Nat) (st : Lz77Mem),
    lz77MemLoop cap inp flag bit st =
      lz77MemInterpret cap (lz77Stream inp flag bit).1 (lz77Stream inp flag bit).2 st
  | [], _, _, _ => rfl
  | b :: bs, flag, bit, st => by
    unfold lz77MemLoop lz77Stream
    by_cases hbit : bit = 8
    · rw [if_pos hbit, if_pos hbit]
      exact lz77MemLoop_eq cap bs b 0 st
    rw [if_neg hbit, if_neg hbit]
    by_cases hflag : (flag >>> UInt8.ofNat bit) &&& 1 ≠ 0
    · rw [if_pos hflag, if_pos hflag]
      cases bs with
      | nil => rfl
      | cons b1 bs =>
        dsimp only
        rw [lz77MemLoop_eq cap bs flag (bit + 1)]
        rfl
    · rw [if_neg hflag, if_neg hflag]
      dsimp only
      rw [lz77MemLoop_eq cap bs flag (bit + 1)]
      rfl

/-! ## Memory and lists -/

/-- The cells from `out` on hold the output, and the byte in front of it is `before`. -/
def Lz77Cells (mem : Int → UInt8) (before : UInt8) (out : Bytes) : Prop :=
  mem (-1) = before ∧ ∀ i : Nat, i < out.length → mem i = out.getD i 0

theorem Lz77Cells.write {mem : Int → UInt8} {before : UInt8} {out : Bytes}
    (h : Lz77Cells mem before out) (b : UInt8) :
    Lz77Cells (Function.update mem out.length b) before (out ++ [b]) := by
  refine ⟨?_, fun i hi => ?_⟩
  · rw [Function.update_of_ne (by omega)]
    exact h.1
  · rw [List.length_append, List.length_singleton] at hi
    by_cases hlast : i = out.length
    · subst hlast
      rw [Function.update_self, List.getD_append_right _ _ _ _ (Nat.le_refl _), Nat.sub_self]
      rfl
    · rw [Function.update_of_ne (by omega), List.getD_append _ _ _ _ (by omega)]
      exact h.2 i (by omega)

theorem Lz77Cells.back {mem : Int → UInt8} {before : UInt8} {out : Bytes} {offset : Nat}
    (h : Lz77Cells mem before out) (h1 : 1 ≤ offset) (h2 : offset ≤ out.length + 1) :
    mem ((out.length : Int) - offset) = lz77Back before out offset := by
  unfold lz77Back
  by_cases hin : offset ≤ out.length
  · rw [if_pos hin, ← h.2 (out.length - offset) (by omega)]
    congr 1
    omega
  · rw [if_neg hin, ← h.1]
    congr 1
    omega

/-- The copy loop reads consecutive cells and writes consecutive cells. -/
theorem lz77MemCopy_logs (src : Int) : ∀ (length k : Nat) (st : Lz77Mem),
    (lz77MemCopy src length k st).seen = st.seen ∧
      (lz77MemCopy src length k st).reads =
        st.reads ++ (List.range' k length).map fun j : Nat => (src + j, (st.o : Int) + j)
  | 0, k, st => by
    refine ⟨rfl, ?_⟩
    rw [List.range'_zero, List.map_nil, List.append_nil]
    rfl
  | length + 1, k, st => by
    obtain ⟨hseen, hreads⟩ := lz77MemCopy_logs src length (k + 1)
      { st with
        mem := Function.update st.mem (st.o + k) (st.mem (src + k))
        reads := st.reads ++ [(src + k, (st.o : Int) + k)] }
    rw [lz77MemCopy]
    refine ⟨hseen, ?_⟩
    rw [hreads, List.range'_succ, List.map_cons, List.append_assoc]
    rfl

theorem lz77MemCopy_o (src : Int) : ∀ (length k : Nat) (st : Lz77Mem),
    (lz77MemCopy src length k st).o = st.o
  | 0, _, _ => rfl
  | length + 1, k, _ => by rw [lz77MemCopy, lz77MemCopy_o src length (k + 1)]

/-- What the copy loop leaves in memory, from any of its iterations on. -/
theorem lz77MemCopy_cells {before : UInt8} (offset : Nat) : ∀ (length k : Nat) (st : Lz77Mem)
    (out : Bytes), Lz77Cells st.mem before out → out.length = st.o + k → 1 ≤ offset →
      offset ≤ st.o + 1 →
      Lz77Cells (lz77MemCopy ((st.o : Int) - offset) length k st).mem before
        (out ++ lz77Copy before offset length out)
  | 0, k, st, out, hcells, _, _, _ => by
    rw [lz77Copy, List.append_nil]
    exact hcells
  | length + 1, k, st, out, hcells, hlen, h1, h2 => by
    have hback := hcells.back h1 (by omega)
    have hnext := hcells.write (lz77Back before out offset)
    have hsrc : (st.o : Int) - offset + k = (out.length : Int) - offset := by omega
    have hdst : (st.o : Int) + k = out.length := by omega
    rw [← hback, ← hsrc, ← hdst] at hnext
    have ih := lz77MemCopy_cells offset length (k + 1)
      { st with
        mem := Function.update st.mem (st.o + k) (st.mem ((st.o : Int) - offset + k))
        reads := st.reads ++ [((st.o : Int) - offset + k, (st.o : Int) + k)] }
      (out ++ [st.mem ((st.o : Int) - offset + k)]) hnext
      (by rw [List.length_append, List.length_singleton]; dsimp only; omega) h1 h2
    rw [hsrc, hback, List.append_assoc] at ih
    rw [lz77MemCopy, lz77Copy, hsrc, hback]
    exact ih

/-! ## One token -/

theorem lz77MemToken_refused (cap : Nat) {st : Lz77Mem} {t : Lz77Token} (h : t.Refused st.o) :
    (lz77MemToken cap st t).2 = some .badRecord := by
  cases t with
  | literal b => exact h.elim
  | copy offset length =>
    rw [Lz77Token.Refused] at h
    rw [lz77MemToken, if_pos h]

theorem lz77MemToken_full {cap : Nat} (st : Lz77Mem) {t : Lz77Token} (hok : ¬ t.Refused st.o)
    (ho : st.o ≤ cap) (h : cap < st.o + t.span) : (lz77MemToken cap st t).2 = some .range := by
  cases t with
  | literal b =>
    simp only [Lz77Token.span] at h
    rw [lz77MemToken, if_pos (by omega)]
  | copy offset length =>
    rw [Lz77Token.Refused] at hok
    simp only [Lz77Token.span] at h
    rw [lz77MemToken, if_neg hok, if_pos (by omega)]

theorem lz77MemToken_taken {cap : Nat} (st : Lz77Mem) {t : Lz77Token} (hok : ¬ t.Refused st.o)
    (h : st.o + t.span ≤ cap) :
    (lz77MemToken cap st t).2 = none ∧ (lz77MemToken cap st t).1.o = st.o + t.span := by
  cases t with
  | literal b =>
    simp only [Lz77Token.span] at h
    rw [lz77MemToken, if_neg (by omega)]
    exact ⟨rfl, rfl⟩
  | copy offset length =>
    rw [Lz77Token.Refused] at hok
    simp only [Lz77Token.span] at h
    rw [lz77MemToken, if_neg hok, if_neg (by omega)]
    exact ⟨rfl, congrArg (· + length) (lz77MemCopy_o _ length 0 (st.see offset none))⟩

/-- A token that is taken writes its chunk. -/
theorem lz77MemToken_cells {cap : Nat} {before : UInt8} {out : Bytes} {st : Lz77Mem}
    {t : Lz77Token} (hcells : Lz77Cells st.mem before out) (ho : st.o = out.length)
    (hok : ¬ t.Refused st.o) (h : st.o + t.span ≤ cap) :
    Lz77Cells (lz77MemToken cap st t).1.mem before (out ++ t.chunk before out) := by
  cases t with
  | literal b =>
    simp only [Lz77Token.span] at h
    rw [lz77MemToken, if_neg (by omega), Lz77Mem.write, ho]
    exact hcells.write b
  | copy offset length =>
    rw [Lz77Token.Refused] at hok
    simp only [Lz77Token.span] at h
    have hback : offset ≤ (st.see offset none).o + 1 := by
      show offset ≤ st.o + 1
      omega
    rw [lz77MemToken, if_neg hok, if_neg (by omega)]
    exact lz77MemCopy_cells offset length 0 (st.see offset none) out hcells ho.symm (by omega) hback

/-- When a token is taken, and where the write position is then. -/
theorem lz77MemToken_next {cap : Nat} {st : Lz77Mem} (t : Lz77Token) (ho : st.o ≤ cap) :
    ((lz77MemToken cap st t).2 = none ↔ ¬ t.Refused st.o ∧ st.o + t.span ≤ cap) ∧
      ((lz77MemToken cap st t).2 = none → (lz77MemToken cap st t).1.o = st.o + t.span) := by
  by_cases hbad : t.Refused st.o
  · rw [lz77MemToken_refused cap hbad]
    exact ⟨⟨fun h => absurd h (by decide), fun h => absurd hbad h.1⟩, fun h => absurd h (by decide)⟩
  by_cases hroom : st.o + t.span ≤ cap
  · obtain ⟨hnone, hpos⟩ := lz77MemToken_taken st hbad hroom
    exact ⟨⟨fun _ => ⟨hbad, hroom⟩, fun _ => hnone⟩, fun _ => hpos⟩
  · rw [lz77MemToken_full st hbad ho (by omega)]
    exact ⟨⟨fun h => absurd h (by decide), fun h => absurd h.2 hroom⟩, fun h => absurd h (by decide)⟩

/-! ## The run returns what the model over lists returns -/

/-- **The memory run and the plan agree**, token by token. -/
theorem lz77MemInterpret_eq (cap : Nat) (before : UInt8) (stop : Option Err) :
    ∀ (ts : List Lz77Token) (st : Lz77Mem) (out : Bytes), Lz77Cells st.mem before out →
      st.o = out.length → out.length ≤ cap →
      lz77MemResult (lz77MemInterpret cap ts stop st) =
        (lz77Interpret before ts stop out).from .range cap out
  | [], st, out, hcells, ho, _ => by
    have hout : (List.range st.o).map (fun i : Nat => st.mem i) = out := by
      refine List.ext_getElem (by rw [List.length_map, List.length_range, ho]) fun i hi hi' => ?_
      rw [List.getElem_map, List.getElem_range, hcells.2 i hi', List.getD_eq_getElem _ _ hi']
    rw [lz77MemInterpret, lz77MemResult, hout]
    cases stop <;> rfl
  | t :: ts, st, out, hcells, ho, hle => by
    rw [lz77MemInterpret, lz77Interpret, ← ho]
    by_cases hbad : t.Refused st.o
    · have hverdict := lz77MemToken_refused cap hbad
      rw [if_pos hbad, if_neg (by rw [hverdict]; exact Option.some_ne_none _), lz77MemResult,
        hverdict]
      rfl
    rw [if_neg hbad, Plan.from_cons]
    by_cases hroom : st.o + t.span ≤ cap
    · obtain ⟨hnone, hpos⟩ := lz77MemToken_taken st hbad hroom
      have hlen : (out ++ t.chunk before out).length = st.o + t.span := by
        rw [List.length_append, t.chunk_length, ho]
      rw [if_pos hnone, put_of_fits (by rw [t.chunk_length, ← ho]; exact hroom), Except.bind_ok_eq]
      exact lz77MemInterpret_eq cap before stop ts _ _ (lz77MemToken_cells hcells ho hbad hroom)
        (hpos.trans hlen.symm) (hlen.trans_le hroom)
    · have hverdict : (lz77MemToken cap st t).2 = some .range :=
        lz77MemToken_full st hbad (by omega) (by omega)
      rw [if_neg (by rw [hverdict]; exact Option.some_ne_none _), lz77MemResult, hverdict,
        put_of_full hle (by rw [t.chunk_length]; omega)]
      rfl

/-- **The run over memory returns what the model over lists returns** for the byte in front of the
output buffer. -/
theorem lz77MemDecode_eq (cap : Nat) (blob : Bytes) (mem : Int → UInt8) :
    lz77MemResult (lz77MemDecode cap blob mem) = lz77Decode (mem (-1)) blob cap := by
  rw [lz77Decode_eq, lz77DecodePlan, lz77DecodeFrom_eq, lz77MemDecode, lz77MemLoop_eq]
  have hcells : Lz77Cells mem (mem (-1)) [] := ⟨rfl, fun i hi => absurd hi (Nat.not_lt_zero i)⟩
  exact lz77MemInterpret_eq cap (mem (-1)) _ _ ⟨mem, 0, [], []⟩ [] hcells rfl (Nat.zero_le _)

/-! ## Staying inside the output -/

/-- Every copy read a cell that was written before, and every match from beyond the output was
turned down. -/
structure Lz77Mem.Clean (st : Lz77Mem) : Prop where
  reads : ∀ r ∈ st.reads, 0 ≤ r.1 ∧ r.1 < r.2
  seen : ∀ s ∈ st.seen, s.written < s.offset → s.verdict = some .badRecord

theorem Lz77Mem.see_clean {st : Lz77Mem} {offset : Nat} {verdict : Option Err} :
    (st.see offset verdict).Clean ↔
      st.Clean ∧ (st.o < offset → verdict = some .badRecord) := by
  have hseen : (st.see offset verdict).seen = st.seen ++ [⟨offset, st.o, verdict⟩] := rfl
  constructor
  · intro h
    have hs := h.seen
    rw [hseen, List.forall_mem_append] at hs
    exact ⟨⟨h.reads, hs.1⟩, hs.2 _ (List.mem_singleton.mpr rfl)⟩
  · rintro ⟨h, hlast⟩
    refine ⟨h.reads, ?_⟩
    rw [hseen, List.forall_mem_append]
    refine ⟨h.seen, fun s hs => ?_⟩
    rw [List.mem_singleton.mp hs]
    exact hlast

theorem lz77MemCopy_clean {src : Int} {length : Nat} {st : Lz77Mem} :
    (lz77MemCopy src length 0 st).Clean ↔
      st.Clean ∧ ∀ j : Nat, j < length → 0 ≤ src + j ∧ src + j < st.o + j := by
  obtain ⟨hseen, hreads⟩ := lz77MemCopy_logs src length 0 st
  constructor
  · intro h
    have hr := h.reads
    rw [hreads, List.forall_mem_append] at hr
    refine ⟨⟨hr.1, hseen ▸ h.seen⟩, fun j hj => hr.2 (src + j, st.o + j) ?_⟩
    exact List.mem_map.mpr ⟨j, List.mem_range'_1.mpr ⟨Nat.zero_le _, by omega⟩, rfl⟩
  · rintro ⟨h, hin⟩
    refine ⟨?_, hseen ▸ h.seen⟩
    rw [hreads, List.forall_mem_append]
    refine ⟨h.reads, fun r hr => ?_⟩
    obtain ⟨j, hj, rfl⟩ := List.mem_map.mp hr
    exact hin j (by have := (List.mem_range'_1.mp hj).2; omega)

/-- **One token leaves a clean run clean, unless it starts in front of the output.** -/
theorem lz77MemToken_clean (cap : Nat) (st : Lz77Mem) (t : Lz77Token) :
    (lz77MemToken cap st t).1.Clean ↔ st.Clean ∧ ¬ t.Outside st.o := by
  cases t with
  | literal b =>
    rw [lz77MemToken]
    split
    · exact ⟨fun h => ⟨h, id⟩, fun h => h.1⟩
    · exact ⟨fun h => ⟨⟨h.reads, h.seen⟩, id⟩, fun h => ⟨h.1.reads, h.1.seen⟩⟩
  | copy offset length =>
    show _ ↔ st.Clean ∧ ¬ offset = st.o + 1
    rw [lz77MemToken]
    by_cases hbad : offset = 0 ∨ offset > st.o + 1
    · rw [if_pos hbad, Lz77Mem.see_clean]
      exact ⟨fun h => ⟨h.1, by omega⟩, fun h => ⟨h.1, fun _ => rfl⟩⟩
    rw [if_neg hbad]
    have hrange : (some Err.range = some Err.badRecord) ↔ False := by decide
    have hnone : ((none : Option Err) = some Err.badRecord) ↔ False := by decide
    by_cases hfull : cap - st.o < length
    · rw [if_pos hfull, Lz77Mem.see_clean, hrange]
      exact ⟨fun h => ⟨h.1, fun heq => h.2 (by omega)⟩, fun h => ⟨h.1, fun hlt => h.2 (by omega)⟩⟩
    rw [if_neg hfull]
    have hmove : ∀ (s : Lz77Mem) (o : Nat), ({ s with o := o } : Lz77Mem).Clean ↔ s.Clean :=
      fun _ _ => ⟨fun h => ⟨h.reads, h.seen⟩, fun h => ⟨h.reads, h.seen⟩⟩
    dsimp only
    rw [hmove, lz77MemCopy_clean, Lz77Mem.see_clean, hnone]
    constructor
    · rintro ⟨⟨h, hlast⟩, -⟩
      exact ⟨h, fun heq => hlast (by omega)⟩
    · rintro ⟨h, hne⟩
      refine ⟨⟨h, fun hlt => hne (by omega)⟩, fun j hj => ?_⟩
      show 0 ≤ (st.o : Int) - offset + j ∧ (st.o : Int) - offset + j < (st.o : Int) + j
      omega

/-- The matches of the list, behind `o` bytes of output, all stay inside it. -/
def Lz77InRange : Nat → List Lz77Token → Prop
  | _, [] => True
  | o, t :: ts => t.Inside o ∧ Lz77InRange (o + t.span) ts

/-- Behind `o` bytes of output the tokens come, within the capacity and inside the output, to a match
that starts one byte in front of it. -/
def Lz77Overreach (cap o : Nat) (ts : List Lz77Token) : Prop :=
  ∃ pre off len post, ts = pre ++ .copy off len :: post ∧ Lz77InRange o pre ∧
    o + lz77Span pre ≤ cap ∧ off = o + lz77Span pre + 1

theorem lz77Overreach_nil (cap o : Nat) : ¬ Lz77Overreach cap o [] := by
  rintro ⟨pre, off, len, post, hts, -⟩
  exact absurd hts (by simp)

theorem lz77Overreach_cons {cap o : Nat} (ho : o ≤ cap) (t : Lz77Token) (ts : List Lz77Token) :
    Lz77Overreach cap o (t :: ts) ↔
      t.Outside o ∨ (t.Inside o ∧ o + t.span ≤ cap ∧ Lz77Overreach cap (o + t.span) ts) := by
  constructor
  · rintro ⟨pre, off, len, post, hts, hin, hroom, hoff⟩
    cases pre with
    | nil =>
      obtain ⟨rfl, rfl⟩ := List.cons.inj hts
      exact Or.inl hoff
    | cons u pre =>
      obtain ⟨rfl, rfl⟩ := List.cons.inj hts
      rw [lz77Span_cons] at hroom hoff
      exact Or.inr ⟨hin.1, by omega, pre, off, len, post, rfl, hin.2, by omega, by omega⟩
  · rintro (hout | ⟨hin, hroom, pre, off, len, post, rfl, hpre, hfit, hoff⟩)
    · cases t with
      | literal b => exact hout.elim
      | copy off len => exact ⟨[], off, len, ts, rfl, trivial, ho, hout⟩
    · refine ⟨t :: pre, off, len, post, rfl, ⟨hin, hpre⟩, ?_, ?_⟩
      · rw [lz77Span_cons]
        omega
      · rw [lz77Span_cons]
        omega

/-- **A run is clean exactly if it comes to no such match.** -/
theorem lz77MemInterpret_clean (cap : Nat) (stop : Option Err) : ∀ (ts : List Lz77Token)
    (st : Lz77Mem), st.o ≤ cap →
      ((lz77MemInterpret cap ts stop st).1.Clean ↔ st.Clean ∧ ¬ Lz77Overreach cap st.o ts)
  | [], st, _ => ⟨fun h => ⟨h, lz77Overreach_nil cap st.o⟩, fun h => h.1⟩
  | t :: ts, st, ho => by
    obtain ⟨hnone, hpos⟩ := lz77MemToken_next t ho
    have hstep := lz77MemToken_clean cap st t
    rw [lz77Overreach_cons ho, lz77MemInterpret]
    by_cases hok : (lz77MemToken cap st t).2 = none
    · obtain ⟨hbad, hroom⟩ := hnone.mp hok
      have ih := lz77MemInterpret_clean cap stop ts _ ((hpos hok).trans_le hroom)
      rw [if_pos hok, ih, hstep, hpos hok]
      rcases t.inside_or st.o with h | h | h
      · exact absurd h hbad
      · exact ⟨fun hc => absurd h hc.1.2, fun hc => absurd (Or.inl h) hc.2⟩
      · constructor
        · rintro ⟨⟨hc, hout⟩, hrest⟩
          exact ⟨hc, fun ho => ho.elim hout fun hi => hrest hi.2.2⟩
        · rintro ⟨hc, hno⟩
          exact ⟨⟨hc, fun hout => hno (Or.inl hout)⟩, fun hrest => hno (Or.inr ⟨h, hroom, hrest⟩)⟩
    · rw [if_neg hok, hstep]
      constructor
      · rintro ⟨hc, hout⟩
        refine ⟨hc, fun ho => ho.elim hout fun hi => hok (hnone.mpr ⟨hi.1.not_refused, hi.2.1⟩)⟩
      · rintro ⟨hc, hno⟩
        exact ⟨hc, fun hout => hno (Or.inl hout)⟩

/-- **The decoder never reads output it has not written**, on this capacity and blob: every source
index of a copy lies in `[0, write position)`, a match from beyond the output is turned down, and the
result does not depend on what `out[0 .. cap)` holds at first. -/
structure Lz77Safe (cap : Nat) (blob : Bytes) : Prop where
  reads : ∀ mem, ∀ r ∈ (lz77MemDecode cap blob mem).1.reads, 0 ≤ r.1 ∧ r.1 < r.2
  refuses : ∀ mem, ∀ s ∈ (lz77MemDecode cap blob mem).1.seen,
    s.written < s.offset → s.verdict = some .badRecord
  result : ∀ mem mem' : Int → UInt8, (∀ i : Int, i < 0 ∨ cap ≤ i → mem i = mem' i) →
    lz77MemResult (lz77MemDecode cap blob mem) = lz77MemResult (lz77MemDecode cap blob mem')

/-- **When the decoder is safe**: exactly if its tokens do not come, inside the output and the
capacity, to a match whose offset is one more than the bytes written. -/
theorem lz77_safe_iff (cap : Nat) (blob : Bytes) :
    Lz77Safe cap blob ↔ ¬ Lz77Overreach cap 0 (lz77Read blob).1 := by
  have hclean : ∀ mem, (lz77MemDecode cap blob mem).1.Clean ↔
      ¬ Lz77Overreach cap 0 (lz77Read blob).1 := by
    intro mem
    have hstart : (⟨mem, 0, [], []⟩ : Lz77Mem).Clean := ⟨by simp, by simp⟩
    rw [lz77MemDecode, lz77MemLoop_eq, lz77MemInterpret_clean _ _ _ _ (Nat.zero_le _)]
    exact ⟨fun h => h.2, fun h => ⟨hstart, h⟩⟩
  constructor
  · intro h
    exact (hclean fun _ => 0).mp ⟨h.reads _, h.refuses _⟩
  · intro h
    refine ⟨fun mem => ((hclean mem).mpr h).reads, fun mem => ((hclean mem).mpr h).seen, ?_⟩
    intro mem mem' hsame
    rw [lz77MemDecode_eq, lz77MemDecode_eq, hsame (-1) (Or.inl (by decide))]

/-- A match at the very start copies the byte in front of the buffer. -/
theorem lz77_not_safe : ¬ Lz77Safe 3 [0x01, 0x00, 0x00] ∧
    lz77MemResult (lz77MemDecode 3 [0x01, 0x00, 0x00] fun _ => 0) = .ok [0, 0, 0] ∧
    lz77MemResult (lz77MemDecode 3 [0x01, 0x00, 0x00] fun _ => 9) = .ok [9, 9, 9] := by
  refine ⟨fun h => ?_, by decide +kernel, by decide +kernel⟩
  have hread : ((-1 : Int), (0 : Int)) ∈ (lz77MemDecode 3 [0x01, 0x00, 0x00] fun _ => 0).1.reads := by
    decide +kernel
  have hpos : (0 : Int) ≤ -1 := (h.reads _ _ hread).1
  exact absurd hpos (by decide)

end Dtl
