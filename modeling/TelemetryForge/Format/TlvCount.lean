import TelemetryForge.Format.Accept
import TelemetryForge.Format.Tlv

/-!
# Counting the items of a TLV stream

`Machine.tlvNext` and `Machine.tlvCount` follow `dtl_tlv_next` and `dtl_tlv_count` with the cursor:
a call that fails may leave the cursor behind the header fields it did read, and the loop works on
a copy of the caller's `dtl_buf`.

Principal result: `tlvCount_exact` — the stream decomposes in one way into whole items and a rest
that does not start with one; the items are those `dtl_tlv_next` yields in turn, their number is
what `dtl_tlv_count` reports, and its return code says whether the rest is empty.
-/

set_option autoImplicit false

namespace Dtl

open PrefixCode Checked

namespace Machine

/-- The bytes a cursor has not passed. -/
def Cursor.unread (b : Cursor) : Bytes := b.p.drop b.pos

/-- `dtl_tlv`; `val` is the index its borrowed pointer has in the stream's buffer. -/
structure TlvView where
  tag : UInt8
  len : UInt16
  val : Nat

/-- The item a `dtl_tlv` describes in the buffer it borrows from. -/
def TlvView.item (v : TlvView) (p : Bytes) : Tlv := ⟨v.tag, (p.drop v.val).take v.len.toNat⟩

/-- `dtl_tlv_next`: the outcome, and where it leaves the cursor. -/
def tlvNext (w : Nat) (stream : Cursor) : Run Err TlvView × Cursor :=
  match bufReadU8 w stream with
  | .error rc => (.error rc, stream)
  | .ok (tag, stream) =>
    match bufReadU16 w stream with
    | .error rc => (.error rc, stream)
    | .ok (len, stream) =>
      match sub stream.p.length stream.pos with
      | .error rc => (.error rc, stream)
      | .ok remaining =>
        if len.toNat > remaining then (.error (.err .truncated), stream) else
        match add w stream.pos len.toNat with
        | .error rc => (.error rc, stream)
        | .ok pos => (.ok ⟨tag, len, stream.pos⟩, ⟨stream.p, pos⟩)

/-- The variables of `dtl_tlv_count`: the caller's `dtl_buf`, the private copy and the count. -/
structure CountFrame where
  stream : Cursor
  tmp : Cursor
  n : Nat

/-- The loop of `dtl_tlv_count`; `none` when the fuel is spent before it returns. -/
def tlvCountLoop (w : Nat) : Nat → CountFrame → Option (Run Err Unit × CountFrame)
  | 0, _ => none
  | fuel + 1, f =>
    match sub f.tmp.p.length f.tmp.pos with
    | .error rc => some (.error rc, f)
    | .ok remaining =>
      if remaining = 0 then some (.ok (), f) else
      match tlvNext w f.tmp with
      | (.error rc, tmp) => some (.error rc, ⟨f.stream, tmp, f.n⟩)
      | (.ok _, tmp) =>
        match add w f.n 1 with
        | .error rc => some (.error rc, ⟨f.stream, tmp, f.n⟩)
        | .ok n => tlvCountLoop w fuel ⟨f.stream, tmp, n⟩

/-- `dtl_tlv_count`; every iteration but the last consumes a byte of the copy. -/
def tlvCount (w : Nat) (stream : Cursor) : Option (Run Err Unit × CountFrame) :=
  tlvCountLoop w (stream.p.length + 1) ⟨stream, stream, 0⟩

/-- `dtl_tlv_count` returns `rc` with `*out_count = n`, and the caller's cursor is as it was. -/
def CountReturns (w : Nat) (stream : Cursor) (rc : Run Err Unit) (n : Nat) : Prop :=
  ∃ tmp, tlvCount w stream = some (rc, ⟨stream, tmp, n⟩)

/-- The items `dtl_tlv_next` yields in turn from one cursor, and the cursor after them. -/
inductive Yields (w : Nat) : Cursor → List Tlv → Cursor → Prop where
  | nil (c : Cursor) : Yields w c [] c
  | cons {c c' last : Cursor} {v : TlvView} {ts : List Tlv} (next : tlvNext w c = (.ok v, c'))
      (rest : Yields w c' ts last) : Yields w c (v.item c.p :: ts) last

/-- Whole items, followed by bytes that do not start with a whole item. -/
structure Decomposes (s : Bytes) (ts : List Tlv) (r : Bytes) : Prop where
  fits : ∀ t ∈ ts, t.Fits
  concat : s = ts.flatMap encodeTlv ++ r
  incomplete : ∀ t r', t.Fits → r ≠ encodeTlv t ++ r'

/-! ## One item -/

section Step

variable {w : Nat} {data : Bytes} {pos : Nat}

/-- What `dtl_tlv_next` does at a cursor. -/
inductive NextCase (w : Nat) (data : Bytes) (pos : Nat) : Prop where
  | item (v : TlvView) (pos' : Nat) (next : tlvNext w ⟨data, pos⟩ = (.ok v, ⟨data, pos'⟩))
      (read : Dtl.tlvNext (data.drop pos) = .ok (v.item data, data.drop pos'))
      (moved : pos < pos' ∧ pos' ≤ data.length)
  | truncated (c : Cursor) (next : tlvNext w ⟨data, pos⟩ = (.error (.err .truncated), c))
      (read : Dtl.tlvNext (data.drop pos) = .error .truncated)

theorem tlvNext_cases (hb : Cursor.Ok w ⟨data, pos⟩) : NextCase w data pos := by
  have refused : ∀ {e : Err} {c : Cursor}, tlvNext w ⟨data, pos⟩ = (.error (.err e), c) →
      Dtl.tlvNext (data.drop pos) = .error e → NextCase w data pos := by
    intro e c hnext hread
    have he := tlvNext_error hread
    subst he
    exact .truncated c hnext hread
  rcases bufReadU8_simulates hb with ⟨⟨tag, c₁⟩, ⟨tag', r₁⟩, h1, d1, hR1⟩ | ⟨e, h1, d1⟩
  · obtain ⟨p₁, pos₁⟩ := c₁
    obtain ⟨rfl, rfl, ⟨hlo1, hle1⟩, rfl⟩ := hR1
    rcases bufReadU16_simulates (hb.move hle1) with ⟨⟨len, c₂⟩, ⟨len', r₂⟩, h2, d2, hR2⟩ | ⟨e, h2, d2⟩
    · obtain ⟨p₂, pos₂⟩ := c₂
      obtain ⟨rfl, rfl, ⟨hlo2, hle2⟩, rfl⟩ := hR2
      dsimp only at *
      have hlt := hb.len_lt
      have hsub : sub p₂.length pos₂ = (.ok (p₂.length - pos₂) : Run Err Nat) := sub_ok hle2
      by_cases hfit : len.toNat > p₂.length - pos₂
      · -- the header was read, so the cursor stays behind it
        refine refused (e := .truncated) (c := ⟨p₂, pos₂⟩) ?_ ?_
        · simp only [tlvNext, h1, h2, hsub, if_pos hfit]
        · simp only [Dtl.tlvNext, d1, d2, Except.bind_ok_eq, List.length_drop, failIf_pos hfit,
            Except.bind_error_eq]
      · have hadd : add w pos₂ len.toNat = (.ok (pos₂ + len.toNat) : Run Err Nat) :=
          add_ok (by dsimp only at hlt; omega)
        refine .item ⟨tag, len, pos₂⟩ (pos₂ + len.toNat) ?_ ?_ ⟨by omega, by omega⟩
        · simp only [tlvNext, h1, h2, hsub, hadd, if_neg hfit]
        · simp only [Dtl.tlvNext, d1, d2, Except.bind_ok_eq, List.length_drop, failIf_neg hfit,
            Except.pure_eq_ok, List.drop_drop, TlvView.item]
    · refine refused (e := e) (c := ⟨p₁, pos₁⟩) ?_ ?_
      · simp only [tlvNext, h1, h2]
      · simp only [Dtl.tlvNext, d1, d2, Except.bind_ok_eq, Except.bind_error_eq]
  · refine refused (e := e) (c := ⟨data, pos⟩) ?_ ?_
    · simp only [tlvNext, h1]
    · simp only [Dtl.tlvNext, d1, Except.bind_error_eq]

end Step

/-! ## The whole stream -/

/-- A rest does not start with a whole item exactly when the next read fails. -/
theorem incomplete_of_error {r : Bytes} {e : Err} (h : Dtl.tlvNext r = .error e) :
    ∀ t r', t.Fits → r ≠ encodeTlv t ++ r' := by
  rintro t r' hfit rfl
  rw [tlvNext_inverts t r' hfit] at h
  cases h

theorem Decomposes.items {s r : Bytes} {ts : List Tlv} (h : Decomposes s ts r) :
    tlvItems s = (ts, r) := by
  rw [h.concat]
  cases hr : Dtl.tlvNext r with
  | ok p =>
    obtain ⟨hs, hfit⟩ := tlvNext_ok (t := p.1) (r := p.2) hr
    exact absurd hs (h.incomplete p.1 p.2 hfit)
  | error e => exact items_concat tlvNext_consumes tlvNext_inverts ts r h.fits hr

theorem decomposes_items (s : Bytes) : Decomposes s (tlvItems s).1 (tlvItems s).2 where
  fits := tlvItems_fits s
  concat := (tlvItems_spec s).1
  incomplete := incomplete_of_error (tlvItems_spec s).2

/-- **A stream has one decomposition.** -/
theorem decomposes_iff {s r : Bytes} {ts : List Tlv} : Decomposes s ts r ↔ tlvItems s = (ts, r) := by
  refine ⟨Decomposes.items, fun h => ?_⟩
  have hd := decomposes_items s
  rwa [h] at hd

/-- What the rest of a stream decides about the return code. -/
def CountCode (r : Bytes) (rc : Run Err Unit) : Prop :=
  (rc = .ok () ∧ r = []) ∨ (rc = .error (.err .truncated) ∧ r ≠ [])

/-- The loop, from any position and count. -/
theorem tlvCountLoop_run {w : Nat} {data : Bytes} (stream : Cursor) :
    ∀ (fuel pos n : Nat), Cursor.Ok w ⟨data, pos⟩ → data.length - pos < fuel →
      n + (data.length - pos) < 2 ^ w →
      ∃ rc tmp last, tlvCountLoop w fuel ⟨stream, ⟨data, pos⟩, n⟩ =
          some (rc, ⟨stream, tmp, n + (tlvItems (data.drop pos)).1.length⟩) ∧
        CountCode (tlvItems (data.drop pos)).2 rc ∧
        Yields w ⟨data, pos⟩ (tlvItems (data.drop pos)).1 last ∧
        last.unread = (tlvItems (data.drop pos)).2 ∧
        (tlvNext w last).1 = .error (.err .truncated)
  | 0, _, _, _, hfuel, _ => absurd hfuel (Nat.not_lt_zero _)
  | fuel + 1, pos, n, hb, hfuel, hn => by
    have hle : pos ≤ data.length := hb.pos_le
    have hsub : sub data.length pos = (.ok (data.length - pos) : Run Err Nat) := sub_ok hle
    rcases tlvNext_cases hb with ⟨v, pos', hnext, hread, hlt, hle'⟩ | ⟨c, hnext, hread⟩
    · have hadd : add w n 1 = (.ok (n + 1) : Run Err Nat) := add_ok (by omega)
      have hne : data.length - pos ≠ 0 := by omega
      obtain ⟨rc, tmp, last, hloop, hcode, hy, hrest, hlast⟩ :=
        tlvCountLoop_run stream fuel pos' (n + 1) (hb.move hle') (by omega) (by omega)
      rw [tlvItems_of_ok hread]
      refine ⟨rc, tmp, last, ?_, hcode, .cons hnext hy, hrest, hlast⟩
      simp only [tlvCountLoop, hsub, if_neg hne, hnext, hadd, hloop, List.length_cons]
      rw [Nat.add_assoc, Nat.add_comm 1]
    · rw [tlvItems_of_error hread]
      by_cases hz : data.length - pos = 0
      · have hnil : data.drop pos = [] := List.drop_eq_nil_iff.mpr (by omega)
        refine ⟨.ok (), ⟨data, pos⟩, ⟨data, pos⟩, ?_, .inl ⟨rfl, hnil⟩, .nil _, rfl, ?_⟩
        · simp [tlvCountLoop, hsub, hz]
        · rw [hnext]
      · have hne : data.drop pos ≠ [] := by
          intro h
          have := List.drop_eq_nil_iff.mp h
          omega
        refine ⟨.error (.err .truncated), c, ⟨data, pos⟩, ?_, .inr ⟨rfl, hne⟩, .nil _, rfl, ?_⟩
        · simp [tlvCountLoop, hsub, if_neg hz, hnext]
        · rw [hnext]

theorem CountCode.unique {r : Bytes} {rc rc' : Run Err Unit} (h : CountCode r rc)
    (h' : CountCode r rc') : rc = rc' := by
  rcases h with ⟨rfl, hr⟩ | ⟨rfl, hr⟩ <;> rcases h' with ⟨rfl, hr'⟩ | ⟨rfl, hr'⟩
  · rfl
  · exact absurd hr hr'
  · exact absurd hr' hr
  · rfl

theorem CountCode.of_ok {r : Bytes} (h : CountCode r (.ok ())) : r = [] := by
  rcases h with ⟨-, hr⟩ | ⟨h, -⟩
  · exact hr
  · cases h

theorem tlvCount_returns {w : Nat} {stream : Cursor} (hb : stream.Ok w) :
    ∃ rc last, CountCode (tlvItems stream.unread).2 rc ∧
      Yields w stream (tlvItems stream.unread).1 last ∧
      last.unread = (tlvItems stream.unread).2 ∧
      (tlvNext w last).1 = .error (.err .truncated) ∧
      ∀ rc' n, CountReturns w stream rc' n ↔
        rc' = rc ∧ n = (tlvItems stream.unread).1.length := by
  obtain ⟨data, pos⟩ := stream
  have hlen : data.length < 2 ^ w := hb.len_lt
  obtain ⟨rc, tmp, last, hloop, hcode, hy, hrest, hlast⟩ :=
    tlvCountLoop_run ⟨data, pos⟩ (data.length + 1) pos 0 hb (by omega) (by omega)
  rw [Nat.zero_add] at hloop
  refine ⟨rc, last, hcode, hy, hrest, hlast, fun rc' n => ⟨?_, ?_⟩⟩
  · rintro ⟨tmp', h⟩
    rw [tlvCount, hloop] at h
    simp only [Option.some.injEq, Prod.mk.injEq, CountFrame.mk.injEq] at h
    exact ⟨h.1.symm, h.2.2.2.symm⟩
  · rintro ⟨rfl, rfl⟩
    exact ⟨tmp, hloop⟩

/-- The count over unread bytes. -/
theorem tlvCount_simulates {w : Nat} {stream : Cursor} (hb : stream.Ok w) :
    ∃ rc, CountReturns w stream rc (Dtl.tlvCount stream.unread).2 ∧
      rc = match (Dtl.tlvCount stream.unread).1 with
        | none => .ok ()
        | some e => .error (.err e) := by
  obtain ⟨rc, last, hcode, -, -, -, hreturns⟩ := tlvCount_returns hb
  rw [tlvCount_items]
  refine ⟨rc, (hreturns rc _).mpr ⟨rfl, rfl⟩, ?_⟩
  rcases hcode with ⟨rfl, hr⟩ | ⟨rfl, hr⟩
  · simp [hr]
  · simp [hr]

/-- **`dtl_tlv_count` counts the items of the only decomposition of the stream.**  `DTL_OK` with
`n` means a concatenation of `n` encoded items; otherwise the code is `DTL_ERR_TRUNCATED` and `n`
counts the items before the first incomplete one.  The caller's cursor does not move. -/
theorem tlvCount_exact {w : Nat} {stream : Cursor} (hb : stream.Ok w) :
    (∀ n, CountReturns w stream (.ok ()) n ↔
      ∃ ts : List Tlv, ts.length = n ∧ (∀ t ∈ ts, t.Fits) ∧
        stream.unread = ts.flatMap encodeTlv) ∧
    ∃ ts r, (∀ ts' r', Decomposes stream.unread ts' r' ↔ ts' = ts ∧ r' = r) ∧
      (∃ last, Yields w stream ts last ∧ last.unread = r ∧
        (tlvNext w last).1 = .error (.err .truncated)) ∧
      ∀ rc n, CountReturns w stream rc n ↔ CountCode r rc ∧ n = ts.length := by
  obtain ⟨rc, last, hcode, hy, hrest, hlast, hreturns⟩ := tlvCount_returns hb
  have hret : ∀ rc' n, CountReturns w stream rc' n ↔
      CountCode (tlvItems stream.unread).2 rc' ∧ n = (tlvItems stream.unread).1.length := by
    intro rc' n
    rw [hreturns]
    exact ⟨fun ⟨h1, h2⟩ => ⟨h1 ▸ hcode, h2⟩, fun ⟨h1, h2⟩ => ⟨h1.unique hcode, h2⟩⟩
  refine ⟨fun n => ?_, (tlvItems stream.unread).1, (tlvItems stream.unread).2, fun ts' r' => ?_,
    ⟨last, hy, hrest, hlast⟩, hret⟩
  · rw [hret]
    constructor
    · rintro ⟨hc, rfl⟩
      have hd := decomposes_items stream.unread
      refine ⟨_, rfl, hd.fits, ?_⟩
      rw [← List.append_nil (List.flatMap _ _), ← hc.of_ok]
      exact hd.concat
    · rintro ⟨ts, rfl, hfits, heq⟩
      rw [heq, tlvItems_encode ts hfits]
      exact ⟨.inl ⟨rfl, rfl⟩, rfl⟩
  · rw [decomposes_iff, Prod.ext_iff, eq_comm (a := ts'), eq_comm (a := r')]

theorem tlvCount_exact_one : CountReturns 32 ⟨[7, 1, 0, 9], 0⟩ (.ok ()) 1 :=
  ((tlvCount_exact (w := 32) ⟨by simp, by simp⟩).1 1).mpr
    ⟨[⟨7, [9]⟩], rfl, by simp [Tlv.Fits], rfl⟩

end Machine

end Dtl
