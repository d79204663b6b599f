import TelemetryForge.Core.Buf

/-!
# TLV framing

Model of `format/tlv`.  A `Tlv` is a tag and the payload bytes `val[0 .. len)`; `tlvNext` reads the
next one off a stream and `tlvCount` counts the whole ones.  `encodeTlv` is the wire form that
`dtl_tlv_next` reads: tag, little-endian `u16` length, payload.

Principal results: `tlvNext_inverts`, `tlvNext_exact` and `tlvNext_consumes` make `tlvNext` an exact
self-delimiting decoder, so `tlvItems` (the items `dtl_tlv_next` yields in turn, and the bytes left
when it first fails) is the maximal decomposition of a stream (`tlvItems_spec`,
`tlvItems_encode`).  The only error is truncation (`tlvNext_error`).
-/

set_option autoImplicit false

namespace Dtl

open PrefixCode

/-- `dtl_tlv`; the `len` field is the length of `val`. -/
structure Tlv where
  tag : UInt8
  val : Bytes
  deriving DecidableEq, Repr

/-- The wire form of an item whose payload length fits the `u16` field. -/
def encodeTlv (t : Tlv) : Bytes :=
  t.tag :: (endianWriteU16le (UInt16.ofNat t.val.length) ++ t.val)

/-- The payload length fits the `u16` length field. -/
def Tlv.Fits (t : Tlv) : Prop := t.val.length ≤ 0xFFFF

instance (t : Tlv) : Decidable t.Fits := inferInstanceAs (Decidable (_ ≤ _))

/-- `dtl_tlv_next`. -/
def tlvNext (stream : Bytes) : Res (Tlv × Bytes) := do
  let (tag, stream) ← bufReadU8 stream
  let (len, stream) ← bufReadU16 stream
  failIf (len.toNat > stream.length) .truncated
  return (⟨tag, stream.take len.toNat⟩, stream.drop len.toNat)

/-- The loop of `dtl_tlv_count`: the result code and the number of whole items. -/
def tlvCountLoop : Nat → Bytes → Nat → Option Err × Nat
  | 0, _, n => (none, n)
  | fuel + 1, tmp, n =>
    if tmp.length = 0 then (none, n) else
    match tlvNext tmp with
    | .error rc => (some rc, n)
    | .ok (_, tmp) => tlvCountLoop fuel tmp (n + 1)

/-- `dtl_tlv_count`; every iteration consumes a byte, so the stream's length bounds them. -/
def tlvCount (stream : Bytes) : Option Err × Nat := tlvCountLoop stream.length stream 0

/-- The items `dtl_tlv_next` yields in turn, and the bytes left when it first fails. -/
def tlvItems (stream : Bytes) : List Tlv × Bytes := items tlvNext stream

@[simp] theorem encodeTlv_length (t : Tlv) : (encodeTlv t).length = 3 + t.val.length := by
  simp [encodeTlv]; omega

theorem tlvNext_inverts : Inverts tlvNext encodeTlv Tlv.Fits := by
  intro t r hfit
  have hlen : (UInt16.ofNat t.val.length).toNat = t.val.length := by
    rw [UInt16.toNat_ofNat']; unfold Tlv.Fits at hfit; omega
  have hroom : ¬ t.val.length > (t.val ++ r).length := by rw [List.length_append]; omega
  rw [encodeTlv, List.cons_append, List.append_assoc]
  simp only [tlvNext, bufReadU8_cons, Except.bind_ok_eq, bufReadU16_write, hlen,
    failIf_neg hroom, List.take_left, List.drop_left, Except.pure_eq_ok]

theorem tlvNext_ok {s : Bytes} {t : Tlv} {r : Bytes} (h : tlvNext s = .ok (t, r)) :
    s = encodeTlv t ++ r ∧ t.Fits := by
  simp only [tlvNext, Except.bind_eq_ok, failIf_eq_ok, Except.pure_eq_ok, Except.ok.injEq,
    Prod.mk.injEq] at h
  obtain ⟨⟨tag, s₁⟩, h1, ⟨len, s₂⟩, h2, _, hroom, rfl, rfl⟩ := h
  dsimp only at h2 hroom ⊢
  have hlt := len.toNat_lt
  have hle : len.toNat ≤ s₂.length := by omega
  have htake : (s₂.take len.toNat).length = len.toNat := List.length_take_of_le hle
  refine ⟨?_, by simp only [Tlv.Fits, htake]; omega⟩
  rw [bufReadU8_exact _ _ _ h1, bufReadU16_exact _ _ _ h2]
  simp [encodeTlv, htake]

theorem tlvNext_exact : Exact tlvNext encodeTlv := fun _ _ _ h => (tlvNext_ok h).1

theorem tlvNext_consumes : Consumes tlvNext := by
  intro s t r h
  rw [tlvNext_exact s t r h, List.length_append, encodeTlv_length]
  omega

/-- The only way `dtl_tlv_next` fails is truncation. -/
theorem tlvNext_error {s : Bytes} {e : Err} (h : tlvNext s = .error e) : e = .truncated := by
  unfold tlvNext at h
  cases s with
  | nil => cases h; rfl
  | cons tag s =>
    rw [bufReadU8_cons, Except.bind_ok_eq] at h
    match s with
    | [] => cases h; rfl
    | [_] => cases h; rfl
    | p0 :: p1 :: s =>
      simp only [bufReadU16, Except.bind_ok_eq, failIf] at h
      split at h
      · cases h; rfl
      · cases h

theorem tlvNext_nil : tlvNext [] = .error .truncated := rfl

/-- **Every stream is its items followed by a rest that does not start with a whole item.** -/
theorem tlvItems_spec (s : Bytes) :
    s = (tlvItems s).1.flatMap encodeTlv ++ (tlvItems s).2 ∧
      tlvNext (tlvItems s).2 = .error .truncated := by
  obtain ⟨h1, e, h2⟩ := items_spec tlvNext_consumes tlvNext_exact s
  refine ⟨h1, ?_⟩
  have := tlvNext_error h2
  subst this
  exact h2

/-- **A concatenation of encoded items is read back item by item, with nothing left.** -/
theorem tlvItems_encode (ts : List Tlv) (hf : ∀ t ∈ ts, t.Fits) :
    tlvItems (ts.flatMap encodeTlv) = (ts, []) := by
  have h := items_concat tlvNext_consumes tlvNext_inverts ts [] hf tlvNext_nil
  rwa [List.append_nil] at h

theorem tlvItems_of_ok {s : Bytes} {t : Tlv} {r : Bytes} (h : tlvNext s = .ok (t, r)) :
    tlvItems s = (t :: (tlvItems r).1, (tlvItems r).2) := items_of_ok tlvNext_consumes h

theorem tlvItems_of_error {s : Bytes} {e : Err} (h : tlvNext s = .error e) :
    tlvItems s = ([], s) := items_of_error h

theorem tlvItems_fits (s : Bytes) : ∀ t ∈ (tlvItems s).1, t.Fits := by
  induction hn : s.length using Nat.strongRecOn generalizing s with
  | ind n ih =>
    cases h : tlvNext s with
    | error e => simp [tlvItems_of_error h]
    | ok p =>
      obtain ⟨t, r⟩ := p
      rw [tlvItems_of_ok h, List.forall_mem_cons]
      exact ⟨(tlvNext_ok h).2, ih r.length (hn ▸ tlvNext_consumes _ _ _ h) r rfl⟩

theorem tlvCountLoop_items : ∀ (fuel : Nat) (s : Bytes) (n : Nat), s.length ≤ fuel →
    tlvCountLoop fuel s n =
      (if (tlvItems s).2 = [] then none else some .truncated, n + (tlvItems s).1.length)
  | 0, s, n, hfuel => by
    rw [List.length_eq_zero_iff.mp (Nat.le_zero.mp hfuel)]
    rfl
  | fuel + 1, s, n, hfuel => by
    cases h : tlvNext s with
    | error e =>
      have he := tlvNext_error h
      subst he
      rw [tlvItems_of_error h]
      cases s with
      | nil => rfl
      | cons b s => simp [tlvCountLoop, h]
    | ok p =>
      obtain ⟨t, r⟩ := p
      have hlt := tlvNext_consumes s t r h
      have hne : s.length ≠ 0 := by omega
      rw [tlvCountLoop, if_neg hne, h]
      dsimp only
      rw [tlvCountLoop_items fuel r (n + 1) (by omega), tlvItems_of_ok h]
      simp only [List.length_cons, Nat.add_assoc, Nat.add_comm 1]

/-- **The loop counts the items and fails when something is left over.** -/
theorem tlvCount_items (s : Bytes) :
    tlvCount s = (if (tlvItems s).2 = [] then none else some .truncated, (tlvItems s).1.length) := by
  rw [tlvCount, tlvCountLoop_items s.length s 0 (Nat.le_refl _), Nat.zero_add]

end Dtl
