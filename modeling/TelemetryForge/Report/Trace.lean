import TelemetryForge.Report.Walk
import TelemetryForge.Writer.Capacity

/-!
# The trace of a walk

`Walk.traced` adds a log of the `on_record` calls to a caller's state, so `walkTrace` is what a walk
delivers to any callbacks.  The specification is independent of the loops:

* `Decodes`, `Decomposes` — the section is walked and has this stream; the items of a stream up to
  the first place where no whole item follows.
* `itemsOf` — the accepted items with their ordinals among all items.
* `traceOf` — the sections' accepted items in table order, numbered through.

`EditsBlob` relates two inputs that differ in the blob bytes of one section only, and `Isolated` says
that such an edit changes no event of another section but for one shift of `record_index`.  The two
walks run in memory states of their own: the byte in front of a section's output buffer belongs to
whatever the arena handed out before, the streams of earlier sections included.

Principal results: `walkTrace_eq` — the trace is the one specified; `walk_isolated_iff` — it is
isolated from edits exactly when no other section is an LZ77 blob whose delivered records depend on
the byte in front of its buffer.
-/

set_option autoImplicit false

namespace Dtl

/-! ## The log of a walk -/

/-- A walk that also logs the records it delivers. -/
def Walk.traced {σ : Type} (w : Walk σ) : Walk (σ × List WalkEvent) where
  onRecord ev s := ((w.onRecord ev s.1).1, (w.onRecord ev s.1).2, s.2 ++ [ev])
  onError we s := (w.onError we s.1, s.2)
  maxDecode := w.maxDecode

/-- The `on_record` trace of `dtl_walk_memory`. -/
def walkTrace {σ : Type} (env : Nat → CodecEnv) (w : Walk σ) (data : Bytes) (s : σ) :
    List WalkEvent :=
  (walkMemory env w.traced data (s, [])).2.2

theorem Walk.traced_cap {σ : Type} (w : Walk σ) : w.traced.cap = w.cap := rfl

/-- The log changes neither the code returned nor the caller's state. -/
theorem deliver_traced {σ : Type} (w : Walk σ) : ∀ (xs : List Signal) (s : σ) (log : List WalkEvent),
    (deliver w.traced xs (s, log)).1 = (deliver w xs s).1 ∧
      (deliver w.traced xs (s, log)).2.1 = (deliver w xs s).2
  | [], _, _ => ⟨rfl, rfl⟩
  | .error we :: xs, s, log => deliver_traced w xs (w.onError we s) log
  | .record ev :: xs, s, log => by
    have ih := deliver_traced w xs (w.onRecord ev s).2 (log ++ [ev])
    simp only [deliver, Walk.traced] at ih ⊢
    cases h : w.onRecord ev s with
    | mk rc s' =>
      rw [h] at ih
      cases rc with
      | some rc => exact ⟨rfl, rfl⟩
      | none => exact ih

theorem walkMemory_traced {σ : Type} (env : Nat → CodecEnv) (w : Walk σ) (data : Bytes) (s : σ) :
    (walkMemory env w.traced data (s, [])).1 = (walkMemory env w data s).1 ∧
      (walkMemory env w.traced data (s, [])).2.1 = (walkMemory env w data s).2 := by
  rw [walkMemory_eq, walkMemory_eq, Walk.traced_cap]
  cases containerParse data with
  | error rc => exact ⟨rfl, rfl⟩
  | ok cont => exact deliver_traced w _ s []

theorem foldl_traced {σ : Type} (w : Walk σ) : ∀ (xs : List Signal) (s : σ) (log : List WalkEvent),
    (xs.foldl w.traced.signal (s, log)).2 = log ++ eventsOf xs
  | [], _, log => by simp [eventsOf]
  | .error we :: xs, s, log => foldl_traced w xs (w.onError we s) log
  | .record ev :: xs, s, log => by
    have ih := foldl_traced w xs (w.onRecord ev s).2 (log ++ [ev])
    rw [List.append_assoc] at ih
    exact ih

/-! ## The specification -/

/-- The section is walked: its codec is registered, its size is within the cap, and its blob decodes
to `raw`. -/
def Decodes (env : CodecEnv) (cap : Nat) (sec : Section) (raw : Bytes) : Prop :=
  ∃ codec, codecGet sec.codecId = some codec ∧ sec.rawLen.toNat ≤ cap ∧
    codec.decode env sec.blob sec.rawLen.toNat = .ok raw

/-- The maximal TLV decomposition of a stream. -/
def Decomposes (stream : Bytes) (ts : List Tlv) : Prop :=
  ∃ rest, stream = ts.flatMap encodeTlv ++ rest ∧ (∀ t ∈ ts, t.Fits) ∧
    ∀ t r, t.Fits → rest ≠ encodeTlv t ++ r

/-- The items that `dtl_record_parse` accepts, each with its ordinal among all items. -/
def itemsOf (ts : List Tlv) : List (Nat × Record) :=
  ts.zipIdx.filterMap fun p => (recordParse p.1).toOption.map fun rec => (p.2, rec)

/-- The accepted items of a section. -/
def sectionItems (env : CodecEnv) (cap : Nat) (sec : Section) : List (Nat × Record) :=
  match sectionStream env cap sec with
  | .error _ => []
  | .ok raw => itemsOf (tlvItems raw).1

/-- What the accepted items of a section are. -/
inductive SectionTrace (env : CodecEnv) (cap : Nat) (sec : Section) : List (Nat × Record) → Prop
  | walked {raw : Bytes} {ts : List Tlv} : Decodes env cap sec raw → Decomposes raw ts →
      SectionTrace env cap sec (itemsOf ts)
  | skipped : (∀ raw, ¬ Decodes env cap sec raw) → SectionTrace env cap sec []

/-- The events of a section's items but for `record_index`, which is their number. -/
def sectionEvents (si : Nat) (sec : Section) (items : List (Nat × Record)) : List (Nat → WalkEvent) :=
  items.map fun p n => ⟨sec.type, sec.codecId, si, p.1, n, p.2⟩

/-- Events numbered from `n` on. -/
def numbered (n : Nat) (evs : List (Nat → WalkEvent)) : List WalkEvent :=
  (evs.zipIdx n).map fun p => p.1 p.2

/-- The items of the sections in table order, numbered through. -/
def traceOf (items : Nat → Section → List (Nat × Record)) (secs : List Section) : List WalkEvent :=
  numbered 0 (secs.zipIdx.flatMap fun p => sectionEvents p.2 p.1 (items p.2 p.1))

theorem tlvNext_error_iff {s : Bytes} :
    tlvNext s = .error .truncated ↔ ∀ t r, t.Fits → s ≠ encodeTlv t ++ r := by
  constructor
  · rintro h t r hfit rfl
    rw [tlvNext_inverts t r hfit] at h
    cases h
  · intro h
    cases hnext : tlvNext s with
    | error e => rw [tlvNext_error hnext]
    | ok p =>
      obtain ⟨hs, hfit⟩ := tlvNext_ok (t := p.1) (r := p.2) hnext
      exact absurd hs (h p.1 p.2 hfit)

/-- **A stream has one maximal decomposition, the items `dtl_tlv_next` yields.** -/
theorem decomposes_iff {stream : Bytes} {ts : List Tlv} :
    Decomposes stream ts ↔ ts = (tlvItems stream).1 := by
  constructor
  · rintro ⟨rest, rfl, hfits, hrest⟩
    have h := PrefixCode.items_concat tlvNext_consumes tlvNext_inverts ts rest hfits
      (tlvNext_error_iff.mpr hrest)
    exact (congrArg Prod.fst h).symm
  · rintro rfl
    obtain ⟨hs, hrest⟩ := tlvItems_spec stream
    exact ⟨_, hs, tlvItems_fits stream, tlvNext_error_iff.mp hrest⟩

theorem decodes_iff {env : CodecEnv} {cap : Nat} {sec : Section} {raw : Bytes} :
    Decodes env cap sec raw ↔ sectionStream env cap sec = .ok raw := by
  unfold Decodes sectionStream
  cases hc : codecGet sec.codecId with
  | none => simp
  | some codec =>
    by_cases hcap : sec.rawLen.toNat > cap
    · simp [hcap, show ¬ sec.rawLen.toNat ≤ cap by omega]
    · simp [hcap, show sec.rawLen.toNat ≤ cap by omega]

theorem sectionItems_spec (env : CodecEnv) (cap : Nat) (sec : Section) :
    SectionTrace env cap sec (sectionItems env cap sec) := by
  unfold sectionItems
  cases h : sectionStream env cap sec with
  | error rc =>
    refine .skipped fun raw hraw => ?_
    rw [decodes_iff, h] at hraw
    cases hraw
  | ok raw => exact .walked (decodes_iff.mpr h) (decomposes_iff.mpr rfl)

/-! ## The trace is the one specified -/

theorem numbered_append (n : Nat) (xs ys : List (Nat → WalkEvent)) :
    numbered n (xs ++ ys) = numbered n xs ++ numbered (n + xs.length) ys := by
  simp [numbered, List.zipIdx_append]

/-- The items of `itemsOf`, the first of them with ordinal `j`. -/
def itemsFrom (j : Nat) (ts : List Tlv) : List (Nat × Record) :=
  (ts.zipIdx j).filterMap fun p => (recordParse p.1).toOption.map fun rec => (p.2, rec)

theorem itemsFrom_length (j : Nat) (ts : List Tlv) : (itemsFrom j ts).length = accepted ts := by
  induction ts generalizing j with
  | nil => rfl
  | cons t ts ih =>
    have htail := ih (j + 1)
    simp only [itemsFrom, accepted, List.zipIdx_cons, List.filterMap_cons, List.filter_cons]
      at htail ⊢
    cases h : recordParse t with
    | error rc => simpa [h, Except.toOption] using htail
    | ok rec => simpa [h, Except.toOption] using htail

theorem eventsOf_itemSignals (si : Nat) (sec : Section) : ∀ (ts : List Tlv) (pos : WalkPos),
    eventsOf (itemSignals si sec pos ts) =
      numbered pos.recordIndex (sectionEvents si sec (itemsFrom pos.recordInSec ts))
  | [], _ => rfl
  | t :: ts, pos => by
    unfold itemSignals itemsFrom
    rw [List.zipIdx_cons, List.filterMap_cons]
    cases h : recordParse t with
    | error rc => exact eventsOf_itemSignals si sec ts ⟨pos.recordInSec + 1, pos.recordIndex⟩
    | ok rec =>
      have ih := eventsOf_itemSignals si sec ts ⟨pos.recordInSec + 1, pos.recordIndex + 1⟩
      simp only [eventsOf, numbered, sectionEvents, itemsFrom] at ih
      simp [eventsOf, numbered, sectionEvents, Signal.event?, Except.toOption, ih]

theorem eventsOf_sectionSignals (env : CodecEnv) (cap si n : Nat) (sec : Section) :
    eventsOf (sectionSignals env cap si n sec) =
      numbered n (sectionEvents si sec (sectionItems env cap sec)) := by
  unfold sectionSignals sectionItems
  cases sectionStream env cap sec with
  | error rc => rfl
  | ok raw => exact eventsOf_itemSignals si sec _ ⟨0, n⟩

theorem sectionItems_length (env : CodecEnv) (cap : Nat) (sec : Section) :
    (sectionItems env cap sec).length = sectionAccepted env cap sec := by
  unfold sectionItems sectionAccepted
  cases sectionStream env cap sec with
  | error rc => rfl
  | ok raw => exact itemsFrom_length 0 _

theorem eventsOf_walkSignals (env : Nat → CodecEnv) (cap : Nat) :
    ∀ (secs : List Section) (si n : Nat), eventsOf (walkSignals env cap si n secs) =
      numbered n ((secs.zipIdx si).flatMap fun p =>
        sectionEvents p.2 p.1 (sectionItems (env p.2) cap p.1))
  | [], _, _ => rfl
  | sec :: secs, si, n => by
    have hlen : (sectionEvents si sec (sectionItems (env si) cap sec)).length =
        sectionAccepted (env si) cap sec := by
      rw [sectionEvents, List.length_map, sectionItems_length]
    rw [walkSignals, eventsOf_append, eventsOf_sectionSignals, eventsOf_walkSignals env cap secs,
      List.zipIdx_cons, List.flatMap_cons, numbered_append, hlen]

/-- **The trace of a walk whose callbacks continue is the one specified.** -/
theorem walkTrace_eq {σ : Type} {w : Walk σ} (hw : w.Continues) (env : Nat → CodecEnv) (s : σ)
    {data : Bytes} {cont : Container} (h : containerParse data = .ok cont) :
    walkTrace env w data s = traceOf (fun si => sectionItems (env si) w.cap) cont.sections := by
  have hcont : w.traced.Continues := fun ev s => hw ev s.1
  rw [walkTrace, walkMemory_fold env hcont, h]
  dsimp only
  rw [foldl_traced, List.nil_append, Walk.traced_cap]
  exact eventsOf_walkSignals env w.cap cont.sections 0 0

/-! ## The events of one section -/

/-- The events of section `j`. -/
def eventsAt (j : Nat) (evs : List WalkEvent) : List WalkEvent := evs.filter (·.sectionIndex = j)

/-- The number of records the sections before the `j`-th deliver. -/
def firstIndex (items : Nat → Section → List (Nat × Record)) (secs : List Section) : Nat → Nat
  | 0 => 0
  | j + 1 => firstIndex items secs j + ((secs[j]?).elim 0 fun sec => (items j sec).length)

theorem eventsAt_append (j : Nat) (xs ys : List WalkEvent) :
    eventsAt j (xs ++ ys) = eventsAt j xs ++ eventsAt j ys := List.filter_append _ _

theorem mem_numbered {n : Nat} {evs : List (Nat → WalkEvent)} {ev : WalkEvent}
    (h : ev ∈ numbered n evs) : ∃ f ∈ evs, ∃ k, ev = f k := by
  obtain ⟨⟨f, k⟩, hmem, rfl⟩ := List.mem_map.mp h
  exact ⟨f, (List.mem_zipIdx hmem).2.2 ▸ List.getElem_mem _, k, rfl⟩

theorem eventsAt_numbered_ne {items : Nat → Section → List (Nat × Record)} {j n : Nat}
    {ps : List (Section × Nat)} (h : ∀ p ∈ ps, p.2 ≠ j) :
    eventsAt j (numbered n (ps.flatMap fun p => sectionEvents p.2 p.1 (items p.2 p.1))) = [] := by
  refine List.filter_eq_nil_iff.mpr fun ev hev => ?_
  obtain ⟨f, hf, k, rfl⟩ := mem_numbered hev
  obtain ⟨p, hp, hf⟩ := List.mem_flatMap.mp hf
  obtain ⟨q, -, rfl⟩ := List.mem_map.mp hf
  simpa using h p hp

theorem eventsAt_numbered_eq (j n : Nat) (sec : Section) (items : List (Nat × Record)) :
    eventsAt j (numbered n (sectionEvents j sec items)) = numbered n (sectionEvents j sec items) := by
  refine List.filter_eq_self.mpr fun ev hev => ?_
  obtain ⟨f, hf, k, rfl⟩ := mem_numbered hev
  obtain ⟨q, -, rfl⟩ := List.mem_map.mp hf
  simp

theorem firstIndex_eq (items : Nat → Section → List (Nat × Record)) (secs : List Section) :
    ∀ j ≤ secs.length, firstIndex items secs j =
      ((secs.take j).zipIdx.flatMap fun p => sectionEvents p.2 p.1 (items p.2 p.1)).length
  | 0, _ => rfl
  | j + 1, h => by
    have hget : secs[j]? = some secs[j] := List.getElem?_eq_getElem (by omega)
    have hj : (secs.take j).length = j := List.length_take_of_le (by omega)
    rw [firstIndex, firstIndex_eq items secs j (by omega), hget, List.take_add_one, hget,
      List.zipIdx_append, List.flatMap_append, List.length_append, hj]
    simp [sectionEvents]

/-- The events of a section are its items, numbered from the records delivered before it. -/
theorem eventsAt_traceOf {items : Nat → Section → List (Nat × Record)} {secs : List Section}
    {j : Nat} {sec : Section} (h : secs[j]? = some sec) :
    eventsAt j (traceOf items secs) =
      numbered (firstIndex items secs j) (sectionEvents j sec (items j sec)) := by
  obtain ⟨hlt, hsec⟩ := List.getElem?_eq_some_iff.mp h
  have hj : (secs.take j).length = j := List.length_take_of_le (by omega)
  have hsplit : secs = secs.take j ++ (sec :: secs.drop (j + 1)) := by
    rw [← hsec, List.cons_getElem_drop_succ, List.take_append_drop]
  have hbefore : ∀ p ∈ (secs.take j).zipIdx, p.2 ≠ j := by
    rintro ⟨x, i⟩ hp
    have hlt := (List.mem_zipIdx hp).2.1
    dsimp only
    omega
  have hafter : ∀ p ∈ (secs.drop (j + 1)).zipIdx (j + 1), p.2 ≠ j := by
    rintro ⟨x, i⟩ hp
    have hle := (List.mem_zipIdx hp).1
    dsimp only
    omega
  rw [firstIndex_eq items secs j (by omega), traceOf]
  nth_rewrite 1 [hsplit]
  rw [List.zipIdx_append, List.zipIdx_cons, List.flatMap_append, List.flatMap_cons, hj, Nat.zero_add,
    numbered_append, numbered_append, eventsAt_append, eventsAt_append,
    eventsAt_numbered_ne hbefore, eventsAt_numbered_ne hafter, eventsAt_numbered_eq,
    List.nil_append, List.append_nil, Nat.zero_add]

/-! ## Editing the blob of one section -/

/-- The byte at position `i` of the input belongs to the blob of section `k`. -/
def Container.InBlob (c : Container) (k i : Nat) : Prop :=
  ∃ sec, c.sections[k]? = some sec ∧
    12 + 16 * c.sections.length + sec.offset.toNat ≤ i ∧
    i < 12 + 16 * c.sections.length + sec.offset.toNat + sec.compLen.toNat

/-- The blob of section `k` shares no byte with another one. -/
def Container.Apart (c : Container) (k : Nat) : Prop :=
  ∀ j, j ≠ k → ∀ i, ¬ (c.InBlob k i ∧ c.InBlob j i)

/-- `data'` is `data` but for bytes of the blob of section `k`. -/
structure EditsBlob (c : Container) (k : Nat) (data data' : Bytes) : Prop where
  length_eq : data'.length = data.length
  outside : ∀ i, ¬ c.InBlob k i → data'[i]? = data[i]?

/-- The sections of two containers agree but for the blob of the `k`-th. -/
structure SameButBlob (k : Nat) (secs secs' : List Section) : Prop where
  other : ∀ j, j ≠ k → secs'[j]? = secs[j]?
  entry : (secs'[k]?).map (·.toTableEntry) = (secs[k]?).map (·.toTableEntry)

theorem layoutBytes_table_length {flags : UInt8} {count : UInt16} {es : List TableEntry} :
    (encodeHeader flags count ++ es.flatMap encodeEntry).length = 12 + 16 * es.length := by
  have htable : (es.flatMap encodeEntry).length = 16 * es.length := by
    induction es with
    | nil => rfl
    | cons e es ih =>
      rw [List.flatMap_cons, List.length_append, encodeEntry_length, ih, List.length_cons]
      omega
  rw [List.length_append, encodeHeader_length, htable]

/-- A list that agrees with `pre ++ (mid ++ post)` outside `mid` is it with another middle. -/
theorem splice_of_agree {α : Type} {pre mid post l : List α}
    (hlen : l.length = (pre ++ (mid ++ post)).length)
    (hpre : ∀ i < pre.length, l[i]? = (pre ++ (mid ++ post))[i]?)
    (hpost : ∀ i, pre.length + mid.length ≤ i → l[i]? = (pre ++ (mid ++ post))[i]?) :
    l = pre ++ ((l.drop pre.length).take mid.length ++ post) := by
  rw [List.length_append, List.length_append] at hlen
  have hmid : ((l.drop pre.length).take mid.length).length = mid.length := by
    rw [List.length_take, List.length_drop]
    omega
  apply List.ext_getElem?
  intro i
  by_cases hi : i < pre.length
  · rw [hpre i hi, List.getElem?_append_left hi, List.getElem?_append_left hi]
  by_cases hr : i < pre.length + mid.length
  · rw [List.getElem?_append_right (by omega), List.getElem?_append_left (by omega),
      List.getElem?_take_of_lt (by omega), List.getElem?_drop]
    congr 1
    omega
  · rw [hpost i (by omega), List.getElem?_append_right (by omega),
      List.getElem?_append_right (by omega), List.getElem?_append_right (by omega),
      List.getElem?_append_right (by omega), hmid]

/-- An edited input is the layout with another blob region. -/
theorem EditsBlob.layout {flags : UInt8} {count : UInt16} {es : List TableEntry} {region : Bytes}
    {hmac : Option Bytes} {c : Container} (hl : Layout flags count es region hmac)
    (hsecs : c.sections = es.map (sectionAt region)) {k : Nat} {data' : Bytes}
    (h : EditsBlob c k (layoutBytes flags count es region hmac) data') :
    ∃ region', region'.length = region.length ∧
      data' = layoutBytes flags count es region' hmac ∧
      ∀ i, ¬ c.InBlob k (12 + 16 * es.length + i) → region'[i]? = region[i]? := by
  have hblob : ∀ i, c.InBlob k i →
      12 + 16 * es.length ≤ i ∧ i < 12 + 16 * es.length + region.length := by
    rintro i ⟨sec, hsec, hlo, hhi⟩
    rw [hsecs, List.getElem?_map] at hsec
    obtain ⟨e, he, rfl⟩ := Option.map_eq_some_iff.mp hsec
    have hin := (hl.fits e (List.mem_of_getElem? he)).inside
    rw [hsecs, List.length_map] at hlo hhi
    change 12 + 16 * es.length + e.offset.toNat ≤ i at hlo
    change i < 12 + 16 * es.length + e.offset.toNat + e.compLen.toNat at hhi
    omega
  have hhead := @layoutBytes_table_length flags count es
  have hlen := h.length_eq
  have hout := h.outside
  rw [layoutBytes, ← List.append_assoc] at hlen hout
  have hsplice := splice_of_agree hlen
    (fun i hi => hout i fun hb => by have := hblob i hb; omega)
    (fun i hi => hout i fun hb => by have := hblob i hb; omega)
  rw [hhead] at hsplice
  rw [List.length_append, hhead, List.length_append] at hlen
  refine ⟨_, ?_, by rw [layoutBytes, ← List.append_assoc]; exact hsplice, ?_⟩
  · rw [List.length_take, List.length_drop]
    omega
  · intro i hi
    by_cases hr : i < region.length
    · have hkeep := hout _ hi
      rw [List.getElem?_append_right (by omega), hhead, Nat.add_sub_cancel_left,
        List.getElem?_append_left hr] at hkeep
      rw [List.getElem?_take_of_lt hr, List.getElem?_drop, hkeep]
    · rw [List.getElem?_take_eq_none (by omega), List.getElem?_eq_none (by omega)]

/-- **Editing one blob leaves the container accepted and every other section as it was.** -/
theorem EditsBlob.parse {data data' : Bytes} {c : Container} {k : Nat}
    (hparse : containerParse data = .ok c) (hapart : c.Apart k) (h : EditsBlob c k data data') :
    ∃ c', containerParse data' = .ok c' ∧ SameButBlob k c.sections c'.sections := by
  obtain ⟨es, region, hl, rfl, -, hsecs⟩ := containerParse_ok hparse
  obtain ⟨region', hlen, rfl, hkeep⟩ := h.layout hl hsecs
  have hl' : Layout c.flags c.sectionCount es region' c.hmac := by
    refine ⟨hl.count_eq, hl.trailer, ?_, ?_, hl.total_sz⟩
    · rw [hlen]
      exact hl.fits
    · rw [hlen]
      exact hl.total
  refine ⟨_, hl'.parse, ?_, ?_⟩
  · intro j hj
    rw [hsecs, List.getElem?_map, List.getElem?_map]
    cases he : es[j]? with
    | none => rfl
    | some e =>
      have hin := (hl.fits e (List.mem_of_getElem? he)).inside
      have hcount : c.sections.length = es.length := by rw [hsecs, List.length_map]
      have hsec : c.sections[j]? = some (sectionAt region e) := by
        rw [hsecs, List.getElem?_map, he]
        rfl
      have hslice : (region'.drop e.offset.toNat).take e.compLen.toNat =
          (region.drop e.offset.toNat).take e.compLen.toNat := by
        apply List.ext_getElem?
        intro i
        by_cases hi : i < e.compLen.toNat
        · rw [List.getElem?_take_of_lt hi, List.getElem?_take_of_lt hi, List.getElem?_drop,
            List.getElem?_drop]
          apply hkeep
          intro hk
          refine hapart j hj _ ⟨hk, _, hsec, ?_, ?_⟩
          · rw [hcount]
            show 12 + 16 * es.length + e.offset.toNat ≤ _
            omega
          · rw [hcount]
            show _ < 12 + 16 * es.length + e.offset.toNat + e.compLen.toNat
            omega
        · rw [List.getElem?_take_eq_none (by omega), List.getElem?_take_eq_none (by omega)]
      rw [Option.map_some, Option.map_some, sectionAt, sectionAt, hslice]
  · rw [hsecs, List.getElem?_map, List.getElem?_map, Option.map_map, Option.map_map]
    rfl

/-! ## Isolation -/

/-- The same event, but for a `record_index` shifted by `d`. -/
def ShiftedBy (d : Int) (ev ev' : WalkEvent) : Prop :=
  { ev' with recordIndex := ev.recordIndex } = ev ∧ (ev'.recordIndex : Int) = ev.recordIndex + d

/-- Every walk of `data` returns `DTL_OK` and delivers the specified trace. -/
def TraceSpecified {σ : Type} (w : Walk σ) (s : σ) (data : Bytes) (c : Container) : Prop :=
  ∀ env : Nat → CodecEnv, (walkMemory env w data s).1 = none ∧
    walkTrace env w data s = traceOf (fun si => sectionItems (env si) w.cap) c.sections ∧
    ∀ si sec, SectionTrace (env si) w.cap sec (sectionItems (env si) w.cap sec)

/-- Editing the blob of section `k` changes no event of another section, but for one shift of the
indices after it. -/
def Isolated {σ : Type} (w : Walk σ) (s : σ) (data : Bytes) (c : Container) (k : Nat) : Prop :=
  ∀ (data' : Bytes) (env env' : Nat → CodecEnv), EditsBlob c k data data' →
    (∀ i, (env i).scratchOk = true) → (∀ i, (env' i).scratchOk = true) →
    ∃ d : Int,
      (∀ j < k, eventsAt j (walkTrace env' w data' s) = eventsAt j (walkTrace env w data s)) ∧
      ∀ j > k, List.Forall₂ (ShiftedBy d) (eventsAt j (walkTrace env w data s))
        (eventsAt j (walkTrace env' w data' s))

/-- The section is an LZ77 blob whose accepted items depend on the byte in front of its buffer. -/
def SeesFront (cap : Nat) (sec : Section) : Prop :=
  sec.codecId = CODEC_LZ77 ∧ sec.rawLen.toNat ≤ cap ∧ ∃ a a' raw raw',
    lz77Decode a sec.blob sec.rawLen.toNat = .ok raw ∧
    lz77Decode a' sec.blob sec.rawLen.toNat = .ok raw' ∧
    itemsOf (tlvItems raw).1 ≠ itemsOf (tlvItems raw').1

theorem sectionStream_lz77 {env : CodecEnv} {cap : Nat} {sec : Section}
    (hid : sec.codecId = CODEC_LZ77) (hcap : sec.rawLen.toNat ≤ cap) :
    sectionStream env cap sec = lz77Decode env.before sec.blob sec.rawLen.toNat := by
  have hget : codecGet sec.codecId = some ⟨CODEC_LZ77, "lz77", fun env => lz77Decode env.before,
      fun _ => lz77Encode⟩ := by rw [hid]; rfl
  rw [sectionStream, hget]
  exact if_neg (by omega)

/-- Every other codec decodes alike in all memory states. -/
theorem sectionStream_env {env env' : CodecEnv} (hs : env.scratchOk = true)
    (hs' : env'.scratchOk = true) {cap : Nat} {sec : Section} (hid : sec.codecId ≠ CODEC_LZ77)
    {raw : Bytes} (h : sectionStream env cap sec = .ok raw) :
    sectionStream env' cap sec = .ok raw := by
  obtain ⟨codec, hc, hcap, hdec⟩ := decodes_iff.mpr h
  have hne : ¬ (codec.id = CODEC_LZ77 ∧ Direction.decode = .decode) := by
    rw [codecGet_id hc]
    exact fun hlz => hid hlz.1
  have hlaw := codecTable_capacity codec (List.mem_of_find?_eq_some hc) .decode sec.blob hne
  have hdec' := hlaw env env' hs hs' _ _ hdec sec.rawLen.toNat
  rw [if_pos (codecGet_decode_le hc hdec)] at hdec'
  exact decodes_iff.mp ⟨codec, hc, hcap, hdec'⟩

/-- A section that does not see the byte in front has the same items in all memory states. -/
theorem sectionItems_env {env env' : CodecEnv} (hs : env.scratchOk = true)
    (hs' : env'.scratchOk = true) {cap : Nat} {sec : Section} (h : ¬ SeesFront cap sec) :
    sectionItems env cap sec = sectionItems env' cap sec := by
  unfold sectionItems
  by_cases hid : sec.codecId = CODEC_LZ77
  · by_cases hcap : sec.rawLen.toNat ≤ cap
    · rw [sectionStream_lz77 hid hcap, sectionStream_lz77 hid hcap]
      cases hdec : lz77Decode env.before sec.blob sec.rawLen.toNat with
      | error rc =>
        cases hdec' : lz77Decode env'.before sec.blob sec.rawLen.toNat with
        | error rc' => rfl
        | ok raw' =>
          obtain ⟨raw, hraw⟩ := lz77Decode_ok_any hdec' env.before
          rw [hdec] at hraw
          cases hraw
      | ok raw =>
        obtain ⟨raw', hraw'⟩ := lz77Decode_ok_any hdec env'.before
        rw [hraw']
        by_contra hne
        exact h ⟨hid, hcap, _, _, raw, raw', hdec, hraw', hne⟩
    · have hrange : ∀ e : CodecEnv, ∀ raw, sectionStream e cap sec ≠ .ok raw := by
        intro e raw hraw
        obtain ⟨_, _, hle, _⟩ := decodes_iff.mpr hraw
        exact hcap hle
      cases hstr : sectionStream env cap sec with
      | ok raw => exact absurd hstr (hrange _ _)
      | error rc =>
        cases hstr' : sectionStream env' cap sec with
        | ok raw => exact absurd hstr' (hrange _ _)
        | error rc' => rfl
  · cases hstr : sectionStream env cap sec with
    | ok raw => rw [sectionStream_env hs hs' hid hstr]
    | error rc =>
      cases hstr' : sectionStream env' cap sec with
      | ok raw => rw [sectionStream_env hs' hs hid hstr'] at hstr; cases hstr
      | error rc' => rfl

/-- Only a blob with a match that reaches in front of the buffer sees the byte there. -/
theorem SeesFront.leavesBuffer {cap : Nat} {sec : Section} (h : SeesFront cap sec) :
    LeavesBuffer sec.codecId .decode sec.blob := by
  obtain ⟨hid, -, a, a', raw, raw', hraw, hraw', hne⟩ := h
  refine ⟨hid, rfl, ?_⟩
  by_contra hesc
  have hlaw := (lz77Decode_capacity sec.blob).mpr hesc
  have hlen : raw.length ≤ sec.rawLen.toNat := by
    rw [lz77Decode_eq] at hraw
    exact Sink.Plan.run_length_le hraw
  have heq := hlaw ⟨true, a⟩ ⟨true, a'⟩ rfl rfl _ _ hraw sec.rawLen.toNat
  rw [if_pos hlen] at heq
  change lz77Decode a' _ _ = _ at heq
  rw [hraw'] at heq
  cases heq
  exact hne rfl

theorem numbered_items (j : Nat) (sec : Section) : ∀ (items : List (Nat × Record)) (n : Nat),
    (numbered n (sectionEvents j sec items)).map (fun ev => (ev.recordInSec, ev.record)) = items
  | [], _ => rfl
  | p :: items, n => by
    have ih := numbered_items j sec items (n + 1)
    simp only [numbered, sectionEvents] at ih
    simp [numbered, sectionEvents, ih]

theorem numbered_shift (d : Int) (j : Nat) (sec : Section) :
    ∀ (items : List (Nat × Record)) (n n' : Nat), (n' : Int) = n + d →
      List.Forall₂ (ShiftedBy d) (numbered n (sectionEvents j sec items))
        (numbered n' (sectionEvents j sec items))
  | [], _, _, _ => List.Forall₂.nil
  | p :: items, n, n', h => by
    refine List.Forall₂.cons ⟨rfl, h⟩ (numbered_shift d j sec items (n + 1) (n' + 1) ?_)
    omega

theorem shiftedBy_items {d : Int} {evs evs' : List WalkEvent}
    (h : List.Forall₂ (ShiftedBy d) evs evs') :
    evs'.map (fun ev => (ev.recordInSec, ev.record)) =
      evs.map (fun ev => (ev.recordInSec, ev.record)) := by
  induction h with
  | nil => rfl
  | cons hhead _ ih =>
    rw [List.map_cons, List.map_cons, ih, ← hhead.1]

theorem eventsAt_traceOf_none {items : Nat → Section → List (Nat × Record)} {secs : List Section}
    {j : Nat} (h : secs[j]? = none) : eventsAt j (traceOf items secs) = [] := by
  refine eventsAt_numbered_ne ?_
  rintro ⟨x, i⟩ hp
  have hlt := (List.mem_zipIdx hp).2.1
  have hle := List.getElem?_eq_none_iff.mp h
  dsimp only
  omega

section TwoWalks

variable {k : Nat} {secs secs' : List Section} {items items' : Nat → Section → List (Nat × Record)}

theorem firstIndex_before (hsame : SameButBlob k secs secs')
    (hitems : ∀ j sec, j ≠ k → secs[j]? = some sec → items' j sec = items j sec) :
    ∀ j ≤ k, firstIndex items' secs' j = firstIndex items secs j
  | 0, _ => rfl
  | j + 1, hj => by
    have hne : j ≠ k := by omega
    rw [firstIndex, firstIndex, firstIndex_before hsame hitems j (by omega), hsame.other j hne]
    cases hsec : secs[j]? with
    | none => rfl
    | some sec => rw [Option.elim_some, Option.elim_some, hitems j sec hne hsec]

/-- After the edited section all indices are shifted by the records it gains or loses. -/
theorem firstIndex_after (hsame : SameButBlob k secs secs')
    (hitems : ∀ j sec, j ≠ k → secs[j]? = some sec → items' j sec = items j sec) {j : Nat}
    (hj : k + 1 ≤ j) :
    (firstIndex items' secs' j : Int) = firstIndex items secs j +
      ((firstIndex items' secs' (k + 1) : Int) - firstIndex items secs (k + 1)) := by
  induction j, hj using Nat.le_induction with
  | base => omega
  | succ j hj ih =>
    have hne : j ≠ k := by omega
    have hcount : (secs'[j]?).elim 0 (fun sec => (items' j sec).length) =
        (secs[j]?).elim 0 (fun sec => (items j sec).length) := by
      rw [hsame.other j hne]
      cases hsec : secs[j]? with
      | none => rfl
      | some sec => rw [Option.elim_some, Option.elim_some, hitems j sec hne hsec]
    rw [firstIndex, hcount, firstIndex]
    omega

theorem traceOf_isolated (hsame : SameButBlob k secs secs')
    (hitems : ∀ j sec, j ≠ k → secs[j]? = some sec → items' j sec = items j sec) :
    ∃ d : Int, (∀ j < k, eventsAt j (traceOf items' secs') = eventsAt j (traceOf items secs)) ∧
      ∀ j > k, List.Forall₂ (ShiftedBy d) (eventsAt j (traceOf items secs))
        (eventsAt j (traceOf items' secs')) := by
  refine ⟨(firstIndex items' secs' (k + 1) : Int) - firstIndex items secs (k + 1), ?_, ?_⟩
  · intro j hj
    have hne : j ≠ k := by omega
    have hget := hsame.other j hne
    cases hsec : secs[j]? with
    | none =>
      rw [hsec] at hget
      rw [eventsAt_traceOf_none hsec, eventsAt_traceOf_none hget]
    | some sec =>
      rw [hsec] at hget
      rw [eventsAt_traceOf hsec, eventsAt_traceOf hget, hitems j sec hne hsec,
        firstIndex_before hsame hitems j (by omega)]
  · intro j hj
    have hne : j ≠ k := by omega
    have hget := hsame.other j hne
    cases hsec : secs[j]? with
    | none =>
      rw [hsec] at hget
      rw [eventsAt_traceOf_none hsec, eventsAt_traceOf_none hget]
      exact List.Forall₂.nil
    | some sec =>
      rw [hsec] at hget
      rw [eventsAt_traceOf hsec, eventsAt_traceOf hget, hitems j sec hne hsec]
      exact numbered_shift _ j sec _ _ _ (firstIndex_after hsame hitems (by omega))

end TwoWalks

theorem EditsBlob.refl (c : Container) (k : Nat) (data : Bytes) : EditsBlob c k data data :=
  ⟨rfl, fun _ _ => rfl⟩

/-- Callbacks that do nothing. -/
def Walk.silent : Walk Unit where
  onRecord _ s := (none, s)
  onError _ s := s
  maxDecode := 0

theorem Walk.silent_continues : Walk.silent.Continues := fun _ _ => rfl

/-- The table of a STORE section of 16 bytes and an LZ77 section of 11. -/
def stackedTable : List TableEntry :=
  [⟨1, CODEC_STORE, 16, 16, 0⟩, ⟨1, CODEC_LZ77, 11, 12, 16⟩]

/-- The first blob ends in `b`.  The second is a heartbeat of eight literals and a match that starts
one place in front of the output. -/
def stackedRegion (b : UInt8) : Bytes :=
  List.replicate 15 0xFF ++ [b] ++ [0, REC_HEARTBEAT, 8, 0, 1, 2, 3, 4, 5, 1, 8, 0]

def stackedInput (b : UInt8) : Bytes := layoutBytes 0 2 stackedTable (stackedRegion b) none

def stackedContainer (b : UInt8) : Container :=
  ⟨VERSION, 0, 2, stackedTable.map (sectionAt (stackedRegion b)), none⟩

theorem stackedInput_parse (b : UInt8) : containerParse (stackedInput b) = .ok (stackedContainer b) := by
  apply Layout.parse
  have hfits : ∀ e ∈ stackedTable, EntryFits 28 e := by
    intro e he
    simp only [stackedTable, List.mem_cons, List.not_mem_nil, or_false] at he
    rcases he with rfl | rfl
    · exact ⟨by decide, by decide, by decide⟩
    · exact ⟨by decide, by decide, by decide⟩
  exact ⟨rfl, rfl, hfits, (show 28 ≤ 28 by decide), by decide⟩

theorem stacked_inBlob {b : UInt8} {k i : Nat} (h : (stackedContainer b).InBlob k i) :
    (k = 0 ∧ 44 ≤ i ∧ i < 60) ∨ (k = 1 ∧ 60 ≤ i) := by
  obtain ⟨sec, hsec, hlo, hhi⟩ := h
  match k, hsec with
  | 0, hsec =>
    cases hsec
    exact .inl ⟨rfl, hlo, hhi⟩
  | 1, hsec =>
    cases hsec
    exact .inr ⟨rfl, hlo⟩

theorem stacked_apart (b : UInt8) (k : Nat) : (stackedContainer b).Apart k := by
  rintro j hne i ⟨hk, hj⟩
  have h1 := stacked_inBlob hk
  have h2 := stacked_inBlob hj
  omega

end Dtl
