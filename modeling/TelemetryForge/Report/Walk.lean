import TelemetryForge.Codec.Registry
import TelemetryForge.Format.Container
import TelemetryForge.Records.Parse

/-!
# The walk

Model of `dtl_walk_memory`.  A `Walk` is the caller's pair of callbacks over a state `σ` (the `user`
pointer) and the decode cap; `walkMemory` is the nested loop of the source, with allocations that
succeed and one codec environment for each section.

`walkSignals` is what a walk tells its callbacks, as a list: for each section an error, or the
outcome of parsing each item of its stream.  `deliver` hands such a list to callbacks, up to the first
abort.

Principal results: `walkMemory_eq` — a walk is the delivery of the signals of its container; with
callbacks that never abort it is a fold (`walkMemory_fold`).
-/

set_option autoImplicit false

namespace Dtl

/-- `DTL_WALK_DEFAULT_MAX_DECODE`: 16 MiB. -/
def WALK_DEFAULT_MAX_DECODE : Nat := 16 * 1024 * 1024

/-- `dtl_walk_event`. -/
structure WalkEvent where
  sectionType : UInt16
  codecId : UInt8
  sectionIndex : Nat
  recordInSec : Nat
  recordIndex : Nat
  record : Record

/-- `dtl_walk_error`. -/
structure WalkError where
  sectionIndex : Nat
  recordInSec : Nat
  rc : Err
  fatal : Bool

/-- `dtl_walk`: callbacks on the caller's state; `onRecord` returns `none` to continue. -/
structure Walk (σ : Type) where
  onRecord : WalkEvent → σ → Option Err × σ
  onError : WalkError → σ → σ
  maxDecode : Nat

/-- The decode cap in force: 0 selects the default. -/
def Walk.cap {σ : Type} (w : Walk σ) : Nat :=
  if w.maxDecode ≠ 0 then w.maxDecode else WALK_DEFAULT_MAX_DECODE

/-- Where a section's record loop stands. -/
structure WalkPos where
  recordInSec : Nat
  recordIndex : Nat

/-- The record loop of a section: the abort code, the position and the caller's state. -/
def walkStream {σ : Type} (w : Walk σ) (si : Nat) (sec : Section) (stream : Bytes) (pos : WalkPos)
    (s : σ) : Option Err × WalkPos × σ :=
  match _h : tlvNext stream with
  | .error rc =>
    if rc ≠ .truncated then (none, pos, w.onError ⟨si, pos.recordInSec, rc, true⟩ s)
    else (none, pos, s)
  | .ok (tlv, stream') =>
    match recordParse tlv with
    | .error rc =>
      walkStream w si sec stream' ⟨pos.recordInSec + 1, pos.recordIndex⟩
        (w.onError ⟨si, pos.recordInSec, rc, false⟩ s)
    | .ok rec =>
      match w.onRecord ⟨sec.type, sec.codecId, si, pos.recordInSec, pos.recordIndex, rec⟩ s with
      | (some rc, s) => (some rc, pos, s)
      | (none, s) => walkStream w si sec stream' ⟨pos.recordInSec + 1, pos.recordIndex + 1⟩ s
termination_by stream.length
decreasing_by all_goals exact tlvNext_consumes _ _ _ _h

section Unfold

variable {σ : Type} {w : Walk σ} {si : Nat} {sec : Section} {stream : Bytes} {pos : WalkPos} {s : σ}

theorem walkStream_end {rc : Err} (h : tlvNext stream = .error rc) :
    walkStream w si sec stream pos s = (none, pos, s) := by
  have hrc := tlvNext_error h
  subst hrc
  rw [walkStream]
  split
  · rename_i rc h'
    cases h.symm.trans h'
    rfl
  · rename_i h'
    cases h.symm.trans h'

theorem walkStream_item {tlv : Tlv} {stream' : Bytes} (h : tlvNext stream = .ok (tlv, stream')) :
    walkStream w si sec stream pos s =
      match recordParse tlv with
      | .error rc =>
        walkStream w si sec stream' ⟨pos.recordInSec + 1, pos.recordIndex⟩
          (w.onError ⟨si, pos.recordInSec, rc, false⟩ s)
      | .ok rec =>
        match w.onRecord ⟨sec.type, sec.codecId, si, pos.recordInSec, pos.recordIndex, rec⟩ s with
        | (some rc, s) => (some rc, pos, s)
        | (none, s) => walkStream w si sec stream' ⟨pos.recordInSec + 1, pos.recordIndex + 1⟩ s := by
  rw [walkStream]
  split
  · rename_i h'
    cases h.symm.trans h'
  · rename_i tlv' stream'' h'
    cases h.symm.trans h'
    rfl

end Unfold

/-- The decoded stream of a section, or the code reported for it. -/
def sectionStream (env : CodecEnv) (cap : Nat) (sec : Section) : Res Bytes :=
  match codecGet sec.codecId with
  | none => .error .badRecord
  | some codec =>
    if sec.rawLen.toNat > cap then .error .range
    else codec.decode env sec.blob sec.rawLen.toNat

/-- The section loop. -/
def walkSections {σ : Type} (env : Nat → CodecEnv) (w : Walk σ) :
    Nat → Nat → List Section → σ → Option Err × σ
  | _, _, [], s => (none, s)
  | si, recordIndex, sec :: secs, s =>
    match sectionStream (env si) w.cap sec with
    | .error rc => walkSections env w (si + 1) recordIndex secs (w.onError ⟨si, 0, rc, true⟩ s)
    | .ok raw =>
      match walkStream w si sec raw ⟨0, recordIndex⟩ s with
      | (some rc, _, s) => (some rc, s)
      | (none, pos, s) => walkSections env w (si + 1) pos.recordIndex secs s

/-- `dtl_walk_memory`: the code returned and the caller's state afterwards. -/
def walkMemory {σ : Type} (env : Nat → CodecEnv) (w : Walk σ) (data : Bytes) (s : σ) :
    Option Err × σ :=
  match containerParse data with
  | .error rc => (some rc, s)
  | .ok cont => walkSections env w 0 0 cont.sections s

/-- `dtl_walk_tag_name`. -/
def walkTagName (tag : UInt8) : String :=
  if tag = REC_HEARTBEAT then "HEARTBEAT"
  else if tag = REC_SENSOR then "SENSOR"
  else if tag = REC_EVENT then "EVENT"
  else if tag = REC_DIAG then "DIAG"
  else if tag = REC_GEO then "GEO"
  else if tag = REC_BATTERY then "BATTERY"
  else if tag = REC_NET then "NET"
  else if tag = REC_LOG then "LOG"
  else if tag = REC_CONFIG then "CONFIG"
  else if tag = REC_KEYREF then "KEYREF"
  else if tag = REC_FIRMWARE then "FIRMWARE"
  else "UNKNOWN"

/-- The names `dtl_walk_tag_name` returns. -/
def walkTagNames : List String :=
  ["HEARTBEAT", "SENSOR", "EVENT", "DIAG", "GEO", "BATTERY", "NET", "LOG", "CONFIG", "KEYREF",
    "FIRMWARE", "UNKNOWN"]

theorem walkTagName_mem (tag : UInt8) : walkTagName tag ∈ walkTagNames := by
  unfold walkTagName
  iterate 11 refine iteInduction (motive := (· ∈ walkTagNames)) (fun _ => by decide) fun _ => ?_
  decide

/-- What holds of the characters of all names holds of those of any one. -/
theorem walkTagName_all {p : UInt8 → Bool} (h : walkTagNames.all fun name => (ascii name).all p)
    (tag : UInt8) : ∀ c ∈ ascii (walkTagName tag), p c = true :=
  List.all_eq_true.mp (List.all_eq_true.mp h _ (walkTagName_mem tag))

/-! ## Signals -/

/-- One callback invocation. -/
inductive Signal where
  | record (ev : WalkEvent)
  | error (we : WalkError)

/-- The signals of the items of a stream, from a position on. -/
def itemSignals (si : Nat) (sec : Section) : WalkPos → List Tlv → List Signal
  | _, [] => []
  | pos, t :: ts =>
    match recordParse t with
    | .error rc => .error ⟨si, pos.recordInSec, rc, false⟩ ::
        itemSignals si sec ⟨pos.recordInSec + 1, pos.recordIndex⟩ ts
    | .ok rec => .record ⟨sec.type, sec.codecId, si, pos.recordInSec, pos.recordIndex, rec⟩ ::
        itemSignals si sec ⟨pos.recordInSec + 1, pos.recordIndex + 1⟩ ts

/-- The number of records a list of items delivers. -/
def accepted (ts : List Tlv) : Nat := (ts.filter fun t => (recordParse t).toOption.isSome).length

/-- The signals of a section that starts at record `recordIndex`. -/
def sectionSignals (env : CodecEnv) (cap si recordIndex : Nat) (sec : Section) : List Signal :=
  match sectionStream env cap sec with
  | .error rc => [.error ⟨si, 0, rc, true⟩]
  | .ok raw => itemSignals si sec ⟨0, recordIndex⟩ (tlvItems raw).1

/-- The records a section delivers. -/
def sectionAccepted (env : CodecEnv) (cap : Nat) (sec : Section) : Nat :=
  match sectionStream env cap sec with
  | .error _ => 0
  | .ok raw => accepted (tlvItems raw).1

/-- The signals of the sections from number `si` on. -/
def walkSignals (env : Nat → CodecEnv) (cap : Nat) : Nat → Nat → List Section → List Signal
  | _, _, [] => []
  | si, recordIndex, sec :: secs =>
    sectionSignals (env si) cap si recordIndex sec ++
      walkSignals env cap (si + 1) (recordIndex + sectionAccepted (env si) cap sec) secs

/-- Hand signals to the callbacks, up to the first abort. -/
def deliver {σ : Type} (w : Walk σ) : List Signal → σ → Option Err × σ
  | [], s => (none, s)
  | .error we :: rest, s => deliver w rest (w.onError we s)
  | .record ev :: rest, s =>
    match w.onRecord ev s with
    | (some rc, s) => (some rc, s)
    | (none, s) => deliver w rest s

theorem deliver_append {σ : Type} (w : Walk σ) : ∀ (xs ys : List Signal) (s : σ),
    deliver w (xs ++ ys) s =
      match deliver w xs s with
      | (some rc, s) => (some rc, s)
      | (none, s) => deliver w ys s
  | [], _, _ => rfl
  | .error we :: xs, ys, s => deliver_append w xs ys (w.onError we s)
  | .record ev :: xs, ys, s => by
    rw [List.cons_append, deliver, deliver]
    cases h : w.onRecord ev s with
    | mk rc s' =>
      cases rc with
      | some rc => rfl
      | none => exact deliver_append w xs ys s'

/-- The record loop delivers the signals of the stream's items, and counts the accepted ones. -/
theorem walkStream_eq {σ : Type} (w : Walk σ) (si : Nat) (sec : Section) (stream : Bytes)
    (pos : WalkPos) (s : σ) :
    (walkStream w si sec stream pos s).1 =
        (deliver w (itemSignals si sec pos (tlvItems stream).1) s).1 ∧
      (walkStream w si sec stream pos s).2.2 =
        (deliver w (itemSignals si sec pos (tlvItems stream).1) s).2 ∧
      ((walkStream w si sec stream pos s).1 = none →
        (walkStream w si sec stream pos s).2.1.recordIndex =
          pos.recordIndex + accepted (tlvItems stream).1) := by
  induction hn : stream.length using Nat.strongRecOn generalizing stream pos s with
  | ind n ih =>
    cases hnext : tlvNext stream with
    | error rc =>
      rw [walkStream_end hnext, tlvItems_of_error hnext]
      simp [itemSignals, deliver, accepted]
    | ok p =>
      obtain ⟨tlv, stream'⟩ := p
      have hlt : stream'.length < n := hn ▸ tlvNext_consumes _ _ _ hnext
      rw [walkStream_item hnext]
      rw [tlvItems_of_ok hnext]
      cases hparse : recordParse tlv with
      | error rc =>
        obtain ⟨h1, h2, h3⟩ := ih _ hlt stream' ⟨pos.recordInSec + 1, pos.recordIndex⟩
          (w.onError ⟨si, pos.recordInSec, rc, false⟩ s) rfl
        simp only [itemSignals, hparse, deliver]
        refine ⟨h1, h2, fun hok => ?_⟩
        rw [h3 hok]
        simp [accepted, hparse, Except.toOption]
      | ok rec =>
        dsimp only
        simp only [itemSignals, hparse, deliver]
        cases hcb : w.onRecord
            ⟨sec.type, sec.codecId, si, pos.recordInSec, pos.recordIndex, rec⟩ s with
        | mk rc s' =>
          cases rc with
          | some rc => simp
          | none =>
            obtain ⟨h1, h2, h3⟩ := ih _ hlt stream' ⟨pos.recordInSec + 1, pos.recordIndex + 1⟩ s' rfl
            refine ⟨h1, h2, fun hok => ?_⟩
            rw [h3 hok]
            simp only [accepted, List.filter_cons, hparse, Except.toOption, Option.isSome_some, if_true,
              List.length_cons]
            omega

theorem walkSections_eq {σ : Type} (env : Nat → CodecEnv) (w : Walk σ) :
    ∀ (secs : List Section) (si recordIndex : Nat) (s : σ),
      walkSections env w si recordIndex secs s =
        deliver w (walkSignals env w.cap si recordIndex secs) s
  | [], _, _, _ => rfl
  | sec :: secs, si, recordIndex, s => by
    rw [walkSections, walkSignals, deliver_append, sectionSignals, sectionAccepted]
    cases hs : sectionStream (env si) w.cap sec with
    | error rc => exact walkSections_eq env w secs (si + 1) recordIndex _
    | ok raw =>
      obtain ⟨h1, h2, h3⟩ := walkStream_eq w si sec raw ⟨0, recordIndex⟩ s
      dsimp only
      cases hd : deliver w (itemSignals si sec ⟨0, recordIndex⟩ (tlvItems raw).1) s with
      | mk rc s' =>
        cases hw : walkStream w si sec raw ⟨0, recordIndex⟩ s with
        | mk rc' p =>
          rw [hw, hd] at h1 h2
          rw [hw] at h3
          dsimp only at h1 h2 h3
          subst h1 h2
          cases rc' with
          | some rc => rfl
          | none =>
            dsimp only
            rw [walkSections_eq env w secs, h3 rfl]

/-- **A walk delivers the signals of its container.** -/
theorem walkMemory_eq {σ : Type} (env : Nat → CodecEnv) (w : Walk σ) (data : Bytes) (s : σ) :
    walkMemory env w data s =
      match containerParse data with
      | .error rc => (some rc, s)
      | .ok cont => deliver w (walkSignals env w.cap 0 0 cont.sections) s := by
  unfold walkMemory
  cases containerParse data with
  | error rc => rfl
  | ok cont => exact walkSections_eq env w cont.sections 0 0 s

/-- Callbacks that never abort. -/
def Walk.Continues {σ : Type} (w : Walk σ) : Prop := ∀ ev s, (w.onRecord ev s).1 = none

/-- The caller's state after one signal. -/
def Walk.signal {σ : Type} (w : Walk σ) (s : σ) : Signal → σ
  | .record ev => (w.onRecord ev s).2
  | .error we => w.onError we s

theorem deliver_fold {σ : Type} {w : Walk σ} (h : w.Continues) : ∀ (xs : List Signal) (s : σ),
    deliver w xs s = (none, xs.foldl w.signal s)
  | [], _ => rfl
  | .error we :: xs, s => deliver_fold h xs (w.onError we s)
  | .record ev :: xs, s => by
    have hcb : w.onRecord ev s = (none, (w.onRecord ev s).2) := Prod.ext (h ev s) rfl
    rw [deliver, hcb]
    exact deliver_fold h xs _

/-- **A walk whose callbacks never abort is a fold over its signals.** -/
theorem walkMemory_fold {σ : Type} (env : Nat → CodecEnv) {w : Walk σ} (h : w.Continues)
    (data : Bytes) (s : σ) :
    walkMemory env w data s =
      match containerParse data with
      | .error rc => (some rc, s)
      | .ok cont => (none, (walkSignals env w.cap 0 0 cont.sections).foldl w.signal s) := by
  rw [walkMemory_eq]
  cases containerParse data with
  | error rc => rfl
  | ok cont => exact deliver_fold h _ s

/-! ## Records of a trace -/

/-- The records delivered. -/
def Signal.event? : Signal → Option WalkEvent
  | record ev => some ev
  | error _ => none

/-- The `on_record` events of a list of signals. -/
def eventsOf (signals : List Signal) : List WalkEvent := signals.filterMap Signal.event?

theorem eventsOf_append (xs ys : List Signal) : eventsOf (xs ++ ys) = eventsOf xs ++ eventsOf ys :=
  List.filterMap_append

/-- What holds at first and is preserved by every callback that does not abort holds of the events
delivered by a walk that ends. -/
theorem deliver_events {σ : Type} {w : Walk σ} {P : List WalkEvent → σ → Prop}
    (herror : ∀ evs we s, P evs s → P evs (w.onError we s))
    (hrecord : ∀ evs ev s s', P evs s → w.onRecord ev s = (none, s') → P (evs ++ [ev]) s') :
    ∀ (xs : List Signal) (evs : List WalkEvent) {s s' : σ}, P evs s → deliver w xs s = (none, s') →
      P (evs ++ eventsOf xs) s'
  | [], evs, _, _, h, hd => by
    cases hd
    rwa [eventsOf, List.filterMap_nil, List.append_nil]
  | .error we :: xs, evs, s, _, h, hd =>
    deliver_events herror hrecord xs evs (herror evs we s h) hd
  | .record ev :: xs, evs, s, s', h, hd => by
    rw [deliver] at hd
    cases hstep : w.onRecord ev s with
    | mk rc s₁ =>
      rw [hstep] at hd
      cases rc with
      | some rc => cases hd
      | none =>
        have hrest := deliver_events herror hrecord xs (evs ++ [ev]) (hrecord evs ev s s₁ h hstep) hd
        rw [List.append_assoc] at hrest
        exact hrest

/-- The record a list of items delivers, in order. -/
def parsedRecords (ts : List Tlv) : List Record := ts.filterMap fun t => (recordParse t).toOption

/-- A delivered record that satisfies `P`; a reported error satisfies nothing. -/
def Signal.Good (P : Record → Prop) : Signal → Prop
  | record ev => P ev.record
  | error _ => False

theorem itemSignals_good {P : Record → Prop} (si : Nat) (sec : Section) :
    ∀ (ts : List Tlv) (pos : WalkPos),
      (∀ x ∈ itemSignals si sec pos ts, x.Good P) ↔
        ∀ t ∈ ts, ∃ rec, recordParse t = .ok rec ∧ P rec
  | [], _ => by simp [itemSignals]
  | t :: ts, pos => by
    unfold itemSignals
    cases h : recordParse t with
    | error rc => simp [Signal.Good, h]
    | ok rec =>
      rw [List.forall_mem_cons, List.forall_mem_cons, itemSignals_good si sec ts]
      simp [Signal.Good, h]

/-- What holds of the elements of a list, numbered from `n` on. -/
theorem forall_getElem?_cons {α : Type} {P : Nat → α → Prop} {n : Nat} {x : α} {xs : List α} :
    (∀ i y, (x :: xs)[i]? = some y → P (n + i) y) ↔
      P n x ∧ ∀ i y, xs[i]? = some y → P (n + 1 + i) y := by
  constructor
  · intro h
    refine ⟨h 0 x rfl, ?_⟩
    intro i y hy
    have := h (i + 1) y hy
    rwa [Nat.add_assoc, Nat.add_comm 1 i]
  · rintro ⟨h0, hs⟩ i y hy
    cases i with
    | zero =>
      cases hy
      exact h0
    | succ i =>
      have := hs i y hy
      rwa [Nat.add_assoc, Nat.add_comm 1 i] at this

/-- Every signal of a walk is a delivery of a record satisfying `P` exactly when every section
decodes and every item of its stream parses to such a record. -/
theorem walkSignals_good {P : Record → Prop} (env : Nat → CodecEnv) (cap : Nat) :
    ∀ (secs : List Section) (si recordIndex : Nat),
      (∀ x ∈ walkSignals env cap si recordIndex secs, x.Good P) ↔
        ∀ i sec, secs[i]? = some sec → ∃ raw, sectionStream (env (si + i)) cap sec = .ok raw ∧
          ∀ t ∈ (tlvItems raw).1, ∃ rec, recordParse t = .ok rec ∧ P rec
  | [], _, _ => by simp [walkSignals]
  | sec :: secs, si, recordIndex => by
    have hhead : (∀ x ∈ sectionSignals (env si) cap si recordIndex sec, x.Good P) ↔
        ∃ raw, sectionStream (env si) cap sec = .ok raw ∧
          ∀ t ∈ (tlvItems raw).1, ∃ rec, recordParse t = .ok rec ∧ P rec := by
      unfold sectionSignals
      cases h : sectionStream (env si) cap sec with
      | error rc => simp [Signal.Good]
      | ok raw => simp [itemSignals_good]
    have htail := walkSignals_good (P := P) env cap secs (si + 1)
      (recordIndex + sectionAccepted (env si) cap sec)
    rw [forall_getElem?_cons (P := fun j sec => ∃ raw, sectionStream (env j) cap sec = .ok raw ∧
      ∀ t ∈ (tlvItems raw).1, ∃ rec, recordParse t = .ok rec ∧ P rec), ← hhead, ← htail]
    simp only [walkSignals, List.mem_append, or_imp, forall_and]

end Dtl
