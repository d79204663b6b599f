import TelemetryForge.Report.PoolRun

/-!
# What a walk keeps alive

When the records handed to a callback stay valid for the rest of the walk.  Each step of a walk is
summed up by its `PoolUse`; the run over flags splits into one small machine for each pool
(`spares_split`), and each machine is characterised on its own.

Principal result: `walk_retains` — the handles of all delivered records are live at every point of a
walk if and only if the items it reaches satisfy `Retainable`.
-/

set_option autoImplicit false

namespace Dtl

/-! ## What a step uses -/

/-- What an item, or a section's end, does to the pools. -/
inductive PoolUse where
  | idle
  /-- a `SENSOR` record with samples -/
  | samples
  /-- a `DIAG` record with a blob of `n` bytes -/
  | blob (n : Nat)
  /-- a `CONFIG` item that reads `count` strings -/
  | strings (delivered : Bool) (count : Nat)
  /-- a `KEYREF` item whose label goes to the ring -/
  | label (delivered : Bool)
  /-- an `EVENT` record with a payload -/
  | payload
  /-- the end of a decoded section -/
  | boundary
  deriving DecidableEq

def itemUse (tlv : Tlv) : PoolUse :=
  if tlv.tag = REC_CONFIG then
    .strings (recordParse tlv).toOption.isSome (configCalls tlv.val).length
  else if tlv.tag = REC_KEYREF then
    match tlv.val with
    | _ :: labelLen :: _ =>
      if labelLen.toNat + 1 > KEYREF_RING_MAX then .idle
      else .label (recordParse tlv).toOption.isSome
    | _ => .idle
  else
    match recordParse tlv with
    | .ok (.sensor r) => if r.count ≠ 0 then .samples else .idle
    | .ok (.event r) => if r.payloadLen ≠ 0 then .payload else .idle
    | .ok (.diag r) => if r.blobLen ≠ 0 then .blob r.blobLen.toNat else .idle
    | _ => .idle

def PoolStep.use : PoolStep → PoolUse
  | parse tlv => itemUse tlv
  | sectionEnd => .boundary

/-- The calls and the outcome that go with a use. -/
inductive Uses : List PoolOp → Bool → PoolUse → Prop
  | idle (b : Bool) : Uses [] b .idle
  | arena (n : UInt8) (b : Bool) : n.toNat + 1 > KEYREF_RING_MAX →
      Uses [.keyrefLabelAlloc n] b .idle
  | samples (n : UInt8) : Uses [.sensorSamplesAlloc n] true .samples
  | blob (n : UInt16) : Uses [.diagBlobAlloc n] true (.blob n.toNat)
  | strings (b : Bool) (strs : List PoolOp) : (∀ op ∈ strs, ∃ n, op = .configStrPool n) →
      Uses (.configPoolRecycle :: strs) b (.strings b strs.length)
  | label (n : UInt8) (b : Bool) : ¬ n.toNat + 1 > KEYREF_RING_MAX →
      Uses [.keyrefLabelAlloc n] b (.label b)
  | payload (n : UInt16) : Uses [.eventPoolTake n] true .payload
  | boundary : Uses [.eventPoolRelease] false .boundary

theorem configStrCalls_mem : ∀ (n : Nat) (b : Bytes), ∀ op ∈ configStrCalls n b,
    ∃ slen, op = .configStrPool slen
  | 0, _, op, h => by cases h
  | n + 1, [], op, h => by cases h
  | n + 1, slen :: b, op, h => by
    simp only [configStrCalls, bufReadU8_cons] at h
    rcases List.mem_cons.mp h with rfl | h
    · exact ⟨slen, rfl⟩
    · cases hr : bufReadBytes slen.toNat b with
      | error e =>
        rw [hr] at h
        cases h
      | ok p =>
        rw [hr] at h
        exact configStrCalls_mem n p.2 op h

theorem configCalls_mem (val : Bytes) : ∀ op ∈ configCalls val, ∃ slen, op = .configStrPool slen := by
  intro op h
  unfold configCalls at h
  split at h
  · cases h
  · exact configStrCalls_mem _ _ op h

/-- Every step uses the pools as `PoolStep.use` says. -/
theorem uses (s : PoolStep) : Uses s.calls s.delivered.isSome s.use := by
  cases s with
  | sectionEnd => exact .boundary
  | parse tlv =>
    rw [PoolStep.calls_parse, PoolStep.delivered_parse, PoolStep.use]
    obtain ⟨tag, val⟩ := tlv
    by_cases h1 : tag = REC_SENSOR
    · subst h1
      have hp : recordParse ⟨REC_SENSOR, val⟩ = Record.sensor <$> sensorParse val := rfl
      have hc : recordCalls ⟨REC_SENSOR, val⟩ = callsOf sensorCalls (sensorParse val) := rfl
      rw [itemUse, if_neg (show ¬ REC_SENSOR = REC_CONFIG by decide),
        if_neg (show ¬ REC_SENSOR = REC_KEYREF by decide), hp, hc]
      cases sensorParse val with
      | error e => exact .idle _
      | ok r =>
        simp only [map_ok, callsOf, sensorCalls]
        split
        · exact .samples _
        · exact .idle _
    by_cases h2 : tag = REC_EVENT
    · subst h2
      have hp : recordParse ⟨REC_EVENT, val⟩ = Record.event <$> eventParse val := rfl
      have hc : recordCalls ⟨REC_EVENT, val⟩ = callsOf eventCalls (eventParse val) := rfl
      rw [itemUse, if_neg (show ¬ REC_EVENT = REC_CONFIG by decide),
        if_neg (show ¬ REC_EVENT = REC_KEYREF by decide), hp, hc]
      cases eventParse val with
      | error e => exact .idle _
      | ok r =>
        simp only [map_ok, callsOf, eventCalls]
        split
        · exact .payload _
        · exact .idle _
    by_cases h3 : tag = REC_CONFIG
    · subst h3
      exact .strings _ _ (configCalls_mem val)
    by_cases h4 : tag = REC_KEYREF
    · subst h4
      have hc : recordCalls ⟨REC_KEYREF, val⟩ = keyrefCalls val := rfl
      rw [itemUse, if_neg (show ¬ REC_KEYREF = REC_CONFIG by decide), if_pos rfl, hc]
      rcases val with _ | ⟨slotId, _ | ⟨labelLen, b⟩⟩
      · exact .idle _
      · exact .idle _
      · simp only [keyrefCalls]
        split
        · exact .arena _ _ ‹_›
        · exact .label _ _ ‹_›
    by_cases h5 : tag = REC_DIAG
    · subst h5
      have hp : recordParse ⟨REC_DIAG, val⟩ = Record.diag <$> diagParse val := rfl
      have hc : recordCalls ⟨REC_DIAG, val⟩ = callsOf diagCalls (diagParse val) := rfl
      rw [itemUse, if_neg (show ¬ REC_DIAG = REC_CONFIG by decide),
        if_neg (show ¬ REC_DIAG = REC_KEYREF by decide), hp, hc]
      cases diagParse val with
      | error e => exact .idle _
      | ok r =>
        simp only [map_ok, callsOf, diagCalls]
        split
        · exact .blob _
        · exact .idle _
    · rw [recordCalls, itemUse, if_neg h1, if_neg h2, if_neg h3, if_neg h4, if_neg h5, if_neg h3,
        if_neg h4]
      split
      · rename_i r hr
        exact absurd (recordParse_tag hr).symm h1
      · rename_i r hr
        exact absurd (recordParse_tag hr).symm h2
      · rename_i r hr
        exact absurd (recordParse_tag hr).symm h5
      · exact .idle _

/-! ## One machine for each pool -/

def SensorSpares : List Bool → List PoolUse → Prop
  | _, [] => True
  | q, .samples :: us =>
    if q.length = SENSOR_POOL_MAX then true ∉ q ∧ SensorSpares [true] us
    else SensorSpares (q ++ [true]) us
  | q, _ :: us => SensorSpares q us

def DiagSpares : List (Bool × Nat) → Nat → List PoolUse → Prop
  | _, _, [] => True
  | q, bytes, .blob n :: us =>
    true ∉ (diagEvict n q bytes).1 ∧
      if (diagEvict n q bytes).2.1.length < DIAG_POOL_SLOTS then
        DiagSpares ((diagEvict n q bytes).2.1 ++ [(true, n)]) ((diagEvict n q bytes).2.2 + n) us
      else DiagSpares (diagEvict n q bytes).2.1 (diagEvict n q bytes).2.2 us
  | q, bytes, _ :: us => DiagSpares q bytes us

def ConfigSpares : List Bool → List PoolUse → Prop
  | _, [] => True
  | q, .strings b count :: us =>
    true ∉ q ∧ ConfigSpares (List.replicate (min count CFG_POOL_MAX) b) us
  | q, _ :: us => ConfigSpares q us

def RingSpares : (Fin 4 → Option Bool) → UInt32 → List PoolUse → Prop
  | _, _, [] => True
  | ring, pos, .label b :: us =>
    ring (ringSlot pos) ≠ some true ∧
      RingSpares (Function.update ring (ringSlot pos) (some b)) (pos + 1) us
  | ring, pos, _ :: us => RingSpares ring pos us

def EventSpares : List Bool → List PoolUse → Prop
  | _, [] => True
  | q, .payload :: us =>
    if q.length < EVENT_POOL_MAX then EventSpares (q ++ [true]) us else EventSpares q us
  | q, .boundary :: us => true ∉ q ∧ EventSpares [] us
  | q, _ :: us => EventSpares q us

/-- Strings only fill up the configuration pool. -/
theorem spares_strings (b : Bool) : ∀ (strs : List PoolOp) (p : Pools Bool),
    (∀ op ∈ strs, ∃ n, op = .configStrPool n) → p.config.length ≤ CFG_POOL_MAX →
    Spares p (strs.map fun op => (op, b)) ∧
      flagRun p (strs.map fun op => (op, b)) =
        { p with
          config := p.config ++
            List.replicate (min strs.length (CFG_POOL_MAX - p.config.length)) b }
  | [], p, _, _ => by simp [Spares, flagRun]
  | op :: strs, p, h, hle => by
    obtain ⟨n, rfl⟩ := h op (by simp)
    have htail : ∀ op ∈ strs, ∃ n, op = .configStrPool n := fun x hx => h x (by simp [hx])
    simp only [List.map_cons, Spares, flagRun]
    by_cases hfull : p.config.length = CFG_POOL_MAX
    · have hcall : poolCall b p (.configStrPool n) = ⟨[], false, p⟩ := if_pos hfull
      obtain ⟨h1, h2⟩ := spares_strings b strs p htail hle
      rw [hcall]
      refine ⟨⟨by simp, h1⟩, ?_⟩
      rw [h2, hfull]
      simp
    · have hcall : poolCall b p (.configStrPool n) =
          ⟨[], true, { p with config := p.config ++ [b] }⟩ := if_neg hfull
      have hmin : min (strs.length + 1) (CFG_POOL_MAX - p.config.length) =
          min strs.length (CFG_POOL_MAX - (p.config ++ [b]).length) + 1 := by
        simp only [List.length_append, List.length_singleton]
        omega
      obtain ⟨h1, h2⟩ := spares_strings b strs { p with config := p.config ++ [b] } htail
        (by simp only [List.length_append, List.length_singleton]; omega)
      rw [hcall]
      refine ⟨⟨by simp, h1⟩, ?_⟩
      rw [h2, List.length_cons, hmin]
      simp only [List.replicate_succ, List.append_assoc, List.singleton_append]

/-- **The five pools are independent.** -/
theorem spares_split (steps : List PoolStep) (p : Pools Bool) :
    Spares p (marked steps) ↔
      SensorSpares p.sensor (steps.map PoolStep.use) ∧
      DiagSpares p.diag p.diagBytes (steps.map PoolStep.use) ∧
      ConfigSpares p.config (steps.map PoolStep.use) ∧
      RingSpares p.ring p.pos (steps.map PoolStep.use) ∧
      EventSpares p.event (steps.map PoolStep.use) := by
  induction steps generalizing p with
  | nil => simp [marked, Spares, SensorSpares, DiagSpares, ConfigSpares, RingSpares, EventSpares]
  | cons s steps ih =>
    have hcons : marked (s :: steps) =
        (s.calls.map fun op => (op, s.delivered.isSome)) ++ marked steps := by simp [marked]
    rw [hcons, spares_append, List.map_cons]
    have hu := uses s
    revert hu
    generalize s.calls = ops
    generalize s.delivered.isSome = b
    generalize s.use = u
    intro hu
    cases hu with
    | idle =>
      simp [Spares, flagRun, SensorSpares, DiagSpares, ConfigSpares, RingSpares, EventSpares, ih]
    | arena n _ h =>
      simp [Spares, flagRun, poolCall, SensorSpares, DiagSpares, ConfigSpares, RingSpares,
        EventSpares, h, ih]
    | samples n =>
      by_cases h : p.sensor.length = SENSOR_POOL_MAX
      · simp [Spares, flagRun, poolCall, SensorSpares, DiagSpares, ConfigSpares, RingSpares,
          EventSpares, h, ih, and_assoc]
      · simp [Spares, flagRun, poolCall, SensorSpares, DiagSpares, ConfigSpares, RingSpares,
          EventSpares, h, ih]
    | blob n =>
      by_cases h : (diagEvict n.toNat p.diag p.diagBytes).2.1.length < DIAG_POOL_SLOTS
      · simp [Spares, flagRun, poolCall, SensorSpares, DiagSpares, ConfigSpares, RingSpares,
          EventSpares, h, ih, and_assoc, and_left_comm]
      · simp [Spares, flagRun, poolCall, SensorSpares, DiagSpares, ConfigSpares, RingSpares,
          EventSpares, h, ih, and_assoc, and_left_comm]
    | strings _ strs h =>
      obtain ⟨h1, h2⟩ := spares_strings b strs { p with config := [] } h (Nat.zero_le _)
      have hcall : poolCall b p .configPoolRecycle = ⟨p.config, false, { p with config := [] }⟩ := rfl
      simp only [List.map_cons, Spares, flagRun, hcall, h1, h2, ih]
      simp [SensorSpares, DiagSpares, ConfigSpares, RingSpares, EventSpares, and_assoc, and_left_comm]
    | label n _ h =>
      simp [Spares, flagRun, poolCall, SensorSpares, DiagSpares, ConfigSpares, RingSpares,
          EventSpares, h, ih, and_assoc, and_left_comm]
    | payload n =>
      by_cases h : p.event.length < EVENT_POOL_MAX
      · simp [Spares, flagRun, poolCall, SensorSpares, DiagSpares, ConfigSpares, RingSpares,
          EventSpares, h, ih]
      · simp [Spares, flagRun, poolCall, SensorSpares, DiagSpares, ConfigSpares, RingSpares,
          EventSpares, h, ih]
    | boundary =>
      simp [Spares, flagRun, poolCall, SensorSpares, DiagSpares, ConfigSpares, RingSpares,
          EventSpares, ih, and_left_comm]

/-! ## When a pool spares what was delivered -/

/-- Once a delivered array is in the pool, no further generation may begin. -/
theorem sensorSpares_held (us : List PoolUse) : ∀ q : List Bool, true ∈ q →
    q.length ≤ SENSOR_POOL_MAX →
    (SensorSpares q us ↔ q.length + us.count .samples ≤ SENSOR_POOL_MAX) := by
  induction us with
  | nil =>
    intro q _ hle
    simp [SensorSpares, hle]
  | cons u us ih =>
    intro q hq hle
    cases u with
    | samples =>
      rw [SensorSpares, List.count_cons_self]
      split
      · rename_i hfull
        simp only [hq, not_true_eq_false, false_and, false_iff]
        omega
      · rw [ih (q ++ [true]) (by simp) (by simp; omega)]
        simp only [List.length_append, List.length_singleton]
        omega
    | _ => simpa [SensorSpares] using ih q hq hle

/-- The pool takes one generation on top of what earlier walks left, or a whole one if they left it
full. -/
theorem sensorSpares_iff (us : List PoolUse) : ∀ q : List Bool, true ∉ q →
    q.length ≤ SENSOR_POOL_MAX →
    (SensorSpares q us ↔
      us.count .samples ≤ SENSOR_POOL_MAX - q.length % SENSOR_POOL_MAX) := by
  induction us with
  | nil => simp [SensorSpares]
  | cons u us ih =>
    intro q hq hle
    cases u with
    | samples =>
      rw [SensorSpares, List.count_cons_self]
      split
      · rename_i hfull
        rw [sensorSpares_held us [true] (by simp) (by decide)]
        simp only [hq, not_false_eq_true, true_and, hfull, Nat.mod_self, List.length_singleton]
        omega
      · rw [sensorSpares_held us (q ++ [true]) (by simp) (by simp; omega),
          Nat.mod_eq_of_lt (by omega)]
        simp only [List.length_append, List.length_singleton]
        omega
    | _ => simpa [SensorSpares] using ih q hq hle

/-- Payloads still pooled when a section ends are gone. -/
theorem eventSpares_held (us : List PoolUse) : ∀ q : List Bool, true ∈ q →
    (EventSpares q us ↔ .boundary ∉ us) := by
  induction us with
  | nil => simp [EventSpares]
  | cons u us ih =>
    intro q hq
    cases u with
    | payload =>
      rw [EventSpares]
      split
      · simpa using ih (q ++ [true]) (by simp)
      · simpa using ih q hq
    | boundary => simp [EventSpares, hq]
    | _ => simpa [EventSpares] using ih q hq

/-- A payload is delivered only while the pool is full from earlier walks (`c` payloads at the
section's start), or in a section whose end the walk does not reach. -/
def EventFits : Nat → List PoolUse → Prop
  | _, [] => True
  | c, .payload :: us => (c = EVENT_POOL_MAX ∨ .boundary ∉ us) ∧ EventFits c us
  | _, .boundary :: us => EventFits 0 us
  | c, _ :: us => EventFits c us

theorem eventFits_of_no_boundary (us : List PoolUse) (c : Nat) (h : .boundary ∉ us) :
    EventFits c us := by
  induction us with
  | nil => trivial
  | cons u us ih =>
    have htail : .boundary ∉ us := fun hm => h (List.mem_cons_of_mem _ hm)
    cases u with
    | payload => exact ⟨.inr htail, ih htail⟩
    | boundary => exact absurd (List.mem_cons_self ..) h
    | _ => exact ih htail

theorem eventSpares_iff (us : List PoolUse) : ∀ q : List Bool, true ∉ q →
    q.length ≤ EVENT_POOL_MAX → (EventSpares q us ↔ EventFits q.length us) := by
  induction us with
  | nil => simp [EventSpares, EventFits]
  | cons u us ih =>
    intro q hq hle
    cases u with
    | payload =>
      rw [EventSpares, EventFits]
      split
      · rename_i hroom
        rw [eventSpares_held us (q ++ [true]) (by simp)]
        constructor
        · intro hb
          exact ⟨.inr hb, eventFits_of_no_boundary us _ hb⟩
        · rintro ⟨hfull | hb, -⟩
          · omega
          · exact hb
      · rename_i hfull
        have heq : q.length = EVENT_POOL_MAX := by omega
        rw [ih q hq hle, heq]
        simp
    | boundary => simpa [EventSpares, EventFits, hq] using ih [] (by simp) (by simp)
    | _ => simpa [EventSpares, EventFits] using ih q hq hle

/-- Whether the strings of a delivered record are in the pool after the item. -/
def PoolUse.HoldsStrings : PoolUse → Prop
  | strings b count => b = true ∧ 0 < count
  | _ => False

/-- A `CONFIG` item, accepted or not. -/
def PoolUse.IsConfig : PoolUse → Prop
  | strings _ _ => True
  | _ => False

theorem configSpares_held (us : List PoolUse) : ∀ q : List Bool, true ∈ q →
    (ConfigSpares q us ↔ ∀ u ∈ us, ¬ u.IsConfig) := by
  induction us with
  | nil => simp [ConfigSpares]
  | cons u us ih =>
    intro q hq
    cases u with
    | strings b count => simp [ConfigSpares, hq, PoolUse.IsConfig]
    | _ => simpa [ConfigSpares, PoolUse.IsConfig] using ih q hq

theorem configSpares_iff (us : List PoolUse) : ∀ q : List Bool, true ∉ q →
    (ConfigSpares q us ↔ us.Pairwise fun u v => u.HoldsStrings → ¬ v.IsConfig) := by
  induction us with
  | nil => simp [ConfigSpares]
  | cons u us ih =>
    intro q hq
    rw [List.pairwise_cons]
    cases u with
    | strings b count =>
      rw [ConfigSpares]
      by_cases hh : b = true ∧ 0 < count
      · have hmem : true ∈ List.replicate (min count CFG_POOL_MAX) b := by
          rw [List.mem_replicate]
          refine ⟨?_, hh.1.symm⟩
          have : 0 < CFG_POOL_MAX := by decide
          omega
        rw [configSpares_held us _ hmem]
        constructor
        · rintro ⟨-, hno⟩
          exact ⟨fun v hv _ => hno v hv,
            List.pairwise_of_forall_mem_list fun _ _ v hv _ => hno v hv⟩
        · rintro ⟨hno, -⟩
          exact ⟨hq, fun v hv => hno v hv hh⟩
      · have hmem : true ∉ List.replicate (min count CFG_POOL_MAX) b := by
          rw [List.mem_replicate]
          rintro ⟨hpos, rfl⟩
          exact hh ⟨rfl, by omega⟩
        rw [ih _ hmem]
        constructor
        · rintro ⟨-, hp⟩
          exact ⟨fun _ _ hc => absurd hc hh, hp⟩
        · rintro ⟨-, hp⟩
          exact ⟨hq, hp⟩
    | _ => simpa [ConfigSpares, PoolUse.HoldsStrings] using ih q hq

/-- The labels that go to the ring, each with whether its record is delivered. -/
def PoolUse.label? : PoolUse → Option Bool
  | label b => some b
  | _ => none

/-- All labels but the last four belong to refused items. -/
def LabelsFit (labels : List Bool) : Prop := ∀ i, i + 4 < labels.length → labels[i]? ≠ some true

theorem ringSlot_succ (pos : UInt32) : ringSlot (pos + 1) = ringSlot pos + 1 := by
  apply Fin.ext
  have h : (pos + 1).toNat % 4 = (pos.toNat + 1) % 4 := by
    rw [UInt32.toNat_add, UInt32.toNat_one]
    omega
  simp only [ringSlot, Fin.val_add, h]
  omega

/-- Slot `pos + j` holds the label that `4 - j` calls ago put there. -/
def RingHolds (past : List Bool) (ring : Fin 4 → Option Bool) (pos : UInt32) : Prop :=
  ∀ j : Fin 4, ring (ringSlot pos + j) = some true ↔
    ∃ i, i + 4 = past.length + j.val ∧ past[i]? = some true

theorem RingHolds.push {past : List Bool} {ring : Fin 4 → Option Bool} {pos : UInt32}
    (h : RingHolds past ring pos) (b : Bool) :
    RingHolds (past ++ [b]) (Function.update ring (ringSlot pos) (some b)) (pos + 1) := by
  intro j
  rw [ringSlot_succ, List.length_append, List.length_singleton]
  by_cases hj : j = 3
  · -- the slot just written
    subst hj
    have hslot : ∀ x : Fin 4, x + 1 + 3 = x := by decide
    rw [hslot, Function.update_self]
    constructor
    · intro hb
      exact ⟨past.length, rfl, by rw [List.getElem?_concat_length, hb]⟩
    · rintro ⟨i, hi, hb⟩
      have hlen : i = past.length := by
        have : (3 : Fin 4).val = 3 := rfl
        omega
      rwa [hlen, List.getElem?_concat_length] at hb
  · have hne : ∀ x j : Fin 4, j ≠ 3 → x + 1 + j ≠ x := by decide
    have hval : ∀ j : Fin 4, j ≠ 3 → (j + 1).val = j.val + 1 := by decide
    have hassoc : ∀ x j : Fin 4, x + 1 + j = x + (j + 1) := by decide
    rw [Function.update_of_ne (hne _ _ hj), hassoc, h (j + 1), hval j hj]
    refine exists_congr fun i => ?_
    rw [Nat.add_right_comm past.length, ← Nat.add_assoc]
    refine and_congr_right fun hi => ?_
    have hlt : i < past.length := by omega
    rw [List.getElem?_append_left hlt]

theorem ringSpares_iff (us : List PoolUse) : ∀ (past : List Bool) (ring : Fin 4 → Option Bool)
    (pos : UInt32), RingHolds past ring pos →
    (RingSpares ring pos us ↔ ∀ i, past.length ≤ i + 4 →
      i + 4 < (past ++ us.filterMap PoolUse.label?).length →
      (past ++ us.filterMap PoolUse.label?)[i]? ≠ some true) := by
  induction us with
  | nil =>
    intro past ring pos _
    simp only [RingSpares, List.filterMap_nil, List.append_nil, true_iff]
    intro i h1 h2
    omega
  | cons u us ih =>
    intro past ring pos hr
    cases u with
    | label b =>
      have hlabels : past ++ (PoolUse.label b :: us).filterMap PoolUse.label? =
          past ++ [b] ++ us.filterMap PoolUse.label? := by simp [PoolUse.label?]
      have hslot := hr 0
      rw [Fin.add_zero] at hslot
      rw [RingSpares, ih _ _ _ (hr.push b), hlabels, ne_eq, hslot]
      simp only [List.length_append, List.length_singleton]
      constructor
      · rintro ⟨hnow, hlater⟩ i h1 h2
        by_cases hi : i + 4 = past.length
        · intro hb
          refine hnow ⟨i, hi, ?_⟩
          rwa [List.append_assoc, List.getElem?_append_left (by omega)] at hb
        · exact hlater i (by omega) h2
      · intro hall
        refine ⟨?_, fun i h1 h2 => hall i (by omega) h2⟩
        rintro ⟨i, hi, hb⟩
        have hi : i + 4 = past.length := hi
        refine hall i (by omega) (by omega) ?_
        rwa [List.append_assoc, List.getElem?_append_left (by omega)]
    | _ => exact ih past ring pos hr

/-- The blobs of earlier walks (their sizes, oldest first) that stay when `need` more bytes are
wanted. -/
def diagLeft (need : Nat) : List Nat → List Nat
  | [] => []
  | z :: zs => if (z :: zs).sum + need > DIAG_POOL_BUDGET then diagLeft need zs else z :: zs

/-- Each new blob fits the byte budget together with the `k` blobs of this walk that are pooled
already, `total` bytes in all.  `old` are the sizes of earlier walks' blobs: they go first, and they
take slots while they last. -/
def DiagFits : List Nat → Nat → Nat → List Nat → Prop
  | _, _, _, [] => True
  | old, k, total, n :: ns =>
    (k = 0 ∨ total + n ≤ DIAG_POOL_BUDGET) ∧
      if (diagLeft (total + n) old).length + k < DIAG_POOL_SLOTS then
        DiagFits (diagLeft (total + n) old) (k + 1) (total + n) ns
      else DiagFits (diagLeft (total + n) old) k total ns

/-- The size of a delivered blob. -/
def PoolUse.blob? : PoolUse → Option Nat
  | blob n => some n
  | _ => none

/-- The slots of a pool with unflagged blobs of sizes `old` before flagged ones of sizes `own`. -/
def diagSlots (old own : List Nat) : List (Bool × Nat) :=
  old.map (fun n => (false, n)) ++ own.map (fun n => (true, n))

theorem diagEvict_slots (n : Nat) (own : List Nat) : ∀ old : List Nat,
    (true ∈ (diagEvict n (diagSlots old own) (old.sum + own.sum)).1 ↔
      own ≠ [] ∧ own.sum + n > DIAG_POOL_BUDGET) ∧
    (¬ (own ≠ [] ∧ own.sum + n > DIAG_POOL_BUDGET) →
      (diagEvict n (diagSlots old own) (old.sum + own.sum)).2 =
        (diagSlots (diagLeft (own.sum + n) old) own, (diagLeft (own.sum + n) old).sum + own.sum))
  | [] => by
    cases own with
    | nil => simp [diagSlots, diagEvict, diagLeft]
    | cons z zs =>
      have hslots : diagSlots [] (z :: zs) = (true, z) :: diagSlots [] zs := rfl
      rw [List.sum_nil, Nat.zero_add, hslots, diagEvict]
      by_cases h : (z :: zs).sum + n > DIAG_POOL_BUDGET
      · rw [if_pos h]
        have hwant : z :: zs ≠ [] ∧ (z :: zs).sum + n > DIAG_POOL_BUDGET :=
          ⟨List.cons_ne_nil z zs, h⟩
        exact ⟨⟨fun _ => hwant, fun _ => List.mem_cons_self ..⟩, fun hno => absurd hwant hno⟩
      · rw [if_neg h]
        refine ⟨⟨fun hm => (by cases hm), fun hc => absurd hc.2 h⟩, fun _ => ?_⟩
        rw [diagLeft, List.sum_nil, Nat.zero_add, hslots]
  | z :: old => by
    obtain ⟨h1, h2⟩ := diagEvict_slots n own old
    have hslots : diagSlots (z :: old) own = (false, z) :: diagSlots old own := rfl
    have hsum : (z :: old).sum + own.sum - z = old.sum + own.sum := by
      rw [List.sum_cons]; omega
    rw [hslots, diagEvict]
    by_cases h : (z :: old).sum + own.sum + n > DIAG_POOL_BUDGET
    · have hleft : diagLeft (own.sum + n) (z :: old) = diagLeft (own.sum + n) old := by
        rw [diagLeft, if_pos (by omega)]
      rw [if_pos h, hsum, hleft]
      exact ⟨by simpa using h1, h2⟩
    · have hleft : diagLeft (own.sum + n) (z :: old) = z :: old := by
        rw [diagLeft, if_neg (by omega)]
      have hsmall : ¬ own.sum + n > DIAG_POOL_BUDGET := by
        rw [List.sum_cons] at h; omega
      rw [if_neg h, hleft]
      exact ⟨by simp [hsmall], fun _ => rfl⟩

theorem diagSpares_iff (us : List PoolUse) : ∀ old own : List Nat,
    (DiagSpares (diagSlots old own) (old.sum + own.sum) us ↔
      DiagFits old own.length own.sum (us.filterMap PoolUse.blob?)) := by
  induction us with
  | nil => simp [DiagSpares, DiagFits]
  | cons u us ih =>
    intro old own
    cases u with
    | blob n =>
      obtain ⟨h1, h2⟩ := diagEvict_slots n own old
      have hb : (PoolUse.blob n :: us).filterMap PoolUse.blob? = n :: us.filterMap PoolUse.blob? :=
        rfl
      have hfit : ¬ (own ≠ [] ∧ own.sum + n > DIAG_POOL_BUDGET) ↔
          (own.length = 0 ∨ own.sum + n ≤ DIAG_POOL_BUDGET) := by
        rw [not_and_or, not_not, List.length_eq_zero_iff, Nat.not_lt]
      rw [DiagSpares, hb, DiagFits, h1, hfit]
      refine and_congr_right fun hok => ?_
      rw [h2 (hfit.mpr hok)]
      have hlen : (diagSlots (diagLeft (own.sum + n) old) own).length =
          (diagLeft (own.sum + n) old).length + own.length := by simp [diagSlots]
      have hpush : diagSlots (diagLeft (own.sum + n) old) own ++ [(true, n)] =
          diagSlots (diagLeft (own.sum + n) old) (own ++ [n]) := by simp [diagSlots]
      have hih := ih (diagLeft (own.sum + n) old) (own ++ [n])
      rw [List.sum_append, List.sum_singleton, List.length_append, List.length_singleton,
        ← Nat.add_assoc] at hih
      dsimp only
      rw [hlen, hpush]
      split
      · exact hih
      · exact ih _ own
    | _ => exact ih old own

/-! ## The walk -/

/-- When the pools, as a walk finds them, keep everything alive that the given uses deliver. -/
structure Retainable (p : Pools Handle) (us : List PoolUse) : Prop where
  sensor : us.count .samples ≤ SENSOR_POOL_MAX - p.sensor.length % SENSOR_POOL_MAX
  diag : DiagFits (p.diag.map Prod.snd) 0 0 (us.filterMap PoolUse.blob?)
  config : us.Pairwise fun u v => u.HoldsStrings → ¬ v.IsConfig
  keyref : LabelsFit (us.filterMap PoolUse.label?)
  event : EventFits p.event.length us

/-- The pools of a process that has not walked anything. -/
def PoolState.start : PoolState where
  pools := .start
  next := 0
  live := ∅
  ok := Pools.start_ok
  fresh := ⟨by simp [Pools.start], by simp [Pools.start], by simp [Pools.start],
    by simp [Pools.start], by simp [Pools.start]⟩

/-- Callbacks that do nothing. -/
def silentWalk : Walk Unit := ⟨fun _ s => (none, s), fun _ s => s, 0⟩

instance (r : PoolRun) : Decidable r.Retains :=
  inferInstanceAs (Decidable (∀ h ∈ r.held, h ∈ r.live))

/-- One stored section with two `CONFIG` items, each with the pair `a`, `b`. -/
def twoConfigs : Bytes :=
  [68, 84, 76, 1, 1, 0, 1, 0, 89, 107, 50, 251, 1, 0, 0, 0, 16, 0, 0, 0, 16, 0, 0, 0, 0, 0, 0, 0,
    24, 5, 0, 1, 1, 97, 1, 98, 24, 5, 0, 1, 1, 97, 1, 98]

end Dtl
