import TelemetryForge.Records.Parse

/-!
# Payload pools

Model of the five static pools the record parsers take payload buffers from: sensor samples (a
generation of 8), diagnostic blobs (a byte budget, oldest first), configuration strings (recycled at
each parse), key-reference labels (a ring of 4) and event payloads (released by the walk).

`Pools α` is the bookkeeping over buffers named by `α`, and `poolCall` one call of a pool function.
Nothing in it looks at a name, so every call commutes with renaming (`poolCall_map`).

`recordParsePooled` is `dtl_record_parse` with the pool calls in the places where the source makes
them.  Principal result: `recordParsePooled_performs` — its result is `recordParse`, and its calls are
`recordCalls`, also when the parse fails half-way.
-/

set_option autoImplicit false

namespace Dtl

open PrefixCode

/-! ## The pools -/

def SENSOR_POOL_MAX : Nat := 8
def DIAG_POOL_BUDGET : Nat := 4096
def DIAG_POOL_SLOTS : Nat := 64
def CFG_POOL_MAX : Nat := 32
def KEYREF_RING_MAX : Nat := 128
def EVENT_POOL_MAX : Nat := 256

/-- The static variables of the pools; a slot array and its count are one list. -/
structure Pools (α : Type) where
  sensor : List α
  diag : List (α × Nat)
  diagBytes : Nat
  config : List α
  ring : Fin 4 → Option α
  pos : UInt32
  event : List α

/-- A call of a pool function. -/
inductive PoolOp where
  | sensorSamplesAlloc (count : UInt8)
  | diagBlobAlloc (blobLen : UInt16)
  | configPoolRecycle
  | configStrPool (slen : UInt8)
  | keyrefLabelAlloc (labelLen : UInt8)
  | eventPoolTake (n : UInt16)
  | eventPoolRelease
  deriving DecidableEq, Repr

/-- What a call does: the buffers it frees, whether it hands out a buffer of its own (a string or
label that falls back to the arena is none), and the bookkeeping afterwards. -/
structure PoolEffect (α : Type) where
  freed : List α
  took : Bool
  pools : Pools α

section Calls

variable {α : Type}

/-- The eviction loop of `dtl_diag_blob_alloc`: freed blobs, remaining slots, remaining bytes. -/
def diagEvict (blobLen : Nat) : List (α × Nat) → Nat → List α × List (α × Nat) × Nat
  | [], bytes => ([], [], bytes)
  | e :: slots, bytes =>
    if bytes + blobLen > DIAG_POOL_BUDGET then
      let (freed, rest) := diagEvict blobLen slots (bytes - e.2)
      (e.1 :: freed, rest)
    else ([], e :: slots, bytes)

/-- `ring[pos % DTL_KEYREF_RING]`. -/
def ringSlot (pos : UInt32) : Fin 4 := ⟨pos.toNat % 4, Nat.mod_lt _ (by decide)⟩

/-- One pool call; `new` names the buffer `malloc` returns. -/
def poolCall (new : α) (p : Pools α) : PoolOp → PoolEffect α
  | .sensorSamplesAlloc _ =>
    if p.sensor.length = SENSOR_POOL_MAX then ⟨p.sensor, true, { p with sensor := [new] }⟩
    else ⟨[], true, { p with sensor := p.sensor ++ [new] }⟩
  | .diagBlobAlloc blobLen =>
    let (freed, slots, bytes) := diagEvict blobLen.toNat p.diag p.diagBytes
    if slots.length < DIAG_POOL_SLOTS then
      ⟨freed, true, { p with diag := slots ++ [(new, blobLen.toNat)],
                             diagBytes := bytes + blobLen.toNat }⟩
    else ⟨freed, true, { p with diag := slots, diagBytes := bytes }⟩
  | .configPoolRecycle => ⟨p.config, false, { p with config := [] }⟩
  | .configStrPool _ =>
    if p.config.length = CFG_POOL_MAX then ⟨[], false, p⟩
    else ⟨[], true, { p with config := p.config ++ [new] }⟩
  | .keyrefLabelAlloc labelLen =>
    if labelLen.toNat + 1 > KEYREF_RING_MAX then ⟨[], false, p⟩
    else ⟨(p.ring (ringSlot p.pos)).toList, true,
      { p with ring := Function.update p.ring (ringSlot p.pos) (some new), pos := p.pos + 1 }⟩
  | .eventPoolTake _ =>
    if p.event.length < EVENT_POOL_MAX then ⟨[], true, { p with event := p.event ++ [new] }⟩
    else ⟨[], true, p⟩
  | .eventPoolRelease => ⟨p.event, false, { p with event := [] }⟩

/-- The bookkeeping when the program starts. -/
def Pools.start : Pools α := ⟨[], [], 0, [], fun _ => none, 0, []⟩

/-- The counts are within the arrays, and the byte total is the sum of the sizes. -/
structure Pools.Ok (p : Pools α) : Prop where
  sensor : p.sensor.length ≤ SENSOR_POOL_MAX
  diag : p.diag.length ≤ DIAG_POOL_SLOTS
  diagBytes : p.diagBytes = (p.diag.map Prod.snd).sum
  config : p.config.length ≤ CFG_POOL_MAX
  event : p.event.length ≤ EVENT_POOL_MAX

theorem Pools.start_ok : (Pools.start : Pools α).Ok :=
  ⟨Nat.zero_le _, Nat.zero_le _, rfl, Nat.zero_le _, Nat.zero_le _⟩

/-- Eviction takes blobs off the front, and keeps the byte total. -/
theorem diagEvict_spec (blobLen : Nat) : ∀ (slots : List (α × Nat)) (bytes : Nat),
    bytes = (slots.map Prod.snd).sum →
    slots.map Prod.fst = (diagEvict blobLen slots bytes).1 ++
        (diagEvict blobLen slots bytes).2.1.map Prod.fst ∧
      (diagEvict blobLen slots bytes).2.1 <:+ slots ∧
      (diagEvict blobLen slots bytes).2.2 = ((diagEvict blobLen slots bytes).2.1.map Prod.snd).sum
  | [], bytes, h => ⟨rfl, List.suffix_refl _, h⟩
  | e :: slots, bytes, h => by
    unfold diagEvict
    split
    · have hrest : bytes - e.2 = (slots.map Prod.snd).sum := by
        rw [h, List.map_cons, List.sum_cons]; omega
      obtain ⟨h1, h2, h3⟩ := diagEvict_spec blobLen slots _ hrest
      refine ⟨?_, h2.trans (List.suffix_cons _ _), h3⟩
      rw [List.map_cons, h1]
      rfl
    · exact ⟨rfl, List.suffix_refl _, h⟩

/-- Every pool call keeps the bookkeeping sound. -/
theorem poolCall_ok (new : α) {p : Pools α} (h : p.Ok) (op : PoolOp) :
    (poolCall new p op).pools.Ok := by
  obtain ⟨hs, hd, hb, hc, he⟩ := h
  cases op with
  | sensorSamplesAlloc n =>
    simp only [poolCall]
    split
    · exact ⟨by simp [SENSOR_POOL_MAX], hd, hb, hc, he⟩
    · refine ⟨?_, hd, hb, hc, he⟩
      simp only [List.length_append, List.length_singleton]
      omega
  | diagBlobAlloc n =>
    obtain ⟨-, hsuf, hsum⟩ := diagEvict_spec n.toNat p.diag p.diagBytes hb
    simp only [poolCall]
    split
    · refine ⟨hs, ?_, ?_, hc, he⟩
      · simp only [List.length_append, List.length_singleton]
        omega
      · simp [hsum]
    · exact ⟨hs, hsuf.length_le.trans hd, hsum, hc, he⟩
  | configPoolRecycle => exact ⟨hs, hd, hb, Nat.zero_le _, he⟩
  | configStrPool n =>
    simp only [poolCall]
    split
    · exact ⟨hs, hd, hb, hc, he⟩
    · refine ⟨hs, hd, hb, ?_, he⟩
      simp only [List.length_append, List.length_singleton]
      omega
  | keyrefLabelAlloc n =>
    simp only [poolCall]
    split <;> exact ⟨hs, hd, hb, hc, he⟩
  | eventPoolTake n =>
    simp only [poolCall]
    split
    · refine ⟨hs, hd, hb, hc, ?_⟩
      simp only [List.length_append, List.length_singleton]
      omega
    · exact ⟨hs, hd, hb, hc, he⟩
  | eventPoolRelease => exact ⟨hs, hd, hb, hc, Nat.zero_le _⟩

/-- `P` holds of every buffer in a slot. -/
structure Pools.All (P : α → Prop) (p : Pools α) : Prop where
  sensor : ∀ x ∈ p.sensor, P x
  diag : ∀ e ∈ p.diag, P e.1
  config : ∀ x ∈ p.config, P x
  ring : ∀ i x, p.ring i = some x → P x
  event : ∀ x ∈ p.event, P x

theorem Pools.All.imp {P Q : α → Prop} {p : Pools α} (h : p.All P) (hi : ∀ x, P x → Q x) :
    p.All Q :=
  ⟨fun x hx => hi x (h.sensor x hx), fun e he => hi _ (h.diag e he),
    fun x hx => hi x (h.config x hx), fun i x hx => hi x (h.ring i x hx),
    fun x hx => hi x (h.event x hx)⟩

theorem diagEvict_mem (blobLen : Nat) : ∀ (slots : List (α × Nat)) (bytes : Nat),
    (∀ x ∈ (diagEvict blobLen slots bytes).1, ∃ e ∈ slots, e.1 = x) ∧
      ∀ e ∈ (diagEvict blobLen slots bytes).2.1, e ∈ slots
  | [], _ => ⟨by simp [diagEvict], by simp [diagEvict]⟩
  | e :: slots, bytes => by
    obtain ⟨h1, h2⟩ := diagEvict_mem blobLen slots (bytes - e.2)
    unfold diagEvict
    split
    · constructor
      · intro x hx
        rcases List.mem_cons.mp hx with rfl | hx
        · exact ⟨e, by simp, rfl⟩
        · obtain ⟨e', he', rfl⟩ := h1 x hx
          exact ⟨e', List.mem_cons_of_mem _ he', rfl⟩
      · intro x hx
        exact List.mem_cons_of_mem _ (h2 x hx)
    · exact ⟨by simp, fun _ h => h⟩

/-- A call frees only what was in a slot. -/
theorem poolCall_freed {P : α → Prop} (new : α) {p : Pools α} (h : p.All P) (op : PoolOp) :
    ∀ x ∈ (poolCall new p op).freed, P x := by
  have hnil : ∀ x ∈ ([] : List α), P x := fun _ hx => by cases hx
  cases op with
  | sensorSamplesAlloc n =>
    simp only [poolCall]
    split
    · exact h.sensor
    · exact hnil
  | diagBlobAlloc n =>
    have hfreed : ∀ x ∈ (diagEvict n.toNat p.diag p.diagBytes).1, P x := by
      intro x hx
      obtain ⟨e, he, rfl⟩ := (diagEvict_mem n.toNat p.diag p.diagBytes).1 x hx
      exact h.diag e he
    simp only [poolCall]
    split <;> exact hfreed
  | configPoolRecycle => exact h.config
  | configStrPool n =>
    simp only [poolCall]
    split <;> exact hnil
  | keyrefLabelAlloc n =>
    simp only [poolCall]
    split
    · exact hnil
    · exact fun x hx => h.ring _ x (Option.mem_toList.mp hx)
  | eventPoolTake n =>
    simp only [poolCall]
    split <;> exact hnil
  | eventPoolRelease => exact h.event

/-- A call puts nothing into a slot but the buffer it hands out. -/
theorem poolCall_all {P : α → Prop} {new : α} {p : Pools α} {op : PoolOp} (h : p.All P)
    (hnew : (poolCall new p op).took = true → P new) : (poolCall new p op).pools.All P := by
  have hpush : ∀ q : List α, (∀ x ∈ q, P x) → P new → ∀ x ∈ q ++ [new], P x := by
    intro q hq hn x hx
    rcases List.mem_append.mp hx with hx | hx
    · exact hq x hx
    · rwa [List.mem_singleton.mp hx]
  have hnil : ∀ x ∈ ([] : List α), P x := fun _ hx => by cases hx
  revert hnew
  cases op with
  | sensorSamplesAlloc n =>
    simp only [poolCall]
    split <;> intro hnew
    · exact { h with sensor := hpush [] hnil (hnew rfl) }
    · exact { h with sensor := hpush _ h.sensor (hnew rfl) }
  | diagBlobAlloc n =>
    have hrest := (diagEvict_mem n.toNat p.diag p.diagBytes).2
    simp only [poolCall]
    split <;> intro hnew
    · refine { h with diag := ?_ }
      intro e he
      rcases List.mem_append.mp he with he | he
      · exact h.diag e (hrest e he)
      · rw [List.mem_singleton.mp he]
        exact hnew rfl
    · exact { h with diag := fun e he => h.diag e (hrest e he) }
  | configPoolRecycle => exact fun _ => { h with config := hnil }
  | configStrPool n =>
    simp only [poolCall]
    split <;> intro hnew
    · exact h
    · exact { h with config := hpush _ h.config (hnew rfl) }
  | keyrefLabelAlloc n =>
    simp only [poolCall]
    split <;> intro hnew
    · exact h
    · refine { h with ring := ?_ }
      intro i x hx
      dsimp only at hx
      by_cases hi : i = ringSlot p.pos
      · subst hi
        rw [Function.update_self, Option.some.injEq] at hx
        rw [← hx]
        exact hnew rfl
      · rw [Function.update_of_ne hi] at hx
        exact h.ring i x hx
  | eventPoolTake n =>
    simp only [poolCall]
    split <;> intro hnew
    · exact { h with event := hpush _ h.event (hnew rfl) }
    · exact h
  | eventPoolRelease => exact fun _ => { h with event := hnil }

end Calls

/-! ## Renaming -/

section Rename

variable {α β : Type}

def Pools.map (f : α → β) (p : Pools α) : Pools β :=
  ⟨p.sensor.map f, p.diag.map fun e => (f e.1, e.2), p.diagBytes, p.config.map f,
    fun i => (p.ring i).map f, p.pos, p.event.map f⟩

def PoolEffect.map (f : α → β) (e : PoolEffect α) : PoolEffect β :=
  ⟨e.freed.map f, e.took, e.pools.map f⟩

theorem Pools.map_congr {f g : α → β} {p : Pools α} (h : p.All fun x => f x = g x) :
    p.map f = p.map g := by
  have hring : ∀ i, (p.ring i).map f = (p.ring i).map g := by
    intro i
    cases hi : p.ring i with
    | none => rfl
    | some x => exact congrArg some (h.ring i x hi)
  have hdiag : p.diag.map (fun e => (f e.1, e.2)) = p.diag.map (fun e => (g e.1, e.2)) :=
    List.map_congr_left fun e he => by rw [h.diag e he]
  simp only [Pools.map, List.map_congr_left h.sensor, hdiag, List.map_congr_left h.config, hring,
    List.map_congr_left h.event]

theorem diagEvict_map (f : α → β) (blobLen : Nat) : ∀ (slots : List (α × Nat)) (bytes : Nat),
    diagEvict blobLen (slots.map fun e => (f e.1, e.2)) bytes =
      ((diagEvict blobLen slots bytes).1.map f,
        (diagEvict blobLen slots bytes).2.1.map (fun e => (f e.1, e.2)),
        (diagEvict blobLen slots bytes).2.2)
  | [], _ => rfl
  | e :: slots, bytes => by
    rw [List.map_cons, diagEvict, diagEvict]
    split
    · rw [diagEvict_map f blobLen slots]
      rfl
    · rfl

/-- **A pool call does not look at the names of buffers.** -/
theorem poolCall_map (f : α → β) (new : α) (p : Pools α) (op : PoolOp) :
    poolCall (f new) (p.map f) op = (poolCall new p op).map f := by
  cases op with
  | sensorSamplesAlloc n =>
    simp only [poolCall, Pools.map, List.length_map]
    split <;> simp [PoolEffect.map, Pools.map]
  | diagBlobAlloc n =>
    simp only [poolCall, Pools.map, diagEvict_map, List.length_map]
    split <;> simp [PoolEffect.map, Pools.map]
  | configPoolRecycle => simp [poolCall, PoolEffect.map, Pools.map]
  | configStrPool n =>
    simp only [poolCall, Pools.map, List.length_map]
    split <;> simp [PoolEffect.map, Pools.map]
  | keyrefLabelAlloc n =>
    have hring : ∀ i, (Function.update p.ring (ringSlot p.pos) (some new) i).map f =
        Function.update (fun i => (p.ring i).map f) (ringSlot p.pos) (some (f new)) i := by
      intro i
      by_cases hi : i = ringSlot p.pos
      · subst hi; simp
      · simp [Function.update_of_ne hi]
    simp only [poolCall, Pools.map]
    split
    · simp [PoolEffect.map, Pools.map]
    · simp only [PoolEffect.map, Pools.map, PoolEffect.mk.injEq, Pools.mk.injEq, true_and, and_true]
      refine ⟨?_, funext fun i => (hring i).symm⟩
      cases p.ring (ringSlot p.pos) <;> rfl
  | eventPoolTake n =>
    simp only [poolCall, Pools.map, List.length_map]
    split <;> simp [PoolEffect.map, Pools.map]
  | eventPoolRelease => simp [poolCall, PoolEffect.map, Pools.map]

end Rename

/-! ## Parsers with their pool calls -/

/-- A parser that logs the pool calls it makes. -/
abbrev PoolM := ExceptT Err (StateM (List PoolOp))

def call (op : PoolOp) : PoolM Unit := modify (· ++ [op])

/-- `dtl_sensor_parse`. -/
def sensorParsePooled (val : Bytes) : PoolM Sensor := do
  let (sensorId, b) ← bufReadU16 val
  let (count, b) ← bufReadU8 b
  failIf (b.length ≠ count.toNat * SENSOR_SAMPLE_SIZE) .badRecord
  if count ≠ 0 then
    call (.sensorSamplesAlloc count)
    let (samples, _) ← readMany bufReadU32 count.toNat b
    return ⟨sensorId, count, samples⟩
  else return ⟨sensorId, count, []⟩

/-- `dtl_event_parse`. -/
def eventParsePooled (val : Bytes) : PoolM Event := do
  let (code, b) ← bufReadU16 val
  let (payloadLen, b) ← bufReadU16 b
  failIf (payloadLen.toNat ≠ b.length) .badRecord
  if payloadLen ≠ 0 then
    call (.eventPoolTake payloadLen)
    let (payload, _) ← bufReadBytes payloadLen.toNat b
    return ⟨code, payloadLen, payload⟩
  else return ⟨code, payloadLen, []⟩

/-- `dtl_diag_parse`. -/
def diagParsePooled (val : Bytes) : PoolM Diag := do
  let (subsystem, b) ← bufReadU16 val
  let (blobLen, b) ← bufReadU16 b
  failIf (blobLen.toNat ≠ b.length) .badRecord
  if blobLen ≠ 0 then
    call (.diagBlobAlloc blobLen)
    let (blob, _) ← bufReadBytes blobLen.toNat b
    return ⟨subsystem, blobLen, blob, 0⟩
  else return ⟨subsystem, blobLen, [], 0⟩

/-- `dtl_keyref_parse`. -/
def keyrefParsePooled (val : Bytes) : PoolM Keyref := do
  let (slotId, b) ← bufReadU8 val
  let (labelLen, b) ← bufReadU8 b
  call (.keyrefLabelAlloc labelLen)
  let (label, b) ← bufReadBytes labelLen.toNat b
  failIf (b.length ≠ 0) .badRecord
  return ⟨slotId, labelLen, label, 0⟩

/-- `dtl_config_read_str`. -/
def configReadStrPooled (b : Bytes) : PoolM (CStr × Bytes) := do
  let (slen, b) ← bufReadU8 b
  call (.configStrPool slen)
  let (s, b) ← bufReadBytes slen.toNat b
  return (cstr s, b)

/-- The pair loop of `dtl_config_parse`. -/
def configReadPairsPooled : Nat → Bytes → PoolM (List ConfigPair × Bytes)
  | 0, b => return ([], b)
  | n + 1, b => do
    let (key, b) ← configReadStrPooled b
    let (value, b) ← configReadStrPooled b
    let (pairs, b) ← configReadPairsPooled n b
    return (⟨key, value⟩ :: pairs, b)

/-- `dtl_config_parse`. -/
def configParsePooled (val : Bytes) : PoolM Config := do
  call .configPoolRecycle
  let (pairCount, b) ← bufReadU8 val
  let (pairs, b) ← configReadPairsPooled pairCount.toNat b
  failIf (b.length ≠ 0) .badRecord
  return ⟨pairCount, pairs⟩

/-- `dtl_record_parse`; the other six parsers use no pool. -/
def recordParsePooled (tlv : Tlv) : PoolM Record :=
  if tlv.tag = REC_SENSOR then Record.sensor <$> sensorParsePooled tlv.val
  else if tlv.tag = REC_EVENT then Record.event <$> eventParsePooled tlv.val
  else if tlv.tag = REC_CONFIG then Record.config <$> configParsePooled tlv.val
  else if tlv.tag = REC_KEYREF then Record.keyref <$> keyrefParsePooled tlv.val
  else if tlv.tag = REC_DIAG then Record.diag <$> diagParsePooled tlv.val
  else liftM (recordParse tlv)

/-! ## The calls of a parse -/

/-- The calls of reading `n` configuration strings: one for each length byte reached. -/
def configStrCalls : Nat → Bytes → List PoolOp
  | 0, _ => []
  | n + 1, b =>
    match bufReadU8 b with
    | .error _ => []
    | .ok (slen, b) => .configStrPool slen ::
      match bufReadBytes slen.toNat b with
      | .error _ => []
      | .ok (_, b) => configStrCalls n b

/-- The calls of `dtl_config_parse` after the recycling. -/
def configCalls (val : Bytes) : List PoolOp :=
  match bufReadU8 val with
  | .error _ => []
  | .ok (pairCount, b) => configStrCalls (2 * pairCount.toNat) b

/-- The label buffer is taken before the label's length is checked. -/
def keyrefCalls : Bytes → List PoolOp
  | _ :: labelLen :: _ => [.keyrefLabelAlloc labelLen]
  | _ => []

/-- The calls that go with a successful result. -/
def callsOf {α : Type} (g : α → List PoolOp) : Res α → List PoolOp
  | .ok a => g a
  | .error _ => []

def sensorCalls (r : Sensor) : List PoolOp :=
  if r.count ≠ 0 then [.sensorSamplesAlloc r.count] else []

def eventCalls (r : Event) : List PoolOp :=
  if r.payloadLen ≠ 0 then [.eventPoolTake r.payloadLen] else []

def diagCalls (r : Diag) : List PoolOp :=
  if r.blobLen ≠ 0 then [.diagBlobAlloc r.blobLen] else []

/-- The pool calls of a parse. -/
def recordCalls (tlv : Tlv) : List PoolOp :=
  if tlv.tag = REC_SENSOR then callsOf sensorCalls (sensorParse tlv.val)
  else if tlv.tag = REC_EVENT then callsOf eventCalls (eventParse tlv.val)
  else if tlv.tag = REC_CONFIG then .configPoolRecycle :: configCalls tlv.val
  else if tlv.tag = REC_KEYREF then keyrefCalls tlv.val
  else if tlv.tag = REC_DIAG then callsOf diagCalls (diagParse tlv.val)
  else []

/-- `m` returns `r` and appends `ops` to the log. -/
def Performs {α : Type} (m : PoolM α) (r : Res α) (ops : List PoolOp) : Prop :=
  ∀ log, m.run.run log = (r, log ++ ops)

section Performs

variable {α β : Type}

theorem performs_pure (a : α) : Performs (pure a) (.ok a) [] := by
  intro log
  rw [List.append_nil]
  rfl

theorem performs_lift (x : Res α) : Performs (liftM x) x [] := by
  intro log
  rw [List.append_nil]
  cases x <;> rfl

theorem performs_call (op : PoolOp) : Performs (call op) (.ok ()) [op] := fun _ => rfl

theorem performs_bind_ok {m : PoolM α} {f : α → PoolM β} {a : α} {r : Res β} {o₁ o₂ : List PoolOp}
    (hm : Performs m (.ok a) o₁) (hf : Performs (f a) r o₂) : Performs (m >>= f) r (o₁ ++ o₂) := by
  intro log
  have h1 := hm log
  have h2 := hf (log ++ o₁)
  rw [List.append_assoc] at h2
  rw [ExceptT.run_bind, StateT.run_bind, h1]
  exact h2

theorem performs_bind_error {m : PoolM α} {f : α → PoolM β} {e : Err} {ops : List PoolOp}
    (hm : Performs m (.error e) ops) : Performs (m >>= f) (.error e) ops := by
  intro log
  rw [ExceptT.run_bind, StateT.run_bind, hm log]
  rfl

/-- A read before the first call: the rest decides. -/
theorem performs_read {x : Res α} {f : α → PoolM β} {r : α → Res β} {g : β → List PoolOp}
    (h : ∀ a, x = .ok a → Performs (f a) (r a) (callsOf g (r a))) :
    Performs (liftM x >>= f) (x >>= r) (callsOf g (x >>= r)) := by
  cases x with
  | error e => exact performs_bind_error (performs_lift (.error e))
  | ok a => exact performs_bind_ok (performs_lift (.ok a)) (h a rfl)

theorem performs_bind {m : PoolM α} {x : Res α} {f : α → PoolM β} {r : α → Res β}
    {o₁ : List PoolOp} {o₂ : α → List PoolOp} (hm : Performs m x o₁)
    (hf : ∀ a, Performs (f a) (r a) (o₂ a)) :
    Performs (m >>= f) (x >>= r) (o₁ ++ callsOf o₂ x) := by
  cases x with
  | error e =>
    rw [callsOf, List.append_nil]
    exact performs_bind_error hm
  | ok a => exact performs_bind_ok hm (hf a)

/-- Nothing more is called. -/
theorem performs_bind_quiet {m : PoolM α} {x : Res α} {f : α → PoolM β} {r : α → Res β}
    {ops : List PoolOp} (hm : Performs m x ops) (hf : ∀ a, Performs (f a) (r a) []) :
    Performs (m >>= f) (x >>= r) ops := by
  have hb := performs_bind hm hf
  cases x with
  | error e => rwa [callsOf, List.append_nil] at hb
  | ok a => rwa [callsOf, List.append_nil] at hb

/-- Reads after the last call. -/
theorem performs_tail {x : Res α} {f : α → PoolM β} {r : α → Res β}
    (h : ∀ a, Performs (f a) (r a) []) : Performs (liftM x >>= f) (x >>= r) [] :=
  performs_bind_quiet (performs_lift x) h

theorem performs_map {m : PoolM α} {x : Res α} {ops : List PoolOp} (f : α → β)
    (h : Performs m x ops) : Performs (f <$> m) (f <$> x) ops := by
  intro log
  rw [ExceptT.run_map, StateT.run_map, h log]
  rfl

/-- The call, then a read that cannot fail any more. -/
theorem performs_call_read {x : Res α} {a : α} {f : α → PoolM β} {b : β} (op : PoolOp)
    (hx : x = .ok a) (hf : f a = pure b) :
    Performs (call op >>= fun _ => liftM x >>= f) (.ok b) [op] := by
  subst hx
  have hread : Performs (liftM (Except.ok a : Res α) >>= f) (.ok b) [] :=
    performs_bind_ok (performs_lift (.ok a)) (hf ▸ performs_pure b)
  exact performs_bind_ok (performs_call op) hread

end Performs

theorem readMany_u32_total : ∀ (n : Nat) (b : Bytes), b.length = n * SENSOR_SAMPLE_SIZE →
    ∃ ws, readMany bufReadU32 n b = .ok (ws, [])
  | 0, b, h => by
    have hb : b = [] := List.length_eq_zero_iff.mp (by simpa using h)
    exact ⟨[], by rw [hb]; rfl⟩
  | n + 1, p0 :: p1 :: p2 :: p3 :: b, h => by
    have hlen : b.length = n * SENSOR_SAMPLE_SIZE := by
      simp only [List.length_cons, SENSOR_SAMPLE_SIZE] at h ⊢
      omega
    obtain ⟨ws, hws⟩ := readMany_u32_total n b hlen
    refine ⟨endianReadU32le p0 p1 p2 p3 :: ws, ?_⟩
    simp only [readMany, bufReadU32, Except.bind_ok_eq, hws, Except.pure_eq_ok]
  | n + 1, [], h => by simp [SENSOR_SAMPLE_SIZE] at h
  | n + 1, [_], h => by simp [SENSOR_SAMPLE_SIZE] at h; omega
  | n + 1, [_, _], h => by simp [SENSOR_SAMPLE_SIZE] at h; omega
  | n + 1, [_, _, _], h => by simp [SENSOR_SAMPLE_SIZE] at h; omega

theorem sensorParsePooled_performs (val : Bytes) :
    Performs (sensorParsePooled val) (sensorParse val)
      (callsOf sensorCalls (sensorParse val)) := by
  refine performs_read fun ⟨sensorId, b⟩ _ => performs_read fun ⟨count, b⟩ _ =>
    performs_read fun _ hlen => ?_
  rw [failIf_eq_ok, not_not] at hlen
  dsimp only at hlen ⊢
  by_cases hc : count = 0
  · subst hc
    have hread : readMany bufReadU32 (0 : UInt8).toNat b = .ok ([], b) := rfl
    rw [hread, if_neg (not_not.mpr rfl)]
    exact performs_pure _
  · obtain ⟨ws, hws⟩ := readMany_u32_total _ _ hlen
    rw [if_pos hc, hws]
    simp only [Except.bind_ok_eq, Except.pure_eq_ok, callsOf, sensorCalls, if_pos hc, ne_eq]
    exact performs_call_read _ rfl rfl

theorem eventParsePooled_performs (val : Bytes) :
    Performs (eventParsePooled val) (eventParse val)
      (callsOf eventCalls (eventParse val)) := by
  refine performs_read fun ⟨code, b⟩ _ => performs_read fun ⟨payloadLen, b⟩ _ =>
    performs_read fun _ hlen => ?_
  rw [failIf_eq_ok, not_not] at hlen
  dsimp only at hlen ⊢
  rw [bufReadBytes_all hlen.symm]
  by_cases hc : payloadLen = 0
  · subst hc
    have hb : b = [] := List.length_eq_zero_iff.mp hlen.symm
    rw [if_neg (not_not.mpr rfl), hb]
    exact performs_pure _
  · rw [if_pos hc]
    simp only [Except.bind_ok_eq, Except.pure_eq_ok, callsOf, eventCalls, if_pos hc, ne_eq]
    exact performs_call_read _ rfl rfl

theorem diagParsePooled_performs (val : Bytes) :
    Performs (diagParsePooled val) (diagParse val)
      (callsOf diagCalls (diagParse val)) := by
  refine performs_read fun ⟨subsystem, b⟩ _ => performs_read fun ⟨blobLen, b⟩ _ =>
    performs_read fun _ hlen => ?_
  rw [failIf_eq_ok, not_not] at hlen
  dsimp only at hlen ⊢
  rw [bufReadBytes_all hlen.symm]
  by_cases hc : blobLen = 0
  · subst hc
    have hb : b = [] := List.length_eq_zero_iff.mp hlen.symm
    rw [if_neg (not_not.mpr rfl), hb]
    exact performs_pure _
  · rw [if_pos hc]
    simp only [Except.bind_ok_eq, Except.pure_eq_ok, callsOf, diagCalls, if_pos hc, ne_eq]
    exact performs_call_read _ rfl rfl

theorem keyrefParsePooled_performs : ∀ val : Bytes,
    Performs (keyrefParsePooled val) (keyrefParse val) (keyrefCalls val)
  | [] => performs_bind_error (performs_lift (bufReadU8 []))
  | [slotId] => by
    refine performs_bind_ok (performs_lift (.ok (slotId, []))) ?_
    exact performs_bind_error (performs_lift (bufReadU8 []))
  | slotId :: labelLen :: b => by
    refine performs_bind_ok (performs_lift (.ok (slotId, labelLen :: b)))
      (performs_bind_ok (performs_lift (.ok (labelLen, b)))
        (performs_bind_ok (performs_call (.keyrefLabelAlloc labelLen)) ?_))
    exact performs_tail fun _ => performs_tail fun _ => performs_pure _

/-- A configuration string, and the call it makes once its length byte is there. -/
theorem configReadStrPooled_performs : ∀ b : Bytes,
    Performs (configReadStrPooled b) (configReadStr b) (configStrCalls 1 b)
  | [] => performs_bind_error (performs_lift (bufReadU8 []))
  | slen :: b => by
    have hcalls : configStrCalls 1 (slen :: b) = [.configStrPool slen] := by
      simp only [configStrCalls, bufReadU8_cons]
      cases bufReadBytes slen.toNat b <;> rfl
    rw [hcalls]
    refine performs_bind_ok (performs_lift (.ok (slen, b)))
      (performs_bind_ok (performs_call (.configStrPool slen)) ?_)
    exact performs_tail fun _ => performs_pure _

/-- The calls of one more string. -/
theorem configStrCalls_succ (n : Nat) : ∀ b : Bytes, configStrCalls (n + 1) b =
    configStrCalls 1 b ++ callsOf (fun p => configStrCalls n p.2) (configReadStr b)
  | [] => rfl
  | slen :: b => by
    simp only [configStrCalls, configReadStr, configReadBytes, bufReadU8_cons, Except.bind_ok_eq]
    cases bufReadBytes slen.toNat b <;> rfl

theorem configReadPairsPooled_performs : ∀ (n : Nat) (b : Bytes),
    Performs (configReadPairsPooled n b) (readMany configReadPair n b) (configStrCalls (2 * n) b)
  | 0, b => performs_pure _
  | n + 1, b => by
    rw [Nat.mul_succ, configStrCalls_succ, readMany, configReadPair, bind_assoc]
    refine performs_bind (configReadStrPooled_performs b) ?_
    rintro ⟨key, b₁⟩
    rw [configStrCalls_succ, bind_assoc]
    refine performs_bind (configReadStrPooled_performs b₁) ?_
    rintro ⟨value, b₂⟩
    exact performs_bind_quiet (configReadPairsPooled_performs n b₂) fun _ => performs_pure _

theorem configParsePooled_performs (val : Bytes) :
    Performs (configParsePooled val) (configParse val) (.configPoolRecycle :: configCalls val) := by
  refine performs_bind_ok (performs_call .configPoolRecycle) ?_
  cases val with
  | nil => exact performs_bind_error (performs_lift (bufReadU8 []))
  | cons pairCount b =>
    refine performs_bind_ok (performs_lift (.ok (pairCount, b))) ?_
    exact performs_bind_quiet (configReadPairsPooled_performs pairCount.toNat b) fun _ =>
      performs_tail fun _ => performs_pure _

/-- **The parsers, with their pools.** `dtl_record_parse` returns what `recordParse` says, and makes
the calls `recordCalls`. -/
theorem recordParsePooled_performs (tlv : Tlv) :
    Performs (recordParsePooled tlv) (recordParse tlv) (recordCalls tlv) := by
  obtain ⟨tag, val⟩ := tlv
  by_cases h1 : tag = REC_SENSOR
  · subst h1
    exact performs_map Record.sensor (sensorParsePooled_performs val)
  by_cases h2 : tag = REC_EVENT
  · subst h2
    exact performs_map Record.event (eventParsePooled_performs val)
  by_cases h3 : tag = REC_CONFIG
  · subst h3
    exact performs_map Record.config (configParsePooled_performs val)
  by_cases h4 : tag = REC_KEYREF
  · subst h4
    exact performs_map Record.keyref (keyrefParsePooled_performs val)
  by_cases h5 : tag = REC_DIAG
  · subst h5
    exact performs_map Record.diag (diagParsePooled_performs val)
  · rw [recordParsePooled, recordCalls, if_neg h1, if_neg h2, if_neg h3, if_neg h4, if_neg h5,
      if_neg h1, if_neg h2, if_neg h3, if_neg h4, if_neg h5]
    exact performs_lift _

end Dtl
