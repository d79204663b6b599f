import TelemetryForge.Core.Arena
import TelemetryForge.Lib.Cells
import TelemetryForge.Lib.Segments
import TelemetryForge.Report.Export

/-!
# The timeline

Model of `dtl_timeline_build` and `dtl_timeline_print`.  The sessions lie in an array that is replaced
when it is full, and the cursor points into it, so arrays are blocks of a memory and pointers are a
block and an index.  What a block holds before it is written is arbitrary.

Principal results: `timeline_partition_iff` — when the sessions count the records between heartbeats;
`timeline_anomalies` — the anomaly totals are the numbers of anomaly lines printed.
-/

set_option autoImplicit false

namespace Dtl

open CText Segments Cells
open Function (update)

/-! ## The session array -/

/-- `dtl_timeline_session`. -/
structure TimelineSession where
  uptimeS : UInt32
  seq : UInt32
  recordCount : Nat
  perTag : UInt8 → UInt64
  firstRecordIndex : Nat

/-- `sizeof(dtl_timeline_session)`. -/
def TIMELINE_SESSION_SIZE : Nat := 4 + 4 + 8 + 256 * 8 + 8

/-- `dtl_timeline_options`. -/
structure TimelineOptions where
  expectedIntervalS : UInt32
  tolerance : UInt32

/-- `dtl_timeline_expected`. -/
def timelineExpected (opts : Option TimelineOptions) : UInt32 :=
  match opts with
  | none => 60
  | some o => if o.expectedIntervalS ≠ 0 then o.expectedIntervalS else 60

/-- `dtl_timeline_tolerance`. -/
def timelineTolerance (opts : Option TimelineOptions) : UInt32 :=
  match opts with
  | none => 2
  | some o => if o.tolerance ≠ 0 then o.tolerance else 2

/-- `dtl_timeline` with the cursor of `dtl_timeline_ctx`, and the memory the arrays lie in: block
`fresh` is the next to be allocated, and `sessions` is the block of the array in use. -/
structure TimelineCtx where
  memory : Nat → Nat → TimelineSession
  fresh : Nat
  arena : Arena
  sessions : Nat
  sessionCount : Nat
  sessionCap : Nat
  gapCount : Nat
  orderingViolations : Nat
  unattributedRecords : Nat
  cur : Option (Nat × Nat)

/-- The context before the first record. -/
def timelineInit (held : Nat → Nat → TimelineSession) (arena : Arena) : TimelineCtx :=
  ⟨held, 0, arena, 0, 0, 0, 0, 0, 0, none⟩

/-- A store through a pointer to a session. -/
def timelineStore (c : TimelineCtx) (p : Nat × Nat) (s : TimelineSession) : TimelineCtx :=
  { c with memory := update c.memory p.1 (update (c.memory p.1) p.2 s) }

/-- The growth branch of `dtl_timeline_open_session`. -/
def timelineGrow (c : TimelineCtx) : Res TimelineCtx :=
  let newCap := if c.sessionCap ≠ 0 then c.sessionCap * 2 else 16
  let (ok, arena) := arenaAlloc c.arena (newCap * TIMELINE_SESSION_SIZE)
  if ok = false then .error .oom
  else .ok { c with
    arena := arena
    memory := update c.memory c.fresh fun i =>
      if i < c.sessionCount then c.memory c.sessions i else c.memory c.fresh i
    fresh := c.fresh + 1
    sessions := c.fresh
    sessionCap := newCap
    cur := if c.sessionCount ≠ 0 then some (c.fresh, c.sessionCount - 1) else none }

/-- The comparison with the session under the cursor. -/
def timelineCompare (opts : Option TimelineOptions) (prev uptime : UInt32) (c : TimelineCtx) :
    TimelineCtx :=
  if uptime < prev then { c with orderingViolations := c.orderingViolations + 1 }
  else if (uptime - prev).toUInt64 >
      (timelineTolerance opts).toUInt64 * (timelineExpected opts).toUInt64 then
    { c with gapCount := c.gapCount + 1 }
  else c

/-- `dtl_timeline_open_session` in an array with room. -/
def timelinePlace (opts : Option TimelineOptions) (hb : Heartbeat) (recordIndex : Nat)
    (c : TimelineCtx) : TimelineCtx :=
  let p := (c.sessions, c.sessionCount)
  let old := c.memory p.1 p.2
  let s : TimelineSession := { old with
    uptimeS := hb.uptimeS
    seq := hb.seq
    firstRecordIndex := recordIndex
    perTag := update old.perTag REC_HEARTBEAT 1
    recordCount := 1 }
  let c := { timelineStore c p s with sessionCount := c.sessionCount + 1 }
  let c := match c.cur with
    | none => c
    | some q => timelineCompare opts (c.memory q.1 q.2).uptimeS s.uptimeS c
  { c with cur := some p }

/-- `dtl_timeline_open_session`. -/
def timelineOpen (opts : Option TimelineOptions) (hb : Heartbeat) (recordIndex : Nat)
    (c : TimelineCtx) : Res TimelineCtx :=
  (if c.sessionCount = c.sessionCap then timelineGrow c else .ok c) >>= fun c =>
    .ok (timelinePlace opts hb recordIndex c)

/-- The rest of `dtl_timeline_on_record`, for a record that is no `HEARTBEAT`. -/
def timelineAdd (rec : Record) (c : TimelineCtx) : TimelineCtx :=
  match c.cur with
  | none => { c with unattributedRecords := c.unattributedRecords + 1 }
  | some p =>
    let s := c.memory p.1 p.2
    timelineStore c p { s with
      recordCount := s.recordCount + 1
      perTag := update s.perTag rec.tag (s.perTag rec.tag + 1) }

/-- `dtl_timeline_on_record`. -/
def timelineOnRecord (opts : Option TimelineOptions) (ev : WalkEvent) (c : TimelineCtx) :
    Option Err × TimelineCtx :=
  match ev.record.heartbeat? with
  | some hb =>
    match timelineOpen opts hb ev.recordIndex c with
    | .error rc => (some rc, c)
    | .ok c => (none, c)
  | none => (none, timelineAdd ev.record c)

def timelineWalk (opts : Option TimelineOptions) : Walk TimelineCtx where
  onRecord := timelineOnRecord opts
  onError _ c := c
  maxDecode := 0

/-- `dtl_timeline_build` on a file that can be read, with what the memory of the arrays holds. -/
def timelineBuild (env : Nat → CodecEnv) (held : Nat → Nat → TimelineSession) (arena : Arena)
    (opts : Option TimelineOptions) (maxFile : Nat) (file : Bytes) : Option Err × TimelineCtx :=
  walkAbsorb env (timelineWalk opts) maxFile file (timelineInit held arena)

/-- `tl->sessions[0 .. tl->session_count - 1]`. -/
def TimelineCtx.array (c : TimelineCtx) : List TimelineSession :=
  (List.range c.sessionCount).map (c.memory c.sessions)

/-! ## Printing -/

/-- The counts of a session by tag. -/
def timelineTags (s : TimelineSession) : Bytes :=
  ((List.range 256).foldl (fun (first, out) tag =>
    let n := s.perTag (UInt8.ofNat tag)
    if n ≠ 0 then (false, out ++ (if first then [] else ascii ",") ++
      ascii (walkTagName (UInt8.ofNat tag)) ++ ascii ":" ++ decimal n.toNat)
    else (first, out)) (true, [])).2

/-- The line of session `i`. -/
def timelineSessionLine (i : Nat) (s : TimelineSession) : Bytes :=
  ascii "  [" ++ padLeft 3 (decimal i) ++ ascii "] uptime=" ++ padRight 10 (decimal s.uptimeS.toNat) ++
    ascii "s seq=" ++ padRight 8 (decimal s.seq.toNat) ++ ascii " records=" ++
    padRight 4 (decimal s.recordCount) ++ ascii " tags=" ++ timelineTags s ++ ascii "\n"

def timelineOrderingLine (prev uptime : UInt32) : Bytes :=
  ascii "        ORDERING: uptime decreased (" ++ decimal prev.toNat ++ ascii " -> " ++
    decimal uptime.toNat ++ ascii ")\n"

def timelineGapLine (prev uptime : UInt32) : Bytes :=
  ascii "        GAP: " ++ decimal (uptime - prev).toNat ++ ascii "s since previous heartbeat\n"

/-- The line after that of a session with a predecessor, if any. -/
def timelineAnomaly (opts : Option TimelineOptions) (prev uptime : UInt32) : List Bytes :=
  if uptime < prev then [timelineOrderingLine prev uptime]
  else if (uptime - prev).toUInt64 >
      (timelineTolerance opts).toUInt64 * (timelineExpected opts).toUInt64 then
    [timelineGapLine prev uptime]
  else []

/-- The lines of the loop of `dtl_timeline_print` for session `i`. -/
def timelineSessionLines (opts : Option TimelineOptions) (c : TimelineCtx) (i : Nat) : List Bytes :=
  let s := c.memory c.sessions i
  timelineSessionLine i s ::
    if i ≠ 0 then timelineAnomaly opts (c.memory c.sessions (i - 1)).uptimeS s.uptimeS else []

/-- `dtl_timeline_print`: the lines. -/
def timelinePrint (opts : Option TimelineOptions) (c : TimelineCtx) : List Bytes :=
  (ascii "sessions: " ++ decimal c.sessionCount ++ ascii " (heartbeat interval " ++
      decimal (timelineExpected opts).toNat ++ ascii "s, gap tolerance " ++
      decimal (timelineTolerance opts).toNat ++ ascii "x)\n") ::
    ((List.range c.sessionCount).flatMap (timelineSessionLines opts c) ++
      (if c.unattributedRecords ≠ 0 then
        [ascii "unattributed-records (before first heartbeat): " ++ decimal c.unattributedRecords ++
          ascii "\n"]
      else []) ++
      [ascii "timeline: gaps=" ++ decimal c.gapCount ++ ascii " ordering-violations=" ++
        decimal c.orderingViolations ++ ascii "\n"])

/-! ## What a timeline is for -/

/-- The session that a segment of the record stream makes of the memory `old` it is placed in. -/
def timelineSession (old : TimelineSession) (seg : Segment Record Heartbeat) : TimelineSession where
  uptimeS := seg.head.uptimeS
  seq := seg.head.seq
  recordCount := 1 + seg.body.length
  perTag t := (if t = REC_HEARTBEAT then 1 else old.perTag t) +
    UInt64.ofNat (seg.body.countP fun rec => rec.tag = t)
  firstRecordIndex := seg.start

/-- The block that session `k` is first placed in. -/
def timelineBlock (k : Nat) : Nat := if k < 16 then 0 else Nat.log2 (k / 16) + 1

/-- The sessions of a record stream, in the memory they are placed in. -/
def timelineSessions (held : Nat → Nat → TimelineSession) (segs : List (Segment Record Heartbeat)) :
    List TimelineSession :=
  segs.zipIdx.map fun (seg, k) => timelineSession (held (timelineBlock k) k) seg

/-- The uptimes of the heartbeats. -/
def timelineUptimes (recs : List Record) : List UInt32 :=
  (recs.filterMap Record.heartbeat?).map (·.uptimeS)

/-- An uptime that decreases from one heartbeat to the next. -/
def timelineDecreases (p : UInt32 × UInt32) : Bool := decide ((p.2.toNat : Int) < p.1.toNat)

/-- An uptime that exceeds that of the heartbeat before by more than the tolerance allows. -/
def timelineExceeds (opts : Option TimelineOptions) (p : UInt32 × UInt32) : Bool :=
  decide ((p.1.toNat : Int) ≤ p.2.toNat ∧ (p.2.toNat : Int) - p.1.toNat >
    ((timelineTolerance opts).toNat : Int) * (timelineExpected opts).toNat)

theorem timelineDecreases_iff {prev uptime : UInt32} :
    timelineDecreases (prev, uptime) = true ↔ uptime < prev := by
  rw [timelineDecreases, decide_eq_true_eq, Int.ofNat_lt, UInt32.lt_iff_toNat_lt]

theorem timelineExceeds_of_lt {opts : Option TimelineOptions} {prev uptime : UInt32}
    (h : uptime < prev) : timelineExceeds opts (prev, uptime) = false := by
  have := UInt32.lt_iff_toNat_lt.mp h
  rw [timelineExceeds, decide_eq_false_iff_not]
  dsimp only
  omega

/-- The machine comparison is that of the integers. -/
theorem timelineExceeds_iff {opts : Option TimelineOptions} {prev uptime : UInt32}
    (h : ¬ uptime < prev) : timelineExceeds opts (prev, uptime) = true ↔
      (uptime - prev).toUInt64 >
        (timelineTolerance opts).toUInt64 * (timelineExpected opts).toUInt64 := by
  have hle : prev.toNat ≤ uptime.toNat := by
    rw [UInt32.lt_iff_toNat_lt] at h
    exact Nat.not_lt.mp h
  have hsub : (uptime - prev).toNat = uptime.toNat - prev.toNat :=
    UInt32.toNat_sub_of_le _ _ (UInt32.le_iff_toNat_le.mpr hle)
  have hmul : (timelineTolerance opts).toNat * (timelineExpected opts).toNat < 2 ^ 32 * 2 ^ 32 :=
    Nat.mul_lt_mul'' (timelineTolerance opts).toNat_lt (timelineExpected opts).toNat_lt
  rw [← Nat.pow_add] at hmul
  rw [gt_iff_lt, UInt64.lt_iff_toNat_lt, UInt64.toNat_mul, UInt32.toNat_toUInt64,
    UInt32.toNat_toUInt64, UInt32.toNat_toUInt64, Nat.mod_eq_of_lt hmul, hsub, timelineExceeds,
    decide_eq_true_eq, gt_iff_lt, ← Nat.cast_mul, ← Nat.cast_sub hle, Int.ofNat_lt]
  exact and_iff_right (Int.ofNat_le.mpr hle)

/-! ## What the memory holds -/

/-- The context after the records `recs`. -/
structure TimelineHolds (held : Nat → Nat → TimelineSession) (opts : Option TimelineOptions)
    (recs : List Record) (c : TimelineCtx) : Prop where
  array : c.array = timelineSessions held (segments Record.heartbeat? 0 recs).2
  /-- past the sessions, the block holds what it held -/
  blank : 0 < c.sessionCap → ∀ i, c.sessionCount ≤ i → c.memory c.sessions i = held c.sessions i
  untouched : ∀ b, c.fresh ≤ b → c.memory b = held b
  /-- the array was doubled as often as there are blocks before it -/
  grown : c.sessionCount = 0 ∧ c.sessionCap = 0 ∧ c.fresh = 0 ∨
    c.fresh = c.sessions + 1 ∧ c.sessionCap = 16 * 2 ^ c.sessions ∧ c.sessionCount ≤ c.sessionCap ∧
      (c.sessions = 0 ∨ c.sessionCap ≤ 2 * c.sessionCount)
  cur : c.cur = if c.sessionCount = 0 then none else some (c.sessions, c.sessionCount - 1)
  gaps : c.gapCount = (adjacent (timelineUptimes recs)).countP (timelineExceeds opts)
  orderings : c.orderingViolations = (adjacent (timelineUptimes recs)).countP timelineDecreases
  unattributed : c.unattributedRecords = (segments Record.heartbeat? 0 recs).1.length

section Steps

variable {held : Nat → Nat → TimelineSession} {opts : Option TimelineOptions} {recs : List Record}
  {c c' : TimelineCtx}

theorem timelineInit_holds (arena : Arena) :
    TimelineHolds held opts [] (timelineInit held arena) :=
  ⟨rfl, fun h => absurd h (Nat.lt_irrefl 0), fun _ _ => rfl, .inl ⟨rfl, rfl, rfl⟩, rfl, rfl, rfl, rfl⟩

theorem timelineSessions_snoc (segs : List (Segment Record Heartbeat)) (seg) :
    timelineSessions held (segs ++ [seg]) = timelineSessions held segs ++
      [timelineSession (held (timelineBlock segs.length) segs.length) seg] := by
  rw [timelineSessions, List.zipIdx_append, List.map_append, Nat.zero_add]
  rfl

@[simp] theorem timelineSessions_length (segs : List (Segment Record Heartbeat)) :
    (timelineSessions held segs).length = segs.length := by
  rw [timelineSessions, List.length_map, List.length_zipIdx]

/-- The sessions are the cells of the block in use. -/
theorem array_eq (c : TimelineCtx) : c.array = cells (c.memory c.sessions) c.sessionCount := rfl

theorem TimelineHolds.count (h : TimelineHolds held opts recs c) :
    c.sessionCount = (segments Record.heartbeat? 0 recs).2.length := by
  have hlen := congrArg List.length h.array
  rw [array_eq, cells_length, timelineSessions_length] at hlen
  exact hlen

/-- Growing a full array copies the sessions and moves the cursor. -/
theorem timelineGrow_holds (h : TimelineHolds held opts recs c) (hfull : c.sessionCount = c.sessionCap)
    (hok : timelineGrow c = .ok c') :
    TimelineHolds held opts recs c' ∧ c'.sessionCount < c'.sessionCap := by
  unfold timelineGrow at hok
  dsimp only at hok
  generalize hnew : (if c.sessionCap ≠ 0 then c.sessionCap * 2 else 16) = newCap at hok
  by_cases hmem : (arenaAlloc c.arena (newCap * TIMELINE_SESSION_SIZE)).1 = false
  · rw [if_pos hmem] at hok
    cases hok
  rw [if_neg hmem] at hok
  cases hok
  refine ⟨⟨?_, ?_, ?_, ?_, ?_, h.gaps, h.orderings, h.unattributed⟩, ?_⟩
  · rw [← h.array, array_eq, array_eq]
    refine cells_congr fun i hi => ?_
    dsimp only
    rw [Function.update_self, if_pos hi]
  · intro _ i hi
    dsimp only at hi ⊢
    rw [Function.update_self, if_neg (Nat.not_lt.mpr hi), h.untouched c.fresh (Nat.le_refl _)]
  · intro b hb
    dsimp only at hb ⊢
    rw [Function.update_of_ne (by omega)]
    exact h.untouched b (by omega)
  · right
    dsimp only
    rcases h.grown with ⟨h0, hcap, hfresh⟩ | ⟨hfresh, hcap, -, -⟩
    · rw [if_neg (by omega)] at hnew
      rw [← hnew, hfresh, h0]
      simp
    · have hpos : c.sessionCap ≠ 0 := by
        rw [hcap]
        exact Nat.ne_of_gt (Nat.mul_pos (by omega) (Nat.two_pow_pos _))
      rw [if_pos hpos] at hnew
      refine ⟨rfl, ?_, by omega, .inr (by omega)⟩
      rw [← hnew, hcap, hfresh, Nat.pow_succ, Nat.mul_assoc]
  · dsimp only
    by_cases h0 : c.sessionCount = 0 <;> simp [h0]
  · dsimp only
    split at hnew <;> omega

/-- Where the next session is placed. -/
theorem TimelineHolds.block (h : TimelineHolds held opts recs c)
    (hroom : c.sessionCount < c.sessionCap) : timelineBlock c.sessionCount = c.sessions := by
  rcases h.grown with ⟨h0, hcap, -⟩ | ⟨-, hcap, -, hdoubled⟩
  · omega
  unfold timelineBlock
  rcases hdoubled with hzero | hdoubled
  · rw [hzero] at hcap ⊢
    rw [if_pos (by omega)]
  · obtain ⟨j, hj⟩ | hzero : (∃ j, c.sessions = j + 1) ∨ c.sessions = 0 := by
      cases c.sessions with
      | zero => exact .inr rfl
      | succ j => exact .inl ⟨j, rfl⟩
    · rw [hj, Nat.pow_succ] at hcap
      have hpow := Nat.two_pow_pos j
      rw [if_neg (by omega), hj, Nat.add_right_cancel_iff, Nat.log2_eq_iff (by omega), Nat.pow_succ]
      omega
    · rw [hzero] at hcap ⊢
      rw [if_pos (by omega)]

/-- The session under the cursor. -/
theorem TimelineHolds.last (h : TimelineHolds held opts recs c) (h0 : c.sessionCount ≠ 0) :
    ∃ init seg, (segments Record.heartbeat? 0 recs).2 = init ++ [seg] ∧
      init.length + 1 = c.sessionCount ∧
      c.memory c.sessions init.length =
        timelineSession (held (timelineBlock init.length) init.length) seg ∧
      cells (c.memory c.sessions) init.length = timelineSessions held init := by
  have hcount := h.count
  have harray := h.array
  rcases List.eq_nil_or_concat (segments Record.heartbeat? 0 recs).2 with hnil | ⟨init, seg, hsnoc⟩
  · rw [hnil] at hcount
    exact absurd hcount h0
  rw [List.concat_eq_append] at hsnoc
  rw [hsnoc, List.length_append, List.length_singleton] at hcount
  rw [hsnoc, timelineSessions_snoc, array_eq, hcount, cells_succ] at harray
  obtain ⟨hinit, hlast⟩ := List.append_inj' harray rfl
  exact ⟨init, seg, hsnoc, hcount.symm, List.cons.inj hlast |>.1, hinit⟩

/-- The comparison counts the anomalies of the pair. -/
theorem timelineCompare_eq (prev uptime : UInt32) :
    timelineCompare opts prev uptime c = { c with
      gapCount := c.gapCount + [(prev, uptime)].countP (timelineExceeds opts)
      orderingViolations := c.orderingViolations + [(prev, uptime)].countP timelineDecreases } := by
  unfold timelineCompare
  rw [List.countP_singleton, List.countP_singleton]
  by_cases hlt : uptime < prev
  · rw [if_pos hlt, timelineDecreases_iff.mpr hlt, timelineExceeds_of_lt hlt]
    rfl
  · have horder : timelineDecreases (prev, uptime) = false := by
      rw [← Bool.not_eq_true, timelineDecreases_iff]
      exact hlt
    rw [if_neg hlt, horder, if_neg Bool.false_ne_true, Nat.add_zero]
    by_cases hgt : (uptime - prev).toUInt64 >
        (timelineTolerance opts).toUInt64 * (timelineExpected opts).toUInt64
    · rw [if_pos hgt, if_pos ((timelineExceeds_iff hlt).mpr hgt)]
      rfl
    · rw [if_neg hgt, if_neg (mt (timelineExceeds_iff hlt).mp hgt)]
      rfl

/-- The session a heartbeat starts. -/
theorem timelineNew_eq (h : TimelineHolds held opts recs c) (hroom : c.sessionCount < c.sessionCap)
    (hb : Heartbeat) (k : Nat) :
    ({ c.memory c.sessions c.sessionCount with
        uptimeS := hb.uptimeS
        seq := hb.seq
        firstRecordIndex := k
        perTag := update (c.memory c.sessions c.sessionCount).perTag REC_HEARTBEAT 1
        recordCount := 1 } : TimelineSession) =
      timelineSession (held (timelineBlock c.sessionCount) c.sessionCount) ⟨k, hb, []⟩ := by
  rw [h.blank (Nat.zero_lt_of_lt hroom) _ (Nat.le_refl _), h.block hroom, timelineSession]
  congr 1
  funext t
  rw [Function.update_apply]
  simp

/-- What placing a session does, with the pair of heartbeats it compares. -/
theorem timelinePlace_eq (h : TimelineHolds held opts recs c) (hroom : c.sessionCount < c.sessionCap)
    (hb : Heartbeat) (k : Nat) :
    ∃ new, adjacent (timelineUptimes recs ++ [hb.uptimeS]) = adjacent (timelineUptimes recs) ++ new ∧
      timelinePlace opts hb k c = { c with
        memory := update c.memory c.sessions (update (c.memory c.sessions) c.sessionCount
          (timelineSession (held (timelineBlock c.sessionCount) c.sessionCount) ⟨k, hb, []⟩))
        sessionCount := c.sessionCount + 1
        gapCount := c.gapCount + new.countP (timelineExceeds opts)
        orderingViolations := c.orderingViolations + new.countP timelineDecreases
        cur := some (c.sessions, c.sessionCount) } := by
  have hcur := h.cur
  rw [timelineUptimes, ← @segments_heads _ _ Record.heartbeat? 0 recs]
  unfold timelinePlace
  dsimp only
  rw [timelineNew_eq h hroom]
  by_cases h0 : c.sessionCount = 0
  · have hnil : (segments Record.heartbeat? 0 recs).2 = [] :=
      List.eq_nil_of_length_eq_zero (h.count.symm.trans h0)
    rw [if_pos h0] at hcur
    refine ⟨[], ?_, ?_⟩
    · rw [hnil]
      rfl
    · rw [timelineStore, hcur]
      rfl
  · obtain ⟨init, seg, hsnoc, hlen, hlast, -⟩ := h.last h0
    rw [if_neg h0, ← hlen, Nat.add_sub_cancel] at hcur
    refine ⟨[(seg.head.uptimeS, hb.uptimeS)], ?_, ?_⟩
    · rw [hsnoc, List.map_append, List.map_append]
      exact adjacent_snoc _ _ _
    · have hprev : (update c.memory c.sessions (update (c.memory c.sessions) c.sessionCount
          (timelineSession (held (timelineBlock c.sessionCount) c.sessionCount) ⟨k, hb, []⟩))
            c.sessions init.length).uptimeS = seg.head.uptimeS := by
        rw [Function.update_self, Function.update_of_ne (by omega), hlast]
        rfl
      rw [timelineStore, hcur]
      dsimp only
      rw [hprev, timelineCompare_eq]

/-- A heartbeat in an array with room starts a session. -/
theorem timelinePlace_holds {rec : Record} {hb : Heartbeat} (h : TimelineHolds held opts recs c)
    (hroom : c.sessionCount < c.sessionCap) (hrec : rec.heartbeat? = some hb) :
    TimelineHolds held opts (recs ++ [rec]) (timelinePlace opts hb recs.length c) := by
  have hsegs := segments_mark hrec 0 recs
  rw [Nat.zero_add] at hsegs
  have hups : timelineUptimes (recs ++ [rec]) = timelineUptimes recs ++ [hb.uptimeS] := by
    rw [timelineUptimes, List.filterMap_append, List.filterMap_cons_some hrec, List.filterMap_nil,
      List.map_append]
    rfl
  obtain ⟨new, hadjacent, hplace⟩ := timelinePlace_eq h hroom hb recs.length
  rw [hplace]
  refine ⟨?_, ?_, ?_, ?_, rfl, ?_, ?_, ?_⟩
  · rw [hsegs, timelineSessions_snoc, ← h.count, ← h.array, array_eq]
    dsimp only
    rw [Function.update_self, cells_store]
    rfl
  · intro hcap i hi
    dsimp only at hcap hi ⊢
    rw [Function.update_self, Function.update_of_ne (by omega)]
    exact h.blank hcap i (by omega)
  · intro b hb
    dsimp only at hb ⊢
    have hne : b ≠ c.sessions := by
      rcases h.grown with ⟨-, hcap, -⟩ | ⟨hfresh, -⟩ <;> omega
    rw [Function.update_of_ne hne]
    exact h.untouched b hb
  · right
    dsimp only
    rcases h.grown with ⟨-, hcap, -⟩ | ⟨hfresh, hcap, -, hdoubled⟩
    · omega
    · exact ⟨hfresh, hcap, hroom, by omega⟩
  · rw [hups, hadjacent, List.countP_append, ← h.gaps]
  · rw [hups, hadjacent, List.countP_append, ← h.orderings]
  · rw [hsegs]
    exact h.unattributed

/-- Counting a record in a session. -/
theorem timelineSession_add (old : TimelineSession) (seg : Segment Record Heartbeat) (rec : Record) :
    ({ timelineSession old seg with
        recordCount := (timelineSession old seg).recordCount + 1
        perTag := update (timelineSession old seg).perTag rec.tag
          ((timelineSession old seg).perTag rec.tag + 1) } : TimelineSession) =
      timelineSession old (seg.add rec) := by
  simp only [timelineSession, Segment.add, List.length_append, List.length_singleton, Nat.add_assoc]
  congr 1
  funext t
  rw [Function.update_apply, List.countP_append, List.countP_singleton]
  by_cases ht : t = rec.tag
  · subst ht
    rw [if_pos rfl, decide_eq_true rfl, if_pos rfl, UInt64.ofNat_add, UInt64.add_assoc]
    rfl
  · have hne : decide (rec.tag = t) = false := decide_eq_false fun heq => ht heq.symm
    rw [if_neg ht, hne]
    rfl

/-- Another record is counted in the last session, or before the first. -/
theorem timelineAdd_holds {rec : Record} (h : TimelineHolds held opts recs c)
    (hrec : rec.heartbeat? = none) :
    TimelineHolds held opts (recs ++ [rec]) (timelineAdd rec c) := by
  have hups : timelineUptimes (recs ++ [rec]) = timelineUptimes recs := by
    rw [timelineUptimes, List.filterMap_append, List.filterMap_cons_none hrec, List.filterMap_nil,
      List.append_nil]
    rfl
  have hcur := h.cur
  unfold timelineAdd
  by_cases h0 : c.sessionCount = 0
  · have hnil : (segments Record.heartbeat? 0 recs).2 = [] :=
      List.eq_nil_of_length_eq_zero (h.count.symm.trans h0)
    rw [if_pos h0] at hcur
    rw [hcur]
    dsimp only
    refine ⟨?_, h.blank, h.untouched, h.grown, (if_pos h0).symm, hups ▸ h.gaps, hups ▸ h.orderings, ?_⟩
    · rw [segments_lead hrec hnil, ← hnil]
      exact h.array
    · rw [segments_lead hrec hnil, List.length_append, ← h.unattributed]
      rfl
  · obtain ⟨init, seg, hsnoc, hlen, hlast, hinit⟩ := h.last h0
    rw [if_neg h0, ← hlen, Nat.add_sub_cancel] at hcur
    rw [hcur]
    dsimp only
    rw [hlast, timelineSession_add, timelineStore]
    refine ⟨?_, ?_, ?_, h.grown, ?_, hups ▸ h.gaps, hups ▸ h.orderings, ?_⟩
    · rw [segments_body hrec hsnoc, timelineSessions_snoc, ← hinit, array_eq]
      dsimp only
      rw [← hlen, Function.update_self, cells_store]
    · intro hcap i hi
      dsimp only at hcap hi ⊢
      rw [Function.update_self, Function.update_of_ne (by omega)]
      exact h.blank hcap i hi
    · intro b hb
      dsimp only at hb ⊢
      have hne : b ≠ c.sessions := by
        rcases h.grown with ⟨hzero, -⟩ | ⟨hfresh, -⟩ <;> omega
      rw [Function.update_of_ne hne]
      exact h.untouched b hb
    · dsimp only
      rw [if_neg h0, ← hlen, Nat.add_sub_cancel]
      exact hcur
    · rw [segments_body hrec hsnoc]
      exact h.unattributed

/-- **What one callback does.** -/
theorem timelineOnRecord_holds {ev : WalkEvent} (h : TimelineHolds held opts recs c)
    (hindex : ev.recordIndex = recs.length)
    (hok : timelineOnRecord opts ev c = (none, c')) :
    TimelineHolds held opts (recs ++ [ev.record]) c' := by
  unfold timelineOnRecord at hok
  cases hrec : ev.record.heartbeat? with
  | none =>
    rw [hrec] at hok
    cases hok
    exact timelineAdd_holds h hrec
  | some hb =>
    rw [hrec] at hok
    dsimp only at hok
    cases hopen : timelineOpen opts hb ev.recordIndex c with
    | error rc =>
      rw [hopen] at hok
      cases hok
    | ok c₁ =>
      rw [hopen] at hok
      cases hok
      rw [timelineOpen, Except.bind_eq_ok] at hopen
      obtain ⟨c₂, hgrow, hplace⟩ := hopen
      cases hplace
      rw [hindex]
      by_cases hfull : c.sessionCount = c.sessionCap
      · rw [if_pos hfull] at hgrow
        obtain ⟨h₂, hroom⟩ := timelineGrow_holds h hfull hgrow
        exact timelinePlace_holds h₂ hroom hrec
      · rw [if_neg hfull] at hgrow
        cases hgrow
        have hroom : c.sessionCount < c.sessionCap := by
          rcases h.grown with ⟨h0, hcap, -⟩ | ⟨-, -, hle, -⟩ <;> omega
        exact timelinePlace_holds h hroom hrec

end Steps

/-! ## Whole runs -/

/-- **What a timeline holds after a walk that ends.** -/
theorem timelineBuild_holds {env : Nat → CodecEnv} {held : Nat → Nat → TimelineSession} {arena : Arena}
    {opts : Option TimelineOptions} {maxFile : Nat} {file : Bytes} {c : TimelineCtx}
    (hok : timelineBuild env held arena opts maxFile file = (none, c)) :
    TimelineHolds held opts ((delivered env file).map (·.record)) c := by
  refine walkAbsorb_numbered (w := timelineWalk opts) rfl (fun _ _ _ h => h) ?_
    (timelineInit_holds arena) hok
  intro recs ev c c' h hindex hstep
  exact timelineOnRecord_holds h hindex hstep

/-! ## The partition -/

/-- The session is that of its segment: the fields of its heartbeat, its ordinal, and the number of
records from it up to the next heartbeat, in all and for every tag. -/
def SessionOf (seg : Segment Record Heartbeat) (s : TimelineSession) : Prop :=
  s.uptimeS = seg.head.uptimeS ∧ s.seq = seg.head.seq ∧ s.firstRecordIndex = seg.start ∧
    s.recordCount = 1 + seg.body.length ∧ ∀ t, s.perTag t =
      UInt64.ofNat ((Record.heartbeat seg.head :: seg.body).countP fun rec => rec.tag = t)

/-- The timeline partitions a record stream: one session for each heartbeat, and the rest before the
first. -/
structure TimelinePartition (recs : List Record) (c : TimelineCtx) : Prop where
  sessions : List.Forall₂ SessionOf (segments Record.heartbeat? 0 recs).2 c.array
  unattributed : c.unattributedRecords = (segments Record.heartbeat? 0 recs).1.length
  total : (c.array.map (·.recordCount)).sum + c.unattributedRecords = recs.length

/-- A session counts every tag when the memory it is placed in counts none. -/
theorem sessionOf_iff (old : TimelineSession) (seg : Segment Record Heartbeat) :
    SessionOf seg (timelineSession old seg) ↔ ∀ t, t ≠ REC_HEARTBEAT → old.perTag t = 0 := by
  have htag : ∀ t, UInt64.ofNat ((Record.heartbeat seg.head :: seg.body).countP
      fun rec => rec.tag = t) = (if t = REC_HEARTBEAT then 1 else 0) +
        UInt64.ofNat (seg.body.countP fun rec => rec.tag = t) := by
    intro t
    rw [List.countP_cons, UInt64.ofNat_add, UInt64.add_comm]
    congr 1
    by_cases ht : t = REC_HEARTBEAT
    · subst ht
      rfl
    · have hne : decide ((Record.heartbeat seg.head).tag = t) = false :=
        decide_eq_false fun heq => ht heq.symm
      rw [if_neg ht, hne]
      rfl
  unfold SessionOf
  simp only [timelineSession, htag, true_and, UInt64.add_left_inj]
  refine forall_congr' fun t => ?_
  by_cases ht : t = REC_HEARTBEAT <;> simp [ht]

theorem timelineSessions_forall₂ {held : Nat → Nat → TimelineSession} :
    ∀ (segs : List (Segment Record Heartbeat)) (n : Nat),
      List.Forall₂ SessionOf segs ((segs.zipIdx n).map fun (seg, k) =>
        timelineSession (held (timelineBlock k) k) seg) ↔
          ∀ k, n ≤ k → k < n + segs.length →
            ∀ t, t ≠ REC_HEARTBEAT → (held (timelineBlock k) k).perTag t = 0
  | [], n => ⟨fun _ k hle hlt => absurd hlt (Nat.not_lt.mpr hle), fun _ => .nil⟩
  | seg :: segs, n => by
    rw [List.zipIdx_cons, List.map_cons, List.forall₂_cons, timelineSessions_forall₂ segs (n + 1),
      sessionOf_iff, List.length_cons]
    constructor
    · rintro ⟨hfirst, hrest⟩ k hle hlt
      rcases Nat.eq_or_lt_of_le hle with rfl | hgt
      · exact hfirst
      · exact hrest k hgt (by omega)
    · intro h
      exact ⟨h n (Nat.le_refl n) (by omega), fun k hle hlt => h k (by omega) (by omega)⟩

theorem TimelineHolds.partition_iff {held : Nat → Nat → TimelineSession}
    {opts : Option TimelineOptions} {recs : List Record} {c : TimelineCtx}
    (h : TimelineHolds held opts recs c) :
    TimelinePartition recs c ↔ ∀ k < (recs.filterMap Record.heartbeat?).length,
      ∀ t, t ≠ REC_HEARTBEAT → (held (timelineBlock k) k).perTag t = 0 := by
  have hcounts : ∀ segs : List (Segment Record Heartbeat),
      (timelineSessions held segs).map (·.recordCount) = segs.map fun s => 1 + s.body.length := by
    intro segs
    rw [timelineSessions, List.map_map, ← List.zipIdx_map_fst 0 segs, List.map_map,
      List.zipIdx_map_fst]
    rfl
  have hsessions := @timelineSessions_forall₂ held (segments Record.heartbeat? 0 recs).2 0
  rw [← timelineSessions, ← h.array] at hsessions
  rw [← segments_heads 0 recs, List.length_map]
  constructor
  · intro hp k hk
    exact hsessions.mp hp.sessions k (Nat.zero_le k) (by omega)
  · intro hheld
    refine ⟨hsessions.mpr fun k _ hk => hheld k (by omega), h.unattributed, ?_⟩
    rw [h.array, hcounts, h.unattributed, segments_length]

/-- **The timeline partitions the record stream exactly when no session is placed in memory that
counts a record of another tag.** -/
theorem timeline_partition_iff {env : Nat → CodecEnv} {held : Nat → Nat → TimelineSession}
    {arena : Arena} {opts : Option TimelineOptions} {maxFile : Nat} {file : Bytes} {c : TimelineCtx}
    (hok : timelineBuild env held arena opts maxFile file = (none, c)) :
    let recs := (delivered env file).map (·.record)
    TimelinePartition recs c ↔ ∀ k < (recs.filterMap Record.heartbeat?).length,
      ∀ t, t ≠ REC_HEARTBEAT → (held (timelineBlock k) k).perTag t = 0 :=
  (timelineBuild_holds hok).partition_iff

/-- Memory in which every tag counts `n` records. -/
def heldCounts (n : UInt64) (_ _ : Nat) : TimelineSession := ⟨0, 0, 0, fun _ => n, 0⟩

/-- The timeline of two `HEARTBEAT`s and a `KEYREF`. -/
def timelineTwo (n : UInt64) : Option Err × TimelineCtx :=
  timelineBuild (fun _ => ⟨true, 0⟩) (heldCounts n) ⟨fun _ => false, 0⟩ none 4096 twoSections

theorem timelineTwo_ok {n : UInt64} (h : (timelineTwo n).1 = none) :
    timelineTwo n = (none, (timelineTwo n).2) := by
  generalize timelineTwo n = r at h ⊢
  cases r
  cases h
  rfl

theorem timeline_partition_two : ∃ c, timelineTwo 0 = (none, c) ∧
    (TimelinePartition ((delivered (fun _ => ⟨true, 0⟩) twoSections).map (·.record)) c ↔
      ∀ k < (((delivered (fun _ => ⟨true, 0⟩) twoSections).map (·.record)).filterMap
        Record.heartbeat?).length,
          ∀ t, t ≠ REC_HEARTBEAT → (heldCounts 0 (timelineBlock k) k).perTag t = 0) := by
  have hok := timelineTwo_ok (n := 0) (by decide +kernel)
  exact ⟨_, hok, timeline_partition_iff hok⟩

/-- In memory that counts one record of every tag, the sessions count one too many. -/
theorem timeline_counts_stale : ∃ c, timelineTwo 1 = (none, c) ∧
    ¬ TimelinePartition ((delivered (fun _ => ⟨true, 0⟩) twoSections).map (·.record)) c := by
  have hok := timelineTwo_ok (n := 1) (by decide +kernel)
  refine ⟨_, hok, fun hp => ?_⟩
  have h := (timelineBuild_holds hok).partition_iff.mp hp 0 (by decide +kernel) REC_SENSOR (by decide)
  exact absurd h (by decide)

/-! ## The anomaly lines -/

section Lines

variable {opts : Option TimelineOptions} {c : TimelineCtx}

/-- The line reports a gap. -/
def isGapLine (line : Bytes) : Bool := (ascii "        GAP: ").isPrefixOf line

/-- The line reports an ordering violation. -/
def isOrderingLine (line : Bytes) : Bool := (ascii "        ORDERING: ").isPrefixOf line

theorem sessionLine_plain (i : Nat) (s : TimelineSession) :
    isGapLine (timelineSessionLine i s) = false ∧ isOrderingLine (timelineSessionLine i s) = false := by
  unfold timelineSessionLine
  simp only [List.append_assoc]
  exact ⟨rfl, rfl⟩

theorem gapLine_kind (prev uptime : UInt32) :
    isGapLine (timelineGapLine prev uptime) = true ∧
      isOrderingLine (timelineGapLine prev uptime) = false := by
  unfold timelineGapLine
  simp only [List.append_assoc]
  exact ⟨rfl, rfl⟩

theorem orderingLine_kind (prev uptime : UInt32) :
    isGapLine (timelineOrderingLine prev uptime) = false ∧
      isOrderingLine (timelineOrderingLine prev uptime) = true := by
  unfold timelineOrderingLine
  simp only [List.append_assoc]
  exact ⟨rfl, rfl⟩

theorem anomaly_counts (prev uptime : UInt32) :
    (timelineAnomaly opts prev uptime).countP isGapLine =
        [(prev, uptime)].countP (timelineExceeds opts) ∧
      (timelineAnomaly opts prev uptime).countP isOrderingLine =
        [(prev, uptime)].countP timelineDecreases := by
  unfold timelineAnomaly
  rw [List.countP_singleton, List.countP_singleton]
  by_cases hlt : uptime < prev
  · rw [if_pos hlt, timelineDecreases_iff.mpr hlt, timelineExceeds_of_lt hlt,
      List.countP_singleton, List.countP_singleton, (orderingLine_kind prev uptime).1,
      (orderingLine_kind prev uptime).2]
    exact ⟨rfl, rfl⟩
  · have horder : timelineDecreases (prev, uptime) = false := by
      rw [← Bool.not_eq_true, timelineDecreases_iff]
      exact hlt
    rw [if_neg hlt, horder]
    by_cases hgt : (uptime - prev).toUInt64 >
        (timelineTolerance opts).toUInt64 * (timelineExpected opts).toUInt64
    · rw [if_pos hgt, (timelineExceeds_iff hlt).mpr hgt, List.countP_singleton,
        List.countP_singleton, (gapLine_kind prev uptime).1, (gapLine_kind prev uptime).2]
      exact ⟨rfl, rfl⟩
    · rw [if_neg hgt, if_neg (mt (timelineExceeds_iff hlt).mp hgt)]
      exact ⟨rfl, rfl⟩

/-- The lines of the sessions report the anomalies of neighbours. -/
theorem sessionLines_counts {isLine : Bytes → Bool} {isPair : UInt32 × UInt32 → Bool}
    (hplain : ∀ i s, isLine (timelineSessionLine i s) = false)
    (hanomaly : ∀ prev uptime, (timelineAnomaly opts prev uptime).countP isLine =
      [(prev, uptime)].countP isPair) : ∀ n : Nat,
      ((List.range n).flatMap (timelineSessionLines opts c)).countP isLine =
        (adjacent ((List.range n).map fun i => (c.memory c.sessions i).uptimeS)).countP isPair
  | 0 => rfl
  | 1 => by
    rw [List.range_one, List.flatMap_singleton, timelineSessionLines, if_neg (by simp),
      List.countP_singleton, hplain]
    rfl
  | n + 2 => by
    have hlast : (timelineSessionLines opts c (n + 1)).countP isLine = [((c.memory c.sessions n).uptimeS,
        (c.memory c.sessions (n + 1)).uptimeS)].countP isPair := by
      rw [timelineSessionLines, if_pos (by simp), List.countP_cons_of_neg (by simp [hplain]), hanomaly]
      rfl
    rw [List.range_succ, List.flatMap_append, List.countP_append,
      sessionLines_counts hplain hanomaly (n + 1), List.flatMap_singleton, hlast, List.map_append,
      List.map_singleton, List.range_succ, List.map_append, List.map_singleton, adjacent_snoc,
      List.countP_append]

theorem timelinePrint_counts {isLine : Bytes → Bool} {isPair : UInt32 × UInt32 → Bool}
    (hplain : ∀ i s, isLine (timelineSessionLine i s) = false)
    (hopening : ∀ rest, isLine (ascii "sessions: " ++ rest) = false)
    (hlead : ∀ rest, isLine (ascii "unattributed-records (before first heartbeat): " ++ rest) = false)
    (hclosing : ∀ rest, isLine (ascii "timeline: gaps=" ++ rest) = false)
    (hanomaly : ∀ prev uptime, (timelineAnomaly opts prev uptime).countP isLine =
      [(prev, uptime)].countP isPair) :
    (timelinePrint opts c).countP isLine =
      (adjacent (c.array.map (·.uptimeS))).countP isPair := by
  have hlines := sessionLines_counts (c := c) hplain hanomaly c.sessionCount
  unfold timelinePrint
  simp only [List.append_assoc]
  rw [List.countP_cons_of_neg (by simp [hopening]), List.countP_append, List.countP_append, hlines,
    List.countP_singleton, hclosing, TimelineCtx.array, List.map_map]
  split
  · rw [List.countP_singleton, hlead]
    rfl
  · rfl

end Lines

/-- The uptimes of the sessions are those of the heartbeats. -/
theorem TimelineHolds.uptimes {held : Nat → Nat → TimelineSession} {opts : Option TimelineOptions}
    {recs : List Record} {c : TimelineCtx} (h : TimelineHolds held opts recs c) :
    c.array.map (·.uptimeS) = timelineUptimes recs := by
  rw [h.array, timelineUptimes, ← segments_heads 0 recs, timelineSessions, List.map_map, List.map_map]
  conv_rhs => rw [← List.zipIdx_map_fst 0 (segments Record.heartbeat? 0 recs).2, List.map_map]
  rfl

/-- **The anomaly totals are the numbers of anomaly lines**, and both count the neighbouring heartbeats
whose uptimes, as integers, decrease or differ by more than the tolerance. -/
theorem timeline_anomalies {env : Nat → CodecEnv} {held : Nat → Nat → TimelineSession} {arena : Arena}
    {opts : Option TimelineOptions} {maxFile : Nat} {file : Bytes} {c : TimelineCtx}
    (hok : timelineBuild env held arena opts maxFile file = (none, c)) :
    let uptimes := timelineUptimes ((delivered env file).map (·.record))
    c.gapCount = (timelinePrint opts c).countP isGapLine ∧
      c.gapCount = (adjacent uptimes).countP (timelineExceeds opts) ∧
      c.orderingViolations = (timelinePrint opts c).countP isOrderingLine ∧
      c.orderingViolations = (adjacent uptimes).countP timelineDecreases := by
  have h := timelineBuild_holds hok
  have hgaps := @timelinePrint_counts opts c isGapLine _
    (fun i s => (sessionLine_plain i s).1) (fun _ => rfl) (fun _ => rfl) (fun _ => rfl)
    (fun prev uptime => (anomaly_counts prev uptime).1)
  have horderings := @timelinePrint_counts opts c isOrderingLine _
    (fun i s => (sessionLine_plain i s).2) (fun _ => rfl) (fun _ => rfl) (fun _ => rfl)
    (fun prev uptime => (anomaly_counts prev uptime).2)
  rw [h.uptimes] at hgaps horderings
  exact ⟨h.gaps.trans hgaps.symm, h.gaps, h.orderings.trans horderings.symm, h.orderings⟩

theorem timeline_anomalies_two : ∃ c, timelineTwo 0 = (none, c) ∧
    let uptimes := timelineUptimes ((delivered (fun _ => ⟨true, 0⟩) twoSections).map (·.record))
    c.gapCount = (timelinePrint none c).countP isGapLine ∧
      c.gapCount = (adjacent uptimes).countP (timelineExceeds none) ∧
      c.orderingViolations = (timelinePrint none c).countP isOrderingLine ∧
      c.orderingViolations = (adjacent uptimes).countP timelineDecreases := by
  have hok := timelineTwo_ok (n := 0) (by decide +kernel)
  exact ⟨_, hok, timeline_anomalies hok⟩

end Dtl
