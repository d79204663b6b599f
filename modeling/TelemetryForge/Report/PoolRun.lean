import Mathlib.Data.Finset.Basic
import TelemetryForge.Records.Pools
import TelemetryForge.Report.Walk

/-!
# The pools during a walk

A walk drives the payload pools: it parses one item after the other and, after the record loop of
each decoded section, releases the event payloads.  `walkSteps` lists these steps for a walk with
arbitrary callbacks, up to an abort; `PoolRun` executes them with every buffer a fresh handle and
`free` as removal from the live set.

A handle matters only through one bit, whether a delivered record refers to it.  Pool calls do not
look at names, so the run over handles is followed by a run over these bits.

Principal results: `walkMemory_logged` — the steps deliver the records the walk hands to its
callback; `PoolRun.run_flags` — every delivered handle is live at every point of a run if and only if
the run over flags frees no flagged buffer.
-/

set_option autoImplicit false

namespace Dtl

/-! ## The steps of a walk -/

/-- What a walk does to the pools: it parses an item, or leaves a decoded section. -/
inductive PoolStep where
  | parse (tlv : Tlv)
  | sectionEnd
  deriving DecidableEq

/-- The steps of a section's record loop. -/
def streamSteps {σ : Type} (w : Walk σ) (si : Nat) (sec : Section) (stream : Bytes) (pos : WalkPos)
    (s : σ) : List PoolStep :=
  match _h : tlvNext stream with
  | .error _ => []
  | .ok (tlv, stream') => .parse tlv ::
    match recordParse tlv with
    | .error rc =>
      streamSteps w si sec stream' ⟨pos.recordInSec + 1, pos.recordIndex⟩
        (w.onError ⟨si, pos.recordInSec, rc, false⟩ s)
    | .ok rec =>
      match w.onRecord ⟨sec.type, sec.codecId, si, pos.recordInSec, pos.recordIndex, rec⟩ s with
      | (some _, _) => []
      | (none, s) => streamSteps w si sec stream' ⟨pos.recordInSec + 1, pos.recordIndex + 1⟩ s
termination_by stream.length
decreasing_by all_goals exact tlvNext_consumes _ _ _ _h

section Unfold

variable {σ : Type} {w : Walk σ} {si : Nat} {sec : Section} {stream : Bytes} {pos : WalkPos} {s : σ}

theorem streamSteps_end {rc : Err} (h : tlvNext stream = .error rc) :
    streamSteps w si sec stream pos s = [] := by
  rw [streamSteps]
  split
  · rfl
  · rename_i h'
    cases h.symm.trans h'

theorem streamSteps_item {tlv : Tlv} {stream' : Bytes} (h : tlvNext stream = .ok (tlv, stream')) :
    streamSteps w si sec stream pos s = .parse tlv ::
      match recordParse tlv with
      | .error rc =>
        streamSteps w si sec stream' ⟨pos.recordInSec + 1, pos.recordIndex⟩
          (w.onError ⟨si, pos.recordInSec, rc, false⟩ s)
      | .ok rec =>
        match w.onRecord ⟨sec.type, sec.codecId, si, pos.recordInSec, pos.recordIndex, rec⟩ s with
        | (some _, _) => []
        | (none, s) =>
          streamSteps w si sec stream' ⟨pos.recordInSec + 1, pos.recordIndex + 1⟩ s := by
  rw [streamSteps]
  split
  · rename_i h'
    cases h.symm.trans h'
  · rename_i tlv' stream'' h'
    cases h.symm.trans h'
    rfl

end Unfold

/-- The steps of the section loop; a section that is skipped releases nothing. -/
def sectionSteps {σ : Type} (env : Nat → CodecEnv) (w : Walk σ) :
    Nat → Nat → List Section → σ → List PoolStep
  | _, _, [], _ => []
  | si, recordIndex, sec :: secs, s =>
    match sectionStream (env si) w.cap sec with
    | .error rc => sectionSteps env w (si + 1) recordIndex secs (w.onError ⟨si, 0, rc, true⟩ s)
    | .ok raw => streamSteps w si sec raw ⟨0, recordIndex⟩ s ++
      match walkStream w si sec raw ⟨0, recordIndex⟩ s with
      | (some _, _, _) => []
      | (none, pos, s) => .sectionEnd :: sectionSteps env w (si + 1) pos.recordIndex secs s

/-- The steps of `dtl_walk_memory`. -/
def walkSteps {σ : Type} (env : Nat → CodecEnv) (w : Walk σ) (data : Bytes) (s : σ) :
    List PoolStep :=
  match containerParse data with
  | .error _ => []
  | .ok cont => sectionSteps env w 0 0 cont.sections s

namespace PoolStep

/-- The result of the step's parse, and its pool calls. -/
def outcome (tlv : Tlv) : Res Record × List PoolOp := (recordParsePooled tlv).run.run []

/-- The record the step hands to `on_record`. -/
def delivered : PoolStep → Option Record
  | parse tlv => (outcome tlv).1.toOption
  | sectionEnd => none

/-- The pool calls of the step. -/
def calls : PoolStep → List PoolOp
  | parse tlv => (outcome tlv).2
  | sectionEnd => [.eventPoolRelease]

theorem outcome_eq (tlv : Tlv) : outcome tlv = (recordParse tlv, recordCalls tlv) :=
  recordParsePooled_performs tlv []

theorem delivered_parse (tlv : Tlv) : (parse tlv).delivered = (recordParse tlv).toOption := by
  rw [delivered, outcome_eq]

theorem calls_parse (tlv : Tlv) : (parse tlv).calls = recordCalls tlv := by
  rw [calls, outcome_eq]

end PoolStep

/-- `w`, with a log of the records handed to `on_record`. -/
def Walk.logged {σ : Type} (w : Walk σ) : Walk (σ × List Record) where
  onRecord ev s := ((w.onRecord ev s.1).1, (w.onRecord ev s.1).2, s.2 ++ [ev.record])
  onError we s := (w.onError we s.1, s.2)
  maxDecode := w.maxDecode

theorem walkStream_logged {σ : Type} (w : Walk σ) (si : Nat) (sec : Section) (stream : Bytes)
    (pos : WalkPos) (s : σ) (log : List Record) :
    walkStream w.logged si sec stream pos (s, log) =
      ((walkStream w si sec stream pos s).1, (walkStream w si sec stream pos s).2.1,
        (walkStream w si sec stream pos s).2.2,
        log ++ (streamSteps w si sec stream pos s).filterMap PoolStep.delivered) := by
  induction hn : stream.length using Nat.strongRecOn generalizing stream pos s log with
  | ind n ih =>
    cases hnext : tlvNext stream with
    | error rc => simp [walkStream_end hnext, streamSteps_end hnext]
    | ok p =>
      obtain ⟨tlv, stream'⟩ := p
      have hlt : stream'.length < n := hn ▸ tlvNext_consumes _ _ _ hnext
      rw [walkStream_item hnext, walkStream_item hnext, streamSteps_item hnext]
      cases hparse : recordParse tlv with
      | error rc =>
        have hd : (PoolStep.parse tlv).delivered = none := by
          rw [PoolStep.delivered_parse, hparse]; rfl
        rw [List.filterMap_cons_none hd]
        exact ih _ hlt stream' _ _ log rfl
      | ok rec =>
        have hd : (PoolStep.parse tlv).delivered = some rec := by
          rw [PoolStep.delivered_parse, hparse]; rfl
        rw [List.filterMap_cons_some hd]
        have hcb : w.logged.onRecord
            ⟨sec.type, sec.codecId, si, pos.recordInSec, pos.recordIndex, rec⟩ (s, log) =
            ((w.onRecord ⟨sec.type, sec.codecId, si, pos.recordInSec, pos.recordIndex, rec⟩ s).1,
              (w.onRecord ⟨sec.type, sec.codecId, si, pos.recordInSec, pos.recordIndex, rec⟩ s).2,
              log ++ [rec]) := rfl
        dsimp only
        rw [hcb]
        cases w.onRecord ⟨sec.type, sec.codecId, si, pos.recordInSec, pos.recordIndex, rec⟩ s with
        | mk rc s' =>
          cases rc with
          | some rc => rfl
          | none =>
            dsimp only
            rw [ih _ hlt stream' _ _ _ rfl, List.append_assoc]
            rfl

theorem walkSections_logged {σ : Type} (env : Nat → CodecEnv) (w : Walk σ) :
    ∀ (secs : List Section) (si recordIndex : Nat) (s : σ) (log : List Record),
      walkSections env w.logged si recordIndex secs (s, log) =
        ((walkSections env w si recordIndex secs s).1, (walkSections env w si recordIndex secs s).2,
          log ++ (sectionSteps env w si recordIndex secs s).filterMap PoolStep.delivered)
  | [], _, _, _, _ => by simp [walkSections, sectionSteps]
  | sec :: secs, si, recordIndex, s, log => by
    have hcap : w.logged.cap = w.cap := rfl
    rw [walkSections, walkSections, sectionSteps, hcap]
    cases sectionStream (env si) w.cap sec with
    | error rc => exact walkSections_logged env w secs _ _ _ log
    | ok raw =>
      dsimp only
      rw [walkStream_logged]
      cases walkStream w si sec raw ⟨0, recordIndex⟩ s with
      | mk rc rest =>
        obtain ⟨pos, s'⟩ := rest
        cases rc with
        | some rc => simp
        | none =>
          dsimp only
          rw [walkSections_logged env w secs, List.filterMap_append, List.append_assoc]
          rfl

/-- The steps deliver the records the walk hands to `on_record`, in that order. -/
theorem walkMemory_logged {σ : Type} (env : Nat → CodecEnv) (w : Walk σ) (data : Bytes) (s : σ) :
    (walkMemory env w.logged data (s, [])).2.2 =
      (walkSteps env w data s).filterMap PoolStep.delivered := by
  unfold walkMemory walkSteps
  cases containerParse data with
  | error rc => rfl
  | ok cont =>
    dsimp only
    rw [walkSections_logged]
    rfl

/-! ## Handles -/

abbrev Handle := Nat

/-- The pools, the handles in use, those handed to the parse in progress, and those the delivered
records refer to. -/
structure PoolRun where
  pools : Pools Handle
  next : Handle
  live : Finset Handle
  taken : Finset Handle
  held : Finset Handle

namespace PoolRun

/-- The handle a call hands out, if any. -/
def handed (r : PoolRun) (op : PoolOp) : Finset Handle :=
  if (poolCall r.next r.pools op).took then {r.next} else ∅

/-- One pool call; the buffer handed out is a fresh handle. -/
def call (r : PoolRun) (op : PoolOp) : PoolRun :=
  let e := poolCall r.next r.pools op
  { r with
    pools := e.pools
    next := if e.took then r.next + 1 else r.next
    live := r.live \ e.freed.toFinset ∪ r.handed op
    taken := r.taken ∪ r.handed op }

/-- The end of a step: a delivered record keeps what its parse was handed. -/
def settle (r : PoolRun) (delivers : Bool) : PoolRun :=
  { r with taken := ∅, held := if delivers then r.held ∪ r.taken else r.held }

/-- One step of the walk. -/
def step (r : PoolRun) (s : PoolStep) : PoolRun :=
  (s.calls.foldl call r).settle s.delivered.isSome

def run (r : PoolRun) (steps : List PoolStep) : PoolRun := steps.foldl step r

/-- Every handle a delivered record refers to is live. -/
def Retains (r : PoolRun) : Prop := ∀ h ∈ r.held, h ∈ r.live

end PoolRun

/-- The pools as a walk finds them: whatever earlier calls left behind. -/
structure PoolState where
  pools : Pools Handle
  next : Handle
  live : Finset Handle
  ok : pools.Ok
  fresh : pools.All (· < next)

/-- The start of a walk: nothing is delivered yet. -/
def PoolState.begin (p : PoolState) : PoolRun := ⟨p.pools, p.next, p.live, ∅, ∅⟩

/-! ## From handles to flags -/

namespace PoolRun

/-- Whether a delivered record refers to `h`, if the parse in progress ends as `b` says. -/
def flag (r : PoolRun) (b : Bool) (h : Handle) : Bool :=
  decide (h ∈ r.held) || (b && decide (h ∈ r.taken))

/-- No handle from `next` on is in use. -/
structure Fresh (r : PoolRun) : Prop where
  pools : r.pools.All (· < r.next)
  taken : ∀ h ∈ r.taken, h < r.next
  held : ∀ h ∈ r.held, h < r.next

/-- Every flagged handle is live. -/
def Keeps (r : PoolRun) (b : Bool) : Prop := ∀ h, r.flag b h = true → h ∈ r.live

theorem flag_iff {r : PoolRun} {b : Bool} {h : Handle} :
    r.flag b h = true ↔ h ∈ r.held ∨ b = true ∧ h ∈ r.taken := by
  simp [flag]

theorem Fresh.flag_lt {r : PoolRun} (hf : r.Fresh) {b : Bool} {h : Handle}
    (hb : r.flag b h = true) : h < r.next := by
  rcases flag_iff.mp hb with hb | ⟨-, hb⟩
  · exact hf.held h hb
  · exact hf.taken h hb

theorem mem_handed {r : PoolRun} {op : PoolOp} {h : Handle} :
    h ∈ r.handed op ↔ (poolCall r.next r.pools op).took = true ∧ h = r.next := by
  unfold handed
  split <;> simp [*]

/-- What a call does to the flags: old handles keep theirs, a new one gets the parse's. -/
theorem flag_call {r : PoolRun} (hf : r.Fresh) (b : Bool) (op : PoolOp) (h : Handle) :
    (r.call op).flag b h = if h ∈ r.handed op then b else r.flag b h := by
  have hheld : r.next ∉ r.held := fun hm => Nat.lt_irrefl _ (hf.held _ hm)
  have hcall : (r.call op).flag b h = true ↔
      h ∈ r.held ∨ b = true ∧ (h ∈ r.taken ∨ h ∈ r.handed op) := by
    rw [flag_iff, ← Finset.mem_union]
    rfl
  rw [Bool.eq_iff_iff, hcall]
  by_cases hh : h ∈ r.handed op
  · obtain ⟨-, rfl⟩ := mem_handed.mp hh
    simp [hh, hheld]
  · simp [hh, flag_iff]

theorem next_le_call (r : PoolRun) (op : PoolOp) : r.next ≤ (r.call op).next := by
  simp only [call]
  split
  · exact Nat.le_succ _
  · exact Nat.le_refl _

theorem handed_lt {r : PoolRun} {op : PoolOp} {h : Handle} (hh : h ∈ r.handed op) :
    h < (r.call op).next := by
  obtain ⟨htook, rfl⟩ := mem_handed.mp hh
  simp [call, htook]

theorem fresh_call {r : PoolRun} (hf : r.Fresh) (op : PoolOp) : (r.call op).Fresh := by
  have hle := r.next_le_call op
  refine ⟨poolCall_all (hf.pools.imp fun x hx => Nat.lt_of_lt_of_le hx hle) ?_, ?_, ?_⟩
  · intro htook
    exact handed_lt (mem_handed.mpr ⟨htook, rfl⟩)
  · intro h hh
    rcases Finset.mem_union.mp hh with hh | hh
    · exact Nat.lt_of_lt_of_le (hf.taken h hh) hle
    · exact handed_lt hh
  · intro h hh
    exact Nat.lt_of_lt_of_le (hf.held h hh) hle

/-- **One call.** The flags of the slots follow the same call on flags, and flagged handles stay
live exactly when that call frees none. -/
theorem call_flags {r : PoolRun} (hf : r.Fresh) (b : Bool) (op : PoolOp) :
    (r.call op).pools.map ((r.call op).flag b) =
        (poolCall b (r.pools.map (r.flag b)) op).pools ∧
      ((r.call op).Keeps b ↔
        r.Keeps b ∧ true ∉ (poolCall b (r.pools.map (r.flag b)) op).freed) := by
  -- the renaming that sends the new handle to `b` and every old one to its flag
  let f : Handle → Bool := fun h => if h = r.next then b else r.flag b h
  have hold : ∀ h, h < r.next → f h = r.flag b h := fun h hh => if_neg (Nat.ne_of_lt hh)
  have hmap : poolCall b (r.pools.map (r.flag b)) op =
      (poolCall r.next r.pools op).map f := by
    have hcongr : r.pools.map (r.flag b) = r.pools.map f :=
      Pools.map_congr (hf.pools.imp fun h hh => (hold h hh).symm)
    have hb : b = f r.next := (if_pos rfl).symm
    rw [hcongr]
    conv_lhs => rw [hb]
    exact poolCall_map f r.next r.pools op
  have hflag : ∀ h, h < r.next ∨ h ∈ r.handed op → (r.call op).flag b h = f h := by
    intro h hh
    rw [flag_call hf]
    rcases hh with hh | hh
    · rw [if_neg fun hm => Nat.ne_of_lt hh (mem_handed.mp hm).2, hold h hh]
    · rw [if_pos hh]
      exact (if_pos (mem_handed.mp hh).2).symm
  have hpools : (poolCall r.next r.pools op).pools.All fun h => h < r.next ∨ h ∈ r.handed op :=
    poolCall_all (hf.pools.imp fun h hh => Or.inl hh) fun htook =>
      Or.inr (mem_handed.mpr ⟨htook, rfl⟩)
  have hfreed := poolCall_freed r.next hf.pools op
  rw [hmap]
  refine ⟨Pools.map_congr (hpools.imp hflag), ?_⟩
  have hlive : ∀ h, h ∈ (r.call op).live ↔
      (h ∈ r.live ∧ h ∉ (poolCall r.next r.pools op).freed) ∨ h ∈ r.handed op := by
    intro h
    simp [call]
  simp only [PoolEffect.map, List.mem_map, not_exists, not_and]
  constructor
  · intro hk
    refine ⟨?_, ?_⟩
    · intro h hb
      have hlt := hf.flag_lt hb
      rcases (hlive h).mp (hk h (by rw [hflag h (.inl hlt), hold h hlt, hb])) with hl | hl
      · exact hl.1
      · exact absurd (mem_handed.mp hl).2 (Nat.ne_of_lt hlt)
    · intro h hmem hb
      rcases (hlive h).mp (hk h (by rw [hflag h (.inl (hfreed h hmem)), hb])) with hl | hl
      · exact hl.2 hmem
      · exact absurd (mem_handed.mp hl).2 (Nat.ne_of_lt (hfreed h hmem))
  · rintro ⟨hk, hno⟩ h hb
    rw [hlive]
    by_cases hh : h ∈ r.handed op
    · exact .inr hh
    · rw [flag_call hf, if_neg hh] at hb
      refine .inl ⟨hk h hb, fun hmem => hno h hmem ?_⟩
      rw [hold h (hfreed h hmem), hb]

end PoolRun

/-- The calls of steps, each with the flag of what it hands out. -/
def marked (steps : List PoolStep) : List (PoolOp × Bool) :=
  steps.flatMap fun s => s.calls.map fun op => (op, s.delivered.isSome)

/-- The flags after calls. -/
def flagRun : Pools Bool → List (PoolOp × Bool) → Pools Bool
  | p, [] => p
  | p, (op, b) :: ops => flagRun (poolCall b p op).pools ops

/-- No call frees a flagged buffer. -/
def Spares : Pools Bool → List (PoolOp × Bool) → Prop
  | _, [] => True
  | p, (op, b) :: ops => true ∉ (poolCall b p op).freed ∧ Spares (poolCall b p op).pools ops

theorem spares_append (xs ys : List (PoolOp × Bool)) (p : Pools Bool) :
    Spares p (xs ++ ys) ↔ Spares p xs ∧ Spares (flagRun p xs) ys := by
  induction xs generalizing p with
  | nil => simp [Spares, flagRun]
  | cons c xs ih =>
    obtain ⟨op, b⟩ := c
    simp only [List.cons_append, Spares, flagRun, ih, and_assoc]

namespace PoolRun

/-- The calls of one step. -/
theorem calls_flags (b : Bool) : ∀ (ops : List PoolOp) {r : PoolRun}, r.Fresh →
    (ops.foldl call r).Fresh ∧
      (ops.foldl call r).pools.map ((ops.foldl call r).flag b) =
        flagRun (r.pools.map (r.flag b)) (ops.map fun op => (op, b)) ∧
      ((ops.foldl call r).Keeps b ↔
        r.Keeps b ∧ Spares (r.pools.map (r.flag b)) (ops.map fun op => (op, b)))
  | [], r, hf => ⟨hf, rfl, by simp [Spares]⟩
  | op :: ops, r, hf => by
    obtain ⟨hmap, hkeep⟩ := call_flags hf b op
    obtain ⟨h1, h2, h3⟩ := calls_flags b ops (fresh_call hf op)
    rw [hmap] at h2 h3
    refine ⟨h1, h2, ?_⟩
    rw [List.foldl_cons, h3, hkeep, and_assoc]
    rfl

/-- Between steps: nothing is handed out that is not settled. -/
structure Idle (r : PoolRun) : Prop where
  fresh : r.Fresh
  taken : r.taken = ∅

theorem Idle.flag_eq {r : PoolRun} (hi : r.Idle) (b : Bool) (h : Handle) :
    r.flag b h = decide (h ∈ r.held) := by
  simp [flag, hi.taken]

theorem Idle.keeps_iff {r : PoolRun} (hi : r.Idle) (b : Bool) : r.Keeps b ↔ r.Retains := by
  simp [Keeps, Retains, hi.flag_eq]

/-- The flags of the slots between steps. -/
def flags (r : PoolRun) : Pools Bool := r.pools.map fun h => decide (h ∈ r.held)

/-- **One step.** -/
theorem step_flags {r : PoolRun} (hi : r.Idle) (s : PoolStep) :
    (r.step s).Idle ∧ (r.step s).flags = flagRun r.flags (marked [s]) ∧
      ((r.step s).Retains ↔ r.Retains ∧ Spares r.flags (marked [s])) := by
  have hmarked : marked [s] = s.calls.map fun op => (op, s.delivered.isSome) := by simp [marked]
  have hflags : r.pools.map (r.flag s.delivered.isSome) = r.flags :=
    congrArg (Pools.map · r.pools) (funext (hi.flag_eq _))
  obtain ⟨h1, h2, h3⟩ := calls_flags s.delivered.isSome s.calls hi.fresh
  rw [hflags] at h2 h3
  rw [hi.keeps_iff] at h3
  -- settling moves the parse's handles to the held ones, so flags and liveness are as before it
  have hidle : (r.step s).Idle := by
    refine ⟨⟨h1.pools, by simp [step, settle], ?_⟩, rfl⟩
    intro h hh
    simp only [step, settle] at hh
    split at hh
    · rcases Finset.mem_union.mp hh with hh | hh
      · exact h1.held h hh
      · exact h1.taken h hh
    · exact h1.held h hh
  have hflag : ∀ h, decide (h ∈ (r.step s).held) =
      (s.calls.foldl call r).flag s.delivered.isSome h := by
    intro h
    rw [Bool.eq_iff_iff]
    cases hd : s.delivered.isSome <;> simp [step, settle, flag, hd]
  rw [hmarked]
  refine ⟨hidle, ?_, ?_⟩
  · rw [← h2]
    exact congrArg (Pools.map · (s.calls.foldl call r).pools) (funext hflag)
  · rw [← h3]
    have hiff : ∀ h, h ∈ (r.step s).held ↔
        (s.calls.foldl call r).flag s.delivered.isSome h = true := by
      intro h
      rw [← hflag h, decide_eq_true_eq]
    simp only [Retains, Keeps, hiff]
    rfl

/-- **A run.** All points of a run keep what was delivered alive exactly when the run over flags
frees no flagged buffer. -/
theorem run_flags : ∀ (steps : List PoolStep) {r : PoolRun}, r.Idle → r.Retains →
    ((∀ pre, pre <+: steps → (r.run pre).Retains) ↔ Spares r.flags (marked steps))
  | [], r, _, hr => by simpa [run, marked, Spares] using hr
  | s :: steps, r, hi, hr => by
    obtain ⟨hidle, hflags, hiff⟩ := step_flags hi s
    have hcons : marked (s :: steps) = marked [s] ++ marked steps := by simp [marked]
    rw [hcons, spares_append, ← hflags]
    constructor
    · intro hall
      have hstep : (r.step s).Retains := hall [s] ((List.prefix_append [s] steps))
      refine ⟨(hiff.mp hstep).2, (run_flags steps hidle hstep).mp ?_⟩
      intro pre hpre
      exact hall (s :: pre) ((List.cons_prefix_cons).mpr ⟨rfl, hpre⟩)
    · rintro ⟨hs, hrest⟩ pre hpre
      have hstep := hiff.mpr ⟨hr, hs⟩
      cases pre with
      | nil => exact hr
      | cons s' pre =>
        obtain ⟨rfl, htail⟩ := List.cons_prefix_cons.mp hpre
        exact (run_flags steps hidle hstep).mpr hrest pre htail

end PoolRun

end Dtl
