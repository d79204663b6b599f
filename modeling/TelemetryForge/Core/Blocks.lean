import TelemetryForge.Core.Arena
import TelemetryForge.Lib.Bump
import TelemetryForge.Lib.Checked

/-!
# The arena and its blocks

Model of `core/arena`: the blocks with their cursors, the descriptor array that doubles, and the
allocator underneath, any of whose requests may be refused.  All size arithmetic is `size_t`
arithmetic that stops the run if it wraps.

Principal results: `arena_safe` — over any sequence of allocations and resets nothing wraps, every
block keeps `used ≤ cap`, and the results since the last reset are aligned ranges inside blocks that
share no byte; `arena_refines` — the arena as `Core.Arena` presents it gives the same answers.
-/

set_option autoImplicit false

namespace Dtl

open Checked Bump

/-- `DTL_ARENA_DEFAULT_BLOCK`. -/
def ARENA_DEFAULT_BLOCK : Nat := 4096

/-- `DTL_ARENA_MIN_BLOCKS`. -/
def ARENA_MIN_BLOCKS : Nat := 4

/-- `sizeof(dtl_arena_block)` of the supported 64-bit platforms. -/
def sizeofArenaBlock : Nat := 24

namespace Blocks

/-- The allocator underneath: which requests it refuses, and how many were made.  The slab that a
request returns is named by the number of the request. -/
structure Heap where
  refuses : Nat → Bool
  calls : Nat

/-- `malloc` and `realloc`: what the request returned, and the allocator afterwards. -/
def Heap.request (h : Heap) : Option Nat × Heap :=
  (if h.refuses h.calls then none else some h.calls, { h with calls := h.calls + 1 })

/-- `dtl_arena_block`. -/
structure ArenaBlock where
  data : Nat
  cap : Nat
  used : Nat
  deriving DecidableEq, Repr

/-- `dtl_arena`; the last block stands first. -/
structure Arena where
  blocks : List ArenaBlock
  blocksCap : Nat
  blockSize : Nat
  deriving DecidableEq, Repr

/-- A pointer into a slab. -/
structure Pointer where
  slab : Nat
  off : Nat
  deriving DecidableEq, Repr

/-- The arena, and the allocator it draws on. -/
structure State where
  arena : Arena
  heap : Heap

/-- `dtl_arena_init`. -/
def arenaInit (blockSize : UInt64) : Arena :=
  { blocks := []
    blocksCap := 0
    blockSize := if blockSize ≠ 0 then blockSize.toNat else ARENA_DEFAULT_BLOCK }

/-- `dtl_arena_align_up`. -/
def arenaAlignUp (n : Nat) : Run Err Nat := do
  let most ← sub SIZE_MAX (ARENA_ALIGN - 1)
  if n > most then return 0
  let rem := n % ARENA_ALIGN
  if rem ≠ 0 then
    let pad ← sub ARENA_ALIGN rem
    add 64 n pad
  else return n

/-- The capacity `dtl_arena_reserve_slot` asks for. -/
def arenaNewcap (a : Arena) : Run Err Nat :=
  if a.blocksCap ≠ 0 then mul 64 a.blocksCap 2 else .ok ARENA_MIN_BLOCKS

/-- `dtl_arena_reserve_slot`: whether there is room for one more block. -/
def arenaReserveSlot (s : State) : Run Err (Bool × State) :=
  if s.arena.blocks.length < s.arena.blocksCap then .ok (true, s)
  else do
    let newcap ← arenaNewcap s.arena
    if newcap > SIZE_MAX / sizeofArenaBlock then return (false, s)
    let _ ← mul 64 newcap sizeofArenaBlock
    if s.heap.request.1.isNone then return (false, { s with heap := s.heap.request.2 })
    return (true, ⟨{ s.arena with blocksCap := newcap }, s.heap.request.2⟩)

/-- The fast path of `dtl_arena_alloc`: bump the cursor of the last block, if it has room. -/
def arenaBump (s : State) (need : Nat) : Run Err (Option (Pointer × State)) :=
  match s.arena.blocks with
  | [] => .ok none
  | blk :: blocks => do
    let room ← sub blk.cap blk.used
    if room ≥ need then
      let used ← add 64 blk.used need
      return some (⟨blk.data, blk.used⟩,
        { s with arena := { s.arena with blocks := { blk with used := used } :: blocks } })
    else return none

/-- The slow path of `dtl_arena_alloc`: a new block, large enough for the request. -/
def arenaNewBlock (s : State) (need : Nat) : Run Err (Option Pointer × State) := do
  let cap := if need > s.arena.blockSize then need else s.arena.blockSize
  let (ok, s) ← arenaReserveSlot s
  if ok = false then return (none, s)
  match s.heap.request with
  | (none, heap) => return (none, { s with heap := heap })
  | (some data, heap) => do
    -- the descriptor is stored at index `nblocks` of the array
    if s.arena.blocks.length ≥ s.arena.blocksCap then .error .outside
    let _ ← add 64 s.arena.blocks.length 1
    return (some ⟨data, 0⟩,
      { arena := { s.arena with blocks := ⟨data, cap, need⟩ :: s.arena.blocks }, heap := heap })

/-- `dtl_arena_alloc`. -/
def arenaAlloc (s : State) (n : UInt64) : Run Err (Option Pointer × State) :=
  if n = 0 then .ok (none, s)
  else do
    let need ← arenaAlignUp n.toNat
    if need = 0 then return (none, s)
    match ← arenaBump s need with
    | some (p, s) => return (some p, s)
    | none => arenaNewBlock s need

/-- `dtl_arena_reset`. -/
def arenaReset (s : State) : State :=
  { s with arena := { s.arena with blocks := s.arena.blocks.map fun b => { b with used := 0 } } }

/-! ## What one call can do -/

theorem arenaAlignUp_eq {n : Nat} (h : n ≤ SIZE_MAX) : arenaAlignUp n =
    .ok (if n > SIZE_MAX - (ARENA_ALIGN - 1) then 0 else roundUp ARENA_ALIGN n) := by
  have hmost : sub SIZE_MAX (ARENA_ALIGN - 1) = (.ok (SIZE_MAX - (ARENA_ALIGN - 1)) : Run Err Nat) :=
    sub_ok (by decide)
  simp only [arenaAlignUp, hmost, bind, Except.bind]
  split
  · rfl
  · rename_i hfit
    have hpad : n % ARENA_ALIGN ≤ ARENA_ALIGN := (Nat.mod_lt n (by decide)).le
    rw [sub_ok hpad, roundUp]
    by_cases hrem : n % ARENA_ALIGN = 0
    · simp [hrem, pure, Except.pure]
    · rw [if_pos hrem, if_neg hrem]
      refine add_ok ?_
      simp only [SIZE_MAX, ARENA_ALIGN] at *
      omega

/-- The sizes the arena keeps. -/
structure Sized (a : Arena) : Prop where
  used : ∀ b ∈ a.blocks, b.used ≤ b.cap
  cap : ∀ b ∈ a.blocks, b.cap ≤ SIZE_MAX
  slots : a.blocks.length ≤ a.blocksCap
  array : a.blocksCap ≤ SIZE_MAX / sizeofArenaBlock
  blockSize : a.blockSize ≤ SIZE_MAX

/-- Only the descriptor array and the allocator moved. -/
structure Kept (s s' : State) : Prop where
  blocks : s'.arena.blocks = s.arena.blocks
  sized : Sized s'.arena
  calls : s.heap.calls ≤ s'.heap.calls

theorem Kept.refl {s : State} (h : Sized s.arena) : Kept s s := ⟨rfl, h, le_rfl⟩

@[simp] theorem request_calls (h : Heap) : h.request.2.calls = h.calls + 1 := rfl

theorem request_some {h : Heap} {data : Nat} (hd : h.request.1 = some data) : data = h.calls := by
  simp only [Heap.request] at hd
  split at hd
  · cases hd
  · exact (Option.some.inj hd).symm

theorem arenaNewcap_ok {a : Arena} (h : Sized a) :
    ∃ newcap, arenaNewcap a = .ok newcap ∧ a.blocksCap < newcap := by
  have harray := h.array
  unfold arenaNewcap
  by_cases hzero : a.blocksCap = 0
  · exact ⟨ARENA_MIN_BLOCKS, by simp [hzero], by simp [hzero, ARENA_MIN_BLOCKS]⟩
  · refine ⟨a.blocksCap * 2, ?_, by omega⟩
    rw [if_pos hzero, mul_ok]
    simp only [SIZE_MAX, sizeofArenaBlock] at harray
    omega

theorem arenaReserveSlot_kept {s : State} (h : Sized s.arena) : ∃ ok s',
    arenaReserveSlot s = .ok (ok, s') ∧ Kept s s' ∧
      (ok = true → s'.arena.blocks.length < s'.arena.blocksCap) := by
  have hslots := h.slots
  unfold arenaReserveSlot
  split
  · rename_i hroom
    exact ⟨true, s, rfl, Kept.refl h, fun _ => hroom⟩
  · rename_i hfull
    obtain ⟨newcap, hnew, hgrown⟩ := arenaNewcap_ok h
    simp only [hnew, bind, Except.bind]
    split
    · exact ⟨false, s, rfl, Kept.refl h, by simp⟩
    · rename_i hguard
      have hbytes : newcap * sizeofArenaBlock < 2 ^ 64 := by
        have hle := Nat.mul_le_of_le_div sizeofArenaBlock newcap SIZE_MAX (Nat.not_lt.mp hguard)
        exact Nat.lt_of_le_of_lt hle (by decide)
      rw [mul_ok hbytes]
      dsimp only
      split
      · exact ⟨false, _, rfl, ⟨rfl, h, by simp⟩, by simp⟩
      · refine ⟨true, _, rfl, ⟨rfl, ⟨h.used, h.cap, ?_, Nat.not_lt.mp hguard, h.blockSize⟩, by simp⟩,
          fun _ => ?_⟩
        · exact hslots.trans hgrown.le
        · exact Nat.lt_of_le_of_lt hslots hgrown

/-- What one allocation can do. -/
inductive Outcome (s : State) (n : Nat) : Option Pointer × State → Prop where
  | refused {s' : State} (kept : Kept s s') : Outcome s n (none, s')
  | bumped {s' : State} {blk : ArenaBlock} {rest : List ArenaBlock} {need : Nat}
      (blocks : s.arena.blocks = blk :: rest)
      (blocks' : s'.arena.blocks = { blk with used := blk.used + need } :: rest)
      (sized : Sized s'.arena) (heap : s'.heap = s.heap)
      (aligned : ARENA_ALIGN ∣ need) (le : n ≤ need) :
      Outcome s n (some ⟨blk.data, blk.used⟩, s')
  | added {s' : State} {data cap need : Nat}
      (blocks' : s'.arena.blocks = ⟨data, cap, need⟩ :: s.arena.blocks)
      (sized : Sized s'.arena) (fresh : s.heap.calls ≤ data) (calls : data < s'.heap.calls)
      (aligned : ARENA_ALIGN ∣ need) (le : n ≤ need) :
      Outcome s n (some ⟨data, 0⟩, s')

theorem arenaBump_outcome {s : State} (h : Sized s.arena) {n need : Nat}
    (haligned : ARENA_ALIGN ∣ need) (hle : n ≤ need) :
    arenaBump s need = .ok none ∨
    ∃ p s', arenaBump s need = .ok (some (p, s')) ∧ Outcome s n (some p, s') := by
  unfold arenaBump
  rcases hblocks : s.arena.blocks with _ | ⟨blk, rest⟩
  · exact .inl rfl
  · have hused : blk.used ≤ blk.cap := h.used blk (by simp [hblocks])
    have hcap : blk.cap ≤ SIZE_MAX := h.cap blk (by simp [hblocks])
    simp only [sub_ok hused, bind, Except.bind]
    split
    · rename_i hroom
      have hadd : blk.used + need < 2 ^ 64 := by
        simp only [SIZE_MAX] at hcap
        omega
      simp only [add_ok hadd]
      refine .inr ⟨_, _, rfl, .bumped hblocks rfl ⟨?_, ?_, ?_, h.array, h.blockSize⟩ rfl haligned hle⟩
      · intro b hb
        rcases List.mem_cons.mp hb with rfl | hb
        · show blk.used + need ≤ blk.cap
          omega
        · exact h.used b (by simp [hblocks, hb])
      · intro b hb
        rcases List.mem_cons.mp hb with rfl | hb
        · exact hcap
        · exact h.cap b (by simp [hblocks, hb])
      · simpa [hblocks] using h.slots
    · exact .inl rfl

theorem arenaNewBlock_outcome {s : State} (h : Sized s.arena) {n need : Nat} (hneed : need ≤ SIZE_MAX)
    (haligned : ARENA_ALIGN ∣ need) (hle : n ≤ need) :
    ∃ r, arenaNewBlock s need = .ok r ∧ Outcome s n r := by
  obtain ⟨ok, s', hslot, hkept, hroom⟩ := arenaReserveSlot_kept h
  unfold arenaNewBlock
  simp only [hslot, bind, Except.bind]
  rcases ok with _ | _
  · exact ⟨_, rfl, .refused hkept⟩
  · have hlt := hroom rfl
    have harray := hkept.sized.array
    rw [if_neg (by simp)]
    rcases hreq : s'.heap.request with ⟨_ | data, heap⟩
    · have hheap : heap.calls = s'.heap.calls + 1 := by rw [← request_calls, hreq]
      refine ⟨_, rfl, .refused ⟨hkept.blocks, hkept.sized, ?_⟩⟩
      exact hkept.calls.trans (by simp [hheap])
    · have hdata : data = s'.heap.calls := request_some (by rw [hreq])
      have hheap : heap.calls = s'.heap.calls + 1 := by rw [← request_calls, hreq]
      have hcount : s'.arena.blocks.length + 1 < 2 ^ 64 := by
        simp only [SIZE_MAX, sizeofArenaBlock] at harray
        omega
      have hcap : need ≤ (if need > s.arena.blockSize then need else s.arena.blockSize) ∧
          (if need > s.arena.blockSize then need else s.arena.blockSize) ≤ SIZE_MAX := by
        have := h.blockSize
        split <;> omega
      simp only [if_neg (Nat.not_le.mpr hlt), add_ok hcount]
      refine ⟨_, rfl, .added (congrArg _ hkept.blocks) ⟨?_, ?_, ?_, harray, ?_⟩ ?_ ?_ haligned hle⟩
      · intro b hb
        rcases List.mem_cons.mp hb with rfl | hb
        · exact hcap.1
        · exact hkept.sized.used b hb
      · intro b hb
        rcases List.mem_cons.mp hb with rfl | hb
        · exact hcap.2
        · exact hkept.sized.cap b hb
      · exact hlt
      · exact hkept.sized.blockSize
      · rw [hdata]
        exact hkept.calls
      · show data < heap.calls
        omega

/-- **`dtl_arena_alloc` never wraps, and does one of three things.** -/
theorem arenaAlloc_outcome {s : State} (h : Sized s.arena) (n : UInt64) :
    ∃ r, arenaAlloc s n = .ok r ∧ Outcome s n.toNat r := by
  have hn : n.toNat ≤ SIZE_MAX := Nat.le_sub_one_of_lt n.toNat_lt
  unfold arenaAlloc
  split
  · exact ⟨_, rfl, .refused (Kept.refl h)⟩
  · rename_i hpos
    simp only [arenaAlignUp_eq hn, bind, Except.bind]
    by_cases hfit : n.toNat > SIZE_MAX - (ARENA_ALIGN - 1)
    · simp only [if_pos hfit]
      exact ⟨_, rfl, .refused (Kept.refl h)⟩
    · simp only [if_neg hfit]
      split
      · exact ⟨_, rfl, .refused (Kept.refl h)⟩
      · rename_i hneed
        have haligned : ARENA_ALIGN ∣ roundUp ARENA_ALIGN n.toNat := dvd_roundUp (by decide) _
        have hle : n.toNat ≤ roundUp ARENA_ALIGN n.toNat := le_roundUp _ _
        have hmax : roundUp ARENA_ALIGN n.toNat ≤ SIZE_MAX := by
          have hup := roundUp_le ARENA_ALIGN n.toNat
          simp only [SIZE_MAX, ARENA_ALIGN] at *
          omega
        rcases arenaBump_outcome h haligned hle with hnone | ⟨p, s', hsome, hout⟩
        · simp only [hnone]
          exact arenaNewBlock_outcome h hmax haligned hle
        · simp only [hsome]
          exact ⟨_, rfl, hout⟩

/-! ## Every run -/

/-- A call on an initialised arena. -/
inductive ArenaCall where
  | alloc (n : UInt64)
  | reset

/-- The arena, and the results handed out since the last reset. -/
structure History where
  state : State
  live : List (Span Nat)

/-- One call. -/
def arenaCall (w : History) : ArenaCall → Run Err History
  | .alloc n => do
    match ← arenaAlloc w.state n with
    | (some p, s) => return ⟨s, ⟨p.slab, p.off, n.toNat⟩ :: w.live⟩
    | (none, s) => return ⟨s, w.live⟩
  | .reset => return ⟨arenaReset w.state, []⟩

/-- A sequence of calls. -/
def arenaRun (w : History) (calls : List ArenaCall) : Run Err History := calls.foldlM arenaCall w

/-- An arena after `dtl_arena_init`. -/
def initial (blockSize : UInt64) (heap : Heap) : History := ⟨⟨arenaInit blockSize, heap⟩, []⟩

/-- The cursors of all slabs, those of the arena's blocks and those never returned. -/
structure Cursors (w : History) (top : Nat → Nat) : Prop where
  live : Live ARENA_ALIGN top w.live
  used : ∀ b ∈ w.state.arena.blocks, top b.data = b.used
  fresh : ∀ slab, w.state.heap.calls ≤ slab → top slab = 0

/-- The invariant of every run. -/
structure Holds (w : History) : Prop where
  sized : Sized w.state.arena
  slabs : (w.state.arena.blocks.map ArenaBlock.data).Nodup
  known : ∀ b ∈ w.state.arena.blocks, b.data < w.state.heap.calls
  held : ∀ s ∈ w.live, ∃ b ∈ w.state.arena.blocks, b.data = s.region
  cursors : ∃ top, Cursors w top

theorem initial_holds (blockSize : UInt64) (heap : Heap) : Holds (initial blockSize heap) where
  sized := by
    refine ⟨by simp [initial, arenaInit], by simp [initial, arenaInit], le_rfl, Nat.zero_le _, ?_⟩
    show (if blockSize ≠ 0 then blockSize.toNat else ARENA_DEFAULT_BLOCK) ≤ SIZE_MAX
    split
    · exact Nat.le_sub_one_of_lt blockSize.toNat_lt
    · decide
  slabs := .nil
  known := by simp [initial, arenaInit]
  held := by simp [initial]
  cursors := ⟨fun _ => 0, .rewind _, by simp [initial, arenaInit], fun _ _ => rfl⟩

theorem Holds.kept {w : History} (h : Holds w) {s' : State} (k : Kept w.state s') :
    Holds ⟨s', w.live⟩ where
  sized := k.sized
  slabs := by
    rw [k.blocks]
    exact h.slabs
  known b hb := by
    rw [k.blocks] at hb
    exact (h.known b hb).trans_le k.calls
  held s hs := by
    rw [k.blocks]
    exact h.held s hs
  cursors := by
    obtain ⟨top, htop⟩ := h.cursors
    refine ⟨top, htop.live, ?_, fun slab hslab => htop.fresh slab (k.calls.trans hslab)⟩
    rw [k.blocks]
    exact htop.used

theorem Holds.bumped {w : History} (h : Holds w) {s' : State} {blk : ArenaBlock}
    {rest : List ArenaBlock} {n need : Nat} (hblocks : w.state.arena.blocks = blk :: rest)
    (hblocks' : s'.arena.blocks = { blk with used := blk.used + need } :: rest)
    (hsized : Sized s'.arena) (hheap : s'.heap = w.state.heap) (haligned : ARENA_ALIGN ∣ need)
    (hle : n ≤ need) : Holds ⟨s', ⟨blk.data, blk.used, n⟩ :: w.live⟩ := by
  obtain ⟨top, htop⟩ := h.cursors
  have hslabs := h.slabs
  have hused := htop.used
  have hknown := h.known
  have hheld := h.held
  rw [hblocks] at hslabs hused hknown hheld
  have htop_blk : top blk.data = blk.used := hused blk List.mem_cons_self
  have hother : ∀ b ∈ rest, b.data ≠ blk.data := by
    intro b hb heq
    exact (List.nodup_cons.mp hslabs).1 (heq ▸ List.mem_map_of_mem hb)
  refine ⟨hsized, ?_, ?_, ?_, advance top blk.data need, ?_, ?_, ?_⟩
  · simpa [hblocks'] using hslabs
  · simp only [hblocks', hheap, List.forall_mem_cons] at hknown ⊢
    exact hknown
  · intro s hs
    simp only [hblocks', List.exists_mem_cons_iff]
    rcases List.mem_cons.mp hs with rfl | hs
    · exact .inl rfl
    · simpa using hheld s hs
  · have hcarve := htop.live.carve blk.data haligned hle
    rw [htop_blk] at hcarve
    exact hcarve
  · simp only [hblocks', List.forall_mem_cons]
    refine ⟨by simp [htop_blk], fun b hb => ?_⟩
    rw [advance_other need (hother b hb)]
    exact hused b (List.mem_cons_of_mem _ hb)
  · intro slab hslab
    simp only [hheap] at hslab
    have hblk := hknown blk List.mem_cons_self
    rw [advance_other need (by omega)]
    exact htop.fresh slab hslab

theorem Holds.added {w : History} (h : Holds w) {s' : State} {data cap n need : Nat}
    (hblocks' : s'.arena.blocks = ⟨data, cap, need⟩ :: w.state.arena.blocks)
    (hsized : Sized s'.arena) (hfresh : w.state.heap.calls ≤ data) (hcalls : data < s'.heap.calls)
    (haligned : ARENA_ALIGN ∣ need) (hle : n ≤ need) :
    Holds ⟨s', ⟨data, 0, n⟩ :: w.live⟩ := by
  obtain ⟨top, htop⟩ := h.cursors
  have hzero : top data = 0 := htop.fresh data hfresh
  have hother : ∀ b ∈ w.state.arena.blocks, b.data ≠ data := by
    intro b hb heq
    have hlt := h.known b hb
    omega
  refine ⟨hsized, ?_, ?_, ?_, advance top data need, ?_, ?_, ?_⟩
  · simp only [hblocks', List.map_cons, List.nodup_cons]
    refine ⟨fun hmem => ?_, h.slabs⟩
    obtain ⟨b, hb, heq⟩ := List.mem_map.mp hmem
    exact hother b hb heq
  · simp only [hblocks', List.forall_mem_cons]
    refine ⟨hcalls, fun b hb => ?_⟩
    have hlt := h.known b hb
    omega
  · intro s hs
    simp only [hblocks', List.exists_mem_cons_iff]
    rcases List.mem_cons.mp hs with rfl | hs
    · exact .inl rfl
    · exact .inr (h.held s hs)
  · have hcarve := htop.live.carve data haligned hle
    rw [hzero] at hcarve
    exact hcarve
  · simp only [hblocks', List.forall_mem_cons]
    refine ⟨by simp [hzero], fun b hb => ?_⟩
    rw [advance_other need (hother b hb)]
    exact htop.used b hb
  · intro slab hslab
    have hslab' : s'.heap.calls ≤ slab := hslab
    rw [advance_other need (by omega)]
    exact htop.fresh slab (by omega)

theorem Sized.reset {s : State} (h : Sized s.arena) : Sized (arenaReset s).arena :=
  ⟨by simp [arenaReset], by simpa [arenaReset] using h.cap, by simpa [arenaReset] using h.slots,
    h.array, h.blockSize⟩

theorem Holds.reset {w : History} (h : Holds w) : Holds ⟨arenaReset w.state, []⟩ where
  sized := h.sized.reset
  slabs := by simpa [arenaReset, Function.comp_def] using h.slabs
  known := by simpa [arenaReset] using h.known
  held := by simp
  cursors := ⟨fun _ => 0, .rewind _, by simp [arenaReset], fun _ _ => rfl⟩

/-- **One call keeps the invariant**, and does not fault. -/
theorem arenaCall_holds {w : History} (h : Holds w) (call : ArenaCall) :
    ∃ w', arenaCall w call = .ok w' ∧ Holds w' := by
  cases call with
  | alloc n =>
    obtain ⟨r, hr, hout⟩ := arenaAlloc_outcome h.sized n
    simp only [arenaCall, hr, bind, Except.bind]
    cases hout with
    | refused kept => exact ⟨_, rfl, h.kept kept⟩
    | bumped blocks blocks' sized heap aligned le =>
      exact ⟨_, rfl, h.bumped blocks blocks' sized heap aligned le⟩
    | added blocks' sized fresh calls aligned le =>
      exact ⟨_, rfl, h.added blocks' sized fresh calls aligned le⟩
  | reset => exact ⟨_, rfl, h.reset⟩

theorem arenaRun_holds : ∀ (calls : List ArenaCall) {w : History}, Holds w →
    ∃ w', arenaRun w calls = .ok w' ∧ Holds w'
  | [], w, h => ⟨w, rfl, h⟩
  | call :: calls, w, h => by
    obtain ⟨w₁, hcall, h₁⟩ := arenaCall_holds h call
    obtain ⟨w', hrun, h'⟩ := arenaRun_holds calls h₁
    refine ⟨w', ?_, h'⟩
    rw [arenaRun, List.foldlM_cons, hcall]
    exact hrun

/-- What an arena promises its callers. -/
structure Safe (w : History) : Prop where
  used : ∀ b ∈ w.state.arena.blocks, b.used ≤ b.cap
  slabs : (w.state.arena.blocks.map ArenaBlock.data).Nodup
  /-- Every result lies inside one block, below its cursor. -/
  inside : ∀ s ∈ w.live, ∃ b ∈ w.state.arena.blocks, b.data = s.region ∧ s.off + s.len ≤ b.used
  aligned : ∀ s ∈ w.live, ARENA_ALIGN ∣ s.off
  disjoint : w.live.Pairwise fun s t => Disjoint s.cells t.cells
  /-- The next request does not wrap either, and `NULL` leaves the blocks as they are. -/
  next : ∀ n, ∃ p s', arenaAlloc w.state n = .ok (p, s') ∧
    (p = none → s'.arena.blocks = w.state.arena.blocks)

theorem Holds.safe {w : History} (h : Holds w) : Safe w where
  used := h.sized.used
  slabs := h.slabs
  inside s hs := by
    obtain ⟨top, htop⟩ := h.cursors
    obtain ⟨b, hb, hdata⟩ := h.held s hs
    refine ⟨b, hb, hdata, ?_⟩
    rw [← htop.used b hb, hdata]
    exact htop.live.below s hs
  aligned s hs := by
    obtain ⟨top, htop⟩ := h.cursors
    exact htop.live.aligned s hs
  disjoint := by
    obtain ⟨top, htop⟩ := h.cursors
    exact htop.live.disjoint
  next n := by
    obtain ⟨⟨p, s'⟩, hr, hout⟩ := arenaAlloc_outcome h.sized n
    refine ⟨p, s', hr, ?_⟩
    rintro rfl
    cases hout with
    | refused kept => exact kept.blocks

/-- **Arena allocations never overlap**, over any sequence of allocations and resets, with any block
size, any request sizes and any pattern of refusals underneath. -/
theorem arena_safe (blockSize : UInt64) (heap : Heap) (calls : List ArenaCall) :
    ∃ w, arenaRun (initial blockSize heap) calls = .ok w ∧ Safe w := by
  obtain ⟨w, hrun, h⟩ := arenaRun_holds calls (initial_holds blockSize heap)
  exact ⟨w, hrun, h.safe⟩

/-! ## The arena as the rest of the toolkit sees it -/

/-- Which allocations of a sequence of calls return storage. -/
def arenaAnswers (s : State) : List ArenaCall → Run Err (List Bool)
  | [] => return []
  | .alloc n :: calls => do
    let (p, s) ← arenaAlloc s n
    let answers ← arenaAnswers s calls
    return p.isSome :: answers
  | .reset :: calls => arenaAnswers (arenaReset s) calls

/-- The same of an arena that only knows which requests fail. -/
def plainAnswers (a : Dtl.Arena) : List ArenaCall → List Bool
  | [] => []
  | .alloc n :: calls =>
    (Dtl.arenaAlloc a n.toNat).1 :: plainAnswers (Dtl.arenaAlloc a n.toNat).2 calls
  | .reset :: calls => plainAnswers a calls

/-- The requests that never reach the allocator. -/
def Refused (n : Nat) : Prop := n = 0 ∨ n > SIZE_MAX - (ARENA_ALIGN - 1)

theorem arenaAlloc_refused (s : State) {n : UInt64} (h : Refused n.toNat) :
    arenaAlloc s n = .ok (none, s) := by
  have hn : n.toNat ≤ SIZE_MAX := Nat.le_sub_one_of_lt n.toNat_lt
  unfold arenaAlloc
  rcases h with hzero | hbig
  · rw [if_pos (UInt64.toNat_inj.mp hzero)]
  · split
    · rfl
    · simp only [arenaAlignUp_eq hn, if_pos hbig, bind, Except.bind]
      rfl

theorem plainAlloc_refused (a : Dtl.Arena) {n : Nat} (h : Refused n) :
    Dtl.arenaAlloc a n = (false, a) := by
  unfold Dtl.arenaAlloc
  rcases h with hzero | hbig
  · rw [if_pos hzero]
  · simp [hbig]

theorem plainAlloc_reaches (a : Dtl.Arena) {n : Nat} (h : ¬ Refused n) :
    Dtl.arenaAlloc a n = (!a.fails a.calls, { a with calls := a.calls + 1 }) := by
  rw [Refused, not_or] at h
  rw [Dtl.arenaAlloc, if_neg h.1, if_neg h.2]

/-- Only the requests still to come matter. -/
theorem plainAnswers_congr {f g : Nat → Bool} : ∀ (calls : List ArenaCall) {k : Nat},
    (∀ j, k ≤ j → f j = g j) → plainAnswers ⟨f, k⟩ calls = plainAnswers ⟨g, k⟩ calls
  | [], _, _ => rfl
  | .reset :: calls, _, h => plainAnswers_congr calls h
  | .alloc n :: calls, k, h => by
    by_cases hn : Refused n.toNat
    · simp only [plainAnswers, plainAlloc_refused _ hn, plainAnswers_congr calls h]
    · have hnext := plainAnswers_congr calls (k := k + 1) fun j hj => h j (by omega)
      simp only [plainAnswers, plainAlloc_reaches _ hn, hnext, h k le_rfl]

theorem Outcome.sized {s : State} {n : Nat} {r : Option Pointer × State} (h : Outcome s n r) :
    Sized r.2.arena := by
  cases h with
  | refused kept => exact kept.sized
  | bumped _ _ sized => exact sized
  | added _ sized => exact sized

theorem arenaAnswers_refine : ∀ (calls : List ArenaCall) {s : State}, Sized s.arena → ∀ k,
    ∃ fails, arenaAnswers s calls = .ok (plainAnswers ⟨fails, k⟩ calls)
  | [], _, _, _ => ⟨fun _ => false, rfl⟩
  | .reset :: calls, _, h, k => arenaAnswers_refine calls h.reset k
  | .alloc n :: calls, s, h, k => by
    by_cases hn : Refused n.toNat
    · obtain ⟨fails, hrest⟩ := arenaAnswers_refine calls h k
      refine ⟨fails, ?_⟩
      simp only [arenaAnswers, plainAnswers, arenaAlloc_refused s hn, plainAlloc_refused _ hn, bind,
        Except.bind, hrest]
      rfl
    · obtain ⟨⟨p, s'⟩, hr, hout⟩ := arenaAlloc_outcome h n
      obtain ⟨fails, hrest⟩ := arenaAnswers_refine calls hout.sized (k + 1)
      -- the request just made is answered as the arena answered it
      refine ⟨Function.update fails k (!p.isSome), ?_⟩
      have hcongr := plainAnswers_congr (f := Function.update fails k (!p.isSome)) (g := fails) calls
        (k := k + 1) fun j hj => Function.update_of_ne (by omega) ..
      simp only [arenaAnswers, plainAnswers, hr, plainAlloc_reaches _ hn, bind, Except.bind, hrest,
        hcongr, Function.update_self, Bool.not_not]
      rfl

/-- **An arena answers as `Core.Arena` says**, for some pattern of refused requests. -/
theorem arena_refines (blockSize : UInt64) (heap : Heap) (calls : List ArenaCall) :
    ∃ fails, arenaAnswers ⟨arenaInit blockSize, heap⟩ calls =
      .ok (plainAnswers ⟨fails, 0⟩ calls) :=
  arenaAnswers_refine calls (initial_holds blockSize heap).sized 0

end Blocks

end Dtl
