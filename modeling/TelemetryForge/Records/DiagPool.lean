import TelemetryForge.Lib.Slots
import TelemetryForge.Records.Pools

/-!
# The DIAG blob pool in its arrays

`Machine.diagBlobAlloc` follows `dtl_diag_blob_alloc` on the two static arrays, the slot count and the
byte total, with a `size_t` of 64 bits.  `malloc` answers with a pointer or with `NULL`, and every
`free` is recorded.

Principal results: `diagBlobAlloc_poolCall` — on arrays that hold the blobs of the list model, a call
does what `poolCall` does there; `diagPool_run` — over every sequence of calls the arrays, the count
and the total stay in step and blobs leave strictly oldest first.
-/

set_option autoImplicit false

namespace Dtl

open Checked Slots

namespace Machine

variable {α : Type}

/-- The static variables of the pool. -/
structure DiagPool (α : Type) where
  slots : List (Option α)
  sizes : List Nat
  count : Nat
  bytes : Nat

/-- The static variables when the program starts. -/
def DiagPool.start : DiagPool α :=
  ⟨List.replicate DIAG_POOL_SLOTS none, List.replicate DIAG_POOL_SLOTS 0, 0, 0⟩

/-- The body of the eviction loop: the pointer it frees, and the variables afterwards. -/
def diagEvictOldest (p : DiagPool α) : Run Empty (Option α × DiagPool α) := do
  let oldest ← load p.slots 0
  let size ← load p.sizes 0
  let bytes ← sub p.bytes size
  let moved ← sub p.count 1
  let slots ← move p.slots 0 1 moved
  let sizes ← move p.sizes 0 1 moved
  let count ← sub p.count 1
  return (oldest, ⟨slots, sizes, count, bytes⟩)

/-- The condition of the eviction loop. -/
def diagOverBudget (blobLen : UInt16) (p : DiagPool α) : Run Empty Bool :=
  if p.count > 0 then do
    let total ← add 64 p.bytes blobLen.toNat
    return decide (total > DIAG_POOL_BUDGET)
  else return false

/-- The eviction loop: the pointers freed, and the variables afterwards; `none` when the fuel is spent
before it ends. -/
def diagEvictLoop (blobLen : UInt16) :
    Nat → List (Option α) → DiagPool α → Option (Run Empty (List (Option α) × DiagPool α))
  | 0, _, _ => none
  | fuel + 1, freed, p =>
    match diagOverBudget blobLen p with
    | .error fault => some (.error fault)
    | .ok false => some (.ok (freed, p))
    | .ok true =>
      match diagEvictOldest p with
      | .error fault => some (.error fault)
      | .ok (oldest, p) => diagEvictLoop blobLen fuel (freed ++ [oldest]) p

/-- Track a new blob when a slot is free: whether it was, and the variables afterwards. -/
def diagTrack (blobLen : UInt16) (new : α) (p : DiagPool α) : Run Empty (Bool × DiagPool α) :=
  if p.count < DIAG_POOL_SLOTS then do
    let slots ← store p.slots p.count (some new)
    let sizes ← store p.sizes p.count blobLen.toNat
    let count ← add 64 p.count 1
    let bytes ← add 64 p.bytes blobLen.toNat
    return (true, ⟨slots, sizes, count, bytes⟩)
  else return (false, p)

/-- What a call leaves behind: the pointers it freed, whether its blob went into a slot, the variables,
and the pointer it returns. -/
structure DiagCalled (α : Type) where
  freed : List (Option α)
  tracked : Bool
  pool : DiagPool α
  result : Option α

/-- `dtl_diag_blob_alloc` from its `malloc` on. -/
def diagHandOut (blobLen : UInt16) (malloc : Option α) (freed : List (Option α)) (p : DiagPool α) :
    Run Empty (DiagCalled α) :=
  match malloc with
  | none => .ok ⟨freed, false, p, none⟩
  | some new => do
    let (tracked, p) ← diagTrack blobLen new p
    return ⟨freed, tracked, p, some new⟩

/-- `dtl_diag_blob_alloc`; every turn of its loop empties a slot. -/
def diagBlobAlloc (blobLen : UInt16) (malloc : Option α) (p : DiagPool α) :
    Option (Run Empty (DiagCalled α)) :=
  match diagEvictLoop blobLen (p.count + 1) [] p with
  | none => none
  | some (.error fault) => some (.error fault)
  | some (.ok (freed, p)) => some (diagHandOut blobLen malloc freed p)

/-- A run of calls: the blobs that went into a slot and the pointers freed, each in order, and the
variables. -/
structure DiagHistory (α : Type) where
  entered : List (α × Nat)
  freed : List (Option α)
  pool : DiagPool α

/-- The blob of a call whose `malloc` succeeds. -/
def diagBlob (call : UInt16 × Option α) : Option (α × Nat) := call.2.map fun new => (new, call.1.toNat)

/-- The run after one more call. -/
def DiagHistory.next (h : DiagHistory α) (call : UInt16 × Option α) (called : DiagCalled α) :
    DiagHistory α :=
  ⟨h.entered ++ (if called.tracked then (diagBlob call).toList else []), h.freed ++ called.freed,
    called.pool⟩

/-- A sequence of calls, each with its length and the answer of its `malloc`. -/
def diagCalls : List (UInt16 × Option α) → DiagHistory α → Option (Run Empty (DiagHistory α))
  | [], h => some (.ok h)
  | call :: calls, h =>
    match diagBlobAlloc call.1 call.2 h.pool with
    | none => none
    | some (.error fault) => some (.error fault)
    | some (.ok called) => diagCalls calls (h.next call called)

/-! ## The blobs in the arrays -/

/-- The arrays hold these blobs, oldest first, and the count and the total are theirs. -/
structure DiagPool.Holds (p : DiagPool α) (held : List (α × Nat)) : Prop where
  slots : Filled DIAG_POOL_SLOTS p.slots (held.map fun e => some e.1)
  sizes : Filled DIAG_POOL_SLOTS p.sizes (held.map Prod.snd)
  count : p.count = held.length
  bytes : p.bytes = (held.map Prod.snd).sum
  small : ∀ e ∈ held, e.2 < 65536

theorem DiagPool.start_holds : (DiagPool.start : DiagPool α).Holds [] where
  slots := .nil (List.length_replicate ..)
  sizes := .nil (List.length_replicate ..)
  count := rfl
  bytes := rfl
  small := by simp

section Call

variable {p : DiagPool α} {held : List (α × Nat)}

theorem DiagPool.Holds.count_le (h : p.Holds held) : p.count ≤ DIAG_POOL_SLOTS := by
  have hfits := h.slots.fits
  rw [List.length_map] at hfits
  rw [h.count]
  exact hfits

theorem sum_sizes_le {held : List (α × Nat)} (h : ∀ e ∈ held, e.2 < 65536) :
    (held.map Prod.snd).sum ≤ held.length * 65535 := by
  induction held with
  | nil => simp
  | cons e held ih =>
    have he := h e (by simp)
    have hrest := ih fun e' he' => h e' (by simp [he'])
    simp only [List.map_cons, List.sum_cons, List.length_cons]
    omega

/-- No total of sizes comes near the range of a `size_t`. -/
theorem DiagPool.Holds.bytes_lt (h : p.Holds held) : p.bytes + 65536 < 2 ^ 64 := by
  have hsum := sum_sizes_le h.small
  have hcount := h.count_le
  rw [h.count] at hcount
  rw [h.bytes]
  simp only [DIAG_POOL_SLOTS] at hcount
  omega

/-- **The body of the loop removes the oldest blob.** -/
theorem diagEvictOldest_holds {e : α × Nat} (h : p.Holds (e :: held)) :
    ∃ p', diagEvictOldest p = .ok (some e.1, p') ∧ p'.Holds held ∧ p'.bytes = p.bytes - e.2 := by
  have hbytes : p.bytes = e.2 + (held.map Prod.snd).sum := h.bytes
  have hcount : p.count = held.length + 1 := h.count
  have hload : load p.slots 0 = (.ok (some e.1) : Run Empty _) := h.slots.load_head
  have hsize : load p.sizes 0 = (.ok e.2 : Run Empty _) := h.sizes.load_head
  have hsub : sub p.bytes e.2 = (.ok (p.bytes - e.2) : Run Empty _) := sub_ok (by omega)
  have hmoved : sub p.count 1 = (.ok held.length : Run Empty _) := by
    rw [hcount, sub_ok (by omega)]
    rfl
  obtain ⟨slots, hslots, hs⟩ := h.slots.pop (ε := Empty)
  obtain ⟨sizes, hsizes, hz⟩ := h.sizes.pop (ε := Empty)
  rw [List.length_map] at hslots hsizes
  refine ⟨⟨slots, sizes, held.length, p.bytes - e.2⟩, ?_, ?_, rfl⟩
  · simp only [diagEvictOldest, hload, hsize, hsub, hmoved, hslots, hsizes, Except.bind_ok_eq,
      Except.pure_eq_ok]
  · refine ⟨hs, hz, rfl, ?_, fun e' he' => h.small e' (List.mem_cons_of_mem _ he')⟩
    dsimp only
    omega

theorem diagOverBudget_eq (h : p.Holds held) (blobLen : UInt16) :
    diagOverBudget blobLen p =
      .ok (decide (held ≠ [] ∧ p.bytes + blobLen.toNat > DIAG_POOL_BUDGET)) := by
  have hlt := h.bytes_lt
  have hlen := blobLen.toNat_lt
  have hadd : add 64 p.bytes blobLen.toNat = (.ok (p.bytes + blobLen.toNat) : Run Empty _) :=
    add_ok (by omega)
  unfold diagOverBudget
  rw [h.count, hadd]
  cases held with
  | nil => simp
  | cons e held => simp

/-- **The loop ends, and evicts what the list model evicts.** -/
theorem diagEvictLoop_eq (blobLen : UInt16) : ∀ {held : List (α × Nat)} {p : DiagPool α}
    {fuel : Nat} (freed : List (Option α)), p.Holds held → held.length < fuel →
    ∃ p', diagEvictLoop blobLen fuel freed p =
        some (.ok (freed ++ (diagEvict blobLen.toNat held p.bytes).1.map some, p')) ∧
      p'.Holds (diagEvict blobLen.toNat held p.bytes).2.1 ∧
      p'.bytes = (diagEvict blobLen.toNat held p.bytes).2.2
  | _, _, 0, _, _, hfuel => absurd hfuel (Nat.not_lt_zero _)
  | [], p, fuel + 1, freed, h, _ => by
    refine ⟨p, ?_, h, rfl⟩
    simp [diagEvictLoop, diagOverBudget_eq h, diagEvict]
  | e :: held, p, fuel + 1, freed, h, hfuel => by
    by_cases hover : p.bytes + blobLen.toNat > DIAG_POOL_BUDGET
    · obtain ⟨p₁, hbody, h₁, hbytes⟩ := diagEvictOldest_holds h
      obtain ⟨p', hloop, h', hb'⟩ := diagEvictLoop_eq blobLen (freed ++ [some e.1]) h₁
        (Nat.lt_of_succ_lt_succ hfuel)
      rw [hbytes] at hloop h' hb'
      rw [diagEvict, if_pos hover]
      refine ⟨p', ?_, h', hb'⟩
      simp only [diagEvictLoop, diagOverBudget_eq h, hover, hbody, ne_eq, reduceCtorEq,
        not_false_eq_true, and_self, decide_true, hloop, List.append_assoc, List.map_cons,
        List.singleton_append]
    · rw [diagEvict, if_neg hover]
      refine ⟨p, ?_, h, rfl⟩
      simp only [diagEvictLoop, diagOverBudget_eq h, hover, and_false, decide_false, List.map_nil,
        List.append_nil]

theorem diagTrack_holds (h : p.Holds held) (blobLen : UInt16) (new : α) :
    ∃ p', diagTrack blobLen new p = .ok (decide (held.length < DIAG_POOL_SLOTS), p') ∧
      p'.Holds (if held.length < DIAG_POOL_SLOTS then held ++ [(new, blobLen.toNat)] else held) := by
  have hlt := h.bytes_lt
  have hlen := blobLen.toNat_lt
  by_cases hroom : held.length < DIAG_POOL_SLOTS
  · obtain ⟨slots, hslots, hs⟩ := h.slots.push (ε := Empty) (some new) (by rwa [List.length_map])
    obtain ⟨sizes, hsizes, hz⟩ := h.sizes.push (ε := Empty) blobLen.toNat (by rwa [List.length_map])
    have hcount : add 64 held.length 1 = (.ok (held.length + 1) : Run Empty _) :=
      add_ok (by simp only [DIAG_POOL_SLOTS] at hroom; omega)
    have hbytes : add 64 p.bytes blobLen.toNat = (.ok (p.bytes + blobLen.toNat) : Run Empty _) :=
      add_ok (by omega)
    rw [List.length_map] at hslots hsizes
    rw [if_pos hroom]
    refine ⟨⟨slots, sizes, held.length + 1, p.bytes + blobLen.toNat⟩, ?_, ?_⟩
    · rw [diagTrack, h.count, if_pos hroom]
      simp only [hslots, hsizes, hcount, hbytes, Except.bind_ok_eq, Except.pure_eq_ok, hroom,
        decide_true]
    · refine ⟨?_, ?_, by simp, by simp [h.bytes], ?_⟩
      · rwa [List.map_append]
      · rwa [List.map_append]
      · intro e he
        rcases List.mem_append.mp he with he | he
        · exact h.small e he
        · rw [List.mem_singleton.mp he]
          exact hlen
  · rw [if_neg hroom]
    refine ⟨p, ?_, h⟩
    rw [diagTrack, h.count, if_neg hroom]
    simp only [hroom, decide_false, Except.pure_eq_ok]

/-- What the loop leaves has room for the new blob, or is empty. -/
theorem diagEvict_room (blobLen : Nat) : ∀ (held : List (α × Nat)) (bytes : Nat),
    (diagEvict blobLen held bytes).2.1 = [] ∨
      (diagEvict blobLen held bytes).2.2 + blobLen ≤ DIAG_POOL_BUDGET
  | [], _ => .inl rfl
  | e :: held, bytes => by
    unfold diagEvict
    split
    · exact diagEvict_room blobLen held _
    · exact .inr (by dsimp only; omega)

/-- A call whose `malloc` fails evicts all the same. -/
theorem diagBlobAlloc_null (h : p.Holds held) (blobLen : UInt16) :
    ∃ p', diagBlobAlloc blobLen none p =
        some (.ok ⟨(diagEvict blobLen.toNat held p.bytes).1.map some, false, p', none⟩) ∧
      p'.Holds (diagEvict blobLen.toNat held p.bytes).2.1 := by
  obtain ⟨p', hloop, h', -⟩ := diagEvictLoop_eq blobLen [] h (Nat.lt_succ_self _)
  refine ⟨p', ?_, h'⟩
  rw [diagBlobAlloc, h.count, hloop]
  rfl

/-- A call whose `malloc` succeeds. -/
theorem diagBlobAlloc_some (h : p.Holds held) (blobLen : UInt16) (new : α) {kept : List (α × Nat)}
    (hkept : (diagEvict blobLen.toNat held p.bytes).2.1 = kept) :
    ∃ p', diagBlobAlloc blobLen (some new) p =
        some (.ok ⟨(diagEvict blobLen.toNat held p.bytes).1.map some,
          decide (kept.length < DIAG_POOL_SLOTS), p', some new⟩) ∧
      p'.Holds (if kept.length < DIAG_POOL_SLOTS then kept ++ [(new, blobLen.toNat)] else kept) := by
  obtain ⟨p₁, hloop, h₁, -⟩ := diagEvictLoop_eq blobLen [] h (Nat.lt_succ_self _)
  rw [hkept] at h₁
  obtain ⟨p', htrack, h'⟩ := diagTrack_holds h₁ blobLen new
  refine ⟨p', ?_, h'⟩
  rw [diagBlobAlloc, h.count, hloop]
  simp only [diagHandOut, htrack, Except.bind_ok_eq, Except.pure_eq_ok, List.nil_append]

/-- After a successful call the total is within the budget or is the new blob alone. -/
theorem diagHeld_bytes (blobLen : UInt16) (new : α) {kept : List (α × Nat)} {bytes : Nat}
    (hsum : bytes = (kept.map Prod.snd).sum)
    (hroom : kept = [] ∨ bytes + blobLen.toNat ≤ DIAG_POOL_BUDGET) :
    ((if kept.length < DIAG_POOL_SLOTS then kept ++ [(new, blobLen.toNat)] else kept).map
      Prod.snd).sum ≤ max DIAG_POOL_BUDGET blobLen.toNat := by
  rcases hroom with rfl | hroom
  · rw [if_pos (by simp [DIAG_POOL_SLOTS])]
    simpa using Nat.le_max_right _ _
  · split
    · simp only [List.map_append, List.sum_append, List.map_cons, List.map_nil, List.sum_singleton]
      omega
    · omega

/-- **A call does what it does in the list model.** -/
theorem diagBlobAlloc_poolCall {q : Pools α} (h : p.Holds q.diag) (hbytes : p.bytes = q.diagBytes)
    (blobLen : UInt16) (new : α) :
    ∃ called, diagBlobAlloc blobLen (some new) p = some (.ok called) ∧
      called.freed = (poolCall new q (.diagBlobAlloc blobLen)).freed.map some ∧
      called.result = some new ∧
      called.pool.Holds (poolCall new q (.diagBlobAlloc blobLen)).pools.diag := by
  obtain ⟨p', hcall, h'⟩ := diagBlobAlloc_some h blobLen new rfl
  rw [hbytes] at hcall h'
  refine ⟨_, hcall, ?_, rfl, ?_⟩
  · simp only [poolCall]
    split <;> rfl
  · simp only [poolCall]
    split
    · rename_i hlt
      rwa [if_pos hlt] at h'
    · rename_i hlt
      rwa [if_neg hlt] at h'

end Call

/-! ## Every run -/

/-- The blobs that went into a slot are those that were freed and, behind them, those still held. -/
structure DiagHistory.Holds (h : DiagHistory α) (gone held : List (α × Nat)) : Prop where
  entered : h.entered = gone ++ held
  freed : h.freed = gone.map fun e => some e.1
  pool : h.pool.Holds held

/-- The start of a run. -/
def DiagHistory.start : DiagHistory α := ⟨[], [], .start⟩

theorem DiagHistory.start_holds : (DiagHistory.start : DiagHistory α).Holds [] [] :=
  ⟨rfl, rfl, DiagPool.start_holds⟩

/-- The loop takes blobs off the front. -/
theorem diagEvict_split (blobLen : Nat) {held : List (α × Nat)} {bytes : Nat}
    (hbytes : bytes = (held.map Prod.snd).sum) :
    ∃ gone, held = gone ++ (diagEvict blobLen held bytes).2.1 ∧
      (diagEvict blobLen held bytes).1.map some = gone.map fun e => some e.1 := by
  obtain ⟨hnames, ⟨gone, hsplit⟩, -⟩ := diagEvict_spec blobLen held bytes hbytes
  refine ⟨gone, hsplit.symm, ?_⟩
  rw [← hsplit, List.map_append, hsplit] at hnames
  rw [← List.append_cancel_right hnames, List.map_map]
  rfl

/-- **One call keeps the arrays in step.** -/
theorem diagBlobAlloc_holds {h : DiagHistory α} {gone held : List (α × Nat)} (hh : h.Holds gone held)
    (call : UInt16 × Option α) :
    ∃ called gone' held', diagBlobAlloc call.1 call.2 h.pool = some (.ok called) ∧
      (h.next call called).Holds gone' held' ∧
      ∀ new, call.2 = some new → called.pool.bytes ≤ max DIAG_POOL_BUDGET call.1.toNat := by
  obtain ⟨blobLen, malloc⟩ := call
  have hbytes := hh.pool.bytes
  obtain ⟨gone₁, hsplit, hfreed⟩ := diagEvict_split blobLen.toNat hbytes
  obtain ⟨-, -, hsum⟩ := diagEvict_spec blobLen.toNat held h.pool.bytes hbytes
  have hroom := diagEvict_room blobLen.toNat held h.pool.bytes
  generalize hkept : (diagEvict blobLen.toNat held h.pool.bytes).2.1 = kept at hsplit hsum hroom
  have hfreed' : h.freed ++ (diagEvict blobLen.toNat held h.pool.bytes).1.map some =
      (gone ++ gone₁).map fun e => some e.1 := by
    rw [hh.freed, hfreed, List.map_append]
  have hentered : h.entered = gone ++ gone₁ ++ kept := by
    rw [hh.entered, hsplit, List.append_assoc]
  cases malloc with
  | none =>
    obtain ⟨p', hcall, h'⟩ := diagBlobAlloc_null hh.pool blobLen
    rw [hkept] at h'
    refine ⟨_, gone ++ gone₁, kept, hcall, ⟨?_, hfreed', h'⟩, fun new hnew => by cases hnew⟩
    simp [DiagHistory.next, hentered]
  | some new =>
    obtain ⟨p', hcall, h'⟩ := diagBlobAlloc_some hh.pool blobLen new hkept
    refine ⟨_, gone ++ gone₁, _, hcall, ⟨?_, hfreed', h'⟩, fun _ _ => ?_⟩
    · by_cases hlt : kept.length < DIAG_POOL_SLOTS
      · simp [DiagHistory.next, diagBlob, hlt, hentered]
      · simp [DiagHistory.next, hlt, hentered]
    · rw [h'.bytes]
      exact diagHeld_bytes blobLen new hsum hroom

/-- A run records blobs in the order of the calls that asked for them. -/
theorem diagNext_sublist (h : DiagHistory α) (call : UInt16 × Option α) (called : DiagCalled α)
    (l : List (α × Nat)) :
    ((h.next call called).entered ++ l).Sublist (h.entered ++ ((diagBlob call).toList ++ l)) := by
  rw [DiagHistory.next, List.append_assoc]
  refine (List.Sublist.refl _).append (.append ?_ (.refl _))
  split
  · exact .refl _
  · exact List.nil_sublist _

theorem diagCalls_holds : ∀ (calls : List (UInt16 × Option α)) {h : DiagHistory α}
    {gone held : List (α × Nat)}, h.Holds gone held →
    ∃ h' gone' held', diagCalls calls h = some (.ok h') ∧ h'.Holds gone' held' ∧
      h'.entered.Sublist (h.entered ++ calls.filterMap diagBlob) ∧
      ∀ blobLen new, calls.getLast? = some (blobLen, some new) →
        h'.pool.bytes ≤ max DIAG_POOL_BUDGET blobLen.toNat
  | [], h, gone, held, hh => ⟨h, gone, held, rfl, hh, by simp, fun _ _ hlast => by cases hlast⟩
  | call :: calls, h, gone, held, hh => by
    obtain ⟨called, gone₁, held₁, hcall, h₁, hmax⟩ := diagBlobAlloc_holds hh call
    obtain ⟨h', gone', held', hrun, hh', hsub, hlast⟩ := diagCalls_holds calls h₁
    refine ⟨h', gone', held', ?_, hh', ?_, ?_⟩
    · rw [diagCalls, hcall]
      exact hrun
    · refine hsub.trans ?_
      have hstep := diagNext_sublist h call called (calls.filterMap diagBlob)
      cases hb : diagBlob call with
      | none =>
        rw [hb] at hstep
        rwa [List.filterMap_cons_none hb]
      | some e =>
        rw [hb] at hstep
        rwa [List.filterMap_cons_some hb]
    · intro blobLen new hnew
      cases calls with
      | nil =>
        cases hrun
        simp only [List.getLast?_singleton, Option.some.injEq] at hnew
        subst hnew
        exact hmax new rfl
      | cons c calls => exact hlast blobLen new (by rwa [List.getLast?_cons_cons] at hnew)

/-- **The pool's accounting is consistent over every sequence of calls.**  No call runs forever, wraps
a counter or leaves the arrays; the count stays within them, the total is the sum of the sizes in use,
the blobs freed are those that entered first, and a successful call ends within the budget or with the
new blob alone. -/
theorem diagPool_run (calls : List (UInt16 × Option α)) :
    ∃ h, diagCalls calls .start = some (.ok h) ∧
      h.pool.count ≤ DIAG_POOL_SLOTS ∧
      h.pool.bytes = (h.pool.sizes.take h.pool.count).sum ∧
      (∃ gone held, h.entered = gone ++ held ∧ h.freed = gone.map (fun e => some e.1) ∧
        h.pool.slots.take h.pool.count = held.map (fun e => some e.1) ∧
        h.pool.sizes.take h.pool.count = held.map Prod.snd) ∧
      h.entered.Sublist (calls.filterMap diagBlob) ∧
      ∀ blobLen new, calls.getLast? = some (blobLen, some new) →
        h.pool.bytes ≤ max DIAG_POOL_BUDGET blobLen.toNat := by
  obtain ⟨h, gone, held, hrun, hh, hsub, hlast⟩ := diagCalls_holds calls DiagHistory.start_holds
  have hslots := hh.pool.slots.front
  have hsizes := hh.pool.sizes.front
  rw [List.length_map, ← hh.pool.count] at hslots hsizes
  refine ⟨h, hrun, hh.pool.count_le, ?_, ⟨gone, held, hh.entered, hh.freed, hslots, hsizes⟩, hsub, hlast⟩
  rw [hsizes]
  exact hh.pool.bytes

end Machine

end Dtl
