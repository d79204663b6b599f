import TelemetryForge.Core.Buf

/-!
# Arena requests as the rest of the toolkit sees them

`dtl_arena_alloc` returns either `NULL` or storage that stays valid and unshared until the arena
is reset.  The modelled functions keep the stored values themselves, so all that remains of the
arena is which requests fail: `Arena.fails k` says whether the `k`-th request that reaches the
underlying allocator is refused.  A request of 0 bytes, or one that `dtl_arena_align_up` cannot
round up, is refused without reaching it.
-/

set_option autoImplicit false

namespace Dtl

/-- `SIZE_MAX` of the supported 64-bit platforms. -/
def SIZE_MAX : Nat := 2 ^ 64 - 1

/-- `DTL_ARENA_ALIGN`. -/
def ARENA_ALIGN : Nat := 16

/-- Which requests to the underlying allocator are refused, and how many were made so far. -/
structure Arena where
  fails : Nat → Bool
  calls : Nat

/-- An arena none of whose requests is refused. -/
def Arena.Roomy (a : Arena) : Prop := ∀ k, a.fails k = false

/-- `dtl_arena_alloc`: whether storage was returned, and the arena afterwards. -/
def arenaAlloc (a : Arena) (n : Nat) : Bool × Arena :=
  if n = 0 then (false, a)
  else if n > SIZE_MAX - (ARENA_ALIGN - 1) then (false, a)
  else (!a.fails a.calls, { a with calls := a.calls + 1 })

theorem arenaAlloc_fails (a : Arena) (n : Nat) : (arenaAlloc a n).2.fails = a.fails := by
  unfold arenaAlloc
  split
  · rfl
  · split <;> rfl

theorem Arena.Roomy.alloc {a : Arena} (h : a.Roomy) (n : Nat) : (arenaAlloc a n).2.Roomy := by
  intro k
  rw [arenaAlloc_fails]; exact h k

theorem Arena.Roomy.alloc_ok {a : Arena} (h : a.Roomy) {n : Nat} (h0 : 0 < n)
    (hn : n ≤ 2 ^ 63) : (arenaAlloc a n).1 = true := by
  have h1 : ¬ n > SIZE_MAX - (ARENA_ALIGN - 1) := by simp only [SIZE_MAX, ARENA_ALIGN]; omega
  simp [arenaAlloc, show n ≠ 0 by omega, h1, h a.calls]

end Dtl
