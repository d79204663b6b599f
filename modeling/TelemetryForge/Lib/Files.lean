import Mathlib.Data.List.Infix
import Mathlib.Logic.Function.Basic

/-!
# Files on an unreliable medium

Files are a map from paths to contents.  A medium decides which paths can be read, which can be opened
for writing, and how much of what is written to a path it takes; what it took stays there.

`Leaves W` relates the files before and after some work: every path has what it had, or contents that
`W` accounts for.

Principal results: `save_leaves` — a write leaves a prefix of what was written and touches no other path;
`Leaves.trans` — what two runs leave adds up, so that runs are done by induction on their steps;
`Leaves.forall` — what holds of all that is left keeps holding of all files.
-/

set_option autoImplicit false

namespace Files

open Function (update)

variable {π β : Type}

/-- The contents of the files, by path. -/
abbrev Store (π β : Type) := π → Option (List β)

/-- What opening, reading and writing a path come to. -/
structure Medium (π : Type) where
  reads : π → Bool
  opens : π → Bool
  room : π → Nat

/-- The contents of a path that can be read. -/
def read (m : Medium π) (st : Store π β) (p : π) : Option (List β) :=
  if m.reads p then st p else none

theorem read_some {m : Medium π} {st : Store π β} {p : π} {bytes : List β}
    (h : read m st p = some bytes) : st p = some bytes := by
  unfold read at h
  split at h
  · exact h
  · cases h

/-- Truncate a path, write to it and close it: whether all was taken, and the files. -/
def save [DecidableEq π] (m : Medium π) (p : π) (bytes : List β) (st : Store π β) : Bool × Store π β :=
  if m.opens p then (decide (bytes.length ≤ m.room p), update st p (some (bytes.take (m.room p))))
  else (false, st)

/-- A medium that takes everything. -/
def sound : Medium π := ⟨fun _ => true, fun _ => true, fun _ => 0xFFFFFFFFFFFFFFFF⟩

/-! ## What is left -/

/-- Where the files differ, `W` accounts for what is there now. -/
def Leaves (W : π → List β → Prop) (st st' : Store π β) : Prop :=
  ∀ p, st' p = st p ∨ ∃ bytes, st' p = some bytes ∧ W p bytes

section Leaves

variable {W W' : π → List β → Prop} {st st' st'' : Store π β}

theorem Leaves.refl (W : π → List β → Prop) (st : Store π β) : Leaves W st st := fun _ => .inl rfl

theorem Leaves.trans (h : Leaves W st st') (h' : Leaves W st' st'') : Leaves W st st'' := by
  intro p
  rcases h' p with hp | hp
  · rw [hp]
    exact h p
  · exact .inr hp

theorem Leaves.mono (h : Leaves W st st') (himp : ∀ p bytes, W p bytes → W' p bytes) :
    Leaves W' st st' := by
  intro p
  rcases h p with hp | ⟨bytes, hp, hw⟩
  · exact .inl hp
  · exact .inr ⟨bytes, hp, himp p bytes hw⟩

/-- A path that `W` accounts for nothing at has what it had. -/
theorem Leaves.same (h : Leaves W st st') {p : π} (hp : ∀ bytes, ¬ W p bytes) : st' p = st p := by
  rcases h p with hp' | ⟨bytes, -, hw⟩
  · exact hp'
  · exact absurd hw (hp bytes)

/-- What holds of all contents, and of all that is left, holds of all contents afterwards. -/
theorem Leaves.forall {P : List β → Prop} (h : Leaves W st st') (hW : ∀ p bytes, W p bytes → P bytes)
    (hst : ∀ p bytes, st p = some bytes → P bytes) : ∀ p bytes, st' p = some bytes → P bytes := by
  intro p bytes hp
  rcases h p with hsame | ⟨bytes', hp', hw⟩
  · exact hst p bytes (hsame ▸ hp)
  · rw [hp', Option.some.injEq] at hp
    exact hp ▸ hW p bytes' hw

end Leaves

section Save

variable [DecidableEq π] {m : Medium π} {p : π} {bytes : List β} {st st' : Store π β}

/-- **A write leaves a prefix of what was written, and touches no other path.** -/
theorem save_leaves (m : Medium π) (p : π) (bytes : List β) (st : Store π β) :
    Leaves (fun p' left => p' = p ∧ left <+: bytes) st (save m p bytes st).2 := by
  intro p'
  unfold save
  split
  · by_cases hp : p' = p
    · subst hp
      exact .inr ⟨_, Function.update_self .., rfl, List.take_prefix _ _⟩
    · exact .inl (Function.update_of_ne hp _ _)
  · exact .inl rfl

/-- **A write that reports success has left everything.** -/
theorem save_ok (h : save m p bytes st = (true, st')) : st' = update st p (some bytes) := by
  unfold save at h
  split at h
  · rw [Prod.mk.injEq, decide_eq_true_eq] at h
    rw [← h.2, List.take_of_length_le h.1]
  · cases h

theorem save_opens (h : save m p bytes st = (true, st')) : m.opens p = true := by
  unfold save at h
  split at h
  · assumption
  · cases h

end Save

end Files
