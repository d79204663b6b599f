import Mathlib.Data.List.Basic

/-!
# Computations that return a result or `NULL`

A `Cmd` changes a state and returns a result or `NULL`, unless it stops with a fault.  In a sequence a
`NULL` is passed on at once; the state it leaves behind stays.

`Ends x s Q N` — from `s` the computation stops without a fault, with a result in `Q` or with `NULL` in
`N`.  `Ends.bind` and its siblings follow a computation statement by statement.
-/

set_option autoImplicit false

namespace Nullable

variable {φ σ α β : Type}

/-- A computation over a state `σ` that may fault with `φ`. -/
def Cmd (φ σ α : Type) : Type := σ → Except φ (Option α × σ)

/-- Return a result. -/
def Cmd.ret (a : α) : Cmd φ σ α := fun s => .ok (some a, s)

/-- Go on with the result, or pass `NULL` on. -/
def Cmd.andThen (x : Cmd φ σ α) (f : α → Cmd φ σ β) : Cmd φ σ β := fun s =>
  match x s with
  | .error e => .error e
  | .ok (none, s) => .ok (none, s)
  | .ok (some a, s) => f a s

instance : Monad (Cmd φ σ) where
  pure := Cmd.ret
  bind := Cmd.andThen

/-- Return `NULL`. -/
def null : Cmd φ σ α := fun s => .ok (none, s)

/-- Stop with a fault. -/
def fault (e : φ) : Cmd φ σ α := fun _ => .error e

/-- Go on with a value when there is one. -/
def orNull : Option α → Cmd φ σ α
  | some a => pure a
  | none => null

/-- Look at the state. -/
def ask (f : σ → α) : Cmd φ σ α := fun s => .ok (some (f s), s)

/-- Change the state. -/
def change (f : σ → σ) : Cmd φ σ Unit := fun s => .ok (some (), f s)

/-- Change the state once the computation is over, whatever it returned; the change sees the state
before it. -/
def atExit (x : Cmd φ σ α) (f : σ → Option α → σ → σ) : Cmd φ σ α := fun s =>
  match x s with
  | .error e => .error e
  | .ok (r, s') => .ok (r, f s r s')

/-- The computation stops without a fault, with a result in `Q` or with `NULL` in `N`. -/
def Ends (x : Cmd φ σ α) (s : σ) (Q : α → σ → Prop) (N : σ → Prop) : Prop :=
  (∃ a s', x s = .ok (some a, s') ∧ Q a s') ∨ ∃ s', x s = .ok (none, s') ∧ N s'

variable {x : Cmd φ σ α} {f : α → Cmd φ σ β} {s : σ} {Q Q' : α → σ → Prop} {R : β → σ → Prop}
  {N N' : σ → Prop}

theorem Ends.ret {a : α} (h : Q a s) : Ends (pure a : Cmd φ σ α) s Q N := .inl ⟨a, s, rfl, h⟩

theorem Ends.null (h : N s) : Ends (Nullable.null : Cmd φ σ α) s Q N := .inr ⟨s, rfl, h⟩

theorem Ends.ask {g : σ → α} (h : Q (g s) s) : Ends (Nullable.ask g : Cmd φ σ α) s Q N :=
  .inl ⟨g s, s, rfl, h⟩

theorem Ends.change {g : σ → σ} {Q : Unit → σ → Prop} (h : Q () (g s)) :
    Ends (Nullable.change g : Cmd φ σ Unit) s Q N := .inl ⟨(), g s, rfl, h⟩

theorem Ends.mono (h : Ends x s Q N) (hQ : ∀ a s', Q a s' → Q' a s') (hN : ∀ s', N s' → N' s') :
    Ends x s Q' N' := by
  rcases h with ⟨a, s', hx, hq⟩ | ⟨s', hx, hn⟩
  · exact .inl ⟨a, s', hx, hQ a s' hq⟩
  · exact .inr ⟨s', hx, hN s' hn⟩

/-- **A sequence**: the second computation starts from where the first one returned a result. -/
theorem Ends.bind (h : Ends x s Q N) (hf : ∀ a s', Q a s' → Ends (f a) s' R N) :
    Ends (x >>= f) s R N := by
  rcases h with ⟨a, s', hx, hq⟩ | ⟨s', hx, hn⟩
  · have hstep : (x >>= f) s = f a s' := by
      show Cmd.andThen x f s = f a s'
      rw [Cmd.andThen, hx]
    rcases hf a s' hq with ⟨b, s'', hb, hr⟩ | ⟨s'', hb, hn⟩
    · exact .inl ⟨b, s'', hstep.trans hb, hr⟩
    · exact .inr ⟨s'', hstep.trans hb, hn⟩
  · refine .inr ⟨s', ?_, hn⟩
    show Cmd.andThen x f s = .ok (none, s')
    rw [Cmd.andThen, hx]

theorem Ends.ite {c : Prop} [Decidable c] {y : Cmd φ σ α} (hx : c → Ends x s Q N)
    (hy : ¬ c → Ends y s Q N) : Ends (if c then x else y) s Q N := by
  split
  · rename_i h
    exact hx h
  · rename_i h
    exact hy h

/-- What is changed at the end is changed on both ways out. -/
theorem Ends.atExit {g : σ → Option α → σ → σ}
    (h : Ends x s (fun a s' => Q a (g s (some a) s')) (fun s' => N (g s none s'))) :
    Ends (Nullable.atExit x g) s Q N := by
  rcases h with ⟨a, s', hx, hq⟩ | ⟨s', hx, hn⟩
  · refine .inl ⟨a, _, ?_, hq⟩
    rw [Nullable.atExit, hx]
  · refine .inr ⟨_, ?_, hn⟩
    rw [Nullable.atExit, hx]

end Nullable
