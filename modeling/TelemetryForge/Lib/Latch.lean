import Mathlib.Data.List.Pairwise
import Mathlib.Data.List.Basic

/-!
# Error registers and their histories

A machine with an error register, observed at every store into it.

* `Keeps a b` — a register that holds an error in `a` holds the same error in `b`.
* `Latched a h` — from the value `a` on, the values `h` never leave the first error among them.
* `Traced` — a step function with the list of values the register takes during a step.
* `Traced.latched_iff` — a run is latched exactly when each of its steps is.
-/

set_option autoImplicit false

namespace Latch

variable {σ α ε : Type}

/-- The later value keeps an error of the earlier one. -/
def Keeps (a b : Option ε) : Prop := ∀ e, a = some e → b = some e

theorem Keeps.refl (a : Option ε) : Keeps a a := fun _ h => h

theorem Keeps.trans {a b c : Option ε} (hab : Keeps a b) (hbc : Keeps b c) : Keeps a c :=
  fun e h => hbc e (hab e h)

@[simp] theorem keeps_none (b : Option ε) : Keeps none b := by
  intro e h
  cases h

@[simp] theorem keeps_some {e : ε} {b : Option ε} : Keeps (some e) b ↔ b = some e :=
  ⟨fun h => h e rfl, fun h e' he' => by rw [← he', h]⟩

instance [DecidableEq ε] (a b : Option ε) : Decidable (Keeps a b) :=
  match a with
  | none => isTrue (keeps_none b)
  | some _ => decidable_of_iff _ keeps_some.symm

/-- Every value of the history keeps the errors of the values before it. -/
def Latched (a : Option ε) (h : List (Option ε)) : Prop := (a :: h).Pairwise Keeps

instance [DecidableEq ε] (a : Option ε) (h : List (Option ε)) : Decidable (Latched a h) :=
  inferInstanceAs (Decidable (List.Pairwise Keeps (a :: h)))

/-- The last value of a history. -/
def last (a : Option ε) : List (Option ε) → Option ε
  | [] => a
  | b :: h => last b h

/-- The first error of a history. -/
def first (a : Option ε) (h : List (Option ε)) : Option ε := (a :: h).findSome? id

@[simp] theorem latched_nil (a : Option ε) : Latched a [] := by simp [Latched]

theorem latched_cons {a b : Option ε} {h : List (Option ε)} :
    Latched a (b :: h) ↔ Keeps a b ∧ Latched b h := by
  constructor
  · intro hl
    obtain ⟨hhead, htail⟩ := List.pairwise_cons.mp hl
    exact ⟨hhead b List.mem_cons_self, htail⟩
  · rintro ⟨hab, hl⟩
    refine List.pairwise_cons.mpr ⟨fun c hc => ?_, hl⟩
    rcases List.mem_cons.mp hc with rfl | hc
    · exact hab
    · exact hab.trans ((List.pairwise_cons.mp hl).1 c hc)

@[simp] theorem last_nil (a : Option ε) : last a [] = a := rfl

@[simp] theorem last_cons (a b : Option ε) (h : List (Option ε)) : last a (b :: h) = last b h := rfl

theorem last_append (a : Option ε) (h₁ h₂ : List (Option ε)) :
    last a (h₁ ++ h₂) = last (last a h₁) h₂ := by
  induction h₁ generalizing a with
  | nil => rfl
  | cons b h₁ ih => rw [List.cons_append, last_cons, last_cons, ih]

theorem latched_append {a : Option ε} {h₁ h₂ : List (Option ε)} :
    Latched a (h₁ ++ h₂) ↔ Latched a h₁ ∧ Latched (last a h₁) h₂ := by
  induction h₁ generalizing a with
  | nil => simp
  | cons b h₁ ih => rw [List.cons_append, latched_cons, ih, latched_cons, last_cons, and_assoc]

/-- A latched history ends with its first error. -/
theorem Latched.last_eq_first : ∀ {h : List (Option ε)} {a : Option ε}, Latched a h →
    last a h = first a h
  | [], none, _ => rfl
  | [], some e, _ => rfl
  | b :: h, none, hl => by
    rw [last_cons, Latched.last_eq_first (latched_cons.mp hl).2]
    simp [first]
  | b :: h, some e, hl => by
    obtain ⟨hab, hrest⟩ := latched_cons.mp hl
    rw [last_cons, Latched.last_eq_first hrest, keeps_some.mp hab]
    simp [first]

/-- A step function over states with an error register, with the values the register takes during
each step. -/
structure Traced (σ α ε : Type) where
  step : σ → α → σ
  reg : σ → Option ε
  trace : σ → α → List (Option ε)
  last_trace : ∀ s x, last (reg s) (trace s x) = reg (step s x)

namespace Traced

variable (m : Traced σ α ε)

/-- The state after a run. -/
def run (s : σ) (xs : List α) : σ := xs.foldl m.step s

/-- The values the register takes during a run. -/
def history : σ → List α → List (Option ε)
  | _, [] => []
  | s, x :: xs => m.trace s x ++ history (m.step s x) xs

@[simp] theorem run_nil (s : σ) : m.run s [] = s := rfl

@[simp] theorem run_cons (s : σ) (x : α) (xs : List α) :
    m.run s (x :: xs) = m.run (m.step s x) xs := rfl

theorem last_history : ∀ (xs : List α) (s : σ), last (m.reg s) (m.history s xs) = m.reg (m.run s xs)
  | [], _ => rfl
  | x :: xs, s => by rw [history, last_append, m.last_trace, last_history xs, run_cons]

/-- **A run is latched exactly when each of its steps is**, from the state it is taken in. -/
theorem latched_iff : ∀ (xs : List α) (s : σ), Latched (m.reg s) (m.history s xs) ↔
    ∀ pre x post, xs = pre ++ x :: post →
      Latched (m.reg (m.run s pre)) (m.trace (m.run s pre) x)
  | [], s => by simp [history]
  | x :: xs, s => by
    rw [history, latched_append, m.last_trace, latched_iff xs]
    constructor
    · rintro ⟨hx, hxs⟩ pre y post heq
      rcases pre with _ | ⟨z, pre⟩
      · obtain ⟨rfl, -⟩ := List.cons.inj heq
        exact hx
      · obtain ⟨rfl, htail⟩ := List.cons.inj heq
        exact hxs pre y post htail
    · intro h
      exact ⟨h [] x xs rfl, fun pre y post heq => h (x :: pre) y post (by rw [heq]; rfl)⟩

/-- Steps that each store one value and never leave an error make a latched run. -/
theorem latched_of_keeps (hm : ∀ s x, Latched (m.reg s) (m.trace s x)) (xs : List α) (s : σ) :
    Latched (m.reg s) (m.history s xs) := (m.latched_iff xs s).mpr fun _ _ _ _ => hm _ _

end Traced

end Latch
