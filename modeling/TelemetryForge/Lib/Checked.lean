import Mathlib.Data.List.Forall2
import Mathlib.Data.Nat.Bitwise

/-!
# Checked machine arithmetic

Computations over unsigned words of `w` bits in which an addition, subtraction or product that does
not fit, or a load outside a buffer, stops the run with a fault of its own, apart from the error
codes that the program itself reports.

* `Exactly x P v` — `x` returns `v` when `P` holds and reports an error code when it does not; in
  neither case does it fault.  `Exactly.step`, `Exactly.unless` and `Exactly.call` follow a
  computation statement by statement.
* `Simulates R x y` — `x` never faults and matches `y`, a computation over unbounded numbers:
  related results, equal error codes.  `Simulates.bind` composes.
-/

set_option autoImplicit false

namespace Checked

universe u

/-- Why a run stops early. -/
inductive Fault (ε : Type u) where
  | err (e : ε)
  | wrap
  | outside

/-- A computation with checked arithmetic. -/
abbrev Run (ε α : Type) := Except (Fault ε) α

variable {ε α β γ δ : Type}

def add (w a b : Nat) : Run ε Nat := if a + b < 2 ^ w then .ok (a + b) else .error .wrap

def sub (a b : Nat) : Run ε Nat := if b ≤ a then .ok (a - b) else .error .wrap

def mul (w a b : Nat) : Run ε Nat := if a * b < 2 ^ w then .ok (a * b) else .error .wrap

/-- The element of a buffer at an index. -/
def load (p : List β) (i : Nat) : Run ε β :=
  match p[i]? with
  | some b => .ok b
  | none => .error .outside

/-- `n` consecutive elements of a buffer. -/
def loads (p : List β) (i : Nat) : Nat → Run ε (List β)
  | 0 => .ok []
  | n + 1 => do
    let b ← load p i
    let bs ← loads p (i + 1) n
    return b :: bs

/-- An early exit with the program's own error code. -/
def refuse (c : Prop) [Decidable c] (e : ε) : Run ε Unit := if c then .error (.err e) else .ok ()

/-- A computation that makes no checked step. -/
def lift : Except ε α → Run ε α
  | .ok a => .ok a
  | .error e => .error (.err e)

theorem add_ok {w a b : Nat} (h : a + b < 2 ^ w) : add w a b = (.ok (a + b) : Run ε Nat) := if_pos h

theorem sub_ok {a b : Nat} (h : b ≤ a) : sub a b = (.ok (a - b) : Run ε Nat) := if_pos h

theorem mul_ok {w a b : Nat} (h : a * b < 2 ^ w) : mul w a b = (.ok (a * b) : Run ε Nat) := if_pos h

theorem loads_ok {p : List β} : ∀ {n i : Nat}, i + n ≤ p.length →
    loads p i n = (.ok ((p.drop i).take n) : Run ε (List β))
  | 0, _, _ => rfl
  | n + 1, i, h => by
    have hi : i < p.length := by omega
    rw [loads, load, List.getElem?_eq_getElem hi, loads_ok (by omega : i + 1 + n ≤ p.length),
      List.drop_eq_getElem_cons hi]
    rfl

/-! ## Exact acceptance -/

/-- `x` returns `v` exactly when `P` holds, and otherwise reports an error code. -/
def Exactly (x : Run ε α) (P : Prop) (v : α) : Prop :=
  (P → x = .ok v) ∧ (¬ P → ∃ e, x = .error (.err e))

theorem Exactly.ret {P : Prop} (v : α) (h : P) : Exactly (.ok v : Run ε α) P v :=
  ⟨fun _ => rfl, fun hn => absurd h hn⟩

/-- A step that cannot fail. -/
theorem Exactly.step {x : Run ε α} {f : α → Run ε β} {P : Prop} {v : α} {u : β} (hx : x = .ok v)
    (hf : Exactly (f v) P u) : Exactly (x >>= f) P u := by
  rw [hx]
  exact hf

/-- An early exit that the condition excludes. -/
theorem Exactly.unless {c : Prop} [Decidable c] {e : ε} {f : Unit → Run ε β} {P : Prop} {u : β}
    (hc : P → ¬ c) (hf : ¬ c → Exactly (f ()) P u) : Exactly (refuse c e >>= f) P u := by
  unfold refuse
  split
  · rename_i h
    exact ⟨fun hP => absurd h (hc hP), fun _ => ⟨e, rfl⟩⟩
  · rename_i h
    exact hf h

/-- A call whose own condition the overall condition implies. -/
theorem Exactly.call {x : Run ε α} {f : α → Run ε β} {P Q : Prop} {v : α} {u : β}
    (hx : Exactly x Q v) (hQ : P → Q) (hf : Q → Exactly (f v) P u) : Exactly (x >>= f) P u := by
  by_cases h : Q
  · exact Exactly.step (hx.1 h) (hf h)
  · obtain ⟨e, he⟩ := hx.2 h
    rw [he]
    exact ⟨fun hP => absurd (hQ hP) h, fun _ => ⟨e, rfl⟩⟩

theorem Exactly.ok_iff {x : Run ε α} {P : Prop} {v u : α} (h : Exactly x P v) :
    x = .ok u ↔ P ∧ v = u := by
  by_cases hP : P
  · rw [h.1 hP]
    simp [hP]
  · obtain ⟨e, he⟩ := h.2 hP
    rw [he]
    simp [hP]

theorem Exactly.no_fault {x : Run ε α} {P : Prop} {v : α} (h : Exactly x P v) :
    x ≠ .error .wrap ∧ x ≠ .error .outside := by
  by_cases hP : P
  · rw [h.1 hP]
    simp
  · obtain ⟨e, he⟩ := h.2 hP
    rw [he]
    simp

theorem Exactly.mapM {f : α → Run ε β} {P : α → Prop} {g : α → β}
    (hf : ∀ a, Exactly (f a) (P a) (g a)) :
    ∀ l : List α, Exactly (l.mapM f) (∀ a ∈ l, P a) (l.map g)
  | [] => Exactly.ret [] (by simp)
  | a :: l => by
    rw [List.mapM_cons]
    apply Exactly.call (hf a) (fun h => h a (by simp))
    intro ha
    apply Exactly.call (mapM hf l) (fun h b hb => h b (by simp [hb]))
    intro hl
    exact Exactly.ret _ (by simpa [ha] using hl)

/-! ## Simulation of a computation over unbounded numbers -/

/-- `x` never faults; it returns related results to `y`'s and reports `y`'s error codes. -/
def Simulates (R : α → β → Prop) (x : Run ε α) (y : Except ε β) : Prop :=
  (∃ a b, x = .ok a ∧ y = .ok b ∧ R a b) ∨ ∃ e, x = .error (.err e) ∧ y = .error e

theorem Simulates.pure {R : α → β → Prop} {a : α} {b : β} (h : R a b) :
    Simulates R (.ok a : Run ε α) (.ok b) := .inl ⟨a, b, rfl, rfl, h⟩

theorem Simulates.bind {R : α → β → Prop} {S : γ → δ → Prop} {x : Run ε α} {y : Except ε β}
    {f : α → Run ε γ} {g : β → Except ε δ} (hx : Simulates R x y)
    (hf : ∀ a b, R a b → Simulates S (f a) (g b)) : Simulates S (x >>= f) (y >>= g) := by
  rcases hx with ⟨a, b, rfl, rfl, hR⟩ | ⟨e, rfl, rfl⟩
  · exact hf a b hR
  · exact .inr ⟨e, rfl, rfl⟩

theorem Simulates.mono {R S : α → β → Prop} {x : Run ε α} {y : Except ε β} (h : Simulates R x y)
    (hRS : ∀ a b, R a b → S a b) : Simulates S x y := by
  rcases h with ⟨a, b, hx, hy, hR⟩ | herr
  · exact .inl ⟨a, b, hx, hy, hRS a b hR⟩
  · exact .inr herr

theorem Simulates.lift (y : Except ε β) : Simulates Eq (lift y) y := by
  cases y with
  | ok b => exact .inl ⟨b, b, rfl, rfl, rfl⟩
  | error e => exact .inr ⟨e, rfl, rfl⟩

/-- An early exit that both sides take together. -/
theorem Simulates.unless {R : α → β → Prop} {c : Prop} [Decidable c] {e : ε} {f : Unit → Run ε α}
    {g : Unit → Except ε β} (h : ¬ c → Simulates R (f ()) (g ())) :
    Simulates R (refuse c e >>= f) ((if c then .error e else .ok ()) >>= g) := by
  unfold refuse
  split
  · exact .inr ⟨e, rfl, rfl⟩
  · rename_i hc
    exact h hc

/-- A test that both sides make. -/
theorem Simulates.ite {R : α → β → Prop} {c : Prop} [Decidable c] {x x' : Run ε α}
    {y y' : Except ε β} (h : c → Simulates R x y) (h' : ¬ c → Simulates R x' y') :
    Simulates R (if c then x else x') (if c then y else y') := by
  split
  · rename_i hc
    exact h hc
  · rename_i hc
    exact h' hc

theorem Simulates.no_fault {R : α → β → Prop} {x : Run ε α} {y : Except ε β}
    (h : Simulates R x y) : x ≠ .error .wrap ∧ x ≠ .error .outside := by
  rcases h with ⟨a, b, rfl, -, -⟩ | ⟨e, rfl, -⟩
  · simp
  · simp

/-- A step of checked arithmetic that the other side does not make. -/
theorem Simulates.step {R : α → β → Prop} {x : Run ε γ} {f : γ → Run ε α} {y : Except ε β} {v : γ}
    (hx : x = .ok v) (hf : Simulates R (f v) y) : Simulates R (x >>= f) y := by
  rw [hx]
  exact hf

theorem Simulates.mapM {R : β → γ → Prop} {f : α → Run ε β} {g : α → Except ε γ}
    (h : ∀ a, Simulates R (f a) (g a)) :
    ∀ l : List α, Simulates (List.Forall₂ R) (l.mapM f) (l.mapM g)
  | [] => Simulates.pure .nil
  | a :: l => by
    rw [List.mapM_cons, List.mapM_cons]
    apply Simulates.bind (h a)
    intro b c hbc
    apply Simulates.bind (mapM h l)
    intro bs cs hrest
    exact Simulates.pure (.cons hbc hrest)

end Checked
