import Mathlib.Data.List.Forall2

/-!
# Runs that may be refused a resource

A computation that asks for memory ends as it would with plenty of it, or with a fault.  `Degrades` compares
two runs in this way.  `EndsAs` judges one run: by the fault, by a verdict known beforehand, or by a
property of the value where the verdict is that nothing fails.

Principal results: `EndsAs.bind` — the verdict of two runs is that of the first, or else that of the
second; `EndsAs.degrades` — a run so judged degrades the run that the verdict describes;
`Degrades.foldlM` — a sequence degrades when each step does.
-/

set_option autoImplicit false

namespace Faults

variable {ε α β σ : Type} {fault : ε}

/-! ## Two runs -/

/-- The run ends with the fault, or as the other one does. -/
def Degrades (fault : ε) (low high : Except ε α) : Prop := low = .error fault ∨ low = high

theorem Degrades.refl (x : Except ε α) : Degrades fault x x := Or.inr rfl

/-- A value that is computed in spite of refusals is the right one. -/
theorem Degrades.value {low high : Except ε α} {a : α} (h : Degrades fault low high)
    (hlow : low = .ok a) : high = .ok a := by
  rcases h with h | rfl
  · cases hlow.symm.trans h
  · exact hlow

theorem Degrades.bind {low high : Except ε α} {f g : α → Except ε β} (h : Degrades fault low high)
    (hf : ∀ a, Degrades fault (f a) (g a)) : Degrades fault (low >>= f) (high >>= g) := by
  rcases h with rfl | rfl
  · exact Or.inl rfl
  · cases low with
    | error rc => exact Or.inr rfl
    | ok a => exact hf a

theorem Degrades.map {low high : Except ε α} (h : Degrades fault low high) (f : α → β) :
    Degrades fault (f <$> low) (f <$> high) := by
  rcases h with rfl | rfl
  · exact Or.inl rfl
  · exact .refl _

theorem Degrades.ite {c : Prop} [Decidable c] {x x' y y' : Except ε α} (h : Degrades fault x y)
    (h' : Degrades fault x' y') : Degrades fault (if c then x else x') (if c then y else y') := by
  split
  · exact h
  · exact h'

theorem Degrades.foldlM {f g : σ → β → Except ε σ} : ∀ {bs : List β},
    (∀ b ∈ bs, ∀ s, Degrades fault (f s b) (g s b)) →
      ∀ s, Degrades fault (bs.foldlM f s) (bs.foldlM g s)
  | [], _, s => .refl _
  | b :: bs, h, s => by
    rw [List.forall_mem_cons] at h
    rw [List.foldlM_cons, List.foldlM_cons]
    exact (h.1 s).bind fun s' => Degrades.foldlM h.2 s'

/-! ## A run and its verdict -/

/-- The run ends with the fault, or as the verdict says: with its error, or with a value of which `P`
holds. -/
def EndsAs (fault : ε) (verdict : Option ε) (P : α → Prop) : Except ε α → Prop
  | .error rc => rc = fault ∨ verdict = some rc
  | .ok a => verdict = none ∧ P a

variable {v v' : Option ε} {P Q : α → Prop}

theorem EndsAs.value {x : Except ε α} {a : α} (h : EndsAs fault v P x) (hx : x = .ok a) :
    v = none ∧ P a := by
  rw [hx] at h
  exact h

/-- A value is left only where the verdict is that nothing fails. -/
theorem EndsAs.imp {x : Except ε α} (h : EndsAs fault v P x) (hpq : ∀ a, v = none → P a → Q a) :
    EndsAs fault v Q x := by
  cases x with
  | error rc => exact h
  | ok a => exact ⟨h.1, hpq a h.1 h.2⟩

/-- **The verdict of two runs is that of the first, or else that of the second.** -/
theorem EndsAs.bind {R : β → Prop} {x : Except ε α} {f : α → Except ε β} (h : EndsAs fault v P x)
    (hf : ∀ a, P a → EndsAs fault v' R (f a)) : EndsAs fault (v.or v') R (x >>= f) := by
  cases x with
  | error rc =>
    rcases h with h | h
    · exact Or.inl h
    · exact Or.inr (by rw [h, Option.some_or])
  | ok a =>
    rw [h.1, Option.none_or]
    exact hf a h.2

/-- **A run judged by a verdict degrades the run that the verdict describes.** -/
theorem EndsAs.degrades {low high : Except ε α} (h : EndsAs fault v P low)
    (herror : ∀ rc, v = some rc → high = .error rc)
    (hok : v = none → ∀ a, low = .ok a → P a → high = .ok a) : Degrades fault low high := by
  cases low with
  | error rc =>
    rcases h with h | h
    · exact Or.inl (congrArg _ h)
    · exact Or.inr (herror rc h).symm
  | ok a => exact Or.inr (hok h.1 a rfl h.2).symm

/-- A run that degrades one without a fault of its own is judged by how that one ends. -/
theorem Degrades.endsAs {low : Except ε α} {a : α} (h : Degrades fault low (v.elim (.ok a) .error))
    (hp : P a) : EndsAs fault v P low := by
  rcases h with rfl | rfl
  · exact Or.inl rfl
  · cases v with
    | none => exact ⟨rfl, hp⟩
    | some rc => exact Or.inr rfl

end Faults
