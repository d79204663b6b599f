import Mathlib.Logic.Basic

/-!
# Work with a footprint

Pieces of work take turns on one store.  A `Work` carries the places it may read and write, and the proof
that it keeps to them.  A shuffle of several sessions is a list of pieces of work, each with the session
it belongs to.

Principal results: `isolated` — when no other session writes what a session reads, all of it yields what
it yields alone, and leaves what it leaves alone wherever no other session writes; `shuffles_agree` — when
moreover no two sessions write one place, all shuffles of the same sessions come to the same.
-/

set_option autoImplicit false

namespace Footprint

/-- Work on a store, with the places it may read and write. -/
structure Work (π β ω : Type) where
  step : (π → β) → ω × (π → β)
  reads : π → Prop
  writes : π → Prop
  /-- no other place changes -/
  frame : ∀ st p, ¬ writes p → (step st).2 p = st p
  /-- what it yields depends on what it reads -/
  yields : ∀ st st', (∀ p, reads p → st p = st' p) → (step st).1 = (step st').1
  /-- what it leaves at a place depends on what it reads and on what was there -/
  leaves : ∀ st st', (∀ p, reads p → st p = st' p) → ∀ p, st p = st' p → (step st).2 p = (step st').2 p

variable {π β ω ι : Type}

/-- The store after all of the work. -/
def finish (st : π → β) : List (Work π β ω) → π → β
  | [] => st
  | t :: ts => finish (t.step st).2 ts

/-- What the work yields, in turn. -/
def outcomes (st : π → β) : List (Work π β ω) → List ω
  | [] => []
  | t :: ts => (t.step st).1 :: outcomes (t.step st).2 ts

theorem finish_frame {p : π} : ∀ {ts : List (Work π β ω)} (st : π → β), (∀ t ∈ ts, ¬ t.writes p) →
    finish st ts p = st p
  | [], _, _ => rfl
  | t :: ts, st, h => by
    rw [List.forall_mem_cons] at h
    rw [finish, finish_frame _ h.2, t.frame st p h.1]

/-! ## Shuffles -/

variable [DecidableEq ι]

/-- The work of one session. -/
def session (i : ι) (zs : List (ι × Work π β ω)) : List (Work π β ω) :=
  (zs.filter fun z => z.1 = i).map Prod.snd

/-- What the work of one session yields among the others. -/
def outcomesOf (i : ι) (st : π → β) : List (ι × Work π β ω) → List ω
  | [] => []
  | z :: zs =>
    if z.1 = i then (z.2.step st).1 :: outcomesOf i (z.2.step st).2 zs
    else outcomesOf i (z.2.step st).2 zs

/-- No other session writes the place. -/
def Owns (i : ι) (zs : List (ι × Work π β ω)) (p : π) : Prop := ∀ z ∈ zs, z.1 ≠ i → ¬ z.2.writes p

/-- No other session writes what the session reads. -/
def Isolated (i : ι) (zs : List (ι × Work π β ω)) : Prop :=
  ∀ z ∈ zs, z.1 = i → ∀ p, z.2.reads p → Owns i zs p

/-- No two sessions write one place. -/
def Apart (zs : List (ι × Work π β ω)) : Prop :=
  ∀ z ∈ zs, ∀ z' ∈ zs, z.1 ≠ z'.1 → ∀ p, z.2.writes p → ¬ z'.2.writes p

theorem mem_session {i : ι} {zs : List (ι × Work π β ω)} {t : Work π β ω} :
    t ∈ session i zs ↔ (i, t) ∈ zs := by
  simp [session]

/-- A session goes on as it does alone while the two stores agree on places that only it writes and that
hold all it reads. -/
theorem isolated_step {i : ι} {own : π → Prop} : ∀ (zs : List (ι × Work π β ω)) {st st' : π → β},
    (∀ z ∈ zs, z.1 ≠ i → ∀ p, own p → ¬ z.2.writes p) →
    (∀ z ∈ zs, z.1 = i → ∀ p, z.2.reads p → own p) → (∀ p, own p → st p = st' p) →
      outcomesOf i st zs = outcomes st' (session i zs) ∧
        ∀ p, own p → finish st (zs.map Prod.snd) p = finish st' (session i zs) p
  | [], _, _, _, _, hsame => ⟨rfl, hsame⟩
  | (j, t) :: zs, st, st', hothers, hreads, hsame => by
    rw [List.forall_mem_cons] at hothers hreads
    by_cases hj : j = i
    · -- its own turn: both stores show it the same
      have hread : ∀ p, t.reads p → st p = st' p := fun p hp => hsame p (hreads.1 hj p hp)
      have hnext := fun p hp => t.leaves st st' hread p (hsame p hp)
      obtain ⟨hout, hfin⟩ := isolated_step zs hothers.2 hreads.2 hnext
      have hsession : session i ((j, t) :: zs) = t :: session i zs := by simp [session, hj]
      rw [hsession, outcomesOf, if_pos hj, hout, t.yields st st' hread]
      exact ⟨rfl, hfin⟩
    · -- the turn of another session
      have hnext : ∀ p, own p → (t.step st).2 p = st' p := by
        intro p hp
        rw [t.frame st p (hothers.1 hj p hp), hsame p hp]
      have hsession : session i ((j, t) :: zs) = session i zs := by simp [session, hj]
      rw [hsession, outcomesOf, if_neg hj]
      exact isolated_step zs hothers.2 hreads.2 hnext

/-- **Isolation.** -/
theorem isolated {i : ι} {zs : List (ι × Work π β ω)} (h : Isolated i zs) (st : π → β) :
    outcomesOf i st zs = outcomes st (session i zs) ∧
      ∀ p, Owns i zs p → finish st (zs.map Prod.snd) p = finish st (session i zs) p :=
  isolated_step zs (fun z hz hne _ hown => hown z hz hne) h fun _ _ => rfl

theorem Owns.of_same {i : ι} {zs zs' : List (ι × Work π β ω)} {p : π}
    (hsame : ∀ j, session j zs = session j zs') (h : Owns i zs p) : Owns i zs' p := by
  intro z hz hne
  refine h z (mem_session.mp ?_) hne
  rw [hsame]
  exact mem_session.mpr hz

theorem Isolated.of_same {i : ι} {zs zs' : List (ι × Work π β ω)}
    (hsame : ∀ j, session j zs = session j zs') (h : Isolated i zs) : Isolated i zs' := by
  intro z hz hi p hp
  refine (h z (mem_session.mp ?_) hi p hp).of_same hsame
  rw [hsame]
  exact mem_session.mpr hz

/-- **All shuffles of the same sessions come to the same.** -/
theorem shuffles_agree {zs zs' : List (ι × Work π β ω)} (hsame : ∀ i, session i zs = session i zs')
    (hiso : ∀ i, Isolated i zs) (hapart : Apart zs) (st : π → β) :
    (∀ i, outcomesOf i st zs = outcomesOf i st zs') ∧
      finish st (zs.map Prod.snd) = finish st (zs'.map Prod.snd) := by
  constructor
  · intro i
    rw [(isolated (hiso i) st).1, (isolated ((hiso i).of_same hsame) st).1, hsame i]
  · funext p
    by_cases hwritten : ∃ z ∈ zs, z.2.writes p
    · obtain ⟨z, hz, hp⟩ := hwritten
      have hown : Owns z.1 zs p := fun z' hz' hne => hapart z hz z' hz' hne.symm p hp
      rw [(isolated (hiso z.1) st).2 p hown,
        (isolated ((hiso z.1).of_same hsame) st).2 p (hown.of_same hsame), hsame z.1]
    · -- a place that no session writes
      have hnone : ∀ z ∈ zs, ¬ z.2.writes p := fun z hz hp => hwritten ⟨z, hz, hp⟩
      have hnone' : ∀ z ∈ zs', ¬ z.2.writes p := by
        intro z hz
        refine hnone z (mem_session.mp ?_)
        rw [hsame]
        exact mem_session.mpr hz
      rw [finish_frame st (by simpa using fun t i hmem => hnone (i, t) hmem),
        finish_frame st (by simpa using fun t i hmem => hnone' (i, t) hmem)]

end Footprint
