import Mathlib.Data.List.Basic

/-!
# Linked lists

Nodes in memory, each with the pointer to the next one.  `Segment` relates the pointer at which a list
starts, its nodes with their addresses, and the pointer at which it ends (`none` is `NULL`).

* `Segment.append`, `Segment.relink` — lists put together, and the last node of a list stored to.
* `walk` — the loop that follows a list; `Segment.walk` says that it visits the nodes in turn.
-/

set_option autoImplicit false

namespace NodeChain

variable {α β σ ε : Type} (next : α → Option β) (heap : β → Option α)

/-- The nodes from one pointer up to another. -/
inductive Segment : Option β → List (β × α) → Option β → Prop where
  | nil (p : Option β) : Segment p [] p
  | cons {i : β} {a : α} {l : List (β × α)} {q : Option β} (node : heap i = some a)
      (rest : Segment (next a) l q) : Segment (some i) ((i, a) :: l) q

/-- The loop over a list: `body` on each node, then on to the next one.  A pointer to no node is the
fault `dangling`; `none` when the fuel is spent before the list ends. -/
def walk (dangling : ε) (body : σ → α → Except ε σ) : Nat → Option β → σ → Option (Except ε σ)
  | _, none, s => some (.ok s)
  | 0, some _, _ => none
  | fuel + 1, some i, s =>
    match heap i with
    | none => some (.error dangling)
    | some a =>
      match body s a with
      | .error e => some (.error e)
      | .ok s => walk dangling body fuel (next a) s

variable {next heap} {p q r : Option β} {l m : List (β × α)}

theorem Segment.append (h : Segment next heap p l q) (h' : Segment next heap q m r) :
    Segment next heap p (l ++ m) r := by
  induction h with
  | nil => exact h'
  | cons node _ ih => exact .cons node (ih h')

theorem Segment.mem (h : Segment next heap p l q) : ∀ e ∈ l, heap e.1 = some e.2 := by
  induction h with
  | nil => simp
  | cons node _ ih =>
    intro e he
    rcases List.mem_cons.mp he with rfl | he
    · exact node
    · exact ih e he

/-- A list is still there in a memory that has its nodes. -/
theorem Segment.congr (h : Segment next heap p l q) {heap' : β → Option α}
    (hsame : ∀ e ∈ l, heap' e.1 = some e.2) : Segment next heap' p l q := by
  induction h with
  | nil => exact .nil _
  | cons _ _ ih =>
    exact .cons (hsame (_, _) List.mem_cons_self) (ih fun e he => hsame e (List.mem_cons_of_mem _ he))

/-- The pointer to the last node. -/
theorem Segment.init {i : β} {a : α} (h : Segment next heap p (l ++ [(i, a)]) q) :
    Segment next heap p l (some i) := by
  induction l generalizing p with
  | nil =>
    cases h with
    | cons node rest => exact .nil _
  | cons e l ih =>
    cases h with
    | cons node rest => exact .cons node (ih rest)

theorem Segment.eq_of_nil (h : Segment next heap p [] q) : p = q := by
  cases h
  rfl

/-- The pointer in the last node is where the list ends. -/
theorem Segment.last_next {i : β} {a : α} (h : Segment next heap p (l ++ [(i, a)]) q) : next a = q := by
  induction l generalizing p with
  | nil =>
    cases h with
    | cons node rest => exact rest.eq_of_nil
  | cons e l ih =>
    cases h with
    | cons node rest => exact ih rest

/-- **A store to the last node keeps the others and moves the end of the list.** -/
theorem Segment.relink {i : β} {a a' : α} (h : Segment next heap p (l ++ [(i, a)]) q)
    {heap' : β → Option α} (hsame : ∀ e ∈ l, heap' e.1 = some e.2) (hlast : heap' i = some a')
    (hend : next a' = r) : Segment next heap' p (l ++ [(i, a')]) r :=
  (h.init.congr hsame).append (.cons hlast (hend ▸ .nil _))

/-- **The loop visits the nodes of the list in turn.** -/
theorem Segment.walk (h : Segment next heap p l none) (dangling : ε) (body : σ → α → Except ε σ) :
    ∀ {fuel : Nat}, l.length ≤ fuel → ∀ s,
      NodeChain.walk next heap dangling body fuel p s = some ((l.map Prod.snd).foldlM body s) := by
  generalize hq : (none : Option β) = q at h
  induction h with
  | nil =>
    subst hq
    intro fuel _ s
    cases fuel <;> rfl
  | @cons i a l q node rest ih =>
    intro fuel hfuel s
    obtain ⟨k, rfl⟩ : ∃ k, fuel = k + 1 := ⟨fuel - 1, by simp at hfuel; omega⟩
    have hk : l.length ≤ k := by simpa using hfuel
    rw [NodeChain.walk, node]
    dsimp only
    rw [List.map_cons, List.foldlM_cons]
    cases hb : body s a with
    | error e => rfl
    | ok s' => exact ih hq hk s'

end NodeChain
