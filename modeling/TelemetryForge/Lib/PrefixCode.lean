import Mathlib.Data.List.Basic

/-!
# Self-delimiting decoders over a stream

A `Decoder` reads one value off the front of a list and returns the unread rest.  Against an
encoder `enc` it can be

* `Inverts d enc P` — it reads back every encoded value that satisfies `P`, whatever follows;
* `Exact d enc` — whatever it reads is the encoding of the value it returns.

Two ways of iterating a decoder inherit these properties:

* `readMany` — a fixed number of values (`readMany_inverts`, `readMany_exact`);
* `split` / `items` — as many values as the stream holds, with the unread rest.  For an exact,
  inverting decoder that consumes something, `items` is *the* maximal decomposition of the stream
  (`items_spec`, `items_concat`).

A decoder that `Extends` reads the same value when more input follows.  What such a decoder reads to
the end is `PrefixFree` (`Extends.prefixFree`).
-/

set_option autoImplicit false

namespace Except

variable {ε α β : Type}

/-- A successful sequence is a successful first step followed by a successful rest. -/
theorem bind_eq_ok {x : Except ε α} {f : α → Except ε β} {b : β} :
    (x >>= f) = .ok b ↔ ∃ a, x = .ok a ∧ f a = .ok b := by
  cases x with
  | error e => simp [bind, Except.bind]
  | ok a => simp [bind, Except.bind]

@[simp] theorem bind_ok_eq (a : α) (f : α → Except ε β) : (Except.ok a >>= f) = f a := rfl

@[simp] theorem bind_error_eq (e : ε) (f : α → Except ε β) :
    ((Except.error e : Except ε α) >>= f) = .error e := rfl

@[simp] theorem pure_eq_ok (a : α) : (pure a : Except ε α) = .ok a := rfl

/-- A computation that evaluates to a success has a result. -/
theorem exists_ok {x : Except ε α} (h : x.toOption.isSome = true) : ∃ a, x = .ok a := by
  cases x with
  | error e => cases h
  | ok a => exact ⟨a, rfl⟩

end Except

namespace PrefixCode

variable {ε α β : Type}

/-- Reads one value off the front of a list. -/
abbrev Decoder (ε β α : Type) := List β → Except ε (α × List β)

/-- `d` reads back every encoded value satisfying `P`, whatever follows it. -/
def Inverts (d : Decoder ε β α) (enc : α → List β) (P : α → Prop) : Prop :=
  ∀ a r, P a → d (enc a ++ r) = .ok (a, r)

/-- What `d` reads is the encoding of what it returns. -/
def Exact (d : Decoder ε β α) (enc : α → List β) : Prop :=
  ∀ s a r, d s = .ok (a, r) → s = enc a ++ r

/-! ## A fixed number of values -/

/-- Read `n` values in turn, stopping at the first failure. -/
def readMany (d : Decoder ε β α) : Nat → Decoder ε β (List α)
  | 0, s => .ok ([], s)
  | n + 1, s => do
    let (a, s) ← d s
    let (as, s) ← readMany d n s
    return (a :: as, s)

theorem readMany_inverts {d : Decoder ε β α} {enc : α → List β} {P : α → Prop}
    (hd : Inverts d enc P) (as : List α) (r : List β) (hP : ∀ a ∈ as, P a) :
    readMany d as.length (as.flatMap enc ++ r) = .ok (as, r) := by
  induction as with
  | nil => rfl
  | cons a as ih =>
    have ha := hd a (as.flatMap enc ++ r) (hP a (by simp))
    have has := ih (fun x hx => hP x (by simp [hx]))
    simp only [List.length_cons, List.flatMap_cons, List.append_assoc, readMany, ha, has,
      Except.bind_ok_eq, Except.pure_eq_ok]

theorem readMany_exact {d : Decoder ε β α} {enc : α → List β} (hd : Exact d enc) :
    ∀ {n : Nat} {s : List β} {as : List α} {r : List β}, readMany d n s = .ok (as, r) →
      as.length = n ∧ s = as.flatMap enc ++ r
  | 0, s, as, r, h => by
    simp only [readMany, Except.ok.injEq, Prod.mk.injEq] at h
    obtain ⟨rfl, rfl⟩ := h
    simp
  | n + 1, s, as, r, h => by
    simp only [readMany, Except.bind_eq_ok, Except.pure_eq_ok, Except.ok.injEq,
      Prod.mk.injEq] at h
    obtain ⟨⟨a, s₁⟩, h1, ⟨as', s₂⟩, h2, rfl, rfl⟩ := h
    obtain ⟨hlen, rfl⟩ := readMany_exact hd h2
    refine ⟨by simp [hlen], ?_⟩
    rw [hd _ _ _ h1]; simp

/-- What holds of every value `d` reads holds of all values read. -/
theorem readMany_all {d : Decoder ε β α} {P : α → Prop} (hd : ∀ s a r, d s = .ok (a, r) → P a) :
    ∀ {n : Nat} {s : List β} {as : List α} {r : List β}, readMany d n s = .ok (as, r) →
      ∀ a ∈ as, P a
  | 0, s, as, r, h => by
    simp only [readMany, Except.ok.injEq, Prod.mk.injEq] at h
    obtain ⟨rfl, rfl⟩ := h
    simp
  | n + 1, s, as, r, h => by
    simp only [readMany, Except.bind_eq_ok, Except.pure_eq_ok, Except.ok.injEq,
      Prod.mk.injEq] at h
    obtain ⟨⟨a, s₁⟩, h1, ⟨as', s₂⟩, h2, rfl, rfl⟩ := h
    intro x hx
    rcases List.mem_cons.mp hx with rfl | hx
    · exact hd _ _ _ h1
    · exact readMany_all hd h2 x hx

/-! ## As many values as the stream holds -/

/-- Read values until one fails (or the fuel is spent); the rest is what was not read. -/
def split (d : Decoder ε β α) : Nat → List β → List α × List β
  | 0, s => ([], s)
  | n + 1, s =>
    match d s with
    | .error _ => ([], s)
    | .ok (a, r) => (a :: (split d n r).1, (split d n r).2)

/-- The maximal decomposition of a stream: its items and the unread rest. -/
def items (d : Decoder ε β α) (s : List β) : List α × List β := split d s.length s

/-- A decoder that never succeeds without consuming something. -/
def Consumes (d : Decoder ε β α) : Prop :=
  ∀ s a r, d s = .ok (a, r) → r.length < s.length

theorem split_fuel {d : Decoder ε β α} (hc : Consumes d) :
    ∀ (n m : Nat) (s : List β), s.length ≤ n → s.length ≤ m → split d n s = split d m s
  | 0, 0, _, _, _ => rfl
  | 0, m + 1, s, hn, _ => by
    have hs : s = [] := List.length_eq_zero_iff.mp (by omega)
    subst hs
    cases h : d [] with
    | error e => simp [split, h]
    | ok p => exact absurd (hc [] p.1 p.2 h) (by simp)
  | n + 1, 0, s, _, hm => by
    have hs : s = [] := List.length_eq_zero_iff.mp (by omega)
    subst hs
    cases h : d [] with
    | error e => simp [split, h]
    | ok p => exact absurd (hc [] p.1 p.2 h) (by simp)
  | n + 1, m + 1, s, hn, hm => by
    cases h : d s with
    | error e => simp [split, h]
    | ok p =>
      have hlt := hc s p.1 p.2 h
      simp only [split, h, split_fuel hc n m p.2 (by omega) (by omega)]

theorem items_of_error {d : Decoder ε β α} {s : List β} {e : ε} (h : d s = .error e) :
    items d s = ([], s) := by
  unfold items
  cases s with
  | nil => rfl
  | cons x xs => simp [split, h]

theorem items_of_ok {d : Decoder ε β α} (hc : Consumes d) {s : List β} {a : α} {r : List β}
    (h : d s = .ok (a, r)) : items d s = (a :: (items d r).1, (items d r).2) := by
  have hlt := hc s a r h
  unfold items
  obtain ⟨n, hn⟩ : ∃ n, s.length = n + 1 := ⟨s.length - 1, by omega⟩
  rw [hn]
  simp only [split, h, split_fuel hc n r.length r (by omega) (Nat.le_refl _)]

/-- **A stream is its items followed by a rest on which the decoder fails.** -/
theorem items_spec {d : Decoder ε β α} {enc : α → List β} (hc : Consumes d) (hx : Exact d enc) :
    ∀ (s : List β), s = (items d s).1.flatMap enc ++ (items d s).2 ∧
      ∃ e, d (items d s).2 = .error e := by
  intro s
  induction hn : s.length using Nat.strongRecOn generalizing s with
  | ind n ih =>
    cases h : d s with
    | error e => rw [items_of_error h]; exact ⟨by simp, e, h⟩
    | ok p =>
      obtain ⟨h1, h2⟩ := ih p.2.length (by have := hc s p.1 p.2 h; omega) p.2 rfl
      rw [items_of_ok hc h]
      refine ⟨?_, h2⟩
      rw [List.flatMap_cons, List.append_assoc, ← h1]
      exact hx s p.1 p.2 h

/-- **Encoded items are read back, up to a rest on which the decoder fails.** -/
theorem items_concat {d : Decoder ε β α} {enc : α → List β} {P : α → Prop} (hc : Consumes d)
    (hd : Inverts d enc P) (as : List α) (t : List β) (hP : ∀ a ∈ as, P a) {e : ε}
    (ht : d t = .error e) : items d (as.flatMap enc ++ t) = (as, t) := by
  induction as with
  | nil => exact items_of_error ht
  | cons a as ih =>
    have ha := hd a (as.flatMap enc ++ t) (hP a (by simp))
    rw [List.flatMap_cons, List.append_assoc, items_of_ok hc ha,
      ih (fun x hx => hP x (by simp [hx]))]

/-! ## Prefix-free sets -/

/-- No member of the set is a proper prefix of another. -/
def PrefixFree (S : List β → Prop) : Prop := ∀ s t, S s → S (s ++ t) → t = []

/-- `d` reads the same value when more input follows. -/
def Extends (d : Decoder ε β α) : Prop :=
  ∀ s a r t, d s = .ok (a, r) → d (s ++ t) = .ok (a, r ++ t)

/-- **What a decoder that extends reads to the end is prefix-free.** -/
theorem Extends.prefixFree {d : Decoder ε β α} (h : Extends d) {S : List β → Prop}
    (hS : ∀ s, S s → ∃ a, d s = .ok (a, [])) : PrefixFree S := by
  intro s t hs hst
  obtain ⟨a, ha⟩ := hS s hs
  obtain ⟨b, hb⟩ := hS (s ++ t) hst
  rw [h s a [] t ha] at hb
  exact (Prod.mk.inj (Except.ok.inj hb)).2

/-- An exact decoder that inverts its encoder on whatever it reads. -/
theorem Extends.of_exact {d : Decoder ε β α} {enc : α → List β} {P : α → Prop} (hx : Exact d enc)
    (hd : Inverts d enc P) (hP : ∀ s a r, d s = .ok (a, r) → P a) : Extends d := by
  intro s a r t h
  rw [hx s a r h, List.append_assoc]
  exact hd a (r ++ t) (hP s a r h)

/-- One decoder after another, whose choice may depend on what the first one read. -/
theorem Extends.bind {γ : Type} {d : Decoder ε β α} {d' : α → Decoder ε β γ} (h : Extends d)
    (h' : ∀ a, Extends (d' a)) : Extends fun s => d s >>= fun p => d' p.1 p.2 := by
  intro s c r t hs
  obtain ⟨⟨a, s₁⟩, h1, h2⟩ := Except.bind_eq_ok.mp hs
  refine Except.bind_eq_ok.mpr ⟨(a, s₁ ++ t), h s a s₁ t h1, ?_⟩
  exact h' a s₁ c r t h2

theorem Extends.pure (a : α) : Extends fun s : List β => (.ok (a, s) : Except ε (α × List β)) := by
  intro s b r t h
  obtain ⟨rfl, rfl⟩ := Prod.mk.inj (Except.ok.inj h)
  rfl

theorem Extends.readMany {d : Decoder ε β α} (h : Extends d) : ∀ n, Extends (readMany d n)
  | 0 => Extends.pure []
  | n + 1 => h.bind fun a => (h.readMany n).bind fun as => Extends.pure (a :: as)

theorem PrefixFree.ite {c : Prop} [Decidable c] {S S' : List β → Prop} (h : PrefixFree S)
    (h' : PrefixFree S') : PrefixFree (if c then S else S') := by
  split
  · exact h
  · exact h'

/-- Against a prefix-free set, every proper prefix and every proper extension of a member fails. -/
theorem PrefixFree.excludes {S : List β → Prop} (h : PrefixFree S) {s s' : List β} (hs : S s)
    (hrel : s' <+: s ∨ s <+: s') (hne : s' ≠ s) : ¬ S s' := by
  intro hs'
  rcases hrel with ⟨t, rfl⟩ | ⟨t, rfl⟩
  · exact hne (by rw [h s' t hs' hs, List.append_nil])
  · exact hne (by rw [h s t hs hs', List.append_nil])

end PrefixCode
