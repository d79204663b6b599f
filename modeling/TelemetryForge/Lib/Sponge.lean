import Mathlib.Data.List.DropRight

/-!
# Absorbing a stream block by block

A sponge takes its input in blocks of `r` elements.  `blocks` cuts a list, `pad` fills it up to whole
blocks with a marker and zeros, and `absorb` is the streaming form: it buffers elements and steps the
state whenever the buffer is full.

Principal results: `foldl_absorb` — streaming steps the state over the whole blocks and keeps the
rest; `foldl_blocks_pad` — so finishing with a padded last block is one fold over the blocks of the
padded input; `blocks_pad_injective` — these blocks determine the input.
-/

set_option autoImplicit false

namespace Sponge

variable {α σ : Type}

/-! ## Blocks -/

/-- The consecutive blocks of `r` elements; the last one holds what is left. -/
def blocks (r : Nat) (l : List α) : List (List α) :=
  if _h : l = [] ∨ r = 0 then [] else l.take r :: blocks r (l.drop r)
termination_by l.length
decreasing_by
  have hpos : 0 < l.length := List.length_pos_iff.mpr fun hnil => _h (.inl hnil)
  rw [List.length_drop]
  omega

theorem blocks_nil (r : Nat) : blocks r ([] : List α) = [] := by
  rw [blocks, dif_pos (.inl rfl)]

theorem blocks_append {r : Nat} {b : List α} (hb : b.length = r) (hr : 0 < r) (l : List α) :
    blocks r (b ++ l) = b :: blocks r l := by
  have hne : ¬ (b ++ l = [] ∨ r = 0) := by
    rintro (hnil | h0)
    · rw [(List.append_eq_nil_iff.mp hnil).1] at hb
      exact absurd hb (Nat.ne_of_lt hr)
    · omega
  rw [blocks, dif_neg hne, List.take_left' hb, List.drop_left' hb]

/-- Cutting undoes joining whole blocks. -/
theorem blocks_flatten {r : Nat} (hr : 0 < r) : ∀ bs : List (List α), (∀ b ∈ bs, b.length = r) →
    blocks r bs.flatten = bs
  | [], _ => blocks_nil r
  | b :: bs, h => by
    rw [List.forall_mem_cons] at h
    rw [List.flatten_cons, blocks_append h.1 hr, blocks_flatten hr bs h.2]

/-- Joining the blocks undoes cutting. -/
theorem flatten_blocks {r : Nat} (hr : 0 < r) (l : List α) : (blocks r l).flatten = l := by
  induction hn : l.length using Nat.strongRecOn generalizing l with
  | ind n ih =>
    by_cases hnil : l = []
    · rw [hnil, blocks_nil, List.flatten_nil]
    · have hpos : 0 < l.length := List.length_pos_iff.mpr hnil
      have hlt : (l.drop r).length < n := by
        rw [List.length_drop]
        omega
      rw [blocks, dif_neg (not_or.mpr ⟨hnil, Nat.pos_iff_ne_zero.mp hr⟩), List.flatten_cons,
        ih _ hlt (l.drop r) rfl, List.take_append_drop]

theorem flatten_length {r : Nat} : ∀ bs : List (List α), (∀ b ∈ bs, b.length = r) →
    bs.flatten.length = r * bs.length
  | [], _ => rfl
  | b :: bs, h => by
    rw [List.forall_mem_cons] at h
    rw [List.flatten_cons, List.length_append, h.1, flatten_length bs h.2, List.length_cons,
      Nat.mul_succ, Nat.add_comm]

/-- Blocks of a list of whole blocks are whole. -/
theorem blocks_whole {r : Nat} (hr : 0 < r) {l : List α} (hdvd : r ∣ l.length) :
    ∀ b ∈ blocks r l, b.length = r := by
  obtain ⟨k, hk⟩ := hdvd
  induction k generalizing l with
  | zero =>
    rw [List.length_eq_zero_iff.mp hk, blocks_nil]
    exact fun b hb => absurd hb List.not_mem_nil
  | succ k ih =>
    rw [Nat.mul_succ] at hk
    have htake : (l.take r).length = r := by
      rw [List.length_take]
      omega
    have hdrop : (l.drop r).length = r * k := by
      rw [List.length_drop]
      omega
    rw [← List.take_append_drop r l, blocks_append htake hr, List.forall_mem_cons]
    exact ⟨htake, ih hdrop⟩

/-! ## Padding -/

/-- Append the marker, then zeros up to the next multiple of `r`. -/
def pad (one zero : α) (r : Nat) (l : List α) : List α :=
  l ++ one :: List.replicate (r - 1 - l.length % r) zero

theorem pad_length {one zero : α} {r : Nat} (hr : 0 < r) (l : List α) :
    (pad one zero r l).length = r * (l.length / r + 1) := by
  have hmod := Nat.mod_lt l.length hr
  have hdiv := Nat.div_add_mod l.length r
  rw [pad, List.length_append, List.length_cons, List.length_replicate, Nat.mul_add, Nat.mul_one]
  omega

/-- Padded input is made of whole blocks. -/
theorem blocks_pad_whole {one zero : α} {r : Nat} (hr : 0 < r) (l : List α) :
    ∀ b ∈ blocks r (pad one zero r l), b.length = r :=
  blocks_whole hr ⟨_, pad_length hr l⟩

/-- The marker delimits the input: what follows it is zeros, and the marker is none. -/
theorem pad_injective {one zero : α} (hne : one ≠ zero) (r : Nat) :
    Function.Injective (pad one zero r) := by
  classical
  have hstrip : ∀ (k : Nat) (l : List α), (l ++ one :: List.replicate k zero).rdropWhile
      (fun x => decide (x = zero)) = l ++ [one] := by
    intro k l
    induction k with
    | zero => exact List.rdropWhile_concat_neg _ _ _ (by simpa using hne)
    | succ k ih =>
      rw [List.replicate_succ', ← List.cons_append, ← List.append_assoc,
        List.rdropWhile_concat_pos _ _ _ (by simp), ih]
  intro l l' h
  have hcut := congrArg (List.rdropWhile fun x => decide (x = zero)) h
  rw [pad, pad, hstrip, hstrip] at hcut
  exact List.append_cancel_right hcut

/-- **The blocks of the padded input determine the input.** -/
theorem blocks_pad_injective {one zero : α} (hne : one ≠ zero) {r : Nat} (hr : 0 < r) :
    Function.Injective fun l : List α => blocks r (pad one zero r l) := by
  intro l l' h
  have hflat := congrArg List.flatten h
  dsimp only at hflat
  rw [flatten_blocks hr, flatten_blocks hr] at hflat
  exact pad_injective hne r hflat

/-! ## Streaming -/

/-- Take one element into the buffer, and step the state when that fills a block. -/
def absorb (step : σ → List α → σ) (r : Nat) (c : σ × List α) (x : α) : σ × List α :=
  if (c.2 ++ [x]).length = r then (step c.1 (c.2 ++ [x]), []) else (c.1, c.2 ++ [x])

/-- **Streaming steps the state over whole blocks and keeps what is left.** -/
theorem foldl_absorb (step : σ → List α → σ) {r : Nat} : ∀ (l : List α) (c : σ × List α),
    c.2.length < r → ∃ bs : List (List α), (∀ b ∈ bs, b.length = r) ∧
      (l.foldl (absorb step r) c).1 = bs.foldl step c.1 ∧
      c.2 ++ l = bs.flatten ++ (l.foldl (absorb step r) c).2 ∧
      (l.foldl (absorb step r) c).2.length < r
  | [], c, h => ⟨[], by simp, rfl, by simp, h⟩
  | x :: l, c, h => by
    have hlen : (c.2 ++ [x]).length = c.2.length + 1 := List.length_append
    rw [List.foldl_cons]
    by_cases hfull : (c.2 ++ [x]).length = r
    · have hstep : absorb step r c x = (step c.1 (c.2 ++ [x]), []) := if_pos hfull
      obtain ⟨bs, hbs, hstate, hrest, hlt⟩ :=
        foldl_absorb step l (step c.1 (c.2 ++ [x]), []) (show 0 < r by omega)
      rw [hstep]
      refine ⟨(c.2 ++ [x]) :: bs, ?_, hstate, ?_, hlt⟩
      · rw [List.forall_mem_cons]
        exact ⟨hfull, hbs⟩
      · rw [List.flatten_cons, List.append_assoc, ← hrest, List.nil_append, List.append_assoc,
          List.singleton_append]
    · have hstep : absorb step r c x = (c.1, c.2 ++ [x]) := if_neg hfull
      obtain ⟨bs, hbs, hstate, hrest, hlt⟩ :=
        foldl_absorb step l (c.1, c.2 ++ [x]) (show (c.2 ++ [x]).length < r by omega)
      rw [hstep]
      refine ⟨bs, hbs, hstate, ?_, hlt⟩
      rw [← hrest, List.append_assoc, List.singleton_append]

/-- **Finishing a stream.**  Stepping once more over the padded buffer is one fold over the blocks of
the padded input. -/
theorem foldl_blocks_pad (step : σ → List α → σ) (one zero : α) {r : Nat} (hr : 0 < r) (s : σ)
    (l : List α) :
    let c := l.foldl (absorb step r) (s, [])
    step c.1 ((c.2 ++ [one]) ++ List.replicate (r - (c.2 ++ [one]).length) zero) =
      (blocks r (pad one zero r l)).foldl step s := by
  obtain ⟨bs, hbs, hstate, hrest, hlt⟩ := foldl_absorb step l (s, []) hr
  dsimp only at hstate hrest ⊢
  rw [List.nil_append] at hrest
  generalize (l.foldl (absorb step r) (s, [])).2 = buf at hrest hlt ⊢
  rw [hstate]
  have hflat : bs.flatten.length = r * bs.length := flatten_length bs hbs
  have hmod : l.length % r = buf.length := by
    rw [hrest, List.length_append, hflat, Nat.mul_add_mod, Nat.mod_eq_of_lt hlt]
  have hlast : ((buf ++ [one]) ++ List.replicate (r - (buf ++ [one]).length) zero).length = r := by
    simp only [List.length_append, List.length_singleton, List.length_replicate]
    omega
  have hpad : pad one zero r l =
      (bs ++ [(buf ++ [one]) ++ List.replicate (r - (buf ++ [one]).length) zero]).flatten := by
    rw [pad, hmod, List.flatten_append, List.flatten_singleton, hrest, List.length_append,
      List.length_singleton, List.append_assoc, List.append_assoc, List.singleton_append,
      Nat.sub_sub, Nat.add_comm 1]
  have hwhole : ∀ b ∈ bs ++ [(buf ++ [one]) ++ List.replicate (r - (buf ++ [one]).length) zero],
      b.length = r := by
    intro b hb
    rcases List.mem_append.mp hb with hb | hb
    · exact hbs b hb
    · rw [List.mem_singleton.mp hb]
      exact hlast
  rw [hpad, blocks_flatten hr _ hwhole, List.foldl_append, List.foldl_cons, List.foldl_nil]

end Sponge
