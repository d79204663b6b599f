import TelemetryForge.Lib.Checked

/-!
# Texts with an end marker

A text in memory is its characters and one end marker behind them; a load past the marker is a fault.
`scan` is the loop `while (p(s[pos])) pos++`, which the marker stops.

`load_peek` and `scan_eq` read the loads and the loop on the unread rest of the text.
-/

set_option autoImplicit false

namespace Terminated

open Checked

variable {ε β : Type}

/-- Advance while the character at the position satisfies `p`. -/
def scan (p : β → Bool) (src : List β) (pos : Nat) : Run ε Nat :=
  if h : pos < src.length then
    if p (src.get ⟨pos, h⟩) then scan p src (pos + 1) else .ok pos
  else .error .outside
  termination_by src.length - pos

variable {z : β} {text : List β} {pos : Nat}

/-- The character at a position of the text, or the marker. -/
theorem load_peek (h : pos ≤ text.length) :
    load (text ++ [z]) pos = (.ok ((text.drop pos).headD z) : Run ε β) := by
  rw [load]
  rcases Nat.lt_or_eq_of_le h with hlt | rfl
  · rw [List.getElem?_append_left hlt, List.drop_eq_getElem_cons hlt, List.getElem?_eq_getElem hlt]
    rfl
  · rw [List.getElem?_concat_length, List.drop_length]
    rfl

/-- At a position of the text, either the end or a character and the rest behind it. -/
theorem drop_cases (h : pos ≤ text.length) :
    (pos = text.length ∧ text.drop pos = []) ∨
      ∃ c, pos < text.length ∧ text[pos]? = some c ∧ text.drop pos = c :: text.drop (pos + 1) := by
  rcases Nat.lt_or_eq_of_le h with hlt | rfl
  · exact .inr ⟨_, hlt, List.getElem?_eq_getElem hlt, List.drop_eq_getElem_cons hlt⟩
  · exact .inl ⟨rfl, List.drop_length⟩

theorem scan_step {p : β → Bool} {src : List β} {c : β} (h : src[pos]? = some c) :
    scan p src pos = if p c then scan p src (pos + 1) else (.ok pos : Run ε Nat) := by
  obtain ⟨hlt, rfl⟩ := List.getElem?_eq_some_iff.mp h
  rw [scan, dif_pos hlt]
  rfl

/-- **The loop stops where the characters that satisfy `p` stop.** -/
theorem scan_eq {p : β → Bool} (hz : p z = false) : ∀ {pos : Nat}, pos ≤ text.length →
    scan p (text ++ [z]) pos = (.ok (pos + ((text.drop pos).takeWhile p).length) : Run ε Nat) := by
  intro pos h
  induction hn : text.length - pos generalizing pos with
  | zero =>
    obtain rfl : pos = text.length := by omega
    rw [scan_step List.getElem?_concat_length, hz, List.drop_length]
    rfl
  | succ n ih =>
    have hlt : pos < text.length := by omega
    rcases drop_cases h with ⟨rfl, -⟩ | ⟨c, -, hc, hdrop⟩
    · omega
    · have hat : (text ++ [z])[pos]? = some c := by rw [List.getElem?_append_left hlt, hc]
      rw [scan_step hat, hdrop]
      by_cases hp : p c = true
      · have hrest : pos + 1 ≤ text.length := hlt
        rw [if_pos hp, ih hrest (by omega), List.takeWhile_cons_of_pos hp, List.length_cons,
          Nat.add_assoc, Nat.add_comm 1]
      · rw [if_neg hp, List.takeWhile_cons_of_neg hp]
        rfl

/-- The rest behind the characters that satisfy `p`. -/
theorem drop_takeWhile (p : β → Bool) (pos : Nat) :
    text.drop (pos + ((text.drop pos).takeWhile p).length) = (text.drop pos).dropWhile p := by
  have hsplit := List.takeWhile_append_dropWhile (p := p) (l := text.drop pos)
  rw [← List.drop_drop]
  nth_rewrite 2 [← hsplit]
  rw [List.drop_left]

theorem takeWhile_le (p : β → Bool) (h : pos ≤ text.length) :
    pos + ((text.drop pos).takeWhile p).length ≤ text.length := by
  have hle := (List.takeWhile_sublist (l := text.drop pos) p).length_le
  rw [List.length_drop] at hle
  omega

/-- What the loop passes satisfies `p`. -/
theorem takeWhile_at (p : β → Bool) {i : Nat} (hi : pos ≤ i)
    (hlt : i < pos + ((text.drop pos).takeWhile p).length) : ∃ c, text[i]? = some c ∧ p c = true := by
  have hlen : i - pos < ((text.drop pos).takeWhile p).length := by omega
  have hmem := List.getElem_mem hlen
  have hat := List.prefix_iff_getElem?.mp (List.takeWhile_prefix (l := text.drop pos) p) (i - pos) hlen
  rw [List.getElem?_drop, Nat.add_sub_cancel' hi] at hat
  exact ⟨_, hat, List.all_eq_true.mp List.all_takeWhile _ hmem⟩

end Terminated
