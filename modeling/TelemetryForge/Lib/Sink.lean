import TelemetryForge.Lib.PrefixCode

/-!
# Output into a buffer of bounded capacity

`put` appends a chunk to an output buffer of `cap` cells and fails when fewer cells than the chunk
needs are left.  A `Plan` is what an encoder or decoder does when the capacity is left out of
account: the chunks it writes and the error, if any, it ends with.  `Plan.run` replays a plan
into a buffer of a given capacity.

Principal results: `Plan.run_eq` — replaying depends on the capacity only through the total size
of the chunks; hence the *capacity law* `Plan.run_capacity` (a plan that succeeds for one capacity
succeeds with the same output exactly for the capacities that hold the output) and the bound
`Plan.run_length_le`.
-/

set_option autoImplicit false

namespace Sink

variable {ε β : Type}

/-- Append `bs` to `out`, unless fewer than `bs.length` of the `cap` cells are left. -/
def put (full : ε) (cap : Nat) (out bs : List β) : Except ε (List β) :=
  if cap - out.length < bs.length then .error full else .ok (out ++ bs)

/-- The chunks written in turn and the error at the end, `none` for success. -/
structure Plan (ε β : Type) where
  chunks : List (List β)
  stop : Option ε

/-- The whole output of a plan. -/
def Plan.output (p : Plan ε β) : List β := p.chunks.flatten

/-- Replay the chunks into a buffer that already holds `out`, then end as the plan ends. -/
def replay (full : ε) (cap : Nat) (stop : Option ε) : List (List β) → List β → Except ε (List β)
  | [], out =>
    match stop with
    | none => .ok out
    | some e => .error e
  | c :: cs, out => do
    let out ← put full cap out c
    replay full cap stop cs out

/-- Run a plan on an empty buffer of `cap` cells. -/
def Plan.run (full : ε) (cap : Nat) (p : Plan ε β) : Except ε (List β) :=
  replay full cap p.stop p.chunks []

/-- Prepend a chunk to a plan. -/
def Plan.cons (c : List β) (p : Plan ε β) : Plan ε β := ⟨c :: p.chunks, p.stop⟩

/-- Prepend several chunks to a plan. -/
def Plan.append (cs : List (List β)) (p : Plan ε β) : Plan ε β := ⟨cs ++ p.chunks, p.stop⟩

/-- The plan that writes nothing and succeeds. -/
def Plan.done : Plan ε β := ⟨[], none⟩

/-- The plan that writes nothing and fails. -/
def Plan.fail (e : ε) : Plan ε β := ⟨[], some e⟩

@[simp] theorem Plan.output_cons (c : List β) (p : Plan ε β) :
    (Plan.cons c p).output = c ++ p.output := by
  simp [Plan.cons, Plan.output]

@[simp] theorem Plan.output_append (cs : List (List β)) (p : Plan ε β) :
    (Plan.append cs p).output = cs.flatten ++ p.output := by
  simp [Plan.append, Plan.output]

@[simp] theorem Plan.output_done : (Plan.done : Plan ε β).output = [] := rfl

@[simp] theorem Plan.output_fail (e : ε) : (Plan.fail e : Plan ε β).output = [] := rfl

@[simp] theorem Plan.stop_cons (c : List β) (p : Plan ε β) : (Plan.cons c p).stop = p.stop := rfl

@[simp] theorem Plan.stop_append (cs : List (List β)) (p : Plan ε β) :
    (Plan.append cs p).stop = p.stop := rfl

@[simp] theorem Plan.stop_done : (Plan.done : Plan ε β).stop = none := rfl

@[simp] theorem Plan.stop_fail (e : ε) : (Plan.fail e : Plan ε β).stop = some e := rfl

/-- Replay from a buffer that already holds `out`; what a loop does from its current position. -/
def Plan.from (full : ε) (cap : Nat) (p : Plan ε β) (out : List β) : Except ε (List β) :=
  replay full cap p.stop p.chunks out

@[simp] theorem Plan.from_done (full : ε) (cap : Nat) (out : List β) :
    (Plan.done : Plan ε β).from full cap out = .ok out := rfl

@[simp] theorem Plan.from_fail (full e : ε) (cap : Nat) (out : List β) :
    (Plan.fail e : Plan ε β).from full cap out = .error e := rfl

theorem Plan.from_cons (full : ε) (cap : Nat) (c : List β) (p : Plan ε β) (out : List β) :
    (Plan.cons c p).from full cap out = (put full cap out c >>= fun o => p.from full cap o) := rfl

/-- Write several chunks in turn. -/
def putAll (full : ε) (cap : Nat) (cs : List (List β)) (out : List β) : Except ε (List β) :=
  replay full cap none cs out

theorem putAll_cons (full : ε) (cap : Nat) (c : List β) (cs : List (List β)) (out : List β) :
    putAll full cap (c :: cs) out = (put full cap out c >>= fun o => putAll full cap cs o) := rfl

theorem putAll_singleton (full : ε) (cap : Nat) (c : List β) (out : List β) :
    putAll full cap [c] out = put full cap out c := by
  rw [putAll_cons]
  cases put full cap out c <;> rfl

theorem Plan.from_append (full : ε) (cap : Nat) (p : Plan ε β) :
    ∀ (cs : List (List β)) (out : List β),
      (Plan.append cs p).from full cap out = (putAll full cap cs out >>= fun o => p.from full cap o)
  | [], _ => rfl
  | c :: cs, out => by
    rw [putAll_cons]
    show (put full cap out c >>= fun o => (Plan.append cs p).from full cap o) = _
    cases put full cap out c with
    | error e => rfl
    | ok o => exact Plan.from_append full cap p cs o

theorem put_of_fits {full : ε} {cap : Nat} {out bs : List β}
    (h : out.length + bs.length ≤ cap) : put full cap out bs = .ok (out ++ bs) := by
  rw [put, if_neg (by omega)]

theorem put_of_full {full : ε} {cap : Nat} {out bs : List β} (h : out.length ≤ cap)
    (hb : cap < out.length + bs.length) : put full cap out bs = .error full := by
  rw [put, if_pos (by omega)]

theorem replay_eq (full : ε) (cap : Nat) (stop : Option ε) :
    ∀ (cs : List (List β)) (out : List β), out.length ≤ cap →
      replay full cap stop cs out =
        if out.length + cs.flatten.length ≤ cap then
          match stop with
          | none => .ok (out ++ cs.flatten)
          | some e => .error e
        else .error full
  | [], out, h => by cases stop <;> simp [replay, h]
  | c :: cs, out, h => by
    by_cases hc : out.length + c.length ≤ cap
    · have ih := replay_eq full cap stop cs (out ++ c) (by rw [List.length_append]; exact hc)
      simp only [replay, put_of_fits hc, Except.bind_ok_eq, ih, List.length_append,
        List.flatten_cons, List.append_assoc, Nat.add_assoc]
    · rw [replay, put_of_full h (by omega), Except.bind_error_eq, if_neg]
      rw [List.flatten_cons, List.length_append]; omega

/-- **Replaying a plan depends on the capacity only through the size of the output.** -/
theorem Plan.run_eq (full : ε) (cap : Nat) (p : Plan ε β) :
    p.run full cap =
      if p.output.length ≤ cap then
        match p.stop with
        | none => .ok p.output
        | some e => .error e
      else .error full := by
  have h := replay_eq full cap p.stop p.chunks [] (Nat.zero_le _)
  simpa [Plan.run, Plan.output] using h

theorem Plan.run_ok {full : ε} {cap : Nat} {p : Plan ε β} {y : List β}
    (h : p.run full cap = .ok y) : p.stop = none ∧ p.output = y ∧ y.length ≤ cap := by
  rw [Plan.run_eq] at h
  split at h
  · rename_i hle
    split at h
    · rename_i hs
      cases h; exact ⟨hs, rfl, hle⟩
    · cases h
  · cases h

theorem Plan.run_of_stop_none {full : ε} {cap : Nat} {p : Plan ε β} (hs : p.stop = none)
    (hle : p.output.length ≤ cap) : p.run full cap = .ok p.output := by
  rw [Plan.run_eq, if_pos hle, hs]

/-- With room for the output a plan ends as it says. -/
theorem Plan.run_fits {full : ε} {cap : Nat} {p : Plan ε β} (hle : p.output.length ≤ cap) :
    p.run full cap = p.stop.elim (.ok p.output) .error := by
  rw [Plan.run_eq, if_pos hle]
  cases p.stop <;> rfl

/-- **Capacity law**: one success fixes the result for every capacity. -/
theorem Plan.run_capacity {full : ε} {cap : Nat} {p : Plan ε β} {y : List β}
    (h : p.run full cap = .ok y) (c : Nat) :
    p.run full c = if y.length ≤ c then .ok y else .error full := by
  obtain ⟨hs, rfl, _⟩ := Plan.run_ok h
  rw [Plan.run_eq, hs]

theorem Plan.run_length_le {full : ε} {cap : Nat} {p : Plan ε β} {y : List β}
    (h : p.run full cap = .ok y) : y.length ≤ cap := (Plan.run_ok h).2.2

end Sink
