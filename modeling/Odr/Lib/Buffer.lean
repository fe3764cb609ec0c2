/-
# Slices of a buffer

A buffer is a list, and a record that is laid over it reads slices of it: `slice b off k` are the
`k` elements from the offset `off` on, and `put b off c` writes `c` there.

Two buffers that agree on their first `n` elements have the same slices below `n`, which is all
that a reader needs to know about a buffer of which only the first `n` elements are its own.
`puts` makes several writes; if they lie apart, each of them is read back, and what lies apart from
all of them is left as it was.
-/
import Mathlib

namespace Buffer

variable {α : Type*} {b b' c : List α} {off off' k n : ℕ}

/-- The `k` elements from the offset `off` on. -/
def slice (b : List α) (off k : ℕ) : List α := (b.drop off).take k

/-- The buffer with `c` written at the offset `off`. -/
def put (b : List α) (off : ℕ) (c : List α) : List α :=
  b.take off ++ c ++ b.drop (off + c.length)

lemma slice_eq_drop_take (b : List α) (off k : ℕ) :
    slice b off k = (b.take (off + k)).drop off := by
  rw [slice, List.drop_take, Nat.add_sub_cancel_left]

lemma length_slice (h : off + k ≤ b.length) : (slice b off k).length = k := by
  rw [slice, List.length_take, List.length_drop]
  omega

lemma getElem?_slice {i : ℕ} (hi : i < k) : (slice b off k)[i]? = b[off + i]? := by
  rw [slice, List.getElem?_take_of_lt hi, List.getElem?_drop]

/-- Slices below `n` depend on the first `n` elements. -/
lemma slice_congr (h : b.take n = b'.take n) (hle : off + k ≤ n) :
    slice b off k = slice b' off k := by
  have htake : ∀ c : List α, c.take (off + k) = (c.take n).take (off + k) := by
    intro c
    rw [List.take_take, min_eq_left hle]
  rw [slice_eq_drop_take, slice_eq_drop_take, htake b, htake b', h]

lemma length_put (h : off + c.length ≤ b.length) : (put b off c).length = b.length := by
  simp only [put, List.length_append, List.length_take, List.length_drop]
  omega

/-- Writing back what is there changes nothing. -/
lemma put_slice (h : off + k ≤ b.length) : put b off (slice b off k) = b := by
  rw [put, length_slice h, slice, List.append_assoc, ← List.drop_drop, List.take_append_drop,
    List.take_append_drop]

/-! ## Several writes -/

/-- The buffer after several writes, each of them to an offset. -/
def puts (b : List α) (ws : List (ℕ × List α)) : List α := ws.foldl (fun b w => put b w.1 w.2) b

/-- The slice of `k` elements from `off` on and the write do not overlap. -/
def Apart (off k : ℕ) (w : ℕ × List α) : Prop := off + k ≤ w.1 ∨ w.1 + w.2.length ≤ off

lemma slice_put_self (h : off + c.length ≤ b.length) : slice (put b off c) off c.length = c := by
  have htake : (b.take off).length = off := by
    rw [List.length_take]
    omega
  rw [slice, put, List.append_assoc, List.drop_left' htake, List.take_left' rfl]

lemma slice_put_of_apart (h : off' + c.length ≤ b.length) (hd : Apart off k (off', c)) :
    slice (put b off' c) off k = slice b off k := by
  have htake : (b.take off').length = off' := by
    rw [List.length_take]
    omega
  rcases hd with hd | hd
  · refine slice_congr (n := off') ?_ hd
    rw [put, List.append_assoc, List.take_left' htake]
  · have hle : off' + c.length ≤ off := hd
    have hlen : (b.take off' ++ c).length = off' + c.length := by rw [List.length_append, htake]
    rw [slice, slice, put, List.drop_append, List.drop_of_length_le (hlen.trans_le hle),
      List.nil_append, List.drop_drop, hlen, Nat.add_sub_cancel' hle]

lemma length_puts {ws : List (ℕ × List α)} (hin : ∀ w ∈ ws, w.1 + w.2.length ≤ b.length) :
    (puts b ws).length = b.length := by
  induction ws generalizing b with
  | nil => rfl
  | cons w ws ih =>
    have hw := length_put (hin w List.mem_cons_self)
    exact (ih fun v hv => hw.symm ▸ hin v (List.mem_cons_of_mem _ hv)).trans hw

lemma slice_puts_of_apart {ws : List (ℕ × List α)}
    (hin : ∀ w ∈ ws, w.1 + w.2.length ≤ b.length) (hd : ∀ w ∈ ws, Apart off k w) :
    slice (puts b ws) off k = slice b off k := by
  induction ws generalizing b with
  | nil => rfl
  | cons w ws ih =>
    have hw := hin w List.mem_cons_self
    exact (ih (fun v hv => (length_put hw).symm ▸ hin v (List.mem_cons_of_mem _ hv))
      fun v hv => hd v (List.mem_cons_of_mem _ hv)).trans
        (slice_put_of_apart hw (hd w List.mem_cons_self))

/-- Writes that lie apart are all read back. -/
lemma slice_puts_of_mem {ws : List (ℕ × List α)}
    (hin : ∀ w ∈ ws, w.1 + w.2.length ≤ b.length)
    (hd : ws.Pairwise fun v w => Apart v.1 v.2.length w) {w : ℕ × List α} (hw : w ∈ ws) :
    slice (puts b ws) w.1 w.2.length = w.2 := by
  induction ws generalizing b with
  | nil => simp at hw
  | cons v ws ih =>
    obtain ⟨hv, hd⟩ := List.pairwise_cons.mp hd
    have hfit := hin v List.mem_cons_self
    have hrest : ∀ u ∈ ws, u.1 + u.2.length ≤ (put b v.1 v.2).length := fun u hu =>
      (length_put hfit).symm ▸ hin u (List.mem_cons_of_mem _ hu)
    rcases List.mem_cons.mp hw with rfl | hw
    · exact (slice_puts_of_apart hrest hv).trans (slice_put_self hfit)
    · exact ih hrest hd hw

end Buffer
