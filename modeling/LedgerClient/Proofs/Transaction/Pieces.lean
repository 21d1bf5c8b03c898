import Mathlib.Algebra.Order.Floor.Div
import LedgerClient.Transaction.Batch

/-!
# Cutting content into pieces

Pieces are cut off the front one after the other.  All but the last are full, since there
are no more of them than the content needs.
-/

namespace LedgerClient

namespace Transaction

variable {size count index : Nat} {content : Bytes}

theorem length_pieces : (pieces size count content).length = count := by
  induction count generalizing content with
  | zero => rfl
  | succ count ih => rw [pieces, List.length_cons, ih]

theorem getElem?_pieces (h : index < count) :
    (pieces size count content)[index]? = some ((content.drop (index * size)).take size) := by
  induction count generalizing index content with
  | zero => cases h
  | succ count ih =>
      cases index with
      | zero => rw [pieces, List.getElem?_cons_zero, Nat.zero_mul, List.drop_zero]
      | succ index =>
          have hdrop : (content.drop size).drop (index * size) =
              content.drop ((index + 1) * size) := by
            rw [List.drop_drop, Nat.succ_mul, Nat.add_comm]
          rw [pieces, List.getElem?_cons_succ, ih (Nat.lt_of_succ_lt_succ h), hdrop]

theorem flatten_pieces (h : content.length ≤ count * size) :
    (pieces size count content).flatten = content := by
  induction count generalizing content with
  | zero =>
      rw [Nat.zero_mul] at h
      rw [List.length_eq_zero_iff.mp (Nat.le_zero.mp h)]
      rfl
  | succ count ih =>
      have hrest : (content.drop size).length ≤ count * size := by
        rw [List.length_drop, Nat.sub_le_iff_le_add, ← Nat.succ_mul]
        exact h
      rw [pieces, List.flatten_cons, ih hrest, List.take_append_drop]

/-!
## How many pieces there are
-/

theorem requiredChunks_eq (size length : Nat) :
    requiredChunks size length = max 1 (length ⌈/⌉ size) := by
  rw [requiredChunks, Nat.ceilDiv_eq_add_pred_div]

theorem length_le_requiredChunks (hsize : 0 < size) (length : Nat) :
    length ≤ requiredChunks size length * size := by
  have hceil : length ⌈/⌉ size ≤ requiredChunks size length := by
    rw [requiredChunks_eq]
    exact Nat.le_max_right _ _
  rw [Nat.mul_comm]
  exact (ceilDiv_le_iff_le_mul hsize).mp hceil

/-- Only the first piece can start where the content ends. -/
theorem start_lt_length (hsize : 0 < size) {length : Nat} (hpos : 0 < index)
    (h : index < requiredChunks size length) : index * size < length := by
  have hceil : index < length ⌈/⌉ size := by
    rw [requiredChunks_eq, lt_max_iff] at h
    exact h.resolve_left (Nat.not_lt.mpr hpos)
  rw [Nat.mul_comm, ← Nat.not_le, ← ceilDiv_le_iff_le_mul hsize]
  exact Nat.not_le.mpr hceil

theorem length_piece_of_lt (hsize : 0 < size)
    (h : index + 1 < requiredChunks size content.length) :
    ((content.drop (index * size)).take size).length = size := by
  have hnext := start_lt_length hsize (Nat.succ_pos index) h
  rw [Nat.succ_mul] at hnext
  rw [List.length_take, List.length_drop]
  omega

theorem eq_nil_of_piece_eq_nil (hsize : 0 < size)
    (h : index < requiredChunks size content.length)
    (hempty : (content.drop (index * size)).take size = []) : content = [] := by
  have hend : content.length ≤ index * size := by
    rcases List.take_eq_nil_iff.mp hempty with hzero | hdrop
    · exact (Nat.ne_of_gt hsize hzero).elim
    · exact List.drop_eq_nil_iff.mp hdrop
  cases index with
  | zero =>
      rw [Nat.zero_mul] at hend
      exact List.length_eq_zero_iff.mp (Nat.le_zero.mp hend)
  | succ index =>
      have hstart := start_lt_length hsize (Nat.succ_pos index) h
      exact (Nat.not_lt.mpr hend hstart).elim

/-!
## Cutting with machine words
-/

/-- A number that fits into eight octets. -/
def word? (n : Nat) : Option Nat :=
  if n < 2 ^ 64 then some n else none

/-- The part between two bounds, which must be in order and within the content. -/
def slice? (content : Bytes) (start stop : Nat) : Option Bytes :=
  if start ≤ stop ∧ stop ≤ content.length then some ((content.take stop).drop start) else none

/-- The piece at an index where no product, sum or bound may be too large. -/
def wordPiece? (size index : Nat) (content : Bytes) : Option Bytes := do
  let start ← word? (index * size)
  let stop ← word? (start + size)
  slice? content start (min stop content.length)

/-- No content in memory takes half of the words or more.  Then neither the start of a piece nor its
end is too large, even for the largest size there is. -/
theorem wordPiece?_eq (hsize : 0 < size) (hword : size < 2 ^ 64) (hlength : content.length < 2 ^ 63)
    (h : index < requiredChunks size content.length) :
    wordPiece? size index content = some ((content.drop (index * size)).take size) := by
  have hstart : index * size ≤ content.length := by
    cases index with
    | zero => simp
    | succ index => exact Nat.le_of_lt (start_lt_length hsize (Nat.succ_pos index) h)
  have hstop : index * size + size < 2 ^ 64 := by
    cases index with
    | zero => simpa using hword
    | succ index =>
        have hsmall : size ≤ (index + 1) * size := Nat.le_mul_of_pos_left size (Nat.succ_pos index)
        omega
  have hbounds : index * size ≤ min (index * size + size) content.length :=
    Nat.le_min.mpr ⟨Nat.le_add_right _ _, hstart⟩
  have hcut : (content.take (min (index * size + size) content.length)).drop (index * size) =
      (content.drop (index * size)).take size := by
    rw [← List.take_eq_take_min, List.drop_take, Nat.add_sub_cancel_left]
  simp only [wordPiece?, word?, slice?, if_pos (Nat.lt_of_le_of_lt (Nat.le_add_right _ _) hstop),
    if_pos hstop, Option.bind_eq_bind, Option.bind_some, hbounds, Nat.min_le_right, and_self,
    if_true, hcut]

end Transaction

end LedgerClient
