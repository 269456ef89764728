/-
# Cyclic redundancy checks

A check of width `w` is fed bit by bit: the register moves up by one, and the polynomial is
added when the bit that leaves differs from the one that comes in.  Feeding is linear, and
feeding a register its own top bits only moves it, so that `n` bits at a time can be taken
from a table (`feed_table`).
-/
import Mathlib.Data.Nat.Notation

namespace Crc

variable {w : ℕ} (poly : BitVec w)

/-- One bit. -/
def feedBit (c : BitVec w) (b : Bool) : BitVec w :=
  if c.msb = b then c <<< 1 else (c <<< 1) ^^^ poly

/-- The bits of a message, the first one first. -/
def feed (c : BitVec w) (bs : List Bool) : BitVec w := bs.foldl (feedBit poly) c

/-- The `n` top bits of a register, the highest first. -/
def topBits : ℕ → BitVec w → List Bool
  | 0, _ => []
  | n + 1, c => c.msb :: topBits n (c <<< 1)

@[simp] theorem length_topBits (n : ℕ) (c : BitVec w) : (topBits n c).length = n := by
  induction n generalizing c with
  | zero => rfl
  | succ n ih => rw [topBits, List.length_cons, ih]

theorem getElem?_topBits {n i : ℕ} (hi : i < n) (c : BitVec w) :
    (topBits n c)[i]? = some (c.getMsbD i) := by
  induction n generalizing c i with
  | zero => omega
  | succ n ih =>
    cases i with
    | zero => simp [topBits, BitVec.msb]
    | succ i =>
      rw [topBits, List.getElem?_cons_succ, ih (by omega)]
      simp [BitVec.getMsbD_shiftLeft]

theorem feed_append (c : BitVec w) (bs bs' : List Bool) :
    feed poly c (bs ++ bs') = feed poly (feed poly c bs) bs' := List.foldl_append

theorem feedBit_xor (c d : BitVec w) (a b : Bool) :
    feedBit poly (c ^^^ d) (a ^^ b) = feedBit poly c a ^^^ feedBit poly d b := by
  have htwice : ∀ x : BitVec w, x ^^^ poly ^^^ poly = x := by
    intro x
    rw [BitVec.xor_assoc, BitVec.xor_self, BitVec.xor_zero]
  have hright : ∀ x y : BitVec w, x ^^^ y ^^^ poly = x ^^^ poly ^^^ y := by
    intro x y
    rw [BitVec.xor_assoc, BitVec.xor_comm y, ← BitVec.xor_assoc]
  unfold feedBit
  rw [BitVec.msb_xor, BitVec.shiftLeft_xor_distrib]
  -- the polynomial is added where the two bits differ
  cases c.msb <;> cases d.msb <;> cases a <;> cases b <;>
    simp [hright, htwice, ← BitVec.xor_assoc]

/-- Feeding is linear. -/
theorem feed_xor : ∀ (c d : BitVec w) {as bs : List Bool}, as.length = bs.length →
    feed poly (c ^^^ d) (List.zipWith xor as bs) = feed poly c as ^^^ feed poly d bs
  | _, _, [], [], _ => rfl
  | c, d, a :: as, b :: bs, h => by
    have ih := feed_xor (feedBit poly c a) (feedBit poly d b) (Nat.succ.inj h)
    rw [← feedBit_xor] at ih
    exact ih

/-- A register that is fed its own top bits moves up. -/
theorem feed_topBits (n : ℕ) (c : BitVec w) : feed poly c (topBits n c) = c <<< n := by
  induction n generalizing c with
  | zero => simp [topBits, feed]
  | succ n ih =>
    have hbit : feedBit poly c c.msb = c <<< 1 := if_pos rfl
    have hstep : feed poly c (topBits (n + 1) c) = feed poly (feedBit poly c c.msb)
      (topBits n (c <<< 1)) := rfl
    rw [hstep, hbit, ih, Nat.add_comm, BitVec.shiftLeft_add]

/-- **Several bits at a time**: what they and the top bits of the register come to is read
from a table of the remainders of a register at zero. -/
theorem feed_table (c : BitVec w) (bs : List Bool) :
    feed poly c bs = (c <<< bs.length) ^^^
      feed poly 0#w (List.zipWith xor (topBits bs.length c) bs) := by
  have hback : ∀ {as bs : List Bool}, as.length = bs.length →
      List.zipWith xor as (List.zipWith xor as bs) = bs := by
    intro as bs h
    induction as generalizing bs with
    | nil => exact (List.length_eq_zero_iff.mp h.symm).symm
    | cons a as ih =>
      cases bs with
      | nil => cases h
      | cons b bs =>
        rw [List.zipWith_cons_cons, List.zipWith_cons_cons, ih (Nat.succ.inj h)]
        simp
  have hlen : (topBits bs.length c).length = bs.length := length_topBits _ _
  calc feed poly c bs
      = feed poly (c ^^^ 0#w) (List.zipWith xor (topBits bs.length c)
          (List.zipWith xor (topBits bs.length c) bs)) := by
        rw [hback hlen, BitVec.xor_zero]
    _ = feed poly c (topBits bs.length c) ^^^
          feed poly 0#w (List.zipWith xor (topBits bs.length c) bs) :=
        feed_xor poly c 0#w (by simp)
    _ = _ := by rw [feed_topBits]

end Crc
