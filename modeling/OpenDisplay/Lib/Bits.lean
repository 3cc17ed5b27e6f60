import Mathlib.Data.Nat.Notation
import Mathlib.Tactic.Common
import Mathlib.Tactic.Ring

/-! # Bit strings and Exp-Golomb codes

Bit strings are lists, the first bit first. `ofNat` writes the low bits of a number, `shiftIn` reads
bits into one, and `ofBytes` are the bits of a text.

`ueCode v` is the Exp-Golomb code of `v`: as many zeros as `v + 1` has bits behind its first one, and
`v + 1`. `seCode` maps the integers to codes, the positive ones to the odd numbers. -/

namespace OpenDisplay.Lib.Bits

/-- The `n` low bits of `v`. -/
def ofNat : ℕ → ℕ → List Bool
  | 0, _ => []
  | n + 1, v => v.testBit n :: ofNat n v

/-- `v` with the bits shifted in one by one. -/
def shiftIn (v : ℕ) : List Bool → ℕ
  | [] => v
  | b :: bs => shiftIn (2 * v + b.toNat) bs

/-- The bits of a text. -/
def ofBytes (bytes : List UInt8) : List Bool := bytes.flatMap fun b => ofNat 8 b.toNat

@[simp] theorem length_ofNat (n v : ℕ) : (ofNat n v).length = n := by
  induction n with
  | zero => rfl
  | succ n ih => rw [ofNat, List.length_cons, ih]

theorem mod_two_pow_succ (v n : ℕ) :
    v % 2 ^ (n + 1) = (v.testBit n).toNat * 2 ^ n + v % 2 ^ n := by
  rw [Nat.pow_succ, Nat.mod_mul, Nat.toNat_testBit]
  ring

/-- **Shifting in the low bits of a number.** -/
theorem shiftIn_ofNat (n v w : ℕ) : shiftIn w (ofNat n v) = w * 2 ^ n + v % 2 ^ n := by
  induction n generalizing w with
  | zero => simp [ofNat, shiftIn, Nat.mod_one]
  | succ n ih =>
    rw [ofNat, shiftIn, ih, mod_two_pow_succ]
    ring

theorem le_shiftIn (v : ℕ) (bs : List Bool) : v ≤ shiftIn v bs := by
  induction bs generalizing v with
  | nil => exact Nat.le_refl v
  | cons b bs ih =>
    rw [shiftIn]
    have := ih (2 * v + b.toNat)
    omega

theorem getElem?_ofNat {n i : ℕ} (v : ℕ) (h : i < n) :
    (ofNat n v)[i]? = some (v.testBit (n - 1 - i)) := by
  induction n generalizing i with
  | zero => omega
  | succ n ih =>
    rw [ofNat]
    cases i with
    | zero => rfl
    | succ i =>
      rw [List.getElem?_cons_succ, ih (by omega)]
      congr 2
      omega

theorem getElem?_ofBytes (bytes : List UInt8) (pos : ℕ) :
    (ofBytes bytes)[pos]? = (bytes[pos / 8]?).map fun b => b.toNat.testBit (7 - pos % 8) := by
  induction bytes generalizing pos with
  | nil => simp [ofBytes]
  | cons b bytes ih =>
    unfold ofBytes at ih ⊢
    rw [List.flatMap_cons]
    rcases Nat.lt_or_ge pos 8 with hlt | hge
    · have hpos : pos / 8 = 0 := by omega
      have hmod : pos % 8 = pos := by omega
      rw [List.getElem?_append_left (by simpa using hlt), getElem?_ofNat _ hlt, hpos, hmod]
      rfl
    · have hpos : pos / 8 = (pos - 8) / 8 + 1 := by omega
      have hmod : pos % 8 = (pos - 8) % 8 := by omega
      rw [List.getElem?_append_right (by simpa using hge), length_ofNat, ih, hpos, hmod,
        List.getElem?_cons_succ]

/-! ### Exp-Golomb codes -/

/-- The code of `v`. -/
def ueCode (v : ℕ) : List Bool :=
  List.replicate (Nat.log2 (v + 1)) false ++ ofNat (Nat.log2 (v + 1) + 1) (v + 1)

/-- The number whose code stands for the integer `v`. -/
def codeNum (v : ℤ) : ℕ := if 0 < v then (2 * v - 1).toNat else (-2 * v).toNat

def seCode (v : ℤ) : List Bool := ueCode (codeNum v)

/-- The code ends its zeros with a one, and goes on with the other bits of `v + 1`. -/
theorem ueCode_eq (v : ℕ) :
    ueCode v = List.replicate (Nat.log2 (v + 1)) false ++
      true :: ofNat (Nat.log2 (v + 1)) (v + 1) := by
  rw [ueCode, ofNat, Nat.testBit_log2 (Nat.succ_ne_zero v)]

/-- The bits behind that one make `v + 1` of 1. -/
theorem shiftIn_ueCode (v : ℕ) : shiftIn 1 (ofNat (Nat.log2 (v + 1)) (v + 1)) = v + 1 := by
  have hle : 2 ^ Nat.log2 (v + 1) ≤ v + 1 := Nat.log2_self_le (Nat.succ_ne_zero v)
  have hlt : v + 1 < 2 ^ (Nat.log2 (v + 1) + 1) := Nat.lt_log2_self
  rw [Nat.pow_succ] at hlt
  have hmod : (v + 1) % 2 ^ Nat.log2 (v + 1) = v + 1 - 2 ^ Nat.log2 (v + 1) := by
    rw [Nat.mod_eq_sub_mod hle, Nat.mod_eq_of_lt (by omega)]
  rw [shiftIn_ofNat, hmod]
  omega

theorem shiftIn_eq (v : ℕ) (bs : List Bool) :
    shiftIn v bs = v * 2 ^ bs.length + shiftIn 0 bs := by
  induction bs generalizing v with
  | nil => simp [shiftIn]
  | cons b bs ih =>
    rw [shiftIn, shiftIn, ih, ih (2 * 0 + b.toNat), List.length_cons, Nat.pow_succ]
    ring

theorem shiftIn_lt (v : ℕ) (bs : List Bool) : shiftIn v bs < (v + 1) * 2 ^ bs.length := by
  induction bs generalizing v with
  | nil => simp [shiftIn]
  | cons b bs ih =>
    have h := ih (2 * v + b.toNat)
    have hle : (2 * v + b.toNat + 1) * 2 ^ bs.length ≤ (2 * v + 2) * 2 ^ bs.length :=
      Nat.mul_le_mul_right _ (by have := b.toNat_le; omega)
    rw [shiftIn, List.length_cons, Nat.pow_succ]
    calc shiftIn (2 * v + b.toNat) bs < (2 * v + 2) * 2 ^ bs.length := lt_of_lt_of_le h hle
      _ = (v + 1) * (2 ^ bs.length * 2) := by ring

/-- The bits that were shifted in. -/
theorem ofNat_shiftIn (v : ℕ) (bs : List Bool) : ofNat bs.length (shiftIn v bs) = bs := by
  induction bs generalizing v with
  | nil => rfl
  | cons b bs ih =>
    have hrest : shiftIn 0 bs < 2 ^ bs.length := by simpa using shiftIn_lt 0 bs
    have hbit : (shiftIn (2 * v + b.toNat) bs).testBit bs.length = b := by
      rw [shiftIn_eq, Nat.testBit_eq_decide_div_mod_eq, Nat.mul_comm, Nat.mul_add_div (Nat.two_pow_pos _),
        Nat.div_eq_of_lt hrest]
      cases b <;> simp
    rw [List.length_cons, ofNat, shiftIn, hbit, ih]

/-- **Zeros, a one and as many bits are the code of a number.** -/
theorem ueCode_shiftIn (bs : List Bool) :
    ueCode (shiftIn 1 bs - 1) = List.replicate bs.length false ++ true :: bs := by
  have hlo : 2 ^ bs.length ≤ shiftIn 1 bs := by
    rw [shiftIn_eq, Nat.one_mul]
    exact Nat.le_add_right _ _
  have hhi : shiftIn 1 bs < 2 ^ (bs.length + 1) := by
    have h := shiftIn_lt 1 bs
    rw [Nat.pow_succ]
    omega
  have hpos := Nat.two_pow_pos bs.length
  have hsucc : shiftIn 1 bs - 1 + 1 = shiftIn 1 bs := Nat.sub_add_cancel (by omega)
  have hlog : Nat.log2 (shiftIn 1 bs) = bs.length :=
    (Nat.log2_eq_iff (by omega)).2 ⟨hlo, hhi⟩
  rw [ueCode_eq, hsucc, hlog, ofNat_shiftIn]

theorem codeNum_of_pos {v : ℤ} (h : 0 < v) : (codeNum v : ℤ) = 2 * v - 1 := by
  rw [codeNum, if_pos h]
  omega

theorem codeNum_of_nonpos {v : ℤ} (h : v ≤ 0) : (codeNum v : ℤ) = -2 * v := by
  rw [codeNum, if_neg (by omega)]
  omega

end OpenDisplay.Lib.Bits
