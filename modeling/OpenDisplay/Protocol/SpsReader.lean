import OpenDisplay.Lib.Bits
import OpenDisplay.Protocol.Sps

/-! # What the bit reader reads

`Reads m bs a` says that the read `m` takes the bits `bs` and returns `a`, wherever they stand and
whatever follows them. The reads of the parser compose by `Reads.bind`, so each has one lemma. -/

namespace OpenDisplay.Protocol.SpsReader

open OpenDisplay.Lib.Bits OpenDisplay.Protocol.Sps OpenDisplay.Protocol.Sps.BitReader

variable {α β : Type}

/-- **The read `m` takes the bits `bs` and returns `a`.** -/
def Reads (m : Read α) (bs : List Bool) (a : α) : Prop :=
  ∀ (data : List UInt8) (pos : ℕ) (rest : List Bool), (ofBytes data).drop pos = bs ++ rest →
    m.run ⟨data, pos⟩ = some (a, ⟨data, pos + bs.length⟩)

theorem Reads.pure (a : α) : Reads (Pure.pure a : Read α) [] a := by
  intro data pos rest _
  rfl

theorem Reads.bind {m : Read α} {f : α → Read β} {bs bs' : List Bool} {a : α} {b : β}
    (hm : Reads m bs a) (hf : Reads (f a) bs' b) : Reads (m >>= f) (bs ++ bs') b := by
  intro data pos rest h
  rw [List.append_assoc] at h
  have hrest : (ofBytes data).drop (pos + bs.length) = bs' ++ rest := by
    rw [← List.drop_drop, h, List.drop_left]
  have h1 := hm data pos (bs' ++ rest) h
  have h2 := hf data (pos + bs.length) rest hrest
  rw [StateT.run_bind, h1]
  rw [List.length_append, ← Nat.add_assoc]
  exact h2

theorem Reads.seq {m : Read α} {n : Read β} {bs bs' : List Bool} {a : α} {b : β}
    (hm : Reads m bs a) (hn : Reads n bs' b) : Reads (m >>= fun _ => n) (bs ++ bs') b :=
  hm.bind hn

theorem Reads.bind_seq {γ : Type} {m : Read α} {f : α → Read β} {n : Read γ}
    {bs bs' : List Bool} {b : β} {c : γ} (hm : Reads (m >>= f) bs b) (hn : Reads n bs' c) :
    Reads (m >>= fun a => f a >>= fun _ => n) (bs ++ bs') c := by
  rw [← bind_assoc]
  exact hm.seq hn

theorem Reads.bind_pure {m : Read α} {bs : List Bool} {a : α} (hm : Reads m bs a) (f : α → β) :
    Reads (m >>= fun x => Pure.pure (f x)) bs (f a) := by
  have h := hm.bind (f := fun x => Pure.pure (f x)) (Reads.pure (f a))
  rwa [List.append_nil] at h

/-! ### Integers that fit -/

theorem int32_of_range {x : ℤ} (h : -2147483648 ≤ x) (h' : x < 2147483648) : int32 x = x := by
  unfold int32
  rw [Int.bmod_def]
  omega

/-! ### The reads of the reader -/

theorem reads_bit (b : Bool) : Reads bit [b] (b.toNat : ℤ) := by
  intro data pos rest h
  have hbit : (ofBytes data)[pos]? = some b := by
    have := congrArg List.head? h
    rwa [List.head?_drop] at this
  rw [getElem?_ofBytes] at hbit
  obtain ⟨byte, hbyte, htest⟩ := Option.map_eq_some_iff.1 hbit
  have hvalue : (byte.toNat >>> (7 - pos % 8)) % 2 = b.toNat := by
    rw [← htest, Nat.toNat_testBit, Nat.shiftRight_eq_div_pow]
  rw [run_bit]
  dsimp only
  rw [hbyte, Option.map_some, hvalue]
  rfl

/-- Shifting bits in keeps to the integers that fit. -/
theorem reads_bits : ∀ (bs : List Bool) (v : ℕ), shiftIn v bs < 2147483648 →
    Reads (bits bs.length v) bs (shiftIn v bs : ℤ)
  | [], v, _ => Reads.pure _
  | b :: bs, v, h => by
    rw [shiftIn] at h ⊢
    have hle : 2 * v + b.toNat ≤ shiftIn (2 * v + b.toNat) bs := le_shiftIn _ bs
    have hfit : int32 (2 * (v : ℤ) + (b.toNat : ℤ)) = ((2 * v + b.toNat : ℕ) : ℤ) := by
      rw [int32_of_range (by omega) (by omega)]
      push_cast
      rfl
    have ih := reads_bits bs (2 * v + b.toNat) h
    rw [← hfit] at ih
    exact (reads_bit b).bind ih

theorem reads_u {n v : ℕ} (hv : v < 2 ^ n) (hn : n < 32) : Reads (u n) (ofNat n v) (v : ℤ) := by
  have hpow : 2 ^ n ≤ 2 ^ 31 := Nat.pow_le_pow_right (by decide) (by omega)
  have hvalue : shiftIn 0 (ofNat n v) = v := by
    rw [shiftIn_ofNat, Nat.mod_eq_of_lt hv]
    omega
  have h := reads_bits (ofNat n v) 0 (by omega)
  rw [hvalue, length_ofNat] at h
  exact h

theorem reads_flag (b : Bool) : Reads (u 1) [b] (b.toNat : ℤ) := by
  have h := reads_bits [b] 0 (by cases b <;> decide)
  have hvalue : shiftIn 0 [b] = b.toNat := by cases b <;> rfl
  rw [hvalue] at h
  exact h

theorem reads_leadingZeros : ∀ (zeros limit : ℕ), zeros < limit →
    Reads (leadingZeros limit) (List.replicate zeros false ++ [true]) zeros
  | _, 0, h => absurd h (Nat.not_lt_zero _)
  | 0, limit + 1, _ => (reads_bit true).bind (Reads.pure 0)
  | zeros + 1, limit + 1, h => by
    have ih := reads_leadingZeros zeros limit (Nat.lt_of_succ_lt_succ h)
    exact (reads_bit false).bind (ih.bind_pure fun n => n + 1)

/-- The zeros of a code that fits are fewer than `ue()` admits. -/
theorem log2_lt_limit {v : ℕ} (h : v < 2147483647) : Nat.log2 (v + 1) < 33 := by
  have hlog : Nat.log2 (v + 1) < 31 := (Nat.log2_lt (Nat.succ_ne_zero v)).2 (by omega)
  omega

/-- **An Exp-Golomb code is read as its number.** -/
theorem reads_ue {v : ℕ} (h : v < 2147483647) : Reads ue (ueCode v) (v : ℤ) := by
  have hzeros := reads_leadingZeros (Nat.log2 (v + 1)) 33 (log2_lt_limit h)
  have hbits := reads_bits (ofNat (Nat.log2 (v + 1)) (v + 1)) 1 (by rw [shiftIn_ueCode]; omega)
  rw [shiftIn_ueCode, length_ofNat] at hbits
  have hvalue : int32 (((v + 1 : ℕ) : ℤ) - 1) = v := by
    rw [int32_of_range (by omega) (by omega)]
    omega
  have hread := hzeros.bind (f := fun zeros => bits zeros 1 >>= fun value =>
    Pure.pure (int32 (value - 1))) (hbits.bind_pure fun value => int32 (value - 1))
  rw [hvalue, List.append_assoc, List.singleton_append, ← ueCode_eq] at hread
  exact hread

theorem reads_se {v : ℤ} (h : codeNum v < 2147483647) : Reads se (seCode v) v := by
  have hue := reads_ue h
  have hmod : ((codeNum v : ℕ) : ℤ).tmod 2 = (codeNum v : ℤ) % 2 :=
    Int.tmod_eq_emod_of_nonneg (by omega)
  have hvalue : (if (codeNum v : ℤ).tmod 2 = 0 then
        (Pure.pure (int32 (-((codeNum v : ℤ).tdiv 2))) : Read ℤ)
      else Pure.pure ((int32 ((codeNum v : ℤ) + 1)).tdiv 2)) = Pure.pure v := by
    rcases Int.lt_or_le 0 v with hpos | hneg
    · have hc := codeNum_of_pos hpos
      rw [hmod, if_neg (by omega), int32_of_range (by omega) (by omega),
        Int.tdiv_eq_ediv_of_nonneg (by omega)]
      congr 1
      omega
    · have hc := codeNum_of_nonpos hneg
      rw [hmod, if_pos (by omega), Int.tdiv_eq_ediv_of_nonneg (by omega),
        int32_of_range (by omega) (by omega)]
      congr 1
      omega
  have hpure : Reads (if (codeNum v : ℤ).tmod 2 = 0 then
        (Pure.pure (int32 (-((codeNum v : ℤ).tdiv 2))) : Read ℤ)
      else Pure.pure ((int32 ((codeNum v : ℤ) + 1)).tdiv 2)) [] v := by
    rw [hvalue]
    exact Reads.pure v
  have hread := hue.bind (f := fun codeNum => if codeNum.tmod 2 = 0 then
    (Pure.pure (int32 (-(codeNum.tdiv 2))) : Read ℤ)
    else Pure.pure ((int32 (codeNum + 1)).tdiv 2)) hpure
  rw [List.append_nil] at hread
  exact hread

end OpenDisplay.Protocol.SpsReader
