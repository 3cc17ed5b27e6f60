import Mathlib.Data.List.Infix
import Mathlib.Tactic.Ring

/-! # Byte texts: literals, searching, decimal numerals

Texts are lists of bytes. `ascii` writes a literal; `find` is the index of the first occurrence of a
needle; `decimal` prints a natural number and `value` reads a run of digits back. -/

namespace OpenDisplay.Lib.Text

/-- A property of the bytes of a text is decided along the text, not for all bytes there are. -/
instance (priority := high) decidableForallBytes (p : UInt8 → Prop) [DecidablePred p]
    (text : List UInt8) : Decidable (∀ b ∈ text, p b) :=
  List.decidableBAll p text

/-- The bytes of an ASCII literal. -/
def ascii (s : String) : List UInt8 := s.toList.map fun c => UInt8.ofNat c.toNat

/-! ### Searching -/

section find

variable {α : Type*} [DecidableEq α]

/-- The index of the first occurrence of `needle`. -/
def find (needle : List α) : List α → Option ℕ
  | [] => if needle = [] then some 0 else none
  | x :: l => if needle.isPrefixOf (x :: l) then some 0 else (find needle l).map (· + 1)

/-- The index of the first occurrence of `needle` at or behind the index `pos`. -/
def findFrom (needle l : List α) (pos : ℕ) : Option ℕ := (find needle (l.drop pos)).map (· + pos)

theorem find_of_prefix {needle l : List α} (h : needle <+: l) : find needle l = some 0 := by
  cases l with
  | nil => rw [find, if_pos (List.prefix_nil.mp h)]
  | cons x l => rw [find, if_pos (List.isPrefixOf_iff_prefix.mpr h)]

theorem find_append_of_forall_ne {y : α} (n : List α) :
    ∀ (pre l : List α), (∀ x ∈ pre, x ≠ y) →
      find (y :: n) (pre ++ l) = (find (y :: n) l).map (· + pre.length)
  | [], l, _ => by simp
  | x :: pre, l, h => by
    have hx : ¬ (y :: n).isPrefixOf (x :: (pre ++ l)) = true := by
      rw [List.isPrefixOf_iff_prefix, List.cons_prefix_cons]
      exact fun hc => h x (by simp) hc.1.symm
    have ih := find_append_of_forall_ne n pre l (fun z hz => h z (by simp [hz]))
    rw [List.cons_append, find, if_neg hx, ih, Option.map_map]
    rfl

/-- What follows the first occurrence of `needle`. -/
def behind (needle l : List α) : Option (List α) :=
  (find needle l).map fun i => l.drop (i + needle.length)

theorem behind_front {needle l : List α} (h : needle <+: l) :
    behind needle l = some (l.drop needle.length) := by
  simp [behind, find_of_prefix h]

theorem behind_append_of_forall_ne {y : α} {n u l : List α} (h : ∀ x ∈ u, x ≠ y) :
    behind (y :: n) (u ++ l) = behind (y :: n) l := by
  unfold behind
  rw [find_append_of_forall_ne n u l h, Option.map_map]
  congr 1
  funext i
  rw [Function.comp_apply, Nat.add_right_comm, Nat.add_comm _ u.length, ← List.drop_drop,
    List.drop_left]

theorem behind_cons_of_ne {x y : α} {n l : List α} (h : x ≠ y) :
    behind (y :: n) (x :: l) = behind (y :: n) l :=
  behind_append_of_forall_ne (u := [x]) (by simpa using h)

theorem behind_cons_skip {needle l : List α} {x : α} (h : ¬needle <+: x :: l) :
    behind needle (x :: l) = behind needle l := by
  have hx : ¬needle.isPrefixOf (x :: l) = true := by rwa [List.isPrefixOf_iff_prefix]
  unfold behind
  rw [find, if_neg hx, Option.map_map]
  congr 1
  funext i
  rw [Function.comp_apply, Nat.add_right_comm, List.drop_succ_cons]

theorem behind_eq_none_of_forall_ne {y : α} {n l : List α} (h : ∀ x ∈ l, x ≠ y) :
    behind (y :: n) l = none := by
  have hl := behind_append_of_forall_ne (n := n) (l := []) h
  rw [List.append_nil] at hl
  rw [hl]
  rfl

theorem drop_findFrom (needle l : List α) (pos : ℕ) :
    (findFrom needle l pos).map (fun i => l.drop (i + needle.length)) =
      behind needle (l.drop pos) := by
  unfold findFrom behind
  rw [Option.map_map]
  congr 1
  funext i
  rw [Function.comp_apply, List.drop_drop]
  congr 1
  omega

end find

/-! ### Runs -/

section runs

variable {α : Type*} {p : α → Bool} {x : List α}

theorem drop_length_takeWhile (p : α → Bool) (l : List α) :
    l.drop (l.takeWhile p).length = l.dropWhile p := by
  have h := congrArg (List.drop (l.takeWhile p).length)
    (List.takeWhile_append_dropWhile (p := p) (l := l))
  rw [List.drop_left] at h
  exact h.symm

theorem takeWhile_append_of_head (s : List α) (h : ∀ b ∈ x.head?, p b = false) :
    (s ++ x).takeWhile p = s.takeWhile p := by
  have hx : x.takeWhile p = [] := by
    cases x with
    | nil => rfl
    | cons b l => simp [h b rfl]
  rw [List.takeWhile_append, hx]
  split
  · next hlen => rw [List.append_nil, (List.takeWhile_prefix _).eq_of_length hlen]
  · rfl

theorem dropWhile_append_of_head (s : List α) (h : ∀ b ∈ x.head?, p b = false) :
    (s ++ x).dropWhile p = s.dropWhile p ++ x := by
  have hx : x.dropWhile p = x := by
    cases x with
    | nil => rfl
    | cons b l => simp [h b rfl]
  rw [List.dropWhile_append]
  split
  · next hnil => rw [hx, List.isEmpty_iff.1 hnil, List.nil_append]
  · rfl

end runs

/-! ### Decimal numerals -/

/-- The digit character of `d < 10`. -/
def digit (d : ℕ) : UInt8 := UInt8.ofNat (48 + d)

/-- A digit character. -/
def IsDigit (b : UInt8) : Prop := 48 ≤ b.toNat ∧ b.toNat ≤ 57

instance (b : UInt8) : Decidable (IsDigit b) := by unfold IsDigit; infer_instance

/-- The decimal numeral of `n`. -/
def decimal (n : ℕ) : List UInt8 :=
  if n < 10 then [digit n] else decimal (n / 10) ++ [digit (n % 10)]

/-- The decimal numeral of an integer. -/
def decimalInt (x : ℤ) : List UInt8 := if x < 0 then 45 :: decimal x.natAbs else decimal x.natAbs

/-- The value of a run of digits. -/
def value (ds : List UInt8) : ℕ := ds.foldl (fun acc b => acc * 10 + (b.toNat - 48)) 0

theorem toNat_digit {d : ℕ} (h : d < 10) : (digit d).toNat = 48 + d := by
  unfold digit
  rw [UInt8.toNat_ofNat']
  omega

theorem isDigit_digit {d : ℕ} (h : d < 10) : IsDigit (digit d) := by
  unfold IsDigit
  rw [toNat_digit h]
  omega

theorem decimal_ne_nil (n : ℕ) : decimal n ≠ [] := by
  unfold decimal
  split_ifs
  · exact List.cons_ne_nil _ _
  · exact fun h => List.cons_ne_nil _ _ (List.append_eq_nil_iff.mp h).2

theorem isDigit_of_mem_decimal (n : ℕ) : ∀ b ∈ decimal n, IsDigit b := by
  fun_induction decimal n with
  | case1 n h => exact fun b hb => by rw [List.mem_singleton.mp hb]; exact isDigit_digit h
  | case2 n h ih =>
    intro b hb
    rcases List.mem_append.mp hb with hb | hb
    · exact ih b hb
    · rw [List.mem_singleton.mp hb]
      exact isDigit_digit (Nat.mod_lt n (by omega))

/-- **Reading a numeral back.** -/
theorem value_decimal (n : ℕ) : value (decimal n) = n := by
  fun_induction decimal n with
  | case1 n h => simp [value, toNat_digit h]
  | case2 n h ih =>
    unfold value at ih ⊢
    rw [List.foldl_append, ih, List.foldl_cons, List.foldl_nil,
      toNat_digit (Nat.mod_lt n (by omega))]
    omega

theorem length_decimal_le : ∀ {k n : ℕ}, n < 10 ^ (k + 1) → (decimal n).length ≤ k + 1
  | 0, n, h => by
    rw [decimal, if_pos (by simpa using h)]
    rfl
  | k + 1, n, h => by
    rw [decimal]
    split
    · simp
    · have ih := length_decimal_le (k := k) (n := n / 10) (by
        rw [Nat.pow_succ] at h
        omega)
      rw [List.length_append, List.length_singleton]
      omega

theorem length_decimalInt_le (v : Int32) : (decimalInt v.toInt).length ≤ 11 := by
  have hlo := v.le_toInt
  have hhi := v.toInt_lt
  have hlen : (decimal v.toInt.natAbs).length ≤ 10 := length_decimal_le (k := 9) (by omega)
  unfold decimalInt
  split
  · rw [List.length_cons]
    omega
  · omega

end OpenDisplay.Lib.Text
