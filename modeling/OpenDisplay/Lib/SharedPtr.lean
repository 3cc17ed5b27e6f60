import OpenDisplay.Lib.Census

/-!
# Shared pointers

Finitely many variables hold pointers into a heap of counted cells.  A copy of a pointer adds an owner,
and a variable that is overwritten gives one up; the last owner frees the cell, and its address may be
used again for another value.

`Sound` says that the counts are right.  Under it a variable reads as if it held the value itself
(`get_assign`, `get_take`, `get_make`, `get_reset`), and two variables hold one pointer exactly if they
hold one value, as long as no value is made twice (`vars_eq_iff`): an address that is used again never
equals a pointer that is still held.
-/

namespace OpenDisplay.Lib.SharedPtr

open OpenDisplay.Lib.Census

variable {κ α : Type*}

/-- A value with the number of its owners. -/
structure Cell (α : Type*) where
  count : ℕ
  value : α

/-- The variables, and the heap behind them. -/
structure Pool (κ α : Type*) where
  heap : ℕ → Option (Cell α)
  vars : κ → Option ℕ

/-- One owner more. -/
def retain (p : Option ℕ) (heap : ℕ → Option (Cell α)) : ℕ → Option (Cell α) :=
  match p with
  | none => heap
  | some a => Function.update heap a ((heap a).map fun c => { c with count := c.count + 1 })

/-- One owner less; the last one frees the cell. -/
def release (p : Option ℕ) (heap : ℕ → Option (Cell α)) : ℕ → Option (Cell α) :=
  match p with
  | none => heap
  | some a =>
    Function.update heap a
      ((heap a).bind fun c => if c.count ≤ 1 then none else some { c with count := c.count - 1 })

theorem retain_some (a : ℕ) (heap : ℕ → Option (Cell α)) :
    retain (some a) heap =
      Function.update heap a ((heap a).map fun c => { c with count := c.count + 1 }) := rfl

theorem release_some (a : ℕ) (heap : ℕ → Option (Cell α)) :
    release (some a) heap =
      Function.update heap a
        ((heap a).bind fun c => if c.count ≤ 1 then none else some { c with count := c.count - 1 }) := rfl

namespace Pool

/-- No variable holds anything. -/
def empty : Pool κ α := ⟨fun _ => none, fun _ => none⟩

/-- What the variable points to. -/
def get (P : Pool κ α) (k : κ) : Option α := (P.vars k).bind fun a => (P.heap a).map Cell.value

variable [DecidableEq κ]

/-- `k = j`. -/
def assign (P : Pool κ α) (k j : κ) : Pool κ α :=
  ⟨release (P.vars k) (retain (P.vars j) P.heap), Function.update P.vars k (P.vars j)⟩

/-- `k = std::move(j)`. -/
def take (P : Pool κ α) (k j : κ) : Pool κ α :=
  ⟨release (P.vars k) P.heap, Function.update (Function.update P.vars k (P.vars j)) j none⟩

/-- `k = std::make_shared(v)`, at the address `a`. -/
def make (P : Pool κ α) (k : κ) (a : ℕ) (v : α) : Pool κ α :=
  ⟨release (P.vars k) (Function.update P.heap a (some ⟨1, v⟩)), Function.update P.vars k (some a)⟩

/-- `k.reset()`, or the end of `k`. -/
def reset (P : Pool κ α) (k : κ) : Pool κ α :=
  ⟨release (P.vars k) P.heap, Function.update P.vars k none⟩

end Pool

/-! ## The counts -/

/-- The count of a cell, none if there is no cell. -/
def number (heap : ℕ → Option (Cell α)) (a : ℕ) : ℕ := (heap a).elim 0 Cell.count

/-- The number of variables that point to `a`. -/
def owners [Fintype κ] (vars : κ → Option ℕ) (a : ℕ) : ℕ := census vars (· = some a)

theorem owners_update [Fintype κ] [DecidableEq κ] (vars : κ → Option ℕ) (k : κ) (p : Option ℕ) (a : ℕ) :
    owners (Function.update vars k p) a + (if vars k = some a then 1 else 0) =
      owners vars a + if p = some a then 1 else 0 := census_update vars (· = some a) k p

variable {heap heap' : ℕ → Option (Cell α)} {p : Option ℕ} {a : ℕ}

theorem number_retain (h : ∀ b ∈ p, (heap b).isSome) :
    number (retain p heap) a = number heap a + if p = some a then 1 else 0 := by
  cases p with
  | none => rfl
  | some b =>
    obtain ⟨c, hc⟩ := Option.isSome_iff_exists.1 (h b rfl)
    rw [retain_some]
    unfold number
    by_cases hb : b = a
    · subst hb
      simp [hc]
    · rw [Function.update_of_ne (Ne.symm hb), if_neg (by simpa using hb), Nat.add_zero]

theorem number_release : number (release p heap) a = number heap a - if p = some a then 1 else 0 := by
  cases p with
  | none => rfl
  | some b =>
    rw [release_some]
    unfold number
    by_cases hb : b = a
    · subst hb
      rw [Function.update_self, if_pos rfl]
      cases heap b with
      | none => rfl
      | some c =>
        simp only [Option.bind_some]
        split
        · simp only [Option.elim_none, Option.elim_some]
          omega
        · rfl
    · rw [Function.update_of_ne (Ne.symm hb), if_neg (by simpa using hb), Nat.sub_zero]

/-- Each cell of `heap'` is in `heap` with the same value. -/
def Keeps (heap heap' : ℕ → Option (Cell α)) : Prop :=
  ∀ a c', heap' a = some c' → ∃ c, heap a = some c ∧ c.value = c'.value

theorem Keeps.trans {heap'' : ℕ → Option (Cell α)} (h : Keeps heap heap') (h' : Keeps heap' heap'') :
    Keeps heap heap'' := by
  intro a c'' hc''
  obtain ⟨c', hc', hv'⟩ := h' a c'' hc''
  obtain ⟨c, hc, hv⟩ := h a c' hc'
  exact ⟨c, hc, hv.trans hv'⟩

theorem keeps_retain : Keeps heap (retain p heap) := by
  intro a c' hc'
  cases p with
  | none => exact ⟨c', hc', rfl⟩
  | some b =>
    rw [retain_some] at hc'
    by_cases hb : a = b
    · subst hb
      rw [Function.update_self, Option.map_eq_some_iff] at hc'
      obtain ⟨c, hc, rfl⟩ := hc'
      exact ⟨c, hc, rfl⟩
    · rw [Function.update_of_ne hb] at hc'
      exact ⟨c', hc', rfl⟩

theorem keeps_release : Keeps heap (release p heap) := by
  intro a c' hc'
  cases p with
  | none => exact ⟨c', hc', rfl⟩
  | some b =>
    rw [release_some] at hc'
    by_cases hb : a = b
    · subst hb
      rw [Function.update_self, Option.bind_eq_some_iff] at hc'
      obtain ⟨c, hc, hc'⟩ := hc'
      split at hc'
      · cases hc'
      · obtain rfl := Option.some.inj hc'
        exact ⟨c, hc, rfl⟩
    · rw [Function.update_of_ne hb] at hc'
      exact ⟨c', hc', rfl⟩

theorem pos_release (h : ∀ a, ∀ c ∈ heap a, 0 < c.count) : ∀ a, ∀ c ∈ release p heap a, 0 < c.count := by
  intro a c' hc'
  cases p with
  | none => exact h a c' hc'
  | some b =>
    rw [release_some] at hc'
    by_cases hb : a = b
    · subst hb
      rw [Function.update_self, Option.mem_def, Option.bind_eq_some_iff] at hc'
      obtain ⟨c, hc, hc'⟩ := hc'
      split at hc'
      · cases hc'
      · obtain rfl := Option.some.inj hc'
        dsimp only
        omega
    · rw [Function.update_of_ne hb] at hc'
      exact h a c' hc'

theorem pos_retain (h : ∀ a, ∀ c ∈ heap a, 0 < c.count) : ∀ a, ∀ c ∈ retain p heap a, 0 < c.count := by
  intro a c' hc'
  cases p with
  | none => exact h a c' hc'
  | some b =>
    rw [retain_some] at hc'
    by_cases hb : a = b
    · subst hb
      rw [Function.update_self, Option.mem_def, Option.map_eq_some_iff] at hc'
      obtain ⟨c, hc, rfl⟩ := hc'
      exact Nat.succ_pos _
    · rw [Function.update_of_ne hb] at hc'
      exact h a c' hc'

/-! ## Sound pools -/

variable [Fintype κ] [DecidableEq κ]

/-- Each cell counts its owners, and has one. -/
structure Sound (P : Pool κ α) : Prop where
  count : ∀ a, number P.heap a = owners P.vars a
  pos : ∀ a, ∀ c ∈ P.heap a, 0 < c.count

variable {P : Pool κ α} {j k : κ} {v : α}

omit [DecidableEq κ] in
/-- **No dangling pointer.** -/
theorem Sound.alive (h : Sound P) (hk : P.vars k = some a) : (P.heap a).isSome := by
  have hpos : 0 < owners P.vars a := census_pos hk
  rw [← h.count a] at hpos
  unfold number at hpos
  cases hcell : P.heap a with
  | none =>
    rw [hcell] at hpos
    cases hpos
  | some c => rfl

omit [DecidableEq κ] in
/-- **No leak.** -/
theorem Sound.owned (h : Sound P) (ha : (P.heap a).isSome) : ∃ k, P.vars k = some a := by
  obtain ⟨c, hc⟩ := Option.isSome_iff_exists.1 ha
  by_contra hnone
  have hzero : owners P.vars a = 0 := census_eq_zero fun k hk => hnone ⟨k, hk⟩
  have hcount := h.count a
  rw [hzero, number, hc, Option.elim_some] at hcount
  exact absurd hcount (Nat.ne_of_gt (h.pos a c hc))

omit [DecidableEq κ] in
theorem sound_empty : Sound (Pool.empty : Pool κ α) where
  count a := (census_eq_zero fun _ => Option.some_ne_none a |>.symm).symm
  pos a c hc := by cases hc

theorem Sound.assign (h : Sound P) (k j : κ) : Sound (P.assign k j) where
  count a := by
    have hretain : number (retain (P.vars j) P.heap) a = number P.heap a + if P.vars j = some a then 1 else 0 :=
      number_retain fun b hb => h.alive hb
    have howners := owners_update P.vars k (P.vars j) a
    change number (release (P.vars k) (retain (P.vars j) P.heap)) a = _
    rw [number_release, hretain, h.count a]
    change _ = owners (Function.update P.vars k (P.vars j)) a
    omega
  pos := pos_release (pos_retain h.pos)

theorem Sound.reset (h : Sound P) (k : κ) : Sound (P.reset k) where
  count a := by
    have howners := owners_update P.vars k none a
    rw [if_neg (by simp : ¬(none : Option ℕ) = some a)] at howners
    change number (release (P.vars k) P.heap) a = owners (Function.update P.vars k none) a
    rw [number_release, h.count a]
    omega
  pos := pos_release h.pos

theorem Sound.take (h : Sound P) (hne : j ≠ k) : Sound (P.take k j) where
  count a := by
    have howners := owners_update P.vars k (P.vars j) a
    have howners' := owners_update (Function.update P.vars k (P.vars j)) j none a
    rw [Function.update_of_ne hne, if_neg (by simp : ¬(none : Option ℕ) = some a)] at howners'
    change number (release (P.vars k) P.heap) a =
      owners (Function.update (Function.update P.vars k (P.vars j)) j none) a
    rw [number_release, h.count a]
    omega
  pos := pos_release h.pos

theorem Sound.make (h : Sound P) (hfree : P.heap a = none) (k : κ) (v : α) : Sound (P.make k a v) where
  count b := by
    have howners := owners_update P.vars k (some a) b
    have hnew : number (Function.update P.heap a (some ⟨1, v⟩)) b =
        number P.heap b + if some a = some b then 1 else 0 := by
      unfold number
      by_cases hb : a = b
      · subst hb
        simp [hfree]
      · rw [Function.update_of_ne (Ne.symm hb), if_neg (by simpa using hb), Nat.add_zero]
    change number (release (P.vars k) (Function.update P.heap a (some ⟨1, v⟩))) b =
      owners (Function.update P.vars k (some a)) b
    rw [number_release, hnew, h.count b]
    omega
  pos := by
    refine pos_release fun b c hc => ?_
    by_cases hb : b = a
    · subst hb
      rw [Function.update_self] at hc
      obtain rfl := Option.some.inj hc
      exact Nat.one_pos
    · rw [Function.update_of_ne hb] at hc
      exact h.pos b c hc

/-! ## Variables read as values -/

omit [Fintype κ] [DecidableEq κ] in
theorem get_eq_none (h : P.vars k = none) : P.get k = none := by
  unfold Pool.get
  rw [h, Option.bind_none]

omit [DecidableEq κ] in
theorem get_eq_of_keeps {P' : Pool κ α} (h' : Sound P') (hkeeps : Keeps P.heap P'.heap)
    (hvars : P'.vars k = P.vars j) : P'.get k = P.get j := by
  unfold Pool.get
  rw [← hvars]
  cases hk : P'.vars k with
  | none => rfl
  | some a =>
    obtain ⟨c', hc'⟩ := Option.isSome_iff_exists.1 (h'.alive hk)
    obtain ⟨c, hc, hv⟩ := hkeeps a c' hc'
    simp [hc, hc', hv]

theorem get_assign (h : Sound P) (k j i : κ) :
    (P.assign k j).get i = if i = k then P.get j else P.get i := by
  have hkeeps : Keeps P.heap (P.assign k j).heap := keeps_retain.trans keeps_release
  split
  case isTrue hi =>
    subst hi
    exact get_eq_of_keeps (h.assign i j) hkeeps (Function.update_self ..)
  case isFalse hi => exact get_eq_of_keeps (h.assign k j) hkeeps (Function.update_of_ne hi ..)

theorem get_reset (h : Sound P) (k i : κ) : (P.reset k).get i = if i = k then none else P.get i := by
  split
  case isTrue hi =>
    subst hi
    exact get_eq_none (Function.update_self ..)
  case isFalse hi => exact get_eq_of_keeps (h.reset k) keeps_release (Function.update_of_ne hi ..)

theorem get_take (h : Sound P) (hne : j ≠ k) (i : κ) :
    (P.take k j).get i = if i = k then P.get j else if i = j then none else P.get i := by
  have hkeeps : Keeps P.heap (P.take k j).heap := keeps_release
  split
  case isTrue hi =>
    subst hi
    refine get_eq_of_keeps (h.take hne) hkeeps ?_
    exact (Function.update_of_ne (Ne.symm hne) ..).trans (Function.update_self ..)
  split
  case isTrue hi =>
    subst hi
    exact get_eq_none (Function.update_self ..)
  case isFalse hik hij =>
    refine get_eq_of_keeps (h.take hne) hkeeps ?_
    exact (Function.update_of_ne hij ..).trans (Function.update_of_ne hik ..)

omit [Fintype κ] in
theorem heap_make (P : Pool κ α) (k : κ) (b : ℕ) {c : Cell α} (hc : (P.make k a v).heap b = some c) :
    (b = a ∧ c.value = v) ∨ ∃ c', P.heap b = some c' ∧ c'.value = c.value := by
  obtain ⟨c', hc', hv⟩ := keeps_release b c hc
  by_cases hb : b = a
  · subst hb
    rw [Function.update_self] at hc'
    obtain rfl := Option.some.inj hc'
    exact .inl ⟨rfl, hv.symm⟩
  · rw [Function.update_of_ne hb] at hc'
    exact .inr ⟨c', hc', hv⟩

theorem get_make (h : Sound P) (hfree : P.heap a = none) (k i : κ) (v : α) :
    (P.make k a v).get i = if i = k then some v else P.get i := by
  have hsound := h.make hfree k v
  split
  case isTrue hi =>
    subst hi
    have hvars : (P.make i a v).vars i = some a := Function.update_self ..
    obtain ⟨c, hc⟩ := Option.isSome_iff_exists.1 (hsound.alive hvars)
    have hvalue : c.value = v := by
      rcases heap_make P i a hc with ⟨-, hv⟩ | ⟨c', hc', -⟩
      · exact hv
      · rw [hfree] at hc'
        cases hc'
    unfold Pool.get
    rw [hvars, Option.bind_some, hc, Option.map_some, hvalue]
  case isFalse hi =>
    have hvars : (P.make k a v).vars i = P.vars i := Function.update_of_ne hi ..
    unfold Pool.get
    rw [hvars]
    cases hp : P.vars i with
    | none => rfl
    | some b =>
      have hb : b ≠ a := by
        rintro rfl
        have halive := h.alive hp
        rw [hfree] at halive
        cases halive
      obtain ⟨c, hc⟩ := Option.isSome_iff_exists.1 (hsound.alive (hvars.trans hp))
      rcases heap_make P k b hc with ⟨heq, -⟩ | ⟨c', hc', hv⟩
      · exact absurd heq hb
      · simp [hc, hc', hv]

/-! ## Pointers and values -/

/-- No value is in two cells. -/
def Distinct (heap : ℕ → Option (Cell α)) : Prop :=
  ∀ a b c d, heap a = some c → heap b = some d → c.value = d.value → a = b

theorem Distinct.of_keeps (h : Distinct heap) (hkeeps : Keeps heap heap') : Distinct heap' := by
  intro a b c' d' hc' hd' heq
  obtain ⟨c, hc, hcv⟩ := hkeeps a c' hc'
  obtain ⟨d, hd, hdv⟩ := hkeeps b d' hd'
  exact h a b c d hc hd (hcv.trans (heq.trans hdv.symm))

omit [Fintype κ] in
theorem Distinct.make (h : Distinct P.heap) (hnew : ∀ b, ∀ c ∈ P.heap b, c.value ≠ v) (k : κ) :
    Distinct (P.make k a v).heap := by
  intro b b' c c' hc hc' heq
  rcases heap_make P k b hc with ⟨rfl, hv⟩ | ⟨d, hd, hv⟩
  · rcases heap_make P k b' hc' with ⟨rfl, -⟩ | ⟨d', hd', hv'⟩
    · rfl
    · exact absurd (hv'.trans (heq.symm.trans hv)) (hnew b' d' hd')
  · rcases heap_make P k b' hc' with ⟨rfl, hv'⟩ | ⟨d', hd', hv'⟩
    · exact absurd (hv.trans (heq.trans hv')) (hnew b d hd)
    · exact h b b' d d' hd hd' (hv.trans (heq.trans hv'.symm))

omit [DecidableEq κ] in
/-- **Equal pointers are equal values**: an address that is used again is not the one of a pointer that
is held. -/
theorem vars_eq_iff (h : Sound P) (hdistinct : Distinct P.heap) (j k : κ) :
    P.vars j = P.vars k ↔ P.get j = P.get k := by
  constructor
  · intro heq
    unfold Pool.get
    rw [heq]
  · intro heq
    unfold Pool.get at heq
    cases hj : P.vars j with
    | none =>
      cases hk : P.vars k with
      | none => rfl
      | some b =>
        obtain ⟨d, hd⟩ := Option.isSome_iff_exists.1 (h.alive hk)
        rw [hj, hk] at heq
        simp [hd] at heq
    | some a =>
      obtain ⟨c, hc⟩ := Option.isSome_iff_exists.1 (h.alive hj)
      cases hk : P.vars k with
      | none =>
        rw [hj, hk] at heq
        simp [hc] at heq
      | some b =>
        obtain ⟨d, hd⟩ := Option.isSome_iff_exists.1 (h.alive hk)
        rw [hj, hk] at heq
        simp only [Option.bind_some, hc, hd, Option.map_some, Option.some.injEq] at heq
        exact congrArg some (hdistinct a b c d hc hd heq)

end OpenDisplay.Lib.SharedPtr
