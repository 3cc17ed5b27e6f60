import OpenDisplay.Protocol.SpsReader

/-! # Exp-Golomb codes back to back

A list of codes, unsigned and signed in any mix, is read by the calls that match them. Each call
returns its integer and stops behind its code (`Code.reads`), so the calls return the whole list
(`reads_readCodes`). `Starves m bs` says that `m` throws where the data end inside of the bits `bs`
that it takes; it composes with `Reads` along the program, and so each call throws on a part of its
code (`Code.starves`). -/

namespace OpenDisplay.Protocol.ExpGolomb

open OpenDisplay.Lib.Bits OpenDisplay.Protocol.Sps OpenDisplay.Protocol.Sps.BitReader
open OpenDisplay.Protocol.SpsReader

variable {α β : Type}

/-! ## The codes -/

/-- An integer to be written as `ue(v)` or as `se(v)`. -/
inductive Code
  | ue (k : ℕ)
  | se (v : ℤ)

namespace Code

def value : Code → ℤ
  | ue k => k
  | se v => v

def bits : Code → List Bool
  | ue k => ueCode k
  | se v => seCode v

/-- The call of the reader for the code. -/
def read : Code → Read ℤ
  | ue _ => BitReader.ue
  | se _ => BitReader.se

/-- The integers whose codes `int` can hold. -/
def InRange : Code → Prop
  | ue k => k < 2 ^ 31 - 1
  | se v => v.natAbs < 2 ^ 30

theorem codeNum_lt {v : ℤ} (h : InRange (se v)) : codeNum v < 2147483647 := by
  unfold InRange at h
  rcases Int.lt_or_le 0 v with hpos | hneg
  · have := codeNum_of_pos hpos
    omega
  · have := codeNum_of_nonpos hneg
    omega

theorem reads : ∀ {c : Code}, c.InRange → Reads c.read c.bits c.value
  | ue _, h => reads_ue h
  | se _, h => reads_se (codeNum_lt h)

end Code

/-- The calls for a list of codes. -/
def readCodes : List Code → Read (List ℤ)
  | [] => return []
  | c :: cs => do
    let v ← c.read
    return v :: (← readCodes cs)

/-- **The integers are read back**, and nothing behind their codes is. -/
theorem reads_readCodes : ∀ {cs : List Code}, (∀ c ∈ cs, c.InRange) →
    Reads (readCodes cs) (cs.flatMap Code.bits) (cs.map Code.value)
  | [], _ => Reads.pure []
  | c :: cs, h => by
    have hc := Code.reads (h c List.mem_cons_self)
    have ih := reads_readCodes fun c' hc' => h c' (List.mem_cons_of_mem c hc')
    exact hc.bind (ih.bind_pure fun vs => c.value :: vs)

/-! ## Data that end early -/

/-- **The read `m` throws where the data end inside of the bits `bs`.** -/
def Starves (m : Read α) (bs : List Bool) : Prop :=
  ∀ (data : List UInt8) (pos : ℕ), (ofBytes data).drop pos <+: bs → (ofBytes data).drop pos ≠ bs →
    m.run ⟨data, pos⟩ = none

theorem Starves.nil (m : Read α) : Starves m [] := fun _ _ h hne => absurd (List.prefix_nil.1 h) hne

theorem Starves.before {m : Read α} {bs : List Bool} (hm : Starves m bs) (f : α → Read β) :
    Starves (m >>= f) bs := by
  intro data pos h hne
  rw [StateT.run_bind, hm data pos h hne]
  rfl

/-- The data end inside of the bits of the first read, or behind them and inside of those of the
second. -/
theorem Starves.bind {m : Read α} {f : α → Read β} {bs bs' : List Bool} {a : α}
    (hm : Starves m bs) (hreads : Reads m bs a) (hf : Starves (f a) bs') :
    Starves (m >>= f) (bs ++ bs') := by
  intro data pos h hne
  rw [StateT.run_bind]
  by_cases hbs : bs <+: (ofBytes data).drop pos
  · obtain ⟨rest, hrest⟩ := hbs
    rw [← hrest, List.prefix_append_right_inj] at h
    rw [← hrest, Ne, List.append_cancel_left_eq] at hne
    have hdrop : (ofBytes data).drop (pos + bs.length) = rest := by
      rw [← List.drop_drop, ← hrest, List.drop_left]
    rw [hreads data pos rest hrest.symm]
    exact hf data (pos + bs.length) (by rwa [hdrop]) (by rwa [hdrop])
  · have hcut : (ofBytes data).drop pos <+: bs :=
      (List.prefix_or_prefix_of_prefix h (List.prefix_append bs bs')).resolve_right hbs
    rw [hm data pos hcut fun heq => hbs (heq ▸ List.prefix_rfl)]
    rfl

/-! ### The reads of the reader -/

theorem starves_bit (b : Bool) : Starves bit [b] := by
  intro data pos h hne
  have hcut : (ofBytes data).drop pos <+: [] ++ [b] := h
  have hend := List.prefix_nil.1 ((List.prefix_concat_iff.1 hcut).resolve_left hne)
  have hbyte : data[pos / 8]? = none := by
    have hbit : (ofBytes data)[pos]? = none := List.getElem?_eq_none (List.drop_eq_nil_iff.1 hend)
    rw [getElem?_ofBytes] at hbit
    exact Option.map_eq_none_iff.1 hbit
  rw [run_bit]
  dsimp only
  rw [hbyte, Option.map_none]

theorem starves_bits : ∀ (bs : List Bool) (v : ℤ), Starves (bits bs.length v) bs
  | [], _ => Starves.nil _
  | b :: bs, _ => (starves_bit b).bind (reads_bit b) (starves_bits bs _)

theorem starves_leadingZeros : ∀ (zeros limit : ℕ), zeros < limit →
    Starves (leadingZeros limit) (List.replicate zeros false ++ [true])
  | _, 0, h => absurd h (Nat.not_lt_zero _)
  | 0, _ + 1, _ => (starves_bit true).before _
  | zeros + 1, limit + 1, h => by
    have ih := starves_leadingZeros zeros limit (Nat.lt_of_succ_lt_succ h)
    exact (starves_bit false).bind (reads_bit false) (ih.before _)

theorem starves_ue {v : ℕ} (h : v < 2147483647) : Starves ue (ueCode v) := by
  have hlimit := log2_lt_limit h
  have hbits := starves_bits (ofNat (Nat.log2 (v + 1)) (v + 1)) 1
  rw [length_ofNat] at hbits
  have hread := (starves_leadingZeros _ 33 hlimit).bind (reads_leadingZeros _ 33 hlimit)
    (f := fun zeros => bits zeros 1 >>= fun value => Pure.pure (int32 (value - 1)))
    (hbits.before _)
  rw [List.append_assoc, List.singleton_append, ← ueCode_eq] at hread
  exact hread

theorem starves_se {v : ℤ} (h : codeNum v < 2147483647) : Starves se (seCode v) :=
  (starves_ue h).before _

theorem Code.starves : ∀ {c : Code}, c.InRange → Starves c.read c.bits
  | ue _, h => starves_ue h
  | se _, h => starves_se (codeNum_lt h)

theorem starves_readCodes : ∀ {cs : List Code}, (∀ c ∈ cs, c.InRange) →
    Starves (readCodes cs) (cs.flatMap Code.bits)
  | [], _ => Starves.nil _
  | c :: cs, h => by
    have hc := h c List.mem_cons_self
    have ih := starves_readCodes fun c' hc' => h c' (List.mem_cons_of_mem c hc')
    exact (Code.starves hc).bind (Code.reads hc) (ih.before _)

/-- **Exp-Golomb codes are read back exactly.**  The integers are returned, whatever bits follow, and
the position behind their codes is reached. Where the data end inside of a code behind them, the call
for that code throws, and so do the calls for a list with the data ending inside of its codes. -/
theorem readCodes_exact (data : List UInt8) (pos : ℕ) (cs : List Code) (h : ∀ c ∈ cs, c.InRange) :
    (∀ rest, (ofBytes data).drop pos = cs.flatMap Code.bits ++ rest →
      (readCodes cs).run ⟨data, pos⟩ =
        some (cs.map Code.value, ⟨data, pos + (cs.flatMap Code.bits).length⟩)) ∧
    (∀ (c : Code) (cut : List Bool), c.InRange → cut <+: c.bits → cut ≠ c.bits →
      (ofBytes data).drop pos = cs.flatMap Code.bits ++ cut →
        c.read.run ⟨data, pos + (cs.flatMap Code.bits).length⟩ = none) ∧
    ((ofBytes data).drop pos <+: cs.flatMap Code.bits →
      (ofBytes data).drop pos ≠ cs.flatMap Code.bits → (readCodes cs).run ⟨data, pos⟩ = none) := by
  refine ⟨fun rest hbits => reads_readCodes h data pos rest hbits, ?_, starves_readCodes h data pos⟩
  intro c cut hc hcut hne hbits
  have hdrop : (ofBytes data).drop (pos + (cs.flatMap Code.bits).length) = cut := by
    rw [← List.drop_drop, hbits, List.drop_left]
  exact Code.starves hc data _ (by rwa [hdrop]) (by rwa [hdrop])

/-- Three codes from the fourth bit on, the last one the largest; the first two bytes end in it. -/
theorem readCodes_unaligned :
    (readCodes [.ue 5, .se (-3), .ue 2147483646]).run
        ⟨[166, 56, 0, 0, 0, 31, 255, 255, 255, 255], 3⟩ =
      some ([5, -3, 2147483646], ⟨[166, 56, 0, 0, 0, 31, 255, 255, 255, 255], 74⟩) ∧
    (Code.ue 2147483646).read.run ⟨[166, 56], 13⟩ = none ∧
    (readCodes [.ue 5, .se (-3), .ue 2147483646]).run ⟨[166, 56], 3⟩ = none := by
  have hrange : ∀ c ∈ [Code.ue 5, .se (-3), .ue 2147483646], c.InRange := by simp [Code.InRange]
  have hcut : ∀ c ∈ [Code.ue 5, .se (-3)], c.InRange := by simp [Code.InRange]
  have hread := (readCodes_exact [166, 56, 0, 0, 0, 31, 255, 255, 255, 255] 3 _ hrange).1
    (List.replicate 6 true) (by decide)
  have hthrow := (readCodes_exact [166, 56] 3 _ hcut).2.1 (.ue 2147483646) [false, false, false]
    (by simp [Code.InRange]) (by decide) (by decide) (by decide)
  have hlist := (readCodes_exact [166, 56] 3 _ hrange).2.2 (by decide) (by decide)
  exact ⟨hread, hthrow, hlist⟩

end OpenDisplay.Protocol.ExpGolomb
