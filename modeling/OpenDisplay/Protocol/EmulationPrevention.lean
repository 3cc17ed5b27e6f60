import OpenDisplay.Protocol.AnnexBRoundTrip
import OpenDisplay.Protocol.Sps
import OpenDisplay.Protocol.SpsSyntax
import Mathlib.Data.List.Induction

/-! # Emulation prevention

`emulationPrevention` writes the payload of a NAL unit byte by byte; what it puts in depends only on
the bytes written so far. `zeroRun` is the run of zeros that `StripEmulationPrevention` has counted
behind given bytes, and it is at least 2 exactly if they end in two zeros (`two_le_zeroRun`). So the
strip takes out what each step put in (`strip_escape`), and the whole payload is recovered
(`strip_emulationPrevention`). The bytes written hold no start code (`free_nalu`), so the payloads of a
frame come through the parser whatever they are (`parseAnnexB_nalus`). -/

namespace OpenDisplay.Protocol.EmulationPrevention

open OpenDisplay.Lib.Separator
open OpenDisplay.Protocol.AnnexB OpenDisplay.Protocol.AnnexBRoundTrip
open OpenDisplay.Protocol.Sps (strip stripEmulationPrevention)
open OpenDisplay.Protocol.SpsSyntax (insertEmulationPrevention)

/-! ## The encoder -/

/-- `b` behind the bytes `out`, with a byte `03` before it if it is at most 3 and follows two zero
bytes of `out`. -/
def escape (out : List UInt8) (b : UInt8) : List UInt8 :=
  if [0, 0] <:+ out ∧ b ≤ 3 then out ++ [3, b] else out ++ [b]

def escaped (rbsp : List UInt8) : List UInt8 := rbsp.foldl escape []

/-- The payload with emulation prevention, and a final `03` if it ends in two zero bytes. -/
def emulationPrevention (rbsp : List UInt8) : List UInt8 :=
  escaped rbsp ++ if [0, 0] <:+ escaped rbsp then [3] else []

theorem escaped_concat (rbsp : List UInt8) (b : UInt8) :
    escaped (rbsp ++ [b]) = escape (escaped rbsp) b := by
  unfold escaped
  rw [List.foldl_append, List.foldl_cons, List.foldl_nil]

/-! ## The run of zeros -/

/-- The run of zeros behind the bytes `bs` that follow a run of `n`. -/
def zeroRun (n : ℕ) (bs : List UInt8) : ℕ := bs.foldl (fun n b => if b = 0 then n + 1 else 0) n

theorem zeroRun_cons (n : ℕ) (b : UInt8) (bs : List UInt8) :
    zeroRun n (b :: bs) = zeroRun (if b = 0 then n + 1 else 0) bs := rfl

theorem zeroRun_concat (n : ℕ) (bs : List UInt8) (b : UInt8) :
    zeroRun n (bs ++ [b]) = if b = 0 then zeroRun n bs + 1 else 0 := by
  unfold zeroRun
  rw [List.foldl_append, List.foldl_cons, List.foldl_nil]

theorem concat_suffix_concat {l l' : List UInt8} {a b : UInt8} :
    l ++ [a] <:+ l' ++ [b] ↔ l <:+ l' ∧ a = b := by
  have hlen : [a].length = [b].length := rfl
  rw [List.suffix_append_inj_of_length_eq hlen, List.singleton_inj]

theorem le_zeroRun (n : ℕ) (bs : List UInt8) : n ≤ zeroRun 0 bs ↔ List.replicate n 0 <:+ bs := by
  induction bs using List.reverseRecOn generalizing n with
  | nil => cases n <;> simp [zeroRun, List.replicate_succ]
  | append_singleton bs b ih =>
    cases n with
    | zero => simp
    | succ n =>
      rw [zeroRun_concat, List.replicate_succ', concat_suffix_concat, ← ih]
      split
      case isTrue hb => rw [hb, Nat.succ_le_succ_iff, eq_self, and_true]
      case isFalse hb => simp [Ne.symm hb]

theorem two_le_zeroRun (bs : List UInt8) : 2 ≤ zeroRun 0 bs ↔ [0, 0] <:+ bs := le_zeroRun 2 bs

/-- **The strip is taken from the front.** The run of zeros is all that it keeps of what it has read. -/
theorem strip_append (n : ℕ) (s t : List UInt8) :
    strip n (s ++ t) = strip n s ++ strip (zeroRun n s) t := by
  induction s generalizing n with
  | nil => rfl
  | cons b s ih =>
    rw [List.cons_append, strip, strip, zeroRun_cons]
    split
    case isTrue h =>
      rw [ih, if_neg (by rw [h.2]; decide)]
    case isFalse => rw [ih, List.cons_append]

/-! ## The round trip -/

/-- **The strip takes out what a step put in.** -/
theorem strip_escape (out : List UInt8) (b : UInt8) :
    strip 0 (escape out b) = strip 0 out ++ [b] := by
  unfold escape
  split
  case isTrue h =>
    have hrun := (two_le_zeroRun out).2 h.1
    rw [strip_append, strip, if_pos ⟨hrun, rfl⟩, strip, if_neg (by omega)]
    rfl
  case isFalse h =>
    have hkeep : ¬(2 ≤ zeroRun 0 out ∧ b = 3) := by
      rintro ⟨hrun, rfl⟩
      exact h ⟨(two_le_zeroRun out).1 hrun, UInt8.le_refl 3⟩
    rw [strip_append, strip, if_neg hkeep]
    rfl

theorem strip_escaped (rbsp : List UInt8) : strip 0 (escaped rbsp) = rbsp := by
  induction rbsp using List.reverseRecOn with
  | nil => rfl
  | append_singleton rbsp b ih => rw [escaped_concat, strip_escape, ih]

/-- The encoder that counts the zeros writes the same. -/
theorem insertEmulationPrevention_eq (rbsp : List UInt8) :
    insertEmulationPrevention 0 rbsp = escaped rbsp := by
  have hfold (out : List UInt8) :
      rbsp.foldl escape out = out ++ insertEmulationPrevention (zeroRun 0 out) rbsp := by
    induction rbsp generalizing out with
    | nil => exact (List.append_nil out).symm
    | cons b rbsp ih =>
      have hcond : ([0, 0] <:+ out ∧ b ≤ 3) ↔ (2 ≤ zeroRun 0 out ∧ b.toNat ≤ 3) :=
        and_congr (two_le_zeroRun out).symm UInt8.le_iff_toNat_le
      rw [List.foldl_cons, ih, escape, insertEmulationPrevention, if_congr hcond rfl rfl]
      split
      case isTrue =>
        have hthree : zeroRun 0 (out ++ [3]) = 0 := by rw [zeroRun_concat, if_neg (by decide)]
        rw [List.append_cons, zeroRun_concat, hthree]
        simp
      case isFalse =>
        rw [zeroRun_concat]
        simp
  exact (hfold []).symm

theorem strip_insert (rbsp tail : List UInt8) :
    strip 0 (insertEmulationPrevention 0 rbsp ++ tail) =
      rbsp ++ strip (zeroRun 0 (escaped rbsp)) tail := by
  rw [strip_append, insertEmulationPrevention_eq, strip_escaped]

theorem strip_emulationPrevention (rbsp : List UInt8) : strip 0 (emulationPrevention rbsp) = rbsp := by
  have hfinal : strip (zeroRun 0 (escaped rbsp))
      (if [0, 0] <:+ escaped rbsp then [3] else []) = [] := by
    split
    case isTrue h => rw [strip, if_pos ⟨(two_le_zeroRun _).2 h, rfl⟩, strip]
    case isFalse => rw [strip]
  unfold emulationPrevention
  rw [strip_append, strip_escaped, hfinal, List.append_nil]

/-- **Removal of emulation prevention inverts its insertion**, behind every header byte. -/
theorem stripEmulationPrevention_emulationPrevention (header : UInt8) (rbsp : List UInt8) :
    stripEmulationPrevention (header :: emulationPrevention rbsp) = rbsp := by
  unfold stripEmulationPrevention
  rw [List.drop_succ_cons, List.drop_zero]
  exact strip_emulationPrevention rbsp

example : emulationPrevention [0, 0, 0, 0, 1, 3, 0, 0] = [0, 0, 3, 0, 0, 3, 1, 3, 0, 0, 3] := by decide

/-! ## Start codes -/

/-- Two zeros are not followed by a byte below 3. -/
def Guarded (out : List UInt8) : Prop := ∀ b ≤ 2, ¬[0, 0, b] <:+: out

theorem Guarded.concat {out : List UInt8} {b : UInt8} (h : Guarded out)
    (hb : ¬([0, 0] <:+ out ∧ b ≤ 2)) : Guarded (out ++ [b]) := by
  intro c hc hi
  rcases List.infix_concat_iff.1 hi with hs | hi
  · obtain ⟨hz, rfl⟩ := (concat_suffix_concat (l := [0, 0])).1 hs
    exact hb ⟨hz, hc⟩
  · exact h c hc hi

theorem Guarded.escape {out : List UInt8} (h : Guarded out) (b : UInt8) :
    Guarded (escape out b) := by
  unfold EmulationPrevention.escape
  split
  case isTrue =>
    have hthree : Guarded (out ++ [3]) := h.concat fun hb => absurd hb.2 (by decide)
    rw [List.append_cons]
    refine hthree.concat fun hb => ?_
    obtain ⟨-, heq⟩ := (concat_suffix_concat (l := [0])).1 hb.1
    exact absurd heq (by decide)
  case isFalse hb => exact h.concat fun hb' => hb ⟨hb'.1, UInt8.le_trans hb'.2 (by decide)⟩

theorem guarded_emulationPrevention (rbsp : List UInt8) : Guarded (emulationPrevention rbsp) := by
  have hbody : Guarded (escaped rbsp) := by
    induction rbsp using List.reverseRecOn with
    | nil => intro b _ hi; cases List.infix_nil.1 hi
    | append_singleton rbsp b ih => rw [escaped_concat]; exact ih.escape b
  unfold emulationPrevention
  split
  case isTrue => exact hbody.concat fun hb => absurd hb.2 (by decide)
  case isFalse => rwa [List.append_nil]

/-- A NAL unit: its header byte, and its payload with emulation prevention. -/
def nalu (n : UInt8 × List UInt8) : List UInt8 := n.1 :: emulationPrevention n.2

/-- **No start code is in a NAL unit**, so a payload is not cut inside of it. -/
theorem free_nalu (n : UInt8 × List UInt8) : Free startCode (nalu n) := by
  have hone : ¬[0, 0, 1] <:+: emulationPrevention n.2 := guarded_emulationPrevention n.2 1 (by decide)
  intro hi
  rcases List.infix_cons_iff.1 hi with hp | hi
  · exact hone (List.cons_prefix_cons.1 hp).2.isInfix
  · exact hone ((List.suffix_cons 0 [0, 0, 1]).isInfix.trans hi)

/-- **What the payloads hold does not matter.**  Behind the telemetry, NAL units with any payloads are
found one by one, and their payloads are recovered. -/
theorem parseAnnexB_nalus {pre : List UInt8} (hpre : Free startCode pre)
    {ns : List (UInt8 × List UInt8)} (hne : ns ≠ []) :
    (parseAnnexB (pre ++ weave startCode (ns.map nalu))).vclNalus.map stripEmulationPrevention =
        (ns.filter fun n => IsVcl (nalu n)).map Prod.snd ∧
      stripEmulationPrevention (parseAnnexB (pre ++ weave startCode (ns.map nalu))).sps =
        ((ns.filter fun n => naluType (nalu n) = 7).map Prod.snd).getLastD [] := by
  have hfree : ∀ p ∈ ns.map nalu, Free startCode p := by
    rintro p hp
    obtain ⟨n, -, rfl⟩ := List.mem_map.1 hp
    exact free_nalu n
  have hall : nonEmpty (ns.map nalu) = ns.map nalu := by
    refine List.filter_eq_self.2 fun p hp => ?_
    obtain ⟨n, -, rfl⟩ := List.mem_map.1 hp
    simp [nalu]
  have hstrip : stripEmulationPrevention ∘ nalu = Prod.snd :=
    funext fun n => strip_emulationPrevention n.2
  have hparse := parseAnnexB_weave hpre hfree
  rw [if_neg (by simpa using hne), hall, foldl_classify] at hparse
  rw [hparse]
  simp only [frameOf, List.nil_append, List.filter_map]
  constructor
  · rw [List.map_map, hstrip]
    rfl
  · rw [← hstrip, ← List.map_map]
    exact List.getLastD_map.symm

end OpenDisplay.Protocol.EmulationPrevention
