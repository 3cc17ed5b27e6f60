import OpenDisplay.Protocol.FramingCorrupt

/-! # Wire framing: which frames of a stream arrive

Any bytes in any chunks, and a reader that drops the frames of an invalid `Feed` (`delivered`). The
frames of the stream are those of its reference parse; `want` selects some of them.

* `Arrive`: each chunk leaves the wanted frames that it completes undisturbed, and no chunk that
  completes one of them also completes a corrupt length. It is a condition on the chunks alone.
* `shows_iff_arrive`: the reader delivers each wanted frame at its place in the stream, with its bytes,
  exactly if they arrive. -/

namespace OpenDisplay.Protocol.FramingArrival

open OpenDisplay.Lib.Buffer OpenDisplay.Protocol.Framing OpenDisplay.Protocol.FramingStream
open OpenDisplay.Protocol.FramingRoundTrip OpenDisplay.Protocol.FramingCorrupt

variable {want : List UInt8 → Prop}

/-- The wanted frames of `done` survive the move of `tail` to index `0`. -/
def UndisturbedIn (want : List UInt8 → Prop) (done : List (List UInt8)) (tail : List UInt8) : Prop :=
  ∀ x ∈ (spansAt 0 done).zip done, want x.2 → ∀ k < x.1.length, x.1.offset + k < tail.length →
    (encodeAll done)[x.1.offset + k]? = tail[x.1.offset + k]?

/-- The wanted frames arrive; `held` are the bytes of the unfinished frame from earlier chunks. -/
def Arrive (want : List UInt8 → Prop) : List UInt8 → List (List UInt8) → Prop
  | _, [] => True
  | held, c :: cs =>
    let p := parseStream (held ++ c)
    if p.valid then UndisturbedIn want p.frames p.rest ∧ Arrive want p.rest cs
    else ∀ f ∈ p.frames, ¬want f

instance [DecidablePred want] (done : List (List UInt8)) (tail : List UInt8) :
    Decidable (UndisturbedIn want done tail) := by
  unfold UndisturbedIn; infer_instance

instance decidableArrive [DecidablePred want] : ∀ (held : List UInt8) (cs : List (List UInt8)),
    Decidable (Arrive want held cs)
  | _, [] => .isTrue trivial
  | held, c :: cs =>
    have := decidableArrive (parseStream (held ++ c)).rest cs
    inferInstanceAs (Decidable (if (parseStream (held ++ c)).valid = true then
      UndisturbedIn want _ _ ∧ Arrive want _ _ else ∀ f ∈ _, ¬want f))

/-- Each wanted frame is shown at its place. -/
def Shows (want : List UInt8 → Prop) (ps shown : List (List UInt8)) : Prop :=
  ∀ (i : ℕ) (p : List UInt8), ps[i]? = some p → want p → shown[i]? = some p

theorem shows_append {ps ps' shown shown' : List (List UInt8)} (h : shown.length = ps.length) :
    Shows want (ps ++ ps') (shown ++ shown') ↔ Shows want ps shown ∧ Shows want ps' shown' := by
  constructor
  · intro hall
    refine ⟨fun i p hp hw => ?_, fun i p hp hw => ?_⟩
    · have hlt : i < ps.length := (List.getElem?_eq_some_iff.1 hp).1
      have hi := hall i p (by rw [List.getElem?_append_left hlt]; exact hp) hw
      rwa [List.getElem?_append_left (by omega)] at hi
    · have hi := hall (ps.length + i) p
        (by rw [List.getElem?_append_right (by omega), Nat.add_sub_cancel_left]; exact hp) hw
      rwa [List.getElem?_append_right (by omega), h, Nat.add_sub_cancel_left] at hi
  · rintro ⟨hfront, hback⟩ i p hp hw
    by_cases hlt : i < ps.length
    · rw [List.getElem?_append_left hlt] at hp
      rw [List.getElem?_append_left (by omega)]
      exact hfront i p hp hw
    · rw [List.getElem?_append_right (by omega)] at hp
      rw [List.getElem?_append_right (by omega), h]
      exact hback _ p hp hw

theorem shows_nil {ps : List (List UInt8)} : Shows want ps [] ↔ ∀ p ∈ ps, ¬want p := by
  constructor
  · intro h p hp hw
    obtain ⟨i, hi⟩ := List.mem_iff_getElem?.1 hp
    exact absurd (h i p hi hw) (by simp)
  · intro h i p hi hw
    exact absurd hw (h p (List.mem_of_getElem? hi))

/-! ### The bytes of a parse -/

theorem writeInt32BE_readInt32BE_cons (a b c d : UInt8) (rest : List UInt8) :
    writeInt32BE (readInt32BE (a :: b :: c :: d :: rest)) = [a, b, c, d] := by
  have hv := toNat_readInt32BE a b c d rest
  have ha := a.toNat_lt
  have hb := b.toNat_lt
  have hc := c.toNat_lt
  have hd := d.toNat_lt
  set v := readInt32BE (a :: b :: c :: d :: rest)
  have h24 : (v >>> 24).toUInt8 = a := by
    refine UInt8.toNat_inj.1 ?_
    rw [UInt32.toNat_toUInt8, UInt32.toNat_shiftRight, Nat.shiftRight_eq_div_pow]
    change v.toNat / 2 ^ 24 % 256 = _
    omega
  have h16 : (v >>> 16).toUInt8 = b := by
    refine UInt8.toNat_inj.1 ?_
    rw [UInt32.toNat_toUInt8, UInt32.toNat_shiftRight, Nat.shiftRight_eq_div_pow]
    change v.toNat / 2 ^ 16 % 256 = _
    omega
  have h8 : (v >>> 8).toUInt8 = c := by
    refine UInt8.toNat_inj.1 ?_
    rw [UInt32.toNat_toUInt8, UInt32.toNat_shiftRight, Nat.shiftRight_eq_div_pow]
    change v.toNat / 2 ^ 8 % 256 = _
    omega
  have h0 : v.toUInt8 = d := by
    refine UInt8.toNat_inj.1 ?_
    rw [UInt32.toNat_toUInt8]
    omega
  rw [writeInt32BE, h24, h16, h8, h0]

theorem writeInt32BE_readInt32BE : ∀ {bytes : List UInt8}, kFrameHeaderSize ≤ bytes.length →
    writeInt32BE (readInt32BE bytes) = bytes.take kFrameHeaderSize
  | a :: b :: c :: d :: rest, _ => writeInt32BE_readInt32BE_cons a b c d rest

theorem encodeFrame_slice {bytes : List UInt8}
    (hle : kFrameHeaderSize + (readInt32BE bytes).toNat ≤ bytes.length) :
    encodeFrame (slice bytes kFrameHeaderSize (readInt32BE bytes).toNat) ++
      bytes.drop (kFrameHeaderSize + (readInt32BE bytes).toNat) = bytes := by
  have hlen : (slice bytes kFrameHeaderSize (readInt32BE bytes).toNat).length =
      (readInt32BE bytes).toNat := length_slice hle
  have hprefix : writeInt32BE (readInt32BE bytes) = bytes.take kFrameHeaderSize :=
    writeInt32BE_readInt32BE (by omega)
  unfold encodeFrame
  rw [hlen, UInt32.ofNat_toNat, hprefix, List.append_assoc, slice, ← List.drop_drop,
    List.take_append_drop, List.take_append_drop]

/-- **A parse loses nothing**: the bytes are its frames, encoded again, and its rest. -/
theorem encodeAll_parseStream (bytes : List UInt8) :
    encodeAll (parseStream bytes).frames ++ (parseStream bytes).rest = bytes := by
  fun_induction parseStream bytes with
  | case1 => rfl
  | case2 => rfl
  | case3 => rfl
  | case4 bytes h len hok hle p ih =>
    rw [encodeAll_cons, List.append_assoc, ih]
    exact encodeFrame_slice (by omega)

/-! ### The frames that are delivered -/

/-- What one `Feed` shows of the wanted frames. -/
theorem shows_contents_iff {d : FrameDecoder} (hcur : d.cursor = 0) {data : List UInt8}
    (hne : data ≠ []) :
    Shows want (parseStream (d.retained ++ data)).frames (d.feed data).contents ↔
      UndisturbedIn want (parseStream (d.retained ++ data)).frames
        (parseStream (d.retained ++ data)).rest := by
  have hbytes := (encodeAll_parseStream (d.retained ++ data)).symm
  obtain ⟨hlive, hcontents⟩ := contents_feed hcur hne rfl hbytes
  set done := (parseStream (d.retained ++ data)).frames
  set tail := (parseStream (d.retained ++ data)).rest
  have hsent := map_slice_encodeAll done
  rw [hcontents]
  -- the i-th span and the i-th payload
  have hpair : ∀ (i : ℕ) (f : Span), (spansAt 0 done)[i]? = some f →
      done[i]? = some (slice (encodeAll done) f.offset f.length) := by
    intro i f hf
    have hi := congrArg (fun l : List (List UInt8) => l[i]?) hsent
    rw [List.getElem?_map, hf] at hi
    exact hi.symm
  constructor
  · rintro h ⟨f, p⟩ hx hw
    obtain ⟨i, hi⟩ := List.mem_iff_getElem?.1 hx
    obtain ⟨hf, hp⟩ := List.getElem?_zip_eq_some.1 hi
    have hshown := h i p hp hw
    rw [List.getElem?_map, hf] at hshown
    refine (slice_move_iff (d.append data).size_le hlive (List.mem_of_getElem? hf)).1 ?_
    exact (Option.some.inj hshown).trans (Option.some.inj (hp.symm.trans (hpair i f hf)))
  · intro h i p hp hw
    have hlt : i < (spansAt 0 done).length := by
      have hlen := congrArg List.length hsent
      rw [List.length_map] at hlen
      have := (List.getElem?_eq_some_iff.1 hp).1
      omega
    have hf : (spansAt 0 done)[i]? = some (spansAt 0 done)[i] := List.getElem?_eq_getElem hlt
    have hx : ((spansAt 0 done)[i], p) ∈ (spansAt 0 done).zip done :=
      List.mem_of_getElem? (List.getElem?_zip_eq_some.2 ⟨hf, hp⟩)
    have hsame := (slice_move_iff (d.append data).size_le hlive (List.mem_of_getElem? hf)).2 (h _ hx hw)
    rw [List.getElem?_map, hf]
    exact (congrArg some hsame).trans ((hpair i _ hf).symm.trans hp)

/-- **The wanted frames are delivered exactly if they arrive.** -/
theorem shows_iff_arrive : ∀ (cs : List (List UInt8)) (d : FrameDecoder), d.cursor = 0 →
    (∀ c ∈ cs, c ≠ []) → (parseStream d.retained).frames = [] →
      (Shows want (parseStream (d.retained ++ cs.flatten)).frames (delivered d cs).1 ↔
        Arrive want d.retained cs)
  | [], d, _, _, hheld => by
    rw [List.flatten_nil, List.append_nil, hheld]
    exact iff_of_true (fun i p hp => by simp at hp) trivial
  | c :: cs, d, hcur, hne, hheld => by
    have hc : c ≠ [] := hne c List.mem_cons_self
    obtain ⟨hframes, hv, hret⟩ := feed_spec d hc
    rw [List.flatten_cons, ← List.append_assoc, parseStream_append (d.retained ++ c) cs.flatten, delivered,
      Arrive]
    dsimp only
    rw [← hv]
    by_cases hvalid : (d.feed c).valid = true
    · have hheld' : (parseStream (d.feed c).decoder.retained).frames = [] := by
        rw [hret, parseStream_rest]
      have ih := shows_iff_arrive cs (d.feed c).decoder (cursor_feed hcur c)
        (fun x hx => hne x (List.mem_cons_of_mem _ hx)) hheld'
      have hlen : (d.feed c).contents.length = (parseStream (d.retained ++ c)).frames.length :=
        length_contents_feed hc rfl
      rw [if_pos hvalid, if_pos hvalid, shows_append hlen, shows_contents_iff hcur hc, ← hret, ih]
    · have hinvalid : (parseStream (d.retained ++ c)).valid = false := by
        rw [← hv]
        exact Bool.eq_false_iff.2 hvalid
      rw [if_neg hvalid, if_neg hvalid, (parseStream_append_invalid hinvalid cs.flatten).1,
        List.append_nil]
      exact shows_nil

end OpenDisplay.Protocol.FramingArrival
