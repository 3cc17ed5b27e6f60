import Mathlib.Data.List.Induction
import Mathlib.Tactic.Common

/-!
# Touch gestures

A gesture is `began moved* (ended | cancelled)`.  A sequence of phases is well formed if it is a
prefix of a sequence of gestures.  `track` reads it one phase after the other and remembers whether
a touch is down; it gets stuck exactly on the sequences that are not well formed
(`track_isSome_iff`).
-/

namespace OpenDisplay.App.Gestures

/-- The phase of a touch message. -/
inductive Phase
  | began
  | moved
  | ended
  | cancelled
  deriving DecidableEq, Repr

/-- A word of `began moved* (ended | cancelled)`. -/
def Gesture (g : List Phase) : Prop :=
  ∃ (n : ℕ) (last : Phase), (last = .ended ∨ last = .cancelled) ∧
    g = .began :: (List.replicate n .moved ++ [last])

/-- A prefix of a word of `(began moved* (ended | cancelled))*`. -/
def WellFormed (ps : List Phase) : Prop :=
  ∃ gs : List (List Phase), (∀ g ∈ gs, Gesture g) ∧ ps <+: gs.flatten

/-- The next state, true while the touch is down; none for a phase that may not come. -/
def after : Bool → Phase → Option Bool
  | false, .began => some true
  | true, .moved => some true
  | true, .ended => some false
  | true, .cancelled => some false
  | _, _ => none

/-- The state after the phases `ps`. -/
def track (down : Bool) (ps : List Phase) : Option Bool := ps.foldlM after down

theorem track_append (down : Bool) (ps qs : List Phase) :
    track down (ps ++ qs) = (track down ps).bind fun down' => track down' qs :=
  List.foldlM_append

theorem track_snoc (down : Bool) (ps : List Phase) (p : Phase) :
    track down (ps ++ [p]) = (track down ps).bind fun down' => after down' p := by
  rw [track_append]
  simp [track]

theorem track_replicate_moved (n : ℕ) : track true (List.replicate n .moved) = some true := by
  induction n with
  | zero => rfl
  | succ n ih =>
    rw [List.replicate_succ', track_snoc, ih]
    rfl

theorem track_gesture {g : List Phase} (h : Gesture g) : track false g = some false := by
  obtain ⟨n, last, hlast, rfl⟩ := h
  have hbegan : track false [.began] = some true := rfl
  have hsplit : Phase.began :: (List.replicate n .moved ++ [last]) =
      [.began] ++ List.replicate n .moved ++ [last] := rfl
  rw [hsplit, track_snoc, track_append, hbegan, Option.bind_some, track_replicate_moved]
  rcases hlast with rfl | rfl
  · rfl
  · rfl

theorem track_flatten {gs : List (List Phase)} (h : ∀ g ∈ gs, Gesture g) :
    track false gs.flatten = some false := by
  induction gs with
  | nil => rfl
  | cons g gs ih =>
    have hg := track_gesture (h g List.mem_cons_self)
    rw [List.flatten_cons, track_append, hg]
    exact ih fun g' hg' => h g' (List.mem_cons_of_mem _ hg')

theorem exists_complete {gs : List (List Phase)} (hgs : ∀ g ∈ gs, Gesture g) (n : ℕ) {last : Phase}
    (hlast : last = .ended ∨ last = .cancelled) :
    ∃ gs' : List (List Phase), (∀ g ∈ gs', Gesture g) ∧
      gs'.flatten = gs.flatten ++ .began :: List.replicate n .moved ++ [last] := by
  refine ⟨gs ++ [.began :: (List.replicate n .moved ++ [last])], ?_, by simp⟩
  intro g hg
  rcases List.mem_append.1 hg with hg | hg
  · exact hgs g hg
  · exact ⟨n, last, hlast, List.mem_singleton.1 hg⟩

/-- What has been read: whole gestures and, while the touch is down, the start of one. -/
theorem exists_of_track (ps : List Phase) : ∀ down, track false ps = some down →
    ∃ gs : List (List Phase), (∀ g ∈ gs, Gesture g) ∧ (down = false → ps = gs.flatten) ∧
      (down = true → ∃ n, ps = gs.flatten ++ .began :: List.replicate n .moved) := by
  induction ps using List.reverseRecOn with
  | nil =>
    intro down h
    obtain rfl : false = down := Option.some.inj h
    exact ⟨[], by simp, fun _ => rfl, nofun⟩
  | append_singleton ps p ih =>
    intro down h
    rw [track_snoc, Option.bind_eq_some_iff] at h
    obtain ⟨before, hbefore, hafter⟩ := h
    obtain ⟨gs, hgs, hup, hdown⟩ := ih before hbefore
    match before, p, hafter with
    | false, .began, rfl =>
      refine ⟨gs, hgs, nofun, fun _ => ⟨0, ?_⟩⟩
      rw [hup rfl]
      rfl
    | true, .moved, rfl =>
      obtain ⟨n, hn⟩ := hdown rfl
      refine ⟨gs, hgs, nofun, fun _ => ⟨n + 1, ?_⟩⟩
      rw [hn, List.replicate_succ', List.append_assoc]
      rfl
    | true, .ended, rfl =>
      obtain ⟨n, hn⟩ := hdown rfl
      obtain ⟨gs', hgs', hflat⟩ := exists_complete hgs n (.inl rfl : Phase.ended = _ ∨ _)
      exact ⟨gs', hgs', fun _ => by rw [hn, hflat], nofun⟩
    | true, .cancelled, rfl =>
      obtain ⟨n, hn⟩ := hdown rfl
      obtain ⟨gs', hgs', hflat⟩ := exists_complete hgs n (.inr rfl : Phase.cancelled = _ ∨ _)
      exact ⟨gs', hgs', fun _ => by rw [hn, hflat], nofun⟩

theorem wellFormed_of_grows {ps qs : List Phase} (h : WellFormed qs) (hpre : ps <+: qs) :
    WellFormed ps := by
  obtain ⟨gs, hgs, hq⟩ := h
  exact ⟨gs, hgs, hpre.trans hq⟩

/-- **The automaton accepts the well-formed sequences.** -/
theorem track_isSome_iff (ps : List Phase) : (track false ps).isSome ↔ WellFormed ps := by
  constructor
  · intro h
    obtain ⟨down, hdown⟩ := Option.isSome_iff_exists.1 h
    obtain ⟨gs, hgs, hup, htouch⟩ := exists_of_track ps down hdown
    cases down with
    | false => exact ⟨gs, hgs, hup rfl ▸ List.prefix_rfl⟩
    | true =>
      -- the open gesture is closed with `ended`
      obtain ⟨n, hn⟩ := htouch rfl
      obtain ⟨gs', hgs', hflat⟩ := exists_complete hgs n (.inl rfl : Phase.ended = _ ∨ _)
      exact ⟨gs', hgs', [.ended], by rw [hn, hflat]⟩
  · rintro ⟨gs, hgs, rest, hrest⟩
    have hall := track_flatten hgs
    rw [← hrest, track_append, Option.bind_eq_some_iff] at hall
    obtain ⟨down, hdown, -⟩ := hall
    rw [hdown]
    rfl

end OpenDisplay.App.Gestures
