import OpenDisplay.App.Queue
import Mathlib.Data.List.Nodup
import Mathlib.Data.List.Perm.Basic

/-!
# What the video queue loses

A `History` is a queue in which each sample carries its number in the order of the pushes, together
with all the samples pushed, the ones that `PopWait` returned and the ones that pushes dropped.  The
numbers are a ghost: without them the queue makes the same moves (`run_unnumbered`).

The invariant counts the samples that have left the queue.  They are the first ones pushed, the
queue holds the others in their order, and each sample that left was either returned or dropped.
-/

namespace OpenDisplay.App.QueueHistory

open OpenDisplay.App.Queue

variable {α β : Type*}

/-- The calls on a queue.  Each runs under `mutex_`, `popWait` at the moment its wait ends. -/
inductive Call (α : Type*)
  | push (x : α)
  | popWait
  | shutdown

/-- What a call does to the queue itself. -/
def callQueue (q : VideoQueue α) : Call α → VideoQueue α
  | .push x => (q.push x).1
  | .popWait => q.popWait.2
  | .shutdown => q.shutdown

structure History (α : Type*) where
  queue : VideoQueue (α × ℕ)
  pushed : List α
  popped : List (α × ℕ)
  lost : List (α × ℕ)

namespace History

/-- A new queue. -/
def start (capacity : ℕ) (hc : 0 < capacity) : History α := ⟨.ofCapacity capacity hc, [], [], []⟩

def call (h : History α) : Call α → History α
  | .push x =>
    { h with
      queue := (h.queue.push (x, h.pushed.length)).1
      pushed := h.pushed ++ [x]
      lost := h.lost ++ h.queue.victim.toList }
  | .popWait =>
    { h with
      queue := h.queue.popWait.2
      popped := h.popped ++ h.queue.popWait.1.toList }
  | .shutdown => { h with queue := h.queue.shutdown }

def run (h : History α) (cs : List (Call α)) : History α := cs.foldl call h

/-- The number of samples that have left the queue. -/
def out (h : History α) : ℕ := h.popped.length + h.lost.length

/-- The samples pushed, each with its number. -/
def numbered (h : History α) : List (α × ℕ) := h.pushed.zipIdx

@[simp] theorem length_numbered (h : History α) : h.numbered.length = h.pushed.length := by
  simp [numbered]

end History

/-! ## Without the numbers -/

/-- The queue with `f` applied to each sample. -/
def mapQueue (f : α → β) (q : VideoQueue α) : VideoQueue β where
  capacity := q.capacity
  queue := q.queue.map f
  dropped := q.dropped
  shuttingDown := q.shuttingDown
  capacity_pos := q.capacity_pos
  length_le := by simpa using q.length_le

theorem full_mapQueue (f : α → β) (q : VideoQueue α) : (mapQueue f q).Full ↔ q.Full := by
  simp [VideoQueue.Full, mapQueue]

theorem push_mapQueue (f : α → β) (q : VideoQueue α) (x : α) :
    (mapQueue f q).push (f x) = (mapQueue f (q.push x).1, (q.push x).2) := by
  by_cases hf : q.Full
  · have hf' := (full_mapQueue f q).2 hf
    simp [VideoQueue.push, VideoQueue.kept, hf, hf']
    simp [mapQueue]
  · have hf' := mt (full_mapQueue f q).1 hf
    simp [VideoQueue.push, VideoQueue.kept, hf, hf']
    simp [mapQueue]

theorem popWait_mapQueue (f : α → β) (q : VideoQueue α) :
    (mapQueue f q).popWait = (q.popWait.1.map f, mapQueue f q.popWait.2) := by
  obtain ⟨c, q, d, s, hc, hl⟩ := q
  cases q <;> rfl

theorem callQueue_mapQueue (h : History α) (c : Call α) :
    mapQueue Prod.fst (h.call c).queue = callQueue (mapQueue Prod.fst h.queue) c := by
  cases c with
  | push x =>
    have hp := push_mapQueue Prod.fst h.queue (x, h.pushed.length)
    exact (congrArg Prod.fst hp).symm
  | popWait => exact (congrArg Prod.snd (popWait_mapQueue Prod.fst h.queue)).symm
  | shutdown => rfl

/-- The numbers change nothing: below them is the queue of the samples. -/
theorem run_unnumbered (h : History α) (cs : List (Call α)) :
    mapQueue Prod.fst (h.run cs).queue = cs.foldl callQueue (mapQueue Prod.fst h.queue) := by
  induction cs generalizing h with
  | nil => rfl
  | cons c cs ih =>
    rw [List.foldl_cons, ← callQueue_mapQueue]
    exact ih (h.call c)

/-! ## The invariant -/

/-- The samples that have left the queue are the first ones pushed; each was returned or dropped. -/
structure Inv (h : History α) : Prop where
  out_le : h.out ≤ h.pushed.length
  queue_eq : h.queue.queue = h.numbered.drop h.out
  gone : (h.popped ++ h.lost).Perm (h.numbered.take h.out)
  popped_sublist : h.popped.Sublist (h.numbered.take h.out)
  lost_sublist : h.lost.Sublist (h.numbered.take h.out)
  dropped_eq : h.queue.dropped = .ofNat h.lost.length

theorem inv_start (capacity : ℕ) (hc : 0 < capacity) :
    Inv (History.start capacity hc : History α) where
  out_le := Nat.le_refl _
  queue_eq := rfl
  gone := .nil
  popped_sublist := .slnil
  lost_sublist := .slnil
  dropped_eq := rfl

variable {h : History α}

theorem numbered_push (h : History α) (x : α) :
    (h.call (.push x)).numbered = h.numbered ++ [(x, h.pushed.length)] := by
  simp [History.numbered, History.call, List.zipIdx_append]

/-- The front of the queue is the next sample to leave. -/
theorem Inv.front (hi : Inv h) {y : α × ℕ} {ys : List (α × ℕ)} (hq : h.queue.queue = y :: ys) :
    h.out < h.pushed.length ∧ h.numbered.take (h.out + 1) = h.numbered.take h.out ++ [y] ∧
      h.numbered.drop (h.out + 1) = ys := by
  have hd : h.numbered.drop h.out = y :: ys := by rw [← hi.queue_eq, hq]
  have hlt : h.out < h.numbered.length := by
    have := congrArg List.length hd
    rw [List.length_drop, List.length_cons] at this
    omega
  have hy : h.numbered[h.out]? = some y := by rw [← List.head?_drop, hd, List.head?_cons]
  refine ⟨by simpa using hlt, ?_, ?_⟩
  · rw [List.take_add_one, hy, Option.toList_some]
  · rw [← List.tail_drop, hd, List.tail_cons]

theorem Inv.push (hi : Inv h) (x : α) : Inv (h.call (.push x)) := by
  have hn := numbered_push h x
  have hlen : (h.call (.push x)).pushed.length = h.pushed.length + 1 := by simp [History.call]
  by_cases hf : h.queue.Full
  · -- the front sample leaves
    obtain ⟨y, ys, hq⟩ : ∃ y ys, h.queue.queue = y :: ys := by
      have hp := h.queue.capacity_pos
      have hl : h.queue.capacity ≤ h.queue.queue.length := hf
      exact List.exists_cons_of_length_pos (by omega)
    obtain ⟨hlt, htake, hdrop⟩ := hi.front hq
    have hv : h.queue.victim = some y := by rw [VideoQueue.victim, if_pos hf, hq, List.head?_cons]
    have hlost : (h.call (.push x)).lost = h.lost ++ [y] := by simp [History.call, hv]
    have hout : (h.call (.push x)).out = h.out + 1 := by
      simp only [History.out, hlost, List.length_append, List.length_singleton]
      rfl
    have hle : h.out + 1 ≤ h.numbered.length := by
      rw [History.length_numbered]
      exact hlt
    have htake' : (h.call (.push x)).numbered.take (h.out + 1) = h.numbered.take h.out ++ [y] := by
      rw [hn, List.take_append_of_le_length hle, htake]
    constructor
    · omega
    · rw [hout, hn, List.drop_append_of_le_length hle, hdrop]
      simp [History.call, VideoQueue.push, VideoQueue.kept, hf, hq]
    · rw [hout, htake', hlost, ← List.append_assoc]
      exact hi.gone.append_right [y]
    · rw [hout, htake']
      exact hi.popped_sublist.trans (List.sublist_append_left _ _)
    · rw [hout, htake', hlost]
      exact hi.lost_sublist.append (List.Sublist.refl _)
    · rw [hlost, List.length_append, List.length_singleton, UInt64.ofNat_add, ← hi.dropped_eq]
      simp [History.call, VideoQueue.push, hf]
  · have hv : h.queue.victim = none := by rw [VideoQueue.victim, if_neg hf]
    have hlost : (h.call (.push x)).lost = h.lost := by simp [History.call, hv]
    have hout : (h.call (.push x)).out = h.out := by
      simp only [History.out, hlost]
      rfl
    have hle : h.out ≤ h.numbered.length := by simpa using hi.out_le
    have htake' : (h.call (.push x)).numbered.take h.out = h.numbered.take h.out := by
      rw [hn, List.take_append_of_le_length hle]
    constructor
    · have := hi.out_le
      omega
    · rw [hout, hn, List.drop_append_of_le_length hle, ← hi.queue_eq]
      simp [History.call, VideoQueue.push, VideoQueue.kept, hf]
    · rw [hout, htake', hlost]
      exact hi.gone
    · rw [hout, htake']
      exact hi.popped_sublist
    · rw [hout, htake', hlost]
      exact hi.lost_sublist
    · rw [hlost, ← hi.dropped_eq]
      simp [History.call, VideoQueue.push, hf]

theorem Inv.popWait (hi : Inv h) : Inv (h.call .popWait) := by
  match hq : h.queue.queue with
  | [] =>
    have hp := VideoQueue.popWait_nil hq
    have hc : h.call .popWait = h := by simp [History.call, hp]
    rw [hc]
    exact hi
  | y :: ys =>
    obtain ⟨hp, hp'⟩ := VideoQueue.popWait_cons hq
    obtain ⟨hlt, htake, hdrop⟩ := hi.front hq
    have hpopped : (h.call .popWait).popped = h.popped ++ [y] := by simp [History.call, hp]
    have hout : (h.call .popWait).out = h.out + 1 := by
      have hlost : (h.call .popWait).lost = h.lost := rfl
      simp only [History.out, hpopped, hlost, List.length_append, List.length_singleton]
      omega
    have hnum : (h.call .popWait).numbered = h.numbered := rfl
    constructor
    · rw [hout]
      exact hlt
    · rw [hout, hnum, hdrop]
      exact hp'
    · rw [hout, hnum, htake, hpopped]
      have hmove : (h.popped ++ [y] ++ h.lost).Perm (h.popped ++ h.lost ++ [y]) := by
        simpa only [List.append_assoc] using List.perm_append_comm.append_left h.popped
      exact hmove.trans (hi.gone.append_right [y])
    · rw [hout, hnum, htake, hpopped]
      exact hi.popped_sublist.append (List.Sublist.refl _)
    · rw [hout, hnum, htake]
      exact hi.lost_sublist.trans (List.sublist_append_left _ _)
    · have hd : h.queue.popWait.2.dropped = h.queue.dropped := by
        unfold VideoQueue.popWait
        split <;> rfl
      exact hd.trans hi.dropped_eq

theorem Inv.call (hi : Inv h) (c : Call α) : Inv (h.call c) := by
  cases c with
  | push x => exact hi.push x
  | popWait => exact hi.popWait
  | shutdown => exact ⟨hi.out_le, hi.queue_eq, hi.gone, hi.popped_sublist, hi.lost_sublist,
      hi.dropped_eq⟩

theorem Inv.run (hi : Inv h) (cs : List (Call α)) : Inv (h.run cs) := by
  induction cs generalizing h with
  | nil => exact hi
  | cons c cs ih => exact ih (hi.call c)

theorem Inv.perm (hi : Inv h) : (h.popped ++ h.lost ++ h.queue.queue).Perm h.numbered := by
  have := hi.gone.append_right (h.numbered.drop h.out)
  rw [hi.queue_eq]
  rwa [List.take_append_drop] at this

/-! ## What a history accounts for -/

/-- `Push` returns whether it dropped the oldest sample of the queue. -/
def Reports (q : VideoQueue α) (x : α) : Prop :=
  ((q.push x).2 = true ∧ ∃ y ys, q.queue = y :: ys ∧ (q.push x).1.queue = ys ++ [x] ∧
      (q.push x).1.dropped = q.dropped + 1) ∨
    ((q.push x).2 = false ∧ (q.push x).1.queue = q.queue ++ [x] ∧
      (q.push x).1.dropped = q.dropped)

theorem reports (q : VideoQueue α) (x : α) : Reports q x := by
  by_cases hf : q.Full
  · have hp := q.capacity_pos
    have hl : q.capacity ≤ q.queue.length := hf
    obtain ⟨y, ys, hq⟩ := List.exists_cons_of_length_pos (by omega : 0 < q.queue.length)
    refine .inl ⟨by simp [VideoQueue.push, hf], y, ys, hq, ?_, ?_⟩
    · simp [VideoQueue.push, VideoQueue.kept, hf, hq]
    · simp [VideoQueue.push, hf]
  · refine .inr ⟨by simp [VideoQueue.push, hf], ?_, ?_⟩
    · simp [VideoQueue.push, VideoQueue.kept, hf]
    · simp [VideoQueue.push, hf]

/-- The state of the queue against its history. -/
structure Accounts (h : History α) : Prop where
  content : h.queue.queue = h.numbered.drop (h.pushed.length - h.queue.queue.length)
  popped_sublist : h.popped.Sublist h.numbered
  popped_increasing : (h.popped.map Prod.snd).Pairwise (· < ·)
  popped_disjoint : h.popped.Disjoint h.lost
  count : h.pushed.length = h.popped.length + h.lost.length + h.queue.queue.length
  /-- The counter has 64 bits. -/
  dropped : h.queue.dropped.toNat = h.lost.length % UInt64.size
  count_dropped : UInt64.ofNat h.pushed.length =
    .ofNat h.popped.length + h.queue.dropped + .ofNat h.queue.queue.length
  reports : ∀ x, Reports h.queue (x, h.pushed.length)
  older : ∀ y ∈ h.queue.queue, y.2 < h.pushed.length

theorem pairwise_numbered (h : History α) : (h.numbered.map Prod.snd).Pairwise (· < ·) := by
  rw [History.numbered, List.zipIdx_map_snd]
  exact List.pairwise_lt_range'

theorem nodup_numbered (h : History α) : h.numbered.Nodup := by
  have hp : (h.numbered.map Prod.snd).Nodup := (pairwise_numbered h).imp Nat.ne_of_lt
  exact hp.of_map Prod.snd

theorem snd_lt_of_mem_numbered {y : α × ℕ} (hy : y ∈ h.numbered) : y.2 < h.pushed.length := by
  have := List.snd_lt_of_mem_zipIdx hy
  simpa using this

theorem Inv.length_queue (hi : Inv h) : h.queue.queue.length = h.pushed.length - h.out := by
  rw [hi.queue_eq, List.length_drop, History.length_numbered]

theorem Inv.accounts (hi : Inv h) : Accounts h := by
  have hlen := hi.length_queue
  have hle := hi.out_le
  have hsub := hi.popped_sublist.trans (List.take_sublist _ _)
  have hcount : h.pushed.length = h.popped.length + h.lost.length + h.queue.queue.length := by
    have hperm := hi.perm.length_eq
    rw [List.length_append, List.length_append, History.length_numbered] at hperm
    exact hperm.symm
  constructor
  · have hout : h.pushed.length - h.queue.queue.length = h.out := by omega
    rw [hout]
    exact hi.queue_eq
  · exact hsub
  · exact (pairwise_numbered h).sublist (hsub.map Prod.snd)
  · have hnd := hi.perm.nodup_iff.2 (nodup_numbered h)
    exact List.disjoint_of_nodup_append hnd.of_append_left
  · exact hcount
  · rw [hi.dropped_eq, UInt64.toNat_ofNat']
  · rw [hcount, UInt64.ofNat_add, UInt64.ofNat_add, hi.dropped_eq]
  · intro x
    exact OpenDisplay.App.QueueHistory.reports _ _
  · intro y hy
    rw [hi.queue_eq] at hy
    exact snd_lt_of_mem_numbered (List.mem_of_mem_drop hy)

/-! ## After a shutdown -/

/-- The calls of `PopWait` among `cs`. -/
def pops : List (Call α) → ℕ
  | [] => 0
  | .popWait :: cs => pops cs + 1
  | _ :: cs => pops cs

theorem length_pushed_le (h : History α) (c : Call α) :
    h.pushed.length ≤ (h.call c).pushed.length := by
  cases c <;> simp [History.call]

theorem out_le_call (h : History α) (c : Call α) : h.out ≤ (h.call c).out := by
  cases c with
  | push x =>
    simp only [History.out, History.call, List.length_append]
    omega
  | popWait =>
    simp only [History.out, History.call, List.length_append]
    omega
  | shutdown => exact Nat.le_refl _

/-- A `PopWait` that finds a sample takes one out. -/
theorem Inv.out_popWait (hi : Inv h) (hlt : h.out < h.pushed.length) :
    (h.call .popWait).out = h.out + 1 := by
  have hlen := hi.length_queue
  obtain ⟨y, ys, hq⟩ := List.exists_cons_of_length_pos (by omega : 0 < h.queue.queue.length)
  obtain ⟨hp, -⟩ := VideoQueue.popWait_cons hq
  simp only [History.out, History.call, hp, Option.toList_some, List.length_append,
    List.length_singleton]
  omega

/-- Every `PopWait` of a run takes a sample out, until the ones pushed before it are out. -/
theorem Inv.min_le_out (hi : Inv h) (cs : List (Call α)) :
    min h.pushed.length (h.out + pops cs) ≤ (h.run cs).out := by
  induction cs generalizing h with
  | nil =>
    have := hi.out_le
    simp only [pops, History.run, List.foldl_nil]
    omega
  | cons c cs ih =>
    have hnext := ih (hi.call c)
    have hpushed := length_pushed_le h c
    have hout := out_le_call h c
    have hrun : h.run (c :: cs) = (h.call c).run cs := rfl
    rw [hrun]
    cases c with
    | popWait =>
      simp only [pops]
      by_cases hlt : h.out < h.pushed.length
      · have := hi.out_popWait hlt
        omega
      · have hle := (hi.call .popWait).out_le
        omega
    | push x =>
      simp only [pops]
      omega
    | shutdown =>
      simp only [pops]
      omega

theorem grows_run {f : History α → List (α × ℕ)} (hcall : ∀ h c, f h <+: f (h.call c))
    (h : History α) (cs : List (Call α)) : f h <+: f (h.run cs) := by
  induction cs generalizing h with
  | nil => exact List.prefix_rfl
  | cons c cs ih => exact (hcall h c).trans (ih (h.call c))

theorem numbered_grows (h : History α) (cs : List (Call α)) :
    h.numbered <+: (h.run cs).numbered := by
  refine grows_run (fun h c => ?_) h cs
  cases c with
  | push x =>
    rw [numbered_push]
    exact List.prefix_append _ _
  | popWait => exact List.prefix_rfl
  | shutdown => exact List.prefix_rfl

/-- Samples in the queue leave it within as many `PopWait` calls, whatever else is called. -/
theorem Inv.mem_gone (hi : Inv h) (cs : List (Call α)) (hpops : h.queue.queue.length ≤ pops cs)
    {y : α × ℕ} (hy : y ∈ h.queue.queue) : y ∈ (h.run cs).popped ∨ y ∈ (h.run cs).lost := by
  have hlen := hi.length_queue
  have hle := hi.out_le
  have hout := hi.min_le_out cs
  have hpre : h.numbered <+: (h.run cs).numbered.take (h.run cs).out := by
    apply List.prefix_take_iff.2 ⟨numbered_grows h cs, ?_⟩
    rw [History.length_numbered]
    omega
  have hmem : y ∈ h.numbered := by
    rw [hi.queue_eq] at hy
    exact List.mem_of_mem_drop hy
  have hgone := (hi.run cs).gone.mem_iff.2 (hpre.subset hmem)
  exact List.mem_append.1 hgone

/-- Successive `PopWait` calls return the samples of the queue from the front. -/
theorem popped_replicate (h : History α) (k : ℕ) :
    (h.run (List.replicate k .popWait)).popped = h.popped ++ h.queue.queue.take k := by
  induction k generalizing h with
  | zero => simp [History.run]
  | succ k ih =>
    have hrun : h.run (List.replicate (k + 1) .popWait) =
        (h.call .popWait).run (List.replicate k .popWait) := rfl
    rw [hrun, ih]
    match hq : h.queue.queue with
    | [] => simp [History.call, VideoQueue.popWait_nil hq, hq]
    | y :: ys =>
      obtain ⟨hp, hp'⟩ := VideoQueue.popWait_cons hq
      simp [History.call, hp, hp']

theorem lost_grows (h : History α) (cs : List (Call α)) : h.lost <+: (h.run cs).lost := by
  refine grows_run (fun h c => ?_) h cs
  cases c with
  | push x => exact List.prefix_append _ _
  | popWait => exact List.prefix_rfl
  | shutdown => exact List.prefix_rfl

theorem Inv.not_mem_lost (hi : Inv h) {y : α × ℕ} (hy : y ∈ h.queue.queue) : y ∉ h.lost := by
  intro hl
  rw [hi.queue_eq] at hy
  exact List.disjoint_take_drop (nodup_numbered h) (Nat.le_refl _) (hi.lost_sublist.subset hl) hy

/-- A sample of the queue that is dropped is dropped by the calls that follow. -/
theorem Inv.mem_lost_drop (hi : Inv h) (cs : List (Call α)) {y : α × ℕ} (hy : y ∈ h.queue.queue)
    (hl : y ∈ (h.run cs).lost) : y ∈ (h.run cs).lost.drop h.lost.length := by
  obtain ⟨later, hlater⟩ := lost_grows h cs
  rw [← hlater] at hl ⊢
  rw [List.drop_left]
  rcases List.mem_append.1 hl with hl | hl
  · exact absurd hl (hi.not_mem_lost hy)
  · exact hl

theorem capacity_run (h : History α) (cs : List (Call α)) :
    (h.run cs).queue.capacity = h.queue.capacity := by
  induction cs generalizing h with
  | nil => rfl
  | cons c cs ih =>
    have hc : (h.call c).queue.capacity = h.queue.capacity := by
      cases c with
      | push x => rfl
      | popWait =>
        simp only [History.call, VideoQueue.popWait]
        split <;> rfl
      | shutdown => rfl
    exact (ih (h.call c)).trans hc

/-- **The queue loses only the oldest samples, and accounts for each.**  In every history the queue
is bounded and accounts for what left it.  After `Shutdown` the next `PopWait` calls return the
samples of the queue from the front; whatever other calls come between, each of them leaves within
`Size()` calls of `PopWait`, returned unless a later push drops it. -/
theorem queue_accounts (capacity : ℕ) (hc : 0 < capacity) (cs : List (Call α)) :
    let h := (History.start capacity hc).run cs
    h.queue.queue.length ≤ capacity ∧ Accounts h ∧
      (∀ k, ((h.call .shutdown).run (List.replicate k .popWait)).popped =
        h.popped ++ h.queue.queue.take k) ∧
      ∀ later, h.queue.queue.length ≤ pops later → ∀ y ∈ h.queue.queue,
        y ∈ ((h.call .shutdown).run later).popped ∨
          y ∈ ((h.call .shutdown).run later).lost.drop h.lost.length := by
  intro h
  have hi : Inv h := (inv_start capacity hc).run cs
  have hs : Inv (h.call .shutdown) := hi.call .shutdown
  refine ⟨?_, hi.accounts, ?_, ?_⟩
  · have hcap : h.queue.capacity = capacity := capacity_run (History.start capacity hc) cs
    have hle := h.queue.length_le
    omega
  · intro k
    exact popped_replicate (h.call .shutdown) k
  · intro later hpops y hy
    rcases hs.mem_gone later hpops hy with hg | hg
    · exact .inl hg
    · exact .inr (hs.mem_lost_drop later hy hg)

/-- The queue of the app, after three pushes and one `PopWait`. -/
theorem queue_accounts_app :
    0 < kCapacity ∧
      Accounts ((History.start kCapacity (by decide)).run
        [.push 'a', .push 'b', .push 'c', .popWait]) :=
  ⟨by decide, (queue_accounts kCapacity (by decide) _).2.1⟩

end OpenDisplay.App.QueueHistory
