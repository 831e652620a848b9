import Mathlib.Data.List.Basic

/-!
# Frames that end in band

A stream of frames without length or header: the last element of each frame, and no other, is
marked. A reader cuts the stream at the marks.

* `Follows`: what a reader has read and what is still pending are the frames sent.
* `Follows.send`, `Follows.next`: one more frame is sent, one more element is read.
* `Follows.done`: with nothing pending, the frames read are the frames sent.
-/

namespace UnixNote.Delimited

variable {α : Type*} {stop : α → Prop} {s : List α} {sent : List (List α)} {pending : List α} {c : α}

/-- The last element, and no other, is marked. -/
def Frame (stop : α → Prop) (s : List α) : Prop :=
  ∃ init last, s = init ++ [last] ∧ stop last ∧ ∀ c ∈ init, ¬ stop c

/-- The elements read since the last mark, and the frames before. -/
structure Reader (α : Type*) where
  got : List α
  runs : List (List α)

/-- One more element is read. -/
def Reader.next (stop : α → Prop) [DecidablePred stop] (r : Reader α) (c : α) : Reader α :=
  if stop c then ⟨[], r.runs ++ [r.got ++ [c]]⟩ else ⟨r.got ++ [c], r.runs⟩

/-- The elements read and those pending are the frames sent, one after the other. -/
structure Follows (stop : α → Prop) (sent : List (List α)) (pending : List α) (r : Reader α) : Prop where
  frames : ∀ s ∈ sent, Frame stop s
  unmarked : ∀ c ∈ r.got, ¬ stop c
  aligned : ∃ rest, sent = r.runs ++ rest ∧ rest.flatten = r.got ++ pending

variable {r : Reader α}

theorem Follows.start (h : ∀ s ∈ sent, Frame stop s) : Follows stop sent sent.flatten ⟨[], []⟩ :=
  ⟨h, fun _ hc => (List.not_mem_nil hc).elim, sent, rfl, rfl⟩

theorem Follows.send (h : Follows stop sent pending r) (hs : Frame stop s) :
    Follows stop (sent ++ [s]) (pending ++ s) r := by
  obtain ⟨rest, hsent, hrest⟩ := h.aligned
  refine ⟨fun t ht => ?_, h.unmarked, rest ++ [s], ?_, ?_⟩
  · rcases List.mem_append.1 ht with ht | ht
    · exact h.frames t ht
    · rw [List.mem_singleton.1 ht]
      exact hs
  · rw [hsent, List.append_assoc]
  · rw [List.flatten_append, hrest]
    simp

/-- What was read without a mark up to a mark is the whole of the frame it lies in. -/
theorem Frame.cut {got p t : List α} (hs : Frame stop s) (hgot : ∀ c ∈ got, ¬ stop c) (hc : stop c)
    (he : s ++ t = got ++ c :: p) : s = got ++ [c] ∧ t = p := by
  obtain ⟨init, last, rfl, hlast, hinit⟩ := hs
  rw [List.append_assoc] at he
  -- both cuts are at the first mark
  induction init generalizing got with
  | nil =>
    cases got with
    | nil =>
      obtain ⟨rfl, rfl⟩ := List.cons.inj he
      exact ⟨rfl, rfl⟩
    | cons d got =>
      obtain ⟨rfl, -⟩ := List.cons.inj he
      exact absurd hlast (hgot _ List.mem_cons_self)
  | cons e init ih =>
    cases got with
    | nil =>
      obtain ⟨rfl, -⟩ := List.cons.inj he
      exact absurd hc (hinit _ List.mem_cons_self)
    | cons d got =>
      obtain ⟨rfl, htail⟩ := List.cons.inj he
      have hgot' : ∀ c ∈ got, ¬ stop c := fun c hc => hgot c (List.mem_cons_of_mem _ hc)
      have hinit' : ∀ c ∈ init, ¬ stop c := fun c hc => hinit c (List.mem_cons_of_mem _ hc)
      obtain ⟨h₁, h₂⟩ := ih hgot' htail hinit'
      exact ⟨by rw [List.cons_append, h₁, List.cons_append], h₂⟩

theorem Follows.next [DecidablePred stop] (h : Follows stop sent (c :: pending) r) :
    Follows stop sent pending (r.next stop c) := by
  obtain ⟨rest, hsent, hrest⟩ := h.aligned
  by_cases hc : stop c
  · rw [Reader.next, if_pos hc]
    refine ⟨h.frames, fun _ hm => (List.not_mem_nil hm).elim, ?_⟩
    cases rest with
    | nil => simp at hrest
    | cons s rest =>
      have hs : Frame stop s := h.frames s (by rw [hsent]; simp)
      obtain ⟨rfl, hp⟩ := hs.cut h.unmarked hc (t := rest.flatten) (by rw [← hrest, List.flatten_cons])
      exact ⟨rest, by rw [hsent, List.append_assoc]; rfl, hp⟩
  · rw [Reader.next, if_neg hc]
    refine ⟨h.frames, fun d hd => ?_, rest, hsent, by rw [hrest]; simp⟩
    rcases List.mem_append.1 hd with hd | hd
    · exact h.unmarked d hd
    · rw [List.mem_singleton.1 hd]
      exact hc

theorem Frame.ne_nil (hs : Frame stop s) : s ≠ [] := by
  obtain ⟨init, last, rfl, -⟩ := hs
  simp

/-- What is being read is the front of a frame that has more to come. -/
theorem Follows.front (h : Follows stop sent pending r) (hg : r.got ≠ []) :
    ∃ s rest, sent = r.runs ++ s :: rest ∧ r.got <+: s := by
  obtain ⟨rest, hsent, hrest⟩ := h.aligned
  cases rest with
  | nil => exact absurd (List.append_eq_nil_iff.1 hrest.symm).1 hg
  | cons s rest =>
    refine ⟨s, rest, hsent, ?_⟩
    obtain ⟨init, last, hs, hlast, -⟩ := h.frames s (by rw [hsent]; simp)
    have hfst : s <+: r.got ++ pending := ⟨rest.flatten, by rw [← hrest, List.flatten_cons]⟩
    rcases List.prefix_or_prefix_of_prefix hfst (List.prefix_append r.got pending) with hle | hle
    · -- the whole frame would have been read, its mark too
      have hmem : last ∈ r.got := hle.subset (by rw [hs]; simp)
      exact absurd hlast (h.unmarked last hmem)
    · exact hle

/-- **With nothing pending every frame has been read.** -/
theorem Follows.done (h : Follows stop sent [] r) : r.got = [] ∧ r.runs = sent := by
  have hgot : r.got = [] := by
    by_contra hg
    obtain ⟨rest, hsent, hrest⟩ := h.aligned
    obtain ⟨s, rest', hsent', -⟩ := h.front hg
    obtain rfl : rest = s :: rest' := List.append_cancel_left (hsent.symm.trans hsent')
    obtain ⟨init, last, hs, hlast, -⟩ := h.frames s (by rw [hsent]; simp)
    refine h.unmarked last ?_ hlast
    rw [List.append_nil] at hrest
    rw [← hrest, List.flatten_cons, hs]
    simp
  obtain ⟨rest, hsent, hrest⟩ := h.aligned
  refine ⟨hgot, ?_⟩
  cases rest with
  | nil => rw [hsent, List.append_nil]
  | cons s rest =>
    rw [hgot, List.append_nil, List.flatten_cons] at hrest
    have hs : Frame stop s := h.frames s (by rw [hsent]; simp)
    exact absurd (List.append_eq_nil_iff.1 hrest).1 hs.ne_nil

end UnixNote.Delimited
